import Mathlib.Logic.Function.Basic
import MediaFlow.Lib.Runs
import MediaFlow.Lib.Text

/-!
# The local cache

`cache/local.rs`: a cache in memory with one time to live for all entries, set when the cache is
made. The cache may drop any entry at any time, to keep its size.
-/

open ByteString Text

namespace MediaFlow

structure CacheEntry where
  value : Bytes
  inserted : ℕ
deriving DecidableEq

structure LocalCache where
  timeToLive : ℕ
  entries : Str → Option CacheEntry

namespace LocalCache

def new (timeToLive : ℕ) : LocalCache := ⟨timeToLive, fun _ => none⟩

variable (cache : LocalCache)

def set (now : ℕ) (key : Str) (value : Bytes) : LocalCache :=
  { cache with entries := Function.update cache.entries key (some ⟨value, now⟩) }

/-- The entry under `key`, unless it has expired. -/
def live (now : ℕ) (key : Str) : Option CacheEntry :=
  (cache.entries key).filter fun e => now < e.inserted + cache.timeToLive

def get (now : ℕ) (key : Str) : Option Bytes := (cache.live now key).map (·.value)

def remove (key : Str) : LocalCache :=
  { cache with entries := Function.update cache.entries key none }

variable {cache}

theorem live_eq_some_iff {now : ℕ} {key : Str} {e : CacheEntry} :
    cache.live now key = some e ↔
      cache.entries key = some e ∧ now < e.inserted + cache.timeToLive := by
  unfold live
  rw [Option.filter_eq_some_iff]
  simp

/-- What is stored under a key, after one more insertion. -/
theorem entries_set_eq_some {now : ℕ} {key key' : Str} {value : Bytes} {e : CacheEntry}
    (h : (cache.set now key value).entries key' = some e) :
    (key' = key ∧ e = ⟨value, now⟩) ∨ cache.entries key' = some e := by
  by_cases hk : key' = key
  · rw [hk] at h
    refine .inl ⟨hk, (Option.some.inj (h.symm.trans ?_))⟩
    exact Function.update_self ..
  · exact .inr ((Function.update_of_ne hk _ _).symm.trans h)

theorem entries_remove_eq_some {key key' : Str} {e : CacheEntry}
    (h : (cache.remove key).entries key' = some e) : cache.entries key' = some e := by
  by_cases hk : key' = key
  · rw [hk] at h
    exact absurd ((Function.update_self ..).symm.trans h) nofun
  · exact (Function.update_of_ne hk _ _).symm.trans h

end LocalCache

end MediaFlow
