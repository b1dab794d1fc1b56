import MediaFlow.Lib.Text

/-!
# JSON values

JSON documents as a reader with 64-bit numbers presents them: a number is an unsigned or a negative
integer of 64 bits, or a fraction. Objects are lists of members in the order they are walked.
-/

namespace Json

open Text

/-- A number: integers that fit, and everything else as a fraction. -/
inductive Number where
  | posInt (n : ℕ)
  | negInt (n : ℤ)
  | float (q : ℚ)
deriving DecidableEq

/-- The number that is written. -/
def Number.value : Number → ℚ
  | posInt n => n
  | negInt n => n
  | float q => q

inductive Value where
  | null
  | bool (b : Bool)
  | number (n : Number)
  | string (s : Str)
  | array (elems : List Value)
  | object (members : List (Str × Value))

/-- The members of an object. -/
abbrev Map := List (Str × Value)

namespace Value

/-- The value as an unsigned integer; fractions and negative numbers have none. -/
def asU64 : Value → Option ℕ
  | number (.posInt n) => some n
  | _ => none

def asStr : Value → Option Str
  | string s => some s
  | _ => none

theorem asU64_eq_some_iff {v : Value} {n : ℕ} : v.asU64 = some n ↔ v = .number (.posInt n) := by
  constructor
  · intro h
    unfold asU64 at h
    split at h
    · rw [Option.some.inj h]
    · cases h
  · rintro rfl
    rfl

theorem asStr_eq_some_iff {v : Value} {s : Str} : v.asStr = some s ↔ v = .string s := by
  constructor
  · intro h
    unfold asStr at h
    split at h
    · rw [Option.some.inj h]
    · cases h
  · rintro rfl
    rfl

end Value

namespace Map

/-- Add a member, or replace the one of its name. Members are in order of their names. -/
def insert : Map → Str → Value → Map
  | [], key, v => [(key, v)]
  | (k, w) :: rest, key, v =>
    if key = k then (key, v) :: rest
    else if key < k then (key, v) :: (k, w) :: rest
    else (k, w) :: insert rest key v

theorem lookup_insert_self (m : Map) (key : Str) (v : Value) :
    (m.insert key v).lookup key = some v := by
  induction m with
  | nil => exact List.lookup_cons_self
  | cons kw rest ih =>
    obtain ⟨k, w⟩ := kw
    rw [insert]
    split
    · exact List.lookup_cons_self
    split
    · exact List.lookup_cons_self
    · next hne _ => rw [List.lookup_cons, beq_false_of_ne hne, ih]

theorem lookup_insert_of_ne {m : Map} {key other : Str} (h : other ≠ key) (v : Value) :
    (m.insert key v).lookup other = m.lookup other := by
  induction m with
  | nil => rw [insert, List.lookup_cons, beq_false_of_ne h]
  | cons kw rest ih =>
    obtain ⟨k, w⟩ := kw
    rw [insert]
    split
    · next heq => rw [List.lookup_cons, List.lookup_cons, ← heq, beq_false_of_ne h]
    split
    · rw [List.lookup_cons, beq_false_of_ne h]
    · rw [List.lookup_cons, List.lookup_cons, ih]

/-- The members are in order of their names, and no two have one name. -/
def Sorted (m : Map) : Prop := m.Pairwise fun a b => a.1 < b.1

theorem Sorted.nodup {m : Map} (h : m.Sorted) : (m.map Prod.fst).Nodup :=
  List.pairwise_map.mpr (h.imp fun hlt => ne_of_lt hlt)

theorem mem_insert {m : Map} {key : Str} {v : Value} {kv : Str × Value}
    (h : kv ∈ m.insert key v) : kv = (key, v) ∨ kv ∈ m := by
  induction m with
  | nil => exact .inl (List.mem_singleton.mp h)
  | cons kw rest ih =>
    obtain ⟨k, w⟩ := kw
    rw [insert] at h
    split at h
    · exact (List.mem_cons.mp h).imp id (List.mem_cons_of_mem _)
    split at h
    · exact List.mem_cons.mp h
    · rcases List.mem_cons.mp h with rfl | h
      · exact .inr List.mem_cons_self
      · exact (ih h).imp id (List.mem_cons_of_mem _)

theorem Sorted.insert {m : Map} (h : m.Sorted) (key : Str) (v : Value) :
    (m.insert key v).Sorted := by
  induction m with
  | nil => exact List.pairwise_singleton _ _
  | cons kw rest ih =>
    obtain ⟨k, w⟩ := kw
    obtain ⟨hk, hrest⟩ := List.pairwise_cons.mp h
    rw [Map.insert]
    split
    · next heq =>
      -- the member is replaced
      rw [heq]
      exact List.pairwise_cons.mpr ⟨hk, hrest⟩
    split
    · next hlt =>
      refine List.pairwise_cons.mpr ⟨fun kv hkv => ?_, h⟩
      rcases List.mem_cons.mp hkv with rfl | hkv
      · exact hlt
      · exact lt_trans hlt (hk kv hkv)
    · next hne hnlt =>
      refine List.pairwise_cons.mpr ⟨fun kv hkv => ?_, ih hrest⟩
      rcases mem_insert hkv with rfl | hkv
      · exact lt_of_le_of_ne (not_lt.mp hnlt) (Ne.symm hne)
      · exact hk kv hkv

/-- Members that are added one after the other are in order. -/
theorem sorted_foldl_insert {β : Type*} (f : β → Value) (l : List (Str × β)) :
    Sorted (l.foldl (fun m kv => insert m kv.1 (f kv.2)) []) := by
  induction l using List.reverseRecOn with
  | nil => exact List.Pairwise.nil
  | append_singleton l kv ih =>
    rw [List.foldl_append]
    exact ih.insert _ _

/-- Where no name comes twice, each member keeps its value. -/
theorem lookup_foldl_insert {β : Type*} (f : β → Value) {l : List (Str × β)}
    (h : (l.map Prod.fst).Nodup) (name : Str) :
    (l.foldl (fun m kv => insert m kv.1 (f kv.2)) []).lookup name = (l.lookup name).map f := by
  induction l using List.reverseRecOn with
  | nil => rfl
  | append_singleton l kv ih =>
    obtain ⟨k, v⟩ := kv
    rw [List.map_append, List.nodup_append] at h
    obtain ⟨hl, -, hne⟩ := h
    rw [List.foldl_append, List.foldl_cons, List.foldl_nil, List.lookup_append]
    by_cases hname : name = k
    · have hnew : l.lookup name = none := by
        rw [List.lookup_eq_none_iff]
        intro p hp
        exact bne_iff_ne.mpr fun heq =>
          hne p.1 (List.mem_map_of_mem hp) k (by simp) (heq ▸ hname)
      rw [hnew, hname, lookup_insert_self, Option.none_or, List.lookup_cons_self, Option.map_some]
    · rw [lookup_insert_of_ne hname, ih hl, List.lookup_cons, beq_false_of_ne hname,
        List.lookup_nil, Option.or_none]

/-- The members without those of name `key`. -/
def without (m : Map) (key : Str) : Map := m.filter fun kv => kv.1 ≠ key

/-- Removing one name leaves the others. -/
theorem lookup_without {m : Map} {key other : Str} (h : other ≠ key) :
    (m.without key).lookup other = m.lookup other := by
  unfold without
  induction m with
  | nil => rfl
  | cons kv rest ih =>
    obtain ⟨k, v⟩ := kv
    by_cases hk : k = key
    · have hne : (other == k) = false := by
        rw [hk]
        exact beq_false_of_ne h
      rw [List.filter_cons_of_neg (by simpa using hk), ih, List.lookup_cons, hne]
    · rw [List.filter_cons_of_pos (by simpa using hk), List.lookup_cons, List.lookup_cons, ih]

end Map

end Json
