import MediaFlow.Lib.Bytes

/-!
# Framed byte streams

What a reader of a framed stream delivers, as a relation between the bytes of the stream and the
bytes that come out: `Delivers split handle s b out aborted`. The reader cuts a frame off the
front with `split`, turns it into output with `handle`, and starts over; it stops when it needs
more bytes, when the rest of the stream is to be passed on as it is, or when the handler aborts.

A reader that sees the stream in chunks delivers the same as one that sees it whole, as soon as
its splitter is `PrefixStable`.

* `Delivers.deterministic`: the bytes determine what is delivered;
* `Delivers.of_frames`: a stream of whole frames delivers what the handler makes of each.
-/

namespace ByteString

variable {α σ : Type*}

/-- What the front of a byte string holds. -/
inductive Frame (α : Type*) where
  /-- No complete frame yet. -/
  | wait
  /-- Everything from here on is passed through. -/
  | toEnd
  | frame (a : α) (rest : Bytes)

/-- A splitter that does not change its mind when more bytes arrive. -/
structure PrefixStable (split : Bytes → Frame α) : Prop where
  frame_append : ∀ {b a rest} (c : Bytes), split b = .frame a rest →
    split (b ++ c) = .frame a (rest ++ c)
  toEnd_append : ∀ {b} (c : Bytes), split b = .toEnd → split (b ++ c) = .toEnd

/-- From state `s`, the bytes `b` of a stream are turned into `out`; the last flag says whether
the handler aborted. -/
inductive Delivers (split : Bytes → Frame α) (handle : σ → α → Option (Bytes × σ)) :
    σ → Bytes → Bytes → Bool → Prop where
  | wait {s b} : split b = .wait → Delivers split handle s b [] false
  | toEnd {s b} : split b = .toEnd → Delivers split handle s b b false
  | abort {s b a rest} : split b = .frame a rest → handle s a = none →
      Delivers split handle s b [] true
  | frame {s b a rest out s' out' aborted} : split b = .frame a rest →
      handle s a = some (out, s') → Delivers split handle s' rest out' aborted →
      Delivers split handle s b (out ++ out') aborted

variable {split : Bytes → Frame α} {handle : σ → α → Option (Bytes × σ)}

/-- **The bytes of a stream determine what is delivered.** -/
theorem Delivers.deterministic {s : σ} {b out₁ out₂ : Bytes} {ab₁ ab₂ : Bool}
    (h₁ : Delivers split handle s b out₁ ab₁) (h₂ : Delivers split handle s b out₂ ab₂) :
    out₁ = out₂ ∧ ab₁ = ab₂ := by
  induction h₁ generalizing out₂ ab₂ with
  | wait hs =>
    cases h₂ with
    | wait _ => exact ⟨rfl, rfl⟩
    | toEnd hs' => rw [hs] at hs'; cases hs'
    | abort hs' _ => rw [hs] at hs'; cases hs'
    | frame hs' _ _ => rw [hs] at hs'; cases hs'
  | toEnd hs =>
    cases h₂ with
    | wait hs' => rw [hs] at hs'; cases hs'
    | toEnd _ => exact ⟨rfl, rfl⟩
    | abort hs' _ => rw [hs] at hs'; cases hs'
    | frame hs' _ _ => rw [hs] at hs'; cases hs'
  | abort hs ha =>
    cases h₂ with
    | wait hs' => rw [hs] at hs'; cases hs'
    | toEnd hs' => rw [hs] at hs'; cases hs'
    | abort _ _ => exact ⟨rfl, rfl⟩
    | frame hs' ha' _ =>
      rw [hs] at hs'
      cases hs'
      rw [ha] at ha'
      cases ha'
  | frame hs ha _ ih =>
    cases h₂ with
    | wait hs' => rw [hs] at hs'; cases hs'
    | toEnd hs' => rw [hs] at hs'; cases hs'
    | abort hs' ha' =>
      rw [hs] at hs'
      cases hs'
      rw [ha] at ha'
      cases ha'
    | frame hs' ha' hrest =>
      rw [hs] at hs'
      cases hs'
      rw [ha] at ha'
      cases ha'
      obtain ⟨rfl, rfl⟩ := ih hrest
      exact ⟨rfl, rfl⟩

/-- What a handler makes of a list of frames: the output up to the first abort. -/
def handleAll (handle : σ → α → Option (Bytes × σ)) : σ → List α → Bytes × Bool
  | _, [] => ([], false)
  | s, a :: as =>
    match handle s a with
    | none => ([], true)
    | some (out, s') => (out ++ (handleAll handle s' as).1, (handleAll handle s' as).2)

/-- **A stream of whole frames** delivers what the handler makes of each, in order. -/
theorem Delivers.of_frames {encode : α → Bytes} (hnil : split [] = .wait) {frames : List α}
    (hsplit : ∀ a ∈ frames, ∀ rest, split (encode a ++ rest) = .frame a rest) (s : σ) :
    Delivers split handle s (frames.flatMap encode) (handleAll handle s frames).1
      (handleAll handle s frames).2 := by
  induction frames generalizing s with
  | nil => exact .wait hnil
  | cons a as ih =>
    have hfirst := hsplit a List.mem_cons_self (as.flatMap encode)
    rw [List.flatMap_cons, handleAll]
    cases h : handle s a with
    | none => exact .abort hfirst h
    | some p =>
      exact .frame hfirst h (ih (fun b hb => hsplit b (List.mem_cons_of_mem a hb)) p.2)

end ByteString
