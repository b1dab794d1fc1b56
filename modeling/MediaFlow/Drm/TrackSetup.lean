import MediaFlow.Drm.Mp4Decrypter
import MediaFlow.Lib.Traced

/-!
# What a moov sets up

Of all boxes below a `moov` three kinds change the decrypter: the first `tkhd` of a `trak` names
the current track, a `schm` the scheme, and a `tenc` gives the IV size, the constant IV, the
pattern and the KID. `moovEvents` reads them off the boxes, in the order they are met, and
`processMoov_traced` says that processing a `moov` is applying them. Whether it aborts, and what
the events are, does not depend on the decrypter.
-/

open ByteString Emit

namespace MediaFlow
namespace Mp4Decrypter

/-- A box that changes the decrypter while a `moov` is processed. -/
inductive SetupEvent where
  | track (id : ℕ)
  | schm (box : Mp4Atom)
  | tenc (box : Mp4Atom)
deriving DecidableEq

/-- The decrypter after a setup event. -/
def applySetup (s : Mp4Decrypter) : SetupEvent → Mp4Decrypter
  | .track id => { s with currentTrackId := id }
  | .schm box => parseSchm s box
  | .tenc box => parseTenc s box

/-! ### The events below each box -/

/-- The events of the children of a box. -/
def childEvents (trace : Mp4Atom → Option (List SetupEvent)) (parent : Mp4Atom) :
    Option (List SetupEvent) := do
  traceAll trace (← childrenOf parent.data)

/-- The events of boxes of type `target`; other boxes have none. -/
def eventsAt (target : FourCC) (trace : Mp4Atom → Option (List SetupEvent)) (box : Mp4Atom) :
    Option (List SetupEvent) :=
  if box.atomType = target then trace box else some []

def schiEvents := childEvents (eventsAt .tenc fun box => some [.tenc box])

def sinfChildEvents (child : Mp4Atom) : Option (List SetupEvent) :=
  if child.atomType = .frma ∧ child.data.length ≥ 4 then some []
  else if child.atomType = .schm then some [.schm child]
  else eventsAt .schi schiEvents child

def sinfEvents := childEvents sinfChildEvents

def entryEvents (entry : Mp4Atom) : Option (List SetupEvent) :=
  if entry.data.length < sampleEntryFixedSize entry.atomType then some []
  else do
    traceAll (eventsAt .sinf sinfEvents)
      (← listAtoms (entry.data.drop (sampleEntryFixedSize entry.atomType)))

/-- The events of the `n` sample entries from `pos` on. -/
def entriesEvents (data : Bytes) : ℕ → ℕ → Option (List SetupEvent)
  | 0, _ => some []
  | n + 1, pos => do
    match ← readAtomAt data pos data.length with
    | none => return []
    | some (entry, next) => return (← entryEvents entry) ++ (← entriesEvents data n next)

def stsdEvents (stsd : Mp4Atom) : Option (List SetupEvent) :=
  if stsd.data.length < 8 then some []
  else entriesEvents (stsd.data.drop 8) (beAt stsd.data 4 4) 0

def stblEvents := childEvents (eventsAt .stsd stsdEvents)

def minfEvents := childEvents (eventsAt .stbl stblEvents)

def mdiaEvents := childEvents (eventsAt .minf minfEvents)

/-- The event of the first `tkhd` among the children of a `trak`. -/
def tkhdEvents (children : List Mp4Atom) : Option (List SetupEvent) :=
  match children.find? (fun c => c.atomType = .tkhd) with
  | none => some []
  | some tkhd =>
    match tkhd.data with
    | [] => none
    | version :: _ =>
      let idOffset := if version = 0 then 12 else 20
      if idOffset + 4 ≤ tkhd.data.length then some [.track (beAt tkhd.data idOffset 4)]
      else some []

def trakEvents (trak : Mp4Atom) : Option (List SetupEvent) := do
  let children ← childrenOf trak.data
  return (← tkhdEvents children) ++ (← traceAll (eventsAt .mdia mdiaEvents) children)

def moovEvents := childEvents (eventsAt .trak trakEvents)

/-! ### Processing is applying the events -/

/-- What the functions below `process_moov` return beside a box is the decrypter. -/
abbrev ActsBy (f : Mp4Decrypter → Option (Mp4Atom × Mp4Decrypter))
    (trace : Option (List SetupEvent)) : Prop :=
  Traced applySetup (fun s => s) Prod.snd f trace

theorem rebuild_traced {tag : FourCC} {step : Mp4Decrypter → Mp4Atom → Option (Bytes × Mp4Decrypter)}
    {trace : Mp4Atom → Option (List SetupEvent)}
    (h : ∀ a, Traced applySetup (fun s => s) Prod.snd (fun s => step s a) (trace a)) (parent : Mp4Atom) :
    ActsBy (fun s => rebuild tag step s parent) (childEvents trace parent) := by
  refine Traced.intro fun s => ?_
  unfold rebuild childEvents
  cases childrenOf parent.data with
  | none => rfl
  | some children =>
    have hloop := (Traced.emitAll h children).eq s
    simp only [Option.bind_eq_bind, Option.bind_some, Option.pure_def]
    rw [← hloop]
    cases emitAll step s children <;> rfl

theorem rewriting_traced (target : FourCC)
    {process : Mp4Decrypter → Mp4Atom → Option (Mp4Atom × Mp4Decrypter)}
    {trace : Mp4Atom → Option (List SetupEvent)}
    (h : ∀ a, ActsBy (fun s => process s a) (trace a)) (child : Mp4Atom) :
    Traced applySetup (fun s => s) Prod.snd (fun s => rewriting target process s child)
      (eventsAt target trace child) := by
  refine Traced.intro fun s => ?_
  unfold rewriting eventsAt
  by_cases ht : child.atomType = target
  · rw [if_pos ht, if_pos ht, ← (h child).eq s]
    simp only [Option.bind_eq_bind, Option.pure_def]
    cases process s child <;> rfl
  · rw [if_neg ht, if_neg ht]
    rfl

theorem parseSchi_traced (schi : Mp4Atom) :
    Traced applySetup (fun s => s) (fun s => s) (fun s => parseSchi s schi) (schiEvents schi) := by
  refine Traced.intro fun s => ?_
  unfold parseSchi schiEvents childEvents
  cases childrenOf schi.data with
  | none => rfl
  | some children =>
    simp only [Option.bind_eq_bind, Option.bind_some, Option.pure_def, Option.map_some]
    induction children generalizing s with
    | nil => rfl
    | cons c rest ih =>
      rw [List.foldl_cons, ih, traceAll, eventsAt]
      by_cases ht : c.atomType = .tenc
      · rw [if_pos ht, if_pos ht]
        cases traceAll (eventsAt .tenc fun box => some [SetupEvent.tenc box]) rest <;> rfl
      · rw [if_neg ht, if_neg ht]
        cases traceAll (eventsAt .tenc fun box => some [SetupEvent.tenc box]) rest <;> rfl

theorem extractCodecFormat_traced (sinf : Mp4Atom) :
    Traced applySetup (fun s => s) Prod.fst (fun s => extractCodecFormat s sinf) (sinfEvents sinf) := by
  have hchild : ∀ c, Traced applySetup (Prod.fst (β := Option FourCC)) Prod.fst
      (fun st => sinfChild st c) (sinfChildEvents c) := by
    intro c
    refine Traced.intro fun st => ?_
    unfold sinfChild sinfChildEvents eventsAt
    by_cases hf : c.atomType = .frma ∧ c.data.length ≥ 4
    · rw [if_pos hf, if_pos hf]
      rfl
    by_cases hm : c.atomType = .schm
    · rw [if_neg hf, if_neg hf, if_pos hm, if_pos hm]
      rfl
    by_cases hs : c.atomType = .schi
    · rw [if_neg hf, if_neg hf, if_neg hm, if_neg hm, if_pos hs, if_pos hs]
      rw [← (parseSchi_traced c).eq st.1]
      cases parseSchi st.1 c <;> rfl
    · rw [if_neg hf, if_neg hf, if_neg hm, if_neg hm, if_neg hs, if_neg hs]
      rfl
  refine Traced.intro fun s => ?_
  unfold extractCodecFormat sinfEvents childEvents
  cases childrenOf sinf.data with
  | none => rfl
  | some children => exact Traced.foldlM hchild children (s, none)

theorem processSampleEntry_traced (entry : Mp4Atom) :
    ActsBy (fun s => processSampleEntry s entry) (entryEvents entry) := by
  have hchild : ∀ c, Traced applySetup (Prod.fst (β := Option FourCC)) (fun r => r.2.1)
      (fun st => sampleEntryChild st c) (eventsAt .sinf sinfEvents c) := by
    intro c
    refine Traced.intro fun st => ?_
    unfold sampleEntryChild eventsAt
    by_cases hs : c.atomType = .sinf
    · rw [if_pos hs, if_pos hs, ← (extractCodecFormat_traced c).eq st.1]
      cases extractCodecFormat st.1 c <;> rfl
    · rw [if_neg hs, if_neg hs]
      split <;> rfl
  refine Traced.intro fun s => ?_
  unfold processSampleEntry entryEvents
  by_cases hlen : entry.data.length < sampleEntryFixedSize entry.atomType
  · simp only [if_pos hlen]
    rfl
  · simp only [if_neg hlen]
    cases listAtoms (entry.data.drop (sampleEntryFixedSize entry.atomType)) with
    | none => rfl
    | some children =>
      have hloop := (Traced.emitAll hchild children).eq (s, none)
      simp only [Option.bind_eq_bind, Option.bind_some, Option.pure_def]
      rw [← hloop]
      cases emitAll sampleEntryChild (s, none) children <;> rfl

theorem stsdEntries_traced (data : Bytes) (n pos : ℕ) :
    Traced applySetup (fun s => s) Prod.snd (fun s => stsdEntries data n pos s)
      (entriesEvents data n pos) := by
  induction n generalizing pos with
  | zero => exact fun _ => rfl
  | succ n ih =>
    refine Traced.intro fun s => ?_
    unfold stsdEntries entriesEvents
    rcases readAtomAt data pos data.length with _ | _ | ⟨entry, next⟩
    · rfl
    · rfl
    · -- the entry, and then the entries after it
      have hrest : Traced applySetup Prod.snd Prod.snd
          (fun r : Mp4Atom × Mp4Decrypter => stsdEntries data n next r.2)
          (entriesEvents data n next) :=
        fun r => ih next r.2
      have hboth := ((processSampleEntry_traced entry).bind hrest).eq s
      simp only [Option.bind_eq_bind, Option.bind_some, Option.pure_def] at hboth ⊢
      rw [← hboth]
      cases hentry : processSampleEntry s entry with
      | none => rfl
      | some r =>
        simp only [Option.bind_some]
        cases stsdEntries data n next r.2 <;> rfl

theorem processStsd_traced (stsd : Mp4Atom) :
    ActsBy (fun s => processStsd s stsd) (stsdEvents stsd) := by
  refine Traced.intro fun s => ?_
  unfold processStsd stsdEvents
  by_cases hlen : stsd.data.length < 8
  · rw [if_pos hlen, if_pos hlen]
    rfl
  · rw [if_neg hlen, if_neg hlen, ← (stsdEntries_traced _ _ _).eq s]
    cases stsdEntries (stsd.data.drop 8) (beAt stsd.data 4 4) 0 s <;> rfl

theorem processStbl_traced (stbl : Mp4Atom) :
    ActsBy (fun s => processStbl s stbl) (stblEvents stbl) :=
  rebuild_traced (rewriting_traced .stsd processStsd_traced) stbl

theorem processMinf_traced (minf : Mp4Atom) :
    ActsBy (fun s => processMinf s minf) (minfEvents minf) :=
  rebuild_traced (rewriting_traced .stbl processStbl_traced) minf

theorem processMdia_traced (mdia : Mp4Atom) :
    ActsBy (fun s => processMdia s mdia) (mdiaEvents mdia) :=
  rebuild_traced (rewriting_traced .minf processMinf_traced) mdia

theorem readTkhd_traced (children : List Mp4Atom) :
    Traced applySetup (fun s => s) (fun s => s) (fun s => readTkhd s children) (tkhdEvents children) := by
  refine Traced.intro fun s => ?_
  unfold readTkhd tkhdEvents
  cases children.find? (fun c => c.atomType = .tkhd) with
  | none => rfl
  | some tkhd =>
    simp only
    cases tkhd.data with
    | nil => rfl
    | cons version rest =>
      simp only
      by_cases hlen : (if version = 0 then 12 else 20) + 4 ≤ (version :: rest).length
      · rw [if_pos hlen, if_pos hlen]
        rfl
      · rw [if_neg hlen, if_neg hlen]
        rfl

theorem processTrak_traced (trak : Mp4Atom) :
    ActsBy (fun s => processTrak s trak) (trakEvents trak) := by
  refine Traced.intro fun s => ?_
  unfold processTrak trakEvents
  cases childrenOf trak.data with
  | none => rfl
  | some children =>
    have hboth := ((readTkhd_traced children).bind
      (Traced.emitAll (rewriting_traced .mdia processMdia_traced) children)).eq s
    simp only [Option.bind_eq_bind, Option.bind_some, Option.pure_def] at hboth ⊢
    rw [← hboth]
    cases readTkhd s children with
    | none => rfl
    | some s₁ =>
      simp only [Option.bind_some]
      cases emitAll (rewriting .mdia processMdia) s₁ children <;> rfl

/-- **Processing a `moov`** is applying its setup events. -/
theorem processMoov_traced (moov : Mp4Atom) :
    ActsBy (fun s => processMoov s moov) (moovEvents moov) := by
  refine rebuild_traced (fun child => ?_) moov
  refine Traced.intro fun s => ?_
  unfold moovChild eventsAt
  by_cases ht : child.atomType = .trak
  · rw [if_pos ht, if_pos ht, ← (processTrak_traced child).eq s]
    cases processTrak s child <;> rfl
  · rw [if_neg ht, if_neg ht]
    split <;> rfl

end Mp4Decrypter
end MediaFlow
