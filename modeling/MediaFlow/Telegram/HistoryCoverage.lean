import MediaFlow.Telegram.History

/-!
# What a scan covers

A scan of up to `limit` messages should find a document that is attached to one of the newest
`limit` messages, on pages each of which is older than the pages before. The place of the next page
is that of the oldest ordinary message of a page, so a page that ends with others overlaps with the
next one, and a page without ordinary messages is the last one. `covers_iff`: what the blocks of the
history have to be.
-/

open Text

namespace MediaFlow

/-- All messages of `page` are older than those of `page'`. -/
def OlderPage (page' page : List ChatMessage) : Prop := ∀ m' ∈ page', ∀ m ∈ page, m.id < m'.id

/-- **Complete**: the newest message with the document, if it is within the limit, is found, and the
pages get older. -/
structure Covers (documentId : ℤ) (limit : ℕ) (messages : List ChatMessage)
    (scan : Option FreshFileLocation × List (List ChatMessage)) : Prop where
  found : ∀ info, (messages.take limit).findSome? (ChatMessage.location documentId) = some info →
    scan.1 = some info
  older : scan.2.Pairwise OlderPage

/-- The document is not attached to any of the messages. -/
def Without (documentId : ℤ) (messages : List ChatMessage) : Prop :=
  messages.findSome? (ChatMessage.location documentId) = none

/-- The last message is an ordinary one. -/
def EndsOrdinary (messages : List ChatMessage) : Prop :=
  messages.getLast?.any ChatMessage.isOrdinary

/-- The messages by hundreds. -/
def block (messages : List ChatMessage) (k : ℕ) : List ChatMessage :=
  (messages.drop (100 * k)).take 100

/-- **The condition**, on the full blocks that the scan has to go past: not the last of the limit,
and none up to them with the document. Each ends with an ordinary message; but where one has no
ordinary message at all, it is enough that the document is not within the limit. -/
def BlocksEndOrdinary (documentId : ℤ) (limit : ℕ) (messages : List ChatMessage) : Prop :=
  ∀ k, 100 * (k + 1) < limit → 100 * (k + 1) ≤ messages.length →
    Without documentId (messages.take (100 * (k + 1))) →
      (∀ j < k, EndsOrdinary (block messages j)) →
        EndsOrdinary (block messages k) ∨
          (∀ m ∈ block messages k, m.isOrdinary = false) ∧ Without documentId (messages.take limit)

/-! ### The condition, block by block -/

section Blocks

variable {documentId : ℤ} {limit : ℕ} {messages : List ChatMessage}

theorem without_append {a b : List ChatMessage} :
    Without documentId (a ++ b) ↔ Without documentId a ∧ Without documentId b := by
  unfold Without
  rw [List.findSome?_append, Option.or_eq_none_iff]

theorem block_zero : block messages 0 = messages.take 100 := rfl

theorem block_succ (k : ℕ) : block messages (k + 1) = block (messages.drop 100) k := by
  unfold block
  rw [List.drop_drop, Nat.mul_succ, Nat.add_comm]

theorem take_eq_append {n : ℕ} (h : 100 ≤ n) :
    messages.take n = messages.take 100 ++ (messages.drop 100).take (n - 100) := by
  obtain ⟨k, rfl⟩ := Nat.exists_eq_add_of_le h
  rw [List.take_add, Nat.add_sub_cancel_left]

/-- The first block, and the others. -/
theorem blocksEndOrdinary_iff (hlimit : 100 < limit) (hlen : 100 ≤ messages.length)
    (hwithout : Without documentId (messages.take 100)) :
    BlocksEndOrdinary documentId limit messages ↔
      (EndsOrdinary (messages.take 100) ∧
        BlocksEndOrdinary documentId (limit - 100) (messages.drop 100)) ∨
      ((¬ EndsOrdinary (messages.take 100)) ∧ (∀ m ∈ messages.take 100, m.isOrdinary = false) ∧
        Without documentId (messages.take limit)) := by
  -- the first block is without the document, so it may be left out
  have htake : ∀ n, 100 ≤ n → (Without documentId (messages.take n) ↔
      Without documentId ((messages.drop 100).take (n - 100))) := by
    intro n hn
    rw [take_eq_append hn, without_append, and_iff_right hwithout]
  constructor
  · intro h
    have hfirst := h 0 hlimit hlen hwithout fun j hj => absurd hj (Nat.not_lt_zero j)
    rw [block_zero] at hfirst
    by_cases hends : EndsOrdinary (messages.take 100)
    · refine .inl ⟨hends, fun k hk hklen hkwithout hbefore => ?_⟩
      rw [List.length_drop] at hklen
      have hnext := h (k + 1) (by omega) (by omega)
        ((htake _ (by omega)).mpr (by rwa [show 100 * (k + 1 + 1) - 100 = 100 * (k + 1) by omega]))
        fun j hj => by
          cases j with
          | zero => exact hends
          | succ j =>
            rw [block_succ]
            exact hbefore j (Nat.lt_of_succ_lt_succ hj)
      rwa [block_succ, htake limit hlimit.le] at hnext
    · exact .inr ⟨hends, hfirst.resolve_left hends⟩
  · rintro (⟨hends, h⟩ | ⟨hends, hnone, hlimited⟩)
    · intro k hk hklen hkwithout hbefore
      cases k with
      | zero => exact .inl hends
      | succ k =>
        rw [block_succ, htake limit hlimit.le]
        refine h k (by omega) (by rw [List.length_drop]; omega) ?_ fun j hj => ?_
        · have hrest := (htake _ (by omega)).mp hkwithout
          rwa [show 100 * (k + 1 + 1) - 100 = 100 * (k + 1) by omega] at hrest
        · have hnext := hbefore (j + 1) (Nat.succ_lt_succ hj)
          rwa [block_succ] at hnext
    · intro k hk hklen hkwithout hbefore
      cases k with
      | zero => exact .inr ⟨hnone, hlimited⟩
      | succ k => exact absurd (hbefore 0 (Nat.succ_pos k)) hends

end Blocks

/-! ### The next page -/

section NextPage

variable {page rest : List ChatMessage}

/-- Of messages from the newest on, the ones below the number of the last are those that follow. -/
theorem filter_lt_last {m : ChatMessage}
    (h : (page ++ m :: rest).Pairwise fun m m' => m'.id < m.id) :
    (page ++ m :: rest).filter (·.id < m.id) = rest := by
  obtain ⟨-, htail, hbefore⟩ := List.pairwise_append.mp h
  obtain ⟨hrest, -⟩ := List.pairwise_cons.mp htail
  have hpage : page.filter (·.id < m.id) = [] := by
    rw [List.filter_eq_nil_iff]
    intro a ha hlt
    exact Nat.lt_asymm (of_decide_eq_true hlt) (hbefore a ha m List.mem_cons_self)
  have hall : rest.filter (·.id < m.id) = rest := by
    rw [List.filter_eq_self]
    exact fun a ha => decide_eq_true (hrest a ha)
  rw [List.filter_append, hpage, List.nil_append, List.filter_cons_of_neg (by simp), hall]

theorem ordinaryId_eq_some_iff {m : ChatMessage} {id : ℕ} :
    m.ordinaryId = some id ↔ m.isOrdinary = true ∧ m.id = id := by
  cases m with
  | message id' media => exact ⟨fun h => ⟨rfl, Option.some.inj h⟩, fun h => congrArg some h.2⟩
  | service id' => exact iff_of_false (by intro h; cases h) (by rintro ⟨h, -⟩; cases h)
  | empty id' => exact iff_of_false (by intro h; cases h) (by rintro ⟨h, -⟩; cases h)

theorem mem_ordinaryIds_iff {id : ℕ} :
    id ∈ page.filterMap ChatMessage.ordinaryId ↔ ∃ m ∈ page, m.isOrdinary = true ∧ m.id = id := by
  rw [List.mem_filterMap]
  exact exists_congr fun m => and_congr_right fun _ => ordinaryId_eq_some_iff

/-- The offset is the number of an ordinary message, and no other one has a lower number. -/
theorem nextOffset_spec (h : ChatServer.nextOffset page ≠ 0) :
    (∃ m ∈ page, m.isOrdinary = true ∧ m.id = ChatServer.nextOffset page) ∧
      ∀ m ∈ page, m.isOrdinary = true → ChatServer.nextOffset page ≤ m.id := by
  unfold ChatServer.nextOffset at h ⊢
  cases hmin : (page.filterMap ChatMessage.ordinaryId).min? with
  | none =>
    rw [hmin] at h
    exact absurd rfl h
  | some v =>
    obtain ⟨hmem, hle⟩ := List.min?_eq_some_iff.mp hmin
    exact ⟨mem_ordinaryIds_iff.mp hmem, fun m hm hordinary =>
      hle m.id (mem_ordinaryIds_iff.mpr ⟨m, hm, hordinary, rfl⟩)⟩

theorem nextOffset_eq_zero_iff (hpos : ∀ m ∈ page, 0 < m.id) :
    ChatServer.nextOffset page = 0 ↔ ∀ m ∈ page, m.isOrdinary = false := by
  constructor
  · intro h m hm
    -- else the least id is that of an ordinary message, and ids are positive
    by_contra hordinary
    rw [Bool.not_eq_false] at hordinary
    unfold ChatServer.nextOffset at h
    cases hmin : (page.filterMap ChatMessage.ordinaryId).min? with
    | none =>
      have hmem := mem_ordinaryIds_iff.mpr ⟨m, hm, hordinary, rfl⟩
      rw [List.min?_eq_none_iff.mp hmin] at hmem
      cases hmem
    | some v =>
      rw [hmin] at h
      obtain ⟨m', hm', -, hid⟩ := mem_ordinaryIds_iff.mp (List.min?_eq_some_iff.mp hmin).1
      have hlt := hpos m' hm'
      rw [hid] at hlt
      exact Nat.lt_irrefl 0 (h ▸ hlt)
  · intro h
    by_contra hne
    obtain ⟨⟨m, hm, hordinary, -⟩, -⟩ := nextOffset_spec hne
    rw [h m hm] at hordinary
    cases hordinary

end NextPage

/-! ### The scan -/

section Scan

variable {server : ChatServer} {h : ChatHistory} {documentId : ℤ}

theorem ChatHistory.sublist_below (h : ChatHistory) (offsetId : ℕ) :
    (h.below offsetId).Sublist h.messages := by
  unfold ChatHistory.below
  split
  · exact List.Sublist.refl _
  · exact List.filter_sublist

theorem ChatHistory.descending_below (h : ChatHistory) (offsetId : ℕ) :
    (h.below offsetId).Pairwise fun m m' => m'.id < m.id :=
  h.descending.sublist (h.sublist_below offsetId)

theorem ChatHistory.positive_below (h : ChatHistory) (offsetId : ℕ) :
    ∀ m ∈ h.below offsetId, 0 < m.id :=
  fun m hm => h.positive m ((h.sublist_below offsetId).subset hm)

/-- The messages below a lower offset. -/
theorem ChatHistory.below_lower {offsetId : ℕ} {m : ChatMessage} (hm : m ∈ h.below offsetId) :
    h.below m.id = (h.below offsetId).filter (·.id < m.id) := by
  have hpos : m.id ≠ 0 := (h.positive_below offsetId m hm).ne'
  unfold ChatHistory.below at hm ⊢
  rw [if_neg hpos]
  by_cases hzero : offsetId = 0
  · rw [if_pos hzero]
  · rw [if_neg hzero] at hm ⊢
    have hlt : m.id < offsetId := of_decide_eq_true (List.mem_filter.mp hm).2
    rw [List.filter_filter]
    refine List.filter_congr fun a _ => ?_
    rw [← Bool.decide_and]
    exact decide_eq_decide.mpr ⟨fun ha => ⟨ha, ha.trans hlt⟩, fun ha => ha.1⟩

/-- **One page** of the scan. -/
theorem scanFrom_succ (hserves : server.Serves h) (batches offsetId n : ℕ) :
    ∃ n', server.scanFrom documentId (batches + 1) offsetId n =
      match ((h.below offsetId).take 100).findSome? (ChatMessage.location documentId) with
      | some info => (some info, [(h.below offsetId).take 100])
      | none =>
        if ((h.below offsetId).take 100).length < 100 then (none, [(h.below offsetId).take 100])
        else if ChatServer.nextOffset ((h.below offsetId).take 100) = 0 then
          (none, [(h.below offsetId).take 100])
        else
          ((server.scanFrom documentId batches
              (ChatServer.nextOffset ((h.below offsetId).take 100)) n').1,
            (h.below offsetId).take 100 :: (server.scanFrom documentId batches
              (ChatServer.nextOffset ((h.below offsetId).take 100)) n').2) := by
  obtain ⟨n', hpage⟩ := server.requestPage_serves hserves offsetId n
  exact ⟨n', by rw [ChatServer.scanFrom, hpage]; rfl⟩

/-- The first page of a scan. -/
theorem head?_scanFrom (hserves : server.Serves h) (batches offsetId n : ℕ) :
    (server.scanFrom documentId (batches + 1) offsetId n).2.head?
      = some ((h.below offsetId).take 100) := by
  obtain ⟨n', hscan⟩ := scanFrom_succ hserves batches offsetId n
  rw [hscan]
  split
  · rfl
  · split
    · rfl
    · split <;> rfl

/-- The pages hold messages below the offset. -/
theorem scanFrom_subset (hserves : server.Serves h) (batches offsetId n : ℕ) :
    ∀ page ∈ (server.scanFrom documentId batches offsetId n).2, page ⊆ h.below offsetId := by
  induction batches generalizing offsetId n with
  | zero => exact fun page hpage => absurd hpage List.not_mem_nil
  | succ batches ih =>
    obtain ⟨n', hscan⟩ := scanFrom_succ hserves batches offsetId n
    have hfirst : (h.below offsetId).take 100 ⊆ h.below offsetId := List.take_subset _ _
    rw [hscan]
    split
    · exact List.forall_mem_singleton.mpr hfirst
    · split
      · exact List.forall_mem_singleton.mpr hfirst
      · split
        · exact List.forall_mem_singleton.mpr hfirst
        · next hnext =>
          refine List.forall_mem_cons.mpr ⟨hfirst, fun page hpage => ?_⟩
          obtain ⟨⟨m, hm, -, hid⟩, -⟩ := nextOffset_spec hnext
          rw [← hid] at hpage
          have hsub := ih m.id n' page hpage
          rw [ChatHistory.below_lower (hfirst hm)] at hsub
          exact List.Subset.trans hsub (List.filter_subset_self _)

/-! ### One page against the blocks -/

theorem EndsOrdinary.exists_ordinary {messages : List ChatMessage} (hends : EndsOrdinary messages) :
    ∃ m ∈ messages, m.isOrdinary = true := by
  obtain ⟨m, hm, hordinary⟩ := (Option.any_eq_true _ _).mp hends
  exact ⟨m, List.mem_of_getLast? hm, hordinary⟩

/-- A full page that ends with an ordinary message: the next one begins behind it. -/
theorem below_nextOffset {offsetId : ℕ}
    (hends : EndsOrdinary ((h.below offsetId).take 100)) :
    h.below (ChatServer.nextOffset ((h.below offsetId).take 100)) = (h.below offsetId).drop 100 ∧
      ChatServer.nextOffset ((h.below offsetId).take 100) ≠ 0 := by
  set page := (h.below offsetId).take 100 with hpage
  have hsplit : page ++ (h.below offsetId).drop 100 = h.below offsetId :=
    List.take_append_drop 100 _
  have hpositive : ∀ m ∈ page, 0 < m.id := fun m hm =>
    h.positive_below offsetId m (List.mem_of_mem_take hm)
  unfold EndsOrdinary at hends
  obtain ⟨z, hz, hordinary⟩ := (Option.any_eq_true _ _).mp hends
  obtain ⟨pre, hpre⟩ := List.getLast?_eq_some_iff.mp hz
  have hmem : z ∈ page := List.mem_of_getLast? hz
  have hnonzero : ChatServer.nextOffset page ≠ 0 := by
    intro hzero
    have hnot := (nextOffset_eq_zero_iff hpositive).mp hzero z hmem
    rw [hordinary] at hnot
    cases hnot
  -- no ordinary message is older than the last one
  obtain ⟨⟨m, hm, -, hid⟩, hmin⟩ := nextOffset_spec hnonzero
  have hdescending := h.descending_below offsetId
  rw [← hsplit, hpre, List.append_assoc, List.singleton_append] at hdescending
  have hle : z.id ≤ m.id := by
    rw [hpre] at hm
    obtain hm | hm := List.mem_append.mp hm
    · exact ((List.pairwise_append.mp hdescending).2.2 m hm z List.mem_cons_self).le
    · rw [List.mem_singleton.mp hm]
  have hoffset : ChatServer.nextOffset page = z.id :=
    le_antisymm (hmin z hmem hordinary) (hid ▸ hle)
  refine ⟨?_, hnonzero⟩
  rw [hoffset, ChatHistory.below_lower (List.mem_of_mem_take hmem)]
  conv_lhs => rw [← hsplit, hpre, List.append_assoc, List.singleton_append]
  exact filter_lt_last hdescending

/-- A page that ends with another message has it in common with the next one. -/
theorem exists_common {offsetId : ℕ} (hlen : 100 ≤ (h.below offsetId).length)
    (hends : ¬ EndsOrdinary ((h.below offsetId).take 100))
    (hnext : ChatServer.nextOffset ((h.below offsetId).take 100) ≠ 0) :
    ∃ z ∈ (h.below offsetId).take 100,
      z ∈ (h.below (ChatServer.nextOffset ((h.below offsetId).take 100))).take 100 := by
  set page := (h.below offsetId).take 100 with hpage
  have hfull : page.length = 100 := by rw [hpage, List.length_take, Nat.min_eq_left hlen]
  have hsplit : page ++ (h.below offsetId).drop 100 = h.below offsetId :=
    List.take_append_drop 100 _
  have hne : page ≠ [] := List.ne_nil_of_length_pos (by omega)
  obtain ⟨⟨m, hm, hordinary, hid⟩, -⟩ := nextOffset_spec hnext
  obtain ⟨pre, z, hpre⟩ : ∃ pre z, page = pre ++ [z] :=
    ⟨page.dropLast, page.getLast hne, (List.dropLast_append_getLast hne).symm⟩
  have hz : z ∈ page := hpre ▸ List.mem_append_right pre (List.mem_singleton_self z)
  -- the last message of the page, which is not ordinary
  have hlast : z.isOrdinary = false := by
    unfold EndsOrdinary at hends
    rw [hpre, List.getLast?_append, List.getLast?_singleton] at hends
    exact (Bool.not_eq_true _).mp hends
  -- the oldest ordinary one stands before it
  have hlt : z.id < m.id := by
    have hdescending := h.descending_below offsetId
    rw [← hsplit, hpre, List.append_assoc, List.singleton_append] at hdescending
    rw [hpre] at hm
    obtain hm | hm := List.mem_append.mp hm
    · exact (List.pairwise_append.mp hdescending).2.2 m hm z List.mem_cons_self
    · rw [List.mem_singleton.mp hm, hlast] at hordinary
      cases hordinary
  refine ⟨z, hz, ?_⟩
  -- so the next page has it again
  have hmem : z ∈ page.filter (·.id < m.id) := List.mem_filter.mpr ⟨hz, decide_eq_true hlt⟩
  have hshort : (page.filter (·.id < m.id)).length ≤ 100 := hfull ▸ List.length_filter_le _ _
  rw [← hid, ChatHistory.below_lower (List.mem_of_mem_take hm), ← hsplit, List.filter_append,
    List.take_append]
  exact List.mem_append_left _ (by rwa [List.take_of_length_le hshort])

section OnePage

variable {limit : ℕ} {messages : List ChatMessage}

/-- What is found in two prefixes is the same. -/
theorem findSome?_take_unique {a b : ℕ} {info info' : FreshFileLocation}
    (ha : (messages.take a).findSome? (ChatMessage.location documentId) = some info)
    (hb : (messages.take b).findSome? (ChatMessage.location documentId) = some info') :
    info = info' := by
  have ha' := (List.take_prefix a messages).findSome?_eq_some ha
  have hb' := (List.take_prefix b messages).findSome?_eq_some hb
  exact Option.some.inj (ha'.symm.trans hb')

theorem Without.take {a b : ℕ} (hab : a ≤ b) (hwithout : Without documentId (messages.take b)) :
    Without documentId (messages.take a) :=
  (List.take_prefix_take_left hab).findSome?_eq_none hwithout

/-- A scan that ends with its first page. -/
theorem covers_last_iff :
    Covers documentId limit messages (none, [messages.take 100]) ↔
      Without documentId (messages.take limit) := by
  constructor
  · intro hcovers
    unfold Without
    cases hfound : (messages.take limit).findSome? (ChatMessage.location documentId) with
    | none => rfl
    | some info => cases hcovers.found info hfound
  · intro hlimited
    refine ⟨fun info hfound => ?_, List.pairwise_singleton _ _⟩
    rw [hlimited] at hfound
    cases hfound

/-- A scan whose first page is followed by older ones. -/
theorem covers_cons_iff {rest : Option FreshFileLocation × List (List ChatMessage)}
    (hlimit : 100 ≤ limit)
    (hwithout : Without documentId (messages.take 100))
    (hdescending : messages.Pairwise fun m m' => m'.id < m.id)
    (hsub : ∀ page ∈ rest.2, page ⊆ messages.drop 100) :
    Covers documentId limit messages (rest.1, messages.take 100 :: rest.2) ↔
      Covers documentId (limit - 100) (messages.drop 100) rest := by
  have hfound : (messages.take limit).findSome? (ChatMessage.location documentId)
      = ((messages.drop 100).take (limit - 100)).findSome? (ChatMessage.location documentId) := by
    rw [take_eq_append hlimit, List.findSome?_append, hwithout, Option.none_or]
  have hfirst : ∀ page ∈ rest.2, OlderPage (messages.take 100) page := by
    intro page hpage m' hm' m hm
    rw [← List.take_append_drop 100 messages] at hdescending
    exact (List.pairwise_append.mp hdescending).2.2 m' hm' m (hsub page hpage hm)
  constructor
  · intro hcovers
    exact ⟨fun info hinfo => hcovers.found info (hfound.trans hinfo),
      (List.pairwise_cons.mp hcovers.older).2⟩
  · intro hcovers
    exact ⟨fun info hinfo => hcovers.found info (hfound.symm.trans hinfo),
      List.pairwise_cons.mpr ⟨hfirst, hcovers.older⟩⟩

end OnePage

/-- A page that the next one repeats a message of: the pages do not get older. -/
theorem not_covers_of_repeat (hserves : server.Serves h) {limit offsetId k n : ℕ}
    {found : Option FreshFileLocation} (hlen : 100 ≤ (h.below offsetId).length)
    (hends : ¬ EndsOrdinary ((h.below offsetId).take 100))
    (hnext : ChatServer.nextOffset ((h.below offsetId).take 100) ≠ 0) :
    ¬ Covers documentId limit (h.below offsetId) (found, (h.below offsetId).take 100 ::
      (server.scanFrom documentId (k + 1)
        (ChatServer.nextOffset ((h.below offsetId).take 100)) n).2) := by
  intro hcovers
  obtain ⟨z, hz, hagain⟩ := exists_common hlen hends hnext
  have hhead := @head?_scanFrom server h documentId hserves k
    (ChatServer.nextOffset ((h.below offsetId).take 100)) n
  have holder := (List.pairwise_cons.mp hcovers.older).1 _ (List.mem_of_mem_head? hhead)
  exact Nat.lt_irrefl _ (holder z hz z hagain)

/-- **The rest of a scan** covers the rest of the limit exactly if the blocks there are as they
should be. -/
theorem scanFrom_covers_iff (hserves : server.Serves h) (batches : ℕ) :
    ∀ limit offsetId n, (limit + 99) / 100 = batches →
      (Covers documentId limit (h.below offsetId) (server.scanFrom documentId batches offsetId n) ↔
        BlocksEndOrdinary documentId limit (h.below offsetId)) := by
  induction batches with
  | zero =>
    intro limit offsetId n hlimit
    obtain rfl : limit = 0 := by omega
    refine iff_of_true ⟨fun info hinfo => ?_, List.Pairwise.nil⟩ fun k hk =>
      absurd hk (Nat.not_lt_zero _)
    rw [List.take_zero] at hinfo
    cases hinfo
  | succ batches ih =>
    intro limit offsetId n hlimit
    obtain ⟨n', hscan⟩ := @scanFrom_succ server h documentId hserves batches offsetId n
    have hpositive : ∀ m ∈ (h.below offsetId).take 100, 0 < m.id := fun m hm =>
      h.positive_below offsetId m (List.mem_of_mem_take hm)
    rw [hscan]
    cases hpage : ((h.below offsetId).take 100).findSome? (ChatMessage.location documentId) with
    | some info =>
      refine iff_of_true ⟨fun info' hinfo => ?_, List.pairwise_singleton _ _⟩
        fun k _ _ hwithout => ?_
      · exact congrArg some (findSome?_take_unique hpage hinfo)
      · have hnone := Without.take (by omega : 100 ≤ 100 * (k + 1)) hwithout
        rw [hnone] at hpage
        cases hpage
    | none =>
      change Covers _ _ _ (if _ then _ else if _ then _ else _) ↔ _
      by_cases hshort : ((h.below offsetId).take 100).length < 100
      · -- the history ends with this page
        rw [if_pos hshort, covers_last_iff]
        have hlen : (h.below offsetId).length < 100 := by
          rw [List.length_take] at hshort
          omega
        refine iff_of_true ?_ fun k _ hk => absurd hk (by omega)
        rw [List.take_of_length_le hlen.le] at hpage
        exact (List.take_prefix limit _).findSome?_eq_none hpage
      rw [if_neg hshort]
      by_cases hlast : limit ≤ 100
      · -- the limit ends with this page
        obtain rfl : batches = 0 := by omega
        simp only [ChatServer.scanFrom, ite_self]
        rw [covers_last_iff]
        exact iff_of_true (Without.take hlast hpage) fun k hk => absurd hk (by omega)
      have hlen : 100 ≤ (h.below offsetId).length := by
        rw [List.length_take] at hshort
        omega
      rw [blocksEndOrdinary_iff (by omega) hlen hpage]
      by_cases hzero : ChatServer.nextOffset ((h.below offsetId).take 100) = 0
      · -- no ordinary message: the scan ends here
        have hnone := (nextOffset_eq_zero_iff hpositive).mp hzero
        have hends : ¬ EndsOrdinary ((h.below offsetId).take 100) := by
          intro hends
          obtain ⟨m, hm, hordinary⟩ := hends.exists_ordinary
          rw [hnone m hm] at hordinary
          cases hordinary
        rw [if_pos hzero, covers_last_iff]
        exact ⟨fun hlimited => .inr ⟨hends, hnone, hlimited⟩,
          fun hblocks => hblocks.elim (fun hfirst => absurd hfirst.1 hends)
            fun hlimited => hlimited.2.2⟩
      rw [if_neg hzero]
      by_cases hends : EndsOrdinary ((h.below offsetId).take 100)
      · -- the next page begins behind this one
        have hbelow := (below_nextOffset hends).1
        have hrest := ih (limit - 100) (ChatServer.nextOffset ((h.below offsetId).take 100)) n'
          (by omega)
        have hsub := @scanFrom_subset server h documentId hserves batches
          (ChatServer.nextOffset ((h.below offsetId).take 100)) n'
        rw [hbelow] at hrest hsub
        rw [covers_cons_iff (by omega) hpage (h.descending_below offsetId) hsub, hrest]
        exact ⟨fun hblocks => .inl ⟨hends, hblocks⟩,
          fun hblocks => hblocks.elim (fun hfirst => hfirst.2)
            fun hlimited => absurd hends hlimited.1⟩
      · -- the next page has a message of this one again
        obtain ⟨k, rfl⟩ : ∃ k, batches = k + 1 := Nat.exists_eq_succ_of_ne_zero (by omega)
        refine iff_of_false (not_covers_of_repeat hserves hlen hends hzero) fun hblocks => ?_
        obtain hfirst | ⟨-, hnone, -⟩ := hblocks
        · exact hends hfirst.1
        · exact hzero ((nextOffset_eq_zero_iff hpositive).mpr hnone)

/-- **The scan covers** the newest messages, on pages that get older, exactly if each full block
that it has to go past ends with an ordinary message. -/
theorem covers_iff (hserves : server.Serves h) (limit : ℕ) :
    Covers documentId limit h.messages (server.scanHistory documentId limit) ↔
      BlocksEndOrdinary documentId limit h.messages :=
  scanFrom_covers_iff hserves _ limit 0 0 rfl

/-- Without a message that is looked up first, the search is the scan. -/
theorem getFreshDocumentInfo_of_scan (hpeer : server.resolvesPeer = true) {messageId : Option ℕ}
    (hfast : ∀ mid ∈ messageId, ∀ answer ∈ server.getMessages mid,
      extractDocInfoFromMsgs answer documentId = none) (limit : ℕ) :
    server.getFreshDocumentInfo documentId messageId limit
      = (server.scanHistory documentId limit).1 := by
  have hnone : (messageId.bind fun mid => (server.getMessages mid).bind fun answer =>
      extractDocInfoFromMsgs answer documentId) = none := by
    rw [Option.bind_eq_none_iff]
    intro mid hmid
    rw [Option.bind_eq_none_iff]
    exact hfast mid hmid
  unfold ChatServer.getFreshDocumentInfo
  rw [if_pos hpeer]
  simp only [hnone, Option.none_or]

end Scan

/-! ### Two chats -/

/-- A server that has this history and never fails. -/
def ChatHistory.server (h : ChatHistory) : ChatServer where
  resolvesPeer := true
  getMessages := fun _ => none
  getHistory := fun _ offsetId => .ok (.messages ((h.below offsetId).take 100))

theorem ChatHistory.serves_server (h : ChatHistory) : h.server.Serves h :=
  ⟨fun _ => False, fun _ _ hfails => hfails.elim, fun _ _ _ => rfl,
    fun _ => ⟨0, by omega, not_false⟩⟩

/-- Ordinary messages only. -/
theorem blocksEndOrdinary_of_ordinary {documentId : ℤ} {limit : ℕ} {messages : List ChatMessage}
    (hall : ∀ m ∈ messages, m.isOrdinary = true) : BlocksEndOrdinary documentId limit messages := by
  intro k hk hlen hwithout hbefore
  have hne : block messages k ≠ [] := by
    apply List.ne_nil_of_length_pos
    unfold block
    rw [List.length_take, List.length_drop]
    omega
  refine .inl ((Option.any_eq_true _ _).mpr
    ⟨_, List.getLast?_eq_some_getLast hne, hall _ ?_⟩)
  exact List.mem_of_mem_drop (List.mem_of_mem_take (List.getLast_mem hne))

/-- A document with number 7. -/
def trailer : TelegramDocument where
  id := 7
  accessHash := 1
  fileReference := []
  dcId := 2
  size := 1000
  mimeType := "video/mp4".toList
  attributes := []

/-- The oldest of 250 messages has the document. -/
def longChat : ChatHistory where
  messages := (List.range 250).map fun i =>
    .message (250 - i) (if i = 249 then some (.document (some (some trailer))) else none)
  positive := by
    intro m hm
    obtain ⟨i, hi, rfl⟩ := List.mem_map.mp hm
    exact Nat.sub_pos_of_lt (List.mem_range.mp hi)
  descending := by
    rw [List.pairwise_map]
    refine List.pairwise_lt_range.imp_of_mem fun ha hb hab => ?_
    exact Nat.sub_lt_sub_left (List.mem_range.mp ha) hab

theorem covers_longChat :
    longChat.server.Serves longChat ∧
      Covers 7 250 longChat.messages (longChat.server.scanHistory 7 250) := by
  have hserves := longChat.serves_server
  refine ⟨hserves, (covers_iff hserves 250).mpr (blocksEndOrdinary_of_ordinary fun m hm => ?_)⟩
  obtain ⟨i, -, rfl⟩ := List.mem_map.mp hm
  rfl

/-- A hundred messages about the chat after the one that has the document. -/
def serviceChat : ChatHistory where
  messages := ((List.range 100).map fun i => .service (101 - i))
    ++ [.message 1 (some (.document (some (some trailer))))]
  positive := by
    intro m hm
    obtain hm | hm := List.mem_append.mp hm
    · obtain ⟨i, hi, rfl⟩ := List.mem_map.mp hm
      exact Nat.sub_pos_of_lt (Nat.lt_succ_of_lt (List.mem_range.mp hi))
    · rw [List.mem_singleton.mp hm]
      exact Nat.one_pos
  descending := by
    rw [List.pairwise_append]
    refine ⟨?_, List.pairwise_singleton _ _, ?_⟩
    · rw [List.pairwise_map]
      refine List.pairwise_lt_range.imp_of_mem fun ha hb hab => ?_
      exact Nat.sub_lt_sub_left (Nat.lt_succ_of_lt (List.mem_range.mp ha)) hab
    · intro m hm m' hm'
      obtain ⟨i, hi, rfl⟩ := List.mem_map.mp hm
      rw [List.mem_singleton.mp hm']
      exact Nat.lt_sub_of_add_lt (Nat.add_lt_add_left (List.mem_range.mp hi) 1)

/-- The document is not found there. -/
theorem not_covers_serviceChat :
    ¬ ∀ (server : ChatServer) (h : ChatHistory), server.Serves h → ∀ documentId limit,
      Covers documentId limit h.messages (server.scanHistory documentId limit) := by
  intro hall
  have hcovers := hall serviceChat.server serviceChat serviceChat.serves_server 7 200
  have hfound := hcovers.found trailer.location (by decide)
  revert hfound
  decide

end MediaFlow
