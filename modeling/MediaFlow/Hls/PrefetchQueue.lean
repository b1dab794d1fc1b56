import MediaFlow.Hls.Prebuffer

/-!
# The queue of a prefetcher

`update`, `prioritize` and `pop_batch_with_headers` of one prefetcher, in any order. The log has what
went on since the latest update; no step looks at it. `QueueLaws` says of it that no URL is lost or
doubled, that a prioritised one heads the next batch, that the others keep their order and that batches
go with the headers of the update. A call with `max_items` zero takes nothing, and no headers either;
so the laws are about batches of a least size.

Each law rests on one invariant of the queue against the log (`Tracks`): what every step keeps is shown
in `Tracks.step`, and `queueLaws` carries it over all runs.
-/

open Text

namespace MediaFlow

inductive QueueEvent
  | update (urls : List Str) (headers : List (Str × Str))
  | prioritize (url : Str)
  /-- `pop_batch_with_headers`. -/
  | pop (maxItems : ℕ)

/-- What the log has of an event. -/
inductive LogEntry
  | prioritized (url : Str)
  | popped (maxItems : ℕ) (batch : List Str) (headers : List (Str × Str))
deriving DecidableEq

namespace LogEntry

/-- The URLs of a batch. -/
def urls : LogEntry → List Str
  | prioritized _ => []
  | popped _ batch _ => batch

/-- A batch of a size below `least`. -/
def Below (least : ℕ) : LogEntry → Prop
  | prioritized _ => False
  | popped maxItems _ _ => maxItems < least

/-- The URLs of all batches. -/
def poppedUrls (log : List LogEntry) : List Str := log.flatMap urls

end LogEntry

open LogEntry

/-- A prefetcher, and what went on since the latest update. -/
structure QueueRun where
  prefetcher : PlaylistPrefetcher
  listed : List Str
  latestHeaders : List (Str × Str)
  log : List LogEntry

namespace QueueRun

/-- The first URLs and headers are those that the prefetcher is made with. -/
def new (urls : List Str) (headers : List (Str × Str)) : QueueRun :=
  ⟨.new urls headers 0, urls, headers, []⟩

variable (s : QueueRun)

def queue : List Str := s.prefetcher.state.queue

def step : QueueEvent → QueueRun
  | .update urls headers => ⟨s.prefetcher.update urls headers, urls, headers, []⟩
  | .prioritize url =>
    { s with prefetcher := s.prefetcher.prioritize url, log := s.log ++ [.prioritized url] }
  | .pop maxItems =>
    let ((batch, headers), prefetcher) := s.prefetcher.popBatchWithHeaders maxItems
    { s with prefetcher := prefetcher, log := s.log ++ [.popped maxItems batch headers] }

end QueueRun

def queueMachine (urls : List Str) (headers : List (Str × Str)) : Machine QueueRun QueueEvent :=
  ⟨.new urls headers, fun s e => some (s.step e)⟩

/-- The laws of the queue, since the latest update. `least` is the least size of the batches that they
are about. -/
structure QueueLaws (least : ℕ) (s : QueueRun) : Prop where
  /-- A URL of the update is queued or has been popped. -/
  listed_kept : ∀ url ∈ s.listed, url ∈ s.queue ∨ url ∈ poppedUrls s.log
  /-- So is a prioritised one, popped since then. -/
  prioritized_kept : ∀ before url after, s.log = before ++ .prioritized url :: after →
    url ∈ s.queue ∨ url ∈ poppedUrls after
  /-- A URL that is listed once is popped once only as long as it is not prioritised. -/
  popped_once : ∀ url, s.listed.count url = 1 → ∀ before during after,
    s.log = before ++ during ++ after → .prioritized url ∉ during →
      (poppedUrls during).count url ≤ 1
  /-- A prioritised URL heads the next batch, if none is prioritised after it. -/
  heads_next : ∀ before url during maxItems batch headers after,
    s.log = before ++ .prioritized url :: (during ++ .popped maxItems batch headers :: after) →
      least ≤ maxItems → (∀ entry ∈ during, entry.Below least) → batch.head? = some url
  /-- The URLs that were never prioritised keep their order. -/
  order_kept : (poppedUrls s.log ++ s.queue).filter (fun url => .prioritized url ∉ s.log)
    = s.listed.filter fun url => .prioritized url ∉ s.log
  /-- A batch goes with the headers of the update. -/
  headers_latest : ∀ maxItems batch headers, .popped maxItems batch headers ∈ s.log →
    least ≤ maxItems → headers = s.latestHeaders

/-! ### What the log says of the queue -/

/-- The queue against the log, beside the laws. -/
structure Tracks (s : QueueRun) : Prop where
  laws : QueueLaws 1 s
  headers_eq : s.prefetcher.state.headers = s.latestHeaders
  /-- A URL that is listed once is in the queue or in one batch, since it was prioritised last. -/
  once : ∀ url, s.listed.count url = 1 → ∀ before during, s.log = before ++ during →
    .prioritized url ∉ during → (poppedUrls during).count url + s.queue.count url ≤ 1
  /-- The URL prioritised last heads the queue until the next batch. -/
  heads : ∀ before url during, s.log = before ++ .prioritized url :: during →
    (∀ entry ∈ during, entry.Below 1) → s.queue.head? = some url

/-- Right after an update. -/
theorem tracks_updated {s : QueueRun} (hlog : s.log = []) (hqueue : s.queue = s.listed)
    (hheaders : s.prefetcher.state.headers = s.latestHeaders) : Tracks s := by
  have hsplit (before : List LogEntry) (entry : LogEntry) (after : List LogEntry) :
      s.log ≠ before ++ entry :: after := by
    rw [hlog]
    exact (List.append_ne_nil_of_right_ne_nil _ (List.cons_ne_nil _ _)).symm
  have hpopped (before during after : List LogEntry) (h : s.log = before ++ during ++ after) :
      during = [] := by
    rw [hlog] at h
    exact (List.append_eq_nil_iff.mp (List.append_eq_nil_iff.mp h.symm).1).2
  refine ⟨⟨?_, ?_, ?_, ?_, ?_, ?_⟩, hheaders, ?_, ?_⟩
  · exact fun url h => .inl (hqueue ▸ h)
  · exact fun before url after h => absurd h (hsplit _ _ _)
  · intro url _ before during after h _
    rw [hpopped _ _ _ h]
    exact Nat.zero_le 1
  · exact fun before url during maxItems batch headers after h => absurd h (hsplit _ _ _)
  · rw [hlog, hqueue]
    rfl
  · intro maxItems batch headers h
    rw [hlog] at h
    cases h
  · intro url hone before during h _
    have hnil : during = [] := hpopped before during [] (h.trans (List.append_nil _).symm)
    rw [hnil, hqueue, hone]
    exact le_rfl
  · exact fun before url during h => absurd h (hsplit _ _ _)

/-- A list with a new last element, taken apart. -/
theorem append_singleton_split {α : Type*} {l a b : List α} {e : α} (h : l ++ [e] = a ++ b) :
    b = [] ∨ ∃ b', b = b' ++ [e] ∧ l = a ++ b' := by
  obtain rfl | ⟨b', x, rfl⟩ := List.eq_nil_or_concat' b
  · exact .inl rfl
  · rw [← List.append_assoc] at h
    obtain ⟨hl, hx⟩ := List.append_inj' h rfl
    exact .inr ⟨b', by rw [hx], hl⟩

/-- The same, at one of its elements. -/
theorem append_singleton_split_cons {α : Type*} {l a b : List α} {e x : α}
    (h : l ++ [e] = a ++ x :: b) : (x = e ∧ b = [] ∧ l = a) ∨ ∃ b', b = b' ++ [e] ∧ l = a ++ x :: b' := by
  obtain hb | ⟨b', hb, hl⟩ := append_singleton_split h
  · exact absurd hb (List.cons_ne_nil _ _)
  · cases b' with
    | nil =>
      obtain ⟨rfl, rfl⟩ := List.cons.inj hb
      exact .inl ⟨rfl, rfl, hl.trans (List.append_nil a)⟩
    | cons y b' =>
      obtain ⟨rfl, rfl⟩ := List.cons.inj hb
      exact .inr ⟨b', rfl, hl⟩

theorem poppedUrls_append (a b : List LogEntry) : poppedUrls (a ++ b) = poppedUrls a ++ poppedUrls b :=
  List.flatMap_append

@[simp] theorem poppedUrls_singleton (entry : LogEntry) : poppedUrls [entry] = entry.urls :=
  List.append_nil _

/-- What `pop_batch_with_headers` does to the queue. -/
theorem popBatchWithHeaders_cases (p : PlaylistPrefetcher) (maxItems : ℕ) :
    (maxItems = 0 ∧ p.popBatchWithHeaders maxItems = (([], []), p)) ∨
      (1 ≤ maxItems ∧ p.popBatchWithHeaders maxItems
        = ((p.state.queue.take maxItems, p.state.headers),
          { p with state := { p.state with queue := p.state.queue.drop maxItems } })) := by
  obtain rfl | hpos := Nat.eq_zero_or_pos maxItems
  · exact .inl ⟨rfl, rfl⟩
  · exact .inr ⟨hpos, if_neg hpos.ne'⟩

section Step

variable {s s' : QueueRun}

/-- Before the newest entry the law holds as before, and with it because of the queue. -/
theorem Tracks.popped_once_of_append (h : Tracks s) {entry : LogEntry}
    (hlog : s'.log = s.log ++ [entry]) (hlisted : s'.listed = s.listed)
    (honce : ∀ url, s.listed.count url = 1 → ∀ before during, s'.log = before ++ during →
      .prioritized url ∉ during → (poppedUrls during).count url + s'.queue.count url ≤ 1)
    (url : Str) (hone : s'.listed.count url = 1) (before during after : List LogEntry)
    (hsplit : s'.log = before ++ during ++ after) (hnot : .prioritized url ∉ during) :
    (poppedUrls during).count url ≤ 1 := by
  rw [hlisted] at hone
  obtain rfl | ⟨after, rfl, hbefore⟩ := append_singleton_split (hlog.symm.trans hsplit)
  · exact (Nat.le_add_right _ _).trans
      (honce url hone before during (hsplit.trans (List.append_nil _)) hnot)
  · exact h.laws.popped_once url hone before during after hbefore hnot

/-- **A batch** takes the front of the queue. -/
theorem Tracks.pop (h : Tracks s) {maxItems : ℕ} {batch : List Str} {headers : List (Str × Str)}
    (hlog : s'.log = s.log ++ [.popped maxItems batch headers]) (hlisted : s'.listed = s.listed)
    (hlatest : s'.latestHeaders = s.latestHeaders)
    (hheaders : s'.prefetcher.state.headers = s.prefetcher.state.headers)
    (hqueue : s.queue = batch ++ s'.queue) (hzero : maxItems = 0 → batch = [])
    (hpos : 1 ≤ maxItems → headers = s.latestHeaders ∧ batch.head? = s.queue.head?) : Tracks s' := by
  have hpopped (log : List LogEntry) :
      poppedUrls (log ++ [.popped maxItems batch headers]) = poppedUrls log ++ batch := by
    rw [poppedUrls_append, poppedUrls_singleton]
    rfl
  -- what was in the queue is in the batch or stays
  have hkept {url : Str} {log : List LogEntry} (hurl : url ∈ s.queue ∨ url ∈ poppedUrls log) :
      url ∈ s'.queue ∨ url ∈ poppedUrls (log ++ [.popped maxItems batch headers]) := by
    rw [hpopped, List.mem_append]
    obtain hurl | hurl := hurl
    · rw [hqueue, List.mem_append] at hurl
      exact hurl.symm.imp_right .inr
    · exact .inr (.inl hurl)
  have honce : ∀ url, s.listed.count url = 1 → ∀ before during, s'.log = before ++ during →
      .prioritized url ∉ during → (poppedUrls during).count url + s'.queue.count url ≤ 1 := by
    intro url hone before during hsplit hnot
    obtain rfl | ⟨during, rfl, hbefore⟩ := append_singleton_split (hlog.symm.trans hsplit)
    · have hwhole := h.once url hone s.log [] (List.append_nil _).symm List.not_mem_nil
      rw [hqueue, List.count_append] at hwhole
      exact (Nat.add_le_add_left (Nat.le_add_left _ _) 0).trans (by simpa [poppedUrls] using hwhole)
    · have hwhole := h.once url hone before during hbefore fun hmem =>
        hnot (List.mem_append_left _ hmem)
      rw [hqueue, List.count_append] at hwhole
      rwa [hpopped, List.count_append, Nat.add_assoc]
  refine ⟨⟨?_, ?_, ?_, ?_, ?_, ?_⟩, ?_, ?_, ?_⟩
  · intro url hurl
    rw [hlog]
    exact hkept (h.laws.listed_kept url (hlisted ▸ hurl))
  · intro before url after hsplit
    obtain ⟨heq, -⟩ | ⟨after, rfl, hbefore⟩ := append_singleton_split_cons (hlog.symm.trans hsplit)
    · cases heq
    · exact hkept (h.laws.prioritized_kept before url after hbefore)
  · exact h.popped_once_of_append hlog hlisted honce
  · intro before url during n b hs after hsplit hn hbelow
    obtain ⟨heq, -⟩ | ⟨tail, htail, hbefore⟩ := append_singleton_split_cons (hlog.symm.trans hsplit)
    · cases heq
    · obtain ⟨heq, rfl, hduring⟩ | ⟨after, rfl, hduring⟩ := append_singleton_split_cons htail.symm
      · -- the new batch is the next one
        cases heq
        rw [(hpos hn).2]
        exact h.heads before url during (hduring ▸ hbefore) hbelow
      · exact h.laws.heads_next before url during n b hs after (hduring ▸ hbefore) hn hbelow
  · have hnever : (fun url : Str => decide (.prioritized url ∉ s'.log))
        = fun url => decide (.prioritized url ∉ s.log) := by
      ext url
      rw [hlog]
      simp
    rw [hnever, hlisted, hlog, hpopped, List.append_assoc, ← hqueue]
    exact h.laws.order_kept
  · intro n b hs hmem hn
    rw [hlatest]
    rw [hlog] at hmem
    obtain hmem | hmem := List.mem_append.mp hmem
    · exact h.laws.headers_latest n b hs hmem hn
    · cases List.mem_singleton.mp hmem
      exact (hpos hn).1
  · rw [hheaders, h.headers_eq, hlatest]
  · intro url hone
    exact honce url (hlisted ▸ hone)
  · intro before url during hsplit hbelow
    obtain ⟨heq, -⟩ | ⟨during, rfl, hbefore⟩ := append_singleton_split_cons (hlog.symm.trans hsplit)
    · cases heq
    · -- a batch of size zero
      have hnil : batch = [] := by
        refine hzero (Nat.lt_one_iff.mp ?_)
        exact hbelow _ (List.mem_append_right _ (List.mem_singleton_self _))
      have hsame : s'.queue = s.queue := by rw [hqueue, hnil, List.nil_append]
      rw [hsame]
      exact h.heads before url during hbefore fun entry hentry =>
        hbelow entry (List.mem_append_left _ hentry)

/-- What is not prioritised stays where it is among the others. -/
theorem filter_prioritize {queue : List Str} {url : Str} {p : Str → Bool} (hp : p url = false) :
    (url :: queue.erase url).filter p = queue.filter p := by
  rw [List.filter_cons_of_neg (by simp [hp])]
  induction queue with
  | nil => rfl
  | cons u queue ih =>
    by_cases hu : u = url
    · rw [hu, List.erase_cons_head, List.filter_cons_of_neg (by simp [hp])]
    · rw [List.erase_cons_tail (by simpa using hu), List.filter_cons, List.filter_cons, ih]

/-- **A prioritised URL** goes to the front. -/
theorem Tracks.prioritize (h : Tracks s) {url : Str}
    (hlog : s'.log = s.log ++ [.prioritized url]) (hlisted : s'.listed = s.listed)
    (hlatest : s'.latestHeaders = s.latestHeaders)
    (hheaders : s'.prefetcher.state.headers = s.prefetcher.state.headers)
    (hqueue : s'.queue = url :: s.queue.erase url) : Tracks s' := by
  have hpopped (log : List LogEntry) : poppedUrls (log ++ [.prioritized url]) = poppedUrls log := by
    rw [poppedUrls_append, poppedUrls_singleton]
    exact List.append_nil _
  have hkept {u : Str} {log : List LogEntry} (hu : u ∈ s.queue ∨ u ∈ poppedUrls log) :
      u ∈ s'.queue ∨ u ∈ poppedUrls (log ++ [.prioritized url]) := by
    rw [hpopped, hqueue]
    refine hu.imp_left fun hu => ?_
    by_cases heq : u = url
    · exact heq ▸ List.mem_cons_self
    · exact List.mem_cons_of_mem _ ((List.mem_erase_of_ne heq).mpr hu)
  have honce : ∀ u, s.listed.count u = 1 → ∀ before during, s'.log = before ++ during →
      .prioritized u ∉ during → (poppedUrls during).count u + s'.queue.count u ≤ 1 := by
    intro u hone before during hsplit hnot
    obtain rfl | ⟨during, rfl, hbefore⟩ := append_singleton_split (hlog.symm.trans hsplit)
    · have hwhole : s.queue.count u ≤ 1 := by
        have hnil := h.once u hone s.log [] (List.append_nil _).symm List.not_mem_nil
        exact (Nat.le_add_left _ _).trans hnil
      have hcount : s'.queue.count u ≤ 1 := by
        rw [hqueue]
        by_cases heq : u = url
        · rw [heq, List.count_cons_self, List.count_erase_self]
          rw [heq] at hwhole
          omega
        · rw [List.count_cons_of_ne (Ne.symm heq), List.count_erase_of_ne heq]
          exact hwhole
      exact (Nat.zero_add _).trans_le hcount
    · -- `u` is another one
      have hne : u ≠ url := by
        rintro rfl
        exact hnot (List.mem_append_right _ (List.mem_singleton_self _))
      rw [hpopped, hqueue, List.count_cons_of_ne (Ne.symm hne), List.count_erase_of_ne hne]
      exact h.once u hone before during hbefore fun hmem => hnot (List.mem_append_left _ hmem)
  refine ⟨⟨?_, ?_, ?_, ?_, ?_, ?_⟩, ?_, ?_, ?_⟩
  · intro u hu
    rw [hlog]
    exact hkept (h.laws.listed_kept u (hlisted ▸ hu))
  · intro before u after hsplit
    obtain ⟨heq, rfl, -⟩ | ⟨after, rfl, hbefore⟩ := append_singleton_split_cons (hlog.symm.trans hsplit)
    · cases heq
      exact .inl (hqueue ▸ List.mem_cons_self)
    · exact hkept (h.laws.prioritized_kept before u after hbefore)
  · exact h.popped_once_of_append hlog hlisted honce
  · intro before u during n b hs after hsplit hn hbelow
    obtain ⟨-, hnil, -⟩ | ⟨tail, htail, hbefore⟩ := append_singleton_split_cons (hlog.symm.trans hsplit)
    · exact absurd hnil (List.append_ne_nil_of_right_ne_nil _ (List.cons_ne_nil _ _))
    · obtain ⟨heq, -⟩ | ⟨after, rfl, hduring⟩ := append_singleton_split_cons htail.symm
      · cases heq
      · exact h.laws.heads_next before u during n b hs after (hduring ▸ hbefore) hn hbelow
  · have hnever : (fun u : Str => decide (.prioritized u ∉ s'.log))
        = fun u => decide (u ≠ url) && decide (.prioritized u ∉ s.log) := by
      ext u
      rw [hlog]
      simp [and_comm]
    rw [hnever, hlisted, hlog, hpopped, hqueue, List.filter_append,
      filter_prioritize (by simp), ← List.filter_append, ← List.filter_filter, ← List.filter_filter,
      h.laws.order_kept]
  · intro n b hs hmem hn
    rw [hlatest]
    rw [hlog] at hmem
    obtain hmem | hmem := List.mem_append.mp hmem
    · exact h.laws.headers_latest n b hs hmem hn
    · cases List.mem_singleton.mp hmem
  · rw [hheaders, h.headers_eq, hlatest]
  · intro u hone
    exact honce u (hlisted ▸ hone)
  · intro before u during hsplit hbelow
    obtain ⟨heq, -, -⟩ | ⟨during, rfl, -⟩ := append_singleton_split_cons (hlog.symm.trans hsplit)
    · cases heq
      rw [hqueue]
      rfl
    · exact absurd (hbelow _ (List.mem_append_right _ (List.mem_singleton_self _))) id

/-- **One step** keeps the log and the queue together. -/
theorem Tracks.step (h : Tracks s) (e : QueueEvent) : Tracks (s.step e) := by
  cases e with
  | update urls headers => exact tracks_updated rfl rfl rfl
  | prioritize url => exact h.prioritize rfl rfl rfl rfl rfl
  | pop maxItems =>
    obtain ⟨rfl, hpop⟩ | ⟨hpos, hpop⟩ := popBatchWithHeaders_cases s.prefetcher maxItems
    · have hstep : s.step (.pop 0) = { s with log := s.log ++ [.popped 0 [] []] } := by
        rw [QueueRun.step, hpop]
      rw [hstep]
      exact h.pop rfl rfl rfl rfl rfl (fun _ => rfl) fun hpos => absurd hpos (by decide)
    · have hstep : s.step (.pop maxItems) = { s with
          prefetcher := { s.prefetcher with state :=
            { s.prefetcher.state with queue := s.prefetcher.state.queue.drop maxItems } }
          log := s.log ++ [.popped maxItems (s.prefetcher.state.queue.take maxItems)
            s.prefetcher.state.headers] } := by
        rw [QueueRun.step, hpop]
      rw [hstep]
      refine h.pop rfl rfl rfl rfl (List.take_append_drop maxItems s.queue).symm ?_ ?_
      · intro hzero
        exact absurd hzero (Nat.one_le_iff_ne_zero.mp hpos)
      · intro _
        exact ⟨h.headers_eq, by rw [List.head?_take, if_neg (Nat.one_le_iff_ne_zero.mp hpos)]; rfl⟩

end Step

/-- **The queue laws** hold in every run, of the batches that are not asked to be empty. -/
theorem queueLaws (urls : List Str) (headers : List (Str × Str)) {s : QueueRun}
    (h : (queueMachine urls headers).Reaches Machine.Anyhow s) : QueueLaws 1 s := by
  have htracks : Tracks s := by
    refine h.invariant (tracks_updated rfl rfl rfl) fun s e s' hs _ hstep => ?_
    cases Option.some.inj hstep
    exact hs.step e
  exact htracks.laws

theorem queueLaws_prioritized : QueueLaws 1
    ((((QueueRun.new ["a".toList, "b".toList] []).step (.prioritize "b".toList)).step (.pop 1)).step
      (.pop 3)) :=
  queueLaws ["a".toList, "b".toList] []
    (.step (.step (.step .init trivial rfl) trivial rfl) trivial rfl)

/-- A batch of size zero comes without headers. -/
theorem not_queueLaws : ¬ ∀ s, (queueMachine [] [("k".toList, "v".toList)]).Reaches Machine.Anyhow s →
    QueueLaws 0 s := by
  intro h
  have hlaws := h _ (.step .init trivial (e := .pop 0) rfl)
  have hheaders := hlaws.headers_latest 0 [] [] (List.mem_singleton_self _) le_rfl
  cases hheaders

end MediaFlow
