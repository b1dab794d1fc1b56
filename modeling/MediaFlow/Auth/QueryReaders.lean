import MediaFlow.Auth.TokenQuery

/-!
# The two readers of a query string

Without a token, one query string is read twice: by the middleware, which splits it at `&` and `=`
and percent-decodes the values, and by the handlers, which read it as a form. `ReadersAgree` says
that the destination and the headers of the middleware's `ProxyData` are what the form gives.

A segment concerns a name when one of the readers takes it for that name. What decides is the last
segment that concerns a name: `ReadAlike` asks that both readers take it, with the same value.

* `requestHeader_build`: the headers of `ProxyData` are the parameters of their names;
* `readersAgree_iff`: when the two readers agree.
-/

open Text Json UrlCoding

namespace MediaFlow

/-- The headers of a `ProxyData`, by name. -/
def headerValue (headers : Option Value) (name : Str) : Option Value :=
  match headers with
  | some (.object members) => members.lookup name
  | _ => none

section Web

variable (web : WebCrates)

/-- What a form gives for a name. -/
def formValue (qs key : Str) : Option Str := lastValue key (web.formPairs qs)

/-- The `ProxyData` that the middleware makes of a query string. -/
def storedProxyData (qs : Str) : ProxyData := buildProxyDataFromQuery (extractQueryParams web qs)

/-- Destination and headers are what a form gives. -/
structure ReadersAgree (qs : Str) : Prop where
  destination : (storedProxyData web qs).destination
    = ((formValue web qs "d".toList).or (formValue web qs "url".toList)).getD []
  requestHeaders : ∀ name : Str, headerValue (storedProxyData web qs).requestHeaders name
    = (formValue web qs ("h_".toList ++ name)).map .string
  responseHeaders : ∀ name : Str, headerValue (storedProxyData web qs).responseHeaders name
    = (formValue web qs ("r_".toList ++ name)).map .string

/-- The value that the middleware takes from a segment for a name. -/
def taken (key segment : Str) : Option Str :=
  match splitOnce '=' segment with
  | some (k, v) => if k = key ∧ v ≠ [] then some (urldecodeOr web v) else none
  | none => none

/-- The value that a form takes from a segment for a name. -/
def named (key segment : Str) : Option Str :=
  if segment = [] then none else valueFor key (formPair segment)

/-- The segments that one of the readers takes for a name. -/
def concerning (key qs : Str) : List Str :=
  (qs.splitOn '&').filter fun s => (taken web key s).isSome || (named key s).isSome

/-- Both readers take a segment for the name, with the same value. -/
def AlikeAs (key segment : Str) : Prop :=
  ∃ v, splitOnce '=' segment = some (key, v) ∧ v ≠ [] ∧ formDecode key = key ∧
    urldecodeOr web v = formDecode v

end Web

/-- The names that `ProxyData` is made of: the destination and the headers. -/
def ProxyName (key : Str) : Prop :=
  key = "d".toList ∨ key = "url".toList ∨ "h_".toList <+: key ∨ "r_".toList <+: key

/-- The last segment that concerns a name is read alike, for each name of `ProxyData`. -/
def ReadAlike (web : WebCrates) (qs : Str) : Prop :=
  ∀ key, ProxyName key → ∀ s, (concerning web key qs).getLast? = some s → AlikeAs web key s

/-- A query string with one segment for each name, with one of `d` and `url`, and a value for it. -/
structure Unambiguous (web : WebCrates) (qs : Str) : Prop where
  once : ∀ key, ProxyName key → (concerning web key qs).length ≤ 1
  oneDestination : concerning web "d".toList qs = [] ∨ concerning web "url".toList qs = []
  notEmpty : ∀ key s, key = "d".toList ∨ key = "url".toList → s ∈ concerning web key qs →
    (formPair s).2 ≠ []

/-! ### The middleware -/

variable {web : WebCrates}

theorem extractQueryParams_sorted (qs : Str) : (extractQueryParams web qs).Sorted := by
  unfold extractQueryParams
  induction qs.splitOn '&' using List.reverseRecOn with
  | nil => exact List.Pairwise.nil
  | append_singleton segments s ih =>
    rw [List.foldl_append, List.foldl_cons, List.foldl_nil, extractParam]
    split
    · split
      · exact ih.insert _ _
      · exact ih
    · exact ih

/-- A segment replaces the value of a name when it is taken for it. -/
theorem lookup_extractParam {key : Str} (hkey : key ≠ []) (params : Map) (s : Str) :
    (extractParam web params s).lookup key
      = ((taken web key s).map .string).or (params.lookup key) := by
  unfold extractParam taken
  cases splitOnce '=' s with
  | none => rfl
  | some kv =>
    obtain ⟨k, v⟩ := kv
    show (if k ≠ [] ∧ v ≠ [] then params.insert k (.string (urldecodeOr web v))
      else params).lookup key
        = ((if k = key ∧ v ≠ [] then some (urldecodeOr web v) else none).map .string).or _
    by_cases hv : v = []
    · rw [if_neg fun h => h.2 hv, if_neg fun h => h.2 hv]
      rfl
    by_cases hk : k = key
    · rw [if_pos ⟨hk ▸ hkey, hv⟩, if_pos ⟨hk, hv⟩, hk, Map.lookup_insert_self]
      rfl
    · rw [if_neg fun h : k = key ∧ v ≠ [] => hk h.1]
      split
      · exact Map.lookup_insert_of_ne (Ne.symm hk) _
      · rfl

/-- The middleware keeps the last value that it takes for a name. -/
theorem lookup_extract {key : Str} (hkey : key ≠ []) (qs : Str) :
    (extractQueryParams web qs).lookup key
      = ((qs.splitOn '&').filterMap (taken web key)).getLast?.map .string := by
  unfold extractQueryParams
  induction qs.splitOn '&' using List.reverseRecOn with
  | nil => rfl
  | append_singleton segments s ih =>
    rw [List.foldl_append, List.foldl_cons, List.foldl_nil, lookup_extractParam hkey, ih,
      List.filterMap_append, List.getLast?_append]
    cases htaken : taken web key s with
    | none =>
      rw [List.filterMap_cons_none htaken]
      rfl
    | some v =>
      rw [List.filterMap_cons_some htaken]
      rfl

/-- A header that is added last. -/
theorem headers_of_sorted {members : Map} (hnodup : (members.map Prod.fst).Nodup) (name : Str) :
    (members.foldl addHeader ([], [])).1.lookup name = members.lookup ("h_".toList ++ name) ∧
      (members.foldl addHeader ([], [])).2.lookup name = members.lookup ("r_".toList ++ name) := by
  induction members using List.reverseRecOn with
  | nil => exact ⟨rfl, rfl⟩
  | append_singleton members member ih =>
    obtain ⟨k, v⟩ := member
    rw [List.map_append, List.nodup_append] at hnodup
    obtain ⟨hmembers, -, hne⟩ := hnodup
    obtain ⟨ihh, ihr⟩ := ih hmembers
    -- the name of the last member is new
    have hnew : members.lookup k = none := by
      rw [List.lookup_eq_none_iff]
      intro p hp
      exact bne_iff_ne.mpr (Ne.symm (hne p.1 (List.mem_map_of_mem hp) k (by simp)))
    rw [List.foldl_append, List.foldl_cons, List.foldl_nil, List.lookup_append, List.lookup_append,
      addHeader]
    have hlast : ∀ key : Str, ([(k, v)] : Map).lookup key = if key = k then some v else none := by
      intro key
      by_cases h : key = k
      · simp [h]
      · simp [h]
    rw [hlast, hlast]
    cases hh : stripPrefix "h_".toList k with
    | some stripped =>
      obtain rfl := stripPrefix_eq_some_iff.mp hh
      have hr : "r_".toList ++ name ≠ "h_".toList ++ stripped := fun h => by cases h
      rw [if_neg hr, Option.or_none]
      refine ⟨?_, ihr⟩
      show (Map.insert _ stripped v).lookup name = _
      by_cases hname : name = stripped
      · rw [hname, Map.lookup_insert_self, hnew, if_pos rfl]
        rfl
      · have happ : "h_".toList ++ name ≠ "h_".toList ++ stripped := fun h =>
          hname (List.append_cancel_left h)
        rw [Map.lookup_insert_of_ne hname, ihh, if_neg happ, Option.or_none]
    | none =>
      have hnoth : "h_".toList ++ name ≠ k := by
        rintro rfl
        rw [stripPrefix_append] at hh
        cases hh
      rw [if_neg hnoth, Option.or_none]
      cases hr : stripPrefix "r_".toList k with
      | some stripped =>
        obtain rfl := stripPrefix_eq_some_iff.mp hr
        refine ⟨ihh, ?_⟩
        show (Map.insert _ stripped v).lookup name = _
        by_cases hname : name = stripped
        · rw [hname, Map.lookup_insert_self, hnew, if_pos rfl]
          rfl
        · have happ : "r_".toList ++ name ≠ "r_".toList ++ stripped := fun h =>
            hname (List.append_cancel_left h)
          rw [Map.lookup_insert_of_ne hname, ihr, if_neg happ, Option.or_none]
      | none =>
        have hnotr : "r_".toList ++ name ≠ k := by
          rintro rfl
          rw [stripPrefix_append] at hr
          cases hr
        rw [if_neg hnotr, Option.or_none]
        exact ⟨ihh, ihr⟩

/-- The last value that the middleware takes for a name. -/
def takenValue (web : WebCrates) (qs key : Str) : Option Str :=
  ((qs.splitOn '&').filterMap (taken web key)).getLast?

/-- **What the middleware stores**: the parameters of the names, as it takes them. -/
theorem stored_eq (qs : Str) :
    (storedProxyData web qs).destination
        = ((takenValue web qs "d".toList).or (takenValue web qs "url".toList)).getD [] ∧
      (∀ name, headerValue (storedProxyData web qs).requestHeaders name
        = (takenValue web qs ("h_".toList ++ name)).map .string) ∧
      (∀ name, headerValue (storedProxyData web qs).responseHeaders name
        = (takenValue web qs ("r_".toList ++ name)).map .string) := by
  have hheaders := headers_of_sorted (@extractQueryParams_sorted web qs).nodup
  refine ⟨?_, fun name => ?_, fun name => ?_⟩
  · show ((((extractQueryParams web qs).lookup "d".toList).or
      ((extractQueryParams web qs).lookup "url".toList)).bind Value.asStr).getD [] = _
    rw [lookup_extract (by decide), lookup_extract (by decide)]
    unfold takenValue
    cases ((qs.splitOn '&').filterMap (taken web "d".toList)).getLast? with
    | some x => rfl
    | none =>
      cases ((qs.splitOn '&').filterMap (taken web "url".toList)).getLast? <;> rfl
  · exact (hheaders name).1.trans (lookup_extract (by simp) qs)
  · exact (hheaders name).2.trans (lookup_extract (by simp) qs)

/-! ### The form -/

theorem formValue_eq (hweb : web.CodesUrls) (qs key : Str) :
    formValue web qs key = ((qs.splitOn '&').filterMap (named key)).getLast? := by
  unfold formValue
  rw [hweb.formPairs, formPairs, lastValue_eq_getLast?, List.filterMap_map]
  congr 1
  induction qs.splitOn '&' with
  | nil => rfl
  | cons s segments ih =>
    by_cases hs : s = []
    · rw [List.filter_cons_of_neg (by simpa using hs), ih, List.filterMap_cons_none]
      exact if_pos hs
    · rw [List.filter_cons_of_pos (by simpa using hs), List.filterMap_cons, List.filterMap_cons, ih]
      unfold named
      rw [if_neg hs]
      rfl

/-! ### The last segment decides -/

section Last

variable {α β : Type*} {f g : α → Option β}

/-- Two readers give the same when both take the last element that one of them takes, with the
same value. -/
theorem getLast?_filterMap_congr {l : List α}
    (h : ∀ a, (l.filter fun a => (f a).isSome || (g a).isSome).getLast? = some a → f a = g a) :
    (l.filterMap f).getLast? = (l.filterMap g).getLast? := by
  induction l using List.reverseRecOn with
  | nil => rfl
  | append_singleton l a ih =>
    rw [List.filterMap_append, List.filterMap_append, List.getLast?_append, List.getLast?_append]
    by_cases ha : ((f a).isSome || (g a).isSome) = true
    · have hfg : f a = g a := h a (by rw [List.filter_append]; simp [ha])
      cases hf : f a with
      | some b =>
        rw [List.filterMap_cons_some hf, List.filterMap_cons_some (hfg ▸ hf)]
        rfl
      | none =>
        rw [← hfg, hf] at ha
        cases ha
    · -- an element that nobody takes
      rw [Bool.not_eq_true, Bool.or_eq_false_iff, Option.isSome_eq_false_iff,
        Option.isSome_eq_false_iff, Option.isNone_iff_eq_none, Option.isNone_iff_eq_none] at ha
      rw [List.filterMap_cons_none ha.1, List.filterMap_cons_none ha.2]
      refine ih fun b hb => h b ?_
      rw [List.filter_append]
      simp [ha.1, ha.2, hb]

/-- The only element that is taken decides. -/
theorem getLast?_filterMap_of_filter {l : List α} {a : α} {p : α → Bool}
    (hp : ∀ b, (f b).isSome = true → p b = true) (h : l.filter p = [a]) :
    (l.filterMap f).getLast? = f a := by
  have hfilter : l.filterMap f = (l.filter p).filterMap f := by
    clear h
    induction l with
    | nil => rfl
    | cons b l ih =>
      by_cases hb : p b = true
      · rw [List.filter_cons_of_pos hb, List.filterMap_cons, List.filterMap_cons, ih]
      · have hnone : f b = none := by
          cases hf : f b with
          | none => rfl
          | some v => exact absurd (hp b (by rw [hf]; rfl)) hb
        rw [List.filter_cons_of_neg hb, List.filterMap_cons_none hnone, ih]
  rw [hfilter, h]
  cases hf : f a with
  | none => rw [List.filterMap_cons_none hf]; rfl
  | some v => rw [List.filterMap_cons_some hf]; rfl

end Last

theorem AlikeAs.eq {key s : Str} (h : AlikeAs web key s) : taken web key s = named key s := by
  obtain ⟨v, hsplit, hv, hname, hvalue⟩ := h
  have hne : s ≠ [] := by
    rintro rfl
    cases hsplit
  rw [taken, named, hsplit, if_neg hne, splitOnce_formPair hsplit]
  show (if key = key ∧ v ≠ [] then _ else _) = if formDecode key = key then _ else _
  rw [if_pos ⟨rfl, hv⟩, if_pos hname, hvalue]

/-- A segment that both readers take with the same value is read alike. -/
theorem alikeAs_of_eq {key s x : Str} (htaken : taken web key s = some x)
    (hnamed : named key s = some x) : AlikeAs web key s := by
  unfold taken at htaken
  cases hsplit : splitOnce '=' s with
  | none =>
    rw [hsplit] at htaken
    cases htaken
  | some kv =>
    obtain ⟨k, v⟩ := kv
    have hne : s ≠ [] := by
      rintro rfl
      cases hsplit
    simp only [hsplit] at htaken
    rw [named, if_neg hne, splitOnce_formPair hsplit] at hnamed
    split at htaken
    · next htake =>
      obtain ⟨rfl, hv⟩ := htake
      unfold valueFor at hnamed
      split at hnamed
      · next hname =>
        refine ⟨v, hsplit, hv, hname, ?_⟩
        rw [Option.some.inj htaken, ← Option.some.inj hnamed]
      · cases hnamed
    · cases htaken

/-- Readers that read the last segment alike find the same value. -/
theorem takenValue_eq (hweb : web.CodesUrls) {qs key : Str}
    (h : ∀ s, (concerning web key qs).getLast? = some s → AlikeAs web key s) :
    takenValue web qs key = formValue web qs key := by
  rw [formValue_eq hweb]
  exact getLast?_filterMap_congr fun s hs => (h s hs).eq

/-- A name with one segment: what each reader finds is what it takes from there. -/
theorem values_of_once (hweb : web.CodesUrls) {qs key s : Str}
    (h : concerning web key qs = [s]) :
    takenValue web qs key = taken web key s ∧ formValue web qs key = named key s := by
  rw [formValue_eq hweb]
  refine ⟨getLast?_filterMap_of_filter (fun b hb => ?_) h,
    getLast?_filterMap_of_filter (fun b hb => ?_) h⟩
  · rw [hb]
    rfl
  · rw [hb]
    exact Bool.or_true _

theorem values_of_none (hweb : web.CodesUrls) {qs key : Str} (h : concerning web key qs = []) :
    takenValue web qs key = none ∧ formValue web qs key = none := by
  have hnone := List.filter_eq_nil_iff.mp h
  rw [formValue_eq hweb]
  unfold takenValue
  constructor
  all_goals
    rw [List.filterMap_eq_nil_iff.mpr]
    · rfl
    · intro s hs
      have hs := hnone s hs
      rw [Bool.not_eq_true, Bool.or_eq_false_iff, Option.isSome_eq_false_iff,
        Option.isSome_eq_false_iff, Option.isNone_iff_eq_none, Option.isNone_iff_eq_none] at hs
      first
        | exact hs.1
        | exact hs.2

/-- A name with one segment is read alike when the readers find the same, and something. -/
theorem alikeAs_of_agree (hweb : web.CodesUrls) {qs key s : Str}
    (hone : concerning web key qs = [s])
    (heq : takenValue web qs key = formValue web qs key) : AlikeAs web key s := by
  obtain ⟨htaken, hnamed⟩ := values_of_once hweb hone
  have hmem : s ∈ concerning web key qs := hone ▸ List.mem_singleton_self s
  have hsome := (List.mem_filter.mp hmem).2
  rw [htaken, hnamed] at heq
  cases hx : taken web key s with
  | some x => exact alikeAs_of_eq hx (heq ▸ hx)
  | none =>
    rw [← heq, hx] at hsome
    cases hsome

/-! ### When the readers agree -/

/-- A destination is read alike when it is given once, as `d` or as `url`, and is not empty. -/
theorem alikeAs_destination (hweb : web.CodesUrls) {qs key other s : Str}
    (hkey : key = "d".toList ∨ key = "url".toList) (hun : Unambiguous web qs)
    (hone : concerning web key qs = [s]) (hother : concerning web other qs = [])
    (heq : ((takenValue web qs key).or (takenValue web qs other)).getD []
      = ((formValue web qs key).or (formValue web qs other)).getD []) : AlikeAs web key s := by
  obtain ⟨htaken, hnamed⟩ := values_of_once hweb hone
  obtain ⟨hnone, hnone'⟩ := values_of_none hweb hother
  have hmem : s ∈ concerning web key qs := hone ▸ List.mem_singleton_self s
  have hne := hun.notEmpty key s hkey hmem
  have hsome := (List.mem_filter.mp hmem).2
  rw [hnone, hnone', Option.or_none, Option.or_none, htaken, hnamed] at heq
  -- these names decode to themselves, so what the middleware takes a form takes too
  have hdecode : formDecode key = key := by
    rcases hkey with rfl | rfl <;> decide +kernel
  have hboth : ∀ x, taken web key s = some x → named key s = some (formPair s).2 := by
    intro x hx
    unfold taken at hx
    cases hsplit : splitOnce '=' s with
    | none =>
      rw [hsplit] at hx
      cases hx
    | some kv =>
      obtain ⟨k, v⟩ := kv
      simp only [hsplit] at hx
      split at hx
      · next htake =>
        have hs : s ≠ [] := by
          rintro rfl
          cases hsplit
        rw [named, if_neg hs, splitOnce_formPair hsplit, htake.1]
        exact if_pos hdecode
      · cases hx
  have hvalue : ∀ y, named key s = some y → y = (formPair s).2 := by
    intro y hy
    unfold named at hy
    split at hy
    · cases hy
    · unfold valueFor at hy
      split at hy
      · exact (Option.some.inj hy).symm
      · cases hy
  cases hx : taken web key s with
  | some x =>
    have hy := hboth x hx
    rw [hx, hy] at heq
    exact alikeAs_of_eq hx (hy.trans (congrArg some (show (formPair s).2 = x from heq.symm)))
  | none =>
    rw [hx] at heq hsome
    cases hy : named key s with
    | none =>
      rw [hy] at hsome
      cases hsome
    | some y =>
      rw [hy] at heq
      exact absurd ((hvalue y hy).symm.trans (show y = [] from heq.symm)) hne

/-- **When the two readers agree**: when the last segment that concerns a name is read alike, for the
destination and for each header. In an unambiguous query string that is needed too. -/
theorem readersAgree_iff (hweb : web.CodesUrls) (qs : Str) :
    (ReadAlike web qs → ReadersAgree web qs) ∧
      (Unambiguous web qs → ReadersAgree web qs → ReadAlike web qs) := by
  obtain ⟨hdestination, hrequest, hresponse⟩ := @stored_eq web qs
  constructor
  · intro halike
    have hvalue : ∀ key, ProxyName key → takenValue web qs key = formValue web qs key :=
      fun key hkey => takenValue_eq hweb (halike key hkey)
    refine ⟨?_, fun name => ?_, fun name => ?_⟩
    · rw [hdestination, hvalue _ (.inl rfl), hvalue _ (.inr (.inl rfl))]
    · rw [hrequest, hvalue _ (.inr (.inr (.inl (List.prefix_append _ _))))]
    · rw [hresponse, hvalue _ (.inr (.inr (.inr (List.prefix_append _ _))))]
  · intro hun hagree key hkey s hs
    -- the one segment that concerns the name
    have hone : concerning web key qs = [s] := by
      have hlen := hun.once key hkey
      cases hlist : concerning web key qs with
      | nil =>
        rw [hlist] at hs
        cases hs
      | cons a rest =>
        rw [hlist] at hs hlen
        have hrest : rest = [] := List.eq_nil_of_length_eq_zero (by simpa using hlen)
        rw [hrest] at hs ⊢
        rw [show a = s from Option.some.inj hs]
    have hheader : ∀ {value : Option Value}, value = (takenValue web qs key).map .string →
        value = (formValue web qs key).map .string → AlikeAs web key s := by
      intro value htaken hform
      refine alikeAs_of_agree hweb hone ?_
      refine Option.map_injective (fun a b h => ?_) (htaken.symm.trans hform)
      exact Value.string.inj h
    rcases hkey with rfl | rfl | ⟨name, rfl⟩ | ⟨name, rfl⟩
    · have hurl : concerning web "url".toList qs = [] := by
        rcases hun.oneDestination with h | h
        · rw [hone] at h
          cases h
        · exact h
      have hd := hagree.destination
      rw [hdestination] at hd
      exact alikeAs_destination hweb (.inl rfl) hun hone hurl hd
    · have hd : concerning web "d".toList qs = [] := by
        rcases hun.oneDestination with h | h
        · exact h
        · rw [hone] at h
          cases h
      obtain ⟨hnone, hnone'⟩ := values_of_none hweb hd
      have heq := hagree.destination
      rw [hdestination, hnone, hnone', Option.none_or, Option.none_or] at heq
      refine alikeAs_destination hweb (.inr rfl) hun hone hd ?_
      rw [hnone, hnone', Option.or_none, Option.or_none]
      exact heq
    · exact hheader (hrequest name) (hagree.requestHeaders name)
    · exact hheader (hresponse name) (hagree.responseHeaders name)

/-! ### Plain parameters -/

/-- A query string whose parameters all have plain names and values that both readers read alike. -/
theorem readAlike_of_plain {qs : Str} (h : ∀ s ∈ qs.splitOn '&', ∃ k v, splitOnce '=' s = some (k, v) ∧
    v ≠ [] ∧ formDecode k = k ∧ urldecodeOr web v = formDecode v) : ReadAlike web qs := by
  intro key _ s hs
  obtain ⟨hmem, hconcerns⟩ := List.mem_filter.mp (List.mem_of_getLast? hs)
  obtain ⟨k, v, hsplit, hv, hname, hvalue⟩ := h s hmem
  -- the name of the segment is the only one that it concerns
  have hkey : k = key := by
    rcases Bool.or_eq_true_iff.mp hconcerns with htaken | hnamed
    · rw [taken, hsplit] at htaken
      simp only at htaken
      split at htaken
      · next htake => exact htake.1
      · cases htaken
    · rw [named, splitOnce_formPair hsplit] at hnamed
      split at hnamed
      · cases hnamed
      · unfold valueFor at hnamed
        split at hnamed
        · next heq => exact hname.symm.trans heq
        · cases hnamed
  exact ⟨v, hkey ▸ hsplit, hv, hkey ▸ hname, hvalue⟩

/-- An encoded destination and a header. -/
theorem readersAgree_encoded :
    ReadersAgree standardWeb "d=http%3A%2F%2Fcdn.example%2F1.ts&h_user-agent=VLC%2F3".toList := by
  refine (readersAgree_iff standardWeb_codesUrls _).1 (readAlike_of_plain fun s hs => ?_)
  have hsegments : "d=http%3A%2F%2Fcdn.example%2F1.ts&h_user-agent=VLC%2F3".toList.splitOn '&'
      = ["d=http%3A%2F%2Fcdn.example%2F1.ts".toList, "h_user-agent=VLC%2F3".toList] := by
    decide +kernel
  rw [hsegments] at hs
  rcases List.mem_cons.mp hs with rfl | hs
  · exact ⟨"d".toList, "http%3A%2F%2Fcdn.example%2F1.ts".toList, by decide +kernel, by decide,
      by decide +kernel, by decide +kernel⟩
  · rw [List.mem_singleton.mp hs]
    exact ⟨"h_user-agent".toList, "VLC%2F3".toList, by decide +kernel, by decide,
      by decide +kernel, by decide +kernel⟩

/-- A plus sign is a space for one of the readers only. -/
theorem plus_not_readersAgree : ¬ ∀ qs : Str, ReadersAgree standardWeb qs := by
  intro h
  have hheader := (h "h_user-agent=VLC+3".toList).requestHeaders "user-agent".toList
  have hform : formValue standardWeb "h_user-agent=VLC+3".toList
      ("h_".toList ++ "user-agent".toList) = some "VLC 3".toList := by decide +kernel
  have hstored : takenValue standardWeb "h_user-agent=VLC+3".toList
      ("h_".toList ++ "user-agent".toList) = some "VLC+3".toList := by decide +kernel
  rw [(@stored_eq standardWeb _).2.1, hform, hstored] at hheader
  exact absurd (Value.string.inj (Option.some.inj hheader)) (by decide)

end MediaFlow
