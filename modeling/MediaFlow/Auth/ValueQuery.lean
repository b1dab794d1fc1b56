import MediaFlow.Auth.FieldQuery

/-!
# Query strings of values and headers

A URL of the proxy carries named values, some of which may be missing, and request headers, whose names
begin with `h_`. Values are percent-encoded, and so are the names of headers. A form reads all values
back (`formValue_valueQuery`); the middleware, which does not decode names, reads the headers back if
their names need no encoding (`CarriesHeaders.headers_iff`).
-/

open Text Json UrlCoding

namespace MediaFlow

/-! ### The fields -/

/-- The field of a value, if there is one. -/
def optionalField (name : Str) (value : Option Str) : List (Str × Str) :=
  (value.map fun v => (name, encode v)).toList

def valueFields (values : List (Str × Option Str)) : List (Str × Str) :=
  values.flatMap fun f => optionalField f.1 f.2

/-- The field of a header. -/
def headerField (header : Str × Str) : Str × Str := ("h_".toList ++ encode header.1, encode header.2)

def valueQuery (values : List (Str × Option Str)) (headers : List (Str × Str)) : Str :=
  joinFields (valueFields values ++ headers.map headerField)

/-- The text of a field after the first. -/
def fieldText (f : Str × Str) : Str := '&' :: (f.1 ++ '=' :: f.2)

theorem optionalField_text {name text : Str} (h : '&' :: (name ++ ['=']) = text) (value : Option Str) :
    (optionalField name value).flatMap fieldText =
      match value with | some v => text ++ encode v | none => [] := by
  cases value with
  | none => rfl
  | some v =>
    rw [← h]
    simp [optionalField, fieldText]

theorem headerField_text (headers : List (Str × Str)) : (headers.map headerField).flatMap fieldText =
    headers.flatMap fun (k, v) => "&h_".toList ++ encode k ++ ['='] ++ encode v := by
  rw [List.flatMap_map]
  refine List.flatMap_congr fun h _ => ?_
  simp [fieldText, headerField]

/-- The text of a query whose first value is there. -/
theorem valueQuery_cons (name v : Str) (values : List (Str × Option Str)) (headers : List (Str × Str)) :
    valueQuery ((name, some v) :: values) headers =
      name ++ '=' :: encode v ++ ((values.flatMap fun f => (optionalField f.1 f.2).flatMap fieldText) ++
        (headers.map headerField).flatMap fieldText) := by
  have hfields : valueFields ((name, some v) :: values) ++ headers.map headerField =
      (name, encode v) :: (valueFields values ++ headers.map headerField) := rfl
  have htexts : ∀ fields : List (Str × Str),
      fields.flatMap (fun g => '&' :: (g.1 ++ '=' :: g.2)) = fields.flatMap fieldText := fun _ => rfl
  rw [valueQuery, hfields, joinFields_cons, htexts, List.flatMap_append, valueFields,
    List.flatMap_assoc]

theorem mem_valueFields {values : List (Str × Option Str)} {f : Str × Str} (h : f ∈ valueFields values) :
    ∃ v, (f.1, some v) ∈ values ∧ f.2 = encode v := by
  obtain ⟨⟨name, value⟩, hvalue, hf⟩ := List.mem_flatMap.mp h
  obtain ⟨v, rfl, rfl⟩ := Option.map_eq_some_iff.mp (Option.mem_toList.mp hf)
  exact ⟨v, hvalue, rfl⟩

theorem mem_valueFields_of_value {values : List (Str × Option Str)} {name v : Str}
    (h : (name, some v) ∈ values) : (name, encode v) ∈ valueFields values :=
  List.mem_flatMap.mpr ⟨_, h, Option.mem_toList.mpr rfl⟩

theorem valueFields_names (values : List (Str × Option Str)) :
    List.Sublist ((valueFields values).map Prod.fst) (values.map Prod.fst) := by
  unfold valueFields
  induction values with
  | nil => exact List.nil_sublist _
  | cons f values ih =>
    obtain ⟨name, value⟩ := f
    rw [List.flatMap_cons, List.map_append]
    cases value with
    | none => exact ih.cons _
    | some v => exact ih.cons_cons _

/-- A header's name, as a form reads it. -/
theorem formDecode_header (name : Str) : formDecode ("h_".toList ++ encode name) = "h_".toList ++ name := by
  have hmark : encode "h_".toList = "h_".toList := by decide
  rw [← formDecode_encode ("h_".toList ++ name), encode_append, hmark]

theorem not_mem_header {c : Char} (h : encodingChar c = false) (name : Str) :
    c ∉ "h_".toList ++ encode name := by
  intro hc
  rcases List.mem_append.mp hc with hc | hc
  · have hall : "h_".toList.all encodingChar = true := by decide
    rw [List.all_eq_true.mp hall c hc] at h
    cases h
  · exact not_mem_encode h name hc

/-- Names, and those of headers, which begin otherwise. -/
theorem nodup_append_headers {f : Str → Str} (hf : Function.Injective f) {names : List Str}
    (hnames : names.Nodup) (hapart : ∀ name ∈ names, ¬ "h_".toList <+: name)
    {headers : List (Str × Str)} (hnodup : (headers.map Prod.fst).Nodup) :
    (names ++ headers.map fun h => "h_".toList ++ f h.1).Nodup := by
  have hinj : Function.Injective fun name => "h_".toList ++ f name :=
    fun _ _ h => hf (List.append_cancel_left h)
  have hheaders := hnodup.map hinj
  rw [List.map_map] at hheaders
  refine List.nodup_append.mpr ⟨hnames, hheaders, ?_⟩
  rintro a ha b hb rfl
  obtain ⟨header, -, rfl⟩ := List.mem_map.mp hb
  exact hapart _ ha (List.prefix_append _ _)

/-! ### What the middleware takes -/

section Middleware

variable {web : WebCrates} {fields headers : List (Str × Str)}

/-- The middleware decodes a value. -/
theorem urldecodeOr_encode (hweb : web.CodesUrls) (v : Str) : urldecodeOr web (encode v) = v := by
  rw [urldecodeOr, hweb.urldecode, decode_encode]
  rfl

/-- Fields among which the headers are the only ones with names of headers. -/
structure CarriesHeaders (fields headers : List (Str × Str)) : Prop where
  plain : PlainFields fields
  nodup : (fields.map Prod.fst).Nodup
  carried : ∀ header ∈ headers, headerField header ∈ fields
  others : ∀ f ∈ fields, "h_".toList <+: f.1 → ∃ header ∈ headers, f = headerField header

/-- A header that is taken was put in, under the name whose encoding is looked for. -/
theorem CarriesHeaders.mem_of_takenValue (h : CarriesHeaders fields headers) (hweb : web.CodesUrls)
    {name v : Str} (hv : takenValue web (joinFields fields) ("h_".toList ++ name) = some v) :
    ∃ header ∈ headers, encode header.1 = name ∧ header.2 = v ∧ v ≠ [] := by
  obtain ⟨f, hf, hname, hne, rfl⟩ := h.plain.mem_of_takenValue hv
  obtain ⟨header, hheader, rfl⟩ := h.others f hf (hname ▸ List.prefix_append _ _)
  refine ⟨header, hheader, List.append_cancel_left hname, ?_, ?_⟩
  · exact (urldecodeOr_encode hweb header.2).symm
  · show urldecodeOr web (encode header.2) ≠ []
    rw [urldecodeOr_encode hweb]
    rintro hempty
    exact hne (congrArg encode hempty)

/-- **The headers come through** when their names need no encoding and none is empty, and only
then. -/
theorem CarriesHeaders.headers_iff (h : CarriesHeaders fields headers) (hweb : web.CodesUrls)
    (hnodup : (headers.map Prod.fst).Nodup) :
    (∀ name, headerValue (storedProxyData web (joinFields fields)).requestHeaders name =
        (headers.lookup name).map .string) ↔
      ∀ header ∈ headers, encode header.1 = header.1 ∧ header.2 ≠ [] := by
  have hstored := (@stored_eq web (joinFields fields)).2.1
  constructor
  · intro hread
    have hall : ∀ header ∈ headers,
        takenValue web (joinFields fields) ("h_".toList ++ header.1) = some header.2 := by
      intro header hheader
      have hname := hread header.1
      rw [hstored, (lookup_eq_some_iff_mem hnodup).mpr hheader] at hname
      obtain ⟨v, hv, hstring⟩ := Option.map_eq_some_iff.mp hname
      rw [hv, Value.string.inj hstring]
    -- so every name is the encoding of a name, which none can be but its own
    have hencode : ∀ name ∈ headers.map Prod.fst, encode name = name := by
      refine encode_eq_of_covered fun name hname => ?_
      obtain ⟨header, hheader, rfl⟩ := List.mem_map.mp hname
      obtain ⟨other, hother, hencode, -, -⟩ := h.mem_of_takenValue hweb (hall header hheader)
      exact ⟨other.1, List.mem_map_of_mem hother, hencode⟩
    intro header hheader
    obtain ⟨-, -, -, -, hne⟩ := h.mem_of_takenValue hweb (hall header hheader)
    exact ⟨hencode header.1 (List.mem_map_of_mem hheader), hne⟩
  · intro hplain name
    rw [hstored]
    congr 1
    cases hlookup : headers.lookup name with
    | some v =>
      have hheader := (lookup_eq_some_iff_mem hnodup).mp hlookup
      obtain ⟨hname, hne⟩ := hplain _ hheader
      have hvalue := @h.plain.takenValue_of_mem web _ h.nodup _ (h.carried _ hheader)
        fun hempty => hne (encode_injective hempty)
      unfold headerField at hvalue
      rwa [hname, urldecodeOr_encode hweb] at hvalue
    | none =>
      cases hvalue : takenValue web (joinFields fields) ("h_".toList ++ name) with
      | none => rfl
      | some v =>
        obtain ⟨header, hheader, hname, -, -⟩ := h.mem_of_takenValue hweb hvalue
        rw [(hplain header hheader).1] at hname
        rw [← hname, (lookup_eq_some_iff_mem hnodup).mpr hheader] at hlookup
        cases hlookup

end Middleware

/-! ### Values with plain names -/

/-- Names that need no encoding, and are none of headers. -/
structure PlainNames (names : List Str) : Prop where
  nodup : names.Nodup
  encoding : ∀ name ∈ names, ∀ c ∈ name, encodingChar c = true
  decoded : ∀ name ∈ names, formDecode name = name
  noHeader : ∀ name ∈ names, ¬ "h_".toList <+: name

section Values

variable {web : WebCrates} {values : List (Str × Option Str)} {headers : List (Str × Str)}
  (hnames : PlainNames (values.map Prod.fst))

include hnames

theorem PlainNames.not_mem {name : Str} (hname : name ∈ values.map Prod.fst) {c : Char}
    (hc : encodingChar c = false) : c ∉ name := by
  intro hmem
  rw [hnames.encoding name hname c hmem] at hc
  cases hc

theorem valueFields_plain : PlainFields (valueFields values ++ headers.map headerField) := by
  constructor
  · intro f hf
    rcases List.mem_append.mp hf with hf | hf
    · have hname := (valueFields_names values).subset (List.mem_map_of_mem hf)
      exact ⟨hnames.not_mem hname (by decide), hnames.not_mem hname (by decide)⟩
    · obtain ⟨header, -, rfl⟩ := List.mem_map.mp hf
      exact ⟨not_mem_header (by decide) _, not_mem_header (by decide) _⟩
  · intro f hf
    rcases List.mem_append.mp hf with hf | hf
    · obtain ⟨v, -, hv⟩ := mem_valueFields hf
      rw [hv]
      exact not_mem_encode (by decide) v
    · obtain ⟨header, -, rfl⟩ := List.mem_map.mp hf
      exact not_mem_encode (by decide) _

/-- The characters of the query. -/
theorem not_mem_valueQuery {c : Char} (hc : encodingChar c = false) (hamp : c ≠ '&') (heq : c ≠ '=') :
    c ∉ valueQuery values headers := by
  intro hmem
  obtain h | h | ⟨f, hf, h⟩ := mem_joinFields hmem
  · exact hamp h
  · exact heq h
  · rcases List.mem_append.mp hf with hf | hf
    · have hname := (valueFields_names values).subset (List.mem_map_of_mem hf)
      obtain ⟨v, -, hv⟩ := mem_valueFields hf
      rw [hv] at h
      exact h.elim (hnames.not_mem hname hc) (not_mem_encode hc v)
    · obtain ⟨header, -, rfl⟩ := List.mem_map.mp hf
      exact h.elim (not_mem_header hc _) (not_mem_encode hc _)

variable (hnodup : (headers.map Prod.fst).Nodup)

include hnodup

omit hnodup in
theorem valueFields_apart : ∀ name ∈ (valueFields values).map Prod.fst, ¬ "h_".toList <+: name :=
  fun _ h => hnames.noHeader _ ((valueFields_names values).subset h)

/-- No two fields have one name. -/
theorem valueFields_nodup :
    ((valueFields values ++ headers.map headerField).map Prod.fst).Nodup := by
  rw [List.map_append, List.map_map]
  exact nodup_append_headers encode_injective ((valueFields_names values).nodup hnames.nodup)
    (valueFields_apart hnames) hnodup

/-- Neither has a form one name for two fields. -/
theorem valueFields_decoded_nodup :
    ((valueFields values ++ headers.map headerField).map fun f => formDecode f.1).Nodup := by
  have hheaders : (headers.map headerField).map (fun f => formDecode f.1) =
      headers.map fun h => "h_".toList ++ h.1 := by
    rw [List.map_map]
    exact List.map_congr_left fun h _ => formDecode_header h.1
  have hvalues : (valueFields values).map (fun f => formDecode f.1) =
      (valueFields values).map Prod.fst :=
    List.map_congr_left fun f hf =>
      hnames.decoded _ ((valueFields_names values).subset (List.mem_map_of_mem hf))
  rw [List.map_append, hheaders, hvalues]
  exact nodup_append_headers Function.injective_id ((valueFields_names values).nodup hnames.nodup)
    (valueFields_apart hnames) hnodup

theorem valueFields_carriesHeaders :
    CarriesHeaders (valueFields values ++ headers.map headerField) headers where
  plain := valueFields_plain hnames
  nodup := valueFields_nodup hnames hnodup
  carried header hheader := List.mem_append_right _ (List.mem_map_of_mem hheader)
  others f hf hname := by
    rcases List.mem_append.mp hf with hf | hf
    · exact absurd hname
        (hnames.noHeader _ ((valueFields_names values).subset (List.mem_map_of_mem hf)))
    · obtain ⟨header, hheader, rfl⟩ := List.mem_map.mp hf
      exact ⟨header, hheader, rfl⟩

variable (hweb : web.CodesUrls) {name : Str} {value : Option Str} (hvalue : (name, value) ∈ values)

include hweb hvalue

/-- **A form reads a value back**, also when there is none. -/
theorem formValue_valueQuery : formValue web (valueQuery values headers) name = value := by
  have hname : name ∈ values.map Prod.fst := List.mem_map_of_mem hvalue
  have hplain : PlainFields (valueFields values ++ headers.map headerField) :=
    valueFields_plain hnames
  cases value with
  | some v =>
    have hform := hplain.formValue_of_mem hweb (valueFields_decoded_nodup hnames hnodup)
      (List.mem_append_left _ (mem_valueFields_of_value hvalue))
    rwa [hnames.decoded name hname, formDecode_encode] at hform
  | none =>
    refine hplain.formValue_eq_none hweb fun f hf heq => ?_
    rcases List.mem_append.mp hf with hf | hf
    · -- one name has one value
      obtain ⟨v, hv, -⟩ := mem_valueFields hf
      rw [hnames.decoded _ (List.mem_map_of_mem hv)] at heq
      cases (Prod.mk.inj (List.inj_on_of_nodup_map hnames.nodup hv hvalue heq)).2
    · obtain ⟨header, -, rfl⟩ := List.mem_map.mp hf
      unfold headerField at heq
      rw [formDecode_header] at heq
      exact hnames.noHeader name hname (heq ▸ List.prefix_append _ _)

omit hvalue in
/-- The middleware takes a value that is not empty. -/
theorem takenValue_valueQuery {v : Str} (hvalue : (name, some v) ∈ values) (hne : v ≠ []) :
    takenValue web (valueQuery values headers) name = some v := by
  have htaken := @(valueFields_plain hnames).takenValue_of_mem web _
    (valueFields_nodup hnames hnodup) _
    (List.mem_append_left _ (mem_valueFields_of_value hvalue)) fun h => hne (encode_injective h)
  rwa [urldecodeOr_encode hweb] at htaken

end Values

/-- The middleware takes nothing for another name. -/
theorem takenValue_valueQuery_eq_none {web : WebCrates} {values : List (Str × Option Str)}
    {headers : List (Str × Str)} (hnames : PlainNames (values.map Prod.fst)) {name : Str}
    (hname : name ∉ values.map Prod.fst) (hheader : ¬ "h_".toList <+: name) :
    takenValue web (valueQuery values headers) name = none := by
  by_contra hsome
  obtain ⟨v, hv⟩ := Option.ne_none_iff_exists'.mp hsome
  obtain ⟨f, hf, rfl, -, -⟩ := (valueFields_plain hnames).mem_of_takenValue hv
  rcases List.mem_append.mp hf with hf | hf
  · exact hname ((valueFields_names values).subset (List.mem_map_of_mem hf))
  · obtain ⟨header, -, rfl⟩ := List.mem_map.mp hf
    exact hheader (List.prefix_append _ _)

end MediaFlow
