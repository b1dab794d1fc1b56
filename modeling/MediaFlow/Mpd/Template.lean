import MediaFlow.Lib.Text

/-!
# Segment URL templates

`mpd/segment.rs`: the expansion of the identifiers in a `SegmentTemplate` pattern, and the
resolution of a path against the URL of the manifest.
-/

open Text

namespace MediaFlow

/-- `resolve_url`. `join` parses a base URL and joins a relative one to it. -/
def resolveUrl (join : Str → Str → Option Str) (baseUrl relative : Str) : Str :=
  if relative = [] then baseUrl
  else if "http://".toList.isPrefixOf relative ∨ "https://".toList.isPrefixOf relative then relative
  else
    match join baseUrl relative with
    | some resolved => resolved
    | none =>
      -- simple concatenation
      if baseUrl.getLast? = some '/' then baseUrl ++ relative
      else if '/' ∈ baseUrl then
        (baseUrl.reverse.dropWhile (· ≠ '/')).reverse ++ relative
      else relative

/-- `format_number_with_spec`: a number padded with zeros, for a format such as `%05d`. -/
def formatNumberWithSpec (spec : Str) (n : ℕ) : Str :=
  let spec := spec.dropWhile (· = '%')
  let spec := (spec.reverse.dropWhile (· = 'd')).reverse
  match parseU64 spec with
  | some width => List.replicate (width - (decimal n).length) '0' ++ decimal n
  | none => decimal n

/-- The first `$Number%..$` of a template, filled in. -/
def expandPaddedNumber (s : Str) (number : ℕ) : Str :=
  let numberPrefix := "$Number%".toList
  match find numberPrefix s with
  | none => s
  | some start =>
    let afterPrefix := start + numberPrefix.length
    match find ['$'] (s.drop afterPrefix) with
    | none => s
    | some relEnd =>
      let fmt := '%' :: (s.drop afterPrefix).take relEnd
      s.take start ++ formatNumberWithSpec fmt number ++ s.drop (afterPrefix + relEnd + 1)

/-- `expand_template`. -/
def expandTemplate (template representationId : Str) (bandwidth number : ℕ) (time : Option ℕ) :
    Str :=
  let s := replace "$RepresentationID$".toList representationId template
  let s := replace "$Bandwidth$".toList (decimal bandwidth) s
  let s := expandPaddedNumber s number
  let s := replace "$Number$".toList (decimal number) s
  match time with
  | some t => replace "$Time$".toList (decimal t) s
  | none => s

example : expandTemplate "seg$Number%05d$.m4s".toList "v1".toList 1000000 5 none
    = "seg00005.m4s".toList := by
  decide +kernel

end MediaFlow
