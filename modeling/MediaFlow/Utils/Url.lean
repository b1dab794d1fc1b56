import MediaFlow.Lib.Text

/-!
# URLs in playlists

`utils/url.rs`: the resolution of a path against the URL of the playlist that contains it, and the
extension of a segment.
-/

open Text

namespace MediaFlow

/-- What the `url` crate does with the URLs of playlists. -/
structure JoinCrate where
  /-- `Url::parse` succeeds. -/
  parses : Str → Bool
  /-- `Url::join`, for a base that parses. -/
  join : Str → Str → Option Str

namespace Utils

/-- `resolve_url`. -/
def resolveUrl (crate : JoinCrate) (baseUrl path : Str) : Str :=
  if "http://".toList.isPrefixOf path ∨ "https://".toList.isPrefixOf path then path
  else if crate.parses baseUrl then
    match crate.join baseUrl path with
    | some resolved => resolved
    | none =>
      -- naive join
      (baseUrl.reverse.dropWhile (· = '/')).reverse ++ '/' :: path.dropWhile (· = '/')
  else path

/-- `segment_extension`. No letter outside ASCII has one of these letters as its lower case. -/
def segmentExtension (url : Str) : Str :=
  let path := (url.map Char.toLower).takeWhile (· ≠ '?')
  if ".m4s".toList.isSuffixOf path then "m4s".toList
  else if ".mp4".toList.isSuffixOf path then "mp4".toList
  else if ".m4a".toList.isSuffixOf path then "m4a".toList
  else if ".m4v".toList.isSuffixOf path then "m4v".toList
  else if ".aac".toList.isSuffixOf path then "aac".toList
  else "ts".toList

end Utils

end MediaFlow
