import MediaFlow.Lib.Text

/-!
# Application errors

`AppError` of `error.rs`, for the kinds of error that the modelled functions return.
-/

open Text

namespace MediaFlow

inductive AppError where
  | auth (msg : Str)
  | internal (msg : Str)
  | drm (msg : Str)
  | badRequest (msg : Str)
  | forbidden (msg : Str)
deriving DecidableEq, Repr

end MediaFlow
