import MediaFlow.Lib.Text

/-!
# Routing by path patterns

A web server's table of services. A pattern is a text in which `{name}` stands for one segment of
the path (at least one character, and no slash) and `{name:.*}` for any rest. A scope takes over
every path under its own, and a path that it does not know is not looked up further.

How a path is compared with a pattern is a `Matcher`; `standardMatcher` is the one just described.
-/

namespace Routing

open Text

/-- A part of a pattern. -/
inductive Piece where
  | char (c : Char)
  /-- `{name}` -/
  | segment
  /-- `{name:.*}` -/
  | tail
deriving DecidableEq

/-- The parts of a pattern, after the name of a placeholder that has been opened. -/
def piecesFrom : Option Str → Str → List Piece
  | _, [] => []
  | none, c :: s => if c = '{' then piecesFrom (some []) s else .char c :: piecesFrom none s
  | some name, c :: s =>
    if c = '}' then
      (if ":.*".toList.isSuffixOf name then .tail else .segment) :: piecesFrom none s
    else piecesFrom (some (name ++ [c])) s

def pieces (pattern : Str) : List Piece := piecesFrom none pattern

/-- The lengths from `n` down to 1. -/
def downFrom : ℕ → List ℕ
  | 0 => []
  | n + 1 => (n + 1) :: downFrom n

/-- What the placeholders stand for in a path, each taking as much as it can. -/
def captures : List Piece → Str → Option (List Str)
  | [], s => if s = [] then some [] else none
  | .char _ :: _, [] => none
  | .char c :: ps, d :: s => if c = d then captures ps s else none
  | .segment :: ps, s =>
    (downFrom (s.takeWhile (· ≠ '/')).length).findSome? fun n =>
      (captures ps (s.drop n)).map (s.take n :: ·)
  | .tail :: ps, s =>
    (downFrom s.length ++ [0]).findSome? fun n =>
      (captures ps (s.drop n)).map (s.take n :: ·)

/-- The rest of a path under the path of a scope. -/
def below (scope path : Str) : Option Str :=
  match stripPrefix scope path with
  | some rest => if rest = [] ∨ rest.head? = some '/' then some rest else none
  | none => none

/-- How paths are compared with patterns. -/
structure Matcher where
  /-- The values of the placeholders of a pattern that a whole path matches. -/
  captures : Str → Str → Option (List Str)
  /-- The rest of a path under that of a scope. -/
  below : Str → Str → Option Str

def standardMatcher : Matcher := ⟨fun pattern => captures (pieces pattern), below⟩

variable {γ η : Type*}

/-- A handler for the paths of a pattern, when the request passes the guard. -/
structure Route (γ η : Type*) where
  pattern : Str
  guard : γ
  handler : η

inductive Service (γ η : Type*) where
  | route (r : Route γ η)
  | scope (path : Str) (routes : List (Route γ η))

variable (m : Matcher) (admits : γ → Bool) (fallback : η)

def Route.recognize (path : Str) (r : Route γ η) : Option (η × List Str) :=
  if admits r.guard then (m.captures r.pattern path).map fun values => (r.handler, values) else none

/-- What a service does with a path, if it takes it. -/
def Service.recognize (path : Str) : Service γ η → Option (η × List Str)
  | .route r => r.recognize m admits path
  | .scope p routes =>
    (m.below p path).map fun rest =>
      (routes.findSome? (Route.recognize m admits rest)).getD (fallback, [])

/-- The handler for a path, and the values of its placeholders: the first service that takes the
path, in order of registration. -/
def dispatch (services : List (Service γ η)) (path : Str) : η × List Str :=
  (services.findSome? (Service.recognize m admits fallback path)).getD (fallback, [])

example : standardMatcher.captures "/{user}/{id}.{ext}".toList "/u/a.b.ts".toList
    = some ["u".toList, "a.b".toList, "ts".toList] := by decide

end Routing
