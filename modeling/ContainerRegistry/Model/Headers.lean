import ContainerRegistry.Model.TokenAuth

/-!
# Headers that are parsed by hand

The challenge of the token access controller and the parser of the client, in
`auth/token/accesscontroller.go` and `client/auth/challenge/authchallenge.go`.
-/

namespace ContainerRegistry.Model.Headers

open Tokens (Str Error AccessSet)

abbrev Params := Str → Option Str

/-! ## The parser of the client -/

/-- authchallenge.go:108-123 -/
def isToken (c : Char) : Bool :=
  31 < c.toNat && c.toNat < 127 && !" \t\"(),/:;<=>?@[]\\\x7b\x7d".toList.contains c

def isSpace (c : Char) : Bool := " \t\r\n".toList.contains c

def skipSpace (s : Str) : Str := s.dropWhile isSpace

/-- authchallenge.go:192-200 -/
def expectToken (s : Str) : Str × Str := (s.takeWhile isToken, s.dropWhile isToken)

/-- The loop behind the first backslash, which fills the `cap` bytes of `p`; none stands for an
index out of range. authchallenge.go:212-231 -/
def copyEscaped (cap : ℕ) : Bool → Str → Str → Option (Str × Str)
  | _, _, [] => some ([], [])
  | escape, p, b :: s =>
    if !escape && b = '\\' then copyEscaped cap true p s
    else if !escape && b = '"' then some (p, s)
    else if p.length < cap then copyEscaped cap false (p ++ [b]) s
    else none

/-- The loop of `expectTokenOrQuoted` over `n` bytes, of which `p` have been passed. -/
def expectQuoted (n : ℕ) (p : Str) : Str → Option (Str × Str)
  | [] => some ([], [])
  | b :: s =>
    if b = '"' then some (p, s)
    else if b = '\\' then copyEscaped (n - 1) true p s
    else expectQuoted n (p ++ [b]) s

/-- authchallenge.go:202-237 -/
def expectTokenOrQuoted (s : Str) : Option (Str × Str) :=
  if s.head? = some '"' then expectQuoted s.tail.length [] s.tail else some (expectToken s)

/-- The loop of `parseValueAndParams`; none if it panics or goes on. -/
def parseParams : ℕ → Params → Str → Option Params
  | 0, _, _ => none
  | fuel + 1, params, s =>
    if s.head? ≠ some ',' then some params else
    let (pkey, s) := expectToken (skipSpace s.tail)
    if pkey = [] ∨ s.head? ≠ some '=' then some params else
    (expectTokenOrQuoted s.tail).bind fun (pvalue, s) =>
      if pvalue = [] then some params
      else parseParams fuel (Function.update params (pkey.map Char.toLower) (some pvalue))
        (skipSpace s)

/-- authchallenge.go:155-180 -/
def parseValueAndParams (header : Str) : Option (Str × Params) :=
  let (value, s) := expectToken header
  if value = [] then some ([], fun _ => none) else
  (parseParams (header.length + 1) (fun _ => none) (',' :: skipSpace s)).map
    (value.map Char.toLower, ·)

/-! ## The challenge of the server -/

/-- accesscontroller.go:78-85 -/
structure AuthChallenge where
  err : Error
  realm : Str
  autoRedirect : Bool
  service : Str
  accessSet : AccessSet

/-- The set is in the order in which it is iterated over. accesscontroller.go:60-69 -/
def scopeParam (s : AccessSet) : Str :=
  [' '].intercalate (s.map fun (r, actions) =>
    r.type ++ ':' :: r.name ++ ':' :: [','].intercalate actions)

def printable (c : Char) : Bool := 31 < c.toNat && c.toNat < 127

/-- How `%q` writes a character; `escape` is what it makes of one that is not printable. -/
def quoteRune (escape : Char → Str) (c : Char) : Str :=
  if c = '"' ∨ c = '\\' then ['\\', c] else if printable c then [c] else escape c

def quote (escape : Char → Str) (s : Str) : Str := '"' :: s.flatMap (quoteRune escape) ++ ['"']

def AuthChallenge.realmFor (ac : AuthChallenge) (host : Str) : Str :=
  if ac.autoRedirect then "https://".toList ++ host ++ "/auth/token".toList else ac.realm

/-- The parameters that follow the realm. -/
def AuthChallenge.params (ac : AuthChallenge) : List (Str × Str) :=
  let scope := scopeParam ac.accessSet
  ("service".toList, ac.service) :: (if scope ≠ [] then [("scope".toList, scope)] else []) ++
    match ac.err with
    | .invalidToken | .malformedToken => [("error".toList, "invalid_token".toList)]
    | .insufficientScope => [("error".toList, "insufficient_scope".toList)]
    | .tokenRequired => []

def param (escape : Char → Str) (kv : Str × Str) : Str := kv.1 ++ '=' :: quote escape kv.2

/-- accesscontroller.go:99-121 -/
def AuthChallenge.challengeParams (escape : Char → Str) (ac : AuthChallenge) (host : Str) : Str :=
  "Bearer ".toList ++ param escape ("realm".toList, ac.realmFor host) ++
    ac.params.flatMap (',' :: param escape ·)

end ContainerRegistry.Model.Headers
