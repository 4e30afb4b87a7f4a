import Mathlib.Tactic.Common

/-!
# Authorization with tokens

`Authorized` of `auth/token/accesscontroller.go`, and `auth/token/token.go`. `Primitives` are
base64, JSON, X.509 certificates and JSON Web Keys. Times are those of package `time`, which counts
seconds from the year 1 in 64 bits. A string has one character for each byte.

An entry of the access claim may be null. Claims that are not looked at, and the type in the header,
are left out.
-/

namespace ContainerRegistry.Model.Tokens

abbrev Str := List Char

abbrev Bytes := List ℕ

/-! ## Tokens -/

/-- auth.go:66-71 -/
structure Resource where
  type : Str
  cls : Str
  name : Str
  deriving DecidableEq

/-- auth.go:73-78 -/
structure Access where
  resource : Resource
  action : Str
  deriving DecidableEq

/-- token.go:34-40 -/
structure ResourceActions where
  type : Str
  cls : Str
  name : Str
  actions : List Str
  deriving DecidableEq

/-- A number of type `int64`. -/
structure Timestamp where
  val : Int
  lower : -9223372036854775808 ≤ val
  upper : val ≤ 9223372036854775807
  deriving DecidableEq

/-- token.go:42-55 -/
structure ClaimSet where
  issuer : Str
  subject : Str
  audience : Str
  expiration : Timestamp
  notBefore : Timestamp
  access : List (Option ResourceActions)
  deriving DecidableEq

/-- token.go:57-64 -/
structure Header where
  signingAlg : Str
  keyID : Str
  x5c : List Str
  rawJWK : Option Bytes
  deriving DecidableEq

/-- token.go:66-72 -/
structure Token where
  raw : Str
  header : Header
  claims : ClaimSet
  signature : Bytes
  deriving DecidableEq

structure Primitives (Key Cert : Type) where
  decodeURL : Str → Option Bytes
  decodeStd : Str → Option Bytes
  unmarshalHeader : Bytes → Option Header
  unmarshalClaims : Bytes → Option ClaimSet
  parseCertificate : Bytes → Option Cert
  /-- The certificate has a chain to one of the roots, with the given intermediates. -/
  verifyCertificate : List Cert → List Cert → Cert → Bool
  publicKey : Cert → Option Key
  /-- The key, and its field `x5c` if that is a list; an element is none if it is not a string. -/
  unmarshalJWK : Bytes → Option (Key × Option (List (Option Str)))
  keyID : Key → Str
  verify : Key → Str → Str → Bytes → Bool

/-- accesscontroller.go:128-136 -/
structure AccessController (Key Cert : Type) where
  issuer : Str
  service : Str
  rootCerts : List Cert
  trustedKeys : Str → Option Key

/-- accesscontroller.go:72-76, token.go:28-32 -/
inductive Error where
  | insufficientScope
  | tokenRequired
  | malformedToken
  | invalidToken
  deriving DecidableEq

variable {Key Cert : Type} (P : Primitives Key Cert) (ac : AccessController Key Cert)

/-- token/util.go:17-33 -/
def joseBase64UrlDecode (s : Str) : Option Bytes :=
  match s.length % 4 with
  | 0 => P.decodeURL s
  | 2 => P.decodeURL (s ++ "==".toList)
  | 3 => P.decodeURL (s ++ "=".toList)
  | _ => none

/-- An error is `malformedToken`. token.go:83-132 -/
def newToken (rawToken : Str) : Option Token :=
  match rawToken.splitOn '.' with
  | [rawHeader, rawClaims, rawSignature] => do
    let headerJSON ← joseBase64UrlDecode P rawHeader
    let claimsJSON ← joseBase64UrlDecode P rawClaims
    let signature ← joseBase64UrlDecode P rawSignature
    let header ← P.unmarshalHeader headerJSON
    let claims ← P.unmarshalClaims claimsJSON
    some ⟨rawHeader ++ '.' :: rawClaims, header, claims, signature⟩
  | _ => none

/-! ## Times -/

/-- A time of the clock, in seconds and nanoseconds from 1970. The clock of the system counts
nanoseconds in 64 bits. -/
structure Clock where
  sec : Int
  nsec : Int
  sec_nonneg : 0 ≤ sec
  sec_lt : sec < 9223372037
  nsec_nonneg : 0 ≤ nsec
  nsec_lt : nsec < 1000000000
  deriving DecidableEq

def unixToInternal : Int := 62135596800

def wrap64 (n : Int) : Int := (n + 9223372036854775808) % 18446744073709551616 - 9223372036854775808

/-- The seconds of `time.Unix(t, 0)`. -/
def unix (t : Timestamp) : Int := wrap64 (t.val + unixToInternal)

/-- `Add` of a number of seconds. -/
def addSec (ext d : Int) : Int :=
  if 9223372036854775807 < ext + d then 9223372036854775807
  else if ext + d < -9223372036854775808 then -9223372036854775807
  else ext + d

/-- token.go:23-25 -/
def leeway : Int := 60

def Clock.after (now : Clock) (ext : Int) : Bool :=
  ext < now.sec + unixToInternal || ext = now.sec + unixToInternal && 0 < now.nsec

def Clock.before (now : Clock) (ext : Int) : Bool := now.sec + unixToInternal < ext

/-! ## Verification -/

def parseCert (s : Str) : Option Cert := (P.decodeStd s).bind P.parseCertificate

/-- token.go:222-279 -/
def parseAndVerifyCertChain (x5c : List Str) (roots : List Cert) : Option Key :=
  match x5c with
  | [] => none
  | leaf :: rest => do
    let leafCert ← parseCert P leaf
    let intermediates ← rest.mapM (parseCert P)
    if P.verifyCertificate roots intermediates leafCert then P.publicKey leafCert else none

/-- token.go:281-322 -/
def parseAndVerifyRawJWK (rawJWK : Bytes) : Option Key :=
  match P.unmarshalJWK rawJWK with
  | none => none
  | some (pubKey, none) => if (ac.trustedKeys (P.keyID pubKey)).isSome then some pubKey else none
  | some (pubKey, some x5cVal) => do
    let x5c ← x5cVal.mapM fun val => val.filter fun certString => certString ≠ []
    let leafKey ← parseAndVerifyCertChain P x5c ac.rootCerts
    if P.keyID pubKey ≠ P.keyID leafKey then none else some pubKey

/-- token.go:184-220 -/
def verifySigningKey (h : Header) : Option Key :=
  if 0 < h.x5c.length then parseAndVerifyCertChain P h.x5c ac.rootCerts
  else
    match h.rawJWK with
    | some rawJWK => parseAndVerifyRawJWK P ac rawJWK
    | none => if 0 < h.keyID.length then ac.trustedKeys h.keyID else none

/-- token.go:134-182 -/
def verify (now : Clock) (t : Token) : Option Error :=
  if !([ac.issuer].contains t.claims.issuer) then some .invalidToken
  else if !([ac.service].contains t.claims.audience) then some .invalidToken
  else if now.after (addSec (unix t.claims.expiration) leeway) then some .invalidToken
  else if now.before (addSec (unix t.claims.notBefore) (-leeway)) then some .invalidToken
  else if t.signature.length = 0 then some .invalidToken
  else
    match verifySigningKey P ac t.header with
    | none => some .invalidToken
    | some signingKey =>
      if P.verify signingKey t.raw t.header.signingAlg t.signature then none
      else some .invalidToken

/-! ## Sets of accesses -/

/-- accesscontroller.go:20-22 -/
abbrev AccessSet := List (Resource × List Str)

def AccessSet.add (s : AccessSet) (r : Resource) (actions : List Str) : AccessSet :=
  if s.any fun p => p.1 = r then s.map fun p => if p.1 = r then (p.1, p.2 ++ actions) else p
  else s ++ [(r, actions)]

/-- accesscontroller.go:24-45 -/
def newAccessSet (accessItems : List Access) : AccessSet :=
  accessItems.foldl
    (fun s access => s.add ⟨access.resource.type, [], access.resource.name⟩ [access.action]) []

/-- accesscontroller.go:47-55, token/util.go:44-48 -/
def AccessSet.contains (s : AccessSet) (access : Access) : Bool :=
  match s.find? fun p => p.1 = access.resource with
  | none => false
  | some p => p.2.contains "*".toList || p.2.contains access.action

/-- The accesses a token grants. An entry that is null makes this panic. token.go:324-350 -/
def accessSet (entries : List (Option ResourceActions)) : Option AccessSet :=
  entries.foldlM (fun s entry => entry.map fun ra => s.add ⟨ra.type, [], ra.name⟩ ra.actions) []

/-- token.go:353-375 -/
def resources (entries : List (Option ResourceActions)) : Option (List Resource) :=
  (entries.mapM id).map fun ras => (ras.map fun ra => ⟨ra.type, ra.cls, ra.name⟩).eraseDups

/-! ## The decision -/

inductive Outcome where
  | granted (user : Str) (resources : List Resource)
  | challenge (err : Error) (scope : AccessSet)
  /-- There is no request in the context. -/
  | failed
  | panicked
  deriving DecidableEq

/-- accesscontroller.go:252-259 -/
def bearer (authorization : Str) : Option Str :=
  match authorization.splitOn ' ' with
  | [scheme, rawToken] => if scheme.map Char.toLower = "bearer".toList then some rawToken else none
  | _ => none

/-- accesscontroller.go:277-287 -/
def grant (claims : ClaimSet) (accessItems : List Access) : Outcome :=
  match accessSet claims.access with
  | none => .panicked
  | some set =>
    if accessItems.all set.contains then
      match resources claims.access with
      | none => .panicked
      | some rs => .granted claims.subject rs
    else .challenge .insufficientScope (newAccessSet accessItems)

/-- accesscontroller.go:235-288 -/
def authorized (now : Clock) (authorization : Option Str) (accessItems : List Access) : Outcome :=
  match authorization with
  | none => .failed
  | some authorization =>
    match bearer authorization with
    | none => .challenge .tokenRequired (newAccessSet accessItems)
    | some rawToken =>
      match newToken P rawToken with
      | none => .challenge .malformedToken (newAccessSet accessItems)
      | some token =>
        match verify P ac now token with
        | some err => .challenge err (newAccessSet accessItems)
        | none => grant token.claims accessItems

end ContainerRegistry.Model.Tokens
