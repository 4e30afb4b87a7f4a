import ContainerRegistry.Model.Paths

/-!
# Removing manifests in batches

`RemoveManifests` of `vacuum.go`, which writes the paths of links out by hand. `deleteFiles` is
the driver: what it answers to a request is all it does here, and the requests are recorded in
their order. Logging is left out.
-/

namespace ContainerRegistry.Model.Vacuum

open Model.Paths

/-- garbagecollect.go:28-33 -/
structure ManifestDel where
  name : Str
  digest : Str
  tags : List Str
  deriving DecidableEq, Repr

def digestPart (dgst : Str) : Str := (splitDigest dgst).1 ++ '/' :: (splitDigest dgst).2

/-- storage/vacuum.go:112-115 -/
def manifestLink (m : ManifestDel) : Str :=
  "/docker/registry/v2/repositories/".toList ++ m.name ++ "/_manifests/revisions/".toList ++
    digestPart m.digest ++ "/link".toList

/-- storage/vacuum.go:118-122 -/
def tagLink (m : ManifestDel) (t : Str) : Str :=
  "/docker/registry/v2/repositories/".toList ++ m.name ++ "/_manifests/tags/".toList ++ t ++
    "/index/".toList ++ digestPart m.digest ++ "/link".toList

variable {ε : Type} (deleteFiles : List Str → Option ε)

/-- The requests of one batch and its error. A digest without a colon makes `Algorithm` panic; the
panic is recovered, and the batch is passed over. storage/vacuum.go:96-153 -/
def removeManifestsBatch (mm : List ManifestDel) : List (List Str) × Option ε :=
  if mm.any fun m => !m.digest.contains ':' then ([], none)
  else
    let allLinks := mm.map manifestLink ++ mm.flatMap fun m => m.tags.map (tagLink m)
    if allLinks.length = 0 then ([], none) else ([allLinks], deleteFiles allLinks)

/-- storage/vacuum.go:168 -/
def maxBatchSize : ℕ := 100

/-- storage/vacuum.go:178-189 -/
def removeManifestsFrom (mm : List ManifestDel) (i : ℕ) : List (List Str) × Option ε :=
  if i < mm.length then
    let batch := mm.extract i (min (i + maxBatchSize) mm.length)
    match removeManifestsBatch deleteFiles batch with
    | (calls, some err) => (calls, some err)
    | (calls, none) =>
      let rest := removeManifestsFrom mm (i + maxBatchSize)
      (calls ++ rest.1, rest.2)
  else ([], none)
termination_by mm.length - i
decreasing_by simp only [maxBatchSize]; omega

/-- storage/vacuum.go:165-197 -/
def removeManifests (mm : List ManifestDel) : List (List Str) × Option ε :=
  removeManifestsFrom deleteFiles mm 0

end ContainerRegistry.Model.Vacuum
