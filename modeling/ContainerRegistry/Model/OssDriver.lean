import ContainerRegistry.Model.S3Driver

/-!
# Deletion in the OSS driver

`Delete` of `driver/oss/oss.go`, which lists from the start again after every multi-delete. The
bucket and the service are those of the S3 model: a multi-delete that succeeds deletes all its keys,
and of one that fails `refused` says which keys it leaves.
-/

namespace ContainerRegistry.Model.Oss

open Model.S3

/-- oss.go:525-527 -/
def ossPath (rootDirectory path : Key) : Key := s3Path rootDirectory path

/-- The rounds of `Delete` from the `n`-th, each with a listing and a multi-delete. oss.go:428-462
-/
def deleteRounds (svc : Service) (path ossPath : Key) :
    ℕ → ℕ → Bucket → Option (Option Error × Bucket)
  | 0, _, _ => none
  | fuel + 1, n, B =>
    match svc.listFault n with
    | some f => some (some (if n = 0 then .pathNotFound path else .request f), B)
    | none =>
      let contents := (B.listed ossPath none).take (svc.pageSize n)
      let ossObjects := contents.takeWhile (isSubpath ossPath)
      if contents.isEmpty then some (if n = 0 then some (.pathNotFound path) else none, B)
      else match svc.deleteFault n with
        | some _ => some (none, B.deleteObjects svc.refused (ossObjects.map Object.key))
        | none =>
          let B' := B.deleteObjects (fun _ => false) (ossObjects.map Object.key)
          if ossObjects.length < contents.length then some (none, B')
          else deleteRounds svc path ossPath fuel (n + 1) B'

/-- oss.go:426-463 -/
def delete (svc : Service) (root : Key) (B : Bucket) (path : Key) :
    Option (Option Error × Bucket) :=
  deleteRounds svc path (ossPath root path) (B.objects.length + 1) 0 B

end ContainerRegistry.Model.Oss
