import ContainerRegistry.Library.ObjectTree
import Mathlib.Data.Char
import Mathlib.Data.List.Lex
import Mathlib.Data.List.Sort

/-!
# The catalog of repositories in the storage

`catalog.go` over the sequential walk of `driver/walk.go`. Names are lists of components, which are
joined with slashes where the code compares strings. Letters stand for bytes: UTF-8 keeps their
order.

Below the repositories root each repository has a directory with `_layers` in it. Other directories
of names have no layers, such as one under which an upload has been begun. Paths are given from the
root, and no request fails.
-/

namespace ContainerRegistry.Model.Catalogs

open Library

/-! ## Names -/

abbrev Component := List Char

abbrev Path := List Component

def zero : Char := Char.ofNat 0

/-- What the components of every repository name have: they are not empty, do not start with an
underscore, and have no slash and no zero byte in them. regexp.go:5-20 -/
def validComponent (c : Component) : Bool :=
  !c.isEmpty && c.head? != some '_' && c.all fun x => x != '/' && x != zero

structure Name where
  components : Path
  nonempty : components ≠ []
  valid : ∀ c ∈ components, validComponent c = true
  deriving DecidableEq

def joinPath (p : Path) : List Char := List.intercalate ['/'] p

/-- catalog.go:99-137 -/
def compareReplaceInline (old new : Char) : List Char → List Char → Ordering
  | [], [] => .eq
  | [], _ :: _ => .lt
  | _ :: _, [] => .gt
  | c₁ :: s₁, c₂ :: s₂ =>
    let c₁ := if c₁ = old then new else c₁
    let c₂ := if c₂ = old then new else c₂
    if c₁ < c₂ then .lt else if c₂ < c₁ then .gt else compareReplaceInline old new s₁ s₂

/-- catalog.go:88-95 -/
def lessPath (a b : List Char) : Bool := compareReplaceInline '/' zero a b == .lt

def layers : Component := "_layers".toList

def uploads : Component := "_uploads".toList

/-- What is below the repositories root: the repositories, the names under which an upload has been
begun, and whether the root has been left there without any. -/
structure Stored where
  names : List Name
  begun : List Name
  rootLeft : Bool

def Stored.paths (S : Stored) : List Path :=
  (if S.rootLeft then [[]] else []) ++ S.names.map (fun r => r.components ++ [layers]) ++
    S.begun.map fun r => r.components ++ [uploads]

def Stored.tree (S : Stored) : ObjectTree Component Unit where
  entries := S.paths.map fun p => (p, .dir)
  leaf := by
    intro e he e' _ hdir
    obtain ⟨p, -, rfl⟩ := List.mem_map.1 he
    exact absurd rfl hdir

/-! ## The walk -/

inductive Verdict where
  | proceed
  | skipDir
  deriving DecidableEq, Repr

inductive Error where
  | pathNotFound (p : Path)
  | noSpace
  | eof
  deriving DecidableEq, Repr

variable {σ : Type}

/-- The state is what the callback has changed. walk.go:32-61 -/
def walkChildren (T : ObjectTree Component Unit) (f : σ → Path → σ × Verdict)
    (walk : Path → σ → Option (σ × Option Error)) (dir : Path) :
    List Component → σ → Option (σ × Option Error)
  | [], s => some (s, none)
  | c :: cs, s =>
    let child := dir ++ [c]
    match f s child with
    | (s', .proceed) =>
      if T.isDir child then
        match walk child s' with
        | some (s'', none) => walkChildren T f walk dir cs s''
        | r => r
      else walkChildren T f walk dir cs s'
    | (s', .skipDir) =>
      if T.isDir child then walkChildren T f walk dir cs s' else some (s', none)

/-- walk.go:26-63 -/
def walkFallback (T : ObjectTree Component Unit) (f : σ → Path → σ × Verdict) :
    ℕ → Path → σ → Option (σ × Option Error)
  | 0, _, _ => none
  | fuel + 1, dir, s =>
    if T.isDir dir then
      walkChildren T f (walkFallback T f fuel) dir ((T.children dir).insertionSort (· ≤ ·)) s
    else some (s, some (.pathNotFound dir))

/-! ## Pages -/

/-- And whether it has seen a directory with the page full. -/
structure Found where
  repos : List Path
  finishedWalk : Bool
  deriving DecidableEq, Repr

/-- Only the directory of a name is entered. catalog.go:139-159 -/
def handleRepository (last : List Char) (fn : σ → Path → σ) (s : σ) (p : Path) : σ × Verdict :=
  match p.getLast? with
  | none => (s, .proceed)
  | some file =>
    if file = layers then
      let repo := if p = [layers] then p else p.dropLast
      (if lessPath last (joinPath repo) then fn s repo else s, .skipDir)
    else if file.head? = some '_' then (s, .skipDir)
    else (s, .proceed)

/-- catalog.go:30-47 -/
def visitor (n : ℕ) (last : List Char) (s : Found) (p : Path) : Found × Verdict :=
  match handleRepository last (fun s repo => { s with repos := s.repos ++ [repo] }) s p with
  | (s', .skipDir) => (s', .skipDir)
  | (s', .proceed) =>
    if s'.repos.length = n then ({ s' with finishedWalk := true }, .skipDir) else (s', .proceed)

/-- A page of at most `n` names after `last`, and the error returned with it. catalog.go:14-58 -/
def repositories (T : ObjectTree Component Unit) (n : ℕ) (last : List Char) :
    Option (List Path × Option Error) :=
  if n = 0 then some ([], some .noSpace)
  else (walkFallback T (visitor n last) (T.depth + 1) [] ⟨[], false⟩).map fun r =>
    match r.2 with
    | some e => (r.1.repos.take n, some e)
    | none => (r.1.repos.take n, if r.1.finishedWalk then none else some .eof)

end ContainerRegistry.Model.Catalogs
