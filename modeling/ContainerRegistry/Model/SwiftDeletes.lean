import Mathlib.Data.List.AList

/-!
# Segments in the Swift storage driver

`PutContent`, `Writer`, `Move`, `Delete` and `DeleteFiles` of `driver/swift/swift.go` over a whole
container of files and segments. Of an object its manifest header is modelled. A path is the list of
its components, and `swiftPath(path) + "/"` is a prefix of the paths below it.

A request may fail, and a listing may omit segments (`Service`). A call of a writer that fails has
put some of its segments, or no manifest.
-/

namespace ContainerRegistry.Model.SwiftDeletes

variable {κ : Type}

inductive Object (κ : Type) where
  | file (path : List κ)
  | segment (segmentsPath number : ℕ)
  deriving DecidableEq, Repr

inductive WriterState where
  | opened
  | canceled
  | ended
  deriving DecidableEq, Repr

/-- swift.go:817-826, 942-948 -/
structure Writer (κ : Type) where
  path : List κ
  segmentsPath : ℕ
  segmentNumber : ℕ
  state : WriterState
  deriving DecidableEq, Repr

structure Container (κ : Type) where
  -- each object with the segments path of its manifest header, if it has one
  objects : AList fun _ : Object κ => Option ℕ
  -- the next random segments path
  serial : ℕ
  writers : ℕ → Option (Writer κ)

def Container.empty : Container κ := ⟨∅, 0, fun _ => none⟩

structure Service (κ : Type) where
  -- the driver deletes in bulk
  bulk : Bool
  -- a request before the first deletion fails
  fails : Bool
  refused : Object κ → Bool
  -- a bulk deletion fails with `Forbidden` or `ObjectNotFound`
  tolerated : Bool
  omitted : Object κ → Bool

inductive Error where
  | pathNotFound
  | fault
  deriving DecidableEq, Repr

variable [DecidableEq κ]

def Container.put (c : Container κ) (o : Object κ) (manifest : Option ℕ) : Container κ :=
  { c with objects := c.objects.insert o manifest }

def Container.erase (c : Container κ) (o : Object κ) : Container κ :=
  { c with objects := c.objects.erase o }

/-! ## Deleting -/

def isBelow (p : List κ) : Object κ → Bool
  | .file q => p.isPrefixOf q && q ≠ p
  | .segment _ _ => false

/-- The segments that a listing has, and those that are found by asking for one number after the
other. swift.go:713-760 -/
def getAllSegments (svc : Service κ) (c : Container κ) (segmentsPath : ℕ) : List (Object κ) :=
  c.objects.keys.filter fun o => match o with
    | .file _ => false
    | .segment x n => x = segmentsPath && (!svc.omitted o ||
        n ≠ 0 && (List.range n).all fun k => c.objects.keys.contains (.segment x (k + 1)))

/-- swift.go:521-553 -/
def toDelete (svc : Service κ) (p : List κ) (c : Container κ) : List (Object κ) :=
  let below := c.objects.keys.filter (isBelow p)
  below ++ below.flatMap fun o =>
    match c.objects.lookup o with
    | some (some x) => getAllSegments svc c x
    | _ => []

/-- swift.go:577-584 -/
def deleteEach (svc : Service κ) : List (Object κ) → Container κ → Container κ × Option Error
  | [], c => (c, none)
  | o :: os, c =>
    if svc.refused o then (c, some .fault)
    else if o ∈ c.objects then deleteEach svc os (c.erase o)
    else (c, some .pathNotFound)

/-- swift.go:555-576 -/
def bulkDelete (svc : Service κ) (os : List (Object κ)) (c : Container κ) :
    Container κ × Option Error :=
  ((os.filter fun o => !svc.refused o).foldl Container.erase c,
    if os.any svc.refused && !svc.tolerated then some .fault else none)

/-- swift.go:519-603 -/
def delete (svc : Service κ) (p : List κ) (c : Container κ) : Container κ × Option Error :=
  if svc.fails then (c, some .fault)
  else
    let os := toDelete svc p c
    match if svc.bulk then bulkDelete svc os c else deleteEach svc os c with
    | (c', some e) => (c', some e)
    | (c', none) =>
      if .file p ∈ c'.objects then
        if svc.refused (.file p) then (c', some .fault) else (c'.erase (.file p), none)
      else (c', if os.isEmpty then some .pathNotFound else none)

/-- swift.go:605-619 -/
def deleteFiles : List (List κ × Service κ) → Container κ → Container κ × Option Error
  | [], c => (c, none)
  | (p, svc) :: rest, c =>
    match delete svc p c with
    | (c', some .fault) => (c', some .fault)
    | (c', _) => deleteFiles rest c'

/-! ## The other operations -/

def Container.setWriter (c : Container κ) (i : ℕ) (w : Writer κ) : Container κ :=
  { c with writers := fun j => if j = i then some w else c.writers j }

/-- Open a writer. A plain file that is appended to becomes the first segment. swift.go:365-405 -/
def openWriter (svc : Service κ) (i : ℕ) (p : List κ) (append : Bool) (c : Container κ) :
    Container κ :=
  if append then
    match c.objects.lookup (.file p) with
    | none => c
    | some none => { (c.erase (.file p)).put (.segment c.serial 0) none with
        serial := c.serial + 1 }.setWriter i ⟨p, c.serial, 2, .opened⟩
    | some (some x) => c.setWriter i ⟨p, x, (getAllSegments svc c x).length + 1, .opened⟩
  else { c with serial := c.serial + 1 }.setWriter i ⟨p, c.serial, 1, .opened⟩

/-- swift.go:950-968 -/
def putSegment (i : ℕ) (w : Writer κ) (c : Container κ) : Container κ :=
  (c.put (.segment w.segmentsPath w.segmentNumber) none).setWriter i
    { w with segmentNumber := w.segmentNumber + 1 }

/-- The manifest of a writer is made; `Close` does not end a writer that waits in vain for its
segments to show up. swift.go:762-779, 866-886, 898-917 -/
def commit (i : ℕ) (w : Writer κ) (ends : Bool) (c : Container κ) : Container κ :=
  (c.put (.file w.path) (some w.segmentsPath)).setWriter i
    { w with state := if ends then .ended else w.state }

/-- Move a file; the source stays where its deletion fails. swift.go:499-517 -/
def move (src dst : List κ) (stays : Bool) (c : Container κ) : Container κ :=
  match c.objects.lookup (.file src) with
  | none => c
  | some f =>
    if stays then c.put (.file dst) f else (c.put (.file dst) f).erase (.file src)

inductive Action (κ : Type) where
  | putContent (p : List κ)
  | openWriter (svc : Service κ) (i : ℕ) (p : List κ) (append : Bool)
  | putSegment (i : ℕ)
  | commit (i : ℕ) (ends : Bool)
  | cancel (svc : Service κ) (i : ℕ)
  | move (src dst : List κ) (stays : Bool)
  | delete (svc : Service κ) (p : List κ)
  | deleteFiles (calls : List (List κ × Service κ))

/-- A step of the driver. A canceled writer may still put what is in its buffer. swift.go:314-321,
866-896 -/
def step (c : Container κ) : Action κ → Option (Container κ)
  | .putContent p => some (c.put (.file p) none)
  | .openWriter svc i p append =>
    if (c.writers i).isNone then some (openWriter svc i p append c) else none
  | .putSegment i => (c.writers i).bind fun w =>
    if w.state ≠ .ended then some (putSegment i w c) else none
  | .commit i ends => (c.writers i).bind fun w =>
    if w.state = .opened then some (commit i w ends c) else none
  | .cancel svc i => (c.writers i).bind fun w =>
    if w.state = .opened then
      some ((delete svc w.path c).1.setWriter i { w with state := .canceled })
    else none
  | .move src dst stays => some (move src dst stays c)
  | .delete svc p => some (delete svc p c).1
  | .deleteFiles calls => some (deleteFiles calls c).1

end ContainerRegistry.Model.SwiftDeletes
