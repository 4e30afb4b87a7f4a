import ContainerRegistry.Library.Runs

/-!
# The regulator of a storage driver

`driver/base/regulator.go`. Ten methods of the driver are called between `enter` and `exit`, which
share a counter under the lock of a condition variable. The others are those of the embedded driver
and bypass the regulator. A critical section is one step.
-/

namespace ContainerRegistry.Model.Regulators

/-- storagedriver.go:42-121 -/
inductive Method where
  | name
  | getContent
  | putContent
  | reader
  | writer
  | stat
  | list
  | move
  | delete
  | urlFor
  | walk
  | walkParallel
  | transferTo
  | deleteFiles
  deriving DecidableEq

/-- The methods that `Regulator` overrides. regulator.go:93-184 -/
def Method.regulated : Method → Bool
  | .walk | .walkParallel | .transferTo | .deleteFiles => false
  | _ => true

/-- The counter, and the numbers of the calls. regulator.go:18-23 -/
structure Regulator where
  available : ℕ
  /-- The calls in `Wait`, the longest first. -/
  notify : List ℕ
  /-- Signalled, and without the lock still. -/
  woken : List ℕ
  /-- In a regulated method of the wrapped driver. -/
  inside : List ℕ
  /-- In one of the others. -/
  bypassing : List ℕ
  deriving DecidableEq

/-- regulator.go:65-72 -/
def newRegulator (limit : ℕ) : Regulator := ⟨limit, [], [], [], []⟩

variable (r : Regulator)

/-- A round of the loop, up to `Wait` or the end. regulator.go:74-81 -/
def enter (c : ℕ) : Regulator :=
  if r.available = 0 then { r with notify := r.notify ++ [c] }
  else { r with available := r.available - 1, inside := c :: r.inside }

/-- `Signal` wakes the call that waits longest, if any. -/
def signal : Regulator :=
  match r.notify with
  | [] => r
  | c :: rest => { r with notify := rest, woken := c :: r.woken }

/-- regulator.go:83-88 -/
def exit (c : ℕ) : Regulator :=
  let r := signal { r with inside := r.inside.erase c }
  { r with available := r.available + 1 }

/-- A call is made, has the lock again after a signal, or ends. -/
inductive Action where
  | call (m : Method) (c : ℕ)
  | resume (c : ℕ)
  | exit (c : ℕ)
  | leave (c : ℕ)

def step : Action → Option Regulator
  | .call m c =>
    if m.regulated then some (enter r c) else some { r with bypassing := c :: r.bypassing }
  | .resume c => if c ∈ r.woken then some (enter { r with woken := r.woken.erase c } c) else none
  | .exit c => if c ∈ r.inside then some (exit r c) else none
  | .leave c =>
    if c ∈ r.bypassing then some { r with bypassing := r.bypassing.erase c } else none

end ContainerRegistry.Model.Regulators
