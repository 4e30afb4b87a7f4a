import ContainerRegistry.Library.Runs

/-!
# The sinks of event notifications

Two sinks of `notifications/sinks.go`. `EventQueue` has a list of blocks between two goroutines,
with one condition variable for both ways; in the `Broadcaster`, `Write` and `Close` meet the
goroutine `run` on unbuffered channels.

A critical section, and a meeting on a channel, is one step. What a call returns and what the
wrapped sinks are called with is recorded. Errors of the wrapped sinks are left out, but for the one
that `Close` of the queue returns.
-/

namespace ContainerRegistry.Model.Notifications

variable {ε : Type}

/-- A variadic parameter of events: `none` is the nil slice, which a call without arguments
passes. -/
abbrev Block (ε : Type) := Option (List ε)

/-- event.go:146-149 -/
def errSinkClosed : String := "sink: closed"

inductive Call (ε : Type) where
  | write (b : Block ε)
  | close
  deriving DecidableEq

inductive Return (ε : Type) where
  | write (b : Block ε) (err : Option String)
  | close (err : Option String)
  deriving DecidableEq

def Call.block : Call ε → Option (Block ε)
  | .write b => some b
  | .close => none

def Return.accepted : Return ε → Option (Block ε)
  | .write b none => some b
  | _ => none

/-! ## The event queue -/

namespace EventQueue

inductive Goroutine where
  | run
  | close
  deriving DecidableEq

/-- The goroutine `run`. -/
inductive Loop (ε : Type) where
  /-- Before the loop of `next` looks at the list, for the first time or after `cond.Wait`. -/
  | next
  | waiting
  /-- `next` has returned a block. -/
  | took (b : Block ε)
  /-- In `Write` of the wrapped sink. -/
  | writing (b : Block ε)
  | returned
  deriving DecidableEq

/-- The call of `Close` that has set `closed`. -/
inductive Closer where
  | none
  | waiting
  | woken
  | returned
  deriving DecidableEq

structure State (ε : Type) where
  events : List (Block ε)
  closed : Bool
  /-- Who waits on `cond`, the longest first. -/
  notify : List Goroutine
  loop : Loop ε
  closer : Closer
  /-- The calls of the listeners. -/
  ingress : List (Block ε)
  egress : List (Block ε)
  calls : List (Call ε)
  returns : List (Return ε)
  deriving DecidableEq

/-- sinks.go:121-133 -/
def newEventQueue : State ε := ⟨[], false, [], .next, .none, [], [], [], []⟩

variable (s : State ε)

/-- The goroutine goes on when it has the lock again. -/
def wake : Goroutine → State ε
  | .run => { s with loop := .next }
  | .close => { s with closer := .woken }

def signal : State ε :=
  match s.notify with
  | [] => s
  | g :: rest => wake { s with notify := rest } g

def broadcast : State ε := s.notify.foldl wake { s with notify := [] }

/-- sinks.go:135-152 -/
def write (b : Block ε) : State ε :=
  if s.closed then
    { s with returns := s.returns ++ [.write b (some errSinkClosed)] }
  else
    let s := { s with ingress := s.ingress ++ [b] }
    let s := signal { s with events := s.events ++ [b] }
    { s with returns := s.returns ++ [.write b none] }

/-- Up to `cond.Wait`. sinks.go:154-167 -/
def close : State ε :=
  if s.closed then
    { s with returns := s.returns ++ [.close (some "eventqueue: already closed")] }
  else
    let s := signal { s with closed := true }
    { s with notify := s.notify ++ [.close], closer := .waiting }

/-- One round of the loop of `next`: it waits (no result), or a block is returned. sinks.go:190-211
-/
def next : State ε × Option (Block ε) :=
  match s.events with
  | [] =>
    if s.closed then (broadcast s, some none)
    else ({ s with notify := s.notify ++ [.run] }, none)
  | b :: rest => ({ s with events := rest }, some b)

/-- A step of the goroutine `run`. There is none while it waits and after it has returned.
sinks.go:172-188 -/
def run : Option (State ε) :=
  match s.loop with
  | .next =>
    match next s with
    | (s, none) => some { s with loop := .waiting }
    -- a nil block means that the queue is closed
    | (s, some none) => some { s with loop := .returned }
    | (s, some b) => some { s with loop := .took b }
  | .waiting => none
  | .took b => some { s with calls := s.calls ++ [.write b], loop := .writing b }
  | .writing b => some { s with egress := s.egress ++ [b], loop := .next }
  | .returned => none

/-- A call of `Write`, a call of `Close`, the goroutine `run`, and the end of the call of `Close`
that waits, with what `Close` of the wrapped sink returns. -/
inductive Move (ε : Type) where
  | write (b : Block ε)
  | close
  | run
  | finish (err : Option String)
  deriving DecidableEq

def step : Move ε → Option (State ε)
  | .write b => some (write s b)
  | .close => some (close s)
  | .run => run s
  -- SOURCE: notifications/sinks.go:169
  | .finish err =>
    if s.closer = .woken then
      some { s with calls := s.calls ++ [.close], closer := .returned,
                    returns := s.returns ++ [.close err] }
    else none

/-- The blocks whose `Write` has returned nil, in this order. -/
def State.accepted : List (Block ε) := s.returns.filterMap Return.accepted

/-- The blocks passed to the wrapped sink, in this order. -/
def State.delivered : List (Block ε) := s.calls.filterMap Call.block

end EventQueue

/-! ## The broadcaster -/

namespace Broadcaster

inductive Closer where
  /-- Before the select. -/
  | polling
  /-- In the default case, before the send on `b.closed`. -/
  | opening
  /-- In the send. -/
  | sending
  /-- Before `close(b.closed)`. -/
  | sent
  /-- Waits for the acknowledgement. -/
  | awaiting
  | returned
  /-- Returned the error. -/
  | failed
  deriving DecidableEq

inductive Receiver where
  | write
  | close
  | run
  deriving DecidableEq

/-- The goroutine `run`. -/
inductive Loop (ε : Type) where
  | selecting
  /-- Writes the block to the sinks, the next one is number `k`. -/
  | writing (b : Block ε) (k : ℕ)
  /-- Closes the sinks, the next one is number `k`. The channel received is that of a call of
  `Close`, or nil. -/
  | closing (c : Option ℕ) (k : ℕ)
  | acking (c : Option ℕ)
  | returned
  deriving DecidableEq

structure State (ε : Type) where
  /-- The calls of `Write` that are in their select. -/
  writers : List (Block ε)
  closers : List Closer
  /-- `b.closed` is closed. -/
  shut : Bool
  loop : Loop ε
  panicked : Bool
  /-- The channels of calls of `Close` that have been received from `b.closed`, and by whom. -/
  received : List (ℕ × Receiver)
  calls : List (ℕ × Call ε)
  returns : List (Return ε)
  deriving DecidableEq

variable (s : State ε)

/-- sinks.go:31-42 -/
def newBroadcaster : State ε := ⟨[], [], false, .selecting, false, [], [], []⟩

/-- A receive from `b.closed`: from a call of `Close` that sends, or the nil channel once `b.closed`
is closed. -/
def receive (who : Receiver) : Option ℕ → Option (State ε)
  | none => if s.shut then some s else none
  | some j =>
    if s.closers[j]? = some .sending then
      some { s with closers := s.closers.set j .sent, received := s.received ++ [(j, who)] }
    else none

/-- The steps of the calls and of the goroutine `run`; calls are named by their position. -/
inductive Move (ε : Type) where
  /-- A call of `Write` comes to its select. -/
  | write (b : Block ε)
  /-- The select of a `Write` sends its block, and `run` receives it. -/
  | accept (i : ℕ)
  /-- The select of a `Write` receives from `b.closed`. -/
  | refuse (i : ℕ) (c : Option ℕ)
  | close
  /-- The select of a `Close` receives from `b.closed`. -/
  | reject (i : ℕ) (c : Option ℕ)
  /-- The select of a `Close` takes the default. -/
  | default (i : ℕ)
  /-- A `Close` comes to its send. -/
  | send (i : ℕ)
  /-- A `Close` closes `b.closed`. -/
  | shut (i : ℕ)
  /-- `run` receives from `b.closed`. -/
  | take (c : Option ℕ)
  /-- `run` calls the next sink, or goes on after the last one. -/
  | run
  /-- `run` sends the acknowledgement, and a `Close` receives it. -/
  | acknowledge
  deriving DecidableEq

/-- sinks.go:48-55 -/
def write (b : Block ε) : State ε := { s with writers := s.writers ++ [b] }

/-- sinks.go:50, 82 -/
def accept (i : ℕ) : Option (State ε) :=
  match s.loop, s.writers[i]? with
  | .selecting, some b =>
    some { s with writers := s.writers.eraseIdx i, loop := .writing b 0,
                  returns := s.returns ++ [.write b none] }
  | _, _ => none

/-- sinks.go:51-52 -/
def refuse (i : ℕ) (c : Option ℕ) : Option (State ε) :=
  match s.writers[i]?, receive s .write c with
  | some b, some s =>
    some { s with writers := s.writers.eraseIdx i,
                  returns := s.returns ++ [.write b (some errSinkClosed)] }
  | _, _ => none

/-- sinks.go:62-64 -/
def reject (i : ℕ) (c : Option ℕ) : Option (State ε) :=
  match s.closers[i]?, receive s .close c with
  | some .polling, some s =>
    some { s with closers := s.closers.set i .failed,
                  returns := s.returns ++ [.close (some "broadcaster: already closed")] }
  | _, _ => none

/-- Only if nothing can be received. sinks.go:65 -/
def takeDefault (i : ℕ) : Option (State ε) :=
  if s.closers[i]? = some .polling ∧ s.shut = false ∧ Closer.sending ∉ s.closers then
    some { s with closers := s.closers.set i .opening }
  else none

/-- A send on a closed channel panics. sinks.go:67-68 -/
def send (i : ℕ) : Option (State ε) :=
  if s.closers[i]? = some .opening then
    if s.shut then some { s with panicked := true }
    else some { s with closers := s.closers.set i .sending }
  else none

/-- Closing a closed channel panics, and so do the senders of a channel that is closed. sinks.go:69
-/
def shut (s : State ε) (i : ℕ) : Option (State ε) :=
  if s.closers[i]? = some .sent then
    if s.shut ∨ Closer.sending ∈ s.closers then some { s with panicked := true }
    else some { s with closers := s.closers.set i .awaiting, shut := true }
  else none

/-- sinks.go:88 -/
def take (c : Option ℕ) : Option (State ε) :=
  match s.loop, receive s .run c with
  | .selecting, some s => some { s with loop := .closing c 0 }
  | _, _ => none

/-- sinks.go:83-87, 90-95 -/
def run (n : ℕ) (s : State ε) : Option (State ε) :=
  match s.loop with
  | .selecting => none
  | .writing b k =>
    if k < n then some { s with calls := s.calls ++ [(k, .write b)], loop := .writing b (k + 1) }
    else some { s with loop := .selecting }
  | .closing c k =>
    if k < n then some { s with calls := s.calls ++ [(k, .close)], loop := .closing c (k + 1) }
    else some { s with loop := .acking c }
  | .acking _ => none
  | .returned => none

/-- Nobody receives from another channel than its own, and a send on the nil channel blocks.
sinks.go:70-71, 96-99 -/
def acknowledge : Option (State ε) :=
  match s.loop with
  | .acking (some j) =>
    if s.closers[j]? = some .awaiting then
      some { s with closers := s.closers.set j .returned, loop := .returned,
                    returns := s.returns ++ [.close none] }
    else none
  | _ => none

/-- One step of a broadcaster with `n` sinks; a panic ends the program. -/
def step (n : ℕ) (s : State ε) (m : Move ε) : Option (State ε) :=
  if s.panicked then none
  else
    match m with
    | .write b => some (write s b)
    | .accept i => accept s i
    | .refuse i c => refuse s i c
    | .close => some { s with closers := s.closers ++ [.polling] }
    | .reject i c => reject s i c
    | .default i => takeDefault s i
    | .send i => send s i
    | .shut i => shut s i
    | .take c => take s c
    | .run => run n s
    | .acknowledge => acknowledge s

/-- The blocks whose `Write` has returned nil, in this order. -/
def State.accepted : List (Block ε) := s.returns.filterMap Return.accepted

def State.callsOf (k : ℕ) : List (Call ε) :=
  s.calls.filterMap fun c => if c.1 = k then some c.2 else none

/-- The blocks one sink has been called with, in this order. -/
def State.written (k : ℕ) : List (Block ε) := (s.callsOf k).filterMap Call.block

end Broadcaster

/-! ## The sink that ignores events -/

namespace IgnoredSink

variable {σ : Type}

/-- An event, with the media type of its target. -/
structure Event (ε : Type) where
  mediaType : String
  action : String
  rest : ε
  deriving DecidableEq

/-- `Write` of a sink with the states `σ`. -/
abbrev Sink (ε σ : Type) := List (Event ε) → σ → Option String × σ

/-- sinks.go:245-266 -/
def write (sink : Sink ε σ) (ignoreMediaTypes ignoreActions : List String) : Sink ε σ :=
  fun events s =>
    let kept := events.filter fun e => !ignoreMediaTypes.contains e.mediaType
    if kept.isEmpty then (none, s) else
    let results := kept.filter fun e => !ignoreActions.contains e.action
    if results.isEmpty then (none, s) else sink results s

/-- sinks.go:221-241 -/
def newIgnoredSink (sink : Sink ε σ) (ignored ignoreActions : List String) : Sink ε σ :=
  if ignored.isEmpty then sink else write sink ignored ignoreActions

/-- The state of a sink after blocks have been written to it. -/
def writes (sink : Sink ε σ) (blocks : List (List (Event ε))) (s : σ) : σ :=
  blocks.foldl (fun s events => (sink events s).2) s

end IgnoredSink

end ContainerRegistry.Model.Notifications
