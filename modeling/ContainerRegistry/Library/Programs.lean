import Mathlib.Tactic.Common

/-!
# Programs that ask

A `Program` asks questions one after the other and goes on with each answer, as a client of a shared
store does. `Program.Meets` is a rule for a client that knows something of the store while others
change it. `Rules` say what it may ask if it knows `k`, which answers are possible, and what an
answer tells it.
-/

namespace ContainerRegistry.Library

/-- A program with questions `Q`, whose answers have the types `A`. -/
inductive Program (Q : Type) (A : Q → Type) (α : Type) where
  | done (a : α)
  | ask (q : Q) (next : A q → Program Q A α)

namespace Program

variable {Q : Type} {A : Q → Type} {α β ε : Type}

def bind : Program Q A α → (α → Program Q A β) → Program Q A β
  | .done a, f => f a
  | .ask q next, f => .ask q fun a => (next a).bind f

instance : Monad (Program Q A) where
  pure := .done
  bind := bind

/-- What a client may ask, what it is answered and what that tells it, given what it knows. -/
structure Rules (Q : Type) (A : Q → Type) (κ : Type) where
  asks : κ → Q → Prop
  allowed : κ → (q : Q) → A q → Prop
  told : κ → (q : Q) → A q → κ

variable {κ : Type}

/-- The program asks what it may, and whatever the allowed answers are it ends with a result that
meets `P`, a condition on what is known then and on the result. -/
def Meets (R : Rules Q A κ) (P : κ → α → Prop) : Program Q A α → κ → Prop
  | .done a, k => P k a
  | .ask q next, k => R.asks k q ∧ ∀ a, R.allowed k q a → (next a).Meets R P (R.told k q a)

variable {R : Rules Q A κ} {P : κ → α → Prop} {P' : κ → β → Prop}

/-- INTERNAL: **the rule for one program after the other.** -/
theorem Meets.bind {p : Program Q A α} {f : α → Program Q A β} {k : κ} (h : p.Meets R P k)
    (hf : ∀ k a, P k a → (f a).Meets R P' k) : (p.bind f).Meets R P' k := by
  induction p generalizing k with
  | done a => exact hf k a h
  | ask q next ih => exact ⟨h.1, fun a ha => ih a (h.2 a ha)⟩

theorem Meets.bind_ok {p : ExceptT ε (Program Q A) α} {f : α → ExceptT ε (Program Q A) β} {k : κ}
    {P : κ → Except ε α → Prop} {P' : κ → Except ε β → Prop}
    (h : Meets R P (p : Program Q A (Except ε α)) k)
    (hok : ∀ k a, P k (.ok a) → Meets R P' (f a : Program Q A (Except ε β)) k)
    (herror : ∀ k e, P k (.error e) → P' k (.error e)) :
    Meets R P' (p >>= f : ExceptT ε (Program Q A) β) k := by
  refine Meets.bind h fun k res hres => ?_
  cases res with
  | ok a => exact hok k a hres
  | error e => exact herror k e hres

theorem Meets.answer {q} {next : A q → Program Q A α} {k}
    (h : (Program.ask q next).Meets R P k) {a} (ha : R.allowed k q a) :
    (next a).Meets R P (R.told k q a) :=
  h.2 a ha

end Program

end ContainerRegistry.Library
