import Mathlib.Computability.RegularExpressions

/-!
# The letters of the words of a regular expression

What letters the words of a regular expression have, and what letters they start with, can be told
from the expression (`lettersIn`, `startsIn`), and is checked by evaluation.
-/

namespace ContainerRegistry.Library.Words

open List

variable {α : Type}

def oneOf : List α → RegularExpression α
  | [] => .zero
  | c :: cs => .plus (.char c) (oneOf cs)

def literal : List α → RegularExpression α
  | [] => .epsilon
  | c :: cs => .comp (.char c) (literal cs)

def optional (P : RegularExpression α) : RegularExpression α := .plus .epsilon P

def repeated (P : RegularExpression α) : RegularExpression α := .comp P (.star P)

/-- At most `n` words of the expression. -/
def upTo (P : RegularExpression α) : ℕ → RegularExpression α
  | 0 => .epsilon
  | n + 1 => optional (.comp P (upTo P n))

/-- All letters of all words satisfy `p`. -/
def lettersIn (p : α → Bool) : RegularExpression α → Bool
  | .zero => true
  | .epsilon => true
  | .char c => p c
  | .plus P Q => lettersIn p P && lettersIn p Q
  | .comp P Q => lettersIn p P && lettersIn p Q
  | .star P => lettersIn p P

/-- All words have a first letter, and it satisfies `p`. -/
def startsIn (p : α → Bool) : RegularExpression α → Bool
  | .zero => true
  | .epsilon => false
  | .char c => p c
  | .plus P Q => startsIn p P && startsIn p Q
  | .comp P _ => startsIn p P
  | .star _ => false

variable {w : List α} {P : RegularExpression α}

/-- All letters of a word. -/
theorem forall_of_lettersIn {p : α → Bool} (h : lettersIn p P = true) (hw : w ∈ P.matches') :
    ∀ c ∈ w, p c = true := by
  induction P generalizing w with
  | zero => cases hw
  | epsilon =>
    cases Set.mem_singleton_iff.1 hw
    simp
  | char c =>
    cases Set.mem_singleton_iff.1 hw
    intro x hx
    rw [mem_singleton.1 hx]
    exact h
  | plus P Q ihP ihQ =>
    obtain ⟨hP, hQ⟩ := Bool.and_eq_true_iff.1 h
    rcases hw with hw | hw
    · exact ihP hP hw
    · exact ihQ hQ hw
  | comp P Q ihP ihQ =>
    obtain ⟨hP, hQ⟩ := Bool.and_eq_true_iff.1 h
    obtain ⟨a, ha, b, hb, rfl⟩ := Language.mem_mul.1 hw
    intro c hc
    rcases mem_append.1 hc with hc | hc
    · exact ihP hP ha c hc
    · exact ihQ hQ hb c hc
  | star P ih =>
    obtain ⟨L, rfl, hL⟩ := Language.mem_kstar.1 hw
    intro c hc
    obtain ⟨w, hwL, hcw⟩ := mem_flatten.1 hc
    exact ih h (hL w hwL) c hcw

/-- The first letter of a word. -/
theorem exists_of_startsIn {p : α → Bool} (h : startsIn p P = true) (hw : w ∈ P.matches') :
    ∃ c t, w = c :: t ∧ p c = true := by
  induction P generalizing w with
  | zero => cases hw
  | epsilon => cases h
  | char c =>
    cases Set.mem_singleton_iff.1 hw
    exact ⟨c, [], rfl, h⟩
  | plus P Q ihP ihQ =>
    obtain ⟨hP, hQ⟩ := Bool.and_eq_true_iff.1 h
    rcases hw with hw | hw
    · exact ihP hP hw
    · exact ihQ hQ hw
  | comp P Q ihP ihQ =>
    obtain ⟨a, ha, b, hb, rfl⟩ := Language.mem_mul.1 hw
    obtain ⟨c, t, rfl, hc⟩ := ihP h ha
    exact ⟨c, t ++ b, rfl, hc⟩
  | star P ih => cases h

theorem lettersIn_upTo {p : α → Bool} (h : lettersIn p P = true) (n : ℕ) :
    lettersIn p (upTo P n) = true := by
  induction n with
  | zero => rfl
  | succ n ih => simp only [upTo, optional, lettersIn, h, ih, Bool.and_self]

theorem mem_optional (h : w ∈ (optional P).matches') : w = [] ∨ w ∈ P.matches' := by
  rcases h with h | h
  · exact .inl (Set.mem_singleton_iff.1 h)
  · exact .inr h

theorem mem_literal {l w : List α} (h : w ∈ (literal l).matches') : w = l := by
  induction l generalizing w with
  | nil => exact Set.mem_singleton_iff.1 h
  | cons c cs ih =>
    obtain ⟨a, ha, b, hb, rfl⟩ := Language.mem_mul.1 h
    rw [Set.mem_singleton_iff.1 ha, ih hb]
    rfl

/-- A word of a repetition, piece by piece. -/
theorem mem_repeated (h : w ∈ (repeated P).matches') :
    ∃ L : List (List α), w = L.flatten ∧ ∀ x ∈ L, x ∈ P.matches' := by
  obtain ⟨a, ha, b, hb, rfl⟩ := Language.mem_mul.1 h
  obtain ⟨L, rfl, hL⟩ := Language.mem_kstar.1 hb
  refine ⟨a :: L, rfl, fun x hx => ?_⟩
  rcases mem_cons.1 hx with rfl | hx
  · exact ha
  · exact hL x hx

end ContainerRegistry.Library.Words
