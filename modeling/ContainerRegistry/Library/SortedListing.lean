import Mathlib.Data.List.Lex
import Mathlib.Data.List.Nodup
import Mathlib.Order.Lattice

/-!
# Listings in the order of their keys

Elements of a list that is sorted by a key: what comes after a key, and what a scan takes that stops
at the first element it does not want. Then keys that are lists themselves, in lexicographic order.
-/

namespace ContainerRegistry.Library

open List

section Sorted

variable {β κ : Type} [LinearOrder κ] {key : β → κ}

def SortedBy (key : β → κ) (l : List β) : Prop := l.Pairwise fun a b => key a < key b

theorem SortedBy.filter {l} (h : SortedBy key l) (p : β → Bool) :
    SortedBy key (l.filter p) := h.sublist filter_sublist

theorem SortedBy.eq_of_key {l} (h : SortedBy key l) {a b} (ha : a ∈ l) (hb : b ∈ l)
    (heq : key a = key b) : a = b :=
  inj_on_of_nodup_map (pairwise_map.2 (h.imp ne_of_lt)) ha hb heq

theorem SortedBy.nodup {l} (h : SortedBy key l) : l.Nodup :=
  h.imp fun hlt heq => absurd (congrArg key heq) (ne_of_lt hlt)

theorem SortedBy.eq_of_mem_iff {l l'} (h : SortedBy key l) (h' : SortedBy key l')
    (hmem : ∀ x, x ∈ l ↔ x ∈ l') : l = l' :=
  ((perm_ext_iff_of_nodup h.nodup h'.nodup).2 hmem).eq_of_pairwise
    (fun _ _ _ _ hab hba => absurd hab (lt_asymm hba)) h h'

/-- What comes after a page is the rest. -/
theorem SortedBy.filter_after {page rest last} (h : SortedBy key (page ++ rest))
    (hlast : page.getLast? = some last) :
    (page ++ rest).filter (fun x => key last < key x) = rest := by
  obtain ⟨init, rfl⟩ := List.getLast?_eq_some_iff.1 hlast
  obtain ⟨hpage, -, hbetween⟩ := pairwise_append.1 h
  have hinit : ∀ a ∈ init, key a < key last := fun a ha =>
    (pairwise_append.1 hpage).2.2 a ha last (mem_singleton.2 rfl)
  have hdropped : (init ++ [last]).filter (fun x => key last < key x) = [] := by
    rw [filter_eq_nil_iff]
    intro a ha
    simp only [decide_eq_true_eq, not_lt]
    rcases mem_append.1 ha with ha | ha
    · exact (hinit a ha).le
    · rw [mem_singleton.1 ha]
  have hkept : rest.filter (fun x => key last < key x) = rest := by
    rw [filter_eq_self]
    intro a ha
    simpa using hbetween last (mem_append_right _ (mem_singleton.2 rfl)) a ha
  rw [filter_append, hdropped, hkept, nil_append]

/-- **A scan takes what it wants and has only wanted elements before it.** -/
theorem SortedBy.mem_takeWhile_iff {l} (h : SortedBy key l) {wanted : β → Bool} {x} :
    x ∈ l.takeWhile wanted ↔
      x ∈ l ∧ wanted x = true ∧ ∀ y ∈ l, key y < key x → wanted y = true := by
  induction l with
  | nil => simp
  | cons a l ih =>
    obtain ⟨ha, hl⟩ := pairwise_cons.1 h
    rw [takeWhile_cons]
    split
    · next hwanted =>
      rw [mem_cons, ih hl]
      constructor
      · rintro (rfl | ⟨hx, hw, hbefore⟩)
        · refine ⟨mem_cons_self, hwanted, fun y hy hlt => ?_⟩
          rcases mem_cons.1 hy with rfl | hy
          · exact hwanted
          · exact absurd (ha y hy) (lt_asymm hlt)
        · refine ⟨mem_cons_of_mem _ hx, hw, fun y hy hlt => ?_⟩
          rcases mem_cons.1 hy with rfl | hy
          · exact hwanted
          · exact hbefore y hy hlt
      · rintro ⟨hx, hw, hbefore⟩
        rcases mem_cons.1 hx with rfl | hx
        · exact .inl rfl
        · exact .inr ⟨hx, hw, fun y hy => hbefore y (mem_cons_of_mem _ hy)⟩
    · next hwanted =>
      constructor
      · intro hx
        cases hx
      · rintro ⟨hx, hw, hbefore⟩
        rcases mem_cons.1 hx with rfl | hx
        · exact absurd hw hwanted
        · exact absurd (hbefore a mem_cons_self (ha x hx)) hwanted

end Sorted

section Prefixes

variable {α : Type} {p k : List α} {c : α}

theorem next_eq_none_iff (hk : p <+: k) : k[p.length]? = none ↔ k = p := by
  obtain ⟨t, rfl⟩ := hk
  cases t with
  | nil | cons a t => simp

theorem next_eq_some_iff (hk : p <+: k) : k[p.length]? = some c ↔ p ++ [c] <+: k := by
  obtain ⟨t, rfl⟩ := hk
  rw [prefix_append_right_inj]
  cases t with
  | nil => simp
  | cons a t => simp [eq_comm]

def joinedTail (z : α) : List (List α) → List α
  | [] => []
  | part :: parts => z :: List.intercalate [z] (part :: parts)

theorem joinedTail_cons {z : α} {part : List α} {parts : List (List α)} :
    joinedTail z (part :: parts) = z :: List.intercalate [z] (part :: parts) := rfl

theorem intercalate_cons {z : α} {part : List α} {parts : List (List α)} :
    List.intercalate [z] (part :: parts) = part ++ joinedTail z parts := by
  cases parts with
  | nil | cons q qs => simp [List.intercalate, joinedTail]

end Prefixes

section Lexicographic

variable {α : Type} [LinearOrder α] {p k l : List α} {c d : α}

theorem append_lt_append_iff {t u} : p ++ t < p ++ u ↔ t < u := by
  induction p with
  | nil => rfl
  | cons a p ih =>
    rw [cons_append, cons_append, cons_lt_cons_iff, ih]
    simp

theorem lt_append_cons {t} : p < p ++ c :: t := by
  have h : p ++ [] < p ++ c :: t := append_lt_append_iff.2 (nil_lt_cons _ _)
  rwa [append_nil] at h

theorem not_lt_of_starts (hk : p <+: k) : ¬ k < p := by
  obtain ⟨t, rfl⟩ := hk
  intro h
  rw [← append_nil p, append_assoc, append_lt_append_iff] at h
  exact not_lt_nil _ h

/-- Keys below `p` come before larger ones. -/
theorem append_lt_of_not_prefix {t} (h : p < k) (hpre : ¬ p <+: k) : p ++ t < k := by
  induction p generalizing k with
  | nil => exact absurd nil_prefix hpre
  | cons a p ih =>
    cases k with
    | nil => exact absurd h (not_lt_nil _)
    | cons b k =>
      rw [cons_append, cons_lt_cons_iff]
      rcases cons_lt_cons_iff.1 h with hab | ⟨rfl, hlt⟩
      · exact .inl hab
      · exact .inr ⟨rfl, ih hlt fun hpre' => hpre (cons_prefix_cons.2 ⟨rfl, hpre'⟩)⟩

theorem lt_of_next_lt (hk : p <+: k) (hl : p <+: l) (hc : k[p.length]? = some c)
    (hd : l[p.length]? = some d) (h : c < d) : k < l := by
  obtain ⟨t, rfl⟩ := (next_eq_some_iff hk).1 hc
  obtain ⟨u, rfl⟩ := (next_eq_some_iff hl).1 hd
  rw [append_assoc, append_assoc, append_lt_append_iff]
  exact cons_lt_cons_iff.2 (.inl h)

/-- Paths are compared at the first component that differs. -/
theorem append_joinedTail_lt_iff {z : α} {a b : List α} {as bs : List (List α)} (hne : a ≠ b)
    (ha : ∀ x ∈ a, z < x) (hb : ∀ x ∈ b, z < x) :
    a ++ joinedTail z as < b ++ joinedTail z bs ↔ a < b := by
  induction a generalizing b with
  | nil =>
    cases b with
    | nil => exact absurd rfl hne
    | cons y b =>
      refine iff_of_true ?_ (nil_lt_cons _ _)
      cases as with
      | nil => exact nil_lt_cons _ _
      | cons q qs => exact cons_lt_cons_iff.2 (.inl (hb y mem_cons_self))
  | cons x a ih =>
    cases b with
    | nil =>
      refine iff_of_false ?_ (not_lt_nil _)
      cases bs with
      | nil => exact not_lt_nil _
      | cons q qs =>
        have hx : z < x := ha x mem_cons_self
        rw [nil_append, cons_append, joinedTail_cons, cons_lt_cons_iff]
        rintro (h | ⟨rfl, -⟩)
        · exact lt_asymm h hx
        · exact lt_irrefl _ hx
    | cons y b =>
      rw [cons_append, cons_append, cons_lt_cons_iff, cons_lt_cons_iff]
      refine or_congr_right (and_congr_right ?_)
      rintro rfl
      exact ih (fun h => hne (congrArg _ h)) (fun u hu => ha u (mem_cons_of_mem _ hu))
        fun u hu => hb u (mem_cons_of_mem _ hu)

/-- **Joining parts that are not empty with a separator less than all their letters keeps the
order.** -/
theorem intercalate_lt_iff {z : α} {as bs : List (List α)}
    (ha : ∀ a ∈ as, a ≠ [] ∧ ∀ x ∈ a, z < x) (hb : ∀ b ∈ bs, b ≠ [] ∧ ∀ x ∈ b, z < x) :
    List.intercalate [z] as < List.intercalate [z] bs ↔ as < bs := by
  induction as generalizing bs with
  | nil =>
    cases bs with
    | nil => exact iff_of_false (not_lt_nil _) (not_lt_nil _)
    | cons b bs =>
      refine iff_of_true ?_ (nil_lt_cons _ _)
      obtain ⟨y, b, rfl⟩ := exists_cons_of_ne_nil (hb _ mem_cons_self).1
      rw [intercalate_cons]
      exact nil_lt_cons _ _
  | cons a as ih =>
    cases bs with
    | nil => exact iff_of_false (not_lt_nil _) (not_lt_nil _)
    | cons b bs =>
      rw [intercalate_cons, intercalate_cons, cons_lt_cons_iff]
      by_cases hab : a = b
      · subst hab
        rw [append_lt_append_iff]
        simp only [lt_self_iff_false, true_and, false_or]
        have ih := ih (fun x hx => ha x (mem_cons_of_mem _ hx))
          fun x hx => hb x (mem_cons_of_mem _ hx)
        cases as with
        | nil =>
          cases bs with
          | nil => exact iff_of_false (not_lt_nil _) (not_lt_nil _)
          | cons q qs => exact iff_of_true (nil_lt_cons _ _) (nil_lt_cons _ _)
        | cons p ps =>
          cases bs with
          | nil => exact iff_of_false (not_lt_nil _) (not_lt_nil _)
          | cons q qs =>
            rw [← ih, joinedTail_cons, joinedTail_cons, cons_lt_cons_iff]
            simp
      · rw [append_joinedTail_lt_iff hab (ha a mem_cons_self).2 (hb b mem_cons_self).2]
        simp [hab]

end Lexicographic

end ContainerRegistry.Library
