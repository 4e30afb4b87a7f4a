import ContainerRegistry.Library.SortedListing
import Mathlib.Data.List.Dedup
import Mathlib.Data.List.Sort

/-!
# Trees of stored objects

A hierarchical store is a finite list of entries: a path, a list of components, holds a file or
marks a directory. A path also is a directory because something lies below it, as in an object
store. A file has nothing below it and one content (`ObjectTree.leaf`).
-/

namespace ContainerRegistry.Library

open List

inductive Object (κ : Type) where
  | file (content : κ)
  | dir
  deriving DecidableEq, Repr

def Object.content {κ : Type} : Object κ → Option κ
  | .file c => some c
  | .dir => none

structure ObjectTree (C κ : Type) where
  entries : List (List C × Object κ)
  leaf : ∀ e ∈ entries, ∀ e' ∈ entries, e.2 ≠ .dir → e.1 <+: e'.1 → e' = e

namespace ObjectTree

variable {C κ : Type} [DecidableEq C]

variable (T : ObjectTree C κ)

/-- The content of the file at `p`. -/
def read (p : List C) : Option κ :=
  T.entries.findSome? fun e => if e.1 = p then e.2.content else none

/-- The path `p` is that of a file or a directory. -/
def occupied (p : List C) : Bool := T.entries.any fun e => decide (p <+: e.1)

/-- The path `p` is that of a directory. -/
def isDir (p : List C) : Bool := T.occupied p && (T.read p).isNone

/-- The names in the directory `p`, each once. -/
def children (p : List C) : List C :=
  (T.entries.filterMap fun e =>
    if p <+: e.1 then (e.1.drop p.length).head? else none).dedup

def deleteFiles (ps : List (List C)) : ObjectTree C κ where
  entries := T.entries.filter fun e => decide (e.1 ∉ ps) || e.2.content.isNone
  leaf := fun e he e' he' =>
    T.leaf e (mem_of_mem_filter he) e' (mem_of_mem_filter he')

variable {T : ObjectTree C κ} {p q : List C} {c : C}

/-! ## Reading -/

omit [DecidableEq C] in
theorem file_unique {a b} (ha : (p, Object.file a) ∈ T.entries)
    (hb : (p, Object.file b) ∈ T.entries) : b = a := by
  have h := T.leaf _ ha _ hb (by simp) (prefix_refl p)
  simpa using h

/-- A file is read by its entry. -/
theorem read_eq_some {a} : T.read p = some a ↔ (p, Object.file a) ∈ T.entries := by
  unfold read
  constructor
  · intro h
    obtain ⟨⟨q, o⟩, hmem, hq⟩ := List.exists_of_findSome?_eq_some h
    by_cases hqp : q = p
    · subst hqp
      cases o with
      | file b =>
        have hb : b = a := by simpa [Object.content] using hq
        exact hb ▸ hmem
      | dir => simp [Object.content] at hq
    · simp [hqp] at hq
  · intro h
    cases hfind : T.entries.findSome? (fun e => if e.1 = p then e.2.content else none) with
    | none =>
      have hnone := List.findSome?_eq_none_iff.1 hfind _ h
      simp [Object.content] at hnone
    | some b =>
      obtain ⟨⟨q, o⟩, hmem, hq⟩ := List.exists_of_findSome?_eq_some hfind
      by_cases hqp : q = p
      · subst hqp
        cases o with
        | file b' =>
          have hb : b' = b := by simpa [Object.content] using hq
          rw [← hb, file_unique h hmem]
        | dir => simp [Object.content] at hq
      · simp [hqp] at hq

/-- Something is at the path or below. -/
theorem occupied_iff : T.occupied p = true ↔ ∃ r o, (p ++ r, o) ∈ T.entries := by
  unfold occupied
  rw [any_eq_true]
  constructor
  · rintro ⟨⟨q, o⟩, hmem, hpre⟩
    obtain ⟨r, rfl⟩ := of_decide_eq_true hpre
    exact ⟨r, o, hmem⟩
  · rintro ⟨r, o, hmem⟩
    exact ⟨_, hmem, decide_eq_true (prefix_append p r)⟩

theorem occupied_of_append (h : T.occupied (p ++ q) = true) : T.occupied p = true := by
  obtain ⟨r, o, hmem⟩ := occupied_iff.1 h
  refine occupied_iff.2 ⟨q ++ r, o, ?_⟩
  rwa [append_assoc] at hmem

theorem occupied_of_read {a} (h : T.read p = some a) : T.occupied p = true :=
  occupied_iff.2 ⟨[], .file a, by simpa using read_eq_some.1 h⟩

theorem isDir_of_read {a} (h : T.read p = some a) : T.isDir p = false := by
  simp [isDir, h]

theorem exists_read (ho : T.occupied p = true) (hd : T.isDir p = false) :
    ∃ a, T.read p = some a := by
  unfold isDir at hd
  rw [ho, Bool.true_and] at hd
  cases hr : T.read p with
  | none => simp [hr] at hd
  | some a => exact ⟨a, rfl⟩

/-- With something below, it is a directory. -/
theorem isDir_of_below (h : T.occupied (p ++ c :: q) = true) : T.isDir p = true := by
  unfold isDir
  rw [occupied_of_append h, Bool.true_and, Option.isNone_iff_eq_none]
  by_contra hne
  obtain ⟨a, ha⟩ := Option.ne_none_iff_exists'.1 hne
  obtain ⟨r, o, hmem⟩ := occupied_iff.1 h
  have heq := T.leaf _ (read_eq_some.1 ha) _ hmem (by simp)
    (by rw [append_assoc]; exact prefix_append _ _)
  have hlen := congrArg (fun e => e.1.length) heq
  simp at hlen

/-- The entries of a directory. -/
theorem mem_children : c ∈ T.children p ↔ T.occupied (p ++ [c]) = true := by
  unfold children
  rw [mem_dedup, mem_filterMap, occupied_iff]
  constructor
  · rintro ⟨⟨q, o⟩, hmem, hq⟩
    by_cases hpre : p <+: q
    · obtain ⟨r, rfl⟩ := hpre
      cases r with
      | nil => simp at hq
      | cons c' r =>
        have hc : c' = c := by simpa using hq
        subst hc
        exact ⟨r, o, by simpa using hmem⟩
    · simp [hpre] at hq
  · rintro ⟨r, o, hmem⟩
    refine ⟨_, hmem, ?_⟩
    rw [if_pos (by rw [append_assoc]; exact prefix_append _ _)]
    simp

theorem isDir_of_child (h : c ∈ T.children p) : T.isDir p = true :=
  isDir_of_below (q := []) (mem_children.1 h)

def depth : ℕ := T.entries.foldr (fun e n => max e.1.length n) 0

omit [DecidableEq C] in
theorem length_le_depth {e} (h : e ∈ T.entries) : e.1.length ≤ T.depth := by
  unfold depth
  generalize T.entries = es at h
  induction es with
  | nil => cases h
  | cons a es ih =>
    rw [foldr_cons]
    rcases mem_cons.1 h with rfl | h
    · exact Nat.le_max_left _ _
    · exact Nat.le_trans (ih h) (Nat.le_max_right _ _)

theorem length_le_of_occupied (h : T.occupied p = true) : p.length ≤ T.depth := by
  obtain ⟨r, o, hmem⟩ := occupied_iff.1 h
  have hlen := length_le_depth hmem
  rw [length_append] at hlen
  omega

theorem read_deleteFiles {ps a} :
    (T.deleteFiles ps).read p = some a ↔ T.read p = some a ∧ p ∉ ps := by
  rw [read_eq_some, read_eq_some]
  unfold deleteFiles
  rw [mem_filter]
  simp [Object.content]

/-! ## The tree in order -/

section Preorder

variable [LinearOrder C] {dir : List C} {fuel : ℕ}

/-- The paths below `dir`: a directory before what is in it, and its names in order. -/
def preorder (T : ObjectTree C κ) : ℕ → List C → List (List C)
  | 0, _ => []
  | fuel + 1, dir => ((T.children dir).insertionSort (· ≤ ·)).flatMap fun c =>
    (dir ++ [c]) :: T.preorder fuel (dir ++ [c])

/-- The listing stays below the directory. -/
theorem starts_of_mem_preorder (h : p ∈ T.preorder fuel dir) : ∃ c rest, p = dir ++ c :: rest := by
  induction fuel generalizing dir with
  | zero => cases h
  | succ fuel ih =>
    obtain ⟨c, -, h⟩ := mem_flatMap.1 h
    rcases mem_cons.1 h with rfl | h
    · exact ⟨c, [], rfl⟩
    · obtain ⟨d, rest, rfl⟩ := ih h
      exact ⟨c, d :: rest, by rw [append_assoc]; rfl⟩

/-- **All paths below a directory are listed.** -/
theorem mem_preorder (hfuel : T.depth < dir.length + fuel) :
    p ∈ T.preorder fuel dir ↔ T.occupied p = true ∧ ∃ c rest, p = dir ++ c :: rest := by
  refine ⟨fun h => ⟨?_, starts_of_mem_preorder h⟩, ?_⟩
  · clear hfuel
    induction fuel generalizing dir with
    | zero => cases h
    | succ fuel ih =>
      obtain ⟨c, hc, h⟩ := mem_flatMap.1 h
      rcases mem_cons.1 h with rfl | h
      · exact mem_children.1 ((mem_insertionSort _).1 hc)
      · exact ih h
  · rintro ⟨hocc, c, rest, rfl⟩
    induction fuel generalizing dir c rest with
    | zero =>
      have hle := length_le_of_occupied hocc
      rw [length_append] at hle
      omega
    | succ fuel ih =>
      have hsplit : dir ++ c :: rest = dir ++ [c] ++ rest := by simp
      rw [hsplit] at hocc ⊢
      refine mem_flatMap.2 ⟨c, (mem_insertionSort _).2 (mem_children.2 (occupied_of_append hocc)),
        ?_⟩
      cases rest with
      | nil => simp
      | cons d rest =>
        refine mem_cons_of_mem _ (ih ?_ d rest hocc)
        rw [length_append, length_singleton]
        omega

/-- **The listing is in lexicographic order.** -/
theorem sorted_preorder : (T.preorder fuel dir).Pairwise (· < ·) := by
  induction fuel generalizing dir with
  | zero => exact .nil
  | succ fuel ih =>
    rw [preorder, pairwise_flatMap]
    constructor
    · intro c _
      refine pairwise_cons.2 ⟨fun q hq => ?_, ih⟩
      obtain ⟨d, rest, rfl⟩ := starts_of_mem_preorder hq
      exact lt_append_cons
    · have hblock : ∀ {c q}, q ∈ (dir ++ [c]) :: T.preorder fuel (dir ++ [c]) →
          ∃ rest, q = dir ++ c :: rest := by
        intro c q hq
        rcases mem_cons.1 hq with rfl | hq
        · exact ⟨[], rfl⟩
        · obtain ⟨d, rest, rfl⟩ := starts_of_mem_preorder hq
          exact ⟨d :: rest, by rw [append_assoc]; rfl⟩
      have hlt : ((T.children dir).insertionSort (· ≤ ·)).Pairwise (· < ·) :=
        ((pairwise_insertionSort (· ≤ ·) _).and
          ((perm_insertionSort (· ≤ ·) _).nodup_iff.2 (nodup_dedup _))).imp
            fun h => lt_of_le_of_ne h.1 h.2
      refine hlt.imp fun hcd q hq q' hq' => ?_
      obtain ⟨rest, rfl⟩ := hblock hq
      obtain ⟨rest', rfl⟩ := hblock hq'
      exact append_lt_append_iff.2 (cons_lt_cons_iff.2 (.inl hcd))

end Preorder

end ObjectTree

end ContainerRegistry.Library
