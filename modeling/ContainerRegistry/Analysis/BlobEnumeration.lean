import ContainerRegistry.Analysis.PathSeparation
import ContainerRegistry.Model.BlobEnumeration

/-!
# Which digests an enumeration finds

The digest is read off the three directories above a `data` file. A name of one byte makes it panic,
and other directories are read like those of a blob.
-/

namespace ContainerRegistry.Analysis.BlobEnumeration

open Library Model.Paths Model.BlobEnumeration Analysis.Paths List
open Library.CleanPaths hiding join

variable {cs : List Str} {a b c : Str}

theorem render_concat (hne : cs ≠ []) (c : Str) :
    render '/' (cs ++ [c]) = render '/' cs ++ '/' :: c := by
  rw [render, intercalate_append hne (by simp), render, cons_append]
  simp

theorem split_append (p : Str) (hc : '/' ∉ c) : split (p ++ '/' :: c) = (p ++ ['/'], c) := by
  have hall : ∀ x ∈ c.reverse, decide (x ≠ '/') = true := fun x hx =>
    decide_eq_true fun heq => hc (heq ▸ mem_reverse.1 hx)
  have hreverse : (p ++ '/' :: c).reverse = c.reverse ++ '/' :: p.reverse := by simp
  rw [split, rdropWhile, rtakeWhile, hreverse, dropWhile_append_of_pos hall,
    takeWhile_append_of_pos hall, dropWhile_cons_of_neg (by simp), takeWhile_cons_of_neg (by simp)]
  simp

theorem dir_render (hne : cs ≠ []) (h : ∀ c ∈ cs, Fine c) :
    dir (render '/' cs ++ ['/']) = render '/' cs := by
  have hjoin := join_render hne h [[]]
  rw [extend_empty, extend_nil] at hjoin
  refine Eq.trans ?_ hjoin
  rw [dir, split_append _ (c := []) (by simp), CleanPaths.join,
    dropWhile_cons_of_neg (by simp [render])]
  simp

theorem base_append (p : Str) (hc : Fine c) : base (p ++ '/' :: c ++ ['/']) = c := by
  have hlast : (p ++ '/' :: c ++ ['/']).rdropWhile (· = '/') = p ++ '/' :: c := by
    obtain ⟨init, x, rfl⟩ := (eq_nil_or_concat' c).resolve_left hc.nonempty
    have hx : x ≠ '/' := fun heq => hc.no_sep (by simp [heq])
    rw [rdropWhile_concat_pos _ _ _ (by simp), ← cons_append, ← append_assoc,
      rdropWhile_concat_neg _ _ _ (by simpa using hx)]
  rw [base, if_neg (by simp), hlast, split_append _ hc.no_sep]
  exact if_neg hc.nonempty

theorem trimSuffix_append (p suffix : Str) : trimSuffix (p ++ suffix) suffix = p := by
  rw [trimSuffix, if_pos (by simp)]
  simp

/-- The digest that is read off the last three directories. -/
def digestOf (a b c : Str) : Str := (if b = c.take 2 then a else b) ++ ':' :: c

/-- The digest is read off the last components. -/
theorem digestFromPath_render (hne : cs ≠ []) (h : ∀ x ∈ cs ++ [a, b, c], Fine x) :
    digestFromPath (render '/' (cs ++ [a, b, c] ++ ["data".toList])) =
      if c.length < 2 then none else some (digestOf a b c, validDigest (digestOf a b c)) := by
  have hsplit : cs ++ [a, b, c] = cs ++ [a] ++ [b] ++ [c] := by simp
  have hdir : dir (render '/' (cs ++ [a] ++ [b]) ++ ['/']) =
      render '/' cs ++ '/' :: a ++ '/' :: b := by
    rw [dir_render (by simp) fun x hx => h x (hsplit ▸ mem_append_left _ hx),
      render_concat (by simp), render_concat hne]
  have htrim : trimSuffix (render '/' (cs ++ [a, b, c] ++ ["data".toList])) "/data".toList =
      render '/' (cs ++ [a] ++ [b]) ++ '/' :: c := by
    rw [render_concat (by simp), hsplit, render_concat (by simp)]
    exact trimSuffix_append _ _
  rw [digestFromPath, htrim, split_append _ (h c (by simp)).no_sep]
  simp only [hdir]
  rw [split_append _ (h b (by simp)).no_sep]
  simp only [base_append _ (h a (by simp)), digestOf]

/-- A valid digest is split at its colon. -/
theorem splitDigest_of_valid (h : validDigest (a ++ ':' :: c) = true) :
    splitDigest (a ++ ':' :: c) = (a, c) := by
  have hcases : splitDigest (a ++ ':' :: c) = (a, c) ∨ ':' ∈ (splitDigest (a ++ ':' :: c)).2 := by
    clear h
    induction a with
    | nil => simp [splitDigest]
    | cons x a ih =>
      by_cases hx : x = ':'
      · simp [splitDigest, hx]
      · simpa [splitDigest, hx] using ih
  refine hcases.resolve_right fun hmem => ?_
  have hhex := (validDigest_cases h).2.2.2 ':' hmem
  revert hhex
  decide

/-- The directory of the blobs, with the directories below it that lead to a file. -/
def below (cs : List Str) : List Str := top ++ "blobs".toList :: cs

theorem layout_blobData (h : validDigest (a ++ ':' :: c) = true) :
    layout (.blobData (a ++ ':' :: c)) = below [a, c.take 2, c] ++ ["data".toList] := by
  rw [layout, digestParts, splitDigest_of_valid h]
  rfl

/-- The callback does not panic on the `data` file in the directories, and a digest that it ingests
has its data there. -/
def Recovers (cs : List Str) : Prop :=
  handleFile false (render '/' (below cs ++ ["data".toList])) ≠ .panics ∧
    ∀ dgst, handleFile false (render '/' (below cs ++ ["data".toList])) = .ingested dgst →
      pathFor (.blobData dgst) = some (render '/' (below cs ++ ["data".toList]))

theorem handleFile_render {l : List Str} (hne : l ≠ []) (hl : below cs = l ++ [a, b, c])
    (h : ∀ x ∈ below cs, Fine x) :
    handleFile false (render '/' (below cs ++ ["data".toList])) =
      if c.length < 2 then .panics
      else if validDigest (digestOf a b c) then .ingested (digestOf a b c) else .failed := by
  have hdata : (split (render '/' (below cs ++ ["data".toList]))).2 = "data".toList := by
    rw [render_concat (by simp [below]), split_append _ (by decide)]
  rw [handleFile, if_neg (by rw [hdata]; simp)]
  rw [hl] at h ⊢
  rw [digestFromPath_render hne h]
  by_cases hlength : c.length < 2
  · simp [hlength]
  · cases hvalid : validDigest (digestOf a b c) <;> simp [hlength]

/-- **The digest of a blob is recovered from its path.** Any other `data` file below the blobs root
does no harm exactly if the name of its directory has two bytes and is not that of a valid digest,
with the algorithm in one of the two directories above. -/
theorem digests_recovered_iff (dgst : Str) (cs : List Str) (hcs : ∀ c ∈ cs, Fine c) :
    (validDigest dgst = true → ∃ p, pathFor (.blobData dgst) = some p ∧
      digestFromPath p = some (dgst, true)) ∧
    ∃ l a b c, below cs = l ++ [a, b, c] ∧
      (Recovers cs ↔ 2 ≤ c.length ∧ (validDigest (digestOf a b c) = true →
        cs = [(splitDigest (digestOf a b c)).1, c.take 2, c])) := by
  have hfine : ∀ {cs : List Str}, (∀ c ∈ cs, Fine c) → ∀ c ∈ below cs, Fine c := fun h =>
    fine_append fine_top (fine_cons (by decide) h)
  constructor
  · intro hdgst
    obtain ⟨hcolon, -, hlength, -⟩ := validDigest_cases hdgst
    have hparts := fine_digestParts hdgst true
    rw [digestParts] at hparts
    rw [← digest_eq hcolon] at hdgst ⊢
    generalize (splitDigest dgst).1 = a, (splitDigest dgst).2 = c at hdgst hlength hparts ⊢
    refine ⟨_, pathFor_eq (s := .blobData _) hdgst, ?_⟩
    rw [layout_blobData hdgst]
    have hread := @digestFromPath_render (top ++ ["blobs".toList]) _ _ _ (by simp) (hfine hparts)
    rwa [if_neg (by omega), digestOf, if_pos rfl, hdgst] at hread
  · obtain ⟨a, b, c, hlast⟩ : ∃ a b c, (below cs).drop cs.length.succ = [a, b, c] :=
      length_eq_three.1 (by simp [below, top]; omega)
    have hl : below cs = (below cs).take cs.length.succ ++ [a, b, c] := by
      rw [← hlast, take_append_drop]
    refine ⟨_, a, b, c, hl, ?_⟩
    rw [Recovers, handleFile_render (by simp [below, top]) hl (hfine hcs)]
    by_cases hlength : c.length < 2
    · simp [hlength]
    rw [if_neg hlength]
    by_cases hvalid : validDigest (digestOf a b c) = true
    · rw [if_pos hvalid]
      rw [digestOf] at hvalid ⊢
      have hpath := pathFor_eq (s := .blobData _) hvalid
      have hlayout := fine_layout (s := .blobData _) hvalid
      rw [layout_blobData hvalid] at hpath hlayout
      rw [splitDigest_of_valid hvalid]
      constructor
      · rintro ⟨-, hown⟩
        have hsame := Option.some.inj ((hown _ rfl).symm.trans hpath)
        have hlist := render_injective (by simp) (by simp)
          (fine_append (hfine hcs) (by decide)) hlayout hsame
        have htop := append_cancel_right hlist
        exact ⟨not_lt.1 hlength, fun _ => by simpa [below] using htop⟩
      · rintro ⟨-, hown⟩
        refine ⟨by simp, ?_⟩
        rintro _ ⟨⟩
        rw [hpath, ← hown hvalid]
    · simp [hvalid, Nat.le_of_not_lt hlength]

/-- The digest of a `data` file that is not in the place of a blob is not valid. -/
theorem foreign_file_refused : Recovers ["sha256".toList, "ab".toList] := by
  obtain ⟨-, l, a, b, c, hl, hiff⟩ :=
    digests_recovered_iff [] ["sha256".toList, "ab".toList] (by decide)
  obtain ⟨⟩ : ["blobs".toList, "sha256".toList, "ab".toList] = [a, b, c] := append_inj_right' hl rfl
  exact hiff.2 ⟨by decide, fun hvalid => absurd hvalid (by decide)⟩

/-- The name of a directory has one letter; and a digest lacks the level of its first two digits. -/
theorem foreign_file_harms : ¬ Recovers [['a']] ∧
    ¬ Recovers ["sha256".toList, List.replicate 64 'a'] := by
  refine ⟨fun h => h.1 (by decide +kernel), fun h => ?_⟩
  have hpath := h.2 ("sha256:".toList ++ List.replicate 64 'a') (by decide +kernel)
  revert hpath
  decide +kernel

end ContainerRegistry.Analysis.BlobEnumeration
