import ContainerRegistry.Model.BlobTransfers

/-!
# What a transfer leaves at the destination

A transfer that has delivered the content may still return an error: the check after the copy looks
the source path up in the destination.
-/

namespace ContainerRegistry.Analysis.BlobTransfers

open Model.BlobTransfers

variable {δ κ : Type} [DecidableEq κ] {kind : Kind} {x : Faults} {src dest : Files κ}
  {srcPath destPath p : List κ}

def Delivered (src dest : Files κ) (srcPath destPath : List κ) : Prop :=
  ∃ content, src srcPath = some (.file content) ∧ dest destPath = some (.file content)

/-- A transfer of this content reports what it leaves. If it does not come to write, the content is
not there already; a write that fails does not leave it; and after the copy the size of what lies at
the source path in the destination is that of the content. -/
def Reported (x : Faults) (dest : Files κ) (srcPath destPath : List κ) (content : List UInt8) :
    Prop :=
  if !x.compatible || x.reader || blocked dest destPath then dest destPath ≠ some (.file content)
  else if x.write then x.left ≠ some (.file content)
  else x.stat = false ∧ (srcPath = destPath ∨
    if srcPath.isPrefixOf destPath then content = []
    else (dest srcPath).map Node.size = some content.length)

theorem mkfile_self (node : Option Node) : mkfile dest p node p = node := if_pos rfl

theorem size_mkfile {content : List UInt8} :
    (mkfile dest destPath (some (.file content)) srcPath).map Node.size = some content.length ↔
      srcPath = destPath ∨ if srcPath.isPrefixOf destPath then content = []
        else (dest srcPath).map Node.size = some content.length := by
  unfold mkfile
  by_cases heq : srcPath = destPath
  · simp [heq, Node.size]
  · by_cases hpre : srcPath.isPrefixOf destPath
    · simp [heq, hpre, Node.size, eq_comm]
    · simp [heq, hpre]

/-- INTERNAL: without a source file an error is returned. -/
theorem transferTo_of_no_file (h : ∀ content, src srcPath ≠ some (.file content)) :
    (transferTo kind x src dest srcPath destPath).2 ≠ none := by
  unfold transferTo
  cases x.compatible with
  | false => simp
  | true =>
    cases x.reader with
    | true => simp
    | false =>
      cases hsrc : src srcPath with
      | none => simp [openSource]
      | some node =>
        cases node with
        | file content => exact absurd hsrc (h content)
        | dir => cases kind <;> cases blocked dest destPath <;> simp [openSource]

/-- **A transfer of a file returns no error exactly when the content is delivered, if and only if it
reports what it leaves.** The cases are the calls that fail, in their order. -/
theorem transferTo_of_file {content} (hsrc : src srcPath = some (.file content)) :
    ((transferTo kind x src dest srcPath destPath).2 = none ↔
        Delivered src (transferTo kind x src dest srcPath destPath).1 srcPath destPath) ↔
      Reported x dest srcPath destPath content := by
  have hdelivered : ∀ files : Files κ, Delivered src files srcPath destPath ↔
      files destPath = some (.file content) := by simp [Delivered, hsrc]
  rw [hdelivered]
  unfold transferTo Reported
  simp only [hsrc, openSource]
  cases x.compatible with
  | false => simp
  | true =>
    cases x.reader with
    | true => simp
    | false =>
      cases blocked dest destPath with
      | true => simp
      | false =>
        cases x.write with
        | true => simp [mkfile_self]
        | false =>
          cases x.stat with
          | true => simp [mkfile_self]
          | false =>
            simp only [← size_mkfile]
            cases hat : mkfile dest destPath (some (.file content)) srcPath with
            | none => simp [mkfile_self, hat]
            | some node =>
              by_cases hsize : node.size = content.length
              · simp [mkfile_self, hat, hsize]
              · simp [mkfile_self, hat, hsize]

/-- INTERNAL: for which files the answer is right. -/
theorem transferTo_reports :
    ((transferTo kind x src dest srcPath destPath).2 = none ↔
        Delivered src (transferTo kind x src dest srcPath destPath).1 srcPath destPath) ↔
      ∀ content, src srcPath = some (.file content) → Reported x dest srcPath destPath content := by
  by_cases hfile : ∃ content, src srcPath = some (.file content)
  · obtain ⟨content, hsrc⟩ := hfile
    rw [transferTo_of_file hsrc]
    refine ⟨fun h content' hsrc' => ?_, fun h => h content hsrc⟩
    cases hsrc.symm.trans hsrc'
    exact h
  · have hnone : ∀ content, src srcPath ≠ some (.file content) := not_exists.1 hfile
    refine iff_of_true (iff_of_false (transferTo_of_no_file hnone) ?_) fun content hsrc => ?_
    · rintro ⟨content, hsrc, -⟩
      exact hnone content hsrc
    · exact absurd hsrc (hnone content)

/-- A transfer that says so has cleaned up. -/
theorem clean_of_transfer {pathFor : δ → Option (List κ)} {dgst dest' reason}
    (hp : pathFor dgst = some p)
    (h : transfer pathFor kind x src dest dgst = (dest', some (.transfer dgst reason true none))) :
    dest' p = none := by
  simp only [transfer, hp] at h
  split at h
  · cases h
  split at h
  · cases h
  split at h
  · cases h
  · split at h <;> cases h
    simp
  · cases h

/-- The copy of a file over itself never ends: the file is not empty, and no call before fails. -/
def Endless (x : Faults) (files : Files κ) (srcPath destPath : List κ) : Prop :=
  srcPath = destPath ∧ (∃ content, content ≠ [] ∧ files srcPath = some (.file content)) ∧
    x.compatible = true ∧ x.reader = false ∧ x.write = false ∧ blocked files destPath = false

/-- A driver that transfers to itself ends, or does not. -/
theorem transferToItself_eq (x : Faults) (files : Files κ) (srcPath destPath : List κ) :
    (Endless x files srcPath destPath → transferToItself x files srcPath destPath = none) ∧
      (¬ Endless x files srcPath destPath → transferToItself x files srcPath destPath =
        some (transferTo .inmemory x files files srcPath destPath)) := by
  unfold transferToItself
  constructor
  · rintro ⟨rfl, ⟨content, hne, hfile⟩, hcompatible, hreader, hwrite, hblocked⟩
    obtain ⟨b, rest, rfl⟩ := List.exists_cons_of_ne_nil hne
    simp [hfile, hcompatible, hreader, hwrite, hblocked]
  · intro hends
    refine if_neg fun hendless => hends ?_
    split at hendless
    next b rest hfile =>
      simp only [Bool.and_eq_true, decide_eq_true_eq, Bool.not_eq_true'] at hendless
      obtain ⟨⟨⟨⟨hpath, hcompatible⟩, hreader⟩, hwrite⟩, hblocked⟩ := hendless
      exact ⟨hpath, ⟨_, List.cons_ne_nil b rest, hfile⟩, hcompatible, hreader, hwrite, hblocked⟩
    next => cases hendless

def calm : Faults := ⟨true, false, false, none, false, false, false⟩

def bare : Files ℕ := fun q => if q = [] then some .dir else none

def single : Files ℕ := fun q => if q = [0] then some (.file [7]) else bare q

end ContainerRegistry.Analysis.BlobTransfers
