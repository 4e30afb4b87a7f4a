import ContainerRegistry.Analysis.PathSeparation
import ContainerRegistry.Model.Migration

/-!
# When a repository is found to exist

The directory of a repository is there for its own content, and for that of each repository whose
name goes on after a slash.
-/

namespace ContainerRegistry.Analysis.Migrations

open Library Model.Migrations List
open Model.Paths Analysis.Paths
open Library.CleanPaths hiding join

/-- The directory of `m` is that of `n`, or below it. -/
def Covers (n m : Name) : Prop := Inside '/' n.text m.text

theorem Covers.refl (n : Name) : Covers n n := .inl rfl

theorem Covers.trans {n m k} (h : Covers n m) (h' : Covers m k) : Covers n k := by
  unfold Covers at *
  rw [inside_iff_splitOn] at *
  exact h.trans h'

theorem fine_dir (d : Dir) : Fine d.text := by
  cases d with
  | layers | manifests | uploads => decide

theorem plain_dir (d : Dir) : plain d.text = false := by
  cases d with
  | layers | manifests | uploads => rfl

theorem path_eq (e : Entry) :
    e.path = render '/' (home e.name.text ++ e.item.dir.text :: e.item.rest) :=
  join_home e.name.valid (fine_cons (fine_dir _) e.item.proper)

theorem pathFor_root (name : Name) :
    pathFor (.repositoryRoot name.text) = some (render '/' (home name.text)) := by
  have hjoin : join (repoPrefix ++ [name.text]) = render '/' (home name.text ++ []) :=
    join_home name.valid (by simp)
  rw [append_nil] at hjoin
  exact congrArg some hjoin

/-- A name ends before the first special directory. -/
theorem prefix_of_plain {a b rest dir} (ha : ∀ c ∈ a, plain c = true)
    (hdir : plain dir = false) (h : a <+: b ++ dir :: rest) : a <+: b := by
  have hdir' : b ++ [dir] <+: b ++ dir :: rest := ⟨rest, by simp⟩
  have hmem : dir ∉ a := fun hin => by
    rw [ha dir hin] at hdir
    cases hdir
  rcases prefix_or_prefix_of_prefix h hdir' with hle | hge
  · rcases prefix_concat_iff.1 hle with heq | hpre
    · exact (hmem (heq ▸ mem_append_right b mem_cons_self)).elim
    · exact hpre
  · exact (hmem (hge.subset (mem_append_right b mem_cons_self))).elim

/-- A path is inside a repository by its name. -/
theorem inside_home_iff {name : Name} {e : Entry} :
    Inside '/' (render '/' (home name.text)) e.path ↔ Covers name e.name := by
  rw [path_eq, Covers, inside_iff_splitOn (p := name.text)]
  have hplain : ∀ c ∈ name.text.splitOn '/', plain c = true :=
    fun c hc => (component_of_name name.valid c hc).2
  constructor
  · intro h
    have hpre := prefix_of_inside (home_ne_nil _) (by simp [home_ne_nil]) (fine_home name.valid)
      (fine_append (fine_home e.name.valid) (fine_cons (fine_dir _) e.item.proper)) h
    have hnames : name.text.splitOn '/' <+:
        e.name.text.splitOn '/' ++ e.item.dir.text :: e.item.rest := by
      simpa [home, prefix_append_right_inj] using hpre
    exact prefix_of_plain hplain (plain_dir e.item.dir) hnames
  · intro h
    refine inside_of_prefix (home_ne_nil _) ?_
    have hhome : home name.text <+: home e.name.text := by
      simpa [home, prefix_append_right_inj] using h
    exact hhome.trans (prefix_append _ _)

/-- A repository is there if one at or below it is. -/
theorem stat_root (entries : List Entry) (name : Name) :
    ((∃ e ∈ entries, Covers name e.name) ∧
        stat entries false (render '/' (home name.text)) = .ok ()) ∨
      (¬ ∃ e ∈ entries, Covers name e.name) ∧
        stat entries false (render '/' (home name.text)) = .error .pathNotFound := by
  have hany : (entries.any fun e => e.path = render '/' (home name.text) ∨
      render '/' (home name.text) ++ ['/'] <+: e.path) = true ↔
        ∃ e ∈ entries, Covers name e.name := by
    simp only [any_eq_true, decide_eq_true_eq, ← inside_home_iff]
    rfl
  unfold stat
  rw [if_neg Bool.false_ne_true]
  split
  next h => exact .inl ⟨hany.1 h, rfl⟩
  next h => exact .inr ⟨fun hc => h (hany.2 hc), rfl⟩

/-- **A repository is found to exist when there is content at its name or below it.** -/
theorem repositoryExists_cases (entries : List Entry) (name : Name) :
    ((∃ e ∈ entries, Covers name e.name) ∧ repositoryExists entries false name = .ok true) ∨
      (¬ ∃ e ∈ entries, Covers name e.name) ∧ repositoryExists entries false name = .ok false := by
  unfold repositoryExists
  rw [pathFor_root]
  rcases stat_root entries name with ⟨hfound, hstat⟩ | ⟨hnone, hstat⟩
  · exact .inl ⟨hfound, by simp only [hstat]⟩
  · exact .inr ⟨hnone, by simp only [hstat]⟩

/-! ## Repositories below a name -/

def HasContent (entries : List Entry) (name : Name) : Prop := ∃ e ∈ entries, e.name = name

/-- The name `m` goes on after `n` and a slash. -/
def Below (n m : Name) : Prop := n.text ++ ['/'] <+: m.text

theorem covers_iff {n m} : Covers n m ↔ m = n ∨ Below n m := by
  have htext : m.text = n.text ↔ m = n := by
    rw [Name.mk.injEq]
  exact or_congr htext Iff.rfl

theorem exists_covers_iff {entries name} :
    (∃ e ∈ entries, Covers name e.name) ↔
      HasContent entries name ∨ ∃ e ∈ entries, Below name e.name := by
  simp only [covers_iff, HasContent]
  constructor
  · rintro ⟨e, he, heq | hbelow⟩
    · exact .inl ⟨e, he, heq⟩
    · exact .inr ⟨e, he, hbelow⟩
  · rintro (⟨e, he, heq⟩ | ⟨e, he, hbelow⟩)
    · exact ⟨e, he, .inl heq⟩
    · exact ⟨e, he, .inr hbelow⟩

end ContainerRegistry.Analysis.Migrations
