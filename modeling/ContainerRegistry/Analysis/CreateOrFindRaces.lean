import ContainerRegistry.Model.CreateOrFind
import ContainerRegistry.Library.Runs

/-!
# Creating or finding next to deletions

What a call relies on is what the last answer told it (`exec_spec`). The others keep it true as long
as none of them commits the deletion of a row that is being looked for (`Apart`).
-/

namespace ContainerRegistry.Analysis.CreateOrFind

open Library Function
open Model.CreateOrFind
open Model.RepositoryRows (Namespace Repository)

/-! ## What a call knows -/

/-- What a call knows of its view: there is a row with the key, and the row is there. -/
structure Knowledge where
  key : Option Key
  row : Option Row

def told (q : Query) (answer : q.Answer) : Knowledge :=
  match q, answer with
  | .insert arg, .ok (some stamp) => ⟨none, some (arg.filled stamp)⟩
  | .insert arg, .ok none => ⟨some arg.conflictKey, none⟩
  | .findBlob _, .ok (some b) => ⟨none, some (.blob b)⟩
  | .findNamespace _, .ok (some n) => ⟨none, some (.topLevel n)⟩
  | .findRepository _, .ok (some r) => ⟨none, some (.repository r)⟩
  | _, _ => ⟨none, none⟩

/-- The answers that what is known leaves open: a row that is known to be there is found. -/
def allowed (k : Knowledge) (q : Query) (answer : q.Answer) : Prop :=
  match q, answer with
  | .findBlob digest, .ok none => k.key ≠ some (.digest digest)
  | .findNamespace name, .ok none => k.key ≠ some (.name name)
  | .findRepository path, .ok none => k.key ≠ some (.path path)
  | _, _ => True

/-- Every statement may be run; what is known is what the last answer told. -/
def rules : Program.Rules Query Query.Answer Knowledge where
  asks _ _ := True
  allowed := allowed
  told _ q answer := told q answer

/-- A call that returns nil returns a row it knows of, and a call that does not return nil has not
panicked. -/
def Returns {α : Type} (row : α → Row) (k : Knowledge) : Except Failure α → Prop
  | .ok a => k.row = some (row a)
  | .error err => err ≠ .nilPointer

/-- The same for a find that has something to find. -/
def Finds {α : Type} (row : α → Row) (k : Knowledge) : Except Failure (Option α) → Prop
  | .ok (some a) => k.row = some (row a)
  | .ok none => False
  | .error err => err ≠ .nilPointer

def Inserts (arg : Row) (k : Knowledge) : Except Failure (Option Stamp) → Prop
  | .ok (some stamp) => k.row = some (arg.filled stamp)
  | .ok none => k = ⟨some arg.conflictKey, none⟩
  | .error err => err ≠ .nilPointer

section Calls

variable {k : Knowledge} {α β : Type}

theorem insert_meets (arg : Row) :
    Program.Meets rules (Inserts arg) (statement (.insert arg)) k := by
  refine ⟨trivial, fun answer _ => ?_⟩
  rcases answer with err | _ | stamp
  · exact nofun
  · rfl
  · rfl

/-- INTERNAL: **an insert, then a find.** The find relies on what the conflict told. -/
theorem insertOrFind_meets {arg : Row} {scanned : Stamp → α} {find : Call (Option α)}
    {row : α → Row} (hscanned : ∀ stamp, arg.filled stamp = row (scanned stamp))
    (hfind : Program.Meets rules (Finds row) find ⟨some arg.conflictKey, none⟩) :
    Program.Meets rules (Returns row) (insertOrFind arg scanned find) k := by
  refine Program.Meets.bind_ok (insert_meets arg) ?_ fun _ _ h => h
  intro k res hres
  cases res with
  | some stamp => exact hres.trans (congrArg some (hscanned stamp))
  | none =>
    have hk : k = ⟨some arg.conflictKey, none⟩ := hres
    subst hk
    refine Program.Meets.bind_ok hfind ?_ fun _ _ h => h
    intro k tmp htmp
    cases tmp with
    | some a => exact htmp
    | none => exact htmp.elim

theorem findByDigest_meets (digest : Model.Paths.Str) :
    Program.Meets rules (Finds .blob) (findByDigest digest) ⟨some (.digest digest), none⟩ := by
  unfold findByDigest
  split
  · refine ⟨trivial, fun answer hanswer => ?_⟩
    rcases answer with err | _ | b
    · exact nofun
    · exact absurd rfl hanswer
    · rfl
  · exact nofun

theorem findNamespace_meets (name : Model.Paths.Str) :
    Program.Meets rules (Finds .topLevel) (statement (.findNamespace name))
      ⟨some (.name name), none⟩ := by
  refine ⟨trivial, fun answer hanswer => ?_⟩
  rcases answer with err | _ | n
  · exact nofun
  · exact absurd rfl hanswer
  · rfl

theorem findRepository_meets (path : Model.Paths.Str) :
    Program.Meets rules (Finds .repository) (statement (.findRepository path))
      ⟨some (.path path), none⟩ := by
  refine ⟨trivial, fun answer hanswer => ?_⟩
  rcases answer with err | _ | r
  · exact nofun
  · exact absurd rfl hanswer
  · rfl

/-- A blob is found or created. -/
theorem blobCreateOrFind_meets (b : Blob) :
    Program.Meets rules (Returns .blob) (blobCreateOrFind b) k := by
  unfold blobCreateOrFind
  split
  · have hmap : Program.Meets rules (fun _ res => res ≠ .error .nilPointer)
        (mapMediaType b.mediaType) k := by
      refine ⟨trivial, fun answer _ => ?_⟩
      rcases answer with err | known <;> exact nofun
    refine Program.Meets.bind_ok hmap ?_ fun _ err h heq => h (heq ▸ rfl)
    intro k known _
    split
    · exact insertOrFind_meets (fun _ => rfl) (findByDigest_meets b.digest)
    · exact nofun
  · exact nofun

theorem repositoryInsertOrFind_meets (r : Repository) :
    Program.Meets rules (Returns .repository) (repositoryInsertOrFind r) k :=
  insertOrFind_meets (fun _ => rfl) (findRepository_meets r.path)

/-- Every return is one the rules allow. -/
theorem repositoryCreateOrFind_meets (r : Repository) :
    Program.Meets rules (Returns .repository) (repositoryCreateOrFind r) k := by
  unfold repositoryCreateOrFind
  split
  · have hnamespace : Program.Meets rules (Returns .topLevel)
        (namespaceCreateOrFind ⟨0, Model.RepositoryRows.topLevelName r.path, 0⟩) k :=
      insertOrFind_meets (fun _ => rfl) (findNamespace_meets _)
    refine Program.Meets.bind_ok hnamespace ?_ fun _ _ h => h
    intro k n _
    exact repositoryInsertOrFind_meets _
  · exact repositoryInsertOrFind_meets r

theorem createOrFind_meets (arg : Arg) : Program.Meets rules (Returns id) arg.createOrFind k := by
  cases arg with
  | blob b => exact Program.Meets.bind_ok (blobCreateOrFind_meets b) (fun _ _ h => h) fun _ _ h => h
  | repository r =>
    exact Program.Meets.bind_ok (repositoryCreateOrFind_meets r) (fun _ _ h => h) fun _ _ h => h

end Calls

/-! ## Steps -/

section Steps

variable {T : Type} {σ σ' : State T} {t u : T}

def sought : Query → Option Key
  | .findBlob digest => some (.digest digest)
  | .findNamespace name => some (.name name)
  | .findRepository path => some (.path path)
  | _ => none

def actor : Action T → Option T
  | .tick => none
  | .begin t | .call t _ | .go t | .lose t | .delete t _ | .commit t | .rollback t => some t

/-- What a step leaves of the session `u` and of the rows. -/
structure Leaves (σ σ' : State T) (u : T) (gone : List Row) : Prop where
  session : σ'.session u = σ.session u
  delta : σ'.store.delta u = σ.store.delta u
  rows : ∀ r ∈ σ.store.db, r ∉ gone → r ∈ σ'.store.db

theorem Leaves.refl (σ : State T) (u : T) (gone : List Row) : Leaves σ σ u gone :=
  ⟨rfl, rfl, fun _ h _ => h⟩

variable {gone : List Row}

theorem Leaves.view (h : Leaves σ σ' u gone) {r} (hr : r ∈ σ.store.view u)
    (hgone : r ∉ gone) : r ∈ σ'.store.view u := by
  rw [Store.view, Delta.mem_view] at hr ⊢
  rw [h.delta]
  rcases hr with hins | ⟨hdb, hdel⟩
  · exact .inl hins
  · exact .inr ⟨h.rows r hdb hgone, hdel⟩

def Quiet (σ : State T) (t : T) : Prop :=
  (∀ began, (σ.session t).tx ≠ .opened began) → σ.store.delta t = ⟨[], []⟩

theorem advance_store (arg : Row) : (σ.advance arg).store = σ.store := by
  cases arg <;> rfl

theorem advance_session (arg : Row) : (σ.advance arg).session = σ.session := by
  cases arg <;> rfl

theorem Quiet.advance (h : Quiet σ t) (arg : Row) : Quiet (σ.advance arg) t := by
  unfold Quiet
  rw [advance_session, advance_store]
  exact h

variable [DecidableEq T]

def published (σ : State T) : Action T → List Row
  | .commit t => (σ.store.delta t).del
  | .delete t keys => if (σ.session t).tx = .none then σ.matching t keys else []
  | _ => []

/-- **The condition on the steps.** No deletion is committed of a row that a call is about to look
for. -/
def Apart (σ : State T) (a : Action T) : Prop :=
  ∀ u, ∀ key ∈ (σ.session u).asks.bind sought, ∀ r ∈ published σ a, key ∉ schema.keys r

instance [Fintype T] (σ : State T) (a : Action T) : Decidable (Apart σ a) :=
  inferInstanceAs (Decidable (∀ u, ∀ key ∈ (σ.session u).asks.bind sought,
    ∀ r ∈ published σ a, key ∉ schema.keys r))

theorem Leaves.setTx (h : u ≠ t) (tx : Tx) (gone : List Row) : Leaves σ (σ.setTx t tx) u gone :=
  ⟨update_of_ne h _ _, rfl, fun _ hr _ => hr⟩

theorem Leaves.setCall (h : Leaves σ σ' u gone) (hne : u ≠ t)
    (call : Program Query Query.Answer (Except Failure Row)) :
    Leaves σ (σ'.setCall t call) u gone :=
  ⟨(update_of_ne hne _ _).trans h.session, h.delta, h.rows⟩

theorem Leaves.abort (h : Leaves σ σ' u gone) (hne : u ≠ t) : Leaves σ (σ'.abort t) u gone := by
  unfold State.abort
  split
  · exact h
  · exact ⟨(update_of_ne hne _ _).trans h.session,
      (Store.delta_release_of_ne _ _ hne).trans h.delta, h.rows⟩

/-- INTERNAL: a statement that writes takes nothing from the others but what it deletes and commits
at once. -/
theorem Leaves.written {e} (h : Leaves σ σ' u gone) (hne : u ≠ t)
    (hquiet : Quiet σ t) (htx : (σ'.session t).tx = (σ.session t).tx)
    (hdel : (σ.session t).tx = .none → e.del ⊆ gone) :
    Leaves σ (σ'.written t (σ.store.staged schema t e)) u gone := by
  unfold State.written
  rw [htx]
  split
  next hnone =>
    refine ⟨h.session, ?_, fun r hr hgone => ?_⟩
    · exact (Store.delta_release_of_ne _ _ hne).trans (Store.delta_staged_of_ne _ _ hne)
    · rw [Store.commit_db, Store.view_staged_self, Delta.mem_view, Store.view,
        hquiet (by rw [hnone]; simp), Delta.view_nil]
      exact .inr ⟨hr, fun hmem => hgone (hdel hnone hmem)⟩
  next =>
    exact ⟨h.session, Store.delta_staged_of_ne _ _ hne, fun _ hr _ => hr⟩

/-- INTERNAL: **what an insert does.** It fails, it conflicts, or it is staged. -/
theorem insert_cases {arg answer} (h : σ.insert t arg = some (σ', answer)) :
    (answer = .error .violation ∧ σ' = (σ.advance arg).abort t) ∨
    (answer = .ok none ∧ σ' = σ.advance arg ∧
      ∃ r ∈ σ.store.view t, arg.conflictKey ∈ schema.keys r) ∨
    (answer = .ok (some (σ.stamp t arg)) ∧ σ' = (σ.advance arg).written t
      (σ.store.staged schema t ⟨⟨[arg.filled (σ.stamp t arg)], []⟩, [], []⟩)) := by
  unfold State.insert at h
  dsimp only at h
  split at h
  · cases h
    exact .inl ⟨rfl, rfl⟩
  split at h
  next hany =>
    split at h
    · cases h
      exact .inr (.inl ⟨rfl, rfl, by simpa using hany⟩)
    · cases h
  split at h
  next => cases h
  next =>
    cases h
    exact .inl ⟨rfl, rfl⟩
  next store hwrite =>
    cases h
    obtain ⟨-, -, rfl⟩ := Store.write_eq_done hwrite
    exact .inr (.inr ⟨rfl, rfl⟩)

theorem insert_other {arg answer}
    (h : σ.insert t arg = some (σ', answer)) (hquiet : Quiet σ t) (hne : u ≠ t) :
    Leaves σ σ' u [] := by
  have hnext : Leaves σ (σ.advance arg) u [] :=
    ⟨congrFun (advance_session arg) u, congrFun (congrArg Store.delta (advance_store arg)) u,
      fun r hr _ => (advance_store (σ := σ) arg).symm ▸ hr⟩
  rcases insert_cases h with ⟨-, rfl⟩ | ⟨-, rfl, -⟩ | ⟨-, rfl⟩
  · exact hnext.abort hne
  · exact hnext
  · exact hnext.written hne hquiet (congrArg Session.tx (congrFun (advance_session arg) t))
      fun _ => List.Subset.refl _

variable {q : Query}

/-- A statement leaves other sessions alone. -/
theorem exec_other {answer} (h : σ.exec t q = some (σ', answer)) (hquiet : Quiet σ t)
    (hne : u ≠ t) : Leaves σ σ' u [] := by
  unfold State.exec at h
  split at h
  · cases h
    exact Leaves.refl σ u []
  cases q with
  | insert arg => exact insert_other h hquiet hne
  | mapMediaType | findBlob | findNamespace | findRepository =>
    cases h
    exact Leaves.refl σ u []

variable {a : Action T}

/-- INTERNAL: **a step leaves the other sessions alone**, and takes no rows but those whose deletion
it commits. -/
theorem step_other (h : step σ a = some σ') (hquiet : ∀ t, Quiet σ t) (hu : actor a ≠ some u) :
    Leaves σ σ' u (published σ a) := by
  have other : ∀ {t : T}, some t ≠ some u → u ≠ t := fun hne heq => hne (congrArg some heq.symm)
  cases a with
  | tick =>
    cases h
    exact ⟨rfl, rfl, fun _ hr _ => hr⟩
  | begin t =>
    obtain ⟨-, ⟨⟩⟩ := Option.ite_none_right_eq_some.1 h
    exact Leaves.setTx (other hu) _ _
  | call t arg =>
    obtain ⟨-, ⟨⟩⟩ := Option.ite_none_right_eq_some.1 h
    exact (Leaves.refl σ u _).setCall (other hu) _
  | go t =>
    have hne := other hu
    simp only [step] at h
    split at h
    next q next _ =>
      obtain ⟨res, hexec, rfl⟩ := Option.map_eq_some_iff.1 h
      exact (exec_other hexec (hquiet t) hne).setCall hne _
    next => cases h
  | lose t =>
    have hne := other hu
    simp only [step] at h
    split at h
    next q next _ =>
      cases h
      exact ((Leaves.refl σ u _).abort hne).setCall hne _
    next => cases h
  | delete t keys =>
    have hne := other hu
    simp only [step] at h
    split at h
    · split at h
      next => cases h
      next =>
        cases h
        exact (Leaves.refl σ u _).abort hne
      next store hwrite =>
        cases h
        obtain ⟨-, -, rfl⟩ := Store.write_eq_done hwrite
        refine (Leaves.refl σ u _).written hne (hquiet t) rfl fun hnone => ?_
        rw [published, if_pos hnone]
        exact List.Subset.refl _
    · cases h
  | commit t =>
    have hne := other hu
    obtain ⟨-, ⟨⟩⟩ := Option.ite_none_right_eq_some.1 h
    refine ⟨update_of_ne hne _ _, Store.delta_release_of_ne _ _ hne, fun r hr hgone => ?_⟩
    exact (Delta.mem_view _ _ _).2 (.inr ⟨hr, hgone⟩)
  | rollback t =>
    have hne := other hu
    obtain ⟨-, ⟨⟩⟩ := Option.ite_none_right_eq_some.1 h
    exact ⟨update_of_ne hne _ _, Store.delta_release_of_ne _ _ hne, fun _ hr _ => hr⟩

theorem Quiet.abort (h : Quiet σ t) : Quiet (σ.abort t) t := by
  unfold State.abort
  split
  · exact h
  · exact fun _ => Store.delta_release_self _ _ _

theorem Quiet.written (htx : (σ.session t).tx ≠ .aborted) (store : Store Row Key T) :
    Quiet (σ.written t store) t := by
  intro hclosed
  have hnone : (σ.session t).tx = .none := by
    cases heq : (σ.session t).tx with
    | none => rfl
    | opened began => exact absurd heq (hclosed began)
    | aborted => exact absurd heq htx
  rw [State.written, if_pos hnone]
  exact Store.delta_release_self _ _ _

/-- A query that stages nothing. -/
theorem exec_quiet {answer} (h : σ.exec t q = some (σ', answer)) (hquiet : Quiet σ t) :
    Quiet σ' t := by
  unfold State.exec at h
  split at h
  · cases h
    exact hquiet
  next htx =>
    cases q with
    | insert arg =>
      rcases insert_cases h with ⟨-, rfl⟩ | ⟨-, rfl, -⟩ | ⟨-, rfl⟩
      · exact (hquiet.advance arg).abort
      · exact hquiet.advance arg
      · exact Quiet.written (fun heq => htx ((congrArg Session.tx
          (congrFun (advance_session arg) t)).symm.trans heq)) _
    | mapMediaType | findBlob | findNamespace | findRepository =>
      cases h
      exact hquiet

structure Holds (k : Knowledge) (view : List Row) : Prop where
  key : ∀ key, k.key = some key → ∃ r ∈ view, key ∈ schema.keys r
  row : ∀ row, k.row = some row → row ∈ view

theorem holds_nothing (view : List Row) : Holds ⟨none, none⟩ view := by
  constructor <;>
    · intro x hx
      cases hx

/-- What a find picks: rows of its kind only, and every row with the key. -/
structure Picks {α : Type} (pick : Row → Option α) (row : α → Row) (key : Key) : Prop where
  eq : ∀ r a, pick r = some a → r = row a
  ne_none : ∀ r, key ∈ schema.keys r → pick r ≠ none

/-- INTERNAL: **a find.** It returns a row of the view if one is known to be there. -/
theorem find_cases {α : Type} {pick : Row → Option α} {row : α → Row} {key : Key} {k : Knowledge}
    {view : List Row} (hpick : Picks pick row key)
    (hk : k.key = some key → ∃ r ∈ view, key ∈ schema.keys r) :
    (view.findSome? pick = none ∧ k.key ≠ some key) ∨
      ∃ a, view.findSome? pick = some a ∧ row a ∈ view := by
  cases hfind : view.findSome? pick with
  | none =>
    refine .inl ⟨rfl, fun hknown => ?_⟩
    obtain ⟨r, hr, hmem⟩ := hk hknown
    exact hpick.ne_none r hmem (List.findSome?_eq_none_iff.1 hfind r hr)
  | some a =>
    obtain ⟨r, hr, hra⟩ := List.exists_of_findSome?_eq_some hfind
    exact .inr ⟨a, rfl, hpick.eq r a hra ▸ hr⟩

theorem blobWith_picks (digest : Model.Paths.Str) :
    Picks (·.blobWith digest) .blob (.digest digest) := by
  constructor <;> intro r <;> cases r <;> simp_all [Row.blobWith, schema]

theorem namespaceWith_picks (name : Model.Paths.Str) :
    Picks (·.namespaceWith name) .topLevel (.name name) := by
  constructor <;> intro r <;> cases r <;> simp_all [Row.namespaceWith, schema]

theorem repositoryWith_picks (path : Model.Paths.Str) :
    Picks (·.repositoryWith path) .repository (.path path) := by
  constructor <;> intro r <;> cases r <;> simp_all [Row.repositoryWith, schema]

theorem holds_row {row view} (h : row ∈ view) : Holds ⟨none, some row⟩ view := by
  constructor
  · intro key hkey
    cases hkey
  · intro row hrow
    cases hrow
    exact h

theorem mem_view_written {row store} (h : row ∈ store.view t) :
    row ∈ (σ.written t store).store.view t := by
  unfold State.written
  dsimp only
  split
  · rwa [Store.view_commit_self]
  · exact h

theorem told_error (k : Knowledge) (q : Query) (err : QueryErr) :
    allowed k q (.error err) ∧ told q (.error err) = ⟨none, none⟩ := by
  cases q <;> exact ⟨trivial, rfl⟩

/-- INTERNAL: **an answer tells what is true.** -/
theorem exec_spec {k : Knowledge} {answer : q.Answer} (h : σ.exec t q = some (σ', answer))
    (hk : ∀ key ∈ sought q, k.key = some key → ∃ r ∈ σ.store.view t, key ∈ schema.keys r) :
    allowed k q answer ∧ Holds (told q answer) (σ'.store.view t) := by
  unfold State.exec at h
  split at h
  · cases h
    obtain ⟨hallowed, htold⟩ := told_error k q .aborted
    exact ⟨hallowed, htold ▸ holds_nothing _⟩
  cases q with
  | mapMediaType mediaType =>
    cases h
    exact ⟨trivial, holds_nothing _⟩
  | insert arg =>
    rcases insert_cases h with ⟨rfl, -⟩ | ⟨rfl, rfl, hconflict⟩ | ⟨rfl, rfl⟩
    · exact ⟨trivial, holds_nothing _⟩
    · refine ⟨trivial, fun key hkey => ?_, nofun⟩
      cases hkey
      rwa [advance_store]
    · refine ⟨trivial, holds_row (mem_view_written ?_)⟩
      rw [Store.view_staged_self, Delta.mem_view]
      exact .inl List.mem_cons_self
  | findBlob digest =>
    cases h
    rcases find_cases (blobWith_picks digest) (hk _ rfl) with ⟨hfind, hkey⟩ | ⟨b, hfind, hb⟩ <;>
      rw [hfind]
    · exact ⟨hkey, holds_nothing _⟩
    · exact ⟨trivial, holds_row hb⟩
  | findNamespace name =>
    cases h
    rcases find_cases (namespaceWith_picks name) (hk _ rfl) with ⟨hfind, hkey⟩ | ⟨n, hfind, hn⟩ <;>
      rw [hfind]
    · exact ⟨hkey, holds_nothing _⟩
    · exact ⟨trivial, holds_row hn⟩
  | findRepository path =>
    cases h
    rcases find_cases (repositoryWith_picks path) (hk _ rfl) with ⟨hfind, hkey⟩ | ⟨r, hfind, hr⟩ <;>
      rw [hfind]
    · exact ⟨hkey, holds_nothing _⟩
    · exact ⟨trivial, holds_row hr⟩

/-- Whatever is answered the call meets its end, and there is a row with the key that it is about to
look for. -/
def Relies (σ : State T) (t : T) : Prop :=
  ∀ p, (σ.session t).call = some p → ∃ k, p.Meets rules (Returns id) k ∧
    ∀ key ∈ (σ.session t).asks.bind sought, k.key = some key →
      ∃ r ∈ σ.store.view t, key ∈ schema.keys r

theorem setTx_session (tx : Tx) : (σ.setTx t tx).session t = { σ.session t with tx := tx } :=
  update_self _ _ _

theorem setCall_session (call : Program Query Query.Answer (Except Failure Row)) :
    (σ.setCall t call).session t = { σ.session t with call := some call } :=
  update_self _ _ _

theorem setTx_call (tx : Tx) : ((σ.setTx t tx).session t).call = (σ.session t).call := by
  rw [setTx_session]

theorem setCall_call (call : Program Query Query.Answer (Except Failure Row)) :
    ((σ.setCall t call).session t).call = some call := by
  rw [setCall_session]

theorem abort_call : ((σ.abort t).session t).call = (σ.session t).call := by
  unfold State.abort
  split
  · rfl
  · exact setTx_call .aborted

theorem Quiet.setCall (h : Quiet σ t) (call : Program Query Query.Answer (Except Failure Row)) :
    Quiet (σ.setCall t call) t := by
  intro hclosed
  rw [setCall_session] at hclosed
  exact h hclosed

omit [DecidableEq T] in
theorem exists_ask_of_asks (h : (σ.session t).asks ≠ none) :
    ∃ q next, (σ.session t).call = some (.ask q next) := by
  unfold Session.asks at h
  split at h
  next q next hcall => exact ⟨q, next, hcall⟩
  next => exact absurd rfl h

/-- A session gets its answer. -/
theorem step_answer (h : step σ a = some σ') (ht : actor a = some t)
    {next : q.Answer → Program Query Query.Answer (Except Failure Row)}
    (hcall : (σ.session t).call = some (.ask q next)) (hquiet : Quiet σ t) (hrelies : Relies σ t) :
    Quiet σ' t ∧ ∃ answer, (σ'.session t).call = some (next answer) ∧
      (next answer).Meets rules (Returns id) (told q answer) ∧
      Holds (told q answer) (σ'.store.view t) := by
  obtain ⟨k, hmeets, hk⟩ := hrelies _ hcall
  have hasks : (σ.session t).asks = some q := by rw [Session.asks, hcall]
  rw [hasks] at hk
  cases a with
  | tick => cases ht
  | go t' =>
    cases ht
    simp only [step, hcall] at h
    obtain ⟨⟨σ₁, answer⟩, hexec, rfl⟩ := Option.map_eq_some_iff.1 h
    obtain ⟨hallowed, hholds⟩ := exec_spec hexec hk
    exact ⟨(exec_quiet hexec hquiet).setCall _, answer, setCall_call _, hmeets.answer hallowed,
      hholds⟩
  | lose t' =>
    cases ht
    simp only [step, hcall] at h
    cases h
    obtain ⟨hallowed, htold⟩ := told_error k q .lost
    exact ⟨hquiet.abort.setCall _, _, setCall_call _, hmeets.answer hallowed,
      htold ▸ holds_nothing _⟩
  | begin t' | call t' | delete t' | commit t' | rollback t' =>
    cases ht
    simp [step, hasks] at h

/-- A session between two queries. -/
theorem step_idle (h : step σ a = some σ') (ht : actor a = some t)
    (hidle : (σ.session t).asks = none) (hquiet : Quiet σ t) :
    Quiet σ' t ∧ ((σ'.session t).call = (σ.session t).call ∨
      ∃ arg : Arg, (σ'.session t).call = some arg.createOrFind) := by
  cases a with
  | tick => cases ht
  | begin t' =>
    cases ht
    obtain ⟨-, ⟨⟩⟩ := Option.ite_none_right_eq_some.1 h
    refine ⟨fun hclosed => absurd ?_ (hclosed σ.now), .inl (setTx_call _)⟩
    rw [setTx_session]
  | call t' arg =>
    cases ht
    obtain ⟨-, ⟨⟩⟩ := Option.ite_none_right_eq_some.1 h
    exact ⟨hquiet.setCall _, .inr ⟨arg, setCall_call _⟩⟩
  | go t' | lose t' =>
    cases ht
    simp only [step] at h
    split at h
    next hcall => simp [Session.asks, hcall] at hidle
    next => cases h
  | delete t' keys =>
    cases ht
    simp only [step] at h
    split at h
    next hguard =>
      split at h
      next => cases h
      next =>
        cases h
        exact ⟨hquiet.abort, .inl abort_call⟩
      next store _ =>
        cases h
        exact ⟨Quiet.written hguard.2 store, .inl rfl⟩
    next => cases h
  | commit t' | rollback t' =>
    cases ht
    obtain ⟨-, ⟨⟩⟩ := Option.ite_none_right_eq_some.1 h
    exact ⟨fun _ => Store.delta_release_self _ _ _, .inl (setTx_call _)⟩

/-- INTERNAL: every step keeps what the sessions rely on. -/
theorem step_relies (h : step σ a = some σ') (hapart : Apart σ a)
    (hinv : ∀ t, Quiet σ t ∧ Relies σ t) (t : T) : Quiet σ' t ∧ Relies σ' t := by
  obtain ⟨hquiet, hrelies⟩ := hinv t
  by_cases ht : actor a = some t
  · by_cases hidle : (σ.session t).asks = none
    · obtain ⟨hquiet', hsame | ⟨arg, hnew⟩⟩ := step_idle h ht hidle hquiet
      · have hidle' : (σ'.session t).asks = none := by
          rw [Session.asks, hsame]
          exact hidle
        refine ⟨hquiet', fun p hp => ?_⟩
        rw [hsame] at hp
        obtain ⟨k, hmeets, -⟩ := hrelies p hp
        refine ⟨k, hmeets, fun key hkey => ?_⟩
        rw [hidle'] at hkey
        cases hkey
      · refine ⟨hquiet', fun p hp => ⟨⟨none, none⟩, ?_, nofun⟩⟩
        rw [hnew] at hp
        cases hp
        exact createOrFind_meets arg
    · obtain ⟨q, next, hcall⟩ := exists_ask_of_asks hidle
      obtain ⟨hquiet', answer, hnext, hmeets, hholds⟩ := step_answer h ht hcall hquiet hrelies
      refine ⟨hquiet', fun p hp => ⟨told q answer, ?_, fun key _ hkey => hholds.key key hkey⟩⟩
      rw [hnext] at hp
      cases hp
      exact hmeets
  · -- the step of another session
    have hleaves := step_other h (fun t => (hinv t).1) ht
    refine ⟨fun hclosed => ?_, fun p hp => ?_⟩
    · rw [hleaves.session] at hclosed
      rw [hleaves.delta]
      exact hquiet hclosed
    · rw [hleaves.session] at hp
      obtain ⟨k, hmeets, hk⟩ := hrelies p hp
      refine ⟨k, hmeets, fun key hkey hknown => ?_⟩
      rw [hleaves.session] at hkey
      obtain ⟨r, hr, hmem⟩ := hk key hkey hknown
      exact ⟨r, hleaves.view hr fun hgone => hapart t key hkey r hgone hmem, hmem⟩

end Steps

/-! ## Runs -/

theorem relies_of_reach {T : Type} [DecidableEq T] {rows mediaTypes i j σ}
    (h : Reach step Apart (State.init rows mediaTypes i j) σ) (t : T) : Quiet σ t ∧ Relies σ t := by
  refine Reach.invariant (P := fun σ => ∀ t, Quiet σ t ∧ Relies σ t) (fun t => ?_)
    (fun σ a σ' _ hinv hapart hstep => step_relies hstep hapart hinv) h t
  exact ⟨fun _ => rfl, nofun⟩

/-- **No call panics, and one that returns nil returns a row that is there**, if no deletion is
committed of a row that a call is about to look for. -/
theorem createOrFind_safe {T : Type} [DecidableEq T] {rows : List Row}
    {mediaTypes : List Model.Paths.Str} {i j : ℕ} {σ : State T}
    (h : Reach step Apart (State.init rows mediaTypes i j) σ) :
    (∀ t, ¬ σ.Panicked t) ∧
    ∀ a σ' t row, step σ a = some σ' → (σ.session t).asks ≠ none →
      (σ'.session t).outcome = some (.ok row) → row ∈ σ'.store.view t := by
  refine ⟨fun t hpanicked => ?_, fun a σ' t row hstep hasks houtcome => ?_⟩
  · unfold State.Panicked Session.outcome at hpanicked
    split at hpanicked
    next res hcall =>
      obtain ⟨k, hmeets, -⟩ := (relies_of_reach h t).2 _ hcall
      cases hpanicked
      exact hmeets rfl
    next => cases hpanicked
  · obtain ⟨q, next, hcall⟩ := exists_ask_of_asks hasks
    by_cases ht : actor a = some t
    · obtain ⟨hquiet, hrelies⟩ := relies_of_reach h t
      obtain ⟨-, answer, hnext, hmeets, hholds⟩ := step_answer hstep ht hcall hquiet hrelies
      unfold Session.outcome at houtcome
      rw [hnext] at houtcome
      split at houtcome
      next res hdone =>
        cases houtcome
        rw [Option.some.inj hdone] at hmeets
        exact hholds.row row hmeets
      next => cases houtcome
    · have hleaves := step_other hstep (fun t => (relies_of_reach h t).1) ht
      rw [hleaves.session, Session.outcome, hcall] at houtcome
      cases houtcome

def layer : Blob where
  mediaType := "application/octet-stream".toList
  digest := "sha256:".toList ++ List.replicate 64 'a'
  size := 1
  createdAt := 0

/-- The deletion of the row has begun when the call looks for it, and is committed afterwards. -/
theorem layer_found_before_commit : ∃ σ : State (Fin 2),
    Reach step Apart (State.init [.blob layer] [layer.mediaType] 1 1) σ ∧
      ((σ.session 0).outcome = some (.ok (.blob layer)) ∧ σ.store.db = []) ∧
      ∀ t, ¬ σ.Panicked t := by
  obtain ⟨σ, hreach, hσ⟩ : ∃ σ : State (Fin 2),
      Reach step Apart (State.init [.blob layer] [layer.mediaType] 1 1) σ ∧
        (σ.session 0).outcome = some (.ok (.blob layer)) ∧ σ.store.db = [] :=
    exists_reach [.begin 0, .call 0 (.blob layer), .go 0, .go 0, .begin 1,
      .delete 1 [.digest layer.digest], .go 0, .commit 1] (by decide +kernel)
  exact ⟨σ, hreach, hσ, (createOrFind_safe hreach).1⟩

/-- The insert conflicts, the row is deleted, and there is nothing to find. -/
theorem layer_deleted_between : ∃ σ : State (Fin 2),
    Reach step (fun _ _ => True) (State.init [.blob layer] [layer.mediaType] 1 1) σ ∧
      σ.Panicked 0 :=
  exists_reach [.begin 0, .call 0 (.blob layer), .go 0, .go 0, .begin 1,
    .delete 1 [.digest layer.digest], .commit 1, .go 0] (by decide +kernel)

end ContainerRegistry.Analysis.CreateOrFind
