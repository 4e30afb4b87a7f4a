import ContainerRegistry.Model.Program

/-!
# What one step can do

The inversion lemmas of the system. `Steps` lists the ways a step changes the state, `Execs` the
statements the calls run, `Hops` the moves that write nothing. Every invariant is proved from these.
-/

namespace ContainerRegistry.Analysis

open Library Model Function

/-- The environment a statement of session `t` is evaluated in. -/
def envOf (c : Settings) (s : State) (t : ℕ) : Env := ⟨c, (s.sess t).started, s.serial, s.db.view t⟩

@[simp] theorem envOf_view (c : Settings) (s : State) (t : ℕ) :
    (envOf c s t).view = s.db.view t := rfl

inductive Steps (c : Settings) (s : State) : Action → State → Prop where
  | tick (d) : Steps c s (.tick d) { s with clock := s.clock + d }
  | start (t call) (hfree : (s.sess t).proc.free = true) :
      Steps c s (.start t call)
        { s with sess := update s.sess t ⟨call.entry, s.clock, s.clock + c.txTimeout⟩ }
  | goto (t pick p) (hreq : request c s t pick = .goto p) : Steps c s (.go t pick) (s.jump t p)
  | arm (t pick d p) (hreq : request c s t pick = .arm d p) :
      Steps c s (.go t pick) { s with sess := update s.sess t ⟨p, (s.sess t).started, s.clock + d⟩ }
  | begin (t pick p) (hreq : request c s t pick = .begin p) :
      Steps c s (.go t pick) { s with sess := update s.sess t ⟨p, s.clock, (s.sess t).deadline⟩ }
  | exec (t pick q next v db) (hreq : request c s t pick = .exec q next v)
      (hw : s.db.write schema t (q.effect (envOf c s t)) = .done db) :
      Steps c s (.go t pick) { s.jump t (next (affected (q.effect (envOf c s t)))) with
          db := db, serial := s.serial + 1 }
  | violation (t pick q next v) (hreq : request c s t pick = .exec q next v)
      (hw : s.db.write schema t (q.effect (envOf c s t)) = .violation) :
      Steps c s (.go t pick) { s.jump t (.done (.error v)) with db := s.db.rollback t }
  | commit (t pick p) (hreq : request c s t pick = .commit p) :
      Steps c s (.go t pick) { s.jump t p with db := s.db.commit t }
  | finish (t pick r) (hreq : request c s t pick = .finish r) :
      Steps c s (.go t pick) { s.jump t (.done r) with db := s.db.rollback t }
  | store (t pick digest p) (hreq : request c s t pick = .store digest p) :
      Steps c s (.go t pick) { s.jump t p with files := digest :: s.files }
  | remove (t pick digest p) (hreq : request c s t pick = .remove digest p) :
      Steps c s (.go t pick) { s.jump t p with files := s.files.filter (· ≠ digest) }
  | fail (t) (hbusy : (s.sess t).proc.free = false) :
      Steps c s (.fail t) { s.jump t (.done (.error .database)) with db := s.db.rollback t }
  | manifestReviewFails (t task) (hp : (s.sess t).proc = .manifestTask task .dangling) :
      Steps c s (.reviewFails t) (s.jump t (.manifestTask task .postpone))
  | blobReviewFails (t task) (hp : (s.sess t).proc = .blobTask task .dangling) :
      Steps c s (.reviewFails t) (s.jump t (.blobTask task .postpone))
  | storageFails (t removed task) (hp : (s.sess t).proc = .blobTask task .remove) :
      Steps c s (.storageFails t removed) { s.jump t (.blobTask task .postpone) with
          files := if removed then s.files.filter (· ≠ task.digest) else s.files }

variable {c : Settings} {s s' : State} {a : Action}

/-- There are no other steps. -/
theorem steps_of_step (h : step c s a = some s') : Steps c s a s' := by
  cases a with
  | tick d => cases h; exact .tick d
  | start t call =>
    simp only [step] at h
    split at h
    next hfree => cases h; exact .start t call hfree
    next => cases h
  | go t pick =>
    simp only [step] at h
    split at h
    · cases h
    cases hreq : request c s t pick <;>
      simp only [hreq, State.serve, Option.some.injEq, reduceCtorEq] at h
    case goto p => subst h; exact .goto t pick p hreq
    case arm d p => subst h; exact .arm t pick d p hreq
    case begin p => subst h; exact .begin t pick p hreq
    case exec q next v =>
      split at h
      next => cases h
      next hw => cases h; exact .violation t pick q next v hreq hw
      next db hw => cases h; exact .exec t pick q next v db hreq hw
    case commit p => subst h; exact .commit t pick p hreq
    case finish r => subst h; exact .finish t pick r hreq
    case store d p => subst h; exact .store t pick d p hreq
    case remove d p => subst h; exact .remove t pick d p hreq
  | fail t =>
    simp only [step] at h
    split at h
    next => cases h
    next hbusy => cases h; exact .fail t (by simpa using hbusy)
  | reviewFails t =>
    simp only [step] at h
    split at h
    next task hp => cases h; exact .manifestReviewFails t task hp
    next task hp => cases h; exact .blobReviewFails t task hp
    next => cases h
  | storageFails t removed =>
    simp only [step] at h
    split at h
    next task hp => cases h; exact .storageFails t removed task hp
    next => cases h

def actor : Action → Option ℕ
  | .tick _ => none
  | .start t _ | .go t _ | .fail t | .reviewFails t | .storageFails t _ => some t

theorem Steps.sess_of_ne (h : Steps c s a s') {u} (hu : actor a ≠ some u) :
    s'.sess u = s.sess u := by
  have other : ∀ {t : ℕ}, some t ≠ some u → u ≠ t := fun hne heq => hne (by rw [heq])
  cases h <;> first | rfl | exact update_of_ne (other hu) _ _

theorem Steps.committed (h : Steps c s a s') :
    s'.db.db = s.db.db ∨
      ∃ t pick p, a = .go t pick ∧ request c s t pick = .commit p ∧ s'.db = s.db.commit t := by
  cases h with
  | commit t pick p hreq => exact .inr ⟨t, pick, p, rfl, hreq, rfl⟩
  | exec t pick q next v db hreq hw =>
    obtain ⟨-, -, rfl⟩ := Store.write_eq_done hw
    exact .inl rfl
  | _ => exact .inl rfl

/-- The statements the calls run: at which program point, and where the call continues. -/
inductive Execs (s : State) (t : ℕ) : Proc → Stmt → (Bool → Proc) → Prop where
  | lock (repo g since found) :
      Execs s t (.lock repo g since found)
        (.lockManifestReviews repo (since + reviewWindow) found) fun _ => .body repo g since
  | tag (repo name id since) :
      Execs s t (.body repo (.tag name id) since) (.createOrUpdateTag repo name id)
        fun _ => .commit repo (.tag name id) since
  | untag (repo name id since) :
      Execs s t (.body repo (.untag name id) since) (.deleteTagByName repo name)
        fun found => if found then .commit repo (.untag name id) since
          else .abort (.error .tagUnknown)
  | list (repo digest members ids since) :
      Execs s t (.body repo (.list digest members ids) since)
        (.createManifest repo digest (.list members))
        fun _ => .associate repo (.list digest members ids) since s.serial ids
  | delete (repo digest l children since) :
      Execs s t (.body repo (.delete digest l children) since) (.deleteManifest repo digest)
        fun found => if found then .commit repo (.delete digest l children) since
          else .abort (.error .manifestNotFound)
  | associate (repo g since list id todo) (hne : list ≠ id) :
      Execs s t (.associate repo g since list (id :: todo)) (.associateManifest repo list id)
        fun _ => .associate repo g since list todo
  | manifestNext (repo id after count tuple)
      (hmem : .manifestReview repo id after count tuple ∈ s.db.view t)
      (hdue : after < (s.sess t).started) :
      Execs s t .manifestNext (.lockManifestReview repo id)
        fun _ => .manifestTask ⟨repo, id, after, count⟩ .dangling
  | manifestDelete (task) :
      Execs s t (.manifestTask task .delete) (.deleteManifestByID task.repo task.id)
        fun _ => .manifestTask task (.commit .ok)
  | manifestForget (task) :
      Execs s t (.manifestTask task .forget) (.deleteManifestReview task.repo task.id)
        fun found => if found then .manifestTask task (.commit .ok)
          else .abort (.error .taskNotFound)
  | manifestPostpone (task) :
      Execs s t (.manifestTask task .postpone) (.postponeManifestReview task.repo task.id
          (postponed task.reviewAfter task.reviewCount) (task.reviewCount + 1))
        fun found => if found then .manifestTask task (.commit (.error .reviewFailed))
          else .abort (.error .taskNotFound)
  | imageCreate (i) :
      Execs s t (.image i .create) (.createManifest i.repo i.digest (.image i.config i.layers))
        fun _ => .image i (.createCommit s.serial)
  | imageAssociate (i id digest todo) :
      Execs s t (.image i (.associate id digest todo)) (.associateLayerBlob i.repo id digest)
        fun _ => .image i (.associateCommit id digest todo)
  | uploadCreate (repo digest) :
      Execs s t (.upload repo digest .create) (.createBlob digest)
        fun created => .upload repo digest (if created then .link else .find)
  | uploadLink (repo digest) :
      Execs s t (.upload repo digest .link) (.linkBlob repo digest)
        fun _ => .upload repo digest .commit
  | mount (src dst digest) :
      Execs s t (.mount src dst digest .exec) (.linkBlob dst digest)
        fun _ => .mount src dst digest (.commit true)
  | unlink (repo digest) :
      Execs s t (.unlink repo digest .exec) (.unlinkBlob repo digest)
        fun found => .unlink repo digest (.commit found)
  | blobNext (digest after count) (hmem : .blobReview digest after count ∈ s.db.view t)
      (hdue : after < (s.sess t).started) :
      Execs s t .blobNext (.lockBlobReview digest)
        fun _ => .blobTask ⟨digest, after, count⟩ .dangling
  | blobDelete (task) :
      Execs s t (.blobTask task .delete) (.deleteBlob task.digest) fun _ => .blobTask task .forget
  | blobForget (task) :
      Execs s t (.blobTask task .forget) (.deleteBlobReview task.digest)
        fun found => if found then .blobTask task (.commit .ok) else .abort (.error .taskNotFound)
  | blobPostpone (task) :
      Execs s t (.blobTask task .postpone) (.postponeBlobReview task.digest
          (postponed task.reviewAfter task.reviewCount) (task.reviewCount + 1))
        fun found => if found then .blobTask task (.commit (.error .reviewFailed))
          else .abort (.error .taskNotFound)

/-- The moves between program points that run no statement. -/
inductive Hops (s : State) (t : ℕ) : Proc → Proc → Prop where
  | tagFind (repo name digest id) :
      Hops s t (.tagFind repo name digest) (.begin repo (.tag name id))
  | untagFind (repo name id) : Hops s t (.untagFind repo name) (.begin repo (.untag name id))
  | listFind (repo digest members) :
      Hops s t (.listFind repo digest members) (.listMembers repo digest members members [])
  | listReady (repo digest members ids) :
      Hops s t (.listMembers repo digest members [] ids) (.begin repo (.list digest members ids))
  | listMember (repo digest d members todo ids id) :
      Hops s t (.listMembers repo digest members (d :: todo) ids)
        (.listMembers repo digest members todo (ids ++ [id]))
  | deleteFind (repo digest l) :
      Hops s t (.deleteFind repo digest) (.begin repo (.delete digest l []))
  | unreferenced (repo digest id) :
      Hops s t (.references repo digest id) (.body repo (.delete digest (some id) []) s.clock)
  | references (repo digest id children) :
      Hops s t (.references repo digest id) (.now repo (.delete digest (some id) children))
  | now (repo g) : Hops s t (.now repo g) (.select repo g s.clock)
  | select (repo g since) :
      Hops s t (.select repo g since) (.lock repo g since
        (findReviewsBefore (s.db.view t) repo g.ids (since + reviewWindow)))
  | associated (repo g since list) :
      Hops s t (.associate repo g since list []) (.commit repo g since)
  | manifestReferenced (task) (h : manifestReferenced (s.db.view t) task.repo task.id) :
      Hops s t (.manifestTask task .dangling) (.manifestTask task .forget)
  | manifestDangling (task) (h : manifestReferenced (s.db.view t) task.repo task.id = false) :
      Hops s t (.manifestTask task .dangling) (.manifestTask task .delete)
  | validate (i todo todo' valid valid') :
      Hops s t (.image i (.validate todo valid)) (.image i (.validate todo' valid'))
  | validated (i todo valid) : Hops s t (.image i (.validate todo valid)) (.image i .config)
  | config (i) (h : findRepositoryBlob (s.db.view t) i.repo i.config) :
      Hops s t (.image i .config) (.image i .payload)
  | payload (i) (h : i.config ∈ s.files) : Hops s t (.image i .payload) (.image i .find)
  | find (i) : Hops s t (.image i .find) (.image i .createBegin)
  | layer (i id l todo) (h : findRepositoryBlob (s.db.view t) i.repo l.digest) :
      Hops s t (.image i (.layers id (l :: todo))) (.image i (.associateBegin id l.digest todo))
  | uploadFind (repo digest) (h : blobExists (s.db.view t) digest) :
      Hops s t (.upload repo digest .find) (.upload repo digest .link)
  | mountFind (src dst digest) (h : findRepositoryBlob (s.db.view t) src digest) :
      Hops s t (.mountFind src dst digest) (.mount src dst digest .begin)
  | blobReferenced (task) (h : blobReferenced (s.db.view t) task.digest) :
      Hops s t (.blobTask task .dangling) (.blobTask task .forget)
  | blobDangling (task) (h : blobReferenced (s.db.view t) task.digest = false) :
      Hops s t (.blobTask task .dangling) (.blobTask task .remove)
  | blobAbsent (task) (h : task.digest ∉ s.files) :
      Hops s t (.blobTask task .remove) (.blobTask task .delete)
  | blobFound (task) (h : blobExists (s.db.view t) task.digest) :
      Hops s t (.blobTask task .find) (.blobTask task .delete)
  | blobMissing (task) (h : blobExists (s.db.view t) task.digest = false) :
      Hops s t (.blobTask task .find) (.blobTask task .forget)

inductive Begins (s : State) : Proc → Proc → Prop where
  | delete (repo digest children) :
      Begins s (.begin repo (.delete digest none children))
        (.body repo (.delete digest none children) s.clock)
  | deleteList (repo digest id children) :
      Begins s (.begin repo (.delete digest (some id) children)) (.references repo digest id)
  | guarded (repo g) : Begins s (.begin repo g) (.now repo g)
  | manifestWorker : Begins s .manifestWorker .manifestNext
  | imageCreate (i) : Begins s (.image i .createBegin) (.image i .create)
  | imageAssociate (i id digest todo) :
      Begins s (.image i (.associateBegin id digest todo)) (.image i (.associate id digest todo))
  | upload (repo digest) : Begins s (.upload repo digest .begin) (.upload repo digest .create)
  | mount (src dst digest) : Begins s (.mount src dst digest .begin) (.mount src dst digest .exec)
  | unlink (repo digest) : Begins s (.unlink repo digest .begin) (.unlink repo digest .exec)
  | blobWorker : Begins s .blobWorker .blobNext

inductive Commits : Proc → Proc → Prop where
  | guarded (repo g since) : Commits (.commit repo g since) (.done .ok)
  | manifestTask (task r) : Commits (.manifestTask task (.commit r)) (.done r)
  | imageCreate (i id) : Commits (.image i (.createCommit id)) (.image i (.layers id i.layers))
  | imageAssociate (i id digest todo) :
      Commits (.image i (.associateCommit id digest todo)) (.image i (.layers id todo))
  | upload (repo digest) : Commits (.upload repo digest .commit) (.done .ok)
  | mount (src dst digest found) : Commits (.mount src dst digest (.commit found)) (.done .ok)
  | unlink (repo digest found r) : Commits (.unlink repo digest (.commit found)) (.done r)
  | blobTask (task r) : Commits (.blobTask task (.commit r)) (.done r)

inductive Asks (s : State) (t : ℕ) : Proc → Req → Prop where
  | stuck (p) : Asks s t p .stuck
  | goto {p p'} (h : Hops s t p p') : Asks s t p (.goto p')
  | arm {p p'} (d) (h : Hops s t p p') : Asks s t p (.arm d p')
  | begin {p p'} (h : Begins s p p') : Asks s t p (.begin p')
  | exec {p q next} (v) (h : Execs s t p q next) : Asks s t p (.exec q next v)
  | commit {p p'} (h : Commits p p') : Asks s t p (.commit p')
  | finish (p r) : Asks s t p (.finish r)
  | store (repo digest) :
      Asks s t (.upload repo digest .storage) (.store digest (.upload repo digest .begin))
  | remove (task) : Asks s t (.blobTask task .remove) (.remove task.digest (.blobTask task .find))

/-- Nor other requests. -/
theorem asks_request (c : Settings) (s : State) (t : ℕ) (pick : Option Key) :
    Asks s t (s.sess t).proc (request c s t pick) := by
  cases hp : (s.sess t).proc <;> simp only [request, hp]
  case idle | done => exact .stuck _
  case abort => exact .finish _ _
  case tagFind | listFind | deleteFind | select =>
    split
    · exact .finish _ _
    · exact .goto (by constructor)
  case untagFind =>
    split
    · exact .finish _ _
    · exact .arm _ (.untagFind ..)
  case listMembers todo _ =>
    cases todo <;> dsimp only
    · exact .goto (.listReady ..)
    · split
      · exact .finish _ _
      · exact .goto (.listMember ..)
  case begin g =>
    rcases g with _ | _ | _ | ⟨_, _ | _, _⟩
    · exact .begin (.guarded ..)
    · exact .begin (.guarded ..)
    · exact .begin (.guarded ..)
    · exact .begin (.delete ..)
    · exact .begin (.deleteList ..)
  case references =>
    split
    · exact .goto (.unreferenced ..)
    · exact .goto (.references ..)
  case now g =>
    cases g
    case untag => exact .goto (.now ..)
    all_goals exact .arm _ (.now ..)
  case lock => exact .exec _ (.lock ..)
  case body g _ =>
    cases g
    · exact .exec _ (.tag ..)
    · exact .exec _ (.untag ..)
    · exact .exec _ (.list ..)
    · exact .exec _ (.delete ..)
  case associate todo =>
    cases todo <;> dsimp only
    · exact .goto (.associated ..)
    · split
      · exact .finish _ _
      · rename_i hne; exact .exec _ (.associate _ _ _ _ _ _ hne)
  case commit => exact .commit (.guarded ..)
  case manifestWorker => exact .begin .manifestWorker
  case blobWorker => exact .begin .blobWorker
  case manifestNext =>
    split
    · exact .finish _ _
    · split
      · split
        · rename_i hfind hdue
          exact .exec _ (.manifestNext _ _ _ _ _ (findManifestReview_eq_some hfind) hdue)
        · exact .stuck _
      · exact .stuck _
    · exact .stuck _
  case manifestTask st =>
    cases st <;> simp only [manifestRequest]
    · split
      · rename_i h; exact .goto (.manifestReferenced _ h)
      · rename_i h; exact .goto (.manifestDangling _ (by simpa using h))
    · exact .exec _ (.manifestDelete ..)
    · exact .exec _ (.manifestForget ..)
    · exact .exec _ (.manifestPostpone ..)
    · exact .commit (.manifestTask ..)
  case image st =>
    cases st <;> simp only [imageRequest]
    case validate todo _ =>
      cases todo <;> dsimp only <;> split
      · exact .goto (.validated ..)
      · exact .finish _ _
      · exact .goto (.validated ..)
      · exact .goto (.validate ..)
    case config =>
      split
      · rename_i h; exact .goto (.config _ h)
      · exact .finish _ _
    case payload =>
      split
      · rename_i h; exact .goto (.payload _ h)
      · exact .finish _ _
    case find =>
      split
      · exact .finish _ _
      · exact .goto (.find ..)
    case createBegin => exact .begin (.imageCreate ..)
    case create => exact .exec _ (.imageCreate ..)
    case createCommit => exact .commit (.imageCreate ..)
    case layers todo =>
      cases todo <;> dsimp only
      · exact .finish _ _
      · split
        · rename_i h; exact .goto (.layer _ _ _ _ h)
        · exact .finish _ _
    case associateBegin => exact .begin (.imageAssociate ..)
    case associate => exact .exec _ (.imageAssociate ..)
    case associateCommit => exact .commit (.imageAssociate ..)
  case upload st =>
    cases st <;> simp only [uploadRequest]
    · exact .store _ _
    · exact .begin (.upload ..)
    · exact .exec _ (.uploadCreate ..)
    · split
      · rename_i h; exact .goto (.uploadFind _ _ h)
      · exact .finish _ _
    · exact .exec _ (.uploadLink ..)
    · exact .commit (.upload ..)
  case mountFind =>
    split
    · rename_i h; exact .goto (.mountFind _ _ _ h)
    · exact .finish _ _
  case mount st =>
    cases st
    · exact .begin (.mount ..)
    · exact .exec _ (.mount ..)
    · exact .commit (.mount ..)
  case unlink st =>
    cases st
    · exact .begin (.unlink ..)
    · exact .exec _ (.unlink ..)
    · exact .commit (.unlink ..)
  case blobNext =>
    split
    · exact .finish _ _
    · split
      · split
        · rename_i hfind hdue
          exact .exec _ (.blobNext _ _ _ (findBlobReview_eq_some hfind) hdue)
        · exact .stuck _
      · exact .stuck _
    · exact .stuck _
  case blobTask st =>
    cases st <;> simp only [blobRequest]
    · split
      · rename_i h; exact .goto (.blobReferenced _ h)
      · rename_i h; exact .goto (.blobDangling _ (by simpa using h))
    · split
      · exact .remove _
      · rename_i h; exact .goto (.blobAbsent _ h)
    · split
      · rename_i h; exact .goto (.blobFound _ h)
      · rename_i h; exact .goto (.blobMissing _ (by simpa using h))
    · exact .exec _ (.blobDelete ..)
    · exact .exec _ (.blobForget ..)
    · exact .exec _ (.blobPostpone ..)
    · exact .commit (.blobTask ..)

section Inversion

variable {c : Settings} {s : State} {t : ℕ} {pick : Option Key} {p : Proc}

-- the program point is a variable here, so that `cases` can take the request apart
theorem asks_of_request {r} (h : request c s t pick = r) :
    ∃ p₀, Asks s t p₀ r ∧ p₀ = (s.sess t).proc :=
  ⟨_, h ▸ asks_request c s t pick, rfl⟩

theorem execs_of_request {q} {next : Bool → Proc} {v}
    (h : request c s t pick = .exec q next v) : Execs s t (s.sess t).proc q next := by
  obtain ⟨_, ⟨⟩, rfl⟩ := asks_of_request h
  assumption

theorem hops_of_goto (h : request c s t pick = .goto p) : Hops s t (s.sess t).proc p := by
  obtain ⟨_, ⟨⟩, rfl⟩ := asks_of_request h
  assumption

theorem hops_of_arm {d} (h : request c s t pick = .arm d p) : Hops s t (s.sess t).proc p := by
  obtain ⟨_, ⟨⟩, rfl⟩ := asks_of_request h
  assumption

theorem begins_of_request (h : request c s t pick = .begin p) : Begins s (s.sess t).proc p := by
  obtain ⟨_, ⟨⟩, rfl⟩ := asks_of_request h
  assumption

theorem commits_of_request (h : request c s t pick = .commit p) : Commits (s.sess t).proc p := by
  obtain ⟨_, ⟨⟩, rfl⟩ := asks_of_request h
  assumption

theorem store_of_request {digest} (h : request c s t pick = .store digest p) :
    ∃ repo, (s.sess t).proc = .upload repo digest .storage ∧ p = .upload repo digest .begin := by
  obtain ⟨_, ⟨⟩, hp⟩ := asks_of_request h
  exact ⟨_, hp.symm, rfl⟩

theorem remove_of_request {digest} (h : request c s t pick = .remove digest p) :
    ∃ task : BlobTask, (s.sess t).proc = .blobTask task .remove ∧ digest = task.digest ∧
      p = .blobTask task .find := by
  obtain ⟨_, ⟨⟩, hp⟩ := asks_of_request h
  exact ⟨_, hp.symm, rfl, rfl⟩

theorem blobTask_ne_finish {task st r}
    (hp : (s.sess t).proc = .blobTask task st) : request c s t pick ≠ .finish r := by
  cases st <;> simp only [request, hp, blobRequest] <;> (try split) <;> simp

end Inversion

/-- How a session moves on by a step that depends on the file storage or on a review that fails. -/
inductive Aside : Proc → Proc → Prop where
  | store (repo digest) : Aside (.upload repo digest .storage) (.upload repo digest .begin)
  | remove (task) : Aside (.blobTask task .remove) (.blobTask task .find)
  | manifestReviewFails (task) : Aside (.manifestTask task .dangling) (.manifestTask task .postpone)
  | blobReviewFails (task) : Aside (.blobTask task .dangling) (.blobTask task .postpone)
  | storageFails (task) : Aside (.blobTask task .remove) (.blobTask task .postpone)

/-- How a step from `s` to `s'` takes session `t` from one program point to the next. -/
inductive Moves (c : Settings) (s s' : State) (t : ℕ) : Action → Proc → Proc → Prop where
  | stay {a p} (h : actor a ≠ some t) : Moves c s s' t a p p
  | start {p} (call) (hfree : p.free = true) : Moves c s s' t (.start t call) p call.entry
  | hop {p p'} (pick) (h : Hops s t p p') (hdb : s'.db = s.db) : Moves c s s' t (.go t pick) p p'
  | begin {p p'} (pick) (h : Begins s p p') : Moves c s s' t (.go t pick) p p'
  | exec {p q next} (pick) (h : Execs s t p q next)
      (hdb : s'.db = s.db.staged schema t (q.effect (envOf c s t))) :
      Moves c s s' t (.go t pick) p (next (affected (q.effect (envOf c s t))))
  | violation {p q next} (pick v) (h : Execs s t p q next)
      (hw : s.db.write schema t (q.effect (envOf c s t)) = .violation) :
      Moves c s s' t (.go t pick) p (.done (.error v))
  | commit {p p'} (pick) (h : Commits p p') (hdb : s'.db = s.db.commit t) :
      Moves c s s' t (.go t pick) p p'
  | finish {p} (pick r) (h : request c s t pick = .finish r) :
      Moves c s s' t (.go t pick) p (.done r)
  | fail {p} : Moves c s s' t (.fail t) p (.done (.error .database))
  | aside {a p p'} (h : Aside p p')
      (hfile : ∀ repo digest, p = .upload repo digest .storage → digest ∈ s'.files) :
      Moves c s s' t a p p'

/-- **A session stays where it is or moves on as its program says.** -/
theorem Steps.moves (h : Steps c s a s') (u : ℕ) :
    Moves c s s' u a (s.sess u).proc (s'.sess u).proc := by
  by_cases hact : actor a = some u
  case neg => rw [h.sess_of_ne hact]; exact .stay hact
  cases h <;> simp only [actor, Option.some.injEq, reduceCtorEq] at hact <;> subst hact <;>
    simp only [State.jump, update_self]
  case start call hfree => exact .start call hfree
  case goto pick p hreq => exact .hop pick (hops_of_goto hreq) rfl
  case arm pick d p hreq => exact .hop pick (hops_of_arm hreq) rfl
  case begin pick p hreq => exact .begin pick (begins_of_request hreq)
  case exec pick q next v db hreq hw =>
    obtain ⟨-, -, rfl⟩ := Store.write_eq_done hw
    exact .exec pick (execs_of_request hreq) rfl
  case violation pick q next v hreq hw => exact .violation pick v (execs_of_request hreq) hw
  case commit pick p hreq => exact .commit pick (commits_of_request hreq) rfl
  case finish pick r hreq => exact .finish pick r hreq
  case fail => exact .fail
  case store pick digest p hreq =>
    obtain ⟨repo, hp, rfl⟩ := store_of_request hreq
    rw [hp]
    refine .aside (.store repo digest) fun repo' digest' hp' => ?_
    cases hp'
    exact List.mem_cons_self
  case remove pick digest p hreq =>
    obtain ⟨task, hp, rfl, rfl⟩ := remove_of_request hreq
    rw [hp]
    exact .aside (.remove task) (by simp)
  case manifestReviewFails task hp => rw [hp]; exact .aside (.manifestReviewFails task) (by simp)
  case blobReviewFails task hp => rw [hp]; exact .aside (.blobReviewFails task) (by simp)
  case storageFails removed task hp => rw [hp]; exact .aside (.storageFails task) (by simp)

/-- INTERNAL: **a property of each session survives a step** that preserves it for the session that
takes it and for the others. -/
theorem Steps.sessions {P : ℕ → ℕ → Database → ℕ → Session → Prop} (hs : Steps c s a s')
    (h : ∀ u, P s.clock s.serial s.db u (s.sess u))
    (tick : ∀ d u, P (s.clock + d) s.serial s.db u (s.sess u))
    (start : ∀ t (call : Call), (s.sess t).proc.free = true →
      P s.clock s.serial s.db t ⟨call.entry, s.clock, s.clock + c.txTimeout⟩)
    (hop : ∀ t p deadline, Hops s t (s.sess t).proc p →
      P s.clock s.serial s.db t ⟨p, (s.sess t).started, deadline⟩)
    (begins : ∀ t p, Begins s (s.sess t).proc p →
      P s.clock s.serial s.db t ⟨p, s.clock, (s.sess t).deadline⟩)
    (exec : ∀ t q next, Execs s t (s.sess t).proc q next →
      P s.clock (s.serial + 1) (s.db.staged schema t (q.effect (envOf c s t))) t
        ⟨next (affected (q.effect (envOf c s t))), (s.sess t).started, (s.sess t).deadline⟩ ∧
      ∀ u, u ≠ t →
        P s.clock (s.serial + 1) (s.db.staged schema t (q.effect (envOf c s t))) u (s.sess u))
    (commit : ∀ t pick p, a = .go t pick → request c s t pick = .commit p →
      P s.clock s.serial (s.db.commit t) t ⟨p, (s.sess t).started, (s.sess t).deadline⟩ ∧
      ∀ u, u ≠ t → P s.clock s.serial (s.db.commit t) u (s.sess u))
    (quit : ∀ t r, P s.clock s.serial (s.db.rollback t) t
        ⟨.done r, (s.sess t).started, (s.sess t).deadline⟩ ∧
      ∀ u, u ≠ t → P s.clock s.serial (s.db.rollback t) u (s.sess u))
    (aside : ∀ t p, Aside (s.sess t).proc p →
      P s.clock s.serial s.db t ⟨p, (s.sess t).started, (s.sess t).deadline⟩) :
    ∀ u, P s'.clock s'.serial s'.db u (s'.sess u) := by
  have update : ∀ {clock serial : ℕ} {db : Database} {t : ℕ} {σ : Session},
      P clock serial db t σ → (∀ u, u ≠ t → P clock serial db u (s.sess u)) →
        ∀ u, P clock serial db u (update s.sess t σ u) := fun ht hu =>
    (Function.forall_update_iff s.sess (P _ _ _)).2 ⟨ht, hu⟩
  cases hs with
  | tick d => exact tick d
  | start t call hfree => exact update (start t call hfree) fun u _ => h u
  | goto t pick p hreq => exact update (hop t p _ (hops_of_goto hreq)) fun u _ => h u
  | arm t pick d p hreq => exact update (hop t p _ (hops_of_arm hreq)) fun u _ => h u
  | begin t pick p hreq => exact update (begins t p (begins_of_request hreq)) fun u _ => h u
  | exec t pick q next v db hreq hw =>
    obtain ⟨-, -, rfl⟩ := Store.write_eq_done hw
    obtain ⟨ht, hu⟩ := exec t q next (execs_of_request hreq)
    exact update ht hu
  | commit t pick p hreq =>
    obtain ⟨ht, hu⟩ := commit t pick p rfl hreq
    exact update ht hu
  | violation t | finish t | fail t => exact update (quit t _).1 (quit t (.error .database)).2
  | store t pick digest p hreq =>
    obtain ⟨repo, hp, rfl⟩ := store_of_request hreq
    exact update (aside t _ (hp ▸ .store repo digest)) fun u _ => h u
  | remove t pick digest p hreq =>
    obtain ⟨task, hp, rfl, rfl⟩ := remove_of_request hreq
    exact update (aside t _ (hp ▸ .remove task)) fun u _ => h u
  | manifestReviewFails t task hp =>
    exact update (aside t _ (hp ▸ .manifestReviewFails task)) fun u _ => h u
  | blobReviewFails t task hp =>
    exact update (aside t _ (hp ▸ .blobReviewFails task)) fun u _ => h u
  | storageFails t removed task hp =>
    exact update (aside t _ (hp ▸ .storageFails task)) fun u _ => h u

/-- INTERNAL: what a session has staged it staged before, or by the statement it has just
run. -/
theorem Steps.mem_ins (h : Steps c s a s') {u r} (hr : r ∈ (s'.db.delta u).ins) :
    r ∈ (s.db.delta u).ins ∨ ∃ q next, Execs s u (s.sess u).proc q next ∧
      r ∈ (q.effect (envOf c s u)).ins := by
  -- a transaction that has ended has nothing staged
  have released : ∀ t db, r ∈ ((s.db.release t db).delta u).ins → r ∈ (s.db.delta u).ins := by
    intro t db hr
    by_cases hu : u = t
    · subst hu; simp at hr
    · rwa [Store.delta_release_of_ne _ _ hu] at hr
  cases h with
  | exec t pick q next v db hreq hw =>
    obtain ⟨-, -, rfl⟩ := Store.write_eq_done hw
    by_cases hu : u = t
    · subst hu
      rw [Store.delta_staged_self, Delta.mem_andThen_ins] at hr
      exact hr.symm.imp (fun h => h.1) fun h => ⟨q, next, execs_of_request hreq, h⟩
    · rw [Store.delta_staged_of_ne _ _ hu] at hr
      exact .inl hr
  | violation t | finish t | fail t | commit t => exact .inl (released _ _ hr)
  | _ => exact .inl hr

/-- What other sessions see. -/
theorem Steps.mem_view_of_ne (h : Steps c s a s') {u} (hu : actor a ≠ some u) {r}
    (hr : r ∈ s'.db.view u) : r ∈ s.db.view u ∨ ∃ t, r ∈ (s.db.delta t).ins := by
  have other : ∀ {t : ℕ}, some t ≠ some u → u ≠ t := fun hne heq => hne (by rw [heq])
  cases h with
  | exec t pick q next v db hreq hw =>
    obtain ⟨-, -, rfl⟩ := Store.write_eq_done hw
    simp only [Store.view, Store.delta_staged_of_ne _ _ (other hu), Store.staged_db] at hr
    exact .inl hr
  | violation t | finish t | fail t =>
    rw [(Store.Untouched.rollback (other hu)).view] at hr
    exact .inl hr
  | commit t =>
    rw [Store.view_commit_of_ne _ (other hu)] at hr
    simp only [Store.view, Delta.mem_view] at hr ⊢
    rcases hr with hr | ⟨hr | ⟨hr, -⟩, hdel⟩
    · exact .inl (.inl hr)
    · exact .inr ⟨t, hr⟩
    · exact .inl (.inr ⟨hr, hdel⟩)
  | _ => exact .inl hr

end ContainerRegistry.Analysis
