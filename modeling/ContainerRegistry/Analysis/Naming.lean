import ContainerRegistry.Analysis.Integrity

/-!
# Which blobs a call brings into use

A call names its blobs from the start and stages rows for no other ones, and a blob worker has the
review of its blob in view until it takes it off the queue (`Named`).
-/

namespace ContainerRegistry.Analysis

open Library Model List

/-- The digests a call names: the blob of an upload or a mount, the configuration and the layers
of an image put. -/
def digests : Proc → List Digest
  | .upload _ digest _ => [digest]
  | .mountFind _ _ digest | .mount _ _ digest _ => [digest]
  | .image i _ => i.config :: i.layers.map Layer.digest
  | _ => []

/-- The digests whose data a row needs: that of a layer, that of a configuration. -/
def needs : Row → List Digest
  | .layer _ _ _ digest => [digest]
  | .manifest _ _ _ payload => payload.configuration.toList
  | _ => []

/-! ## What sessions know, whatever the interleaving -/

/-- An image put still has to associate the rest of its layers. -/
def Shaped : Proc → Prop
  | .image i (.layers _ todo) => todo <:+ i.layers
  | .image i (.associateBegin _ digest todo) | .image i (.associate _ digest todo)
  | .image i (.associateCommit _ digest todo) =>
    ∃ l : Layer, l.digest = digest ∧ l :: todo <:+ i.layers
  | _ => True

/-- A session only brings into use what its call names, and a blob worker has its review. -/
structure Named (db : Database) (t : ℕ) (p : Proc) : Prop where
  shaped : Shaped p
  staged : ∀ r ∈ (db.delta t).ins, ∀ digest, r = .blob digest ∨ digest ∈ needs r →
    digest ∈ digests p
  queued : ∀ task st, p = .blobTask task st → (∀ r, st ≠ .commit r) →
    ∃ after count, .blobReview task.digest after count ∈ db.view t

section Sessions

variable {c : Settings} {s : State} {db : Database} {t u : ℕ} {p p' : Proc}

theorem Named.of_delta_nil (h : (db.delta t).ins = []) (hshaped : Shaped p)
    (hb : ∀ task st, p ≠ .blobTask task st) : Named db t p :=
  ⟨hshaped, by simp [h], fun _ _ he => absurd he (hb _ _)⟩

theorem Named.of_digests (h : Named db t p) (hdigests : digests p' = digests p)
    (hshaped : Shaped p') (hb : ∀ task st, p' ≠ .blobTask task st) : Named db t p' :=
  ⟨hshaped, hdigests ▸ h.staged, fun _ _ he => absurd he (hb _ _)⟩

theorem Named.of_task {task st st'}
    (h : Named db t (.blobTask task st)) (hst : ∀ r, st ≠ .commit r) :
    Named db t (.blobTask task st') := by
  refine ⟨trivial, h.staged, fun _ _ he _ => ?_⟩
  obtain ⟨rfl, -⟩ := Proc.blobTask.inj he
  exact h.queued _ _ rfl hst

/-- A move without a statement. -/
theorem Named.hop (h : Named s.db t p) (hfits : Fits s.db t p) (hop : Hops s t p p') :
    Named s.db t p' := by
  cases hop with
  | layer i id l todo _ => exact h.of_digests rfl ⟨l, rfl, h.shaped⟩ (by simp)
  | blobReferenced task _ | blobDangling task _ | blobAbsent task _ | blobFound task _
  | blobMissing task _ => exact h.of_task (by simp)
  | validate | validated | config | payload | find | uploadFind | mountFind =>
    exact h.of_digests rfl trivial (by simp)
  | associated =>
    -- the session holds the rows of a list, which name no blob
    exact h.of_digests rfl trivial (by simp)
  | _ => exact .of_delta_nil (by rw [hfits.staged rfl]) trivial (by simp)

theorem Named.begin (h : Named s.db t p) (hfits : Fits s.db t p) (hb : Begins s p p') :
    Named s.db t p' := by
  cases hb with
  | imageAssociate i id digest todo => exact h.of_digests rfl h.shaped (by simp)
  | imageCreate | upload | mount => exact h.of_digests rfl trivial (by simp)
  | _ => exact .of_delta_nil (by rw [hfits.staged rfl]) trivial (by simp)

variable {q : Stmt}

/-- The statements that name a digest. -/
theorem stmt_of_names {env r digest} (hr : r ∈ (q.effect env).ins)
    (hd : r = .blob digest ∨ digest ∈ needs r) :
    q = .createBlob digest ∨
      (∃ repo d payload, q = .createManifest repo d payload ∧ payload.configuration = some digest) ∨
      ∃ repo id, q = .associateLayerBlob repo id digest := by
  cases r <;> simp [needs] at hd
  case blob =>
    subst hd
    have htable := table_mem_inserts hr
    cases q <;> simp [inserts, table] at htable
    simp only [Stmt.effect, Env.createBlob] at hr
    split at hr
    · simp at hr
    · simp [Env.blobReview] at hr
      exact .inl (by rw [hr])
  case manifest =>
    exact .inr (.inl ⟨_, _, _, (manifest_mem_ins hr).1, hd⟩)
  case layer =>
    exact .inr (.inr ⟨_, _, hd ▸ (layer_mem_ins hr).1⟩)

variable {next : Bool → Proc}

theorem digests_exec (hx : Execs s t p q next) (b : Bool) : digests (next b) = digests p := by
  cases hx <;> cases b <;> rfl

/-- A session names its own digests only. -/
theorem mem_digests_exec {env r digest} (hx : Execs s t p q next)
    (hshaped : Shaped p) (hr : r ∈ (q.effect env).ins) (hd : r = .blob digest ∨ digest ∈ needs r) :
    digest ∈ digests p := by
  rcases stmt_of_names hr hd with rfl | ⟨_, _, payload, rfl, hconf⟩ | ⟨_, _, rfl⟩
  · cases hx
    simp [digests]
  · cases hx with
    | list => simp [Payload.configuration] at hconf
    | imageCreate i =>
      simp only [Payload.configuration, Option.some.injEq] at hconf
      simp [digests, hconf]
  · cases hx with
    | imageAssociate i id _ todo =>
      obtain ⟨l, rfl, hsuffix⟩ := hshaped
      have hl : l ∈ i.layers := hsuffix.subset mem_cons_self
      exact mem_cons_of_mem _ (mem_map_of_mem hl)

/-- What a statement leaves named. -/
theorem Named.exec {b} (h : Named s.db t p) (hx : Execs s t p q next) :
    Named (s.db.staged schema t (q.effect (envOf c s t))) t (next b) := by
  refine ⟨?_, ?_, ?_⟩
  · cases hx with
    | imageAssociate i id digest todo => exact h.shaped
    | _ => cases b <;> trivial
  · intro r hr digest hd
    rw [digests_exec hx b]
    rw [Store.delta_staged_self, Delta.mem_andThen_ins] at hr
    rcases hr with hr | ⟨hr, -⟩
    · exact mem_digests_exec hx h.shaped hr hd
    · exact h.staged r hr digest hd
  · intro task st hp hst
    rw [Store.view_staged_self]
    cases hx with
    | blobNext digest after count hmem _ =>
      obtain ⟨rfl, -⟩ := Proc.blobTask.inj hp
      exact ⟨after, count, (Delta.mem_view _ _ _).2 (.inr ⟨hmem, by simp [Stmt.effect]⟩)⟩
    | blobDelete task' =>
      obtain ⟨rfl, -⟩ := Proc.blobTask.inj hp
      obtain ⟨after, count, hmem⟩ := h.queued _ _ rfl (by simp)
      refine ⟨after, count, (Delta.mem_view _ _ _).2 (.inr ⟨hmem, ?_⟩)⟩
      simp [Stmt.effect, Env.deleteBlob, cascadesFromBlob]
    | blobForget task' | blobPostpone task' =>
      cases b <;> simp at hp
      exact absurd hp.2.symm (hst _)
    | untag | delete | manifestForget | manifestPostpone | uploadCreate =>
      cases b <;> simp at hp
    | _ => simp at hp

theorem Named.untouched {db' : Database} (h : Named db u p) (hu : Store.Untouched u db db') :
    Named db' u p :=
  ⟨h.shaped, hu.delta ▸ h.staged, hu.view ▸ h.queued⟩

/-- Another session commits. -/
theorem Named.commit_other (hs : Sound schema db) (hfits : Fits db u p) (h : Named db u p)
    (hu : u ≠ t) : Named (db.commit t) u p := by
  have hδ := db.delta_commit_of_ne hu
  refine ⟨h.shaped, hδ ▸ h.staged, fun task st hp hst => ?_⟩
  obtain ⟨after, count, hmem⟩ := h.queued task st hp hst
  refine ⟨after, count, ?_⟩
  have hlock := hfits.holdsBlob task st hp
  have hiff := hs.mem_commit_iff hu hlock (r := .blobReview task.digest after count)
    (by simp [schema, rowKeys])
  rw [Store.view, hδ, Delta.mem_view, hiff]
  exact (Delta.mem_view _ _ _).1 hmem

end Sessions

theorem Named.aside {db t p p'} (h : Named db t p) (ha : Aside p p') : Named db t p' := by
  cases ha with
  | store | manifestReviewFails => exact h.of_digests rfl trivial (by simp)
  | remove | blobReviewFails | storageFails => exact h.of_task (by simp)

/-- INTERNAL: every step keeps digests named. -/
theorem named_step {c s s' a} (hi : Integrity s)
    (h : ∀ t, Named s.db t (s.sess t).proc) (hs : Steps c s a s') :
    ∀ t, Named s'.db t (s'.sess t).proc := by
  apply hs.sessions (P := fun _ _ db t σ => Named db t σ.proc) h
  case tick => exact fun _ => h
  case start =>
    intro t call hfree
    refine .of_delta_nil (by rw [(hi.fits t).staged (clean_of_free hfree)]) ?_ ?_
    all_goals cases call <;> simp [Call.entry, Shaped]
  case hop => exact fun t _ _ hop => (h t).hop (hi.fits t) hop
  case begins => exact fun t _ hb => (h t).begin (hi.fits t) hb
  case exec => exact fun t _ _ hx => ⟨(h t).exec hx, fun u hu => (h u).untouched (.staged hu)⟩
  case commit =>
    intro t pick p _ hreq
    have hδ : ((s.db.commit t).delta t).ins = [] := by simp [Store.commit]
    refine ⟨?_, fun u hu => (h u).commit_other hi.healthy.sound (hi.fits u) hu⟩
    have hcommits := commits_of_request hreq
    have ht := (h t).shaped
    generalize (s.sess t).proc = p₀ at hcommits ht
    cases hcommits with
    | imageCreate i id => exact .of_delta_nil hδ (suffix_refl _) (by simp)
    | imageAssociate i id digest todo =>
      obtain ⟨l, -, hsuffix⟩ := ht
      exact .of_delta_nil hδ ((suffix_cons l todo).trans hsuffix) (by simp)
    | _ => exact .of_delta_nil hδ trivial (by simp)
  case quit =>
    intro t r
    exact ⟨.of_delta_nil (by simp [Store.rollback]) trivial (by simp),
      fun u hu => (h u).untouched (.rollback hu)⟩
  case aside => exact fun t _ ha => (h t).aside ha

theorem named_of_reach {c} {ok : State → Action → Prop} {s}
    (h : Reach (step c) ok init s) : ∀ t, Named s.db t (s.sess t).proc := by
  refine h.invariant (P := fun s => ∀ t, Named s.db t (s.sess t).proc) (fun t => ?_) ?_
  · exact .of_delta_nil rfl trivial (by simp [init])
  · exact fun _ _ _ hr hn _ hs => named_step (integrity_of_reach hr) hn (steps_of_step hs)

theorem digests_hop {s t p p'} (hop : Hops s t p p') : digests p' = digests p := by
  cases hop <;> rfl

/-- A digest comes into a session with its call. -/
theorem mem_digests_of_steps {c s s' a} (hs : Steps c s a s')
    {u digest} (hd : digest ∈ digests (s'.sess u).proc) :
    digest ∈ digests (s.sess u).proc ∨ ∃ call, a = .start u call ∧ digest ∈ digests call.entry := by
  have hmoves := hs.moves u
  generalize (s.sess u).proc = p, (s'.sess u).proc = p' at hmoves hd
  cases hmoves with
  | stay => exact .inl hd
  | start call => exact .inr ⟨call, rfl, hd⟩
  | hop _ hop => exact .inl (digests_hop hop ▸ hd)
  | begin _ hb => cases hb <;> exact .inl hd
  | exec _ hx => exact .inl (digests_exec hx _ ▸ hd)
  | commit _ hcommits =>
    cases hcommits with
    | imageCreate | imageAssociate => exact .inl hd
    | _ => simp [digests] at hd
  | violation | finish | fail => simp [digests] at hd
  | aside ha =>
    cases ha with
    | store => exact .inl hd
    | _ => simp [digests] at hd

end ContainerRegistry.Analysis
