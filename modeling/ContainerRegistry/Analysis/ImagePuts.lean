import ContainerRegistry.Analysis.Integrity

/-!
# Putting an image manifest, statement by statement

The manifest and each of its layers are inserted in statements of their own, and a later put stops
when it finds the row. In runs in which no put is cut short after it has inserted its row
(`Steady`), a manifest has all its layers once that put has ended.
-/

namespace ContainerRegistry.Analysis

open Library Model List

/-! ## Where a put is -/

/-- The manifest whose layers a put is about to insert. -/
def target : ImageStage → Option ℕ
  | .layers id _ | .associateBegin id _ _ | .associate id _ _ | .associateCommit id _ _ => some id
  | _ => none

def Pending (l : Layer) : ImageStage → Prop
  | .layers _ todo => l ∈ todo
  | .associateBegin _ digest todo | .associate _ digest todo | .associateCommit _ digest todo =>
    l.digest = digest ∨ l ∈ todo
  | _ => False

def filling : Proc → Option (RepoKey × ℕ)
  | .image i st => (target st).map fun id => (i.repo, id)
  | _ => none

def Complete (rows : List Row) (repo : RepoKey) (id : ℕ) (payload : Payload) : Prop :=
  ∀ l ∈ payload.layers, ∃ layer, .layer repo layer id l.digest ∈ rows

/-- What a session in an image put knows, and what every session has staged. -/
structure Filled (serial : ℕ) (db : Database) (t : ℕ) (p : Proc) : Prop where
  layers : ∀ i st id, p = .image i st → target st = some id →
    ∀ digest payload, .manifest i.repo id digest payload ∈ db.db →
      payload.layers = i.layers ∧
      ∀ l ∈ i.layers, Pending l st ∨ ∃ layer, .layer i.repo layer id l.digest ∈ db.db
  associated : ∀ i id digest todo, p = .image i (.associateCommit id digest todo) →
    ∀ d payload, .manifest i.repo id d payload ∈ db.db →
      ∃ layer, .layer i.repo layer id digest ∈ db.view t
  creating : ∀ i id, p = .image i (.createCommit id) →
    ∃ digest payload, .manifest i.repo id digest payload ∈ (db.delta t).ins
  created : ∀ repo id digest payload, .manifest repo id digest payload ∈ (db.delta t).ins →
    (payload.layers = [] ∧ ∀ i st, p ≠ .image i st) ∨
      ∃ i, p = .image i (.createCommit id) ∧ repo = i.repo ∧ payload.layers = i.layers
  cut : ∀ repo layer id digest, .layer repo layer id digest ∈ (db.delta t).del →
    manifestTracking.Gone (db.delta t) (db.view t) (repo, id)
  fresh : ∀ repo id, filling p = some (repo, id) → id < serial ∧
    ∀ u digest payload, .manifest repo id digest payload ∉ (db.delta u).ins

/-! ## Layers come and go with their manifest -/

section Frame

variable {serial : ℕ} {db : Database} {t u : ℕ} {p : Proc}

variable {repo : RepoKey} {payload : Payload}

/-- A layer is seen with its manifest. -/
theorem layer_mem_view
    (hcut : ∀ repo layer id digest, .layer repo layer id digest ∈ (db.delta t).del →
      manifestTracking.Gone (db.delta t) (db.view t) (repo, id))
    {layer id digest d} (hl : .layer repo layer id digest ∈ db.db)
    (hm : .manifest repo id d payload ∈ db.view t) : .layer repo layer id digest ∈ db.view t := by
  refine (Delta.mem_view _ _ _).2 (.inr ⟨hl, fun hdel => ?_⟩)
  exact (hcut _ _ _ _ hdel).2 ⟨_, hm, rfl⟩

variable {digest : Digest} {q : Stmt} {env : Env}

/-- A layer is deleted with its manifest. -/
theorem gone_of_layer_del (hv : env.view = db.view t) (hc : Consistent schema (db.view t))
    {layer id} (hr : .layer repo layer id digest ∈ (q.effect env).del) :
    manifestTracking.Gone (q.effect env).toDelta ((q.effect env).toDelta.view (db.view t))
      (repo, id) := by
  -- both statements that delete manifests do so by id
  have deleted : ∀ repo' id', .layer repo layer id digest ∈ (env.deleteManifest repo' id').del →
      manifestTracking.Gone (env.deleteManifest repo' id').toDelta
        ((env.deleteManifest repo' id').toDelta.view (db.view t)) (repo, id) := by
    intro repo' id' hr
    obtain ⟨hmem, hcase⟩ := mem_deleteManifest_del.1 hr
    simp [cascadesFrom, isManifestReviewOf, isBlobReviewOf] at hcase
    obtain ⟨rfl, rfl⟩ := hcase
    obtain ⟨d, p, hm⟩ := manifest_of_parent (hv ▸ hc) hmem mem_cons_self
    exact gone_deleteManifest hv hm
  have htable := table_mem_deletes hr
  cases q <;> simp [deletes, table] at htable
  case deleteManifestByID repo' id' => exact deleted repo' id' hr
  case deleteManifest repo' d =>
    simp only [Stmt.effect] at hr ⊢
    split at hr
    · simp at hr
    · exact deleted _ _ hr

theorem Filled.of_delta_nil (h : db.delta t = ⟨[], []⟩) (hf : filling p = none)
    (hp : ∀ i id, p ≠ .image i (.createCommit id)) : Filled serial db t p where
  layers i st id he htarget := by simp [he, filling, htarget] at hf
  associated i id digest todo he := by simp [he, filling, target] at hf
  creating _ _ he := absurd he (hp _ _)
  created := by simp [h]
  cut := by simp [h]
  fresh repo id he := by simp [hf] at he

variable {i : Image}

/-- The put goes on with the same manifest. -/
theorem Filled.of_image {st st'} (hδ : db.delta t = ⟨[], []⟩)
    (h : Filled serial db t (.image i st)) (htarget : target st' = target st)
    (hpend : ∀ l, Pending l st → Pending l st') (hcreate : ∀ id, st' ≠ .createCommit id)
    (hassoc : ∀ id digest todo, st' ≠ .associateCommit id digest todo) :
    Filled serial db t (.image i st') where
  layers i' st₀ id he ht digest payload hm := by
    obtain ⟨rfl, rfl⟩ := Proc.image.inj he
    obtain ⟨hlayers, hdone⟩ := h.layers _ _ id rfl (htarget ▸ ht) digest payload hm
    exact ⟨hlayers, fun l hl => (hdone l hl).imp_left (hpend l)⟩
  associated _ _ _ _ he := absurd (Proc.image.inj he).2 (hassoc _ _ _)
  creating _ _ he := absurd (Proc.image.inj he).2 (hcreate _)
  created := by simp [hδ]
  cut := by simp [hδ]
  fresh repo id he := h.fresh repo id (by simpa [filling, htarget] using he)

variable {p' : Proc}

/-- Outside image puts, a session stages manifests without layers only. -/
theorem Filled.no_layers (h : Filled serial db t p) (hp : ∀ i st, p ≠ .image i st) {id}
    (hr : .manifest repo id digest payload ∈ (db.delta t).ins) : payload.layers = [] := by
  rcases h.created repo id digest payload hr with ⟨hnil, -⟩ | ⟨i, he, -⟩
  · exact hnil
  · exact absurd he (hp _ _)

/-- That is all there is to know about it, with the layers it deletes. -/
theorem Filled.of_no_layers (hp' : ∀ i st, p' ≠ .image i st)
    (hnil : ∀ repo id digest payload, .manifest repo id digest payload ∈ (db.delta t).ins →
      payload.layers = [])
    (hcut : ∀ repo layer id digest, .layer repo layer id digest ∈ (db.delta t).del →
      manifestTracking.Gone (db.delta t) (db.view t) (repo, id)) : Filled serial db t p' where
  layers _ _ _ he := absurd he (hp' _ _)
  associated _ _ _ _ he := absurd he (hp' _ _)
  creating _ _ he := absurd he (hp' _ _)
  created _ _ _ _ hr := .inl ⟨hnil _ _ _ _ hr, hp'⟩
  cut := hcut
  fresh repo id he := by
    cases p' <;> simp [filling] at he
    exact absurd rfl (hp' _ _)

/-- Sessions that put no image. -/
theorem Filled.of_other (h : Filled serial db t p) (hp : ∀ i st, p ≠ .image i st)
    (hp' : ∀ i st, p' ≠ .image i st) : Filled serial db t p' :=
  .of_no_layers hp' (fun _ _ _ _ hr => h.no_layers hp hr) h.cut

theorem Filled.hop {s} (hfits : Fits s.db t p) (h : Filled serial s.db t p)
    (hop : Hops s t p p') : Filled serial s.db t p' := by
  cases hop with
  | layer i id l todo _ =>
    refine h.of_image (hfits.staged rfl) rfl (fun l' hl' => ?_) (by simp) (by simp)
    exact (mem_cons.1 hl').imp_left fun heq => by rw [heq]
  | associated | uploadFind => exact h.of_other (by simp) (by simp)
  | _ => exact .of_delta_nil (hfits.staged rfl) rfl (by simp)

theorem Filled.begin {s} (hfits : Fits s.db t p) (h : Filled serial s.db t p)
    (hb : Begins s p p') : Filled serial s.db t p' := by
  cases hb with
  | imageAssociate i id digest todo =>
    exact h.of_image (hfits.staged rfl) rfl (fun _ hl => hl) (by simp) (by simp)
  | _ => exact .of_delta_nil (hfits.staged rfl) rfl (by simp)

/-- Layers are cut off with their manifest. -/
theorem cut_staged (hv : env.view = db.view t) (hc : Consistent schema (db.view t))
    (hq : Table.manifests ∉ inserts q) (h : Filled serial db t p) {layer id}
    (hr : .layer repo layer id digest ∈ ((db.staged schema t (q.effect env)).delta t).del) :
    manifestTracking.Gone ((db.staged schema t (q.effect env)).delta t)
      ((db.staged schema t (q.effect env)).view t) (repo, id) := by
  rw [Store.delta_staged_self, Store.view_staged_self]
  rw [Store.delta_staged_self, Delta.mem_andThen_del] at hr
  rcases hr with hr | hr
  · obtain ⟨⟨m, hm, hmi⟩, habs⟩ := h.cut _ _ _ _ hr
    refine ⟨⟨m, (Delta.mem_andThen_del _ _ _).2 (.inl hm), hmi⟩, ?_⟩
    rintro ⟨r, hr, hri⟩
    rcases (Delta.mem_view _ _ _).1 hr with hins | ⟨hview, -⟩
    · cases r <;> simp [manifestTracking] at hri
      exact hq (table_mem_inserts hins)
    · exact habs ⟨r, hview, hri⟩
  · exact (gone_of_layer_del hv hc hr).andThen

/-- A statement that writes no manifest. -/
theorem Filled.exec_other (hv : env.view = db.view t) (hc : Consistent schema (db.view t))
    (h : Filled serial db t p) (hq : Table.manifests ∉ inserts q) (hp : ∀ i st, p ≠ .image i st)
    (hp' : ∀ i st, p' ≠ .image i st) :
    Filled (serial + 1) (db.staged schema t (q.effect env)) t p' := by
  refine .of_no_layers hp' (fun _ _ _ _ hr => ?_) fun _ _ _ _ hr => cut_staged hv hc hq h hr
  rw [Store.delta_staged_self, Delta.mem_andThen_ins] at hr
  rcases hr with hins | ⟨hr, -⟩
  · exact absurd (table_mem_inserts hins) hq
  · exact h.no_layers hp hr

theorem no_manifest_staged (hδ : db.delta t = ⟨[], []⟩) (hq : Table.manifests ∉ inserts q) {id d} :
    .manifest repo id d payload ∉ ((db.staged schema t (q.effect env)).delta t).ins := by
  rw [Store.delta_staged_self, Delta.mem_andThen_ins, hδ]
  rintro (hins | ⟨hr, -⟩)
  · exact hq (table_mem_inserts hins)
  · cases hr

/-- A layer is associated. -/
theorem Filled.exec_associate {id todo} (hv : env.view = db.view t)
    (hc : Consistent schema (db.view t)) (hδ : db.delta t = ⟨[], []⟩)
    (h : Filled serial db t (.image i (.associate id digest todo))) :
    Filled (serial + 1)
      (db.staged schema t ((Stmt.associateLayerBlob i.repo id digest).effect env)) t
      (.image i (.associateCommit id digest todo)) where
  layers i' st id' he ht d payload hm := by
    obtain ⟨rfl, rfl⟩ := Proc.image.inj he
    exact h.layers _ _ id' rfl ht d payload hm
  associated i' id' digest' todo' he d payload hm := by
    obtain ⟨rfl, hst⟩ := Proc.image.inj he
    obtain ⟨rfl, rfl, rfl⟩ := ImageStage.associateCommit.inj hst
    rw [Store.view_staged_self]
    simp only [Stmt.effect, Env.associateLayerBlob]
    split
    next hmem =>
      obtain ⟨layer, hl⟩ := mem_layersOf.1 hmem
      exact ⟨layer, by simpa [waits, ← hv] using hl⟩
    next => exact ⟨env.serial, by simp [writes]⟩
  creating _ _ he := by simp at he
  created repo id' d payload hr := absurd hr (no_manifest_staged hδ (by simp [inserts]))
  cut _ _ _ _ hr := cut_staged hv hc (by simp [inserts]) h hr
  fresh repo id' he := by
    obtain ⟨hlt, hno⟩ := h.fresh repo id' he
    refine ⟨Nat.lt_succ_of_lt hlt, fun u d payload hr => ?_⟩
    by_cases hu : u = t
    · exact no_manifest_staged hδ (by simp [inserts]) (hu ▸ hr)
    · rw [Store.delta_staged_of_ne _ _ hu] at hr
      exact hno u d payload hr

/-- A manifest is created. -/
theorem Filled.exec_create (hδ : db.delta t = ⟨[], []⟩) (hf : filling p' = none)
    (hp' : (payload.layers = [] ∧ ∀ i st, p' ≠ .image i st) ∨
      ∃ i, p' = .image i (.createCommit env.serial) ∧ repo = i.repo ∧ payload.layers = i.layers) :
    Filled (serial + 1)
      (db.staged schema t ((Stmt.createManifest repo digest payload).effect env)) t p' where
  layers i st id he ht := by simp [he, filling, ht] at hf
  associated i id digest todo he := by simp [he, filling, target] at hf
  creating i id he := by
    rcases hp' with ⟨-, hno⟩ | ⟨i', he', rfl, -⟩
    · exact absurd he (hno _ _)
    · rw [he'] at he
      obtain ⟨rfl, hst⟩ := Proc.image.inj he
      cases hst
      exact ⟨digest, payload, by simp [Stmt.effect, Env.createManifest]⟩
  created repo' id d payload' hr := by
    rw [Store.delta_staged_self, Delta.mem_andThen_ins, hδ] at hr
    rcases hr with hins | ⟨hr, -⟩
    · obtain ⟨hq, rfl⟩ := manifest_mem_ins hins
      obtain ⟨rfl, rfl, rfl⟩ := Stmt.createManifest.inj hq
      exact hp'
    · cases hr
  cut repo' layer id d hr := by
    rw [Store.delta_staged_self, Delta.mem_andThen_del, hδ] at hr
    simp [Stmt.effect, Env.createManifest] at hr
  fresh repo' id he := by simp [hf] at he

theorem Filled.exec {c s} {next : Bool → Proc} {b}
    (hfits : Fits s.db t p) (hc : Consistent schema (s.db.view t)) (h : Filled s.serial s.db t p)
    (hx : Execs s t p q next) :
    Filled (s.serial + 1) (s.db.staged schema t (q.effect (envOf c s t))) t (next b) := by
  cases hx with
  | list repo digest members ids since =>
    exact .exec_create (hfits.staged rfl) rfl (.inl ⟨rfl, by simp⟩)
  | imageCreate i => exact .exec_create (hfits.staged rfl) rfl (.inr ⟨i, rfl, rfl, rfl⟩)
  | imageAssociate i id digest todo => exact h.exec_associate rfl hc (hfits.staged rfl)
  | _ =>
    exact h.exec_other rfl hc (by simp [inserts]) (by simp) (by cases b <;> simp)

/-- What another session does before its commit matters only for the manifest being filled. -/
theorem Filled.untouched {db' : Database} {serial'} (h : Filled serial db u p)
    (hu : Store.Untouched u db db') (hserial : serial ≤ serial')
    (hno : ∀ repo id d payload, id < serial →
      (∀ w, .manifest repo id d payload ∉ (db.delta w).ins) →
        ∀ w, .manifest repo id d payload ∉ (db'.delta w).ins) : Filled serial' db' u p := by
  refine ⟨hu.db ▸ h.layers, ?_, hu.delta ▸ h.creating, hu.delta ▸ h.created, ?_, ?_⟩
  · rw [hu.db, hu.view]; exact h.associated
  · rw [hu.delta, hu.view]; exact h.cut
  · intro repo id he
    obtain ⟨hlt, hins⟩ := h.fresh repo id he
    exact ⟨Nat.lt_of_lt_of_le hlt hserial,
      fun w d payload => hno repo id d payload hlt (fun w => hins w d payload) w⟩

/-- Statements of others write no manifest under its id. -/
theorem Filled.staged_other (h : Filled serial db u p) (hu : u ≠ t)
    (hserial : env.serial = serial) :
    Filled (serial + 1) (db.staged schema t (q.effect env)) u p := by
  refine h.untouched (.staged hu) (Nat.le_succ _) fun repo id d payload hlt hno w hr => ?_
  by_cases hw : w = t
  · subst hw
    rw [Store.delta_staged_self, Delta.mem_andThen_ins] at hr
    rcases hr with hins | ⟨hr, -⟩
    · obtain ⟨-, rfl⟩ := manifest_mem_ins hins
      exact Nat.lt_irrefl _ (hserial ▸ hlt)
    · exact hno w hr
  · rw [Store.delta_staged_of_ne _ _ hw] at hr
    exact hno w hr

/-- A transaction that ends stages nothing. -/
theorem not_mem_release_ins {r rows} (h : ∀ w, r ∉ (db.delta w).ins) (w : ℕ) :
    r ∉ ((db.release t rows).delta w).ins := by
  by_cases hw : w = t
  · subst hw; simp
  · rw [Store.delta_release_of_ne _ _ hw]; exact h w

/-- The manifest that a put is filling is committed. -/
theorem Filled.before (h : Filled serial db u p) {id d} (he : filling p = some (repo, id))
    (hm : .manifest repo id d payload ∈ db.view t) : .manifest repo id d payload ∈ db.db := by
  rcases (Delta.mem_view _ _ _).1 hm with hins | ⟨hold, -⟩
  · exact absurd hins ((h.fresh repo id he).2 t d payload)
  · exact hold

/-- No session has it staged when one ends. -/
theorem Filled.fresh_release (h : Filled serial db u p) {id rows}
    (he : filling p = some (repo, id)) : id < serial ∧
      ∀ w digest payload, .manifest repo id digest payload ∉ ((db.release t rows).delta w).ins := by
  obtain ⟨hlt, hno⟩ := h.fresh repo id he
  exact ⟨hlt, fun w d payload => not_mem_release_ins (fun w => hno w d payload) w⟩

/-- INTERNAL: the commits of others add no layers and no manifest to what a put is filling, and take
layers only with the manifest. -/
theorem Filled.commit_other (hs : Sound schema db) {pt} (ht : Filled serial db t pt)
    (h : Filled serial db u p) (hu : u ≠ t) : Filled serial (db.commit t) u p := by
  have hδ := db.delta_commit_of_ne hu
  have hv := db.view_commit_of_ne hu
  refine ⟨?_, ?_, hδ ▸ h.creating, hδ ▸ h.created, ?_, fun _ _ he => h.fresh_release he⟩
  · intro i st id hp htarget d payload hm
    have hold := h.before (by simp [hp, filling, htarget]) hm
    obtain ⟨hlayers, hdone⟩ := h.layers i st id hp htarget d payload hold
    refine ⟨hlayers, fun l hl => (hdone l hl).imp_right ?_⟩
    rintro ⟨layer, hrow⟩
    exact ⟨layer, layer_mem_view ht.cut hrow hm⟩
  · intro i id digest todo hp d payload hm
    have hold := h.before (by simp [hp, filling, target]) hm
    obtain ⟨layer, hrow⟩ := h.associated i id digest todo hp d payload hold
    refine ⟨layer, ?_⟩
    rw [hv]
    rcases (Delta.mem_view _ _ _).1 hrow with hins | ⟨hrow, hdel⟩
    · exact (Delta.mem_view _ _ _).2 (.inl hins)
    · exact (Delta.mem_view _ _ _).2 (.inr ⟨layer_mem_view ht.cut hrow hm, hdel⟩)
  · intro repo layer id digest hr
    rw [hδ] at hr ⊢
    rw [hv]
    exact (h.cut repo layer id digest hr).commit hs hu

/-- It is committed without layers. -/
theorem Filled.commit_create (hdb : Healthy serial db) {id}
    (h : Filled serial db t (.image i (.createCommit id))) :
    Filled serial (db.commit t) t (.image i (.layers id i.layers)) := by
  have hδ : (db.commit t).delta t = ⟨[], []⟩ := Store.delta_release_self ..
  obtain ⟨d₀, payload₀, hins⟩ := h.creating i id rfl
  refine ⟨?_, by simp, by simp, by simp [hδ], by simp [hδ], ?_⟩
  · intro i' st id' he ht d payload hm
    obtain ⟨rfl, rfl⟩ := Proc.image.inj he
    obtain rfl : id = id' := by simpa [target] using ht
    -- the row under this id is the one the put has inserted
    have hrow := (hdb.sound.views t).eq_of_key hm
      ((Delta.mem_view _ _ _).2 (.inl hins)) (k := .manifest i.repo id)
      (by simp [schema, rowKeys]) (by simp [schema, rowKeys])
    obtain ⟨-, -, rfl, rfl⟩ := Row.manifest.inj hrow
    refine ⟨?_, fun l hl => .inl hl⟩
    rcases h.created _ _ _ _ hins with ⟨-, hno⟩ | ⟨i', he', -, hlayers⟩
    · exact absurd rfl (hno _ _)
    · obtain ⟨rfl, -⟩ := Proc.image.inj he'
      exact hlayers
  · intro repo id' he
    obtain ⟨rfl, rfl⟩ : i.repo = repo ∧ id = id' := by simpa [filling, target] using he
    refine ⟨(hdb.belowStaged t).1 _ _ _ _ hins, fun u d payload hr => ?_⟩
    by_cases hu : u = t
    · subst hu; simp [hδ] at hr
    · rw [db.delta_commit_of_ne hu] at hr
      have hheld := hdb.sound.written t _ (.inl hins) (.manifest i.repo id)
        (by simp [schema, rowKeys])
      exact (hdb.sound.not_written (t := u) (u := t) (Ne.symm hu) hheld
        (by simp [schema, rowKeys])).1 hr

/-- The layer is committed. -/
theorem Filled.commit_associate {id todo}
    (h : Filled serial db t (.image i (.associateCommit id digest todo))) :
    Filled serial (db.commit t) t (.image i (.layers id todo)) := by
  have hδ : (db.commit t).delta t = ⟨[], []⟩ := Store.delta_release_self ..
  refine ⟨?_, by simp, by simp, by simp [hδ], by simp [hδ], fun _ _ he => h.fresh_release he⟩
  · intro i' st id' he ht d payload hm
    obtain ⟨rfl, rfl⟩ := Proc.image.inj he
    obtain rfl : id = id' := by simpa [target] using ht
    have hold := h.before rfl hm
    obtain ⟨hlayers, hdone⟩ := h.layers i _ id rfl rfl d payload hold
    refine ⟨hlayers, fun l hl => ?_⟩
    rcases hdone l hl with (heq | htodo) | ⟨layer, hrow⟩
    · exact .inr (heq ▸ h.associated i id digest todo rfl d payload hold)
    · exact .inl htodo
    · exact .inr ⟨layer, layer_mem_view h.cut hrow hm⟩

end Frame

/-- INTERNAL: every step fills manifests in order. -/
theorem filled_step {c s s' a} (hi : Integrity s)
    (h : ∀ t, Filled s.serial s.db t (s.sess t).proc) (hs : Steps c s a s') :
    ∀ t, Filled s'.serial s'.db t (s'.sess t).proc := by
  apply hs.sessions (P := fun _ serial db t σ => Filled serial db t σ.proc) h
  case tick => exact fun _ => h
  case start =>
    intro t call hfree
    refine .of_delta_nil ((hi.fits t).staged (clean_of_free hfree)) ?_ ?_
    all_goals cases call <;> simp [Call.entry, filling, target]
  case hop => exact fun t _ _ hop => (h t).hop (hi.fits t) hop
  case begins => exact fun t _ hb => (h t).begin (hi.fits t) hb
  case exec =>
    intro t q next hx
    exact ⟨(h t).exec (hi.fits t) (hi.healthy.sound.views t) hx,
      fun u hu => (h u).staged_other hu rfl⟩
  case commit =>
    intro t pick p _ hreq
    have hδ : (s.db.commit t).delta t = ⟨[], []⟩ := Store.delta_release_self ..
    refine ⟨?_, fun u hu => (h t).commit_other hi.healthy.sound (h u) hu⟩
    have hcommits := commits_of_request hreq
    have ht := h t
    generalize (s.sess t).proc = p₀ at hcommits ht
    cases hcommits with
    | imageCreate i id => exact ht.commit_create hi.healthy
    | imageAssociate i id digest todo => exact ht.commit_associate
    | _ => exact .of_delta_nil hδ rfl (by simp)
  case quit =>
    intro t r
    exact ⟨.of_delta_nil (Store.delta_release_self ..) rfl (by simp),
      fun u hu => (h u).untouched (.rollback hu) (Nat.le_refl _)
        fun _ _ _ _ _ hno => not_mem_release_ins hno⟩
  case aside =>
    intro t p ha
    have ht := h t
    generalize (s.sess t).proc = p₀ at ha ht
    cases ha <;> exact ht.of_other (by simp) (by simp)

/-- **What puts know holds in every reachable state.** -/
theorem filled_of_reach {c} {ok : State → Action → Prop} {s}
    (h : Reach (step c) ok init s) : ∀ t, Filled s.serial s.db t (s.sess t).proc := by
  refine h.invariant (P := fun s => ∀ t, Filled s.serial s.db t (s.sess t).proc) (fun t => ?_) ?_
  · exact .of_delta_nil rfl rfl (by simp [init])
  · exact fun _ _ _ hr hn _ hs => filled_step (integrity_of_reach hr) hn (steps_of_step hs)

/-! ## Puts that are not cut short -/

/-- A put with layers still to insert is not cut short, the blob of its next layer is linked and
there, and no put of the same manifest comes across its row. -/
def Unbroken (s : State) (a : Action) (u : ℕ) : Prop :=
  match a with
  | .fail t => filling (s.sess t).proc = none
  | .go t _ =>
    match (s.sess t).proc with
    | .image i .find =>
      match findManifestByDigest (s.db.view t) i.repo i.digest with
      | some (id, _) => filling (s.sess u).proc ≠ some (i.repo, id)
      | none => True
    | .image i (.layers id (l :: _)) =>
      manifestExists (s.db.view t) i.repo id → findRepositoryBlob (s.db.view t) i.repo l.digest
    | .image i (.associate id digest _) =>
      manifestExists (s.db.view t) i.repo id → blobExists (s.db.view t) digest
    | _ => True
  | _ => True

instance (s : State) (a : Action) (u : ℕ) : Decidable (Unbroken s a u) := by
  unfold Unbroken
  repeat' split
  all_goals infer_instance

/-- Every put that has inserted its manifest inserts its layers before another put of the same
manifest finds it. -/
def Steady (s : State) (a : Action) : Prop := ∀ u, Unbroken s a u

/-- Idle sessions break no put. -/
theorem steady_of_idle {s a n} (hn : 0 < n)
    (hidle : ∀ u, n ≤ u → (s.sess u).proc = .idle) (h : ∀ u < n, Unbroken s a u) : Steady s a := by
  intro u
  by_cases hu : u < n
  · exact h u hu
  have hp := hidle u (Nat.not_lt.1 hu)
  have h₀ := h 0 hn
  unfold Unbroken at h₀ ⊢
  rw [hp]
  repeat' split
  all_goals simp_all [filling]

theorem mem_trackLayer {env : Env} {repo : RepoKey} {id : ℕ} {digest : Digest} {r : Row}
    (hr : r ∈ env.trackLayer repo id digest) :
    r = .gcBlobLayer repo id digest ∧ ∀ repo', .gcBlobLayer repo' id digest ∉ env.view := by
  unfold Env.trackLayer at hr
  split at hr
  next => cases hr
  next hno =>
    refine ⟨mem_singleton.1 hr, fun repo' hmem => hno ?_⟩
    exact any_eq_true.2 ⟨_, hmem, by simp⟩

/-- The layer of a manifest refers to rows. -/
theorem consistent_associateLayerBlob {env : Env} {repo : RepoKey} {id : ℕ} {digest : Digest}
    (hc : Consistent schema env.view) (hb : Below env.serial env.view)
    (hm : manifestExists env.view repo id) (hblob : blobExists env.view digest) :
    Consistent schema ((env.associateLayerBlob repo id digest).toDelta.view env.view) := by
  unfold Env.associateLayerBlob
  split
  next => simpa [waits] using hc
  next hnew =>
    obtain ⟨d, payload, hmanifest⟩ := manifestExists_iff.1 hm
    rw [blobExists_iff] at hblob
    rw [view_writes_ins]
    refine hc.append ?_ ?_ ?_
    · refine pairwise_cons.2 ⟨fun b hmem k hk hkb => ?_, ?_⟩
      · obtain ⟨rfl, -⟩ := mem_trackLayer hmem
        simp only [schema, rowKeys, mem_singleton] at hkb
        subst hkb
        simp [schema, rowKeys] at hk
      · unfold Env.trackLayer
        split <;> simp
    · -- ids are new, and the layer was not there
      intro a ha b hmem k hk hkb
      rcases mem_cons.1 ha with rfl | ha
      · simp only [schema, rowKeys, mem_cons, not_mem_nil, or_false] at hk
        rcases hk with rfl | rfl | rfl <;> cases b <;> simp [schema, rowKeys] at hkb
        · obtain ⟨rfl, rfl⟩ := hkb
          exact Nat.lt_irrefl _ (hb.2 _ _ _ _ hmem)
        · obtain ⟨rfl, rfl, rfl⟩ := hkb
          exact hnew (mem_layersOf.2 ⟨_, hmem⟩)
        · obtain ⟨rfl, rfl, rfl⟩ := hkb
          exact Nat.lt_irrefl _ (hb.2 _ _ _ _ hmem)
      · obtain ⟨rfl, hno⟩ := mem_trackLayer ha
        simp only [schema, rowKeys, mem_singleton] at hk
        subst hk
        cases b <;> simp [schema, rowKeys] at hkb
        obtain ⟨rfl, rfl⟩ := hkb
        exact hno _ hmem
    · intro r hr k hk
      rcases mem_cons.1 hr with rfl | hr
      · simp only [schema, rowParents, mem_cons, not_mem_nil, or_false] at hk
        rcases hk with rfl | rfl
        · exact ⟨_, mem_append_right _ hmanifest, by simp [schema, rowKeys]⟩
        · exact ⟨_, mem_append_right _ hblob, by simp [schema, rowKeys]⟩
      · obtain ⟨rfl, -⟩ := mem_trackLayer hr
        simp only [schema, rowParents, mem_cons, not_mem_nil, or_false] at hk
        rcases hk with rfl | rfl
        · exact ⟨_, mem_append_left _ mem_cons_self, by simp [schema, rowKeys]⟩
        · exact ⟨_, mem_append_right _ hblob, by simp [schema, rowKeys]⟩

section Runs

variable {c : Settings} {s s' : State} {a : Action}

variable {id : ℕ} {i : Image} {t : ℕ} {st : ImageStage}

/-- INTERNAL: how a put gives up, or ends. -/
theorem finish_of_filling {pick r} (hp : (s.sess t).proc = .image i st)
    (ht : target st = some id) (hreq : request c s t pick = .finish r) :
    (st = .layers id [] ∧ r = .ok) ∨
      ∃ l todo, st = .layers id (l :: todo) ∧
        findRepositoryBlob (s.db.view t) i.repo l.digest = false := by
  cases st <;> simp [target] at ht <;> subst ht <;> simp only [request, hp] at hreq
  case layers id' todo =>
    cases todo with
    | nil =>
      simp only [imageRequest, Req.finish.injEq] at hreq
      exact .inl ⟨rfl, hreq.symm⟩
    | cons l todo =>
      simp only [imageRequest] at hreq
      split at hreq
      next => cases hreq
      next hno => exact .inr ⟨l, todo, rfl, by simpa using hno⟩
  all_goals simp [imageRequest] at hreq

/-- The commits of a put are not its end. -/
theorem committed_of_done (hs : Steps c s a s') {r} (hp : (s.sess t).proc = .image i st)
    (hp' : (s'.sess t).proc = .done r) : s'.db.db = s.db.db := by
  rcases hs.committed with hdb | ⟨w, pick, p, rfl, hreq, -⟩
  · exact hdb
  by_cases hw : w = t
  · subst hw
    have hcommits := commits_of_request hreq
    rw [hp] at hcommits
    have hproc : (s'.sess w).proc = p := by cases hs <;> simp_all [State.jump]
    rw [hp'] at hproc
    subst hproc
    cases hcommits
  · rw [hs.sess_of_ne (by simpa [actor] using hw), hp] at hp'
    cases hp'

/-- INTERNAL: **a put that is filling a manifest goes on**, or has inserted the last layer, or the
manifest is gone. -/
theorem filling_after (hi : Integrity s) (hok : Steady s a) (hs : Steps c s a s')
    (hp : (s.sess t).proc = .image i st) (ht : target st = some id) :
    filling (s'.sess t).proc = some (i.repo, id) ∨
      (s'.db.db = s.db.db ∧ ((st = .layers id [] ∧ (s'.sess t).proc = .done .ok) ∨
        manifestExists s.db.db i.repo id = false)) := by
  have hok := hok t
  -- what Postgres shows the put is what is committed
  have hview := (hp ▸ hi.fits t).view_eq
  have hdb := fun r => committed_of_done hs (r := r) hp
  have hmoves := hs.moves t
  rw [hp] at hmoves
  generalize (s'.sess t).proc = p' at hmoves hdb ⊢
  cases hmoves with
  | stay => exact .inl (by simp [filling, ht])
  | start call hfree => cases hfree
  | hop _ hop => cases hop <;> cases ht; exact .inl rfl
  | begin _ hb => cases hb <;> cases ht; exact .inl rfl
  | exec _ hx => cases hx <;> cases ht; exact .inl rfl
  | commit _ hcommits => cases hcommits <;> cases ht; exact .inl rfl
  | violation pick v hx hw =>
    cases hx <;> cases ht
    refine .inr ⟨hdb _ rfl, .inr ?_⟩
    rw [← hview rfl, ← Bool.not_eq_true]
    intro hm
    simp only [Unbroken, hp] at hok
    exact Store.write_eq_violation hw (consistent_associateLayerBlob
      (hi.healthy.sound.views t) (hi.healthy.below_view t) hm (hok hm))
  | finish pick r hreq =>
    refine .inr ⟨hdb r rfl, ?_⟩
    rcases finish_of_filling hp ht hreq with ⟨rfl, rfl⟩ | ⟨l, todo, rfl, hno⟩
    · exact .inl ⟨rfl, rfl⟩
    · refine .inr ?_
      rw [← hview rfl, ← Bool.not_eq_true]
      intro hm
      simp only [Unbroken, hp] at hok
      simp [hok hm] at hno
  | fail => simp [Unbroken, hp, filling, ht] at hok
  | aside ha => cases ha

/-- Every manifest has its layers, or the put that inserted it is still at it. -/
def Whole (s : State) : Prop :=
  ∀ repo id digest payload, .manifest repo id digest payload ∈ s.db.db →
    Complete s.db.db repo id payload ∨ ∃ t, filling (s.sess t).proc = some (repo, id)

theorem exists_image_of_filling {p repo} (h : filling p = some (repo, id)) :
    ∃ i st, p = .image i st ∧ target st = some id ∧ repo = i.repo := by
  unfold filling at h
  split at h
  next i st =>
    obtain ⟨id', ht, heq⟩ := Option.map_eq_some_iff.1 h
    obtain ⟨rfl, rfl⟩ := Prod.mk.inj heq
    exact ⟨i, st, rfl, ht, rfl⟩
  next => cases h

theorem complete_of_last (h : Filled s.serial s.db t (s.sess t).proc)
    (hp : (s.sess t).proc = .image i (.layers id [])) {digest payload}
    (hm : .manifest i.repo id digest payload ∈ s.db.db) : Complete s.db.db i.repo id payload := by
  obtain ⟨hlayers, hdone⟩ := h.layers i _ id hp rfl digest payload hm
  intro l hl
  exact (hdone l (hlayers ▸ hl)).resolve_left not_mem_nil

/-- INTERNAL: every step keeps manifests whole. -/
theorem Whole.step (hi : Integrity s) (hf : ∀ t, Filled s.serial s.db t (s.sess t).proc)
    (h : Whole s) (hok : Steady s a) (hs : Steps c s a s') : Whole s' := by
  intro repo id digest payload hm
  -- a manifest that was there before keeps its layers, and the put that fills it
  have kept : .manifest repo id digest payload ∈ s.db.db →
      (Complete s.db.db repo id payload → Complete s'.db.db repo id payload) →
      Complete s'.db.db repo id payload ∨ ∃ t, filling (s'.sess t).proc = some (repo, id) := by
    intro hold hcomplete
    rcases h repo id digest payload hold with hdone | ⟨t, hfill⟩
    · exact .inl (hcomplete hdone)
    · obtain ⟨i, st, hp, ht, rfl⟩ := exists_image_of_filling hfill
      rcases filling_after hi hok hs hp ht with hfill | ⟨-, ⟨rfl, -⟩ | hgone⟩
      · exact .inr ⟨t, hfill⟩
      · exact .inl (hcomplete (complete_of_last (hf t) hp hold))
      · simp [manifestExists_iff.2 ⟨_, _, hold⟩] at hgone
  rcases hs.committed with hdb | ⟨w, pick, p, rfl, hreq, hdb⟩
  · exact kept (hdb ▸ hm) fun hdone => hdb ▸ hdone
  have hview : s'.db.db = s.db.view w := by rw [hdb]; rfl
  rw [hview] at hm
  rcases (Delta.mem_view _ _ _).1 hm with hins | ⟨hold, -⟩
  · rcases (hf w).created repo id digest payload hins with ⟨hnil, -⟩ | ⟨i, hp, rfl, -⟩
    · exact .inl fun l hl => by simp [hnil] at hl
    · -- the put goes on to insert the layers
      have hcommits := commits_of_request hreq
      rw [hp] at hcommits
      cases hcommits
      have hmoves : (s'.sess w).proc = .image i (.layers id i.layers) := by
        cases hs <;> simp_all [State.jump]
      exact .inr ⟨w, by simp [hmoves, filling, target]⟩
  · refine kept hold fun hdone l hl => ?_
    obtain ⟨layer, hrow⟩ := hdone l hl
    exact ⟨layer, hview ▸ layer_mem_view (hf w).cut hrow hm⟩

structure PutsAtomic (c : Settings) (s : State) : Prop where
  /-- A manifest that no put is filling has a row in `layers` for each of its layers. -/
  complete : ∀ repo id digest payload, .manifest repo id digest payload ∈ s.db.db →
    (∀ t, filling (s.sess t).proc ≠ some (repo, id)) →
    ∀ l ∈ payload.layers, ∃ layer, .layer repo layer id l.digest ∈ s.db.db
  /-- A put that reports success leaves the manifest it inserted, or found, complete. -/
  success : ∀ t i st pick s', (s.sess t).proc = .image i st → Steady s (.go t pick) →
    step c s (.go t pick) = some s' → (s'.sess t).proc = .done .ok →
    ∀ id digest payload, .manifest i.repo id digest payload ∈ s'.db.db →
      target st = some id ∨ (st = .find ∧ digest = i.digest) →
      ∀ l ∈ payload.layers, ∃ layer, .layer i.repo layer id l.digest ∈ s'.db.db
  /-- A put that fails commits nothing and leaves no manifest of its own. -/
  failure : ∀ t i st a s' e, (s.sess t).proc = .image i st → Steady s a →
    step c s a = some s' → (s'.sess t).proc = .done (.error e) →
    s'.db.db = s.db.db ∧ ∀ id digest payload, target st = some id →
      .manifest i.repo id digest payload ∉ s'.db.db

/-- A manifest that is found is complete. -/
theorem complete_of_found (hi : Integrity s) (h : Whole s) {pick}
    (hp : (s.sess t).proc = .image i .find) (hok : Steady s (.go t pick)) {payload}
    (hm : .manifest i.repo id i.digest payload ∈ s.db.db) : Complete s.db.db i.repo id payload := by
  have hview := (hi.fits t).view_eq (by rw [hp]; rfl)
  obtain ⟨⟨id', payload'⟩, hfind⟩ := exists_findManifestByDigest (hview ▸ hm)
  -- the digest is unique in the repository
  have hrow := hi.healthy.sound.base.eq_of_key hm (hview ▸ findManifestByDigest_eq_some hfind)
    (k := .manifestDigest i.repo i.digest) (by simp [schema, rowKeys]) (by simp [schema, rowKeys])
  obtain ⟨-, rfl, -, -⟩ := Row.manifest.inj hrow
  refine (h i.repo id i.digest payload hm).resolve_right ?_
  rintro ⟨u, hfill⟩
  have hu := hok u
  simp only [Unbroken, hp, hfind] at hu
  exact hu hfill

end Runs

/-- **Image puts are atomic** in runs in which no put is cut short before its last layer is
inserted, the blobs of its layers stay linked, and no other put comes across the manifest: outside
the time in which a put fills it, a manifest is complete.
handlers/manifests.go:772-870 -/
theorem image_puts_atomic {c : Settings} {s : State} (h : Reach (step c) Steady init s) :
    PutsAtomic c s := by
  have hi := integrity_of_reach h
  have hf := filled_of_reach h
  have hwhole : Whole s := by
    refine h.invariant (P := Whole) ?_ fun _ _ _ hr hw hok hs =>
      hw.step (integrity_of_reach hr) (filled_of_reach hr) hok (steps_of_step hs)
    intro repo id digest payload hm
    simp [init, Store.empty] at hm
  refine ⟨fun repo id digest payload hm hquiet => ?_, ?_, ?_⟩
  · exact (hwhole repo id digest payload hm).resolve_right (not_exists.2 hquiet)
  · intro t i st pick s' hp hok hs hdone id digest payload hm hwhich
    have hdb := committed_of_done (steps_of_step hs) hp hdone
    rw [hdb] at hm ⊢
    rcases hwhich with ht | ⟨rfl, rfl⟩
    · rcases filling_after hi hok (steps_of_step hs) hp ht with hfill | ⟨-, ⟨rfl, -⟩ | hgone⟩
      · simp [hdone, filling] at hfill
      · exact complete_of_last (hf t) hp hm
      · simp [manifestExists_iff.2 ⟨_, _, hm⟩] at hgone
    · exact complete_of_found hi hwhole hp hok hm
  · intro t i st a s' e hp hok hs hdone
    have hdb := committed_of_done (steps_of_step hs) hp hdone
    refine ⟨hdb, fun id digest payload ht hm => ?_⟩
    rw [hdb] at hm
    rcases filling_after hi hok (steps_of_step hs) hp ht with hfill | ⟨-, ⟨-, hok'⟩ | hgone⟩
    · simp [hdone, filling] at hfill
    · simp [hdone] at hok'
    · simp [manifestExists_iff.2 ⟨_, _, hm⟩] at hgone

theorem filling_none {c} {ok : State → Action → Prop} {s}
    (hok : ∀ s a, ok s a → Within 2 a) (h : Reach (step c) ok init s)
    (hzero : (s.sess 0).proc = .idle) (hone : (s.sess 1).proc = .done .ok) (t : ℕ) :
    filling (s.sess t).proc = none := by
  match t with
  | 0 => rw [hzero]; rfl
  | 1 => rw [hone]; rfl
  | t + 2 => rw [idle_of_within hok h (t + 2) (Nat.le_add_left 2 t)]; rfl

/-- An image with a layer is put; afterwards its layer is there. -/
theorem image_puts_atomic_layered :
    ∃ s, Reach (step standard) Steady init s ∧
      .manifest Sample.repo 4 Sample.layered.digest (.image Sample.config Sample.layered.layers) ∈
        s.db.db ∧
      ∃ layer, .layer Sample.repo layer 4 Sample.layer ∈ s.db.db := by
  obtain ⟨s, hs, hzero, hone, hm⟩ : ∃ s,
      Reach (step standard) (fun s a => (∀ u < 2, Unbroken s a u) ∧ Within 2 a) init s ∧
      (s.sess 0).proc = .idle ∧ (s.sess 1).proc = .done .ok ∧
      .manifest Sample.repo 4 Sample.layered.digest (.image Sample.config Sample.layered.layers) ∈
        s.db.db :=
    exists_reach
      (calls 1 (.uploadBlob Sample.repo Sample.config) 5 ++
        calls 1 (.uploadBlob Sample.repo Sample.layer) 5 ++ calls 1 (.putImage Sample.layered) 14)
      (by decide +kernel)
  have hs' : Reach (step standard) Steady init s := hs.weaken fun _ _ hr hok =>
    steady_of_idle (by decide) (idle_of_within (fun _ _ h => h.2) hr) hok.1
  refine ⟨s, hs', hm, (image_puts_atomic hs').complete _ _ _ _ hm (fun t => ?_)
    ⟨Sample.layer, .other, .absent⟩ (mem_singleton.2 rfl)⟩
  simp [filling_none (fun _ _ h => h.2) hs hzero hone t]

/-- **A put that failed leaves a manifest without its layers, and the retry reports success.**
Validation accepts the layer, which has external URLs, without a blob; its insertion does not. -/
theorem incomplete_manifest :
    ∃ s, Reachable standard s ∧ (s.sess 1).proc = .done .ok ∧
      (∀ t, filling (s.sess t).proc = none) ∧
      .manifest Sample.repo 2 Sample.foreign.digest (.image Sample.config Sample.foreign.layers) ∈
        s.db.db ∧
      ¬ Complete s.db.db Sample.repo 2 (.image Sample.config Sample.foreign.layers) := by
  obtain ⟨s, hs, hzero, hone, hm, hnone⟩ : ∃ s,
      Reach (step standard) (fun _ a => Within 2 a) init s ∧
      (s.sess 0).proc = .idle ∧ (s.sess 1).proc = .done .ok ∧
      .manifest Sample.repo 2 Sample.foreign.digest (.image Sample.config Sample.foreign.layers) ∈
        s.db.db ∧ layersOf s.db.db Sample.repo 2 = [] :=
    exists_reach
      (calls 1 (.uploadBlob Sample.repo Sample.config) 5 ++
        calls 1 (.putImage Sample.foreign) 10 ++ calls 1 (.putImage Sample.foreign) 6)
      (by decide +kernel)
  refine ⟨s, hs.weaken fun _ _ _ _ => trivial, hone,
    filling_none (fun _ _ h => h) hs hzero hone, hm, fun hdone => ?_⟩
  have hl := mem_layersOf.2 (hdone ⟨Sample.layer, .foreign, .allowed⟩ (mem_singleton.2 rfl))
  simp [hnone] at hl

end ContainerRegistry.Analysis
