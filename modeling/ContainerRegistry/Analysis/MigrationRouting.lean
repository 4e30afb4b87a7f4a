import ContainerRegistry.Analysis.RepositoryExistence

/-!
# Repositories stay on one side of a migration

A request is routed by what is below the old root at its name: nothing for a repository with content
in the database (`Separate`). One whose existence check fails goes to the old root.
-/

namespace ContainerRegistry.Analysis.Migrations

open Library Model.Migrations List

variable {side : Side}

/-- A request keeps to its side. -/
theorem stores_side {cfg context} (hside : (Store.root context.repository).side = side)
    (hdatabase : context.useDatabase = true → side = .database) (a : Access) :
    ∀ s ∈ a.stores cfg context, s.side = side := by
  have hroot : ∀ s ∈ [Store.root context.repository], s.side = side := by
    intro s hs
    rw [mem_singleton.1 hs, hside]
  have hnone : ∀ s ∈ ([] : List Store), s.side = side := nofun
  have hrows : ∀ s ∈ (if context.useDatabase then [Store.database] else []), s.side = side := by
    split
    next huse =>
      intro s hs
      rw [mem_singleton.1 hs, hdatabase huse]
      rfl
    next => exact hnone
  intro s hs
  cases a with
  | readMetadata =>
    rw [mem_singleton.1 hs]
    split
    next huse => rw [hdatabase huse]; rfl
    next => exact hside
  | readBlob | putUpload | removeUpload => exact hroot s hs
  | putMetadata | removeMetadata =>
    refine (mem_append.1 hs).elim (fun h => ?_) (hrows s)
    split at h
    · exact hroot s h
    · exact hnone s h
  | linkBlob =>
    refine (mem_append.1 hs).elim (fun h => ?_) (hrows s)
    split at h
    · exact hnone s h
    · exact hroot s h
  | mountBlob => exact (mem_cons.1 hs).elim (fun h => h ▸ hside) (hrows s)

theorem prepare_cases (mirror : Bool) (old : List Entry) (name : Name) :
    ((∃ e ∈ old, Covers name e.name) ∧
        prepare ⟨true, true, mirror⟩ old false name = ⟨false, true, .old, []⟩) ∨
      (¬ ∃ e ∈ old, Covers name e.name) ∧
        prepare ⟨true, true, mirror⟩ old false name = ⟨true, !mirror, .migration, []⟩ := by
  rcases repositoryExists_cases old name with ⟨hfound, hok⟩ | ⟨hnone, hok⟩
  · exact .inl ⟨hfound, by simp [prepare, shouldMigrate, hok, Except.toOption]⟩
  · exact .inr ⟨hnone, by simp [prepare, shouldMigrate, hok, Except.toOption]⟩

/-! ## The two sides -/

/-- What is below the old root belongs to no repository in the database. -/
def Separate (w : World) : Prop :=
  ∀ s, s.side = .database → ∀ e ∈ w.entries s, ∀ e' ∈ w.entries (.root .old),
    ¬ Covers e.name e'.name

/-- Only requests that could be routed have touched a store, and no repository with content on the
other side. -/
def Unsplit (w : World) : Prop := ∀ ev ∈ w.log, ev.decided = true ∧ ev.split = false

def Clear (w : World) (name : Name) : Side → Prop
  | .filesystem => ∀ s, s.side = .database → ∀ e ∈ w.entries s, ¬ Covers e.name name
  | .database => ∀ e ∈ w.entries (.root .old), ¬ Covers name e.name

variable {name : Name}

theorem mem_change {a : Access} {entries : List Entry} {e : Entry} (h : e ∈ a.change name entries) :
    e ∈ entries ∨ e.name = name := by
  have hput : ∀ item, e ∈ (⟨name, item⟩ : Entry) :: entries → e ∈ entries ∨ e.name = name :=
    fun item he => (mem_cons.1 he).elim (fun heq => .inr (by rw [heq])) .inl
  cases a with
  | readMetadata | readBlob => exact .inl h
  | putMetadata item | putUpload item | linkBlob item | mountBlob item => exact hput item h
  | removeMetadata | removeUpload => exact .inl (mem_of_mem_filter h)

variable {w : World}

theorem mem_touch {decided : Bool} {a : Access} {s s' : Store} {e : Entry}
    (h : e ∈ (w.touch name decided a s).entries s') :
    e ∈ w.entries s' ∨ s' = s ∧ e.name = name := by
  simp only [World.touch] at h
  split at h
  next heq =>
    subst heq
    exact (mem_change h).imp_right fun hname => ⟨rfl, hname⟩
  next => exact .inl h

/-- The other side has no content. -/
theorem Clear.no_content (h : Clear w name side) : w.hasContent side.other name = false := by
  rw [Bool.eq_false_iff]
  intro hcontent
  simp only [World.hasContent, any_eq_true, decide_eq_true_eq] at hcontent
  obtain ⟨s, hs, e, he, rfl⟩ := hcontent
  cases side with
  | filesystem =>
    have hside : s.side = .database := by
      simp only [Side.other, Side.stores, mem_cons, not_mem_nil, or_false] at hs
      rcases hs with rfl | rfl <;> rfl
    exact h s hside e he (Covers.refl _)
  | database =>
    rw [Side.other, Side.stores, mem_singleton] at hs
    subst hs
    exact h e he (Covers.refl _)

/-- What holds while the handler of a request is at work. -/
structure Serving (name : Name) (side : Side) (w : World) : Prop where
  separate : Separate w
  unsplit : Unsplit w
  clear : Clear w name side

/-- **An access keeps the sides separate.** -/
theorem Serving.touch {a s} (h : Serving name s.side w) :
    Serving name s.side (w.touch name true a s) := by
  constructor
  case separate =>
    intro s₁ hs₁ e he e' he'
    rcases mem_touch he with he | ⟨rfl, hname⟩
    · rcases mem_touch he' with he' | ⟨heq, hname'⟩
      · exact h.separate s₁ hs₁ e he e' he'
      · have hclear := h.clear
        rw [← heq] at hclear
        rw [hname']
        exact hclear s₁ hs₁ e he
    · have hclear := h.clear
      rw [hs₁] at hclear
      rcases mem_touch he' with he' | ⟨heq, -⟩
      · rw [hname]
        exact hclear e' he'
      · rw [← heq] at hs₁
        cases hs₁
  case unsplit =>
    intro ev hev
    rcases mem_cons.1 hev with rfl | hev
    · exact ⟨rfl, h.clear.no_content⟩
    · exact h.unsplit ev hev
  case clear =>
    have hclear := h.clear
    cases hside : s.side with
    | filesystem =>
      rw [hside] at hclear
      intro s₁ hs₁ e he
      rcases mem_touch he with he | ⟨rfl, -⟩
      · exact hclear s₁ hs₁ e he
      · cases hside.symm.trans hs₁
    | database =>
      rw [hside] at hclear
      intro e he
      rcases mem_touch he with he | ⟨rfl, -⟩
      · exact hclear e he
      · cases hside

theorem Serving.touches {ts : List (Access × Store)} (hts : ∀ t ∈ ts, t.2.side = side)
    (h : Serving name side w) :
    Serving name side (ts.foldl (fun w t => w.touch name true t.1 t.2) w) := by
  induction ts generalizing w with
  | nil => exact h
  | cons t ts ih =>
    obtain rfl := hts t mem_cons_self
    exact ih (fun t' ht' => hts t' (mem_cons_of_mem _ ht')) h.touch

theorem touches_side (cfg : Config) (context : Context) (r : Request)
    (hside : (Store.root context.repository).side = side)
    (hdatabase : context.useDatabase = true → side = .database) :
    ∀ t ∈ r.touches cfg context, t.2.side = side := by
  intro t ht
  obtain ⟨a, -, ht⟩ := mem_flatMap.1 ht
  obtain ⟨s, hs, rfl⟩ := mem_map.1 ht
  exact stores_side hside hdatabase a s hs

/-! ## Requests -/

/-- When a request is made: its existence check does not fail, or its handler does nothing. -/
def Admitted (_ : World) (r : Request) : Prop := r.fault = false ∨ r.accesses = []

/-- INTERNAL: a request splits no repository. -/
theorem dispatch_keeps {mirror : Bool} {r : Request} (hok : Admitted w r) (hsep : Separate w)
    (hun : Unsplit w) :
    Separate (dispatch ⟨true, true, mirror⟩ w r) ∧ Unsplit (dispatch ⟨true, true, mirror⟩ w r) := by
  rcases hok with hfault | hnothing
  · unfold dispatch
    rw [hfault]
    rcases prepare_cases mirror (w.entries (.root .old)) r.name with ⟨hfound, hctx⟩ | ⟨hnone, hctx⟩
    · have hclear : Clear w r.name .filesystem := by
        obtain ⟨e', he', hcovers⟩ := hfound
        exact fun s hs e he hname => hsep s hs e he e' he' (hname.trans hcovers)
      simp only [hctx]
      have hdone := Serving.touches (touches_side ⟨true, true, mirror⟩ ⟨false, true, .old, []⟩ r rfl
        (by simp)) ⟨hsep, hun, hclear⟩
      exact ⟨hdone.separate, hdone.unsplit⟩
    · have hclear : Clear w r.name .database := fun e he hcovers => hnone ⟨e, he, hcovers⟩
      simp only [hctx]
      have hdone := Serving.touches (touches_side ⟨true, true, mirror⟩
        ⟨true, !mirror, .migration, []⟩ r rfl fun _ => rfl) ⟨hsep, hun, hclear⟩
      exact ⟨hdone.separate, hdone.unsplit⟩
  · have hsame : dispatch ⟨true, true, mirror⟩ w r = w := by
      simp [dispatch, Request.touches, hnothing]
    rw [hsame]
    exact ⟨hsep, hun⟩

/-- **No repository is split**, in every run of admitted requests. -/
theorem migration_unsplit {mirror : Bool} {old : List Entry} {w : World}
    (h : Reach (step ⟨true, true, mirror⟩) Admitted (start old) w) : Unsplit w := by
  have hstart : Separate (start old) ∧ Unsplit (start old) := by
    refine ⟨fun s hs e he => ?_, fun ev hev => by cases hev⟩
    have hne : s ≠ .root .old := fun heq => by
      rw [heq] at hs
      cases hs
    simp only [start, hne, if_false] at he
    cases he
  have hkept : Separate w ∧ Unsplit w := by
    refine Reach.invariant (P := fun w => Separate w ∧ Unsplit w) hstart
      (fun w r w' _ hw hok hstep => ?_) h
    cases hstep
    exact dispatch_keeps hok hw.1 hw.2
  exact hkept.2

instance (w : World) (r : Request) : Decidable (Admitted w r) := inferInstanceAs (Decidable (_ ∨ _))

instance (w : World) : Decidable (Unsplit w) := inferInstanceAs (Decidable (∀ ev ∈ w.log, _))

theorem valid_a : Analysis.Paths.ValidName "a".toList := by decide +kernel

def layerOfA : Entry := ⟨⟨"a".toList, valid_a⟩, ⟨.layers, [], by simp⟩⟩

/-- The repository `a` is new, and is pushed to and read. -/
theorem migration_unsplit_pushed : ∃ w : World,
    Reach (step ⟨true, true, false⟩) Admitted (start []) w ∧
      w.log.map Event.store = [.database, .database, .root .migration] ∧ Unsplit w := by
  obtain ⟨w, hreach, hlog⟩ : ∃ w : World,
      Reach (step ⟨true, true, false⟩) Admitted (start []) w ∧
        w.log.map Event.store = [.database, .database, .root .migration] :=
    exists_reach [⟨layerOfA.name, false, [.linkBlob layerOfA.item]⟩,
      ⟨layerOfA.name, false, [.readMetadata]⟩] (by decide +kernel)
  exact ⟨w, hreach, hlog, migration_unsplit hreach⟩

/-- The repository `a` is in the database. The existence check of the next push fails, and it goes
to the old root, from where the repository is served then. -/
theorem failed_check_splits : ∃ w : World,
    Reach (step ⟨true, true, false⟩) (fun _ _ => True) (start []) w ∧
      ((∃ ev ∈ w.log, ev.decided = false ∧ ev.store = .root .old) ∧
        ∃ ev ∈ w.log, ev.decided = true ∧ ev.store = .root .old ∧ ev.split = true) :=
  exists_reach [⟨layerOfA.name, false, [.linkBlob layerOfA.item]⟩,
    ⟨layerOfA.name, true, [.linkBlob layerOfA.item]⟩, ⟨layerOfA.name, false, [.readMetadata]⟩]
    (by decide +kernel)

end ContainerRegistry.Analysis.Migrations
