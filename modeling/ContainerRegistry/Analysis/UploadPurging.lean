import ContainerRegistry.Analysis.SequentialWalks
import ContainerRegistry.Model.PurgeUploads

/-!
# What a purge deletes

The copy of an entry that a callback holds is the entry as it is now, and what it sets is that entry
with its own change (`callback_meets`), which stays (`Applied.insert`). Every path is seen or waits
below some goroutine (`Covers`).
-/

namespace ContainerRegistry.Analysis.PurgeUploads

open Library List
open Library.ObjectTree (mem_children occupied_of_read isDir_of_child)
open Model (Listing Request StorageError)
open Model.PurgeUploads
open Analysis.Offline (Visited Answered Listing.entering Listing.looking)

/-! ## Identifiers -/

theorem uuidFromComponents_false (cs : List Model.Paths.Str) :
    uuidFromComponents cs false = (uuidFromComponents cs true).map fun ub => (ub.1, false) := by
  induction cs with
  | nil => rfl
  | cons c cs ih =>
    unfold uuidFromComponents
    cases parseUUID c with
    | some u => rfl
    | none =>
      dsimp only
      rw [ih, Option.map_map]
      rfl

theorem parseUUID_startedat : parseUUID startedat = none := by decide

/-- No id starts with an underscore. -/
theorem parseUUID_underscore {c} (h : c.head? = some '_') : parseUUID c = none := by
  obtain ⟨s, rfl⟩ : ∃ s, c = '_' :: s := by
    cases c with
    | nil => cases h
    | cons a s =>
      cases h
      exact ⟨s, rfl⟩
  have hfield : scanField 4 ('_' :: s) = none := by
    simp [scanField, scanHex, hexDigit]
  unfold parseUUID
  split
  · rfl
  · rw [hfield]
    rfl

theorem uuidFromPath_startedat {d u} (h : uuidFromPath d = some (u, true)) :
    uuidFromPath (d ++ [startedat]) = some (u, false) := by
  unfold uuidFromPath at h ⊢
  rw [reverse_append, reverse_singleton, singleton_append, uuidFromComponents, parseUUID_startedat]
  dsimp only
  rw [uuidFromComponents_false, h]
  rfl

/-- The directory of an upload is not reserved. -/
theorem reserved_eq_false {d u} (h : uuidFromPath d = some (u, true)) : reserved d = false := by
  rcases eq_nil_or_concat d with rfl | ⟨d, c, rfl⟩
  · rfl
  rw [concat_eq_append] at h ⊢
  have hfile : file (d ++ [c]) = c := by simp [file]
  unfold reserved
  rw [hfile, Bool.and_eq_false_iff, decide_eq_false_iff_not]
  refine .inl fun hhead => ?_
  unfold uuidFromPath at h
  rw [reverse_append, reverse_singleton, singleton_append, uuidFromComponents,
    parseUUID_underscore hhead] at h
  dsimp only at h
  rw [uuidFromComponents_false, Option.map_eq_some_iff] at h
  obtain ⟨ub, -, hub⟩ := h
  cases hub

/-! ## Uploads -/

section Walks

variable {κ : Type} (ℓ : Listing Model.Paths.Str κ) (T : ObjectTree Model.Paths.Str κ)
  (fails : Request Model.Paths.Str → Bool) (parseTime : κ → Option ℕ)

def enters (path : Path) : Bool := !reserved path

abbrev Seen (path : Path) : Prop := Visited T enters root path

def startedTime (path : Path) : Option ℕ :=
  (if fails (.read path) then none else T.read path).bind parseTime

/-- An upload: a directory that is named by an identifier, and a file `startedat` in it that can be
read. -/
structure Upload (dir : Path) (startedAt : ℕ) : Prop where
  seen : Seen T dir
  named : ∃ u, uuidFromPath dir = some (u, true)
  started : startedTime T fails parseTime (dir ++ [startedat]) = some startedAt

/-- Each identifier is the name of one path, the readable files `startedat` are in the directories
so named, and no upload is in another. -/
structure Tidy : Prop where
  single : ∀ {p q : Path} {u : UUID}, Seen T p → Seen T q → uuidFromPath p = some (u, true) →
    uuidFromPath q = some (u, true) → p = q
  direct : ∀ {p : Path} {u : UUID} {b : Bool} {t : ℕ}, Seen T p → file p = startedat →
    startedTime T fails parseTime p = some t → uuidFromPath p = some (u, b) →
    ∃ d, Seen T d ∧ p = d ++ [startedat] ∧ uuidFromPath d = some (u, true)
  apart : ∀ {d d' : Path} {t t' : ℕ}, Upload T fails parseTime d t →
    Upload T fails parseTime d' t' → d <+: d' → d = d'

variable {T fails parseTime}

/-- The walk sees `startedat`. -/
theorem Upload.seen_startedat {d t} (h : Upload T fails parseTime d t) :
    Seen T (d ++ [startedat]) := by
  obtain ⟨u, hu⟩ := h.named
  refine Visited.deeper h.seen ?_ ?_
  · rw [enters, reserved_eq_false hu]
    rfl
  · have hstarted := h.started
    unfold startedTime at hstarted
    obtain ⟨content, hcontent, -⟩ := Option.bind_eq_some_iff.1 hstarted
    split at hcontent
    · cases hcontent
    · exact mem_children.2 (occupied_of_read hcontent)

/-! ## The callback -/

/-- How far a callback is. `holding` is the entry it has read. -/
inductive Phase where
  | before
  | holding (found : Option UploadData)
  | after

variable (fails parseTime) in
/-- What a callback sets: the entry it has read, or a new one, with its change. -/
def Updates (T : ObjectTree Model.Paths.Str κ) (far : ℕ) (path : Path) (isContainingDir : Bool)
    (found : Option UploadData) (data : UploadData) : Prop :=
  ∃ base : UploadData, (found = some base ∨ found = none ∧ far ≤ base.startedAt) ∧
    data.containingDir = (if isContainingDir then path else base.containingDir) ∧
    data.startedAt = if file path = startedat then
      (startedTime T fails parseTime path).getD base.startedAt else base.startedAt

variable (T fails parseTime) in
def rules (started : ℕ) (path : Path) (uuid : UUID) (isContainingDir : Bool) :
    Program.Rules Op (Op.Answer κ) Phase where
  asks phase op :=
    match phase, op with
    | .before, .get u => u = uuid
    | .holding _, .now => True
    | .holding _, .getContent p => p = path
    | .holding _, .report _ => True
    | .holding found, .set u data =>
      u = uuid ∧ Updates fails parseTime T (started + farAway) path isContainingDir found data
    | _, _ => False
  allowed _ op answer :=
    match op, answer with
    | .now, now => started ≤ now
    | .getContent p, content => content = if fails (.read p) then none else T.read p
    | _, _ => True
  told phase op answer :=
    match op, answer with
    | .get _, found => .holding found
    | .set _ _, _ => .after
    | _, _ => phase

/-- The callback has set its entry, and does not skip. -/
def Ends (phase : Phase) (skip : Bool) : Prop := phase = .after ∧ skip = false

variable {started : ℕ} {path : Path} {uuid : UUID} {isContainingDir : Bool}

theorem getOrNew_meets :
    (getOrNew uuid).Meets (rules T fails parseTime started path uuid isContainingDir)
      (fun phase ud => ∃ found, phase = .holding found ∧
        (found = some ud ∨ found = none ∧ started + farAway ≤ ud.startedAt)) .before := by
  refine ⟨rfl, fun found _ => ?_⟩
  cases found with
  | some ud => exact ⟨some ud, rfl, .inl rfl⟩
  | none => exact ⟨trivial, fun now hnow => ⟨none, rfl, .inr ⟨rfl, Nat.add_le_add_right hnow _⟩⟩⟩

theorem readStartedAtFile_meets {found} :
    (readStartedAtFile parseTime path).Meets
      (rules T fails parseTime started path uuid isContainingDir)
      (fun phase res => phase = .holding found ∧ res = startedTime T fails parseTime path)
      (.holding found) := by
  refine ⟨rfl, fun content hcontent => ⟨rfl, ?_⟩⟩
  have hcontent : content = if fails (.read path) then none else T.read path := hcontent
  rw [startedTime, ← hcontent]

theorem scanStartedAt_meets {found} (ud : UploadData) :
    (scanStartedAt parseTime path ud).Meets
      (rules T fails parseTime started path uuid isContainingDir)
      (fun phase data => phase = .holding found ∧ data.containingDir = ud.containingDir ∧
        data.startedAt = if file path = startedat then
          (startedTime T fails parseTime path).getD ud.startedAt else ud.startedAt)
      (.holding found) := by
  unfold scanStartedAt
  split
  next hfile =>
    refine Program.Meets.bind readStartedAtFile_meets fun phase res hres => ?_
    obtain ⟨rfl, rfl⟩ := hres
    cases startedTime T fails parseTime path with
    | some t => exact ⟨rfl, rfl, rfl⟩
    | none => exact ⟨trivial, fun _ _ => ⟨rfl, rfl, rfl⟩⟩
  next hfile => exact ⟨rfl, rfl, rfl⟩

/-- INTERNAL: **the callback** reads the entry of its upload, and sets it with its change. -/
theorem callback_meets (huuid : uuidFromPath path = some (uuid, isContainingDir)) {isDir}
    (hskip : (reserved path && isDir) = false) :
    (callback parseTime path isDir).Meets
      (rules T fails parseTime started path uuid isContainingDir) Ends .before := by
  unfold callback
  rw [hskip, huuid]
  refine Program.Meets.bind getOrNew_meets fun phase ud hud => ?_
  obtain ⟨found, rfl, hbase⟩ := hud
  refine Program.Meets.bind (scanStartedAt_meets _) fun phase data hdata => ?_
  obtain ⟨rfl, hdir, htime⟩ := hdata
  refine ⟨⟨rfl, ud, hbase, ?_, ?_⟩, fun _ _ => ⟨rfl, rfl⟩⟩
  · rw [hdir]
    split <;> rfl
  · rw [htime]
    split <;> split <;> rfl

/-! ## The map -/

abbrev Members := AList fun _ : UUID => UploadData

variable (T fails parseTime) in
structure Applied (members : Members) (path : Path) : Prop where
  dir : ∀ {u : UUID}, uuidFromPath path = some (u, true) →
    ∃ ud, members.lookup u = some ud ∧ ud.containingDir = path
  time : ∀ {u : UUID} {b : Bool} {t : ℕ}, uuidFromPath path = some (u, b) → file path = startedat →
    startedTime T fails parseTime path = some t →
    ∃ ud, members.lookup u = some ud ∧ ud.startedAt = t

variable (T fails parseTime) in
/-- An entry has the date of a new one, or that of a file. -/
def Explained (started : ℕ) (members : Members) : Prop :=
  ∀ u ud, members.lookup u = some ud → started + farAway ≤ ud.startedAt ∨
    ∃ p b, Seen T p ∧ file p = startedat ∧ uuidFromPath p = some (u, b) ∧
      startedTime T fails parseTime p = some ud.startedAt

section Inserts

variable {members : Members} {data : UploadData}
  (huuid : uuidFromPath path = some (uuid, isContainingDir))
  (hupdates : Updates fails parseTime T (started + farAway) path isContainingDir
    (members.lookup uuid) data)
include huuid hupdates

/-- INTERNAL: **a change that has been made stays**, whatever callback sets the entry next. -/
theorem Applied.insert (htidy : Tidy T fails parseTime) {p}
    (h : Applied T fails parseTime members p) (hp : Seen T p) (hpath : Seen T path) :
    Applied T fails parseTime (members.insert uuid data) p := by
  obtain ⟨base, hbase, hdir, htime⟩ := hupdates
  have hold : ∀ {ud}, members.lookup uuid = some ud → ud = base := by
    intro ud hud
    rcases hbase with heq | ⟨heq, -⟩
    · exact Option.some.inj (hud.symm.trans heq)
    · rw [heq] at hud
      cases hud
  constructor
  · intro u hu
    obtain ⟨ud, hud, hcontaining⟩ := h.dir hu
    by_cases heq : u = uuid
    · subst heq
      refine ⟨data, AList.lookup_insert _, ?_⟩
      rw [hdir, ← hold hud, hcontaining]
      split
      next hcontains => exact htidy.single hpath hp (by rw [huuid, hcontains]) hu
      next => rfl
    · exact ⟨ud, (AList.lookup_insert_ne heq).trans hud, hcontaining⟩
  · intro u b t hu hfile ht
    obtain ⟨ud, hud, hstarted⟩ := h.time hu hfile ht
    by_cases heq : u = uuid
    · subst heq
      refine ⟨data, AList.lookup_insert _, ?_⟩
      rw [htime, ← hold hud, hstarted]
      split
      next hfile' =>
        cases ht' : startedTime T fails parseTime path with
        | none => rfl
        | some t' =>
          -- both are the file of the one directory with this identifier
          obtain ⟨d, hd, rfl, hdu⟩ := htidy.direct hp hfile ht hu
          obtain ⟨d', hd', rfl, hdu'⟩ := htidy.direct hpath hfile' ht' huuid
          rw [htidy.single hd' hd hdu' hdu, ht] at ht'
          exact (Option.some.inj ht').symm
      next => rfl
    · exact ⟨ud, (AList.lookup_insert_ne heq).trans hud, hstarted⟩

/-- The upload has been looked at. -/
theorem applied_insert_self : Applied T fails parseTime (members.insert uuid data) path := by
  obtain ⟨base, -, hdir, htime⟩ := hupdates
  constructor
  · intro u hu
    cases huuid.symm.trans hu
    exact ⟨data, AList.lookup_insert _, hdir⟩
  · intro u b t hu hfile ht
    cases huuid.symm.trans hu
    refine ⟨data, AList.lookup_insert _, ?_⟩
    rw [htime, if_pos hfile, ht]
    rfl

/-- An entry is explained by its path. -/
theorem Explained.insert (h : Explained T fails parseTime started members) (hpath : Seen T path) :
    Explained T fails parseTime started (members.insert uuid data) := by
  obtain ⟨base, hbase, -, htime⟩ := hupdates
  intro u ud hud
  by_cases heq : u = uuid
  · subst heq
    rw [AList.lookup_insert] at hud
    cases hud
    have hold : started + farAway ≤ base.startedAt ∨
        ∃ p b, Seen T p ∧ file p = startedat ∧ uuidFromPath p = some (u, b) ∧
          startedTime T fails parseTime p = some base.startedAt := by
      rcases hbase with hbase | ⟨-, hfar⟩
      · exact h u base hbase
      · exact .inl hfar
    rw [htime]
    split
    next hfile =>
      cases ht : startedTime T fails parseTime path with
      | none => exact hold
      | some t => exact .inr ⟨path, isContainingDir, hpath, hfile, huuid, ht⟩
    next => exact hold
  · rw [AList.lookup_insert_ne heq] at hud
    exact h u ud hud

end Inserts

/-! ## Goroutines -/

def Phase.reading (uuid : UUID) : Phase → Option UUID
  | .holding _ => some uuid
  | _ => none

variable (T fails parseTime) in
/-- What is true of the map in a phase of a callback. -/
def Phase.Holds (members : Members) (path : Path) (uuid : UUID) : Phase → Prop
  | .before => True
  | .holding found => members.lookup uuid = found
  | .after => Applied T fails parseTime members path

variable (T) in
def Silent (path : Path) : Prop := (reserved path && T.isDir path) = true ∨ uuidFromPath path = none

variable (T fails parseTime) in
def Sane (started : ℕ) (members : Members) : Goroutine κ → Prop
  | .list p page =>
    (p = root ∨ Seen T p ∧ enters p = true ∧ T.isDir p = true) ∧ page < (ℓ.pages T p).length
  | .visit p => Seen T p
  | .run p reading rest => Seen T p ∧
    (Silent T p ∧ reading = none ∧ rest = .done (reserved p && T.isDir p) ∨
      (reserved p && T.isDir p) = false ∧ ∃ uuid b phase, uuidFromPath p = some (uuid, b) ∧
        rest.Meets (rules T fails parseTime started p uuid b) Ends phase ∧
        reading = phase.reading uuid ∧ phase.Holds T fails parseTime members p uuid)

variable (T) in
/-- A path is seen by the goroutine or by one that it leads to. -/
def Covers : Goroutine κ → Path → Prop
  | .list q page, p => ∃ page' names c r, page ≤ page' ∧ (ℓ.pages T q)[page']? = some names ∧
      c ∈ names ∧ p = q ++ c :: r
  | .visit q, p => q <+: p
  | .run q _ _, p => q <+: p

variable (T fails parseTime) in
structure Inv (started : ℕ) (σ : State κ) : Prop where
  clock : started ≤ σ.now
  opened : (∃ p, Seen T p) → σ.walkErrors = [] ∧ σ.closed = false
  sane : ∀ g ∈ σ.goroutines, Sane ℓ T fails parseTime started σ.members g
  alone : (σ.goroutines.filterMap Goroutine.reading).Nodup
  covered : ∀ p, Seen T p → Applied T fails parseTime σ.members p ∨
    ∃ g ∈ σ.goroutines, Covers ℓ T g p
  explained : Explained T fails parseTime started σ.members

/-- Other paths change nothing. -/
theorem applied_of_silent {members} (h : Silent T path) :
    Applied T fails parseTime members path := by
  constructor
  · intro u hu
    rcases h with h | h
    · rw [reserved_eq_false hu] at h
      cases h
    · rw [h] at hu
      cases hu
  · intro u b t hu hfile _
    rcases h with h | h
    · have hreserved : reserved path = false := by
        rw [reserved, hfile]
        decide
      rw [hreserved] at h
      cases h
    · rw [h] at hu
      cases hu

/-- INTERNAL: **what one turn of a goroutine has to keep.** It makes room for `spawned`. -/
theorem Inv.turn {σ σ' i g} (spawned : List (Goroutine κ))
    (h : Inv ℓ T fails parseTime started σ) (hi : σ.goroutines[i]? = some g)
    (hnext : σ'.goroutines = spawned ++ σ.goroutines.eraseIdx i) (hnow : σ'.now = σ.now)
    (hopened : (∃ p, Seen T p) → σ'.walkErrors = [] ∧ σ'.closed = false)
    (hspawned : ∀ s ∈ spawned, Sane ℓ T fails parseTime started σ'.members s)
    (hothers : ∀ s ∈ σ.goroutines.eraseIdx i, Sane ℓ T fails parseTime started σ.members s →
      Sane ℓ T fails parseTime started σ'.members s)
    (halone : ((spawned ++ σ.goroutines.eraseIdx i).filterMap Goroutine.reading).Nodup)
    (happlied : ∀ p, Seen T p → Applied T fails parseTime σ.members p →
      Applied T fails parseTime σ'.members p)
    (hcovers : ∀ p, Seen T p → Covers ℓ T g p → Applied T fails parseTime σ'.members p ∨
      ∃ s ∈ spawned, Covers ℓ T s p)
    (hexplained : Explained T fails parseTime started σ'.members) :
    Inv ℓ T fails parseTime started σ' where
  clock := hnow ▸ h.clock
  opened := hopened
  sane s hs := by
    rw [hnext] at hs
    rcases mem_append.1 hs with hs | hs
    · exact hspawned s hs
    · exact hothers s hs (h.sane s (mem_of_mem_eraseIdx hs))
  alone := hnext ▸ halone
  covered p hp := by
    rw [hnext]
    rcases h.covered p hp with happ | ⟨s, hs, hcover⟩
    · exact .inl (happlied p hp happ)
    · rcases eq_or_mem_eraseIdx hi hs with rfl | hs
      · rcases hcovers p hp hcover with happ | ⟨s', hs', hcover'⟩
        · exact .inl happ
        · exact .inr ⟨s', mem_append_left _ hs', hcover'⟩
      · exact .inr ⟨s, mem_append_right _ hs, hcover⟩
  explained := hexplained

variable {σ : State κ}

theorem Inv.spawn {i g spawned}
    (h : Inv ℓ T fails parseTime started σ) (hi : σ.goroutines[i]? = some g)
    (hspawned : ∀ s ∈ spawned, Sane ℓ T fails parseTime started σ.members s)
    (hreading : ∀ s ∈ spawned, s.reading = none)
    (hcovers : ∀ p, Seen T p → Covers ℓ T g p → Applied T fails parseTime σ.members p ∨
      ∃ s ∈ spawned, Covers ℓ T s p) : Inv ℓ T fails parseTime started (σ.after i spawned) := by
  refine h.turn ℓ spawned hi rfl rfl h.opened hspawned (fun _ _ hs => hs) ?_ (fun _ _ hp => hp)
    hcovers h.explained
  rw [filterMap_append, filterMap_eq_nil_iff.2 hreading, nil_append]
  exact h.alone.sublist ((eraseIdx_sublist _ _).filterMap _)

/-! ## Turns -/

/-- All directories above are entered. -/
theorem enters_of_seen {p q} (hq : Seen T q) : ∀ {c r}, q = p ++ c :: r → Seen T p →
    enters p = true := by
  induction hq with
  | child hc =>
    intro c r heq hp
    obtain ⟨-, c', r', rfl⟩ := hp.isBelow
    have hlength := congrArg List.length heq
    simp only [length_append, length_cons, length_nil] at hlength
    omega
  | deeper hp' henter hc ih =>
    intro c r heq hp
    rcases eq_nil_or_concat r with rfl | ⟨r', c', rfl⟩
    · obtain ⟨rfl, -⟩ := append_inj' heq rfl
      exact henter
    · rw [concat_eq_append, ← cons_append, ← append_assoc] at heq
      obtain ⟨hpre, -⟩ := append_inj' heq rfl
      exact ih hpre hp

theorem isDir_root (h : Seen T path) : T.isDir root = true := by
  obtain ⟨c, hc, -⟩ := h.cases_head
  exact isDir_of_child hc

section Turns

variable {σ : State κ} {i : ℕ} {p : Path} {page : ℕ} (h : Inv ℓ T fails parseTime started σ)
  (hanswered : Answered ℓ T fails enters root)

include h hanswered in
/-- A page is listed. -/
theorem go_list (hi : σ.goroutines[i]? = some (.list p page)) :
    Inv ℓ T fails parseTime started (σ.go ℓ T fails parseTime i (.list p page)) := by
  obtain ⟨hplace, hpage⟩ := h.sane _ (mem_of_getElem? hi)
  have hanswer : fails (.list p page) = false := by
    rcases hplace with rfl | ⟨hp, henter, hdir⟩
    · exact hanswered.listed _ (Offline.mem_entering.2 ⟨page, hpage, rfl⟩)
    · exact hanswered.entered p hp hdir henter _ (Offline.mem_entering.2 ⟨page, hpage, rfl⟩)
  unfold State.go
  dsimp only
  split
  next hclosed =>
    refine h.spawn ℓ hi (by simp) (by simp) fun q hq _ => ?_
    rw [(h.opened ⟨q, hq⟩).2] at hclosed
    cases hclosed
  rw [if_neg (by simp [hanswer])]
  split
  next hstrict =>
    -- only the root may be missing, and then there is nothing to see
    have hmissing : T.isDir root = false := by
      rw [Bool.and_eq_true, Bool.not_eq_true'] at hstrict
      rcases hplace with rfl | ⟨-, -, hdir⟩
      · exact hstrict.2
      · rw [hdir] at hstrict
        cases hstrict.2
    have hnone : ∀ q, ¬ Seen T q := by
      intro q hq
      rw [isDir_root hq] at hmissing
      cases hmissing
    refine h.turn ℓ [] hi rfl rfl (fun hseen => (hseen.elim hnone).elim)
      (by simp) (fun _ _ hs => hs) ?_ (fun _ _ hp => hp)
      (fun q hq _ => (hnone q hq).elim) h.explained
    exact h.alone.sublist ((eraseIdx_sublist _ _).filterMap _)
  next =>
    have hget : (ℓ.pages T p)[page]? = some (ℓ.pages T p)[page] := List.getElem?_eq_getElem hpage
    refine h.spawn ℓ hi (fun s hs => ?_) (fun s hs => ?_) fun q hq hcover => ?_
    · rcases mem_append.1 hs with hs | hs
      · obtain ⟨c, hc, rfl⟩ := mem_map.1 hs
        rw [hget, Option.getD_some] at hc
        have hchild : c ∈ T.children p := (ℓ.mem_pages T p c).1 ⟨_, getElem_mem hpage, hc⟩
        rcases hplace with rfl | ⟨hp, henter, -⟩
        · exact Visited.child hchild
        · exact Visited.deeper hp henter hchild
      · obtain ⟨hmore, hs⟩ := mem_ite_nil_right.1 hs
        cases mem_singleton.1 hs
        exact ⟨hplace, hmore⟩
    · rcases mem_append.1 hs with hs | hs
      · obtain ⟨c, -, rfl⟩ := mem_map.1 hs
        rfl
      · cases mem_singleton.1 (mem_ite_nil_right.1 hs).2
        rfl
    · obtain ⟨page', names, c, r, hle, hnames, hc, rfl⟩ := hcover
      refine .inr ?_
      rcases Nat.eq_or_lt_of_le hle with rfl | hlt
      · refine ⟨.visit (p ++ [c]), mem_append_left _ (mem_map.2 ⟨c, ?_, rfl⟩), ?_⟩
        · rw [hnames, Option.getD_some]
          exact hc
        · exact ⟨r, by simp⟩
      · have hlength : page' < (ℓ.pages T p).length := (List.getElem?_eq_some_iff.1 hnames).1
        refine ⟨.list p (page + 1), mem_append_right _ ?_, page', names, c, r, hlt, hnames, hc, rfl⟩
        rw [if_pos (by omega)]
        exact mem_singleton.2 rfl

include h hanswered in
/-- A path is visited. -/
theorem go_visit (hi : σ.goroutines[i]? = some (.visit p)) :
    Inv ℓ T fails parseTime started (σ.go ℓ T fails parseTime i (.visit p)) := by
  have hp : Seen T p := h.sane _ (mem_of_getElem? hi)
  have hanswer : ¬ (ℓ.stats && fails (.stat p)) = true := by
    intro hfail
    rw [Bool.and_eq_true] at hfail
    have hlooked := hanswered.looked p hp (.stat p) (by simp [Listing.looking, hfail.1])
    rw [hfail.2] at hlooked
    cases hlooked
  have hthere : ¬ (ℓ.stats && !T.occupied p) = true := by
    rw [hp.isBelow.1]
    simp
  rw [State.go, if_neg hanswer, if_neg hthere]
  refine h.spawn ℓ hi (fun s hs => ?_) (fun s hs => ?_) fun q hq hcover => ?_
  · cases mem_singleton.1 hs
    refine ⟨hp, ?_⟩
    by_cases hskip : (reserved p && T.isDir p) = true
    · refine .inl ⟨.inl hskip, rfl, ?_⟩
      rw [callback, if_pos hskip, hskip]
      rfl
    rw [Bool.not_eq_true] at hskip
    cases huuid : uuidFromPath p with
    | none =>
      refine .inl ⟨.inr huuid, rfl, ?_⟩
      rw [callback, hskip, huuid]
      rfl
    | some ub =>
      exact .inr ⟨hskip, ub.1, ub.2, .before, rfl, callback_meets huuid hskip, rfl, trivial⟩
  · cases mem_singleton.1 hs
    rfl
  · exact .inr ⟨_, mem_singleton.2 rfl, hcover⟩

include h in
/-- A callback ends. -/
theorem go_done {reading skip} (hi : σ.goroutines[i]? = some (.run p reading (.done skip))) :
    Inv ℓ T fails parseTime started (σ.go ℓ T fails parseTime i (.run p reading (.done skip))) := by
  obtain ⟨hp, hrun⟩ := h.sane _ (mem_of_getElem? hi)
  have hskip : skip = (reserved p && T.isDir p) := by
    rcases hrun with ⟨-, -, hrest⟩ | ⟨hskip, uuid, b, phase, -, hmeets, -⟩
    · exact Program.done.inj hrest
    · exact hmeets.2.trans hskip.symm
  have happlied : Applied T fails parseTime σ.members p := by
    rcases hrun with ⟨hsilent, -⟩ | ⟨-, uuid, b, phase, -, hmeets, -, hholds⟩
    · exact applied_of_silent hsilent
    · have hphase : phase = .after := hmeets.1
      subst hphase
      exact hholds
  rw [State.go]
  refine h.spawn ℓ hi (fun s hs => ?_) (fun s hs => ?_) fun q hq hcover => ?_
  · obtain ⟨henter, hs⟩ := mem_ite_nil_right.1 hs
    cases mem_singleton.1 hs
    rw [Bool.and_eq_true, Bool.not_eq_true'] at henter
    refine ⟨.inr ⟨hp, ?_, henter.2⟩, length_pos_of_ne_nil (ℓ.pages_ne_nil T p)⟩
    rw [henter.1, henter.2, Bool.and_true] at hskip
    rw [enters, ← hskip]
    rfl
  · cases mem_singleton.1 (mem_ite_nil_right.1 hs).2
    rfl
  · obtain ⟨r, rfl⟩ := hcover
    cases r with
    | nil => exact .inl (by rwa [append_nil])
    | cons c r =>
      have hocc : T.occupied (p ++ c :: r) = true := hq.isBelow.1
      have henter : enters p = true := enters_of_seen hq rfl hp
      have hreserved : reserved p = false := by simpa [enters] using henter
      have hdir : T.isDir p = true := ObjectTree.isDir_of_below hocc
      have hchild : c ∈ T.children p := by
        refine mem_children.2 (ObjectTree.occupied_of_append (q := r) ?_)
        rwa [append_assoc]
      obtain ⟨names, hnames, hc⟩ := (ℓ.mem_pages T p c).2 hchild
      obtain ⟨page', hpage'⟩ := mem_iff_getElem?.1 hnames
      rw [hskip, hreserved, hdir]
      exact .inr ⟨_, mem_singleton.2 rfl, page', names, c, r, Nat.zero_le _, hpage', hc, rfl⟩

omit h in
theorem alone_erase {l : List (Goroutine κ)} {g : Goroutine κ} (hi : l[i]? = some g)
    (halone : (l.filterMap Goroutine.reading).Nodup) :
    ((g :: l.eraseIdx i).filterMap Goroutine.reading).Nodup := by
  obtain ⟨hlt, rfl⟩ := List.getElem?_eq_some_iff.1 hi
  exact ((getElem_cons_eraseIdx_perm hlt).filterMap _).nodup_iff.2 halone

omit h in
/-- It goes on, -/
theorem Inv.resume {σ' : State κ} {reading reading' : Option UUID} {rest rest' : Callback κ Bool}
    (h : Inv ℓ T fails parseTime started σ) (hi : σ.goroutines[i]? = some (.run p reading rest))
    (hgoroutines : σ'.goroutines = σ.goroutines) (hmembers : σ'.members = σ.members)
    (hnow : σ'.now = σ.now)
    (herrors : σ'.walkErrors = σ.walkErrors) (hclosed : σ'.closed = σ.closed)
    (hsane : Sane ℓ T fails parseTime started σ.members (.run p reading' rest'))
    (halone : ∀ uuid, reading' = some uuid → reading = some uuid ∨
      ∀ g ∈ σ.goroutines, g.reading ≠ some uuid) :
    Inv ℓ T fails parseTime started (σ'.after i [.run p reading' rest']) := by
  have hold := alone_erase hi h.alone
  refine h.turn ℓ [.run p reading' rest'] hi ?_ hnow ?_ (fun s hs => ?_)
    (fun _ _ hs => ?_) ?_ (fun _ _ hp => ?_)
    (fun q _ hcover => .inr ⟨_, mem_singleton.2 rfl, hcover⟩) ?_
  · rw [State.after, hgoroutines]
  · rw [State.after, herrors, hclosed]
    exact h.opened
  · cases mem_singleton.1 hs
    rw [State.after, hmembers]
    exact hsane
  · rw [State.after, hmembers]
    exact hs
  · have hrest := h.alone.sublist ((eraseIdx_sublist σ.goroutines i).filterMap _)
    cases reading' with
    | none => exact hrest
    | some uuid =>
      refine nodup_cons.2 ⟨fun hmem => ?_, hrest⟩
      rcases halone uuid rfl with rfl | hfree
      · exact (nodup_cons.1 hold).1 hmem
      · obtain ⟨g, hg, hreading⟩ := mem_filterMap.1 hmem
        exact hfree g (mem_of_mem_eraseIdx hg) hreading
  · rw [State.after, hmembers]
    exact hp
  · rw [State.after, hmembers]
    exact h.explained

omit h in
/-- with its entry set, -/
theorem Sane.insert {members : Members} {data : UploadData} {l : List (Goroutine κ)}
    {g : Goroutine κ} (hg : Sane ℓ T fails parseTime started members g) (hmem : g ∈ l)
    (hothers : uuid ∉ l.filterMap Goroutine.reading)
    (happlied : ∀ q, Seen T q → Applied T fails parseTime members q →
      Applied T fails parseTime (members.insert uuid data) q) :
    Sane ℓ T fails parseTime started (members.insert uuid data) g := by
  cases g with
  | list q page | visit q => exact hg
  | run q reading rest =>
    obtain ⟨hq, hsilent | ⟨hskip, v, b, phase, hv, hmeets, hreading, hholds⟩⟩ := hg
    · exact ⟨hq, .inl hsilent⟩
    refine ⟨hq, .inr ⟨hskip, v, b, phase, hv, hmeets, hreading, ?_⟩⟩
    cases phase with
    | before => trivial
    | holding found =>
      have hne : v ≠ uuid := by
        rintro rfl
        exact hothers (mem_filterMap.2 ⟨_, hmem, hreading⟩)
      exact (AList.lookup_insert_ne hne).trans hholds
    | after => exact happlied q hq hholds

include h in
/-- INTERNAL: after an answer. -/
theorem go_ask {reading : Option UUID} {op : Op} {next : op.Answer κ → Callback κ Bool}
    (hi : σ.goroutines[i]? = some (.run p reading (.ask op next))) (htidy : Tidy T fails parseTime)
    (hexclusive : ∀ uuid, op = .get uuid → ∀ g ∈ σ.goroutines, g.reading ≠ some uuid) :
    Inv ℓ T fails parseTime started
      (σ.go ℓ T fails parseTime i (.run p reading (.ask op next))) := by
  obtain ⟨hp, ⟨-, -, hrest⟩ | ⟨hskip, uuid, b, phase, huuid, hmeets, hreading, hholds⟩⟩ :=
    h.sane _ (mem_of_getElem? hi)
  · cases hrest
  -- a callback that goes on in the phase it is in
  have hsane : ∀ {phase' rest'},
      rest'.Meets (rules T fails parseTime started p uuid b) Ends phase' →
      phase'.Holds T fails parseTime σ.members p uuid →
      Sane ℓ T fails parseTime started σ.members (.run p (phase'.reading uuid) rest') :=
    fun hmeets hholds => ⟨hp, .inr ⟨hskip, uuid, b, _, huuid, hmeets, rfl, hholds⟩⟩
  rw [State.go]
  cases op with
  | get u =>
    cases phase with
    | before =>
      obtain rfl : u = uuid := hmeets.1
      exact h.resume ℓ hi rfl rfl rfl rfl rfl (hsane (hmeets.answer trivial) rfl)
        fun v hv => .inr (hexclusive v (congrArg Op.get (Option.some.inj hv)))
    | holding _ | after => exact hmeets.1.elim
  | now | getContent | report =>
    cases phase with
    | holding found =>
      subst hreading
      refine h.resume ℓ hi rfl rfl rfl rfl rfl (hsane (hmeets.answer ?_) hholds) fun v hv => .inl hv
      first | exact h.clock | rfl | trivial
    | before | after => exact hmeets.1.elim
  | set u data =>
    cases phase with
    | holding found =>
      obtain ⟨rfl, hupdates⟩ := hmeets.1
      have hlookup : σ.members.lookup u = found := hholds
      rw [← hlookup] at hupdates
      have hothers := (nodup_cons.1 (hreading ▸ alone_erase hi h.alone)).1
      refine h.turn ℓ [.run p none (next ())] hi rfl rfl h.opened (fun s hs => ?_)
        (fun s hs hsane => ?_) ?_
        (fun q hq happ => happ.insert huuid hupdates htidy hq hp)
        (fun q _ hcover => .inr ⟨_, mem_singleton.2 rfl, hcover⟩)
        (h.explained.insert huuid hupdates hp)
      · cases mem_singleton.1 hs
        exact ⟨hp, .inr ⟨hskip, u, b, .after, huuid, hmeets.answer trivial, rfl,
          applied_insert_self huuid hupdates⟩⟩
      · exact hsane.insert ℓ hs hothers fun q hq happ => happ.insert huuid hupdates htidy hq hp
      · exact h.alone.sublist ((eraseIdx_sublist σ.goroutines i).filterMap _)
    | before | after => exact hmeets.1.elim

end Turns

/-! ## Runs -/

def wants : Goroutine κ → Option UUID
  | .run _ _ (.ask (.get uuid) _) => some uuid
  | _ => none

def wanted (σ : State κ) : Action → Option UUID
  | .go i => σ.goroutines[i]?.bind wants
  | _ => none

/-- **The condition on the steps.** No callback reads an entry that another one has read and not
yet set. -/
def Exclusive (σ : State κ) (a : Action) : Prop :=
  ∀ uuid ∈ wanted σ a, ∀ g ∈ σ.goroutines, g.reading ≠ some uuid

instance (σ : State κ) (a : Action) : Decidable (Exclusive σ a) :=
  inferInstanceAs (Decidable (∀ uuid ∈ wanted σ a, ∀ g ∈ σ.goroutines, g.reading ≠ some uuid))

/-- At the start. -/
theorem inv_init : Inv ℓ T fails parseTime started (State.init started) where
  clock := Nat.le_refl _
  opened _ := ⟨rfl, rfl⟩
  sane g hg := by
    rw [mem_singleton.1 hg]
    exact ⟨.inl rfl, length_pos_of_ne_nil (ℓ.pages_ne_nil T root)⟩
  alone := nodup_nil
  covered p hp := by
    obtain ⟨-, c, r, rfl⟩ := hp.isBelow
    have hchild : c ∈ T.children root := by
      obtain ⟨c', hc', hcases⟩ := hp.cases_head
      rcases hcases with heq | ⟨-, hbelow⟩
      · cases append_cancel_left heq
        exact hc'
      · obtain ⟨-, d, r', heq⟩ := hbelow.isBelow
        rw [append_assoc] at heq
        cases append_cancel_left heq
        exact hc'
    obtain ⟨names, hnames, hc⟩ := (ℓ.mem_pages T root c).2 hchild
    obtain ⟨page, hpage⟩ := mem_iff_getElem?.1 hnames
    exact .inr ⟨_, mem_singleton.2 rfl, page, names, c, r, Nat.zero_le _, hpage, hc, rfl⟩
  explained u ud hud := by
    rw [State.init, AList.lookup_empty] at hud
    cases hud

/-- INTERNAL: every step of the walk. -/
theorem Inv.step {σ σ' a} (h : Inv ℓ T fails parseTime started σ)
    (hanswered : Answered ℓ T fails enters root) (htidy : Tidy T fails parseTime)
    (hexclusive : Exclusive σ a) (hstep : step ℓ T fails parseTime σ a = some σ') :
    Inv ℓ T fails parseTime started σ' := by
  cases a with
  | tick =>
    cases hstep
    exact { h with clock := Nat.le_succ_of_le h.clock }
  | close =>
    obtain ⟨herrors, ⟨⟩⟩ := Option.ite_none_left_eq_some.1 hstep
    refine { h with opened := fun hseen => ?_ }
    rw [(h.opened hseen).1] at herrors
    exact (herrors rfl).elim
  | go i =>
    obtain ⟨g, hi, rfl⟩ := Option.map_eq_some_iff.1 hstep
    cases g with
    | list p page => exact go_list ℓ h hanswered hi
    | visit p => exact go_visit ℓ h hanswered hi
    | run p reading rest =>
      cases rest with
      | done skip => exact go_done ℓ h hi
      | ask op next =>
        refine go_ask ℓ h hi htidy fun uuid hget => ?_
        subst hget
        refine hexclusive uuid ?_
        rw [wanted, hi]
        rfl

theorem inv_of_reach (hanswered : Answered ℓ T fails enters root) (htidy : Tidy T fails parseTime)
    (h : Reach (step ℓ T fails parseTime) Exclusive (State.init started) σ) :
    Inv ℓ T fails parseTime started σ :=
  Reach.invariant (P := Inv ℓ T fails parseTime started) (inv_init ℓ)
    (fun _ _ _ _ hinv hexclusive hstep => hinv.step ℓ hanswered htidy hexclusive hstep) h

variable {ℓ}

/-- At the end each upload has its entry. -/
theorem Inv.entry (h : Inv ℓ T fails parseTime started σ) (hend : σ.goroutines = []) {d t}
    (hupload : Upload T fails parseTime d t) :
    ∃ u, uuidFromPath d = some (u, true) ∧ σ.members.lookup u = some ⟨d, t⟩ := by
  have happlied : ∀ p, Seen T p → Applied T fails parseTime σ.members p := by
    intro p hp
    rcases h.covered p hp with happ | ⟨g, hg, -⟩
    · exact happ
    · rw [hend] at hg
      cases hg
  obtain ⟨u, hu⟩ := hupload.named
  obtain ⟨ud, hud, hdir⟩ := (happlied d hupload.seen).dir hu
  obtain ⟨ud', hud', htime⟩ := (happlied _ hupload.seen_startedat).time (uuidFromPath_startedat hu)
    (by simp [file]) hupload.started
  cases hud.symm.trans hud'
  refine ⟨u, hu, hud.trans ?_⟩
  rw [← hdir, ← htime]

/-- What is purged is an upload. -/
theorem Inv.upload (h : Inv ℓ T fails parseTime started σ) (htidy : Tidy T fails parseTime)
    (hend : σ.goroutines = []) {u ud} (hud : σ.members.lookup u = some ud)
    (hold : ud.startedAt < started + farAway) :
    Upload T fails parseTime ud.containingDir ud.startedAt := by
  rcases h.explained u ud hud with hfar | ⟨p, b, hp, hfile, hu, ht⟩
  · exact absurd hold (Nat.not_lt.2 hfar)
  obtain ⟨d, hd, rfl, hdu⟩ := htidy.direct hp hfile ht hu
  have hupload : Upload T fails parseTime d ud.startedAt := ⟨hd, ⟨u, hdu⟩, ht⟩
  obtain ⟨v, hv, hlookup⟩ := h.entry hend hupload
  cases hdu.symm.trans hv
  have hdir : d = ud.containingDir :=
    congrArg UploadData.containingDir (Option.some.inj (hlookup.symm.trans hud))
  exact hdir ▸ hupload

/-- What is purged. -/
theorem mem_purgeUploads {undeletable : Path → Bool} {olderThan actuallyDelete d}
    (uploads : List UploadData) (errs : List Err) :
    d ∈ (purgeUploads undeletable olderThan actuallyDelete uploads errs).1 ↔
      ∃ ud ∈ uploads, ud.containingDir = d ∧ ud.startedAt < olderThan ∧
        (actuallyDelete && undeletable d) = false := by
  induction uploads generalizing errs with
  | nil => simp [purgeUploads]
  | cons ud uploads ih =>
    unfold purgeUploads
    rw [exists_mem_cons_iff]
    split
    next hold =>
      split
      next hfails =>
        rw [ih, or_iff_right]
        rintro ⟨rfl, -, hdeleted⟩
        rw [hfails] at hdeleted
        cases hdeleted
      next hdeleted =>
        rw [mem_cons, ih]
        refine or_congr_left ⟨?_, fun hd => hd.1.symm⟩
        rintro rfl
        exact ⟨rfl, hold, by simpa using hdeleted⟩
    next hyoung =>
      rw [ih, or_iff_right]
      exact fun hd => hyoung hd.2.1

theorem mem_outstanding {ud} : ud ∈ σ.outstanding.1 ↔ ∃ u, σ.members.lookup u = some ud := by
  unfold State.outstanding
  constructor
  · intro hud
    obtain ⟨⟨u, ud'⟩, hmem, rfl⟩ := mem_map.1 hud
    exact ⟨u, AList.mem_lookup_iff.2 hmem⟩
  · rintro ⟨u, hud⟩
    exact mem_map.2 ⟨⟨u, ud⟩, AList.mem_lookup_iff.1 hud, rfl⟩

/-- **A purge deletes the uploads that are older than its date, and no other**, in every run in
which no callback reads an entry that another one has read and not yet set. -/
theorem purge_exact (hanswered : Answered ℓ T fails enters root) (htidy : Tidy T fails parseTime)
    {olderThan : ℕ} (hdate : olderThan ≤ started + farAway) {σ : State κ}
    (h : Reach (step ℓ T fails parseTime) Exclusive (State.init started) σ)
    (hend : σ.goroutines = []) :
    (∀ d t, Upload T fails parseTime d t →
      ∃ u, uuidFromPath d = some (u, true) ∧ σ.members.lookup u = some ⟨d, t⟩) ∧
    ∀ undeletable actuallyDelete uploads errs, uploads.Perm σ.outstanding.1 →
      (∀ d, d ∈ (purgeUploads undeletable olderThan actuallyDelete uploads errs).1 ↔
        (∃ t, Upload T fails parseTime d t ∧ t < olderThan) ∧
          (actuallyDelete && undeletable d) = false) ∧
      ∀ d t, Upload T fails parseTime d t → olderThan ≤ t →
        ∀ d' ∈ (purgeUploads undeletable olderThan actuallyDelete uploads errs).1, ¬ d' <+: d := by
  have hinv := inv_of_reach ℓ hanswered htidy h
  refine ⟨fun d t hupload => hinv.entry hend hupload,
    fun undeletable actuallyDelete uploads errs hperm => ?_⟩
  have hmem : ∀ d, d ∈ (purgeUploads undeletable olderThan actuallyDelete uploads errs).1 ↔
      (∃ t, Upload T fails parseTime d t ∧ t < olderThan) ∧
        (actuallyDelete && undeletable d) = false := by
    intro d
    rw [mem_purgeUploads]
    constructor
    · rintro ⟨ud, hud, rfl, hold, hdeleted⟩
      obtain ⟨u, hlookup⟩ := mem_outstanding.1 (hperm.mem_iff.1 hud)
      exact ⟨⟨_, hinv.upload htidy hend hlookup (Nat.lt_of_lt_of_le hold hdate), hold⟩, hdeleted⟩
    · rintro ⟨⟨t, hupload, hold⟩, hdeleted⟩
      obtain ⟨u, -, hlookup⟩ := hinv.entry hend hupload
      exact ⟨⟨d, t⟩, hperm.mem_iff.2 (mem_outstanding.2 ⟨u, hlookup⟩), rfl, hold, hdeleted⟩
  refine ⟨hmem, fun d t hupload hyoung d' hd' hprefix => ?_⟩
  obtain ⟨⟨t', hupload', hold'⟩, -⟩ := (hmem d').1 hd'
  obtain rfl := htidy.apart hupload' hupload hprefix
  have htime := hupload.started.symm.trans hupload'.started
  cases htime
  omega

end Walks

/-! ## One upload -/

def uploadDir : Path :=
  root ++ ["a".toList, "_uploads".toList, "00000000-0000-4000-8000-000000000000".toList]

def oneUpload : ObjectTree Model.Paths.Str ℕ where
  entries := [(uploadDir ++ [startedat], .file 5), (uploadDir ++ ["data".toList], .file 0)]
  leaf := by decide +kernel

theorem mem_of_seen {p} (h : Seen oneUpload p) :
    p ∈ oneUpload.entries.flatMap fun e => e.1.inits := by
  obtain ⟨r, o, hmem⟩ := ObjectTree.occupied_iff.1 h.isBelow.1
  exact mem_flatMap.2 ⟨_, hmem, (mem_inits _ _).2 (prefix_append p r)⟩

theorem seen_uploadDir : Seen oneUpload uploadDir := by
  have hrepository : Seen oneUpload (root ++ ["a".toList]) := Visited.child (by decide +kernel)
  have huploads : Seen oneUpload (root ++ ["a".toList] ++ ["_uploads".toList]) :=
    Visited.deeper hrepository (by decide +kernel) (by decide +kernel)
  exact Visited.deeper huploads (by decide +kernel) (by decide +kernel)

theorem upload_oneUpload : Upload oneUpload (fun _ => false) some uploadDir 5 :=
  ⟨seen_uploadDir, ⟨[0, 0, 0, 0, 0, 0, 64, 0, 128, 0, 0, 0, 0, 0, 0, 0], by decide +kernel⟩,
    by decide +kernel⟩

/-- The sample is tidy. -/
theorem tidy_oneUpload : Tidy oneUpload (fun _ => false) some := by
  have hnamed : ∀ p ∈ oneUpload.entries.flatMap (fun e => e.1.inits),
      (uuidFromPath p).map (·.2) = some true → p = uploadDir := by decide +kernel
  have hfile : ∀ p ∈ oneUpload.entries.flatMap (fun e => e.1.inits),
      file p = startedat → p = uploadDir ++ [startedat] := by decide +kernel
  have hdir : ∀ {p u}, Seen oneUpload p → uuidFromPath p = some (u, true) → p = uploadDir :=
    fun hp hu => hnamed _ (mem_of_seen hp) (by rw [hu]; rfl)
  refine ⟨fun hp hq hpu hqu => (hdir hp hpu).trans (hdir hq hqu).symm, ?_, ?_⟩
  · intro p u b t hp hstarted _ hu
    obtain rfl := hfile p (mem_of_seen hp) hstarted
    obtain ⟨v, hv⟩ := upload_oneUpload.named
    rw [uuidFromPath_startedat hv] at hu
    cases hu
    exact ⟨uploadDir, seen_uploadDir, rfl, hv⟩
  · rintro d d' t t' ⟨hd, ⟨u, hu⟩, -⟩ ⟨hd', ⟨u', hu'⟩, -⟩ -
    exact (hdir hd hu).trans (hdir hd' hu').symm

/-- With one callback after the other the upload is deleted. -/
theorem upload_purged : ∃ σ : State ℕ,
    Reach (step Model.fallbackListing oneUpload (fun _ => false) some) Exclusive (State.init 0) σ ∧
      σ.goroutines = [] ∧
      uploadDir ∈ (purgeUploads (fun _ => false) 10 true σ.outstanding.1 σ.outstanding.2).1 := by
  obtain ⟨σ, hreach, hend⟩ : ∃ σ : State ℕ,
      Reach (step Model.fallbackListing oneUpload (fun _ => false) some) Exclusive (State.init 0)
        σ ∧ σ.goroutines.isEmpty = true :=
    exists_reach (List.replicate 22 (.go 0)) (by decide +kernel)
  have hanswered : Answered Model.fallbackListing oneUpload (fun _ => false) enters root :=
    ⟨fun _ _ => rfl, fun _ _ _ _ => rfl, fun _ _ _ _ _ _ => rfl⟩
  have hend : σ.goroutines = [] := List.isEmpty_iff.1 hend
  have hdate : 10 ≤ 0 + farAway := by decide
  obtain ⟨-, hpurge⟩ := purge_exact hanswered tidy_oneUpload hdate hreach hend
  obtain ⟨hmem, -⟩ := hpurge (fun _ => false) true σ.outstanding.1 σ.outstanding.2
    (List.Perm.refl _)
  exact ⟨σ, hreach, hend, (hmem uploadDir).2 ⟨⟨5, upload_oneUpload, by decide⟩, rfl⟩⟩

/-- The callback on `data` sets the entry it read before that on `startedat` set the date: the date
is lost, and the upload is not deleted. -/
theorem upload_date_lost : ∃ σ : State ℕ,
    Reach (step Model.fallbackListing oneUpload (fun _ => false) some) (fun _ _ => True)
      (State.init 0) σ ∧
      (σ.goroutines.isEmpty = true ∧
        (purgeUploads (fun _ => false) 10 true σ.outstanding.1 σ.outstanding.2).1 = []) ∧
      Upload oneUpload (fun _ => false) some uploadDir 5 := by
  obtain ⟨σ, hreach, hlost⟩ : ∃ σ : State ℕ,
      Reach (step Model.fallbackListing oneUpload (fun _ => false) some) (fun _ _ => True)
        (State.init 0) σ ∧
        σ.goroutines.isEmpty = true ∧
          (purgeUploads (fun _ => false) 10 true σ.outstanding.1 σ.outstanding.2).1 = [] :=
    exists_reach (List.replicate 14 (.go 0) ++
      [.go 1, .go 0, .go 1, .go 0, .go 0, .go 1, .go 0, .go 0]) (by decide +kernel)
  exact ⟨σ, hreach, hlost, upload_oneUpload⟩

end ContainerRegistry.Analysis.PurgeUploads
