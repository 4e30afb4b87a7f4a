import Mathlib.Data.List.Chain
import ContainerRegistry.Analysis.PathSeparation
import ContainerRegistry.Model.Schema1Builder

/-!
# Which layers a schema 1 manifest has

A configuration without a `rootfs` makes `Build` panic, and one whose history has fewer layers than
there are descriptors loses some of them. Otherwise (`Fits`) all are in the manifest, or `Build`
returns an error.
-/

namespace ContainerRegistry.Analysis.Schema1Builder

open Model.Paths Model.Schema1Builder Analysis.Paths List Function

/-- The entries with a layer of their own. -/
def layered (hs : List ImageHistory) : List ImageHistory := hs.filter (!·.emptyLayer)

/-- A history with the descriptors of its layers, and the layers that stand for it. -/
inductive Replaced : List ImageHistory → List Digest → List Digest → Prop where
  | nil : Replaced [] [] []
  | empty {hs ds ls h} : Replaced hs ds ls → h.emptyLayer = true →
      Replaced (hs ++ [h]) ds (ls ++ [digestSHA256GzippedEmptyTar])
  | next {hs ds ls h d} : Replaced hs ds ls → h.emptyLayer = false →
      Replaced (hs ++ [h]) (ds ++ [d]) (ls ++ [d])

theorem Replaced.length_eq {hs ds ls} (h : Replaced hs ds ls) :
    ds.length = (layered hs).length := by
  induction h with
  | nil => rfl
  | empty _ hempty ih => simpa [layered, hempty] using ih
  | next _ hlayer ih => simpa [layered, hlayer] using ih

def textOf : Option RawMessage → Option Str
  | some (.text value) => some value
  | _ => none

def idOf : History → Option Str
  | .layer v1 => some v1.id
  | .top config => textOf (config "id".toList)

def parentOf : History → Option Str
  | .layer v1 => some v1.parent
  | .top config => textOf (config "parent".toList)

/-- The parent of an entry is the one after it. -/
def Linked (x y : History) : Prop := ∃ id, parentOf x = some id ∧ idOf y = some id

/-- No panic, and a result that meets `Q`. -/
def Yields {α : Type} (Q : α → Prop) : Except Failure α → Prop
  | .ok a => Q a
  | .error e => e ≠ .panics

theorem Yields.bind {α β : Type} {Q : α → Prop} {R : β → Prop} {x : Except Failure α}
    {f : α → Except Failure β} (hx : Yields Q x) (hf : ∀ a, Q a → Yields R (f a)) :
    Yields R (x >>= f) := by
  cases x with
  | ok a => exact hf a hx
  | error e => exact hx

theorem Yields.ite {α : Type} {Q : α → Prop} {c : Prop} [Decidable c] {a : α} {e : Failure}
    (ha : Q a) (he : e ≠ .panics) : Yields Q (if c then .ok a else .error e) := by
  split
  · exact ha
  · exact he

variable {env : Env} {mb : Builder} {rootFS : ImageRootFS} {hs : List ImageHistory} {s : Layers}

/-- What the loop has made of the entries before. -/
structure Inv (mb : Builder) (hs : List ImageHistory) (s : Layers) : Prop where
  replaced : Replaced hs (mb.descriptors.take s.layerCounter) s.fsLayers.reverse
  linked : s.history.IsChain Linked
  parent : ∀ x ∈ s.history.head?, idOf x = some s.parent ∧ s.parent ≠ []

theorem hex_ne_nil (d : Digest) : hex d ≠ [] := by
  obtain ⟨-, -, hlength, -⟩ := validDigest_cases d.2
  exact ne_nil_of_length_pos (Nat.lt_of_lt_of_le Nat.two_pos hlength)

/-- The blob of one entry. -/
theorem blobSum_yields (hlength : rootFS.diffIDs.length = mb.descriptors.length)
    (hinv : Inv mb hs s) (h : ImageHistory) :
    Yields (fun r => (r.2.parent = s.parent ∧ r.2.history = s.history) ∧
        Replaced (hs ++ [h]) (mb.descriptors.take r.2.layerCounter) (r.1 :: r.2.fsLayers).reverse)
      (blobSum mb rootFS s h) := by
  rw [blobSum]
  cases hempty : h.emptyLayer with
  | true =>
    have htar : Yields (· = digestSHA256GzippedEmptyTar) (emptyTar mb s.emptyTar) := by
      rw [emptyTar]
      split
      · rfl
      split
      · rfl
      · split
        · rfl
        · exact nofun
      · exact nofun
    refine htar.bind ?_
    rintro _ rfl
    refine ⟨⟨rfl, rfl⟩, ?_⟩
    rw [reverse_cons]
    exact hinv.replaced.empty hempty
  | false =>
    simp only [Bool.false_eq_true, if_false]
    split
    · exact nofun
    next hlt =>
      rw [hlength, not_le] at hlt
      rw [getElem?_eq_getElem hlt]
      refine ⟨⟨rfl, rfl⟩, ?_⟩
      rw [reverse_cons, ← take_append_getElem hlt]
      exact hinv.replaced.next hempty

/-- INTERNAL: one entry of the history. -/
theorem inv_addLayer (hlength : rootFS.diffIDs.length = mb.descriptors.length)
    (hinv : Inv mb hs s) (h : ImageHistory) :
    Yields (Inv mb (hs ++ [h])) (addLayer env mb rootFS s h) := by
  refine (blobSum_yields hlength hinv h).bind ?_
  rintro ⟨blobsum, t⟩ ⟨⟨hparent, hhistory⟩, hreplaced⟩
  dsimp only at hparent hhistory hreplaced
  refine Yields.ite ⟨hreplaced, ?_, ?_⟩ nofun
  · rw [hhistory]
    refine isChain_cons.2 ⟨fun y hy => ?_, hinv.linked⟩
    have hne : s.history ≠ [] := fun hnil => by simp [hnil] at hy
    refine ⟨s.parent, ?_, (hinv.parent y hy).1⟩
    simp [parentOf, hne, hparent]
  · rintro x ⟨⟩
    exact ⟨rfl, hex_ne_nil _⟩

theorem inv_layers (hlength : rootFS.diffIDs.length = mb.descriptors.length)
    (hs : List ImageHistory) :
    Yields (Inv mb hs) (hs.foldlM (addLayer env mb rootFS) ⟨[], 0, mb.emptyTar, [], []⟩) := by
  induction hs using reverseRecOn with
  | nil => exact ⟨.nil, .nil, nofun⟩
  | append_singleton hs h ih =>
    rw [foldlM_append]
    refine ih.bind fun s hinv => ?_
    rw [foldlM_cons]
    exact (inv_addLayer hlength hinv h).bind fun _ hinv => hinv

/-- The top entry has its parent. -/
theorem linked_top (hinv : ∀ x ∈ s.history.head?, idOf x = some s.parent ∧ s.parent ≠ [])
    {v1ID : Str} {throwaway : Bool} :
    Yields (fun top => ∀ y ∈ s.history.head?, Linked top y)
      (makeV1ConfigFromConfig env mb v1ID s.parent throwaway) := by
  rw [makeV1ConfigFromConfig]
  split
  · exact nofun
  refine Yields.ite (fun y hy => ?_) nofun
  obtain ⟨hid, hne⟩ := hinv y hy
  refine ⟨s.parent, ?_, hid⟩
  rw [parentOf, if_neg hne]
  split
  · rw [update_of_ne (by decide), update_self]
    rfl
  · rw [update_self]
    rfl

/-! ## Coding, signing and a blob service that do not fail -/

/-- Nothing fails but what the builder checks itself. -/
structure Willing (env : Env) (mb : Builder) : Prop where
  decodes : (env.unmarshalMap mb.configJSON).isSome = true
  marshals : ∀ h, env.marshals h = true
  signs : ∀ m, env.signs m = true
  emptyTar : ∀ cached, emptyTar mb cached = .ok digestSHA256GzippedEmptyTar

theorem bind_ok {α β : Type} {x : Except Failure α} {f : α → Except Failure β} {a : α}
    (hx : x = .ok a) (hf : ∃ b, f a = .ok b) : ∃ b, (x >>= f) = .ok b := by
  rw [hx]
  exact hf

theorem length_layered_append (hs : List ImageHistory) (h : ImageHistory) :
    (layered (hs ++ [h])).length = (layered hs).length + if h.emptyLayer then 0 else 1 := by
  cases hempty : h.emptyLayer <;> simp [layered, hempty]

section Willing

variable (hwilling : Willing env mb) (hlength : rootFS.diffIDs.length = mb.descriptors.length)
include hwilling hlength

/-- There is a descriptor for the entry. -/
theorem blobSum_ok (hinv : Inv mb hs s) {h : ImageHistory}
    (hle : (layered (hs ++ [h])).length ≤ mb.descriptors.length) :
    ∃ r, blobSum mb rootFS s h = .ok r := by
  have hcount := hinv.replaced.length_eq
  rw [length_layered_append] at hle
  rw [length_take] at hcount
  rw [blobSum]
  cases hempty : h.emptyLayer with
  | true =>
    rw [if_pos rfl, hwilling.emptyTar]
    exact ⟨_, rfl⟩
  | false =>
    simp only [hempty, Bool.false_eq_true, if_false] at hle
    have hlt : s.layerCounter < mb.descriptors.length := by omega
    rw [if_neg Bool.false_ne_true, if_neg (by omega), getElem?_eq_getElem hlt]
    exact ⟨_, rfl⟩

/-- All entries are added. -/
theorem layers_ok (hle : (layered hs).length ≤ mb.descriptors.length) :
    ∃ s, hs.foldlM (addLayer env mb rootFS) ⟨[], 0, mb.emptyTar, [], []⟩ = .ok s ∧ Inv mb hs s := by
  have hinv : ∀ {hs s}, hs.foldlM (addLayer env mb rootFS) ⟨[], 0, mb.emptyTar, [], []⟩ = .ok s →
      Inv mb hs s := fun {hs s} hfold => by
    have hyields : Yields (Inv mb hs) (.ok s) := hfold ▸ inv_layers hlength hs
    exact hyields
  suffices h : ∃ s, hs.foldlM (addLayer env mb rootFS) ⟨[], 0, mb.emptyTar, [], []⟩ = .ok s from
    h.imp fun s hfold => ⟨hfold, hinv hfold⟩
  induction hs using reverseRecOn with
  | nil => exact ⟨_, rfl⟩
  | append_singleton hs h ih =>
    have hle' : (layered hs).length ≤ mb.descriptors.length := by
      rw [length_layered_append] at hle
      omega
    obtain ⟨s, hfold⟩ := ih hle'
    obtain ⟨⟨blobsum, t⟩, hr⟩ := blobSum_ok hwilling hlength (hinv hfold) hle
    have hadd : ∃ s', addLayer env mb rootFS s h = .ok s' :=
      bind_ok hr ⟨_, if_pos (hwilling.marshals _)⟩
    obtain ⟨s', hs'⟩ := hadd
    rw [foldlM_append]
    exact bind_ok hfold ⟨s', by rw [foldlM_cons, hs']; rfl⟩

end Willing

/-- INTERNAL: when `Build` succeeds. -/
theorem build_ok (hwilling : Willing env mb) {img : ImageConfig}
    (himg : env.unmarshal mb.configJSON = some img) (hne : img.history ≠ [])
    (hroot : img.rootFS = some rootFS) (hlength : rootFS.diffIDs.length = mb.descriptors.length)
    (hle : (layered img.history).length ≤ mb.descriptors.length) :
    ∃ m, build env mb = .ok m := by
  have hall := dropLast_append_getLast hne
  have hbefore : (layered img.history.dropLast).length ≤ mb.descriptors.length := by
    rw [← hall, length_layered_append] at hle
    omega
  obtain ⟨s, hfold, hinv⟩ := layers_ok hwilling hlength hbefore
  obtain ⟨⟨blobsum, t⟩, hr⟩ := blobSum_ok hwilling hlength hinv (hall ▸ hle)
  obtain ⟨config, hconfig⟩ := Option.isSome_iff_exists.1 hwilling.decodes
  have htop : ∀ v1ID parent throwaway,
      ∃ top, makeV1ConfigFromConfig env mb v1ID parent throwaway = .ok top := fun _ _ _ => by
    simp only [makeV1ConfigFromConfig, hconfig]
    exact ⟨_, if_pos (hwilling.marshals _)⟩
  simp only [build, himg, getLast?_eq_some_getLast hne, hroot]
  rw [if_neg (not_not.2 hlength)]
  refine bind_ok hfold (bind_ok hr ?_)
  obtain ⟨top, htop⟩ := htop _ _ _
  exact bind_ok htop ⟨_, if_pos (hwilling.signs _)⟩

/-! ## When all layers are in the manifest -/

/-- The configuration has a `rootfs`, and if that has as many layers as there are descriptors, its
history has no fewer. -/
def Fits (env : Env) (mb : Builder) : Prop :=
  ∀ img, env.unmarshal mb.configJSON = some img → img.history ≠ [] →
    ∃ rootFS, img.rootFS = some rootFS ∧ (rootFS.diffIDs.length = mb.descriptors.length →
      mb.descriptors.length ≤ (layered img.history).length)

/-- What a manifest has of a configuration and the descriptors. -/
def Carries (mb : Builder) (img : ImageConfig) (m : Manifest) : Prop :=
  (layered img.history).length = mb.descriptors.length ∧
    Replaced img.history mb.descriptors m.fsLayers.reverse ∧ m.history.IsChain Linked

/-- `Build` does not panic, and a manifest has all layers. -/
def Correct (env : Env) (mb : Builder) : Prop :=
  build env mb ≠ .error .panics ∧ ∀ m, build env mb = .ok m →
    ∃ img, env.unmarshal mb.configJSON = some img ∧ Carries mb img m

/-- What fits is built right, -/
theorem correct_of_fits (hfits : Fits env mb) : Correct env mb := by
  have hyields : Yields (fun m => ∃ img, env.unmarshal mb.configJSON = some img ∧ Carries mb img m)
      (build env mb) := by
    rw [build]
    split
    · exact nofun
    next img himg =>
    split
    · exact nofun
    next latest hlatest =>
    have hne : img.history ≠ [] := by
      intro hnil
      simp [hnil] at hlatest
    obtain ⟨rootFS, hroot, hcount⟩ := hfits img himg hne
    have hall : img.history.dropLast ++ [latest] = img.history := dropLast_append_getLast? _ hlatest
    simp only [hroot]
    split
    · exact nofun
    next hlength =>
    rw [ne_eq, not_not] at hlength
    refine (inv_layers hlength _).bind fun s hinv => ?_
    refine (blobSum_yields hlength hinv latest).bind ?_
    rintro ⟨blobsum, t⟩ ⟨⟨hparent, hhistory⟩, hreplaced⟩
    dsimp only at hparent hhistory hreplaced ⊢
    rw [hall] at hreplaced
    rw [hparent, hhistory]
    refine (linked_top hinv.parent).bind fun top htop => Yields.ite ?_ nofun
    have htake : mb.descriptors.take t.layerCounter = mb.descriptors := by
      have hle := hcount hlength
      have htaken := hreplaced.length_eq
      rw [length_take] at htaken
      exact take_of_length_le (by omega)
    rw [htake] at hreplaced
    exact ⟨img, himg, hreplaced.length_eq.symm, hreplaced, isChain_cons.2 ⟨htop, hinv.linked⟩⟩
  refine ⟨fun h => ?_, fun m h => ?_⟩ <;> rw [h] at hyields
  · exact hyields rfl
  · exact hyields

/-- and nothing else. -/
theorem fits_of_correct (hwilling : Willing env mb) (h : Correct env mb) : Fits env mb := by
  intro img himg hne
  cases hroot : img.rootFS with
  | none =>
    refine absurd ?_ h.1
    simp only [build, himg, getLast?_eq_some_getLast hne, hroot]
  | some rootFS =>
    refine ⟨rootFS, rfl, fun hlength => ?_⟩
    by_contra hless
    -- too few entries pass every check, and a descriptor is left over
    obtain ⟨m, hm⟩ := build_ok hwilling himg hne hroot hlength (by omega)
    obtain ⟨img', himg', hcarries⟩ := h.2 m hm
    cases himg.symm.trans himg'
    have hcount := hcarries.1
    omega

/-- **Every layer is in the manifest**, in the place of its entry, if the configuration fits; and
only then, if coding, signing and the blob service do not fail. -/
theorem layers_carried (env : Env) (mb : Builder) :
    (Fits env mb → Correct env mb) ∧ (Willing env mb → (Correct env mb ↔ Fits env mb)) :=
  ⟨correct_of_fits, fun hwilling => ⟨fits_of_correct hwilling, correct_of_fits⟩⟩

/-! ## One entry -/

/-- Every text is coded as the configuration, and hashed to the digest of the empty tar. -/
def coding (img : ImageConfig) : Env :=
  ⟨fun _ => some img, fun _ => some fun _ => none, fun _ => true,
    fun _ => digestSHA256GzippedEmptyTar, id, fun _ => true⟩

def builder (ds : List Digest) : Builder := ⟨.found, true, [], [], none, ds, false⟩

def config (rootFS : Option ImageRootFS) : ImageConfig := ⟨rootFS, [⟨[], [], [], [], false⟩], []⟩

def layer : Digest := ⟨"sha256:".toList ++ List.replicate 64 'a', by decide⟩

/-- An image with one layer. -/
theorem one_layer_carried : let img := config (some ⟨[[]], []⟩)
    ∃ m, build (coding img) (builder [layer]) = .ok m ∧ Carries (builder [layer]) img m := by
  obtain ⟨-, h⟩ := (layers_carried (coding (config (some ⟨[[]], []⟩))) (builder [layer])).1
    (by rintro _ ⟨⟩ -; exact ⟨_, rfl, fun _ => Nat.le_refl 1⟩)
  obtain ⟨_, ⟨⟩, hcarries⟩ := h _ rfl
  exact ⟨_, rfl, hcarries⟩

/-- `Build` panics without a `rootfs`, and leaves out the second of two descriptors. -/
theorem layer_lost : build (coding (config none)) (builder []) = .error .panics ∧
    ∃ m, build (coding (config (some ⟨[[], []], []⟩))) (builder [layer, layer]) = .ok m ∧
      m.fsLayers.length = 1 :=
  ⟨rfl, _, rfl, rfl⟩

end ContainerRegistry.Analysis.Schema1Builder
