import Mathlib.Data.List.TakeWhile
import ContainerRegistry.Model.Paths

/-!
# The paths of different objects are different

A path is the components of the name followed by what the object adds (`pathFor_eq`), which starts
with an underscore, as no component does. So the name can be read off the path, and then the object
(`decode_layout`). The upload ids `.` and `..` shorten the path.
-/

namespace ContainerRegistry.Analysis.Paths

open Library Library.Words Model.Paths List
open Library.CleanPaths hiding join

/-! ## Valid names, tags and ids -/

def ValidName (name : Str) : Prop := name ∈ nameRegexp.matches'

def ValidTag (tag : Str) : Prop := tag ∈ tagRegexp.matches'

def ValidID (id : Str) : Prop := id ∈ uploadIDRegexp.matches'

instance (name : Str) : Decidable (ValidName name) :=
  inferInstanceAs (Decidable (name ∈ nameRegexp.matches'))

instance (tag : Str) : Decidable (ValidTag tag) :=
  inferInstanceAs (Decidable (tag ∈ tagRegexp.matches'))

instance (id : Str) : Decidable (ValidID id) :=
  inferInstanceAs (Decidable (id ∈ uploadIDRegexp.matches'))

abbrev Fine (c : Str) : Prop := Proper '/' '.' c

def plain (c : Str) : Bool := c.head? != some '_'

/-- Components that are fine, one list after the other. -/
theorem fine_append {a b : List Str} (ha : ∀ c ∈ a, Fine c) (hb : ∀ c ∈ b, Fine c) :
    ∀ c ∈ a ++ b, Fine c :=
  fun c hc => (mem_append.1 hc).elim (ha c) (hb c)

/-- One more of them. -/
theorem fine_cons {x l} (hx : Fine x) (hl : ∀ c ∈ l, Fine c) : ∀ c ∈ x :: l, Fine c :=
  fun c hc => (mem_cons.1 hc).elim (fun h => h ▸ hx) (hl c)

/-- Only one. -/
theorem fine_single {x} (hx : Fine x) : ∀ c ∈ [x], Fine c := fine_cons hx (by simp)

/-- Words without a slash that start with no dot. -/
theorem fine_of_word {P : RegularExpression Char}
    (hletters : lettersIn (fun c => c != '/') P = true)
    (hstarts : startsIn (fun c => c != '.') P = true) {w : Str} (hw : w ∈ P.matches') : Fine w := by
  obtain ⟨c, t, rfl, hc⟩ := exists_of_startsIn hstarts hw
  have hslash := forall_of_lettersIn hletters hw
  have hdot : c ≠ '.' := by simpa using hc
  refine ⟨by simp, by simp [hdot], by simp [hdot], fun hmem => ?_⟩
  simpa using hslash '/' hmem

/-- Words that start with no underscore. -/
theorem plain_of_word {P : RegularExpression Char}
    (hstarts : startsIn (fun c => c != '_') P = true) {w : Str} (hw : w ∈ P.matches') :
    plain w = true := by
  obtain ⟨c, t, rfl, hc⟩ := exists_of_startsIn hstarts hw
  simpa [plain] using hc

/-- The path components of a name, split at the slashes. -/
theorem splitOn_flatten {c : Str} (hc : '/' ∉ c) {L : List Str}
    (hL : ∀ x ∈ L, x ∈ (expression [literal ['/'], nameComponentRegexp]).matches') :
    (c ++ L.flatten).splitOn '/' = c :: L.map (·.drop 1) := by
  induction L generalizing c with
  | nil => simp [splitOn_eq_singleton hc]
  | cons x L ih =>
    obtain ⟨a, ha, b, hb, rfl⟩ := Language.mem_mul.1 (hL x mem_cons_self)
    cases mem_literal ha
    have hfine : Fine b := fine_of_word (P := nameComponentRegexp) rfl rfl hb
    have hsplit := ih hfine.no_sep fun y hy => hL y (mem_cons_of_mem _ hy)
    have heq : c ++ ((['/'] ++ b) :: L).flatten = c ++ '/' :: (b ++ L.flatten) := by simp
    rw [heq, splitOn_append_cons_self, hsplit, splitOn_eq_singleton hc]
    simp

variable {name : Str}

/-- **The components of a valid name are fine and start with no underscore.** -/
theorem component_of_name (h : ValidName name) :
    ∀ c ∈ name.splitOn '/', Fine c ∧ plain c = true := by
  obtain ⟨d, hd, rest, hrest, rfl⟩ := Language.mem_mul.1 h
  obtain ⟨c, hc, t, ht, rfl⟩ := Language.mem_mul.1 hrest
  have hcomponent : ∀ x ∈ nameComponentRegexp.matches', Fine x ∧ plain x = true := fun x hx =>
    ⟨fine_of_word rfl rfl hx, plain_of_word rfl hx⟩
  have hpath : ∀ x ∈ (c ++ t).splitOn '/', Fine x ∧ plain x = true := by
    rcases mem_optional ht with rfl | ht
    · rw [append_nil, splitOn_eq_singleton (hcomponent c hc).1.no_sep]
      intro x hx
      rw [mem_singleton.1 hx]
      exact hcomponent c hc
    obtain ⟨L, rfl, hL⟩ := mem_repeated ht
    rw [splitOn_flatten (hcomponent c hc).1.no_sep hL]
    intro x hx
    rcases mem_cons.1 hx with rfl | hx
    · exact hcomponent x hc
    · obtain ⟨y, hy, rfl⟩ := mem_map.1 hx
      obtain ⟨a, ha, b, hb, rfl⟩ := Language.mem_mul.1 (hL y hy)
      cases mem_literal ha
      exact hcomponent b hb
  rcases mem_optional hd with rfl | hd
  · exact hpath
  obtain ⟨e, he, slash, hslash, rfl⟩ := Language.mem_mul.1 hd
  cases mem_literal hslash
  have hdomain : Fine e ∧ plain e = true :=
    ⟨fine_of_word (P := domainRegexp) rfl rfl he, plain_of_word (P := domainRegexp) rfl he⟩
  have heq : e ++ ['/'] ++ (c ++ t) = e ++ '/' :: (c ++ t) := by simp
  rw [heq, splitOn_append_cons_self, splitOn_eq_singleton hdomain.1.no_sep]
  intro x hx
  rcases mem_cons.1 hx with rfl | hx
  · exact hdomain
  · exact hpath x hx

/-- A valid tag is one component. -/
theorem fine_of_tag {tag} (h : ValidTag tag) : Fine tag := by
  refine fine_of_word (P := tagRegexp) ?_ rfl h
  exact Bool.and_eq_true_iff.2 ⟨rfl, lettersIn_upTo rfl 127⟩

/-- So is an upload id, but for the dots. -/
theorem fine_of_id {id} (h : ValidID id) (hdot : id ≠ ['.']) (hdots : id ≠ ['.', '.']) :
    Fine id := by
  have hslash := forall_of_lettersIn (P := uploadIDRegexp) (p := fun c => c != '/') rfl h
  obtain ⟨c, t, rfl, -⟩ := exists_of_startsIn (P := uploadIDRegexp) (p := fun _ => true) rfl h
  refine ⟨by simp, hdot, hdots, fun hmem => ?_⟩
  simpa using hslash '/' hmem

/-! ## Digests and offsets -/

def digestParts (dgst : Str) (multilevel : Bool) : List Str :=
  (splitDigest dgst).1 ::
    ((if multilevel then [(splitDigest dgst).2.take 2] else []) ++ [(splitDigest dgst).2])

/-- Hexadecimal digits are neither slashes nor dots. -/
theorem ne_of_hex {c} (h : c ∈ digit ++ "abcdef".toList) : c ≠ '/' ∧ c ≠ '.' := by
  have hall : (digit ++ "abcdef".toList).all (fun c => c != '/' && c != '.') = true := by
    rfl
  simpa using all_eq_true.1 hall c h

/-- They make a component. -/
theorem fine_of_hex {w : Str} (hne : w ≠ [])
    (h : ∀ c ∈ w, c ∈ digit ++ "abcdef".toList) : Fine w := by
  obtain ⟨c, t, rfl⟩ := exists_cons_of_ne_nil hne
  obtain ⟨-, hdot⟩ := ne_of_hex (h c mem_cons_self)
  exact ⟨hne, by simp [hdot], by simp [hdot], fun hmem => (ne_of_hex (h '/' hmem)).1 rfl⟩

variable {dgst : Str}

/-- The algorithm and the digits of a valid digest. -/
theorem validDigest_cases (h : validDigest dgst = true) :
    ':' ∈ dgst ∧ (splitDigest dgst).1 ∈ algorithms.map Prod.fst ∧
      2 ≤ (splitDigest dgst).2.length ∧
        ∀ c ∈ (splitDigest dgst).2, c ∈ digit ++ "abcdef".toList := by
  obtain ⟨hcolon, hany⟩ := Bool.and_eq_true_iff.1 h
  obtain ⟨a, ha, hcases⟩ := any_eq_true.1 hany
  obtain ⟨halg, hlength, hhex⟩ := of_decide_eq_true hcases
  have hlong : ∀ a ∈ algorithms, 2 ≤ a.2 := by decide
  refine ⟨by simpa using hcolon, ?_, hlength ▸ hlong a ha, fun c hc => ?_⟩
  · rw [halg]
    exact mem_map_of_mem ha
  · simpa using all_eq_true.1 hhex c hc

/-- No algorithm is named like a file of an upload. -/
theorem algorithm_cases : ∀ {alg}, alg ∈ algorithms.map Prod.fst →
    Fine alg ∧ blobAlgorithmReplacer alg = alg ∧ alg ≠ "data".toList ∧ alg ≠ "startedat".toList ∧
      alg ≠ "hashstates".toList ∧ plain alg = true := by
  decide

/-- The components of a valid digest. -/
theorem digestPathComponents_eq (h : validDigest dgst = true) (multilevel : Bool) :
    digestPathComponents dgst multilevel = some (digestParts dgst multilevel) := by
  obtain ⟨-, halg, -, -⟩ := validDigest_cases h
  unfold digestPathComponents digestParts
  rw [if_pos h, (algorithm_cases halg).2.1]

/-- They are fine. -/
theorem fine_digestParts (h : validDigest dgst = true) (multilevel : Bool) :
    ∀ c ∈ digestParts dgst multilevel, Fine c := by
  obtain ⟨-, halg, hlength, hhex⟩ := validDigest_cases h
  have hne : (splitDigest dgst).2 ≠ [] := by
    intro hnil
    rw [hnil] at hlength
    exact absurd hlength (by decide)
  have htake : Fine ((splitDigest dgst).2.take 2) :=
    fine_of_hex (by simp [hne]) fun x hx => hhex x (mem_of_mem_take hx)
  refine fine_cons (algorithm_cases halg).1 (fine_append ?_ (fine_single (fine_of_hex hne hhex)))
  split
  · exact fine_single htake
  · simp

/-- A digest is what comes before and after its colon. -/
theorem digest_eq (h : ':' ∈ dgst) :
    (splitDigest dgst).1 ++ ':' :: (splitDigest dgst).2 = dgst := by
  induction dgst with
  | nil => cases h
  | cons c cs ih =>
    by_cases hc : c = ':'
    · simp [splitDigest, hc]
    · have hcs : ':' ∈ cs := (mem_cons.1 h).resolve_left (Ne.symm hc)
      simpa [splitDigest, hc] using ih hcs

def parseNat (w : Str) : ℕ := Nat.ofDigits 10 (w.reverse.map fun c => c.toNat - '0'.toNat)

def parse (w : Str) : Int := if w.head? = some '-' then -(parseNat (w.drop 1) : Int) else parseNat w

/-- A digit is read back. -/
theorem digitChar_toNat {d} (h : d < 10) : (Nat.digitChar d).toNat - '0'.toNat = d := by
  revert d
  decide

/-- A number is read back. -/
theorem parseNat_decimalNat (n : ℕ) : parseNat (decimalNat n) = n := by
  unfold parseNat decimalNat
  split
  next h =>
    subst h
    decide
  next =>
    rw [reverse_reverse, map_map]
    have hid : (Nat.digits 10 n).map ((fun c => c.toNat - '0'.toNat) ∘ Nat.digitChar) =
        Nat.digits 10 n := by
      conv_rhs => rw [← map_id (Nat.digits 10 n)]
      apply map_congr_left
      intro d hd
      exact digitChar_toNat (Nat.digits_lt_base (by decide) hd)
    rw [hid, Nat.ofDigits_digits]

/-- Numbers are written in digits. -/
theorem digit_of_decimalNat {n c} (h : c ∈ decimalNat n) : c ∈ digit := by
  unfold decimalNat at h
  split at h
  next =>
    rw [mem_singleton.1 h]
    decide
  next =>
    obtain ⟨d, hd, rfl⟩ := mem_map.1 (mem_reverse.1 h)
    have hlt := Nat.digits_lt_base (by decide) hd
    revert hlt
    generalize d = e
    revert e
    decide

/-- With at least one. -/
theorem decimalNat_ne_nil (n : ℕ) : decimalNat n ≠ [] := by
  unfold decimalNat
  split
  next => simp
  next h => simpa using Nat.digits_ne_nil_iff_ne_zero.2 h

/-- **An offset is read back.** -/
theorem parse_decimal (n : Int) : parse (decimal n) = n := by
  unfold decimal parse
  split
  next h =>
    rw [if_pos (by simp), drop_one, tail_cons, parseNat_decimalNat]
    omega
  next h =>
    obtain ⟨c, t, hct⟩ := exists_cons_of_ne_nil (decimalNat_ne_nil n.natAbs)
    have hdigit : c ∈ digit := digit_of_decimalNat (n := n.natAbs) (by simp [hct])
    have hminus : (decimalNat n.natAbs).head? ≠ some '-' := by
      rw [hct]
      rintro hc
      cases hc
      exact absurd hdigit (by decide)
    rw [if_neg hminus, parseNat_decimalNat]
    omega

/-- An offset is no algorithm and no file of an upload. -/
theorem decimal_cases (n : Int) :
    Fine (decimal n) ∧ decimal n ∉ algorithms.map Prod.fst ∧ decimal n ≠ "data".toList ∧
      decimal n ≠ "startedat".toList ∧ plain (decimal n) = true := by
  have hdigits : ∀ x ∈ decimalNat n.natAbs, x ∈ '-' :: digit :=
    fun x hx => mem_cons_of_mem _ (digit_of_decimalNat hx)
  have hletters : decimal n ≠ [] ∧ ∀ x ∈ decimal n, x ∈ '-' :: digit := by
    unfold decimal
    split
    · exact ⟨by simp, forall_mem_cons.2 ⟨mem_cons_self, hdigits⟩⟩
    · exact ⟨decimalNat_ne_nil _, hdigits⟩
  obtain ⟨c, t, hct⟩ := exists_cons_of_ne_nil hletters.1
  have hc : c ∈ '-' :: digit := hletters.2 c (by simp [hct])
  have hs : c ≠ 's' ∧ c ≠ 'd' ∧ c ≠ '.' ∧ c ≠ '_' := by
    have hall : ('-' :: digit).all
        (fun c => c != 's' && c != 'd' && c != '.' && c != '_') = true := by
      rfl
    simpa [and_assoc] using all_eq_true.1 hall c hc
  have hslash : '/' ∉ decimal n := fun hmem => absurd (hletters.2 '/' hmem) (by decide)
  rw [hct] at hslash ⊢
  refine ⟨⟨by simp, by simp [hs.2.2.1], by simp [hs.2.2.1], hslash⟩, fun hmem => ?_,
    by simp [hs.2.1], by simp [hs.1], by simp [plain, hs.2.2.2]⟩
  have hall : ∀ a ∈ algorithms.map Prod.fst, a.head? = some 's' := by decide
  simpa [hs.1] using hall _ hmem

/-! ## The components of a path -/

def top : List Str := ["docker".toList, "registry".toList, "v2".toList]

def home (name : Str) : List Str := top ++ "repositories".toList :: name.splitOn '/'

/-- The directory of an upload, in that of its repository. -/
def uploadParts (id : Str) : List Str :=
  if id = ['.'] then [uploadsDir] else if id = ['.', '.'] then [] else [uploadsDir, id]

def layout : PathSpec → List Str
  | .manifestRevisions name => home name ++ [manifestsDir, "revisions".toList]
  | .manifestRevision name revision =>
    home name ++ ([manifestsDir, "revisions".toList] ++ digestParts revision false)
  | .manifestRevisionLink name revision =>
    home name ++ ([manifestsDir, "revisions".toList] ++ (digestParts revision false ++
      ["link".toList]))
  | .manifestTags name => home name ++ [manifestsDir, "tags".toList]
  | .manifestTag name tag => home name ++ [manifestsDir, "tags".toList, tag]
  | .manifestTagCurrent name tag =>
    home name ++ [manifestsDir, "tags".toList, tag, "current".toList, "link".toList]
  | .manifestTagIndex name tag => home name ++ [manifestsDir, "tags".toList, tag, "index".toList]
  | .manifestTagIndexEntry name tag revision =>
    home name ++ ([manifestsDir, "tags".toList, tag, "index".toList] ++ digestParts revision false)
  | .manifestTagIndexEntryLink name tag revision =>
    home name ++ ([manifestsDir, "tags".toList, tag, "index".toList] ++
      (digestParts revision false ++ ["link".toList]))
  | .layerLink name digest =>
    home name ++ (layersDir :: (digestParts digest false ++ ["link".toList]))
  | .blobs => top ++ ["blobs".toList]
  | .blob digest => top ++ ("blobs".toList :: digestParts digest true)
  | .blobData digest => top ++ ("blobs".toList :: (digestParts digest true ++ ["data".toList]))
  | .uploadData name id => home name ++ (uploadParts id ++ ["data".toList])
  | .uploadStartedAt name id => home name ++ (uploadParts id ++ ["startedat".toList])
  | .uploadHashState name id alg offset list =>
    home name ++ (uploadParts id ++ ("hashstates".toList :: alg ::
      if list then [] else [decimal offset]))
  | .repositoriesRoot => top ++ ["repositories".toList]
  | .repositoryRoot name => home name

/-- The names, tags, digests, ids and algorithms of a spec are valid. -/
def Valid : PathSpec → Prop
  | .manifestRevisions name => ValidName name
  | .manifestRevision name revision => ValidName name ∧ validDigest revision = true
  | .manifestRevisionLink name revision => ValidName name ∧ validDigest revision = true
  | .manifestTags name => ValidName name
  | .manifestTag name tag => ValidName name ∧ ValidTag tag
  | .manifestTagCurrent name tag => ValidName name ∧ ValidTag tag
  | .manifestTagIndex name tag => ValidName name ∧ ValidTag tag
  | .manifestTagIndexEntry name tag revision =>
    ValidName name ∧ ValidTag tag ∧ validDigest revision = true
  | .manifestTagIndexEntryLink name tag revision =>
    ValidName name ∧ ValidTag tag ∧ validDigest revision = true
  | .layerLink name digest => ValidName name ∧ validDigest digest = true
  | .blobs => True
  | .blob digest => validDigest digest = true
  | .blobData digest => validDigest digest = true
  | .uploadData name id => ValidName name ∧ ValidID id
  | .uploadStartedAt name id => ValidName name ∧ ValidID id
  | .uploadHashState name id alg _ _ =>
    ValidName name ∧ ValidID id ∧ alg ∈ algorithms.map Prod.fst
  | .repositoriesRoot => True
  | .repositoryRoot name => ValidName name

/-- The root is fine. -/
theorem fine_top : ∀ c ∈ top, Fine c := by decide

/-- The directory of a repository is fine. -/
theorem fine_home (h : ValidName name) : ∀ c ∈ home name, Fine c := by
  intro c hc
  rcases mem_append.1 hc with hc | hc
  · exact fine_top c hc
  · rcases mem_cons.1 hc with rfl | hc
    · decide
    · exact (component_of_name h c hc).1

/-- It is not the root of the file system. -/
theorem home_ne_nil (name : Str) : home name ≠ [] := by simp [home, top]

/-- A path below the root. -/
theorem join_rootPrefix (es : List Str) :
    join (rootPrefix ++ es) = render '/' (extend '/' '.' top es) := by
  have hroot : join (rootPrefix ++ es) = render '/' (extend '/' '.' [] (rootPrefix ++ es)) :=
    join_rooted "docker/registry/".toList ("v2".toList :: es)
  have hfold : extend '/' '.' [] (rootPrefix ++ es) = extend '/' '.' top es := by
    have hsplit : (rootPrefix.flatMap (·.splitOn '/')).foldl (cleanStep '.' true) [] = top := by
      rfl
    unfold extend
    rw [flatMap_append, foldl_append, hsplit]
  rw [hroot, hfold]

/-- A path below a repository. -/
theorem join_repoPrefix (h : ValidName name) (es : List Str) :
    join (repoPrefix ++ name :: es) = render '/' (extend '/' '.' (home name) es) := by
  have hassoc : repoPrefix ++ name :: es = rootPrefix ++ ("repositories".toList :: name :: es) := by
    simp [repoPrefix]
  rw [hassoc, join_rootPrefix, extend_proper (by decide),
    extend_path fun c hc => (component_of_name h c hc).1]
  simp [home]

/-- Fine components are appended. -/
theorem extend_fine {es : List Str} (h : ∀ c ∈ es, Fine c) (out : List Str) :
    extend '/' '.' out es = out ++ es := by
  induction es generalizing out with
  | nil => simp [extend_nil]
  | cons e es ih =>
    rw [extend_proper (h e mem_cons_self), ih fun c hc => h c (mem_cons_of_mem _ hc)]
    simp

/-- Fine components below a repository. -/
theorem join_home (h : ValidName name) {es} (hes : ∀ c ∈ es, Fine c) :
    join (repoPrefix ++ name :: es) = render '/' (home name ++ es) := by
  rw [join_repoPrefix h, extend_fine hes]

/-- Fine components below a path. -/
theorem join_path {cs es} (hne : cs ≠ []) (hcs : ∀ c ∈ cs, Fine c)
    (hes : ∀ c ∈ es, Fine c) : join (render '/' cs :: es) = render '/' (cs ++ es) := by
  have hjoin : join (render '/' cs :: es) = render '/' (extend '/' '.' cs es) :=
    join_render hne hcs es
  rw [hjoin, extend_fine hes]

/-- A path below an upload, whose id may shorten it. -/
theorem join_upload {name id} (h : ValidName name) (hid : ValidID id) (es : List Str) :
    join (repoPrefix ++ name :: uploadsDir :: id :: es) =
      render '/' (extend '/' '.' (home name ++ uploadParts id) es) := by
  have huploads : Fine uploadsDir := by decide
  rw [join_repoPrefix h, extend_proper huploads]
  unfold uploadParts
  split
  next hdot =>
    subst hdot
    rw [extend_dot (by decide)]
  next hdot =>
    split
    next hdots =>
      subst hdots
      rw [extend_dots (by decide) huploads, append_nil]
    next hdots =>
      rw [extend_proper (fine_of_id hid hdot hdots)]
      simp

/-- A digest that is joined first. -/
theorem join_digestParts (h : validDigest dgst = true) (out es : List Str) :
    extend '/' '.' out (join (digestParts dgst false) :: es) =
      extend '/' '.' (out ++ digestParts dgst false) es := by
  have hfine := fine_digestParts h false
  have hjoin : join (digestParts dgst false) = ['/'].intercalate (digestParts dgst false) :=
    join_of_proper hfine
  have hsplit : (join (digestParts dgst false)).splitOn '/' = digestParts dgst false := by
    rw [hjoin]
    exact splitOn_intercalate '/' (fun c hc => (hfine c hc).no_sep) (by simp [digestParts])
  rw [extend_path (by rw [hsplit]; exact hfine), hsplit]

/-- The directory of an upload is fine. -/
theorem fine_uploadParts {id : Str} (h : ValidID id) : ∀ c ∈ uploadParts id, Fine c := by
  unfold uploadParts
  split
  next => decide
  next hdot =>
    split
    next => decide
    next hdots =>
      have huploads : Fine uploadsDir := by decide
      exact fine_cons huploads (fine_single (fine_of_id h hdot hdots))

variable {s : PathSpec}

/-- INTERNAL: the components of the path of a valid spec are fine. -/
theorem fine_layout (h : Valid s) : ∀ c ∈ layout s, Fine c := by
  have hlink : ∀ c ∈ ["link".toList], Fine c := by decide
  have hrevisions : ∀ c ∈ [manifestsDir, "revisions".toList], Fine c := by decide
  have htag : ∀ tag, ValidTag tag → ∀ l : List Str, (∀ c ∈ l, Fine c) →
      ∀ c ∈ manifestsDir :: "tags".toList :: tag :: l, Fine c := fun tag ht l hl =>
    fine_cons (by decide) <| fine_cons (by decide) <| fine_cons (fine_of_tag ht) hl
  cases s with
  | manifestRevisions name => exact fine_append (fine_home h) hrevisions
  | manifestRevision name revision =>
    exact fine_append (fine_home h.1) (fine_append hrevisions (fine_digestParts h.2 _))
  | manifestRevisionLink name revision =>
    exact fine_append (fine_home h.1) (fine_append hrevisions
      (fine_append (fine_digestParts h.2 _) hlink))
  | manifestTags name => exact fine_append (fine_home h) (by decide)
  | manifestTag name tag =>
    exact fine_append (fine_home h.1) (htag tag h.2 [] (by decide))
  | manifestTagCurrent name tag | manifestTagIndex name tag =>
    exact fine_append (fine_home h.1) (htag tag h.2 _ (by decide))
  | manifestTagIndexEntry name tag revision =>
    exact fine_append (fine_home h.1) (htag tag h.2.1 _
      (fine_cons (by decide) (fine_digestParts h.2.2 _)))
  | manifestTagIndexEntryLink name tag revision =>
    exact fine_append (fine_home h.1) (htag tag h.2.1
      ("index".toList :: (digestParts revision false ++ ["link".toList]))
      (fine_cons (by decide) (fine_append (fine_digestParts h.2.2 _) hlink)))
  | layerLink name digest =>
    exact fine_append (fine_home h.1) (fine_cons (by decide)
      (fine_append (fine_digestParts h.2 _) hlink))
  | blobs => exact fine_append fine_top (by decide)
  | blob digest =>
    exact fine_append fine_top (fine_cons (by decide) (fine_digestParts h _))
  | blobData digest =>
    exact fine_append fine_top (fine_cons (by decide)
      (fine_append (fine_digestParts h _) (by decide)))
  | uploadData name id | uploadStartedAt name id =>
    exact fine_append (fine_home h.1) (fine_append (fine_uploadParts h.2) (by decide))
  | uploadHashState name id alg offset list =>
    refine fine_append (fine_home h.1) (fine_append (fine_uploadParts h.2.1) ?_)
    refine fine_cons (by decide) (fine_cons (algorithm_cases h.2.2).1 ?_)
    cases list with
    | true => simp
    | false => exact fine_single (decimal_cases offset).1
  | repositoriesRoot => exact fine_append fine_top (by decide)
  | repositoryRoot name => exact fine_home h

/-- There is one. -/
theorem layout_ne_nil (s : PathSpec) : layout s ≠ [] := by
  cases s <;> simp [layout, home, top]

/-- Fine components below the path of a spec. -/
theorem join_layout (h : Valid s) {es} (hes : ∀ c ∈ es, Fine c) :
    join (render '/' (layout s) :: es) = render '/' (layout s ++ es) :=
  join_path (layout_ne_nil s) (fine_layout h) hes

/-- The path of a revision. -/
theorem manifestRevisionPath_eq {name revision : Str} (h : ValidName name)
    (hrevision : validDigest revision = true) :
    manifestRevisionPath name revision =
      some (render '/' (layout (.manifestRevision name revision))) := by
  have hfine : ∀ c ∈ [manifestsDir, "revisions".toList] ++ digestParts revision false, Fine c :=
    fine_append (by decide) (fine_digestParts hrevision _)
  rw [manifestRevisionPath, digestPathComponents_eq hrevision]
  exact congrArg some (join_home h hfine)

/-- The path of the tags. -/
theorem manifestTagsPath_eq (h : ValidName name) :
    manifestTagsPath name = render '/' (layout (.manifestTags name)) :=
  join_home h (by decide)

/-- The path of a tag. -/
theorem manifestTagPath_eq {name tag} (h : ValidName name) (htag : ValidTag tag) :
    manifestTagPath name tag = render '/' (layout (.manifestTag name tag)) := by
  rw [manifestTagPath, manifestTagsPath_eq h,
    join_layout (s := .manifestTags name) h (fine_single (fine_of_tag htag))]
  simp [layout]

/-- The path of its index. -/
theorem manifestTagIndexPath_eq {name tag : Str} (h : ValidName name) (htag : ValidTag tag) :
    manifestTagIndexPath name tag = render '/' (layout (.manifestTagIndex name tag)) := by
  rw [manifestTagIndexPath, manifestTagPath_eq h htag,
    join_layout (s := .manifestTag name tag) ⟨h, htag⟩ (by decide)]
  simp [layout]

/-- The path of an entry of its index. -/
theorem manifestTagIndexEntryPath_eq {name tag revision} (h : ValidName name)
    (htag : ValidTag tag) (hrevision : validDigest revision = true) :
    manifestTagIndexEntryPath name tag revision =
      some (render '/' (layout (.manifestTagIndexEntry name tag revision))) := by
  rw [manifestTagIndexEntryPath, digestPathComponents_eq hrevision, manifestTagIndexPath_eq h htag]
  have hjoin : join [render '/' (layout (.manifestTagIndex name tag)),
      join (digestParts revision false)] =
        render '/' (extend '/' '.' (layout (.manifestTagIndex name tag))
          [join (digestParts revision false)]) :=
    join_render (layout_ne_nil _) (fine_layout (s := .manifestTagIndex name tag) ⟨h, htag⟩) _
  rw [Option.map_some, hjoin, join_digestParts hrevision, extend_nil]
  simp [layout]

/-- **The path of a valid spec**: `pathFor` joins the components of the layout. -/
theorem pathFor_eq (h : Valid s) : pathFor s = some (render '/' (layout s)) := by
  have hlink : ∀ c ∈ ["link".toList], Fine c := by decide
  cases s with
  | manifestRevisions name => exact congrArg some (join_home h (by decide))
  | manifestRevision name revision => exact manifestRevisionPath_eq h.1 h.2
  | manifestRevisionLink name revision =>
    rw [pathFor, manifestRevisionPath_eq h.1 h.2, Option.map_some,
      join_layout (s := .manifestRevision name revision) h hlink]
    simp [layout]
  | manifestTags name => exact congrArg some (manifestTagsPath_eq h)
  | manifestTag name tag => exact congrArg some (manifestTagPath_eq h.1 h.2)
  | manifestTagCurrent name tag =>
    rw [pathFor, manifestTagPath_eq h.1 h.2, join_layout (s := .manifestTag name tag) h (by decide)]
    simp [layout]
  | manifestTagIndex name tag => exact congrArg some (manifestTagIndexPath_eq h.1 h.2)
  | manifestTagIndexEntry name tag revision =>
    exact manifestTagIndexEntryPath_eq h.1 h.2.1 h.2.2
  | manifestTagIndexEntryLink name tag revision =>
    rw [pathFor, manifestTagIndexEntryPath_eq h.1 h.2.1 h.2.2, Option.map_some,
      join_layout (s := .manifestTagIndexEntry name tag revision) h hlink]
    simp [layout]
  | layerLink name digest =>
    have hlayers : ∀ c ∈ layersDir :: digestParts digest false, Fine c :=
      fine_cons (by decide) (fine_digestParts h.2 _)
    have hjoin : join (repoPrefix ++ [name, layersDir] ++ digestParts digest false) =
        render '/' (home name ++ (layersDir :: digestParts digest false)) := by
      rw [← join_home h.1 hlayers]
      simp
    rw [pathFor, digestPathComponents_eq h.2, Option.map_some, hjoin,
      join_path (by simp [home_ne_nil]) (fine_append (fine_home h.1) hlayers) hlink]
    simp [layout]
  | blobs =>
    rw [pathFor, join_rootPrefix, extend_fine (by decide)]
    rfl
  | blob digest =>
    rw [pathFor, digestPathComponents_eq h, Option.map_some, append_assoc, join_rootPrefix,
      extend_fine (fine_append (by decide) (fine_digestParts h _))]
    rfl
  | blobData digest =>
    rw [pathFor, digestPathComponents_eq h, Option.map_some, append_assoc, join_rootPrefix,
      extend_fine (fine_append (by decide) (fine_append (fine_digestParts h _) (by decide)))]
    rfl
  | uploadData name id | uploadStartedAt name id =>
    rw [pathFor, join_upload h.1 h.2, extend_fine (by decide)]
    simp [layout]
  | uploadHashState name id alg offset list =>
    have hfixed : Fine "hashstates".toList := by decide
    rw [pathFor, join_upload h.1 h.2.1, extend_proper hfixed,
      extend_proper (algorithm_cases h.2.2).1]
    cases list with
    | true =>
      simp only [if_true]
      rw [extend_empty, extend_nil]
      simp [layout]
    | false =>
      simp only [Bool.false_eq_true, if_false]
      rw [extend_proper (decimal_cases offset).1, extend_nil]
      simp [layout]
  | repositoriesRoot =>
    have hroot : join repoPrefix = render '/' (extend '/' '.' top ["repositories".toList]) :=
      join_rootPrefix _
    rw [pathFor, hroot, extend_fine (by decide)]
    rfl
  | repositoryRoot name =>
    rw [pathFor, join_repoPrefix h, extend_nil]
    rfl

/-! ## Reading a path back -/

def nameOf (components : List Str) : Str := ['/'].intercalate components

def digestOf (alg hex : Str) : Str := alg ++ ':' :: hex

def decodeBlob : List Str → Option PathSpec
  | [] => some .blobs
  | [alg, _, hex] => some (.blob (digestOf alg hex))
  | [alg, _, hex, _] => some (.blobData (digestOf alg hex))
  | _ => none

def decodeRevision (name : Str) : List Str → Option PathSpec
  | [] => some (.manifestRevisions name)
  | [alg, hex] => some (.manifestRevision name (digestOf alg hex))
  | [alg, hex, _] => some (.manifestRevisionLink name (digestOf alg hex))
  | _ => none

def decodeTag (name : Str) : List Str → Option PathSpec
  | [] => some (.manifestTags name)
  | [tag] => some (.manifestTag name tag)
  | [tag, _] => some (.manifestTagIndex name tag)
  | [tag, _, _] => some (.manifestTagCurrent name tag)
  | [tag, _, alg, hex] => some (.manifestTagIndexEntry name tag (digestOf alg hex))
  | [tag, _, alg, hex, _] => some (.manifestTagIndexEntryLink name tag (digestOf alg hex))
  | _ => none

def decodeFile (name id : Str) : List Str → Option PathSpec
  | [file] => if file = "data".toList then some (.uploadData name id)
    else some (.uploadStartedAt name id)
  | [_, alg] => some (.uploadHashState name id alg 0 true)
  | [_, alg, offset] => some (.uploadHashState name id alg (parse offset) false)
  | _ => none

/-- The spec of a path in the uploads of a repository. The last of two and the second of three
components tell whether the first is the id. -/
def decodeUpload (name : Str) : List Str → Option PathSpec
  | [file] => decodeFile name ['.'] [file]
  | [a, b] => if b = "data".toList ∨ b = "startedat".toList then decodeFile name a [b]
    else decodeFile name ['.'] [a, b]
  | [a, b, c] => if b = "hashstates".toList then decodeFile name a [b, c]
    else decodeFile name ['.'] [a, b, c]
  | [a, b, c, d] => decodeFile name a [b, c, d]
  | _ => none

/-- The spec of a path without an underscore, that of an upload with the id `..`, read from its end.
-/
def decodeEscaped (components : List Str) : Option PathSpec :=
  match components.getLast? with
  | none => some .repositoriesRoot
  | some last =>
    let front := components.dropLast
    if last = "data".toList ∨ last = "startedat".toList then
      decodeFile (nameOf front) ['.', '.'] [last]
    else if last ∈ algorithms.map Prod.fst then
      decodeFile (nameOf front.dropLast) ['.', '.'] ["hashstates".toList, last]
    else decodeFile (nameOf front.dropLast.dropLast) ['.', '.']
      ["hashstates".toList, front.getLastD [], last]

/-- The spec of a path in the repositories: what comes before the first underscore is the name. -/
def decodeRepository (components : List Str) : Option PathSpec :=
  match components.dropWhile plain with
  | [] => decodeEscaped components
  | dir :: rest =>
    let name := nameOf (components.takeWhile plain)
    if dir = manifestsDir then
      if rest.head? = some "revisions".toList then decodeRevision name (rest.drop 1)
      else decodeTag name (rest.drop 1)
    else if dir = layersDir then
      match rest with
      | [alg, hex, _] => some (.layerLink name (digestOf alg hex))
      | _ => none
    else decodeUpload name rest

def decode (components : List Str) : Option PathSpec :=
  match components.drop 3 with
  | [] => none
  | kind :: rest => if kind = "blobs".toList then decodeBlob rest else decodeRepository rest

/-- A spec without what its path does not depend on: the offset of a listing. -/
def canonical : PathSpec → PathSpec
  | .uploadHashState name id alg _ true => .uploadHashState name id alg 0 true
  | s => s

def isRoot : PathSpec → Bool
  | .repositoryRoot _ => true
  | _ => false

/-- A valid digest is read back. -/
theorem digestOf_digestParts (h : validDigest dgst = true) :
    digestOf (splitDigest dgst).1 (splitDigest dgst).2 = dgst :=
  digest_eq (validDigest_cases h).1

/-- So is a name. -/
theorem nameOf_splitOn (name : Str) : nameOf (name.splitOn '/') = name := intercalate_splitOn '/'

/-- What comes before the first underscore. -/
theorem takeWhile_plain {a : List Str} {dir : Str} (ha : ∀ c ∈ a, plain c = true)
    (hdir : plain dir = false) (rest : List Str) : (a ++ dir :: rest).takeWhile plain = a := by
  rw [takeWhile_append_of_pos ha, takeWhile_cons_of_neg (by simp [hdir]), append_nil]

/-- It is the name. -/
theorem takeWhile_name (h : ValidName name) (dir : Str) (hdir : plain dir = false)
    (rest : List Str) :
    (name.splitOn '/' ++ dir :: rest).takeWhile plain = name.splitOn '/' ∧
      (name.splitOn '/' ++ dir :: rest).dropWhile plain = dir :: rest := by
  have hplain : ∀ c ∈ name.splitOn '/', plain c = true := fun c hc => (component_of_name h c hc).2
  refine ⟨takeWhile_plain hplain hdir rest, ?_⟩
  rw [dropWhile_append_of_pos hplain, dropWhile_cons_of_neg (by simp [hdir])]

/-- Below a repository. -/
theorem decode_home (rest : List Str) :
    decode (home name ++ rest) = decodeRepository (name.splitOn '/' ++ rest) := by
  simp [decode, home, top]

/-- Below the manifests of a repository. -/
theorem decode_manifests (h : ValidName name) (rest : List Str) :
    decode (home name ++ manifestsDir :: rest) =
      if rest.head? = some "revisions".toList then decodeRevision name (rest.drop 1)
      else decodeTag name (rest.drop 1) := by
  obtain ⟨htake, hdrop⟩ := takeWhile_name h manifestsDir (by decide) rest
  rw [decode_home, decodeRepository]
  simp only [htake, hdrop, nameOf_splitOn, if_true]

/-- Below its uploads. -/
theorem decode_uploads (h : ValidName name) (rest : List Str) :
    decode (home name ++ uploadsDir :: rest) = decodeUpload name rest := by
  obtain ⟨htake, hdrop⟩ := takeWhile_name h uploadsDir (by decide) rest
  have hmanifests : uploadsDir ≠ manifestsDir := by decide
  have hlayers : uploadsDir ≠ layersDir := by decide
  rw [decode_home, decodeRepository]
  simp only [htake, hdrop, nameOf_splitOn, if_neg hmanifests, if_neg hlayers]

/-- Below an upload with the id `..`. -/
theorem decode_escaped (h : ValidName name) {rest} (hrest : ∀ c ∈ rest, plain c = true) :
    decode (home name ++ rest) = decodeEscaped (name.splitOn '/' ++ rest) := by
  have hdrop : (name.splitOn '/' ++ rest).dropWhile plain = [] := by
    rw [dropWhile_append_of_pos fun c hc => (component_of_name h c hc).2]
    exact dropWhile_eq_nil_iff.2 hrest
  rw [decode_home, decodeRepository]
  simp only [hdrop]

/-- The last component decides. -/
theorem decodeEscaped_concat (front : List Str) (last : Str) :
    decodeEscaped (front ++ [last]) =
      if last = "data".toList ∨ last = "startedat".toList then
        decodeFile (nameOf front) ['.', '.'] [last]
      else if last ∈ algorithms.map Prod.fst then
        decodeFile (nameOf front.dropLast) ['.', '.'] ["hashstates".toList, last]
      else decodeFile (nameOf front.dropLast.dropLast) ['.', '.']
        ["hashstates".toList, front.getLastD [], last] := by
  unfold decodeEscaped
  rw [List.getLast?_concat, dropLast_concat]

/-- INTERNAL: the files of an upload are read back, for every id. -/
theorem decode_upload {name id : Str} (h : ValidName name) (hid : ValidID id) {file : List Str}
    (hfile : file = ["data".toList] ∨ file = ["startedat".toList] ∨
      (∃ alg ∈ algorithms.map Prod.fst, file = ["hashstates".toList, alg] ∨
        ∃ offset, file = ["hashstates".toList, alg, decimal offset])) :
    decode (home name ++ (uploadParts id ++ file)) = decodeFile name id file := by
  unfold uploadParts
  split
  next hdot =>
    -- the id `.`: the path is shorter by a component
    subst hdot
    rw [singleton_append, decode_uploads h]
    rcases hfile with rfl | rfl | ⟨alg, halg, rfl | ⟨offset, rfl⟩⟩
    · rfl
    · rfl
    · obtain ⟨-, -, hdata, hstarted, -⟩ := algorithm_cases halg
      simp only [decodeUpload, if_neg (not_or.2 ⟨hdata, hstarted⟩)]
    · obtain ⟨-, -, -, -, hstates, -⟩ := algorithm_cases halg
      simp only [decodeUpload, if_neg hstates]
  next hdot =>
    split
    next hdots =>
      -- the id `..`: the path is read from its end
      subst hdots
      rw [nil_append]
      rcases hfile with rfl | rfl | ⟨alg, halg, rfl | ⟨offset, rfl⟩⟩
      · rw [decode_escaped h (by simp [plain]), decodeEscaped_concat, if_pos (.inl rfl),
          nameOf_splitOn]
      · rw [decode_escaped h (by simp [plain]), decodeEscaped_concat, if_pos (.inr rfl),
          nameOf_splitOn]
      · obtain ⟨-, -, hdata, hstarted, -, hplain⟩ := algorithm_cases halg
        have hconcat : name.splitOn '/' ++ ["hashstates".toList, alg] =
            (name.splitOn '/' ++ ["hashstates".toList]) ++ [alg] := by simp
        rw [decode_escaped h (forall_mem_cons.2 ⟨rfl, by simpa using hplain⟩), hconcat,
          decodeEscaped_concat, if_neg (not_or.2 ⟨hdata, hstarted⟩), if_pos halg,
          dropLast_concat, nameOf_splitOn]
      · obtain ⟨-, -, -, -, -, hplain⟩ := algorithm_cases halg
        obtain ⟨-, hoffset, hdata, hstarted, hplain'⟩ := decimal_cases offset
        have hconcat : name.splitOn '/' ++ ["hashstates".toList, alg, decimal offset] =
            (name.splitOn '/' ++ ["hashstates".toList] ++ [alg]) ++ [decimal offset] := by simp
        have hrest : ∀ c ∈ ["hashstates".toList, alg, decimal offset], plain c = true :=
          forall_mem_cons.2 ⟨rfl, by simpa using ⟨hplain, hplain'⟩⟩
        rw [decode_escaped h hrest, hconcat, decodeEscaped_concat,
          if_neg (not_or.2 ⟨hdata, hstarted⟩), if_neg hoffset, dropLast_concat,
          dropLast_concat, nameOf_splitOn, getLastD_concat]
    next hdots =>
      rw [cons_append, decode_uploads h]
      rcases hfile with rfl | rfl | ⟨alg, halg, rfl | ⟨offset, rfl⟩⟩ <;> simp [decodeUpload]

/-- **The path of a valid spec tells the spec**, but for the offset of a listing. -/
theorem decode_layout (h : Valid s) (hroot : isRoot s = false) :
    decode (layout s) = some (canonical s) := by
  have hdigest : ∀ {dgst}, validDigest dgst = true →
      digestOf (splitDigest dgst).1 (splitDigest dgst).2 = dgst := digestOf_digestParts
  cases s with
  | manifestRevisions name => exact decode_manifests h _
  | manifestRevision name revision | manifestRevisionLink name revision =>
    refine (decode_manifests h.1 _).trans ?_
    simp [digestParts, decodeRevision, hdigest h.2, canonical]
  | manifestTags name => exact decode_manifests h _
  | manifestTag name tag | manifestTagCurrent name tag | manifestTagIndex name tag =>
    refine (decode_manifests h.1 _).trans ?_
    simp [decodeTag, canonical]
  | manifestTagIndexEntry name tag revision | manifestTagIndexEntryLink name tag revision =>
    refine (decode_manifests h.1 _).trans ?_
    simp [digestParts, decodeTag, hdigest h.2.2, canonical]
  | layerLink name digest =>
    obtain ⟨htake, hdrop⟩ := takeWhile_name h.1 layersDir (by decide)
      (digestParts digest false ++ ["link".toList])
    have hmanifests : layersDir ≠ manifestsDir := by decide
    rw [layout, decode_home, decodeRepository]
    simp only [htake, hdrop, nameOf_splitOn, if_neg hmanifests, if_true]
    simp [digestParts, hdigest h.2, canonical]
  | blobs => rfl
  | blob digest | blobData digest =>
    simp [layout, decode, top, digestParts, decodeBlob, hdigest h, canonical]
  | uploadData name id =>
    rw [layout, decode_upload h.1 h.2 (.inl rfl)]
    rfl
  | uploadStartedAt name id =>
    rw [layout, decode_upload h.1 h.2 (.inr (.inl rfl))]
    rfl
  | uploadHashState name id alg offset list =>
    cases list with
    | true =>
      have hlayout : layout (.uploadHashState name id alg offset true) =
          home name ++ (uploadParts id ++ ["hashstates".toList, alg]) := rfl
      rw [hlayout, decode_upload h.1 h.2.1 (.inr (.inr ⟨alg, h.2.2, .inl rfl⟩))]
      rfl
    | false =>
      have hlayout : layout (.uploadHashState name id alg offset false) =
          home name ++ (uploadParts id ++ ["hashstates".toList, alg, decimal offset]) := rfl
      rw [hlayout, decode_upload h.1 h.2.1 (.inr (.inr ⟨alg, h.2.2, .inr ⟨offset, rfl⟩⟩))]
      simp [decodeFile, parse_decimal, canonical]
  | repositoriesRoot => rfl
  | repositoryRoot name => cases hroot

/-! ## Separation -/

def repository : PathSpec → Option Str
  | .manifestRevisions name => some name
  | .manifestRevision name _ => some name
  | .manifestRevisionLink name _ => some name
  | .manifestTags name => some name
  | .manifestTag name _ => some name
  | .manifestTagCurrent name _ => some name
  | .manifestTagIndex name _ => some name
  | .manifestTagIndexEntry name _ _ => some name
  | .manifestTagIndexEntryLink name _ _ => some name
  | .layerLink name _ => some name
  | .blobs => none
  | .blob _ => none
  | .blobData _ => none
  | .uploadData name _ => some name
  | .uploadStartedAt name _ => some name
  | .uploadHashState name _ _ _ _ => some name
  | .repositoriesRoot => none
  | .repositoryRoot name => some name

/-- What follows the name in a path: something that starts with an underscore, or nothing that
does. -/
def Follows (t : List Str) : Prop :=
  (∃ dir rest, t = dir :: rest ∧ plain dir = false) ∨ ∀ c ∈ t, plain c = true

/-- The files of an upload follow the name. -/
theorem follows_upload (id : Str) {file} (h : ∀ c ∈ file, plain c = true) :
    Follows (uploadParts id ++ file) := by
  unfold uploadParts
  split
  next => exact .inl ⟨uploadsDir, _, rfl, by decide⟩
  next =>
    split
    next => exact .inr h
    next => exact .inl ⟨uploadsDir, _, rfl, by decide⟩

/-- The path of a spec of a repository: its name, and what follows. -/
theorem layout_of_repository (h : Valid s) (hname : repository s = some name) :
    ValidName name ∧ ∃ t, layout s = home name ++ t ∧ Follows t := by
  have hmanifests : ∀ rest, Follows (manifestsDir :: rest) :=
    fun rest => .inl ⟨manifestsDir, rest, rfl, by decide⟩
  cases s with
  | manifestRevisions _ | manifestTags _ => cases hname; exact ⟨h, _, rfl, hmanifests _⟩
  | manifestRevision _ _ | manifestRevisionLink _ _ | manifestTag _ _ | manifestTagCurrent _ _
  | manifestTagIndex _ _ | manifestTagIndexEntry _ _ _ | manifestTagIndexEntryLink _ _ _ =>
    cases hname; exact ⟨h.1, _, rfl, hmanifests _⟩
  | layerLink _ _ => cases hname; exact ⟨h.1, _, rfl, .inl ⟨layersDir, _, rfl, by decide⟩⟩
  | blobs | blob _ | blobData _ | repositoriesRoot => cases hname
  | uploadData _ id | uploadStartedAt _ id =>
    cases hname
    exact ⟨h.1, _, rfl, follows_upload id (by simp [plain])⟩
  | uploadHashState _ id alg offset list =>
    cases hname
    refine ⟨h.1, _, rfl, follows_upload id ?_⟩
    obtain ⟨-, -, -, -, -, hplain⟩ := algorithm_cases h.2.2
    obtain ⟨-, -, -, -, hplain'⟩ := decimal_cases offset
    refine forall_mem_cons.2 ⟨rfl, forall_mem_cons.2 ⟨hplain, ?_⟩⟩
    cases list with
    | true => simp
    | false => simpa using hplain'
  | repositoryRoot _ =>
    cases hname
    exact ⟨h, [], by simp [layout], .inr (by simp)⟩

/-- INTERNAL: names of which one with its directory begins the other are the same. -/
theorem eq_of_prefix {a b t dir} (ha : ∀ c ∈ a, plain c = true)
    (hb : ∀ c ∈ b, plain c = true) (hdir : plain dir = false) (ht : Follows t)
    (h : a ++ [dir] <+: b ++ t) : a = b := by
  obtain ⟨rest, hrest⟩ := h
  rw [append_assoc, singleton_append] at hrest
  rcases ht with ⟨dir', rest', rfl, hdir'⟩ | hplain
  · rw [← takeWhile_plain ha hdir rest, hrest, takeWhile_plain hb hdir']
  · have hmem : dir ∈ b ++ t := by
      rw [← hrest]
      simp
    rw [(mem_append.1 hmem).elim (hb dir) (hplain dir)] at hdir
    cases hdir

/-- **Different specs have different paths, and no path of a repository lies in a directory of
another one.** The offset of a listing does not count. -/
theorem paths_separate :
    (∀ s s', Valid s → Valid s' → isRoot s = false → isRoot s' = false →
        canonical s ≠ canonical s' → ∃ p p', pathFor s = some p ∧ pathFor s' = some p' ∧ p ≠ p') ∧
      ∀ s name other dir, Valid s → repository s = some name → ValidName other → other ≠ name →
        dir ∈ [manifestsDir, layersDir, uploadsDir] →
          ∃ p, pathFor s = some p ∧ ¬ Inside '/' (join (repoPrefix ++ [other, dir])) p := by
  constructor
  · intro s s' hs hs' hroot hroot' hdistinct
    refine ⟨_, _, pathFor_eq hs, pathFor_eq hs', fun heq => hdistinct ?_⟩
    have hlayout := render_injective (layout_ne_nil s) (layout_ne_nil s') (fine_layout hs)
      (fine_layout hs') heq
    have hdecode := decode_layout hs hroot
    rw [hlayout, decode_layout hs' hroot'] at hdecode
    exact (Option.some.inj hdecode).symm
  · intro s name other dir hs hname hother hdistinct hdir
    refine ⟨_, pathFor_eq hs, fun hinside => hdistinct ?_⟩
    obtain ⟨hvalid, t, hlayout, hfollows⟩ := layout_of_repository hs hname
    have hspecial : ∀ d ∈ [manifestsDir, layersDir, uploadsDir], Fine d ∧ plain d = false := by
      decide
    have hfine := fine_single (hspecial dir hdir).1
    rw [join_home hother hfine] at hinside
    have hstarts := prefix_of_inside (by simp [home_ne_nil]) (layout_ne_nil s)
      (fine_append (fine_home hother) hfine) (fine_layout hs) hinside
    -- the root and the word `repositories` are the same on both sides
    have hnames : other.splitOn '/' ++ [dir] <+: name.splitOn '/' ++ t := by
      rw [hlayout] at hstarts
      simpa [home, prefix_append_right_inj] using hstarts
    have hsame := eq_of_prefix (fun c hc => (component_of_name hother c hc).2)
      (fun c hc => (component_of_name hvalid c hc).2) (hspecial dir hdir).2 hfollows hnames
    rw [← nameOf_splitOn other, hsame, nameOf_splitOn]

/-- The listings of the hash states of an upload have one path, whatever the offset. -/
theorem listings_share_path :
    Valid (.uploadHashState ['a'] ['u'] "sha256".toList 0 true) ∧
      Valid (.uploadHashState ['a'] ['u'] "sha256".toList 1 true) ∧
      PathSpec.uploadHashState ['a'] ['u'] "sha256".toList 0 true ≠
        .uploadHashState ['a'] ['u'] "sha256".toList 1 true ∧
      pathFor (.uploadHashState ['a'] ['u'] "sha256".toList 0 true) =
        pathFor (.uploadHashState ['a'] ['u'] "sha256".toList 1 true) := by
  obtain ⟨hname, hid⟩ : ValidName ['a'] ∧ ValidID ['u'] := by decide +kernel
  exact ⟨⟨hname, hid, by decide⟩, ⟨hname, hid, by decide⟩, by simp, rfl⟩

end ContainerRegistry.Analysis.Paths
