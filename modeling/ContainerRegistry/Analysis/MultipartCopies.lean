import Mathlib.Algebra.Order.Ring.Int
import Mathlib.Data.List.Perm.Basic
import ContainerRegistry.Library.Runs
import ContainerRegistry.Model.MultipartCopies

/-!
# Which bytes a multipart copy copies

The arithmetic is that of `int64`. For every size an object can have the sum of the size and the
chunk size does not overflow, and the parts make up the object (`Covers`).
-/

namespace ContainerRegistry.Analysis.MultipartCopies

open Library Model.MultipartCopies List Function

/-! ## The ranges -/

/-- The ranges are not empty, are in order and apart, and have exactly the bytes of the object. -/
structure Covers (size : Int64) (ranges : List (Int64 × Int64)) : Prop where
  nonempty : ∀ r ∈ ranges, r.1 ≤ r.2
  ordered : ranges.Pairwise fun r r' => r.2 < r'.1
  exact : ∀ b : Int64, 0 ≤ b ∧ b < size ↔ ∃ r ∈ ranges, r.1 ≤ b ∧ b ≤ r.2

variable {d : Driver} {size : Int64} {i : ℕ}

abbrev chunk (d : Driver) : ℤ := d.multipartCopyChunkSize.toInt

theorem chunk_bounds (d : Driver) : 0 < chunk d ∧ chunk d < 2 ^ 33 := by
  have hmin := Int64.le_iff_toInt_le.1 d.chunkSize_bounds.1
  have hmax := Int64.le_iff_toInt_le.1 d.chunkSize_bounds.2
  have hlow : minChunkSize.toInt = 5242880 := by decide
  have hhigh : maxChunkSize.toInt = 5368709120 := by decide
  unfold chunk
  omega

theorem size_pos (h : d.multipartCopyThresholdSize < size) : 0 < size.toInt := by
  have hzero := Int64.le_iff_toInt_le.1 d.threshold_bounds.1
  have hlt := Int64.lt_iff_toInt_lt.1 h
  have : (0 : Int64).toInt = 0 := by decide
  omega

theorem toInt_eq {x : Int64} {v : ℤ} (h : x.toInt = v.bmod (2 ^ 64)) (hlow : -2 ^ 63 ≤ v)
    (hhigh : v < 2 ^ 63) : x.toInt = v := by
  rw [h, Int.bmod_eq_of_le (by omega) (by omega)]

section

variable (hpos : 0 < size.toInt) (hfits : size.toInt + chunk d ≤ 2 ^ 63)
include hfits

include hpos in
/-- The number of parts does not overflow. -/
theorem toInt_numParts : (numParts d size).toInt = (size.toInt + chunk d - 1) / chunk d := by
  obtain ⟨hchunk, hlt⟩ := chunk_bounds d
  have hsum : (size + d.multipartCopyChunkSize - 1).toInt = size.toInt + chunk d - 1 := by
    refine toInt_eq ?_ (by omega) (by omega)
    rw [Int64.toInt_sub, Int64.toInt_add, Int.bmod_sub_bmod]
    rfl
  have hdiv := Int.ediv_le_self (chunk d) (a := size.toInt + chunk d - 1) (by omega)
  refine toInt_eq ?_ ?_ (by omega)
  · rw [numParts, Int64.toInt_div, hsum, Int.tdiv_eq_ediv_of_nonneg (by omega)]
  · have := Int.ediv_nonneg (a := size.toInt + chunk d - 1) (by omega) hchunk.le
    omega

include hpos in
/-- The parts are those that begin before the end of the object. -/
theorem lt_numParts_iff : i < (numParts d size).toInt ↔ i * chunk d < size.toInt := by
  rw [toInt_numParts hpos hfits, ← Int.add_one_le_iff, Int.le_ediv_iff_mul_le (chunk_bounds d).1,
    Int.add_mul]
  omega

/-- No bound of a range overflows. -/
theorem toInt_byteRange (hi : i * chunk d < size.toInt) :
    (byteRange d size i).1.toInt = i * chunk d ∧
      (byteRange d size i).2.toInt = min (i * chunk d + chunk d) size.toInt - 1 := by
  obtain ⟨hchunk, hlt⟩ := chunk_bounds d
  have hle := le_mul_of_one_le_right (Int.natCast_nonneg i) hchunk
  have hindex : (Int64.ofNat i).toInt = i := Int64.toInt_ofNat_of_lt (by omega)
  have hfirst : (byteRange d size i).1.toInt = i * chunk d := by
    refine toInt_eq ?_ (by omega) (by omega)
    rw [byteRange, Int64.toInt_mul, hindex]
  have hlast : (Int64.ofNat i * d.multipartCopyChunkSize + d.multipartCopyChunkSize - 1).toInt =
      i * chunk d + chunk d - 1 := by
    refine toInt_eq ?_ (by omega) (by omega)
    rw [Int64.toInt_sub, Int64.toInt_add, Int.bmod_sub_bmod, Int64.toInt_mul, hindex,
      Int.sub_eq_add_neg, Int.add_assoc, Int.bmod_add_bmod, ← Int.add_assoc]
    rfl
  refine ⟨hfirst, ?_⟩
  unfold byteRange
  dsimp only
  split
  next hle =>
    rw [Int64.le_iff_toInt_le, hlast] at hle
    rw [min_eq_right (by omega)]
    exact toInt_eq (Int64.toInt_sub _ _) (by omega) (by omega)
  next hgt =>
    rw [Int64.le_iff_toInt_le, hlast] at hgt
    rw [hlast, min_eq_left (by omega)]

include hpos in
/-- The ranges cover the object. -/
theorem covers_ranges :
    Covers size ((range (numParts d size).toInt.toNat).map (byteRange d size)) := by
  obtain ⟨hchunk, -⟩ := chunk_bounds d
  have hmem : ∀ {i}, i ∈ range (numParts d size).toInt.toNat → i * chunk d < size.toInt := fun hi =>
    (lt_numParts_iff hpos hfits).1 (Int.lt_toNat.1 (mem_range.1 hi))
  refine ⟨?_, ?_, fun b => ?_⟩
  · intro r hr
    obtain ⟨i, hi, rfl⟩ := mem_map.1 hr
    obtain ⟨hfirst, hlast⟩ := toInt_byteRange hfits (hmem hi)
    have := hmem hi
    rw [Int64.le_iff_toInt_le, hfirst, hlast]
    omega
  · refine pairwise_map.2 (pairwise_lt_range.imp_of_mem fun {i j} hi hj hlt => ?_)
    obtain ⟨-, hlast⟩ := toInt_byteRange hfits (hmem hi)
    obtain ⟨hfirst, -⟩ := toInt_byteRange hfits (hmem hj)
    have hnext : (i + 1 : ℤ) * chunk d ≤ j * chunk d :=
      Int.mul_le_mul_of_nonneg_right (by omega) hchunk.le
    rw [Int64.lt_iff_toInt_lt, hfirst, hlast]
    rw [Int.add_mul] at hnext
    omega
  · have hzero : (0 : Int64).toInt = 0 := rfl
    rw [Int64.le_iff_toInt_le, Int64.lt_iff_toInt_lt, hzero]
    constructor
    · rintro ⟨hlow, hhigh⟩
      obtain ⟨i, hi⟩ := Int.eq_ofNat_of_zero_le (Int.ediv_nonneg hlow hchunk.le)
      have hdiv := Int.emod_add_mul_ediv b.toInt (chunk d)
      have hmod := Int.emod_lt_of_pos b.toInt hchunk
      have hmod' := Int.emod_nonneg b.toInt hchunk.ne'
      rw [hi, Int.mul_comm] at hdiv
      have hlt : i * chunk d < size.toInt := by omega
      obtain ⟨hfirst, hlast⟩ := toInt_byteRange hfits hlt
      refine ⟨_, mem_map_of_mem (mem_range.2 (Int.lt_toNat.2 ((lt_numParts_iff hpos hfits).2 hlt))),
        ?_⟩
      rw [Int64.le_iff_toInt_le, Int64.le_iff_toInt_le, hfirst, hlast]
      omega
    · rintro ⟨r, hr, hlow, hhigh⟩
      obtain ⟨i, hi, rfl⟩ := mem_map.1 hr
      obtain ⟨hfirst, hlast⟩ := toInt_byteRange hfits (hmem hi)
      rw [Int64.le_iff_toInt_le] at hlow hhigh
      have := Int.mul_nonneg (Int.natCast_nonneg i) hchunk.le
      omega

end

/-! ## The goroutines -/

variable {τ ε : Type} {n : ℕ} {s s' : State τ ε}

/-- The part is in its place in the list. -/
def Filled (s : State τ ε) (i : ℕ) : Prop := (s.completedParts i).map (·.partNumber) = some (i + 1)

/-- The parts that have been answered, with their errors. -/
def answered (s : State τ ε) : List (ℕ × Option ε) := s.errChan ++ s.received

/-- Each part is in one place, and is filled when it is answered without an error. -/
structure Inv (d : Driver) (size : Int64) (n : ℕ) (s : State τ ε) : Prop where
  parts : s.copying ++ (answered s).map (·.1) ~ range n
  requests : s.requests ~ ((answered s).map (·.1)).map (request d size)
  filled : ∀ i, (i, none) ∈ answered s → Filled s i
  unfailed : (∀ e, s.result ≠ some (.error e)) → ∀ m ∈ s.received, m.2 = none
  result : ∀ parts, s.result = some (.ok parts) → s.received.length = n ∧
    parts.map (·.map (·.partNumber)) = (range n).map fun i => some (i + 1)

/-- When all parts have been received, each of them is answered and filled. -/
theorem filled_of_received (h : Inv d size n s) (hn : s.received.length = n)
    (hresult : ∀ e, s.result ≠ some (.error e)) :
    s.requests ~ (range n).map (request d size) ∧ ∀ i < n, Filled s i := by
  have hlength := h.parts.length_eq
  simp only [answered, length_append, length_map, length_range] at hlength
  have hnil : s.copying = [] ∧ s.errChan = [] := by
    simp only [← length_eq_zero_iff]
    omega
  have hperm := h.parts
  have hrequests := h.requests
  simp only [answered, hnil, nil_append] at hperm hrequests
  refine ⟨hrequests.trans (hperm.map _), fun i hi => ?_⟩
  obtain ⟨⟨j, err⟩, hm, rfl⟩ := mem_map.1 (hperm.mem_iff.2 (mem_range.2 hi))
  obtain rfl : err = none := h.unfailed hresult _ hm
  exact h.filled j (mem_append_right _ hm)

/-- INTERNAL: every step of the copy. -/
theorem inv_step (h : Inv d size n s) {a : Action τ ε}
    (hstep : step d size n s a = some s') : Inv d size n s' := by
  cases a with
  | copyPart k answer =>
    simp only [step, Option.map_eq_some_iff] at hstep
    obtain ⟨i, hi, rfl⟩ := hstep
    obtain ⟨hk, rfl⟩ := List.getElem?_eq_some_iff.1 hi
    have hans : ∀ err : Option ε,
        s.errChan ++ [(s.copying[k], err)] ++ s.received ~ (s.copying[k], err) :: answered s :=
      fun err => (perm_append_singleton _ _).append_right _
    have hparts : ∀ err : Option ε, s.copying.eraseIdx k ++
        (s.errChan ++ [(s.copying[k], err)] ++ s.received).map (·.1) ~ range n := fun err => by
      refine (((hans err).map _).append_left _).trans (perm_middle.trans (Perm.trans ?_ h.parts))
      exact (getElem_cons_eraseIdx_perm hk).append_right _
    have hrequests : ∀ err : Option ε, request d size s.copying[k] :: s.requests ~
        ((s.errChan ++ [(s.copying[k], err)] ++ s.received).map (·.1)).map (request d size) :=
      fun err => (h.requests.cons _).trans (((hans err).map Prod.fst).map (request d size)).symm
    cases answer with
    | error e =>
      refine ⟨hparts _, hrequests _, fun j hj => h.filled j ?_, h.unfailed, h.result⟩
      exact (mem_cons.1 ((hans _).mem_iff.1 hj)).resolve_left nofun
    | ok eTag =>
      refine ⟨hparts _, hrequests _, fun j hj => ?_, h.unfailed, h.result⟩
      by_cases hji : j = s.copying[k]
      · simp [Filled, hji]
      · have hold := h.filled j ((mem_cons.1 ((hans _).mem_iff.1 hj)).resolve_left fun heq =>
          hji (congrArg (·.1) heq))
        exact (congrArg _ (update_of_ne hji _ _)).trans hold
  | receive =>
    simp only [step] at hstep
    split at hstep
    next i err rest hresult hchan =>
      obtain ⟨-, ⟨⟩⟩ := Option.ite_none_right_eq_some.1 hstep
      have hans : rest ++ (i, err) :: s.received ~ answered s := by
        rw [answered, hchan]
        exact perm_middle
      refine ⟨?_, ?_, fun j hj => h.filled j (hans.mem_iff.1 hj), fun hnone => ?_, ?_⟩
      · exact ((hans.map _).append_left _).trans h.parts
      · exact h.requests.trans ((hans.map _).map _).symm
      · cases err with
        | none => exact forall_mem_cons.2 ⟨rfl, h.unfailed (by simp [hresult])⟩
        | some e => exact absurd rfl (hnone e)
      · cases err <;> nofun
    · cases hstep
  | complete =>
    obtain ⟨⟨hresult, hn⟩, ⟨⟩⟩ := Option.ite_none_right_eq_some.1 hstep
    rw [Option.isNone_iff_eq_none] at hresult
    have hok : ∀ e, s.result ≠ some (.error e) := by simp [hresult]
    refine ⟨h.parts, h.requests, h.filled, fun _ => h.unfailed hok, ?_⟩
    rintro parts ⟨⟩
    refine ⟨hn, ?_⟩
    rw [map_map]
    exact map_congr_left fun i hi => (filled_of_received h hn hok).2 i (mem_range.1 hi)

theorem inv_of_reach (h : Reach (step d size n) (fun _ _ => True) (start (τ := τ) (ε := ε) n) s) :
    Inv d size n s := by
  refine h.invariant ⟨by simp [start, answered], .refl _, nofun, nofun, nofun⟩ ?_
  exact fun _ _ _ _ hinv _ hstep => inv_step hinv hstep

/-- S3 stores no larger objects. -/
def maxObjectSize : Int64 := 5 * 1024 * 1024 * 1024 * 1024

theorem fits_of_object (h : size ≤ maxObjectSize) : size.toInt + chunk d ≤ 2 ^ 63 := by
  have hlt := (chunk_bounds d).2
  have hle := Int64.le_iff_toInt_le.1 h
  have hmax : maxObjectSize.toInt = 5497558138880 := by decide
  omega

/-- The parameters that are installed. s3.go:69-81 -/
def standard : Driver where
  multipartCopyChunkSize := 32 * 1024 * 1024
  multipartCopyThresholdSize := 32 * 1024 * 1024
  chunkSize_bounds := by decide
  threshold_bounds := by decide

-- for a number beyond every object the count of the parts would be negative
example : copy (τ := ℕ) (ε := ℕ) standard 9223372036854775807 = none := by decide

end ContainerRegistry.Analysis.MultipartCopies
