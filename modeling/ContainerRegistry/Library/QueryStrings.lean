import Mathlib.Data.Nat.Digits.Defs

/-!
# Query strings and decimal numbers

A query is `key=value` joined with `&`, where bytes are escaped with `%` and two hexadecimal digits.
Reading splits it at `&` and `;`, and leaves out what cannot be unescaped. Numbers have a sign and
64 bits.
-/

namespace ContainerRegistry.Library.Query

open List

abbrev Byte := Fin 256

abbrev Text := List Byte

def ascii (s : String) : Text := s.toList.map fun c => Fin.ofNat 256 c.toNat

/-! ## Escapes -/

def isDigit (b : Byte) : Bool := 48 ≤ b && b ≤ 57

/-- Letters, digits and `-`, `_`, `.`, `~`. -/
def unreserved (b : Byte) : Bool :=
  isDigit b || (65 ≤ b && b ≤ 90) || (97 ≤ b && b ≤ 122) || b == 45 || b == 95 || b == 46 ||
    b == 126

def hex (n : ℕ) : Byte := Fin.ofNat 256 (if n < 10 then 48 + n else 55 + n)

def unhex (b : Byte) : Option ℕ :=
  if isDigit b then some (b - 48)
  else if 97 ≤ b && b ≤ 102 then some (b - 87)
  else if 65 ≤ b && b ≤ 70 then some (b - 55)
  else none

/-- A space is written as `+`. -/
def escapeByte (b : Byte) : Text :=
  if b = 32 then [43]
  else if unreserved b then [b]
  else [37, hex (b / 16), hex (b % 16)]

def escape (s : Text) : Text := s.flatMap escapeByte

def unescape : Text → Option Text
  | [] => some []
  | b :: s =>
    if b = 37 then
      match s with
      | h :: l :: rest => do
        let high ← unhex h
        let low ← unhex l
        let tail ← unescape rest
        some (Fin.ofNat 256 (16 * high + low) :: tail)
      | _ => none
    else if b = 43 then (unescape s).map fun tail => 32 :: tail
    else (unescape s).map fun tail => b :: tail

theorem unhex_hex (b : Byte) : unhex (hex (b / 16)) = some (b / 16 : ℕ) ∧
    unhex (hex (b % 16)) = some (b % 16 : ℕ) ∧
    Fin.ofNat 256 (16 * (b / 16 : ℕ) + (b % 16 : ℕ)) = b := by
  revert b
  decide +kernel

theorem unescape_cons (b : Byte) (s : Text) (hb : b ≠ 37) :
    unescape (b :: s) = (unescape s).map fun tail => (if b = 43 then 32 else b) :: tail := by
  rw [unescape.eq_def]
  by_cases hplus : b = 43
  · subst hplus
    rfl
  · simp only [if_neg hb, if_neg hplus]

/-- A byte is read back. -/
theorem unescape_escapeByte (b : Byte) (s : Text) :
    unescape (escapeByte b ++ s) = (unescape s).map fun tail => b :: tail := by
  unfold escapeByte
  split
  next hspace =>
    subst hspace
    exact unescape_cons 43 s (by decide)
  next hspace =>
    split
    next hplain =>
      have hpercent : b ≠ 37 := by
        rintro rfl
        exact absurd hplain (by decide)
      have hplus : b ≠ 43 := by
        rintro rfl
        exact absurd hplain (by decide)
      rw [singleton_append, unescape_cons b s hpercent]
      simp only [if_neg hplus]
    next hplain =>
      obtain ⟨hhigh, hlow, hbyte⟩ := unhex_hex b
      simp only [cons_append, nil_append, unescape, if_true, hhigh, hlow,
        Option.bind_eq_bind, Option.bind_some, hbyte]
      cases unescape s <;> rfl

theorem unescape_escape (s : Text) : unescape (escape s) = some s := by
  induction s with
  | nil => rfl
  | cons b s ih => rw [escape, flatMap_cons, unescape_escapeByte, ← escape, ih, Option.map_some]

/-- The bytes that separate: `&`, `;` and `=`. -/
def separators : List Byte := [38, 59, 61]

theorem hex_notMem_separators (n : ℕ) (hn : n < 16) : hex n ∉ separators := by
  have hall : ∀ n : Fin 16, hex n.val ∉ separators := by decide
  exact hall ⟨n, hn⟩

/-- It has no separator. -/
theorem separator_notMem_escapeByte (c b : Byte) (hb : b ∈ separators) : b ∉ escapeByte c := by
  have hreserved : unreserved b = false ∧ b ≠ 43 ∧ b ≠ 37 := by
    simp only [separators, mem_cons, not_mem_nil, or_false] at hb
    rcases hb with rfl | rfl | rfl <;> decide
  obtain ⟨hreserved, hplus, hpercent⟩ := hreserved
  unfold escapeByte
  split
  · exact fun hmem => hplus (mem_singleton.1 hmem)
  split
  next hunreserved =>
    intro hmem
    rw [mem_singleton.1 hmem, hunreserved] at hreserved
    cases hreserved
  · intro hmem
    simp only [mem_cons, not_mem_nil, or_false] at hmem
    rcases hmem with rfl | rfl | rfl
    · exact hpercent rfl
    · exact hex_notMem_separators _ (by omega) hb
    · exact hex_notMem_separators _ (by omega) hb

theorem separator_notMem_escape (s : Text) (b : Byte) (hb : b ∈ separators) : b ∉ escape s := by
  rw [escape, mem_flatMap]
  rintro ⟨c, -, hmem⟩
  exact separator_notMem_escapeByte c b hb hmem

/-! ## Queries -/

def encodePair (p : Text × Text) : Text := escape p.1 ++ 61 :: escape p.2

def encode (pairs : List (Text × Text)) : Text := List.intercalate [38] (pairs.map encodePair)

def parsePair (s : Text) : Option (Text × Text) :=
  if s = [] then none
  else do
    let key ← unescape (s.takeWhile (· ≠ 61))
    let value ← unescape ((s.dropWhile (· ≠ 61)).drop 1)
    some (key, value)

def parse (query : Text) : List (Text × Text) :=
  (query.splitOnP fun b => b == 38 || b == 59).filterMap parsePair

def get (values : List (Text × Text)) (key : Text) : Text :=
  ((values.find? fun p => p.1 = key).map Prod.snd).getD []

/-- A pair is read back. -/
theorem parsePair_encodePair (p : Text × Text) : parsePair (encodePair p) = some p := by
  have hkey : ∀ b ∈ escape p.1, decide (b ≠ 61) = true := by
    intro b hb
    rw [decide_eq_true_eq]
    rintro rfl
    exact separator_notMem_escape p.1 61 (by decide) hb
  have hne : encodePair p ≠ [] := by simp [encodePair]
  rw [parsePair, if_neg hne, encodePair, takeWhile_append_of_pos hkey, dropWhile_append_of_pos hkey]
  simp [unescape_escape]

/-- A pair has no separator in it. -/
theorem encodePair_unsplit (p : Text × Text) :
    ∀ b ∈ encodePair p, (b == 38 || b == 59) = false := by
  intro b hb
  by_contra hsep
  rw [Bool.not_eq_false, Bool.or_eq_true, beq_iff_eq, beq_iff_eq] at hsep
  have hmem : b ∈ separators := by rcases hsep with rfl | rfl <;> decide
  rw [encodePair, mem_append, mem_cons] at hb
  rcases hb with hb | rfl | hb
  · exact separator_notMem_escape p.1 b hmem hb
  · rcases hsep with h | h <;> exact absurd h (by decide)
  · exact separator_notMem_escape p.2 b hmem hb

/-- **What is written in a query is read back.** -/
theorem parse_encode (pairs : List (Text × Text)) : parse (encode pairs) = pairs := by
  induction pairs with
  | nil => rfl
  | cons p pairs ih =>
    cases pairs with
    | nil =>
      have hsingle : encode [p] = encodePair p := by simp [encode]
      rw [parse, hsingle, splitOnP_eq_singleton (encodePair_unsplit p)]
      simp [parsePair_encodePair]
    | cons q pairs =>
      have hcons : encode (p :: q :: pairs) = encodePair p ++ 38 :: encode (q :: pairs) := by
        simp [encode, List.intercalate]
      rw [parse, hcons, splitOnP_append_cons_of_forall_mem (encodePair_unsplit p) 38
        (by decide),
        filterMap_cons, parsePair_encodePair]
      exact congrArg (p :: ·) ih

/-! ## Numbers -/

def itoa (n : ℕ) : Text :=
  if n = 0 then [48] else ((Nat.digits 10 n).reverse.map fun d => Fin.ofNat 256 (48 + d))

def atoiDigits (s : Text) : Option ℕ :=
  if s ≠ [] ∧ s.all isDigit then some (s.foldl (fun n b => 10 * n + (b.val - 48)) 0) else none

def atoi (s : Text) : Option Int :=
  let parsed : Option Int :=
    match s with
    | [] => none
    | b :: rest =>
      if b = 45 then (atoiDigits rest).map fun n : ℕ => -(n : Int)
      else if b = 43 then (atoiDigits rest).map fun n : ℕ => (n : Int)
      else (atoiDigits s).map fun n : ℕ => (n : Int)
  parsed.filter fun n => -9223372036854775808 ≤ n && n ≤ 9223372036854775807

/-- Digits are read back. -/
theorem foldl_digits (ds : List ℕ) (hds : ∀ d ∈ ds, d < 10) :
    ((ds.reverse.map fun d => (Fin.ofNat 256 (48 + d) : Byte)).foldl
      (fun n b => 10 * n + (b.val - 48)) 0) = Nat.ofDigits 10 ds := by
  induction ds with
  | nil => rfl
  | cons d ds ih =>
    have hd : d < 10 := hds d mem_cons_self
    have hval : (Fin.ofNat 256 (48 + d)).val - 48 = d := by
      rw [Fin.val_ofNat, Nat.mod_eq_of_lt (by omega)]
      omega
    rw [reverse_cons, map_append, foldl_append,
      ih fun d' hd' => hds d' (mem_cons_of_mem _ hd'), Nat.ofDigits_cons]
    simp only [map_cons, map_nil, foldl_cons, foldl_nil, hval]
    omega

theorem isDigit_ofNat (d : ℕ) (hd : d < 10) : isDigit (Fin.ofNat 256 (48 + d)) = true := by
  have hall : ∀ d : Fin 10, isDigit (Fin.ofNat 256 (48 + d.val)) = true := by decide
  exact hall ⟨d, hd⟩

/-- So is a number. -/
theorem atoiDigits_itoa (n : ℕ) : atoiDigits (itoa n) = some n := by
  unfold itoa
  split
  next hn =>
    subst hn
    rfl
  next hn =>
    have hdigits : ∀ d ∈ Nat.digits 10 n, d < 10 := fun d => Nat.digits_lt_base (by decide)
    have hne : Nat.digits 10 n ≠ [] := Nat.digits_ne_nil_iff_ne_zero.2 hn
    have hall : (((Nat.digits 10 n).reverse.map fun d => (Fin.ofNat 256 (48 + d) : Byte)).all
        isDigit) = true := by
      rw [all_map, all_eq_true]
      intro d hd
      exact isDigit_ofNat d (hdigits d (mem_reverse.1 hd))
    rw [atoiDigits, if_pos ⟨by simpa using hne, hall⟩, foldl_digits _ hdigits, Nat.ofDigits_digits]

/-- **A number is read back** if it is within 64 bits. -/
theorem atoi_itoa (n : ℕ) :
    atoi (itoa n) = if n ≤ 9223372036854775807 then some (n : Int) else none := by
  have hdigits := atoiDigits_itoa n
  have hsome : itoa n ≠ [] ∧ (itoa n).all isDigit = true := by
    by_contra hnot
    rw [atoiDigits, if_neg hnot] at hdigits
    cases hdigits
  unfold atoi
  cases hs : itoa n with
  | nil => exact absurd hs hsome.1
  | cons b rest =>
    have hdigit : isDigit b = true := by
      rw [hs, all_cons, Bool.and_eq_true] at hsome
      exact hsome.2.1
    have hminus : b ≠ 45 := by
      rintro rfl
      exact absurd hdigit (by decide)
    have hplus : b ≠ 43 := by
      rintro rfl
      exact absurd hdigit (by decide)
    rw [hs] at hdigits
    simp only [hminus, hplus, if_false, hdigits, Option.map_some, Option.filter_some]
    refine if_congr ?_ rfl rfl
    simp only [Bool.and_eq_true, decide_eq_true_eq]
    omega

theorem atoi_le {s n} (h : atoi s = some n) : n ≤ 9223372036854775807 := by
  obtain ⟨-, hrange⟩ := Option.filter_eq_some_iff.1 h
  simp only [Bool.and_eq_true, decide_eq_true_eq] at hrange
  exact hrange.2

end ContainerRegistry.Library.Query
