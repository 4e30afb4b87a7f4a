import ContainerRegistry.Model.Readers
import Mathlib.Algebra.Group.Int.Defs
import Mathlib.Algebra.Group.Nat.Defs
import Mathlib.Tactic.Common

/-!
# Readers against the content

A reader is compared with a position in the content (`Follows`). The HTTP reader fails at the end of
the content and on answers without a size (`Clear`), without moving the position.
-/

namespace ContainerRegistry.Analysis.Readers

open Model.Readers List

variable {α : Type}

section Spec

variable (content : List α)

/-- Where a seek leads to, without regard to the range of an `int64`. -/
def target (pos : ℤ) (off : Int64) : Whence → ℤ
  | .seekStart => off.toInt
  | .seekCurrent => pos + off.toInt
  | .seekEnd => content.length + off.toInt

variable (told : ℕ → ℤ → ℤ → Option Err → Prop)

/-- What a call at `pos` may be answered, with the position after it. A `sure` call fails only if it
is a seek to no position, and `told` is what it says about the end. It reads something, where there
is something to read and the stream hands it out. -/
def Serves (sure : Prop) (piece : Piece) (pos : ℤ) : Call → Answer α → Option ℤ → Prop
  | .read m, .read out err, next => out.length ≤ m ∧ out <+: content.drop pos.toNat ∧
      next = some (pos + out.length) ∧ (sure → told m pos (pos + out.length) err ∧
        (pos < content.length → 0 < m → 0 < piece.size → out ≠ []))
  | .seek off whence, .seek p err, next =>
      let t := target content pos off whence
      (0 ≤ t ∧ p.toInt = t ∧ err = none ∧ next = some t) ∨
      (err ≠ none ∧ next = some pos ∧
        (sure → err = some .negative ∧ p.toInt = pos ∧ ¬ (0 ≤ t ∧ t < 2 ^ 63)))
  | .close, .close _, next => next = none
  | _, _, _ => False

/-- The answers to calls are those of a reader at a position, or of a closed one. -/
def Follows {σ ρ : Type} (exec : σ → Call → ρ × Piece → Answer α × σ)
    (sure : σ → Call → ρ × Piece → Prop) : σ → Option ℤ → List (Call × ρ × Piece) → Prop
  | _, _, [] => True
  | s, none, (c, x) :: calls =>
    (exec s c x).1.err ≠ none ∧ Follows exec sure (exec s c x).2 none calls
  | s, some pos, (c, x) :: calls =>
    ∃ next, Serves content told (sure s c x) x.2 pos c (exec s c x).1 next ∧
      Follows exec sure (exec s c x).2 next calls

/-- A call at `pos` is served, and `R` relates the state after it to the position after it. -/
def Keeps {σ ρ : Type} (exec : σ → Call → ρ × Piece → Answer α × σ)
    (sure : σ → Call → ρ × Piece → Prop) (R : σ → ℤ → Prop) (closed : σ → Prop) (s : σ) (pos : ℤ)
    (c : Call) (x : ρ × Piece) : Prop :=
  ∃ next, Serves content told (sure s c x) x.2 pos c (exec s c x).1 next ∧
    next.elim (closed (exec s c x).2) (R (exec s c x).2)

variable {content told}

theorem follows_of_keeps {σ ρ : Type} {exec : σ → Call → ρ × Piece → Answer α × σ}
    {sure : σ → Call → ρ × Piece → Prop} {R : σ → ℤ → Prop} {C : σ → Prop}
    (hopen : ∀ s pos c x, R s pos → Keeps content told exec sure R C s pos c x)
    (hclosed : ∀ s c x, C s → (exec s c x).1.err ≠ none ∧ C (exec s c x).2)
    {calls s pos} (h : pos.elim (C s) (R s)) : Follows content told exec sure s pos calls := by
  induction calls generalizing s pos with
  | nil => cases pos <;> trivial
  | cons cx calls ih =>
    cases pos with
    | none =>
      obtain ⟨herr, hnext⟩ := hclosed s cx.1 cx.2 h
      exact ⟨herr, ih hnext⟩
    | some pos =>
      obtain ⟨next, hserves, hnext⟩ := hopen s pos cx.1 cx.2 h
      exact ⟨next, hserves, ih hnext⟩

end Spec

variable {content : List α}

/-! ## Offsets -/

theorem neg_iff {a : Int64} : a < 0 ↔ a.toInt < 0 := Int64.lt_iff_toInt_lt

theorem toInt_add_cases {a b : Int64} (ha : 0 ≤ a.toInt) :
    (a + b).toInt = a.toInt + b.toInt ∧ a.toInt + b.toInt < 2 ^ 63 ∨
      (a + b).toInt < 0 ∧ 2 ^ 63 ≤ a.toInt + b.toInt := by
  have ha' := a.toInt_lt
  have hb := b.toInt_lt
  have hb' := b.le_toInt
  rw [Int64.toInt_add, Int.bmod_def]
  split <;> omega

/-- INTERNAL: **a seek** finds its target, or a negative number if there is no such position. -/
theorem newOffset_cases (off : Int64) (whence) {offset size : Int64}
    (hoffset : 0 ≤ offset.toInt) (hsize : whence = .seekEnd → size.toInt = content.length) :
    let t := target content offset.toInt off whence
    (newOffset offset size off whence < 0 ∧ ¬ (0 ≤ t ∧ t < 2 ^ 63)) ∨
      (¬ newOffset offset size off whence < 0 ∧ 0 ≤ t ∧
        (newOffset offset size off whence).toInt = t) := by
  have hoff := off.toInt_lt
  rw [neg_iff]
  cases whence with
  | seekStart => dsimp only [newOffset, target]; omega
  | seekCurrent =>
    have hadd := toInt_add_cases (b := off) hoffset
    dsimp only [newOffset, target]
    omega
  | seekEnd =>
    have hadd := toInt_add_cases (a := size) (b := off) (by rw [hsize rfl]; omega)
    rw [hsize rfl] at hadd
    dsimp only [newOffset, target]
    omega

/-- INTERNAL: **a read** moves an offset on, as far as the content goes. -/
theorem advance {a : Int64} {out rest : List α} (hlength : content.length < 2 ^ 63)
    (ha : 0 ≤ a.toInt) (h : out ++ rest = content.drop a.toInt.toNat) :
    (a + .ofNat out.length).toInt = a.toInt + out.length ∧
      rest = content.drop (a.toInt + out.length).toNat ∧
      (rest = [] → content.length ≤ a.toInt + out.length) := by
  have hrest : rest = content.drop (a.toInt + out.length).toNat := by
    rw [Int.toNat_add ha (Int.natCast_nonneg _), Int.toNat_natCast, ← drop_drop, ← h, drop_left]
  have hall := congrArg List.length h
  have hlt := a.toInt_lt
  simp only [length_append, length_drop] at hall
  have hn : (Int64.ofNat out.length).toInt = out.length := Int64.toInt_ofNat_of_lt (by omega)
  have hadd := toInt_add_cases (b := .ofNat out.length) ha
  refine ⟨by omega, hrest, fun hnil => ?_⟩
  rw [hnil, eq_comm, drop_eq_nil_iff] at hrest
  omega

theorem readStream_spec (rest : List α) (m piece) : let r := readStream rest m piece
    r.1.1.length ≤ m ∧ r.1.1 ++ r.2 = rest ∧ (r.1.2 = true → r.2 = []) ∧
      (rest = [] → 0 < m → r.1.2 = true) ∧
      (rest ≠ [] → 0 < m → 0 < piece.size → r.1.1 ≠ []) := by
  grind [readStream, take_append_drop]

/-! ## The file reader -/

theorem Bufio.read_spec {b : Bufio α} (hb : b.err = true → b.rd = []) (m piece) :
    let r := b.read m piece
    r.1.1.length ≤ m ∧ r.1.1 ++ (r.2.buf ++ r.2.rd) = b.buf ++ b.rd ∧
      (r.1.2 = true → r.2.buf ++ r.2.rd = []) ∧ (r.2.err = true → r.2.rd = []) ∧
      (b.buf ++ b.rd ≠ [] → 0 < m → 0 < piece.size → r.1.1 ≠ []) := by
  grind [Bufio.read, readStream_spec, take_append_drop]

/-- The reader is at a position: its stream, if there is one, has the rest of the content. -/
structure FileAt (content : List α) (fr : FileReader α) (pos : ℤ) : Prop where
  unclosed : fr.err = none
  offset : fr.offset.toInt = pos
  nonneg : 0 ≤ pos
  size : fr.size.toInt = content.length
  stream : ∀ {b}, fr.rc = some b →
    b.buf ++ b.rd = content.drop pos.toNat ∧ (b.err = true → b.rd = [])

/-- The end is told where it is reached, and nowhere else. -/
def EndTold (content : List α) (_ : ℕ) (_ pos : ℤ) (err : Option Err) : Prop :=
  err = if content.length ≤ pos then some .eof else none

variable {fr : FileReader α} {pos : ℤ}

def Streams (_ : FileReader α) (_ : Call) (x : Opened × Piece) : Prop := x.1 = .stream

/-- INTERNAL: a read from a file, -/
theorem FileAt.read (h : FileAt content fr pos) (m x) :
    Keeps content (EndTold content) (FileReader.exec content) Streams (FileAt content)
      (·.err ≠ none) fr pos (.read m) x := by
  obtain ⟨opened, piece⟩ := x
  have hlength : content.length < 2 ^ 63 := by
    have hsize := fr.size.toInt_lt
    rw [h.size] at hsize
    omega
  have hopened : (∃ b, fr.reader content opened = .ok (some b) ∧
      b.buf ++ b.rd = content.drop pos.toNat ∧ (b.err = true → b.rd = [])) ∨
      opened ≠ .stream ∧ ∃ e, fr.read content m opened piece = (.read [] (some e), fr) := by
    rw [FileReader.read, if_neg (by simp [h.unclosed])]
    unfold FileReader.reader
    cases hrc : fr.rc with
    | some b => exact .inl ⟨b, rfl, h.stream hrc⟩
    | none =>
      cases opened with
      | stream => exact .inl ⟨_, rfl, by simp [h.offset], nofun⟩
      | pathNotFound | failed => exact .inr ⟨nofun, _, rfl⟩
  rcases hopened with ⟨b, hreader, hstream, herr⟩ | ⟨hne, e, hfails⟩
  · obtain ⟨hm, hall, hend, herr', hsome⟩ := Bufio.read_spec herr m piece
    rw [hstream] at hall hsome
    obtain rfl := h.offset
    have hnonneg := h.nonneg
    obtain ⟨hoffset, hrest, hlast⟩ := advance hlength hnonneg hall
    rw [Keeps, FileReader.exec, FileReader.read, if_neg (by simp [h.unclosed]), hreader]
    refine ⟨_, ⟨hm, ⟨_, hall⟩, rfl, fun _ => ⟨?_, fun hlt => hsome ?_⟩⟩, h.unclosed, hoffset,
      by omega, h.size, fun hb => ?_⟩
    · have hreached := Int64.le_iff_toInt_le (x := fr.size)
        (y := fr.offset + .ofNat (b.read m piece).1.1.length)
      rw [hoffset, h.size] at hreached
      grind [EndTold]
    · rw [Ne, drop_eq_nil_iff]
      omega
    · cases hb
      exact ⟨hrest, herr'⟩
  · rw [Keeps, FileReader.exec, hfails]
    refine ⟨_, ⟨Nat.zero_le _, nil_prefix, rfl, fun heq => (hne heq).elim⟩, ?_⟩
    simpa using h

/-- and a seek. -/
theorem FileAt.seek (h : FileAt content fr pos) (off whence x) :
    Keeps content (EndTold content) (FileReader.exec content) Streams (FileAt content)
      (·.err ≠ none) fr pos (.seek off whence) x := by
  obtain rfl := h.offset
  rw [Keeps, FileReader.exec, FileReader.seek, if_neg (by simp [h.unclosed])]
  dsimp only
  rcases newOffset_cases off whence h.nonneg fun _ => h.size with
    ⟨hneg, hnone⟩ | ⟨hpos, hnonneg, htarget⟩
  · rw [if_pos hneg]
    exact ⟨_, .inr ⟨nofun, rfl, fun _ => ⟨rfl, rfl, hnone⟩⟩, h⟩
  · rw [if_neg hpos]
    refine ⟨_, .inl ⟨hnonneg, htarget, rfl, rfl⟩, h.unclosed, htarget, hnonneg, h.size,
      fun hb => ?_⟩
    obtain ⟨heq, hb⟩ := Option.ite_none_right_eq_some.1 hb
    rw [← htarget, ← heq]
    exact h.stream hb

/-- **A file reader is a reader of the content**: its answers are those of a position that reads and
seeks move, whatever the pieces its stream comes in. -/
theorem fileReader_follows {size : Int64} (hsize : size.toInt = content.length)
    (calls : List (Call × Opened × Piece)) :
    Follows content (EndTold content) (FileReader.exec content) Streams (newFileReader size)
      (some 0) calls := by
  refine follows_of_keeps (R := FileAt content) (C := (·.err ≠ none))
    (fun fr pos c x h => ?_) (fun fr c x h => ?_) ⟨rfl, rfl, Int.le_refl 0, hsize, nofun⟩
  · cases c with
    | read m => exact h.read m x
    | seek off whence => exact h.seek off whence x
    | close =>
      rw [Keeps, FileReader.exec, FileReader.close, if_neg (by simp [h.unclosed])]
      exact ⟨none, rfl, nofun⟩
  · have hclosed : fr.err.isSome = true := Option.isSome_iff_ne_none.2 h
    cases c <;> simpa [FileReader.exec, FileReader.read, FileReader.seek, FileReader.close, hclosed]
      using ⟨h, h⟩

/-- After a seek to the last byte, that byte is read and the end is told. -/
theorem last_byte_read : Follows [7, 8] (EndTold [7, 8]) (FileReader.exec [7, 8]) Streams
      (newFileReader 2) (some 0)
      [(.seek (-1) .seekEnd, .stream, ⟨1, false⟩), (.read 5, .stream, ⟨1, false⟩)] ∧
    (((newFileReader 2).seek (-1) .seekEnd).2.read [7, 8] 5 .stream ⟨1, false⟩).1 =
      .read [8] (some .eof) :=
  ⟨fileReader_follows (by decide) _, rfl⟩

/-! ## The HTTP reader -/

section Http

variable (content)

/-- The answer to a request at `start` has the size of the content, and the part from there on is
not empty. -/
def Granted (reply : Reply) (start : Int64) : Prop :=
  reply.lost = false ∧ reply.sized = true ∧ (start.toInt ≤ 0 ∨ start.toInt < content.length)

/-- The call makes no request, or one that is granted, and does not ask for a size that is not
known. -/
def Clear (hrs : HttpReadSeeker α) (c : Call) (x : Reply × Piece) : Prop :=
  match c with
  | .read _ => hrs.sync.rc.isSome = true ∨ Granted content x.1 hrs.seekOffset
  | .seek off whence =>
    if hrs.rc.isSome then whence = .seekEnd → 0 ≤ hrs.size
    else Granted content x.1 (if whence = .seekStart then off else hrs.readerOffset)
  | .close => True

/-- Nothing but the end is told, at the size and nowhere else. -/
def EndOnly (m : ℕ) (pos pos' : ℤ) (err : Option Err) : Prop :=
  (err = none ∨ err = some .eof ∧ content.length ≤ pos') ∧
    (content.length ≤ pos → 0 < m → err = some .eof)

structure HttpAt (hrs : HttpReadSeeker α) (pos : ℤ) : Prop where
  unclosed : hrs.err = none
  offset : hrs.seekOffset.toInt = pos
  nonneg : 0 ≤ pos
  stream : ∀ {rest}, hrs.rc = some rest →
    (0 ≤ hrs.readerOffset.toInt → rest = content.drop hrs.readerOffset.toInt.toNat) ∧
      (hrs.size = .ofNat content.length ∨ hrs.size = -1)

variable {content} {hrs : HttpReadSeeker α}

/-- INTERNAL: **what `reader` does.** There is a connection after it, or the request was not
granted. -/
theorem HttpAt.reader (h : HttpAt content hrs pos) (reply : Reply) :
    (∃ rest size, hrs.reader content reply = .ok (rest, { hrs with size, rc := some rest }) ∧
      HttpAt content { hrs with size, rc := some rest } pos ∧
      (if hrs.rc.isSome then size = hrs.size
        else reply.sized = true → size = .ofNat content.length)) ∨
    hrs.rc = none ∧ ¬ Granted content reply hrs.readerOffset ∧
      hrs.reader content reply = .error .request := by
  obtain ⟨size, _ | rest, start, offset, err⟩ := hrs
  · have hat : ∀ {size rest}, rest = content.drop start.toInt.toNat →
        size = .ofNat content.length ∨ size = -1 →
        HttpAt content ⟨size, some rest, start, offset, err⟩ pos := by
      refine fun hrest hsize => { h with stream := fun hr => ?_ }
      cases hr
      exact ⟨fun _ => hrest, hsize⟩
    have hstart : 0 < start ↔ 0 < start.toInt := Int64.lt_iff_toInt_lt
    unfold HttpReadSeeker.reader Granted
    simp only [hstart]
    split
    next hlost => exact .inr ⟨trivial, by simp [hlost], rfl⟩
    split
    next hpos =>
      split
      next hle => exact .inr ⟨trivial, by omega, rfl⟩
      split
      next hsized => exact .inr ⟨trivial, fun hg => by simp [hg.2.1] at hsized, rfl⟩
      next => exact .inl ⟨_, _, rfl, hat rfl (.inl rfl), fun _ => rfl⟩
    next hpos =>
      refine .inl ⟨_, _, rfl, hat ?_ ?_, fun hsized => if_pos hsized⟩
      · rw [Int.toNat_of_nonpos (by omega), drop_zero]
      · split
        · exact .inl rfl
        · exact .inr rfl
  · exact .inl ⟨rest, size, rfl, h, rfl⟩

/-- INTERNAL: a read over HTTP, -/
theorem HttpAt.read (hlength : content.length < 2 ^ 63) (h : HttpAt content hrs pos) (m x) :
    Keeps content (EndOnly content) (HttpReadSeeker.exec content) (Clear content) (HttpAt content)
      (·.err ≠ none) hrs pos (.read m) x := by
  have hsync : HttpAt content hrs.sync pos := by
    refine { h with stream := fun hrc => ?_ }
    obtain ⟨heq, hrc⟩ := Option.ite_none_right_eq_some.1 hrc
    rw [← show hrs.readerOffset = hrs.sync.readerOffset from heq]
    exact h.stream hrc
  rw [Keeps, HttpReadSeeker.exec, HttpReadSeeker.read, if_neg (by simp [h.unclosed])]
  rcases hsync.reader x.1 with ⟨rest, size, hreader, hat, -⟩ | ⟨hnone, hrefused, hreader⟩ <;>
    rw [hreader]
  · obtain ⟨hm, hall, hend, htell, hsome⟩ := readStream_spec rest m x.2
    obtain rfl := h.offset
    have hnonneg := h.nonneg
    obtain ⟨hrest, hsize⟩ := hat.stream rfl
    obtain rfl : rest = content.drop hrs.seekOffset.toInt.toNat := hrest hnonneg
    obtain ⟨hoffset, hdrop, hlast⟩ := advance hlength hnonneg hall
    refine ⟨_, ⟨hm, ⟨_, hall⟩, rfl, fun _ => ⟨⟨?_, ?_⟩, fun hlt => hsome ?_⟩⟩, h.unclosed, hoffset,
      by omega, fun hrc => ?_⟩
    · cases heof : (readStream (content.drop hrs.seekOffset.toInt.toNat) m x.2).1.2 with
      | false => exact .inl rfl
      | true => exact .inr ⟨rfl, hlast (hend heof)⟩
    · intro hle hm
      exact if_pos (htell (drop_eq_nil_of_le (by omega)) hm)
    · rw [Ne, drop_eq_nil_iff]
      omega
    · cases hrc
      exact ⟨fun _ => hdrop.trans (by rw [← hoffset]; rfl), hsize⟩
  · refine ⟨_, ⟨Nat.zero_le _, nil_prefix, rfl, fun hclear => ?_⟩, ?_⟩
    · rcases hclear with hrc | hgranted
      · rw [hnone] at hrc
        cases hrc
      · exact (hrefused hgranted).elim
    · simpa using hsync

/-- and a seek. -/
theorem HttpAt.seek (hlength : content.length < 2 ^ 63) (h : HttpAt content hrs pos)
    (off whence x) :
    Keeps content (EndOnly content) (HttpReadSeeker.exec content) (Clear content) (HttpAt content)
      (·.err ≠ none) hrs pos (.seek off whence) x := by
  obtain ⟨start, hstart⟩ : ∃ start,
    start = if whence = .seekStart ∧ hrs.rc.isNone = true then off else hrs.readerOffset := ⟨_, rfl⟩
  have hat : HttpAt content { hrs with readerOffset := start } pos := by
    refine { h with stream := fun hrc => ?_ }
    have hrc : hrs.rc = some _ := hrc
    rw [hrc, if_neg (by simp)] at hstart
    subst hstart
    exact h.stream hrc
  rw [Keeps, HttpReadSeeker.exec, HttpReadSeeker.seek, if_neg (by simp [h.unclosed])]
  dsimp only
  rw [← hstart]
  rcases hat.reader x.1 with ⟨rest, size, hreader, hat, hsized⟩ | ⟨hnone, hrefused, hreader⟩ <;>
    rw [hreader] <;> dsimp only
  · have hof : (Int64.ofNat content.length).toInt = content.length :=
      Int64.toInt_ofNat_of_lt hlength
    obtain ⟨-, hsize⟩ := hat.stream rfl
    split
    next hunknown =>
      refine ⟨_, .inr ⟨nofun, rfl, fun hclear => ?_⟩, hat⟩
      have hneg := neg_iff.1 hunknown.2
      unfold Clear at hclear
      dsimp only at hclear hsized hneg
      split at hclear
      next hrc =>
        rw [if_pos hrc] at hsized
        have hpos := Int64.le_iff_toInt_le.1 (hclear hunknown.1)
        rw [hsized] at hneg
        exact absurd hneg (Int.not_lt.2 hpos)
      next hrc =>
        rw [if_neg hrc] at hsized
        rw [hsized hclear.2.1, hof] at hneg
        omega
    next hknown =>
      have hlast : whence = .seekEnd → size.toInt = content.length := by
        intro hwhence
        rcases hsize with rfl | rfl
        · exact hof
        · exact (hknown ⟨hwhence, by decide⟩).elim
      obtain rfl := h.offset
      rcases newOffset_cases off whence h.nonneg hlast with ⟨hneg, hnone⟩ | ⟨hpos, hnonneg, htarget⟩
      · rw [if_pos hneg]
        exact ⟨_, .inr ⟨nofun, rfl, fun _ => ⟨rfl, rfl, hnone⟩⟩, hat⟩
      · rw [if_neg hpos]
        exact ⟨_, .inl ⟨hnonneg, htarget, rfl, rfl⟩, h.unclosed, htarget, hnonneg, hat.stream⟩
  · refine ⟨_, .inr ⟨nofun, rfl, fun hclear => (hrefused ?_).elim⟩, h⟩
    have hnone : hrs.rc = none := hnone
    simp only [Clear, hnone, Option.isSome_none, Bool.false_eq_true, if_false] at hclear
    simpa [hstart, hnone] using hclear

/-- **A read over HTTP is one of the content**, and a call that fails leaves the position. If its
requests are answered with the size, and none is for an empty part, every seek and every read
succeeds and tells the end exactly at the size. -/
theorem httpReadSeeker_follows (hlength : content.length < 2 ^ 63)
    (calls : List (Call × Reply × Piece)) :
    Follows content (EndOnly content) (HttpReadSeeker.exec content) (Clear content)
      newHTTPReadSeeker (some 0) calls := by
  refine follows_of_keeps (R := HttpAt content) (C := (·.err ≠ none))
    (fun hrs pos c x h => ?_) (fun hrs c x h => ?_) ⟨rfl, rfl, Int.le_refl 0, nofun⟩
  · cases c with
    | read m => exact h.read hlength m x
    | seek off whence => exact h.seek hlength off whence x
    | close =>
      rw [Keeps, HttpReadSeeker.exec, HttpReadSeeker.close, if_neg (by simp [h.unclosed])]
      exact ⟨none, rfl, nofun⟩
  · have hclosed : hrs.err.isSome = true := Option.isSome_iff_ne_none.2 h
    cases c <;> simpa [HttpReadSeeker.exec, HttpReadSeeker.read, HttpReadSeeker.seek,
      HttpReadSeeker.close, hclosed] using ⟨h, h⟩

def served : Reply × Piece := (⟨false, true⟩, ⟨1, false⟩)

/-- After a seek to the second byte, that byte is read. -/
theorem second_byte_read : Follows [7, 8] (EndOnly [7, 8]) (HttpReadSeeker.exec [7, 8])
      (Clear [7, 8]) newHTTPReadSeeker (some 0)
      [(.seek 1 .seekStart, served), (.read 5, served)] ∧
    ((newHTTPReadSeeker.seek [7, 8] 1 .seekStart served.1).2.read [7, 8] 5 served.1 served.2).1 =
      .read [8] none :=
  ⟨httpReadSeeker_follows (by decide) _, rfl⟩

/-- A seek to the size and a read after it: the read fails. So does a seek whose answer has no
size. -/
theorem end_not_read : let hrs := (newHTTPReadSeeker.seek [7, 8] 2 .seekCurrent ⟨false, true⟩).2
    (hrs.read [7, 8] 1 ⟨false, true⟩ ⟨1, false⟩).1 = .read [] (some .request) ∧
      (newHTTPReadSeeker.seek [7, 8] 1 .seekStart ⟨false, false⟩).1 = .seek 0 (some .request) :=
  ⟨rfl, rfl⟩

end Http

end ContainerRegistry.Analysis.Readers
