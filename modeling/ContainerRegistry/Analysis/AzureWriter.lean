import ContainerRegistry.Model.AzureUploads

/-!
# What a writer of the Azure driver leaves behind

A writer opened without append on an existing path deletes the blob and creates none; with append on
what `PutContent` has stored, its first flush is refused. `Clear` runs avoid both.
-/

namespace ContainerRegistry.Analysis.AzureUploads

open Model.AzureUploads List

variable {α : Type} {C : ℕ}

/-! ## The specification -/

/-- The content after a call, with what the writer has not yet sent. -/
def expected : Option (List α) → Op α → Option (List α)
  | _, .putContent contents => some contents
  | _, .writer false => some []
  | content, .write p => content.map (· ++ p)
  | content, _ => content

/-- The call has no error; after `PutContent`, `Close` and `Commit` the path has the content, and
but for `PutContent` the writer's size is that of the content. -/
def Delivers (op : Op α) (result : State α × Option Err) (content : Option (List α)) : Prop :=
  result.2 = none ∧ match op with
    | .putContent _ => result.1.blob.map Blob.data = content
    | .writer _ | .write _ => result.1.writer.map Writer.size = content.map List.length
    | .close | .commit => result.1.blob.map Blob.data = content ∧
        result.1.writer.map Writer.size = content.map List.length

def DeliversAll (C : ℕ) : State α → Option (List α) → List (Op α) → Prop
  | _, _, [] => True
  | s, content, op :: ops => Delivers op (s.step C op) (expected content op) ∧
      DeliversAll C (s.step C op).1 (expected content op) ops

/-- A call that the blob service can follow: a writer without append is opened where nothing is, one
with append on an append blob, no other writer has data to send, a writer is used until it is closed
or committed; `PutContent` has at most 256 MiB and no open writer. -/
def Clear (s : State α) : Op α → Prop
  | .putContent contents => contents.length ≤ limit ∧ ∀ w, s.writer = some w → w.closed = true
  | .writer append => (∀ w, s.writer = some w → w.buf = []) ∧
      if append then ∃ data, s.blob = some ⟨.append, data⟩ else s.blob = none
  | .close => ∃ w, s.writer = some w ∧ w.closed = false
  | _ => ∃ w, s.writer = some w ∧ w.closed = false ∧ w.committed = false

def ClearRun (C : ℕ) : State α → List (Op α) → Prop
  | _, [] => True
  | s, op :: ops => Clear s op ∧ ClearRun C (s.step C op).1 ops

/-! ## The buffer on an append blob -/

variable {w : Writer α} {data p : List α}

/-- All blocks are appended. -/
theorem blockWrite_append (hC : 0 < C) {fuel} (hfuel : p.length ≤ fuel) :
    blockWrite C fuel (some ⟨.append, data⟩) p = (some ⟨.append, data ++ p⟩, p.length, none) := by
  induction fuel generalizing data p with
  | zero =>
    obtain rfl := length_eq_zero_iff.1 (Nat.le_zero.1 hfuel)
    simp [blockWrite]
  | succ fuel ih =>
    cases p with
    | nil => simp [blockWrite]
    | cons a l =>
      have hrest : ((a :: l).drop C).length ≤ fuel := by
        simp only [length_drop, length_cons] at hfuel ⊢
        omega
      simp only [blockWrite, isEmpty_cons, Bool.false_eq_true, if_false, appendBlock,
        ih hrest, append_assoc, take_append_drop, Prod.mk.injEq, true_and, and_true]
      rw [← length_append, take_append_drop]

variable (data) in
theorem flush_append (hC : 0 < C) (herr : w.err = none) :
    w.flush C (some ⟨.append, data⟩) = (some ⟨.append, data ++ w.buf⟩, { w with buf := [] }) := by
  cases w with
  | mk size buf err closed committed =>
    cases buf with
    | nil => simp [Writer.flush]
    | cons a l =>
      simp only at herr
      simp [Writer.flush, herr, blockWrite_append hC]

variable (data) in
/-- The buffer is filled and sent in chunks. -/
theorem fill_append (hC : 0 < C) (herr : w.err = none)
    (hempty : ¬ p.length ≤ C - w.buf.length → w.buf = []) (hbuf : w.buf.length ≤ C) :
    ∃ data' buf', w.fill C (some ⟨.append, data⟩) p =
        (some ⟨.append, data'⟩, { w with buf := buf' }, p.length) ∧
      data' ++ buf' = data ++ w.buf ++ p ∧ buf'.length ≤ C := by
  simp only [Writer.fill, herr, Option.isSome_none, Bool.false_eq_true, if_false]
  by_cases hfits : p.length ≤ C - w.buf.length
  · refine ⟨data, w.buf ++ p, by rw [if_pos hfits], (append_assoc ..).symm, ?_⟩
    rw [length_append]
    omega
  · refine ⟨data ++ p, [], ?_, ?_, Nat.zero_le _⟩
    · rw [if_neg hfits, blockWrite_append hC (Nat.le_refl _), ← hempty hfits, ← herr]
    · rw [hempty hfits, append_nil, append_nil]

variable (data) in
/-- What is not appended is in the buffer. -/
theorem bufioWrite_append (hC : 0 < C) (herr : w.err = none) (hbuf : w.buf.length ≤ C) :
    ∃ data' buf', w.bufioWrite C (some ⟨.append, data⟩) p =
        (some ⟨.append, data'⟩, { w with buf := buf' }, p.length) ∧
      data' ++ buf' = data ++ w.buf ++ p ∧ buf'.length ≤ C := by
  unfold Writer.bufioWrite
  dsimp only
  split
  · rename_i h
    refine fill_append data hC herr (fun hfits => ?_) hbuf
    simpa [herr, hfits] using h
  rename_i h
  have hlong : C - w.buf.length < p.length := by
    simp only [Bool.or_eq_true, decide_eq_true_eq, not_or] at h
    omega
  have hflush := flush_append data
    (w := { w with buf := w.buf ++ p.take (C - w.buf.length) }) hC herr
  obtain ⟨data', buf', hfill, happend, hlength⟩ := fill_append
    (data ++ (w.buf ++ p.take (C - w.buf.length))) (p := p.drop (C - w.buf.length))
    (w := { w with buf := [] }) hC herr (fun _ => rfl) (Nat.zero_le _)
  refine ⟨data', buf', ?_, ?_, hlength⟩
  · simp only [hflush, hfill, length_drop]
    rw [Nat.add_sub_cancel' (Nat.le_of_lt hlong)]
  · simp [happend, append_assoc]

/-! ## Runs -/

variable {s : State α} {content : Option (List α)}

/-- An open writer has an append blob, and stands for its data and the bytes it has not sent. -/
structure Live (C : ℕ) (s : State α) (w : Writer α) (content : Option (List α)) : Prop where
  err : w.err = none
  fits : w.buf.length ≤ C
  stored : ∃ data, s.blob = some ⟨.append, data⟩ ∧ content = some (data ++ w.buf) ∧
    w.size = (data ++ w.buf).length

structure Holds (C : ℕ) (s : State α) (content : Option (List α)) : Prop where
  idle : (∀ w, s.writer = some w → w.closed = true) → s.blob.map Blob.data = content
  live : ∀ w, s.writer = some w → w.closed = false → Live C s w content

theorem Live.holds (hw : s.writer = some w) (hopen : w.closed = false)
    (h : Live C s w content) : Holds C s content := by
  refine ⟨fun hidle => ?_, fun w' hw' _ => ?_⟩
  · rw [hidle w hw] at hopen
    cases hopen
  · rw [hw, Option.some.injEq] at hw'
    exact hw' ▸ h

theorem step_flush (hC : 0 < C) (h : Live C s w content) (closed committed : Bool) :
    ∃ blob, Writer.flush C { w with closed := closed, committed := committed } s.blob =
        (some blob, { w with buf := [], closed := closed, committed := committed }) ∧
      blob.blobType = .append ∧ some blob.data = content ∧
        content.map List.length = some w.size := by
  obtain ⟨data, hblob, rfl, hsize⟩ := h.stored
  exact ⟨⟨.append, data ++ w.buf⟩, by rw [hblob]; exact flush_append _ hC h.err, rfl, rfl,
    congrArg some hsize.symm⟩

/-- INTERNAL: one call on the blob, as it should be. -/
theorem step_of_clear (hC : 0 < C) (h : Holds C s content) {op} (hclear : Clear s op) :
    Holds C (s.step C op).1 (expected content op) ∧
      Delivers op (s.step C op) (expected content op) := by
  cases op with
  | putContent contents =>
    obtain ⟨hlimit, hclosed⟩ := hclear
    have hput : putBlob (s.blob.filter (·.blobType = .block)) contents =
        some ⟨.block, contents⟩ := by
      rcases s.blob with _ | ⟨_ | _, _⟩ <;> rfl
    simp only [State.step, putContent, if_neg (Nat.not_lt.2 hlimit), hput]
    refine ⟨⟨fun _ => rfl, fun w hw hopen => ?_⟩, rfl, rfl⟩
    rw [hclosed w hw] at hopen
    cases hopen
  | writer append =>
    obtain ⟨hsent, hblob⟩ := hclear
    cases append with
    | false =>
      simp only [Bool.false_eq_true, if_false] at hblob
      simp only [State.step, openWriter, hblob]
      exact ⟨Live.holds rfl rfl ⟨rfl, Nat.zero_le _, [], rfl, rfl, rfl⟩, rfl, rfl⟩
    | true =>
      obtain ⟨data, hdata⟩ := hblob
      have hcontent : content = some data := by
        by_cases hidle : ∀ w, s.writer = some w → w.closed = true
        · rw [← h.idle hidle, hdata]
          rfl
        simp only [not_forall, Bool.not_eq_true] at hidle
        obtain ⟨w, hw, hopen⟩ := hidle
        obtain ⟨data', hblob', hcontent, -⟩ := (h.live w hw hopen).stored
        rw [hdata] at hblob'
        rw [hcontent, hsent w hw, append_nil]
        cases hblob'
        rfl
      simp only [State.step, openWriter, hdata, expected, hcontent]
      exact ⟨Live.holds rfl rfl ⟨rfl, Nat.zero_le _, data, rfl,
        by simp [newWriter], by simp [newWriter]⟩, rfl, rfl⟩
  | write p =>
    obtain ⟨w, hw, hopen, hcommitted⟩ := hclear
    obtain ⟨herr, hfits, data, hblob, rfl, hsize⟩ := h.live w hw hopen
    obtain ⟨data', buf', hwrite, happend, hlength⟩ := bufioWrite_append data (p := p) hC herr hfits
    simp only [State.step, hw, Writer.write, hopen, hcommitted, Bool.false_eq_true, if_false,
      hblob, hwrite, expected, Option.map_some, ← happend]
    have hsize' : w.size + p.length = (data' ++ buf').length := by
      rw [happend, length_append, ← hsize]
    exact ⟨Live.holds rfl rfl ⟨herr, hlength, data', rfl, rfl, hsize'⟩, herr, congrArg some hsize'⟩
  | close =>
    obtain ⟨w, hw, hopen⟩ := hclear
    have hlive := h.live w hw hopen
    obtain ⟨blob, hflush, -, hblob, hsize⟩ := step_flush hC hlive true w.committed
    simp only [State.step, hw, Writer.close, hopen, Bool.false_eq_true, if_false, hflush, expected]
    refine ⟨⟨fun _ => hblob, fun w' hw' hopen' => ?_⟩, hlive.err, hblob, hsize.symm⟩
    cases hw'
    cases hopen'
  | commit =>
    obtain ⟨w, hw, hopen, hcommitted⟩ := hclear
    have hlive := h.live w hw hopen
    obtain ⟨blob, hflush, htype, hblob, hsize⟩ := step_flush hC hlive w.closed true
    simp only [State.step, hw, Writer.commit, hopen, hcommitted, Bool.false_eq_true, if_false,
      expected] at hflush ⊢
    rw [hflush]
    refine ⟨Live.holds rfl rfl ⟨hlive.err, Nat.zero_le _, blob.data, ?_, ?_, ?_⟩, hlive.err,
      hblob, hsize.symm⟩
    · rw [← htype]
    · simp [hblob]
    · simpa [← hblob] using hsize.symm

theorem deliversAll_of_holds (hC : 0 < C) (h : Holds C s content) (ops : List (Op α))
    (hclear : ClearRun C s ops) : DeliversAll C s content ops := by
  induction ops generalizing s content with
  | nil => trivial
  | cons op ops ih =>
    obtain ⟨hholds, hdelivers⟩ := step_of_clear hC h hclear.1
    exact ⟨hdelivers, ih hholds hclear.2⟩

/-- **Azure writer semantics**: in every run of clear calls no call fails, a writer replaces or
extends the content, and has its size. -/
theorem writer_delivers (blob : Option (Blob α)) (ops : List (Op α))
    (hclear : ClearRun maxChunkSize ⟨blob, none⟩ ops) :
    DeliversAll maxChunkSize ⟨blob, none⟩ (blob.map Blob.data) ops :=
  deliversAll_of_holds (by decide) ⟨fun _ => rfl, fun _ hw => by cases hw⟩ ops hclear

/-- A writer on a new path, which is opened again to append. -/
theorem new_path_extended :
    DeliversAll maxChunkSize ⟨none, none⟩ none
      [.writer false, .write [1], .close, .writer true, .write [2], .commit] := by
  refine writer_delivers (none : Option (Blob ℕ)) _ ⟨⟨nofun, rfl⟩,
    ⟨_, rfl, rfl, rfl⟩, ⟨_, rfl, rfl⟩, ⟨fun w hw => ?_, _, rfl⟩, ⟨_, rfl, rfl, rfl⟩,
    ⟨_, rfl, rfl, rfl⟩, trivial⟩
  cases hw
  rfl

/-- **A writer cannot replace what the path has**: opening it deletes the blob, and its data is
refused. -/
theorem reopened_writer_fails :
    ¬ DeliversAll maxChunkSize ⟨none, none⟩ none
      [.writer false, .write [1], .commit, .writer false, .write [2], .commit] := by
  rintro ⟨-, -, -, -, -, h, -⟩
  exact absurd h.1 (by decide)

end ContainerRegistry.Analysis.AzureUploads
