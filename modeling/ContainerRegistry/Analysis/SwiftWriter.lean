import ContainerRegistry.Model.SwiftUploads

/-!
# What the Swift writer leaves in the container

The segments of a file are numbered from 1 on, or from 2 on after a segment 0 (`Numbered`). The
search finds those that a listing omits in the first case only: in the second the writer goes on
with the number of an existing segment.
-/

namespace ContainerRegistry.Analysis.SwiftUploads

open Library Model.SwiftUploads List
open Library.Appender (Phase Outcome Ends)
open Library.Stage (After Meets)

variable {α : Type} {C : ℕ}

/-! ## Numbers of segments -/

/-- The numbers go from 1 on, or from 2 on after a segment 0. -/
def Numbered (qs : List (Segment α)) : Prop :=
  qs.map Segment.number = List.range' 1 qs.length ∨
    ∃ k, qs.map Segment.number = 0 :: List.range' 2 k

variable {qs : List (Segment α)}

theorem Numbered.number_lt (h : Numbered qs) {q} (hq : q ∈ qs) : q.number < qs.length + 1 := by
  have hmem : q.number ∈ qs.map Segment.number := mem_map_of_mem hq
  rcases h with h | ⟨k, h⟩
  · rw [h, mem_range'_1] at hmem
    omega
  · have hlength := congrArg List.length h
    simp only [length_map, length_cons, length_range'] at hlength
    rw [h, mem_cons, mem_range'_1] at hmem
    omega

/-- The next segment has the next number. -/
theorem Numbered.snoc (h : Numbered qs) (body : List α) :
    Numbered (qs ++ [⟨qs.length + 1, body⟩]) := by
  rcases h with h | ⟨k, h⟩
  · left
    rw [map_append, h, length_append, length_singleton, range'_1_concat, Nat.add_comm 1]
    rfl
  · right
    have hlength := congrArg List.length h
    simp only [length_map, length_cons, length_range'] at hlength
    refine ⟨k + 1, ?_⟩
    rw [map_append, h, range'_1_concat, hlength, cons_append, Nat.add_comm 2]
    rfl

theorem bodies_append (qs qs' : List (Segment α)) : bodies (qs ++ qs') = bodies qs ++ bodies qs' :=
  flatMap_append

/-- A new writer knows the size. -/
theorem newWriter_size (path : ℕ) (qs : List (Segment α)) :
    (newWriter path qs).size = (bodies qs).length := by
  have hfold : ∀ (qs : List (Segment α)) (n : ℕ),
      qs.foldl (fun size segment => size + segment.body.length) n = n + (bodies qs).length := by
    intro qs
    induction qs with
    | nil => exact fun _ => rfl
    | cons q qs ih =>
      intro n
      rw [foldl_cons, ih, bodies, bodies, flatMap_cons, length_append, Nat.add_assoc]
  rw [newWriter, hfold, Nat.zero_add]

/-! ## Files and writers -/

/-- There is nothing at the segments paths to come, and no segment was overwritten. -/
structure Clean (w : World α) : Prop where
  fresh : ∀ x, w.serial ≤ x → w.segments x = []
  kept : w.overwritten = false

structure Shown (acc : List α) (path : ℕ) (w : World α) : Prop extends Clean w where
  path_lt : path < w.serial
  numbered : Numbered (w.segments path)
  content : bodies (w.segments path) = acc

structure Holding (bytes : List α) (w : World α) : Prop
    extends Shown bytes w.writer.segmentsPath w where
  next : w.writer.segmentNumber = (w.segments w.writer.segmentsPath).length + 1

structure Buffered (acc : List α) (w : World α) : Prop where
  opened : w.writer.closed = false
  uncommitted : w.writer.committed = false
  calm : w.writer.err = none
  holding : ∃ bytes, Holding bytes w ∧ bytes ++ w.writer.buffer = acc

structure Writing (acc : List α) (w : World α) : Prop extends Buffered acc w where
  size : w.writer.size = acc.length

variable {path : ℕ} {acc : List α} {w : World α}

theorem Shown.update (h : Shown acc path w) {file writer replies} :
    Shown acc path { w with file, writer, replies } :=
  ⟨{ h with }, h.path_lt, h.numbered, h.content⟩

def Excused (e : Error) (w : World α) : Prop := (e = .fault ∨ e = .timeout) ∧ w.overwritten = false

theorem Clean.excused (h : Clean w) : Excused .fault w := ⟨.inl rfl, h.kept⟩

theorem request_after {f : World α → World α} {Q : World α → Prop} {E : Error → World α → Prop}
    (hok : ∀ r, Q (f { w with replies := r })) (herr : ∀ r, E .fault { w with replies := r }) :
    After Q E (request f w) := by
  unfold request
  simp only
  split
  next => exact herr _
  next => exact hok _

variable {bytes : List α}

/-- A segment is written. -/
theorem putSegment_after (h : Holding bytes w) (chunk : List α) :
    After (fun t => Holding (bytes ++ chunk) t ∧
      ∃ n, t.writer = { w.writer with segmentNumber := n }) Excused (putSegment chunk w) := by
  refine request_after (fun r => ?_) fun r => ⟨.inl rfl, h.kept⟩
  have hlt : ∀ x ∈ w.segments w.writer.segmentsPath, x.number < w.writer.segmentNumber :=
    fun x hx => h.next ▸ h.numbered.number_lt hx
  have hnew : ¬ (w.segments w.writer.segmentsPath).any
      (fun x => x.number = w.writer.segmentNumber) := by
    simp only [any_eq_true, decide_eq_true_eq, not_exists, not_and]
    exact fun x hx => Nat.ne_of_lt (hlt x hx)
  have hinsert : insertSegment ⟨w.writer.segmentNumber, chunk⟩ (w.segments w.writer.segmentsPath) =
      w.segments w.writer.segmentsPath ++ [⟨w.writer.segmentNumber, chunk⟩] :=
    Appender.insert_of_lt hlt
  refine ⟨⟨⟨⟨fun x hx => ?_, ?_⟩, h.path_lt, ?_, ?_⟩, ?_⟩, _, rfl⟩
  · have hne : x ≠ w.writer.segmentsPath := Nat.ne_of_gt (Nat.lt_of_lt_of_le h.path_lt hx)
    simp only [World.putObject, hne, if_false]
    exact h.fresh x hx
  · simp [World.putObject, h.kept, hnew]
  · simp only [World.putObject, if_true, hinsert]
    rw [h.next]
    exact h.numbered.snoc chunk
  · simp only [World.putObject, if_true, hinsert, bodies_append, h.content]
    simp [bodies]
  · simp only [World.putObject, if_true, hinsert, length_append, length_singleton]
    rw [h.next]

/-- Many are. -/
theorem putSegments_after (h : Holding bytes w) (cs : List (List α)) :
    After (fun t => Holding (bytes ++ cs.flatten) t.1 ∧ t.2 = cs.flatten.length ∧
      ∃ n, t.1.writer = { w.writer with segmentNumber := n }) (fun e t => Excused e t.1)
      (putSegments cs w) := by
  induction cs generalizing bytes w with
  | nil => exact ⟨by simpa using h, rfl, w.writer.segmentNumber, rfl⟩
  | cons c cs ih =>
    unfold putSegments
    rcases (putSegment_after h c).elim with ⟨t, heq, hholding, n, hwriter⟩ | ⟨t, e, heq, he⟩ <;>
      simp only [heq]
    · rcases (ih hholding).elim with ⟨t', heq', hholding', hcount, n', hwriter'⟩ |
        ⟨t', e, heq', he⟩ <;> simp only [heq']
      · refine ⟨by simpa using hholding', by simp [hcount], n', ?_⟩
        rw [hwriter', hwriter]
      · exact he
    · exact he

/-- The chunks are all there is. -/
theorem chunks_flatten (hC : 0 < C) {fuel : ℕ} {p : List α} (h : p.length ≤ fuel) :
    (chunks C fuel p).flatten = p := by
  induction fuel generalizing p with
  | zero =>
    rw [length_eq_zero_iff.1 (Nat.le_zero.1 h)]
    rfl
  | succ fuel ih =>
    cases p with
    | nil => rfl
    | cons x xs =>
      have hdrop : ((x :: xs).drop C).length ≤ fuel := by
        simp only [length_drop, length_cons] at h ⊢
        omega
      rw [chunks, flatten_cons, ih hdrop, take_append_drop]

/-! ## The buffer -/

theorem Holding.update (h : Holding bytes w) {file writer replies}
    (hpath : writer.segmentsPath = w.writer.segmentsPath)
    (hnumber : writer.segmentNumber = w.writer.segmentNumber) :
    Holding bytes { w with file, writer, replies } := by
  refine ⟨⟨{ h with }, ?_, ?_, ?_⟩, ?_⟩
  · exact hpath ▸ h.path_lt
  · simpa only [hpath] using h.numbered
  · simpa only [hpath] using h.content
  · simpa only [hpath, hnumber] using h.next

/-- The buffer becomes segments. -/
theorem flush_after (hC : 0 < C) (h : Buffered acc w) :
    After (fun t => Buffered acc t ∧ t.writer.buffer = [] ∧ t.writer.size = w.writer.size) Excused
      (flush C w) := by
  obtain ⟨hopen, huncommitted, hcalm, bytes, hholding, hacc⟩ := h
  have hput := putSegments_after hholding (chunks C w.writer.buffer.length w.writer.buffer)
  rw [chunks_flatten hC (Nat.le_refl _)] at hput
  unfold flush
  rw [if_neg (by simp [hcalm])]
  rcases hput.elim with ⟨t, heq, hholding', hcount, n, hwriter⟩ | ⟨t, e, heq, he⟩ <;>
    simp only [heq]
  · have hempty : t.1.writer.buffer.drop t.2 = [] := by
      rw [hcount, hwriter]
      exact drop_length
    refine ⟨⟨?_, ?_, rfl, _, hholding'.update rfl rfl, ?_⟩, hempty, ?_⟩
    · simp only [hwriter, hopen]
    · simp only [hwriter, huncommitted]
    · simp only [hempty, append_nil, hacc]
    · simp only [hwriter]
  · exact he

/-- What is left over is buffered. -/
theorem fillBuffer_after (hC : 0 < C) (h : Buffered acc w) (hempty : w.writer.buffer = [])
    (p : List α) :
    After (fun t => Buffered (acc ++ p) t.1 ∧ t.2 = p.length ∧
      t.1.writer.size = w.writer.size) (fun e t => Excused e t.1) (fillBuffer C p w) := by
  obtain ⟨hopen, huncommitted, hcalm, bytes, hholding, hacc⟩ := h
  rw [hempty, append_nil] at hacc
  subst hacc
  unfold fillBuffer
  split
  next => exact ⟨⟨hopen, huncommitted, hcalm, _, hholding.update rfl rfl, rfl⟩, rfl, rfl⟩
  next =>
    have hput := putSegments_after hholding (chunks C p.length p)
    rw [chunks_flatten hC (Nat.le_refl _)] at hput
    rcases hput.elim with ⟨t, heq, hholding', hcount, n, hwriter⟩ | ⟨t, e, heq, he⟩ <;>
      simp only [heq]
    · refine ⟨⟨?_, ?_, rfl, _, hholding'.update rfl rfl, ?_⟩, hcount, ?_⟩
      · simp only [hwriter, hopen]
      · simp only [hwriter, huncommitted]
      · simp only [hwriter, hempty, append_nil]
      · simp only [hwriter]
    · exact he

/-- INTERNAL: a whole write. -/
theorem writeBuffer_after (hC : 0 < C) (h : Buffered acc w) (p : List α) :
    After (fun t => Buffered (acc ++ p) t.1 ∧ t.2 = p.length ∧
      t.1.writer.size = w.writer.size) (fun e t => Excused e t.1) (writeBuffer C p w) := by
  have hextend : ∀ r, Buffered (acc ++ r)
      { w with writer := { w.writer with buffer := w.writer.buffer ++ r } } := by
    intro r
    obtain ⟨hopen, huncommitted, hcalm, bytes, hholding, hacc⟩ := h
    refine ⟨hopen, huncommitted, hcalm, bytes, hholding.update rfl rfl, ?_⟩
    rw [← hacc, append_assoc]
  unfold writeBuffer
  rw [if_neg (by simp [h.calm])]
  split
  next hempty => exact fillBuffer_after hC h (length_eq_zero_iff.1 hempty) p
  next =>
    simp only
    split
    next => exact ⟨hextend p, rfl, rfl⟩
    next hlarge =>
      rcases (flush_after hC (hextend (p.take (C - w.writer.buffer.length)))).elim with
        ⟨t, heq, hbuffered, hempty, hsize⟩ | ⟨t, e, heq, he⟩ <;> simp only [heq]
      · rcases (fillBuffer_after hC hbuffered hempty (p.drop (C - w.writer.buffer.length))).elim
          with ⟨t', heq', hbuffered', hcount, hsize'⟩ | ⟨t', e, heq', he⟩ <;> simp only [heq']
        · rw [append_assoc, take_append_drop] at hbuffered'
          refine ⟨hbuffered', ?_, hsize'.trans hsize⟩
          simp only [hcount, length_drop]
          omega
        · exact he
      · exact he

/-- A write appends what it says. -/
theorem write_ends (hC : 0 < C) (h : Writing acc w) (p : List α) :
    Ends (fun t => Writing (acc ++ p.take t.2) t.1) (fun e t => Excused e t.1) (write C p w) := by
  unfold write
  rw [if_neg (by simp [h.opened]), if_neg (by simp [h.uncommitted])]
  rcases (writeBuffer_after hC h.toBuffered p).elim with
    ⟨t, heq, ⟨hopen, huncommitted, hcalm, bytes, hholding, hacc⟩, hcount, hsize⟩ |
    ⟨t, e, heq, he⟩ <;> simp only [heq]
  · simp only [Ends, outcome, hcount, take_length]
    refine ⟨⟨hopen, huncommitted, hcalm, bytes, hholding.update rfl rfl, hacc⟩, ?_⟩
    simp only [hsize, h.size, length_append]
  · exact he

/-! ## Closing and committing -/

structure Flushed (acc : List α) (w : World α) : Prop extends Writing acc w where
  empty : w.writer.buffer = []

structure Manifested (acc : List α) (w : World α) : Prop extends Flushed acc w where
  file : w.file = some (.manifest w.writer.segmentsPath)

theorem Flushed.shown (h : Flushed acc w) : Shown acc w.writer.segmentsPath w := by
  obtain ⟨bytes, hholding, hacc⟩ := h.holding
  rw [h.empty, append_nil] at hacc
  exact hacc ▸ hholding.toShown

theorem flush_meets (hC : 0 < C) : Meets (Writing acc) (flush C) (Flushed acc) Excused := by
  intro w h
  exact (flush_after hC h.toBuffered).imp fun t ⟨hbuffered, hempty, hsize⟩ =>
    ⟨⟨hbuffered, hsize.trans h.size⟩, hempty⟩

theorem createManifest_meets : Meets (Flushed acc) createManifest (Manifested acc) Excused := by
  intro w h
  obtain ⟨bytes, hholding, hacc⟩ := h.holding
  refine request_after (fun r => ?_) fun r => hholding.toClean.excused
  exact ⟨⟨⟨⟨h.opened, h.uncommitted, h.calm, bytes, hholding.update rfl rfl, hacc⟩, h.size⟩,
    h.empty⟩, rfl⟩

variable {polls : List Poll}

/-- Waiting may time out. -/
theorem awaitBytes_error {e e'} (he : e = .fault ∨ e = .timeout)
    (h : awaitBytes w polls e = some e') : e' = .fault ∨ e' = .timeout := by
  induction polls generalizing e with
  | nil =>
    cases h
    exact he
  | cons poll polls ih =>
    cases poll with
    | fail => exact ih (.inl rfl) h
    | omits numbers =>
      rw [awaitBytes] at h
      split at h
      next => cases h
      next => exact ih (.inr rfl) h

theorem wait_meets {P : World α → Prop} (hP : ∀ w, P w → Clean w) :
    Meets P waitForSegmentsToShowUp P Excused :=
  Meets.check (fun _ h _ => h) fun w _ h herr => ⟨awaitBytes_error (.inr rfl) herr, (hP w h).kept⟩

def Closed (acc : List α) (w : World α) : Prop :=
  ∃ path, w.file = some (.manifest path) ∧ Shown acc path w

theorem close_meets (hC : 0 < C) : Meets (Writing acc) (close C) (Closed acc) Excused := by
  refine Meets.andThen (Meets.check (fun w h _ => h) fun w e h herr => ?_) <|
    (flush_meets hC).andThen <| Meets.andThen (Q := Manifested acc) ?_ ?_
  · simp [h.opened] at herr
  · intro w h
    simp only [h.uncommitted, Bool.not_false, Stage.when, if_true]
    exact createManifest_meets.andThen (wait_meets fun w h => h.shown.toClean) w h
  · intro w h
    exact ⟨_, h.file, h.shown.update⟩

theorem commit_meets (hC : 0 < C) : Meets (Writing acc) (commit C) (Closed acc) Excused := by
  refine Meets.andThen (Meets.check (fun w h _ => h) fun w e h herr => ?_) <|
    (flush_meets hC).andThen <| createManifest_meets.andThen <|
      Meets.andThen (Q := Closed acc) ?_ (wait_meets fun w ⟨_, _, h⟩ => h.toClean)
  · simp [h.opened, h.uncommitted] at herr
  · intro w h
    exact ⟨_, h.file, h.shown.update⟩

/-! ## Finding the segments -/

theorem request_id (w : World α) :
    (∃ r, request id w = ({ w with replies := { w.replies with faults := r } }, none)) ∨
      ∃ r, request id w = ({ w with replies := { w.replies with faults := r } }, some .fault) := by
  unfold request
  simp only
  split
  next => exact .inr ⟨_, rfl⟩
  next => exact .inl ⟨_, rfl⟩

/-- A segment that is not there. -/
theorem findSegments_missing {path number listed numbers found}
    (hkept : w.overwritten = false) (hlisted : number ∉ listed)
    (hmissing : ∀ q ∈ w.segments path, q.number ≠ number) :
    After (fun t => t.2 = found ∧ ∃ r, t.1 = { w with replies := r }) (fun e t => Excused e t.1)
      (findSegments path listed (number :: numbers) found w) := by
  have hfind : (w.segments path).find? (fun q => q.number = number) = none :=
    List.find?_eq_none.2 fun q hq => by simpa using hmissing q hq
  rw [findSegments, if_neg hlisted]
  rcases request_id w with ⟨r, heq⟩ | ⟨r, heq⟩
  · rw [heq]
    simp only [hfind]
    exact ⟨rfl, _, rfl⟩
  · rw [heq]
    exact ⟨.inl rfl, hkept⟩

/-- **Segments with the numbers from 1 on are all found**, whatever the listing has. -/
theorem findSegments_sequence {listed pre rest found}
    (hkept : w.overwritten = false) (hsegments : w.segments path = pre ++ rest)
    (hpre : pre.map Segment.number = List.range' 1 pre.length)
    (hrest : rest.map Segment.number = List.range' (pre.length + 1) rest.length)
    (hlisted : pre.length + rest.length + 1 ∉ listed) :
    After (fun t => t.2 = found ++ rest.filter (fun q => q.number ∉ listed) ∧
      ∃ r, t.1 = { w with replies := r }) (fun e t => Excused e t.1)
      (findSegments path listed (List.range' (pre.length + 1) (rest.length + 1)) found w) := by
  -- the numbers before `pre.length + 1` have been dealt with
  induction rest generalizing pre found w with
  | nil =>
    rw [append_nil] at hsegments
    rw [filter_nil, append_nil]
    exact findSegments_missing hkept hlisted fun q hq =>
      Nat.ne_of_lt (Numbered.number_lt (.inl hpre) (hsegments ▸ hq))
  | cons q rest ih =>
    rw [map_cons, length_cons, range'_succ, List.cons.injEq] at hrest
    obtain ⟨hq, hrest⟩ := hrest
    have hpre' : (pre ++ [q]).map Segment.number = List.range' 1 (pre ++ [q]).length := by
      rw [map_append, hpre, length_append, length_singleton, range'_1_concat,
        map_singleton, hq, Nat.add_comm 1]
    have hlength : (pre ++ [q]).length = pre.length + 1 := by simp
    have hlisted' : (pre ++ [q]).length + rest.length + 1 ∉ listed := by
      rw [hlength, Nat.add_right_comm pre.length]
      exact hlisted
    have hnext : ∀ (found : List (Segment α)) (r : List Bool),
        After (fun t => t.2 = found ++ rest.filter (fun q => q.number ∉ listed) ∧
          ∃ r, t.1 = { w with replies := r }) (fun e t => Excused e t.1)
          (findSegments path listed (List.range' (pre.length + 1 + 1) (rest.length + 1)) found
            { w with replies := { w.replies with faults := r } }) := by
      intro found r
      rw [← hlength]
      exact ih hkept (by simpa using hsegments) hpre' (hlength ▸ hrest) hlisted'
    rw [length_cons, range'_succ, findSegments]
    split
    next hin =>
      rw [filter_cons_of_neg (by simpa [hq] using hin)]
      exact hnext found w.replies.faults
    next hout =>
      have hfind : (w.segments path).find? (fun x => x.number = pre.length + 1) = some q := by
        rw [hsegments, List.find?_append, List.find?_eq_none.2, Option.none_or,
          List.find?_cons_of_pos]
        · simpa using hq
        · exact fun x hx => by
            simpa using Nat.ne_of_lt (Numbered.number_lt (.inl hpre) hx)
      rw [filter_cons_of_pos (by simpa [hq] using hout)]
      rcases request_id w with ⟨r, heq⟩ | ⟨r, heq⟩
      · rw [heq]
        simp only [hfind]
        have hafter := hnext (found ++ [q]) r
        rw [append_assoc] at hafter
        exact hafter
      · rw [heq]
        exact ⟨.inl rfl, hkept⟩

/-- The listing of a file with a segment 0 is complete. -/
def Listed (omitted : List ℕ) (qs : List (Segment α)) : Prop :=
  (∃ q ∈ qs, q.number = 0) → ∀ q ∈ qs, q.number ∉ omitted

/-- Segments that are not listed are found. -/
theorem filter_listed_perm (omitted : List ℕ) (qs : List (Segment α)) :
    (qs.filter (fun q => q.number ∉ omitted) ++ qs.filter (fun q => q.number ∉
      (qs.filter fun q => q.number ∉ omitted).map Segment.number)).Perm qs := by
  have hrest : qs.filter (fun q => q.number ∉
      (qs.filter fun q => q.number ∉ omitted).map Segment.number) =
      qs.filter fun q => !decide (q.number ∉ omitted) := by
    refine filter_congr fun q hq => ?_
    rw [← decide_not, decide_eq_decide, not_iff_not, mem_map]
    constructor
    · rintro ⟨x, hx, heq⟩
      rw [mem_filter, heq] at hx
      simpa using hx.2
    · intro hnot
      exact ⟨q, mem_filter.2 ⟨hq, by simpa using hnot⟩, rfl⟩
  rw [hrest]
  exact filter_append_perm _ qs

/-- **All segments of a file are found.** -/
theorem getAllSegments_after (h : Shown acc path w)
    (hlisted : Listed w.replies.omitted (w.segments path)) :
    After (fun t => t.2.Perm (w.segments path) ∧ ∃ r, t.1 = { w with replies := r })
      (fun e t => Excused e t.1) (getAllSegments path w) := by
  unfold getAllSegments
  rcases request_id w with ⟨r, heq⟩ | ⟨r, heq⟩
  · rw [heq]
    simp only
    have hlisting : ∀ n ∈ ((w.segments path).filter fun q => q.number ∉ w.replies.omitted).map
        Segment.number, ∃ q ∈ w.segments path, q.number = n := by
      intro n hn
      obtain ⟨q, hq, rfl⟩ := mem_map.1 hn
      exact ⟨q, (mem_filter.1 hq).1, rfl⟩
    rcases h.numbered with hnumbers | ⟨k, hnumbers⟩
    · have hbeyond : 0 + (w.segments path).length + 1 ∉ ((w.segments path).filter fun q =>
          q.number ∉ w.replies.omitted).map Segment.number := by
        intro hin
        obtain ⟨q, hq, heq⟩ := hlisting _ hin
        have hlt := h.numbered.number_lt hq
        omega
      have hfind : After _ _ (findSegments path _ (List.range' 1 ((w.segments path).length + 1))
          ((w.segments path).filter fun q => q.number ∉ w.replies.omitted)
          { w with replies := { w.replies with faults := r } }) :=
        findSegments_sequence (w := { w with replies := { w.replies with faults := r } })
          h.kept (nil_append _).symm rfl hnumbers hbeyond
      refine hfind.imp fun t ⟨ht, r', hr'⟩ => ⟨?_, r', hr'⟩
      rw [ht]
      exact filter_listed_perm _ _
    · -- there is no segment 1, and the listing has all the others
      have hzero : ∃ q ∈ w.segments path, q.number = 0 := by
        have hmem : 0 ∈ (w.segments path).map Segment.number := by simp [hnumbers]
        exact mem_map.1 hmem
      have hmissing : ∀ q ∈ w.segments path, q.number ≠ 1 := by
        intro q hq hone
        have hmem : q.number ∈ (w.segments path).map Segment.number := mem_map_of_mem hq
        rw [hnumbers, hone, mem_cons, mem_range'_1] at hmem
        omega
      have hall : (w.segments path).filter (fun q => q.number ∉ w.replies.omitted) =
          w.segments path :=
        filter_eq_self.2 fun q hq => decide_eq_true (hlisted hzero q hq)
      have hone : 1 ∉ ((w.segments path).filter fun q => q.number ∉ w.replies.omitted).map
          Segment.number := by
        intro hin
        obtain ⟨q, hq, heq⟩ := hlisting _ hin
        exact hmissing q hq heq
      have hfind : After _ _ (findSegments path _ (List.range' 1 ((w.segments path).length + 1))
          ((w.segments path).filter fun q => q.number ∉ w.replies.omitted)
          { w with replies := { w.replies with faults := r } }) :=
        findSegments_missing h.kept hone hmissing
      refine hfind.imp fun t ⟨ht, r', hr'⟩ => ⟨?_, r', hr'⟩
      rw [ht, hall]
  · rw [heq]
    exact ⟨.inl rfl, h.kept⟩

/-! ## The calls -/

def Stored : Phase → List α → World α → Prop
  | .absent, _, w => Clean w
  | .writing, acc, w => Writing acc w
  | .closed, acc, w => Closed acc w
  | .committed, acc, w => Clean w ∧ w.file = some (.plain acc) ∨ acc ≠ [] ∧ Closed acc w

theorem Closed.clean : Closed acc w → Clean w := fun ⟨_, _, h⟩ => h.toClean

theorem Stored.clean {phase} (h : Stored phase acc w) : Clean w := by
  cases phase with
  | absent => exact h
  | writing =>
    obtain ⟨bytes, hholding, -⟩ := Writing.toBuffered h |>.holding
    exact hholding.toClean
  | closed => exact Closed.clean h
  | committed =>
    rcases h with ⟨h, -⟩ | ⟨-, h⟩
    · exact h
    · exact h.clean

theorem putContent_meets (p : List α) :
    Meets Clean (putContent p) (Stored .committed p) Excused := by
  intro w h
  exact request_after (fun r => .inl ⟨{ h with }, rfl⟩) fun r => ⟨.inl rfl, h.kept⟩

theorem createWriter_meets : Meets (Clean (α := α)) createWriter (Writing []) Excused := by
  intro w h
  have hnone : w.segments w.serial = [] := h.fresh _ (Nat.le_refl _)
  refine ⟨⟨rfl, rfl, rfl, [], ⟨⟨⟨fun x hx => ?_, h.kept⟩, Nat.lt_succ_self _, ?_, ?_⟩, ?_⟩, rfl⟩,
    rfl⟩
  · exact h.fresh x (Nat.le_of_succ_le hx)
  · exact .inl (by simp [newWriter, hnone])
  · simp [newWriter, hnone, bodies]
  · simp [newWriter, hnone]

/-- A plain file becomes a segment. -/
theorem movePlain_meets (body : List α) : Meets Clean (movePlain body) (Writing body) Excused := by
  intro w h
  have hnone : w.segments w.serial = [] := h.fresh _ (Nat.le_refl _)
  refine request_after (fun r => ?_) fun r => ⟨.inl rfl, h.kept⟩
  refine ⟨⟨rfl, rfl, rfl, body, ⟨⟨⟨fun x hx => ?_, ?_⟩, Nat.lt_succ_self _, ?_, ?_⟩, ?_⟩, ?_⟩, ?_⟩
  · have hne : x ≠ w.serial := Nat.ne_of_gt hx
    simp only [World.putObject, hne, if_false]
    exact h.fresh x (Nat.le_of_succ_le hx)
  · simp [World.putObject, hnone, h.kept]
  · exact .inr ⟨0, by simp [World.putObject, newWriter, hnone, insertSegment]⟩
  · simp [World.putObject, newWriter, hnone, insertSegment, bodies]
  · simp [World.putObject, newWriter, hnone, insertSegment]
  · simp [newWriter]
  · simp [newWriter]

/-- The listing is complete if the file has a segment 0. -/
def Complete (omitted : List ℕ) (w : World α) : Prop :=
  ∀ path, w.file = some (.manifest path) → Listed omitted (w.segments path)

/-- INTERNAL: a file is reopened. -/
theorem reopenWriter_after (h : Clean w ∧ w.file = some (.plain acc) ∨ Closed acc w)
    (hcomplete : Complete w.replies.omitted w) : After (Writing acc) Excused (reopenWriter w) := by
  have hclean : Clean w := h.elim (fun h => h.1) Closed.clean
  unfold reopenWriter
  rcases request_id w with ⟨r, heq⟩ | ⟨r, heq⟩
  · rw [heq]
    simp only
    rcases h with ⟨-, hfile⟩ | ⟨path, hfile, hshown⟩
    · rw [hfile]
      exact movePlain_meets acc _ { hclean with }
    have hshown' : Shown acc path { w with replies := { w.replies with faults := r } } :=
      hshown.update
    rcases (getAllSegments_after hshown' (hcomplete path hfile)).elim with
      ⟨⟨t, segments⟩, hall, hperm, r', rfl⟩ | ⟨t, e, hall, he⟩ <;>
      simp only [hfile] at hall ⊢ <;> simp only [hall]
    · have hbytes : (bodies segments).length = acc.length := by
        rw [← hshown.content]
        exact (hperm.flatMap_right _).length_eq
      refine ⟨⟨rfl, rfl, rfl, acc, ⟨hshown.update, ?_⟩, ?_⟩, ?_⟩
      · simp only [newWriter, hperm.length_eq]
      · simp [newWriter]
      · rw [newWriter_size, hbytes]
    · exact he
  · rw [heq]
    exact ⟨.inl rfl, hclean.kept⟩

/-- No call has failed before, a file with a segment 0 is only reopened with a complete listing, and
a file that is committed is not empty. -/
def Admitted (s : Appender.State (World α) α Error) : Appender.Call α Replies → Prop
  | .reopen r => s.outcome = .ok ∧ Complete r.omitted s.world
  | .commit _ => s.outcome = .ok ∧ s.accepted ≠ []
  | _ => s.outcome = .ok

theorem ends_of_after {Q : World α → Prop} {E : Error → World α → Prop} {a r}
    (h : After Q E (a { w with replies := r })) :
    Ends Q E (call a r w) := by
  unfold call
  rcases h.elim with ⟨t, heq, h⟩ | ⟨t, e, heq, h⟩ <;> rw [heq] <;> exact h

theorem Writing.renew (h : Writing acc w) (r : Replies) : Writing acc { w with replies := r } := by
  obtain ⟨bytes, hholding, hacc⟩ := h.holding
  exact ⟨⟨h.opened, h.uncommitted, h.calm, bytes, hholding.update rfl rfl, hacc⟩, h.size⟩

/-- **Every admitted call leaves the file as it should be.** -/
theorem driver_respects (hC : 0 < C) :
    Appender.Respects (driver C : Appender (World α) α Error Replies) Admitted Stored Excused := by
  constructor
  case calm =>
    intro s c hok
    cases c with
    | put | create | write | close => exact hok
    | reopen | commit => exact hok.1
  case put =>
    intro s r p _ _ hstored
    exact ends_of_after (putContent_meets p _ { hstored.clean with })
  case create =>
    intro s r _ _ hstored
    exact ends_of_after (createWriter_meets _ { hstored.clean with })
  case reopen =>
    intro s r hok hphase hstored
    refine ends_of_after (reopenWriter_after ?_ hok.2)
    rcases hphase with hphase | hphase
    · rw [hphase] at hstored
      obtain ⟨path, hfile, hshown⟩ := hstored
      exact .inr ⟨path, hfile, hshown.update⟩
    · rw [hphase] at hstored
      rcases hstored with ⟨hclean, hfile⟩ | ⟨-, path, hfile, hshown⟩
      · exact .inl ⟨{ hclean with }, hfile⟩
      · exact .inr ⟨path, hfile, hshown.update⟩
  case write =>
    intro s r p _ hstored
    exact write_ends hC (Writing.renew hstored r) p
  case close =>
    intro s r _ hstored
    exact ends_of_after (close_meets hC _ (Writing.renew hstored r))
  case commit =>
    intro s r hok hstored
    exact ends_of_after ((commit_meets hC _ (Writing.renew hstored r)).imp
      fun t ht => .inr ⟨hok.2, ht⟩)

/-! ## The writer -/

/-- A poll that sees all segments of the file, or none of them. -/
def Poll.Clear (w : World α) : Poll → Prop
  | .fail => False
  | .omits numbers => numbers = [] ∨ w.bytes numbers = some 0

theorem bytes_nil (w : World α) : w.bytes [] = w.content.map List.length := by
  unfold World.bytes World.content
  cases w.file with
  | none => rfl
  | some file =>
    cases file with
    | plain body => rfl
    | manifest path =>
      have hfilter : (w.segments path).filter (fun q => q.number ∉ []) = w.segments path :=
        filter_eq_self.2 fun q _ => by simp
      simp only [hfilter, Option.map_some]

/-- `Stat` waits for the size. -/
theorem stat_manifest (hfile : w.file = some (.manifest path)) (hcontent : w.content = some acc)
    (hne : acc ≠ []) (hclear : ∀ p ∈ polls, Poll.Clear w p) (hshown : .omits [] ∈ polls) :
    stat w polls = .ok acc.length := by
  have hall : w.bytes [] = some acc.length := by rw [bytes_nil, hcontent, Option.map_some]
  obtain ⟨n, hn⟩ := Nat.exists_eq_succ_of_ne_zero fun h => hne (length_eq_zero_iff.1 h)
  induction polls with
  | nil => cases hshown
  | cons poll polls ih =>
    have hpoll := hclear poll mem_cons_self
    cases poll with
    | fail => exact hpoll.elim
    | omits numbers =>
      rcases hpoll with rfl | hzero
      · rw [stat, hfile, hall, hn]
        rfl
      rw [stat, hfile, hzero]
      refine ih (fun p hp => hclear p (mem_cons_of_mem _ hp)) ?_
      rcases mem_cons.1 hshown with heq | hlater
      · cases heq
        rw [hall, hn] at hzero
        cases hzero
      · exact hlater

theorem stat_plain (hfile : w.file = some (.plain acc)) (hclear : ∀ p ∈ polls, Poll.Clear w p)
    (hshown : .omits [] ∈ polls) : stat w polls = .ok acc.length := by
  cases polls with
  | nil => cases hshown
  | cons poll polls =>
    have hpoll := hclear poll mem_cons_self
    cases poll with
    | fail => exact hpoll.elim
    | omits numbers => simp [stat, hfile, World.bytes]

structure Intact (s : Appender.State (World α) α Error) : Prop where
  kept : s.world.overwritten = false
  size : s.outcome = .ok → s.phase = .writing → s.world.writer.size = s.accepted.length
  committed : s.outcome = .ok → s.phase = .committed → s.world.content = some s.accepted
  /-- `Stat` tells its length once it sees the segments. -/
  stat : s.outcome = .ok → s.phase = .committed → ∀ polls, (∀ p ∈ polls, Poll.Clear s.world p) →
    .omits [] ∈ polls → Model.SwiftUploads.stat s.world polls = .ok s.accepted.length
  /-- A call only fails when a request does, or the segments do not show up. -/
  calm : s.outcome = .ok ∨ s.outcome = .failed .fault ∨ s.outcome = .failed .timeout

/-- What is stored is intact. -/
theorem Stored.intact {s : Appender.State (World α) α Error}
    (h : Stored s.phase s.accepted s.world) (hok : s.outcome = .ok) : Intact s := by
  refine ⟨h.clean.kept, fun _ hphase => ?_, fun _ hphase => ?_,
    fun _ hphase polls hclear hshown => ?_, .inl hok⟩
  · rw [hphase] at h
    exact Writing.size h
  · rw [hphase] at h
    rcases h with ⟨-, hfile⟩ | ⟨-, path, hfile, hshown⟩
    · simp [World.content, hfile]
    · simp [World.content, hfile, hshown.content]
  · rw [hphase] at h
    rcases h with ⟨-, hfile⟩ | ⟨hne, path, hfile, hsegments⟩
    · exact stat_plain hfile hclear hshown
    · refine stat_manifest hfile ?_ hne hclear hshown
      simp [World.content, hfile, hsegments.content]

instance (omitted : List ℕ) (w : World α) : Decidable (Complete omitted w) :=
  match h : w.file with
  | some (.manifest path) =>
    decidable_of_iff ((∃ q ∈ w.segments path, q.number = 0) →
        ∀ q ∈ w.segments path, q.number ∉ omitted)
      ⟨fun hlisted path' hpath => by
        cases h.symm.trans hpath
        exact hlisted, fun hcomplete => hcomplete path h⟩
  | some (.plain _) => isTrue fun path hpath => by cases h.symm.trans hpath
  | none => isTrue fun path hpath => by cases h.symm.trans hpath

instance [DecidableEq α] (s : Appender.State (World α) α Error) (c : Appender.Call α Replies) :
    Decidable (Admitted s c) := by
  cases c <;> dsimp only [Admitted] <;> infer_instance

/-- A service that carries out everything, with a listing that omits segments. -/
def willing (omitted : List ℕ) : Replies := ⟨[], omitted, [.omits []]⟩

end ContainerRegistry.Analysis.SwiftUploads
