import ContainerRegistry.Model.ClientUploads

/-!
# What the upload writer of the client tells

The server answers with the range from zero to the end of the upload, and the client never moves its
offset, so a `Write` returns the length of the upload: the contract is kept until a `Write`
succeeds.
-/

namespace ContainerRegistry.Analysis.ClientUploads

open Model.ClientUploads List

variable {β : Type}

def Entry.written (e : Entry β) : ℕ := if e.result.isSome then e.body.length else 0

/-- **The contract of the writer**, for calls after so many bytes. -/
def Honours : ℕ → List (Entry β) → Prop
  | _, [] => True
  | total, e :: es =>
    e.contentRange.1 = (total : Int) ∧ (∀ n, e.result = some n → n = (e.body.length : Int)) ∧
      e.size = (total + Entry.written e : ℕ) ∧ Honours (total + Entry.written e) es

def Fate.harmless : Fate → Bool
  | .lost => true
  | .cut received => received == 0
  | _ => false

/-- No call is answered before another one changes the upload. -/
def NoneAnswered : List (List β × Fate) → Prop
  | [] => True
  | call :: calls =>
    call.2 ≠ .answered ∧ (Fate.harmless call.2 = true → NoneAnswered calls)

/-- The upload is where the token of the client says. -/
def InStep (w : System β) (content : List β) : Prop :=
  w.client.location.state = ⟨w.server.name, w.client.location.uuid, content.length⟩ ∧
    w.server.uploads w.client.location.uuid = some content

def Stale (w : System β) : Prop := (resumeBlobUpload w.server w.client.location).2 = none

/-! ## One call -/

variable {w : System β}

theorem InStep.resume {content} (h : InStep w content) :
    resumeBlobUpload w.server w.client.location = (w.server, some content) := by
  obtain ⟨hstate, hupload⟩ := h
  simp [resumeBlobUpload, hstate, hupload]

theorem stale_of_longer {content} (hstate : w.server.uploads w.client.location.uuid = some content)
    (hlen : content.length ≠ w.client.location.state.offset) : Stale w := by
  unfold Stale resumeBlobUpload
  split
  · rfl
  split
  · rfl
  rw [hstate]
  simp only [if_pos hlen]

/-- Resuming changes nothing or drops the upload. -/
theorem resume_cases (s : Server β) (loc : Location) :
    (resumeBlobUpload s loc).1 = s ∨ resumeBlobUpload s loc = (s.set loc.uuid none, none) := by
  unfold resumeBlobUpload
  split
  · exact .inl rfl
  split
  · exact .inl rfl
  split
  · exact .inl rfl
  split
  · exact .inr rfl
  · exact .inl rfl

variable {s : Server β}

/-- An upload that is gone stays so. -/
theorem resume_stale {loc} (h : (resumeBlobUpload s loc).2 = none) :
    (resumeBlobUpload (resumeBlobUpload s loc).1 loc).2 = none := by
  rcases resume_cases s loc with hsame | hcancelled
  · rw [hsame]
    exact h
  rw [hcancelled]
  unfold resumeBlobUpload
  split
  · rfl
  split
  · rfl
  simp [Server.set]

theorem patch_stale {loc} (body : List β) (fate : Fate) (h : (resumeBlobUpload s loc).2 = none) :
    patchBlobData s loc body fate = (s, none) ∨
      patchBlobData s loc body fate = ((resumeBlobUpload s loc).1, none) := by
  have hresume : resumeBlobUpload s loc = ((resumeBlobUpload s loc).1, none) := Prod.ext rfl h
  cases fate with
  | lost => exact .inl rfl
  | cut received | unanswered | answered =>
    rw [patchBlobData, hresume]
    exact .inr rfl

theorem write_none {p fate} (h : patchBlobData w.server w.client.location p fate = (s, none)) :
    write w p fate = (⟨w.client, s⟩, ⟨p, w.client.contentRange p, none, w.client.offset⟩) := by
  simp only [write, h, HttpBlobUpload.handle, HttpBlobUpload.size]

theorem write_stale (p : List β) (fate : Fate) (h : Stale w) :
    (write w p fate).2 = ⟨p, w.client.contentRange p, none, w.client.offset⟩ ∧
      (write w p fate).1.client = w.client ∧ Stale (write w p fate).1 := by
  rcases patch_stale p fate h with hpatch | hpatch
  · rw [write_none hpatch]
    exact ⟨rfl, rfl, h⟩
  · rw [write_none hpatch]
    exact ⟨rfl, rfl, resume_stale h⟩

/-- **A `Write` that succeeds returns the length of the whole upload**; `Size` does not change. -/
theorem write_answered {content p} (h : InStep w content) (hp : p ≠ []) :
    (write w p .answered).2 =
        ⟨p, w.client.contentRange p, some (content.length + p.length : ℕ), w.client.offset⟩ ∧
      InStep (write w p .answered).1 (content ++ p) := by
  have hpos : 0 < (content ++ p).length := by
    rw [length_append]
    have := length_pos_iff.2 hp
    omega
  have hrange : ¬ (((content ++ p).length : Int) - 1 < 0) := by omega
  have hwrite : write w p .answered =
      (⟨⟨w.client.location.uuid, ⟨w.client.location.uuid,
          ⟨w.server.name, w.client.location.uuid, (content ++ p).length⟩⟩, w.client.offset⟩,
        w.server.set w.client.location.uuid (some (content ++ p))⟩,
      ⟨p, w.client.contentRange p, some (((content ++ p).length : Int) - 1 - 0 + 1),
        w.client.offset⟩) := by
    simp only [write, patchBlobData, h.resume, blobUploadResponse, HttpBlobUpload.handle,
      HttpBlobUpload.size, if_pos hpos, if_neg hrange]
  rw [hwrite]
  refine ⟨?_, rfl, by simp [Server.set]⟩
  simp only [Entry.mk.injEq, Option.some.injEq, true_and, and_true, length_append]
  omega

/-! ## Calls -/

theorem honours_of_stale (h : Stale w) (hoffset : w.client.offset = 0)
    (calls : List (List β × Fate)) : Honours 0 (writes w calls) := by
  induction calls generalizing w with
  | nil => trivial
  | cons call calls ih =>
    obtain ⟨hentry, hclient, hstale⟩ := write_stale call.1 call.2 h
    have hrest := ih hstale (by rw [hclient, hoffset])
    simp only [writes, Honours, hentry, Entry.written, HttpBlobUpload.contentRange, hoffset]
    exact ⟨rfl, nofun, rfl, hrest⟩

theorem honours_cons {p fate calls} (hoffset : w.client.offset = 0)
    (h : patchBlobData w.server w.client.location p fate = (s, none)) :
    Honours 0 (writes w ((p, fate) :: calls)) ↔ Honours 0 (writes ⟨w.client, s⟩ calls) := by
  simp only [writes, write_none h, Honours, Entry.written, HttpBlobUpload.contentRange, hoffset]
  exact ⟨fun h => h.2.2.2, fun h => ⟨rfl, nofun, rfl, h⟩⟩

theorem honours_of_longer {p added fate calls}
    (h : InStep w []) (hoffset : w.client.offset = 0) (hadded : added ≠ [])
    (hpatch : patchBlobData w.server w.client.location p fate =
      (w.server.set w.client.location.uuid (some added), none)) :
    Honours 0 (writes w ((p, fate) :: calls)) := by
  have hupload : (w.server.set w.client.location.uuid (some added)).uploads
      w.client.location.uuid = some added := by simp [Server.set]
  rw [honours_cons hoffset hpatch]
  refine honours_of_stale (stale_of_longer (w := ⟨w.client, _⟩) hupload ?_) hoffset calls
  rw [h.1]
  exact fun hlen => hadded (length_eq_zero_iff.1 hlen)

/-- INTERNAL: of a writer in step, by its calls. -/
theorem honours_iff_of_inStep (h : InStep w []) (hoffset : w.client.offset = 0)
    (calls : List (List β × Fate)) (hcalls : ∀ call ∈ calls, call.1 ≠ []) :
    Honours 0 (writes w calls) ↔ NoneAnswered calls := by
  induction calls with
  | nil => exact Iff.rfl
  | cons call calls ih =>
    obtain ⟨p, fate⟩ := call
    have hp : p ≠ [] := hcalls _ mem_cons_self
    have hrest := ih fun call hcall => hcalls call (mem_cons_of_mem _ hcall)
    cases fate with
    | lost =>
      rw [honours_cons hoffset rfl]
      exact hrest.trans ⟨fun h => ⟨nofun, fun _ => h⟩, fun h => h.2 rfl⟩
    | cut received =>
      have hpatch : patchBlobData w.server w.client.location p (.cut received) =
          (w.server.set w.client.location.uuid (some (p.take received)), none) := by
        simp [patchBlobData, h.resume]
      by_cases hreceived : received = 0
      · subst hreceived
        -- nothing has arrived
        have hsame : w.server.set w.client.location.uuid (some (p.take 0)) = w.server := by
          unfold Server.set
          congr 1
          funext id
          split
          next hid => rw [hid, h.2, take_zero]
          · rfl
        rw [hsame] at hpatch
        rw [honours_cons hoffset hpatch]
        exact hrest.trans ⟨fun h => ⟨nofun, fun _ => h⟩, fun h => h.2 rfl⟩
      · refine iff_of_true (honours_of_longer h hoffset ?_ hpatch)
          ⟨nofun, fun hharmless => absurd (beq_iff_eq.1 hharmless) hreceived⟩
        rw [Ne, take_eq_nil_iff, not_or]
        exact ⟨hreceived, hp⟩
    | unanswered =>
      have hpatch : patchBlobData w.server w.client.location p .unanswered =
          (w.server.set w.client.location.uuid (some p), none) := by
        simp [patchBlobData, h.resume]
      exact iff_of_true (honours_of_longer h hoffset hp hpatch) ⟨nofun, nofun⟩
    | answered =>
      refine iff_of_false ?_ fun hnone => hnone.1 rfl
      obtain ⟨hentry, -⟩ := write_answered h hp
      simp only [writes, Honours, hentry, Entry.written, Option.isSome_some, if_true, hoffset]
      rintro ⟨-, -, hsize, -⟩
      have hpos := length_pos_iff.2 hp
      omega

/-- **When the writer keeps its contract**: exactly as long as no `Write` is answered before a
request has changed the upload without an answer, after which none succeeds. -/
theorem writer_honours_iff (name uuid : ℕ) (calls : List (List β × Fate))
    (hcalls : ∀ call ∈ calls, call.1 ≠ []) :
    Honours 0 (writes (created name uuid) calls) ↔ NoneAnswered calls := by
  refine honours_iff_of_inStep ⟨rfl, ?_⟩ rfl calls hcalls
  simp [created]

/-- A writer whose one request is cut off. -/
theorem cut_write_honours :
    (∀ call ∈ [([1, 2], Fate.cut 1)], call.1 ≠ ([] : List ℕ)) ∧
      Honours 0 (writes (created 0 0) [([1, 2], Fate.cut 1)]) :=
  ⟨by decide, (writer_honours_iff 0 0 [([1, 2], Fate.cut 1)] (by decide)).2
    ⟨by decide, fun h => absurd h (by decide)⟩⟩

/-- Two calls write three bytes and two: the second returns five and starts its range at zero. -/
theorem second_write_returns_total :
    writes (created 0 0) [([1, 2, 3], Fate.answered), ([4, 5], Fate.answered)] =
      [⟨[1, 2, 3], (0, 2), some 3, 0⟩, ⟨[4, 5], (0, 1), some 5, 0⟩] := by
  decide

end ContainerRegistry.Analysis.ClientUploads
