import LiberaBase.Sa.Tasklet

/-!
# Writing to a pipe

`libera_pipe_write` is to store all the atoms or none.  It compares them with the free slots of the
pipe, but counts the slot that a ring never fills among them: what would fill it is dropped, and
the value returned for it is not the one that the tasklet takes for an overflow.
-/

namespace LiberaBase.Sa

variable {α : Type*} {q : SaFifo α} {xs buf : List α} {a : α}

/-- All the atoms are stored, behind the others, or none is, and the pipe is as before. -/
def AllOrNothing (q : SaFifo α) (buf : List α) : Prop :=
  ((liberaPipeWrite q buf).1.contents saLog = q.contents saLog ++ buf ∧
      (liberaPipeWrite q buf).2 = buf.length * sizeofAtomSa) ∨
    liberaPipeWrite q buf = (q, -EFAULT)

/-- An atom that is dispatched to a pipe is stored there, or the event of an overflow is sent. -/
def StoredOrReported (s : Tasklet α) (pipeNo : ℕ) (q : SaFifo α) : Prop :=
  (∃ q', (s.dispatchTo pipeNo).dev.saPipe pipeNo = some q' ∧
      q'.contents saLog = q.contents saLog ++ [s.dev.buf s.dev.bufTail]) ∨
    (s.dispatchTo pipeNo).events = s.events ++ [(liberaEventOverflow, liberaOverflowSaDrv)]

/-- The loop stores what there is room for. -/
theorem pipeWriteLoop_represents (h : q.Represents saLog xs) (written : ℤ) (buf : List α) :
    (pipeWriteLoop q written buf).1.Represents saLog (xs ++ buf.take (63 - xs.length)) ∧
      (pipeWriteLoop q written buf).2 =
        written + (buf.take (63 - xs.length)).length * sizeofAtomSa := by
  induction buf generalizing q xs written with
  | nil => simpa [pipeWriteLoop] using h
  | cons a buf ih =>
      have hlen : (xs.length : ℤ) < 64 := h.length_lt
      rcases Nat.lt_or_ge xs.length 63 with hroom | hfull
      · have hslot : (xs.length : ℤ) < 63 := by omega
        obtain ⟨q', hpush, hq', -, -⟩ := h.push_some (x := a) hslot
        obtain ⟨hrep, hret⟩ := ih hq' (written + sizeofAtomSa)
        have htake : (a :: buf).take (63 - xs.length) =
            a :: buf.take (63 - (xs ++ [a]).length) := by
          rw [List.length_append, List.length_singleton,
            show 63 - xs.length = 63 - (xs.length + 1) + 1 by omega, List.take_succ_cons]
        rw [pipeWriteLoop, putToSaFIFO, hpush, htake]
        refine ⟨by simpa using hrep, ?_⟩
        simp only [hret, List.length_cons]
        push_cast
        ring
      · have hno : q.push saLog a = none := h.push_full (by change (xs.length : ℤ) = 63; omega)
        rw [pipeWriteLoop, putToSaFIFO, hno, show 63 - xs.length = 0 by omega]
        simpa using h

theorem allOrNothing_iff (hq : q.InRange saLog) (hbuf : buf ≠ []) :
    AllOrNothing q buf ↔ lenSaFIFO q + buf.length ≠ saLog := by
  have hrep := RingFifo.Represents.of_inRange hq
  have hlen : lenSaFIFO q = (q.contents saLog).length := hrep.len_eq
  have hlt : ((q.contents saLog).length : ℤ) < 64 := hrep.length_lt
  have hpos := List.length_pos_iff.mpr hbuf
  obtain ⟨hloop, hret⟩ := pipeWriteLoop_represents hrep 0 buf
  have hlog : saLog = 64 := rfl
  unfold AllOrNothing liberaPipeWrite freeSaFIFO
  rw [if_neg hbuf, hlen]
  by_cases hfree : saLog - ((q.contents saLog).length : ℤ) < (buf.length : ℤ)
  · rw [if_pos hfree]
    exact iff_of_true (.inr rfl) (by omega)
  rw [if_neg hfree]
  rw [hloop.contents_eq, hret, zero_add, List.append_cancel_left_eq]
  constructor
  · rintro (⟨htake, -⟩ | hfault) hsum
    · have htaken := congrArg List.length htake
      rw [List.length_take] at htaken
      omega
    · have hneg := congrArg Prod.snd hfault
      simp only [hret, zero_add] at hneg
      have hnonneg : (0 : ℤ) ≤ ((buf.take (63 - (q.contents saLog).length)).length : ℤ) *
          sizeofAtomSa := by unfold sizeofAtomSa; omega
      rw [hneg] at hnonneg
      exact absurd hnonneg (by decide)
  · intro hsum
    have htake : buf.take (63 - (q.contents saLog).length) = buf :=
      List.take_of_length_le (by omega)
    exact .inl ⟨htake, by rw [htake]⟩

/-- An atom that is written to a full pipe is dropped. -/
theorem liberaPipeWrite_full (hq : q.InRange saLog) (hfull : lenSaFIFO q = saLog - 1) (a : α) :
    (liberaPipeWrite q [a]).1.contents saLog = q.contents saLog ∧
      (liberaPipeWrite q [a]).2 = 0 := by
  have hrep := RingFifo.Represents.of_inRange hq
  have hlen : lenSaFIFO q = (q.contents saLog).length := hrep.len_eq
  have hlog : saLog = 64 := rfl
  obtain ⟨hloop, hret⟩ := pipeWriteLoop_represents hrep 0 [a]
  have hno : 63 - (q.contents saLog).length = 0 := by omega
  have hroom : ¬freeSaFIFO q < ([a].length : ℤ) := by
    rw [freeSaFIFO, hfull, List.length_singleton]
    decide
  rw [liberaPipeWrite, if_neg (List.cons_ne_nil a []), if_neg hroom, hret, hloop.contents_eq, hno]
  simp

/-- What is left of a pass over the pipes is the write to the pipe and what it returns. -/
theorem storedOrReported_iff {s : Tasklet α} {pipeNo : ℕ} (hpipe : s.dev.saPipe pipeNo = some q) :
    StoredOrReported s pipeNo q ↔
      (liberaPipeWrite q [s.dev.buf s.dev.bufTail]).1.contents saLog =
          q.contents saLog ++ [s.dev.buf s.dev.bufTail] ∨
        (liberaPipeWrite q [s.dev.buf s.dev.bufTail]).2 = -EFAULT := by
  unfold StoredOrReported Tasklet.dispatchTo
  rw [hpipe]
  simp only [Function.update_self, Option.some.injEq, exists_eq_left']
  refine or_congr_right ?_
  split_ifs with hret
  · exact iff_of_true rfl hret
  · exact iff_of_false (by simp) hret

/-- A write stores all the atoms or none exactly if they do not fill the pipe to its last slot, and
so an atom that the tasklet dispatches is stored or reported exactly if the pipe is not full. -/
theorem pipe_write_iff (hq : q.InRange saLog) (hbuf : buf ≠ []) :
    (AllOrNothing q buf ↔ lenSaFIFO q + buf.length ≠ saLog) ∧
      ∀ (s : Tasklet α) (pipeNo : ℕ), s.dev.saPipe pipeNo = some q →
        (StoredOrReported s pipeNo q ↔ lenSaFIFO q ≠ saLog - 1) := by
  refine ⟨allOrNothing_iff hq hbuf, fun s pipeNo hpipe ↦ ?_⟩
  have hone := allOrNothing_iff hq (List.cons_ne_nil (s.dev.buf s.dev.bufTail) [])
  rw [List.length_singleton] at hone
  rw [storedOrReported_iff hpipe]
  by_cases hfull : lenSaFIFO q = saLog - 1
  · obtain ⟨hkept, hret⟩ := liberaPipeWrite_full hq hfull (s.dev.buf s.dev.bufTail)
    rw [hkept, hret]
    refine iff_of_false ?_ (not_not_intro hfull)
    rintro (hstored | hfault)
    · simp at hstored
    · exact absurd hfault (by decide)
  · refine iff_of_true ?_ hfull
    rcases hone.mpr (by omega) with ⟨hstored, -⟩ | hnone
    · exact .inl hstored
    · exact .inr (congrArg Prod.snd hnone)

/-- A pipe whose four atoms lie across the end of its ring takes three more, or the one that the
tasklet dispatches. -/
theorem pipe_write_wrapped :
    RingFifo.contents saLog ⟨id, 1, 61⟩ = [62, 63, 0, 1] ∧
      AllOrNothing ⟨id, 1, 61⟩ [7, 8, 9] ∧
      StoredOrReported
        { Tasklet.boot fun _ ↦ 0 with
          dev := ⟨fun _ ↦ some ⟨id, 1, 61⟩, fun i ↦ i + 100, 3, 2, false⟩ } 5 ⟨id, 1, 61⟩ :=
  have hwrite := pipe_write_iff (q := ⟨id, 1, 61⟩)
    ⟨by decide, by decide, by decide, by decide⟩ (List.cons_ne_nil 7 [8, 9])
  ⟨by decide, hwrite.1.mpr (by decide), (hwrite.2 _ 5 rfl).mpr (by decide)⟩

/-- A pipe of 63 atoms passes for one with room: one more is dropped, the write returns 0, and no
event is sent. -/
theorem pipe_write_full :
    liberaPipeWrite ⟨fun _ ↦ 0, 63, 0⟩ [(7 : ℤ)] = (⟨fun _ ↦ 0, 63, 0⟩, 0) ∧
      ¬AllOrNothing ⟨fun _ ↦ 0, 63, 0⟩ [(7 : ℤ)] ∧
      ∃ s : Tasklet ℤ, s.dev.saPipe 0 = some ⟨fun _ ↦ 0, 63, 0⟩ ∧
        (s.dispatchTo 0).dev.saPipe 0 = some ⟨fun _ ↦ 0, 63, 0⟩ ∧
        (s.dispatchTo 0).events = s.events ∧ ¬StoredOrReported s 0 ⟨fun _ ↦ 0, 63, 0⟩ := by
  have hq : RingFifo.InRange saLog ⟨fun _ ↦ (0 : ℤ), 63, 0⟩ :=
    ⟨by decide, by decide, by decide, by decide⟩
  refine ⟨rfl, ?_, ?_⟩
  · rw [allOrNothing_iff hq (List.cons_ne_nil _ _)]
    decide
  · refine ⟨{ Tasklet.boot fun _ ↦ 7 with
      dev := ⟨fun _ ↦ some ⟨fun _ ↦ 0, 63, 0⟩, fun _ ↦ 7, 1, 0, false⟩ }, rfl, rfl, rfl, ?_⟩
    obtain ⟨hkept, hret⟩ := liberaPipeWrite_full hq rfl (7 : ℤ)
    rw [storedOrReported_iff rfl, hkept, hret]
    rintro (hstored | hfault)
    · simp at hstored
    · exact absurd hfault (by decide)

end LiberaBase.Sa
