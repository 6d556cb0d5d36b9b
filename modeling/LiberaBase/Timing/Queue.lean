import LiberaBase.Timing.Stamps

/-!
# The two fifos of the current-time trigger

Every handled half of the current-time trigger is put into the fifo of its clock, so
the fifo holds the halves from the first one not read on to the last one handled, as
long as it does not overflow.
-/

namespace LiberaBase

/-! ## One fifo -/

/-- The fifo holds the halves with the numbers from `popped` to `handled - 1`. -/
structure Queued (q : LiberaFifo) (popped handled : ℕ) : Prop where
  le : popped ≤ handled
  represents : ∃ xs, q.Represents trigLog xs ∧
    xs.map (·.half) = List.range' popped (handled - popped)

namespace Queued

variable {q : LiberaFifo} {popped handled : ℕ}

theorem flush (q : LiberaFifo) (n : ℕ) : Queued (flushFIFO q) n n where
  le := le_rfl
  represents := ⟨[], .flush (by decide) q, by simp⟩

theorem len_eq (h : Queued q popped handled) : lenFIFO q = (handled - popped : ℕ) := by
  obtain ⟨xs, hq, hxs⟩ := h.represents
  have hlen := congrArg List.length hxs
  rw [List.length_map, List.length_range'] at hlen
  rw [lenFIFO, hq.len_eq, hlen]

theorem isEmpty_iff (h : Queued q popped handled) : emptyFIFO q = true ↔ popped = handled := by
  obtain ⟨xs, hq, hxs⟩ := h.represents
  have hlen := congrArg List.length hxs
  rw [List.length_map, List.length_range'] at hlen
  have := h.le
  rw [emptyFIFO, hq.isEmpty_iff, ← List.length_eq_zero_iff, hlen]
  omega

theorem lt_of_not_empty (h : Queued q popped handled) (hne : ¬emptyFIFO q = true) :
    popped < handled := by
  apply lt_of_le_of_ne h.le
  intro heq
  exact hne (h.isEmpty_iff.mpr heq)

/-- The next half goes to the end of a fifo that has room for it, and leaves the slot
read last alone. -/
theorem put (h : Queued q popped handled) (hroom : lenFIFO q < trigLog - 1) (time : HwTime) :
    ∃ q', putToFIFO q ⟨time, handled⟩ = some q' ∧ Queued q' popped (handled + 1) ∧
      q'.get = q.get ∧ q'.data q.get = q.data q.get := by
  have hle := h.le
  obtain ⟨xs, hq, hxs⟩ := h.represents
  rw [lenFIFO, hq.len_eq] at hroom
  obtain ⟨q', hpush, hq', hget, hdata⟩ := hq.push_some (x := ⟨time, handled⟩) hroom
  refine ⟨q', hpush, ⟨by omega, xs ++ [⟨time, handled⟩], hq', ?_⟩, hget, hdata⟩
  rw [List.map_append, hxs, Nat.succ_sub hle, List.range'_concat]
  simp [Nat.add_sub_of_le hle]

theorem get_next (h : Queued q popped handled) (hlt : popped < handled) :
    ∃ q', getFromFIFO q = some (q', q'.get) ∧ Queued q' (popped + 1) handled ∧
      (q'.data q'.get).half = popped := by
  obtain ⟨xs, hq, hxs⟩ := h.represents
  rw [show handled - popped = handled - (popped + 1) + 1 by omega, List.range'_succ] at hxs
  obtain ⟨x, xs, rfl, hx, hrest⟩ := List.map_eq_cons_iff.mp hxs
  obtain ⟨q', hpop, hq', -, hslot⟩ := hq.pop_cons
  exact ⟨q', hpop, ⟨hlt, xs, hq', hrest⟩, by rw [hslot, hx]⟩

end Queued

/-! ## The handlers at work on the fifos -/

namespace Driver

variable {s t : Driver} {c c' : Clock} {e : FifoEntry}

def queue (c : Clock) (s : Driver) : LiberaFifo × ℕ :=
  match c with
  | .sc => (s.event.scTimestamps tTrigCtime, s.event.scHalves tTrigCtime)
  | .mc => (s.event.mcTimestamps tTrigCtime, s.event.mcHalves tTrigCtime)

/-- A half that arrives goes into the fifo, or is lost if the fifo is full. -/
def arrive (time : HwTime) (q : LiberaFifo × ℕ) : LiberaFifo × ℕ :=
  ((putToFIFO q.1 ⟨time, q.2⟩).getD q.1, q.2 + 1)

theorem foldl_once {β : Type*} {f : Driver → β} {g : β → β} {body : Driver → ℕ → Driver} {i : ℕ}
    {is : List ℕ} (hself : ∀ s, f (body s i) = g (f s)) (hother : ∀ s j, j ≠ i → f (body s j) = f s)
    (hnodup : is.Nodup) (s : Driver) :
    f (is.foldl body s) = if i ∈ is then g (f s) else f s := by
  induction is generalizing s with
  | nil => simp
  | cons j is ih =>
      obtain ⟨hj, hnodup⟩ := List.nodup_cons.mp hnodup
      rw [List.foldl_cons, ih hnodup]
      by_cases hji : j = i
      · subst hji
        simp [hj, hself]
      · simp [hother s j hji, Ne.symm hji]

theorem queue_scDispatch (s : Driver) (stamp raw : HwTime) :
    queue .sc (scDispatch stamp raw s tTrigCtime) = arrive stamp (queue .sc s) := by
  have htrig : s.scTrigger stamp raw tTrigCtime = s.putSC tTrigCtime stamp raw := rfl
  unfold scDispatch
  rw [htrig, putSC]
  simp only [queue, arrive]
  cases putToFIFO (s.event.scTimestamps tTrigCtime) ⟨stamp, s.event.scHalves tTrigCtime⟩ <;> simp

theorem queue_mcDispatch (s : Driver) (stamp raw : HwTime) :
    queue .mc (mcDispatch stamp raw s tTrigCtime) = arrive stamp (queue .mc s) := by
  have htrig : s.mcTrigger stamp raw tTrigCtime = s.putMC tTrigCtime stamp raw := rfl
  unfold mcDispatch
  rw [htrig, putMC]
  simp only [queue, arrive]
  cases putToFIFO (s.event.mcTimestamps tTrigCtime) ⟨stamp, s.event.mcHalves tTrigCtime⟩ <;> simp

theorem queue_scDispatch_of_ne (s : Driver) (stamp raw : HwTime) {j : ℕ} (hj : j ≠ tTrigCtime) :
    queue .sc (scDispatch stamp raw s j) = queue .sc s := by
  have hput (value : HwTime) :
      (s.putSC j value raw).event.scTimestamps tTrigCtime = s.event.scTimestamps tTrigCtime := by
    rcases s.putSC_eq raw j value with h | ⟨q, -, h⟩ <;> rw [h]
    exact Function.update_of_ne hj.symm _ _
  have htrig : (s.scTrigger stamp raw j).event.scTimestamps tTrigCtime =
      s.event.scTimestamps tTrigCtime := by
    unfold scTrigger liberaSCtrigSpecific
    split_ifs
    · rfl
    · rfl
    · exact hput _
    · rfl
    · rfl
    · exact hput _
  simp only [queue, scDispatch_scHalves, Function.update_of_ne hj.symm]
  exact congrArg (·, s.event.scHalves tTrigCtime) htrig

theorem queue_mcDispatch_of_ne (s : Driver) (stamp raw : HwTime) {j : ℕ} (hj : j ≠ tTrigCtime) :
    queue .mc (mcDispatch stamp raw s j) = queue .mc s := by
  have htrig : (s.mcTrigger stamp raw j).event.mcTimestamps tTrigCtime =
      s.event.mcTimestamps tTrigCtime := by
    refine mcTrigger_invariant
      (P := fun u ↦ u.event.mcTimestamps tTrigCtime = s.event.mcTimestamps tTrigCtime)
      stamp rfl (fun value ↦ ?_) (fun _ ↦ rfl) (fun u hu ↦ ?_) (fun _ _ hu ↦ hu)
      (fun u id param hu ↦ ?_)
    · rcases s.putMC_eq raw j value with h | ⟨q, -, h⟩ <;> rw [h]
      exact Function.update_of_ne hj.symm _ _
    · obtain ⟨_, _, _, _, h⟩ := u.liberaSetTime_eq
      rwa [h]
    · obtain ⟨_, h⟩ := u.liberaSendEvent_eq id param
      rwa [h]
  simp only [queue, mcDispatch_mcHalves, Function.update_of_ne hj.symm]
  exact congrArg (·, s.event.mcHalves tTrigCtime) htrig

theorem entry_queue (h : entry c s e = some t) : ∃ time, queue c t =
    if tTrigCtime ∈ trigBits e.tl then arrive time (queue c s) else queue c s := by
  cases c with
  | sc =>
      obtain rfl := Option.some.inj ((scEntry_eq s e).symm.trans h)
      have hfold (stamp : HwTime) := foldl_once (queue_scDispatch · stamp (s.scRaw e))
        (fun u _ hj ↦ queue_scDispatch_of_ne u _ _ hj) (nodup_trigBits e.tl) (s.scSelfInc e.tl)
      obtain ⟨time, hinc⟩ := s.scSelfInc_eq e.tl
      have hqueue : queue .sc (s.scSelfInc e.tl) = queue .sc s := by rw [hinc]; rfl
      exact ⟨_, by rw [hfold, hqueue]⟩
  | mc =>
      obtain rfl := Option.some.inj ((mcEntry_eq s e).symm.trans h)
      have hfold (stamp : HwTime) := foldl_once (queue_mcDispatch · stamp (s.mcRaw e))
        (fun u _ hj ↦ queue_mcDispatch_of_ne u _ _ hj) (nodup_trigBits e.tl) (s.mcSelfInc e.tl)
      obtain ⟨time, writes, hinc⟩ := s.mcSelfInc_eq e.tl
      have hqueue : queue .mc (s.mcSelfInc e.tl) = queue .mc s := by rw [hinc]; rfl
      exact ⟨_, by rw [hfold, hqueue]⟩

theorem entry_other_queue (h : entry c s e = some t) (hne : c' ≠ c) : queue c' t = queue c' s := by
  cases c with
  | sc =>
      obtain rfl : c' = .mc := by cases c' <;> simp_all
      obtain rfl := Option.some.inj ((scEntry_eq s e).symm.trans h)
      obtain ⟨time, hinc⟩ := s.scSelfInc_eq e.tl
      rw [foldl_field (f := queue .mc) fun u j ↦ by simp [queue], hinc]
      rfl
  | mc =>
      obtain rfl : c' = .sc := by cases c' <;> simp_all
      obtain rfl := Option.some.inj ((mcEntry_eq s e).symm.trans h)
      obtain ⟨time, writes, hinc⟩ := s.mcSelfInc_eq e.tl
      rw [foldl_field (f := queue .sc) fun u j ↦ by simp [queue], hinc]
      rfl

/-- What a reader of the fifo depends on: how many stamps were read, the slot read
last, and the stamp in it. -/
structure Served where
  popped : ℕ
  slot : ℤ
  last : Stamp

/-- The fifo of clock `c` as a reader sees it. -/
structure Serves (c : Clock) (v : Served) (s : Driver) : Prop where
  queued : Queued (queue c s).1 v.popped (queue c s).2
  slot_eq : (queue c s).1.get = v.slot
  last_eq : (queue c s).1.data v.slot = v.last

theorem Serves.congr {v : Served} (h : Serves c v s) (hqueue : queue c t = queue c s) :
    Serves c v t :=
  ⟨hqueue ▸ h.queued, hqueue ▸ h.slot_eq, hqueue ▸ h.last_eq⟩

/-- The next stamp is taken from the fifo. -/
theorem Serves.get_next {v : Served} (h : Serves c v s) (hlt : v.popped < (queue c s).2) :
    ∃ q, getFromFIFO (queue c s).1 = some (q, q.get) ∧ (q.data q.get).half = v.popped ∧
      ∀ t, queue c t = (q, (queue c s).2) →
        Serves c ⟨v.popped + 1, q.get, q.data q.get⟩ t := by
  obtain ⟨q, hget, hqueued, hhalf⟩ := h.queued.get_next hlt
  refine ⟨q, hget, hhalf, fun t hqueue ↦ ⟨?_, ?_, ?_⟩⟩
  · exact hqueue ▸ hqueued
  · exact congrArg (·.1.get) hqueue
  · exact congrArg (·.1.data q.get) hqueue

theorem Serves.entry {v : Served} (h : Serves c v s) (hstep : Driver.entry c s e = some t)
    (hroom : tTrigCtime ∈ trigBits e.tl → lenFIFO (queue c s).1 < trigLog - 1) :
    Serves c v t ∧ (queue c t).2 =
      (queue c s).2 + if tTrigCtime ∈ trigBits e.tl then 1 else 0 := by
  obtain ⟨time, hqueue⟩ := entry_queue hstep
  by_cases hbit : tTrigCtime ∈ trigBits e.tl
  · obtain ⟨q', hput, hqueued, hget, hdata⟩ := h.queued.put (hroom hbit) time
    rw [if_pos hbit, arrive, hput, Option.getD_some] at hqueue
    rw [hqueue, if_pos hbit]
    refine ⟨⟨hqueue ▸ hqueued, by rw [hqueue, hget, h.slot_eq], ?_⟩, rfl⟩
    rw [hqueue, ← h.slot_eq, hdata, h.slot_eq, h.last_eq]
  · rw [if_neg hbit] at hqueue
    exact ⟨h.congr hqueue, by rw [hqueue, if_neg hbit, Nat.add_zero]⟩

theorem handler_other_queue {es : List FifoEntry} (hstep : s.handler c es = some t)
    (hne : c' ≠ c) : queue c' t = queue c' s :=
  drain_invariant (P := fun u ↦ queue c' u = queue c' s)
    (fun _ _ _ hu _ hent ↦ (entry_other_queue hent hne).trans hu) rfl (drainOk_true _ s es) hstep

/-- A step of the timing part is a handler call of a clock, or leaves both fifos alone. -/
theorem step_queue {l : Timing} (hstep : s.step l = some t) :
    (∃ c es, l = handling c es ∧ s.handler c es = some t) ∨ ∀ c, queue c t = queue c s := by
  rcases step_cases hstep with ⟨es, rfl, hes⟩ | ⟨es, rfl, hes⟩ | harmed | ⟨readl, req, rfl, hreq⟩
  · exact .inl ⟨.sc, es, rfl, hes⟩
  · exact .inl ⟨.mc, es, rfl, hes⟩
  · obtain ⟨_, _, _, _, _, _, rfl⟩ := harmed
    exact .inr fun c ↦ by cases c <;> rfl
  · obtain ⟨_, _, _, rfl⟩ := hreq
    exact .inr fun c ↦ by cases c <;> rfl

end Driver

end LiberaBase
