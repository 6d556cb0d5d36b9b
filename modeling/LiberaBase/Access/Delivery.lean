import LiberaBase.Access.Waiting

/-!
# Where the elements go

Each element that a fifo takes leaves it once: to one of the processes that wait for elements, or
when the fifo is flushed.  A process is given the address of the element, not the element, and
copies it later.
-/

namespace LiberaBase

open Runs WaitQueue

/-- How an element left the fifo. -/
inductive Gone (α : Type*) where
  | taken (p : ℕ) (x : α)
  | flushed (x : α)

def Gone.element {α : Type*} : Gone α → α
  | .taken _ x => x
  | .flushed x => x

/-- The waiting processes with their history.  `held p` is the address that process `p` was given
last, with the element that was there, until its next step. -/
structure Delivery (α : Type*) where
  waiting : Waiting α
  accepted : List α
  gone : List (Gone α)
  held : ℕ → Option (ℤ × α)

namespace Waiting

variable {α : Type*} {N : ℤ} {want : ℕ → ℕ} {s t : Waiting α} {l : WaitStep α} {p r : ℕ}

/-- What process `p` is given in its next step. -/
def given (N : ℤ) (s : Waiting α) (p : ℕ) : Option (ℤ × α) :=
  match s.pc p with
  | .take (_ + 1) => (s.q.pop N).map fun r ↦ (r.2, r.1.data r.2)
  | _ => none

/-- The elements that the fifo takes in a step. -/
def gains (N : ℤ) (s : Waiting α) : WaitStep α → List α
  | .put x => if (s.q.push N x).isSome then [x] else []
  | _ => []

/-- The elements that leave the fifo in a step. -/
def loses (N : ℤ) (s : Waiting α) : WaitStep α → List (Gone α)
  | .run p _ _ => (s.given N p).toList.map fun r ↦ .taken p r.2
  | .flush | .close => (s.q.contents N).map .flushed
  | _ => []

def holds (N : ℤ) (s : Waiting α) (held : ℕ → Option (ℤ × α)) : WaitStep α → ℕ → Option (ℤ × α)
  | .run p _ _ => Function.update held p (s.given N p)
  | _ => held

/-- A process leaves the fifo alone, or is given an element. -/
theorem run_queue {signal timeout : Bool} (h : s.run N want p signal timeout = some t) :
    (∀ r ≠ p, t.pc r = s.pc r) ∧ (s.sem ≠ none → t.closed = s.closed) ∧
      (s.given N p = none ∧ t.q = s.q ∨
        ∃ n q slot, s.pc p = .take (n + 1) ∧ s.q.pop N = some (q, slot) ∧
          t = { s.goto p (.take n) with q := q }) := by
  have hstay {pc : WaitPc} (r : ℕ) (hr : r ≠ p) : (s.goto p pc).pc r = s.pc r := goto_of_ne s pc hr
  cases hpc : s.pc p with
  | outside | first | mark | unlock | leave _ =>
      simp only [run, hpc] at h
      obtain rfl := Option.some.inj h
      exact ⟨hstay, fun _ ↦ rfl, .inl ⟨by simp only [given, hpc], rfl⟩⟩
  | lock | relock _ =>
      simp only [run, hpc] at h
      split_ifs at h with hfree
      all_goals
        obtain rfl := Option.some.inj h
        exact ⟨hstay, fun hheld ↦ by first | rfl | exact absurd hfree hheld,
          .inl ⟨by simp only [given, hpc], rfl⟩⟩
  | look | sleep =>
      simp only [run, hpc] at h
      split_ifs at h
      all_goals
        obtain rfl := Option.some.inj h
        exact ⟨hstay, fun _ ↦ rfl, .inl ⟨by simp only [given, hpc], rfl⟩⟩
  | take n =>
      cases n with
      | zero =>
          simp only [run, hpc] at h
          obtain rfl := Option.some.inj h
          exact ⟨hstay, fun _ ↦ rfl, .inl ⟨by simp only [given, hpc], rfl⟩⟩
      | succ n =>
          cases hpop : s.q.pop N with
          | none =>
              simp only [run, hpc, hpop] at h
              obtain rfl := Option.some.inj h
              exact ⟨hstay, fun _ ↦ rfl, .inl ⟨by simp [given, hpc, hpop], rfl⟩⟩
          | some qs =>
              obtain ⟨q, slot⟩ := qs
              simp only [run, hpc, hpop] at h
              obtain rfl := Option.some.inj h
              exact ⟨hstay, fun _ ↦ rfl, .inr ⟨n, q, slot, rfl, rfl, rfl⟩⟩

/-- Who is given an element is given the oldest one. -/
theorem given_of_pop {n : ℕ} {q : RingFifo α} {slot : ℤ} {xs : List α}
    (hxs : s.q.Represents N xs) (hpc : s.pc p = .take (n + 1)) (hpop : s.q.pop N = some (q, slot)) :
    ∃ x ys, xs = x :: ys ∧ q.Represents N ys ∧ s.given N p = some (slot, x) ∧ slot = q.get ∧
      q.data slot = x := by
  cases xs with
  | nil =>
      rw [hxs.pop_nil] at hpop
      cases hpop
  | cons x ys =>
      obtain ⟨q', hpop', hq', -, hdata⟩ := hxs.pop_cons
      obtain ⟨rfl, rfl⟩ := Prod.mk.inj (Option.some.inj (hpop'.symm.trans hpop))
      refine ⟨x, ys, rfl, hq', ?_, rfl, hdata⟩
      simp only [given, hpc, hpop', Option.map_some, hdata]

end Waiting

namespace Delivery

variable {α : Type*} {N : ℤ} {want : ℕ → ℕ} {s t : Delivery α} {l : WaitStep α} {p : ℕ}

def step (N : ℤ) (want : ℕ → ℕ) (s : Delivery α) (l : WaitStep α) : Option (Delivery α) :=
  (s.waiting.step N want l).map fun t ↦
    { waiting := t
      accepted := s.accepted ++ s.waiting.gains N l
      gone := s.gone ++ s.waiting.loses N l
      held := s.waiting.holds N s.held l }

def boot (q : RingFifo α) : Delivery α := ⟨.boot q, [], [], fun _ ↦ none⟩

/-- What a process was given last is still at its address, which nothing is put at. -/
def Keeps (s : Delivery α) : Prop :=
  ∀ p slot x, s.held p = some (slot, x) → (∃ n, s.waiting.pc p = .take n) ∧
    (s.waiting.closed = false → slot = s.waiting.q.get ∧ s.waiting.q.data slot = x)

structure Inv (N : ℤ) (s : Delivery α) : Prop where
  waiting : s.waiting.Inv N
  order : s.accepted = s.gone.map Gone.element ++ s.waiting.q.contents N
  keeps : s.Keeps

theorem Inv.holder (h : s.Inv N) {slot : ℤ} {x : α} (hheld : s.held p = some (slot, x)) :
    s.waiting.sem = some (.process p) := by
  obtain ⟨⟨n, hpc⟩, -⟩ := h.keeps p slot x hheld
  exact h.waiting.taker hpc

theorem Inv.run (hN : 0 < N) (h : s.Inv N) {signal timeout : Bool}
    (hstep : s.step N want (.run p signal timeout) = some t) : t.Inv N := by
  obtain ⟨w, hrun, rfl⟩ := Option.map_eq_some_iff.mp hstep
  have hw : w.Inv N := h.waiting.step hN hrun
  obtain ⟨hothers, hclosed, hqueue⟩ := Waiting.run_queue hrun
  -- who holds an element has the mutex, so nobody else is given one
  have hkeeps (r : ℕ) (hr : r ≠ p) {slot : ℤ} {x : α} (hheld : s.held r = some (slot, x)) :
      (∃ n, w.pc r = .take n) ∧ (w.closed = false → slot = w.q.get ∧ w.q.data slot = x) := by
    obtain ⟨⟨n, hpc⟩, hkept⟩ := h.keeps r slot x hheld
    have hsem := h.holder hheld
    have hq : w.q = s.waiting.q := by
      rcases hqueue with ⟨-, hq⟩ | ⟨n, q, slot, htake, -, rfl⟩
      · exact hq
      · have hboth := (h.waiting.taker htake).symm.trans hsem
        exact absurd (by simpa using hboth) hr.symm
    rw [hothers r hr, hclosed (by simp [hsem]), hq]
    exact ⟨⟨n, hpc⟩, hkept⟩
  obtain ⟨xs, hxs⟩ := h.waiting.ring
  rcases hqueue with ⟨hgiven, hq⟩ | ⟨n, q, slot, hpc, hpop, rfl⟩
  · refine ⟨hw, ?_, fun r slot x hheld ↦ ?_⟩
    · change s.accepted ++ [] =
        (s.gone ++ (s.waiting.given N p).toList.map _).map _ ++ w.q.contents N
      rw [hgiven, hq, Option.toList_none, List.map_nil, List.append_nil, List.append_nil]
      exact h.order
    · change Function.update s.held p (s.waiting.given N p) r = some (slot, x) at hheld
      by_cases hr : r = p
      · subst hr
        rw [Function.update_self, hgiven] at hheld
        cases hheld
      · exact hkeeps r hr (by rwa [Function.update_of_ne hr] at hheld)
  · obtain ⟨x, ys, rfl, hys, hgiven, hslot, hdata⟩ := Waiting.given_of_pop hxs hpc hpop
    refine ⟨hw, ?_, fun r slot' x' hheld ↦ ?_⟩
    · change s.accepted ++ [] = (s.gone ++ (s.waiting.given N p).toList.map _).map _ ++ q.contents N
      rw [hgiven, List.append_nil, h.order, hxs.contents_eq, hys.contents_eq]
      simp [Gone.element]
    · change Function.update s.held p (s.waiting.given N p) r = some (slot', x') at hheld
      by_cases hr : r = p
      · subst hr
        rw [Function.update_self, hgiven] at hheld
        obtain ⟨rfl, rfl⟩ := Prod.mk.inj (Option.some.inj hheld)
        exact ⟨⟨n, Waiting.goto_self ..⟩, fun _ ↦ ⟨hslot, hdata⟩⟩
      · exact hkeeps r hr (by rwa [Function.update_of_ne hr] at hheld)

theorem Inv.put (hN : 0 < N) (h : s.Inv N) {x : α} (hstep : s.step N want (.put x) = some t) :
    t.Inv N := by
  obtain ⟨w, hw, rfl⟩ := Option.map_eq_some_iff.mp hstep
  have hinv := h.waiting.step hN hw
  obtain rfl := Option.some.inj hw
  obtain ⟨xs, hxs⟩ := h.waiting.ring
  by_cases hroom : (xs.length : ℤ) < N - 1
  · obtain ⟨q, hpush, hq, hget, hdata⟩ := hxs.push_some (x := x) hroom
    simp only [hpush, Option.getD_some] at hinv ⊢
    refine ⟨hinv, ?_, fun p slot y hheld ↦ ?_⟩
    · have horder := h.order
      rw [hxs.contents_eq] at horder
      change s.accepted ++ (if (s.waiting.q.push N x).isSome then [x] else []) =
        (s.gone ++ []).map _ ++ q.contents N
      rw [hq.contents_eq, hpush, horder]
      simp
    -- the slot of the element that was given last is not filled
    · obtain ⟨hpc, hkept⟩ := h.keeps p slot y hheld
      refine ⟨hpc, fun hclosed ↦ ?_⟩
      obtain ⟨rfl, hy⟩ := hkept hclosed
      exact ⟨hget.symm, hdata.trans hy⟩
  · have hpush : s.waiting.q.push N x = none := hxs.push_full (by have := hxs.length_lt; omega)
    simp only [hpush, Option.getD_none] at hinv ⊢
    refine ⟨hinv, ?_, h.keeps⟩
    simpa [Waiting.gains, Waiting.loses, hpush] using h.order

/-- All elements leave when the fifo is flushed. -/
theorem Inv.order_flush (hN : 0 < N) (h : s.Inv N) : s.accepted ++ [] =
    (s.gone ++ (s.waiting.q.contents N).map Gone.flushed).map Gone.element ++
      s.waiting.q.flush.contents N := by
  have hflush := (RingFifo.Represents.flush hN s.waiting.q).contents_eq
  have hback : (s.waiting.q.contents N).map (Gone.element ∘ Gone.flushed) =
      s.waiting.q.contents N :=
    List.map_id _
  rw [hflush, List.append_nil, List.append_nil, List.map_append, List.map_map, hback]
  exact h.order

theorem Inv.step (hN : 0 < N) (h : s.Inv N) (hstep : s.step N want l = some t) : t.Inv N := by
  have hnone {held : ℕ → Option (ℤ × α)} (hother : ∀ p, s.waiting.sem ≠ some (.process p))
      (heq : held = s.held) : ∀ p slot x, held p ≠ some (slot, x) := by
    rintro p slot x hheld
    rw [heq] at hheld
    exact hother p (h.holder hheld)
  cases l with
  | run p signal timeout => exact h.run hN hstep
  | put x => exact h.put hN hstep
  | wake =>
      obtain ⟨w, hw, rfl⟩ := Option.map_eq_some_iff.mp hstep
      have hinv := h.waiting.step hN hw
      obtain rfl := Option.some.inj hw
      exact ⟨hinv, by simpa [Waiting.gains, Waiting.loses] using h.order, h.keeps⟩
  | lockOther | unlockOther =>
      obtain ⟨w, hw, rfl⟩ := Option.map_eq_some_iff.mp hstep
      have hinv := h.waiting.step hN hw
      simp only [Waiting.step] at hw
      split_ifs at hw with hsem
      obtain rfl := Option.some.inj hw
      exact ⟨hinv, by simpa [Waiting.gains, Waiting.loses] using h.order,
        fun p slot x hheld ↦ absurd hheld (hnone (by simp [hsem]) rfl p slot x)⟩
  | flush =>
      obtain ⟨w, hw, rfl⟩ := Option.map_eq_some_iff.mp hstep
      have hinv := h.waiting.step hN hw
      simp only [Waiting.step] at hw
      split_ifs at hw with hsem
      obtain rfl := Option.some.inj hw
      exact ⟨hinv, h.order_flush hN,
        fun p slot x hheld ↦ absurd hheld (hnone (by simp [hsem]) rfl p slot x)⟩
  | close =>
      obtain ⟨w, hw, rfl⟩ := Option.map_eq_some_iff.mp hstep
      have hinv := h.waiting.step hN hw
      obtain rfl := Option.some.inj hw
      exact ⟨hinv, h.order_flush hN, fun p slot x hheld ↦
        ⟨(h.keeps p slot x hheld).1, fun hclosed ↦ absurd hclosed (by simp)⟩⟩

theorem Inv.boot (hN : 0 < N) (q : RingFifo α) : (boot q).Inv N where
  waiting := .boot hN q
  order := ((RingFifo.Represents.flush hN q).contents_eq).symm
  keeps := fun _ _ _ hheld ↦ by cases hheld

/-- **Every element is given once.**  The elements that the fifo took are, in order, those that were
given to a process or flushed, and those that are still in it; and what a process was given it can
copy until its next step, whatever is put meanwhile, unless the last writer closes the device. -/
theorem given_once (hN : 0 < N) {q : RingFifo α} {ls : List (WaitStep α)}
    (hrun : Steps (step N want) anyStep (boot q) ls s) :
    s.accepted = s.gone.map Gone.element ++ s.waiting.q.contents N ∧
      ∀ p slot x, s.held p = some (slot, x) → s.waiting.closed = false →
        s.waiting.q.data slot = x := by
  have h : s.Inv N := hrun.invariant (fun _ _ _ h _ hstep ↦ h.step hN hstep) (.boot hN q)
  exact ⟨h.order, fun p slot x hheld hclosed ↦ ((h.keeps p slot x hheld).2 hclosed).2⟩

/-- Process 0 has been given an element, and a handler puts another before it has copied it. -/
theorem given_once_copying : ∃ s : Delivery ℕ,
    (s.accepted = s.gone.map Gone.element ++ s.waiting.q.contents Sa.saLog ∧
      ∀ p slot x, s.held p = some (slot, x) → s.waiting.closed = false →
        s.waiting.q.data slot = x) ∧
    s.held 0 = some (1, 3) ∧ s.accepted = [3, 4, 5] ∧ s.waiting.q.contents Sa.saLog = [4, 5] :=
  ⟨_, given_once (by decide) (exec_get_steps (step Sa.saLog fun _ ↦ 1) anyStep
    (boot ⟨fun _ ↦ 0, 5, 9⟩) ([.put 3, .put 4] ++ Waiting.turns 0 4 ++ [.put 5])
    (by decide +kernel)), by decide +kernel⟩

end Delivery

end LiberaBase
