import LiberaBase.Event.Session
import LiberaBase.Sa.Device
import LiberaBase.Access.Operations

/-!
# What a read takes from a fifo

The event and sa devices hand out the elements of a fifo.  Each element is removed before
`copy_to_user` is asked to copy it, and when that fails `-EFAULT` takes the place of the bytes that
were copied before.
-/

namespace LiberaBase

open RingFifo

variable {α : Type*} {N : ℤ} {size n i : ℕ} {q q' : RingFifo α} {xs : List α} {copyOk : ℕ → Bool}

/-- The loop of `libera_event_read` and `libera_sa_read`, on a ring of `N` elements of `size`
bytes: the result, the elements in the buffer of the user, and the ring. -/
def readLoop (N : ℤ) (size : ℕ) (copyOk : ℕ → Bool) :
    ℕ → ℕ → RingFifo α → ℤ × List α × RingFifo α
  | 0, i, q => (i * size, [], q)
  | n + 1, i, q =>
    match q.pop N with
    | none => (- EFAULT, [], q)
    | some (q', slot) =>
      if copyOk i = false then (- EFAULT, [], q')
      else
        let (ret, buf, q'') := readLoop N size copyOk n (i + 1) q'
        (ret, q'.data slot :: buf, q'')

theorem eventReadLoop_eq (copyOk : ℕ → Bool) (n i : ℕ) (q : LiberaEventFifo) :
    eventReadLoop copyOk n i q = readLoop trigLog eventSize copyOk n i q := by
  induction n generalizing i q with
  | zero => rfl
  | succ n ih =>
      rw [eventReadLoop, readLoop]
      simp only [ih]
      cases q.pop trigLog with
      | none => rfl
      | some r => rfl

/-! ## The sa device -/

namespace Sa

structure SaReadCall where
  seeked : Bool
  count : ℕ
  interrupted : Bool
  nonblock : Bool
  signal : Bool
  copyOk : ℕ → Bool

def saSize : ℕ := 64

/-- `libera_sa_read` on the pipe of its file; `none` sleeps until there is an atom. -/
def liberaSaRead (q : SaFifo α) (call : SaReadCall) : Option (ℤ × List α × SaFifo α) :=
  if call.seeked = true then some (- ESPIPE, [], q)
  else if call.count = 0 then some (0, [], q)
  else if call.interrupted = true then some (-ERESTARTSYS, [], q)
  else if call.count % saSize ≠ 0 then some (- EINVAL, [], q)
  else if q.isEmpty = true then
    if call.nonblock = true then some (- EAGAIN, [], q)
    else if call.signal = true then some (-ERESTARTSYS, [], q) else none
  else
    let saCount := min (call.count / saSize) (lenSaFIFO q).toNat
    some (readLoop saLog saSize call.copyOk saCount 0 q)

end Sa

/-! ## What the loop does -/

/-- A call that returns a number of bytes has removed the elements that it copied, the oldest ones,
and one that fails has removed none. -/
structure Lossless (N : ℤ) (size : ℕ) (q : RingFifo α) (ret : ℤ) (buf : List α)
    (q' : RingFifo α) : Prop where
  copied : 0 ≤ ret → ret = size * buf.length ∧ q.contents N = buf ++ q'.contents N
  failed : ret < 0 → q' = q

theorem Lossless.error {err : ℤ} (herr : 0 < err) (q : RingFifo α) :
    Lossless N size q (-err) [] q where
  copied := fun h ↦ by omega
  failed := fun _ ↦ rfl

theorem Lossless.nothing (q : RingFifo α) : Lossless N size q 0 [] q where
  copied := fun _ ↦ by simp
  failed := fun h ↦ absurd h (lt_irrefl 0)

theorem not_lossless {err : ℤ} {buf : List α} (herr : 0 < err)
    (hne : q'.contents N ≠ q.contents N) : ¬Lossless N size q (-err) buf q' :=
  fun h ↦ hne (congrArg (contents N) (h.failed (by omega)))

/-- If everything is copied, the oldest elements are in the buffer and the others in the ring. -/
theorem readLoop_copied (size : ℕ) (h : q.Represents N xs) (hn : n ≤ xs.length)
    (hok : ∀ j < n, copyOk (i + j) = true) :
    ∃ q', readLoop N size copyOk n i q = (((i + n : ℕ) : ℤ) * size, xs.take n, q') ∧
      q'.Represents N (xs.drop n) := by
  induction n generalizing i q xs with
  | zero => exact ⟨q, by simp [readLoop], h⟩
  | succ n ih =>
      cases xs with
      | nil => simp at hn
      | cons x xs =>
          obtain ⟨q₁, hpop, hq₁, -, hx⟩ := h.pop_cons
          have hfirst : ¬copyOk i = false := by simpa using hok 0 n.succ_pos
          have hrest : ∀ j < n, copyOk (i + 1 + j) = true := by
            intro j hj
            rw [Nat.add_right_comm, Nat.add_assoc]
            exact hok (j + 1) (Nat.succ_lt_succ hj)
          obtain ⟨q', hloop, hq'⟩ := ih hq₁ (Nat.le_of_succ_le_succ hn) hrest
          refine ⟨q', ?_, hq'⟩
          rw [readLoop, hpop]
          dsimp only
          rw [if_neg hfirst, hloop, hx, List.take_succ_cons]
          congr 2
          push_cast
          ring

/-- If an element is not copied, it is removed with those before it, and the call fails. -/
theorem readLoop_failed (size : ℕ) (h : q.Represents N xs) (hn : n ≤ xs.length)
    (hfail : ∃ j < n, copyOk (i + j) = false) :
    (readLoop N size copyOk n i q).1 = - EFAULT ∧
      ∃ m < xs.length, (readLoop N size copyOk n i q).2.2.Represents N (xs.drop (m + 1)) := by
  induction n generalizing i q xs with
  | zero =>
      obtain ⟨j, hj, -⟩ := hfail
      exact absurd hj (Nat.not_lt_zero j)
  | succ n ih =>
      cases xs with
      | nil => simp at hn
      | cons x xs =>
          obtain ⟨q₁, hpop, hq₁, -, -⟩ := h.pop_cons
          rw [readLoop, hpop]
          dsimp only
          by_cases hfirst : copyOk i = false
          · rw [if_pos hfirst]
            exact ⟨rfl, 0, Nat.succ_pos _, hq₁⟩
          · rw [if_neg hfirst]
            obtain ⟨j, hj, hcopy⟩ := hfail
            cases j with
            | zero => exact absurd hcopy hfirst
            | succ j =>
                have hlater : ∃ j < n, copyOk (i + 1 + j) = false := by
                  refine ⟨j, Nat.lt_of_succ_lt_succ hj, ?_⟩
                  rw [Nat.add_right_comm, Nat.add_assoc]
                  exact hcopy
                obtain ⟨hret, m, hm, hrep⟩ := ih hq₁ (Nat.le_of_succ_le_succ hn) hlater
                exact ⟨hret, m + 1, Nat.succ_lt_succ hm, hrep⟩

theorem readLoop_lossless_iff (size : ℕ) (copyOk : ℕ → Bool) (hq : q.InRange N)
    (hn : n ≤ (q.contents N).length) :
    Lossless N size q (readLoop N size copyOk n 0 q).1 (readLoop N size copyOk n 0 q).2.1
        (readLoop N size copyOk n 0 q).2.2 ↔ ∀ j < n, copyOk j = true := by
  have hrep := Represents.of_inRange hq
  by_cases hok : ∀ j < n, copyOk j = true
  · refine iff_of_true ?_ hok
    obtain ⟨q', hloop, hq'⟩ :=
      readLoop_copied size hrep hn (i := 0) fun j hj ↦ (congrArg copyOk j.zero_add).trans (hok j hj)
    rw [hloop]
    refine ⟨fun _ ↦ ⟨?_, ?_⟩, fun hneg ↦ ?_⟩
    · rw [List.length_take, min_eq_left hn, Nat.zero_add]
      ring
    · rw [hq'.contents_eq, List.take_append_drop]
    · exact absurd hneg (not_lt.mpr (Int.mul_nonneg (Int.natCast_nonneg _) (Int.natCast_nonneg _)))
  · refine iff_of_false ?_ hok
    obtain ⟨j, hj, hcopy⟩ : ∃ j < n, ¬copyOk j = true := by simpa using hok
    obtain ⟨hret, m, hm, hq'⟩ :=
      readLoop_failed size hrep hn (i := 0) ⟨j, hj, by simpa using hcopy⟩
    rw [hret]
    refine not_lossless (by decide) fun hsame ↦ ?_
    have hlen := congrArg List.length (hq'.contents_eq.symm.trans hsame)
    rw [List.length_drop] at hlen
    omega

/-! ## The two devices -/

theorem len_toNat (h : q.InRange N) : (q.len N).toNat = (q.contents N).length := by
  rw [(Represents.of_inRange h).len_eq, Int.toNat_natCast]

/-- Nothing is to be copied from an empty ring. -/
theorem copies_of_isEmpty (h : q.InRange N) (hempty : q.isEmpty = true) (k : ℕ) :
    ∀ i < min k (q.contents N).length, copyOk i = true := by
  rw [(Represents.of_inRange h).isEmpty_iff.mp hempty]
  intro i hi
  simp at hi

/-- A read of whole events that gets the mutex loses none exactly if all that it removes are
copied. -/
theorem eventRead_lossless_iff {s s' : EventAccess} {call : EventReadCall} {ret : ℤ}
    {buf : List LiberaEvent} (hq : s.drv.event.events.InRange trigLog)
    (hcount : call.count % eventSize = 0) (hread : s.liberaEventRead call = some (ret, buf, s')) :
    Lossless trigLog eventSize s.drv.event.events ret buf s'.drv.event.events ↔
      call.interrupted = true ∨
        ∀ i < min (call.count / eventSize) (s.drv.event.events.contents trigLog).length,
          call.copyOk i = true := by
  unfold EventAccess.liberaEventRead at hread
  extract_lets q eventCount at hread
  split_ifs at hread with hint hblock hzero hodd hempty hsignal
  all_goals
    simp only [Option.some.injEq, Prod.mk.injEq] at hread
    obtain ⟨rfl, rfl, rfl⟩ := hread
  · exact iff_of_true (.error (by decide) _) (.inl hint)
  · exact iff_of_true (.error (by decide) _) (.inr (copies_of_isEmpty hq hblock.2 _))
  · refine iff_of_true (.nothing _) (.inr ?_)
    rw [hzero, Nat.zero_div, Nat.zero_min]
    exact fun i hi ↦ absurd hi (Nat.not_lt_zero i)
  · exact absurd hcount hodd
  · exact iff_of_true (.error (by decide) _) (.inr (copies_of_isEmpty hq hempty _))
  · have heq : eventCount =
        min (call.count / eventSize) (s.drv.event.events.contents trigLog).length := by
      rw [← len_toNat hq]
    have hloop := readLoop_lossless_iff eventSize call.copyOk hq (min_le_right
      (call.count / eventSize) (s.drv.event.events.contents trigLog).length)
    rw [or_iff_right hint, ← hloop, eventReadLoop_eq, heq]
    rfl

theorem saRead_lossless_iff {q q' : Sa.SaFifo α} {call : Sa.SaReadCall} {ret : ℤ}
    {buf : List α} (hq : q.InRange Sa.saLog) (hcount : call.count % Sa.saSize = 0)
    (hread : Sa.liberaSaRead q call = some (ret, buf, q')) :
    Lossless Sa.saLog Sa.saSize q ret buf q' ↔
      (call.seeked = true ∨ call.interrupted = true) ∨
        ∀ i < min (call.count / Sa.saSize) (q.contents Sa.saLog).length, call.copyOk i = true := by
  unfold Sa.liberaSaRead at hread
  extract_lets saCount at hread
  split_ifs at hread with hseek hzero hint hodd hempty hblock hsignal
  all_goals
    simp only [Option.some.injEq, Prod.mk.injEq] at hread
  · obtain ⟨rfl, rfl, rfl⟩ := hread
    exact iff_of_true (.error (by decide) _) (.inl (.inl hseek))
  · obtain ⟨rfl, rfl, rfl⟩ := hread
    refine iff_of_true (.nothing _) (.inr ?_)
    rw [hzero, Nat.zero_div, Nat.zero_min]
    exact fun i hi ↦ absurd hi (Nat.not_lt_zero i)
  · obtain ⟨rfl, rfl, rfl⟩ := hread
    exact iff_of_true (.error (by decide) _) (.inl (.inr hint))
  · exact absurd hcount hodd
  · obtain ⟨rfl, rfl, rfl⟩ := hread
    exact iff_of_true (.error (by decide) _) (.inr (copies_of_isEmpty hq hempty _))
  · obtain ⟨rfl, rfl, rfl⟩ := hread
    exact iff_of_true (.error (by decide) _) (.inr (copies_of_isEmpty hq hempty _))
  · have heq : saCount = min (call.count / Sa.saSize) (q.contents Sa.saLog).length := by
      rw [← len_toNat hq]
      rfl
    have hloop := readLoop_lossless_iff Sa.saSize call.copyOk hq (min_le_right
      (call.count / Sa.saSize) (q.contents Sa.saLog).length)
    rw [← heq, hread] at hloop
    rw [← heq, or_iff_right (not_or_intro hseek hint)]
    exact hloop

/-- Neither device loses an element exactly if every element that a read removes is copied. -/
theorem reads_lossless_iff :
    (∀ (s s' : EventAccess) (call : EventReadCall) (ret : ℤ) (buf : List LiberaEvent),
      s.drv.event.events.InRange trigLog → call.count % eventSize = 0 →
      s.liberaEventRead call = some (ret, buf, s') →
      (Lossless trigLog eventSize s.drv.event.events ret buf s'.drv.event.events ↔
        call.interrupted = true ∨
          ∀ i < min (call.count / eventSize) (s.drv.event.events.contents trigLog).length,
            call.copyOk i = true)) ∧
    ∀ (q q' : Sa.SaFifo α) (call : Sa.SaReadCall) (ret : ℤ) (buf : List α),
      q.InRange Sa.saLog → call.count % Sa.saSize = 0 →
      Sa.liberaSaRead q call = some (ret, buf, q') →
      (Lossless Sa.saLog Sa.saSize q ret buf q' ↔
        (call.seeked = true ∨ call.interrupted = true) ∨
          ∀ i < min (call.count / Sa.saSize) (q.contents Sa.saLog).length,
            call.copyOk i = true) :=
  ⟨fun _ _ _ _ _ ↦ eventRead_lossless_iff, fun _ _ _ _ _ ↦ saRead_lossless_iff⟩

theorem reads_lossless_first :
    (∃ s s' : EventAccess, s.drv.event.events.contents trigLog = [⟨1, 5⟩, ⟨1, 6⟩] ∧
      Lossless trigLog eventSize s.drv.event.events 8 [⟨1, 5⟩] s'.drv.event.events) ∧
    ∃ q q' : Sa.SaFifo ℤ, q.contents Sa.saLog = [5, 6] ∧
      Lossless Sa.saLog Sa.saSize q 64 [5] q' := by
  constructor
  · let acc : EventAccess := ⟨EventFiles.clear, .zero, fun _ ↦ 0, fun _ _ ↦ 0⟩
    refine ⟨acc.setEvents ⟨fun i ↦ if i = 1 then ⟨1, 5⟩ else ⟨1, 6⟩, 2, 0⟩,
      acc.setEvents ⟨fun i ↦ if i = 1 then ⟨1, 5⟩ else ⟨1, 6⟩, 2, 1⟩, rfl, ?_⟩
    exact ((@reads_lossless_iff ℤ).1 _ _ ⟨8, false, false, false, fun _ ↦ true⟩ 8 [⟨1, 5⟩]
      ⟨by decide, by decide, by decide, by decide⟩ rfl rfl).mpr (.inr fun _ _ ↦ rfl)
  · refine ⟨⟨fun i ↦ i + 4, 2, 0⟩, ⟨fun i ↦ i + 4, 2, 1⟩, rfl, ?_⟩
    exact (reads_lossless_iff.2 _ _ ⟨false, 64, false, false, false, fun _ ↦ true⟩ 64 [5]
      ⟨by decide, by decide, by decide, by decide⟩ rfl rfl).mpr (.inr fun _ _ ↦ rfl)

/-- Two elements are asked for, and the copy of the second one fails: both are gone, and the caller
is told of none. -/
theorem second_copy_loses :
    (∃ s s' : EventAccess, s.drv.event.events.contents trigLog = [⟨1, 5⟩, ⟨1, 6⟩] ∧
      s.liberaEventRead ⟨16, false, false, false, fun i ↦ i = 0⟩ =
        some (- EFAULT, [⟨1, 5⟩], s') ∧
      s'.drv.event.events.contents trigLog = [] ∧
      ¬Lossless trigLog eventSize s.drv.event.events (- EFAULT) [⟨1, 5⟩] s'.drv.event.events) ∧
    ∃ q q' : Sa.SaFifo ℤ, q.contents Sa.saLog = [5, 6] ∧
      Sa.liberaSaRead q ⟨false, 128, false, false, false, fun i ↦ i = 0⟩ =
        some (- EFAULT, [5], q') ∧
      q'.contents Sa.saLog = [] ∧ ¬Lossless Sa.saLog Sa.saSize q (- EFAULT) [5] q' := by
  constructor
  · refine ⟨(⟨EventFiles.clear, .zero, fun _ ↦ 0, fun _ _ ↦ 0⟩ : EventAccess).setEvents
      ⟨fun i ↦ if i = 1 then ⟨1, 5⟩ else ⟨1, 6⟩, 2, 0⟩, _, rfl, rfl, rfl, ?_⟩
    exact not_lossless (by decide) (by decide)
  · refine ⟨⟨fun i ↦ i + 4, 2, 0⟩, ⟨fun i ↦ i + 4, 2, 2⟩, rfl, rfl, rfl, ?_⟩
    exact not_lossless (by decide) (by decide)

end LiberaBase
