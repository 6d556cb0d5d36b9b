import LiberaBase.Lib.Runs
import LiberaBase.Timing.Device
import Mathlib.Algebra.Order.Ring.Int
import Mathlib.Data.Int.ModEq

/-!
# The ring fifos on machine words

`libera_fifo`, `libera_event_fifo` and `libera_sa_fifo` are one ring with three types of
element.  Their indices are machine words, and the remainder by the size, a power of two,
is a bit mask.  Here the three are related to the ring of integers that the rest of the
development works with, and through it to a bounded queue.

A producer in an interrupt may run between any two steps of a consumer that has been given
the slot of its element and has yet to copy it.
-/

namespace LiberaBase

open Runs

/-- `struct libera_fifo`, `struct libera_event_fifo` and `struct libera_sa_fifo`, with
indices of `w` bits. -/
structure Fifo (w : ℕ) (α : Type*) where
  data : BitVec w → α
  put : BitVec w
  get : BitVec w

namespace Fifo

variable {w : ℕ} {α : Type*}

/-- `TRIG_LOG_MASK` and `SA_LOG_MASK`, for a size of `2 ^ k`. -/
def mask (k : ℕ) : BitVec w := BitVec.twoPow w k - 1#w

def flush (q : Fifo w α) : Fifo w α := { q with put := 0, get := 0 }

def len (k : ℕ) (q : Fifo w α) : BitVec w := (q.put + BitVec.twoPow w k - q.get) &&& mask k

/-- `none` is the return value -1, the fifo would overflow. -/
def putTo (k : ℕ) (q : Fifo w α) (data : α) : Option (Fifo w α) :=
  let index := (q.put + 1#w) &&& mask k
  if index = q.get then none
  else some { q with data := Function.update q.data index data, put := index }

def advance (k : ℕ) (q : Fifo w α) : Fifo w α := { q with get := (q.get + 1#w) &&& mask k }

/-- `none` is `NULL`; the pointer the source returns is the slot number. -/
def getFrom (k : ℕ) (q : Fifo w α) : Option (Fifo w α × BitVec w) :=
  if q.put = q.get then none
  else some (q.advance k, (q.advance k).get)

/-! ## The ring of integers -/

theorem toNat_one {k : ℕ} (hk : k < w) : (1#w).toNat = 1 := by
  rw [BitVec.toNat_ofNat]
  exact Nat.mod_eq_of_lt (Nat.one_lt_two_pow (by omega))

theorem toNat_mask {k : ℕ} (hk : k < w) : (mask k : BitVec w).toNat = 2 ^ k - 1 := by
  have hpow : (BitVec.twoPow w k).toNat = 2 ^ k := BitVec.toNat_twoPow_of_lt hk
  rw [mask, BitVec.toNat_sub_of_le, hpow, toNat_one hk]
  rw [BitVec.le_def, hpow, toNat_one hk]
  exact Nat.one_le_two_pow

theorem toNat_and_mask {k : ℕ} (hk : k < w) (x : BitVec w) :
    (x &&& mask k).toNat = x.toNat % 2 ^ k := by
  rw [BitVec.toNat_and, toNat_mask hk, Nat.and_two_pow_sub_one_eq_mod]

theorem toNat_succ {k : ℕ} (hk : k < w) (x : BitVec w) :
    (((x + 1#w) &&& mask k).toNat : ℤ) = (x.toNat + 1) % 2 ^ k := by
  have hdvd : 2 ^ k ∣ 2 ^ w := Nat.pow_dvd_pow 2 hk.le
  rw [toNat_and_mask hk, BitVec.toNat_add, toNat_one hk, Nat.mod_mod_of_dvd _ hdvd]
  push_cast
  rfl

/-- The ring `r` has the indices of `q` and the elements of its slots. -/
structure Sim (q : Fifo w α) (r : RingFifo α) : Prop where
  put : r.put = q.put.toNat
  get : r.get = q.get.toNat
  data : ∀ i : BitVec w, r.data i.toNat = q.data i

namespace Sim

variable {k : ℕ} {q : Fifo w α} {r : RingFifo α} {x : α}

theorem flush (h : Sim q r) : Sim q.flush r.flush :=
  ⟨by simp [RingFifo.flush, Fifo.flush], by simp [RingFifo.flush, Fifo.flush], h.data⟩

theorem empty_iff (h : Sim q r) : r.put = r.get ↔ q.put = q.get := by
  rw [h.put, h.get, Nat.cast_inj]
  exact BitVec.toNat_inj

theorem full_iff (h : Sim q r) (hk : k < w) :
    (r.put + 1) % 2 ^ k = r.get ↔ (q.put + 1#w) &&& mask k = q.get := by
  rw [h.put, h.get, ← toNat_succ hk, Nat.cast_inj]
  exact BitVec.toNat_inj

theorem putTo (h : Sim q r) (hk : k < w) (x : α) :
    (q.putTo k x = none ∧ r.push (2 ^ k) x = none) ∨
      ∃ q' r', q.putTo k x = some q' ∧ r.push (2 ^ k) x = some r' ∧ Sim q' r' := by
  by_cases hfull : (q.put + 1#w) &&& mask k = q.get
  · left
    have hring := (h.full_iff hk).mpr hfull
    constructor
    · simp [Fifo.putTo, hfull]
    · simp [RingFifo.push, hring]
  · right
    have hring := mt (h.full_iff hk).mp hfull
    have hslot : (r.put + 1) % 2 ^ k = (((q.put + 1#w) &&& mask k).toNat : ℤ) := by
      rw [h.put, toNat_succ hk]
    refine ⟨{ q with
          data := Function.update q.data ((q.put + 1#w) &&& mask k) x
          put := (q.put + 1#w) &&& mask k },
      { r with data := Function.update r.data ((r.put + 1) % 2 ^ k) x, put := (r.put + 1) % 2 ^ k },
      by simp only [Fifo.putTo, if_neg hfull], by simp only [RingFifo.push, if_neg hring],
      hslot, h.get, ?_⟩
    intro i
    by_cases hi : i = (q.put + 1#w) &&& mask k
    · subst hi
      simp only [hslot, Function.update_self]
    · have hne : (i.toNat : ℤ) ≠ (r.put + 1) % 2 ^ k := by
        rw [hslot]
        intro heq
        exact hi (BitVec.eq_of_toNat_eq (by exact_mod_cast heq))
      simp only [Function.update_of_ne hne, Function.update_of_ne hi, h.data]

theorem advance (h : Sim q r) (hk : k < w) :
    Sim (q.advance k) { r with get := (r.get + 1) % 2 ^ k } :=
  ⟨h.put, by rw [h.get, ← toNat_succ hk]; rfl, h.data⟩

end Sim

theorem sim_self (q : Fifo w α) :
    Sim q ⟨fun i ↦ q.data (BitVec.ofInt w i), q.put.toNat, q.get.toNat⟩ :=
  ⟨rfl, rfl, fun i ↦ by simp⟩

/-! ## The bounded queue -/

/-- The fifo `q` of size `2 ^ k` implements the queue `xs`, oldest element first. -/
def Represents (k : ℕ) (q : Fifo w α) (xs : List α) : Prop :=
  ∃ r, Sim q r ∧ r.Represents (2 ^ k) xs

namespace Represents

variable {k : ℕ} {q : Fifo w α} {xs : List α} {x : α}

theorem flush (q : Fifo w α) : Represents k q.flush [] :=
  ⟨_, q.sim_self.flush, RingFifo.Represents.flush (N := 2 ^ k) (pow_pos (by decide) k) _⟩

theorem put_lt (h : Represents k q xs) : q.put.toNat < 2 ^ k := by
  obtain ⟨r, hsim, hr⟩ := h
  have hlt := hr.put_lt
  rw [hsim.put] at hlt
  exact_mod_cast hlt

theorem get_lt (h : Represents k q xs) : q.get.toNat < 2 ^ k := by
  obtain ⟨r, hsim, hr⟩ := h
  have hlt := hr.get_lt
  rw [hsim.get] at hlt
  exact_mod_cast hlt

theorem length_lt (h : Represents k q xs) : xs.length < 2 ^ k := by
  obtain ⟨r, -, hr⟩ := h
  exact_mod_cast hr.length_lt

theorem len_eq (h : Represents k q xs) (hk : k < w) : (q.len k).toNat = xs.length := by
  have hlt := h.length_lt
  obtain ⟨r, hsim, hr⟩ := h
  have hdvd : 2 ^ k ∣ 2 ^ w := Nat.pow_dvd_pow 2 hk.le
  -- what the word holds, and what is queued, both lead from `get` to `put`
  have hword : q.put.toNat ≡ (q.put + BitVec.twoPow w k - q.get).toNat + q.get.toNat [MOD 2 ^ k] := by
    have hsum := congrArg BitVec.toNat (BitVec.sub_add_cancel (q.put + BitVec.twoPow w k) q.get)
    rw [BitVec.toNat_add, BitVec.toNat_add q.put, BitVec.toNat_twoPow_of_lt hk] at hsum
    have hmod : (q.put + BitVec.twoPow w k - q.get).toNat + q.get.toNat ≡
        q.put.toNat + 2 ^ k [MOD 2 ^ w] := hsum
    simpa [Nat.ModEq] using (hmod.of_dvd hdvd).symm
  have hqueue : q.put.toNat ≡ xs.length + q.get.toNat [MOD 2 ^ k] := by
    have hdist := hr.length_eq
    rw [hsim.put, hsim.get] at hdist
    rw [← Int.natCast_modEq_iff]
    push_cast
    have hsum := (Int.mod_modEq ((q.put.toNat : ℤ) - q.get.toNat) (2 ^ k)).add_right q.get.toNat
    rw [hdist, Int.sub_add_cancel] at hsum
    exact hsum.symm
  have heq := Nat.ModEq.add_right_cancel' _ (hword.symm.trans hqueue)
  rw [len, toNat_and_mask hk, ← Nat.mod_eq_of_lt hlt]
  exact heq

theorem empty_iff (h : Represents k q xs) : q.put = q.get ↔ xs = [] := by
  obtain ⟨r, hsim, hr⟩ := h
  rw [← hsim.empty_iff, ← hr.isEmpty_iff, RingFifo.isEmpty, beq_iff_eq]

theorem putTo (h : Represents k q xs) (hk : k < w) (x : α) :
    (xs.length = 2 ^ k - 1 ∧ q.putTo k x = none) ∨
      ∃ q', xs.length ≠ 2 ^ k - 1 ∧ q.putTo k x = some q' ∧ Represents k q' (xs ++ [x]) := by
  have hlt := h.length_lt
  obtain ⟨r, hsim, hr⟩ := h
  by_cases hfull : xs.length = 2 ^ k - 1
  · left
    have hring := hr.push_full (x := x) (by rw [hfull]; push_cast [Nat.one_le_two_pow]; ring)
    rcases hsim.putTo hk x with ⟨hq, -⟩ | ⟨q', r', -, hr', -⟩
    · exact ⟨hfull, hq⟩
    · rw [hring] at hr'
      cases hr'
  · right
    have hroom : (xs.length : ℤ) < 2 ^ k - 1 := by
      have hnat : xs.length + 1 < 2 ^ k := by omega
      have := (Nat.cast_lt (α := ℤ)).mpr hnat
      push_cast at this
      omega
    obtain ⟨r', hpush, hr', -, -⟩ := hr.push_some (x := x) hroom
    rcases hsim.putTo hk x with ⟨-, hnone⟩ | ⟨q', r'', hq, hpush', hsim'⟩
    · rw [hpush] at hnone
      cases hnone
    · rw [hpush] at hpush'
      obtain rfl := Option.some.inj hpush'
      exact ⟨q', hfull, hq, r', hsim', hr'⟩

theorem advance (h : Represents k q (x :: xs)) (hk : k < w) :
    Represents k (q.advance k) xs ∧ (q.advance k).data (q.advance k).get = x := by
  obtain ⟨r, hsim, hr⟩ := h
  obtain ⟨r', hpop, hr', hdata, hhead⟩ := hr.pop_cons
  have hadv := hsim.advance hk
  have heq : r' = { r with get := (r.get + 1) % 2 ^ k } := by
    rw [RingFifo.pop] at hpop
    split_ifs at hpop
    exact (congrArg Prod.fst (Option.some.inj hpop)).symm
  rw [← heq] at hadv
  refine ⟨⟨r', hadv, hr'⟩, ?_⟩
  rw [← hhead, hadv.get, hadv.data]

end Represents

theorem putTo_get {k : ℕ} {q q' : Fifo w α} {x : α} (h : q.putTo k x = some q') :
    q'.get = q.get ∧ q'.data q.get = q.data q.get := by
  simp only [putTo] at h
  split_ifs at h with hfull
  obtain rfl := Option.some.inj h
  exact ⟨rfl, Function.update_of_ne (Ne.symm hfull) _ _⟩

/-- The producer puts elements, those that are refused are dropped. -/
def putAll (k : ℕ) (q : Fifo w α) (xs : List α) : Fifo w α :=
  xs.foldl (fun q x ↦ (q.putTo k x).getD q) q

theorem putAll_get (k : ℕ) (q : Fifo w α) (xs : List α) :
    (q.putAll k xs).get = q.get ∧ (q.putAll k xs).data q.get = q.data q.get := by
  induction xs generalizing q with
  | nil => exact ⟨rfl, rfl⟩
  | cons x xs ih =>
      rw [putAll, List.foldl_cons]
      cases hput : q.putTo k x with
      | none => exact ih q
      | some q' =>
          obtain ⟨hget, hdata⟩ := putTo_get hput
          have := ih q'
          rw [hget, hdata] at this
          exact this

end Fifo

/-! ## A consumer and the producer that interrupts it -/

/-- Where the consumer is: it may have found that `put` and `get` differ, and it may have
been given a slot. -/
inductive ConsumerPc (w : ℕ) where
  | idle
  | advancing
  | copying (slot : BitVec w)

/-- A fifo, its consumer, and what was accepted and copied out since the last flush. -/
structure FifoSystem (w : ℕ) (α : Type*) where
  fifo : Fifo w α
  pc : ConsumerPc w
  accepted : List α
  copied : List α

inductive FifoStep (α : Type*) where
  | put (data : α)
  | flush
  | consume

namespace FifoSystem

variable {w k : ℕ} {α : Type*} {s s' : FifoSystem w α} {xs : List α}

def start (q : Fifo w α) : FifoSystem w α := ⟨q.flush, .idle, [], []⟩

/-- The producer may put whatever the consumer is doing; the consumer flushes between two
elements. -/
def step (k : ℕ) (s : FifoSystem w α) : FifoStep α → Option (FifoSystem w α)
  | .put data =>
    match s.fifo.putTo k data with
    | none => some s
    | some q => some { s with fifo := q, accepted := s.accepted ++ [data] }
  | .flush =>
    match s.pc with
    | .idle => some (start s.fifo)
    | _ => none
  | .consume =>
    match s.pc with
    | .idle =>
      if s.fifo.put = s.fifo.get then some s
      else some { s with pc := .advancing }
    | .advancing =>
      let q := s.fifo.advance k
      some { s with fifo := q, pc := .copying q.get }
    | .copying slot => some { s with pc := .idle, copied := s.copied ++ [s.fifo.data slot] }

/-- The element whose slot the consumer was given and has not copied. -/
def held (s : FifoSystem w α) : List α :=
  match s.pc with
  | .copying slot => [s.fifo.data slot]
  | _ => []

/-- The elements that were accepted and are not removed. -/
def queued (s : FifoSystem w α) : List α := s.accepted.drop (s.copied ++ s.held).length

/-- The fifo is a queue of at most `2 ^ k - 1` elements, first in first out. -/
structure RefinesQueue (k : ℕ) (s : FifoSystem w α) : Prop where
  put_lt : s.fifo.put.toNat < 2 ^ k
  get_lt : s.fifo.get.toNat < 2 ^ k
  in_order : s.copied ++ s.held ++ s.queued = s.accepted
  len_eq : (s.fifo.len k).toNat = s.queued.length
  length_le : s.queued.length ≤ 2 ^ k - 1
  putTo_eq_none : ∀ x, s.fifo.putTo k x = none ↔ s.queued.length = 2 ^ k - 1
  getFrom_eq_none : s.fifo.getFrom k = none ↔ s.queued = []
  guarded : ∀ slot, s.pc = .copying slot → ∀ xs,
    (s.fifo.putAll k xs).data slot = s.fifo.data slot

structure Holds (k : ℕ) (s : FifoSystem w α) (xs : List α) : Prop where
  represents : s.fifo.Represents k xs
  accepted : s.accepted = s.copied ++ s.held ++ xs
  slot : ∀ slot, s.pc = .copying slot → slot = s.fifo.get
  nonempty : s.pc = .advancing → xs ≠ []

namespace Holds

theorem start (q : Fifo w α) : Holds k (start q) [] where
  represents := .flush q
  accepted := rfl
  slot := fun _ h ↦ nomatch h
  nonempty := fun h ↦ nomatch h

theorem queued_eq (h : Holds k s xs) : s.queued = xs := by
  rw [queued, h.accepted, List.drop_left]

theorem put (h : Holds k s xs) (hk : k < w) (x : α) (hstep : step k s (.put x) = some s') :
    ∃ ys, Holds k s' ys := by
  rcases h.represents.putTo hk x with ⟨-, hput⟩ | ⟨q, -, hput, hq⟩
  · simp only [step, hput, Option.some.injEq] at hstep
    exact ⟨xs, hstep ▸ h⟩
  · simp only [step, hput, Option.some.injEq] at hstep
    subst hstep
    obtain ⟨hget, hdata⟩ := Fifo.putTo_get hput
    refine ⟨xs ++ [x], hq, ?_, ?_, ?_⟩
    · -- the slot the consumer holds is the guard slot, which the store leaves alone
      have hheld : held { s with fifo := q, accepted := s.accepted ++ [x] } = s.held := by
        cases hpc : s.pc with
        | idle => simp [held, hpc]
        | advancing => simp [held, hpc]
        | copying slot => simp [held, hpc, h.slot slot hpc, hdata]
      rw [hheld, h.accepted]
      simp
    · intro slot hpc
      exact (h.slot slot hpc).trans hget.symm
    · intro _
      simp

theorem flush (hstep : step k s .flush = some s') : ∃ ys, Holds k s' ys := by
  cases hpc : s.pc with
  | idle =>
      simp only [step, hpc, Option.some.injEq] at hstep
      exact ⟨[], hstep ▸ start s.fifo⟩
  | advancing => simp [step, hpc] at hstep
  | copying slot => simp [step, hpc] at hstep

theorem consume (h : Holds k s xs) (hk : k < w) (hstep : step k s .consume = some s') :
    ∃ ys, Holds k s' ys := by
  cases hpc : s.pc with
  | idle =>
      simp only [step, hpc] at hstep
      split_ifs at hstep with hempty
      · obtain rfl := Option.some.inj hstep
        exact ⟨xs, h⟩
      · obtain rfl := Option.some.inj hstep
        refine ⟨xs, h.represents, ?_, (fun _ hslot ↦ nomatch hslot), ?_⟩
        · simpa [held, hpc] using h.accepted
        · intro _
          exact mt h.represents.empty_iff.mpr hempty
  | advancing =>
      simp only [step, hpc, Option.some.injEq] at hstep
      subst hstep
      cases xs with
      | nil => exact absurd rfl (h.nonempty hpc)
      | cons x xs =>
          obtain ⟨hq, hx⟩ := h.represents.advance hk
          refine ⟨xs, hq, ?_, ?_, (fun hadv ↦ nomatch hadv)⟩
          · simpa [held, hpc, hx] using h.accepted
          · intro slot hslot
            exact (ConsumerPc.copying.inj hslot).symm
  | copying slot =>
      simp only [step, hpc, Option.some.injEq] at hstep
      subst hstep
      refine ⟨xs, h.represents, ?_, (fun _ hslot ↦ nomatch hslot), (fun hadv ↦ nomatch hadv)⟩
      simpa [held, hpc] using h.accepted

theorem refinesQueue (h : Holds k s xs) (hk : k < w) : RefinesQueue k s := by
  have hqueued := h.queued_eq
  constructor
  · exact h.represents.put_lt
  · exact h.represents.get_lt
  · rw [hqueued, ← h.accepted]
  · rw [hqueued, h.represents.len_eq hk]
  · have := h.represents.length_lt
    rw [hqueued]
    omega
  · intro x
    rw [hqueued]
    rcases h.represents.putTo hk x with ⟨hfull, hput⟩ | ⟨q, hroom, hput, -⟩
    · simp [hput, hfull]
    · simp [hput, hroom]
  · rw [hqueued, ← h.represents.empty_iff, Fifo.getFrom]
    split_ifs with hempty
    · simp [hempty]
    · simp [hempty]
  · intro slot hpc ys
    rw [h.slot slot hpc]
    exact (s.fifo.putAll_get k ys).2

end Holds

/-- The three fifos are alike: whatever their elements are and at every size that is a power of two,
each of them refines a bounded queue from a flush on, whatever the order of puts, flushes and steps
of the consumer. -/
theorem fifos_refine_queue (hk : k < w) {q : Fifo w α} {ls : List (FifoStep α)}
    (h : Steps (step k) anyStep (start q) ls s) : RefinesQueue k s := by
  have hinv : ∃ xs, Holds k s xs := by
    refine h.invariant (P := fun s ↦ ∃ xs, Holds k s xs) ?_ ⟨[], .start q⟩
    rintro s l s' ⟨xs, hs⟩ - hstep
    cases l with
    | put x => exact hs.put hk x hstep
    | flush => exact Holds.flush hstep
    | consume => exact hs.consume hk hstep
  obtain ⟨xs, hs⟩ := hinv
  exact hs.refinesQueue hk

/-- Two slots hold one element: the second put is refused, the third one goes to the slot the
consumer has not been given. -/
theorem fifos_refine_queue_two_slots : ∃ s : FifoSystem 32 HwTime,
    RefinesQueue 1 s ∧ s.copied = [5] ∧ s.queued = [7] ∧ s.accepted = [5, 7] :=
  ⟨_, fifos_refine_queue (by decide)
    (exec_get_steps (step 1) anyStep (start ⟨fun _ ↦ 0, 3, 9⟩)
      [.put 5, .put 6, .consume, .consume, .put 7, .consume] (by decide +kernel)),
    by decide +kernel, by decide +kernel, by decide +kernel⟩

end FifoSystem

end LiberaBase
