import LiberaBase.Lib.RingWindow

/-!
# A ring FIFO with a guard slot

The FIFO keeps two indices into a ring of `N` slots.  `put` designates the slot
written last and `get` the slot read last, so the queued elements occupy the
slots from `get + 1` to `put` and one slot, the one at `get`, is never filled.
That slot is where the element returned last still lives: a consumer that was
given its index may read it at leisure, because no store touches it before the
next removal.

`Represents N q xs` relates the ring to the bounded queue `xs` it implements.
-/

structure RingFifo (α : Type*) where
  data : ℤ → α
  put : ℤ
  get : ℤ

namespace RingFifo

open RingWindow

variable {α : Type*} {N : ℤ} {q : RingFifo α} {xs : List α} {x : α}

def flush (q : RingFifo α) : RingFifo α := { q with put := 0, get := 0 }

def len (N : ℤ) (q : RingFifo α) : ℤ := (q.put + N - q.get) % N

def isEmpty (q : RingFifo α) : Bool := q.put == q.get

/-- Store behind `put` and advance it, unless that would close the ring. -/
def push (N : ℤ) (q : RingFifo α) (x : α) : Option (RingFifo α) :=
  let index := (q.put + 1) % N
  if index = q.get then none
  else some { q with data := Function.update q.data index x, put := index }

def contents (N : ℤ) (q : RingFifo α) : List α :=
  (List.range (q.len N).toNat).map fun (j : ℕ) ↦ q.data ((q.get + 1 + j) % N)

/-- Advance `get` and return its new value, the index of the removed element. -/
def pop (N : ℤ) (q : RingFifo α) : Option (RingFifo α × ℤ) :=
  if q.put = q.get then none
  else some ({ q with get := (q.get + 1) % N }, (q.get + 1) % N)

/-- The indices designate slots of the ring. -/
structure InRange (N : ℤ) (q : RingFifo α) : Prop where
  put_nonneg : 0 ≤ q.put
  put_lt : q.put < N
  get_nonneg : 0 ≤ q.get
  get_lt : q.get < N

/-- The ring `q` implements the queue `xs`, oldest element first. -/
structure Represents (N : ℤ) (q : RingFifo α) (xs : List α) : Prop where
  put_nonneg : 0 ≤ q.put
  put_lt : q.put < N
  get_nonneg : 0 ≤ q.get
  get_lt : q.get < N
  length_eq : (q.put - q.get) % N = xs.length
  holds : Holds N q.data (q.get + 1) xs

theorem succ_emod {i : ℤ} (h₀ : 0 ≤ i) (h₁ : i < N) :
    (i + 1) % N = if i + 1 = N then 0 else i + 1 := by
  split_ifs with h
  · rw [h, Int.emod_self]
  · exact Int.emod_eq_of_lt (by omega) (by omega)

theorem sub_emod {i j : ℤ} (hi₀ : 0 ≤ i) (hi₁ : i < N) (hj₀ : 0 ≤ j) (hj₁ : j < N) :
    (i - j) % N = if j ≤ i then i - j else i - j + N := by
  split_ifs with h
  · exact Int.emod_eq_of_lt (by omega) (by omega)
  · rw [← Int.add_emod_right]
    exact Int.emod_eq_of_lt (by omega) (by omega)

namespace Represents

theorem flush (hN : 0 < N) (q : RingFifo α) : Represents N q.flush [] where
  put_nonneg := le_rfl
  put_lt := hN
  get_nonneg := le_rfl
  get_lt := hN
  length_eq := by simp [RingFifo.flush]
  holds := holds_nil _ _ _

theorem len_eq (h : Represents N q xs) : q.len N = xs.length := by
  rw [len, ← h.length_eq, show q.put + N - q.get = q.put - q.get + N by ring,
    Int.add_emod_right]

theorem contents_eq (h : Represents N q xs) : q.contents N = xs := by
  rw [contents, h.len_eq, Int.toNat_natCast]
  apply List.ext_getElem
  · simp
  · intro j hj hj'
    rw [List.getElem_map, List.getElem_range]
    exact h.holds j hj'

/-- A ring implements the queue of what it contains. -/
theorem of_inRange (h : InRange N q) : Represents N q (q.contents N) where
  put_nonneg := h.put_nonneg
  put_lt := h.put_lt
  get_nonneg := h.get_nonneg
  get_lt := h.get_lt
  length_eq := by
    have hlen : q.len N = (q.put - q.get) % N := by
      rw [len, show q.put + N - q.get = q.put - q.get + N by ring, Int.add_emod_right]
    have hnonneg : 0 ≤ (q.put - q.get) % N :=
      Int.emod_nonneg _ (h.put_nonneg.trans_lt h.put_lt).ne'
    rw [contents, List.length_map, List.length_range, hlen, Int.toNat_of_nonneg hnonneg]
  holds := fun j hj ↦ by
    simp only [contents, List.getElem_map, List.getElem_range]

theorem length_lt (h : Represents N q xs) : (xs.length : ℤ) < N := by
  rw [← h.length_eq]
  exact Int.emod_lt_of_pos _ (by have := h.put_nonneg; have := h.put_lt; omega)

theorem isEmpty_iff (h : Represents N q xs) : q.isEmpty = true ↔ xs = [] := by
  have hdist := sub_emod h.put_nonneg h.put_lt h.get_nonneg h.get_lt
  rw [h.length_eq] at hdist
  have := h.put_nonneg
  have := h.get_lt
  rw [isEmpty, beq_iff_eq, ← List.length_eq_zero_iff]
  constructor
  · intro heq
    rw [if_pos heq.ge] at hdist
    omega
  · intro hlen
    rw [hlen] at hdist
    split_ifs at hdist <;> omega

theorem push_offset (h : Represents N q xs) :
    ((q.put + 1) % N - (q.get + 1)) % N = xs.length := by
  rw [Int.emod_sub_emod, ← h.length_eq]
  congr 1
  ring

theorem full_iff (h : Represents N q xs) :
    (q.put + 1) % N = q.get ↔ (xs.length : ℤ) = N - 1 := by
  have hdist := sub_emod h.put_nonneg h.put_lt h.get_nonneg h.get_lt
  rw [h.length_eq] at hdist
  rw [succ_emod h.put_nonneg h.put_lt, hdist]
  have := h.put_lt
  have := h.put_nonneg
  have := h.get_lt
  have := h.get_nonneg
  split_ifs <;> omega

theorem push_full (h : Represents N q xs) (hfull : (xs.length : ℤ) = N - 1) :
    q.push N x = none := by
  simp [push, h.full_iff.mpr hfull]

/-- A queue that is not full takes the element at its end. -/
theorem push_some (h : Represents N q xs) (hroom : (xs.length : ℤ) < N - 1) :
    ∃ q', q.push N x = some q' ∧ Represents N q' (xs ++ [x]) ∧ q'.get = q.get ∧
      q'.data q.get = q.data q.get := by
  have hN : 0 < N := by have := h.put_nonneg; have := h.put_lt; omega
  have hne : (q.put + 1) % N ≠ q.get := fun heq ↦ by
    have := h.full_iff.mp heq
    omega
  have hmod : (q.put + 1) % N % N = (q.put + 1) % N := Int.emod_emod_of_dvd _ dvd_rfl
  refine ⟨{ q with data := Function.update q.data ((q.put + 1) % N) x, put := (q.put + 1) % N },
    by simp only [push, if_neg hne], ?_, rfl, Function.update_of_ne hne.symm _ _⟩
  · refine ⟨Int.emod_nonneg _ hN.ne', Int.emod_lt_of_pos _ hN, h.get_nonneg, h.get_lt, ?_, ?_⟩
    · have hlen : (((q.put + 1) % N - q.get) % N) = (q.put - q.get + 1) % N := by
        rw [Int.emod_sub_emod]
        congr 1
        ring
      rw [hlen, ← Int.emod_add_emod, h.length_eq, Int.emod_eq_of_lt (by omega) (by omega)]
      simp
    · refine (h.holds.update hN hmod (by rw [h.push_offset])).append ?_
      have hslot : (q.get + 1 + xs.length) % N = (q.put + 1) % N := by
        rw [← h.push_offset, slot_of_offset, hmod]
      simp only [hslot, Function.update_self]

/-- What is stored behind `put` does not join the queue. -/
theorem store_behind (h : Represents N q xs) (hroom : (xs.length : ℤ) < N - 1) (x : α) :
    Represents N { q with data := Function.update q.data ((q.put + 1) % N) x } xs := by
  have hN : 0 < N := by have := h.put_nonneg; have := h.put_lt; omega
  have hmod : (q.put + 1) % N % N = (q.put + 1) % N := Int.emod_emod_of_dvd _ dvd_rfl
  exact ⟨h.put_nonneg, h.put_lt, h.get_nonneg, h.get_lt, h.length_eq,
    h.holds.update hN hmod (by rw [h.push_offset])⟩

theorem advance_put (h : Represents N q xs) (hroom : (xs.length : ℤ) < N - 1)
    (hx : q.data ((q.put + 1) % N) = x) :
    Represents N { q with put := (q.put + 1) % N } (xs ++ [x]) := by
  obtain ⟨q', hpush, hq', -, -⟩ := h.push_some (x := x) hroom
  rw [push] at hpush
  split_ifs at hpush
  rw [← Option.some.inj hpush] at hq'
  subst hx
  rw [Function.update_eq_self] at hq'
  exact hq'

theorem pop_nil (h : Represents N q []) : q.pop N = none := by
  have := h.isEmpty_iff.mpr rfl
  rw [isEmpty, beq_iff_eq] at this
  simp [pop, this]

/-- A queue that is not empty returns the index of its oldest element. -/
theorem pop_cons (h : Represents N q (x :: xs)) :
    ∃ q', q.pop N = some (q', q'.get) ∧ Represents N q' xs ∧ q'.data = q.data ∧
      q'.data q'.get = x := by
  have hN : 0 < N := by have := h.put_nonneg; have := h.put_lt; omega
  have hne : q.put ≠ q.get := fun heq ↦ by
    have := h.isEmpty_iff.mp (by simpa [isEmpty] using heq)
    simp at this
  refine ⟨{ q with get := (q.get + 1) % N }, by simp only [pop, if_neg hne], ?_, rfl,
    h.holds.head⟩
  · refine ⟨h.put_nonneg, h.put_lt, Int.emod_nonneg _ hN.ne', Int.emod_lt_of_pos _ hN, ?_, ?_⟩
    · have hlt := h.length_lt
      have hlen : ((q.put - (q.get + 1) % N) % N) = (q.put - q.get - 1) % N := by
        rw [Int.sub_emod_emod]
        congr 1
        ring
      rw [hlen, ← Int.emod_sub_emod, h.length_eq]
      simp only [List.length_cons] at hlt ⊢
      push_cast at hlt ⊢
      rw [Int.emod_eq_of_lt (by omega) (by omega)]
      ring
    · rw [← holds_emod_start]
      simpa only [Int.emod_add_emod, Int.add_emod_emod, Int.emod_emod_of_dvd _ (dvd_refl N)]
        using h.holds.tail

end Represents

end RingFifo
