import Mathlib.Data.Int.ModEq
import Mathlib.Logic.Function.Basic
import Mathlib.Tactic.Ring

/-!
# Windows of a ring buffer

A ring of `N` slots is a memory `buf : ℤ → α` read at indices modulo `N`.
`Holds N buf start xs` says that the `xs.length` slots from `start` on, taken
cyclically, hold the list `xs`.  The lemmas say how a window grows at its end,
shrinks at its front, and what a store outside it leaves alone.
-/

namespace RingWindow

variable {α : Type*}

/-- The slots `start, start + 1, …` of the ring hold the elements of `xs`. -/
def Holds (N : ℤ) (buf : ℤ → α) (start : ℤ) (xs : List α) : Prop :=
  ∀ j (h : j < xs.length), buf ((start + j) % N) = xs[j]

variable {N : ℤ} {buf : ℤ → α} {start : ℤ} {xs : List α} {x : α}

theorem slot_of_offset (start k : ℤ) : (start + (k - start) % N) % N = k % N := by
  rw [Int.add_emod, Int.emod_emod_of_dvd _ dvd_rfl, ← Int.add_emod]
  congr 1
  ring

theorem holds_nil (N : ℤ) (buf : ℤ → α) (start : ℤ) : Holds N buf start [] := by
  intro j h
  simp at h

theorem Holds.congr {buf' : ℤ → α} (h : Holds N buf start xs)
    (heq : ∀ j : ℕ, j < xs.length → buf' ((start + j) % N) = buf ((start + j) % N)) :
    Holds N buf' start xs :=
  fun j hj ↦ (heq j hj).trans (h j hj)

theorem holds_emod_start : Holds N buf (start % N) xs ↔ Holds N buf start xs := by
  simp only [Holds, Int.emod_add_emod]

theorem Holds.head (h : Holds N buf start (x :: xs)) : buf (start % N) = x := by
  have hfirst := h 0 (by simp)
  rw [List.getElem_cons_zero] at hfirst
  simpa using hfirst

theorem Holds.tail (h : Holds N buf start (x :: xs)) : Holds N buf ((start + 1) % N) xs := by
  rw [holds_emod_start]
  intro j hj
  have hnext := h (j + 1) (by simpa using hj)
  have hpos : start + ((j + 1 : ℕ) : ℤ) = start + 1 + j := by
    push_cast
    ring
  rw [hpos] at hnext
  simpa using hnext

theorem Holds.append (h : Holds N buf start xs)
    (hx : buf ((start + xs.length) % N) = x) : Holds N buf start (xs ++ [x]) := by
  intro j hj
  rcases Nat.lt_or_ge j xs.length with hlt | hge
  · rw [List.getElem_append_left hlt]
    exact h j hlt
  · have hj' : j = xs.length := by
      simp at hj
      omega
    subst hj'
    simpa using hx

theorem ne_slot_of_offset {k : ℤ} {j : ℕ} (hN : 0 < N) (hk : k % N = k)
    (hj : (j : ℤ) < (k - start) % N) : (start + j) % N ≠ k := by
  intro heq
  have hlt : (k - start) % N < N := Int.emod_lt_of_pos _ hN
  rw [← hk, ← slot_of_offset start k] at heq
  have hoff := Int.emod_add_cancel_left.mp heq
  rw [Int.emod_emod_of_dvd _ dvd_rfl, Int.emod_eq_of_lt (by omega) (by omega)] at hoff
  omega

theorem Holds.update {k : ℤ} {v : α} (hN : 0 < N) (hk : k % N = k)
    (hlen : (xs.length : ℤ) ≤ (k - start) % N) (h : Holds N buf start xs) :
    Holds N (Function.update buf k v) start xs :=
  h.congr fun j hj ↦ Function.update_of_ne (ne_slot_of_offset hN hk (by omega)) _ _

end RingWindow
