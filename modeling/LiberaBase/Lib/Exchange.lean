import Mathlib.Data.List.Basic
import Mathlib.Logic.Function.Iterate

/-!
# A slave that answers one exchange late

The master sends a byte and receives in the same exchange the one that the slave had queued
before.  So the reply to a request is read in the next exchange, and a loop that polls reads
the replies to the probes before.
-/

namespace Lagged

variable {σ τ ρ : Type*} (queued : σ → ρ) (answer : τ → σ → σ)

/-- One exchange: the reply queued before, and the slave after it has seen the request. -/
def exchange (t : τ) (s : σ) : ρ × σ := (queued s, answer t s)

def exchanges : List τ → σ → List ρ × σ
  | [], s => ([], s)
  | t :: ts, s =>
    let (r, s₁) := exchange queued answer t s
    let (rs, s₂) := exchanges ts s₁
    (r :: rs, s₂)

/-- Exchange a probe as long as the reply is `busy`. -/
def poll [DecidableEq ρ] (probe : τ) (busy : ρ) : ℕ → σ → Option (ρ × σ)
  | 0, _ => none
  | fuel + 1, s =>
    let (r, s₁) := exchange queued answer probe s
    if r = busy then poll probe busy fuel s₁ else some (r, s₁)

variable {queued answer} {s : σ}

/-- While an invariant holds under which the slave queues `reply t` for each request `t`, the
replies are late by one. -/
theorem exchanges_late {P : σ → Prop} {reply : τ → ρ} {ts : List τ}
    (hstep : ∀ s, ∀ t ∈ ts, P s → P (answer t s) ∧ queued (answer t s) = reply t) (hs : P s) :
    P (exchanges queued answer ts s).2 ∧
      (exchanges queued answer ts s).1 ++ [queued (exchanges queued answer ts s).2] =
        queued s :: ts.map reply := by
  induction ts generalizing s with
  | nil => exact ⟨hs, rfl⟩
  | cons t ts ih =>
      obtain ⟨ht, hqueued⟩ := hstep s t List.mem_cons_self hs
      obtain ⟨hP, hlate⟩ := ih (fun s u hu ↦ hstep s u (List.mem_cons_of_mem _ hu)) ht
      refine ⟨hP, ?_⟩
      simp only [exchanges, exchange, List.cons_append, List.map_cons, ← hqueued]
      exact congrArg _ hlate

theorem poll_eq [DecidableEq ρ] {probe : τ} {busy : ρ} {n fuel : ℕ}
    (hbusy : ∀ i < n, queued ((answer probe)^[i] s) = busy)
    (hready : queued ((answer probe)^[n] s) ≠ busy) (hfuel : n < fuel) :
    poll queued answer probe busy fuel s =
      some (queued ((answer probe)^[n] s), (answer probe)^[n + 1] s) := by
  induction n generalizing fuel s with
  | zero =>
      cases fuel with
      | zero => exact absurd hfuel (Nat.lt_irrefl 0)
      | succ fuel =>
          have hne : queued s ≠ busy := hready
          simp [poll, exchange, hne]
  | succ n ih =>
      cases fuel with
      | zero => exact absurd hfuel (Nat.not_lt_zero _)
      | succ fuel =>
          have hfirst : queued s = busy := hbusy 0 n.succ_pos
          refine (if_pos hfirst).trans ?_
          apply ih
          · intro i hi
            exact hbusy (i + 1) (Nat.succ_lt_succ hi)
          · exact hready
          · exact Nat.lt_of_succ_lt_succ hfuel

end Lagged
