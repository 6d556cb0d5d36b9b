import LiberaBase.Lib.Runs
import Mathlib.Data.Nat.Notation
import Mathlib.Logic.Function.Basic

/-!
# Programs that take mutexes

The state of a program is which mutexes are held.  It is stuck where it wants one that is held or
gives back one that is not, and it waits where what it waits for has not come yet.  `Ends busy l l'`
says that a program started in `l` ends in `l'`, unless it waits or finds one of the `busy` mutexes
held.
-/

namespace Locking

inductive Stuck (μ : Type) where
  | held (m : μ)
  | notHeld (m : μ)
  | waiting

abbrev Locks (μ : Type) := μ → Bool

end Locking

/-- A program that takes mutexes. -/
abbrev Locking (μ : Type) := StateT (Locking.Locks μ) (Except (Locking.Stuck μ))

namespace Locking

variable {μ α β ι : Type}

section

variable [DecidableEq μ]

def lock (m : μ) : Locking μ Unit := fun l ↦
  if l m then .error (.held m) else .ok ((), Function.update l m true)

def unlock (m : μ) : Locking μ Unit := fun l ↦
  if l m then .ok ((), Function.update l m false) else .error (.notHeld m)

/-- The answer is whether a signal came instead of the mutex. -/
def lockInterruptible (m : μ) (signal : Bool) : Locking μ Bool :=
  if signal then pure true
  else do
    lock m
    pure false

/-- The answer is whether the mutex was taken; somebody else may have it. -/
def tryLock (m : μ) (busy : Bool) : Locking μ Bool := fun l ↦
  if busy || l m then .ok (false, l) else .ok (true, Function.update l m true)

/-- Sleep a number of times, each time with the mutex given back. -/
def sleeps (m : μ) : ℕ → Locking μ Unit
  | 0 => pure ()
  | n + 1 => do
    unlock m
    lock m
    sleeps m n

end

def init (m : μ) : Locking μ Unit := fun l ↦
  if l m then .error (.held m) else .ok ((), l)

def stillWaits : Locking μ α := fun _ ↦ .error .waiting

/-- Started in `l`, the program ends in `l'`, or waits, or finds a `busy` mutex held. -/
def Ends (busy : μ → Prop) (l l' : Locks μ) (x : Locking μ α) : Prop :=
  match x l with
  | .ok (_, l₁) => l₁ = l'
  | .error (.held m) => busy m
  | .error (.notHeld _) => False
  | .error .waiting => True

variable {busy : μ → Prop} {l l₁ l' : Locks μ} {m : μ} {signal : Bool}
  {x y : Locking μ α} {f : α → Locking μ β}

theorem run_bind_ok {a : α} (h : x l = .ok (a, l₁)) : (x >>= f) l = f a l₁ := by
  change Except.bind (x l) _ = _
  rw [h]
  rfl

theorem run_bind_error {e : Stuck μ} (h : x l = .error e) : (x >>= f) l = .error e := by
  change Except.bind (x l) _ = _
  rw [h]
  rfl

theorem run_lock_bind [DecidableEq μ] {g : Unit → Locking μ β} (hfree : l m = false) :
    (lock m >>= g) l = g () (Function.update l m true) :=
  run_bind_ok (by simp [lock, hfree])

theorem run_unlock_bind [DecidableEq μ] {g : Unit → Locking μ β} (hfree : l m = false) :
    (unlock m >>= g) (Function.update l m true) = g () l :=
  run_bind_ok (by simp [unlock, ← hfree])

namespace Ends

theorem of_ok {a : α} (h : x l = .ok (a, l')) : Ends busy l l' x := by
  unfold Ends
  rw [h]

theorem of_held (h : x l = .error (.held m)) (hbusy : busy m) : Ends busy l l' x := by
  unfold Ends
  rw [h]
  exact hbusy

theorem eq_of_ok {a : α} (h : Ends busy l l' x) (hrun : x l = .ok (a, l₁)) : l₁ = l' := by
  unfold Ends at h
  rwa [hrun] at h

/-- Without a busy mutex the program is not stuck. -/
theorem ok_or_waiting (h : Ends busy l l' x) (hfree : ∀ m, ¬busy m) :
    (∃ a, x l = .ok (a, l')) ∨ x l = .error .waiting := by
  unfold Ends at h
  cases hrun : x l with
  | ok r =>
      rw [hrun] at h
      exact .inl ⟨r.1, by rw [← h]⟩
  | error e =>
      rw [hrun] at h
      cases e with
      | held m => exact absurd h (hfree m)
      | notHeld m => exact h.elim
      | waiting => exact .inr rfl

theorem pure (a : α) : Ends busy l l (Pure.pure a : Locking μ α) := of_ok rfl

theorem stillWaits : Ends busy l l' (Locking.stillWaits : Locking μ α) := trivial

theorem bind (hx : Ends busy l l₁ x) (hf : ∀ a, Ends busy l₁ l' (f a)) :
    Ends busy l l' (x >>= f) := by
  cases hrun : x l with
  | ok r =>
      obtain ⟨a, l₂⟩ := r
      obtain rfl := hx.eq_of_ok hrun
      have hnext := hf a
      unfold Ends at hnext ⊢
      rwa [run_bind_ok hrun]
  | error e =>
      unfold Ends at hx ⊢
      rw [hrun] at hx
      rw [run_bind_error hrun]
      cases e with
      | held m => exact hx
      | notHeld m => exact hx
      | waiting => exact hx

theorem map {g : α → β} (hx : Ends busy l l' x) : Ends busy l l' (g <$> x) := by
  rw [map_eq_pure_bind]
  exact hx.bind fun a ↦ pure (g a)

theorem ite {c : Prop} [Decidable c] (hx : c → Ends busy l l' x) (hy : ¬c → Ends busy l l' y) :
    Ends busy l l' (if c then x else y) := by
  by_cases hc : c
  · rw [if_pos hc]
    exact hx hc
  · rw [if_neg hc]
    exact hy hc

theorem exit {c : Prop} [Decidable c] {a : α} (hy : Ends busy l l y) :
    Ends busy l l (if c then Pure.pure a else y) :=
  ite (fun _ ↦ pure a) fun _ ↦ hy

/-! ## The mutexes -/

theorem init (hbusy : l m = true → busy m) : Ends busy l l (Locking.init m) := by
  cases hm : l m with
  | true => exact of_held (by simp [Locking.init, hm]) (hbusy hm)
  | false => exact of_ok (a := ()) (by simp [Locking.init, hm])

variable [DecidableEq μ]

theorem busy_update {n : μ} (hne : n ≠ m) (hbusy : l n = true → busy n) :
    Function.update l m true n = true → busy n := by
  intro h
  rw [Function.update_of_ne hne] at h
  exact hbusy h

theorem lock_bind {g : Unit → Locking μ β} (hbusy : l m = true → busy m)
    (hg : l m = false → Ends busy (Function.update l m true) l' (g ())) :
    Ends busy l l' (lock m >>= g) := by
  cases hm : l m with
  | true =>
      have hrun : lock m l = .error (.held m) := by simp [lock, hm]
      exact of_held (run_bind_error hrun) (hbusy hm)
  | false =>
      have hnext := hg hm
      unfold Ends at hnext ⊢
      rwa [run_lock_bind hm]

theorem unlock_bind {g : Unit → Locking μ β} (hfree : l m = false) (hg : Ends busy l l' (g ())) :
    Ends busy (Function.update l m true) l' (unlock m >>= g) := by
  unfold Ends at hg ⊢
  rwa [run_unlock_bind hfree]

/-- What runs with the mutex held ends with it held, and then it is given back. -/
theorem unlocked (hfree : l m = false)
    (hx : Ends busy (Function.update l m true) (Function.update l m true) x) :
    Ends busy (Function.update l m true) l (x >>= fun a ↦ unlock m >>= fun _ ↦ Pure.pure a) := by
  apply hx.bind
  intro a
  exact unlock_bind hfree (pure a)

theorem interruptible (hbusy : l m = true → busy m) (hx : Ends busy l l' x)
    (hy : l m = false → Ends busy (Function.update l m true) l' y) :
    Ends busy l l' (lockInterruptible m signal >>= fun b ↦ if b = true then x else y) := by
  cases signal with
  | true => simpa [lockInterruptible] using hx
  | false =>
      simp only [lockInterruptible, Bool.false_eq_true, if_false, bind_assoc, pure_bind]
      exact lock_bind hbusy hy

theorem sleeps (hheld : l m = true) (n : ℕ) : Ends busy l l (Locking.sleeps m n) := by
  induction n with
  | zero => exact pure ()
  | succ n ih =>
      have hunlock : unlock m l = .ok ((), Function.update l m false) := by simp [unlock, hheld]
      have hlock : lock m (Function.update l m false) = .ok ((), l) := by simp [lock, ← hheld]
      unfold Ends at ih ⊢
      rw [Locking.sleeps, run_bind_ok hunlock, run_bind_ok hlock]
      exact ih

theorem tryLock_bind {busyNow : Bool} {g : Bool → Locking μ β} (hfail : Ends busy l l' (g false))
    (htaken : l m = false → Ends busy (Function.update l m true) l' (g true)) :
    Ends busy l l' (tryLock m busyNow >>= g) := by
  cases hm : busyNow || l m with
  | true =>
      have hrun : tryLock m busyNow l = .ok (false, l) := by simp [tryLock, hm]
      unfold Ends at hfail ⊢
      rwa [run_bind_ok hrun]
  | false =>
      have hrun : tryLock m busyNow l = .ok (true, Function.update l m true) := by
        simp [tryLock, hm]
      have hnext := htaken (Bool.or_eq_false_iff.mp hm).2
      unfold Ends at hnext ⊢
      rwa [run_bind_ok hrun]

end Ends

/-! ## What a program returns -/

/-- The program returns nothing but the value, wherever it is started. -/
def Yields (o : Option α) (x : Locking μ α) : Prop :=
  ∀ l a l', x l = .ok (a, l') → o = some a

namespace Yields

variable {o o' : Option α} {a : α}

theorem of_eq (h : o' = o) (hx : Yields o' x) : Yields o x := h ▸ hx

theorem pure (a : α) : Yields (some a) (Pure.pure a : Locking μ α) := by
  rintro l b l' ⟨⟩
  rfl

theorem stillWaits : Yields o (Locking.stillWaits : Locking μ α) := by
  rintro l b l' ⟨⟩

theorem bind {g : α → Option β} (hx : Yields o x) (hf : ∀ a, Yields (g a) (f a)) :
    Yields (o.bind g) (x >>= f) := by
  intro l b l' hrun
  cases hl : x l with
  | error e =>
      rw [run_bind_error hl] at hrun
      cases hrun
  | ok r =>
      rw [run_bind_ok hl] at hrun
      rw [hx l r.1 r.2 hl]
      exact hf r.1 _ _ _ hrun

theorem map {g : α → β} (hx : Yields o x) (hf : ∀ a, Yields (some (g a)) (f a)) :
    Yields (o.map g) (x >>= f) := by
  rw [Option.map_eq_bind]
  exact hx.bind hf

theorem known {o : Option β} (hx : Yields (some a) x) (hf : Yields o (f a)) :
    Yields o (x >>= f) := by
  intro l b l' hrun
  cases hl : x l with
  | error e =>
      rw [run_bind_error hl] at hrun
      cases hrun
  | ok r =>
      rw [run_bind_ok hl] at hrun
      obtain rfl := Option.some.inj (hx l r.1 r.2 hl)
      exact hf _ _ _ hrun

theorem ite {c : Prop} [Decidable c] (hx : c → Yields o x) (hy : ¬c → Yields o' y) :
    Yields (if c then o else o') (if c then x else y) := by
  by_cases hc : c
  · rw [if_pos hc, if_pos hc]
    exact hx hc
  · rw [if_neg hc, if_neg hc]
    exact hy hc

variable [DecidableEq μ]

theorem unlock : Yields (some ()) (Locking.unlock m) := fun _ _ _ _ ↦ rfl

theorem sleeps {n : ℕ} : Yields (some ()) (Locking.sleeps m n) := fun _ _ _ _ ↦ rfl

theorem unlocked (hx : Yields o x) :
    Yields o (x >>= fun a ↦ Locking.unlock m >>= fun _ ↦ Pure.pure a) :=
  of_eq (Option.bind_fun_some o) (hx.bind fun a ↦ unlock.known (pure a))

theorem interruptible (hx : signal = true → Yields o x) (hy : signal = false → Yields o y) :
    Yields o (lockInterruptible m signal >>= fun b ↦ if b = true then x else y) := by
  have hlock : Yields (some ()) (lock m) := fun _ _ _ _ ↦ rfl
  cases signal with
  | true => exact (pure true).known (hx rfl)
  | false =>
      have hfalse : Yields (some false) (lockInterruptible m false) := hlock.known (pure false)
      exact hfalse.known (hy rfl)

end Yields

/-! ## One program after the other -/

open Runs

variable {run : ι → Locking μ α} {op : ι} {ops : List ι} {leaks : ι → Prop}

def step (run : ι → Locking μ α) (l : Locks μ) (op : ι) : Option (Locks μ) :=
  match run op l with
  | .ok (_, l') => some l'
  | .error _ => none

theorem Ends.eq_of_step (h : Ends busy l l₁ (run op)) (hstep : step run l op = some l') :
    l' = l₁ := by
  unfold step at hstep
  cases hrun : run op l with
  | ok r =>
      rw [hrun] at hstep
      obtain rfl := Option.some.inj hstep
      exact h.eq_of_ok hrun
  | error e =>
      rw [hrun] at hstep
      cases hstep

/-- A program that leaks takes `m` and leaves it held; the others leave the locks as they were.
Then a run in which a program leaks leaves `m` held, which was free. -/
theorem steps_leak (hneat : ∀ op, ¬leaks op → ∀ l, Ends (l · = true) l l (run op))
    (hleak : ∀ op, leaks op → ∀ l l', step run l op = some l' → l m = false ∧ l' m = true)
    (hrun : Steps (step run) anyStep l ops l') (hmem : ∃ op ∈ ops, leaks op) :
    l m = false ∧ l' m = true := by
  have held : ∀ {l l' : Locks μ} {ops : List ι}, Steps (step run) anyStep l ops l' →
      l m = true → l' m = true := by
    intro l l' ops hrun
    refine hrun.invariant (P := fun l ↦ l m = true) ?_
    intro l op l' hl _ hstep
    by_cases hop : leaks op
    · exact (hleak op hop l l' hstep).2
    · rwa [(hneat op hop l).eq_of_step hstep]
  induction hrun with
  | nil => simp at hmem
  | @cons l l₁ l' op ops _ hstep rest ih =>
      by_cases hop : leaks op
      · obtain ⟨hfree, hheld⟩ := hleak op hop l l₁ hstep
        exact ⟨hfree, held rest hheld⟩
      · obtain ⟨op', hop', hleaks⟩ := hmem
        have htail : op' ∈ ops := by
          rcases List.mem_cons.mp hop' with rfl | htail
          · exact absurd hleaks hop
          · exact htail
        obtain ⟨hfree, hheld⟩ := ih ⟨op', htail, hleaks⟩
        rw [(hneat op hop l).eq_of_step hstep] at hfree
        exact ⟨hfree, hheld⟩

/-- A run leaves the locks as they were exactly if no program leaks. -/
theorem steps_eq_iff (hneat : ∀ op, ¬leaks op → ∀ l, Ends (l · = true) l l (run op))
    (hleak : ∀ op, leaks op → ∀ l l', step run l op = some l' → l m = false ∧ l' m = true)
    (hrun : Steps (step run) anyStep l ops l') : l' = l ↔ ∀ op ∈ ops, ¬leaks op := by
  constructor
  · rintro rfl op hop hleaks
    obtain ⟨hfree, hheld⟩ := steps_leak hneat hleak hrun ⟨op, hop, hleaks⟩
    rw [hfree] at hheld
    cases hheld
  · intro hops
    induction hrun with
    | nil => rfl
    | cons _ hstep _ ih =>
        rw [List.forall_mem_cons] at hops
        exact (ih hops.2).trans ((hneat _ hops.1 _).eq_of_step hstep)

end Locking
