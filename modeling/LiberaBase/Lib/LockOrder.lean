import LiberaBase.Lib.Locking
import Mathlib.Data.Set.Insert
import Mathlib.Order.WellFounded

/-!
# Mutexes taken in an order

A `Prog` is a program that takes mutexes, step by step, and `denote` is what it does when nothing
comes between.  Any number of processes run such programs at the same time.  If every program takes
its mutexes in an order, then whoever waits for a mutex waits in the end for a process that can go
on or sleeps, unless the mutex was never given back.
-/

namespace Locking

variable {π μ α β ι : Type}

/-- `sleep` lasts until something happens outside, `stop` forever. -/
inductive Prog (μ α : Type) where
  | done (a : α)
  | lock (m : μ) (next : Prog μ α)
  | unlock (m : μ) (next : Prog μ α)
  | tryLock (m : μ) (busy : Bool) (next : Bool → Prog μ α)
  | init (m : μ) (next : Prog μ α)
  | sleep (next : Prog μ α)
  | stop

/-- The mutexes that a program takes while it holds others, those it holds in its sleep, and those
it still has when it returns. -/
structure Discipline (μ : Type) where
  /-- the first is held when the second is taken -/
  order : μ → μ → Prop
  asleep : μ → Prop
  leaks : μ → Prop

namespace Prog

def bind : Prog μ α → (α → Prog μ β) → Prog μ β
  | .done a, f => f a
  | .lock m p, f => .lock m (p.bind f)
  | .unlock m p, f => .unlock m (p.bind f)
  | .tryLock m busy p, f => .tryLock m busy fun b ↦ (p b).bind f
  | .init m p, f => .init m (p.bind f)
  | .sleep p, f => .sleep (p.bind f)
  | .stop, _ => .stop

def interruptible (m : μ) (signal : Bool) (x y : Prog μ α) : Prog μ α :=
  if signal then x else .lock m y

/-- Run a program with the mutex held, and then give it back. -/
def unlocked (m : μ) (x : Prog μ α) : Prog μ α := x.bind fun a ↦ .unlock m (.done a)

/-- Sleep a number of times, each time with the mutex given back. -/
def sleeps (m : μ) : ℕ → Prog μ α → Prog μ α
  | 0, p => p
  | n + 1, p => .unlock m (.sleep (.lock m (sleeps m n p)))

/-! ## What a program does alone -/

section Denote

variable [DecidableEq μ] {m : μ}

def denote : Prog μ α → Locking μ α
  | .done a => pure a
  | .lock m p => do
    Locking.lock m
    p.denote
  | .unlock m p => do
    Locking.unlock m
    p.denote
  | .tryLock m busy p => do
    let taken ← Locking.tryLock m busy
    (p taken).denote
  | .init m p => do
    Locking.init m
    p.denote
  | .sleep p => p.denote
  | .stop => stillWaits

theorem denote_bind (p : Prog μ α) (f : α → Prog μ β) :
    (p.bind f).denote = p.denote >>= fun a ↦ (f a).denote := by
  induction p with
  | done a => exact (pure_bind a fun a ↦ (f a).denote).symm
  | lock m p ih => simp only [bind, denote, ih, bind_assoc]
  | unlock m p ih => simp only [bind, denote, ih, bind_assoc]
  | tryLock m busy p ih => simp only [bind, denote, ih, bind_assoc]
  | init m p ih => simp only [bind, denote, ih, bind_assoc]
  | sleep p ih => exact ih
  | stop => rfl

theorem denote_map {p : Prog μ α} {x : Locking μ α} (f : α → β) (h : p.denote = x) :
    (p.bind fun a ↦ .done (f a)).denote = f <$> x := by
  rw [denote_bind, h, map_eq_pure_bind]
  rfl

theorem denote_interruptible (m : μ) (signal : Bool) (x y : Prog μ α) :
    (interruptible m signal x y).denote =
      lockInterruptible m signal >>= fun b ↦ if b = true then x.denote else y.denote := by
  cases signal with
  | true => rfl
  | false =>
      simp only [interruptible, lockInterruptible, Bool.false_eq_true, if_false, bind_assoc,
        pure_bind]
      rfl

theorem denote_unlocked (m : μ) (x : Prog μ α) :
    (unlocked m x).denote = x.denote >>= fun a ↦ Locking.unlock m >>= fun _ ↦ pure a :=
  denote_bind x _

theorem denote_sleeps (m : μ) (n : ℕ) (p : Prog μ α) :
    (sleeps m n p).denote = Locking.sleeps m n >>= fun _ ↦ p.denote := by
  induction n with
  | zero => exact (pure_bind () fun _ ↦ p.denote).symm
  | succ n ih => simp only [sleeps, denote, ih, Locking.sleeps, bind_assoc]

end Denote

/-! ## Programs that keep to an order -/

/-- Started with the mutexes `held`, the program keeps to the discipline, and it returns with
mutexes that satisfy `post`. -/
def Orderly (d : Discipline μ) : Set μ → Prog μ α → (Set μ → Prop) → Prop
  | held, .done _, post => post held
  | held, .lock m p, post => (∀ n ∈ held, d.order n m) ∧ Orderly d (insert m held) p post
  | held, .unlock m p, post => m ∈ held ∧ Orderly d (held \ {m}) p post
  | held, .tryLock m _ p, post =>
    Orderly d held (p false) post ∧ Orderly d (insert m held) (p true) post
  | held, .init m p, post => (∀ n ∈ held, d.order n m) ∧ Orderly d held p post
  | held, .sleep p, post => (∀ n ∈ held, d.asleep n) ∧ Orderly d held p post
  | held, .stop, _ => ∀ n ∈ held, d.asleep n

namespace Orderly

variable {d : Discipline μ} {held held' : Set μ} {m : μ} {p x y : Prog μ α}
  {f : α → Prog μ β} {post post' : Set μ → Prop}

theorem done {a : α} : Orderly d held (.done a) (· = held) := rfl

theorem mono (h : Orderly d held p post) (himp : ∀ held, post held → post' held) :
    Orderly d held p post' := by
  induction p generalizing held with
  | done a => exact himp _ h
  | lock m p ih => exact ⟨h.1, ih h.2⟩
  | unlock m p ih => exact ⟨h.1, ih h.2⟩
  | tryLock m busy p ih => exact ⟨ih false h.1, ih true h.2⟩
  | init m p ih => exact ⟨h.1, ih h.2⟩
  | sleep p ih => exact ⟨h.1, ih h.2⟩
  | stop => exact h

/-- The second program starts with what the first one still has. -/
theorem bind (h : Orderly d held p (· = held')) (hf : ∀ a, Orderly d held' (f a) post) :
    Orderly d held (p.bind f) post := by
  induction p generalizing held with
  | done a =>
      obtain rfl : held = held' := h
      exact hf a
  | lock m p ih => exact ⟨h.1, ih h.2⟩
  | unlock m p ih => exact ⟨h.1, ih h.2⟩
  | tryLock m busy p ih => exact ⟨ih false h.1, ih true h.2⟩
  | init m p ih => exact ⟨h.1, ih h.2⟩
  | sleep p ih => exact ⟨h.1, ih h.2⟩
  | stop => exact h

theorem ite {c : Prop} [Decidable c] (hx : c → Orderly d held x post)
    (hy : ¬c → Orderly d held y post) : Orderly d held (if c then x else y) post := by
  by_cases hc : c
  · rw [if_pos hc]
    exact hx hc
  · rw [if_neg hc]
    exact hy hc

theorem interruptible {signal : Bool} (hx : Orderly d held x post)
    (hlt : ∀ n ∈ held, d.order n m) (hy : Orderly d (insert m held) y post) :
    Orderly d held (interruptible m signal x y) post :=
  ite (fun _ ↦ hx) fun _ ↦ ⟨hlt, hy⟩

theorem unlock_done {a : α} (hm : m ∉ held) :
    Orderly d (insert m held) (.unlock m (.done a)) (· = held) :=
  ⟨Set.mem_insert m held, Set.insert_sdiff_self_of_notMem hm⟩

theorem unlocked (hm : m ∉ held) (hx : Orderly d (insert m held) x (· = insert m held)) :
    Orderly d (insert m held) (unlocked m x) (· = held) :=
  hx.bind fun _ ↦ unlock_done hm

theorem sleeps (hm : m ∉ held) (hlt : ∀ n ∈ held, d.order n m) (hasleep : ∀ n ∈ held, d.asleep n)
    (hp : Orderly d (insert m held) p post) (n : ℕ) :
    Orderly d (insert m held) (sleeps m n p) post := by
  induction n with
  | zero => exact hp
  | succ n ih =>
      have hdiff : insert m held \ {m} = held := Set.insert_sdiff_self_of_notMem hm
      refine ⟨Set.mem_insert m held, ?_⟩
      rw [hdiff]
      exact ⟨hasleep, hlt, ih⟩

end Orderly

end Prog

/-! ## Processes -/

/-- Who has a mutex; one that is `lost` was not given back. -/
inductive Owner (π : Type) where
  | nobody
  | process (i : π)
  | lost
  deriving DecidableEq

/-- The owners of the mutexes, and what each process has still to do, `none` outside a program. -/
structure System (π μ α : Type) where
  owner : μ → Owner π
  prog : π → Option (Prog μ α)

inductive Event (π ι : Type) where
  | call (i : π) (op : ι)
  | run (i : π)
  /-- a sleep comes to its end -/
  | wake (i : π)

namespace System

open Relation Runs

def start : System π μ α := ⟨fun _ ↦ .nobody, fun _ ↦ none⟩

def goto [DecidableEq π] (s : System π μ α) (i : π) (p : Prog μ α) : System π μ α :=
  { s with prog := Function.update s.prog i (some p) }

def give [DecidableEq μ] (s : System π μ α) (m : μ) (o : Owner π) : System π μ α :=
  { s with owner := Function.update s.owner m o }

/-- The process returns, and what it has is lost. -/
def leave [DecidableEq π] (s : System π μ α) (i : π) : System π μ α where
  owner := fun m ↦ if s.owner m = .process i then .lost else s.owner m
  prog := Function.update s.prog i none

section

variable [DecidableEq π] [DecidableEq μ]

/-- The next step of a process that does not sleep; `none` waits for a mutex. -/
def run (s : System π μ α) (i : π) : Prog μ α → Option (System π μ α)
  | .done _ => some (s.leave i)
  | .lock m p => if s.owner m = .nobody then some ((s.give m (.process i)).goto i p) else none
  | .unlock m p => if s.owner m = .process i then some ((s.give m .nobody).goto i p) else none
  | .tryLock m busy p =>
    if busy = false ∧ s.owner m = .nobody then some ((s.give m (.process i)).goto i (p true))
    else some (s.goto i (p false))
  | .init m p => if s.owner m = .nobody then some (s.goto i p) else none
  | .sleep _ => none
  | .stop => none

def step (prog : ι → Prog μ α) (s : System π μ α) : Event π ι → Option (System π μ α)
  | .call i op => if (s.prog i).isNone then some (s.goto i (prog op)) else none
  | .run i => (s.prog i).bind (s.run i)
  | .wake i =>
    match s.prog i with
    | some (.sleep p) => some (s.goto i p)
    | _ => none

def CanRun (s : System π μ α) (i : π) : Prop := ((s.prog i).bind (s.run i)).isSome

end

/-- The process can do nothing before it gets the mutex. -/
def Wants (s : System π μ α) (i : π) (m : μ) : Prop :=
  ∃ p, s.prog i = some (.lock m p) ∨ s.prog i = some (.init m p)

/-- The process sleeps until something happens outside. -/
def Asleep (s : System π μ α) (i : π) : Prop :=
  (∃ p, s.prog i = some (.sleep p)) ∨ s.prog i = some .stop

/-- A process waits for another one, or for itself. -/
def WaitsFor (s : System π μ α) (i j : π) : Prop := ∃ m, s.Wants i m ∧ s.owner m = .process j

def owned (s : System π μ α) (i : π) : Set μ := {m | s.owner m = .process i}

/-! ## The invariant -/

structure Inv (d : Discipline μ) (s : System π μ α) : Prop where
  orderly : ∀ i p, s.prog i = some p → p.Orderly d (s.owned i) fun held ↦ ∀ m ∈ held, d.leaks m
  outside : ∀ i, s.prog i = none → ∀ m, s.owner m ≠ .process i
  lost : ∀ m, s.owner m = .lost → d.leaks m

variable {d : Discipline μ} {s t : System π μ α} {i j : π} {m n : μ} {p : Prog μ α} {o : Owner π}

theorem Inv.start : Inv d (start : System π μ α) where
  orderly := fun _ _ h ↦ by cases h
  outside := fun _ _ _ h ↦ by cases h
  lost := fun _ h ↦ by cases h

/-- A process wants a mutex after those it has. -/
theorem Inv.order (h : s.Inv d) (hwants : s.Wants i m) (hmine : s.owner n = .process i) :
    d.order n m := by
  obtain ⟨p, hp | hp⟩ := hwants
  · exact (h.orderly i _ hp).1 n hmine
  · exact (h.orderly i _ hp).1 n hmine

theorem Inv.asleep (h : s.Inv d) (hasleep : s.Asleep i) (hmine : s.owner n = .process i) :
    d.asleep n := by
  rcases hasleep with ⟨p, hp⟩ | hp
  · exact (h.orderly i _ hp).1 n hmine
  · exact h.orderly i _ hp n hmine

theorem Inv.inside (h : s.Inv d) (hmine : s.owner m = .process i) : ∃ p, s.prog i = some p := by
  apply Option.ne_none_iff_exists'.mp
  intro hout
  exact h.outside i hout m hmine

/-- From one waiting process to the next the mutexes go up in the order. -/
theorem Inv.climbs (h : s.Inv d) (hchain : TransGen s.WaitsFor i j) :
    ∃ m n, s.Wants i m ∧ s.owner n = .process j ∧ ReflTransGen d.order m n := by
  induction hchain with
  | single hij =>
      obtain ⟨m, hwants, howner⟩ := hij
      exact ⟨m, m, hwants, howner, .refl⟩
  | tail _ hjk ih =>
      obtain ⟨m, n, hwants, howner, hmn⟩ := ih
      obtain ⟨n', hwants', howner'⟩ := hjk
      exact ⟨m, n', hwants, howner', hmn.tail (h.order hwants' howner)⟩

/-- Nobody waits for himself. -/
theorem Inv.acyclic (h : s.Inv d) (hwf : WellFounded fun m n ↦ d.order n m) :
    ¬TransGen s.WaitsFor i i := by
  intro hcycle
  obtain ⟨m, n, hwants, howner, hmn⟩ := h.climbs hcycle
  have hloop : TransGen d.order n n := .head' (h.order hwants howner) hmn
  exact hwf.transGen.irrefl.irrefl n hloop.swap

section

variable [DecidableEq μ]

theorem owned_take (s : System π μ α) (i : π) (m : μ) :
    (s.give m (.process i)).owned i = insert m (s.owned i) := by
  ext n
  by_cases hn : n = m
  · subst hn
    simp [owned, give]
  · simp [owned, give, hn]

theorem owned_free (s : System π μ α) (i : π) (m : μ) :
    (s.give m .nobody).owned i = s.owned i \ {m} := by
  ext n
  by_cases hn : n = m
  · subst hn
    simp [owned, give]
  · simp [owned, give, hn]

theorem give_owner_iff (hs : s.owner m ≠ .process j) (ho : o ≠ .process j) (n : μ) :
    (s.give m o).owner n = .process j ↔ s.owner n = .process j := by
  by_cases hn : n = m
  · subst hn
    simp [give, hs, ho]
  · simp [give, hn]

theorem give_lost (ho : o ≠ .lost) (h : (s.give m o).owner n = .lost) : s.owner n = .lost := by
  by_cases hn : n = m
  · subst hn
    simp [give, ho] at h
  · simpa [give, hn] using h

end

variable [DecidableEq π]

theorem goto_prog (s : System π μ α) (i : π) (p : Prog μ α) : (s.goto i p).prog i = some p :=
  Function.update_self ..

/-- A process that goes on keeps the invariant if nobody else's mutexes change. -/
theorem Inv.moved (h : s.Inv d) (hprog : t.prog = Function.update s.prog i (some p))
    (hothers : ∀ j ≠ i, ∀ m, t.owner m = .process j ↔ s.owner m = .process j)
    (hlost : ∀ m, t.owner m = .lost → s.owner m = .lost)
    (hp : p.Orderly d (t.owned i) fun held ↦ ∀ m ∈ held, d.leaks m) : t.Inv d := by
  refine ⟨?_, ?_, fun m hm ↦ h.lost m (hlost m hm)⟩
  · intro j q hq
    rw [hprog] at hq
    by_cases hj : j = i
    · subst hj
      rw [Function.update_self] at hq
      obtain rfl := Option.some.inj hq
      exact hp
    · rw [Function.update_of_ne hj] at hq
      have howned : t.owned j = s.owned j := Set.ext (hothers j hj)
      rw [howned]
      exact h.orderly j q hq
  · intro j hj m
    rw [hprog] at hj
    by_cases hji : j = i
    · subst hji
      rw [Function.update_self] at hj
      cases hj
    · rw [Function.update_of_ne hji] at hj
      rw [Ne, hothers j hji m]
      exact h.outside j hj m

theorem Inv.goto (h : s.Inv d)
    (hp : p.Orderly d (s.owned i) fun held ↦ ∀ m ∈ held, d.leaks m) : (s.goto i p).Inv d :=
  h.moved rfl (fun _ _ _ ↦ Iff.rfl) (fun _ ↦ id) hp

theorem leave_owner_iff (s : System π μ α) (i j : π) (m : μ) :
    (s.leave i).owner m = .process j ↔ j ≠ i ∧ s.owner m = .process j := by
  by_cases hm : s.owner m = .process i
  · simp [leave, hm, eq_comm]
  · have howner : (s.leave i).owner m = s.owner m := if_neg hm
    rw [howner]
    refine ⟨fun hj ↦ ⟨?_, hj⟩, And.right⟩
    rintro rfl
    exact hm hj

/-- The process returns. -/
theorem Inv.leave (h : s.Inv d) (hleaks : ∀ m ∈ s.owned i, d.leaks m) : (s.leave i).Inv d := by
  refine ⟨?_, ?_, ?_⟩
  · intro j q hq
    by_cases hj : j = i
    · subst hj
      simp [System.leave] at hq
    · have howned : (s.leave i).owned j = s.owned j := by
        ext m
        exact (s.leave_owner_iff i j m).trans (and_iff_right hj)
      rw [howned]
      exact h.orderly j q (by simpa [System.leave, hj] using hq)
  · intro j hj m hm
    obtain ⟨hne, hm⟩ := (s.leave_owner_iff i j m).mp hm
    exact h.outside j (by simpa [System.leave, hne] using hj) m hm
  · intro m hm
    by_cases hmine : s.owner m = .process i
    · exact hleaks m hmine
    · have howner : (s.leave i).owner m = s.owner m := if_neg hmine
      exact h.lost m (howner ▸ hm)

variable [DecidableEq μ]

/-- The process takes a free mutex. -/
theorem Inv.take (h : s.Inv d) (hfree : s.owner m = .nobody)
    (hp : p.Orderly d (insert m (s.owned i)) fun held ↦ ∀ m ∈ held, d.leaks m) :
    ((s.give m (.process i)).goto i p).Inv d := by
  refine h.moved rfl ?_ ?_ ?_
  · intro j hj n
    exact give_owner_iff (by simp [hfree]) (by simp [Ne.symm hj]) n
  · intro n hn
    exact give_lost (by simp) hn
  · change p.Orderly d ((s.give m (.process i)).owned i) _
    rwa [owned_take]

/-- The process gives a mutex back. -/
theorem Inv.free (h : s.Inv d) (hmine : s.owner m = .process i)
    (hp : p.Orderly d (s.owned i \ {m}) fun held ↦ ∀ m ∈ held, d.leaks m) :
    ((s.give m .nobody).goto i p).Inv d := by
  refine h.moved rfl ?_ ?_ ?_
  · intro j hj n
    exact give_owner_iff (by simp [hmine, Ne.symm hj]) (by simp) n
  · intro n hn
    exact give_lost (by simp) hn
  · change p.Orderly d ((s.give m .nobody).owned i) _
    rwa [owned_free]

theorem Inv.run (h : s.Inv d) (hp : s.prog i = some p) (hrun : s.run i p = some t) : t.Inv d := by
  have horder := h.orderly i p hp
  cases p with
  | done a =>
      obtain rfl := Option.some.inj hrun
      exact h.leave horder
  | lock m p =>
      simp only [System.run] at hrun
      split_ifs at hrun with hfree
      obtain rfl := Option.some.inj hrun
      exact h.take hfree horder.2
  | unlock m p =>
      simp only [System.run] at hrun
      split_ifs at hrun with hmine
      obtain rfl := Option.some.inj hrun
      exact h.free hmine horder.2
  | tryLock m busy p =>
      simp only [System.run] at hrun
      split_ifs at hrun with hfree
      · obtain rfl := Option.some.inj hrun
        exact h.take hfree.2 horder.2
      · obtain rfl := Option.some.inj hrun
        exact h.goto horder.1
  | init m p =>
      simp only [System.run] at hrun
      split_ifs at hrun with hfree
      obtain rfl := Option.some.inj hrun
      exact h.goto horder.2
  | sleep p => cases hrun
  | stop => cases hrun

theorem Inv.step {prog : ι → Prog μ α} {e : Event π ι} (h : s.Inv d)
    (hprog : ∀ i op, e = .call i op → (prog op).Orderly d ∅ fun held ↦ ∀ m ∈ held, d.leaks m)
    (hstep : step prog s e = some t) : t.Inv d := by
  cases e with
  | call i op =>
      simp only [System.step] at hstep
      split_ifs at hstep with hout
      obtain rfl := Option.some.inj hstep
      have howned : s.owned i = ∅ :=
        Set.eq_empty_of_forall_notMem (h.outside i (Option.isNone_iff_eq_none.mp hout))
      apply h.goto
      rw [howned]
      exact hprog i op rfl
  | run i =>
      obtain ⟨p, hp, hrun⟩ := Option.bind_eq_some_iff.mp hstep
      exact h.run hp hrun
  | wake i =>
      simp only [System.step] at hstep
      cases hp : s.prog i with
      | none =>
          rw [hp] at hstep
          cases hstep
      | some p =>
          rw [hp] at hstep
          cases p with
          | sleep p =>
              obtain rfl := Option.some.inj hstep
              exact h.goto (h.orderly i _ hp).2
          | _ => cases hstep

theorem Inv.steps {prog : ι → Prog μ α} {es : List (Event π ι)} (h : s.Inv d)
    (hprog : ∀ i op, .call i op ∈ es →
      (prog op).Orderly d ∅ fun held ↦ ∀ m ∈ held, d.leaks m)
    (hrun : Steps (System.step prog) anyStep s es t) : t.Inv d := by
  induction hrun with
  | nil => exact h
  | cons _ hstep _ ih =>
      refine ih (h.step ?_ hstep) fun i op hmem ↦ hprog i op (List.mem_cons_of_mem _ hmem)
      rintro i op rfl
      exact hprog i op List.mem_cons_self

/-! ## Who waits, and for whom -/

/-- A process that can do nothing wants a mutex that somebody has. -/
theorem Inv.canRun_or (h : s.Inv d) (hp : s.prog i = some p) :
    s.CanRun i ∨ s.Asleep i ∨ ∃ m, s.Wants i m ∧ s.owner m ≠ .nobody := by
  unfold CanRun
  rw [hp, Option.bind_some]
  cases p with
  | done a => exact .inl rfl
  | lock m p =>
      by_cases hfree : s.owner m = .nobody
      · exact .inl (by simp [System.run, hfree])
      · exact .inr (.inr ⟨m, ⟨p, .inl hp⟩, hfree⟩)
  | unlock m p =>
      have hmine : s.owner m = .process i := (h.orderly i _ hp).1
      exact .inl (by simp [System.run, hmine])
  | tryLock m busy p =>
      refine .inl ?_
      simp only [System.run]
      split_ifs <;> rfl
  | init m p =>
      by_cases hfree : s.owner m = .nobody
      · exact .inl (by simp [System.run, hfree])
      · exact .inr (.inr ⟨m, ⟨p, .inr hp⟩, hfree⟩)
  | sleep p => exact .inr (.inl (.inl ⟨p, hp⟩))
  | stop => exact .inr (.inl (.inr hp))

section

variable (hwf : WellFounded fun m n ↦ d.order n m) (hleaf : ∀ m n, d.leaks m → ¬d.order n m)

include hwf hleaf

/-- Behind the owner of a mutex there is a process that can go on or sleeps. -/
theorem Inv.owner_live (h : s.Inv d) (howner : s.owner m = .process j) :
    ∃ k n, ReflTransGen s.WaitsFor j k ∧ ReflTransGen d.order m n ∧ s.owner n = .process k ∧
      (s.CanRun k ∨ s.Asleep k ∧ d.asleep n) := by
  induction m using hwf.induction generalizing j with
  | _ m ih =>
      obtain ⟨p, hp⟩ := h.inside howner
      rcases h.canRun_or hp with hrun | hasleep | ⟨n, hwants, hbusy⟩
      · exact ⟨j, m, .refl, .refl, howner, .inl hrun⟩
      · exact ⟨j, m, .refl, .refl, howner, .inr ⟨hasleep, h.asleep hasleep howner⟩⟩
      · have hmn := h.order hwants howner
        cases hn : s.owner n with
        | nobody => exact absurd hn hbusy
        | lost => exact absurd hmn (hleaf n m (h.lost n hn))
        | process k =>
            obtain ⟨k', n', hchain, hup, howner', hlive⟩ := ih n hmn hn
            exact ⟨k', n', .head ⟨n, hwants, hn⟩ hchain, .head hmn hup, howner', hlive⟩

/-- **A process that waits for a mutex** waits, through others, for a process that can go on or
sleeps, or else the mutex was not given back, and then the process has none itself. -/
theorem Inv.waits (h : s.Inv d) (hwants : s.Wants i m) (hbusy : s.owner m ≠ .nobody) :
    (s.owner m = .lost ∧ d.leaks m ∧ s.owned i = ∅) ∨
      ∃ k n, TransGen s.WaitsFor i k ∧ ReflTransGen d.order m n ∧ s.owner n = .process k ∧
        (s.CanRun k ∨ s.Asleep k ∧ d.asleep n) := by
  cases hm : s.owner m with
  | nobody => exact absurd hm hbusy
  | lost =>
      have hleaks := h.lost m hm
      refine .inl ⟨rfl, hleaks, Set.eq_empty_of_forall_notMem fun n hn ↦ ?_⟩
      exact hleaf m n hleaks (h.order hwants hn)
  | process j =>
      obtain ⟨k, n, hchain, hup, howner, hlive⟩ := h.owner_live hwf hleaf hm
      exact .inr ⟨k, n, .head' ⟨m, hwants, hm⟩ hchain, hup, howner, hlive⟩

end

/-! ## A process on its own -/

def locks (s : System π μ α) : Locks μ := fun m ↦ s.owner m ≠ .nobody

/-- The process has come to the end that a run on its own has. -/
def Shows (s : System π μ α) (i : π) : Except (Stuck μ) (α × Locks μ) → Prop
  | .ok (a, l) => s.prog i = some (.done a) ∧ s.locks = l
  | .error (.held m) => s.Wants i m ∧ s.owner m ≠ .nobody
  | .error (.notHeld _) => False
  | .error .waiting => s.prog i = some .stop

theorem locks_give (s : System π μ α) (m : μ) (o : Owner π) :
    (s.give m o).locks = Function.update s.locks m (o ≠ .nobody) := by
  funext n
  by_cases hn : n = m
  · subst hn
    simp [locks, give]
  · simp [locks, give, hn]

/-- Steps of the process alone lead to the end `r`. -/
def Alone (prog : ι → Prog μ α) (s : System π μ α) (i : π)
    (r : Except (Stuck μ) (α × Locks μ)) : Prop :=
  ∃ es t, (∀ e ∈ es, e = .run i ∨ e = .wake i) ∧ Steps (step prog) anyStep s es t ∧ t.Shows i r

variable {prog : ι → Prog μ α} {r : Except (Stuck μ) (α × Locks μ)}

theorem Alone.here (h : s.Shows i r) : Alone prog s i r :=
  ⟨[], s, by simp, .nil s, h⟩

theorem Alone.run (hp : s.prog i = some p) (hrun : s.run i p = some t) (h : Alone prog t i r) :
    Alone prog s i r := by
  obtain ⟨es, t', hmine, hsteps, hshows⟩ := h
  have hstep : step prog s (.run i) = some t := by
    rw [System.step, hp]
    exact hrun
  exact ⟨_, t', List.forall_mem_cons.mpr ⟨.inl rfl, hmine⟩, .cons trivial hstep hsteps, hshows⟩

theorem Alone.wake (hp : s.prog i = some (.sleep p)) (h : Alone prog (s.goto i p) i r) :
    Alone prog s i r := by
  obtain ⟨es, t', hmine, hsteps, hshows⟩ := h
  have hstep : step prog s (.wake i) = some (s.goto i p) := by
    rw [System.step, hp]
  exact ⟨_, t', List.forall_mem_cons.mpr ⟨.inr rfl, hmine⟩, .cons trivial hstep hsteps, hshows⟩

/-- A process that nobody disturbs does what `denote` says. -/
theorem Inv.alone (h : s.Inv d) (hp : s.prog i = some p) :
    Alone prog s i (p.denote s.locks) := by
  induction p generalizing s with
  | done a => exact .here ⟨hp, rfl⟩
  | lock m p ih =>
      by_cases hfree : s.owner m = .nobody
      · have hrun : s.run i (.lock m p) = some ((s.give m (.process i)).goto i p) := if_pos hfree
        have hlocks : s.locks m = false := by simp [locks, hfree]
        have hnext := ih (h.run hp hrun) (goto_prog ..)
        change Alone prog _ i (p.denote (s.give m (.process i)).locks) at hnext
        rw [locks_give] at hnext
        rw [Prog.denote, run_lock_bind hlocks]
        exact hnext.run hp hrun
      · have hlocks : Locking.lock m s.locks = .error (.held m) := by
          simp [Locking.lock, locks, hfree]
        rw [Prog.denote, run_bind_error hlocks]
        exact .here ⟨⟨p, .inl hp⟩, hfree⟩
  | unlock m p ih =>
      have hmine : s.owner m = .process i := (h.orderly i _ hp).1
      have hrun : s.run i (.unlock m p) = some ((s.give m .nobody).goto i p) := if_pos hmine
      have hlocks : Locking.unlock m s.locks = .ok ((), Function.update s.locks m false) := by
        simp [Locking.unlock, locks, hmine]
      have hnext := ih (h.run hp hrun) (goto_prog ..)
      change Alone prog _ i (p.denote (s.give m .nobody).locks) at hnext
      rw [locks_give] at hnext
      rw [Prog.denote, run_bind_ok hlocks]
      exact hnext.run hp hrun
  | tryLock m busy p ih =>
      by_cases hfree : busy = false ∧ s.owner m = .nobody
      · have hrun : s.run i (.tryLock m busy p) =
            some ((s.give m (.process i)).goto i (p true)) := if_pos hfree
        have hlocks : Locking.tryLock m busy s.locks =
            .ok (true, Function.update s.locks m true) := by
          simp [Locking.tryLock, locks, hfree]
        have hnext := ih true (h.run hp hrun) (goto_prog ..)
        change Alone prog _ i ((p true).denote (s.give m (.process i)).locks) at hnext
        rw [locks_give] at hnext
        rw [Prog.denote, run_bind_ok hlocks]
        exact hnext.run hp hrun
      · have hrun : s.run i (.tryLock m busy p) = some (s.goto i (p false)) := if_neg hfree
        have hlocks : Locking.tryLock m busy s.locks = .ok (false, s.locks) := by
          cases busy with
          | true => simp [Locking.tryLock]
          | false =>
              have hbusy : s.owner m ≠ .nobody := fun hm ↦ hfree ⟨rfl, hm⟩
              simp [Locking.tryLock, locks, hbusy]
        rw [Prog.denote, run_bind_ok hlocks]
        exact (ih false (h.run hp hrun) (goto_prog ..)).run hp hrun
  | init m p ih =>
      by_cases hfree : s.owner m = .nobody
      · have hrun : s.run i (.init m p) = some (s.goto i p) := if_pos hfree
        have hlocks : Locking.init m s.locks = .ok ((), s.locks) := by
          simp [Locking.init, locks, hfree]
        rw [Prog.denote, run_bind_ok hlocks]
        exact (ih (h.run hp hrun) (goto_prog ..)).run hp hrun
      · have hlocks : Locking.init m s.locks = .error (.held m) := by
          simp [Locking.init, locks, hfree]
        rw [Prog.denote, run_bind_error hlocks]
        exact .here ⟨⟨p, .inr hp⟩, hfree⟩
  | sleep p ih => exact (ih (h.goto (h.orderly i _ hp).2) (goto_prog ..)).wake hp
  | stop => exact .here hp

end System

end Locking
