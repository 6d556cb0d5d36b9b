import Mathlib.Logic.Function.Basic

/-!
# Sleeping on a wait queue

A task that waits for a condition marks itself as not runnable, looks at the condition, and only
then goes to sleep.  Who makes the condition true wakes the tasks afterwards.  As long as both keep
to their order, no task sleeps while its condition holds, unless its wake-up is still to come.
-/

namespace WaitQueue

/-- `looked p` tells that the task has found the condition false and not come back from its sleep;
`due` that the condition was made true and the tasks were not yet woken. -/
structure Tasks (ι : Type*) where
  looked : ι → Bool
  runnable : ι → Bool
  due : Bool

namespace Tasks

variable {ι : Type*} {w : Tasks ι} {ready ready' : Prop} {p : ι}

def start : Tasks ι := ⟨fun _ ↦ false, fun _ ↦ true, false⟩

def produce (w : Tasks ι) : Tasks ι := { w with due := true }

def wake (w : Tasks ι) : Tasks ι := { w with runnable := fun _ ↦ true, due := false }

/-- A task that sleeps while the condition holds is going to be woken. -/
def Attentive (ready : Prop) (w : Tasks ι) : Prop :=
  ∀ p, w.looked p = true → w.runnable p = false → ready → w.due = true

theorem Attentive.start : Attentive ready (start : Tasks ι) := fun _ h ↦ absurd h Bool.false_ne_true

/-- The condition may become false at any time. -/
theorem Attentive.mono (h : Attentive ready w) (himp : ready' → ready) : Attentive ready' w :=
  fun p hlooked hasleep hready ↦ h p hlooked hasleep (himp hready)

/-- The condition is made true only with a wake-up to come. -/
theorem Attentive.produce : Attentive ready w.produce := fun _ _ _ _ ↦ rfl

theorem Attentive.wake : Attentive ready w.wake :=
  fun _ _ hasleep _ ↦ absurd hasleep.symm Bool.false_ne_true

variable [DecidableEq ι]

def mark (w : Tasks ι) (p : ι) : Tasks ι :=
  { w with runnable := Function.update w.runnable p false }

/-- The task finds the condition false. -/
def look (w : Tasks ι) (p : ι) : Tasks ι := { w with looked := Function.update w.looked p true }

/-- The task finds the condition true, or leaves its sleep. -/
def back (w : Tasks ι) (p : ι) : Tasks ι where
  looked := Function.update w.looked p false
  runnable := Function.update w.runnable p true
  due := w.due

/-- A task marks itself before it looks. -/
theorem Attentive.mark (h : Attentive ready w) (hp : w.looked p = false) :
    Attentive ready (w.mark p) := by
  intro r hlooked hasleep hready
  change w.looked r = true at hlooked
  change Function.update w.runnable p false r = false at hasleep
  by_cases hr : r = p
  · subst hr
    rw [hp] at hlooked
    cases hlooked
  · rw [Function.update_of_ne hr] at hasleep
    exact h r hlooked hasleep hready

theorem Attentive.look (hready : ¬ready) : Attentive ready (w.look p) :=
  fun _ _ _ h ↦ absurd h hready

theorem Attentive.back (h : Attentive ready w) : Attentive ready (w.back p) := by
  intro r hlooked hasleep hready
  change Function.update w.looked p false r = true at hlooked
  change Function.update w.runnable p true r = false at hasleep
  by_cases hr : r = p
  · subst hr
    rw [Function.update_self] at hlooked
    cases hlooked
  · rw [Function.update_of_ne hr] at hlooked hasleep
    exact h r hlooked hasleep hready

end Tasks

end WaitQueue
