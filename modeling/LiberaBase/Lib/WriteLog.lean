import Mathlib.Data.List.Basic

/-!
# The last of the writes

Registers that keep what is written to them hold, at each address, the last value written there.
-/

namespace WriteLog

variable {α β : Type*} [DecidableEq α] {log new : List (α × β)} {a : α}

/-- The last value in the log, oldest first, at an address. -/
def last (log : List (α × β)) (a : α) : Option β := log.reverse.lookup a

theorem last_append (log new : List (α × β)) (a : α) :
    last (log ++ new) a = (last new a).or (last log a) := by
  rw [last, List.reverse_append, List.lookup_append]
  rfl

theorem last_eq_none (h : ∀ w ∈ new, w.1 ≠ a) : last new a = none :=
  List.lookup_eq_none_iff.mpr fun w hw ↦
    bne_iff_ne.mpr (Ne.symm (h w (List.mem_reverse.mp hw)))

theorem last_append_of_ne (h : ∀ w ∈ new, w.1 ≠ a) : last (log ++ new) a = last log a := by
  rw [last_append, last_eq_none h, Option.none_or]

@[simp] theorem last_concat_self (log : List (α × β)) (a : α) (b : β) :
    last (log ++ [(a, b)]) a = some b := by
  rw [last_append, last, List.reverse_singleton, List.lookup_cons_self, Option.some_or]

end WriteLog
