import LiberaBase.UBoot.Environment

/-!
# Looking up a variable

With an argument `readenv` prints the value of one variable.  It goes through the environment once,
and compares a string with the name of the variable while it reads it.
-/

namespace LiberaBase

namespace UBoot

open Ascii

/-- The strings before the first empty one.  The end of the input ends a string as well. -/
def keptStrings (input : List Byte) : List (List Byte) := (input.splitOn 0).takeWhile (· ≠ [])

/-- What follows `v=` in the first string that begins with it. -/
def lookupVariable (v : List Byte) (strings : List (List Byte)) : Option (List Byte) :=
  (strings.find? fun string ↦ (v ++ [equals]).isPrefixOf string).map (List.drop (v.length + 1))

/-- The output and the exit status for the result of a search. -/
def answer : Option (List Byte) → List Byte × ℤ
  | some value => (value, 0)
  | none => ([], 1)

variable {keyword word string tail : List Byte} {eos : Bool}

/-- What is left of the input when a string has been read: its NUL and what follows, or nothing. -/
def EndsString (tail : List Byte) : Prop := ∀ c ∈ tail.head?, c = 0

/-- What becomes of a search when the string at hand is not the one, and was not empty. -/
def nextString (keyword : List Byte) : List Byte → List Byte × ℤ
  | [] => ([], 1)
  | _ :: input => readenvLoop keyword true false true true keyword input

theorem EndsString.cases (h : EndsString tail) : tail = [] ∨ ∃ input, tail = 0 :: input := by
  cases tail with
  | nil => exact .inl rfl
  | cons c input => exact .inr ⟨input, by rw [h c rfl]⟩

/-! ## One character -/

section

variable {c : Byte} {matched printing : Bool} {input : List Byte}

theorem readenvLoop_unmatched (hc : c ≠ 0) :
    readenvLoop keyword true printing false eos word (c :: input) =
      let (out, status) := readenvLoop keyword true printing false false word input
      (if printing then c :: out else out, status) := by
  cases word <;> rw [readenvLoop, if_neg hc] <;> rfl

theorem readenvLoop_equals (hc : c ≠ 0) :
    readenvLoop keyword true false true eos [] (c :: input) =
      readenvLoop keyword true (decide (c = equals)) false false [] input := by
  rw [readenvLoop, if_neg hc]
  rfl

theorem readenvLoop_char (hc : c ≠ 0) (w : Byte) (ws : List Byte) :
    readenvLoop keyword true false true eos (w :: ws) (c :: input) =
      readenvLoop keyword true false (decide (c = w)) false ws input := by
  rw [readenvLoop, if_neg hc]
  rfl

end

/-! ## One string -/

/-- Once the name has been found the rest of the string is printed. -/
theorem readenvLoop_value (hstring : 0 ∉ string) (htail : EndsString tail) :
    readenvLoop keyword true true false eos word (string ++ tail) = (string, 0) := by
  induction string generalizing eos with
  | nil => rcases htail.cases with rfl | ⟨input, rfl⟩ <;> cases word <;> rfl
  | cons c string ih =>
      obtain ⟨hc, hstring⟩ := not_or.mp (mt List.mem_cons.mpr hstring)
      rw [List.cons_append, readenvLoop_unmatched (Ne.symm hc), ih hstring]
      rfl

/-- Once the name has been missed the rest of the string is passed over. -/
theorem readenvLoop_skip (hstring : 0 ∉ string) (htail : EndsString tail) :
    readenvLoop keyword true false false false word (string ++ tail) = nextString keyword tail := by
  induction string with
  | nil => rcases htail.cases with rfl | ⟨input, rfl⟩ <;> cases word <;> rfl
  | cons c string ih =>
      obtain ⟨hc, hstring⟩ := not_or.mp (mt List.mem_cons.mpr hstring)
      rw [List.cons_append, readenvLoop_unmatched (Ne.symm hc), ih hstring]
      rfl

/-- The comparison of a string with what is left of the name. -/
theorem readenvLoop_match (hstring : 0 ∉ string) (hsome : string = [] → eos = false)
    (htail : EndsString tail) : readenvLoop keyword true false true eos word (string ++ tail) =
      if (word ++ [equals]).isPrefixOf string then (string.drop (word.length + 1), 0)
      else nextString keyword tail := by
  induction string generalizing word eos with
  | nil =>
      rw [if_neg (by simp), hsome rfl]
      rcases htail.cases with rfl | ⟨input, rfl⟩ <;> cases word <;> rfl
  | cons c string ih =>
      obtain ⟨hc, hstring⟩ := not_or.mp (mt List.mem_cons.mpr hstring)
      rw [List.cons_append]
      cases word with
      | nil =>
          rw [readenvLoop_equals (Ne.symm hc)]
          by_cases hequals : c = equals
          · simp [hequals, readenvLoop_value hstring htail]
          · simp [hequals, Ne.symm hequals, readenvLoop_skip hstring htail]
      | cons w word =>
          rw [readenvLoop_char (Ne.symm hc)]
          by_cases hw : c = w
          · simp only [hw, decide_true, ih hstring fun _ ↦ rfl]
            simp
          · simp [hw, Ne.symm hw, readenvLoop_skip hstring htail]

/-! ## All strings -/

theorem lookupVariable_cons (v string : List Byte) (strings : List (List Byte)) :
    lookupVariable v (string :: strings) =
      if (v ++ [equals]).isPrefixOf string then some (string.drop (v.length + 1))
      else lookupVariable v strings := by
  rw [lookupVariable, List.find?_cons]
  split <;> simp_all [lookupVariable]

theorem not_mem_of_mem_splitOn {piece input : List Byte} (h : piece ∈ input.splitOn 0) :
    0 ∉ piece := by
  induction input generalizing piece with
  | nil => simp_all
  | cons c input ih =>
      rw [List.splitOn_cons_eq_if_modifyHead] at h
      split at h
      · rcases List.mem_cons.mp h with rfl | h
        · exact List.not_mem_nil
        · exact ih h
      · next hc =>
        obtain ⟨first, rest, hsplit⟩ := List.exists_cons_of_ne_nil (List.splitOn_ne_nil 0 input)
        rw [hsplit, List.modifyHead_cons] at h
        rcases List.mem_cons.mp h with rfl | h
        · have hfirst := ih (hsplit ▸ List.mem_cons_self)
          simp_all [Ne.symm]
        · exact ih (hsplit ▸ List.mem_cons_of_mem _ h)

/-- The search, string by string. -/
theorem readenvLoop_pieces (keyword : List Byte) (pieces : List (List Byte))
    (hpieces : ∀ piece ∈ pieces, 0 ∉ piece) (hsome : pieces ≠ []) :
    readenvLoop keyword true false true true keyword (List.intercalate [0] pieces) =
      answer (lookupVariable keyword (pieces.takeWhile (· ≠ []))) := by
  induction pieces with
  | nil => exact absurd rfl hsome
  | cons string pieces ih =>
      have hstring := hpieces string List.mem_cons_self
      have hrest := ih fun piece hpiece ↦ hpieces piece (List.mem_cons_of_mem _ hpiece)
      obtain ⟨tail, htail, hinput, hnext⟩ : ∃ tail, EndsString tail ∧
          List.intercalate [0] (string :: pieces) = string ++ tail ∧
          nextString keyword tail =
            answer (lookupVariable keyword (pieces.takeWhile (· ≠ []))) := by
        cases pieces with
        | nil => exact ⟨[], by simp [EndsString], by simp, rfl⟩
        | cons string' pieces =>
            refine ⟨0 :: List.intercalate [0] (string' :: pieces), by simp [EndsString], ?_,
              hrest (List.cons_ne_nil _ _)⟩
            rw [List.intercalate_cons_cons, List.append_assoc, List.singleton_append]
      rw [hinput]
      by_cases hempty : string = []
      · rw [hempty]
        rcases htail.cases with rfl | ⟨input, rfl⟩ <;> rfl
      · rw [readenvLoop_match hstring (fun h ↦ absurd h hempty) htail, hnext,
          List.takeWhile_cons_of_pos (by simpa using hempty), lookupVariable_cons]
        split <;> rfl

/-- **`readenv` looks up a variable**: it prints what follows the name and `=` in the first string
that begins so, of those before the first empty one. -/
theorem readenv_lookup (v input : List Byte) :
    readenv [v] input = answer (lookupVariable v (keptStrings (input.drop 4))) := by
  have hsearch := readenvLoop_pieces v ((input.drop 4).splitOn 0)
    (fun _ ↦ not_mem_of_mem_splitOn) (List.splitOn_ne_nil _ _)
  rwa [List.intercalate_splitOn] at hsearch

end UBoot

end LiberaBase
