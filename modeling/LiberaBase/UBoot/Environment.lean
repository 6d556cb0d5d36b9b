import LiberaBase.Lib.Ascii
import LiberaBase.Kernel.Types
import Mathlib.Algebra.BigOperators.Group.List.Basic
import Mathlib.Algebra.Order.Group.Nat
import Mathlib.Data.List.TakeWhile

/-!
# The environment of u-boot

`makeenv` reads lines and writes them as an environment block: a checksum, the lines as strings one
after the other, an empty string behind the last one, and what is left of the block.  `readenv`
reads such a block and prints its strings as lines.
-/

namespace LiberaBase

namespace UBoot

open Ascii

abbrev Byte := BitVec 8

/-- `Fail`, with the format of its message; or the program does what C does not define, or does not
end. -/
inductive Failure where
  | fail (message : String)
  | undefined

/-! ## `makeenv` -/

def maxLine : ℕ := 1024

/-- `fgets`, for a buffer of one more character than `n`. -/
def fgetsLoop : ℕ → List Byte → List Byte × List Byte
  | 0, input => ([], input)
  | _ + 1, [] => ([], [])
  | n + 1, c :: cs =>
    if c = newline then ([c], cs)
    else
      let (line, rest) := fgetsLoop n cs
      (c :: line, rest)

/-- `fgets(Line, MAX_LINE, stdin)`; `none` is the end of the file. -/
def fgets (input : List Byte) : Option (List Byte × List Byte) :=
  if input.isEmpty = true then none else some (fgetsLoop (maxLine - 1) input)

/-- A `memcpy` into the block. -/
def store (block : List Byte) (ptr : ℕ) (bytes : List Byte) : Except Failure (List Byte) :=
  if ptr + bytes.length ≤ block.length then
    .ok (block.take ptr ++ bytes ++ block.drop (ptr + bytes.length))
  else .error .undefined

/-- What the loop of `LoadBlock` copies of a line: the line without its newline, and a NUL. -/
def loadLine (buffer : List Byte) (freeSpace : ℤ) : Except Failure (List Byte) :=
  -- what `strlen` and the functions of strings see of the buffer
  let line := buffer.takeWhile (· ≠ 0)
  match line.getLast? with
  | none => .error .undefined
  | some c =>
    if c ≠ newline ∧ line.length = maxLine - 1 then
      .error (.fail "Line starting \"%.40s...\" too long\n")
    else
      let string := if c = newline then line.dropLast else line
      if equals ∉ string then .error (.fail "No = in line \"%s\"\n")
      else if freeSpace < string.length + 1 + 1 then
        .error (.fail "No room left in environment\n")
      else .ok (string ++ [0])

/-- `LoadBlock`; `FreeSpace` stays what it is.  `fuel` bounds the lines. -/
def loadBlock (freeSpace : ℤ) :
    ℕ → List Byte → ℕ → List Byte → Except Failure (List Byte)
  | 0, _, _, _ => .error .undefined
  | fuel + 1, block, ptr, input =>
    match fgets input with
    | none => store block ptr [0]
    | some (buffer, input) => do
      let string ← loadLine buffer freeSpace
      let block ← store block ptr string
      loadBlock freeSpace fuel block (ptr + string.length) input

/-- `WriteBlock`: what is written in the end.  `write k n` is the result of the call `k` of
`write`, with `n` bytes to be written.  The fuel is the size of the block: every call that writes
something is allowed for, and a `write` that returns 0 so often that the fuel runs out counts as one
that does not end. -/
def writeBlock (write : ℕ → ℕ → ℤ) : ℕ → ℕ → List Byte → Except Failure (List Byte)
  | _, _, [] => .ok []
  | 0, _, _ :: _ => .error .undefined
  | fuel + 1, k, block =>
    let written := write k block.length
    if written = -1 then .error (.fail "Problem writing output\n")
    else do
      let rest ← writeBlock write fuel (k + 1) (block.drop written.toNat)
      .ok (block.take written.toNat ++ rest)

/-- `strtol` in base 16: the value, and what `end` points at. -/
def strtol16 (arg : List Byte) : ℤ × List Byte :=
  let s := arg.dropWhile isSpace
  let negative := s.head? = some minus
  let s := if s.head? = some plus ∨ negative then s.tail else s
  let s := if s.head? = some zero ∧ (s.tail.head?.map isX).getD false = true ∧
      (s.tail.tail.head?.bind hexDigit).isSome = true then s.tail.tail else s
  let digits := s.takeWhile fun c ↦ (hexDigit c).isSome
  if digits.isEmpty = true then (0, arg)
  else
    let value : ℤ := digits.foldl (fun v c ↦ 16 * v + (hexDigit c).getD 0) 0
    let value := if negative then -value else value
    (max (-2 ^ 31) (min (2 ^ 31 - 1) value), s.drop digits.length)

def readHex (arg : List Byte) : Except Failure ℤ :=
  let (result, rest) := strtol16 arg
  if rest = arg ∨ rest ≠ [] then
    .error (.fail "Invalid argument: \"%s\" is not a hex number\n")
  else .ok result

/-- What `main` makes of its arguments: `BlockSize` and `EnvSize`. -/
def readSizes (args : List (List Byte)) : Except Failure (ℤ × ℤ) :=
  match args with
  | [block] => do
    let blockSize ← readHex block
    .ok (blockSize, blockSize)
  | [block, env] => do
    let blockSize ← readHex block
    let envSize ← readHex env
    if blockSize < envSize then .error (.fail "Environment doesn't fit in block!\n")
    else .ok (blockSize, envSize)
  | _ => .error (.fail "Usage: makeenv $block_size [$env_size] <params >block\n")

def longBytes (x : U32) : List Byte := (List.range 4).map fun i ↦ x.extractLsb' (8 * i) 8

/-- `main` of `makeenv`: what it writes to its output. -/
def makeenv (crc32 : U32 → List Byte → U32) (write : ℕ → ℕ → ℤ) (args : List (List Byte))
    (input : List Byte) : Except Failure (List Byte) := do
  let (blockSize, envSize) ← readSizes args
  if envSize < 0 then .error .undefined
  else
    let block := List.replicate envSize.toNat 0 ++ List.replicate (blockSize - envSize).toNat 0xff
    let block ← loadBlock (envSize - 4) (input.length + 1) block 4 input
    if envSize < 4 then .error .undefined
    else
      let sum := crc32 0 ((block.drop 4).take (envSize - 4).toNat)
      let block ← store block 0 (longBytes sum)
      writeBlock write blockSize.toNat 0 block

/-! ## `readenv` -/

/-- The loop of `main` of `readenv`: what it prints, and the exit status.  `keyword` is
`argv[1]`. -/
def readenvLoop (keyword : List Byte) (searching : Bool) :
    Bool → Bool → Bool → List Byte → List Byte → List Byte × ℤ
  | printing, _, _, _, [] => ([], if printing then 0 else 1)
  | printing, matched, eos, word, ch :: input =>
    if ch = 0 then
      if searching = true ∧ printing = true then ([], 0)
      else if eos = true then ([], if printing then 0 else 1)
      else
        let (out, status) := readenvLoop keyword searching printing searching true keyword input
        (if printing then newline :: out else out, status)
    else
      let (printing', matched', word') :=
        if matched = true then
          match word with
          | [] => (decide (ch = equals), false, word)
          | w :: ws => (printing, decide (ch = w), ws)
        else (printing, matched, word)
      let (out, status) := readenvLoop keyword searching printing' matched' false word' input
      (if printing then ch :: out else out, status)

/-- `main` of `readenv`: what it prints, and the exit status. -/
def readenv (args : List (List Byte)) (input : List Byte) : List Byte × ℤ :=
  let input := input.drop 4
  match args with
  | [] => readenvLoop [] false true false true [] input
  | [keyword] => readenvLoop keyword true false true true keyword input
  | _ => ([], 2)

/-! ## Lines -/

structure EnvLine (line : List Byte) : Prop where
  sets : equals ∈ line
  no_nul : 0 ∉ line
  no_newline : newline ∉ line
  length_le : line.length ≤ 1022

/-- The text of some lines, the last one with its newline or without. -/
inductive EnvText : List (List Byte) → List Byte → Prop
  | nil : EnvText [] []
  | last (line : List Byte) : EnvText [line] line
  | cons (line : List Byte) {lines : List (List Byte)} {input : List Byte} (h : EnvText lines input) :
      EnvText (line :: lines) (line ++ newline :: input)

def strings (lines : List (List Byte)) : List Byte := lines.flatMap fun line ↦ line ++ [0]

def printed (lines : List (List Byte)) : List Byte := lines.flatMap fun line ↦ line ++ [newline]

theorem EnvText.length_le {lines : List (List Byte)} {input : List Byte} (h : EnvText lines input)
    (hlines : ∀ line ∈ lines, EnvLine line) : lines.length ≤ input.length := by
  induction h with
  | nil => exact le_rfl
  | last line => exact List.length_pos_of_mem (hlines line List.mem_cons_self).sets
  | cons line h ih =>
      have := ih fun l hl ↦ hlines l (List.mem_cons_of_mem _ hl)
      simp only [List.length_cons, List.length_append]
      omega

variable {line pre old post input rest : List Byte} {lines : List (List Byte)} {freeSpace : ℤ}

theorem EnvLine.ne_nil (h : EnvLine line) : line ≠ [] := List.ne_nil_of_mem h.sets

theorem fgetsLoop_newline {n : ℕ} (hline : newline ∉ line) (hlen : line.length < n)
    (rest : List Byte) : fgetsLoop n (line ++ newline :: rest) = (line ++ [newline], rest) := by
  induction line generalizing n with
  | nil =>
      obtain ⟨n, rfl⟩ := Nat.exists_eq_add_one.mpr hlen
      simp [fgetsLoop]
  | cons c line ih =>
      obtain ⟨hc, hline⟩ := not_or.mp (mt List.mem_cons.mpr hline)
      obtain ⟨n, rfl⟩ := Nat.exists_eq_add_one.mpr (Nat.zero_lt_of_lt hlen)
      rw [List.cons_append, fgetsLoop, if_neg (Ne.symm hc), ih hline (Nat.lt_of_succ_lt_succ hlen)]
      rfl

theorem fgetsLoop_last {n : ℕ} (hline : newline ∉ line) (hlen : line.length ≤ n) :
    fgetsLoop n line = (line, []) := by
  induction line generalizing n with
  | nil => cases n <;> rfl
  | cons c line ih =>
      obtain ⟨hc, hline⟩ := not_or.mp (mt List.mem_cons.mpr hline)
      obtain ⟨n, rfl⟩ := Nat.exists_eq_add_one.mpr (Nat.zero_lt_of_lt hlen)
      rw [fgetsLoop, if_neg (Ne.symm hc), ih hline (Nat.le_of_succ_le_succ hlen)]

theorem EnvLine.fgets (h : EnvLine line) (rest : List Byte) :
    fgets (line ++ newline :: rest) = some (line ++ [newline], rest) := by
  have hlen : line.length < maxLine - 1 := Nat.lt_of_le_of_lt h.length_le (by decide)
  rw [UBoot.fgets, if_neg (by simp), fgetsLoop_newline h.no_newline hlen]

theorem EnvLine.fgets_last (h : EnvLine line) : UBoot.fgets line = some (line, []) := by
  have hlen : line.length ≤ maxLine - 1 := h.length_le.trans (by decide)
  rw [UBoot.fgets, if_neg (by simp [h.ne_nil]), fgetsLoop_last h.no_newline hlen]

theorem EnvLine.loadLine (h : EnvLine line) (hfits : line.length + 2 ≤ freeSpace) :
    loadLine (line ++ [newline]) freeSpace = .ok (line ++ [0]) ∧
      loadLine line freeSpace = .ok (line ++ [0]) := by
  have hnul : ∀ c ∈ line, (decide (c ≠ 0)) = true := by
    intro c hc
    simp only [ne_eq, decide_eq_true_eq]
    rintro rfl
    exact h.no_nul hc
  have hroom : ¬freeSpace < line.length + 1 + 1 := by omega
  constructor
  · have hall : (line ++ [newline]).takeWhile (· ≠ 0) = line ++ [newline] := by
      rw [List.takeWhile_append_of_pos hnul]
      rfl
    simp only [UBoot.loadLine, hall, List.getLast?_append, List.getLast?_singleton, Option.some_or,
      ne_eq, not_true_eq_false, false_and, if_false, if_true, List.dropLast_concat, h.sets,
      hroom]
  · have hall : line.takeWhile (· ≠ 0) = line := List.takeWhile_eq_self_iff.mpr hnul
    have hlast : line.getLast? = some (line.getLast h.ne_nil) := List.getLast?_eq_some_getLast _
    have hne : line.getLast h.ne_nil ≠ newline := by
      intro heq
      exact h.no_newline (heq ▸ List.getLast_mem h.ne_nil)
    have hshort : ¬line.length = maxLine - 1 :=
      (Nat.lt_of_le_of_lt h.length_le (by decide)).ne
    simp only [UBoot.loadLine, hall, hlast, hshort, and_false, if_false, if_neg hne, h.sets,
      not_true_eq_false, hroom]

/-! ## The block -/

theorem store_mid {bytes : List Byte} (hlen : old.length = bytes.length) :
    store (pre ++ (old ++ post)) pre.length bytes = .ok (pre ++ (bytes ++ post)) := by
  have hfits : pre.length + bytes.length ≤ (pre ++ (old ++ post)).length := by
    simp only [List.length_append]
    omega
  have hdrop : (pre ++ (old ++ post)).drop (pre.length + bytes.length) = post := by
    rw [← hlen, ← List.append_assoc, ← List.length_append, List.drop_left]
  rw [store, if_pos hfits, hdrop, List.take_left, List.append_assoc]

theorem replicate_zero_eq {k n : ℕ} (h : k ≤ n) :
    List.replicate n (0 : Byte) = List.replicate k 0 ++ List.replicate (n - k) 0 := by
  rw [List.replicate_append_replicate, Nat.add_sub_cancel' h]

theorem store_string {n : ℕ} {string : List Byte} (hfits : string.length ≤ n) :
    store (pre ++ (List.replicate n 0 ++ post)) pre.length string =
      .ok (pre ++ (string ++ (List.replicate (n - string.length) 0 ++ post))) := by
  rw [replicate_zero_eq hfits, List.append_assoc]
  exact store_mid (by simp)

theorem loadBlock_line {n fuel : ℕ} {buffer string : List Byte}
    (hget : fgets input = some (buffer, rest)) (hload : loadLine buffer freeSpace = .ok string)
    (hfits : string.length ≤ n) :
    loadBlock freeSpace (fuel + 1) (pre ++ (List.replicate n 0 ++ post)) pre.length input =
      loadBlock freeSpace fuel
        (pre ++ string ++ (List.replicate (n - string.length) 0 ++ post))
        (pre ++ string).length rest := by
  rw [loadBlock, hget]
  simp only [hload, bind, Except.bind]
  rw [store_string hfits]
  simp only [List.append_assoc, List.length_append]

theorem loadBlock_end {n : ℕ} (hn : 0 < n) (fuel : ℕ) :
    loadBlock freeSpace (fuel + 1) (pre ++ (List.replicate n 0 ++ post)) pre.length [] =
      .ok (pre ++ (List.replicate n 0 ++ post)) := by
  have hget : fgets [] = none := rfl
  rw [loadBlock, hget]
  simp only
  rw [store_string (show [(0 : Byte)].length ≤ n from hn), replicate_zero_eq (k := 1) hn, List.append_assoc]
  rfl

theorem strings_cons (line : List Byte) (lines : List (List Byte)) :
    strings (line :: lines) = line ++ [0] ++ strings lines := rfl

/-- `LoadBlock` puts the strings one after the other where the block is clear. -/
theorem loadBlock_text (h : EnvText lines input) (hlines : ∀ line ∈ lines, EnvLine line) {n : ℕ}
    (hfits : (strings lines).length < n) (hfree : n ≤ freeSpace) {fuel : ℕ}
    (hfuel : lines.length < fuel) (pre post : List Byte) :
    loadBlock freeSpace fuel (pre ++ (List.replicate n 0 ++ post)) pre.length input =
      .ok (pre ++ (strings lines ++ (List.replicate (n - (strings lines).length) 0 ++ post))) := by
  induction h generalizing n fuel pre with
  | nil =>
      obtain ⟨fuel, rfl⟩ := Nat.exists_eq_add_one.mpr hfuel
      exact loadBlock_end hfits fuel
  | last line =>
      obtain ⟨fuel, rfl⟩ := Nat.exists_eq_add_one.mpr (Nat.zero_lt_of_lt hfuel)
      obtain ⟨fuel, rfl⟩ := Nat.exists_eq_add_one.mpr (Nat.lt_of_succ_lt_succ hfuel)
      have hline := hlines line List.mem_cons_self
      have hstring : strings [line] = line ++ [0] := by simp [strings]
      rw [hstring] at hfits ⊢
      have hlen := hfits
      rw [List.length_append, List.length_singleton] at hlen
      rw [loadBlock_line hline.fgets_last (hline.loadLine (by omega)).2 hfits.le,
        loadBlock_end (by omega), List.append_assoc]
  | cons line h ih =>
      obtain ⟨fuel, rfl⟩ := Nat.exists_eq_add_one.mpr (Nat.zero_lt_of_lt hfuel)
      have hline := hlines line List.mem_cons_self
      rw [strings_cons] at hfits ⊢
      have hlen := hfits
      simp only [List.length_append, List.length_singleton] at hlen
      rw [loadBlock_line (hline.fgets _) (hline.loadLine (by omega)).1 (by simp; omega),
        ih (fun l hl ↦ hlines l (List.mem_cons_of_mem _ hl)) (by simp; omega) (by simp; omega)
          (Nat.lt_of_succ_lt_succ hfuel)]
      simp only [List.append_assoc, List.length_append, Nat.sub_add_eq]

theorem writeBlock_eq {write : ℕ → ℕ → ℤ}
    (hwrite : ∀ k n, 0 < n → 0 < write k n ∧ write k n ≤ n) {fuel : ℕ} (k : ℕ) {block : List Byte}
    (hfuel : block.length ≤ fuel) : writeBlock write fuel k block = .ok block := by
  induction fuel generalizing k block with
  | zero =>
      obtain rfl := List.length_eq_zero_iff.mp (Nat.le_zero.mp hfuel)
      rfl
  | succ fuel ih =>
      cases block with
      | nil => rfl
      | cons b block =>
          obtain ⟨hpos, hle⟩ := hwrite k (b :: block).length (Nat.succ_pos _)
          have hrest : ((b :: block).drop (write k (b :: block).length).toNat).length ≤ fuel := by
            rw [List.length_drop]
            omega
          have hone : write k (b :: block).length ≠ -1 := by omega
          simp only [writeBlock, if_neg hone, ih (k + 1) hrest, bind, Except.bind,
            List.take_append_drop]

/-! ## Reading the block -/

theorem readenvLoop_string (hnul : 0 ∉ line) (eos : Bool) (heos : line = [] → eos = false)
    (input : List Byte) : readenvLoop [] false true false eos [] (line ++ 0 :: input) =
      (line ++ newline :: (readenvLoop [] false true false true [] input).1,
        (readenvLoop [] false true false true [] input).2) := by
  induction line generalizing eos with
  | nil => simp [readenvLoop, heos rfl]
  | cons c line ih =>
      obtain ⟨hc, hnul⟩ := not_or.mp (mt List.mem_cons.mpr hnul)
      rw [List.cons_append, readenvLoop, if_neg (Ne.symm hc)]
      simp only [Bool.false_eq_true, if_false, ih hnul false fun _ ↦ rfl, if_true,
        List.cons_append]

/-- Every string is printed as a line, and the empty string ends the block. -/
theorem readenvLoop_strings (hlines : ∀ line ∈ lines, EnvLine line) (input : List Byte) :
    readenvLoop [] false true false true [] (strings lines ++ 0 :: input) = (printed lines, 0) := by
  induction lines with
  | nil => rfl
  | cons line lines ih =>
      have hline := hlines line List.mem_cons_self
      have hrest := ih fun l hl ↦ hlines l (List.mem_cons_of_mem _ hl)
      have hsplit : strings (line :: lines) ++ 0 :: input =
          line ++ 0 :: (strings lines ++ 0 :: input) := by
        simp [strings_cons]
      rw [hsplit, readenvLoop_string hline.no_nul true fun h ↦ absurd h hline.ne_nil, hrest]
      simp [printed]

/-! ## The two programs together -/

def environment (lines : List (List Byte)) (n : ℕ) : List Byte :=
  strings lines ++ List.replicate (n - (strings lines).length) 0

/-- What `makeenv` is to write: the checksum, the strings, zeros up to the size of the environment,
and `0xff` up to the size of the block. -/
structure EnvBlock (crc32 : U32 → List Byte → U32) (blockSize envSize : ℤ)
    (lines : List (List Byte)) (block : List Byte) : Prop where
  length : block.length = blockSize
  sum : block.take 4 = longBytes (crc32 0 ((block.drop 4).take (envSize - 4).toNat))
  environment : (block.drop 4).take (envSize - 4).toNat =
    environment lines (envSize - 4).toNat
  fill : block.drop envSize.toNat = List.replicate (blockSize - envSize).toNat 0xff

theorem length_strings (lines : List (List Byte)) :
    (strings lines).length = (lines.map fun line ↦ line.length + 1).sum := by
  simp [strings, List.length_flatMap]

theorem length_longBytes (x : U32) : (longBytes x).length = 4 := by simp [longBytes]

variable {crc32 : U32 → List Byte → U32} {write : ℕ → ℕ → ℤ} {args : List (List Byte)}
  {blockSize envSize : ℤ} {n m : ℕ}

theorem length_environment (hfits : (strings lines).length < n) :
    (environment lines n).length = n := by
  rw [environment, List.length_append, List.length_replicate]
  omega

theorem readSizes_le (h : readSizes args = .ok (blockSize, envSize)) : envSize ≤ blockSize := by
  match args, h with
  | [block], h =>
    cases hblock : readHex block with
    | error e => simp [readSizes, hblock, bind, Except.bind] at h
    | ok size =>
        simp only [readSizes, hblock, bind, Except.bind, Except.ok.injEq, Prod.mk.injEq] at h
        omega
  | [block, env], h =>
    cases hblock : readHex block with
    | error e => simp [readSizes, hblock, bind, Except.bind] at h
    | ok size =>
        cases henv : readHex env with
        | error e => simp [readSizes, hblock, henv, bind, Except.bind] at h
        | ok size' =>
            simp only [readSizes, hblock, henv, bind, Except.bind] at h
            split_ifs at h with hlt
            obtain ⟨rfl, rfl⟩ := Prod.mk.inj (Except.ok.inj h)
            exact not_lt.mp hlt

/-- The block `makeenv` writes, for an environment of `n` bytes behind the checksum, and `m` bytes
behind the environment. -/
theorem makeenv_eq (hargs : readSizes args = .ok (blockSize, envSize)) (hn : envSize = n + 4)
    (hm : blockSize = envSize + m) (hlines : ∀ line ∈ lines, EnvLine line)
    (hinput : EnvText lines input) (hfits : (strings lines).length < n)
    (hwrite : ∀ k n, 0 < n → 0 < write k n ∧ write k n ≤ n) :
    makeenv crc32 write args input = .ok (longBytes (crc32 0 (environment lines n)) ++
      (environment lines n ++ List.replicate m 0xff)) := by
  have hlen := length_environment hfits
  have hclear : List.replicate envSize.toNat 0 ++ List.replicate (blockSize - envSize).toNat 0xff =
      List.replicate 4 (0 : Byte) ++ (List.replicate n 0 ++ List.replicate m 0xff) := by
    rw [← List.append_assoc, List.replicate_append_replicate]
    congr 2 <;> omega
  have hload : loadBlock (envSize - 4) (input.length + 1)
      (List.replicate 4 (0 : Byte) ++ (List.replicate n 0 ++ List.replicate m 0xff)) 4 input =
        .ok (List.replicate 4 0 ++ (environment lines n ++ List.replicate m 0xff)) := by
    have htext := loadBlock_text hinput hlines hfits (by omega : (n : ℤ) ≤ envSize - 4)
      (Nat.lt_succ_of_le (hinput.length_le hlines)) (List.replicate 4 0) (List.replicate m 0xff)
    rwa [← List.append_assoc (strings lines)] at htext
  have hdrop : (List.replicate 4 (0 : Byte) ++ (environment lines n ++ List.replicate m 0xff)).drop 4
      = environment lines n ++ List.replicate m 0xff := rfl
  have htake : (environment lines n ++ List.replicate m 0xff).take (envSize - 4).toNat =
      environment lines n := by
    have hnat : (envSize - 4).toNat = (environment lines n).length := by omega
    rw [hnat, List.take_left]
  have hstore : store (List.replicate 4 0 ++ (environment lines n ++ List.replicate m 0xff)) 0
      (longBytes (crc32 0 (environment lines n))) = .ok (longBytes (crc32 0 (environment lines n)) ++
        (environment lines n ++ List.replicate m 0xff)) :=
    @store_mid [] (List.replicate 4 0) _ _ (length_longBytes _).symm
  rw [makeenv, hargs]
  simp only [bind, Except.bind]
  rw [if_neg (by omega), hclear, hload]
  simp only
  rw [if_neg (by omega), hdrop, htake, hstore]
  apply writeBlock_eq hwrite
  simp only [List.length_append, length_longBytes, hlen, List.length_replicate]
  omega

theorem envBlock_eq (hn : envSize = n + 4) (hm : blockSize = envSize + m)
    (hfits : (strings lines).length < n) : EnvBlock crc32 blockSize envSize lines
      (longBytes (crc32 0 (environment lines n)) ++
        (environment lines n ++ List.replicate m 0xff)) := by
  have hlen := length_environment hfits
  have hsum := length_longBytes (crc32 0 (environment lines n))
  have hnat : (envSize - 4).toNat = n := by omega
  have hdrop : (longBytes (crc32 0 (environment lines n)) ++
      (environment lines n ++ List.replicate m 0xff)).drop 4 =
        environment lines n ++ List.replicate m 0xff := by
    rw [List.drop_append_of_le_length hsum.ge, ← hsum, List.drop_length, List.nil_append]
  have htake : (environment lines n ++ List.replicate m 0xff).take n = environment lines n := by
    rw [List.take_append_of_le_length hlen.ge, List.take_of_length_le hlen.le]
  constructor
  · simp only [List.length_append, hsum, hlen, List.length_replicate]
    omega
  · rw [hdrop, hnat, htake, List.take_append_of_le_length hsum.ge, List.take_of_length_le hsum.le]
  · rw [hdrop, hnat, htake]
  · have henv : envSize.toNat = 4 + n := by omega
    rw [henv, ← List.drop_drop, hdrop, List.drop_append_of_le_length hlen.ge,
      List.drop_of_length_le hlen.le, List.nil_append, hm]
    congr 1
    omega

/-- **`readenv` undoes `makeenv`.**  Lines that fit into the environment are written as a block, and
read from it again. -/
theorem readenv_makeenv (hargs : readSizes args = .ok (blockSize, envSize))
    (hlines : ∀ line ∈ lines, EnvLine line) (hinput : EnvText lines input)
    (hfits : ((lines.map fun line ↦ line.length + 1).sum + 1 : ℕ) ≤ envSize - 4)
    (hwrite : ∀ k n, 0 < n → 0 < write k n ∧ write k n ≤ n) :
    ∃ block, makeenv crc32 write args input = .ok block ∧
      EnvBlock crc32 blockSize envSize lines block ∧ readenv [] block = (printed lines, 0) := by
  have hle := readSizes_le hargs
  rw [← length_strings] at hfits
  obtain ⟨n, hn⟩ : ∃ n : ℕ, envSize = n + 4 := ⟨(envSize - 4).toNat, by omega⟩
  obtain ⟨m, hm⟩ : ∃ m : ℕ, blockSize = envSize + m := ⟨(blockSize - envSize).toNat, by omega⟩
  have hroom : (strings lines).length < n := by omega
  refine ⟨_, makeenv_eq hargs hn hm hlines hinput hroom hwrite, envBlock_eq hn hm hroom, ?_⟩
  have hone : 1 ≤ n - (strings lines).length := by omega
  have hend : environment lines n ++ List.replicate m 0xff = strings lines ++
      0 :: (List.replicate (n - (strings lines).length - 1) 0 ++ List.replicate m 0xff) := by
    rw [environment, replicate_zero_eq hone]
    simp
  have hsum := length_longBytes (crc32 0 (environment lines n))
  rw [readenv, List.drop_append_of_le_length hsum.ge, ← hsum, List.drop_length, List.nil_append,
    hend]
  exact readenvLoop_strings hlines _

/-- Two lines in a block of sixteen bytes; each call writes one byte. -/
theorem readenv_makeenv_two : ∃ block,
    makeenv (fun _ _ ↦ 7) (fun _ _ ↦ 1) [chars ['1', '0'], chars ['e']]
      (chars ['a', '=', '\n', 'b', '=', 'c']) = .ok block ∧
    EnvBlock (fun _ _ ↦ 7) 16 14 [chars ['a', '='], chars ['b', '=', 'c']] block ∧
    readenv [] block = (chars ['a', '=', '\n', 'b', '=', 'c', '\n'], 0) :=
  readenv_makeenv rfl
    (by
      intro line hline
      rcases List.mem_pair.mp hline with rfl | rfl
      · exact ⟨by decide, by decide, by decide, by decide⟩
      · exact ⟨by decide, by decide, by decide, by decide⟩)
    (.cons (chars ['a', '=']) (.last (chars ['b', '=', 'c']))) (by decide)
    (fun _ n hn ↦ ⟨Int.one_pos, by omega⟩)

end UBoot

end LiberaBase
