import LiberaBase.Lib.Overwrite
import LiberaBase.UBoot.Environment
import Mathlib.Algebra.Order.BigOperators.Group.List

/-!
# The room for the environment

`LoadBlock` compares each line with the room there is at the start: what it has copied does not
count.  So the lines fit one by one, and together they may leave the environment, and the block.
-/

namespace LiberaBase

namespace UBoot

open Ascii Overwrite

/-! ## Lines as `LoadBlock` reads them -/

/-- What the calls of `fgets` put into `Line`. -/
def readBuffers : ℕ → List Byte → List (List Byte)
  | 0, _ => []
  | fuel + 1, input =>
    match fgets input with
    | none => []
    | some (buffer, input) => buffer :: readBuffers fuel input

def buffers (input : List Byte) : List (List Byte) := readBuffers input.length input

def cString (buffer : List Byte) : List Byte := buffer.takeWhile (· ≠ 0)

/-- The line without its newline. -/
def lineText (buffer : List Byte) : List Byte :=
  if (cString buffer).getLast? = some newline then (cString buffer).dropLast else cString buffer

def TooLong (buffer : List Byte) : Prop :=
  (cString buffer).length = maxLine - 1 ∧ (cString buffer).getLast? ≠ some newline

def Malformed (buffer : List Byte) : Prop := TooLong buffer ∨ equals ∉ lineText buffer

instance (buffer : List Byte) : Decidable (TooLong buffer) := inferInstanceAs (Decidable (_ ∧ _))

instance (buffer : List Byte) : Decidable (Malformed buffer) := inferInstanceAs (Decidable (_ ∨ _))

/-- The bytes of some lines with their terminators. -/
def sizeOfLines (bs : List (List Byte)) : ℕ := (bs.map fun b ↦ (lineText b).length + 1).sum

/-! ## What `LoadBlock` copies -/

/-- The copies of `LoadBlock`, where they go, and how it fails if it does. -/
def loadCopies (freeSpace : ℤ) : ℕ → List (List Byte) → List (ℕ × List Byte) × Option Failure
  | ptr, [] => ([(ptr, [0])], none)
  | ptr, buffer :: rest =>
    match loadLine buffer freeSpace with
    | .error e => ([], some e)
    | .ok string =>
      let (copies, failure) := loadCopies freeSpace (ptr + string.length) rest
      ((ptr, string) :: copies, failure)

def runCopies : List Byte → List (ℕ × List Byte) → Except Failure (List Byte)
  | block, [] => .ok block
  | block, (ptr, bytes) :: copies => (store block ptr bytes).bind fun block ↦ runCopies block copies

def endLoad (failure : Option Failure) (block : List Byte) : Except Failure (List Byte) :=
  match failure with
  | none => .ok block
  | some e => .error e

variable {block buffer string input rest : List Byte} {bs : List (List Byte)} {freeSpace : ℤ}
  {fuel ptr : ℕ}

theorem fgetsLoop_append (n : ℕ) (input : List Byte) :
    (fgetsLoop n input).1 ++ (fgetsLoop n input).2 = input := by
  induction n generalizing input with
  | zero => rfl
  | succ n ih =>
      cases input with
      | nil => rfl
      | cons c input =>
          rw [fgetsLoop]
          split_ifs
          · rfl
          · exact congrArg (c :: ·) (ih input)

theorem fgets_length (h : fgets input = some (buffer, rest)) : rest.length < input.length := by
  cases input with
  | nil => cases h
  | cons c input =>
      have hloop : fgetsLoop (1022 + 1) (c :: input) = (buffer, rest) := Option.some.inj h
      rw [fgetsLoop] at hloop
      split_ifs at hloop
      · obtain ⟨-, rfl⟩ := Prod.mk.inj hloop
        exact Nat.lt_succ_self _
      · obtain ⟨-, rfl⟩ := Prod.mk.inj hloop
        have happend := congrArg List.length (fgetsLoop_append 1022 input)
        rw [List.length_append] at happend
        rw [List.length_cons]
        omega

theorem loadBlock_eq_copies (hfuel : input.length ≤ fuel) :
    loadBlock freeSpace (fuel + 1) block ptr input =
      (runCopies block (loadCopies freeSpace ptr (readBuffers fuel input)).1).bind
        (endLoad (loadCopies freeSpace ptr (readBuffers fuel input)).2) := by
  have hlast (block : List Byte) (ptr : ℕ) : store block ptr [0] =
      (runCopies block [(ptr, [0])]).bind (endLoad none) := by
    rw [runCopies]
    cases store block ptr [0] <;> rfl
  induction fuel generalizing block ptr input with
  | zero =>
      obtain rfl := List.length_eq_zero_iff.mp (Nat.le_zero.mp hfuel)
      exact hlast block ptr
  | succ fuel ih =>
      rw [loadBlock, readBuffers]
      cases hget : fgets input with
      | none => exact hlast block ptr
      | some r =>
          obtain ⟨buffer, rest⟩ := r
          have hrest : rest.length ≤ fuel := Nat.le_of_lt_succ ((fgets_length hget).trans_le hfuel)
          dsimp only
          rw [loadCopies]
          cases loadLine buffer freeSpace with
          | error e => rfl
          | ok string =>
              dsimp only [bind, Except.bind]
              rw [runCopies]
              cases store block ptr string with
              | error e => rfl
              | ok block => exact ih hrest

/-! ## Which lines are copied -/

/-- The line is well formed and there is room for it alone. -/
def Accepted (freeSpace : ℤ) (buffer : List Byte) : Prop :=
  ¬Malformed buffer ∧ (lineText buffer).length + 2 ≤ freeSpace

instance (freeSpace : ℤ) (buffer : List Byte) : Decidable (Accepted freeSpace buffer) :=
  inferInstanceAs (Decidable (_ ∧ _))

/-- The lines before the first one that is refused. -/
def accepted (freeSpace : ℤ) (bs : List (List Byte)) : List (List Byte) :=
  bs.takeWhile (Accepted freeSpace ·)

def refused (freeSpace : ℤ) (bs : List (List Byte)) : List (List Byte) :=
  bs.dropWhile (Accepted freeSpace ·)

theorem lineText_nil (h : cString buffer = []) : lineText buffer = [] := by
  rw [lineText, h]
  rfl

theorem malformed_nil (h : cString buffer = []) : Malformed buffer :=
  .inr (by rw [lineText_nil h]; exact List.not_mem_nil)

theorem loadLine_undefined (h : cString buffer = []) (freeSpace : ℤ) :
    loadLine buffer freeSpace = .error .undefined := by
  have hnil : buffer.takeWhile (· ≠ 0) = [] := h
  rw [loadLine, hnil]
  rfl

theorem loadLine_cases (h : cString buffer ≠ []) : loadLine buffer freeSpace =
    if TooLong buffer then .error (.fail "Line starting \"%.40s...\" too long\n")
    else if equals ∉ lineText buffer then .error (.fail "No = in line \"%s\"\n")
    else if freeSpace < (lineText buffer).length + 1 + 1 then
      .error (.fail "No room left in environment\n")
    else .ok (lineText buffer ++ [0]) := by
  obtain ⟨c, hlast⟩ := Option.ne_none_iff_exists'.mp (mt List.getLast?_eq_none_iff.mp h)
  have hlast' : (buffer.takeWhile (· ≠ 0)).getLast? = some c := hlast
  have htext :
      lineText buffer = if c = newline then (cString buffer).dropLast else cString buffer := by
    simp only [lineText, hlast, Option.some.injEq]
  have hlong : TooLong buffer ↔ c ≠ newline ∧ (cString buffer).length = maxLine - 1 := by
    rw [TooLong, hlast, and_comm, ne_eq, Option.some.injEq]
  simp only [loadLine, hlast', htext, hlong]
  rfl

theorem loadLine_accepted (h : Accepted freeSpace buffer) :
    loadLine buffer freeSpace = .ok (lineText buffer ++ [0]) := by
  obtain ⟨hformed, hroom⟩ := h
  obtain ⟨hlong, hequals⟩ := not_or.mp hformed
  rw [loadLine_cases (mt malformed_nil hformed), if_neg hlong, if_neg hequals,
    if_neg (by omega)]

theorem loadLine_refused (h : ¬Accepted freeSpace buffer) (hnul : cString buffer ≠ []) :
    ∃ message, loadLine buffer freeSpace = .error (.fail message) := by
  rw [loadLine_cases hnul]
  by_cases hlong : TooLong buffer
  · exact ⟨_, if_pos hlong⟩
  rw [if_neg hlong]
  by_cases hequals : equals ∉ lineText buffer
  · exact ⟨_, if_pos hequals⟩
  rw [if_neg hequals]
  have hroom : freeSpace < (lineText buffer).length + 1 + 1 := by
    by_contra hroom
    exact h ⟨not_or.mpr ⟨hlong, hequals⟩, by omega⟩
  exact ⟨_, if_pos hroom⟩

/-! ## Copies that follow one another -/

/-- What `LoadBlock` copies: the lines up to the first one that is refused, and the empty string
when there is none. -/
def copied (freeSpace : ℤ) (bs : List (List Byte)) : List (List Byte) :=
  ((accepted freeSpace bs).map fun b ↦ lineText b ++ [0]) ++
    if refused freeSpace bs = [] then [[0]] else []

theorem loadCopies_eq (freeSpace : ℤ) (ptr : ℕ) (bs : List (List Byte)) :
    loadCopies freeSpace ptr bs = (layout ptr (copied freeSpace bs),
      (refused freeSpace bs).head?.bind fun b ↦
        match loadLine b freeSpace with
        | .error e => some e
        | .ok _ => none) := by
  induction bs generalizing ptr with
  | nil => rfl
  | cons b bs ih =>
      by_cases h : Accepted freeSpace b
      · have hcopied : copied freeSpace (b :: bs) =
            (lineText b ++ [0]) :: copied freeSpace bs := by
          simp [copied, accepted, refused, h]
        have hrefused : refused freeSpace (b :: bs) = refused freeSpace bs := by
          simp [refused, h]
        rw [loadCopies, loadLine_accepted h, hcopied, hrefused]
        simp only [ih, layout]
      · have hcopied : copied freeSpace (b :: bs) = [] := by
          simp [copied, accepted, refused, h]
        have hrefused : refused freeSpace (b :: bs) = b :: bs := by
          simp [refused, h]
        rw [loadCopies, hcopied, hrefused]
        by_cases hnul : cString b = []
        · simp [loadLine_undefined hnul, layout]
        · obtain ⟨message, hline⟩ := loadLine_refused h hnul
          simp [hline, layout]

theorem store_eq (block : List Byte) (ptr : ℕ) (bytes : List Byte) :
    store block ptr bytes = (overwrite block ptr bytes).elim (.error .undefined) .ok := by
  rw [store, overwrite]
  split_ifs <;> rfl

theorem runCopies_eq (block : List Byte) (copies : List (ℕ × List Byte)) :
    runCopies block copies = (overwriteAll block copies).elim (.error .undefined) .ok := by
  induction copies generalizing block with
  | nil => rfl
  | cons copy copies ih =>
      obtain ⟨ptr, bytes⟩ := copy
      rw [runCopies, overwriteAll, store_eq]
      cases overwrite block ptr bytes with
      | none => rfl
      | some block => exact ih block

theorem flatten_copied (freeSpace : ℤ) (bs : List (List Byte)) :
    (copied freeSpace bs).flatten.length = sizeOfLines (accepted freeSpace bs) +
      if refused freeSpace bs = [] then 1 else 0 := by
  rw [copied, List.flatten_append, List.length_append]
  congr 1
  · simp [sizeOfLines, List.length_flatten, Function.comp_def]
  · split_ifs <;> rfl

/-! ## Where `makeenv` stays inside the environment -/

/-- The copies stay inside the environment, `makeenv` fails exactly for a malformed line or lines
that do not fit together with the empty string behind them, and a block that it writes has all of
them in the part that the checksum covers. -/
structure StaysInside (crc32 : U32 → List Byte → U32) (write : ℕ → ℕ → ℤ) (args : List (List Byte))
    (envSize : ℤ) (input : List Byte) : Prop where
  copies : ∀ copy ∈ (loadCopies (envSize - 4) 4 (buffers input)).1,
    4 ≤ copy.1 ∧ (copy.1 + copy.2.length : ℤ) ≤ envSize
  fails_iff : (∃ message, makeenv crc32 write args input = .error (.fail message)) ↔
    (∃ b ∈ buffers input, Malformed b) ∨ envSize - 4 < sizeOfLines (buffers input) + 1
  whole : ∀ block, makeenv crc32 write args input = .ok block →
    strings ((buffers input).map lineText) ++ [0] <+: (block.drop 4).take (envSize - 4).toNat

/-- There is room for lines of `size` bytes, and for the empty string if no line is refused after
them.  The line that is refused does not begin with a NUL. -/
def Room (freeSpace : ℤ) (size : ℕ) : List (List Byte) → Prop
  | [] => (size + 1 : ℤ) ≤ freeSpace
  | b :: _ => cString b ≠ [] ∧ size ≤ freeSpace.toNat

instance (freeSpace : ℤ) (size : ℕ) : (bs : List (List Byte)) → Decidable (Room freeSpace size bs)
  | [] => inferInstanceAs (Decidable (_ ≤ _))
  | _ :: _ => inferInstanceAs (Decidable (_ ∧ _))

/-- The size is not negative, and the lines before the first one that is refused have room
together. -/
def HasRoom (envSize : ℤ) (input : List Byte) : Prop :=
  0 ≤ envSize ∧ Room (envSize - 4) (sizeOfLines (accepted (envSize - 4) (buffers input)))
    (refused (envSize - 4) (buffers input))

instance (envSize : ℤ) (input : List Byte) : Decidable (HasRoom envSize input) :=
  inferInstanceAs (Decidable (_ ∧ _))

section

variable {crc32 : U32 → List Byte → U32} {write : ℕ → ℕ → ℤ} {args : List (List Byte)}
  {blockSize envSize : ℤ} {b : List Byte} {others : List (List Byte)}

/-- The block before `LoadBlock`. -/
def clearBlock (blockSize envSize : ℤ) : List Byte :=
  List.replicate envSize.toNat 0 ++ List.replicate (blockSize - envSize).toNat 0xff

theorem makeenv_undefined (hargs : readSizes args = .ok (blockSize, envSize)) (hneg : envSize < 0) :
    makeenv crc32 write args input = .error .undefined := by
  rw [makeenv, hargs]
  exact if_pos hneg

theorem makeenv_load (hargs : readSizes args = .ok (blockSize, envSize)) (hpos : 0 ≤ envSize) :
    makeenv crc32 write args input =
      ((runCopies (clearBlock blockSize envSize)
          (layout 4 (copied (envSize - 4) (buffers input)))).bind
        (endLoad (loadCopies (envSize - 4) 4 (buffers input)).2)).bind fun block ↦
          if envSize < 4 then .error .undefined
          else
            (store block 0 (longBytes (crc32 0 ((block.drop 4).take (envSize - 4).toNat)))).bind
              (writeBlock write blockSize.toNat 0) := by
  have hcopies := congrArg Prod.fst (loadCopies_eq (envSize - 4) 4 (buffers input))
  dsimp only at hcopies
  rw [makeenv, hargs, ← hcopies, buffers, ← loadBlock_eq_copies le_rfl]
  exact if_neg hpos.not_gt

theorem length_clearBlock (hle : envSize ≤ blockSize) (hpos : 0 ≤ envSize) :
    ((clearBlock blockSize envSize).length : ℤ) = blockSize := by
  simp only [clearBlock, List.length_append, List.length_replicate]
  omega

/-- A line is refused: the copies before it are made, and `LoadBlock` fails. -/
theorem makeenv_refused (hargs : readSizes args = .ok (blockSize, envSize)) (hpos : 0 ≤ envSize)
    (hrefused : refused (envSize - 4) (buffers input) = b :: others) {e : Failure}
    (hline : loadLine b (envSize - 4) = .error e) : makeenv crc32 write args input =
      (runCopies (clearBlock blockSize envSize)
        (layout 4 (copied (envSize - 4) (buffers input)))).bind fun _ ↦ .error e := by
  rw [makeenv_load hargs hpos, loadCopies_eq, hrefused]
  dsimp only [List.head?_cons, Option.bind_some]
  rw [hline]
  cases runCopies (clearBlock blockSize envSize)
    (layout 4 (copied (envSize - 4) (buffers input))) <;> rfl

theorem mem_refused (h : refused freeSpace bs = b :: others) : b ∈ bs ∧ ¬Accepted freeSpace b := by
  have hmem : b ∈ refused freeSpace bs := h ▸ List.mem_cons_self
  refine ⟨(List.dropWhile_sublist _).subset hmem, ?_⟩
  have hhead := List.head?_dropWhile_not (Accepted freeSpace ·) bs
  rw [show bs.dropWhile (Accepted freeSpace ·) = b :: others from h] at hhead
  simpa using hhead

theorem accepted_of_mem (h : b ∈ accepted freeSpace bs) : Accepted freeSpace b := by
  have hb := List.mem_takeWhile_imp (show b ∈ bs.takeWhile (Accepted freeSpace ·) from h)
  exact of_decide_eq_true hb

theorem accepted_of_refused_nil (h : refused freeSpace bs = []) : accepted freeSpace bs = bs := by
  have hsplit := List.takeWhile_append_dropWhile (p := (Accepted freeSpace ·)) (l := bs)
  rw [show bs.dropWhile (Accepted freeSpace ·) = [] from h, List.append_nil] at hsplit
  exact hsplit

theorem sizeOfLines_mem (h : b ∈ bs) : (lineText b).length + 1 ≤ sizeOfLines bs :=
  List.le_sum_of_mem (List.mem_map.mpr ⟨b, h, rfl⟩)

theorem copied_eq_nil_iff : copied freeSpace bs = [] ↔
    accepted freeSpace bs = [] ∧ refused freeSpace bs ≠ [] := by
  by_cases h : refused freeSpace bs = [] <;> simp [copied, h]

/-- The copies fit exactly if the lines that are copied have room together. -/
theorem copies_inside_iff (input : List Byte) (envSize : ℤ) :
    (∀ copy ∈ (loadCopies (envSize - 4) 4 (buffers input)).1,
      4 ≤ copy.1 ∧ (copy.1 + copy.2.length : ℤ) ≤ envSize) ↔
    copied (envSize - 4) (buffers input) = [] ∨
      ((copied (envSize - 4) (buffers input)).flatten.length : ℤ) ≤ envSize - 4 := by
  have hle := layout_le_iff 4 (copied (envSize - 4) (buffers input)) envSize
  have hflat : ((4 : ℕ) + (copied (envSize - 4) (buffers input)).flatten.length : ℤ) ≤ envSize ↔
      ((copied (envSize - 4) (buffers input)).flatten.length : ℤ) ≤ envSize - 4 := by omega
  rw [loadCopies_eq, ← hflat, ← hle]
  exact ⟨fun h copy hcopy ↦ (h copy hcopy).2,
    fun h copy hcopy ↦ ⟨le_of_mem_layout hcopy, h copy hcopy⟩⟩

theorem runCopies_fits (hle : envSize ≤ blockSize) (hpos : 0 ≤ envSize)
    (hfits : copied (envSize - 4) (buffers input) = [] ∨
      ((copied (envSize - 4) (buffers input)).flatten.length : ℤ) ≤ envSize - 4) :
    runCopies (clearBlock blockSize envSize) (layout 4 (copied (envSize - 4) (buffers input))) =
      .ok (if copied (envSize - 4) (buffers input) = [] then clearBlock blockSize envSize
        else (clearBlock blockSize envSize).take 4 ++
          (copied (envSize - 4) (buffers input)).flatten ++
          (clearBlock blockSize envSize).drop
            (4 + (copied (envSize - 4) (buffers input)).flatten.length)) := by
  have hlen := length_clearBlock hle hpos
  by_cases hnil : copied (envSize - 4) (buffers input) = []
  · rw [hnil, if_pos rfl]
    rfl
  · have hroom := hfits.resolve_left hnil
    rw [runCopies_eq, overwriteAll_layout (by omega), overwrite_fits (by omega), if_neg hnil]
    rfl

/-- The checksum is put in front, and the block is written. -/
theorem write_sum (hwrite : ∀ k n, 0 < n → 0 < write k n ∧ write k n ≤ n) (sum : U32)
    (hfour : 4 ≤ block.length) (hlen : block.length ≤ fuel) :
    (store block 0 (longBytes sum)).bind (writeBlock write fuel 0) =
      .ok (longBytes sum ++ block.drop 4) := by
  have hstore : store block 0 (longBytes sum) = .ok (longBytes sum ++ block.drop 4) := by
    rw [store, length_longBytes, if_pos (by omega)]
    rfl
  have hwhole : (longBytes sum ++ block.drop 4).length ≤ fuel := by
    rw [List.length_append, length_longBytes, List.length_drop]
    omega
  rw [hstore]
  exact writeBlock_eq hwrite 0 hwhole

/-- No line is refused: the block that `makeenv` writes. -/
theorem makeenv_loaded (hargs : readSizes args = .ok (blockSize, envSize))
    (hwrite : ∀ k n, 0 < n → 0 < write k n ∧ write k n ≤ n) (hpos : 0 ≤ envSize)
    (hrefused : refused (envSize - 4) (buffers input) = [])
    (hroom : (sizeOfLines (buffers input) + 1 : ℤ) ≤ envSize - 4) :
    ∃ block, makeenv crc32 write args input = .ok block ∧
      strings ((buffers input).map lineText) ++ [0] <+:
        (block.drop 4).take (envSize - 4).toNat := by
  have hle := readSizes_le hargs
  have haccepted := accepted_of_refused_nil hrefused
  have hcopied : (copied (envSize - 4) (buffers input)).flatten =
      strings ((buffers input).map lineText) ++ [0] := by
    rw [copied, haccepted, if_pos hrefused]
    simp [strings, List.flatMap, Function.comp_def]
  have hflat := flatten_copied (envSize - 4) (buffers input)
  rw [hrefused, if_pos rfl, haccepted] at hflat
  have hsome : copied (envSize - 4) (buffers input) ≠ [] :=
    fun hnil ↦ (copied_eq_nil_iff.mp hnil).2 hrefused
  have hfits : ((copied (envSize - 4) (buffers input)).flatten.length : ℤ) ≤ envSize - 4 := by
    omega
  have hruns := runCopies_fits hle hpos (.inr hfits)
  have hlen := length_clearBlock hle hpos
  rw [if_neg hsome, hcopied] at hruns
  rw [hcopied] at hflat
  rw [makeenv_load hargs hpos, loadCopies_eq, hrefused, hruns]
  generalize clearBlock blockSize envSize = clear at hlen ⊢
  generalize strings ((buffers input).map lineText) ++ [0] = text at hflat ⊢
  have hfour : (clear.take 4).length = 4 := by
    rw [List.length_take]
    omega
  have hloaded : (clear.take 4 ++ text ++ clear.drop (4 + text.length)).length = clear.length := by
    simp only [List.length_append, hfour, List.length_drop]
    omega
  have hdrop : (clear.take 4 ++ text ++ clear.drop (4 + text.length)).drop 4 =
      text ++ clear.drop (4 + text.length) := by
    rw [List.append_assoc]
    exact List.drop_left' hfour
  dsimp only [List.head?_nil, Option.bind_none, endLoad, Except.bind]
  rw [if_neg (by omega)]
  refine ⟨_, write_sum hwrite _ (by omega) (by omega), ?_⟩
  rw [List.drop_left' (length_longBytes _), hdrop, List.prefix_take_iff]
  exact ⟨List.prefix_append _ _, by omega⟩

theorem nonneg_of_staysInside (hargs : readSizes args = .ok (blockSize, envSize))
    (h : StaysInside crc32 write args envSize input) : 0 ≤ envSize := by
  by_contra hneg
  obtain ⟨message, hfail⟩ := h.fails_iff.mpr (.inr (by omega))
  rw [makeenv_undefined hargs (not_le.mp hneg)] at hfail
  cases hfail

theorem hasRoom_of_staysInside (hargs : readSizes args = .ok (blockSize, envSize))
    (h : StaysInside crc32 write args envSize input) : HasRoom envSize input := by
  have hpos := nonneg_of_staysInside hargs h
  have hflat := flatten_copied (envSize - 4) (buffers input)
  have hcopies := (copies_inside_iff input envSize).mp h.copies
  refine ⟨hpos, ?_⟩
  cases hrefused : refused (envSize - 4) (buffers input) with
  | nil =>
      rw [hrefused, if_pos rfl, accepted_of_refused_nil hrefused] at hflat
      have hsome : copied (envSize - 4) (buffers input) ≠ [] :=
        fun hnil ↦ (copied_eq_nil_iff.mp hnil).2 hrefused
      have hroom := hcopies.resolve_left hsome
      rw [Room, accepted_of_refused_nil hrefused]
      omega
  | cons b others =>
      obtain ⟨hmem, hb⟩ := mem_refused hrefused
      rw [hrefused, if_neg (List.cons_ne_nil _ _)] at hflat
      constructor
      · intro hnul
        obtain ⟨message, hfail⟩ := h.fails_iff.mpr (.inl ⟨b, hmem, malformed_nil hnul⟩)
        rw [makeenv_refused hargs hpos hrefused (loadLine_undefined hnul _),
          runCopies_fits (readSizes_le hargs) hpos hcopies] at hfail
        cases hfail
      · rcases hcopies with hnil | hroom
        · rw [(copied_eq_nil_iff.mp hnil).1]
          exact Nat.zero_le _
        · omega

/-- No line is refused, and there is room for all of them. -/
theorem staysInside_loaded (hargs : readSizes args = .ok (blockSize, envSize))
    (hwrite : ∀ k n, 0 < n → 0 < write k n ∧ write k n ≤ n) (hpos : 0 ≤ envSize)
    (hrefused : refused (envSize - 4) (buffers input) = [])
    (hroom : (sizeOfLines (buffers input) + 1 : ℤ) ≤ envSize - 4) :
    StaysInside crc32 write args envSize input := by
  have haccepted := accepted_of_refused_nil hrefused
  obtain ⟨loaded, hmake, hloaded⟩ := makeenv_loaded hargs hwrite hpos hrefused hroom
  have hflat := flatten_copied (envSize - 4) (buffers input)
  rw [hrefused, if_pos rfl, haccepted] at hflat
  constructor
  · exact (copies_inside_iff input envSize).mpr (.inr (by omega))
  · refine iff_of_false ?_ ?_
    · rintro ⟨message, hfail⟩
      rw [hmake] at hfail
      cases hfail
    · rintro (⟨b, hmem, hb⟩ | hsize)
      · rw [← haccepted] at hmem
        exact (accepted_of_mem hmem).1 hb
      · omega
  · intro block hblock
    rw [hmake] at hblock
    obtain rfl := Except.ok.inj hblock
    exact hloaded

/-- A line is refused, and there is room for the ones before it. -/
theorem staysInside_refused (hargs : readSizes args = .ok (blockSize, envSize)) (hpos : 0 ≤ envSize)
    (hrefused : refused (envSize - 4) (buffers input) = b :: others) (hnul : cString b ≠ [])
    (hroom : sizeOfLines (accepted (envSize - 4) (buffers input)) ≤ (envSize - 4).toNat) :
    StaysInside crc32 write args envSize input := by
  obtain ⟨hmem, hb⟩ := mem_refused hrefused
  obtain ⟨message, hline⟩ := loadLine_refused hb hnul
  have hflat := flatten_copied (envSize - 4) (buffers input)
  rw [hrefused, if_neg (List.cons_ne_nil _ _)] at hflat
  have hfits : copied (envSize - 4) (buffers input) = [] ∨
      ((copied (envSize - 4) (buffers input)).flatten.length : ℤ) ≤ envSize - 4 := by
    by_cases hfree : 0 ≤ envSize - 4
    · exact .inr (by omega)
    · refine .inl (copied_eq_nil_iff.mpr ⟨?_, by simp [hrefused]⟩)
      refine List.eq_nil_iff_forall_not_mem.mpr fun b hb ↦ ?_
      have hsize := sizeOfLines_mem hb
      omega
  have hmake : makeenv crc32 write args input = .error (.fail message) := by
    rw [makeenv_refused hargs hpos hrefused hline,
      runCopies_fits (readSizes_le hargs) hpos hfits]
    rfl
  constructor
  · exact (copies_inside_iff input envSize).mpr hfits
  · refine iff_of_true ⟨message, hmake⟩ ?_
    rw [Accepted, Classical.not_and_iff_not_or_not, not_not] at hb
    rcases hb with hb | hb
    · exact .inl ⟨b, hmem, hb⟩
    · have hsize := sizeOfLines_mem hmem
      exact .inr (by omega)
  · intro block hblock
    rw [hmake] at hblock
    cases hblock

/-- **`makeenv` stays inside the environment** exactly if its lines have room, together and not only
one by one. -/
theorem makeenv_inside_iff (hargs : readSizes args = .ok (blockSize, envSize))
    (hwrite : ∀ k n, 0 < n → 0 < write k n ∧ write k n ≤ n) :
    StaysInside crc32 write args envSize input ↔ HasRoom envSize input := by
  refine ⟨hasRoom_of_staysInside hargs, ?_⟩
  rintro ⟨hpos, hroom⟩
  cases hrefused : refused (envSize - 4) (buffers input) with
  | nil =>
      rw [hrefused, Room, accepted_of_refused_nil hrefused] at hroom
      exact staysInside_loaded hargs hwrite hpos hrefused hroom
  | cons b others =>
      rw [hrefused] at hroom
      exact staysInside_refused hargs hpos hrefused hroom.1 hroom.2

theorem makeenv_inside_two : StaysInside (fun _ _ ↦ 7) (fun _ _ ↦ 1)
    [chars ['1', '0'], chars ['e']] 14 (chars ['a', '=', '\n', 'b', '=', 'c']) :=
  (makeenv_inside_iff (show readSizes _ = .ok (16, 14) from rfl)
    fun _ n hn ↦ ⟨Int.one_pos, by omega⟩).mpr (by decide +kernel)

/-- Five short lines in an environment of sixteen bytes. -/
def shortLines : List Byte := (List.replicate 5 (chars ['a', '=', '\n'])).flatten

theorem makeenv_outside : readSizes [chars ['2', '0'], chars ['1', '0']] = .ok (32, 16) ∧
    (∃ block, makeenv (fun _ _ ↦ 0) (fun _ n ↦ n) [chars ['2', '0'], chars ['1', '0']] shortLines =
      .ok block) ∧
    ¬StaysInside (fun _ _ ↦ 0) (fun _ n ↦ n) [chars ['2', '0'], chars ['1', '0']] 16
      shortLines := by
  refine ⟨rfl, ⟨_, rfl⟩, fun h ↦ ?_⟩
  have hlast := h.copies (19, [0]) (by decide +kernel)
  exact absurd hlast.2 (by decide)

end

/-! ## Texts of ordinary lines -/

theorem EnvLine.cString {line : List Byte} (h : EnvLine line) :
    cString (line ++ [newline]) = line ++ [newline] ∧ UBoot.cString line = line := by
  have hnul : ∀ c ∈ line, (decide (c ≠ 0)) = true :=
    fun c hc ↦ decide_eq_true fun hzero ↦ h.no_nul (hzero ▸ hc)
  refine ⟨?_, List.takeWhile_eq_self_iff.mpr hnul⟩
  rw [UBoot.cString, List.takeWhile_append_of_pos hnul]
  rfl

theorem EnvLine.lineText {line : List Byte} (h : EnvLine line) :
    lineText (line ++ [newline]) = line ∧ UBoot.lineText line = line := by
  obtain ⟨hline, hlast⟩ := h.cString
  have hne : line.getLast? ≠ some newline :=
    fun hnewline ↦ h.no_newline (List.mem_of_getLast? hnewline)
  constructor
  · rw [UBoot.lineText, hline, List.getLast?_concat, if_pos rfl, List.dropLast_concat]
  · rw [UBoot.lineText, hlast, if_neg hne]

/-- The lines of a text whose lines are well formed. -/
theorem buffers_text {lines : List (List Byte)} (h : EnvText lines input)
    (hlines : ∀ line ∈ lines, EnvLine line) : (buffers input).map lineText = lines := by
  suffices hread : ∀ fuel, input.length ≤ fuel → (readBuffers fuel input).map lineText = lines from
    hread _ le_rfl
  induction h with
  | nil => rintro (_ | fuel) - <;> rfl
  | last line =>
      have hline := hlines line List.mem_cons_self
      intro fuel hfuel
      obtain ⟨fuel, rfl⟩ := Nat.exists_eq_add_one.mpr
        ((List.length_pos_of_ne_nil hline.ne_nil).trans_le hfuel)
      rw [readBuffers, hline.fgets_last]
      cases fuel <;> simp [readBuffers, fgets, hline.lineText.2]
  | @cons line lines input h ih =>
      have hline := hlines line List.mem_cons_self
      intro fuel hfuel
      rw [List.length_append, List.length_cons] at hfuel
      obtain ⟨fuel, rfl⟩ := Nat.exists_eq_add_one.mpr (by omega : 0 < fuel)
      rw [readBuffers, hline.fgets]
      simp only [List.map_cons, hline.lineText.1]
      rw [ih (fun l hl ↦ hlines l (List.mem_cons_of_mem _ hl)) fuel (by omega)]

end UBoot

end LiberaBase
