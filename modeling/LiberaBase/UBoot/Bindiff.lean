import LiberaBase.UBoot.Environment

/-!
# Comparing two files

`bindiff` reads both files block by block and compares the blocks.  A call of `read` may return less
than a block; when the two calls of one round return different numbers of bytes, `bindiff` takes the
files to have different lengths.
-/

namespace LiberaBase

namespace UBoot

open Ascii

def blockSize : ℕ := 4096

/-- The results of the calls of `read` on a file, one after the other: some bytes, or -1.  When there
are no more it returns 0. -/
abbrev File := List (Option (List Byte))

def read : File → Option (List Byte) × File
  | [] => (some [], [])
  | result :: file => (result, file)

/-- What `main` prints to `stderr`, and its exit status. -/
structure Verdict where
  message : Option String
  status : ℤ

/-- A message that `-q` suppresses. -/
def differ (quiet : Bool) (message : String) : Verdict :=
  ⟨if quiet then none else some message, 1⟩

/-- `main` behind the loop, with the last results. -/
def afterLoop (quiet : Bool) : Option (List Byte) → Option (List Byte) → Verdict
  | some block1, some block2 =>
    if block1 = [] ∧ block2 = [] then ⟨none, 0⟩ else differ quiet "Files differ in length\n"
  | _, _ => ⟨some "Error reading file", 1⟩

/-- The loop of `main`. -/
def compareLoop (quiet : Bool) : File → File → Verdict
  | [], file2 => afterLoop quiet (some []) (read file2).1
  | none :: _, file2 => afterLoop quiet none (read file2).1
  | some block1 :: file1, file2 =>
    match read file2 with
    | (none, _) => afterLoop quiet (some block1) none
    | (some block2, file2) =>
      if block1 ≠ [] ∧ block2 ≠ [] then
        if block1.length = block2.length then
          if block1 ≠ block2 then differ quiet "Files differ in content\n"
          else compareLoop quiet file1 file2
        else differ quiet "Files differ in length\n"
      else afterLoop quiet (some block1) (some block2)

/-- What the arguments name, `-q` first if it is there; the second file is `stdin` if it is not
named. -/
def inputFiles (openFile : List Byte → Option File) (stdin : File) (args : List (List Byte)) :
    Except Verdict (Bool × File × File) :=
  let quiet := args.head? = some (chars ['-', 'q'])
  let names := if quiet then args.tail else args
  let opened (file1 file2 : Option File) : Except Verdict (Bool × File × File) :=
    match file1, file2 with
    | some file1, some file2 => .ok (quiet, file1, file2)
    | _, _ => .error ⟨some "Unable to open input file", 2⟩
  match names with
  | [name1] => opened (openFile name1) (some stdin)
  | [name1, name2] => opened (openFile name1) (openFile name2)
  | _ => .error ⟨some "Usage: %s [-q] file-one [file-two]\n", 2⟩

/-- `main` of `bindiff` -/
def bindiff (openFile : List Byte → Option File) (stdin : File) (args : List (List Byte)) :
    Verdict :=
  match inputFiles openFile stdin args with
  | .error verdict => verdict
  | .ok (quiet, file1, file2) => compareLoop quiet file1 file2

/-! ## Streams -/

/-- A finite stream, as successive calls of `read` return it. -/
structure Stream where
  blocks : List (List Byte)
  sizes : ∀ block ∈ blocks, 1 ≤ block.length ∧ block.length ≤ blockSize

namespace Stream

def file (s : Stream) : File := s.blocks.map some

def bytes (s : Stream) : List Byte := s.blocks.flatten

/-- What the calls of `read` return. -/
def counts (s : Stream) : List ℕ := s.blocks.map List.length

end Stream

/-- The loop goes through the blocks of two streams as long as they are the same. -/
theorem compareLoop_status (quiet : Bool) {blocks1 blocks2 : List (List Byte)}
    (h1 : ∀ block ∈ blocks1, block ≠ []) (h2 : ∀ block ∈ blocks2, block ≠ []) :
    (compareLoop quiet (blocks1.map some) (blocks2.map some)).status =
      if blocks1 = blocks2 then 0 else 1 := by
  induction blocks1 generalizing blocks2 with
  | nil =>
      cases blocks2 with
      | nil => rfl
      | cons block2 blocks2 =>
          have hne := h2 block2 List.mem_cons_self
          simp [compareLoop, read, afterLoop, hne, differ]
  | cons block1 blocks1 ih =>
      have hne1 := h1 block1 List.mem_cons_self
      cases blocks2 with
      | nil => simp [compareLoop, read, afterLoop, hne1, differ]
      | cons block2 blocks2 =>
          have hne2 := h2 block2 List.mem_cons_self
          have hrest := ih (fun b hb ↦ h1 b (List.mem_cons_of_mem _ hb))
            (fun b hb ↦ h2 b (List.mem_cons_of_mem _ hb))
          by_cases hblock : block1 = block2
          · simp [compareLoop, read, hne2, hblock, hrest]
          · by_cases hlen : block1.length = block2.length
            · simp [compareLoop, read, hne1, hne2, hblock, hlen, differ]
            · simp [compareLoop, read, hne1, hne2, hblock, hlen, differ]

/-- The exit status says whether the contents are the same. -/
def Decides (verdict : Verdict) (s1 s2 : Stream) : Prop :=
  verdict.status = if s1.bytes = s2.bytes then 0 else 1

instance (verdict : Verdict) (s1 s2 : Stream) : Decidable (Decides verdict s1 s2) :=
  inferInstanceAs (Decidable (_ = _))

variable {openFile : List Byte → Option File} {stdin : File} {args : List (List Byte)}
  {quiet : Bool} {s1 s2 : Stream}

theorem Stream.ne_nil (s : Stream) {block : List Byte} (h : block ∈ s.blocks) : block ≠ [] :=
  List.length_pos_iff.mp (s.sizes block h).1

/-- **`bindiff` decides whether the contents are the same** exactly if they are not, or the calls of
`read` return the same numbers of bytes for both files. -/
theorem bindiff_decides_iff
    (hfiles : inputFiles openFile stdin args = .ok (quiet, s1.file, s2.file)) :
    Decides (bindiff openFile stdin args) s1 s2 ↔
      s1.bytes ≠ s2.bytes ∨ s1.counts = s2.counts := by
  have hstatus := compareLoop_status quiet (fun _ ↦ s1.ne_nil) (fun _ ↦ s2.ne_nil)
  have hblocks : s1.blocks = s2.blocks ↔ s1.bytes = s2.bytes ∧ s1.counts = s2.counts :=
    List.eq_iff_flatten_eq
  have hloop : bindiff openFile stdin args = compareLoop quiet s1.file s2.file := by
    rw [bindiff, hfiles]
  rw [Decides, hloop]
  refine (Eq.congr_left hstatus).trans ?_
  by_cases hbytes : s1.bytes = s2.bytes
  · by_cases hcounts : s1.counts = s2.counts
    · simp [hblocks, hbytes, hcounts]
    · simp [hblocks, hbytes, hcounts]
  · simp [hblocks, hbytes]

def chunked : Stream := ⟨[[1, 2], [3], [4, 5, 6]], by decide⟩

def rechunked : Stream := ⟨[[1, 2], [3, 4], [5, 7]], by decide⟩

/-- The same six bytes in the same three chunks, and others in other chunks. -/
theorem bindiff_decides_chunked :
    Decides (bindiff (fun _ ↦ some chunked.file) chunked.file [[]]) chunked chunked ∧
      Decides (bindiff (fun _ ↦ some chunked.file) rechunked.file [[]]) chunked rechunked :=
  ⟨(bindiff_decides_iff rfl).mpr (.inr rfl), (bindiff_decides_iff rfl).mpr (.inl (by decide))⟩

/-- The same two bytes, from a file at once and from a pipe one by one. -/
theorem bindiff_shortRead :
    inputFiles (fun _ ↦ some [some [1, 2]]) [some [1], some [2]] [[]] =
      .ok (false, Stream.file ⟨[[1, 2]], by decide⟩, Stream.file ⟨[[1], [2]], by decide⟩) ∧
    bindiff (fun _ ↦ some [some [1, 2]]) [some [1], some [2]] [[]] =
      ⟨some "Files differ in length\n", 1⟩ ∧
    ¬Decides (bindiff (fun _ ↦ some [some [1, 2]]) [some [1], some [2]] [[]])
      ⟨[[1, 2]], by decide⟩ ⟨[[1], [2]], by decide⟩ :=
  ⟨rfl, rfl, by decide⟩

end UBoot

end LiberaBase
