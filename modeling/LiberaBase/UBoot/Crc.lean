import LiberaBase.Lib.Crc
import LiberaBase.UBoot.Environment

/-!
# The checksum of the environment

`crc32` takes a byte at a time from a table, and eight bytes in a turn of its loop.  It is the shift
register of the polynomial, fed with the bits of the buffer.
-/

namespace LiberaBase

namespace UBoot

open Crc (clock feed)
open Ascii

/-! ## `make_crc_table` -/

/-- The terms of the polynomial, except the highest one. -/
def crcTerms : List ℕ := [0, 1, 2, 4, 5, 7, 8, 10, 11, 12, 16, 22, 23, 26]

def crcPoly : U32 := crcTerms.foldl (fun poly p ↦ poly ||| (1#32 <<< (31 - p))) 0

def crcShift (c : U32) : U32 := if c &&& 1 ≠ 0 then crcPoly ^^^ (c >>> 1) else c >>> 1

def makeCrcTable : List U32 := (List.range 256).map fun n ↦ crcShift^[8] (BitVec.ofNat 32 n)

/-- The table that is compiled in without `DYNAMIC_CRC_TABLE`. -/
def crcTable : List U32 := [
  0x00000000, 0x77073096, 0xee0e612c, 0x990951ba, 0x076dc419, 0x706af48f, 0xe963a535,
  0x9e6495a3, 0x0edb8832, 0x79dcb8a4, 0xe0d5e91e, 0x97d2d988, 0x09b64c2b, 0x7eb17cbd,
  0xe7b82d07, 0x90bf1d91, 0x1db71064, 0x6ab020f2, 0xf3b97148, 0x84be41de, 0x1adad47d,
  0x6ddde4eb, 0xf4d4b551, 0x83d385c7, 0x136c9856, 0x646ba8c0, 0xfd62f97a, 0x8a65c9ec,
  0x14015c4f, 0x63066cd9, 0xfa0f3d63, 0x8d080df5, 0x3b6e20c8, 0x4c69105e, 0xd56041e4,
  0xa2677172, 0x3c03e4d1, 0x4b04d447, 0xd20d85fd, 0xa50ab56b, 0x35b5a8fa, 0x42b2986c,
  0xdbbbc9d6, 0xacbcf940, 0x32d86ce3, 0x45df5c75, 0xdcd60dcf, 0xabd13d59, 0x26d930ac,
  0x51de003a, 0xc8d75180, 0xbfd06116, 0x21b4f4b5, 0x56b3c423, 0xcfba9599, 0xb8bda50f,
  0x2802b89e, 0x5f058808, 0xc60cd9b2, 0xb10be924, 0x2f6f7c87, 0x58684c11, 0xc1611dab,
  0xb6662d3d, 0x76dc4190, 0x01db7106, 0x98d220bc, 0xefd5102a, 0x71b18589, 0x06b6b51f,
  0x9fbfe4a5, 0xe8b8d433, 0x7807c9a2, 0x0f00f934, 0x9609a88e, 0xe10e9818, 0x7f6a0dbb,
  0x086d3d2d, 0x91646c97, 0xe6635c01, 0x6b6b51f4, 0x1c6c6162, 0x856530d8, 0xf262004e,
  0x6c0695ed, 0x1b01a57b, 0x8208f4c1, 0xf50fc457, 0x65b0d9c6, 0x12b7e950, 0x8bbeb8ea,
  0xfcb9887c, 0x62dd1ddf, 0x15da2d49, 0x8cd37cf3, 0xfbd44c65, 0x4db26158, 0x3ab551ce,
  0xa3bc0074, 0xd4bb30e2, 0x4adfa541, 0x3dd895d7, 0xa4d1c46d, 0xd3d6f4fb, 0x4369e96a,
  0x346ed9fc, 0xad678846, 0xda60b8d0, 0x44042d73, 0x33031de5, 0xaa0a4c5f, 0xdd0d7cc9,
  0x5005713c, 0x270241aa, 0xbe0b1010, 0xc90c2086, 0x5768b525, 0x206f85b3, 0xb966d409,
  0xce61e49f, 0x5edef90e, 0x29d9c998, 0xb0d09822, 0xc7d7a8b4, 0x59b33d17, 0x2eb40d81,
  0xb7bd5c3b, 0xc0ba6cad, 0xedb88320, 0x9abfb3b6, 0x03b6e20c, 0x74b1d29a, 0xead54739,
  0x9dd277af, 0x04db2615, 0x73dc1683, 0xe3630b12, 0x94643b84, 0x0d6d6a3e, 0x7a6a5aa8,
  0xe40ecf0b, 0x9309ff9d, 0x0a00ae27, 0x7d079eb1, 0xf00f9344, 0x8708a3d2, 0x1e01f268,
  0x6906c2fe, 0xf762575d, 0x806567cb, 0x196c3671, 0x6e6b06e7, 0xfed41b76, 0x89d32be0,
  0x10da7a5a, 0x67dd4acc, 0xf9b9df6f, 0x8ebeeff9, 0x17b7be43, 0x60b08ed5, 0xd6d6a3e8,
  0xa1d1937e, 0x38d8c2c4, 0x4fdff252, 0xd1bb67f1, 0xa6bc5767, 0x3fb506dd, 0x48b2364b,
  0xd80d2bda, 0xaf0a1b4c, 0x36034af6, 0x41047a60, 0xdf60efc3, 0xa867df55, 0x316e8eef,
  0x4669be79, 0xcb61b38c, 0xbc66831a, 0x256fd2a0, 0x5268e236, 0xcc0c7795, 0xbb0b4703,
  0x220216b9, 0x5505262f, 0xc5ba3bbe, 0xb2bd0b28, 0x2bb45a92, 0x5cb36a04, 0xc2d7ffa7,
  0xb5d0cf31, 0x2cd99e8b, 0x5bdeae1d, 0x9b64c2b0, 0xec63f226, 0x756aa39c, 0x026d930a,
  0x9c0906a9, 0xeb0e363f, 0x72076785, 0x05005713, 0x95bf4a82, 0xe2b87a14, 0x7bb12bae,
  0x0cb61b38, 0x92d28e9b, 0xe5d5be0d, 0x7cdcefb7, 0x0bdbdf21, 0x86d3d2d4, 0xf1d4e242,
  0x68ddb3f8, 0x1fda836e, 0x81be16cd, 0xf6b9265b, 0x6fb077e1, 0x18b74777, 0x88085ae6,
  0xff0f6a70, 0x66063bca, 0x11010b5c, 0x8f659eff, 0xf862ae69, 0x616bffd3, 0x166ccf45,
  0xa00ae278, 0xd70dd2ee, 0x4e048354, 0x3903b3c2, 0xa7672661, 0xd06016f7, 0x4969474d,
  0x3e6e77db, 0xaed16a4a, 0xd9d65adc, 0x40df0b66, 0x37d83bf0, 0xa9bcae53, 0xdebb9ec5,
  0x47b2cf7f, 0x30b5ffe9, 0xbdbdf21c, 0xcabac28a, 0x53b39330, 0x24b4a3a6, 0xbad03605,
  0xcdd70693, 0x54de5729, 0x23d967bf, 0xb3667a2e, 0xc4614ab8, 0x5d681b02, 0x2a6f2b94,
  0xb40bbe37, 0xc30c8ea1, 0x5a05df1b, 0x2d02ef8d]

/-! ## `crc32` -/

/-- `DO1` -/
def do1 (table : List U32) (crc : U32) (b : Byte) : U32 :=
  table.getD ((crc ^^^ b.setWidth 32) &&& 0xff).toNat 0 ^^^ (crc >>> 8)

/-- The `do` loop over the last bytes, of which there is one at least. -/
def crcRest (table : List U32) : U32 → Byte → List Byte → U32
  | crc, b, [] => do1 table crc b
  | crc, b, b' :: buf => crcRest table (do1 table crc b) b' buf

/-- Both loops; a turn of the first one is `DO8`. -/
def crcLoop (table : List U32) : U32 → List Byte → U32
  | crc, b₀ :: b₁ :: b₂ :: b₃ :: b₄ :: b₅ :: b₆ :: b₇ :: buf =>
    let crc := do1 table (do1 table (do1 table (do1 table crc b₀) b₁) b₂) b₃
    let crc := do1 table (do1 table (do1 table (do1 table crc b₄) b₅) b₆) b₇
    crcLoop table crc buf
  | crc, [] => crc
  | crc, b :: buf => crcRest table crc b buf

def crc32With (table : List U32) (crc : U32) (buf : List Byte) : U32 :=
  crcLoop table (crc ^^^ 0xffffffff) buf ^^^ 0xffffffff

def crc32 : U32 → List Byte → U32 := crc32With crcTable

/-! ## The register -/

/-- The bits of a byte, in the order in which the register takes them. -/
def byteBits (b : Byte) : List Bool := (List.range 8).map b.getLsbD

def bufBits (buf : List Byte) : List Bool := buf.flatMap byteBits

variable {crc : U32} {b : Byte} {buf buf' : List Byte}

theorem msb_crcPoly : crcPoly.msb = true := by decide

theorem crcShift_eq : crcShift = clock crcPoly := by
  funext c
  have hbit : c &&& 1 ≠ 0 ↔ c.getLsbD 0 = true := by
    rw [BitVec.ofNat_eq_ofNat, BitVec.and_one_eq_setWidth_ofBool_getLsbD]
    cases c.getLsbD 0 <;> decide
  rw [crcShift, clock]
  simp only [hbit]

/-- The compiled table is the one that would be made. -/
theorem crcTable_eq : crcTable = makeCrcTable := by decide +kernel

theorem makeCrcTable_getD {n : ℕ} (hn : n < 256) :
    makeCrcTable.getD n 0 = (clock crcPoly)^[8] (BitVec.ofNat 32 n) := by
  rw [makeCrcTable, crcShift_eq, List.getD_eq_getElem _ _ (by simpa using hn), List.getElem_map,
    List.getElem_range]

theorem length_byteBits (b : Byte) : (byteBits b).length = 8 := by simp [byteBits]

theorem word_byteBits (b : Byte) : Crc.word 32 (byteBits b) = b.setWidth 32 := by
  apply BitVec.eq_of_getLsbD_eq
  intro i hi
  rw [Crc.getLsbD_word _ i hi, BitVec.getLsbD_setWidth]
  by_cases hlt : i < 8
  · rw [List.getD_eq_getElem _ _ (by rwa [length_byteBits])]
    simp [byteBits, hi]
  · rw [List.getD_eq_default _ _ (by rw [length_byteBits]; omega),
      BitVec.getLsbD_of_ge b i (by omega), Bool.and_false]

theorem and_ff (c : U32) : c &&& 0xff = (c.setWidth 8).setWidth 32 := by
  apply BitVec.eq_of_toNat_eq
  rw [BitVec.toNat_and, BitVec.toNat_setWidth_of_le (by decide), BitVec.toNat_setWidth]
  exact Nat.and_two_pow_sub_one_eq_mod c.toNat 8

theorem toNat_low_lt (c : U32) : ((c.setWidth 8).setWidth 32).toNat < 256 := by
  rw [BitVec.toNat_setWidth_of_le (by decide)]
  exact (c.setWidth 8).isLt

theorem setWidth_ushiftRight (b : Byte) : b.setWidth 32 >>> 8 = 0#32 := by
  apply BitVec.eq_of_toNat_eq
  rw [BitVec.toNat_ushiftRight, BitVec.toNat_setWidth_of_le (by decide)]
  exact Nat.shiftRight_eq_zero _ _ b.isLt

/-- **A byte from the table** is eight clocks of the register. -/
theorem do1_makeCrcTable (crc : U32) (b : Byte) :
    do1 makeCrcTable crc b = feed crcPoly crc (byteBits b) := by
  have hhigh : (crc ^^^ b.setWidth 32) >>> 8 = crc >>> 8 := by
    rw [BitVec.ushiftRight_xor_distrib, setWidth_ushiftRight, BitVec.xor_zero]
  rw [do1, and_ff, makeCrcTable_getD (toNat_low_lt _), BitVec.ofNat_toNat, BitVec.setWidth_eq,
    Crc.feed_eq _ _ (by rw [length_byteBits]; decide), length_byteBits, word_byteBits,
    Crc.iterate_clock_eq 8 (crc ^^^ b.setWidth 32), hhigh]

theorem bufBits_cons (b : Byte) (buf : List Byte) :
    bufBits (b :: buf) = byteBits b ++ bufBits buf := rfl

theorem bufBits_append (buf buf' : List Byte) :
    bufBits (buf ++ buf') = bufBits buf ++ bufBits buf' := List.flatMap_append

theorem feed_bufBits_cons (crc : U32) (b : Byte) (buf : List Byte) :
    feed crcPoly crc (bufBits (b :: buf)) =
      feed crcPoly (do1 makeCrcTable crc b) (bufBits buf) := by
  rw [bufBits_cons, Crc.feed_append, do1_makeCrcTable]

theorem crcRest_makeCrcTable (crc : U32) (b : Byte) (buf : List Byte) :
    crcRest makeCrcTable crc b buf = feed crcPoly crc (bufBits (b :: buf)) := by
  induction buf generalizing crc b with
  | nil => rw [crcRest, feed_bufBits_cons]; rfl
  | cons b' buf ih => rw [crcRest, ih, ← feed_bufBits_cons]

theorem crcLoop_makeCrcTable (crc : U32) (buf : List Byte) :
    crcLoop makeCrcTable crc buf = feed crcPoly crc (bufBits buf) := by
  induction crc, buf using crcLoop.induct makeCrcTable with
  | case1 crc b₀ b₁ b₂ b₃ b₄ b₅ b₆ b₇ buf crc' crc'' ih =>
      rw [crcLoop]
      simp only [feed_bufBits_cons]
      exact ih
  | case2 crc => rfl
  | case3 crc b buf h => 
      rw [crcLoop, crcRest_makeCrcTable]
      exact h

theorem crc32With_makeCrcTable (crc : U32) (buf : List Byte) :
    crc32With makeCrcTable crc buf =
      feed crcPoly (crc ^^^ 0xffffffff) (bufBits buf) ^^^ 0xffffffff := by
  rw [crc32With, crcLoop_makeCrcTable]

/-- The polynomial of the checksum, from its terms. -/
noncomputable def crcGenerator : Polynomial (ZMod 2) :=
  Polynomial.X ^ 32 + ∑ p ∈ crcTerms.toFinset, Polynomial.X ^ p

theorem getMsbD_crcPoly (n : ℕ) (hn : n < 32) :
    crcPoly.getMsbD n = decide (n ∈ crcTerms) := by
  have hall : ∀ n < 32, crcPoly.getMsbD n = decide (n ∈ crcTerms) := by decide
  exact hall n hn

theorem generator_crcPoly : Crc.generator crcPoly = crcGenerator := by
  have hterm : ∀ n ∈ Finset.range 32, Polynomial.monomial n (Crc.bit (crcPoly.getMsbD n)) =
      if n ∈ crcTerms.toFinset then Polynomial.X ^ n else 0 := by
    intro n hn
    rw [getMsbD_crcPoly n (Finset.mem_range.mp hn)]
    by_cases hterm : n ∈ crcTerms
    · rw [if_pos (List.mem_toFinset.mpr hterm), decide_eq_true hterm]
      exact Polynomial.monomial_one_right_eq_X_pow n
    · rw [if_neg (mt List.mem_toFinset.mp hterm), decide_eq_false hterm]
      exact Polynomial.monomial_zero_right n
  have hsub : Finset.range 32 ∩ crcTerms.toFinset = crcTerms.toFinset :=
    Finset.inter_eq_right.mpr (by decide)
  rw [Crc.generator, crcGenerator, Crc.toPoly, Finset.sum_congr rfl hterm, Finset.sum_ite_mem, hsub]

theorem length_bufBits (buf : List Byte) : (bufBits buf).length = 8 * buf.length := by
  induction buf with
  | nil => rfl
  | cons b buf ih =>
      rw [bufBits_cons, List.length_append, length_byteBits, ih, List.length_cons]
      omega

theorem crc32_eq (crc : U32) (buf : List Byte) :
    crc32 crc buf = feed crcPoly (crc ^^^ 0xffffffff) (bufBits buf) ^^^ 0xffffffff := by
  rw [crc32, crcTable_eq, crc32With_makeCrcTable]

theorem crc32_append (crc : U32) (buf buf' : List Byte) :
    crc32 (crc32 crc buf) buf' = crc32 crc (buf ++ buf') := by
  rw [crc32_eq, crc32_eq, crc32_eq, bufBits_append, Crc.feed_append, BitVec.xor_assoc,
    BitVec.xor_self, BitVec.xor_zero]

/-- **The checksum is a remainder.**  Whichever table is used, and also when a buffer is given in
two pieces, it is what a division by the polynomial leaves of the buffer, with the register before
it and zeros behind it, and all its bits are inverted before and after. -/
theorem crc32_remainder (crc : U32) (buf buf' : List Byte) :
    Crc.toPoly (crc32 crc buf ^^^ 0xffffffff) =
      (Polynomial.X ^ (8 * buf.length) * Crc.toPoly (crc ^^^ 0xffffffff) +
        Polynomial.X ^ 32 * Crc.message (bufBits buf)) %ₘ crcGenerator ∧
    crc32With makeCrcTable crc buf = crc32 crc buf ∧
    crc32 (crc32 crc buf) buf' = crc32 crc (buf ++ buf') := by
  refine ⟨?_, ?_, crc32_append crc buf buf'⟩
  · rw [crc32_eq, BitVec.xor_assoc, BitVec.xor_self, BitVec.xor_zero,
      Crc.toPoly_feed (by decide), length_bufBits, generator_crcPoly]
  · rw [crc32, crcTable_eq]

example : crc32 0 [0x31, 0x32, 0x33, 0x34, 0x35, 0x36, 0x37, 0x38, 0x39] = 0xcbf43926 := by
  decide +kernel

/-! ## The block -/

/-- What `makeenv` takes the sum of. -/
def envData (envSize : ℤ) (block : List Byte) : List Byte := (block.drop 4).take (envSize - 4).toNat

/-- The first word of the block is the checksum of the environment behind it. -/
def Checked (envSize : ℤ) (block : List Byte) : Prop :=
  block.take 4 = longBytes (crc32 0 (envData envSize block))

/-- The two buffers differ, and only in `k` consecutive bits at most. -/
structure Burst (k : ℕ) (buf buf' : List Byte) : Prop where
  ne : buf ≠ buf'
  bits : ∃ before old new after, bufBits buf = before ++ old ++ after ∧
    bufBits buf' = before ++ new ++ after ∧ old.length = new.length ∧ old.length ≤ k

theorem byteBits_injective : Function.Injective byteBits := by
  intro a b h
  have hword := congrArg (fun bs ↦ (Crc.word 32 bs).setWidth 8) h
  simp only [word_byteBits, BitVec.setWidth_setWidth_of_le _ (by decide : 8 ≤ 32)] at hword
  rwa [BitVec.setWidth_eq, BitVec.setWidth_eq] at hword

theorem bufBits_injective {buf buf' : List Byte} (h : bufBits buf = bufBits buf') : buf = buf' := by
  induction buf generalizing buf' with
  | nil =>
      have hlen := congrArg List.length h
      rw [length_bufBits, length_bufBits] at hlen
      exact (List.length_eq_zero_iff.mp (by simpa using hlen.symm)).symm
  | cons b buf ih =>
      cases buf' with
      | nil => simp [bufBits, byteBits] at h
      | cons b' buf' =>
          obtain ⟨hb, hbuf⟩ := List.append_inj h (by rw [length_byteBits, length_byteBits])
          rw [byteBits_injective hb, ih hbuf]

theorem crc32_ne_of_burst (crc : U32) (h : Burst 32 buf buf') : crc32 crc buf ≠ crc32 crc buf' := by
  obtain ⟨before, old, new, after, hold, hnew, hlen, hle⟩ := h.bits
  have hne : old ≠ new := by
    rintro rfl
    exact h.ne (bufBits_injective (hold.trans hnew.symm))
  intro heq
  rw [crc32_eq, crc32_eq, hold, hnew] at heq
  exact Crc.feed_ne_of_burst msb_crcPoly _ before after hlen hle hne
    ((BitVec.xor_left_inj _).mp heq)

theorem longBytes_injective : Function.Injective longBytes := by
  intro x y h
  apply BitVec.eq_of_getLsbD_eq
  intro i hi
  have hbyte : x.extractLsb' (8 * (i / 8)) 8 = y.extractLsb' (8 * (i / 8)) 8 := by
    have hget := congrArg (fun bytes ↦ bytes.getD (i / 8) 0) h
    have hlt : i / 8 < 4 := by omega
    simpa [longBytes, List.getD_eq_getElem?_getD, hlt] using hget
  have hbit := congrArg (fun b ↦ b.getLsbD (i % 8)) hbyte
  simpa [BitVec.getLsbD_extractLsb', Nat.mod_lt, Nat.div_add_mod] using hbit

variable {write : ℕ → ℕ → ℤ} {args : List (List Byte)} {input block damaged : List Byte}
  {blockSize envSize : ℤ}

theorem bind_eq_ok {α β : Type} {x : Except Failure α} {f : α → Except Failure β} {b : β}
    (h : (x >>= f) = .ok b) : ∃ a, x = .ok a ∧ f a = .ok b := by
  cases x with
  | error e => cases h
  | ok a => exact ⟨a, rfl, h⟩

/-- What is written in pieces is the block. -/
theorem writeBlock_ok {fuel k : ℕ} {out : List Byte}
    (h : writeBlock write fuel k block = .ok out) : out = block := by
  induction fuel generalizing k block out with
  | zero =>
      cases block with
      | nil => exact (Except.ok.inj h).symm
      | cons b block => cases h
  | succ fuel ih =>
      cases block with
      | nil => exact (Except.ok.inj h).symm
      | cons b block =>
          rw [writeBlock] at h
          · split_ifs at h with herror
            obtain ⟨rest, hrest, h⟩ := bind_eq_ok h
            rw [← Except.ok.inj h, ih hrest, List.take_append_drop]
          · exact fun heq ↦ by cases heq

theorem store_ok {ptr : ℕ} {bytes stored : List Byte} (h : store block ptr bytes = .ok stored) :
    stored = block.take ptr ++ bytes ++ block.drop (ptr + bytes.length) := by
  rw [store] at h
  split_ifs at h with hfits
  exact (Except.ok.inj h).symm

theorem checked_makeenv (hargs : readSizes args = .ok (blockSize, envSize))
    (h : makeenv crc32 write args input = .ok block) : Checked envSize block := by
  obtain ⟨sizes, hsizes, h⟩ := bind_eq_ok h
  obtain rfl := Except.ok.inj (hargs.symm.trans hsizes)
  dsimp only at h
  split_ifs at h with hneg hshort
  · obtain ⟨loaded, hload, h⟩ := bind_eq_ok h
    cases h
  obtain ⟨loaded, hload, h⟩ := bind_eq_ok h
  obtain ⟨stored, hstore, h⟩ := bind_eq_ok h
  -- the sum is put where the four bytes are that it leaves out
  have hsum := length_longBytes (crc32 0 (envData envSize loaded))
  obtain rfl : block = longBytes (crc32 0 (envData envSize loaded)) ++ loaded.drop 4 := by
    rw [writeBlock_ok h, store_ok hstore, List.take_zero, List.nil_append, length_longBytes]
    rfl
  have henv : envData envSize (longBytes (crc32 0 (envData envSize loaded)) ++ loaded.drop 4) =
      envData envSize loaded := by
    rw [envData, List.drop_left' hsum]
    rfl
  rw [Checked, henv, List.take_left' hsum]

/-- **Damage is found.**  Whatever `makeenv` writes is checked.  It is not any more when the
checksum alone has changed, or the environment alone, and there only within 32 consecutive bits. -/
theorem damage_found (hargs : readSizes args = .ok (blockSize, envSize))
    (h : makeenv crc32 write args input = .ok block)
    (hdamage : damaged.take 4 ≠ block.take 4 ∧ envData envSize damaged = envData envSize block ∨
      damaged.take 4 = block.take 4 ∧ Burst 32 (envData envSize block) (envData envSize damaged)) :
    Checked envSize block ∧ ¬Checked envSize damaged := by
  have hchecked := checked_makeenv hargs h
  refine ⟨hchecked, ?_⟩
  intro hdamaged
  unfold Checked at hchecked hdamaged
  rcases hdamage with ⟨hsum, henv⟩ | ⟨hsum, hburst⟩
  · rw [henv, ← hchecked] at hdamaged
    exact hsum hdamaged
  · rw [hsum, hchecked] at hdamaged
    exact crc32_ne_of_burst 0 hburst (longBytes_injective hdamaged)

/-- A letter of an environment has changed, in a block of sixteen bytes. -/
theorem damage_found_letter : ∃ sum : List Byte,
    Checked 16 (sum ++ environment [chars ['a', '=', 'b']] 12) ∧
      ¬Checked 16 (sum ++ environment [chars ['a', '=', 'c']] 12) := by
  have hargs : readSizes [chars ['1', '0']] = .ok (16, 16) := rfl
  have hline : EnvLine (chars ['a', '=', 'b']) := ⟨by decide, by decide, by decide, by decide⟩
  have hblock : makeenv crc32 (fun _ _ ↦ 1) [chars ['1', '0']] (chars ['a', '=', 'b']) =
      .ok (longBytes (crc32 0 (environment [chars ['a', '=', 'b']] 12)) ++
        environment [chars ['a', '=', 'b']] 12) := by
    have h := @makeenv_eq (chars ['a', '=', 'b']) [chars ['a', '=', 'b']] crc32 (fun _ _ ↦ 1)
      [chars ['1', '0']] 16 16 12 0 hargs rfl rfl
      (fun line hmem ↦ List.mem_singleton.mp hmem ▸ hline)
      (.last _) (by decide) (fun _ n hn ↦ ⟨Int.one_pos, by omega⟩)
    rwa [List.replicate_zero, List.append_nil] at h
  refine ⟨_, damage_found hargs hblock (.inr ⟨rfl, by decide, ?_⟩)⟩
  exact ⟨byteBits 0x61 ++ byteBits 0x3d, byteBits 0x62, byteBits 0x63, bufBits (List.replicate 9 0),
    by decide, by decide, by decide, by decide⟩

end UBoot

end LiberaBase
