import LiberaBase.Access.UserCopy
import LiberaBase.Lib.Overwrite
import LiberaBase.Lib.WriteLog

/-!
# The blocks of the fa and dsc devices

Both devices give access to a block of 32-bit registers.  A seek moves the position to a multiple of
4, and a transfer takes a multiple of 4 bytes; neither looks at the offset that `pread` and `pwrite`
bring along.
-/

namespace LiberaBase

/-- What the functions of a block device work on: the position of the descriptor, `dev->buf` in
words, and the register accesses so far, oldest first. -/
structure BlockState where
  fPos : BitVec 64
  buf : List U32
  reads : List ℕ
  writes : List (ℕ × U32)

/-- The value returned, `*f_pos` afterwards, and the words copied to the user. -/
structure BlockResult where
  ret : ℤ
  pos : BitVec 64
  words : List U32

/-! ## The functions of both devices -/

def blockLlseek (size : ℕ) (fPos off : BitVec 64) (whence : ℕ) : ℤ × BitVec 64 :=
  let newpos := match whence with
    | 0 => some off
    | 1 => some (fPos + off)
    | 2 => some (BitVec.ofNat 64 size + off)
    | _ => none
  match newpos with
  | none => (-EINVAL, fPos)
  | some newpos =>
    if newpos.toInt < 0 ∨ size < newpos.toInt then (-EINVAL, fPos)
    else if newpos.toInt % 4 ≠ 0 then (-EINVAL, fPos)
    else (newpos.toInt, newpos)

/-- What a transfer begins with: the bytes to transfer, or what it returns at once. -/
def blockCount (size : ℕ) (interrupted : Bool) (count : U32) (pos : BitVec 64) : Except ℤ U32 :=
  if interrupted then .error (-ERESTARTSYS)
  else if size ≤ pos.toInt then .error 0
  else
    let count :=
      if size - pos.toInt < count.toNat then BitVec.ofInt 32 (size - pos.toInt) else count
    if count % 4 ≠ 0 then .error (-EINVAL) else .ok count

/-- The registers from a position on, one for each word. -/
def blockAddresses (block : ℕ) (pos : BitVec 64) (u32Count : U32) : List ℕ :=
  (List.range u32Count.toNat).map fun i ↦ block + (pos.setWidth 32 : U32).toNat + 4 * i

/-- `left` is what `copy_to_user` returns; `none` is a `dev->buf` that is too small. -/
def blockRead (block size : ℕ) (s : BlockState) (interrupted : Bool) (readl : ℕ → U32) (left : ℕ)
    (count : U32) (pos : BitVec 64) : Option (BlockResult × BlockState) :=
  match blockCount size interrupted count pos with
  | .error ret => some (⟨ret, pos, []⟩, s)
  | .ok count =>
    let u32Count := count / 4
    let addresses := blockAddresses block pos u32Count
    (Overwrite.overwrite s.buf 0 (addresses.map readl)).map fun buf ↦
      let s := { s with buf := buf, reads := s.reads ++ addresses }
      if left ≠ 0 then (⟨-EFAULT, pos, []⟩, s)
      else (⟨count.toNat, pos + count.setWidth 64, buf.take u32Count.toNat⟩, s)

def blockWrite (block size : ℕ) (s : BlockState) (interrupted : Bool) (data : UserCopy (ℕ → U32))
    (count : U32) (pos : BitVec 64) : Option (BlockResult × BlockState) :=
  match blockCount size interrupted count pos with
  | .error ret => some (⟨ret, pos, []⟩, s)
  | .ok count =>
    let u32Count := count / 4
    (Overwrite.overwrite s.buf 0 ((List.range u32Count.toNat).map data.value)).map fun buf ↦
      let s := { s with buf := buf }
      if data.left ≠ 0 then (⟨-EFAULT, pos, []⟩, s)
      else (⟨count.toNat, pos + count.setWidth 64, []⟩,
        { s with writes := s.writes ++ (blockAddresses block pos u32Count).zip buf })

def liberaFaLlseek : BitVec 64 → BitVec 64 → ℕ → ℤ × BitVec 64 := blockLlseek faiBlocksize
def liberaFaRead := blockRead faiBlock faiBlocksize
def liberaFaWrite := blockWrite faiBlock faiBlocksize

def liberaDscLlseek : BitVec 64 → BitVec 64 → ℕ → ℤ × BitVec 64 := blockLlseek dscBlocksize
def liberaDscRead := blockRead dscBlock dscBlocksize
def liberaDscWrite := blockWrite dscBlock dscBlocksize

/-! ## Calls on a descriptor -/

inductive BlockDevice where
  | fa
  | dsc
  deriving DecidableEq

inductive BlockOp where
  | llseek (off : BitVec 64) (whence : ℕ)
  /-- `read`, or `pread` at a position of its own -/
  | read (pos : Option (BitVec 64)) (interrupted : Bool) (readl : ℕ → U32) (left : ℕ) (count : U32)
  | write (pos : Option (BitVec 64)) (interrupted : Bool) (data : UserCopy (ℕ → U32)) (count : U32)

namespace BlockDevice

def block : BlockDevice → ℕ
  | fa => faiBlock
  | dsc => dscBlock

def size : BlockDevice → ℕ
  | fa => faiBlocksize
  | dsc => dscBlocksize

def llseek : BlockDevice → BitVec 64 → BitVec 64 → ℕ → ℤ × BitVec 64
  | fa => liberaFaLlseek
  | dsc => liberaDscLlseek

def read : BlockDevice → BlockState → Bool → (ℕ → U32) → ℕ → U32 → BitVec 64 →
    Option (BlockResult × BlockState)
  | fa => liberaFaRead
  | dsc => liberaDscRead

def write : BlockDevice → BlockState → Bool → UserCopy (ℕ → U32) → U32 → BitVec 64 →
    Option (BlockResult × BlockState)
  | fa => liberaFaWrite
  | dsc => liberaDscWrite

/-- A transfer at the position of the descriptor, which it moves, or at another one, which may not
be negative. -/
def transfer (s : BlockState) (pos : Option (BitVec 64))
    (call : BitVec 64 → Option (BlockResult × BlockState)) : Option (BlockResult × BlockState) :=
  match pos with
  | none => (call s.fPos).map fun (r, t) ↦ (r, { t with fPos := r.pos })
  | some pos => if pos.toInt < 0 then some (⟨-EINVAL, pos, []⟩, s) else call pos

def step (dev : BlockDevice) (s : BlockState) : BlockOp → Option (BlockResult × BlockState)
  | .llseek off whence =>
    let (ret, fPos) := dev.llseek s.fPos off whence
    some (⟨ret, fPos, []⟩, { s with fPos := fPos })
  | .read pos interrupted readl left count =>
    transfer s pos (dev.read s interrupted readl left count)
  | .write pos interrupted data count => transfer s pos (dev.write s interrupted data count)

end BlockDevice

/-! ## The checks of a transfer -/

/-- The bytes from the position to the end of the block, if not fewer are asked for. -/
def blockBytes (size : ℕ) (count : U32) (pos : BitVec 64) : ℕ := min count.toNat (size - pos.toNat)

section

variable {size : ℕ} {interrupted : Bool} {count : U32} {pos : BitVec 64}

theorem blockBytes_lt (hsize : size < 2 ^ 31) (count : U32) (pos : BitVec 64) :
    blockBytes size count pos < 2 ^ 31 :=
  (min_le_right _ _).trans_lt ((Nat.sub_le _ _).trans_lt hsize)

theorem toInt_of_nonneg (hpos : 0 ≤ pos.toInt) : pos.toInt = pos.toNat := by
  have hlt := pos.isLt
  rw [BitVec.toInt_eq_toNat_cond] at hpos ⊢
  split_ifs at hpos ⊢ <;> omega

/-- The checks, with the numbers that the words stand for. -/
theorem blockCount_eq (hsize : size < 2 ^ 31) (interrupted : Bool) (count : U32)
    (hpos : 0 ≤ pos.toInt) :
    blockCount size interrupted count pos =
      if interrupted then .error (-ERESTARTSYS)
      else if size ≤ pos.toNat then .error 0
      else if blockBytes size count pos % 4 ≠ 0 then .error (-EINVAL)
      else .ok (BitVec.ofNat 32 (blockBytes size count pos)) := by
  have hint := toInt_of_nonneg hpos
  have hbytes := blockBytes_lt hsize count pos
  unfold blockCount
  refine ite_congr rfl (fun _ ↦ rfl) fun _ ↦ ?_
  refine ite_congr (by rw [hint, Nat.cast_le]) (fun _ ↦ rfl) fun hin ↦ ?_
  have hclip : (if (size : ℤ) - pos.toInt < count.toNat then BitVec.ofInt 32 (size - pos.toInt)
      else count) = BitVec.ofNat 32 (blockBytes size count pos) := by
    have hroom : (size : ℤ) - pos.toInt = (size - pos.toNat : ℕ) := by omega
    rw [hroom, blockBytes, BitVec.ofInt_natCast]
    split_ifs with hclip
    · rw [min_eq_right (Nat.cast_lt.mp hclip).le]
    · rw [min_eq_left (not_lt.mp (mt Nat.cast_lt.mpr hclip)), BitVec.ofNat_toNat,
        BitVec.setWidth_eq]
  have hmod : BitVec.ofNat 32 (blockBytes size count pos) % 4 ≠ 0 ↔
      blockBytes size count pos % 4 ≠ 0 := by
    have hlt : blockBytes size count pos < 2 ^ 32 := hbytes.trans (by decide)
    rw [Ne, BitVec.toNat_eq, BitVec.toNat_umod, BitVec.toNat_ofNat, Nat.mod_eq_of_lt hlt]
    rfl
  dsimp only
  rw [hclip]
  exact if_congr hmod rfl rfl

/-- The transfer reaches the registers, and at least one of them. -/
def Transfers (size : ℕ) (interrupted : Bool) (count : U32) (pos : BitVec 64) : Prop :=
  interrupted = false ∧ 0 ≤ pos.toInt ∧ pos.toNat < size ∧ blockBytes size count pos ≠ 0 ∧
    blockBytes size count pos % 4 = 0

theorem blockCount_cases (hsize : size < 2 ^ 31) (interrupted : Bool) (count : U32)
    (hpos : 0 ≤ pos.toInt) :
    (∃ ret, blockCount size interrupted count pos = .error ret ∧
        ¬Transfers size interrupted count pos ∧
        (ret < 0 ∨ ret = 0 ∧ blockBytes size count pos = 0)) ∨
      ∃ c, blockCount size interrupted count pos = .ok c ∧ c.toNat = blockBytes size count pos ∧
        interrupted = false ∧ pos.toNat < size ∧ c.toNat % 4 = 0 := by
  have hbytes : blockBytes size count pos < 2 ^ 32 :=
    (blockBytes_lt hsize count pos).trans (by decide)
  rw [blockCount_eq hsize interrupted count hpos]
  split_ifs with hint hend hmod
  · exact .inl ⟨_, rfl, fun h ↦ absurd hint (ne_true_of_eq_false h.1), .inl (by decide)⟩
  · refine .inl ⟨_, rfl, fun h ↦ absurd hend (Nat.not_le.mpr h.2.2.1), .inr ⟨rfl, ?_⟩⟩
    rw [blockBytes, Nat.sub_eq_zero_of_le hend, Nat.min_zero]
  · exact .inl ⟨_, rfl, fun h ↦ hmod h.2.2.2.2, .inl (by decide)⟩
  · have hvalue : (BitVec.ofNat 32 (blockBytes size count pos)).toNat =
        blockBytes size count pos := by
      rw [BitVec.toNat_ofNat, Nat.mod_eq_of_lt hbytes]
    refine .inr ⟨_, rfl, hvalue, (Bool.not_eq_true _).mp hint, Nat.lt_of_not_le hend, ?_⟩
    rw [hvalue]
    exact not_not.mp hmod

/-! ## One transfer -/

/-- An error leaves the position; otherwise all the bytes were transferred, and the position is
behind them. -/
structure Moved (size : ℕ) (count : U32) (pos : BitVec 64) (r : BlockResult) : Prop where
  fails : r.ret < 0 → r.pos = pos
  moves : 0 ≤ r.ret → r.ret = blockBytes size count pos ∧ r.pos.toInt = pos.toInt + r.ret

/-- The addresses of `n` registers from a position on. -/
def blockRange (block : ℕ) (pos : BitVec 64) (n : ℕ) : List ℕ :=
  (List.range n).map fun i ↦ block + pos.toNat + 4 * i

variable {block left : ℕ} {s : BlockState} {readl : ℕ → U32} {c : U32}

theorem blockAddresses_eq (hsize : size < 2 ^ 31) (hpos : pos.toNat < size) (block : ℕ) (c : U32) :
    blockAddresses block pos (c / 4) = blockRange block pos (c.toNat / 4) := by
  have hlt : pos.toNat < 2 ^ 32 := by omega
  rw [blockAddresses, blockRange, BitVec.toNat_udiv, BitVec.toNat_setWidth, Nat.mod_eq_of_lt hlt]
  rfl

theorem toInt_add_count (hsize : size < 2 ^ 31) (hpos : pos.toNat < size) (c : U32) :
    (pos + c.setWidth 64).toInt = pos.toInt + c.toNat := by
  have hwidth : (c.setWidth 64).toNat = c.toNat := BitVec.toNat_setWidth_of_le (by decide)
  have hsum : (pos + c.setWidth 64).toNat = pos.toNat + c.toNat := by
    rw [BitVec.toNat_add, hwidth, Nat.mod_eq_of_lt (by omega)]
  rw [BitVec.toInt_eq_toNat_of_lt (by omega), BitVec.toInt_eq_toNat_of_lt (by omega), hsum,
    Nat.cast_add]

theorem moved_error {ret : ℤ} (h : ret < 0 ∨ ret = 0 ∧ blockBytes size count pos = 0)
    (words : List U32) : Moved size count pos ⟨ret, pos, words⟩ := by
  refine ⟨fun _ ↦ rfl, fun hret ↦ ?_⟩
  rcases h with h | ⟨rfl, hbytes⟩
  · exact absurd hret (not_le.mpr h)
  · exact ⟨by rw [hbytes]; rfl, (add_zero _).symm⟩

theorem blockBytes_of_ret {ret : ℤ} (h : ret < 0 ∨ ret = 0 ∧ blockBytes size count pos = 0)
    (hret : 0 ≤ ret) : blockBytes size count pos = 0 :=
  (h.resolve_left (not_lt.mpr hret)).2

theorem moved_ok (hsize : size < 2 ^ 31) (hpos : pos.toNat < size)
    (hc : c.toNat = blockBytes size count pos) (words : List U32) :
    Moved size count pos ⟨c.toNat, pos + c.setWidth 64, words⟩ := by
  refine ⟨fun hret ↦ absurd hret (not_lt.mpr (Int.natCast_nonneg _)), fun _ ↦ ⟨?_, ?_⟩⟩
  · exact congrArg Nat.cast hc
  · exact toInt_add_count hsize hpos c

theorem length_blockRange (block : ℕ) (pos : BitVec 64) (n : ℕ) :
    (blockRange block pos n).length = n := by
  rw [blockRange, List.length_map, List.length_range]

/-- The words that pass the checks are in the block, and `dev->buf` has room for them. -/
theorem words_le (hbuf : size ≤ 4 * s.buf.length) (hc : c.toNat = blockBytes size count pos)
    (hpos : pos.toNat < size) :
    pos.toNat + 4 * (c.toNat / 4) ≤ size ∧ c.toNat / 4 ≤ s.buf.length := by
  have hle : c.toNat ≤ size - pos.toNat := hc ▸ min_le_right _ _
  omega

theorem words_ne_zero_iff (hpos : 0 ≤ pos.toInt) (hc : c.toNat = blockBytes size count pos)
    (hint : interrupted = false) (hin : pos.toNat < size) (hmod : c.toNat % 4 = 0) :
    c.toNat / 4 ≠ 0 ↔ Transfers size interrupted count pos := by
  rw [Transfers, ← hc]
  constructor
  · intro hne
    exact ⟨hint, hpos, hin, by omega, hmod⟩
  · rintro ⟨-, -, -, hne, -⟩
    omega

theorem length_front {old new : List U32} (h : new.length ≤ old.length) :
    (new ++ old.drop new.length).length = old.length := by
  rw [List.length_append, List.length_drop]
  omega

theorem efault_lt : -EFAULT < 0 := by decide

theorem blockRead_spec (hsize : size < 2 ^ 31) (hbuf : size ≤ 4 * s.buf.length)
    (hpos : 0 ≤ pos.toInt) (block : ℕ) (interrupted : Bool) (readl : ℕ → U32) (left : ℕ)
    (count : U32) :
    ∃ r buf n, blockRead block size s interrupted readl left count pos =
        some (r, { s with buf := buf, reads := s.reads ++ blockRange block pos n }) ∧
      buf.length = s.buf.length ∧ (n ≠ 0 → pos.toNat + 4 * n ≤ size) ∧
      (n ≠ 0 ↔ Transfers size interrupted count pos) ∧ Moved size count pos r ∧
      (0 ≤ r.ret → 4 * n = blockBytes size count pos ∧
        r.words = (blockRange block pos n).map readl) := by
  unfold blockRead
  rcases blockCount_cases hsize interrupted count hpos with
    ⟨ret, hcount, hnot, hret⟩ | ⟨c, hcount, hc, hint, hin, hmod⟩
  · rw [hcount]
    refine ⟨⟨ret, pos, []⟩, s.buf, 0, ?_, rfl, fun h ↦ absurd rfl h, ?_, moved_error hret _,
      fun hle ↦ ⟨?_, rfl⟩⟩
    · exact congrArg (fun reads ↦ some (_, { s with reads := reads })) (List.append_nil _).symm
    · exact iff_of_false (not_not.mpr rfl) hnot
    · exact (blockBytes_of_ret hret hle).symm
  · obtain ⟨hrange, hroom⟩ := words_le hbuf hc hin
    have hlength : ((blockRange block pos (c.toNat / 4)).map readl).length = c.toNat / 4 := by
      rw [List.length_map, length_blockRange]
    have hwords : (c / 4).toNat = c.toNat / 4 := BitVec.toNat_udiv ..
    rw [hcount]
    dsimp only
    rw [blockAddresses_eq hsize hin, Overwrite.overwrite_front (hlength.le.trans hroom),
      Option.map_some, hwords]
    have hiff := words_ne_zero_iff hpos hc hint hin hmod
    by_cases hleft : left ≠ 0
    · refine ⟨⟨-EFAULT, pos, []⟩, _, _, congrArg some (if_pos hleft),
        length_front (hlength.le.trans hroom), fun _ ↦ hrange, hiff, moved_error (.inl efault_lt) _,
        fun hret ↦ absurd hret (not_le.mpr efault_lt)⟩
    · exact ⟨_, _, _, congrArg some (if_neg hleft), length_front (hlength.le.trans hroom),
        fun _ ↦ hrange, hiff, moved_ok hsize hin hc _,
        fun _ ↦ ⟨by omega, List.take_left' hlength⟩⟩

theorem blockWrite_spec (hsize : size < 2 ^ 31) (hbuf : size ≤ 4 * s.buf.length)
    (hpos : 0 ≤ pos.toInt) (block : ℕ) (interrupted : Bool) (data : UserCopy (ℕ → U32))
    (count : U32) :
    ∃ r buf n, blockWrite block size s interrupted data count pos =
        some (r, { s with
          buf := buf
          writes := s.writes ++ (blockRange block pos n).zip ((List.range n).map data.value) }) ∧
      buf.length = s.buf.length ∧ (n ≠ 0 → pos.toNat + 4 * n ≤ size) ∧
      (n ≠ 0 ↔ Transfers size interrupted count pos ∧ data.left = 0) ∧ Moved size count pos r ∧
      (0 ≤ r.ret → 4 * n = blockBytes size count pos) := by
  unfold blockWrite
  rcases blockCount_cases hsize interrupted count hpos with
    ⟨ret, hcount, hnot, hret⟩ | ⟨c, hcount, hc, hint, hin, hmod⟩
  · rw [hcount]
    have hnone : some (BlockResult.mk ret pos [], s) = some (⟨ret, pos, []⟩,
        { s with writes := s.writes ++ (blockRange block pos 0).zip [] }) :=
      congrArg (fun writes ↦ some (_, { s with writes := writes })) (List.append_nil _).symm
    refine ⟨_, s.buf, 0, hnone, rfl, fun h ↦ absurd rfl h, ?_, moved_error hret _,
      fun hle ↦ (blockBytes_of_ret hret hle).symm⟩
    exact iff_of_false (not_not.mpr rfl) fun h ↦ hnot h.1
  · obtain ⟨hrange, hroom⟩ := words_le hbuf hc hin
    have hlength : ((List.range (c.toNat / 4)).map data.value).length = c.toNat / 4 := by
      rw [List.length_map, List.length_range]
    have hwords : (c / 4).toNat = c.toNat / 4 := BitVec.toNat_udiv ..
    have hiff := words_ne_zero_iff hpos hc hint hin hmod
    rw [hcount]
    dsimp only
    rw [blockAddresses_eq hsize hin, hwords, Overwrite.overwrite_front (hlength.le.trans hroom),
      Option.map_some]
    by_cases hleft : data.left ≠ 0
    · refine ⟨⟨-EFAULT, pos, []⟩, _, 0, ?_, length_front (hlength.le.trans hroom),
        fun h ↦ absurd rfl h, iff_of_false (not_not.mpr rfl) fun h ↦ hleft h.2,
        moved_error (.inl efault_lt) _, fun hret ↦ absurd hret (not_le.mpr efault_lt)⟩
      rw [if_pos hleft, show (blockRange block pos 0).zip _ = [] from rfl, List.append_nil]
    · have hzip : (blockRange block pos (c.toNat / 4)).zip
          ((List.range (c.toNat / 4)).map data.value ++
            s.buf.drop ((List.range (c.toNat / 4)).map data.value).length) =
          (blockRange block pos (c.toNat / 4)).zip ((List.range (c.toNat / 4)).map data.value) := by
        rw [← List.append_nil (blockRange block pos (c.toNat / 4)),
          List.zip_append (by rw [length_blockRange, hlength])]
        simp
      rw [hzip]
      refine ⟨_, _, c.toNat / 4, congrArg some (if_neg hleft),
        length_front (hlength.le.trans hroom), fun _ ↦ hrange, ?_, moved_ok hsize hin hc _,
        fun _ ↦ ?_⟩
      · rw [hiff]
        exact (and_iff_left (not_not.mp hleft)).symm
      · omega

/-- A seek fails and leaves the position, or goes to a multiple of 4 in the block. -/
theorem blockLlseek_spec (size : ℕ) (fPos off : BitVec 64) (whence : ℕ) :
    (blockLlseek size fPos off whence).1 < 0 ∧ (blockLlseek size fPos off whence).2 = fPos ∨
      ∃ newpos, blockLlseek size fPos off whence = (newpos.toInt, newpos) ∧
        0 ≤ newpos.toInt ∧ newpos.toInt ≤ size ∧ newpos.toInt % 4 = 0 := by
  have heinval : -EINVAL < 0 := by decide
  have hcheck (newpos : BitVec 64) (result : ℤ × BitVec 64)
      (hresult : (if newpos.toInt < 0 ∨ size < newpos.toInt then (-EINVAL, fPos)
        else if newpos.toInt % 4 ≠ 0 then (-EINVAL, fPos) else (newpos.toInt, newpos)) = result) :
      result.1 < 0 ∧ result.2 = fPos ∨
        ∃ newpos, result = (newpos.toInt, newpos) ∧
          0 ≤ newpos.toInt ∧ newpos.toInt ≤ size ∧ newpos.toInt % 4 = 0 := by
    split_ifs at hresult with hrange hmod
    · exact .inl (hresult ▸ ⟨heinval, rfl⟩)
    · exact .inl (hresult ▸ ⟨heinval, rfl⟩)
    · obtain ⟨hneg, hend⟩ := not_or.mp hrange
      exact .inr ⟨newpos, hresult.symm, not_lt.mp hneg, not_lt.mp hend, not_not.mp hmod⟩
  match whence with
  | 0 => exact hcheck off _ rfl
  | 1 => exact hcheck (fPos + off) _ rfl
  | 2 => exact hcheck (BitVec.ofNat 64 size + off) _ rfl
  | _ + 3 => exact .inl ⟨heinval, rfl⟩

end

/-! ## Runs -/

namespace BlockDevice

theorem size_lt (dev : BlockDevice) : dev.size < 2 ^ 31 := by cases dev <;> decide

theorem read_eq (dev : BlockDevice) : dev.read = blockRead dev.block dev.size := by
  cases dev <;> rfl

theorem write_eq (dev : BlockDevice) : dev.write = blockWrite dev.block dev.size := by
  cases dev <;> rfl

theorem llseek_eq (dev : BlockDevice) : dev.llseek = blockLlseek dev.size := by cases dev <;> rfl

/-- The address of an aligned register of the block. -/
def InBlock (dev : BlockDevice) (a : ℕ) : Prop :=
  ∃ off, a = dev.block + off ∧ 4 ∣ off ∧ off + 4 ≤ dev.size

end BlockDevice

namespace BlockState

/-- A descriptor that was just opened, on a device with some words in its buffer. -/
def opened (dev : BlockDevice) (buf : ℕ → U32) : BlockState where
  fPos := 0
  buf := (List.range (dev.size / 4)).map buf
  reads := []
  writes := []

/-- What a register holds if the block behaves as memory. -/
def content (s : BlockState) (initial : ℕ → U32) (a : ℕ) : U32 :=
  (WriteLog.last s.writes a).getD (initial a)

def Aligned (s : BlockState) (dev : BlockDevice) : Prop :=
  (∀ a ∈ s.reads, dev.InBlock a) ∧ ∀ w ∈ s.writes, dev.InBlock w.1

/-- Where a transfer begins. -/
def position (s : BlockState) (pos : Option (BitVec 64)) : BitVec 64 := pos.getD s.fPos

end BlockState

namespace BlockDevice

/-- What the device promises of one call.  A failed call leaves the position; a transfer takes the
bytes up to the end of the block if not fewer are asked for; a write takes the words of the user,
and a read returns the words last written if the block behaves as memory. -/
def CallOk (dev : BlockDevice) (initial : ℕ → U32) (s : BlockState) (r : BlockResult)
    (t : BlockState) : BlockOp → Prop
  | .llseek _ _ => r.ret < 0 ∧ t.fPos = s.fPos ∨ r.ret = t.fPos.toInt
  | .read pos _ readl _ count =>
    Moved dev.size count (s.position pos) r ∧ t.fPos = (if pos.isSome then s.fPos else r.pos) ∧
      (0 ≤ r.ret → (∀ a, readl a = s.content initial a) → r.words =
        (blockRange dev.block (s.position pos) (r.ret / 4).toNat).map (s.content initial))
  | .write pos _ data count =>
    Moved dev.size count (s.position pos) r ∧ t.fPos = (if pos.isSome then s.fPos else r.pos) ∧
      (0 ≤ r.ret → t.writes = s.writes ++ (blockRange dev.block (s.position pos)
        (r.ret / 4).toNat).zip ((List.range (r.ret / 4).toNat).map data.value))

/-- All calls of a run are as promised, `dev->buf` has room for them, and they access aligned
registers of the block only. -/
def RunOk (dev : BlockDevice) (initial : ℕ → U32) : BlockState → List BlockOp → Prop
  | _, [] => True
  | s, op :: ops => ∃ r t, dev.step s op = some (r, t) ∧ dev.CallOk initial s r t op ∧
      t.Aligned dev ∧ dev.RunOk initial t ops

end BlockDevice

/-- The offset of a call is a multiple of 4, or the call does not come to the registers. -/
def BlockOp.Aligned (size : ℕ) : BlockOp → Prop
  | .llseek _ _ => True
  | .read pos interrupted _ _ count =>
    ∀ p ∈ pos, Transfers size interrupted count p → p.toNat % 4 = 0
  | .write pos interrupted data count =>
    ∀ p ∈ pos, Transfers size interrupted count p ∧ data.left = 0 → p.toNat % 4 = 0

/-- What holds between two calls, whatever the offsets were. -/
structure BlockState.Ready (s : BlockState) (dev : BlockDevice) : Prop where
  nonneg : 0 ≤ s.fPos.toInt
  inside : s.fPos.toInt ≤ dev.size
  multiple : s.fPos.toInt % 4 = 0
  room : dev.size ≤ 4 * s.buf.length

namespace BlockDevice

variable {dev : BlockDevice} {s : BlockState} {pos : BitVec 64} {n : ℕ}

/-- Registers that follow one another in the block are aligned if the first one is. -/
theorem inBlock_blockRange_iff (hn : n ≠ 0 → pos.toNat + 4 * n ≤ dev.size) :
    (∀ a ∈ blockRange dev.block pos n, dev.InBlock a) ↔ (n ≠ 0 → pos.toNat % 4 = 0) := by
  constructor
  · intro h hne
    have hfirst : dev.block + pos.toNat + 4 * 0 ∈ blockRange dev.block pos n :=
      List.mem_map.mpr ⟨0, List.mem_range.mpr (Nat.pos_of_ne_zero hne), rfl⟩
    obtain ⟨off, hoff, hdvd, -⟩ := h _ hfirst
    omega
  · intro h a ha
    obtain ⟨i, hi, rfl⟩ := List.mem_map.mp ha
    have hlt : i < n := List.mem_range.mp hi
    have hne : n ≠ 0 := by omega
    have hend := hn hne
    have hmod := h hne
    exact ⟨pos.toNat + 4 * i, Nat.add_assoc .., by omega, by omega⟩

theorem transfer_eq (s : BlockState) (pos : Option (BitVec 64))
    (call : BitVec 64 → Option (BlockResult × BlockState)) (h : 0 ≤ (s.position pos).toInt) :
    transfer s pos call = (call (s.position pos)).map fun (r, t) ↦
      (r, { t with fPos := if pos.isSome then t.fPos else r.pos }) := by
  cases pos with
  | none => rfl
  | some pos =>
    have hpos : ¬pos.toInt < 0 := not_lt.mpr h
    rw [transfer, if_neg hpos]
    exact (Option.map_id' ..).symm

theorem transfer_negative {p : BitVec 64} (h : p.toInt < 0) (s : BlockState)
    (call : BitVec 64 → Option (BlockResult × BlockState)) :
    transfer s (some p) call = some (⟨-EINVAL, p, []⟩, s) := if_pos h

/-- The position after a transfer of `n` words. -/
theorem ready_of_moved (hs : s.Ready dev) {t : BlockState} {pos : Option (BitVec 64)} {count : U32}
    {r : BlockResult} (hmoved : Moved dev.size count (s.position pos) r)
    (hbytes : 0 ≤ r.ret → 4 * n = blockBytes dev.size count (s.position pos))
    (hfPos : t.fPos = if pos.isSome then s.fPos else r.pos)
    (hlength : t.buf.length = s.buf.length) : t.Ready dev := by
  have hroom : dev.size ≤ 4 * t.buf.length := hlength ▸ hs.room
  have hkeep (h : t.fPos = s.fPos) : t.Ready dev :=
    ⟨h ▸ hs.nonneg, h ▸ hs.inside, h ▸ hs.multiple, hroom⟩
  cases pos with
  | some pos => exact hkeep hfPos
  | none =>
    rcases lt_or_ge r.ret 0 with hneg | hret
    · exact hkeep (hfPos.trans (hmoved.fails hneg))
    · obtain ⟨hret', hmoves⟩ := hmoved.moves hret
      have hfour : 4 * n = blockBytes dev.size count s.fPos := hbytes hret
      have hfit : blockBytes dev.size count s.fPos ≤ dev.size - s.fPos.toNat := min_le_right _ _
      have hwords : r.ret = (4 * n : ℕ) := hret'.trans (congrArg Nat.cast hfour.symm)
      have hto : t.fPos.toInt = s.fPos.toInt + (4 * n : ℕ) := by
        rw [← hwords, hfPos]
        exact hmoves
      have hnat := toInt_of_nonneg hs.nonneg
      have hinside := hs.inside
      have hmultiple := hs.multiple
      exact ⟨by omega, by omega, by omega, hroom⟩

theorem position_cases (hs : s.Ready dev) (pos : Option (BitVec 64)) :
    0 ≤ (s.position pos).toInt ∨ ∃ p, pos = some p ∧ p.toInt < 0 := by
  cases pos with
  | none => exact .inl hs.nonneg
  | some p => exact (le_or_gt 0 p.toInt).imp_right fun hneg ↦ ⟨p, rfl, hneg⟩

/-- The position of the descriptor is a multiple of 4, so it is an offset given that counts. -/
theorem aligned_offset_iff (hs : s.Ready dev) {pos : Option (BitVec 64)} {P : BitVec 64 → Prop}
    (hP : n ≠ 0 ↔ P (s.position pos)) :
    (n ≠ 0 → (s.position pos).toNat % 4 = 0) ↔ ∀ p ∈ pos, P p → p.toNat % 4 = 0 := by
  rw [hP]
  cases pos with
  | some pos => exact ⟨fun h p hp ↦ Option.mem_some.mp hp ▸ h, fun h ↦ h pos rfl⟩
  | none =>
    have hnat := toInt_of_nonneg hs.nonneg
    have hmultiple := hs.multiple
    have hoff : s.fPos.toNat % 4 = 0 := by omega
    exact iff_of_true (fun _ ↦ hoff) fun p hp ↦ absurd hp (Option.not_mem_none p)

theorem read_step (initial : ℕ → U32) (hs : s.Ready dev) (ha : s.Aligned dev)
    {pos : Option (BitVec 64)} (hpos : 0 ≤ (s.position pos).toInt) (interrupted : Bool)
    (readl : ℕ → U32) (left : ℕ) (count : U32) :
    ∃ r t, dev.step s (.read pos interrupted readl left count) = some (r, t) ∧
      dev.CallOk initial s r t (.read pos interrupted readl left count) ∧ t.Ready dev ∧
      (t.Aligned dev ↔
        (BlockOp.read pos interrupted readl left count).Aligned dev.size) := by
  obtain ⟨r, buf, n, hcall, hlength, hrange, hne, hmoved, hsuccess⟩ :=
    blockRead_spec dev.size_lt hs.room hpos dev.block interrupted readl left count
  have hstep : dev.step s (.read pos interrupted readl left count) = some (r, { s with
      fPos := if pos.isSome then s.fPos else r.pos
      buf := buf
      reads := s.reads ++ blockRange dev.block (s.position pos) n }) := by
    rw [step, transfer_eq s pos _ hpos, read_eq, hcall]
    rfl
  refine ⟨r, _, hstep, ⟨hmoved, rfl, fun hret hmem ↦ ?_⟩, ?_, ?_⟩
  · obtain ⟨hbytes, hwords⟩ := hsuccess hret
    have hcount : (r.ret / 4).toNat = n := by
      have hret' := (hmoved.moves hret).1
      omega
    rw [hwords, hcount, funext hmem]
  · exact ready_of_moved hs hmoved (fun hret ↦ (hsuccess hret).1) rfl hlength
  · refine Iff.trans ?_ ((inBlock_blockRange_iff hrange).trans (aligned_offset_iff hs hne))
    constructor
    · intro h a hmem
      exact h.1 a (List.mem_append_right _ hmem)
    · intro h
      refine ⟨fun a hmem ↦ ?_, ha.2⟩
      exact (List.mem_append.mp hmem).elim (ha.1 a) (h a)

theorem write_step (initial : ℕ → U32) (hs : s.Ready dev) (ha : s.Aligned dev)
    {pos : Option (BitVec 64)} (hpos : 0 ≤ (s.position pos).toInt) (interrupted : Bool)
    (data : UserCopy (ℕ → U32)) (count : U32) :
    ∃ r t, dev.step s (.write pos interrupted data count) = some (r, t) ∧
      dev.CallOk initial s r t (.write pos interrupted data count) ∧ t.Ready dev ∧
      (t.Aligned dev ↔ (BlockOp.write pos interrupted data count).Aligned dev.size) := by
  obtain ⟨r, buf, n, hcall, hlength, hrange, hne, hmoved, hsuccess⟩ :=
    blockWrite_spec dev.size_lt hs.room hpos dev.block interrupted data count
  have hstep : dev.step s (.write pos interrupted data count) = some (r, { s with
      fPos := if pos.isSome then s.fPos else r.pos
      buf := buf
      writes := s.writes ++
        (blockRange dev.block (s.position pos) n).zip ((List.range n).map data.value) }) := by
    rw [step, transfer_eq s pos _ hpos, write_eq, hcall]
    rfl
  refine ⟨r, _, hstep, ⟨hmoved, rfl, fun hret ↦ ?_⟩, ?_, ?_⟩
  · have hbytes := hsuccess hret
    have hcount : (r.ret / 4).toNat = n := by
      have hret' := (hmoved.moves hret).1
      omega
    rw [hcount]
  · exact ready_of_moved hs hmoved hsuccess rfl hlength
  · refine Iff.trans ?_ ((inBlock_blockRange_iff hrange).trans (aligned_offset_iff hs hne))
    have hfst : ((blockRange dev.block (s.position pos) n).zip
        ((List.range n).map data.value)).map Prod.fst =
        blockRange dev.block (s.position pos) n := by
      refine List.map_fst_zip (le_of_eq ?_)
      rw [length_blockRange, List.length_map, List.length_range]
    constructor
    · intro h a hmem
      rw [← hfst] at hmem
      obtain ⟨w, hw, rfl⟩ := List.mem_map.mp hmem
      exact h.2 w (List.mem_append_right _ hw)
    · intro h
      refine ⟨ha.1, fun w hmem ↦ ?_⟩
      refine (List.mem_append.mp hmem).elim (ha.2 w) fun hw ↦ h _ ?_
      rw [← hfst]
      exact List.mem_map_of_mem hw

/-- A call is as promised at any offset, but the registers it accesses are aligned only if its
offset is. -/
theorem step_spec (initial : ℕ → U32) (hs : s.Ready dev) (ha : s.Aligned dev) (op : BlockOp) :
    ∃ r t, dev.step s op = some (r, t) ∧ dev.CallOk initial s r t op ∧ t.Ready dev ∧
      (t.Aligned dev ↔ op.Aligned dev.size) := by
  have hkeep (count : U32) (p : BitVec 64) : Moved dev.size count p ⟨-EINVAL, p, []⟩ :=
    moved_error (.inl (by decide)) []
  have hret : ¬(0 : ℤ) ≤ -EINVAL := by decide
  cases op with
  | llseek off whence =>
    have hstep : dev.step s (.llseek off whence) =
        some (⟨(blockLlseek dev.size s.fPos off whence).1,
          (blockLlseek dev.size s.fPos off whence).2, []⟩,
          { s with fPos := (blockLlseek dev.size s.fPos off whence).2 }) := by
      rw [step, llseek_eq]
    refine ⟨_, _, hstep, ?_⟩
    rcases blockLlseek_spec dev.size s.fPos off whence with
      ⟨hneg, hfPos⟩ | ⟨newpos, hseek, hnonneg, hinside, hmultiple⟩
    · rw [hfPos]
      exact ⟨.inl ⟨hneg, rfl⟩, hs, iff_of_true ha trivial⟩
    · rw [hseek]
      exact ⟨.inr rfl, ⟨hnonneg, hinside, hmultiple, hs.room⟩, iff_of_true ha trivial⟩
  | read pos interrupted readl left count =>
    rcases position_cases hs pos with hpos | ⟨p, rfl, hneg⟩
    · exact read_step initial hs ha hpos interrupted readl left count
    · refine ⟨_, _, transfer_negative hneg s _, ⟨hkeep count p, rfl, fun h ↦ absurd h hret⟩, hs, ?_⟩
      refine iff_of_true ha fun q hq h ↦ absurd h.2.1 (not_le.mpr ?_)
      exact Option.mem_some.mp hq ▸ hneg
  | write pos interrupted data count =>
    rcases position_cases hs pos with hpos | ⟨p, rfl, hneg⟩
    · exact write_step initial hs ha hpos interrupted data count
    · refine ⟨_, _, transfer_negative hneg s _, ⟨hkeep count p, rfl, fun h ↦ absurd h hret⟩, hs, ?_⟩
      refine iff_of_true ha fun q hq h ↦ absurd h.1.2.1 (not_le.mpr ?_)
      exact Option.mem_some.mp hq ▸ hneg

theorem runOk_iff (initial : ℕ → U32) (hs : s.Ready dev) (ha : s.Aligned dev) (ops : List BlockOp) :
    dev.RunOk initial s ops ↔ ∀ op ∈ ops, op.Aligned dev.size := by
  induction ops generalizing s with
  | nil => exact iff_of_true trivial fun op hop ↦ absurd hop List.not_mem_nil
  | cons op ops ih =>
    obtain ⟨r, t, hstep, hok, hready, haligned⟩ := step_spec initial hs ha op
    rw [List.forall_mem_cons, ← haligned]
    constructor
    · rintro ⟨r', t', hstep', -, ht, hrun⟩
      obtain ⟨rfl, rfl⟩ := Prod.mk.inj (Option.some.inj (hstep.symm.trans hstep'))
      exact ⟨ht, (ih hready ht).mp hrun⟩
    · rintro ⟨ht, hops⟩
      exact ⟨r, t, hstep, hok, ht, (ih hready ht).mpr hops⟩

theorem ready_opened (dev : BlockDevice) (buf : ℕ → U32) :
    (BlockState.opened dev buf).Ready dev where
  nonneg := le_rfl
  inside := Int.natCast_nonneg _
  multiple := rfl
  room := by
    rw [BlockState.opened, List.length_map, List.length_range]
    cases dev <;> decide

theorem aligned_opened (dev : BlockDevice) (buf : ℕ → U32) :
    (BlockState.opened dev buf).Aligned dev :=
  ⟨fun _ h ↦ absurd h List.not_mem_nil, fun _ h ↦ absurd h List.not_mem_nil⟩

/-- Any run of seeks and transfers is as promised if and only if `pread` and `pwrite` come to the
registers at multiples of 4 only. -/
theorem blockRun_iff (dev : BlockDevice) (initial buf : ℕ → U32) (ops : List BlockOp) :
    dev.RunOk initial (BlockState.opened dev buf) ops ↔ ∀ op ∈ ops, op.Aligned dev.size :=
  runOk_iff initial (ready_opened dev buf) (aligned_opened dev buf) ops

/-- A `pread` of 4 bytes at offset 2 reads a register at an address that is not aligned. -/
theorem pread_unaligned : ¬BlockDevice.fa.RunOk (fun _ ↦ 0) (BlockState.opened .fa fun _ ↦ 0)
    [.read (some 2) false (fun _ ↦ 0) 0 4] := by
  rw [runOk_iff _ (ready_opened _ _) (aligned_opened _ _), List.forall_mem_singleton]
  intro h
  have htransfers : Transfers fa.size false 4 2 := by
    refine ⟨rfl, ?_, ?_, ?_, ?_⟩ <;> decide
  exact absurd (h 2 rfl htransfers) (by decide)

end BlockDevice

end LiberaBase
