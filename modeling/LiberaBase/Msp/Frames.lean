import LiberaBase.Lib.Overwrite
import LiberaBase.Msp.Loader

/-!
# Frames in `FRAME_BYTES`

`frame_gen` builds a frame in `FRAME_BYTES`, and `checksum` puts the two checksums behind it: the
one of the bytes at even places first, also behind an odd number of bytes.  What counts the bytes
from the address on is a `char`.
-/

namespace LiberaBase

namespace Msp

open Overwrite

/-! ## The buffer -/

def frameBytesSize : ℕ := 270

/-- An assignment to an element of `FRAME_BYTES`; `none` is a place behind its end. -/
def putByte (frameBytes : List U8) (i : ℕ) (b : U8) : Option (List U8) :=
  if i < frameBytes.length then some (frameBytes.set i b) else none

/-- The loop that copies a frame into `FRAME_BYTES`. -/
def putBytes : List U8 → ℕ → List U8 → Option (List U8)
  | frameBytes, _, [] => some frameBytes
  | frameBytes, i, b :: bytes =>
    (putByte frameBytes i b).bind fun frameBytes ↦ putBytes frameBytes (i + 1) bytes

/-- `checksum`: what `FRAME_BYTES` and `frame_lenght` are afterwards. -/
def putChecksum (frameBytes : List U8) (frameLenght : ℕ) : Option (List U8 × ℕ) :=
  let cksL := cks 0 (frameBytes.take frameLenght)
  let cksH := cks 1 (frameBytes.take frameLenght)
  (putByte frameBytes frameLenght (~~~cksL)).bind fun frameBytes ↦
    (putByte frameBytes (frameLenght + 1) (~~~cksH)).map fun frameBytes ↦
      (frameBytes, frameLenght + 2)

/-- `frame_gen` up to `MSP_WRITE`: what `FRAME_BYTES` and `frame_lenght` are afterwards. -/
def putFrame (frameBytes : List U8) (line : Line) : Option (List U8 × ℕ) :=
  let n := line.numberOfDataBytes
  let a := [BSL_SYNC, BSL_TXBLK, n + 4, n + 4, line.addressL, line.addressH, n, 0] ++ line.data
  (putBytes frameBytes 0 a).bind fun frameBytes ↦ putChecksum frameBytes (8 + n.toNat)

variable {frameBytes bytes : List U8} {i : ℕ}

theorem putByte_eq (frameBytes : List U8) (i : ℕ) (b : U8) :
    putByte frameBytes i b = overwrite frameBytes i [b] := by
  by_cases h : i < frameBytes.length
  · rw [putByte, if_pos h, overwrite_singleton h]
  · rw [putByte, if_neg h, overwrite, if_neg (by simp; omega)]

theorem putBytes_eq (h : i ≤ frameBytes.length) :
    putBytes frameBytes i bytes = overwrite frameBytes i bytes := by
  induction bytes generalizing frameBytes i with
  | nil => exact (overwrite_nil h).symm
  | cons b bytes ih =>
      rw [putBytes, putByte_eq, show b :: bytes = [b] ++ bytes from rfl, overwrite_append]
      by_cases hfits : i + [b].length ≤ frameBytes.length
      · rw [overwrite_fits hfits, Option.bind_some, Option.bind_some]
        exact ih (hfits.trans_eq (length_overwritten hfits).symm)
      · rw [overwrite, if_neg hfits]
        rfl

/-- The checksum goes behind the frame. -/
theorem putChecksum_eq (frame rest : List U8) (hrest : 2 ≤ rest.length) :
    putChecksum (frame ++ rest) frame.length =
      some (checksum frame ++ rest.drop 2, frame.length + 2) := by
  have hpair : overwrite (frame ++ rest) frame.length [~~~cks 0 frame, ~~~cks 1 frame] =
      some (checksum frame ++ rest.drop 2) := by
    have hfits :
        frame.length + [~~~cks 0 frame, ~~~cks 1 frame].length ≤ (frame ++ rest).length := by
      rw [List.length_append]
      exact Nat.add_le_add_left hrest _
    have hover : (frame ++ rest).drop (frame.length + 2) = rest.drop 2 := by
      rw [List.drop_append, List.drop_of_length_le (Nat.le_add_right _ _), List.nil_append,
        Nat.add_sub_cancel_left]
    rw [overwrite_fits hfits, List.take_left]
    exact congrArg (fun rest ↦ some (checksum frame ++ rest)) hover
  have happend := overwrite_append (frame ++ rest) [~~~cks 0 frame] [~~~cks 1 frame] frame.length
  rw [putChecksum, List.take_left]
  simp only [putByte_eq]
  have hmap := congrArg (Option.map fun frameBytes ↦ (frameBytes, frame.length + 2)) happend
  rw [Option.map_bind] at hmap
  exact hmap.symm.trans (congrArg (Option.map _) hpair)

/-- The frame lies at the beginning of `FRAME_BYTES`, and what was behind it is still there. -/
theorem putFrame_eq {line : Line} (hdata : line.data.length = line.numberOfDataBytes.toNat)
    (hfits : line.data.length + 10 ≤ frameBytes.length) : putFrame frameBytes line =
      some (frameGen line ++ frameBytes.drop (line.data.length + 10), line.data.length + 10) := by
  let a := [BSL_SYNC, BSL_TXBLK, line.numberOfDataBytes + 4, line.numberOfDataBytes + 4,
    line.addressL, line.addressH, line.numberOfDataBytes, 0] ++ line.data
  have hlen : a.length = 8 + line.data.length := by
    rw [List.length_append]
    rfl
  have hput : putBytes frameBytes 0 a = some (a ++ frameBytes.drop a.length) := by
    rw [putBytes_eq (Nat.zero_le _), overwrite_fits (by omega), Nat.zero_add]
    rfl
  have hrest : 2 ≤ (frameBytes.drop a.length).length := by
    rw [List.length_drop]
    omega
  have hdrop : (frameBytes.drop a.length).drop 2 = frameBytes.drop (line.data.length + 10) := by
    rw [List.drop_drop, hlen]
    congr 1
    omega
  have hcks := putChecksum_eq a (frameBytes.drop a.length) hrest
  rw [hdrop, hlen] at hcks
  rw [putFrame, show putBytes frameBytes 0 _ = _ from hput, Option.bind_some, ← hdata, hlen, hcks]
  exact congrArg some (Prod.ext rfl (by omega))

/-! ## The checksums -/

/-- The exclusive or of some bytes. -/
def xorAll (bytes : List U8) : U8 := bytes.foldl (· ^^^ ·) 0

theorem cks_concat (odd : ℕ) (bytes : List U8) (b : U8) : cks odd (bytes ++ [b]) =
    if bytes.length % 2 = odd then cks odd bytes ^^^ b else cks odd bytes := by
  rw [cks, List.zipIdx_append, List.foldl_append]
  simp [cks]

theorem xorAll_concat (bytes : List U8) (b : U8) : xorAll (bytes ++ [b]) = xorAll bytes ^^^ b := by
  rw [xorAll, List.foldl_append]
  rfl

theorem xorAll_append (first second : List U8) :
    xorAll (first ++ second) = xorAll first ^^^ xorAll second := by
  induction second using List.reverseRecOn with
  | nil => simp [xorAll]
  | append_singleton second b ih =>
      rw [← List.append_assoc, xorAll_concat, ih, xorAll_concat, BitVec.xor_assoc]

/-- Both checksums together are the exclusive or of all bytes. -/
theorem cks_xor_cks (bytes : List U8) : cks 0 bytes ^^^ cks 1 bytes = xorAll bytes := by
  induction bytes using List.reverseRecOn with
  | nil => rfl
  | append_singleton bytes b ih =>
      rw [cks_concat, cks_concat, xorAll_concat, ← ih]
      rcases Nat.mod_two_eq_zero_or_one bytes.length with h | h
      · rw [if_pos h, if_neg (by omega), BitVec.xor_assoc, BitVec.xor_comm b, ← BitVec.xor_assoc]
      · rw [if_neg (by omega), if_pos h, BitVec.xor_assoc]

theorem xor_not_eq_iff (x y : U8) : x ^^^ ~~~y = 0xff ↔ x = y := by
  have hones : (0xff : U8) = ~~~0#8 := by decide
  rw [← BitVec.not_xor_right, hones, BitVec.not_inj, BitVec.xor_eq_zero_iff]

/-- The checksums are right behind an even number of bytes, and behind an odd one if they are the
same. -/
theorem checksum_sums_iff (bytes : List U8) :
    cks 0 (checksum bytes) = 0xff ∧ cks 1 (checksum bytes) = 0xff ↔
      bytes.length % 2 = 0 ∨ xorAll bytes = 0 := by
  have hsplit : checksum bytes = bytes ++ [~~~cks 0 bytes] ++ [~~~cks 1 bytes] := by
    rw [List.append_assoc]
    rfl
  have hlen : (bytes ++ [~~~cks 0 bytes]).length = bytes.length + 1 := List.length_append
  have hsame : xorAll bytes = 0 ↔ cks 0 bytes = cks 1 bytes := by
    rw [← cks_xor_cks]
    exact BitVec.xor_eq_zero_iff
  rw [hsplit, cks_concat, cks_concat, cks_concat, cks_concat, hlen, hsame]
  rcases Nat.mod_two_eq_zero_or_one bytes.length with h | h
  · have hnext : (bytes.length + 1) % 2 = 1 := by omega
    simp only [h, hnext, Nat.zero_ne_one, Nat.one_ne_zero, if_true, if_false, xor_not_eq_iff,
      and_self,
      true_or]
  · have hnext : (bytes.length + 1) % 2 = 0 := by omega
    simp only [h, hnext, Nat.zero_ne_one, Nat.one_ne_zero, if_true, if_false, xor_not_eq_iff,
      false_or]
    exact ⟨And.left, fun heq ↦ ⟨heq, heq.symm⟩⟩

/-! ## The checks of the boot loader -/

/-- What the boot loader checks of the frame of a record: its header, that its two lengths count the
bytes from the address to the end of the data, its fields, and the checksums. -/
structure PassesChecks (r : Record) (frameBytes : List U8) (frameLenght : ℕ) : Prop where
  header : frameBytes[0]? = some 0x80 ∧ frameBytes[1]? = some 0x12
  lengths : ∃ l : U8, frameBytes[2]? = some l ∧ frameBytes[3]? = some l ∧
    l.toNat = r.data.length + 4
  address : frameBytes[4]? = some (r.address.extractLsb' 0 8) ∧
    frameBytes[5]? = some (r.address.extractLsb' 8 8)
  count : frameBytes[6]? = some (BitVec.ofNat 8 r.data.length) ∧ frameBytes[7]? = some 0
  data : (frameBytes.drop 8).take r.data.length = r.data
  total : frameLenght = r.data.length + 10 ∧ frameLenght ≤ frameBytesSize
  sums : cks 0 (frameBytes.take frameLenght) = 0xff ∧ cks 1 (frameBytes.take frameLenght) = 0xff

/-- The length fits into a `char`, and is even unless the exclusive or of all bytes is 0. -/
def Framable (r : Record) : Prop :=
  r.data.length ≤ 251 ∧ (r.data.length % 2 = 0 ∨
    0x92 ^^^ r.address.extractLsb' 0 8 ^^^ r.address.extractLsb' 8 8 ^^^
      BitVec.ofNat 8 r.data.length ^^^ xorAll r.data = 0)

theorem Record.toNat_numberOfDataBytes (r : Record) :
    r.line.numberOfDataBytes.toNat = r.data.length := by
  rw [Record.line, BitVec.toNat_ofNat, Nat.mod_eq_of_lt r.length_lt]

theorem length_frameGen (line : Line) : (frameGen line).length = line.data.length + 10 := by
  simp [frameGen, checksum]

/-- The lengths cancel each other. -/
theorem xorAll_header (l al ah n : U8) (data : List U8) :
    xorAll ([BSL_SYNC, BSL_TXBLK, l, l, al, ah, n, 0] ++ data) =
      0x92 ^^^ al ^^^ ah ^^^ n ^^^ xorAll data := by
  have hheader : xorAll [BSL_SYNC, BSL_TXBLK, l, l, al, ah, n, 0] = 0x92 ^^^ al ^^^ ah ^^^ n := by
    have hcommand : (0 : U8) ^^^ BSL_SYNC ^^^ BSL_TXBLK = 0x92 := by decide
    simp only [xorAll, List.foldl_cons, List.foldl_nil, hcommand]
    rw [BitVec.xor_assoc 0x92 l, BitVec.xor_self]
    simp
  rw [xorAll_append, hheader]

/-- **A frame passes the checks of the boot loader** exactly if the record is framable. -/
theorem frame_passes_iff (r : Record) (old : Vector U8 frameBytesSize) :
    ∃ frameBytes frameLenght, putFrame old.toList r.line = some (frameBytes, frameLenght) ∧
      (PassesChecks r frameBytes frameLenght ↔ Framable r) := by
  have hlt := r.length_lt
  have hroom : r.line.data.length + 10 ≤ old.toList.length := by
    rw [Vector.length_toList]
    exact Nat.add_le_add_right hlt.le 10 |>.trans (by decide)
  have hframe := length_frameGen r.line
  have htake : (frameGen r.line ++ old.toList.drop (r.line.data.length + 10)).take
      (r.line.data.length + 10) = frameGen r.line := List.take_left' hframe
  have hdrop : (frameGen r.line ++ old.toList.drop (r.line.data.length + 10)).drop 8 =
      r.data ++ _ ++ old.toList.drop (r.line.data.length + 10) := rfl
  have hsums := checksum_sums_iff ([BSL_SYNC, BSL_TXBLK, r.line.numberOfDataBytes + 4,
    r.line.numberOfDataBytes + 4, r.line.addressL, r.line.addressH, r.line.numberOfDataBytes, 0] ++
      r.line.data)
  have heven : (8 + r.data.length) % 2 = 0 ↔ r.data.length % 2 = 0 := by omega
  rw [xorAll_header, List.length_append] at hsums
  refine ⟨_, _, putFrame_eq r.toNat_numberOfDataBytes.symm hroom, ?_⟩
  constructor
  · intro h
    obtain ⟨l, hl, -, hlen⟩ := h.lengths
    obtain rfl : r.line.numberOfDataBytes + 4 = l := Option.some.inj hl
    have hboth := h.sums
    rw [htake] at hboth
    exact ⟨(length_fits r).mp hlen, (hsums.mp hboth).imp_left heven.mp⟩
  · rintro ⟨hfits, hparity⟩
    refine ⟨⟨rfl, rfl⟩, ⟨_, rfl, rfl, (length_fits r).mpr hfits⟩, ⟨rfl, rfl⟩, ⟨rfl, rfl⟩, ?_,
      ⟨rfl, Nat.add_le_add_right hlt.le 10 |>.trans (by decide)⟩, ?_⟩
    · rw [hdrop, List.append_assoc, List.take_left]
    · rw [htake]
      exact hsums.mpr (hparity.imp_left heven.mpr)

def shortRecord : Record := ⟨0x1000, 0, [0], by decide⟩

def longRecord : Record :=
  ⟨0x1000, 0, List.replicate 252 0, by rw [List.length_replicate]; decide⟩

/-- The frame of one byte has its checksums at the wrong places; the lengths of 252 bytes are 0. -/
theorem frame_fails : (∃ frameBytes frameLenght,
    putFrame (Vector.replicate frameBytesSize 0).toList shortRecord.line =
      some (frameBytes, frameLenght) ∧ ¬PassesChecks shortRecord frameBytes frameLenght) ∧
    ∃ frameBytes frameLenght,
      putFrame (Vector.replicate frameBytesSize 0).toList longRecord.line =
        some (frameBytes, frameLenght) ∧ ¬PassesChecks longRecord frameBytes frameLenght := by
  have hsize : (Vector.replicate frameBytesSize (0 : U8)).toList.length = 270 :=
    Vector.length_toList
  have hlong : longRecord.line.data.length = 252 := List.length_replicate
  refine ⟨⟨_, _, putFrame_eq rfl (by rw [hsize]; decide), fun h ↦ ?_⟩,
    _, _, putFrame_eq longRecord.toNat_numberOfDataBytes.symm (by omega), fun h ↦ ?_⟩
  · exact absurd h.sums.1 (by decide +kernel)
  · obtain ⟨l, hl, -, hlen⟩ := h.lengths
    obtain rfl : longRecord.line.numberOfDataBytes + 4 = l := Option.some.inj hl
    have hfits : longRecord.line.data.length ≤ 251 := (length_fits longRecord).mp hlen
    omega

/-! ## The records that `read_line` accepts -/

theorem readBytes_length {n : ℕ} {input data rest : List U8}
    (h : readBytes n input = some (data, rest)) : data.length = n := by
  induction n generalizing input data rest with
  | zero => cases h; rfl
  | succ n ih =>
      simp only [readBytes, Option.bind_eq_some_iff, Option.map_eq_some_iff] at h
      obtain ⟨⟨b, input'⟩, -, ⟨bs, rest'⟩, hread, heq⟩ := h
      obtain ⟨rfl, rfl⟩ := Prod.mk.inj heq
      rw [List.length_cons, ih hread]

/-- Every line that is accepted is the one of a record with data. -/
theorem readLine_line {streamData streamData' : U8} {input rest : List U8} {line : Line}
    (h : readLine streamData input = some (some line, streamData', rest)) :
    ∃ r : Record, r.data ≠ [] ∧ line = r.line := by
  simp only [readLine, Option.bind_eq_some_iff] at h
  obtain ⟨input, -, ⟨n, input⟩, -, h⟩ := h
  dsimp only at h
  split_ifs at h with hn
  · cases h
  simp only [Option.bind_eq_some_iff, Option.map_eq_some_iff] at h
  obtain ⟨⟨addressH, input⟩, -, ⟨addressL, input⟩, -, ⟨tt, input⟩, -, ⟨data, input⟩, hread,
    ⟨cc, input⟩, -, heq⟩ := h
  have hdata := readBytes_length hread
  obtain rfl := Option.some.inj (congrArg Prod.fst heq)
  have hlt : data.length < 256 := hdata ▸ n.isLt
  refine ⟨⟨addressH ++ addressL, tt, data, hlt⟩, ?_, ?_⟩
  · rintro rfl
    exact hn (BitVec.eq_of_toNat_eq hdata.symm)
  · have hcount : BitVec.ofNat 8 data.length = n := by
      rw [hdata, BitVec.ofNat_toNat, BitVec.setWidth_eq]
    have hhigh : (addressH ++ addressL).extractLsb' 8 8 = addressH :=
      BitVec.extractLsb'_append_eq_left
    have hlow : (addressH ++ addressL).extractLsb' 0 8 = addressL :=
      BitVec.extractLsb'_append_eq_right
    rw [Record.line, hcount, hhigh, hlow]

end Msp

end LiberaBase
