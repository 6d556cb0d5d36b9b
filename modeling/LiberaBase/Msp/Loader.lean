import LiberaBase.Lib.Ascii
import LiberaBase.Msp.Firmware

/-!
# The loader of the firmware

The loader reads the firmware as a hex file and sends it to the bootstrap loader of the MSP430 in
frames, one for each record.  A record names its type; the loader reads it and goes on, and it
takes the first record without data for the end of the file.
-/

namespace LiberaBase

namespace Msp

open Ascii

def BSL_SYNC : U8 := 0x80
def BSL_TXBLK : U8 := 0x12
def BSL_LOADPC : U8 := 0x1A

/-! ## Reading -/

/-- `scanf("%02x", &two_nibbles)`: white space is skipped, and then at most two characters are
taken, a sign or the beginning of `0x` among them.  Without a value `two_nibbles` is not set. -/
def scanHex (input : List U8) : Option U32 × List U8 :=
  match input.dropWhile isSpace with
  | [] => (none, [])
  | c :: cs =>
    if c = plus ∨ c = minus then
      match cs with
      | [] => (none, [])
      | d :: ds =>
        match hexDigit d with
        | none => (none, d :: ds)
        | some v => (some (if c = minus then -BitVec.ofNat 32 v else BitVec.ofNat 32 v), ds)
    else
      match hexDigit c with
      | none => (none, c :: cs)
      | some hi =>
        match cs with
        | [] => (some (BitVec.ofNat 32 hi), [])
        | d :: ds =>
          match hexDigit d with
          | some lo => (some (BitVec.ofNat 32 (16 * hi + lo)), ds)
          | none =>
            if c = zero ∧ isX d = true then (none, ds)
            else (some (BitVec.ofNat 32 hi), d :: ds)

/-- `read_byte`; `none` is the value of a variable that was not set. -/
def readByte (input : List U8) : Option (U8 × List U8) :=
  let (twoNibbles, rest) := scanHex input
  twoNibbles.map fun v ↦ (v.setWidth 8, rest)

/-- The loop over `scanf("%c", &StreamData)`.  At the end of the file `StreamData` stays what it
is, and `none` is a loop that does not end. -/
def skipToColon (streamData : U8) : List U8 → Option (List U8)
  | [] => if streamData = colon then some [] else none
  | c :: cs => if c = colon then some cs else skipToColon c cs

/-- The loop over the data bytes, which are put into `S`. -/
def readBytes : ℕ → List U8 → Option (List U8 × List U8)
  | 0, input => some ([], input)
  | n + 1, input =>
    (readByte input).bind fun (b, input) ↦
      (readBytes n input).map fun (bs, input) ↦ (b :: bs, input)

structure Line where
  numberOfDataBytes : U8
  addressH : U8
  addressL : U8
  tt : U8
  data : List U8

/-- `read_line` up to `frame_gen`: the line, or `none` where it returns 1, `StreamData` and the
rest of the input. -/
def readLine (streamData : U8) (input : List U8) : Option (Option Line × U8 × List U8) :=
  (skipToColon streamData input).bind fun input ↦
  (readByte input).bind fun (n, input) ↦
    if n = 0 then some (none, n, input)
    else
      (readByte input).bind fun (addressH, input) ↦
      (readByte input).bind fun (addressL, input) ↦
      (readByte input).bind fun (tt, input) ↦
      (readBytes n.toNat input).bind fun (data, input) ↦
      (readByte input).map fun (cc, input) ↦ (some ⟨n, addressH, addressL, tt, data⟩, cc, input)

/-! ## Sending -/

/-- `cks_l` and `cks_h`: the bytes at even and at odd places. -/
def cks (odd : ℕ) (bytes : List U8) : U8 :=
  bytes.zipIdx.foldl (fun ck (b, i) ↦ if i % 2 = odd then ck ^^^ b else ck) 0

def checksum (bytes : List U8) : List U8 := bytes ++ [~~~cks 0 bytes, ~~~cks 1 bytes]

def mspWrite (frame : List U8) : List U8 := BSL_SYNC :: frame

/-- `frame_gen`; what counts the bytes is a `char`. -/
def frameGen (line : Line) : List U8 :=
  let n := line.numberOfDataBytes
  checksum ([BSL_SYNC, BSL_TXBLK, n + 4, n + 4, line.addressL, line.addressH, n, 0] ++ line.data)

def loadPCPatch : List U8 := checksum [BSL_SYNC, BSL_LOADPC, 0x4, 0x4, 0x20, 0x02, 0x00, 0x00]

/-- A frame on the serial line, and the line of the file it was made of, if any. -/
structure Sent where
  bytes : List U8
  line : Option Line

def patch : Sent := ⟨mspWrite loadPCPatch, none⟩

def block (line : Line) : Sent := ⟨mspWrite (frameGen line), some line⟩

/-- The loop of `read_file`; `fuel` bounds its rounds. -/
def readLines : ℕ → U8 → List U8 → Option (List Sent)
  | 0, _, _ => none
  | fuel + 1, streamData, input =>
    (readLine streamData input).bind fun (line, streamData, input) ↦
      match line with
      | none => some [patch]
      | some line => (readLines fuel streamData input).map fun sent ↦ patch :: block line :: sent

/-- `read_file`; every round takes a character of the file. -/
def readFile (input : List U8) : Option (List Sent) :=
  (readLines (input.length + 1) 0 input).map fun sent ↦ patch :: sent

/-! ## Hex files -/

structure Record where
  address : BitVec 16
  type : U8
  data : List U8
  length_lt : data.length < 256

namespace Record

def body (r : Record) : List U8 :=
  [BitVec.ofNat 8 r.data.length, r.address.extractLsb' 8 8, r.address.extractLsb' 0 8, r.type] ++
    r.data

/-- The bytes of a record add up to zero. -/
def bytes (r : Record) : List U8 := r.body ++ [-r.body.sum]

def line (r : Record) : Line where
  numberOfDataBytes := BitVec.ofNat 8 r.data.length
  addressH := r.address.extractLsb' 8 8
  addressL := r.address.extractLsb' 0 8
  tt := r.type
  data := r.data

end Record

/-- The bytes that pairs of hexadecimal digits stand for. -/
def hexBytes : List U8 → Option (List U8)
  | [] => some []
  | [_] => none
  | hi :: lo :: text =>
    (hexDigit hi).bind fun hi ↦ (hexDigit lo).bind fun lo ↦
      (hexBytes text).map fun bytes ↦ BitVec.ofNat 8 (16 * hi + lo) :: bytes

/-- The text of a well-formed file: records, and a record of type 01 that ends them.  Between two
records there may be anything but the mark that begins a record. -/
inductive FileText : List Record → List U8 → Prop
  | nil {r : Record} {sep text rest : List U8} (htype : r.type = 1) (hdata : r.data = [])
      (hsep : colon ∉ sep) (htext : hexBytes text = some r.bytes) :
      FileText [] (sep ++ colon :: (text ++ rest))
  | cons {r : Record} {rs : List Record} {sep text file : List U8} (hsep : colon ∉ sep)
      (htext : hexBytes text = some r.bytes) (hfile : FileText rs file) :
      FileText (r :: rs) (sep ++ colon :: (text ++ file))

/-- Some bytes and the addresses they are written to. -/
def place (address : BitVec 16) (data : List U8) : List (BitVec 16 × U8) :=
  data.zipIdx.map fun (b, i) ↦ (address + BitVec.ofNat 16 i, b)

/-- What a record asks to be written. -/
def Record.writes (r : Record) : List (BitVec 16 × U8) :=
  if r.type = 0 then place r.address r.data else []

/-! ## What the frames make the bootstrap loader write -/

def isTxblk (bytes : List U8) : Bool := bytes[2]? = some BSL_TXBLK

/-- What a block frame makes the bootstrap loader write.  Its two lengths count the bytes from the
address to the end of the data, and its checksum is right. -/
def txblkWrites : List U8 → Option (List (BitVec 16 × U8))
  | start :: sync :: cmd :: l1 :: l2 :: al :: ah :: ll :: lh :: rest =>
    let n := (lh ++ ll : BitVec 16).toNat
    let data := rest.take n
    if start = BSL_SYNC ∧ sync = BSL_SYNC ∧ l1 = l2 ∧ l1.toNat = n + 4 ∧
        checksum ([sync, cmd, l1, l2, al, ah, ll, lh] ++ data) =
          [sync, cmd, l1, l2, al, ah, ll, lh] ++ rest then
      some (place (ah ++ al) data)
    else none
  | _ => none

def written : List Sent → Option (List (BitVec 16 × U8))
  | [] => some []
  | s :: sent =>
    if isTxblk s.bytes then
      (txblkWrites s.bytes).bind fun ws ↦ (written sent).map fun ws' ↦ ws ++ ws'
    else written sent

/-- The frames write what the records of type 00 say, in their order, and none of them was made of
another record. -/
def Programs (rs : List Record) (sent : List Sent) : Prop :=
  written sent = some (rs.flatMap Record.writes) ∧
    ∀ s ∈ sent, isTxblk s.bytes = true → ∃ line, s.line = some line ∧ line.tt = 0

/-! ## Reading a record -/

theorem scanHex_pair {c d : U8} {hi lo : ℕ} (hc : hexDigit c = some hi) (hd : hexDigit d = some lo)
    (rest : List U8) :
    scanHex (c :: d :: rest) = (some (BitVec.ofNat 32 (16 * hi + lo)), rest) := by
  obtain ⟨hspace, hsign, -⟩ := hexDigit_first hc
  rw [scanHex, List.dropWhile_cons_of_neg (by simp [hspace])]
  simp only [if_neg hsign, hc, hd]

theorem hexBytes_cons {text : List U8} {b : U8} {bytes : List U8}
    (h : hexBytes text = some (b :: bytes)) :
    ∃ text', hexBytes text' = some bytes ∧
      ∀ rest, readByte (text ++ rest) = some (b, text' ++ rest) := by
  match text, h with
  | hi :: lo :: text, h =>
    simp only [hexBytes, Option.bind_eq_some_iff, Option.map_eq_some_iff] at h
    obtain ⟨hi', hhi, lo', hlo, bytes', hbytes, heq⟩ := h
    obtain ⟨rfl, rfl⟩ := List.cons.inj heq
    refine ⟨text, hbytes, fun rest ↦ ?_⟩
    rw [readByte, List.cons_append, List.cons_append, scanHex_pair hhi hlo]
    simp

theorem hexBytes_nil {text : List U8} (h : hexBytes text = some []) : text = [] := by
  match text, h with
  | [], _ => rfl
  | hi :: lo :: text, h =>
    simp only [hexBytes, Option.bind_eq_some_iff, Option.map_eq_some_iff] at h
    obtain ⟨hi', -, lo', -, bytes', -, heq⟩ := h
    cases heq

theorem readBytes_hex (data : List U8) {bytes text : List U8} (h : hexBytes text = some (data ++ bytes)) :
    ∃ text', hexBytes text' = some bytes ∧
      ∀ rest, readBytes data.length (text ++ rest) = some (data, text' ++ rest) := by
  induction data generalizing text with
  | nil => exact ⟨text, h, fun rest ↦ rfl⟩
  | cons b data ih =>
      obtain ⟨text₁, h₁, hread⟩ := hexBytes_cons h
      obtain ⟨text', h', hrest⟩ := ih h₁
      refine ⟨text', h', fun rest ↦ ?_⟩
      simp only [List.length_cons, readBytes, hread, Option.bind_some, hrest, Option.map_some]

theorem skipToColon_sep {sep : List U8} (hsep : colon ∉ sep) (streamData : U8) (rest : List U8) :
    skipToColon streamData (sep ++ colon :: rest) = some rest := by
  induction sep generalizing streamData with
  | nil => simp [skipToColon]
  | cons c sep ih =>
      obtain ⟨hc, hsep⟩ := not_or.mp (mt List.mem_cons.mpr hsep)
      rw [List.cons_append, skipToColon, if_neg (Ne.symm hc)]
      exact ih hsep c

variable {r : Record} {rs : List Record} {sep text rest : List U8}

theorem Record.length_eq_zero (r : Record) :
    (BitVec.ofNat 8 r.data.length : U8) = 0 ↔ r.data = [] := by
  have hlt := r.length_lt
  rw [← List.length_eq_zero_iff, BitVec.toNat_eq, BitVec.toNat_ofNat, Nat.mod_eq_of_lt hlt]
  rfl

theorem readLine_record (hsep : colon ∉ sep) (htext : hexBytes text = some r.bytes)
    (hdata : r.data ≠ []) (streamData : U8) (rest : List U8) :
    ∃ stream,
      readLine streamData (sep ++ colon :: (text ++ rest)) = some (some r.line, stream, rest) := by
  obtain ⟨text₁, h₁, hread₁⟩ := hexBytes_cons htext
  obtain ⟨text₂, h₂, hread₂⟩ := hexBytes_cons h₁
  obtain ⟨text₃, h₃, hread₃⟩ := hexBytes_cons h₂
  obtain ⟨text₄, h₄, hread₄⟩ := hexBytes_cons h₃
  obtain ⟨text₅, h₅, hread₅⟩ := readBytes_hex r.data h₄
  obtain ⟨text₆, h₆, hread₆⟩ := hexBytes_cons h₅
  have hlen : (BitVec.ofNat 8 r.data.length : U8).toNat = r.data.length := by
    rw [BitVec.toNat_ofNat, Nat.mod_eq_of_lt r.length_lt]
  refine ⟨-r.body.sum, ?_⟩
  simp only [readLine, skipToColon_sep hsep, Option.bind_some, hread₁,
    if_neg (mt r.length_eq_zero.mp hdata), hread₂, hread₃, hread₄, hlen, hread₅, hread₆,
    Option.map_some, hexBytes_nil h₆, List.nil_append]
  rfl

/-! ## Reading a file -/

/-- The records before the first one without data. -/
def loaded (rs : List Record) : List Record := rs.takeWhile fun r ↦ !r.data.isEmpty

def rounds (rs : List Record) : List Sent := rs.flatMap fun r ↦ [patch, block r.line]

theorem FileText.length_le {file : List U8} (h : FileText rs file) : rs.length ≤ file.length := by
  induction h with
  | nil => exact Nat.zero_le _
  | cons hsep htext hfile ih =>
      simp only [List.length_cons, List.length_append]
      omega

theorem length_fits (r : Record) :
    (r.line.numberOfDataBytes + 4).toNat = r.data.length + 4 ↔ r.data.length ≤ 251 := by
  have hlt := r.length_lt
  have hn : r.line.numberOfDataBytes.toNat = r.data.length := by
    rw [Record.line, BitVec.toNat_ofNat, Nat.mod_eq_of_lt hlt]
  rw [BitVec.toNat_add, hn]
  simp
  omega

end Msp

end LiberaBase
