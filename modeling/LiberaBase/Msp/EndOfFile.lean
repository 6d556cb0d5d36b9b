import LiberaBase.Msp.Loader

/-!
# The loader at the end of its input

The loader does not look at what `scanf` returns.  At the end of the input `scanf` leaves its target
as it is: `StreamData` keeps the last character, and `two_nibbles` has the value that the stack left
there.  Only a record of count 0 ends the loop of `read_file`.
-/

namespace LiberaBase

namespace Msp

open Ascii

/-! ## The loader -/

/-- What the loader has read and sent.  `calls` counts the calls of `read_byte`, `eof` says that
`scanf` has returned `EOF`, and with each frame stands whether it had when the frame was sent. -/
structure Reader where
  input : List U8
  streamData : U8
  calls : ℕ
  eof : Bool
  sent : List (Sent × Bool)

namespace Reader

/-- `scanf("%c", &StreamData)` -/
def scanChar (s : Reader) : Reader :=
  match s.input with
  | [] => { s with eof := true }
  | c :: input => { s with input := input, streamData := c }

/-- The loop up to a `':'`; `fuel` bounds its rounds. -/
def scanColon : ℕ → Reader → Option Reader
  | 0, _ => none
  | fuel + 1, s =>
    let s := s.scanChar
    if s.streamData = colon then some s else scanColon fuel s

/-- `StreamData = read_byte()`; `leftover` is what `two_nibbles` is before the call. -/
def readByte (leftover : ℕ → U32) (s : Reader) : Reader :=
  let (twoNibbles, input) := scanHex s.input
  { s with
    input := input
    streamData := (twoNibbles.getD (leftover s.calls)).setWidth 8
    calls := s.calls + 1
    eof := s.eof || s.input.all isSpace }

/-- The loop over the data bytes. -/
def readBytes (leftover : ℕ → U32) : ℕ → Reader → List U8 × Reader
  | 0, s => ([], s)
  | n + 1, s =>
    let s := s.readByte leftover
    let (bytes, t) := readBytes leftover n s
    (s.streamData :: bytes, t)

def send (s : Reader) (frame : Sent) : Reader := { s with sent := s.sent ++ [(frame, s.eof)] }

/-- `read_line`: whether it returns 1. -/
def readLine (leftover : ℕ → U32) (fuel : ℕ) (s : Reader) : Option (Bool × Reader) :=
  (scanColon fuel s).map fun s ↦
    let s := s.readByte leftover
    let n := s.streamData
    if n = 0 then (true, s)
    else
      let s := s.readByte leftover
      let addressH := s.streamData
      let s := s.readByte leftover
      let addressL := s.streamData
      let s := s.readByte leftover
      let tt := s.streamData
      let (data, s) := s.readBytes leftover n.toNat
      let s := s.readByte leftover
      (false, s.send (block ⟨n, addressH, addressL, tt, data⟩))

/-- The loop of `read_file`; `rounds` bounds its rounds. -/
def readLines (leftover : ℕ → U32) (fuel : ℕ) : ℕ → Reader → Option Reader
  | 0, _ => none
  | rounds + 1, s =>
    (readLine leftover fuel (s.send patch)).bind fun (done, s) ↦
      if done then some s else readLines leftover fuel rounds s

/-- `read_file` -/
def readFile (leftover : ℕ → U32) (fuel rounds : ℕ) (streamData : U8) (input : List U8) :
    Option Reader :=
  readLines leftover fuel rounds (send ⟨input, streamData, 0, false, []⟩ patch)

/-- The loader ends, and sends no frame after the end of the input. -/
def EndsWell (leftover : ℕ → U32) (streamData : U8) (input : List U8) : Prop :=
  ∃ fuel rounds s, readFile leftover fuel rounds streamData input = some s ∧
    ∀ frame ∈ s.sent, frame.2 = false

end Reader

/-! ## Which files end the loader -/

/-- The loop finds a `':'`, which may be in `StreamData` at the end of the input. -/
def FindsColon (streamData : U8) (input rest : List U8) : Prop :=
  (∃ sep, colon ∉ sep ∧ input = sep ++ colon :: rest) ∨
    input = [] ∧ streamData = colon ∧ rest = []

/-- The next byte, and what is left of the input. -/
def nextByte (leftover : ℕ → U32) (calls : ℕ) (input : List U8) : U8 × List U8 :=
  (((scanHex input).1.getD (leftover calls)).setWidth 8, (scanHex input).2)

/-- Some bytes; `none` if the input ends before the last of them. -/
def takeBytes (leftover : ℕ → U32) : ℕ → ℕ → List U8 → Option (List U8 × List U8)
  | 0, _, input => some ([], input)
  | n + 1, calls, input =>
    if input.all isSpace then none
    else
      let (b, input) := nextByte leftover calls input
      (takeBytes leftover n (calls + 1) input).map fun (bytes, input) ↦ (b :: bytes, input)

/-- One comes to a record of count 0 when one goes from record to record, and the input does not end
in one of them or behind the last one. -/
inductive EndsInTime (leftover : ℕ → U32) : U8 → ℕ → List U8 → Prop
  | last {streamData : U8} {calls : ℕ} {input rest : List U8}
      (hcolon : FindsColon streamData input rest) (hcount : (nextByte leftover calls rest).1 = 0) :
      EndsInTime leftover streamData calls input
  | next {streamData n cc : U8} {calls : ℕ} {sep text text' rest bytes : List U8}
      (hsep : colon ∉ sep) (hcount : takeBytes leftover 1 calls text = some ([n], text'))
      (hn : n ≠ 0)
      (hbytes : takeBytes leftover (n.toNat + 4) (calls + 1) text' = some (bytes ++ [cc], rest))
      (hrest : EndsInTime leftover cc (calls + n.toNat + 5) rest) :
      EndsInTime leftover streamData calls (sep ++ colon :: text)

namespace Reader

variable {leftover : ℕ → U32} {s t : Reader} {fuel rounds n : ℕ}

/-! ## What is read -/

theorem scanColon_sep {sep rest : List U8} (hsep : colon ∉ sep)
    (hinput : s.input = sep ++ colon :: rest) (hfuel : sep.length < fuel) :
    scanColon fuel s = some { s with input := rest, streamData := colon } := by
  induction sep generalizing s fuel with
  | nil =>
      obtain ⟨fuel, rfl⟩ := Nat.exists_eq_add_one.mpr hfuel
      have hchar : s.scanChar = { s with input := rest, streamData := colon } := by
        rw [scanChar, hinput]
        rfl
      rw [scanColon, hchar]
      exact if_pos rfl
  | cons c sep ih =>
      obtain ⟨hc, hsep⟩ := not_or.mp (mt List.mem_cons.mpr hsep)
      obtain ⟨fuel, rfl⟩ := Nat.exists_eq_add_one.mpr (Nat.zero_lt_of_lt hfuel)
      have hchar : s.scanChar = { s with input := sep ++ colon :: rest, streamData := c } := by
        rw [scanChar, hinput]
        rfl
      rw [scanColon, hchar]
      dsimp only
      rw [if_neg (Ne.symm hc), ih hsep rfl (Nat.lt_of_succ_lt_succ hfuel)]

/-- At the end of the input the loop ends at once or never. -/
theorem scanColon_nil (hinput : s.input = []) (h : scanColon fuel s = some t) :
    s.streamData = colon ∧ t = { s with eof := true } := by
  induction fuel generalizing s with
  | zero => cases h
  | succ fuel ih =>
      have hchar : s.scanChar = { s with eof := true } := by rw [scanChar, hinput]
      rw [scanColon, hchar] at h
      dsimp only at h
      split_ifs at h with hcolon
      · exact ⟨hcolon, (Option.some.inj h).symm⟩
      · exact absurd (ih (s := { s with eof := true }) hinput h).1 hcolon

theorem scanColon_some (h : scanColon fuel s = some t) :
    FindsColon s.streamData s.input t.input ∧
      t = { s with input := t.input, streamData := colon, eof := s.eof || s.input.isEmpty } := by
  induction fuel generalizing s with
  | zero => cases h
  | succ fuel ih =>
      cases hinput : s.input with
      | nil =>
          obtain ⟨hcolon, rfl⟩ := scanColon_nil hinput h
          refine ⟨.inr ⟨rfl, hcolon, hinput⟩, ?_⟩
          simp [hcolon]
      | cons c input =>
          have hchar : s.scanChar = { s with input := input, streamData := c } := by
            rw [scanChar, hinput]
          rw [scanColon, hchar] at h
          dsimp only at h
          split_ifs at h with hcolon
          · obtain rfl := Option.some.inj h
            refine ⟨.inl ⟨[], List.not_mem_nil, by rw [hcolon]; rfl⟩, ?_⟩
            simp [hcolon]
          · obtain ⟨hfinds, ht⟩ := ih (s := { s with input := input, streamData := c }) h
            rcases hfinds with ⟨sep, hsep, (hrest : input = sep ++ colon :: t.input)⟩ | ⟨-, hc, -⟩
            · have hsome : input.isEmpty = false := by
                rw [hrest]
                cases sep <;> rfl
              refine ⟨.inl ⟨c :: sep, ?_, congrArg (c :: ·) hrest⟩, ?_⟩
              · simp [hsep, Ne.symm hcolon]
              · rw [ht]
                simp [hsome]
            · exact absurd hc hcolon

theorem readBytes_succ (leftover : ℕ → U32) (n : ℕ) (s : Reader) :
    readBytes leftover (n + 1) s =
      ((readBytes leftover n s).1 ++ [((readBytes leftover n s).2.readByte leftover).streamData],
        (readBytes leftover n s).2.readByte leftover) := by
  induction n generalizing s with
  | zero => rfl
  | succ n ih =>
      rw [readBytes, ih (s.readByte leftover)]
      rfl

theorem readBytes_sent (leftover : ℕ → U32) (n : ℕ) (s : Reader) :
    (readBytes leftover n s).2.sent = s.sent := by
  induction n generalizing s with
  | zero => rfl
  | succ n ih => exact ih (s.readByte leftover)

theorem readBytes_eof (h : s.eof = true) (n : ℕ) : (readBytes leftover n s).2.eof = true := by
  induction n generalizing s with
  | zero => exact h
  | succ n ih => exact ih (s := s.readByte leftover) (by rw [readByte, h]; rfl)

theorem readBytes_none (h : takeBytes leftover n s.calls s.input = none) :
    (readBytes leftover n s).2.eof = true := by
  induction n generalizing s with
  | zero => cases h
  | succ n ih =>
      rw [takeBytes] at h
      split_ifs at h with hend
      · exact readBytes_eof (s := s.readByte leftover) (by rw [readByte, hend, Bool.or_true]) n
      · exact ih (s := s.readByte leftover) (Option.map_eq_none_iff.mp h)

theorem readBytes_some {bytes rest : List U8}
    (h : takeBytes leftover n s.calls s.input = some (bytes, rest)) :
    readBytes leftover n s = (bytes,
      { s with
        input := rest
        streamData := bytes.getLast?.getD s.streamData
        calls := s.calls + n }) := by
  induction n generalizing s bytes with
  | zero =>
      cases h
      rfl
  | succ n ih =>
      rw [takeBytes] at h
      split_ifs at h with hend
      obtain ⟨⟨bytes, rest⟩, htake, heq⟩ := Option.map_eq_some_iff.mp h
      cases heq
      have hread := ih (s := s.readByte leftover) htake
      have heof : (s.readByte leftover).eof = s.eof := by
        rw [readByte, (Bool.not_eq_true _).mp hend]
        exact Bool.or_false _
      have hcalls : (s.readByte leftover).calls + n = s.calls + (n + 1) := by
        show s.calls + 1 + n = s.calls + (n + 1)
        omega
      rw [readBytes, hread, heof, hcalls, List.getLast?_cons]
      rfl

/-- If the end of the input was not met, the bytes were there. -/
theorem takeBytes_of_eof (h : (readBytes leftover (n + 1) s).2.eof = false) :
    s.eof = false ∧ ∃ bytes cc rest,
      takeBytes leftover (n + 1) s.calls s.input = some (bytes ++ [cc], rest) ∧
      (readBytes leftover (n + 1) s).2 =
        { s with input := rest, streamData := cc, calls := s.calls + (n + 1) } := by
  have hbefore : s.eof = false := by
    by_contra hs
    exact absurd (readBytes_eof ((Bool.not_eq_false _).mp hs) (n + 1)) (ne_true_of_eq_false h)
  refine ⟨hbefore, ?_⟩
  cases htake : takeBytes leftover (n + 1) s.calls s.input with
  | none => exact absurd (readBytes_none htake) (ne_true_of_eq_false h)
  | some taken =>
      obtain ⟨bytes, rest⟩ := taken
      have hread := readBytes_some htake
      obtain ⟨front, cc, rfl⟩ : ∃ front cc, bytes = front ++ [cc] :=
        ⟨_, _, (congrArg Prod.fst hread).symm.trans
          (congrArg Prod.fst (readBytes_succ leftover n s))⟩
      refine ⟨front, cc, rest, rfl, ?_⟩
      rw [hread, List.getLast?_append, List.getLast?_singleton]
      rfl

theorem scanHex_length (input : List U8) : (scanHex input).2.length ≤ input.length := by
  have hspace : (input.dropWhile isSpace).length ≤ input.length :=
    (List.dropWhile_sublist isSpace).length_le
  rw [scanHex]
  cases heq : input.dropWhile isSpace with
  | nil => exact Nat.zero_le _
  | cons c cs =>
      rw [heq, List.length_cons] at hspace
      dsimp only
      -- a character that was read is gone, whatever it was
      repeat' split
      all_goals simp only [List.length_cons, List.length_nil] at *; omega

theorem takeBytes_length {calls : ℕ} {input bytes rest : List U8}
    (h : takeBytes leftover n calls input = some (bytes, rest)) : rest.length ≤ input.length := by
  induction n generalizing calls input bytes with
  | zero =>
      cases h
      exact le_rfl
  | succ n ih =>
      rw [takeBytes] at h
      split_ifs at h
      obtain ⟨⟨bytes, rest⟩, htake, heq⟩ := Option.map_eq_some_iff.mp h
      cases heq
      exact (ih htake).trans (scanHex_length input)

/-- The loop finds the `':'` if there is one to be found. -/
theorem scanColon_of_findsColon {input rest : List U8} (h : FindsColon s.streamData input rest)
    (hinput : s.input = input) (hfuel : input.length < fuel) :
    ∃ t, scanColon fuel s = some t ∧ t.input = rest ∧ t.sent = s.sent ∧ t.calls = s.calls := by
  rcases h with ⟨sep, hsep, heq⟩ | ⟨rfl, hstream, rfl⟩
  · refine ⟨_, scanColon_sep hsep (hinput.trans heq) ?_, rfl, rfl, rfl⟩
    rw [heq, List.length_append] at hfuel
    exact Nat.lt_of_le_of_lt (Nat.le_add_right _ _) hfuel
  · obtain ⟨fuel, rfl⟩ := Nat.exists_eq_add_one.mpr (Nat.zero_lt_of_lt hfuel)
    have hchar : s.scanChar = { s with eof := true } := by
      rw [scanChar, hinput]
    refine ⟨{ s with eof := true }, ?_, hinput, rfl, rfl⟩
    rw [scanColon, hchar]
    exact if_pos hstream

/-! ## One record -/

theorem scanColon_of_readLine {result : Bool × Reader}
    (h : readLine leftover fuel s = some result) : ∃ t, scanColon fuel s = some t := by
  obtain ⟨t, hscan, -⟩ := Option.map_eq_some_iff.mp h
  exact ⟨t, hscan⟩

theorem readLine_last (hscan : scanColon fuel s = some t)
    (hcount : (t.readByte leftover).streamData = 0) :
    readLine leftover fuel s = some (true, t.readByte leftover) := by
  rw [readLine, hscan]
  exact congrArg some (if_pos hcount)

theorem readLine_next (hscan : scanColon fuel s = some t)
    (hcount : (t.readByte leftover).streamData ≠ 0) :
    ∃ line, readLine leftover fuel s = some (false, send ((t.readByte leftover).readBytes leftover
      ((t.readByte leftover).streamData.toNat + 4)).2 (block line)) := by
  -- the address and the type, and then the data and the checksum
  have hread (u : Reader) (n : ℕ) : (readBytes leftover (n + 4) u).2 = (readBytes leftover n
      (((u.readByte leftover).readByte leftover).readByte leftover)).2.readByte leftover :=
    congrArg Prod.snd (readBytes_succ leftover n _)
  rw [hread, readLine, hscan]
  exact ⟨_, congrArg some (if_neg hcount)⟩

/-- A record whose bytes are all there. -/
theorem readLine_record {sep text text' rest bytes : List U8} {cc : U8} {n : U8}
    (hsep : colon ∉ sep) (hinput : s.input = sep ++ colon :: text)
    (hcount : takeBytes leftover 1 s.calls text = some ([n], text')) (hn : n ≠ 0)
    (hbytes : takeBytes leftover (n.toNat + 4) (s.calls + 1) text' = some (bytes ++ [cc], rest))
    (hfuel : sep.length < fuel) :
    ∃ line, readLine leftover fuel s = some (false, send { s with
      input := rest
      streamData := cc
      calls := s.calls + n.toNat + 5 } (block line)) := by
  have hscan : scanColon fuel s = some { s with input := text, streamData := colon } :=
    scanColon_sep hsep hinput hfuel
  set t : Reader := { s with input := text, streamData := colon }
  have hone : readBytes leftover 1 t = _ := readBytes_some hcount
  have hfirst : t.readByte leftover =
      { t with input := text', streamData := n, calls := s.calls + 1 } :=
    congrArg Prod.snd hone
  have hdata : (t.readByte leftover).streamData = n := congrArg Reader.streamData hfirst
  have htake : takeBytes leftover (n.toNat + 4) (t.readByte leftover).calls
      (t.readByte leftover).input = some (bytes ++ [cc], rest) := by
    rw [hfirst]
    exact hbytes
  have htotal : s.calls + 1 + (n.toNat + 4) = s.calls + n.toNat + 5 := by omega
  obtain ⟨line, hline⟩ := readLine_next hscan (hdata ▸ hn)
  rw [hdata, readBytes_some htake, hfirst, List.getLast?_append, List.getLast?_singleton] at hline
  exact ⟨line, htotal ▸ hline⟩

/-- What was sent stays sent. -/
theorem readLines_sent (h : readLines leftover fuel rounds s = some t) {frame : Sent × Bool}
    (hframe : frame ∈ (s.send patch).sent) : frame ∈ t.sent := by
  induction rounds generalizing s with
  | zero => cases h
  | succ rounds ih =>
      obtain ⟨⟨done, u⟩, hline, hrest⟩ := Option.bind_eq_some_iff.mp h
      obtain ⟨v, hscan⟩ := scanColon_of_readLine hline
      have hsent : v.sent = (s.send patch).sent := by rw [(scanColon_some hscan).2]
      by_cases hcount : (v.readByte leftover).streamData = 0
      · rw [readLine_last hscan hcount] at hline
        cases hline
        cases hrest
        exact hsent ▸ hframe
      · obtain ⟨line, heq⟩ := readLine_next hscan hcount
        rw [heq] at hline
        cases hline
        refine ih hrest (List.mem_append_left _ (List.mem_append_left _ ?_))
        rw [readBytes_sent]
        exact hsent ▸ hframe

/-! ## Which files end the loader -/

theorem endsInTime_of_readLines (h : readLines leftover fuel rounds s = some t)
    (ht : ∀ frame ∈ t.sent, frame.2 = false) :
    EndsInTime leftover s.streamData s.calls s.input := by
  induction rounds generalizing s with
  | zero => cases h
  | succ rounds ih =>
      obtain ⟨⟨done, u⟩, hline, hrest⟩ := Option.bind_eq_some_iff.mp h
      obtain ⟨v, hscan⟩ := scanColon_of_readLine hline
      obtain ⟨hfinds, hv⟩ := scanColon_some hscan
      by_cases hcount : (v.readByte leftover).streamData = 0
      · rw [hv] at hcount
        exact .last hfinds hcount
      · obtain ⟨line, heq⟩ := readLine_next hscan hcount
        rw [heq] at hline
        cases hline
        -- the flag of the frame is the one that the last checksum byte left
        have hlate := ht _ (readLines_sent hrest
          (List.mem_append_left _ (List.mem_append_right _ (List.mem_singleton_self _))))
        obtain ⟨hw, bytes, cc, rest, htake, hread⟩ := takeBytes_of_eof hlate
        obtain ⟨hveof, hspace⟩ := Bool.or_eq_false_iff.mp hw
        have hnonempty : s.input ≠ [] := by
          intro hempty
          rw [hv] at hveof
          rw [show (s.send patch).input = [] from hempty] at hveof
          exact absurd hveof (by simp)
        rcases hfinds with ⟨sep, hsep, hinput⟩ | ⟨hempty, -⟩
        · have hcalls : v.calls = s.calls := by rw [hv]; rfl
          have hone : takeBytes leftover 1 s.calls v.input =
              some ([(v.readByte leftover).streamData], (v.readByte leftover).input) := by
            rw [takeBytes, if_neg (by simpa using hspace), ← hcalls]
            rfl
          have hnext := ih hrest
          rw [hread] at hnext
          rw [show s.input = sep ++ colon :: v.input from hinput]
          have htake : takeBytes leftover ((v.readByte leftover).streamData.toNat + 4)
              (s.calls + 1) (v.readByte leftover).input = some (bytes ++ [cc], rest) := by
            rw [← hcalls]
            exact htake
          refine .next hsep hone hcount htake ?_
          have htotal : s.calls + (v.readByte leftover).streamData.toNat + 5 =
              (v.readByte leftover).calls + ((v.readByte leftover).streamData.toNat + 4) := by
            show _ = v.calls + 1 + _
            omega
          rw [htotal]
          exact hnext
        · exact absurd hempty hnonempty

theorem readLines_of_endsInTime {streamData : U8} {calls : ℕ} {input : List U8}
    (h : EndsInTime leftover streamData calls input) (hstream : s.streamData = streamData)
    (hcalls : s.calls = calls) (hinput : s.input = input) (heof : s.eof = false)
    (hsent : ∀ frame ∈ s.sent, frame.2 = false) (hfuel : input.length < fuel) :
    ∃ rounds t, readLines leftover fuel rounds s = some t ∧ ∀ frame ∈ t.sent, frame.2 = false := by
  have hpatch {u : Reader} {frame : Sent} (hu : u.eof = false)
      (hframes : ∀ f ∈ u.sent, f.2 = false) : ∀ f ∈ (u.send frame).sent, f.2 = false := by
    intro f hf
    rcases List.mem_append.mp hf with hf | hf
    · exact hframes f hf
    · rw [List.mem_singleton.mp hf]
      exact hu
  induction h generalizing s with
  | last hcolon hcount =>
      obtain ⟨t, hscan, hrest, htsent, htcalls⟩ := scanColon_of_findsColon
        (s := s.send patch) (hstream ▸ hcolon) hinput hfuel
      have hzero : (t.readByte leftover).streamData = 0 := by
        rw [← hcount, ← hrest, ← hcalls]
        exact congrArg (fun calls ↦ (nextByte leftover calls t.input).1) htcalls
      refine ⟨1, t.readByte leftover, ?_, ?_⟩
      · rw [readLines, readLine_last hscan hzero]
        rfl
      · intro f hf
        exact hpatch heof hsent f (htsent ▸ hf)
  | @next streamData n cc calls sep text text' rest bytes hsep hcount hn hbytes hrest ih =>
      subst hcalls
      rw [List.length_append, List.length_cons] at hfuel
      obtain ⟨line, hline⟩ := readLine_record (s := s.send patch) hsep hinput hcount hn hbytes
        (show sep.length < fuel by omega)
      have hshort : rest.length < fuel :=
        Nat.lt_of_le_of_lt ((takeBytes_length hbytes).trans (takeBytes_length hcount)) (by omega)
      obtain ⟨rounds, last, hlines, hlast⟩ := ih (s := send { s.send patch with
          input := rest
          streamData := cc
          calls := s.calls + n.toNat + 5 } (block line))
        rfl rfl rfl heof (hpatch heof (hpatch heof hsent)) hshort
      refine ⟨rounds + 1, last, ?_, hlast⟩
      rw [readLines, hline]
      exact hlines

/-- **The loader ends, and sends nothing after the end of the input**, exactly if one comes to a
record of count 0 in time. -/
theorem endsWell_iff (leftover : ℕ → U32) (streamData : U8) (input : List U8) :
    EndsWell leftover streamData input ↔ EndsInTime leftover streamData 0 input := by
  constructor
  · rintro ⟨fuel, rounds, t, hfile, ht⟩
    exact endsInTime_of_readLines hfile ht
  · intro h
    obtain ⟨rounds, t, hlines, ht⟩ := readLines_of_endsInTime
      (s := send ⟨input, streamData, 0, false, []⟩ patch) h rfl rfl rfl rfl
      (by simp [send]) (Nat.lt_succ_self input.length)
    exact ⟨_, rounds, t, hlines, ht⟩

/-- An empty file never ends the loader, and a record that the file ends in is sent. -/
theorem readFile_empty :
    (∀ leftover fuel rounds, readFile leftover fuel rounds 0 [] = none) ∧
      ∃ s, readLine (fun _ ↦ 0) 1 ⟨[colon, zero, zero + 1], 0, 0, false, []⟩ = some (false, s) ∧
        s.sent.map Prod.snd = [true] := by
  constructor
  · intro leftover fuel rounds
    by_contra h
    obtain ⟨t, hfile⟩ := Option.ne_none_iff_exists'.mp h
    cases rounds with
    | zero => cases hfile
    | succ rounds =>
        obtain ⟨_, hline, -⟩ := Option.bind_eq_some_iff.mp hfile
        obtain ⟨v, hscan, -⟩ := Option.map_eq_some_iff.mp hline
        exact absurd (scanColon_nil rfl hscan).1 (by decide)
  · exact ⟨_, rfl, rfl⟩

/-! ## Files whose bytes are all there -/

theorem readByte_eq (leftover : ℕ → U32) {b : U8} {rest : List U8}
    (h : Msp.readByte s.input = some (b, rest)) :
    (s.readByte leftover).streamData = b ∧ (s.readByte leftover).input = rest ∧
      (s.readByte leftover).sent = s.sent := by
  obtain ⟨v, hv, heq⟩ := Option.map_eq_some_iff.mp h
  obtain ⟨hb, hrest⟩ := Prod.mk.inj heq
  have hvalue : (scanHex s.input).1.getD (leftover s.calls) = v := by
    rw [show (scanHex s.input).1 = some v from hv, Option.getD_some]
  exact ⟨(congrArg (BitVec.setWidth 8) hvalue).trans hb, hrest, rfl⟩

theorem readBytes_eq (leftover : ℕ → U32) {bytes rest : List U8}
    (h : Msp.readBytes n s.input = some (bytes, rest)) :
    (readBytes leftover n s).1 = bytes ∧ (readBytes leftover n s).2.input = rest := by
  induction n generalizing s bytes with
  | zero =>
      cases h
      exact ⟨rfl, rfl⟩
  | succ n ih =>
      obtain ⟨⟨b, input⟩, hbyte, h⟩ := Option.bind_eq_some_iff.mp h
      obtain ⟨⟨bytes, rest⟩, hbytes, heq⟩ := Option.map_eq_some_iff.mp h
      cases heq
      obtain ⟨hb, hinput, -⟩ := readByte_eq leftover hbyte
      obtain ⟨hfst, hsnd⟩ := ih (s := s.readByte leftover) (hinput ▸ hbytes)
      refine ⟨?_, hsnd⟩
      rw [readBytes]
      exact congrArg₂ List.cons hb hfst

theorem scanColon_eq {rest : List U8} (h : skipToColon s.streamData s.input = some rest)
    (hfuel : s.input.length < fuel) :
    ∃ t, scanColon fuel s = some t ∧ t.input = rest ∧ t.sent = s.sent := by
  induction fuel generalizing s with
  | zero => exact absurd hfuel (Nat.not_lt_zero _)
  | succ fuel ih =>
      rw [scanColon]
      cases hinput : s.input with
      | nil =>
          rw [hinput, skipToColon] at h
          split_ifs at h with hcolon
          cases h
          have hchar : s.scanChar = { s with eof := true } := by rw [scanChar, hinput]
          refine ⟨{ s with eof := true }, ?_, hinput, rfl⟩
          rw [hchar]
          exact if_pos hcolon
      | cons c input =>
          have hchar : s.scanChar = { s with input := input, streamData := c } := by
            rw [scanChar, hinput]
          rw [hinput, skipToColon] at h
          rw [hchar]
          split_ifs at h with hcolon
          · cases h
            exact ⟨_, if_pos hcolon, rfl, rfl⟩
          · dsimp only
            rw [if_neg hcolon]
            refine ih (s := { s with input := input, streamData := c }) h ?_
            rw [hinput] at hfuel
            exact Nat.lt_of_succ_lt_succ hfuel

theorem readBytes_length (leftover : ℕ → U32) (n : ℕ) (s : Reader) :
    (readBytes leftover n s).2.input.length ≤ s.input.length := by
  induction n generalizing s with
  | zero => exact le_rfl
  | succ n ih => exact (ih (s.readByte leftover)).trans (scanHex_length s.input)

theorem readLine_length {done : Bool} (h : readLine leftover fuel s = some (done, t)) :
    t.input.length ≤ s.input.length := by
  obtain ⟨v, hscan⟩ : ∃ v, scanColon fuel s = some v := by
    obtain ⟨v, hscan, -⟩ := Option.map_eq_some_iff.mp h
    exact ⟨v, hscan⟩
  have hv : v.input.length ≤ s.input.length := by
    rcases (scanColon_some hscan).1 with ⟨sep, -, hinput⟩ | ⟨-, -, hrest⟩
    · rw [hinput, List.length_append, List.length_cons]
      omega
    · rw [hrest]
      exact Nat.zero_le _
  have hcount : (v.readByte leftover).input.length ≤ s.input.length :=
    (scanHex_length v.input).trans hv
  by_cases hzero : (v.readByte leftover).streamData = 0
  · rw [readLine_last hscan hzero] at h
    cases h
    exact hcount
  · obtain ⟨line, heq⟩ := readLine_next hscan hzero
    rw [heq] at h
    cases h
    exact (readBytes_length leftover _ _).trans hcount

theorem readLine_eq (leftover : ℕ → U32) {line : Option Line} {streamData : U8} {rest : List U8}
    (h : Msp.readLine s.streamData s.input = some (line, streamData, rest))
    (hfuel : s.input.length < fuel) :
    ∃ t, readLine leftover fuel s = some (line.isNone, t) ∧ t.streamData = streamData ∧
      t.input = rest ∧ t.sent.map Prod.fst = s.sent.map Prod.fst ++ (line.map block).toList := by
  obtain ⟨input, hskip, h⟩ := Option.bind_eq_some_iff.mp h
  obtain ⟨v, hscan, rfl, hsent⟩ := scanColon_eq hskip hfuel
  obtain ⟨⟨n, input⟩, hcount, h⟩ := Option.bind_eq_some_iff.mp h
  obtain ⟨hn, hinput, hsent'⟩ := readByte_eq leftover hcount
  dsimp only at h
  split_ifs at h with hzero
  · cases h
    refine ⟨v.readByte leftover, readLine_last hscan (hn.trans hzero), hn, hinput, ?_⟩
    rw [hsent', hsent]
    exact (List.append_nil _).symm
  · obtain ⟨⟨addressH, _⟩, hhigh, h⟩ := Option.bind_eq_some_iff.mp h
    obtain ⟨⟨addressL, _⟩, hlow, h⟩ := Option.bind_eq_some_iff.mp h
    obtain ⟨⟨tt, _⟩, htype, h⟩ := Option.bind_eq_some_iff.mp h
    obtain ⟨⟨data, _⟩, hdata, h⟩ := Option.bind_eq_some_iff.mp h
    obtain ⟨⟨cc, _⟩, hcheck, heq⟩ := Option.map_eq_some_iff.mp h
    cases heq
    obtain ⟨rfl, rfl, hsent₁⟩ := readByte_eq leftover (hinput ▸ hhigh)
    obtain ⟨rfl, rfl, hsent₂⟩ := readByte_eq leftover hlow
    obtain ⟨rfl, rfl, hsent₃⟩ := readByte_eq leftover htype
    obtain ⟨rfl, rfl⟩ := readBytes_eq leftover hdata
    obtain ⟨rfl, rfl, hsent₄⟩ := readByte_eq leftover hcheck
    subst hn
    rw [readLine, hscan]
    refine ⟨_, congrArg some (if_neg hzero), rfl, rfl, ?_⟩
    rw [send, hsent₄, readBytes_sent, hsent₃, hsent₂, hsent₁, hsent', hsent, List.map_append]
    rfl

/-- Where no byte of the file is missing, the variables that are not set do not matter. -/
theorem readLines_eq (leftover : ℕ → U32) {sent : List Sent}
    (h : Msp.readLines rounds s.streamData s.input = some sent) (hfuel : s.input.length < fuel) :
    ∃ t, readLines leftover fuel rounds s = some t ∧
      t.sent.map Prod.fst = s.sent.map Prod.fst ++ sent := by
  induction rounds generalizing s sent with
  | zero => cases h
  | succ rounds ih =>
      obtain ⟨⟨line, streamData, input⟩, hline, h⟩ := Option.bind_eq_some_iff.mp h
      obtain ⟨t, hread, hstream, hinput, hsent⟩ :=
        readLine_eq leftover (s := s.send patch) hline hfuel
      rw [readLines, hread]
      cases line with
      | none =>
          cases h
          refine ⟨t, rfl, ?_⟩
          rw [hsent, send, List.map_append, Option.map_none, Option.toList_none, List.append_nil]
          rfl
      | some line =>
          obtain ⟨sent, hrest, heq⟩ := Option.map_eq_some_iff.mp h
          cases heq
          subst hstream hinput
          have hlength : t.input.length < fuel :=
            Nat.lt_of_le_of_lt (readLine_length hread) hfuel
          obtain ⟨last, hlines, hlast⟩ := ih hrest hlength
          refine ⟨last, hlines, ?_⟩
          rw [hlast, hsent, send, List.map_append, List.append_assoc, List.append_assoc]
          rfl

/-- What the loader sends of such a file. -/
theorem readFile_eq {input : List U8} {sent : List Sent} (h : Msp.readFile input = some sent)
    (leftover : ℕ → U32) :
    ∃ fuel rounds t, readFile leftover fuel rounds 0 input = some t ∧
      t.sent.map Prod.fst = sent := by
  obtain ⟨sent, hlines, rfl⟩ := Option.map_eq_some_iff.mp h
  obtain ⟨t, hread, hsent⟩ := readLines_eq leftover
    (s := send ⟨input, 0, 0, false, []⟩ patch) hlines (Nat.lt_succ_self input.length)
  exact ⟨_, _, t, hread, hsent⟩

end Reader

end Msp

end LiberaBase
