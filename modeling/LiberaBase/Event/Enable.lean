import LiberaBase.Access.UserCopy
import LiberaBase.Event.Triggers
import Mathlib.Algebra.BigOperators.Group.List.Lemmas
import Mathlib.Algebra.Order.BigOperators.Group.List

/-!
# Enabling triggers

A request that enables triggers is to flush their fifos, and to accept nothing but the nine bits of
the triggers.  The loop that flushes starts its mask over in every round and lets its index go on,
and the complement of the mask of the triggers is taken before it is shifted.
-/

namespace LiberaBase

namespace EventAccess

open BitScan

variable {s : EventAccess} {c : Clock} {arg : U32} {file : File} {is ks : List ℕ}

/-- `sc_timestamps` and `mc_timestamps` -/
def fifos (s : EventAccess) : Clock → ℕ → LiberaFifo
  | .sc => s.drv.event.scTimestamps
  | .mc => s.drv.event.mcTimestamps

/-- The values of `i` at which the loop flushes a fifo. -/
def usedIndices (arg : U32) : Option (List ℕ) :=
  rescan trigVector trigZero (fun is i ↦ is ++ [i]) Driver.scanFuel Driver.scanFuel [] arg 0

/-- From `s` to `s'` the fifos of the triggers in `arg` are emptied, and no other one is touched. -/
structure Flushes (s s' : EventAccess) (c : Clock) (arg : U32) (indices : List ℕ) : Prop where
  bounded : ∀ i ∈ indices, i < trigEventsMax.toNat
  flushed : ∀ i < trigEventsMax.toNat, arg &&& triggerBit i ≠ 0 → (s'.fifos c i).isEmpty = true
  unchanged : ∀ i < trigEventsMax.toNat, arg &&& triggerBit i = 0 → s'.fifos c i = s.fifos c i
  other : ∀ c', c' ≠ c → s'.fifos c' = s.fifos c'

/-! ## What the loop flushes -/

theorem foldl_append_singleton (js is : List ℕ) :
    is.foldl (fun js j ↦ js ++ [j]) js = js ++ is := by
  induction is generalizing js with
  | nil => exact (List.append_nil js).symm
  | cons i is ih => rw [List.foldl_cons, ih, List.append_assoc, List.singleton_append]

theorem usedIndices_eq (arg : U32) :
    usedIndices arg = some (runningSums 0 (setBits 22 9 0 arg)) := by
  have hlen : (setBits 22 9 0 arg).length ≤ 9 - 0 := length_setBits_le
  rw [usedIndices, show trigZero = BitVec.twoPow 32 22 by decide,
    rescan_eq isField_trigVector (by decide) (by unfold Driver.scanFuel; omega),
    foldl_append_singleton, List.nil_append]

theorem fifos_flushTimestamps (c : Clock) (s : EventAccess) (i : ℕ) :
    (flushTimestamps c s i).fifos c = Function.update (s.fifos c) i (flushFIFO (s.fifos c i)) ∧
      ∀ c', c' ≠ c → (flushTimestamps c s i).fifos c' = s.fifos c' := by
  cases c
  · refine ⟨rfl, fun c' hc ↦ ?_⟩
    cases c'
    · exact absurd rfl hc
    · rfl
  · refine ⟨rfl, fun c' hc ↦ ?_⟩
    cases c'
    · rfl
    · exact absurd rfl hc

theorem isEmpty_flushFIFO (q : LiberaFifo) : (flushFIFO q).isEmpty = true := by
  simp [flushFIFO, RingFifo.flush, RingFifo.isEmpty]

theorem flushFIFO_idem (q : LiberaFifo) : flushFIFO (flushFIFO q) = flushFIFO q := rfl

theorem fifos_foldl (is : List ℕ) (s : EventAccess) (i : ℕ) :
    (is.foldl (flushTimestamps c) s).fifos c i =
        (if i ∈ is then flushFIFO (s.fifos c i) else s.fifos c i) ∧
      ∀ c', c' ≠ c → (is.foldl (flushTimestamps c) s).fifos c' = s.fifos c' := by
  induction is generalizing s with
  | nil => exact ⟨rfl, fun _ _ ↦ rfl⟩
  | cons k is ih =>
      obtain ⟨hk, hother⟩ := fifos_flushTimestamps c s k
      obtain ⟨hi, hrest⟩ := ih (flushTimestamps c s k)
      rw [List.foldl_cons]
      refine ⟨?_, fun c' hc ↦ (hrest c' hc).trans (hother c' hc)⟩
      rw [hi, hk]
      by_cases hik : i = k
      · subst hik
        rw [Function.update_self, flushFIFO_idem]
        simp
      · rw [Function.update_of_ne hik]
        simp [hik]

theorem fifos_trigEnable (s : EventAccess) (c : Clock) (mask : U32) :
    (s.trigEnable c mask).2.fifos = s.fifos := by
  unfold trigEnable
  split_ifs <;> rfl

theorem enableTrig_fifos (file : File) (hzero : arg ≠ 0) (hvalid : arg &&& notTrigAllMask = 0)
    (hfree : arg &&& s.trigVec c = 0) : ∃ s', enableTrig c s file arg = some (0, s') ∧
      (∀ i, s'.fifos c i = if i ∈ runningSums 0 (setBits 22 9 0 arg) then flushFIFO (s.fifos c i)
        else s.fifos c i) ∧ ∀ c', c' ≠ c → s'.fifos c' = s.fifos c' := by
  rw [enableTrig, if_neg (not_or.mpr ⟨hzero, not_not.mpr hvalid⟩), if_neg (not_not.mpr hfree)]
  simp only [rescan_flush, Option.map_some]
  refine ⟨_, rfl, fun i ↦ ?_, fun c' hc ↦ ?_⟩
  · rw [fifos_trigEnable]
    exact (fifos_foldl _ _ i).1
  · rw [fifos_trigEnable]
    exact (fifos_foldl _ _ 0).2 c' hc

/-! ## Which triggers are flushed -/

theorem and_triggerBit (arg : U32) {i : ℕ} (hi : i < 10) :
    arg &&& triggerBit i ≠ 0 ↔ arg.getLsbD (22 + i) = true := by
  have hbit : triggerBit i = BitVec.twoPow 32 (22 + i) := by
    rw [triggerBit, Nat.add_comm, BitVec.twoPow_eq]
  rw [hbit, ne_eq, and_twoPow_eq_zero (by omega), Bool.not_eq_false]

theorem triggerBit_eq_zero {i : ℕ} (hi : 10 ≤ i) : triggerBit i = 0 := by
  rw [triggerBit]
  apply BitVec.eq_of_getLsbD_eq
  intro j hj
  simp
  omega

/-- An argument that is accepted has the bits of triggers 0 to 8 at most. -/
theorem mem_triggers (hvalid : arg &&& notTrigAllMask = 0) {i : ℕ} :
    i ∈ setBits 22 9 0 arg ↔ arg &&& triggerBit i ≠ 0 := by
  rw [mem_setBits]
  by_cases hi : i < 10
  · rw [and_triggerBit arg hi]
    refine ⟨fun h ↦ h.2.2, fun h ↦ ⟨Nat.zero_le i, ?_, h⟩⟩
    by_contra hlarge
    obtain rfl : i = 9 := by omega
    have hbit := congrArg (fun x ↦ BitVec.getLsbD x 31) hvalid
    have hmask : notTrigAllMask.getLsbD 31 = true := by decide
    simp only [BitVec.getLsbD_and, hmask, h] at hbit
    cases hbit
  · rw [triggerBit_eq_zero (by omega)]
    constructor
    · rintro ⟨-, hlt, -⟩
      omega
    · exact fun h ↦ absurd BitVec.and_zero h

/-- At most one trigger besides trigger 0. -/
def Lone (arg : U32) : Prop :=
  ∀ i j, 0 < i → 0 < j → arg &&& triggerBit i ≠ 0 → arg &&& triggerBit j ≠ 0 → i = j

/-- The fifos at the running sums of the triggers are in their array, and empty as a flush leaves
them where they belong to no trigger; and the fifos of the triggers that are not among them are
empty. -/
structure Unnoticed (s : EventAccess) (c : Clock) (arg : U32) : Prop where
  sums : ∀ i ∈ runningSums 0 (setBits 22 9 0 arg), i < trigEventsMax.toNat ∧
    (arg &&& triggerBit i ≠ 0 ∨ flushFIFO (s.fifos c i) = s.fifos c i)
  triggers : ∀ i, arg &&& triggerBit i ≠ 0 → i ∈ runningSums 0 (setBits 22 9 0 arg) ∨
    (s.fifos c i).isEmpty = true

theorem runningSums_lone (hsorted : ks.Pairwise (· < ·))
    (hlone : ∀ i ∈ ks, ∀ j ∈ ks, 0 < i → 0 < j → i = j) : runningSums 0 ks = ks := by
  match ks, hsorted, hlone with
  | [], _, _ => rfl
  | [k], _, _ => simp [runningSums]
  | k :: k' :: ks, hsorted, hlone =>
    obtain ⟨hk, hsorted⟩ := List.pairwise_cons.mp hsorted
    obtain ⟨hk', -⟩ := List.pairwise_cons.mp hsorted
    have hlt : k < k' := hk k' List.mem_cons_self
    obtain rfl : k = 0 := by
      by_contra hne
      have := hlone k (by simp) k' (by simp) (by omega) (by omega)
      omega
    cases ks with
    | nil => simp [runningSums]
    | cons k'' ks =>
        have hlt' : k' < k'' := hk' k'' List.mem_cons_self
        have := hlone k' (by simp) k'' (by simp) (by omega) (by omega)
        omega

theorem sum_mem_runningSums (i : ℕ) (hne : ks ≠ []) : i + ks.sum ∈ runningSums i ks := by
  induction ks generalizing i with
  | nil => exact absurd rfl hne
  | cons k ks ih =>
      rw [runningSums, List.sum_cons, ← Nat.add_assoc]
      cases ks with
      | nil => simp
      | cons k' ks => exact List.mem_cons_of_mem _ (ih (i + k) (List.cons_ne_nil _ _))

theorem add_le_sum {i j : ℕ} (hi : i ∈ ks) (hj : j ∈ ks) (hij : i ≠ j) : i + j ≤ ks.sum := by
  have hmem : j ∈ ks.erase i := (List.mem_erase_of_ne (Ne.symm hij)).mpr hj
  have hperm := (List.perm_cons_erase hi).sum_eq
  rw [List.sum_cons] at hperm
  have hle := List.single_le_sum (fun _ _ ↦ Nat.zero_le _) j hmem
  omega

theorem lone_of_sums (hsums : ∀ i ∈ runningSums 0 ks, i ∈ ks) {i j : ℕ} (hi : i ∈ ks) (hj : j ∈ ks)
    (hipos : 0 < i) (hjpos : 0 < j) : i = j := by
  have hsum : ks.sum ∈ ks := by
    have hlast := hsums _ (sum_mem_runningSums 0 (List.ne_nil_of_mem hi))
    rwa [Nat.zero_add] at hlast
  have heq (k : ℕ) (hk : k ∈ ks) (hpos : 0 < k) : k = ks.sum := by
    by_contra hne
    have := add_le_sum hk hsum hne
    omega
  exact (heq i hi hipos).trans (heq j hj hjpos).symm

theorem Lone.unnoticed (hlone : Lone arg) (hvalid : arg &&& notTrigAllMask = 0) (s : EventAccess)
    (c : Clock) : Unnoticed s c arg := by
  have hsums : runningSums 0 (setBits 22 9 0 arg) = setBits 22 9 0 arg :=
    runningSums_lone pairwise_setBits fun i hi j hj hipos hjpos ↦
      hlone i j hipos hjpos ((mem_triggers hvalid).mp hi) ((mem_triggers hvalid).mp hj)
  constructor
  · intro i hi
    rw [hsums] at hi
    refine ⟨?_, .inl ((mem_triggers hvalid).mp hi)⟩
    have hlt := (mem_setBits.mp hi).2.1
    have hmax : trigEventsMax.toNat = 11 := rfl
    omega
  · intro i hi
    rw [hsums]
    exact .inl ((mem_triggers hvalid).mpr hi)

theorem Unnoticed.lone (h : Unnoticed s c arg) (hvalid : arg &&& notTrigAllMask = 0)
    (hfull : ∀ i < trigEventsMax.toNat, (s.fifos c i).isEmpty = false) : Lone arg := by
  intro i j hipos hjpos hi hj
  refine lone_of_sums (fun k hk ↦ ?_) ((mem_triggers hvalid).mpr hi) ((mem_triggers hvalid).mpr hj)
    hipos hjpos
  obtain ⟨hlt, hbit | hflushed⟩ := h.sums k hk
  · exact (mem_triggers hvalid).mpr hbit
  · have hempty : (flushFIFO (s.fifos c k)).isEmpty = true := by
      simp [flushFIFO, RingFifo.flush, RingFifo.isEmpty]
    rw [hflushed, hfull k hlt] at hempty
    cases hempty

/-- **Enabling triggers flushes their fifos** if there is at most one besides trigger 0; otherwise
the flushes go astray, which shows unless the fifos happened to be empty. -/
theorem enableTrig_flushes_iff (file : File) (hzero : arg ≠ 0)
    (hvalid : arg &&& notTrigAllMask = 0) (hfree : arg &&& s.trigVec c = 0) :
    ∃ s' indices, enableTrig c s file arg = some (0, s') ∧ usedIndices arg = some indices ∧
      (Flushes s s' c arg indices ↔ Lone arg ∨ Unnoticed s c arg) ∧
      ((∀ i < trigEventsMax.toNat, (s.fifos c i).isEmpty = false) →
        (Flushes s s' c arg indices ↔ Lone arg)) := by
  obtain ⟨s', hs', hfifos, hother⟩ := enableTrig_fifos file hzero hvalid hfree
  have hiff : Flushes s s' c arg (runningSums 0 (setBits 22 9 0 arg)) ↔ Unnoticed s c arg := by
    constructor
    · intro h
      refine ⟨fun i hi ↦ ⟨h.bounded i hi, ?_⟩, fun i hbit ↦ ?_⟩
      · by_cases hbit : arg &&& triggerBit i = 0
        · have hsame := h.unchanged i (h.bounded i hi) hbit
          rw [hfifos, if_pos hi] at hsame
          exact .inr hsame
        · exact .inl hbit
      · by_cases hi : i ∈ runningSums 0 (setBits 22 9 0 arg)
        · exact .inl hi
        · have hlt := (mem_setBits.mp ((mem_triggers hvalid).mpr hbit)).2.1
          have hmax : trigEventsMax.toNat = 11 := rfl
          have hempty := h.flushed i (by omega) hbit
          rw [hfifos, if_neg hi] at hempty
          exact .inr hempty
    · intro h
      refine ⟨fun i hi ↦ (h.sums i hi).1, fun i _ hbit ↦ ?_, fun i _ hbit ↦ ?_, hother⟩
      · rw [hfifos]
        split_ifs with hi
        · exact isEmpty_flushFIFO _
        · exact (h.triggers i hbit).resolve_left hi
      · rw [hfifos]
        split_ifs with hi
        · exact (h.sums i hi).2.resolve_left (not_not.mpr hbit)
        · rfl
  refine ⟨s', _, hs', usedIndices_eq arg, hiff.trans ?_, fun hfull ↦ hiff.trans ?_⟩
  · exact ⟨.inr, fun h ↦ h.elim (fun hlone ↦ hlone.unnoticed hvalid s c) id⟩
  · exact ⟨fun h ↦ h.lone hvalid hfull, fun hlone ↦ hlone.unnoticed hvalid s c⟩

theorem enableTrig_flushes_two : ∃ s' indices,
    enableTrig .sc (EventFiles.boot EventFiles.clear).acc EventFiles.reader
      (triggerBit 0 ||| triggerBit 5) = some (0, s') ∧
    usedIndices (triggerBit 0 ||| triggerBit 5) = some indices ∧
    Flushes (EventFiles.boot EventFiles.clear).acc s' .sc (triggerBit 0 ||| triggerBit 5)
      indices := by
  have hvalid : (triggerBit 0 ||| triggerBit 5) &&& notTrigAllMask = 0 := by decide
  have hbits : setBits 22 9 0 (triggerBit 0 ||| triggerBit 5) = [0, 5] := by decide
  have hlone : Lone (triggerBit 0 ||| triggerBit 5) := by
    intro i j hipos hjpos hi hj
    rw [← mem_triggers hvalid, hbits] at hi hj
    simp only [List.mem_cons, List.not_mem_nil, or_false] at hi hj
    omega
  obtain ⟨s', indices, hs', hindices, hiff, -⟩ :=
    @enableTrig_flushes_iff (EventFiles.boot EventFiles.clear).acc .sc
      (triggerBit 0 ||| triggerBit 5) EventFiles.reader (by decide) hvalid (by decide +kernel)
  exact ⟨s', indices, hs', hindices, hiff.mpr (.inl hlone)⟩

theorem enableTrig_past_array : ∃ s',
    enableTrig .sc (EventFiles.boot EventFiles.clear).acc EventFiles.reader
      (triggerBit 5 ||| triggerBit 6) = some (0, s') ∧
    usedIndices (triggerBit 5 ||| triggerBit 6) = some [5, 11] ∧
    ¬Flushes (EventFiles.boot EventFiles.clear).acc s' .sc (triggerBit 5 ||| triggerBit 6)
      [5, 11] := by
  obtain ⟨s', hs', -⟩ := @enableTrig_fifos (EventFiles.boot EventFiles.clear).acc .sc
    (triggerBit 5 ||| triggerBit 6) EventFiles.reader (by decide) (by decide) (by decide +kernel)
  refine ⟨s', hs', by decide, fun h ↦ ?_⟩
  exact absurd (h.bounded 11 (by simp)) (by decide)

/-! ## Which bits are accepted -/

def lowBits : U32 := 0x3fffff

/-- No bit but those of the nine triggers. -/
def Valid (vec : U32) : Prop := vec &&& ~~~trigVector = 0

instance (vec : U32) : Decidable (Valid vec) := inferInstanceAs (Decidable (_ = _))

theorem valid_iff {vec : U32} : Valid vec ↔ vec &&& notTrigAllMask = 0 ∧ vec &&& lowBits = 0 := by
  have hmask : ~~~trigVector = notTrigAllMask ||| lowBits := by decide
  have hor (a b : U32) : a ||| b = 0 ↔ a = 0 ∧ b = 0 := by
    constructor
    · intro h
      have hbits (j : ℕ) := congrArg (fun x ↦ BitVec.getLsbD x j) h
      simp only [BitVec.getLsbD_or, BitVec.ofNat_eq_ofNat, BitVec.getLsbD_zero,
        Bool.or_eq_false_iff] at hbits
      exact ⟨BitVec.eq_of_getLsbD_eq fun j _ ↦ by simpa using (hbits j).1,
        BitVec.eq_of_getLsbD_eq fun j _ ↦ by simpa using (hbits j).2⟩
    · rintro ⟨rfl, rfl⟩
      rfl
  rw [Valid, hmask, BitVec.and_or_distrib_left, hor]

theorem Valid.zero : Valid 0 := BitVec.zero_and

theorem Valid.or {v v' : U32} (h : Valid v) (h' : Valid v') : Valid (v ||| v') := by
  unfold Valid at *
  rw [BitVec.and_or_distrib_right, h, h']
  rfl

theorem Valid.and {v : U32} (h : Valid v) (v' : U32) : Valid (v &&& v') := by
  unfold Valid at *
  rw [BitVec.and_assoc, BitVec.and_comm v', ← BitVec.and_assoc, h]
  exact BitVec.zero_and

/-- What was written to a register last. -/
def lastWrite (reg : ℕ) (writes : List (ℕ × U32)) : Option U32 :=
  ((writes.filter fun w ↦ w.1 = reg).getLast?).map Prod.snd

theorem lastWrite_append (reg : ℕ) (writes : List (ℕ × U32)) (addr : ℕ) (val : U32) :
    lastWrite reg (writes ++ [(addr, val)]) =
      if addr = reg then some val else lastWrite reg writes := by
  rw [lastWrite, List.filter_append]
  split_ifs with h
  · simp [h]
  · simp [h, lastWrite]

theorem trigEnable_writes {mask : U32} (h : mask &&& notTrigAllMask = 0) :
    (s.trigEnable c mask).2.drv.writes = s.drv.writes ++
      [(triggerMaskReg c, s.trigVec c ||| mask ||| selfIncBit)] := by
  simp [trigEnable, h, writel, Driver.writel]

theorem triggerMaskReg_inj {c c' : Clock} (h : triggerMaskReg c = triggerMaskReg c') : c = c' := by
  revert h
  cases c <;> cases c' <;> decide

theorem liberaEventRelease_writes (s : EventAccess) (file : File) :
    (s.liberaEventRelease file).drv.writes =
      if file.mode.read = true ∧ file.mode.write = false then
        s.drv.writes ++ [(triggerMaskReg .sc, (s.liberaEventRelease file).trigVec .sc ||| selfIncBit)]
          ++ [(triggerMaskReg .mc, (s.liberaEventRelease file).trigVec .mc ||| selfIncBit)]
      else s.drv.writes := by
  rw [liberaEventRelease_trigVec, liberaEventRelease_trigVec]
  unfold liberaEventRelease
  dsimp only
  split_ifs <;> rfl

end EventAccess

namespace EventFiles

open EventAccess Runs

variable {s s' : EventFiles} {file : File} {c : Clock} {arg : U32}

/-- A request with a bit below those of the triggers is refused for another reason. -/
def Aligned (s : EventFiles) : EventOp → Prop
  | .enable c _ arg =>
    arg &&& lowBits = 0 ∨ arg &&& notTrigAllMask ≠ 0 ∨ arg &&& s.acc.trigVec c ≠ 0
  | _ => True

instance (s : EventFiles) : ∀ op, Decidable (s.Aligned op)
  | .enable _ _ _ => inferInstanceAs (Decidable (_ ∨ _))
  | .open _ _ => isTrue trivial
  | .release _ => isTrue trivial

/-- The vectors of the device and of the descriptors have the bits of triggers only, and the
registers differ from those of the device in the bit of the self-increment. -/
structure VectorsValid (s : EventFiles) : Prop where
  device : ∀ c, Valid (s.acc.trigVec c)
  descriptors : ∀ f ∈ s.files, ∀ c, Valid (s.acc.locals f.filp c)
  register : ∀ c, lastWrite (triggerMaskReg c) s.acc.drv.writes =
    some (s.acc.trigVec c ||| selfIncBit)

theorem boot_vectorsValid (drv : Driver) : VectorsValid (boot drv) := by
  have hload : loadTriggers &&& notTrigAllMask = 0 := by decide
  have hvec : ∀ c, (boot drv).acc.trigVec c = loadTriggers := by
    intro c
    rw [boot, trigEnable_trigVec hload, trigEnable_trigVec hload]
    cases c <;> simp
  refine ⟨fun c ↦ ?_, fun f hf ↦ absurd hf List.not_mem_nil, fun c ↦ ?_⟩
  · rw [hvec]
    decide
  · rw [hvec, boot, trigEnable_writes hload, trigEnable_writes hload, trigEnable_trigVec hload,
      lastWrite_append, lastWrite_append]
    cases c <;> simp [triggerMaskReg, tSCTriggerMask, tMCTriggerMask]

namespace VectorsValid

theorem openFile (h : VectorsValid s) {kmallocOk : Bool}
    (hstep : s.step (.open file kmallocOk) = some s') : VectorsValid s' := by
  have hvec := s.acc.liberaEventOpen_trigVec file kmallocOk
  have hloc := s.acc.liberaEventOpen_locals file kmallocOk
  have hwrites : (s.acc.liberaEventOpen file kmallocOk).2.drv.writes = s.acc.drv.writes := by
    unfold liberaEventOpen
    dsimp only
    split_ifs <;> rfl
  have hvalid : ∀ f, (∀ c, Valid (s.acc.locals f c)) →
      ∀ c, Valid ((s.acc.liberaEventOpen file kmallocOk).2.locals f c) := by
    intro f hf c
    rcases hloc with ⟨hloc, -⟩ | hloc
    · rw [hloc]
      exact hf c
    · rw [hloc, Function.update_apply]
      split_ifs
      · exact Valid.zero
      · exact hf c
  simp only [EventFiles.step] at hstep
  split_ifs at hstep with hfresh hret
  · obtain rfl := Option.some.inj hstep
    refine ⟨fun c ↦ hvec ▸ h.device c, fun f hf c ↦ ?_, fun c ↦ ?_⟩
    · rcases List.mem_cons.mp hf with rfl | hf
      · rcases hloc with ⟨-, hne⟩ | hloc
        · exact absurd hret hne
        · simp only [hloc, Function.update_self]
          exact Valid.zero
      · exact hvalid f.filp (h.descriptors f hf) c
    · simp only [hvec, hwrites]
      exact h.register c
  · obtain rfl := Option.some.inj hstep
    refine ⟨fun c ↦ hvec ▸ h.device c, fun f hf c ↦ hvalid f.filp (h.descriptors f hf) c, ?_⟩
    intro c
    simp only [hvec, hwrites]
    exact h.register c

theorem releaseFile (h : VectorsValid s) (hstep : s.step (.release file) = some s') :
    VectorsValid s' := by
  simp only [EventFiles.step] at hstep
  split_ifs at hstep with hmem
  obtain rfl := Option.some.inj hstep
  constructor
  · intro c
    rw [liberaEventRelease_trigVec]
    split_ifs
    · exact (h.device c).and _
    · exact h.device c
  · intro f hf c
    rw [liberaEventRelease_locals, Function.update_apply]
    split_ifs
    · exact Valid.zero
    · exact h.descriptors f (List.mem_of_mem_erase hf) c
  · intro c
    rw [liberaEventRelease_writes]
    split_ifs with hread
    · rw [lastWrite_append, lastWrite_append]
      cases c <;> simp [triggerMaskReg, tSCTriggerMask, tMCTriggerMask]
    · rw [h.register c, liberaEventRelease_trigVec, if_neg hread]

theorem granted {acc : EventAccess} (hok : s.Aligned (.enable c file arg))
    (hgrant : enableTrig c s.acc file arg = some (0, acc)) :
    arg ≠ 0 ∧ Valid arg ∧ arg &&& s.acc.trigVec c = 0 := by
  by_cases hall : arg ≠ 0 ∧ arg &&& notTrigAllMask = 0 ∧ arg &&& s.acc.trigVec c = 0
  · obtain ⟨hzero, hvalid, hfree⟩ := hall
    refine ⟨hzero, valid_iff.mpr ⟨hvalid, ?_⟩, hfree⟩
    rcases hok with hlow | hrefused | hbusy
    · exact hlow
    · exact absurd hvalid hrefused
    · exact absurd hfree hbusy
  · obtain ⟨err, herr, heq⟩ := enableTrig_refused file hall
    rw [heq] at hgrant
    obtain ⟨rfl, -⟩ := Prod.mk.inj (Option.some.inj hgrant)
    exact absurd herr (lt_irrefl 0)

theorem refused {acc : EventAccess} {err : ℤ} (herr : err ≠ 0)
    (hrefuse : enableTrig c s.acc file arg = some (err, acc)) : acc = s.acc := by
  by_cases hall : arg ≠ 0 ∧ arg &&& notTrigAllMask = 0 ∧ arg &&& s.acc.trigVec c = 0
  · obtain ⟨hzero, hvalid, hfree⟩ := hall
    obtain ⟨ev, heq⟩ := enableTrig_granted file hzero hvalid hfree
    rw [heq] at hrefuse
    obtain ⟨rfl, -⟩ := Prod.mk.inj (Option.some.inj hrefuse)
    exact absurd rfl herr
  · obtain ⟨err', -, heq⟩ := enableTrig_refused file hall
    rw [heq] at hrefuse
    exact (Prod.mk.inj (Option.some.inj hrefuse)).2.symm

theorem enableFile (h : VectorsValid s) (hok : s.Aligned (.enable c file arg))
    (hstep : s.step (.enable c file arg) = some s') : VectorsValid s' := by
  simp only [EventFiles.step] at hstep
  split_ifs at hstep with hmem
  obtain ⟨⟨err, acc⟩, henable, rfl⟩ := Option.map_eq_some_iff.mp hstep
  by_cases herr : err = 0
  · subst herr
    obtain ⟨hzero, hvalid, hfree⟩ := granted hok henable
    obtain ⟨ev, heq⟩ := enableTrig_granted file hzero (valid_iff.mp hvalid).1 hfree
    obtain ⟨-, rfl⟩ := Prod.mk.inj (Option.some.inj (henable.symm.trans heq))
    have hvec : Valid (s.acc.locals file.filp c ||| arg) := (h.descriptors file hmem c).or hvalid
    have hmask := (valid_iff.mp hvec).1
    refine ⟨fun c' ↦ ?_, fun f hf c' ↦ ?_, fun c' ↦ ?_⟩
    · rw [trigEnable_trigVec hmask, Function.update_apply]
      split_ifs with hc
      · exact (h.device c).or hvec
      · exact h.device c'
    · rw [trigEnable_locals]
      simp only [setLocal]
      rw [Function.update_apply]
      split_ifs
      · rw [Function.update_apply]
        split_ifs
        · exact hvec
        · exact h.descriptors file hmem c'
      · exact h.descriptors f hf c'
    · rw [trigEnable_trigVec hmask, trigEnable_writes hmask, lastWrite_append, Function.update_apply]
      by_cases hc : c' = c
      · rw [if_pos hc, if_pos (congrArg triggerMaskReg hc.symm)]
      · rw [if_neg hc, if_neg fun hreg ↦ hc (triggerMaskReg_inj hreg).symm]
        exact h.register c'
  · rw [refused herr henable]
    exact h

theorem step (h : VectorsValid s) {op : EventOp} (hok : s.Aligned op)
    (hstep : s.step op = some s') : VectorsValid s' := by
  cases op with
  | «open» file kmallocOk => exact h.openFile hstep
  | enable c file arg => exact h.enableFile hok hstep
  | release file => exact h.releaseFile hstep

end VectorsValid

/-- **Only the bits of triggers are enabled** in a run in which no request with a lower bit is
granted. -/
theorem vectors_valid {drv : Driver} {ops : List EventOp}
    (hrun : Steps EventFiles.step Aligned (boot drv) ops s) : VectorsValid s ∧
      (∀ c file arg acc, s.Aligned (.enable c file arg) →
        enableTrig c s.acc file arg = some (0, acc) → arg ≠ 0 ∧ Valid arg) ∧
      ∀ c file arg err acc, err ≠ 0 → enableTrig c s.acc file arg = some (err, acc) →
        acc = s.acc := by
  have hinv : VectorsValid s :=
    hrun.invariant (fun _ _ _ h hok hstep ↦ h.step hok hstep) (boot_vectorsValid drv)
  refine ⟨hinv, fun c file arg acc hok hgrant ↦ ?_, fun c file arg err acc herr hrefuse ↦ ?_⟩
  · obtain ⟨hzero, hvalid, -⟩ := VectorsValid.granted hok hgrant
    exact ⟨hzero, hvalid⟩
  · exact VectorsValid.refused herr hrefuse

theorem vectors_valid_enabled : ∃ s : EventFiles, VectorsValid s ∧
    s.acc.trigVec .sc = loadTriggers ||| triggerBit 5 :=
  ⟨_, (vectors_valid (exec_get_steps EventFiles.step Aligned (boot clear)
    [.open reader true, .enable .sc reader (triggerBit 4 ||| 1),
      .enable .sc reader (triggerBit 5)] (by decide +kernel))).1, by decide +kernel⟩

/-- Bit 0 is none of the triggers. -/
theorem low_bit_enabled : ∃ s : EventFiles,
    Steps EventFiles.step anyStep (boot clear) [.open reader true, .enable .sc reader 1] s ∧
    (∃ acc, enableTrig .sc ((boot clear).acc.liberaEventOpen reader true).2 reader 1 =
      some (0, acc)) ∧
    s.acc.trigVec .sc = loadTriggers ||| 1 ∧ s.acc.locals reader.filp .sc = 1 ∧
    ¬VectorsValid s := by
  have hrun := exec_get_steps EventFiles.step anyStep (boot clear)
    [.open reader true, .enable .sc reader 1] (by decide +kernel)
  refine ⟨_, hrun, ?_, by decide +kernel, by decide +kernel, fun h ↦ ?_⟩
  · obtain ⟨ev, heq⟩ := @enableTrig_granted ((boot clear).acc.liberaEventOpen reader true).2
      reader .sc 1 (by decide) (by decide) (by decide +kernel)
    exact ⟨_, heq⟩
  · exact absurd (h.device .sc) (by decide +kernel)

end EventFiles

end LiberaBase
