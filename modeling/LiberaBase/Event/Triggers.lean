import LiberaBase.Access.Writer
import LiberaBase.Lib.Runs
import LiberaBase.Lib.Ownership
import LiberaBase.Timing.Dispatch

/-!
# Descriptors of the event device and their triggers

Every descriptor of the event device keeps the triggers it has enabled, for each of the two
clocks, and the device keeps all that are enabled.  A trigger that is enabled is refused to
everybody else, and reading one takes a descriptor that has enabled it.
-/

namespace LiberaBase

/-- What `libera_event_open`, `libera_event_release` and the trigger requests work on: the
driver, the access control of the event device, the enabled triggers, and those of each
`event_local`, by the file it belongs to. -/
structure EventAccess where
  drv : Driver
  common : CommonDev
  trigVec : Clock → U32
  locals : ℕ → Clock → U32

namespace EventAccess

/-- `~TRIG_ALL_MASK`: the macro, here `trigVector`, has no parentheses, the complement comes before the shift. -/
def notTrigAllMask : U32 := (~~~0x1FF#32) <<< 22

def selfIncBit : U32 := 0x80000000

def triggerMaskReg : Clock → ℕ
  | .sc => tSCTriggerMask
  | .mc => tMCTriggerMask

def writel (s : EventAccess) (val : U32) (addr : ℕ) : EventAccess :=
  { s with drv := s.drv.writel val addr }

/-- `libera_sctrig_enable` and `libera_mctrig_enable` -/
def trigEnable (s : EventAccess) (c : Clock) (mask : U32) : ℤ × EventAccess :=
  if mask &&& notTrigAllMask ≠ 0 then (-1, s)
  else
    let vec := s.trigVec c ||| mask
    (0, { s with trigVec := Function.update s.trigVec c vec }.writel (vec ||| selfIncBit)
      (triggerMaskReg c))

def setLocal (s : EventAccess) (filp : ℕ) (vec : Clock → U32) : EventAccess :=
  { s with locals := Function.update s.locals filp vec }

def flushEvents (s : EventAccess) : EventAccess :=
  { s with drv := { s.drv with event := { s.drv.event with events := s.drv.event.events.flush } } }

/-- `flushFIFO(& dev->sc_timestamps[i])` and `flushFIFO(& dev->mc_timestamps[i])` -/
def flushTimestamps (c : Clock) (s : EventAccess) (i : ℕ) : EventAccess :=
  let ev := s.drv.event
  match c with
  | .sc => { s with drv := { s.drv with event := { ev with
      scTimestamps := Function.update ev.scTimestamps i (flushFIFO (ev.scTimestamps i)) } } }
  | .mc => { s with drv := { s.drv with event := { ev with
      mcTimestamps := Function.update ev.mcTimestamps i (flushFIFO (ev.mcTimestamps i)) } } }

def liberaEventOpen (s : EventAccess) (file : File) (kmallocOk : Bool) : ℤ × EventAccess :=
  if kmallocOk = false then (- ENOMEM, s)
  else
    let s₁ := s.setLocal file.filp fun _ ↦ 0
    let (ret, common) := s₁.common.openMaster file
    let s₂ : EventAccess := { s₁ with common := common }
    if ret = 0 ∧ file.mode.write = true then (ret, s₂.flushEvents) else (ret, s₂)

/-- `libera_event_release`: the triggers of a descriptor are given back if it was opened for
reading only. -/
def liberaEventRelease (s : EventAccess) (file : File) : EventAccess :=
  let s₁ : EventAccess := { s with common := s.common.releaseMaster file }
  let s₂ : EventAccess :=
    if file.mode.read = true ∧ file.mode.write = false then
      let s' : EventAccess := { s₁ with trigVec := fun c ↦ s₁.trigVec c &&& ~~~s₁.locals file.filp c }
      (s'.writel (s'.trigVec .sc ||| selfIncBit) tSCTriggerMask).writel
        (s'.trigVec .mc ||| selfIncBit) tMCTriggerMask
    else s₁
  let s₃ : EventAccess :=
    if file.mode.write = true ∧ s₂.common.writers = 0 then
      { s₂ with drv := { s₂.drv with lgbl := { s₂.drv.lgbl with eventMask := 0 } } }.flushEvents
    else s₂
  s₃.setLocal file.filp fun _ ↦ 0

/-- `LIBERA_EVENT_ENABLE_SC_TRIG` and `LIBERA_EVENT_ENABLE_MC_TRIG`; the index of the loop
that flushes is not reset with its mask.  `none` would be a loop that does not end. -/
def enableTrig (c : Clock) (s : EventAccess) (file : File) (arg : U32) :
    Option (ℤ × EventAccess) :=
  if arg = 0 ∨ arg &&& notTrigAllMask ≠ 0 then some (- EINVAL, s)
  else if arg &&& s.trigVec c ≠ 0 then some (- EBUSY, s)
  else
    let vec := s.locals file.filp c ||| arg
    let s₁ := s.setLocal file.filp (Function.update (s.locals file.filp) c vec)
    (BitScan.rescan trigVector trigZero (flushTimestamps c) Driver.scanFuel Driver.scanFuel s₁ arg
      0).map fun s₂ ↦ (0, (s₂.trigEnable c vec).2)

def enableSCTrig := enableTrig .sc
def enableMCTrig := enableTrig .mc

/-! ## What the operations leave alone -/

variable {s s' : EventAccess} {file : File} {c : Clock} {arg : U32}

theorem trigEnable_trigVec {mask : U32} (h : mask &&& notTrigAllMask = 0) :
    (s.trigEnable c mask).2.trigVec = Function.update s.trigVec c (s.trigVec c ||| mask) := by
  simp [trigEnable, h, writel]

theorem trigEnable_locals (s : EventAccess) (c : Clock) (mask : U32) :
    (s.trigEnable c mask).2.locals = s.locals := by
  unfold trigEnable
  split_ifs <;> rfl

theorem flushTimestamps_foldl (c : Clock) (s : EventAccess) (is : List ℕ) :
    ∃ ev, is.foldl (flushTimestamps c) s = { s with drv := { s.drv with event := ev } } := by
  induction is generalizing s with
  | nil => exact ⟨s.drv.event, rfl⟩
  | cons i is ih =>
      obtain ⟨ev, heq⟩ := ih (flushTimestamps c s i)
      rw [List.foldl_cons, heq]
      cases c
      · exact ⟨ev, rfl⟩
      · exact ⟨ev, rfl⟩

/-- The fifos that are flushed are those of the running sums of the triggers. -/
theorem rescan_flush (c : Clock) (s : EventAccess) (arg : U32) :
    BitScan.rescan trigVector trigZero (flushTimestamps c) Driver.scanFuel Driver.scanFuel s arg
      0 = some ((BitScan.runningSums 0 (BitScan.setBits 22 9 0 arg)).foldl (flushTimestamps c) s) := by
  have hlen : (BitScan.setBits 22 9 0 arg).length ≤ 9 - 0 := BitScan.length_setBits_le
  rw [show trigZero = BitVec.twoPow 32 22 by decide]
  apply BitScan.rescan_eq isField_trigVector
  · decide
  · unfold Driver.scanFuel
    omega

theorem rescan_flushTimestamps (c : Clock) (s : EventAccess) (arg : U32) : ∃ ev,
    BitScan.rescan trigVector trigZero (flushTimestamps c) Driver.scanFuel Driver.scanFuel s arg
      0 = some { s with drv := { s.drv with event := ev } } := by
  obtain ⟨ev, hev⟩ := flushTimestamps_foldl c s
    (BitScan.runningSums 0 (BitScan.setBits 22 9 0 arg))
  exact ⟨ev, hev ▸ rescan_flush c s arg⟩

variable (file) in
theorem enableTrig_granted (hzero : arg ≠ 0) (hvalid : arg &&& notTrigAllMask = 0)
    (hfree : arg &&& s.trigVec c = 0) : ∃ ev, enableTrig c s file arg = some (0,
      (({ s with drv := { s.drv with event := ev } }.setLocal file.filp
        (Function.update (s.locals file.filp) c (s.locals file.filp c ||| arg))).trigEnable c
          (s.locals file.filp c ||| arg)).2) := by
  obtain ⟨ev, hev⟩ := rescan_flushTimestamps c (s.setLocal file.filp
    (Function.update (s.locals file.filp) c (s.locals file.filp c ||| arg))) arg
  refine ⟨ev, ?_⟩
  rw [enableTrig, if_neg (not_or.mpr ⟨hzero, not_not.mpr hvalid⟩), if_neg (not_not.mpr hfree)]
  simp only [hev]
  rfl

variable (file) in
theorem enableTrig_refused
    (h : ¬(arg ≠ 0 ∧ arg &&& notTrigAllMask = 0 ∧ arg &&& s.trigVec c = 0)) :
    ∃ err, err < 0 ∧ enableTrig c s file arg = some (err, s) := by
  by_cases hinval : arg = 0 ∨ arg &&& notTrigAllMask ≠ 0
  · exact ⟨- EINVAL, by decide, by rw [enableTrig, if_pos hinval]⟩
  · have hbusy : arg &&& s.trigVec c ≠ 0 := by
      obtain ⟨hzero, hvalid⟩ := not_or.mp hinval
      exact fun hfree ↦ h ⟨hzero, not_not.mp hvalid, hfree⟩
    exact ⟨- EBUSY, by decide, by rw [enableTrig, if_neg hinval, if_pos hbusy]⟩

theorem liberaEventOpen_trigVec (s : EventAccess) (file : File) (kmallocOk : Bool) :
    (s.liberaEventOpen file kmallocOk).2.trigVec = s.trigVec := by
  unfold liberaEventOpen
  dsimp only
  split_ifs <;> rfl

theorem liberaEventOpen_locals (s : EventAccess) (file : File) (kmallocOk : Bool) :
    (s.liberaEventOpen file kmallocOk).2.locals = s.locals ∧
        (s.liberaEventOpen file kmallocOk).1 ≠ 0 ∨
      (s.liberaEventOpen file kmallocOk).2.locals =
        Function.update s.locals file.filp fun _ ↦ 0 := by
  unfold liberaEventOpen
  dsimp only
  split_ifs
  · exact .inl ⟨rfl, show - ENOMEM ≠ 0 by decide⟩
  · exact .inr rfl
  · exact .inr rfl

theorem liberaEventRelease_trigVec (s : EventAccess) (file : File) (c : Clock) :
    (s.liberaEventRelease file).trigVec c =
      if file.mode.read = true ∧ file.mode.write = false then
        s.trigVec c &&& ~~~s.locals file.filp c
      else s.trigVec c := by
  unfold liberaEventRelease
  dsimp only
  split_ifs <;> rfl

theorem liberaEventRelease_locals (s : EventAccess) (file : File) :
    (s.liberaEventRelease file).locals = Function.update s.locals file.filp fun _ ↦ 0 := by
  unfold liberaEventRelease
  dsimp only
  split_ifs <;> rfl

/-! ## Trigger vectors as sets -/

def bits (v : U32) : Set ℕ := {j | v.getLsbD j = true}

theorem bits_zero : bits 0 = ∅ := by
  ext j
  simp [bits]

theorem bits_or (v v' : U32) : bits (v ||| v') = bits v ∪ bits v' := by
  ext j
  simp [bits]

theorem bits_and_not (v v' : U32) : bits (v &&& ~~~v') = bits v \ bits v' := by
  ext j
  simp only [bits, Set.mem_ofPred_eq, Set.mem_sdiff, BitVec.getLsbD_and, BitVec.getLsbD_not]
  by_cases hj : j < 32
  · simp [hj]
  · simp [hj, BitVec.getLsbD_of_ge _ _ (Nat.le_of_not_lt hj)]

theorem bits_and_subset_right {v v' : U32} : bits (v &&& v') ⊆ bits v' := by
  intro j hj
  simp only [bits, Set.mem_ofPred_eq, BitVec.getLsbD_and, Bool.and_eq_true] at hj
  exact hj.2

theorem mem_bits_of_and {v : U32} {x : ℕ} (h : v &&& triggerBit x ≠ 0) : x + 22 ∈ bits v := by
  by_contra hnot
  apply h
  apply BitVec.eq_of_getLsbD_eq
  intro j hj
  have hbit : v.getLsbD (x + 22) = false := by simpa [bits] using hnot
  by_cases hjx : j = x + 22
  · rw [BitVec.getLsbD_and, hjx, hbit]
    simp
  · have hone : (triggerBit x).getLsbD j = false := by
      simp only [triggerBit, BitVec.getLsbD_shiftLeft, BitVec.getLsbD_one]
      simp
      omega
    rw [BitVec.getLsbD_and, hone]
    simp

theorem disjoint_bits {v v' : U32} : Disjoint (bits v) (bits v') ↔ v &&& v' = 0 := by
  rw [Set.disjoint_left]
  constructor
  · intro h
    apply BitVec.eq_of_getLsbD_eq
    intro j _
    have hj := @h j
    simpa [bits] using hj
  · intro h j hv hv'
    have hj := congrArg (fun x ↦ BitVec.getLsbD x j) h
    simp only [bits, Set.mem_ofPred_eq] at hv hv'
    simp [hv, hv'] at hj

end EventAccess

/-! ## Runs -/

inductive EventOp where
  | open (file : File) (kmallocOk : Bool)
  | enable (c : Clock) (file : File) (arg : U32)
  | release (file : File)

structure EventFiles where
  acc : EventAccess
  files : List File

namespace EventFiles

open EventAccess Runs

variable {s s' : EventFiles} {file : File} {c : Clock} {arg : U32}

/-- The triggers `libera_init` enables. -/
def loadTriggers : U32 :=
  triggerBit tTrigCtime ||| triggerBit tTrigTrigger ||| triggerBit tTrigPostMortem

def boot (drv : Driver) : EventFiles :=
  let s : EventAccess := ⟨drv, .zero, fun _ ↦ 0, fun _ _ ↦ 0⟩
  ⟨((s.trigEnable .sc loadTriggers).2.trigEnable .mc loadTriggers).2, []⟩

def step (s : EventFiles) : EventOp → Option EventFiles
  | .open file kmallocOk =>
    if FreshFile s.files file then
      let (ret, acc) := s.acc.liberaEventOpen file kmallocOk
      some ⟨acc, if ret = 0 then file :: s.files else s.files⟩
    else none
  | .enable c file arg =>
    if file ∈ s.files then (enableTrig c s.acc file arg).map fun r ↦ { s with acc := r.2 }
    else none
  | .release file =>
    if file ∈ s.files then some ⟨s.acc.liberaEventRelease file, s.files.erase file⟩ else none

/-- The triggers that a descriptor of mode `file.mode` gives back when it is closed. -/
def GivesBack (s : EventFiles) (file : File) : Prop :=
  (∀ c, s.acc.locals file.filp c = 0) ∨ file.mode.read = true ∧ file.mode.write = false

theorem GivesBack.bits_release (h : s.GivesBack file) (c : Clock) :
    bits ((s.acc.liberaEventRelease file).trigVec c) =
      bits (s.acc.trigVec c) \ bits (s.acc.locals file.filp c) := by
  rw [liberaEventRelease_trigVec]
  rcases h with hnone | hread
  · rw [hnone c, bits_zero, Set.sdiff_empty]
    split_ifs
    · rw [bits_and_not, bits_zero, Set.sdiff_empty]
    · rfl
  · rw [if_pos hread, bits_and_not]

/-- A descriptor that is closed with enabled triggers was opened for reading only. -/
def ReadOnlyCloses (s : EventFiles) : EventOp → Prop
  | .release file => s.GivesBack file
  | _ => True

/-- What reading trigger `x` takes, in `GET_SC_TRIGGER_MACRO` and `GET_MC_TRIGGER_MACRO`. -/
def MayRead (s : EventFiles) (c : Clock) (file : File) (x : ℕ) : Prop :=
  s.acc.locals file.filp c &&& triggerBit x ≠ 0

/-- The triggers follow the open descriptors. -/
structure TriggersOwned (s : EventFiles) (c : Clock) : Prop where
  disjoint : ∀ f ∈ s.files, ∀ g ∈ s.files, f ≠ g →
    s.acc.locals f.filp c &&& s.acc.locals g.filp c = 0
  union : ∀ j, (s.acc.trigVec c).getLsbD j = true ↔
    loadTriggers.getLsbD j = true ∨ ∃ f ∈ s.files, (s.acc.locals f.filp c).getLsbD j = true
  one_reader : ∀ f ∈ s.files, ∀ g ∈ s.files, ∀ x, s.MayRead c f x → s.MayRead c g x → f = g
  enabled_again : ∀ f ∈ s.files, ∀ g ∈ s.files, g ≠ f → s.GivesBack f → ∀ arg, arg ≠ 0 →
    arg &&& s.acc.locals f.filp c = arg →
      ∃ acc, enableTrig c (s.acc.liberaEventRelease f) g arg = some (0, acc)

def holders (s : EventFiles) : Set ℕ := {p | p ∈ s.files.map (·.filp)}

structure Inv (s : EventFiles) : Prop where
  distinct : Distinct s.files
  valid : ∀ p ∈ s.holders, ∀ c, s.acc.locals p c &&& notTrigAllMask = 0
  owned : ∀ c, Ownership (bits loadTriggers) s.holders (fun p ↦ bits (s.acc.locals p c))
    (bits (s.acc.trigVec c))

namespace Inv

theorem boot (drv : Driver) : Inv (boot drv) := by
  have hload : loadTriggers &&& notTrigAllMask = 0 := by decide
  have hvec : ∀ c, (EventFiles.boot drv).acc.trigVec c = loadTriggers := by
    intro c
    rw [EventFiles.boot, trigEnable_trigVec hload, trigEnable_trigVec hload]
    cases c <;> simp
  refine ⟨List.nodup_nil, fun p hp ↦ absurd hp List.not_mem_nil, ?_⟩
  intro c
  have hnone : (EventFiles.boot drv).holders = ∅ := by
    ext p
    simp [holders, EventFiles.boot]
  rw [hvec, hnone]
  exact .empty _ _

theorem cons (h : Inv s) (hfresh : FreshFile s.files file) {acc : EventAccess}
    (hvec : acc.trigVec = s.acc.trigVec)
    (hloc : acc.locals = Function.update s.acc.locals file.filp fun _ ↦ 0) :
    Inv ⟨acc, file :: s.files⟩ := by
  have hne : ∀ p ∈ s.holders, p ≠ file.filp := by
    rintro p hp rfl
    exact hfresh hp
  have hholders : holders ⟨acc, file :: s.files⟩ = insert file.filp s.holders := by
    ext p
    simp [holders]
  constructor
  · exact h.distinct.cons hfresh
  · rw [hholders, hloc]
    rintro p (rfl | hp) c
    · simp
    · rw [Function.update_of_ne (hne p hp)]
      exact h.valid p hp c
  · intro c
    rw [hholders, hvec, hloc]
    apply Ownership.insert
    · apply (h.owned c).congr
      intro p hp
      rw [Function.update_of_ne (hne p hp)]
    · rw [Function.update_self, bits_zero]

theorem congr (h : Inv s) {acc : EventAccess} (hvec : acc.trigVec = s.acc.trigVec)
    (hloc : ∀ p ∈ s.holders, acc.locals p = s.acc.locals p) : Inv ⟨acc, s.files⟩ := by
  constructor
  · exact h.distinct
  · intro p hp c
    rw [hloc p hp]
    exact h.valid p hp c
  · intro c
    rw [hvec]
    apply (h.owned c).congr
    intro p hp
    rw [hloc p hp]

theorem openFile (h : Inv s) {kmallocOk : Bool}
    (hstep : s.step (.open file kmallocOk) = some s') : Inv s' := by
  have hvec := s.acc.liberaEventOpen_trigVec file kmallocOk
  have hloc := s.acc.liberaEventOpen_locals file kmallocOk
  simp only [step] at hstep
  split_ifs at hstep with hfresh hret
  · obtain rfl := Option.some.inj hstep
    rcases hloc with ⟨-, hne⟩ | hloc
    · exact absurd hret hne
    · exact h.cons hfresh hvec hloc
  · obtain rfl := Option.some.inj hstep
    refine h.congr hvec fun p hp ↦ ?_
    rcases hloc with ⟨hloc, -⟩ | hloc
    · rw [hloc]
    · have hne : p ≠ file.filp := by
        rintro rfl
        exact hfresh hp
      rw [hloc, Function.update_of_ne hne]

theorem erase (h : Inv s) (hmem : file ∈ s.files) (hgives : s.GivesBack file) :
    Inv ⟨s.acc.liberaEventRelease file, s.files.erase file⟩ := by
  have hholders : holders ⟨s.acc.liberaEventRelease file, s.files.erase file⟩ =
      s.holders \ {file.filp} := by
    ext p
    simp only [holders, List.mem_map, Set.mem_sdiff, Set.mem_ofPred_eq, Set.mem_singleton_iff]
    constructor
    · rintro ⟨f, hf, rfl⟩
      obtain ⟨hne, hf⟩ := h.distinct.nodup.mem_erase_iff.mp hf
      exact ⟨⟨f, hf, rfl⟩, fun heq ↦ hne (h.distinct.eq hf hmem heq)⟩
    · rintro ⟨⟨f, hf, rfl⟩, hne⟩
      refine ⟨f, (List.mem_erase_of_ne ?_).mpr hf, rfl⟩
      rintro rfl
      exact hne rfl
  have hloc := s.acc.liberaEventRelease_locals file
  constructor
  · exact h.distinct.erase file
  · rw [hholders]
    rintro p ⟨hp, hne⟩ c
    rw [hloc, Function.update_of_ne hne]
    exact h.valid p hp c
  · intro c
    have hfile : file.filp ∈ s.holders := List.mem_map.mpr ⟨file, hmem, rfl⟩
    rw [hholders, hgives.bits_release]
    apply ((h.owned c).release hfile).congr
    rintro p ⟨-, hne⟩
    rw [hloc, Function.update_of_ne hne]

theorem releaseFile (h : Inv s) (hok : s.ReadOnlyCloses (.release file))
    (hstep : s.step (.release file) = some s') : Inv s' := by
  simp only [step] at hstep
  split_ifs at hstep with hmem
  obtain rfl := Option.some.inj hstep
  exact h.erase hmem hok

theorem locals_subset (h : Inv s) (hmem : file ∈ s.files) (c : Clock) :
    bits (s.acc.locals file.filp c) ⊆ bits (s.acc.trigVec c) :=
  (h.owned c).subset (List.mem_map.mpr ⟨file, hmem, rfl⟩)

theorem grant (h : Inv s) (hmem : file ∈ s.files) (hvalid : arg &&& notTrigAllMask = 0)
    (hfree : arg &&& s.acc.trigVec c = 0) {acc : EventAccess}
    (hvec : acc.trigVec = Function.update s.acc.trigVec c
      (s.acc.trigVec c ||| (s.acc.locals file.filp c ||| arg)))
    (hloc : acc.locals = Function.update s.acc.locals file.filp
      (Function.update (s.acc.locals file.filp) c (s.acc.locals file.filp c ||| arg))) :
    Inv ⟨acc, s.files⟩ := by
  have hfile : file.filp ∈ s.holders := List.mem_map.mpr ⟨file, hmem, rfl⟩
  constructor
  · exact h.distinct
  · intro p hp c'
    by_cases hpf : p = file.filp
    · rw [hpf, hloc, Function.update_self]
      by_cases hc : c' = c
      · rw [hc, Function.update_self, BitVec.and_or_distrib_right, h.valid _ hfile c, hvalid]
        rfl
      · rw [Function.update_of_ne hc]
        exact h.valid _ hfile c'
    · rw [hloc, Function.update_of_ne hpf]
      exact h.valid p hp c'
  · intro c'
    by_cases hc : c' = c
    · subst hc
      have htaken : bits (acc.trigVec c') = bits (s.acc.trigVec c') ∪ bits arg := by
        rw [hvec, Function.update_self, bits_or, bits_or, ← Set.union_assoc,
          Set.union_eq_left.mpr (h.locals_subset hmem c')]
      rw [htaken]
      refine ((h.owned c').acquire hfile (disjoint_bits.mpr hfree)).congr fun p _ ↦ ?_
      by_cases hpf : p = file.filp
      · rw [hpf, hloc, Function.update_self, Function.update_self, Function.update_self, bits_or]
      · rw [hloc, Function.update_of_ne hpf, Function.update_of_ne hpf]
    · rw [hvec, Function.update_of_ne hc]
      refine (h.owned c').congr fun p _ ↦ ?_
      by_cases hpf : p = file.filp
      · rw [hpf, hloc, Function.update_self, Function.update_of_ne hc]
      · rw [hloc, Function.update_of_ne hpf]

theorem enableFile (h : Inv s) (hstep : s.step (.enable c file arg) = some s') : Inv s' := by
  simp only [step] at hstep
  split_ifs at hstep with hmem
  by_cases hgrant : arg ≠ 0 ∧ arg &&& notTrigAllMask = 0 ∧ arg &&& s.acc.trigVec c = 0
  · obtain ⟨hzero, hvalid, hfree⟩ := hgrant
    obtain ⟨ev, heq⟩ := enableTrig_granted file hzero hvalid hfree
    rw [heq] at hstep
    obtain rfl := Option.some.inj hstep
    apply h.grant hmem hvalid hfree
    · apply trigEnable_trigVec
      rw [BitVec.and_or_distrib_right, h.valid _ (List.mem_map.mpr ⟨file, hmem, rfl⟩) c, hvalid]
      rfl
    · exact trigEnable_locals ..
  · obtain ⟨err, -, heq⟩ := enableTrig_refused file hgrant
    rw [heq] at hstep
    obtain rfl := Option.some.inj hstep
    exact h

theorem step (h : Inv s) {op : EventOp} (hok : s.ReadOnlyCloses op)
    (hstep : s.step op = some s') : Inv s' := by
  cases op with
  | «open» file kmallocOk => exact h.openFile hstep
  | enable c file arg => exact h.enableFile hstep
  | release file => exact h.releaseFile hok hstep

/-- What one descriptor gives back, another one is granted. -/
theorem enabled_again (h : Inv s) {f g : File} (hf : f ∈ s.files) (hgives : s.GivesBack f)
    (hne : arg ≠ 0) (harg : arg &&& s.acc.locals f.filp c = arg) :
    ∃ acc, enableTrig c (s.acc.liberaEventRelease f) g arg = some (0, acc) := by
  have hfile : f.filp ∈ s.holders := List.mem_map.mpr ⟨f, hf, rfl⟩
  have hvalid : arg &&& notTrigAllMask = 0 := by
    rw [← harg, BitVec.and_assoc, h.valid _ hfile c]
    simp
  have hfree : arg &&& (s.acc.liberaEventRelease f).trigVec c = 0 := by
    rw [← disjoint_bits, hgives.bits_release, ← harg]
    apply Set.disjoint_left.mpr
    rintro j hj ⟨-, hnot⟩
    exact hnot (bits_and_subset_right hj)
  obtain ⟨ev, heq⟩ := enableTrig_granted g hne hvalid hfree
  exact ⟨_, heq⟩

theorem triggersOwned (h : Inv s) (c : Clock) : s.TriggersOwned c := by
  have hdisj : ∀ f ∈ s.files, ∀ g ∈ s.files, f ≠ g →
      Disjoint (bits (s.acc.locals f.filp c)) (bits (s.acc.locals g.filp c)) := by
    intro f hf g hg hne
    apply (h.owned c).disjoint _ (List.mem_map.mpr ⟨f, hf, rfl⟩) _
      (List.mem_map.mpr ⟨g, hg, rfl⟩)
    exact fun heq ↦ hne (h.distinct.eq hf hg heq)
  constructor
  · intro f hf g hg hne
    exact disjoint_bits.mp (hdisj f hf g hg hne)
  · intro j
    have hmem : j ∈ bits (s.acc.trigVec c) ↔ j ∈ bits loadTriggers ∨
        ∃ p ∈ s.holders, j ∈ bits (s.acc.locals p c) := by
      rw [(h.owned c).taken_eq]
      simp
    simpa [bits, holders] using hmem
  · intro f hf g hg x hfx hgx
    by_contra hne
    exact (hdisj f hf g hg hne).le_bot ⟨mem_bits_of_and hfx, mem_bits_of_and hgx⟩
  · intro f hf g _ _ hgives arg hne harg
    exact h.enabled_again hf hgives hne harg

end Inv

/-- Over every run in which the descriptors that are closed with enabled triggers were opened
for reading only, the triggers follow the open descriptors. -/
theorem triggers_follow {drv : Driver} {ops : List EventOp}
    (hrun : Steps step ReadOnlyCloses (boot drv) ops s) (c : Clock) : s.TriggersOwned c := by
  have hinv : Inv s := hrun.invariant (fun _ _ _ h hok hstep ↦ h.step hok hstep) (.boot drv)
  exact hinv.triggersOwned c

instance (s : EventFiles) (file : File) : Decidable (s.GivesBack file) :=
  decidable_of_iff ((s.acc.locals file.filp .sc = 0 ∧ s.acc.locals file.filp .mc = 0) ∨
      file.mode.read = true ∧ file.mode.write = false) <| by
    have hboth : (s.acc.locals file.filp .sc = 0 ∧ s.acc.locals file.filp .mc = 0) ↔
        ∀ c, s.acc.locals file.filp c = 0 := by
      constructor
      · rintro ⟨hsc, hmc⟩ c
        cases c
        · exact hsc
        · exact hmc
      · exact fun h ↦ ⟨h .sc, h .mc⟩
    rw [GivesBack, hboth]

instance (s : EventFiles) : ∀ op, Decidable (s.ReadOnlyCloses op)
  | .release file => inferInstanceAs (Decidable (s.GivesBack file))
  | .open _ _ => isTrue trivial
  | .enable _ _ _ => isTrue trivial

def clear : Driver := .boot (fun _ ↦ 0) ⟨0, 0, 1, 1, 0⟩ ⟨0, 0, 0, 0⟩

def reader : File := ⟨1, ⟨true, false⟩⟩
def master : File := ⟨2, ⟨true, true⟩⟩

theorem triggers_follow_reader : ∃ s : EventFiles, s.TriggersOwned .sc ∧
    s.acc.trigVec .sc = loadTriggers ||| triggerBit 5 ∧ s.files = [master] :=
  ⟨_, triggers_follow (exec_get_steps step ReadOnlyCloses (boot clear)
    [.open reader true, .enable .sc reader (triggerBit 5), .open master true, .release reader,
      .enable .sc master (triggerBit 5)] (by decide +kernel)) .sc, by decide +kernel,
    by decide +kernel⟩

/-- The triggers of a descriptor that was open for writing as well stay enabled, and nobody
can enable them again. -/
theorem writer_keeps_triggers : ∃ s : EventFiles,
    Steps step anyStep (boot clear)
      [.open master true, .enable .sc master (triggerBit 5), .release master, .open reader true,
        .enable .sc reader (triggerBit 5)] s ∧
    s.files = [reader] ∧ s.acc.locals reader.filp .sc = 0 ∧
    s.acc.trigVec .sc = loadTriggers ||| triggerBit 5 ∧ ¬s.TriggersOwned .sc := by
  have hrun := exec_get_steps step anyStep (boot clear)
    [.open master true, .enable .sc master (triggerBit 5), .release master, .open reader true,
      .enable .sc reader (triggerBit 5)] (by decide +kernel)
  refine ⟨_, hrun, by decide +kernel, by decide +kernel, by decide +kernel, ?_⟩
  intro howned
  have hunion := (howned.union 27).mp (by decide +kernel)
  exact absurd hunion (by decide +kernel)

end EventFiles

end LiberaBase
