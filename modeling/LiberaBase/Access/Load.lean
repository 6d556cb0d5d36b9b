import LiberaBase.Dd.IrqMask
import LiberaBase.Event.Triggers
import LiberaBase.Lib.Custody

/-!
# Loading and unloading the driver

`libera_init` takes what the driver needs one after the other, and when the kernel refuses
something it gives back what it has.  `libera_exit` gives back everything.
-/

namespace LiberaBase

def ENODEV : ℤ := 19
def ECHRNG : ℤ := 44

open Custody

/-! ## What the driver holds -/

/-- `interrupts` is held while an interrupt is enabled in `SBC_IRQ_MASK`. -/
inductive Resource where
  | memRegion
  | iomem
  | dmaBuf
  | dmaChan
  | pmBuf
  | irq
  | interrupts
  | chrdevRegion
  | cdev
  | deviceClass
  | device (minor : ℕ)
  deriving DecidableEq

namespace Resource

/-- The handlers work on the registers, and the files on all that the driver has. -/
def needs : Resource → List Resource
  | iomem => [memRegion]
  | dmaChan => [iomem, dmaBuf]
  | irq => [iomem]
  | interrupts => [irq]
  | cdev => [chrdevRegion, iomem, dmaBuf, dmaChan, pmBuf, interrupts]
  | device _ => [cdev, deviceClass]
  | _ => []

/-- `ARRAY_SIZE(libera_dev)` -/
def devCount : ℕ := 8

def devices (n : ℕ) : List Resource := (List.range n).map device

def hardware : List Resource := [memRegion, iomem, dmaBuf, dmaChan, pmBuf, irq, interrupts]

def interfaces : List Resource := [chrdevRegion, cdev, deviceClass]

/-- In the order in which `libera_init` takes them. -/
def all : List Resource := hardware ++ interfaces ++ devices devCount

/-- What `libera_init` gives back, and in which order, when it has taken the first `n`. -/
def givenBack (n : ℕ) : List Resource :=
  devices (n - (hardware ++ interfaces).length) ++ ((hardware ++ interfaces).take n).reverse

theorem staged_all : Staged needs ∅ all := by decide

theorem loose_givenBack : ∀ n ≤ all.length, Loose needs (givenBack n) := by decide

theorem perm_givenBack : ∀ n ≤ all.length, (all.take n).Perm (givenBack n) := by decide

end Resource

/-! ## `libera_init` -/

/-- What the module is loaded with and how the kernel answers.  An `errno` of 0 is success; a
mapping that fails is not found out. -/
structure LoadCalls where
  iobase : U32
  flmcdHz : U32
  pmsize : U32
  requestMemRegion : Bool
  ioremap : U32
  ioremap_ne : ioremap ≠ 0
  getFreePages : Bool
  pxaRequestDma : ℤ
  vmalloc : Bool
  requestIrqErrno : ℕ
  allocChrdevRegionErrno : ℕ
  cdevAddErrno : ℕ
  classCreateErrno : ℕ
  deviceCreateErrno : ℕ → ℕ

/-- The module and the three masks of the FPGA. -/
structure Load where
  loaded : Bool
  iobase : U32
  chan : ℤ
  irqMask : U32
  scTriggerMask : U32
  mcTriggerMask : U32
  trace : List (Act Resource)

namespace Load

variable {s : Load} {c : LoadCalls}

def acquire (s : Load) (r : Resource) : Load := { s with trace := s.trace ++ [.acquire r] }

def release (s : Load) (r : Resource) : Load := { s with trace := s.trace ++ [.release r] }

/-- `set_irqMask` -/
def setIrqMask (s : Load) (newMask : U32) : Load :=
  let s' := { s with irqMask := newMask }
  if s.irqMask = 0 ∧ newMask ≠ 0 then s'.acquire .interrupts
  else if s.irqMask ≠ 0 ∧ newMask = 0 then s'.release .interrupts
  else s'

def setIobase (s : Load) (iobase : U32) : Load := { s with iobase := iobase }

def setChan (s : Load) (chan : ℤ) : Load := { s with chan := chan }

def setTriggerMasks (s : Load) (sc mc : U32) : Load :=
  { s with scTriggerMask := sc, mcTriggerMask := mc }

def uninstallInterrupts (s : Load) : Load :=
  ((s.setIrqMask 0).setTriggerMasks 0 0).release .irq

/-- The loop over `device_destroy` -/
def destroyDevices (s : Load) (lastMinor : ℕ) : Load :=
  (List.range lastMinor).foldl (fun t minor ↦ t.release (.device minor)) s

/-! `no_cdev`, `no_class` and `no_dev` -/

def noCdev (s : Load) (ret : ℤ) : Load × ℤ := (s.release .chrdevRegion, ret)

def noClass (s : Load) (ret : ℤ) : Load × ℤ := (s.release .cdev).noCdev ret

def noDev (s : Load) (lastMinor : ℕ) (ret : ℤ) : Load × ℤ :=
  ((s.destroyDevices lastMinor).release .deviceClass).noClass ret

/-- The loop over `device_create`, with `left` devices to go. -/
def createDevices (c : LoadCalls) : ℕ → ℕ → Load → Load × ℤ
  | _, 0, s => (s, 0)
  | minor, left + 1, s =>
    if c.deviceCreateErrno minor ≠ 0 then s.noDev minor (-c.deviceCreateErrno minor)
    else createDevices c (minor + 1) left (s.acquire (.device minor))

def installDevices (c : LoadCalls) (s : Load) : Load × ℤ :=
  if c.allocChrdevRegionErrno ≠ 0 then (s, -c.allocChrdevRegionErrno)
  else
    let s₁ := s.acquire .chrdevRegion
    if c.cdevAddErrno ≠ 0 then s₁.noCdev (-c.cdevAddErrno)
    else
      let s₂ := s₁.acquire .cdev
      if c.classCreateErrno ≠ 0 then s₂.noClass (-c.classCreateErrno)
      else createDevices c 0 Resource.devCount (s₂.acquire .deviceClass)

/-! `err_DMABUF` to `err_device` -/

def errDMABUF (s : Load) (ret : ℤ) : Load × ℤ := ((s.release .iomem).release .memRegion, ret)

def errDMACH (s : Load) (ret : ℤ) : Load × ℤ := (s.release .dmaBuf).errDMABUF ret

def errPMBUF (s : Load) (ret : ℤ) : Load × ℤ := (s.release .dmaChan).errDMACH ret

def errIRQ (s : Load) (ret : ℤ) : Load × ℤ := (s.release .pmBuf).errPMBUF ret

def errDevice (s : Load) (ret : ℤ) : Load × ℤ := s.uninstallInterrupts.errIRQ ret

/-- `LIBERA_PMSIZE_MAX` -/
def pmsizeMax : U32 := 262144

def triggerBit (x : ℕ) : U32 := 1#32 <<< (x + 22)

/-- The triggers that `libera_init` enables: `T_TRIG_CTIME`, `T_TRIG_TRIGGER` and
`T_TRIG_POST_MORTEM`. -/
def triggersInit : U32 :=
  triggerBit 4 ||| triggerBit 8 ||| triggerBit 7 ||| EventAccess.selfIncBit

def liberaInit (c : LoadCalls) (s : Load) : Load × ℤ :=
  if c.flmcdHz = 0 then (s, -EINVAL)
  else if c.requestMemRegion = false then (s, -ENODEV)
  else
    let s₁ := ((s.acquire .memRegion).setIobase c.ioremap).acquire .iomem
    if c.getFreePages = false then s₁.errDMABUF (-ENOMEM)
    else
      let s₂ := (s₁.acquire .dmaBuf).setChan c.pxaRequestDma
      if c.pxaRequestDma < 0 then s₂.errDMACH (-ECHRNG)
      else
        let s₃ := s₂.acquire .dmaChan
        if pmsizeMax < c.pmsize then s₃.errPMBUF (-EINVAL)
        else if c.vmalloc = false then s₃.errPMBUF (-ENOMEM)
        else
          let s₄ := (s₃.acquire .pmBuf).setIrqMask 0
          if c.requestIrqErrno ≠ 0 then s₄.errIRQ (-c.requestIrqErrno)
          else
            let s₅ := ((s₄.acquire .irq).setIrqMask irqMaskInit).setTriggerMasks triggersInit
              triggersInit
            let (s₆, ret) := installDevices c s₅
            if ret < 0 then s₆.errDevice ret else (s₆, 0)

/-! ## `libera_exit` -/

def uninstallDevices (s : Load) : Load :=
  (((s.destroyDevices Resource.devCount).release .deviceClass).release .cdev).release .chrdevRegion

def liberaExit (s : Load) : Load :=
  let s₁ := s.uninstallDevices.uninstallInterrupts.release .pmBuf
  let s₂ := if 0 ≤ s₁.chan then s₁.release .dmaChan else s₁
  let s₃ := s₂.release .dmaBuf
  if s₃.iobase ≠ 0 then (s₃.release .iomem).release .memRegion else s₃

/-! ## Loading and unloading -/

/-- The module is loaded and unloaded, and while it is loaded the dd interrupt is acknowledged and
enabled again, and triggers are enabled and disabled. -/
inductive Request where
  | insmod (c : LoadCalls)
  | rmmod
  | disableDd
  | enableDd
  | setTriggers (sc mc : U32)

/-- A loaded module starts with its own data; the kernel keeps it if `libera_init` returns 0. -/
def insmod (c : LoadCalls) (s : Load) : Load :=
  let (s', ret) := liberaInit c ((s.setIobase c.iobase).setChan 0)
  { s' with loaded := ret = 0 }

def step (s : Load) : Request → Load
  | .insmod c => if s.loaded = true then s else insmod c s
  | .rmmod => if s.loaded = true then { s.liberaExit with loaded := false } else s
  | .disableDd =>
    if s.loaded = true then s.setIrqMask (s.irqMask &&& ~~~liberaInterruptDDMask) else s
  | .enableDd => if s.loaded = true then s.setIrqMask (s.irqMask ||| liberaInterruptDDMask) else s
  | .setTriggers sc mc =>
    if s.loaded = true then
      s.setTriggerMasks (sc ||| EventAccess.selfIncBit) (mc ||| EventAccess.selfIncBit)
    else s

/-- As the FPGA starts. -/
def boot : Load := ⟨false, 0, 0, 0, 0, 0, []⟩

/-! ## Taking and giving back -/

def acquireAll (s : Load) (rs : List Resource) : Load :=
  { s with trace := s.trace ++ rs.map .acquire }

def releaseAll (s : Load) (rs : List Resource) : Load :=
  { s with trace := s.trace ++ rs.map .release }

theorem releaseAll_release (rs : List Resource) (r : Resource) :
    (s.releaseAll rs).release r = s.releaseAll (rs ++ [r]) := by
  simp only [releaseAll, release, List.append_assoc, List.map_append, List.map_cons, List.map_nil]

@[simp] theorem acquireAll_nil : s.acquireAll [] = s := by
  simp [acquireAll]

@[simp] theorem releaseAll_nil : s.releaseAll [] = s := by
  simp [releaseAll]

theorem acquireAll_acquireAll (rs rs' : List Resource) :
    (s.acquireAll rs).acquireAll rs' = s.acquireAll (rs ++ rs') := by
  simp only [acquireAll, List.append_assoc, List.map_append]

theorem releaseAll_releaseAll (rs rs' : List Resource) :
    (s.releaseAll rs).releaseAll rs' = s.releaseAll (rs ++ rs') := by
  simp only [releaseAll, List.append_assoc, List.map_append]

theorem destroyDevices_eq (s : Load) (n : ℕ) :
    s.destroyDevices n = s.releaseAll (Resource.devices n) := by
  induction n with
  | zero => simp [destroyDevices, releaseAll, Resource.devices]
  | succ n ih =>
      rw [destroyDevices, List.range_succ, List.foldl_concat, ← destroyDevices, ih,
        releaseAll_release, Resource.devices, Resource.devices, List.range_succ, List.map_append]
      rfl

theorem setIrqMask_of_zero (h : s.irqMask = 0) : s.setIrqMask 0 = s := by
  rw [setIrqMask, if_neg (fun hne ↦ hne.2 rfl), if_neg (fun hne ↦ hne.1 h), ← h]

theorem setIrqMask_init (h : s.irqMask = 0) :
    s.setIrqMask irqMaskInit = { s with irqMask := irqMaskInit }.acquire .interrupts :=
  if_pos ⟨h, by decide⟩

theorem setIrqMask_of_ne {newMask : U32} (h : s.irqMask ≠ 0) (hmask : newMask ≠ 0) :
    s.setIrqMask newMask = { s with irqMask := newMask } := by
  rw [setIrqMask, if_neg (fun hzero ↦ h hzero.1), if_neg (fun hzero ↦ hmask hzero.2)]

/-- No interrupt and no trigger is enabled. -/
def quieten (s : Load) : Load := { s with irqMask := 0, scTriggerMask := 0, mcTriggerMask := 0 }

theorem quieten_eq_iff :
    s.quieten = s ↔ s.irqMask = 0 ∧ s.scTriggerMask = 0 ∧ s.mcTriggerMask = 0 := by
  constructor
  · intro h
    rw [← h]
    exact ⟨rfl, rfl, rfl⟩
  · rintro ⟨hirq, hsc, hmc⟩
    cases s
    simp_all only [quieten]

theorem quieten_acquireAll (rs : List Resource) :
    (s.acquireAll rs).quieten = s.quieten.acquireAll rs := rfl

theorem quieten_releaseAll (rs : List Resource) :
    (s.releaseAll rs).quieten = s.quieten.releaseAll rs := rfl

theorem uninstallInterrupts_eq (h : s.irqMask ≠ 0) :
    s.uninstallInterrupts = s.quieten.releaseAll [.interrupts, .irq] := by
  rw [uninstallInterrupts, setIrqMask, if_neg (fun hzero ↦ h hzero.1), if_pos ⟨h, rfl⟩]
  exact releaseAll_release (s := s.quieten) [.interrupts] .irq

/-- The devices are created, or those that were are destroyed again. -/
theorem createDevices_cases (c : LoadCalls) (minor left : ℕ) (s : Load) :
    createDevices c minor left s =
        (s.acquireAll ((List.range' minor left).map .device), 0) ∨
      ∃ k < left, ∃ ret < 0, createDevices c minor left s =
        (s.acquireAll ((List.range' minor k).map .device)).noDev (minor + k) ret := by
  have hcons (t : Load) (n k : ℕ) :
      (t.acquire (.device n)).acquireAll ((List.range' (n + 1) k).map .device) =
        t.acquireAll ((List.range' n (k + 1)).map .device) := by
    simp [acquireAll, acquire, List.range'_succ]
  induction left generalizing minor s with
  | zero => exact .inl (congrArg (·, 0) acquireAll_nil.symm)
  | succ left ih =>
      by_cases hfail : c.deviceCreateErrno minor ≠ 0
      · refine .inr ⟨0, Nat.succ_pos left, -c.deviceCreateErrno minor, by omega, ?_⟩
        rw [createDevices, if_pos hfail, List.range'_zero, List.map_nil, acquireAll_nil,
          Nat.add_zero]
      · rw [createDevices, if_neg hfail]
        rcases ih (minor + 1) (s.acquire (.device minor)) with h | ⟨k, hk, ret, hret, h⟩
        · left
          rw [h, hcons]
        · refine .inr ⟨k + 1, Nat.succ_lt_succ hk, ret, hret, ?_⟩
          rw [h, hcons, Nat.add_right_comm, Nat.add_assoc]

open Resource

theorem noDev_eq (s : Load) (n : ℕ) (ret : ℤ) : s.noDev n ret =
    (s.releaseAll (devices n ++ interfaces.reverse), ret) := by
  rw [noDev, noClass, noCdev, destroyDevices_eq, releaseAll_release, releaseAll_release,
    releaseAll_release, List.append_assoc, List.append_assoc]
  rfl

/-- The interfaces are there, or those that were are gone again. -/
theorem installDevices_cases (c : LoadCalls) (s : Load) :
    installDevices c s = (s.acquireAll (interfaces ++ devices devCount), 0) ∨
      ∃ n < (interfaces ++ devices devCount).length, ∃ ret < 0, installDevices c s =
        ((s.acquireAll ((interfaces ++ devices devCount).take n)).releaseAll
          (devices (n - interfaces.length) ++ (interfaces.take n).reverse), ret) := by
  unfold installDevices
  extract_lets s₁ s₂
  by_cases hregion : c.allocChrdevRegionErrno ≠ 0
  · refine .inr ⟨0, by decide, -c.allocChrdevRegionErrno, by omega, ?_⟩
    rw [if_pos hregion]
    simp [devices]
  rw [if_neg hregion]
  by_cases hcdev : c.cdevAddErrno ≠ 0
  · refine .inr ⟨1, by decide, -c.cdevAddErrno, by omega, ?_⟩
    rw [if_pos hcdev]
    rfl
  rw [if_neg hcdev]
  by_cases hclass : c.classCreateErrno ≠ 0
  · refine .inr ⟨2, by decide, -c.classCreateErrno, by omega, ?_⟩
    rw [if_pos hclass, noClass, noCdev]
    simp only [s₂, s₁, acquire, release, acquireAll, releaseAll, List.append_assoc]
    rfl
  rw [if_neg hclass]
  have hinterfaces : s₂.acquire .deviceClass = s.acquireAll interfaces := by
    simp only [s₂, s₁, acquire, acquireAll, List.append_assoc]
    rfl
  have htake (k : ℕ) : (s.acquireAll interfaces).acquireAll ((List.range' 0 k).map device) =
      s.acquireAll (interfaces ++ devices k) := by
    rw [← List.range_eq_range', ← devices, acquireAll_acquireAll]
  rw [hinterfaces]
  rcases createDevices_cases c 0 devCount (s.acquireAll interfaces) with h | ⟨k, hk, ret, hret, h⟩
  · left
    rw [h, htake]
  · have hdevices : ∀ k < devCount, interfaces ++ devices k =
        (interfaces ++ devices devCount).take (interfaces.length + k) := by decide
    refine .inr ⟨interfaces.length + k, ?_, ret, hret, ?_⟩
    · rw [List.length_append]
      simpa [devices] using hk
    · rw [h, htake, noDev_eq, hdevices k hk, Nat.add_sub_cancel_left, Nat.zero_add,
        List.take_of_length_le (Nat.le_add_right _ _)]

theorem errIRQ_eq (s : Load) (ret : ℤ) : s.errIRQ ret = (s.releaseAll (givenBack 5), ret) := by
  simp only [errIRQ, errPMBUF, errDMACH, errDMABUF, release, releaseAll, List.append_assoc]
  rfl

def enabled (s : Load) : Load :=
  { s with irqMask := irqMaskInit, scTriggerMask := triggersInit, mcTriggerMask := triggersInit }

/-- All is taken, or what was taken is given back. -/
theorem liberaInit_cases (c : LoadCalls) (hquiet : s.quieten = s) :
    (∃ chan, 0 ≤ chan ∧ liberaInit c s =
      (((s.enabled.setIobase c.ioremap).setChan chan).acquireAll all, 0)) ∨
      ∃ iobase chan n ret, n ≤ all.length ∧ ret < 0 ∧ liberaInit c s =
        ((((s.setIobase iobase).setChan chan).acquireAll (all.take n)).releaseAll (givenBack n),
          ret) := by
  have hmask : s.irqMask = 0 := congrArg irqMask hquiet.symm
  have hnone : s = (((s.setIobase s.iobase).setChan s.chan).acquireAll (all.take 0)).releaseAll
      (givenBack 0) := by
    rw [List.take_zero, show givenBack 0 = [] from rfl, releaseAll_nil, acquireAll_nil]
    rfl
  unfold liberaInit
  extract_lets s₁ s₂ s₃ s₄ s₅
  by_cases hparam : c.flmcdHz = 0
  · refine .inr ⟨s.iobase, s.chan, 0, -EINVAL, by decide, by decide, ?_⟩
    rw [if_pos hparam]
    exact congrArg (·, _) hnone
  rw [if_neg hparam]
  by_cases hregion : c.requestMemRegion = false
  · refine .inr ⟨s.iobase, s.chan, 0, -ENODEV, by decide, by decide, ?_⟩
    rw [if_pos hregion]
    exact congrArg (·, _) hnone
  rw [if_neg hregion]
  by_cases hpages : c.getFreePages = false
  · refine .inr ⟨c.ioremap, s.chan, 2, -ENOMEM, by decide, by decide, ?_⟩
    rw [if_pos hpages]
    simp only [errDMABUF, s₁, setIobase, acquire, release, acquireAll, releaseAll,
      List.append_assoc]
    rfl
  rw [if_neg hpages]
  by_cases hchan : c.pxaRequestDma < 0
  · refine .inr ⟨c.ioremap, c.pxaRequestDma, 3, -ECHRNG, by decide, by decide, ?_⟩
    rw [if_pos hchan]
    simp only [errDMABUF, errDMACH, s₁, s₂, setIobase, setChan, acquire, release, acquireAll,
      releaseAll, List.append_assoc]
    rfl
  rw [if_neg hchan]
  have hback (ret : ℤ) : s₃.errPMBUF ret =
      ((((s.setIobase c.ioremap).setChan c.pxaRequestDma).acquireAll (all.take 4)).releaseAll
        (givenBack 4), ret) := by
    simp only [errDMABUF, errDMACH, errPMBUF, s₁, s₂, s₃, setIobase, setChan, acquire, release,
      acquireAll, releaseAll, List.append_assoc]
    rfl
  by_cases hsize : pmsizeMax < c.pmsize
  · rw [if_pos hsize]
    exact .inr ⟨_, _, 4, _, by decide, by decide, hback _⟩
  rw [if_neg hsize]
  by_cases hbuf : c.vmalloc = false
  · rw [if_pos hbuf]
    exact .inr ⟨_, _, 4, _, by decide, by decide, hback _⟩
  rw [if_neg hbuf]
  have hs₄ : s₄ = ((s.setIobase c.ioremap).setChan c.pxaRequestDma).acquireAll (all.take 5) := by
    have hset : s₄ = s₃.acquire .pmBuf := setIrqMask_of_zero hmask
    rw [hset]
    simp only [s₁, s₂, s₃, setIobase, setChan, acquire, acquireAll, List.append_assoc]
    rfl
  by_cases hirq : c.requestIrqErrno ≠ 0
  · refine .inr ⟨c.ioremap, c.pxaRequestDma, 5, -c.requestIrqErrno, by decide, by omega, ?_⟩
    rw [if_pos hirq, hs₄, errIRQ_eq]
  rw [if_neg hirq]
  have hs₅ : s₅ = ((s.enabled.setIobase c.ioremap).setChan c.pxaRequestDma).acquireAll
      hardware := by
    have hset : (s₄.acquire .irq).setIrqMask irqMaskInit = _ :=
      setIrqMask_init (by rw [hs₄]; exact hmask)
    simp only [s₅]
    rw [hset, hs₄]
    simp only [acquire, acquireAll, setIobase, setChan, setTriggerMasks, enabled, List.append_assoc]
    rfl
  rw [hs₅]
  rcases installDevices_cases c
    (((s.enabled.setIobase c.ioremap).setChan c.pxaRequestDma).acquireAll hardware) with
    h | ⟨n, hn, ret, hret, h⟩
  · refine .inl ⟨c.pxaRequestDma, Int.not_lt.mp hchan, ?_⟩
    rw [h, acquireAll_acquireAll]
    rfl
  · have hbounds : ∀ n < (interfaces ++ devices devCount).length,
        hardware.length + n ≤ all.length ∧
        hardware ++ (interfaces ++ devices devCount).take n = all.take (hardware.length + n) ∧
        devices (n - interfaces.length) ++ (interfaces.take n).reverse ++
          ([.interrupts, .irq] ++ givenBack 5) = givenBack (hardware.length + n) := by decide
    obtain ⟨hlength, htake, hgiven⟩ := hbounds n hn
    refine .inr ⟨c.ioremap, c.pxaRequestDma, hardware.length + n, ret, hlength, hret, ?_⟩
    have hquieten : ((s.enabled.setIobase c.ioremap).setChan c.pxaRequestDma).quieten =
        (s.setIobase c.ioremap).setChan c.pxaRequestDma :=
      congrArg (fun t : Load ↦ (t.setIobase c.ioremap).setChan c.pxaRequestDma) hquiet
    rw [h]
    dsimp only
    rw [if_pos hret, errDevice, uninstallInterrupts_eq (show irqMaskInit ≠ 0 by decide), errIRQ_eq,
      quieten_releaseAll, quieten_acquireAll, quieten_acquireAll, hquieten, acquireAll_acquireAll,
      htake, releaseAll_releaseAll, releaseAll_releaseAll, hgiven]

theorem liberaExit_eq (hmask : s.irqMask ≠ 0) (hchan : 0 ≤ s.chan) (hiobase : s.iobase ≠ 0) :
    s.liberaExit = s.quieten.releaseAll (givenBack all.length) := by
  have hdevices : s.uninstallDevices =
      s.releaseAll (devices devCount ++ interfaces.reverse) := by
    rw [uninstallDevices, destroyDevices_eq, releaseAll_release, releaseAll_release,
      releaseAll_release, List.append_assoc, List.append_assoc]
    rfl
  have hinterrupts : s.uninstallDevices.uninstallInterrupts.release .pmBuf =
      s.quieten.releaseAll
        (devices devCount ++ interfaces.reverse ++ [.interrupts, .irq, .pmBuf]) := by
    rw [hdevices, uninstallInterrupts_eq (by exact hmask), quieten_releaseAll,
      releaseAll_releaseAll, releaseAll_release, List.append_assoc]
    rfl
  unfold liberaExit
  extract_lets s₁ s₂ s₃
  have hs₂ : s₂ = s₁.release .dmaChan := by
    apply if_pos
    rw [show s₁ = _ from hinterrupts]
    exact hchan
  have hs₃ : s₃ = (s₁.release .dmaChan).release .dmaBuf := congrArg (release · .dmaBuf) hs₂
  rw [hs₃, show s₁ = _ from hinterrupts, releaseAll_release, releaseAll_release, releaseAll_release,
    releaseAll_release]
  exact if_pos hiobase

/-! ## Runs -/

theorem run_all : Custody.run needs ∅ (all.map .acquire) = some all.toFinset := by
  rw [run_acquire staged_all, Finset.empty_union]

theorem run_givenBack {n : ℕ} (hn : n ≤ all.length) :
    Custody.run needs ∅ ((all.take n).map .acquire ++ (givenBack n).map .release) = some ∅ :=
  run_acquire_release (staged_all.take n) (loose_givenBack n hn) (perm_givenBack n hn)

/-- What is held. -/
def held (s : Load) : Option (Finset Resource) := Custody.run needs ∅ s.trace

structure Unloaded (s : Load) : Prop where
  quiet : s.quieten = s
  held : s.held = some ∅

structure Loaded (s : Load) : Prop where
  masks : DdMask.Masks s.irqMask
  chan : 0 ≤ s.chan
  iobase : s.iobase ≠ 0
  held : s.held = some all.toFinset

/-- Nothing is held, or all of it is. -/
def Whole (s : Load) : Prop := if s.loaded = true then s.Loaded else s.Unloaded

theorem Loaded.whole (h : s.Loaded) (hloaded : s.loaded = true) : s.Whole := by
  rw [Whole, if_pos hloaded]
  exact h

theorem Unloaded.whole (h : s.Unloaded) (hloaded : s.loaded = false) : s.Whole := by
  rw [Whole, if_neg (by rw [hloaded]; decide)]
  exact h

theorem masks_ne_zero {mask : U32} (h : DdMask.Masks mask) : mask ≠ 0 := by
  rcases h with rfl | rfl <;> decide

theorem Unloaded.insmod (h : s.Unloaded) (c : LoadCalls) : (insmod c s).Whole := by
  have hmasks := quieten_eq_iff.mp h.quiet
  have htrace (acts : List (Act Resource)) :
      Custody.run needs ∅ (s.trace ++ acts) = Custody.run needs ∅ acts := by
    rw [run_append, show Custody.run needs ∅ s.trace = some ∅ from h.held, Option.bind_some]
  unfold Load.insmod
  rcases liberaInit_cases c (s := (s.setIobase c.iobase).setChan 0) (quieten_eq_iff.mpr hmasks) with
    ⟨chan, hchan, hinit⟩ | ⟨iobase, chan, n, ret, hn, hret, hinit⟩
  · rw [hinit]
    refine Loaded.whole ?_ rfl
    exact ⟨.inl rfl, hchan, c.ioremap_ne, (htrace _).trans run_all⟩
  · rw [hinit]
    refine Unloaded.whole ⟨quieten_eq_iff.mpr hmasks, ?_⟩ (decide_eq_false hret.ne)
    exact (congrArg _ (List.append_assoc ..)).trans ((htrace _).trans (run_givenBack hn))

theorem Loaded.liberaExit (h : s.Loaded) : { s.liberaExit with loaded := false }.Unloaded := by
  rw [liberaExit_eq (masks_ne_zero h.masks) h.chan h.iobase]
  refine ⟨rfl, ?_⟩
  have hrelease :
      Custody.run needs all.toFinset ((givenBack all.length).map .release) = some ∅ := by
    have hperm := perm_givenBack all.length (Nat.le_refl _)
    rw [List.take_length] at hperm
    rw [List.toFinset_eq_of_perm _ _ hperm]
    exact run_release (loose_givenBack all.length (Nat.le_refl _))
  refine (run_append ..).trans ?_
  rw [show Custody.run needs ∅ s.quieten.trace = some all.toFinset from h.held, Option.bind_some]
  exact hrelease

theorem Loaded.setIrqMask (h : s.Loaded) {newMask : U32} (hmask : DdMask.Masks newMask) :
    s.loaded = true → (s.setIrqMask newMask).Whole := by
  rw [setIrqMask_of_ne (masks_ne_zero h.masks) (masks_ne_zero hmask)]
  exact Loaded.whole (s := { s with irqMask := newMask }) ⟨hmask, h.chan, h.iobase, h.held⟩

theorem Whole.step (h : s.Whole) (r : Request) : (s.step r).Whole := by
  cases hloaded : s.loaded with
  | false =>
      have hun : s.Unloaded := by
        rwa [Whole, if_neg (by rw [hloaded]; decide)] at h
      cases r with
      | insmod c =>
          rw [Load.step, if_neg (by rw [hloaded]; decide)]
          exact hun.insmod c
      | rmmod | disableDd | enableDd | setTriggers sc mc =>
          rw [Load.step, if_neg (by rw [hloaded]; decide)]
          exact h
  | true =>
      have hlo : s.Loaded := by
        rwa [Whole, if_pos hloaded] at h
      cases r with
      | insmod c =>
          rw [Load.step, if_pos hloaded]
          exact h
      | rmmod =>
          rw [Load.step, if_pos hloaded]
          exact hlo.liberaExit.whole rfl
      | disableDd =>
          rw [Load.step, if_pos hloaded, hlo.masks.disable]
          exact hlo.setIrqMask (.inr rfl) hloaded
      | enableDd =>
          rw [Load.step, if_pos hloaded, hlo.masks.enable]
          exact hlo.setIrqMask (.inl rfl) hloaded
      | setTriggers sc mc =>
          rw [Load.step, if_pos hloaded]
          exact Loaded.whole ⟨hlo.masks, hlo.chan, hlo.iobase, hlo.held⟩ hloaded

theorem whole_run (rs : List Request) : (rs.foldl step boot).Whole := by
  induction rs using List.reverseRecOn with
  | nil => exact Unloaded.whole ⟨rfl, rfl⟩ rfl
  | append_singleton rs r ih =>
      rw [List.foldl_concat]
      exact ih.step r

/-- However the module is loaded and unloaded and whatever the kernel refuses, the driver takes a
resource when it has what that needs, and gives it back when nothing that needs it is left.  A
module that is not loaded holds nothing, and has no interrupt and no trigger enabled. -/
theorem loads_whole (rs : List Request) :
    let s := rs.foldl step boot
    Custody.run needs ∅ s.trace = some (if s.loaded = true then all.toFinset else ∅) ∧
      (s.loaded = true ∨ s.irqMask = 0 ∧ s.scTriggerMask = 0 ∧ s.mcTriggerMask = 0) := by
  intro s
  have hwhole : s.Whole := whole_run rs
  cases hloaded : s.loaded with
  | false =>
      rw [Whole, if_neg (by rw [hloaded]; decide)] at hwhole
      exact ⟨hwhole.held, .inr (quieten_eq_iff.mp hwhole.quiet)⟩
  | true =>
      rw [Whole, if_pos hloaded] at hwhole
      exact ⟨hwhole.held, .inl rfl⟩

end Load

end LiberaBase
