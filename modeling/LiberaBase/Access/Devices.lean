import LiberaBase.Event.Triggers

/-!
# The devices that have a writer

The cfg, fa and dsc devices are opened and closed alike; the event device allocates the
triggers of the descriptor first.  After any sequence of opens and closes, each of them has
the counts of its open descriptors and at most one writer, and takes requests that set
something from that writer only.
-/

namespace LiberaBase

open Runs

/-- The devices whose `open` and `release` do nothing but access control. -/
inductive WriterDevice where
  | cfg
  | fa
  | dsc
  deriving DecidableEq

namespace WriterDevice

def openFile : WriterDevice → CommonDev → File → ℤ × CommonDev
  | .cfg => liberaCfgOpen
  | .fa => liberaFaOpen
  | .dsc => liberaDscOpen

def release : WriterDevice → CommonDev → File → CommonDev
  | .cfg => liberaCfgRelease
  | .fa => liberaFaRelease
  | .dsc => liberaDscRelease

def ioctl : WriterDevice → CommonDev → File → U32 → Bool → Option ℤ
  | .cfg => liberaCfgIoctl
  | .fa => liberaFaIoctl
  | .dsc => liberaDscIoctl

theorem openFile_eq (d : WriterDevice) (dev : CommonDev) (file : File) :
    d.openFile dev file = dev.openMaster file := by
  cases d <;> rfl

theorem release_eq (d : WriterDevice) (dev : CommonDev) (file : File) :
    d.release dev file = dev.releaseMaster file := by
  cases d <;> rfl

end WriterDevice

/-- The devices that have a writer, and the descriptors that are open on them. -/
structure WriterDevices where
  dev : WriterDevice → CommonDev
  files : WriterDevice → List File
  event : EventFiles

inductive WriterOp where
  | open (d : WriterDevice) (file : File)
  | release (d : WriterDevice) (file : File)
  | event (op : EventOp)

namespace WriterDevices

variable {s s' : WriterDevices} {d : WriterDevice} {file : File}

def boot (drv : Driver) : WriterDevices := ⟨fun _ ↦ .zero, fun _ ↦ [], .boot drv⟩

def set (s : WriterDevices) (d : WriterDevice) (dev : CommonDev) (files : List File) :
    WriterDevices :=
  { s with dev := Function.update s.dev d dev, files := Function.update s.files d files }

def step (s : WriterDevices) : WriterOp → Option WriterDevices
  | .open d file =>
    if FreshFile (s.files d) file then
      let (ret, dev) := d.openFile (s.dev d) file
      some (s.set d dev (if ret = 0 then file :: s.files d else s.files d))
    else none
  | .release d file =>
    if file ∈ s.files d then some (s.set d (d.release (s.dev d) file) ((s.files d).erase file))
    else none
  | .event op => (s.event.step op).map fun event ↦ { s with event := event }

/-- Every device has the counts of its descriptors and one writer at most; an `open` that is
refused changes nothing, and a request that sets something is taken from the writer only. -/
structure Controlled (s : WriterDevices) : Prop where
  writer : ∀ d, SingleWriter (s.dev d) (s.files d)
  writer_event : SingleWriter s.event.acc.common s.event.files
  unique : ∀ d, ∀ f ∈ s.files d, ∀ g ∈ s.files d,
    f.mode.write = true → g.mode.write = true → f = g
  unique_event : ∀ f ∈ s.event.files, ∀ g ∈ s.event.files,
    f.mode.write = true → g.mode.write = true → f = g
  refused : ∀ d file, (d.openFile (s.dev d) file).1 ≠ 0 → (d.openFile (s.dev d) file).2 = s.dev d
  refused_event : ∀ file kmallocOk, (s.event.acc.liberaEventOpen file kmallocOk).1 ≠ 0 →
    (s.event.acc.liberaEventOpen file kmallocOk).2.common = s.event.acc.common
  accepted : ∀ d, ∀ file ∈ s.files d, ∀ cmd accessOk, iocDir cmd = iocWrite →
    d.ioctl (s.dev d) file cmd accessOk = none →
      file.mode.write = true ∧ ∀ f ∈ s.files d, f.mode.write = true → f = file

structure Counted (dev : CommonDev) (files : List File) : Prop where
  distinct : Distinct files
  writer : SingleWriter dev files

namespace Counted

variable {dev : CommonDev} {files : List File}

theorem zero : Counted .zero [] := ⟨List.nodup_nil, .zero⟩

theorem openMaster (h : Counted dev files) (hfresh : FreshFile files file) :
    Counted (dev.openMaster file).2 (if (dev.openMaster file).1 = 0 then file :: files else files) := by
  rcases h.writer.openMaster file with heq | ⟨dev', heq, hdev⟩
  · rw [heq, if_neg (show (- EBUSY, dev).1 ≠ 0 by simp [EBUSY])]
    exact h
  · rw [heq, if_pos rfl]
    exact ⟨h.distinct.cons hfresh, hdev⟩

theorem releaseMaster (h : Counted dev files) (hmem : file ∈ files) :
    Counted (dev.releaseMaster file) (files.erase file) :=
  ⟨h.distinct.erase file, h.writer.releaseMaster h.distinct hmem⟩

theorem accepted (h : Counted dev files) (hmem : file ∈ files) (d : WriterDevice) {cmd : U32}
    {accessOk : Bool} (hset : iocDir cmd = iocWrite) (hok : d.ioctl dev file cmd accessOk = none) :
    file.mode.write = true ∧ ∀ f ∈ files, f.mode.write = true → f = file := by
  cases d with
  | cfg => exact h.writer.of_iocChecks h.distinct hmem hset hok
  | fa => exact h.writer.of_iocChecks h.distinct hmem hset hok
  | dsc => exact h.writer.of_iocChecks h.distinct hmem hset hok

end Counted

/-! ## The event device -/

theorem liberaEventOpen_common (acc : EventAccess) (file : File) (kmallocOk : Bool) :
    (acc.liberaEventOpen file kmallocOk).2.common = acc.common ∧
        (acc.liberaEventOpen file kmallocOk).1 ≠ 0 ∨
      (acc.liberaEventOpen file kmallocOk).2.common = (acc.common.openMaster file).2 ∧
        (acc.liberaEventOpen file kmallocOk).1 = (acc.common.openMaster file).1 := by
  unfold EventAccess.liberaEventOpen
  dsimp only
  split_ifs
  · exact .inl ⟨rfl, show - ENOMEM ≠ 0 by decide⟩
  · exact .inr ⟨rfl, rfl⟩
  · exact .inr ⟨rfl, rfl⟩

theorem liberaEventRelease_common (acc : EventAccess) (file : File) :
    (acc.liberaEventRelease file).common = acc.common.releaseMaster file := by
  unfold EventAccess.liberaEventRelease
  dsimp only
  split_ifs <;> rfl

theorem enableTrig_common {acc acc' : EventAccess} {c : Clock} {arg : U32} {ret : ℤ}
    (h : EventAccess.enableTrig c acc file arg = some (ret, acc')) : acc'.common = acc.common := by
  by_cases hgrant : arg ≠ 0 ∧ arg &&& EventAccess.notTrigAllMask = 0 ∧ arg &&& acc.trigVec c = 0
  · obtain ⟨hzero, hvalid, hfree⟩ := hgrant
    obtain ⟨ev, heq⟩ := EventAccess.enableTrig_granted file hzero hvalid hfree
    rw [heq] at h
    obtain ⟨-, rfl⟩ := Prod.mk.inj (Option.some.inj h)
    unfold EventAccess.trigEnable
    split_ifs <;> rfl
  · obtain ⟨err, -, heq⟩ := EventAccess.enableTrig_refused file hgrant
    rw [heq] at h
    obtain ⟨-, rfl⟩ := Prod.mk.inj (Option.some.inj h)
    rfl

theorem counted_event {e e' : EventFiles} {op : EventOp} (h : Counted e.acc.common e.files)
    (hstep : e.step op = some e') : Counted e'.acc.common e'.files := by
  cases op with
  | «open» file kmallocOk =>
      simp only [EventFiles.step] at hstep
      split_ifs at hstep with hfresh hret
      · obtain rfl := Option.some.inj hstep
        rcases liberaEventOpen_common e.acc file kmallocOk with ⟨-, hne⟩ | ⟨hcommon, heq⟩
        · exact absurd hret hne
        · have hopen := h.openMaster hfresh
          rw [← heq, ← hcommon, if_pos hret] at hopen
          exact hopen
      · obtain rfl := Option.some.inj hstep
        rcases liberaEventOpen_common e.acc file kmallocOk with ⟨hcommon, -⟩ | ⟨hcommon, heq⟩
        · rw [hcommon]
          exact h
        · have hopen := h.openMaster hfresh
          rw [← heq, ← hcommon, if_neg hret] at hopen
          exact hopen
  | enable c file arg =>
      simp only [EventFiles.step] at hstep
      split_ifs at hstep with hmem
      obtain ⟨⟨ret, acc⟩, heq, rfl⟩ := Option.map_eq_some_iff.mp hstep
      have hcommon := enableTrig_common heq
      exact hcommon.symm ▸ h
  | release file =>
      simp only [EventFiles.step] at hstep
      split_ifs at hstep with hmem
      obtain rfl := Option.some.inj hstep
      rw [liberaEventRelease_common]
      exact h.releaseMaster hmem

/-! ## Runs -/

structure Inv (s : WriterDevices) : Prop where
  dev : ∀ d, Counted (s.dev d) (s.files d)
  event : Counted s.event.acc.common s.event.files

namespace Inv

theorem boot (drv : Driver) : Inv (boot drv) := by
  refine ⟨fun _ ↦ .zero, ?_⟩
  have hcommon : (EventFiles.boot drv).acc.common = .zero := by
    unfold EventFiles.boot EventAccess.trigEnable
    dsimp only
    split_ifs <;> rfl
  exact hcommon.symm ▸ .zero

theorem set (h : Inv s) (d : WriterDevice) {dev : CommonDev} {files : List File}
    (hdev : Counted dev files) : Inv (s.set d dev files) := by
  refine ⟨fun d' ↦ ?_, h.event⟩
  by_cases hd : d' = d
  · subst hd
    simpa [WriterDevices.set] using hdev
  · simpa [WriterDevices.set, Function.update_of_ne hd] using h.dev d'

theorem step (h : Inv s) {op : WriterOp} (hstep : s.step op = some s') : Inv s' := by
  cases op with
  | «open» d file =>
      simp only [WriterDevices.step, d.openFile_eq] at hstep
      split_ifs at hstep with hfresh hret
      · obtain rfl := Option.some.inj hstep
        have hopen := (h.dev d).openMaster hfresh
        rw [if_pos hret] at hopen
        exact h.set d hopen
      · obtain rfl := Option.some.inj hstep
        have hopen := (h.dev d).openMaster hfresh
        rw [if_neg hret] at hopen
        exact h.set d hopen
  | release d file =>
      simp only [WriterDevices.step, d.release_eq] at hstep
      split_ifs at hstep with hmem
      obtain rfl := Option.some.inj hstep
      exact h.set d ((h.dev d).releaseMaster hmem)
  | event op =>
      obtain ⟨e, he, rfl⟩ := Option.map_eq_some_iff.mp hstep
      exact ⟨h.dev, counted_event h.event he⟩

theorem controlled (h : Inv s) : s.Controlled where
  writer := fun d ↦ (h.dev d).writer
  writer_event := h.event.writer
  unique := fun d _ hf _ hg hfw hgw ↦ (h.dev d).writer.unique (h.dev d).distinct hf hg hfw hgw
  unique_event := fun _ hf _ hg hfw hgw ↦ h.event.writer.unique h.event.distinct hf hg hfw hgw
  refused := by
    intro d file hret
    rw [d.openFile_eq] at hret ⊢
    rcases (h.dev d).writer.openMaster file with heq | ⟨dev', heq, -⟩
    · rw [heq]
    · rw [heq] at hret
      exact absurd rfl hret
  refused_event := by
    intro file kmallocOk hret
    rcases liberaEventOpen_common s.event.acc file kmallocOk with ⟨hcommon, -⟩ | ⟨hcommon, heq⟩
    · exact hcommon
    · rw [hcommon]
      rw [heq] at hret
      rcases h.event.writer.openMaster file with heq | ⟨dev', heq, -⟩
      · rw [heq]
      · rw [heq] at hret
        exact absurd rfl hret
  accepted := fun d _ hmem _ _ hset hok ↦ (h.dev d).accepted hmem d hset hok

end Inv

/-- After every sequence of opens and closes, refused or not. -/
theorem writers_controlled {drv : Driver} {ops : List WriterOp}
    (hrun : Steps step anyStep (boot drv) ops s) : s.Controlled := by
  have hinv : Inv s := hrun.invariant (fun _ _ _ h _ hstep ↦ h.step hstep) (.boot drv)
  exact hinv.controlled

theorem writers_controlled_two : ∃ s : WriterDevices, s.Controlled ∧
    s.files .cfg = [⟨3, ⟨true, false⟩⟩, ⟨1, ⟨false, true⟩⟩] ∧
    s.dev .cfg = ⟨2, 1, 1, some 1⟩ ∧ s.event.acc.common = ⟨1, 1, 1, some 4⟩ :=
  ⟨_, writers_controlled (exec_get_steps step anyStep (boot EventFiles.clear)
    [.open .cfg ⟨1, ⟨false, true⟩⟩, .open .cfg ⟨2, ⟨true, true⟩⟩, .open .cfg ⟨3, ⟨true, false⟩⟩,
      .event (.open ⟨4, ⟨true, true⟩⟩ true)] (by decide +kernel)), by decide +kernel,
    by decide +kernel, by decide +kernel⟩

end WriterDevices

end LiberaBase
