import LiberaBase.Kernel.Types
import Mathlib.Data.List.Perm.Lattice

/-!
# Open counts and the single writer

Every device keeps, in the fields of `LIBERA_COMMON_DEV`, how many descriptors are open and
which of them may change it.  The cfg, fa, dsc and event devices have one writer at a time:
`master_filp` is the file that was opened for writing, and requests that set something are
accepted from that file only.
-/

namespace LiberaBase

def ENOMEM : ℤ := 12
def EACCES : ℤ := 13
def ENOTTY : ℤ := 25

/-- `FMODE_READ` and `FMODE_WRITE` of `f_mode` -/
structure FMode where
  read : Bool
  write : Bool
  deriving DecidableEq

/-- `struct file`: its address and the mode it was opened in. -/
structure File where
  filp : ℕ
  mode : FMode
  deriving DecidableEq

/-- The access control of `LIBERA_COMMON_DEV`. -/
structure CommonDev where
  openCount : ℤ
  writers : ℤ
  readers : ℤ
  masterFilp : Option ℕ
  deriving DecidableEq

namespace CommonDev

/-- As `memset` leaves it. -/
def zero : CommonDev := ⟨0, 0, 0, none⟩

/-- The part of `open` between the locks, in the devices that have a writer. -/
def openMaster (dev : CommonDev) (file : File) : ℤ × CommonDev :=
  if file.mode.write = true ∧ dev.masterFilp ≠ none then (- EBUSY, dev)
  else
    let dev₁ :=
      if file.mode.write then
        { dev with masterFilp := some file.filp, writers := dev.writers + 1 }
      else dev
    let dev₂ := if file.mode.read then { dev₁ with readers := dev₁.readers + 1 } else dev₁
    (0, { dev₂ with openCount := dev₂.openCount + 1 })

/-- `release` of the devices that have a writer. -/
def releaseMaster (dev : CommonDev) (file : File) : CommonDev :=
  let dev₁ := { dev with openCount := dev.openCount - 1 }
  let dev₂ := if file.mode.read then { dev₁ with readers := dev₁.readers - 1 } else dev₁
  if file.mode.write then
    let dev₃ := { dev₂ with writers := dev₂.writers - 1 }
    if dev₃.writers = 0 then { dev₃ with masterFilp := none } else dev₃
  else dev₂

end CommonDev

def liberaCfgOpen (dev : CommonDev) (file : File) : ℤ × CommonDev := dev.openMaster file
def liberaFaOpen (dev : CommonDev) (file : File) : ℤ × CommonDev := dev.openMaster file
def liberaDscOpen (dev : CommonDev) (file : File) : ℤ × CommonDev := dev.openMaster file

def liberaCfgRelease (dev : CommonDev) (file : File) : CommonDev := dev.releaseMaster file
def liberaFaRelease (dev : CommonDev) (file : File) : CommonDev := dev.releaseMaster file
def liberaDscRelease (dev : CommonDev) (file : File) : CommonDev := dev.releaseMaster file

/-! ## Requests -/

def iocRead : U32 := 2
def iocWrite : U32 := 1

def iocDir (cmd : U32) : U32 := cmd >>> 30

def iocType (cmd : U32) : U32 := (cmd >>> 8) &&& 0xff#32

def iocNr (cmd : U32) : U32 := cmd &&& 0xff#32

def liberaIocMagic : U32 := 0x6c
def liberaEventMagic : U32 := 0x65
def liberaDscMagic : U32 := 0x64
def liberaIocMask : U32 := 0xE0
def liberaIocCfg : U32 := 0
def liberaIocFa : U32 := 64
def liberaIocDd : U32 := 96
def liberaIocPm : U32 := 128
def liberaIocDsc : U32 := 160

/-- The sanity checks on `cmd`; `accessOk` is what `access_ok` answers for the argument.
`none` goes on to the next check. -/
def iocSanity (magic number cmd : U32) (accessOk : Bool) : Option ℤ :=
  if iocType cmd ≠ magic then some (- ENOTTY)
  else if iocNr cmd &&& liberaIocMask ≠ number then some (- ENOTTY)
  else if (iocDir cmd &&& iocRead ≠ 0 ∨ iocDir cmd &&& iocWrite ≠ 0) ∧ accessOk = false then
    some (- EFAULT)
  else none

/-- The checks of an ioctl of a device with a master; `none` goes on to decode the command. -/
def iocChecks (magic number : U32) (dev : CommonDev) (file : File) (cmd : U32) (accessOk : Bool) :
    Option ℤ :=
  match iocSanity magic number cmd accessOk with
  | some err => some err
  | none => if iocDir cmd = iocWrite ∧ dev.masterFilp ≠ some file.filp then some (- EPERM) else none

/-- What `libera_cfg_ioctl` checks before `libera_cfg_cmd`. -/
def liberaCfgIoctl := iocChecks liberaIocMagic liberaIocCfg

/-- What `libera_fa_ioctl` checks before its `switch`. -/
def liberaFaIoctl := iocChecks liberaIocMagic liberaIocFa

/-- What `libera_dsc_ioctl` checks before its `switch`. -/
def liberaDscIoctl := iocChecks liberaDscMagic liberaIocDsc

/-! ## The single writer -/

/-- The counts are those of the open descriptors, and the master is the one open for writing. -/
structure SingleWriter (dev : CommonDev) (files : List File) : Prop where
  open_count : dev.openCount = files.length
  readers : dev.readers = files.countP (·.mode.read)
  writers : dev.writers = 0 ∨ dev.writers = 1
  master_none : dev.masterFilp = none ↔ dev.writers = 0
  master : ∀ p, dev.masterFilp = some p ↔ ∃ f ∈ files, f.mode.write = true ∧ f.filp = p

def Distinct (files : List File) : Prop := (files.map (·.filp)).Nodup

def FreshFile (files : List File) (file : File) : Prop := file.filp ∉ files.map (·.filp)

instance (files : List File) (file : File) : Decidable (FreshFile files file) :=
  inferInstanceAs (Decidable (_ ∉ _))

theorem Distinct.eq {files : List File} (h : Distinct files) {f g : File} (hf : f ∈ files)
    (hg : g ∈ files) (heq : f.filp = g.filp) : f = g :=
  List.inj_on_of_nodup_map h hf hg heq

theorem Distinct.cons {files : List File} {file : File} (h : Distinct files)
    (hfresh : FreshFile files file) : Distinct (file :: files) := by
  rw [Distinct, List.map_cons]
  exact List.nodup_cons.mpr ⟨hfresh, h⟩

theorem Distinct.nodup {files : List File} (h : Distinct files) : files.Nodup :=
  List.Nodup.of_map _ h

theorem Distinct.erase {files : List File} (h : Distinct files) (file : File) :
    Distinct (files.erase file) :=
  h.sublist (List.erase_sublist.map _)

theorem countP_cons_int (files : List File) (file : File) (p : File → Bool) :
    ((file :: files).countP p : ℤ) = files.countP p + if p file = true then 1 else 0 := by
  rw [List.countP_cons]
  split_ifs <;> simp

theorem countP_erase_of_mem {files : List File} {file : File} (hmem : file ∈ files)
    (p : File → Bool) : ((files.erase file).countP p : ℤ) =
      files.countP p - if p file = true then 1 else 0 := by
  have hperm := (List.perm_cons_erase hmem).countP_eq p
  rw [List.countP_cons] at hperm
  split_ifs at hperm ⊢ <;> omega

theorem length_erase_of_mem {files : List File} {file : File} (hmem : file ∈ files) :
    ((files.erase file).length : ℤ) = files.length - 1 := by
  have hperm := (List.perm_cons_erase hmem).length_eq
  rw [List.length_cons] at hperm
  omega

namespace SingleWriter

variable {dev : CommonDev} {files : List File} {file : File}

theorem zero : SingleWriter .zero [] := by
  refine ⟨rfl, rfl, .inl rfl, ⟨fun _ ↦ rfl, fun _ ↦ rfl⟩, ?_⟩
  intro p
  simp [CommonDev.zero]

theorem unique (h : SingleWriter dev files) (hdist : Distinct files) {f g : File}
    (hf : f ∈ files) (hg : g ∈ files) (hfw : f.mode.write = true) (hgw : g.mode.write = true) :
    f = g := by
  have hmf := (h.master f.filp).mpr ⟨f, hf, hfw, rfl⟩
  have hmg := (h.master g.filp).mpr ⟨g, hg, hgw, rfl⟩
  exact hdist.eq hf hg (Option.some.inj (hmf.symm.trans hmg))

theorem openReader (h : SingleWriter dev files) (hw : file.mode.write = false) :
    SingleWriter ⟨dev.openCount + 1, dev.writers,
      dev.readers + if file.mode.read then 1 else 0, dev.masterFilp⟩ (file :: files) := by
  constructor
  · simp [h.open_count]
  · rw [countP_cons_int, ← h.readers]
  · exact h.writers
  · exact h.master_none
  · intro p
    rw [h.master p]
    simp [hw]

theorem openWriter (h : SingleWriter dev files) (hw : file.mode.write = true)
    (hfree : dev.masterFilp = none) :
    SingleWriter ⟨dev.openCount + 1, dev.writers + 1,
      dev.readers + if file.mode.read then 1 else 0, some file.filp⟩ (file :: files) := by
  have hzero : dev.writers = 0 := h.master_none.mp hfree
  have hnone : ∀ f ∈ files, f.mode.write = false := by
    intro f hf
    by_contra hwf
    have := (h.master f.filp).mpr ⟨f, hf, by simpa using hwf, rfl⟩
    rw [hfree] at this
    cases this
  constructor
  · simp [h.open_count]
  · rw [countP_cons_int, ← h.readers]
  · right
    simp [hzero]
  · simp [hzero]
  · intro p
    constructor
    · intro hp
      exact ⟨file, List.mem_cons_self, hw, Option.some.inj hp⟩
    · rintro ⟨f, hf, hwf, rfl⟩
      rcases List.mem_cons.mp hf with rfl | hf
      · rfl
      · simp [hnone f hf] at hwf

theorem openMaster (h : SingleWriter dev files) (file : File) :
    dev.openMaster file = (- EBUSY, dev) ∨
      ∃ dev', dev.openMaster file = (0, dev') ∧ SingleWriter dev' (file :: files) := by
  by_cases hbusy : file.mode.write = true ∧ dev.masterFilp ≠ none
  · left
    rw [CommonDev.openMaster, if_pos hbusy]
  · right
    refine ⟨_, by rw [CommonDev.openMaster, if_neg hbusy], ?_⟩
    cases hw : file.mode.write with
    | false =>
        have hdev := h.openReader hw
        cases hr : file.mode.read <;> simpa [hr] using hdev
    | true =>
        have hdev := h.openWriter hw (by simpa [hw] using hbusy)
        cases hr : file.mode.read <;> simpa [hr] using hdev

theorem closeReader (h : SingleWriter dev files) (hmem : file ∈ files)
    (hw : file.mode.write = false) :
    SingleWriter ⟨dev.openCount - 1, dev.writers,
      dev.readers - if file.mode.read then 1 else 0, dev.masterFilp⟩ (files.erase file) := by
  constructor
  · simp [h.open_count, length_erase_of_mem hmem]
  · simp [h.readers, countP_erase_of_mem hmem]
  · exact h.writers
  · exact h.master_none
  · intro p
    rw [h.master p]
    constructor
    · rintro ⟨f, hf, hwf, hp⟩
      have hne : f ≠ file := by
        rintro rfl
        simp [hw] at hwf
      exact ⟨f, (List.mem_erase_of_ne hne).mpr hf, hwf, hp⟩
    · rintro ⟨f, hf, hwf, hp⟩
      exact ⟨f, List.mem_of_mem_erase hf, hwf, hp⟩

theorem closeWriter (h : SingleWriter dev files) (hdist : Distinct files) (hmem : file ∈ files)
    (hw : file.mode.write = true) : dev.writers = 1 ∧
    SingleWriter ⟨dev.openCount - 1, 0,
      dev.readers - if file.mode.read then 1 else 0, none⟩ (files.erase file) := by
  have hmaster := (h.master file.filp).mpr ⟨file, hmem, hw, rfl⟩
  have hone : dev.writers = 1 := by
    rcases h.writers with hzero | hone
    · rw [h.master_none.mpr hzero] at hmaster
      cases hmaster
    · exact hone
  refine ⟨hone, ?_⟩
  constructor
  · simp [h.open_count, length_erase_of_mem hmem]
  · simp [h.readers, countP_erase_of_mem hmem]
  · exact .inl rfl
  · simp
  · intro p
    constructor
    · intro hp
      cases hp
    · rintro ⟨f, hf, hwf, -⟩
      obtain ⟨hne, hf⟩ := hdist.nodup.mem_erase_iff.mp hf
      exact absurd (h.unique hdist hf hmem hwf hw) hne

theorem releaseMaster (h : SingleWriter dev files) (hdist : Distinct files) (hmem : file ∈ files) :
    SingleWriter (dev.releaseMaster file) (files.erase file) := by
  cases hw : file.mode.write with
  | false =>
      have hdev := h.closeReader hmem hw
      cases hr : file.mode.read <;> simpa [CommonDev.releaseMaster, hw, hr] using hdev
  | true =>
      obtain ⟨hone, hdev⟩ := h.closeWriter hdist hmem hw
      cases hr : file.mode.read <;> simpa [CommonDev.releaseMaster, hw, hr, hone] using hdev

/-- A request that sets something passes the checks of the one descriptor that is open for
writing. -/
theorem of_iocChecks (h : SingleWriter dev files) (hdist : Distinct files) (hmem : file ∈ files)
    {magic number cmd : U32} {accessOk : Bool} (hset : iocDir cmd = iocWrite)
    (hok : iocChecks magic number dev file cmd accessOk = none) :
    file.mode.write = true ∧ ∀ f ∈ files, f.mode.write = true → f = file := by
  have hmaster : dev.masterFilp = some file.filp := by
    rw [iocChecks] at hok
    by_contra hne
    cases hs : iocSanity magic number cmd accessOk with
    | some err => simp [hs] at hok
    | none => simp [hs, hset, hne] at hok
  obtain ⟨f, hf, hwf, hp⟩ := (h.master file.filp).mp hmaster
  obtain rfl := hdist.eq hf hmem hp
  exact ⟨hwf, fun g hg hwg ↦ h.unique hdist hg hf hwg hwf⟩

end SingleWriter

end LiberaBase
