import LiberaBase.Access.Writer
import LiberaBase.Lib.Runs
import LiberaBase.Sa.Device

/-!
# The devices that are only read

The dd, pm, adc and sa devices refuse to be opened for writing and count their readers.  The
dd device counts a reader before it allocates; the pm, adc and sa devices remember the file
that was opened first and forget it when the last one is closed, which need not be that file.
-/

namespace LiberaBase

open Runs

/-! ## dd -/

/-- `libera_dd_open`: the reader is counted before `kmalloc` may fail. -/
def liberaDdOpen (dev : CommonDev) (file : File) (kmallocOk : Bool) : ℤ × CommonDev :=
  if file.mode.write then (- EACCES, dev)
  else
    let dev₁ := { dev with readers := dev.readers + 1 }
    if kmallocOk = false then (- ENOMEM, dev₁)
    else (0, { dev₁ with openCount := dev₁.openCount + 1 })

def liberaDdRelease (dev : CommonDev) : CommonDev :=
  { dev with openCount := dev.openCount - 1, readers := dev.readers - 1 }

/-! ## pm and adc -/

namespace CommonDev

/-- `open` of the pm and adc devices. -/
def openReader (dev : CommonDev) (file : File) : ℤ × CommonDev :=
  if file.mode.write then (- EACCES, dev)
  else
    let dev₁ := if dev.masterFilp = none then { dev with masterFilp := some file.filp } else dev
    let dev₂ := { dev₁ with readers := dev₁.readers + 1 }
    (0, { dev₂ with openCount := dev₂.openCount + 1 })

/-- `release` of the pm and adc devices, and the end of that of the sa device. -/
def releaseReader (dev : CommonDev) : CommonDev :=
  let dev₁ := { dev with openCount := dev.openCount - 1, readers := dev.readers - 1 }
  if dev₁.readers = 0 then { dev₁ with masterFilp := none } else dev₁

end CommonDev

def liberaPmOpen (dev : CommonDev) (file : File) : ℤ × CommonDev := dev.openReader file
def liberaAdcOpen (dev : CommonDev) (file : File) : ℤ × CommonDev := dev.openReader file

def liberaPmRelease (dev : CommonDev) : CommonDev := dev.releaseReader
def liberaAdcRelease (dev : CommonDev) : CommonDev := dev.releaseReader

/-! ## sa -/

/-- `struct libera_registered_pipes`; a pipe is known by the file it belongs to. -/
structure RegisteredPipes where
  saPipe : ℕ → Option ℕ
  registered : ℤ
  next : ℕ

namespace RegisteredPipes

/-- `libera_register_pipe` -/
def register (pipe : RegisteredPipes) (filp : ℕ) : RegisteredPipes :=
  let saPipe := Function.update pipe.saPipe pipe.next (some filp)
  { saPipe := saPipe
    registered := pipe.registered + 1
    next := ((List.range Sa.liberaSaMaxReaders).find? fun i ↦ saPipe i = none).getD pipe.next }

/-- `libera_unregister_pipe` -/
def unregister (pipe : RegisteredPipes) (filp : ℕ) : RegisteredPipes :=
  match (List.range Sa.liberaSaMaxReaders).find? fun i ↦ pipe.saPipe i = some filp with
  | some i =>
    { saPipe := Function.update pipe.saPipe i none, registered := pipe.registered - 1, next := i }
  | none => pipe

end RegisteredPipes

/-- The access control of the sa device. -/
structure SaAccess where
  common : CommonDev
  pipe : RegisteredPipes

def liberaSaOpen (dev : SaAccess) (file : File) (kmallocOk : Bool) : ℤ × SaAccess :=
  if file.mode.write then (- EACCES, dev)
  else if dev.pipe.registered < Sa.liberaSaMaxReaders then
    if kmallocOk = false then (- ENOMEM, dev)
    else
      let common := dev.common
      let common₁ :=
        if file.mode.read = true ∧ common.masterFilp = none then
          { common with masterFilp := some file.filp }
        else common
      let common₂ := { common₁ with readers := common₁.readers + 1 }
      (0, ⟨{ common₂ with openCount := common₂.openCount + 1 }, dev.pipe.register file.filp⟩)
  else (- EBUSY, dev)

def liberaSaRelease (dev : SaAccess) (file : File) : SaAccess :=
  ⟨dev.common.releaseReader, dev.pipe.unregister file.filp⟩

/-! ## Bookkeeping -/

/-- The counts are those of the open descriptors, and the master is one of them. -/
structure Booked (dev : CommonDev) (files : List File) : Prop where
  open_count : dev.openCount = files.length
  readers : dev.readers = files.length
  master : ∀ p, dev.masterFilp = some p → ∃ f ∈ files, f.filp = p

namespace Booked

variable {dev : CommonDev} {files : List File} {file : File}

theorem zero : Booked .zero [] := ⟨rfl, rfl, fun _ h ↦ by cases h⟩

theorem cons (h : Booked dev files) {master : Option ℕ}
    (hmaster : master = dev.masterFilp ∨ master = some file.filp) :
    Booked ⟨dev.openCount + 1, dev.writers, dev.readers + 1, master⟩ (file :: files) := by
  constructor
  · simp [h.open_count]
  · simp [h.readers]
  · intro p hp
    rcases hmaster with hold | hnew
    · obtain ⟨f, hf, hfp⟩ := h.master p (hold ▸ hp)
      exact ⟨f, List.mem_cons_of_mem _ hf, hfp⟩
    · exact ⟨file, List.mem_cons_self, Option.some.inj (hnew.symm.trans hp)⟩

theorem erase (h : Booked dev files) (hmem : file ∈ files) {master : Option ℕ}
    (hmaster : master = none ∨ master = dev.masterFilp ∧ dev.masterFilp ≠ some file.filp) :
    Booked ⟨dev.openCount - 1, dev.writers, dev.readers - 1, master⟩ (files.erase file) := by
  constructor
  · simp [h.open_count, length_erase_of_mem hmem]
  · simp [h.readers, length_erase_of_mem hmem]
  · intro p hp
    rcases hmaster with hnone | ⟨hold, hne⟩
    · rw [hnone] at hp
      cases hp
    · obtain ⟨f, hf, hfp⟩ := h.master p (hold ▸ hp)
      refine ⟨f, (List.mem_erase_of_ne ?_).mpr hf, hfp⟩
      rintro rfl
      exact hne (hold ▸ hfp ▸ hp)

theorem openReader (h : Booked dev files) (file : File) :
    dev.openReader file = (- EACCES, dev) ∨
      ∃ dev', dev.openReader file = (0, dev') ∧ Booked dev' (file :: files) := by
  cases hw : file.mode.write with
  | true => exact .inl (by simp [CommonDev.openReader, hw])
  | false =>
      right
      by_cases hnone : dev.masterFilp = none
      · exact ⟨_, by simp [CommonDev.openReader, hw, hnone], h.cons (.inr rfl)⟩
      · exact ⟨_, by simp [CommonDev.openReader, hw, hnone], h.cons (.inl rfl)⟩

theorem releaseReader (h : Booked dev files) (hmem : file ∈ files)
    (hlast : dev.masterFilp = some file.filp → files = [file]) :
    Booked dev.releaseReader (files.erase file) := by
  by_cases hzero : dev.readers - 1 = 0
  · have heq : dev.releaseReader = ⟨dev.openCount - 1, dev.writers, dev.readers - 1, none⟩ := by
      simp [CommonDev.releaseReader, hzero]
    rw [heq]
    exact h.erase hmem (.inl rfl)
  · have heq : dev.releaseReader =
        ⟨dev.openCount - 1, dev.writers, dev.readers - 1, dev.masterFilp⟩ := by
      simp [CommonDev.releaseReader, hzero]
    rw [heq]
    refine h.erase hmem (.inr ⟨rfl, fun hmaster ↦ hzero ?_⟩)
    rw [h.readers, hlast hmaster]
    rfl

theorem liberaSaOpen {dev : SaAccess} (h : Booked dev.common files) (file : File)
    (kmallocOk : Bool) :
    (∃ err, err ≠ 0 ∧ LiberaBase.liberaSaOpen dev file kmallocOk = (err, dev)) ∨
    ∃ dev', LiberaBase.liberaSaOpen dev file kmallocOk = (0, dev') ∧
      Booked dev'.common (file :: files) := by
  unfold LiberaBase.liberaSaOpen
  dsimp only
  by_cases hw : file.mode.write = true
  · rw [if_pos hw]
    exact .inl ⟨- EACCES, by decide, rfl⟩
  rw [if_neg hw]
  by_cases hroom : dev.pipe.registered < Sa.liberaSaMaxReaders
  · rw [if_pos hroom]
    cases kmallocOk with
    | false => exact .inl ⟨- ENOMEM, by decide, rfl⟩
    | true =>
        right
        by_cases hfirst : file.mode.read = true ∧ dev.common.masterFilp = none
        · rw [if_pos hfirst]
          exact ⟨_, rfl, h.cons (.inr rfl)⟩
        · rw [if_neg hfirst]
          exact ⟨_, rfl, h.cons (.inl rfl)⟩
  · rw [if_neg hroom]
    exact .inl ⟨- EBUSY, by decide, rfl⟩

end Booked

/-! ## Runs -/

inductive ReaderDevice where
  | dd
  | pm
  | adc
  | sa
  deriving DecidableEq

namespace ReaderDevice

/-- The `open` of each device; only that of the sa device changes the registered pipes. -/
def openFile (d : ReaderDevice) (dev : SaAccess) (file : File) (kmallocOk : Bool) : ℤ × SaAccess :=
  match d with
  | .dd => ((liberaDdOpen dev.common file kmallocOk).1,
      { dev with common := (liberaDdOpen dev.common file kmallocOk).2 })
  | .pm => ((liberaPmOpen dev.common file).1,
      { dev with common := (liberaPmOpen dev.common file).2 })
  | .adc => ((liberaAdcOpen dev.common file).1,
      { dev with common := (liberaAdcOpen dev.common file).2 })
  | .sa => liberaSaOpen dev file kmallocOk

def release (d : ReaderDevice) (dev : SaAccess) (file : File) : SaAccess :=
  match d with
  | .dd => { dev with common := liberaDdRelease dev.common }
  | .pm => { dev with common := liberaPmRelease dev.common }
  | .adc => { dev with common := liberaAdcRelease dev.common }
  | .sa => liberaSaRelease dev file

end ReaderDevice

/-- The devices that are only read, the pipes of the sa device, and the open descriptors. -/
structure ReaderDevices where
  common : ReaderDevice → CommonDev
  pipe : RegisteredPipes
  files : ReaderDevice → List File

inductive ReaderOp where
  | open (d : ReaderDevice) (file : File) (kmallocOk : Bool)
  | release (d : ReaderDevice) (file : File)

namespace ReaderDevices

variable {s s' : ReaderDevices} {d : ReaderDevice} {file : File} {kmallocOk : Bool}

def boot : ReaderDevices := ⟨fun _ ↦ .zero, ⟨fun _ ↦ none, 0, 0⟩, fun _ ↦ []⟩

/-- The access control of one device, with the pipes. -/
def access (s : ReaderDevices) (d : ReaderDevice) : SaAccess := ⟨s.common d, s.pipe⟩

def set (s : ReaderDevices) (d : ReaderDevice) (dev : SaAccess) (files : List File) :
    ReaderDevices where
  common := Function.update s.common d dev.common
  pipe := dev.pipe
  files := Function.update s.files d files

def step (s : ReaderDevices) : ReaderOp → Option ReaderDevices
  | .open d file kmallocOk =>
    if FreshFile (s.files d) file then
      let (ret, dev) := d.openFile (s.access d) file kmallocOk
      some (s.set d dev (if ret = 0 then file :: s.files d else s.files d))
    else none
  | .release d file =>
    if file ∈ s.files d then
      some (s.set d (d.release (s.access d) file) ((s.files d).erase file))
    else none

/-- The dd device gets its memory, unless it refuses to be written; and the file that a device
remembers as its master is closed last. -/
def Careful (s : ReaderDevices) : ReaderOp → Prop
  | .open d file kmallocOk => d = .dd → file.mode.write = true ∨ kmallocOk = true
  | .release d file => (s.common d).masterFilp = some file.filp → s.files d = [file]

/-- The books of every device are right, and a careful `open` that is refused leaves them. -/
structure InOrder (s : ReaderDevices) : Prop where
  booked : ∀ d, Booked (s.common d) (s.files d)
  refused : ∀ d file kmallocOk, s.Careful (.open d file kmallocOk) →
    (d.openFile (s.access d) file kmallocOk).1 ≠ 0 →
      (d.openFile (s.access d) file kmallocOk).2 = s.access d

theorem openFile_cases (h : Booked (s.common d) (s.files d))
    (hok : s.Careful (.open d file kmallocOk)) :
    (∃ err, err ≠ 0 ∧ d.openFile (s.access d) file kmallocOk = (err, s.access d)) ∨
    ∃ dev, d.openFile (s.access d) file kmallocOk = (0, dev) ∧
      Booked dev.common (file :: s.files d) := by
  cases d with
  | dd =>
      cases hw : file.mode.write with
      | true =>
          exact .inl ⟨- EACCES, by decide, by simp [ReaderDevice.openFile, liberaDdOpen, hw]⟩
      | false =>
          have hk : kmallocOk = true := by simpa [hw] using hok rfl
          right
          refine ⟨⟨_, s.pipe⟩, ?_, h.cons (.inl rfl)⟩
          simp [ReaderDevice.openFile, liberaDdOpen, hw, hk, access]
  | pm =>
      rcases h.openReader file with heq | ⟨dev, heq, hdev⟩
      · exact .inl ⟨- EACCES, by decide, by simp [ReaderDevice.openFile, liberaPmOpen, access, heq]⟩
      · exact .inr ⟨⟨dev, s.pipe⟩, by simp [ReaderDevice.openFile, liberaPmOpen, access, heq], hdev⟩
  | adc =>
      rcases h.openReader file with heq | ⟨dev, heq, hdev⟩
      · exact .inl ⟨- EACCES, by decide, by simp [ReaderDevice.openFile, liberaAdcOpen, access, heq]⟩
      · exact .inr ⟨⟨dev, s.pipe⟩, by simp [ReaderDevice.openFile, liberaAdcOpen, access, heq], hdev⟩
  | sa => exact h.liberaSaOpen file kmallocOk

/-! ## The steps -/

theorem liberaDdOpen_master {dev : SaAccess}
    (heq : ReaderDevice.openFile .dd (s.access .dd) file kmallocOk = (0, dev))
    (hnone : (s.common .dd).masterFilp = none) : dev.common.masterFilp = none := by
  obtain ⟨-, rfl⟩ := Prod.mk.inj heq
  unfold liberaDdOpen
  dsimp only
  split_ifs <;> exact hnone

structure Inv (s : ReaderDevices) : Prop where
  booked : ∀ d, Booked (s.common d) (s.files d)
  dd_master : (s.common .dd).masterFilp = none

namespace Inv

theorem boot : Inv boot := ⟨fun _ ↦ .zero, rfl⟩

theorem set (h : Inv s) {dev : SaAccess} {files : List File} (hdev : Booked dev.common files)
    (hdd : d = .dd → dev.common.masterFilp = none) : Inv (s.set d dev files) := by
  constructor
  · intro d'
    by_cases hd : d' = d
    · subst hd
      simpa [ReaderDevices.set] using hdev
    · simpa [ReaderDevices.set, Function.update_of_ne hd] using h.booked d'
  · by_cases hd : .dd = d
    · subst hd
      simpa [ReaderDevices.set] using hdd rfl
    · simpa [ReaderDevices.set, Function.update_of_ne hd] using h.dd_master

theorem release (h : Inv s) (hmem : file ∈ s.files d) (hok : s.Careful (.release d file)) :
    Booked (d.release (s.access d) file).common ((s.files d).erase file) := by
  cases d with
  | dd =>
      refine (h.booked .dd).erase hmem (.inr ⟨rfl, ?_⟩)
      rw [h.dd_master]
      simp
  | pm => exact (h.booked .pm).releaseReader hmem hok
  | adc => exact (h.booked .adc).releaseReader hmem hok
  | sa => exact (h.booked .sa).releaseReader hmem hok

theorem step (h : Inv s) {op : ReaderOp} (hok : s.Careful op) (hstep : s.step op = some s') :
    Inv s' := by
  cases op with
  | «open» d file kmallocOk =>
      by_cases hfresh : FreshFile (s.files d) file
      swap
      · simp [ReaderDevices.step, hfresh] at hstep
      simp only [ReaderDevices.step, if_pos hfresh] at hstep
      rcases openFile_cases (h.booked d) hok with ⟨err, hne, heq⟩ | ⟨dev, heq, hdev⟩
      · rw [heq, if_neg hne] at hstep
        obtain rfl := Option.some.inj hstep
        exact h.set (h.booked d) fun hd ↦ hd ▸ h.dd_master
      · rw [heq, if_pos rfl] at hstep
        obtain rfl := Option.some.inj hstep
        refine h.set hdev fun hd ↦ ?_
        subst hd
        exact liberaDdOpen_master heq h.dd_master
  | release d file =>
      simp only [ReaderDevices.step] at hstep
      split_ifs at hstep with hmem
      obtain rfl := Option.some.inj hstep
      exact h.set (h.release hmem hok) fun hd ↦ by subst hd; exact h.dd_master

theorem inOrder (h : Inv s) : s.InOrder where
  booked := h.booked
  refused := by
    intro d file kmallocOk hok hne
    rcases openFile_cases (h.booked d) hok with ⟨err, -, heq⟩ | ⟨dev, heq, -⟩
    · rw [heq]
    · rw [heq] at hne
      exact absurd rfl hne

end Inv

/-- Every run of careful operations keeps the books. -/
theorem readers_in_order {ops : List ReaderOp} (hrun : Steps step Careful boot ops s) :
    s.InOrder := by
  have hinv : Inv s := hrun.invariant (fun _ _ _ h hok hstep ↦ h.step hok hstep) .boot
  exact hinv.inOrder

instance (s : ReaderDevices) (op : ReaderOp) : Decidable (s.Careful op) := by
  cases op <;> exact inferInstanceAs (Decidable (_ → _))

theorem readers_in_order_three : ∃ s : ReaderDevices, s.InOrder ∧
    s.common .sa = ⟨1, 0, 1, none⟩ ∧ s.files .sa = [⟨3, ⟨false, false⟩⟩] ∧
    s.common .pm = ⟨0, 0, 0, none⟩ ∧ s.files .pm = [] :=
  ⟨_, readers_in_order (exec_get_steps step Careful boot
    [.open .pm ⟨1, ⟨true, false⟩⟩ true, .open .pm ⟨2, ⟨true, true⟩⟩ true,
      .open .sa ⟨3, ⟨false, false⟩⟩ true, .open .sa ⟨4, ⟨true, false⟩⟩ false,
      .release .pm ⟨1, ⟨true, false⟩⟩] (by decide +kernel)), by decide +kernel, by decide +kernel,
    by decide +kernel, by decide +kernel⟩

/-- The dd device counts a reader that was refused; the pm device remembers a closed file. -/
theorem refused_reader_counted : ∃ s : ReaderDevices, Steps step anyStep boot
      [.open .dd ⟨1, ⟨true, false⟩⟩ false, .open .pm ⟨2, ⟨true, false⟩⟩ true,
        .open .pm ⟨3, ⟨true, false⟩⟩ true, .release .pm ⟨2, ⟨true, false⟩⟩] s ∧
    s.common .dd = ⟨0, 0, 1, none⟩ ∧ s.files .dd = [] ∧
    (s.common .pm).masterFilp = some 2 ∧ s.files .pm = [⟨3, ⟨true, false⟩⟩] ∧
    ¬ Booked (s.common .dd) (s.files .dd) ∧ ¬ Booked (s.common .pm) (s.files .pm) := by
  refine ⟨_, exec_get_steps step anyStep boot _ (by decide +kernel), by decide +kernel,
    by decide +kernel, by decide +kernel, by decide +kernel, fun h ↦ ?_, fun h ↦ ?_⟩
  · have hreaders := h.readers
    revert hreaders
    decide +kernel
  · obtain ⟨f, hf, hfp⟩ := h.master 2 (by decide +kernel)
    revert f
    decide +kernel

end ReaderDevices

end LiberaBase
