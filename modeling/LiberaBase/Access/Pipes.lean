import LiberaBase.Access.Readers
import LiberaBase.Lib.SlotTable

/-!
# The registered pipes

Every open descriptor of the sa device has a pipe in one of the 16 slots.  `next` is the slot for
the next one; when the last slot is taken it stays on a slot that is in use, and only a release,
which points it at the slot it clears, makes it valid again.
-/

namespace LiberaBase

open Runs SlotTable

/-- What holds of the registered pipes while `files` are open. -/
structure Registry (pipe : RegisteredPipes) (files : List File) : Prop where
  distinct : Distinct files
  registered : pipe.registered = (occupied Sa.liberaSaMaxReaders pipe.saPipe).card
  assigns : Assigns Sa.liberaSaMaxReaders pipe.saPipe {p | ∃ f ∈ files, f.filp = p}
  next_lt : pipe.next < Sa.liberaSaMaxReaders
  next_free : pipe.registered < Sa.liberaSaMaxReaders → pipe.saPipe pipe.next = none

namespace Registry

variable {pipe : RegisteredPipes} {files : List File} {file : File}

theorem boot : Registry ⟨fun _ ↦ none, 0, 0⟩ [] where
  distinct := List.nodup_nil
  registered := by simp [occupied]
  assigns := by simpa using Assigns.empty Sa.liberaSaMaxReaders
  next_lt := by decide
  next_free := fun _ ↦ rfl

/-- The search finds a free slot unless all are taken. -/
theorem find_free {t : ℕ → Option ℕ}
    (h : (occupied Sa.liberaSaMaxReaders t).card < Sa.liberaSaMaxReaders) :
    ∃ i, (List.range Sa.liberaSaMaxReaders).find? (fun i ↦ t i = none) = some i ∧ t i = none := by
  obtain ⟨j, hj, hfree⟩ := exists_free h
  have hsome : ((List.range Sa.liberaSaMaxReaders).find? fun i ↦ t i = none).isSome := by
    rw [List.find?_isSome]
    exact ⟨j, List.mem_range.mpr hj, by simpa using hfree⟩
  obtain ⟨i, hfind⟩ := Option.isSome_iff_exists.mp hsome
  exact ⟨i, hfind, by simpa using List.find?_some hfind⟩

theorem register_next_lt (h : pipe.next < Sa.liberaSaMaxReaders) (filp : ℕ) :
    (pipe.register filp).next < Sa.liberaSaMaxReaders := by
  unfold RegisteredPipes.register
  dsimp only
  cases hfind : (List.range Sa.liberaSaMaxReaders).find? fun i ↦
      Function.update pipe.saPipe pipe.next (some filp) i = none with
  | none => exact h
  | some i => exact List.mem_range.mp (List.mem_of_find?_eq_some hfind)

theorem register_next_free {filp : ℕ}
    (h : (occupied Sa.liberaSaMaxReaders (pipe.register filp).saPipe).card <
      Sa.liberaSaMaxReaders) :
    (pipe.register filp).saPipe (pipe.register filp).next = none := by
  obtain ⟨i, hfind, hfree⟩ := find_free h
  have hnext : (pipe.register filp).next = i := by
    change ((List.range Sa.liberaSaMaxReaders).find? fun i ↦
      (pipe.register filp).saPipe i = none).getD pipe.next = i
    rw [hfind]
    rfl
  rw [hnext]
  exact hfree

theorem register (h : Registry pipe files) (hfresh : FreshFile files file)
    (hroom : pipe.registered < Sa.liberaSaMaxReaders) :
    Registry (pipe.register file.filp) (file :: files) := by
  have hfree := h.next_free hroom
  have hcard := card_store h.next_lt hfree file.filp
  have hregistered : (pipe.register file.filp).registered =
      (occupied Sa.liberaSaMaxReaders (pipe.register file.filp).saPipe).card := by
    change pipe.registered + 1 = _
    rw [RegisteredPipes.register, hcard, h.registered]
    rfl
  have hkeys : {p | ∃ f ∈ file :: files, f.filp = p} =
      insert file.filp {p | ∃ f ∈ files, f.filp = p} := by
    ext p
    simp [eq_comm]
  have hnew : file.filp ∉ {p | ∃ f ∈ files, f.filp = p} := by
    rintro ⟨f, hf, hfp⟩
    exact hfresh (List.mem_map.mpr ⟨f, hf, hfp⟩)
  refine ⟨h.distinct.cons hfresh, hregistered, ?_, register_next_lt h.next_lt _, fun hlt ↦ ?_⟩
  · rw [hkeys]
    exact h.assigns.store h.next_lt hfree hnew
  · rw [hregistered] at hlt
    exact register_next_free (by exact_mod_cast hlt)

/-- The pipe of an open descriptor is found and its slot is cleared. -/
theorem unregister_eq (h : Registry pipe files) (hmem : file ∈ files) :
    ∃ i < Sa.liberaSaMaxReaders, pipe.saPipe i = some file.filp ∧
      pipe.unregister file.filp =
        ⟨Function.update pipe.saPipe i none, pipe.registered - 1, i⟩ := by
  obtain ⟨j, ⟨hj, hslot⟩, -⟩ := h.assigns.slot file.filp ⟨file, hmem, rfl⟩
  have hsome : ((List.range Sa.liberaSaMaxReaders).find? fun i ↦
      pipe.saPipe i = some file.filp).isSome := by
    rw [List.find?_isSome]
    exact ⟨j, List.mem_range.mpr hj, by simpa using hslot⟩
  obtain ⟨i, hfind⟩ := Option.isSome_iff_exists.mp hsome
  refine ⟨i, List.mem_range.mp (List.mem_of_find?_eq_some hfind),
    by simpa using List.find?_some hfind, ?_⟩
  rw [RegisteredPipes.unregister, hfind]

theorem unregister (h : Registry pipe files) (hmem : file ∈ files) :
    Registry (pipe.unregister file.filp) (files.erase file) := by
  obtain ⟨i, hi, hslot, heq⟩ := h.unregister_eq hmem
  have hcard := card_clear hi hslot
  have hkeys : {p | ∃ f ∈ files.erase file, f.filp = p} =
      {p | ∃ f ∈ files, f.filp = p} \ {file.filp} := by
    ext p
    simp only [Set.mem_ofPred_eq, Set.mem_sdiff, Set.mem_singleton_iff,
      h.distinct.nodup.mem_erase_iff]
    constructor
    · rintro ⟨f, ⟨hne, hf⟩, rfl⟩
      exact ⟨⟨f, hf, rfl⟩, fun heq ↦ hne (h.distinct.eq hf hmem heq)⟩
    · rintro ⟨⟨f, hf, rfl⟩, hne⟩
      exact ⟨f, ⟨fun heq ↦ hne (congrArg File.filp heq), hf⟩, rfl⟩
  rw [heq]
  refine ⟨h.distinct.erase file, ?_, ?_, hi, fun _ ↦ Function.update_self i none pipe.saPipe⟩
  · change pipe.registered - 1 =
      ((occupied Sa.liberaSaMaxReaders (Function.update pipe.saPipe i none)).card : ℤ)
    rw [h.registered]
    omega
  · rw [hkeys]
    exact h.assigns.clear hi hslot

end Registry

/-- An `open` of the sa device registers a pipe if there is room, and else changes none. -/
theorem liberaSaOpen_pipe (dev : SaAccess) (file : File) (kmallocOk : Bool) :
    (liberaSaOpen dev file kmallocOk).1 ≠ 0 ∧
        (liberaSaOpen dev file kmallocOk).2.pipe = dev.pipe ∨
      dev.pipe.registered < Sa.liberaSaMaxReaders ∧ (liberaSaOpen dev file kmallocOk).1 = 0 ∧
        (liberaSaOpen dev file kmallocOk).2.pipe = dev.pipe.register file.filp := by
  unfold liberaSaOpen
  by_cases hw : file.mode.write = true
  · rw [if_pos hw]
    exact .inl ⟨(by decide : -EACCES ≠ 0), rfl⟩
  rw [if_neg hw]
  by_cases hroom : dev.pipe.registered < Sa.liberaSaMaxReaders
  · rw [if_pos hroom]
    cases kmallocOk with
    | false => exact .inl ⟨(by decide : -ENOMEM ≠ 0), rfl⟩
    | true => exact .inr ⟨hroom, rfl, rfl⟩
  · rw [if_neg hroom]
    exact .inl ⟨(by decide : -EBUSY ≠ 0), rfl⟩

namespace ReaderDevice

variable {d : ReaderDevice}

theorem openFile_pipe (hd : d ≠ .sa) (dev : SaAccess) (file : File) (kmallocOk : Bool) :
    (d.openFile dev file kmallocOk).2.pipe = dev.pipe := by
  cases d with
  | dd => rfl
  | pm => rfl
  | adc => rfl
  | sa => exact absurd rfl hd

theorem release_pipe (hd : d ≠ .sa) (dev : SaAccess) (file : File) :
    (d.release dev file).pipe = dev.pipe := by
  cases d with
  | dd => rfl
  | pm => rfl
  | adc => rfl
  | sa => exact absurd rfl hd

end ReaderDevice

namespace ReaderDevices

variable {s s' : ReaderDevices} {file : File} {kmallocOk : Bool}

@[simp] theorem set_files_self (s : ReaderDevices) (d : ReaderDevice) (dev : SaAccess)
    (files : List File) : (s.set d dev files).files d = files := by
  simp [set]

theorem set_files_of_ne (s : ReaderDevices) {d d' : ReaderDevice} (hne : d' ≠ d) (dev : SaAccess)
    (files : List File) : (s.set d dev files).files d' = s.files d' := by
  simp [set, hne]

theorem registry_open (h : Registry s.pipe (s.files .sa)) (d : ReaderDevice)
    (hstep : s.step (.open d file kmallocOk) = some s') : Registry s'.pipe (s'.files .sa) := by
  by_cases hfresh : FreshFile (s.files d) file
  swap
  · simp [step, hfresh] at hstep
  simp only [step, if_pos hfresh] at hstep
  obtain rfl := Option.some.inj hstep
  by_cases hd : d = .sa
  · subst hd
    rw [set_files_self]
    change Registry (liberaSaOpen (s.access .sa) file kmallocOk).2.pipe
      (if (liberaSaOpen (s.access .sa) file kmallocOk).1 = 0 then file :: s.files .sa
        else s.files .sa)
    rcases liberaSaOpen_pipe (s.access .sa) file kmallocOk with
      ⟨hret, hpipe⟩ | ⟨hroom, hret, hpipe⟩
    · rw [if_neg hret, hpipe]
      exact h
    · rw [if_pos hret, hpipe]
      exact h.register hfresh hroom
  · rw [set_files_of_ne s (Ne.symm hd)]
    change Registry (d.openFile (s.access d) file kmallocOk).2.pipe (s.files .sa)
    rw [ReaderDevice.openFile_pipe hd]
    exact h

theorem registry_release (h : Registry s.pipe (s.files .sa)) (d : ReaderDevice)
    (hstep : s.step (.release d file) = some s') : Registry s'.pipe (s'.files .sa) := by
  simp only [step] at hstep
  split_ifs at hstep with hmem
  obtain rfl := Option.some.inj hstep
  by_cases hd : d = .sa
  · subst hd
    rw [set_files_self]
    exact h.unregister hmem
  · rw [set_files_of_ne s (Ne.symm hd)]
    change Registry (d.release (s.access d) file).pipe (s.files .sa)
    rw [ReaderDevice.release_pipe hd]
    exact h

theorem registry_step (h : Registry s.pipe (s.files .sa)) {op : ReaderOp}
    (hstep : s.step op = some s') : Registry s'.pipe (s'.files .sa) := by
  cases op with
  | «open» d file kmallocOk => exact registry_open h d hstep
  | release d file => exact registry_release h d hstep

theorem registry_of_steps {ops : List ReaderOp} (hrun : Steps step anyStep boot ops s) :
    Registry s.pipe (s.files .sa) :=
  hrun.invariant (P := fun s ↦ Registry s.pipe (s.files .sa))
    (fun _ _ _ h _ hstep ↦ registry_step h hstep) Registry.boot

/-- The slots and the open descriptors of the sa device fit each other; an `open` overwrites no
pipe, and a `release` finds the one it is to remove. -/
structure PipesInOrder (s : ReaderDevices) : Prop where
  registered : s.pipe.registered = (occupied Sa.liberaSaMaxReaders s.pipe.saPipe).card
  registered_le : s.pipe.registered ≤ Sa.liberaSaMaxReaders
  one_slot : ∀ f ∈ s.files .sa, ∃! i, i < Sa.liberaSaMaxReaders ∧ s.pipe.saPipe i = some f.filp
  not_shared : ∀ f ∈ s.files .sa, ∀ g ∈ s.files .sa, ∀ i,
    s.pipe.saPipe i = some f.filp → s.pipe.saPipe i = some g.filp → f = g
  next_free : s.pipe.registered < Sa.liberaSaMaxReaders →
    s.pipe.next < Sa.liberaSaMaxReaders ∧ s.pipe.saPipe s.pipe.next = none
  open_keeps : ∀ file kmallocOk i p, s.pipe.saPipe i = some p →
    (liberaSaOpen (s.access .sa) file kmallocOk).2.pipe.saPipe i = some p
  release_finds : ∀ f ∈ s.files .sa, ∃ i < Sa.liberaSaMaxReaders,
    s.pipe.saPipe i = some f.filp ∧ (liberaSaRelease (s.access .sa) f).pipe =
      ⟨Function.update s.pipe.saPipe i none, s.pipe.registered - 1, i⟩

theorem pipes_in_order {ops : List ReaderOp} (hrun : Steps step anyStep boot ops s) :
    s.PipesInOrder := by
  have h := registry_of_steps hrun
  refine ⟨h.registered, ?_, ?_, ?_, ?_, ?_, ?_⟩
  · rw [h.registered]
    exact_mod_cast card_occupied_le _ _
  · exact fun f hf ↦ h.assigns.slot f.filp ⟨f, hf, rfl⟩
  · intro f hf g hg i hslot hslot'
    exact h.distinct.eq hf hg (Option.some.inj (hslot.symm.trans hslot'))
  · exact fun hroom ↦ ⟨h.next_lt, h.next_free hroom⟩
  · intro file kmallocOk i p hslot
    rcases liberaSaOpen_pipe (s.access .sa) file kmallocOk with ⟨-, hpipe⟩ | ⟨hroom, -, hpipe⟩
    · rw [hpipe]
      exact hslot
    · have hne : i ≠ s.pipe.next := by
        rintro rfl
        rw [h.next_free hroom] at hslot
        cases hslot
      rw [hpipe]
      exact (Function.update_of_ne hne _ _).trans hslot
  · exact fun f hf ↦ h.unregister_eq hf

/-- Two pipes, of which the first was closed. -/
theorem pipes_in_order_two : ∃ s : ReaderDevices, s.PipesInOrder ∧
    s.files .sa = [⟨2, ⟨true, false⟩⟩] ∧ s.pipe.saPipe 1 = some 2 ∧ s.pipe.next = 0 :=
  ⟨_, pipes_in_order (exec_get_steps step anyStep boot
    [.open .sa ⟨1, ⟨true, false⟩⟩ true, .open .sa ⟨2, ⟨true, false⟩⟩ true,
      .release .sa ⟨1, ⟨true, false⟩⟩] (by decide +kernel)), by decide +kernel, by decide +kernel,
    by decide +kernel⟩

end ReaderDevices

end LiberaBase
