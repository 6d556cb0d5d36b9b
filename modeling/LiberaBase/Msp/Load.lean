import LiberaBase.Lib.Custody
import Mathlib.Algebra.Ring.Int.Defs

/-!
# Loading and unloading the MSP driver

`request_mem_region` and `ioremap_nocache` answer a refusal by `NULL`, and `initialise_msp` tests
both by `IS_ERR`, which does not find it.  A load that is refused the register's region goes on, and
the region is given back although it was not taken; one that is refused the mapping writes to the
register through `NULL`.
-/

namespace LiberaBase

namespace Msp

open Custody

inductive Resource where
  | ssp
  | memRegion
  | iomem
  | chrdevRegion
  | cdev
  | deviceClass
  | device
  deriving DecidableEq

namespace Resource

def needs : Resource → List Resource
  | iomem => [memRegion]
  | cdev => [chrdevRegion, ssp, iomem]
  | device => [cdev, deviceClass]
  | _ => []

def all : List Resource := [ssp, memRegion, iomem, chrdevRegion, cdev, deviceClass, device]

end Resource

/-- A pointer that the kernel returns. -/
inductive Pointer where
  | valid
  | null
  | err (errno : ℕ) (hpos : 0 < errno)
  deriving DecidableEq

/-- `PTR_ERR`, where `IS_ERR` finds an error -/
def Pointer.isErr : Pointer → Option ℤ
  | .err errno _ => some (-errno)
  | _ => none

/-- How the kernel answers; an `errno` of 0 is success. -/
structure LoadCalls where
  sspInitErrno : ℕ
  requestMemRegion : Pointer
  ioremapNocache : Pointer
  allocChrdevRegionErrno : ℕ
  cdevAddErrno : ℕ
  classCreateErrno : ℕ
  deviceCreateErrno : ℕ

/-- `refused`: a load was refused the register's region or its mapping by `NULL`.  `faulted`: a load
did not come back, and the module can be neither loaded again nor unloaded. -/
structure Load where
  loaded : Bool
  refused : Bool
  faulted : Bool
  trace : List (Act Resource)

namespace Load

open Resource

variable {s t : Load} {c : LoadCalls}

def acquire (s : Load) (r : Resource) : Load := { s with trace := s.trace ++ [.acquire r] }

def release (s : Load) (r : Resource) : Load := { s with trace := s.trace ++ [.release r] }

/-- A resource comes as a pointer to it. -/
def receive (s : Load) (r : Resource) (p : Pointer) : Load :=
  if p = .null then { s with refused := true } else s.acquire r

/-- What is returned is 0; `none` is a write through `NULL`, which does not come back. -/
def mspReset (s : Load) (register : Pointer) : Load × Option ℤ :=
  ({ s with trace := s.trace ++ [.use .iomem] }, if register = .null then none else some 0)

/-! `no_region` and `no_iobase` -/

def noRegion (s : Load) (ret : ℤ) : Load × Option ℤ := (s.release .ssp, some ret)

def noIobase (s : Load) (ret : ℤ) : Load × Option ℤ := (s.release .memRegion).noRegion ret

def initialiseMsp (c : LoadCalls) (s : Load) : Load × Option ℤ :=
  if c.sspInitErrno ≠ 0 then (s, some (-c.sspInitErrno))
  else
    let s₁ := s.acquire .ssp
    match c.requestMemRegion.isErr with
    | some ret => s₁.noRegion ret
    | none =>
      let s₂ := s₁.receive .memRegion c.requestMemRegion
      match c.ioremapNocache.isErr with
      | some ret => s₂.noIobase ret
      | none => (s₂.receive .iomem c.ioremapNocache).mspReset c.ioremapNocache

def uninitialiseMsp (s : Load) : Load :=
  ((s.release .iomem).release .memRegion).release .ssp

/-! `no_chrdev` to `no_device` -/

def noChrdev (s : Load) (ret : ℤ) : Load × ℤ := (s.uninitialiseMsp, ret)

def noCdev (s : Load) (ret : ℤ) : Load × ℤ := (s.release .chrdevRegion).noChrdev ret

def noClass (s : Load) (ret : ℤ) : Load × ℤ := (s.release .cdev).noCdev ret

def noDevice (s : Load) (ret : ℤ) : Load × ℤ := (s.release .deviceClass).noClass ret

/-- `msp_init` after `initialise_msp` -/
def installChrdev (c : LoadCalls) (s : Load) : Load × ℤ :=
  if c.allocChrdevRegionErrno ≠ 0 then s.noChrdev (-c.allocChrdevRegionErrno)
  else
    let s₁ := s.acquire .chrdevRegion
    if c.cdevAddErrno ≠ 0 then s₁.noCdev (-c.cdevAddErrno)
    else
      let s₂ := s₁.acquire .cdev
      if c.classCreateErrno ≠ 0 then s₂.noClass (-c.classCreateErrno)
      else
        let s₃ := s₂.acquire .deviceClass
        if c.deviceCreateErrno ≠ 0 then s₃.noDevice (-c.deviceCreateErrno)
        else (s₃.acquire .device, 0)

def mspInit (c : LoadCalls) (s : Load) : Load × Option ℤ :=
  match initialiseMsp c s with
  | (s', none) => (s', none)
  | (s', some ret) => if ret < 0 then (s', some ret) else (installChrdev c s').map id some

def mspExit (s : Load) : Load :=
  ((((s.release .device).release .deviceClass).release .cdev).release .chrdevRegion).uninitialiseMsp

/-! ## Runs -/

inductive Request where
  | insmod (c : LoadCalls)
  | rmmod

def insmod (c : LoadCalls) (s : Load) : Load :=
  let (s', ret) := mspInit c s
  { s' with loaded := ret = some 0, faulted := ret = none }

def step (s : Load) : Request → Load
  | .insmod c => if s.loaded = true ∨ s.faulted = true then s else insmod c s
  | .rmmod => if s.loaded = true then { s.mspExit with loaded := false } else s

def boot : Load := ⟨false, false, false, []⟩

/-! ## One load -/

theorem staged_all : Staged needs ∅ all := by decide

/-- What a load does to the resources: it takes them all, or it gives back what it has taken, or it
is refused the register. -/
inductive Outcome (s : Load) : Load × Option ℤ → Prop
  | loaded (acts : List (Act Resource)) (hacts : Custody.run needs ∅ acts = some all.toFinset) :
      Outcome s ({ s with trace := s.trace ++ acts }, some 0)
  | failed (acts : List (Act Resource)) (hacts : Custody.run needs ∅ acts = some ∅) (ret : ℤ)
      (hret : ret < 0) : Outcome s ({ s with trace := s.trace ++ acts }, some ret)
  | refused (acts : List (Act Resource)) (hacts : Custody.run needs ∅ acts = none)
      (ret : Option ℤ) : Outcome s ({ s with refused := true, trace := s.trace ++ acts }, ret)

def chrdev : List Resource := [chrdevRegion, cdev, deviceClass, device]

theorem installChrdev_cases (c : LoadCalls) (s : Load) :
    installChrdev c s = ({ s with trace := s.trace ++ chrdev.map .acquire }, 0) ∨
      ∃ k < chrdev.length, ∃ ret < 0, installChrdev c s = ({ s with
        trace := s.trace ++ ((chrdev.take k).map .acquire ++ ((chrdev.take k).reverse ++
          [iomem, memRegion, ssp]).map .release) }, ret) := by
  unfold installChrdev
  extract_lets s₁ s₂ s₃
  by_cases hregion : c.allocChrdevRegionErrno ≠ 0
  · refine .inr ⟨0, by decide, -c.allocChrdevRegionErrno, by omega, ?_⟩
    rw [if_pos hregion]
    simp only [noChrdev, uninitialiseMsp, release, List.append_assoc]
    rfl
  rw [if_neg hregion]
  by_cases hcdev : c.cdevAddErrno ≠ 0
  · refine .inr ⟨1, by decide, -c.cdevAddErrno, by omega, ?_⟩
    rw [if_pos hcdev]
    simp only [s₁, noCdev, noChrdev, uninitialiseMsp, acquire, release, List.append_assoc]
    rfl
  rw [if_neg hcdev]
  by_cases hclass : c.classCreateErrno ≠ 0
  · refine .inr ⟨2, by decide, -c.classCreateErrno, by omega, ?_⟩
    rw [if_pos hclass]
    simp only [s₁, s₂, noClass, noCdev, noChrdev, uninitialiseMsp, acquire, release,
      List.append_assoc]
    rfl
  rw [if_neg hclass]
  by_cases hdevice : c.deviceCreateErrno ≠ 0
  · refine .inr ⟨3, by decide, -c.deviceCreateErrno, by omega, ?_⟩
    rw [if_pos hdevice]
    simp only [s₁, s₂, s₃, noDevice, noClass, noCdev, noChrdev, uninitialiseMsp, acquire, release,
      List.append_assoc]
    rfl
  rw [if_neg hdevice]
  left
  simp only [s₁, s₂, s₃, acquire, List.append_assoc]
  rfl

/-- The resources of `initialise_msp` and the use of the register by `msp_reset`. -/
def mspActs : List (Act Resource) := [ssp, memRegion, iomem].map .acquire ++ [.use iomem]

/-- The use of the register does not count. -/
theorem run_mspActs (acts : List (Act Resource)) : Custody.run needs ∅ (mspActs ++ acts) =
    Custody.run needs ∅ ((all.take 3).map .acquire ++ acts) := by
  rw [mspActs, List.append_assoc]
  exact run_acquire_use (staged_all.take 3) (by decide) acts

/-- What `initialise_msp` does: it maps the register, or it gives back what it has taken, or it is
refused the register and may or may not find an error. -/
inductive Initialised (s : Load) : Load × Option ℤ → Prop
  | mapped : Initialised s ({ s with trace := s.trace ++ mspActs }, some 0)
  | failed (acts : List (Act Resource)) (hacts : Custody.run needs ∅ acts = some ∅) (ret : ℤ)
      (hret : ret < 0) : Initialised s ({ s with trace := s.trace ++ acts }, some ret)
  | refused (acts : List (Act Resource)) (hacts : Custody.run needs ∅ acts = none)
      (ret : Option ℤ) : Initialised s ({ s with refused := true, trace := s.trace ++ acts }, ret)

theorem initialiseMsp_cases (c : LoadCalls) (s : Load) : Initialised s (initialiseMsp c s) := by
  unfold initialiseMsp
  by_cases hssp : c.sspInitErrno ≠ 0
  · have hfailed := Initialised.failed (s := s) [] rfl (-(c.sspInitErrno : ℤ)) (by omega)
    rw [if_pos hssp]
    rwa [List.append_nil] at hfailed
  rw [if_neg hssp]
  cases c.requestMemRegion with
  | err errno hpos =>
      simp only [Pointer.isErr, noRegion, acquire, release, List.append_assoc]
      exact .failed _ rfl _ (by omega)
  | valid =>
      simp only [Pointer.isErr, receive, reduceCtorEq, if_false]
      cases c.ioremapNocache with
      | err errno hpos =>
          simp only [noIobase, noRegion, acquire, release, List.append_assoc]
          exact .failed _ rfl _ (by omega)
      | valid =>
          simp only [mspReset, reduceCtorEq, if_false, acquire, List.append_assoc]
          exact .mapped
      | null =>
          simp only [mspReset, if_true, acquire, List.append_assoc]
          exact .refused _ rfl none
  | null =>
      simp only [Pointer.isErr, receive, if_true]
      cases c.ioremapNocache with
      | err errno hpos =>
          simp only [noIobase, noRegion, acquire, release, List.append_assoc]
          exact .refused _ rfl _
      | valid =>
          simp only [mspReset, reduceCtorEq, if_false, acquire, List.append_assoc]
          exact .refused _ rfl (some 0)
      | null =>
          simp only [mspReset, if_true, acquire, List.append_assoc]
          exact .refused _ rfl none

theorem mspInit_of_initialised {ret : ℤ} (hinit : initialiseMsp c s = (t, some ret))
    (hret : 0 ≤ ret) : mspInit c s = (installChrdev c t).map id some := by
  rw [mspInit, hinit]
  exact if_neg (Int.not_lt.mpr hret)

theorem mspInit_of_failed {ret : ℤ} (hinit : initialiseMsp c s = (t, some ret)) (hret : ret < 0) :
    mspInit c s = (t, some ret) := by
  rw [mspInit, hinit]
  exact if_pos hret

theorem mspInit_of_faulted (hinit : initialiseMsp c s = (t, none)) : mspInit c s = (t, none) := by
  rw [mspInit, hinit]

/-- From the register on, everything is tested as it should be. -/
theorem installed_outcome (c : LoadCalls) (s : Load) : Outcome s
    ((installChrdev c { s with trace := s.trace ++ mspActs }).map id some) := by
  rcases installChrdev_cases c { s with trace := s.trace ++ mspActs } with
    h | ⟨k, hk, ret, hret, h⟩
  · rw [h]
    simp only [List.append_assoc]
    refine .loaded _ ?_
    rw [run_mspActs, ← List.map_append]
    exact (run_acquire staged_all).trans (congrArg some (Finset.empty_union _))
  · have hbounds : ∀ k < chrdev.length, all.take 3 ++ chrdev.take k = all.take (k + 3) ∧
        (chrdev.take k).reverse ++ [iomem, memRegion, ssp] = (all.take (k + 3)).reverse := by
      decide
    obtain ⟨hups, hdowns⟩ := hbounds k hk
    rw [h]
    simp only [List.append_assoc]
    refine .failed _ ?_ ret hret
    rw [run_mspActs, hdowns, ← List.append_assoc, ← List.map_append, hups]
    exact run_unwind (staged_all.take (k + 3))

/-- A load that was refused the register may go on, but what it does was out of order before. -/
theorem refused_outcome (c : LoadCalls) {acts : List (Act Resource)}
    (hacts : Custody.run needs ∅ acts = none) : Outcome s
    ((installChrdev c { s with refused := true, trace := s.trace ++ acts }).map id some) := by
  rcases installChrdev_cases c { s with refused := true, trace := s.trace ++ acts } with
    h | ⟨k, -, ret, -, h⟩
  · rw [h]
    simp only [List.append_assoc]
    exact .refused _ (run_append_of_none hacts _) _
  · rw [h]
    simp only [List.append_assoc]
    exact .refused _ (run_append_of_none hacts _) _

theorem mspInit_outcome (c : LoadCalls) (s : Load) : Outcome s (mspInit c s) := by
  generalize hinit : initialiseMsp c s = r
  have hcases : Initialised s r := hinit ▸ initialiseMsp_cases c s
  cases hcases with
  | mapped =>
      rw [mspInit_of_initialised hinit (Int.le_refl 0)]
      exact installed_outcome c s
  | failed acts hacts ret hret =>
      rw [mspInit_of_failed hinit hret]
      exact .failed acts hacts ret hret
  | refused acts hacts ret =>
      cases ret with
      | none =>
          rw [mspInit_of_faulted hinit]
          exact .refused acts hacts none
      | some ret =>
          rcases Int.lt_or_le ret 0 with hneg | hret
          · rw [mspInit_of_failed hinit hneg]
            exact .refused acts hacts (some ret)
          · rw [mspInit_of_initialised hinit hret]
            exact refused_outcome c hacts

/-! ## Every load -/

theorem mspExit_eq (s : Load) :
    s.mspExit = { s with trace := s.trace ++ all.reverse.map .release } := by
  simp only [mspExit, uninitialiseMsp, release, List.append_assoc]
  rfl

/-- What is held, for as long as the resources are taken and given back in order. -/
def held (s : Load) : Option (Finset Resource) := Custody.run needs ∅ s.trace

def expected (s : Load) : Finset Resource := if s.loaded = true then all.toFinset else ∅

theorem expected_loaded (h : s.loaded = true) : s.expected = all.toFinset := if_pos h

theorem expected_unloaded (h : s.loaded = false) : s.expected = ∅ :=
  if_neg (by rw [h]; exact Bool.false_ne_true)

def Tracked (s : Load) : Prop :=
  s.refused = false ∧ s.held = some s.expected ∨ s.refused = true ∧ s.held = none

/-- From a trace that is in order to a trace that is. -/
theorem Tracked.append (h : s.Tracked) {acts : List (Act Resource)}
    (htrace : t.trace = s.trace ++ acts) (href : t.refused = s.refused)
    (hacts : Custody.run needs s.expected acts = some t.expected) : t.Tracked := by
  rw [Tracked, held, htrace, href]
  rcases h with ⟨hfalse, hs⟩ | ⟨htrue, hs⟩
  · refine .inl ⟨hfalse, ?_⟩
    rw [run_append, show Custody.run needs ∅ s.trace = _ from hs, Option.bind_some, hacts]
  · exact .inr ⟨htrue, run_append_of_none hs acts⟩

theorem Tracked.insmod (h : s.Tracked) (hloaded : s.loaded = false) (c : LoadCalls) :
    (insmod c s).Tracked := by
  unfold Load.insmod
  generalize hinit : mspInit c s = r
  have houtcome : Outcome s r := hinit ▸ mspInit_outcome c s
  cases houtcome with
  | loaded acts hacts =>
      refine h.append rfl rfl ?_
      rw [expected_unloaded hloaded, hacts]
      rfl
  | failed acts hacts ret hret =>
      refine h.append rfl rfl ?_
      rw [expected_unloaded hloaded, hacts]
      exact congrArg some (expected_unloaded (by simp [hret.ne])).symm
  | refused acts hacts ret =>
      refine .inr ⟨rfl, ?_⟩
      rw [held]
      rcases h with ⟨-, hs⟩ | ⟨-, hs⟩
      · rw [expected_unloaded hloaded] at hs
        rw [run_append, show Custody.run needs ∅ s.trace = _ from hs, Option.bind_some, hacts]
      · exact run_append_of_none hs acts

theorem Tracked.step (h : s.Tracked) (r : Request) : (s.step r).Tracked := by
  cases r with
  | insmod c =>
      rw [Load.step]
      by_cases hbusy : s.loaded = true ∨ s.faulted = true
      · rw [if_pos hbusy]
        exact h
      · rw [if_neg hbusy]
        exact h.insmod (Bool.eq_false_iff.mpr fun hloaded ↦ hbusy (.inl hloaded)) c
  | rmmod =>
      rw [Load.step]
      by_cases hloaded : s.loaded = true
      · rw [if_pos hloaded, mspExit_eq]
        refine h.append rfl rfl ?_
        rw [expected_loaded hloaded, List.toFinset_eq_of_perm _ _ all.reverse_perm.symm,
          run_release staged_all.loose_reverse]
        rfl
      · rw [if_neg hloaded]
        exact h

theorem tracked_run (rs : List Request) : (rs.foldl step boot).Tracked := by
  induction rs using List.reverseRecOn with
  | nil => exact .inl ⟨rfl, rfl⟩
  | append_singleton rs r ih =>
      rw [List.foldl_concat]
      exact ih.step r

/-- The resources are taken, used and given back in order, and a module that is not loaded holds
nothing, as long as no load is refused the register's region or its mapping by `NULL`; from then on
they are not. -/
theorem loads_until_refused (rs : List Request) :
    let s := rs.foldl step boot
    Custody.run needs ∅ s.trace = if s.refused = true then none else
      some (if s.loaded = true then all.toFinset else ∅) := by
  intro s
  rcases tracked_run rs with ⟨hfalse, hs⟩ | ⟨htrue, hs⟩
  · rw [if_neg (by rw [hfalse]; exact Bool.false_ne_true)]
    exact hs
  · rw [if_pos htrue]
    exact hs

end Load

end Msp

end LiberaBase
