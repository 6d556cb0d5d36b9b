import LiberaBase.Sa.Pipe
import LiberaBase.Access.FifoReads

/-!
# The atoms of a reader

A reader opens a pipe, the tasklet offers every atom to it, and the reader takes them out.  What
the reader has been given and what waits in its pipe are the atoms that were read from the FPGA
since it opened the pipe, in order, less those that found the pipe full or whose copy failed.
The device has an event for the former, but it is never sent.
-/

namespace LiberaBase.Sa

open Runs

variable {α : Type*}

/-- The history of the reader of a pipe: the rounds before it opened the pipe, what it was offered
since, what was copied to its buffers, and how many atoms it lost to a pipe that was full or to a
failed copy. -/
structure Reader (α : Type*) where
  opened : ℕ
  offered : List α
  got : List α
  lost : ℕ

structure Stream (α : Type*) where
  tasklet : Tasklet α
  reader : ℕ → Reader α

inductive StreamStep (α : Type*) where
  /-- `libera_sa_handler` -/
  | interrupt (first : α) (rest : List α) (inovr : Bool)
  /-- The kernel calls the scheduled tasklet. -/
  | start
  | run
  /-- `libera_sa_open` registers a pipe in a free slot -/
  | openPipe (k : ℕ) (q : SaFifo α)
  /-- `libera_sa_release` -/
  | closePipe (k : ℕ)
  /-- `libera_sa_read` -/
  | read (k : ℕ) (call : SaReadCall)

namespace Stream

variable {s t : Stream α} {l : StreamStep α} {k : ℕ} {q q' : SaFifo α} {xs : List α}

def setPipe (s : Stream α) (k : ℕ) (pipe : Option (SaFifo α)) : Tasklet α :=
  { s.tasklet with dev := { s.tasklet.dev with
    saPipe := Function.update s.tasklet.dev.saPipe k pipe } }

/-- A round offers the atom at the tail to the pipe, and the atom is lost if the pipe is full. -/
def offer (s : Stream α) (k : ℕ) : Reader α :=
  match s.tasklet.dev.saPipe k with
  | none => s.reader k
  | some q =>
    { s.reader k with
      offered := (s.reader k).offered ++ [s.tasklet.dev.buf s.tasklet.dev.bufTail]
      lost := (s.reader k).lost + if lenSaFIFO q = saLog - 1 then 1 else 0 }

/-- A read copies atoms; those it removed and did not copy are lost. -/
def taken (s : Stream α) (k : ℕ) (q : SaFifo α) (buf : List α) (q' : SaFifo α) : Reader α :=
  { s.reader k with
    got := (s.reader k).got ++ buf
    lost := (s.reader k).lost + ((lenSaFIFO q).toNat - (lenSaFIFO q').toNat - buf.length) }

def runTasklet (s : Stream α) (t : Tasklet α) : Stream α :=
  match s.tasklet.pc with
  | .dispatch k =>
    { tasklet := t
      reader := if k < liberaSaMaxReaders then Function.update s.reader k (s.offer k)
        else s.reader }
  | _ => { s with tasklet := t }

def step (s : Stream α) : StreamStep α → Option (Stream α)
  | .interrupt first rest inovr =>
    some { s with tasklet := s.tasklet.liberaSaHandler first rest inovr }
  | .start => (s.tasklet.step .start).map fun t ↦ { s with tasklet := t }
  | .run => s.tasklet.doTasklet.map s.runTasklet
  | .openPipe k q =>
    if k < liberaSaMaxReaders ∧ s.tasklet.dev.saPipe k = none then
      some {
        tasklet := s.setPipe k (some (flushSaFIFO q))
        reader := Function.update s.reader k ⟨(s.tasklet.sent k).length, [], [], 0⟩ }
    else none
  | .closePipe k => some { s with tasklet := s.setPipe k none }
  | .read k call =>
    match s.tasklet.dev.saPipe k with
    | none => none
    | some q =>
      (liberaSaRead q call).map fun (_, buf, q') ↦
        { tasklet := s.setPipe k (some q')
          reader := Function.update s.reader k (s.taken k q buf q') }

def boot (buf : ℤ → α) : Stream α := ⟨.boot buf, fun _ ↦ ⟨0, [], [], 0⟩⟩

/-- The ring does not overflow, and the tasklet finds atoms in it whenever it is called. -/
def Fed (s : Stream α) : StreamStep α → Prop
  | .interrupt first rest inovr => s.tasklet.Fed (.interrupt first rest inovr)
  | .start => s.tasklet.Fed .start
  | _ => True

/-! ## What a read takes -/

/-- What is removed is copied or lost, the rest stays. -/
theorem readLoop_parts {N : ℤ} (size : ℕ) (copyOk : ℕ → Bool) (h : q.Represents N xs) (n i : ℕ) :
    ∃ lost rest, xs = (readLoop N size copyOk n i q).2.1 ++ lost ++ rest ∧
      (readLoop N size copyOk n i q).2.2.Represents N rest := by
  induction n generalizing i q xs with
  | zero => exact ⟨[], xs, rfl, h⟩
  | succ n ih =>
      cases xs with
      | nil =>
          rw [readLoop, h.pop_nil]
          exact ⟨[], [], rfl, h⟩
      | cons x xs =>
          obtain ⟨q₁, hpop, hq₁, -, hx⟩ := h.pop_cons
          rw [readLoop, hpop]
          dsimp only
          split_ifs with hcopy
          · exact ⟨[x], xs, rfl, hq₁⟩
          · obtain ⟨lost, rest, hparts, hrest⟩ := ih hq₁ (i + 1)
            refine ⟨lost, rest, ?_, hrest⟩
            rw [hx, List.cons_append, List.cons_append, ← hparts]

theorem liberaSaRead_parts {call : SaReadCall} {ret : ℤ} {buf : List α}
    (h : q.Represents saLog xs) (hread : liberaSaRead q call = some (ret, buf, q')) :
    ∃ lost rest, xs = buf ++ lost ++ rest ∧ q'.Represents saLog rest := by
  have hnothing : ∃ lost rest, xs = [] ++ lost ++ rest ∧ q.Represents saLog rest :=
    ⟨[], xs, rfl, h⟩
  unfold liberaSaRead at hread
  split_ifs at hread
  iterate 6
    · simp only [Option.some.injEq, Prod.mk.injEq] at hread
      obtain ⟨-, rfl, rfl⟩ := hread
      exact hnothing
  · obtain ⟨lost, rest, hparts, hrest⟩ := readLoop_parts saSize call.copyOk h
      (min (call.count / saSize) (lenSaFIFO q).toNat) 0
    have hret := Option.some.inj hread
    rw [hret] at hparts hrest
    exact ⟨lost, rest, hparts, hrest⟩

/-! ## The invariant -/

/-- What is known of the reader of pipe `k` while the pipe holds `xs`. -/
structure Follows (s : Stream α) (k : ℕ) (xs : List α) : Prop where
  sent : (s.tasklet.sent k).drop (s.reader k).opened = (s.reader k).offered.map some
  opened : (s.reader k).opened ≤ (s.tasklet.sent k).length
  inOrder : ((s.reader k).got ++ xs).Sublist (s.reader k).offered
  count : (s.reader k).offered.length = ((s.reader k).got ++ xs).length + (s.reader k).lost

structure Inv (s : Stream α) : Prop where
  tasklet : s.tasklet.Inv
  silent : (liberaEventOverflow, liberaOverflowSaDrv) ∉ s.tasklet.events
  pipes : ∀ k q, s.tasklet.dev.saPipe k = some q →
    k < liberaSaMaxReaders ∧ ∃ xs, q.Represents saLog xs ∧ s.Follows k xs

theorem Follows.frame {t : Stream α} (h : s.Follows k xs)
    (hsent : t.tasklet.sent k = s.tasklet.sent k) (hreader : t.reader k = s.reader k) :
    t.Follows k xs := by
  obtain ⟨h1, h2, h3, h4⟩ := h
  exact ⟨by rw [hsent, hreader]; exact h1, by rw [hsent, hreader]; exact h2,
    by rw [hreader]; exact h3, by rw [hreader]; exact h4⟩

/-- A single atom is stored or dropped, and the write never fails. -/
theorem liberaPipeWrite_one (h : q.Represents saLog xs) (a : α) :
    (liberaPipeWrite q [a]).1.Represents saLog (xs ++ [a].take (63 - xs.length)) ∧
      (liberaPipeWrite q [a]).2 ≠ -EFAULT := by
  obtain ⟨hloop, hret⟩ := pipeWriteLoop_represents h 0 [a]
  have hlen : lenSaFIFO q = xs.length := h.len_eq
  have hlt : (xs.length : ℤ) < 64 := h.length_lt
  have hroom : ¬freeSaFIFO q < ([a].length : ℤ) := by
    have hlog : saLog = 64 := rfl
    rw [freeSaFIFO, hlen, List.length_singleton]
    omega
  rw [liberaPipeWrite, if_neg (List.cons_ne_nil a []), if_neg hroom]
  refine ⟨hloop, fun hfault ↦ ?_⟩
  rw [hret, zero_add] at hfault
  have hnonneg : (0 : ℤ) ≤ (([a].take (63 - xs.length)).length : ℤ) * sizeofAtomSa :=
    Int.mul_nonneg (Int.natCast_nonneg _) (by decide)
  rw [hfault] at hnonneg
  exact absurd hnonneg (by decide)

theorem foldl_storeAtom_saPipe (dev : SaDevice α) (atoms : List α) :
    (atoms.foldl storeAtom dev).saPipe = dev.saPipe := by
  induction atoms generalizing dev with
  | nil => rfl
  | cons a atoms ih => exact (ih (storeAtom dev a)).trans rfl

theorem offer_some (hq : s.tasklet.dev.saPipe k = some q) :
    s.offer k = { s.reader k with
      offered := (s.reader k).offered ++ [s.tasklet.dev.buf s.tasklet.dev.bufTail]
      lost := (s.reader k).lost + if lenSaFIFO q = saLog - 1 then 1 else 0 } := by
  rw [offer, hq]

/-- The reader of the pipe that is offered an atom. -/
theorem Follows.offer {t : Stream α} (h : s.Follows k xs) (hq : s.tasklet.dev.saPipe k = some q)
    (hxs : q.Represents saLog xs)
    (hsent : t.tasklet.sent k =
      s.tasklet.sent k ++ [some (s.tasklet.dev.buf s.tasklet.dev.bufTail)])
    (hreader : t.reader k = s.offer k) :
    t.Follows k (xs ++ [s.tasklet.dev.buf s.tasklet.dev.bufTail].take (63 - xs.length)) := by
  have hlen : lenSaFIFO q = xs.length := hxs.len_eq
  have hlog : saLog = 64 := rfl
  have hlt : (xs.length : ℤ) < 64 := hxs.length_lt
  rw [offer_some hq] at hreader
  refine ⟨?_, ?_, ?_, ?_⟩
  · rw [hsent, hreader, List.drop_append_of_le_length h.opened, h.sent, List.map_append,
      List.map_singleton]
  · rw [hsent, hreader, List.length_append]
    exact Nat.le_add_right_of_le h.opened
  · rw [hreader]
    change ((s.reader k).got ++ _).Sublist ((s.reader k).offered ++ _)
    rw [← List.append_assoc]
    exact h.inOrder.append (List.take_sublist _ _)
  · rw [hreader]
    change ((s.reader k).offered ++ _).length = ((s.reader k).got ++ _).length + (_ + _)
    have hcount := h.count
    simp only [List.length_append, List.length_take, List.length_singleton, hlen] at hcount ⊢
    split_ifs with hfull <;> omega

theorem Inv.interrupt (h : s.Inv) {first : α} {rest : List α} {inovr : Bool}
    (hok : s.Fed (.interrupt first rest inovr)) :
    Inv { s with tasklet := s.tasklet.liberaSaHandler first rest inovr } where
  tasklet := h.tasklet.interrupt first rest inovr hok.1
  silent := h.silent
  pipes := fun k q hq ↦ by
    have hsame : (s.tasklet.liberaSaHandler first rest inovr).dev.saPipe = s.tasklet.dev.saPipe :=
      foldl_storeAtom_saPipe _ (first :: rest)
    obtain ⟨hk, xs, hxs, hfollows⟩ := h.pipes k q ((congrFun hsame k).symm.trans hq)
    exact ⟨hk, xs, hxs, hfollows.frame rfl rfl⟩

/-- A step of the tasklet outside its loop over the pipes. -/
theorem Inv.frame {t : Tasklet α} (h : s.Inv) (htasklet : t.Inv)
    (hevents : (liberaEventOverflow, liberaOverflowSaDrv) ∉ t.events)
    (hpipe : t.dev.saPipe = s.tasklet.dev.saPipe) (hsent : t.sent = s.tasklet.sent) :
    Inv { s with tasklet := t } where
  tasklet := htasklet
  silent := hevents
  pipes := fun k q hq ↦ by
    obtain ⟨hk, xs, hxs, hfollows⟩ := h.pipes k q (by rw [← hpipe]; exact hq)
    exact ⟨hk, xs, hxs, hfollows.frame (congrFun hsent k) rfl⟩

theorem Inv.dispatch (h : s.Inv) (hpc : s.tasklet.pc = .dispatch k) (hk : k < liberaSaMaxReaders) :
    Inv ⟨s.tasklet.dispatchTo k, Function.update s.reader k (s.offer k)⟩ := by
  have htasklet := h.tasklet.dispatchTo hpc hk
  cases hq : s.tasklet.dev.saPipe k with
  | none =>
      have hstep : s.tasklet.dispatchTo k = { s.tasklet with
          pc := .dispatch (k + 1)
          sent := Function.update s.tasklet.sent k (s.tasklet.sent k ++ [none]) } := by
        rw [Tasklet.dispatchTo, hq]
      rw [hstep] at htasklet ⊢
      refine ⟨htasklet, h.silent, fun j q hj ↦ ?_⟩
      obtain ⟨hj16, xs, hxs, hfollows⟩ := h.pipes j q hj
      have hne : j ≠ k := by
        rintro rfl
        rw [hq] at hj
        cases hj
      exact ⟨hj16, xs, hxs, hfollows.frame (Function.update_of_ne hne _ _)
        (Function.update_of_ne hne _ _)⟩
  | some q =>
      obtain ⟨-, xs, hxs, hfollows⟩ := h.pipes k q hq
      obtain ⟨hrep, hret⟩ := liberaPipeWrite_one hxs (s.tasklet.dev.buf s.tasklet.dev.bufTail)
      obtain ⟨q₁, ret, hwrite⟩ :
          ∃ q₁ ret, liberaPipeWrite q [s.tasklet.dev.buf s.tasklet.dev.bufTail] = (q₁, ret) :=
        ⟨_, _, rfl⟩
      rw [hwrite] at hrep hret
      have hstep : s.tasklet.dispatchTo k = { s.tasklet with
          dev := { s.tasklet.dev with
            saPipe := Function.update s.tasklet.dev.saPipe k (some q₁) }
          pc := .dispatch (k + 1)
          sent := Function.update s.tasklet.sent k
            (s.tasklet.sent k ++ [some (s.tasklet.dev.buf s.tasklet.dev.bufTail)]) } := by
        rw [Tasklet.dispatchTo, hq]
        simp only [hwrite, if_neg hret]
      rw [hstep] at htasklet ⊢
      refine ⟨htasklet, h.silent, fun j p hj ↦ ?_⟩
      by_cases hne : j = k
      · subst hne
        obtain rfl : q₁ = p := Option.some.inj
          ((Function.update_self j (some q₁) s.tasklet.dev.saPipe).symm.trans hj)
        exact ⟨hk, _, hrep, hfollows.offer hq hxs (Function.update_self ..)
          (Function.update_self ..)⟩
      · obtain ⟨hj16, ys, hys, hothers⟩ := h.pipes j p
          ((Function.update_of_ne hne _ _).symm.trans hj)
        exact ⟨hj16, ys, hys, hothers.frame (Function.update_of_ne hne _ _)
          (Function.update_of_ne hne _ _)⟩

theorem Inv.run {u : Tasklet α} (h : s.Inv) (hrun : s.tasklet.doTasklet = some u) :
    (s.runTasklet u).Inv := by
  have htasklet := h.tasklet.run hrun
  unfold runTasklet
  cases hpc : s.tasklet.pc with
  | idle => simp [Tasklet.doTasklet, hpc] at hrun
  | overrunCheck =>
      simp only [Tasklet.doTasklet, hpc] at hrun
      split_ifs at hrun <;> obtain rfl := Option.some.inj hrun
      · refine h.frame htasklet ?_ rfl rfl
        rw [List.mem_append, List.mem_singleton]
        exact fun hmem ↦ hmem.elim h.silent (by decide)
      · exact h.frame htasklet h.silent rfl rfl
  | dispatch k =>
      simp only [Tasklet.doTasklet, hpc] at hrun ⊢
      split_ifs at hrun ⊢ with hk <;> obtain rfl := Option.some.inj hrun
      · exact h.dispatch hpc hk
      · exact h.frame htasklet h.silent rfl rfl
  | sendEvent =>
      simp only [Tasklet.doTasklet, hpc] at hrun
      obtain rfl := Option.some.inj hrun
      refine h.frame htasklet ?_ rfl rfl
      rw [List.mem_append, List.mem_singleton]
      exact fun hmem ↦ hmem.elim h.silent (by decide)
  | incrTail | loopTest =>
      simp only [Tasklet.doTasklet, hpc] at hrun
      obtain rfl := Option.some.inj hrun
      exact h.frame htasklet h.silent rfl rfl

/-- The reader that is given `buf` and loses `lost`. -/
theorem Follows.taken {buf lost rest : List α} (h : s.Follows k (buf ++ lost ++ rest))
    (hq : q.Represents saLog (buf ++ lost ++ rest)) (hq' : q'.Represents saLog rest) :
    Follows ⟨s.setPipe k (some q'), Function.update s.reader k (s.taken k q buf q')⟩ k rest := by
  have hlost : (lenSaFIFO q).toNat - (lenSaFIFO q').toNat - buf.length = lost.length := by
    rw [lenSaFIFO, lenSaFIFO, hq.len_eq, hq'.len_eq, Int.toNat_natCast, Int.toNat_natCast,
      List.length_append, List.length_append]
    omega
  have hreader : (⟨s.setPipe k (some q'), Function.update s.reader k (s.taken k q buf q')⟩ :
      Stream α).reader k = s.taken k q buf q' := Function.update_self ..
  refine ⟨?_, ?_, ?_, ?_⟩
  all_goals rw [hreader]
  · exact h.sent
  · exact h.opened
  · change ((s.reader k).got ++ buf ++ rest).Sublist (s.reader k).offered
    refine List.Sublist.trans ?_ h.inOrder
    rw [List.append_assoc, List.append_assoc]
    exact (List.Sublist.refl _).append
      ((List.Sublist.refl _).append (List.sublist_append_right _ _))
  · change (s.reader k).offered.length = ((s.reader k).got ++ buf ++ rest).length +
      ((s.reader k).lost + ((lenSaFIFO q).toNat - (lenSaFIFO q').toNat - buf.length))
    rw [hlost, h.count]
    simp only [List.length_append]
    omega

/-- A reader opens, closes or reads its pipe. -/
theorem Inv.setPipe (h : s.Inv) (pipe : Option (SaFifo α)) (reader : Reader α)
    (hpipe : ∀ q, pipe = some q → k < liberaSaMaxReaders ∧ ∃ xs, q.Represents saLog xs ∧
      Follows ⟨s.setPipe k pipe, Function.update s.reader k reader⟩ k xs) :
    Inv ⟨s.setPipe k pipe, Function.update s.reader k reader⟩ where
  tasklet := h.tasklet.step (l := .reader k pipe) ⟨trivial, trivial⟩ rfl
  silent := h.silent
  pipes := fun j p (hj : Function.update s.tasklet.dev.saPipe k pipe j = some p) ↦ by
    by_cases hne : j = k
    · subst hne
      rw [Function.update_self] at hj
      exact hpipe p hj
    · rw [Function.update_of_ne hne] at hj
      obtain ⟨hj16, ys, hys, hothers⟩ := h.pipes j p hj
      exact ⟨hj16, ys, hys, hothers.frame rfl (Function.update_of_ne hne _ _)⟩

theorem Inv.step (h : s.Inv) (hok : s.Fed l) (hstep : s.step l = some t) : t.Inv := by
  cases l with
  | interrupt first rest inovr =>
      obtain rfl := Option.some.inj hstep
      exact h.interrupt hok
  | start =>
      obtain ⟨u, hu, rfl⟩ := Option.map_eq_some_iff.mp hstep
      have htasklet := h.tasklet.step hok hu
      simp only [Tasklet.step] at hu
      split_ifs at hu
      obtain rfl := Option.some.inj hu
      exact h.frame htasklet h.silent rfl rfl
  | run =>
      obtain ⟨u, hu, rfl⟩ := Option.map_eq_some_iff.mp hstep
      exact h.run hu
  | openPipe k q =>
      simp only [Stream.step] at hstep
      split_ifs at hstep with hfree
      obtain rfl := Option.some.inj hstep
      refine h.setPipe _ _ fun p hp ↦ ?_
      obtain rfl := Option.some.inj hp
      refine ⟨hfree.1, [], .flush (by decide) q, ?_, ?_, ?_, ?_⟩
      all_goals simp [Stream.setPipe]
  | closePipe k =>
      obtain rfl := Option.some.inj hstep
      have hclosed := h.setPipe (k := k) none (s.reader k) (by rintro p ⟨⟩)
      rwa [Function.update_eq_self] at hclosed
  | read k call =>
      cases hq : s.tasklet.dev.saPipe k with
      | none => simp [Stream.step, hq] at hstep
      | some q =>
          simp only [Stream.step, hq] at hstep
          obtain ⟨⟨ret, buf, q'⟩, hread, rfl⟩ := Option.map_eq_some_iff.mp hstep
          obtain ⟨hk, xs, hxs, hfollows⟩ := h.pipes k q hq
          obtain ⟨lost, rest, rfl, hrest⟩ := liberaSaRead_parts hxs hread
          refine h.setPipe _ _ fun p hp ↦ ?_
          obtain rfl := Option.some.inj hp
          refine ⟨hk, rest, hrest, hfollows.taken hxs hrest⟩

theorem Inv.boot (buf : ℤ → α) : (boot buf).Inv where
  tasklet := .boot buf
  silent := List.not_mem_nil
  pipes := nofun

/-- What was offered since the pipe was opened is what was read since. -/
theorem Follows.offered_prefix (h : s.Follows k xs)
    (horder : Tasklet.InOrder (s.tasklet.sent k) s.tasklet.read) :
    (s.reader k).offered <+: s.tasklet.read.drop (s.reader k).opened := by
  obtain ⟨dispatched, hprefix, hsent⟩ := horder
  have hdrop := List.forall₂_drop (s.reader k).opened hsent
  rw [h.sent, List.forall₂_map_left_iff] at hdrop
  have hsame : (s.reader k).offered = dispatched.drop (s.reader k).opened := by
    rw [← List.forall₂_eq_eq_eq]
    exact hdrop.imp fun a b hab ↦ hab a rfl
  obtain ⟨more, hmore⟩ := hprefix
  rw [hsame, ← hmore, List.drop_append_of_le_length (hsent.length_eq ▸ h.opened)]
  exact List.prefix_append _ _

/-- **A reader is given the atoms in order.**  As long as the ring does not overflow and the tasklet
is not called with an empty one, what was copied to a reader and what waits in its pipe are, in
order, atoms that had been read and not dispatched when it opened the pipe or were read since, all
of them in a row if it lost none, neither to a failed copy nor to a pipe that was full; and no
overflow of a pipe is ever reported. -/
theorem reader_in_order {buf : ℤ → α} {ls : List (StreamStep α)}
    (hrun : Steps step Fed (boot buf) ls s) :
    (∀ k q, s.tasklet.dev.saPipe k = some q →
      ((s.reader k).got ++ q.contents saLog).Sublist (s.tasklet.read.drop (s.reader k).opened) ∧
      ((s.reader k).lost = 0 →
        (s.reader k).got ++ q.contents saLog <+: s.tasklet.read.drop (s.reader k).opened)) ∧
      (liberaEventOverflow, liberaOverflowSaDrv) ∉ s.tasklet.events := by
  have hinv : s.Inv := hrun.invariant (fun _ _ _ h hok hstep ↦ h.step hok hstep) (.boot buf)
  refine ⟨fun k q hq ↦ ?_, hinv.silent⟩
  obtain ⟨hk, xs, hxs, hfollows⟩ := hinv.pipes k q hq
  have hprefix := hfollows.offered_prefix (hinv.tasklet.inOrder k hk)
  rw [hxs.contents_eq]
  refine ⟨hfollows.inOrder.trans hprefix.sublist, fun hnone ↦ ?_⟩
  have hall := hfollows.inOrder.eq_of_length (by rw [hfollows.count, hnone, Nat.add_zero])
  rw [hall]
  exact hprefix

instance (s : Stream α) : (l : StreamStep α) → Decidable (s.Fed l)
  | .interrupt first rest inovr =>
    inferInstanceAs (Decidable (s.tasklet.Fed (.interrupt first rest inovr)))
  | .start => inferInstanceAs (Decidable (s.tasklet.Fed .start))
  | .run | .openPipe _ _ | .closePipe _ | .read _ _ => isTrue trivial

/-- A run of the tasklet that dispatches `n` atoms. -/
def drainRing (n : ℕ) : List (StreamStep α) := .start :: List.replicate (20 * n + 1) .run

def readAtoms (n : ℕ) (copyOk : ℕ → Bool) : SaReadCall :=
  ⟨false, n * saSize, false, true, false, copyOk⟩

/-- The first reader loses an atom to a failed copy, the second opens later and loses none. -/
theorem reader_in_order_two : ∃ s : Stream ℕ,
    ((∀ k q, s.tasklet.dev.saPipe k = some q →
      ((s.reader k).got ++ q.contents saLog).Sublist (s.tasklet.read.drop (s.reader k).opened) ∧
      ((s.reader k).lost = 0 →
        (s.reader k).got ++ q.contents saLog <+: s.tasklet.read.drop (s.reader k).opened)) ∧
      (liberaEventOverflow, liberaOverflowSaDrv) ∉ s.tasklet.events) ∧
    (s.reader 0).got = [7, 9] ∧ (s.reader 0).lost = 1 ∧
      (s.reader 1).got = [9] ∧ (s.reader 1).lost = 0 :=
  ⟨_, reader_in_order (exec_get_steps step Fed (boot fun _ ↦ 0)
    ([.openPipe 0 ⟨fun _ ↦ 0, 5, 7⟩, .interrupt 7 [8] false] ++ drainRing 2 ++
      [.openPipe 1 ⟨fun _ ↦ 0, 0, 0⟩, .read 0 (readAtoms 2 (· == 0)), .interrupt 9 [] false] ++
      drainRing 1 ++
      [.read 0 (readAtoms 3 fun _ ↦ true), .read 1 (readAtoms 1 fun _ ↦ true)])
    (by decide +kernel)), by decide +kernel⟩

end Stream

end LiberaBase.Sa
