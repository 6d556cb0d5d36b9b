import LiberaBase.Access.Devices
import LiberaBase.Access.UserCopy

/-!
# The session of the writer

Events are for the one descriptor that is open for writing: it sets the mask that an event has to
pass, and the fifo is emptied when it is opened, when it asks for it, and when it is closed.  The
history of the event device says which events a session may find in the fifo.
-/

namespace LiberaBase

open Runs

def eventSize : ℕ := 8

/-- A `read` of the event device: `interrupted` is a signal at the device mutex, `signal` one while
it sleeps, and `copyOk i` says whether `copy_to_user` copies the event `i`. -/
structure EventReadCall where
  count : ℕ
  nonblock : Bool
  interrupted : Bool
  signal : Bool
  copyOk : ℕ → Bool

/-- The loop of `libera_event_read`: the result, the events in the buffer of the user, the fifo. -/
def eventReadLoop (copyOk : ℕ → Bool) :
    ℕ → ℕ → LiberaEventFifo → ℤ × List LiberaEvent × LiberaEventFifo
  | 0, i, q => (i * eventSize, [], q)
  | n + 1, i, q =>
    match q.pop trigLog with
    | none => (- EFAULT, [], q)
    | some (q', slot) =>
      if copyOk i = false then (- EFAULT, [], q')
      else
        let (ret, buf, q'') := eventReadLoop copyOk n (i + 1) q'
        (ret, q'.data slot :: buf, q'')

namespace EventAccess

def setEvents (s : EventAccess) (q : LiberaEventFifo) : EventAccess :=
  { s with drv := { s.drv with event := { s.drv.event with events := q } } }

/-- `libera_event_read`; `none` sleeps until there is an event. -/
def liberaEventRead (s : EventAccess) (call : EventReadCall) :
    Option (ℤ × List LiberaEvent × EventAccess) :=
  let q := s.drv.event.events
  if call.interrupted = true then some (-ERESTARTSYS, [], s)
  else if call.nonblock = true ∧ q.isEmpty = true then some (- EAGAIN, [], s)
  else if call.count = 0 then some (0, [], s)
  else if call.count % eventSize ≠ 0 then some (- EINVAL, [], s)
  else if q.isEmpty = true then
    if call.signal = true then some (-ERESTARTSYS, [], s) else none
  else
    let eventCount := min (call.count / eventSize) (q.len trigLog).toNat
    let (ret, buf, q') := eventReadLoop call.copyOk eventCount 0 q
    some (ret, buf, s.setEvents q')

/-- `LIBERA_EVENT_SET_MASK`, from `libera_event_ioctl` on. -/
def setMask (s : EventAccess) (file : File) (accessOk : Bool) (mask : UserCopy U32) :
    ℤ × EventAccess :=
  if accessOk = false then (- EFAULT, s)
  else if s.common.masterFilp ≠ some file.filp then (- EPERM, s)
  else (mask.left,
    { s with drv := { s.drv with lgbl := { s.drv.lgbl with eventMask := mask.value } } })

def eventFlush (s : EventAccess) (file : File) (accessOk : Bool) : ℤ × EventAccess :=
  if accessOk = false then (- EFAULT, s)
  else if s.common.masterFilp ≠ some file.filp then (- EPERM, s)
  else (0, s.flushEvents)

/-- `libera_send_event`, with what it returns: 0 also if the fifo is full. -/
def sendEvent (s : EventAccess) (id param : U32) : ℤ × EventAccess :=
  (if id &&& s.drv.lgbl.eventMask = 0 then - EINVAL else 0,
    { s with drv := s.drv.liberaSendEvent id param })

/-- It is the request `SET_MASK` among those that copy from the user. -/
theorem setMask_ioctl (s : EventAccess) (file : File) (accessOk : Bool) (mask : UserCopy U32)
    (u : UserDevices) : ({ u with drv := s.drv, event := s.common } : UserDevices).liberaEventIoctl
      file accessOk (.setMask mask) = ((s.setMask file accessOk mask).1,
        { u with drv := (s.setMask file accessOk mask).2.drv, event := s.common }) := by
  obtain ⟨htype, hdir⟩ := UserDevices.eventRequest_cmd (.setMask mask)
  rw [UserDevices.liberaEventIoctl, if_neg (not_not.mpr htype), setMask]
  cases accessOk with
  | false => rw [if_pos ⟨hdir, rfl⟩, if_pos rfl]
  | true =>
      rw [if_neg (by simp), if_neg (by simp), UserDevices.liberaEventCmd]
      split_ifs <;> rfl

end EventAccess

/-! ## What the requests do to the fifo -/

theorem eventReadLoop_represents (copyOk : ℕ → Bool) {n i : ℕ} {q : LiberaEventFifo}
    {xs : List LiberaEvent} (h : q.Represents trigLog xs) :
    ∃ ys, ys.Sublist xs ∧ (eventReadLoop copyOk n i q).2.2.Represents trigLog ys := by
  induction n generalizing i q xs with
  | zero => exact ⟨xs, .refl xs, h⟩
  | succ n ih =>
      rw [eventReadLoop]
      cases xs with
      | nil =>
          rw [h.pop_nil]
          exact ⟨[], .refl [], h⟩
      | cons x xs =>
          obtain ⟨q', hpop, hq', -, -⟩ := h.pop_cons
          rw [hpop]
          dsimp only
          split_ifs
          · exact ⟨xs, List.sublist_cons_self x xs, hq'⟩
          · obtain ⟨ys, hsub, hys⟩ := ih (i := i + 1) hq'
            exact ⟨ys, hsub.cons x, hys⟩

namespace EventAccess

variable {s s' : EventAccess} {file : File} {xs : List LiberaEvent}

theorem liberaEventRead_represents {call : EventReadCall} {ret : ℤ} {buf : List LiberaEvent}
    (h : s.drv.event.events.Represents trigLog xs)
    (hread : s.liberaEventRead call = some (ret, buf, s')) :
    ∃ q ys, s' = s.setEvents q ∧ ys.Sublist xs ∧ q.Represents trigLog ys := by
  have hsame : some (ret, buf, s) = some (ret, buf, s') →
      ∃ q ys, s' = s.setEvents q ∧ ys.Sublist xs ∧ q.Represents trigLog ys := by
    intro heq
    simp only [Option.some.injEq, Prod.mk.injEq, true_and] at heq
    exact ⟨s.drv.event.events, xs, heq.symm, .refl xs, h⟩
  unfold liberaEventRead at hread
  extract_lets q eventCount at hread
  split_ifs at hread
  all_goals
    simp only [Option.some.injEq, Prod.mk.injEq] at hread
    obtain ⟨rfl, rfl, heq⟩ := hread
  · exact hsame (by rw [heq])
  · exact hsame (by rw [heq])
  · exact hsame (by rw [heq])
  · exact hsame (by rw [heq])
  · exact hsame (by rw [heq])
  · obtain ⟨ys, hsub, hys⟩ := eventReadLoop_represents call.copyOk (n := eventCount) (i := 0) h
    exact ⟨_, ys, heq.symm, hsub, hys⟩

theorem sendEvent_blocked {id : U32} (hblocked : id &&& s.drv.lgbl.eventMask = 0) (param : U32) :
    s.sendEvent id param = (- EINVAL, s) := by
  rw [sendEvent, Driver.liberaSendEvent, if_pos hblocked, if_pos hblocked]

/-- An event that passes the mask is queued behind the others, or dropped if the fifo is full. -/
theorem sendEvent_passes {id : U32} (hpasses : id &&& s.drv.lgbl.eventMask ≠ 0) (param : U32)
    (h : s.drv.event.events.Represents trigLog xs) :
    ∃ q ys, (s.sendEvent id param).2 = s.setEvents q ∧ ys.Sublist (xs ++ [⟨id, param⟩]) ∧
      q.Represents trigLog ys := by
  rw [sendEvent, Driver.liberaSendEvent, if_neg hpasses, if_neg hpasses]
  cases hput : putToEventFIFO s.drv.event.events ⟨id, param⟩ with
  | none => exact ⟨s.drv.event.events, xs, rfl, List.sublist_append_left xs _, h⟩
  | some q =>
      have hroom : (xs.length : ℤ) < trigLog - 1 := by
        by_contra hfull
        have hlen := h.length_lt
        rw [putToEventFIFO, h.push_full (by omega)] at hput
        cases hput
      obtain ⟨q', hpush, hq', -, -⟩ := h.push_some (x := ⟨id, param⟩) hroom
      obtain rfl := Option.some.inj (hput.symm.trans hpush)
      exact ⟨q, _, rfl, .refl _, hq'⟩

theorem setMask_cases (s : EventAccess) (file : File) (accessOk : Bool) (mask : UserCopy U32) :
    (∃ err, err < 0 ∧ s.setMask file accessOk mask = (err, s)) ∨
      s.common.masterFilp = some file.filp ∧ s.setMask file accessOk mask = ((mask.left : ℤ),
        { s with drv := { s.drv with lgbl := { s.drv.lgbl with eventMask := mask.value } } }) := by
  unfold setMask
  split_ifs with haccess hmaster
  · exact .inl ⟨- EFAULT, by decide, rfl⟩
  · exact .inl ⟨- EPERM, by decide, rfl⟩
  · exact .inr ⟨not_not.mp hmaster, rfl⟩

theorem eventFlush_cases (s : EventAccess) (file : File) (accessOk : Bool) :
    (∃ err, err < 0 ∧ s.eventFlush file accessOk = (err, s)) ∨
      s.common.masterFilp = some file.filp ∧
        s.eventFlush file accessOk = (0, s.flushEvents) := by
  unfold eventFlush
  split_ifs with haccess hmaster
  · exact .inl ⟨- EFAULT, by decide, rfl⟩
  · exact .inl ⟨- EPERM, by decide, rfl⟩
  · exact .inr ⟨not_not.mp hmaster, rfl⟩

/-- An `open` that is granted to a writer empties the fifo; any other one leaves it alone. -/
theorem liberaEventOpen_cases (s : EventAccess) (file : File) (kmallocOk : Bool) :
    (s.liberaEventOpen file kmallocOk).2.drv = s.drv ∧
        (s.liberaEventOpen file kmallocOk).2.common.masterFilp = s.common.masterFilp ∧
        ((s.liberaEventOpen file kmallocOk).1 = 0 → file.mode.write = false) ∨
      (s.liberaEventOpen file kmallocOk).1 = 0 ∧ file.mode.write = true ∧
        s.common.masterFilp = none ∧
        (s.liberaEventOpen file kmallocOk).2.common.masterFilp = some file.filp ∧
        (s.liberaEventOpen file kmallocOk).2.drv = s.flushEvents.drv := by
  cases kmallocOk with
  | false =>
      refine .inl ⟨rfl, rfl, fun hret ↦ ?_⟩
      exact absurd hret (by decide : ¬- ENOMEM = 0)
  | true =>
      obtain ⟨drv, ⟨count, writers, readers, master⟩, trigVec, locals⟩ := s
      cases hw : file.mode.write with
      | false =>
          left
          cases hr : file.mode.read <;>
            simp [liberaEventOpen, CommonDev.openMaster, setLocal, hw, hr]
      | true =>
          cases master with
          | none =>
              right
              cases hr : file.mode.read <;>
                simp [liberaEventOpen, CommonDev.openMaster, setLocal, flushEvents, hw, hr]
          | some p =>
              left
              simp [liberaEventOpen, CommonDev.openMaster, setLocal, hw, EBUSY]

/-- The release of a writer clears the mask and the fifo; any other one leaves them alone. -/
theorem liberaEventRelease_cases (s : EventAccess) (file : File) :
    (s.liberaEventRelease file).drv.lgbl.eventMask =
        (if file.mode.write = true ∧ (s.common.releaseMaster file).writers = 0 then 0
          else s.drv.lgbl.eventMask) ∧
      (s.liberaEventRelease file).drv.event.events =
        (if file.mode.write = true ∧ (s.common.releaseMaster file).writers = 0 then
          s.drv.event.events.flush else s.drv.event.events) := by
  unfold liberaEventRelease
  dsimp only
  split_ifs <;> simp_all [writel, setLocal, flushEvents, Driver.writel]

end EventAccess

/-! ## Histories and sessions -/

/-- What happens on the event device, requests that are refused left out. -/
inductive SessionEntry where
  | opened (file : File)
  | released (file : File)
  | setMask (file : File) (mask : U32)
  | flushed (file : File)
  | sent (le : LiberaEvent)

/-- What a writer is to find: the mask it has set, and the events that were sent through it since
it flushed the fifo last. -/
structure Session where
  mask : U32
  events : List LiberaEvent

namespace Session

variable {f : File} {e : SessionEntry} {history h : List SessionEntry} {le : LiberaEvent}

def next (f : File) (s : Session) : SessionEntry → Session
  | .setMask g mask => if g = f then { s with mask := mask } else s
  | .flushed _ => { s with events := [] }
  | .sent le => if le.id &&& s.mask = 0 then s else { s with events := s.events ++ [le] }
  | .opened _ => s
  | .released _ => s

theorem next_blocked (f : File) {s : Session} (le : LiberaEvent) (hblocked : le.id &&& s.mask = 0) :
    s.next f (.sent le) = s :=
  if_pos hblocked

theorem next_passes (f : File) {s : Session} (le : LiberaEvent) (hpasses : le.id &&& s.mask ≠ 0) :
    s.next f (.sent le) = ⟨s.mask, s.events ++ [le]⟩ :=
  if_neg hpasses

/-- The session of `f`, from what has happened since it was opened. -/
def of (f : File) (h : List SessionEntry) : Session := h.foldl (next f) ⟨0, []⟩

theorem of_append (f : File) (h : List SessionEntry) (e : SessionEntry) :
    of f (h ++ [e]) = (of f h).next f e := by
  rw [of, List.foldl_append]
  rfl

/-- The writer `f` was opened for the last time, by any writer, before `h`. -/
def Since (f : File) (history h : List SessionEntry) : Prop :=
  (∃ before, history = before ++ .opened f :: h) ∧
    ∀ g, g.mode.write = true → .opened g ∉ h

theorem Since.append (hsince : Since f history h)
    (he : ∀ g, e = .opened g → g.mode.write = false) : Since f (history ++ [e]) (h ++ [e]) := by
  obtain ⟨⟨before, rfl⟩, hnone⟩ := hsince
  refine ⟨⟨before, by simp⟩, fun g hg hmem ↦ ?_⟩
  rcases List.mem_append.mp hmem with hmem | hmem
  · exact hnone g hg hmem
  · simp [he g (List.mem_singleton.mp hmem).symm] at hg

/-- `le` was sent after `f` had set a mask that it passes, and the fifo has not been flushed
since. -/
def Granted (f : File) (h : List SessionEntry) (le : LiberaEvent) : Prop :=
  ∃ before mask between after, h = before ++ .setMask f mask :: between ++ .sent le :: after ∧
    (∀ mask', .setMask f mask' ∉ between) ∧ (∀ g, .flushed g ∉ after) ∧ le.id &&& mask ≠ 0

theorem Granted.append (hgranted : Granted f h le) (he : ∀ g, e ≠ .flushed g) :
    Granted f (h ++ [e]) le := by
  obtain ⟨before, mask, between, after, rfl, hlast, hflush, hpass⟩ := hgranted
  refine ⟨before, mask, between, after ++ [e], by simp, hlast, fun g hmem ↦ ?_, hpass⟩
  rcases List.mem_append.mp hmem with hmem | hmem
  · exact hflush g hmem
  · exact he g (List.mem_singleton.mp hmem).symm

theorem mask_of (f : File) (h : List SessionEntry) : (of f h).mask = 0 ∨
    ∃ before between, h = before ++ .setMask f (of f h).mask :: between ∧
      ∀ mask, .setMask f mask ∉ between := by
  induction h using List.reverseRecOn with
  | nil => exact .inl rfl
  | append_singleton h e ih =>
      have hsame (hmask : (of f (h ++ [e])).mask = (of f h).mask)
          (he : ∀ mask, e ≠ .setMask f mask) : (of f (h ++ [e])).mask = 0 ∨
            ∃ before between, h ++ [e] = before ++ .setMask f (of f (h ++ [e])).mask :: between ∧
              ∀ mask, .setMask f mask ∉ between := by
        rw [hmask]
        refine ih.imp_right ?_
        rintro ⟨before, between, hh, hlast⟩
        refine ⟨before, between ++ [e], ?_, fun mask hmem ↦ ?_⟩
        · rw [← List.cons_append, ← List.append_assoc, ← hh]
        · rcases List.mem_append.mp hmem with hmem | hmem
          · exact hlast mask hmem
          · exact he mask (List.mem_singleton.mp hmem).symm
      cases e with
      | setMask g mask =>
          by_cases hg : g = f
          · subst hg
            right
            refine ⟨h, [], ?_, fun _ hmem ↦ absurd hmem List.not_mem_nil⟩
            rw [of_append, next, if_pos rfl]
          · refine hsame ?_ fun mask' heq ↦ hg (SessionEntry.setMask.inj heq).1
            rw [of_append, next, if_neg hg]
      | opened g => exact hsame (by rw [of_append]; rfl) nofun
      | released g => exact hsame (by rw [of_append]; rfl) nofun
      | flushed g => exact hsame (by rw [of_append]; rfl) nofun
      | sent le =>
          refine hsame ?_ nofun
          rw [of_append, next]
          split_ifs <;> rfl

theorem granted_of_mem (h : List SessionEntry) (hmem : le ∈ (of f h).events) :
    Granted f h le := by
  induction h using List.reverseRecOn with
  | nil => exact absurd hmem List.not_mem_nil
  | append_singleton h e ih =>
      rw [of_append] at hmem
      cases e with
      | setMask g mask =>
          refine Granted.append (ih ?_) nofun
          rw [next] at hmem
          split_ifs at hmem <;> exact hmem
      | opened g => exact (ih hmem).append nofun
      | released g => exact (ih hmem).append nofun
      | flushed g => exact absurd hmem List.not_mem_nil
      | sent le' =>
          rw [next] at hmem
          split_ifs at hmem with hblocked
          · exact (ih hmem).append nofun
          · rcases List.mem_append.mp hmem with hmem | hmem
            · exact (ih hmem).append nofun
            · obtain rfl := List.mem_singleton.mp hmem
              rcases mask_of f h with hzero | ⟨before, between, hh, hlast⟩
              · exact absurd (by rw [hzero]; exact BitVec.and_zero) hblocked
              · refine ⟨before, _, between, [], ?_, hlast, fun _ ↦ List.not_mem_nil, hblocked⟩
                rw [← hh]

end Session

/-! ## Runs -/

inductive SessionOp where
  | open (file : File) (kmallocOk : Bool)
  | release (file : File)
  | setMask (file : File) (accessOk : Bool) (mask : UserCopy U32)
  | flush (file : File) (accessOk : Bool)
  | read (file : File) (call : EventReadCall)
  | send (id param : U32)

/-- The event device, and what has happened on it since the driver was loaded. -/
structure EventSession where
  event : EventFiles
  history : List SessionEntry

namespace EventSession

open EventAccess Session

variable {s s' : EventSession} {file : File} {xs : List LiberaEvent}

/-- As `libera_init` leaves the event device: the events and the mask are cleared. -/
def start (drv : Driver) : EventSession :=
  ⟨.boot { drv with
    event := { drv.event with events := ⟨fun _ ↦ ⟨0, 0⟩, 0, 0⟩ }
    lgbl := { drv.lgbl with eventMask := 0 } }, []⟩

def mask (s : EventSession) : U32 := s.event.acc.drv.lgbl.eventMask

def fifo (s : EventSession) : LiberaEventFifo := s.event.acc.drv.event.events

def queued (s : EventSession) : List LiberaEvent := s.fifo.contents trigLog

def note (s : EventSession) (acc : EventAccess) (entries : List SessionEntry) : EventSession :=
  ⟨{ s.event with acc := acc }, s.history ++ entries⟩

def step (s : EventSession) : SessionOp → Option EventSession
  | .open file kmallocOk =>
    (s.event.step (.open file kmallocOk)).map fun event ↦
      ⟨event, s.history ++
        if (s.event.acc.liberaEventOpen file kmallocOk).1 = 0 then [.opened file] else []⟩
  | .release file =>
    (s.event.step (.release file)).map fun event ↦ ⟨event, s.history ++ [.released file]⟩
  | .setMask file accessOk mask =>
    if file ∈ s.event.files then
      let (ret, acc) := s.event.acc.setMask file accessOk mask
      some (s.note acc (if 0 ≤ ret then [.setMask file mask.value] else []))
    else none
  | .flush file accessOk =>
    if file ∈ s.event.files then
      let (ret, acc) := s.event.acc.eventFlush file accessOk
      some (s.note acc (if ret = 0 then [.flushed file] else []))
    else none
  | .read file call =>
    if file ∈ s.event.files ∧ file.mode.read = true then
      (s.event.acc.liberaEventRead call).map fun r ↦ s.note r.2.2 []
    else none
  | .send id param => some (s.note (s.event.acc.sendEvent id param).2 [.sent ⟨id, param⟩])

/-- Without a writer no event passes and none is queued, and the events in the fifo are those of
the session of the writer. -/
structure Confined (s : EventSession) : Prop where
  idle : (∀ f ∈ s.event.files, f.mode.write = false) →
    s.mask = 0 ∧ s.fifo.isEmpty = true ∧ s.queued = [] ∧
      ∀ id param, s.event.acc.sendEvent id param = (- EINVAL, s.event.acc)
  session : ∀ f ∈ s.event.files, f.mode.write = true →
    ∃ h, Since f s.history h ∧ s.queued.Sublist (Session.of f h).events
  sent : ∀ le ∈ s.queued, ∃ f ∈ s.event.files, f.mode.write = true ∧
    ∃ h, Since f s.history h ∧ Granted f h le

/-! ## The invariant -/

structure Inv (s : EventSession) (xs : List LiberaEvent) : Prop where
  counted : WriterDevices.Counted s.event.acc.common s.event.files
  represents : s.fifo.Represents trigLog xs
  idle : s.event.acc.common.masterFilp = none → s.mask = 0 ∧ xs = []
  session : ∀ f ∈ s.event.files, f.mode.write = true → ∃ h, Since f s.history h ∧
    s.mask = (Session.of f h).mask ∧ xs.Sublist (Session.of f h).events

theorem trigEnable_events (acc : EventAccess) (c : Clock) (mask : U32) :
    (acc.trigEnable c mask).2.drv.event = acc.drv.event ∧
      (acc.trigEnable c mask).2.drv.lgbl = acc.drv.lgbl := by
  unfold trigEnable
  split_ifs <;> exact ⟨rfl, rfl⟩

theorem start_inv (drv : Driver) : Inv (start drv) [] where
  counted := (WriterDevices.Inv.boot _).event
  represents := by
    have hfifo : (start drv).fifo = RingFifo.flush ⟨fun _ ↦ ⟨0, 0⟩, 0, 0⟩ := by
      rw [fifo, start, EventFiles.boot, (trigEnable_events _ _ _).1, (trigEnable_events _ _ _).1]
      rfl
    rw [hfifo]
    exact .flush (by decide) _
  idle _ := by
    rw [mask, start, EventFiles.boot, (trigEnable_events _ _ _).2, (trigEnable_events _ _ _).2]
    exact ⟨rfl, rfl⟩
  session f hf := absurd hf List.not_mem_nil

namespace Inv

theorem no_master (h : Inv s xs) (hnone : ∀ f ∈ s.event.files, f.mode.write = false) :
    s.event.acc.common.masterFilp = none := by
  cases hmaster : s.event.acc.common.masterFilp with
  | none => rfl
  | some p =>
      obtain ⟨f, hf, hw, -⟩ := (h.counted.writer.master p).mp hmaster
      rw [hnone f hf] at hw
      cases hw

theorem eq_writer (h : Inv s xs) {f : File} (hf : f ∈ s.event.files) (hw : f.mode.write = true)
    (hfile : file ∈ s.event.files)
    (hmaster : s.event.acc.common.masterFilp = some file.filp) : file = f := by
  obtain ⟨g, hg, hgw, hp⟩ := (h.counted.writer.master file.filp).mp hmaster
  have hgf := h.counted.writer.unique h.counted.distinct hg hf hgw hw
  exact (h.counted.distinct.eq hfile hg hp.symm).trans hgf

theorem confined (h : Inv s xs) : s.Confined := by
  have hqueued : s.queued = xs := h.represents.contents_eq
  constructor
  · intro hnone
    obtain ⟨hmask, hnil⟩ := h.idle (h.no_master hnone)
    refine ⟨hmask, h.represents.isEmpty_iff.mpr hnil, hqueued.trans hnil, fun id param ↦ ?_⟩
    have hblocked : id &&& s.event.acc.drv.lgbl.eventMask = 0 :=
      (congrArg (id &&& ·) hmask).trans BitVec.and_zero
    exact sendEvent_blocked hblocked param
  · intro f hf hw
    obtain ⟨hist, hsince, -, hsub⟩ := h.session f hf hw
    exact ⟨hist, hsince, hqueued ▸ hsub⟩
  · intro le hle
    rw [hqueued] at hle
    cases hmaster : s.event.acc.common.masterFilp with
    | none =>
        rw [(h.idle hmaster).2] at hle
        exact absurd hle List.not_mem_nil
    | some p =>
        obtain ⟨f, hf, hw, -⟩ := (h.counted.writer.master p).mp hmaster
        obtain ⟨hist, hsince, -, hsub⟩ := h.session f hf hw
        exact ⟨f, hf, hw, hist, hsince, granted_of_mem hist (hsub.subset hle)⟩

/-- A request that is not an `open` or a `release` keeps the descriptors; what it does to the
mask and the fifo it does to the session. -/
theorem note (h : Inv s xs) {acc : EventAccess} {e : SessionEntry} {ys : List LiberaEvent}
    (hcommon : acc.common = s.event.acc.common) (he : ∀ g, e = .opened g → g.mode.write = false)
    (hys : acc.drv.event.events.Represents trigLog ys)
    (hidle : s.event.acc.common.masterFilp = none → acc.drv.lgbl.eventMask = 0 ∧ ys = [])
    (hsession : ∀ f ∈ s.event.files, f.mode.write = true → ∀ session : Session,
      s.mask = session.mask → xs.Sublist session.events →
        acc.drv.lgbl.eventMask = (session.next f e).mask ∧
          ys.Sublist (session.next f e).events) : Inv (s.note acc [e]) ys where
  counted := hcommon.symm ▸ h.counted
  represents := hys
  idle hmaster := hidle (hcommon ▸ hmaster)
  session f hf hw := by
    obtain ⟨hist, hsince, hmask, hsub⟩ := h.session f hf hw
    refine ⟨hist ++ [e], hsince.append he, ?_⟩
    rw [of_append]
    exact hsession f hf hw _ hmask hsub

theorem note_nil (h : Inv s xs) {acc : EventAccess} {ys : List LiberaEvent}
    (hcommon : acc.common = s.event.acc.common)
    (hmask : acc.drv.lgbl.eventMask = s.event.acc.drv.lgbl.eventMask)
    (hys : acc.drv.event.events.Represents trigLog ys) (hsub : ys.Sublist xs) :
    Inv (s.note acc []) ys where
  counted := hcommon.symm ▸ h.counted
  represents := hys
  idle hmaster := by
    obtain ⟨hzero, hnil⟩ := h.idle (hcommon ▸ hmaster)
    exact ⟨hmask.trans hzero, List.sublist_nil.mp (hnil ▸ hsub)⟩
  session f hf hw := by
    obtain ⟨hist, hsince, hmask', hsub'⟩ := h.session f hf hw
    rw [EventSession.note, List.append_nil]
    exact ⟨hist, hsince, hmask.trans hmask', hsub.trans hsub'⟩

theorem refused (h : Inv s xs) : Inv (s.note s.event.acc []) xs :=
  h.note_nil rfl rfl h.represents (.refl xs)

theorem setMask (h : Inv s xs) {accessOk : Bool} {mask : UserCopy U32}
    (hstep : s.step (.setMask file accessOk mask) = some s') : Inv s' xs := by
  rw [EventSession.step] at hstep
  split_ifs at hstep with hfile
  rcases s.event.acc.setMask_cases file accessOk mask with ⟨err, herr, heq⟩ | ⟨hmaster, heq⟩
  · simp only [heq, if_neg (not_le.mpr herr)] at hstep
    obtain rfl := Option.some.inj hstep
    exact h.refused
  · simp only [heq, if_pos (Int.natCast_nonneg mask.left)] at hstep
    obtain rfl := Option.some.inj hstep
    refine h.note rfl nofun h.represents (fun hnone ↦ ?_) fun f hf hw session hmask hsub ↦ ?_
    · rw [hnone] at hmaster
      cases hmaster
    · rw [next, if_pos (h.eq_writer hf hw hfile hmaster)]
      exact ⟨rfl, hsub⟩

theorem flush (h : Inv s xs) {accessOk : Bool}
    (hstep : s.step (.flush file accessOk) = some s') : ∃ ys, Inv s' ys := by
  rw [EventSession.step] at hstep
  split_ifs at hstep with hfile
  rcases s.event.acc.eventFlush_cases file accessOk with ⟨err, herr, heq⟩ | ⟨hmaster, heq⟩
  · simp only [heq, if_neg herr.ne] at hstep
    obtain rfl := Option.some.inj hstep
    exact ⟨xs, h.refused⟩
  · simp only [heq, if_true] at hstep
    obtain rfl := Option.some.inj hstep
    refine ⟨[], h.note rfl nofun (.flush (show 0 < trigLog by decide) _) (fun hnone ↦ ?_) ?_⟩
    · rw [hnone] at hmaster
      cases hmaster
    · exact fun f hf hw session hmask hsub ↦ ⟨hmask, .refl []⟩

theorem send (h : Inv s xs) (id param : U32) :
    ∃ ys, Inv (s.note (s.event.acc.sendEvent id param).2 [.sent ⟨id, param⟩]) ys := by
  obtain hblocked | hpasses := Decidable.em (id &&& s.event.acc.drv.lgbl.eventMask = 0)
  · rw [sendEvent_blocked hblocked]
    refine ⟨xs, h.note rfl nofun h.represents h.idle fun f _ _ session hmask hsub ↦ ?_⟩
    have hsession : id &&& session.mask = 0 := hmask ▸ hblocked
    rw [next_blocked f ⟨id, param⟩ hsession]
    exact ⟨hmask, hsub⟩
  · obtain ⟨q, ys, heq, hys, hq⟩ := sendEvent_passes hpasses param h.represents
    rw [heq]
    refine ⟨ys, h.note rfl nofun hq (fun hnone ↦ ?_) fun f _ _ session hmask hsub ↦ ?_⟩
    · have hzero : s.event.acc.drv.lgbl.eventMask = 0 := (h.idle hnone).1
      rw [hzero] at hpasses
      exact absurd BitVec.and_zero hpasses
    · have hsession : id &&& session.mask ≠ 0 := hmask ▸ hpasses
      rw [next_passes f ⟨id, param⟩ hsession]
      exact ⟨hmask, hys.trans (hsub.append (.refl _))⟩

theorem addReader (h : Inv s xs) {event : EventFiles} {entries : List SessionEntry}
    (hcounted : WriterDevices.Counted event.acc.common event.files)
    (hdrv : event.acc.drv = s.event.acc.drv)
    (hmaster : event.acc.common.masterFilp = s.event.acc.common.masterFilp)
    (hfiles : ∀ f ∈ event.files, f.mode.write = true → f ∈ s.event.files)
    (hentries : entries = [] ∨ ∃ g, entries = [.opened g] ∧ g.mode.write = false) :
    Inv ⟨event, s.history ++ entries⟩ xs where
  counted := hcounted
  represents := by
    rw [fifo, hdrv]
    exact h.represents
  idle hnone := by
    rw [mask, hdrv]
    exact h.idle (hmaster ▸ hnone)
  session f hf hw := by
    obtain ⟨hist, hsince, hmask, hsub⟩ := h.session f (hfiles f hf hw) hw
    rw [mask, hdrv]
    rcases hentries with rfl | ⟨g, rfl, hg⟩
    · rw [List.append_nil]
      exact ⟨hist, hsince, hmask, hsub⟩
    · refine ⟨hist ++ [.opened g], hsince.append fun g' heq ↦ ?_, ?_⟩
      · rwa [← SessionEntry.opened.inj heq]
      · rw [of_append]
        exact ⟨hmask, hsub⟩

theorem openFile (h : Inv s xs) {kmallocOk : Bool}
    (hstep : s.step (.open file kmallocOk) = some s') : ∃ ys, Inv s' ys := by
  obtain ⟨event, hevent, rfl⟩ := Option.map_eq_some_iff.mp hstep
  have hcounted := WriterDevices.counted_event h.counted hevent
  simp only [EventFiles.step] at hevent
  split_ifs at hevent with hfresh hret
  · obtain rfl := Option.some.inj hevent
    rw [if_pos hret]
    rcases s.event.acc.liberaEventOpen_cases file kmallocOk with
      ⟨hdrv, hmaster, hreader⟩ | ⟨-, hw, hnone, -, hdrv⟩
    · refine ⟨xs, h.addReader hcounted hdrv hmaster ?_ (.inr ⟨file, rfl, hreader hret⟩)⟩
      intro f hf hfw
      rcases List.mem_cons.mp hf with rfl | hf
      · simp [hreader hret] at hfw
      · exact hf
    · -- the first writer: the mask is clear since the last one was closed
      obtain ⟨hmask, -⟩ := h.idle hnone
      have hmask' : (s.event.acc.liberaEventOpen file kmallocOk).2.drv.lgbl.eventMask = 0 := by
        rw [hdrv]
        exact hmask
      refine ⟨[], hcounted, ?_, fun _ ↦ ⟨hmask', rfl⟩, fun f hf hfw ↦ ?_⟩
      · rw [fifo, hdrv]
        exact .flush (by decide) _
      · have hfile : f = file := hcounted.writer.unique hcounted.distinct hf
          List.mem_cons_self hfw hw
        subst hfile
        exact ⟨[], ⟨⟨s.history, rfl⟩, fun _ _ ↦ List.not_mem_nil⟩, hmask', .refl []⟩
  · obtain rfl := Option.some.inj hevent
    rw [if_neg hret]
    rcases s.event.acc.liberaEventOpen_cases file kmallocOk with
      ⟨hdrv, hmaster, -⟩ | ⟨hzero, -⟩
    · exact ⟨xs, h.addReader hcounted hdrv hmaster (fun _ hf _ ↦ hf) (.inl rfl)⟩
    · exact absurd hzero hret

theorem releaseFile (h : Inv s xs) (hstep : s.step (.release file) = some s') :
    ∃ ys, Inv s' ys := by
  obtain ⟨event, hevent, rfl⟩ := Option.map_eq_some_iff.mp hstep
  have hcounted := WriterDevices.counted_event h.counted hevent
  simp only [EventFiles.step] at hevent
  split_ifs at hevent with hmem
  obtain rfl := Option.some.inj hevent
  obtain ⟨hmask, hevents⟩ := s.event.acc.liberaEventRelease_cases file
  cases hw : file.mode.write with
  | false =>
      rw [if_neg (by simp [hw])] at hmask hevents
      have hmaster : (s.event.acc.common.releaseMaster file).masterFilp =
          s.event.acc.common.masterFilp := by
        cases hr : file.mode.read <;> simp [CommonDev.releaseMaster, hw, hr]
      refine ⟨xs, hcounted, ?_, fun hnone ↦ ?_, fun f hf hfw ↦ ?_⟩
      · rw [fifo, hevents]
        exact h.represents
      · rw [mask, hmask]
        rw [WriterDevices.liberaEventRelease_common, hmaster] at hnone
        exact h.idle hnone
      · obtain ⟨hist, hsince, hmask', hsub⟩ := h.session f (List.mem_of_mem_erase hf) hfw
        refine ⟨hist ++ [.released file], hsince.append (fun _ heq ↦ by cases heq), ?_⟩
        rw [of_append, mask, hmask]
        exact ⟨hmask', hsub⟩
  | true =>
      obtain ⟨hone, -⟩ := h.counted.writer.closeWriter h.counted.distinct hmem hw
      have hlast : (s.event.acc.common.releaseMaster file).writers = 0 := by
        cases hr : file.mode.read <;> simp [CommonDev.releaseMaster, hw, hr, hone]
      rw [if_pos ⟨hw, hlast⟩] at hmask hevents
      refine ⟨[], hcounted, ?_, fun _ ↦ ⟨hmask, rfl⟩, fun f hf hfw ↦ ?_⟩
      · rw [fifo, hevents]
        exact .flush (by decide) _
      · obtain ⟨hne, hf⟩ := h.counted.distinct.nodup.mem_erase_iff.mp hf
        exact absurd (h.counted.writer.unique h.counted.distinct hf hmem hfw hw) hne

theorem step (h : Inv s xs) {op : SessionOp} (hstep : s.step op = some s') :
    ∃ ys, Inv s' ys := by
  cases op with
  | «open» file kmallocOk => exact h.openFile hstep
  | release file => exact h.releaseFile hstep
  | setMask file accessOk mask => exact ⟨xs, h.setMask hstep⟩
  | flush file accessOk => exact h.flush hstep
  | read file call =>
      rw [EventSession.step] at hstep
      split_ifs at hstep
      obtain ⟨⟨ret, buf, acc⟩, hread, rfl⟩ := Option.map_eq_some_iff.mp hstep
      obtain ⟨q, ys, rfl, hsub, hq⟩ := liberaEventRead_represents h.represents hread
      exact ⟨ys, h.note_nil rfl rfl hq hsub⟩
  | send id param =>
      obtain rfl := Option.some.inj hstep
      exact h.send id param

end Inv

/-- After every sequence of requests, whoever makes them and whether they are granted. -/
theorem events_confined {drv : Driver} {ops : List SessionOp}
    (hrun : Steps EventSession.step anyStep (start drv) ops s) : s.Confined := by
  have hinv : ∃ xs, Inv s xs := by
    refine hrun.invariant (P := fun s ↦ ∃ xs, Inv s xs) ?_ ⟨[], start_inv drv⟩
    rintro s l s' ⟨xs, hs⟩ - hstep
    exact hs.step hstep
  obtain ⟨xs, hs⟩ := hinv
  exact hs.confined

/-- The second writer finds neither the mask nor the event of the first one. -/
theorem events_confined_two_writers : ∃ s : EventSession, s.Confined ∧
    s.queued = [⟨2, 9⟩] ∧ s.event.files = [⟨2, ⟨true, true⟩⟩] :=
  ⟨_, events_confined (exec_get_steps EventSession.step anyStep (start EventFiles.clear)
    [.open ⟨1, ⟨true, true⟩⟩ true, .setMask ⟨1, ⟨true, true⟩⟩ true ⟨0, 6⟩, .send 4 7,
      .release ⟨1, ⟨true, true⟩⟩, .send 4 8, .open ⟨2, ⟨true, true⟩⟩ true, .send 2 8,
      .setMask ⟨2, ⟨true, true⟩⟩ true ⟨0, 2⟩, .send 4 9, .send 2 9] (by decide +kernel)),
    by decide +kernel, by decide +kernel⟩

end EventSession

end LiberaBase
