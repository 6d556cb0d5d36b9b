import LiberaBase.Msp.Firmware

/-!
# The driver against the firmware

Between two transfers the firmware has the reset byte queued.  A transfer starts a conversion, or
finds the first one still running; it polls until the probe is answered, and then reads the
sixteen bytes, each of them one exchange late.  The last request leaves the reset byte again.
-/

namespace LiberaBase

namespace Msp

variable {conv : ℕ → Conversion} {s : Firmware} {tx : U8}

namespace Firmware

/-! ## The firmware between exchanges -/

/-- A conversion that runs has exchanges left; the last completed one is in `byte_data`. -/
structure Settled (conv : ℕ → Conversion) (s : Firmware) : Prop where
  running : s.noData = true → 0 < s.pending
  completed : s.noData = false → s.shortData = (conv s.conversion).adc12mem

structure Ready (conv : ℕ → Conversion) (s : Firmware) : Prop where
  asleep : s.noData = false
  data : s.shortData = (conv s.conversion).adc12mem

/-- The exchanges until the conversion that runs completes. -/
def waiting (s : Firmware) : ℕ := if s.noData = true then s.pending else 0

theorem Ready.settled (h : Ready conv s) : Settled conv s where
  running := fun hrun ↦ by rw [h.asleep] at hrun; cases hrun
  completed := fun _ ↦ h.data

@[simp] theorem complete_u0txbuf : (complete conv s).u0txbuf = s.u0txbuf := by
  unfold complete
  split <;> rfl

@[simp] theorem complete_conversion : (complete conv s).conversion = s.conversion := by
  unfold complete
  split <;> rfl

theorem complete_settled (hdata : s.noData = false → s.shortData = (conv s.conversion).adc12mem) :
    Settled conv (complete conv s) := by
  by_cases hdone : s.noData = true ∧ s.pending = 0
  · rw [complete, if_pos hdone]
    constructor
    · intro hrun
      cases hrun
    · intro _
      rfl
  · rw [complete, if_neg hdone]
    constructor
    · intro hrun
      exact Nat.pos_of_ne_zero fun hzero ↦ hdone ⟨hrun, hzero⟩
    · exact hdata

theorem complete_waiting (hrun : s.noData = true) : (complete conv s).waiting = s.pending := by
  by_cases hzero : s.pending = 0
  · simp [complete, waiting, hrun, hzero]
  · simp [complete, waiting, hrun, hzero]

theorem start_settled (n : ℕ) : Settled conv (start conv n s) := by
  apply complete_settled
  intro hrun
  cases hrun

theorem mspReset_settled : Settled conv (s.mspReset conv) := start_settled _

@[simp] theorem mspReset_u0txbuf : (s.mspReset conv).u0txbuf = MSP_PROTO_RESET := complete_u0txbuf

/-! ## One exchange -/

variable (tx) in
theorem receive_running (h : Settled conv s) (hrun : s.noData = true) :
    Settled conv (s.receive conv tx) ∧
      (s.receive conv tx).u0txbuf = MSP_PROTO_CONV_IN_PROGRESS ∧
      (s.receive conv tx).conversion = s.conversion ∧
      (s.receive conv tx).waiting + 1 = s.waiting := by
  have heq : s.receive conv tx = complete conv
      { s with u0txbuf := MSP_PROTO_CONV_IN_PROGRESS, pending := s.pending - 1 } := by
    simp [receive, rxIsr, hrun]
  rw [heq]
  refine ⟨complete_settled h.completed, complete_u0txbuf, complete_conversion, ?_⟩
  have hpos := h.running hrun
  rw [complete_waiting (by exact hrun), waiting, if_pos hrun]
  exact Nat.succ_pred_eq_of_pos hpos

theorem receive_start (h : Settled conv s) :
    Settled conv (s.receive conv MSP_PROTO_CONV_START) ∧
      (s.receive conv MSP_PROTO_CONV_START).u0txbuf = MSP_PROTO_CONV_IN_PROGRESS ∧
      (s.receive conv MSP_PROTO_CONV_START).conversion =
        s.conversion + if s.noData = true then 0 else 1 := by
  cases hrun : s.noData with
  | true =>
      obtain ⟨hs, htx, hconv, -⟩ := receive_running MSP_PROTO_CONV_START h hrun
      exact ⟨hs, htx, hconv⟩
  | false =>
      have heq : s.receive conv MSP_PROTO_CONV_START = start conv (s.conversion + 1)
          { s with u0txbuf := MSP_PROTO_CONV_IN_PROGRESS } := by
        simp [receive, rxIsr, hrun, MSP_PROTO_CONV_START]
      rw [heq]
      exact ⟨start_settled _, complete_u0txbuf, complete_conversion⟩

/-- The answer to a byte other than the request for a conversion, when there are data. -/
def reply (shortData : Fin 8 → BitVec 16) (tx : U8) : U8 :=
  if h : tx.toNat < 16 then byteData shortData ⟨tx.toNat, h⟩ else tx + 1

theorem rxIsr_ready (hasleep : s.noData = false) (htx : tx ≠ MSP_PROTO_CONV_START) :
    rxIsr tx s = (reply s.shortData tx, false) := by
  have hne : tx ≠ 16 := htx
  rw [rxIsr, if_neg (by rw [hasleep]; exact Bool.false_ne_true), reply]
  by_cases hdata : tx.toNat < 16
  · rw [dif_pos hdata, dif_pos hdata]
  · rw [dif_neg hdata, dif_neg hdata, if_neg hne]

theorem receive_ready (hasleep : s.noData = false) (htx : tx ≠ MSP_PROTO_CONV_START) :
    s.receive conv tx = { s with
      u0txbuf := reply s.shortData tx, pending := s.pending - 1 } := by
  simp [receive, rxIsr_ready hasleep htx, complete, hasleep]

theorem Ready.receive (h : Ready conv s) (htx : tx ≠ MSP_PROTO_CONV_START) :
    Ready conv (s.receive conv tx) ∧ (s.receive conv tx).conversion = s.conversion ∧
      (s.receive conv tx).u0txbuf = reply (conv s.conversion).adc12mem tx := by
  rw [receive_ready h.asleep htx]
  exact ⟨⟨h.asleep, h.data⟩, rfl, congrArg (reply · tx) h.data⟩

end Firmware

open Firmware

/-! ## Waiting for the conversion -/

/-- While the conversion runs, and once after it, the probe is answered by 'in progress'. -/
theorem probe_busy (h : Settled conv s) (htx : s.u0txbuf = MSP_PROTO_CONV_IN_PROGRESS) {i : ℕ}
    (hi : i ≤ s.waiting) :
    Settled conv ((receive conv MSP_PROTO_CONV_TEST)^[i] s) ∧
      ((receive conv MSP_PROTO_CONV_TEST)^[i] s).u0txbuf = MSP_PROTO_CONV_IN_PROGRESS ∧
      ((receive conv MSP_PROTO_CONV_TEST)^[i] s).conversion = s.conversion ∧
      ((receive conv MSP_PROTO_CONV_TEST)^[i] s).waiting + i = s.waiting := by
  induction i with
  | zero => exact ⟨h, htx, rfl, rfl⟩
  | succ i ih =>
      obtain ⟨hs, -, hconv, hleft⟩ := ih (by omega)
      rw [Function.iterate_succ_apply']
      have hrun : ((receive conv MSP_PROTO_CONV_TEST)^[i] s).noData = true := by
        by_contra hasleep
        rw [waiting, if_neg hasleep] at hleft
        omega
      obtain ⟨hs', htx', hconv', hleft'⟩ := receive_running MSP_PROTO_CONV_TEST hs hrun
      exact ⟨hs', htx', hconv'.trans hconv, by omega⟩

/-- The loop ends, with the answer to a probe that was sent when the conversion had completed. -/
theorem await_conversion (h : Settled conv s) (htx : s.u0txbuf = MSP_PROTO_CONV_IN_PROGRESS) :
    ∃ s', Ready conv s' ∧ s'.u0txbuf = MSP_PROTO_CONV_TEST + 1 ∧ s'.conversion = s.conversion ∧
      ∀ fuel, s.waiting + 1 < fuel →
        Lagged.poll u0txbuf (receive conv) MSP_PROTO_CONV_TEST MSP_PROTO_CONV_IN_PROGRESS fuel s =
          some (MSP_PROTO_CONV_TEST + 1, s') := by
  have hbusy := fun i (hi : i ≤ s.waiting) ↦ probe_busy h htx hi
  obtain ⟨hs, -, hconv, hleft⟩ := hbusy s.waiting (Nat.le_refl _)
  have hasleep : ((receive conv MSP_PROTO_CONV_TEST)^[s.waiting] s).noData = false := by
    cases hrun : ((receive conv MSP_PROTO_CONV_TEST)^[s.waiting] s).noData with
    | false => rfl
    | true =>
        have hpos := hs.running hrun
        rw [waiting, if_pos hrun] at hleft
        omega
  have hready : Ready conv ((receive conv MSP_PROTO_CONV_TEST)^[s.waiting] s) :=
    ⟨hasleep, hs.completed hasleep⟩
  -- the probe after that is answered by the test byte, and the next one reads this answer
  have hprobe : MSP_PROTO_CONV_TEST ≠ MSP_PROTO_CONV_START := by decide
  obtain ⟨hready₁, hconv₁, htx₁⟩ := hready.receive hprobe
  obtain ⟨hready₂, hconv₂, htx₂⟩ := hready₁.receive hprobe
  refine ⟨_, hready₂, htx₂, hconv₂.trans (hconv₁.trans hconv), fun fuel hfuel ↦ ?_⟩
  have hqueued : ((receive conv MSP_PROTO_CONV_TEST)^[s.waiting + 1] s).u0txbuf =
      MSP_PROTO_CONV_TEST + 1 := by
    rw [Function.iterate_succ_apply']
    exact htx₁
  rw [Lagged.poll_eq (fun i hi ↦ (hbusy i (Nat.le_of_lt_succ hi)).2.1)
    (by rw [hqueued]; decide) hfuel, hqueued, Function.iterate_succ_apply',
    Function.iterate_succ_apply']

/-! ## Reading the data -/

def dataBytes (c : Conversion) : List U8 := List.ofFn (byteData c.adc12mem)

def readRequests : List U8 :=
  (List.range 15).map (fun j ↦ BitVec.ofNat 8 (j + 1)) ++ [MSP_PROTO_RESET - 1]

theorem readRequests_ne : ∀ tx ∈ readRequests, tx ≠ MSP_PROTO_CONV_START := by
  decide

theorem readRequests_reply (shortData : Fin 8 → BitVec 16) :
    byteData shortData 0 :: readRequests.map (reply shortData) =
      List.ofFn (byteData shortData) ++ [MSP_PROTO_RESET] := by
  rfl

theorem readData_eq (h : Ready conv s)
    (htx : s.u0txbuf = byteData (conv s.conversion).adc12mem 0) :
    ∃ s', readData conv s = (dataBytes (conv s.conversion), s') ∧ Ready conv s' ∧
      s'.conversion = s.conversion ∧ s'.u0txbuf = MSP_PROTO_RESET := by
  have hstep : ∀ t, ∀ tx ∈ readRequests, Ready conv t ∧ t.conversion = s.conversion →
      (Ready conv (t.receive conv tx) ∧ (t.receive conv tx).conversion = s.conversion) ∧
        (t.receive conv tx).u0txbuf = reply (conv s.conversion).adc12mem tx := by
    rintro t tx htx ⟨ht, hconv⟩
    obtain ⟨ht', hconv', htx'⟩ := ht.receive (readRequests_ne tx htx)
    exact ⟨⟨ht', hconv'.trans hconv⟩, hconv ▸ htx'⟩
  have hlate := Lagged.exchanges_late hstep ⟨h, rfl⟩
  obtain ⟨replies, s', hread⟩ : ∃ replies s', Lagged.exchanges u0txbuf (Firmware.receive conv)
      readRequests s = (replies, s') := ⟨_, _, rfl⟩
  rw [hread] at hlate
  obtain ⟨⟨hready, hconv⟩, hlate⟩ := hlate
  rw [htx, readRequests_reply] at hlate
  obtain ⟨rfl, hreset⟩ := List.append_inj' hlate rfl
  exact ⟨s', hread, hready, hconv, List.head_eq_of_cons_eq hreset⟩

/-! ## Transfers -/

/-- A transfer that finds the reset byte delivers the conversion that was running, or else the
next one, and leaves the reset byte. -/
theorem mspTransfer_eq (h : Settled conv s) (htx : s.u0txbuf = MSP_PROTO_RESET) :
    ∃ s' bound, Ready conv s' ∧ s'.u0txbuf = MSP_PROTO_RESET ∧
      s'.conversion = s.conversion + (if s.noData = true then 0 else 1) ∧
      ∀ fuel, bound < fuel →
        mspTransfer conv fuel s = some (.ok (dataBytes (conv s'.conversion)), s') := by
  obtain ⟨hstart, hbusy, hconv⟩ := receive_start h
  obtain ⟨s₁, hready₁, htx₁, hconv₁, hpoll⟩ := await_conversion hstart hbusy
  have hzero : (0 : U8) ≠ MSP_PROTO_CONV_START := by decide
  obtain ⟨hready₂, hconv₂, htx₂⟩ := hready₁.receive hzero
  rw [← hconv₂] at htx₂
  obtain ⟨s', hread, hready', hconv', hreset⟩ := readData_eq hready₂ htx₂
  refine ⟨s', (s.receive conv MSP_PROTO_CONV_START).waiting + 1, hready', hreset, ?_,
    fun fuel hfuel ↦ ?_⟩
  · rw [hconv', hconv₂, hconv₁, hconv]
  · have hcheck : ∀ (rx : U8) t, checkProtocol conv rx rx t = (0, t) := fun rx t ↦ if_pos rfl
    rw [hconv']
    simp only [mspTransfer, sspExchange, Lagged.exchange, htx, hcheck, hpoll fuel hfuel, htx₁,
      hread, Int.lt_irrefl, if_false, Option.map_some]

/-- What a call of `msp_transfer` returns, and how it leaves the firmware. -/
structure Delivered (conv : ℕ → Conversion) (call : Except ℤ (List U8) × Firmware) : Prop where
  rxBuf : call.1 = .ok (List.ofFn (byteData call.2.shortData))
  completed : call.2.noData = false ∧ call.2.shortData = (conv call.2.conversion).adc12mem
  reset : call.2.u0txbuf = MSP_PROTO_RESET

theorem mspTransfers_eq (h : Settled conv s) (htx : s.u0txbuf = MSP_PROTO_RESET) (n : ℕ) :
    ∃ calls bound, (∀ call ∈ calls, Delivered conv call) ∧
      calls.map (·.2.conversion) =
        List.range' (s.conversion + if s.noData = true then 0 else 1) n ∧
      ∀ fuel, bound < fuel → mspTransfers conv fuel n s = some calls := by
  induction n generalizing s with
  | zero => exact ⟨[], 0, by simp, rfl, fun _ _ ↦ rfl⟩
  | succ n ih =>
      obtain ⟨s', bound, hready, hreset, hconv, heq⟩ := mspTransfer_eq h htx
      obtain ⟨calls, bound', hcalls, hconvs, heq'⟩ := ih hready.settled hreset
      refine ⟨(.ok (dataBytes (conv s'.conversion)), s') :: calls, max bound bound', ?_, ?_, ?_⟩
      · intro call hcall
        rcases List.mem_cons.mp hcall with rfl | hcall
        · exact ⟨by rw [hready.data, dataBytes], ⟨hready.asleep, hready.data⟩, hreset⟩
        · exact hcalls call hcall
      · simp [hconvs, hready.asleep, hconv, List.range'_succ]
      · intro fuel hfuel
        obtain ⟨hfuel₁, hfuel₂⟩ := Nat.max_lt.mp hfuel
        simp [mspTransfers, heq fuel hfuel₁, heq' fuel hfuel₂]

/-- After a reset every number of transfers succeeds, each with a conversion of its own. -/
theorem transfers_delivered (conv : ℕ → Conversion) (s : Firmware) (n : ℕ) :
    ∃ calls bound, calls.length = n ∧ (∀ call ∈ calls, Delivered conv call) ∧
      (calls.map (·.2.conversion)).Pairwise (· < ·) ∧
      ∀ fuel, bound < fuel → mspTransfers conv fuel n (s.mspReset conv) = some calls := by
  obtain ⟨calls, bound, hcalls, hconvs, heq⟩ :=
    mspTransfers_eq (s := s.mspReset conv) mspReset_settled mspReset_u0txbuf n
  refine ⟨calls, bound, ?_, hcalls, ?_, heq⟩
  · have hlength := congrArg List.length hconvs
    simpa using hlength
  · rw [hconvs]
    exact List.pairwise_lt_range'

end Msp

end LiberaBase
