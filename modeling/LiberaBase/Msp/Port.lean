import LiberaBase.Msp.Transfer

/-!
# Replies that come too late

What the serial port receives waits in a fifo until it is read.  `ssp_exchange` gives up when the
fifo is still empty after the delay; the reply comes all the same, and then every exchange reads the
reply to the one before.
-/

namespace LiberaBase

namespace Msp

open Firmware

def EBADE : ℤ := 52

/-- The firmware and the receive fifo of the serial port; the exchanges are numbered. -/
structure Port where
  fw : Firmware
  rxFifo : List U8
  exchange : ℕ

/-- A function of the driver: `none` is a loop that has not ended, and an error its return code. -/
abbrev Call (α : Type) : Type := ExceptT ℤ (StateT Port Option) α

namespace Port

/-! ## The driver -/

section Driver

variable (conv : ℕ → Conversion) (late : ℕ → Bool)

/-- `ssp_exchange`; `late` says in which exchanges the reply comes after the delay. -/
def sspExchange (tx : U8) : Call U8 := fun s ↦
  let s' := { s with fw := s.fw.receive conv tx, exchange := s.exchange + 1 }
  match s.rxFifo with
  | [] =>
    if late s.exchange = true then
      some (.error (-EBADE), { s' with fw := s'.fw.mspReset conv, rxFifo := [s.fw.u0txbuf] })
    else some (.ok s.fw.u0txbuf, s')
  | rx :: rest => some (.ok rx, { s' with rxFifo := rest ++ [s.fw.u0txbuf] })

def checkProtocol (rx expect : U8) : Call Unit := fun s ↦
  if rx = expect then some (.ok (), s)
  else some (.error (-EPROTO), { s with fw := s.fw.mspReset conv })

/-- The loop that waits for the conversion, for at most `fuel` rounds. -/
def awaitConversion : ℕ → Call U8
  | 0 => fun _ ↦ none
  | fuel + 1 => do
    let rx ← sspExchange conv late MSP_PROTO_CONV_TEST
    if rx = MSP_PROTO_CONV_IN_PROGRESS then awaitConversion fuel else return rx

def exchangeAll : List U8 → Call (List U8)
  | [] => return []
  | tx :: txs => do
    let rx ← sspExchange conv late tx
    let rxs ← exchangeAll txs
    return rx :: rxs

/-- `msp_transfer` up to the transformation of `rx_buf` -/
def mspTransfer (fuel : ℕ) : Call (List U8) := do
  let rx ← sspExchange conv late MSP_PROTO_CONV_START
  checkProtocol conv rx MSP_PROTO_RESET
  let rx ← awaitConversion conv late fuel
  checkProtocol conv rx (MSP_PROTO_CONV_TEST + 1)
  let rx ← sspExchange conv late 0
  checkProtocol conv rx (MSP_PROTO_CONV_TEST + 1)
  exchangeAll conv late readRequests

/-- Calls of `msp_transfer` one after the other, with the port after each of them. -/
def mspTransfers (fuel : ℕ) : ℕ → Port → Option (List (Except ℤ (List U8) × Port))
  | 0, _ => some []
  | n + 1, s => do
    let call ← mspTransfer conv late fuel s
    let calls ← mspTransfers fuel n call.2
    return call :: calls

end Driver

variable {conv : ℕ → Conversion} {late : ℕ → Bool} {α β : Type} {s t : Port} {fw fw' : Firmware}
  {e : ℕ} {tx : U8}

theorem bind_ok {c : Call α} {a : α} (h : c s = some (.ok a, t)) (f : α → Call β) :
    (c >>= f) s = f a t := by
  change (c s).bind _ = _
  rw [h]
  rfl

theorem bind_error {c : Call α} {ret : ℤ} (h : c s = some (.error ret, t)) (f : α → Call β) :
    (c >>= f) s = some (.error ret, t) := by
  change (c s).bind _ = _
  rw [h]
  rfl

theorem checkProtocol_self (rx : U8) (s : Port) : checkProtocol conv rx rx s = some (.ok (), s) :=
  if_pos rfl

/-! ## A reply has been late -/

/-- The fifo is one reply behind, and the firmware has been reset. -/
structure Broken (s : Port) : Prop where
  rxFifo : ∃ rx, s.rxFifo = [rx]
  reset : s.fw.u0txbuf = MSP_PROTO_RESET

variable (conv) in
theorem checkProtocol_broken {rx expect reply : U8} (hne : rx ≠ expect)
    (hfifo : s.rxFifo = [reply]) : ∃ t, Broken t ∧ t.exchange = s.exchange ∧
      checkProtocol conv rx expect s = some (.error (-EPROTO), t) :=
  ⟨{ s with fw := s.fw.mspReset conv }, ⟨⟨reply, hfifo⟩, mspReset_u0txbuf⟩, rfl, if_neg hne⟩

variable (conv late) in
theorem sspExchange_behind {rx : U8} (h : s.rxFifo = [rx]) (tx : U8) :
    ∃ t, t.rxFifo = [s.fw.u0txbuf] ∧ t.exchange = s.exchange + 1 ∧
      sspExchange conv late tx s = some (.ok rx, t) := by
  refine ⟨⟨s.fw.receive conv tx, [s.fw.u0txbuf], s.exchange + 1⟩, rfl, rfl, ?_⟩
  rw [sspExchange, h]
  rfl

variable (conv late) in
/-- No transfer after a late reply succeeds: either the first reply is not the reset byte, or it is,
and then so is the first answer to a probe. -/
theorem mspTransfer_broken (h : Broken s) : ∃ t, Broken t ∧ s.exchange ≤ t.exchange ∧
    ∀ fuel, 0 < fuel → mspTransfer conv late fuel s = some (.error (-EPROTO), t) := by
  obtain ⟨rx, hfifo⟩ := h.rxFifo
  obtain ⟨u, hufifo, huexchange, hstart⟩ :=
    sspExchange_behind conv late hfifo MSP_PROTO_CONV_START
  rw [h.reset] at hufifo
  by_cases hreset : rx = MSP_PROTO_RESET
  · obtain ⟨v, hvfifo, hvexchange, hprobe⟩ :=
      sspExchange_behind conv late hufifo MSP_PROTO_CONV_TEST
    obtain ⟨t, ht, hexchange, hcheck⟩ := checkProtocol_broken conv
      (show MSP_PROTO_RESET ≠ MSP_PROTO_CONV_TEST + 1 by decide) hvfifo
    refine ⟨t, ht, by omega, fun fuel hfuel ↦ ?_⟩
    cases fuel with
    | zero => exact absurd hfuel (Nat.lt_irrefl 0)
    | succ fuel =>
        have hawait : awaitConversion conv late (fuel + 1) u = some (.ok MSP_PROTO_RESET, v) :=
          bind_ok hprobe _
        rw [mspTransfer, bind_ok hstart, hreset, bind_ok (checkProtocol_self _ _), bind_ok hawait,
          bind_error hcheck]
  · obtain ⟨t, ht, hexchange, hcheck⟩ := checkProtocol_broken conv hreset hufifo
    refine ⟨t, ht, by omega, fun fuel _ ↦ ?_⟩
    rw [mspTransfer, bind_ok hstart, bind_error hcheck]

/-! ## No reply has been late -/

/-- From exchange `e` on the driver does what it does without the fifo, or the reply is late in one
of its exchanges. -/
inductive Follows (late : ℕ → Bool) (e : ℕ) (a : α) (fw : Firmware)
    (run : ℕ → Option (Except ℤ α × Port)) : Prop
  | same (e' bound : ℕ) (hle : e ≤ e') (hprompt : ∀ i, e ≤ i → i < e' → late i = false)
      (hrun : ∀ fuel, bound < fuel → run fuel = some (.ok a, ⟨fw, [], e'⟩))
  | late (t : Port) (bound : ℕ) (ht : Broken t)
      (hlate : ∃ i, e ≤ i ∧ i < t.exchange ∧ late i = true)
      (hrun : ∀ fuel, bound < fuel → run fuel = some (.error (-EBADE), t))

theorem Follows.bind {c : ℕ → Call α} {f : ℕ → α → Call β} {a : α} {b : β}
    (h : Follows late e a fw fun fuel ↦ c fuel s)
    (hf : ∀ e', Follows late e' b fw' fun fuel ↦ f fuel a ⟨fw, [], e'⟩) :
    Follows late e b fw' fun fuel ↦ (c fuel >>= f fuel) s := by
  cases h with
  | same e' bound hle hprompt hrun =>
      cases hf e' with
      | same e'' bound' hle' hprompt' hrun' =>
          refine .same e'' (max bound bound') (Nat.le_trans hle hle') (fun i hi hi' ↦ ?_)
            fun fuel hfuel ↦ ?_
          · rcases Nat.lt_or_ge i e' with hlt | hge
            · exact hprompt i hi hlt
            · exact hprompt' i hge hi'
          · obtain ⟨hfuel₁, hfuel₂⟩ := Nat.max_lt.mp hfuel
            exact (bind_ok (hrun fuel hfuel₁) _).trans (hrun' fuel hfuel₂)
      | late t bound' ht hlate hrun' =>
          obtain ⟨i, hi, hit, hlate⟩ := hlate
          refine .late t (max bound bound') ht ⟨i, Nat.le_trans hle hi, hit, hlate⟩
            fun fuel hfuel ↦ ?_
          obtain ⟨hfuel₁, hfuel₂⟩ := Nat.max_lt.mp hfuel
          exact (bind_ok (hrun fuel hfuel₁) _).trans (hrun' fuel hfuel₂)
  | late t bound ht hlate hrun =>
      exact .late t bound ht hlate fun fuel hfuel ↦ bind_error (hrun fuel hfuel) _

theorem Follows.succ {run run' : ℕ → Option (Except ℤ α × Port)} {a : α}
    (h : Follows late e a fw run) (hrun : ∀ fuel, run' (fuel + 1) = run fuel) :
    Follows late e a fw run' := by
  have hsucc {bound fuel : ℕ} {r : Except ℤ α × Port} (hr : ∀ n, bound < n → run n = some r)
      (hfuel : bound + 1 < fuel) : run' fuel = some r := by
    cases fuel with
    | zero => exact absurd hfuel (Nat.not_lt_zero _)
    | succ fuel => exact (hrun fuel).trans (hr fuel (Nat.lt_of_succ_lt_succ hfuel))
  cases h with
  | same e' bound hle hprompt hr =>
      exact .same e' (bound + 1) hle hprompt fun fuel hfuel ↦ hsucc hr hfuel
  | late t bound ht hlate hr =>
      exact .late t (bound + 1) ht hlate fun fuel hfuel ↦ hsucc hr hfuel

theorem follows_pure (a : α) : Follows late e a fw fun _ ↦ (pure a : Call α) ⟨fw, [], e⟩ :=
  .same e 0 (Nat.le_refl e) (fun _ hi hi' ↦ absurd hi' (Nat.not_lt.mpr hi)) fun _ _ ↦ rfl

theorem follows_check (rx : U8) :
    Follows late e () fw fun _ ↦ checkProtocol conv rx rx ⟨fw, [], e⟩ := by
  have hself : checkProtocol conv rx rx ⟨fw, [], e⟩ = (pure () : Call Unit) ⟨fw, [], e⟩ :=
    checkProtocol_self ..
  rw [hself]
  exact follows_pure ()

theorem follows_exchange (tx : U8) : Follows late e fw.u0txbuf (fw.receive conv tx)
    fun _ ↦ sspExchange conv late tx ⟨fw, [], e⟩ := by
  cases hlate : late e with
  | false =>
      refine .same (e + 1) 0 (Nat.le_succ e) (fun i hi hi' ↦ ?_) fun _ _ ↦ ?_
      · rw [Nat.le_antisymm (Nat.le_of_lt_succ hi') hi]
        exact hlate
      · simp [sspExchange, hlate]
  | true =>
      refine .late _ 0 ?_ ⟨e, Nat.le_refl e, ?_, hlate⟩ fun _ _ ↦ if_pos hlate
      · exact ⟨⟨fw.u0txbuf, rfl⟩, mspReset_u0txbuf⟩
      · exact Nat.lt_succ_self e

variable (conv late) in
theorem follows_exchangeAll (txs : List U8) (fw : Firmware) (e : ℕ) :
    Follows late e (Lagged.exchanges u0txbuf (Firmware.receive conv) txs fw).1
      (Lagged.exchanges u0txbuf (Firmware.receive conv) txs fw).2
      fun _ ↦ exchangeAll conv late txs ⟨fw, [], e⟩ := by
  induction txs generalizing fw e with
  | nil => exact follows_pure []
  | cons tx txs ih =>
      apply (follows_exchange tx).bind
      intro e'
      exact (ih (fw.receive conv tx) e').bind fun e'' ↦ follows_pure _

theorem follows_await {n : ℕ} {rx : U8}
    (h : Lagged.poll u0txbuf (Firmware.receive conv) MSP_PROTO_CONV_TEST MSP_PROTO_CONV_IN_PROGRESS
      n fw = some (rx, fw')) :
    Follows late e rx fw' fun fuel ↦ awaitConversion conv late fuel ⟨fw, [], e⟩ := by
  induction n generalizing fw e with
  | zero => cases h
  | succ n ih =>
      refine Follows.succ ((follows_exchange MSP_PROTO_CONV_TEST).bind fun e' ↦ ?_) fun fuel ↦ rfl
      by_cases hbusy : fw.u0txbuf = MSP_PROTO_CONV_IN_PROGRESS
      · simp only [if_pos hbusy]
        exact ih ((if_pos hbusy).symm.trans h)
      · simp only [if_neg hbusy]
        obtain ⟨rfl, rfl⟩ := Prod.mk.inj (Option.some.inj ((if_neg hbusy).symm.trans h))
        exact follows_pure _

variable (late) in
/-- `msp_transfer` on a port whose fifo is empty. -/
theorem follows_transfer (h : Settled conv fw) (htx : fw.u0txbuf = MSP_PROTO_RESET) (e : ℕ) :
    ∃ fw', Ready conv fw' ∧ fw'.u0txbuf = MSP_PROTO_RESET ∧
      fw'.conversion = fw.conversion + (if fw.noData = true then 0 else 1) ∧
      Follows late e (dataBytes (conv fw'.conversion)) fw'
        fun fuel ↦ mspTransfer conv late fuel ⟨fw, [], e⟩ := by
  obtain ⟨hstart, hbusy, hconv⟩ := receive_start h
  obtain ⟨s₁, hready₁, htx₁, hconv₁, hpoll⟩ := await_conversion hstart hbusy
  have hzero : (0 : U8) ≠ MSP_PROTO_CONV_START := by decide
  obtain ⟨hready₂, hconv₂, htx₂⟩ := hready₁.receive hzero
  rw [← hconv₂] at htx₂
  obtain ⟨fw', hread, hready', hconv', hreset⟩ := readData_eq hready₂ htx₂
  refine ⟨fw', hready', hreset, by rw [hconv', hconv₂, hconv₁, hconv], ?_⟩
  have hfirst : Follows late e MSP_PROTO_RESET _ fun _ ↦
      sspExchange conv late MSP_PROTO_CONV_START ⟨fw, [], e⟩ := htx ▸ follows_exchange _
  refine hfirst.bind fun e₁ ↦ (follows_check _).bind fun e₂ ↦ ?_
  refine (follows_await (hpoll _ (Nat.lt_succ_self _))).bind fun e₃ ↦ ?_
  refine (follows_check _).bind fun e₄ ↦ ?_
  have hsecond : Follows late e₄ (MSP_PROTO_CONV_TEST + 1) _ fun _ ↦
      sspExchange conv late 0 ⟨s₁, [], e₄⟩ := htx₁ ▸ follows_exchange _
  refine hsecond.bind fun e₅ ↦ (follows_check _).bind fun e₆ ↦ ?_
  have hall := follows_exchangeAll conv late readRequests (s₁.receive conv 0) e₆
  rw [show Lagged.exchanges u0txbuf (Firmware.receive conv) readRequests _ = _ from hread] at hall
  rw [hconv']
  exact hall

/-! ## Transfers -/

theorem transfers_broken (conv : ℕ → Conversion) (late : ℕ → Bool) (h : Broken s) (n : ℕ) :
    ∃ calls, calls.length = n ∧
      (∀ call ∈ calls, call.1 = .error (-EPROTO) ∧ s.exchange ≤ call.2.exchange) ∧
      ∀ fuel, 0 < fuel → mspTransfers conv late fuel n s = some calls := by
  induction n generalizing s with
  | zero => exact ⟨[], rfl, by simp, fun _ _ ↦ rfl⟩
  | succ n ih =>
      obtain ⟨t, ht, hle, hcall⟩ := mspTransfer_broken conv late h
      obtain ⟨calls, hlength, hcalls, hrun⟩ := ih ht
      refine ⟨(.error (-EPROTO), t) :: calls, congrArg Nat.succ hlength, ?_, fun fuel hfuel ↦ ?_⟩
      · intro call hmem
        rcases List.mem_cons.mp hmem with rfl | hmem
        · exact ⟨rfl, hle⟩
        · obtain ⟨hret, hle'⟩ := hcalls call hmem
          exact ⟨hret, Nat.le_trans hle hle'⟩
      · simp [mspTransfers, hcall fuel hfuel, hrun fuel hfuel]

/-- The calls up to the first late reply, the call in which it is, and those after it. -/
structure Split (conv : ℕ → Conversion) (late : ℕ → Bool) (first : ℕ)
    (good bad : List (Except ℤ (List U8) × Port)) : Prop where
  delivered : ∀ call ∈ good, Delivered conv (call.1, call.2.fw) ∧
    ∀ i < call.2.exchange, late i = false
  conversions : good.map (·.2.fw.conversion) = List.range' first good.length
  timedOut : ∀ call ∈ bad.head?, call.1 = .error (-EBADE)
  outOfStep : ∀ call ∈ bad.tail, call.1 = .error (-EPROTO)
  late : ∀ call ∈ bad, ∃ i < call.2.exchange, late i = true

variable (late) in
theorem transfers_split (h : Settled conv fw) (htx : fw.u0txbuf = MSP_PROTO_RESET)
    (hprompt : ∀ i < e, late i = false) (n : ℕ) : ∃ good bad bound,
      good.length + bad.length = n ∧
      Split conv late (fw.conversion + if fw.noData = true then 0 else 1) good bad ∧
      ∀ fuel, bound < fuel → mspTransfers conv late fuel n ⟨fw, [], e⟩ = some (good ++ bad) := by
  induction n generalizing fw e with
  | zero => exact ⟨[], [], 0, rfl, ⟨by simp, rfl, by simp, by simp, by simp⟩, fun _ _ ↦ rfl⟩
  | succ n ih =>
      obtain ⟨fw', hready, hreset, hconv, hfollows⟩ := follows_transfer late h htx e
      cases hfollows with
      | same e' bound hle hprompt' hcall =>
          have hall : ∀ i < e', late i = false := fun i hi ↦
            (Nat.lt_or_ge i e).elim (hprompt i) fun hge ↦ hprompt' i hge hi
          obtain ⟨good, bad, bound', hlength, hsplit, hrun⟩ := ih hready.settled hreset hall
          have hnext := hsplit.conversions
          rw [if_neg (by rw [hready.asleep]; exact Bool.false_ne_true), hconv] at hnext
          refine ⟨(.ok (dataBytes (conv fw'.conversion)), ⟨fw', [], e'⟩) :: good, bad,
            max bound bound', ?_, ⟨?_, ?_, hsplit.timedOut, hsplit.outOfStep, hsplit.late⟩,
            fun fuel hfuel ↦ ?_⟩
          · rw [List.length_cons, Nat.succ_add, hlength]
          · intro call hmem
            rcases List.mem_cons.mp hmem with rfl | hmem
            · exact ⟨⟨by rw [hready.data, dataBytes], ⟨hready.asleep, hready.data⟩, hreset⟩, hall⟩
            · exact hsplit.delivered call hmem
          · rw [List.map_cons, hnext, List.length_cons, List.range'_succ, ← hconv]
          · obtain ⟨hfuel₁, hfuel₂⟩ := Nat.max_lt.mp hfuel
            simp [mspTransfers, hcall fuel hfuel₁, hrun fuel hfuel₂]
      | late t bound ht hlate hcall =>
          obtain ⟨calls, hlength, hcalls, hrun⟩ := transfers_broken conv late ht n
          obtain ⟨i, -, hi, hlate⟩ := hlate
          refine ⟨[], (.error (-EBADE), t) :: calls, bound, ?_, ⟨by simp, rfl, by simp, ?_, ?_⟩,
            fun fuel hfuel ↦ ?_⟩
          · rw [List.length_nil, Nat.zero_add, List.length_cons, hlength]
          · exact fun call hmem ↦ (hcalls call hmem).1
          · intro call hmem
            rcases List.mem_cons.mp hmem with rfl | hmem
            · exact ⟨i, hi, hlate⟩
            · exact ⟨i, Nat.lt_of_lt_of_le hi (hcalls call hmem).2, hlate⟩
          · simp [mspTransfers, hcall fuel hfuel, hrun fuel (Nat.zero_lt_of_lt hfuel)]

/-- Whichever replies are late, every transfer from the reset on delivers a conversion of its own
until one of them is; the transfer in which it is finds no reply, and none after it is in step with
the firmware again: the driver never empties the fifo. -/
theorem transfers_until_late (conv : ℕ → Conversion) (late : ℕ → Bool) (fw : Firmware) (n : ℕ) :
    ∃ good bad bound, good.length + bad.length = n ∧
      (∀ call ∈ good, Delivered conv (call.1, call.2.fw) ∧ ∀ i < call.2.exchange, late i = false) ∧
      (good.map (·.2.fw.conversion)).Pairwise (· < ·) ∧
      (∀ call ∈ bad.head?, call.1 = .error (-EBADE)) ∧
      (∀ call ∈ bad.tail, call.1 = .error (-EPROTO)) ∧
      (∀ call ∈ bad, ∃ i < call.2.exchange, late i = true) ∧
      ∀ fuel, bound < fuel →
        mspTransfers conv late fuel n ⟨fw.mspReset conv, [], 0⟩ = some (good ++ bad) := by
  obtain ⟨good, bad, bound, hlength, hsplit, hrun⟩ := transfers_split late
    (show Settled conv (fw.mspReset conv) from mspReset_settled) mspReset_u0txbuf
    (fun i hi ↦ absurd hi (Nat.not_lt_zero i)) n
  refine ⟨good, bad, bound, hlength, hsplit.delivered, ?_, hsplit.timedOut, hsplit.outOfStep,
    hsplit.late, hrun⟩
  rw [hsplit.conversions]
  exact List.pairwise_lt_range'

end Port

end Msp

end LiberaBase
