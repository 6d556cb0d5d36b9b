import LiberaBase.Timing.Handlers

/-!
# What a handler call amounts to

The dispatch loops end, so that an entry is a fold over its trigger bits and a
handler call always returns.  An invariant then has to be shown only for the
self-increment and for one dispatch.
-/

namespace LiberaBase

open BitScan

/-- The trigger numbers set in the vector of a fifo entry, in ascending order. -/
def trigBits (tl : U32) : List ℕ := setBits 22 9 0 tl

theorem mem_trigBits {tl : U32} {i : ℕ} : i ∈ trigBits tl ↔ i < 9 ∧ tl.getLsbD (22 + i) = true := by
  simp [trigBits, mem_setBits]

theorem trigBits_split (tl : U32) : trigBits tl =
    setBits 22 8 0 tl ++ if tl.getLsbD 30 = true then [tTrigTrigger] else [] := by
  unfold trigBits setBits
  rw [show (9 - 0) = 8 + 1 from rfl, List.range'_concat, List.filter_append]
  congr 1
  simp only [List.filter_cons, List.filter_nil]
  rfl

theorem nodup_trigBits (tl : U32) : (trigBits tl).Nodup :=
  pairwise_setBits.imp Nat.ne_of_lt

theorem isField_trigVector : IsField trigVector 22 9 where
  le_width := by decide
  bit := by
    intro j
    by_cases hj : j < 32
    · have hall : ∀ j < 32, trigVector.getLsbD j = (decide (22 ≤ j) && decide (j < 22 + 9)) := by
        decide
      exact hall j hj
    · rw [BitVec.getLsbD_of_ge _ _ (by omega)]
      simp only [Bool.false_eq, Bool.and_eq_false_imp, decide_eq_true_eq, decide_eq_false_iff_not]
      omega

/-- The dispatch loops end and dispatch each set bit once, in ascending order. -/
theorem scan_trigVector {σ : Type*} (body : σ → ℕ → σ) (s : σ) (tl : U32) :
    scan trigVector body Driver.scanFuel Driver.scanFuel s tl trigZero 0 =
      some ((trigBits tl).foldl body s) := by
  have hzero : trigZero = BitVec.twoPow 32 (22 + 0) := by decide
  rw [hzero]
  refine scan_eq isField_trigVector (by simp) (by decide) ?_
  have hlen : (setBits 22 9 0 tl).length ≤ 9 - 0 := length_setBits_le
  unfold Driver.scanFuel
  omega

namespace Driver

variable {s t : Driver} {e : FifoEntry} {es : List FifoEntry}

def scRaw (s : Driver) (e : FifoEntry) : HwTime := stampRaw (s.scSelfInc e.tl).event.scTime e.th

def mcRaw (s : Driver) (e : FifoEntry) : HwTime := stampRaw (s.mcSelfInc e.tl).event.mcTime e.th

theorem scEntry_eq (s : Driver) (e : FifoEntry) : s.scEntry e = some ((trigBits e.tl).foldl
    (scDispatch (s.scRaw e + (s.scSelfInc e.tl).event.settime.lst.off) (s.scRaw e))
    (s.scSelfInc e.tl)) :=
  scan_trigVector ..

theorem mcEntry_eq (s : Driver) (e : FifoEntry) : s.mcEntry e = some ((trigBits e.tl).foldl
    (mcDispatch (s.mcRaw e + (s.mcSelfInc e.tl).event.settime.lmt.off) (s.mcRaw e))
    (s.mcSelfInc e.tl)) :=
  scan_trigVector ..

/-! ## Draining a fifo -/

theorem drain_isSome {entry : Driver → FifoEntry → Option Driver}
    (hentry : ∀ s e, (entry s e).isSome) (s : Driver) (es : List FifoEntry) :
    (drain entry s es).isSome := by
  induction es generalizing s with
  | nil => rfl
  | cons e es ih =>
      rw [drain]
      split_ifs
      · obtain ⟨s', hs'⟩ := Option.isSome_iff_exists.mp (hentry s e)
        rw [hs']
        exact ih s'
      · rfl

theorem liberaScHandler_isSome (s : Driver) (es : List FifoEntry) :
    (s.liberaScHandler es).isSome :=
  drain_isSome (fun s e ↦ by rw [scEntry_eq]; rfl) s es

theorem liberaMcHandler_isSome (s : Driver) (es : List FifoEntry) :
    (s.liberaMcHandler es).isSome :=
  drain_isSome (fun s e ↦ by rw [mcEntry_eq]; rfl) s es

/-- Every entry that is handled while `es` is drained meets `ok` in the state it
is handled in. -/
def DrainOk (entry : Driver → FifoEntry → Option Driver) (ok : Driver → FifoEntry → Prop) :
    Driver → List FifoEntry → Prop
  | _, [] => True
  | s, e :: es => tFifoSize e.tl ≠ 0 →
      ok s e ∧ match entry s e with
        | some s' => DrainOk entry ok s' es
        | none => True

instance DrainOk.instDecidable (entry : Driver → FifoEntry → Option Driver)
    (ok : Driver → FifoEntry → Prop) [∀ s e, Decidable (ok s e)] (s : Driver) :
    (es : List FifoEntry) → Decidable (DrainOk entry ok s es)
  | [] => isTrue trivial
  | e :: es =>
    have : Decidable (match entry s e with
        | some s' => DrainOk entry ok s' es
        | none => True) :=
      match entry s e with
      | some s' => DrainOk.instDecidable entry ok s' es
      | none => isTrue trivial
    inferInstanceAs (Decidable (tFifoSize e.tl ≠ 0 → _ ∧ _))

theorem drainOk_true (entry : Driver → FifoEntry → Option Driver) (s : Driver)
    (es : List FifoEntry) : DrainOk entry (fun _ _ ↦ True) s es := by
  induction es generalizing s with
  | nil => trivial
  | cons e es ih =>
      intro _
      refine ⟨trivial, ?_⟩
      split
      · exact ih _
      · trivial

/-- What one entry preserves, a handler call preserves. -/
theorem drain_invariant {entry : Driver → FifoEntry → Option Driver}
    {ok : Driver → FifoEntry → Prop} {P : Driver → Prop}
    (hentry : ∀ s e s', P s → ok s e → entry s e = some s' → P s')
    (hs : P s) (hok : DrainOk entry ok s es) (hdrain : drain entry s es = some t) : P t := by
  induction es generalizing s with
  | nil =>
      obtain rfl := Option.some.inj hdrain
      exact hs
  | cons e es ih =>
      rw [drain] at hdrain
      split_ifs at hdrain with hsize
      · obtain ⟨s', hs', hrest⟩ := Option.bind_eq_some_iff.mp hdrain
        obtain ⟨hoke, hokes⟩ := hok hsize
        rw [hs'] at hokes
        exact ih (hentry s e s' hs hoke hs') hokes hrest
      · obtain rfl := Option.some.inj hdrain
        exact hs

theorem foldl_invariant {P : Driver → Prop} {body : Driver → ℕ → Driver} {is : List ℕ}
    (hbody : ∀ s i, i ∈ is → P s → P (body s i)) (hs : P s) : P (is.foldl body s) :=
  List.foldlRecOn is body hs fun s hs i hi ↦ hbody s i hi hs

/-- The same, where a dispatch has to meet a condition on its own trigger that the
dispatches of the other triggers leave alone. -/
theorem foldl_each {P : Driver → Prop} (ok : Driver → ℕ → Prop) {body : Driver → ℕ → Driver}
    {is : List ℕ} (hnodup : is.Nodup) (hbody : ∀ s i, P s → ok s i → P (body s i))
    (hother : ∀ s i j, j ≠ i → ok s j → ok (body s i) j) (hs : P s) (hok : ∀ i ∈ is, ok s i) :
    P (is.foldl body s) := by
  induction is generalizing s with
  | nil => exact hs
  | cons i is ih =>
      obtain ⟨hi, hnodup⟩ := List.nodup_cons.mp hnodup
      obtain ⟨hoki, hokis⟩ := List.forall_mem_cons.mp hok
      exact ih hnodup (hbody s i hs hoki) fun j hj ↦
        hother s i j (fun h ↦ hi (h ▸ hj)) (hokis j hj)

theorem foldl_field {β : Type*} {f : Driver → β} {body : Driver → ℕ → Driver}
    (hbody : ∀ s i, f (body s i) = f s) (s : Driver) (is : List ℕ) :
    f (is.foldl body s) = f s :=
  foldl_invariant (P := fun t ↦ f t = f s) (fun t i _ h ↦ (hbody t i).trans h) rfl

/-! ## What a dispatch leaves alone -/

section Frame

variable (s : Driver) (stamp raw : HwTime) (i : ℕ) (tl : U32)

theorem putSC_eq (value : HwTime) : s.putSC i value raw = s ∨ ∃ q,
    putToFIFO (s.event.scTimestamps i) ⟨value, s.event.scHalves i⟩ = some q ∧
      s.putSC i value raw =
        { s with
          event := { s.event with scTimestamps := Function.update s.event.scTimestamps i q }
          accepted := s.accepted ++ [⟨.sc, i, value, raw, s.event.settime⟩] } := by
  unfold putSC
  cases h : putToFIFO (s.event.scTimestamps i) ⟨value, s.event.scHalves i⟩ with
  | none => exact .inl rfl
  | some q => exact .inr ⟨q, rfl, rfl⟩

theorem putMC_eq (value : HwTime) : s.putMC i value raw = s ∨ ∃ q,
    putToFIFO (s.event.mcTimestamps i) ⟨value, s.event.mcHalves i⟩ = some q ∧
      s.putMC i value raw =
        { s with
          event := { s.event with mcTimestamps := Function.update s.event.mcTimestamps i q }
          accepted := s.accepted ++ [⟨.mc, i, value, raw, s.event.settime⟩] } := by
  unfold putMC
  cases h : putToFIFO (s.event.mcTimestamps i) ⟨value, s.event.mcHalves i⟩ with
  | none => exact .inl rfl
  | some q => exact .inr ⟨q, rfl, rfl⟩

theorem scTrigger_eq : ∃ paired sc accepted, s.scTrigger stamp raw i =
    { s with
      event := { s.event with pairedTimestamps := paired, scTimestamps := sc }
      accepted := accepted } := by
  have hput (value : HwTime) : ∃ paired sc accepted, s.putSC i value raw =
      { s with
        event := { s.event with pairedTimestamps := paired, scTimestamps := sc }
        accepted := accepted } := by
    rcases s.putSC_eq raw i value with h | ⟨q, -, h⟩
    · exact ⟨_, _, _, h⟩
    · exact ⟨_, _, _, h⟩
  unfold scTrigger liberaSCtrigSpecific
  split_ifs
  · exact ⟨_, _, _, rfl⟩
  · exact ⟨_, _, _, rfl⟩
  · exact hput raw
  · exact ⟨_, _, _, rfl⟩
  · exact ⟨_, _, _, rfl⟩
  · exact hput stamp

theorem liberaSetTime_eq : ∃ settime listHead writes consumed, s.liberaSetTime =
    { s with
      event := { s.event with settime := settime, listHead := listHead }
      writes := writes
      consumed := consumed } := by
  unfold liberaSetTime
  simp only
  split_ifs <;> exact ⟨_, _, _, _, rfl⟩

end Frame

/-- `t` differs from `s` in what an MC dispatch may change: not in the SC side, the
counted times or the globals. -/
def McOnly (s t : Driver) : Prop :=
  ∃ paired mc events settime listHead cfg writes accepted completed consumed, t =
    { s with
      event := { s.event with
        pairedTimestamps := paired, mcTimestamps := mc, events := events
        settime := settime, listHead := listHead }
      cfg := cfg
      writes := writes
      accepted := accepted
      completed := completed
      consumed := consumed }

variable {u : Driver}

theorem McOnly.refl (s : Driver) : McOnly s s := ⟨_, _, _, _, _, _, _, _, _, _, rfl⟩

theorem McOnly.trans (h : McOnly s t) (h' : McOnly t u) : McOnly s u := by
  obtain ⟨_, _, _, _, _, _, _, _, _, _, rfl⟩ := h
  obtain ⟨_, _, _, _, _, _, _, _, _, _, rfl⟩ := h'
  exact ⟨_, _, _, _, _, _, _, _, _, _, rfl⟩

theorem McOnly.putLMT (h : McOnly s t) (i : ℕ) (lmt raw : HwTime) :
    McOnly s (t.putLMT i lmt raw) :=
  h.trans ⟨_, _, _, _, _, _, _, _, _, _, rfl⟩

theorem McOnly.putMC (h : McOnly s t) (i : ℕ) (value raw : HwTime) :
    McOnly s (t.putMC i value raw) := by
  refine h.trans ?_
  rcases t.putMC_eq raw i value with heq | ⟨q, -, heq⟩
  · rw [heq]
    exact .refl t
  · exact ⟨_, _, _, _, _, _, _, _, _, _, heq⟩

theorem McOnly.sendEvent (h : McOnly s t) (id param : U32) :
    McOnly s (t.liberaSendEvent id param) := by
  obtain ⟨events, heq⟩ := t.liberaSendEvent_eq id param
  exact h.trans ⟨_, _, _, _, _, _, _, _, _, _, heq⟩

theorem McOnly.setTime (h : McOnly s t) : McOnly s t.liberaSetTime := by
  obtain ⟨_, _, _, _, heq⟩ := t.liberaSetTime_eq
  exact h.trans ⟨_, _, _, _, _, _, _, _, _, _, heq⟩

theorem McOnly.withCfg (h : McOnly s t) (cfg : CfgDevice) : McOnly s { t with cfg := cfg } :=
  h.trans ⟨_, _, _, _, _, _, _, _, _, _, rfl⟩

/-- An MC trigger puts its stamp into its ring and at most sets the time, writes the
configuration and sends an event.  What all of these keep, it keeps. -/
theorem mcTrigger_invariant {P : Driver → Prop} {raw : HwTime} {i : ℕ} (stamp : HwTime) (hs : P s)
    (hmc : ∀ value, P (s.putMC i value raw)) (hlmt : ∀ lmt, P (s.putLMT i lmt raw))
    (hset : ∀ u : Driver, P u → P u.liberaSetTime)
    (hcfg : ∀ (u : Driver) (cfg : CfgDevice), P u → P { u with cfg := cfg })
    (hsend : ∀ (u : Driver) (id param : U32), P u → P (u.liberaSendEvent id param)) :
    P (s.mcTrigger stamp raw i) := by
  unfold mcTrigger liberaMCtrigSpecific
  simp only
  split_ifs
  · exact hsend _ _ _ (hcfg _ _ (hset _ (hlmt _)))
  · exact hs
  · exact hsend _ _ _ (hlmt _)
  · exact hlmt _
  · exact hcfg _ _ (hsend _ _ _ (hlmt _))
  · exact hsend _ _ _ (hlmt _)
  · exact hs
  · exact hmc _
  · exact hmc _

theorem mcOnly_mcTrigger (s : Driver) (stamp raw : HwTime) (i : ℕ) :
    McOnly s (s.mcTrigger stamp raw i) := by
  have hrefl := McOnly.refl s
  refine mcTrigger_invariant stamp hrefl (fun _ ↦ hrefl.putMC _ _ _)
    (fun _ ↦ hrefl.putLMT _ _ _) ?_ ?_ ?_
  · exact fun u hu ↦ hu.setTime
  · exact fun u cfg hu ↦ hu.withCfg cfg
  · exact fun u id param hu ↦ hu.sendEvent id param

theorem liberaMcSelfincSpecific_eq (s : Driver) :
    ∃ writes, s.liberaMcSelfincSpecific = { s with writes := writes } := by
  unfold liberaMcSelfincSpecific
  extract_lets mcTime head offset26
  split
  · split <;> exact ⟨_, rfl⟩
  · exact ⟨_, rfl⟩

theorem scSelfInc_eq (s : Driver) (tl : U32) :
    ∃ time, s.scSelfInc tl = { s with event := { s.event with scTime := time } } := by
  cases h : selfInc tl
  · exact ⟨s.event.scTime, by rw [scSelfInc, if_neg (by simp [h])]⟩
  · exact ⟨s.event.scTime + selfIncPeriod, by rw [scSelfInc, if_pos h]⟩

theorem mcSelfInc_eq (s : Driver) (tl : U32) : ∃ time writes, s.mcSelfInc tl =
    { s with event := { s.event with mcTime := time }, writes := writes } := by
  cases h : selfInc tl
  · exact ⟨s.event.mcTime, s.writes, by rw [mcSelfInc, if_neg (by simp [h])]⟩
  · obtain ⟨writes, heq⟩ := liberaMcSelfincSpecific_eq
      { s with event := { s.event with mcTime := s.event.mcTime + selfIncPeriod } }
    exact ⟨s.event.mcTime + selfIncPeriod, writes, by rw [mcSelfInc, if_pos h, heq]⟩

/-! ## The fields after a dispatch -/

section Fields

variable (s : Driver) (stamp raw : HwTime) (i : ℕ)

@[simp] theorem scDispatch_scTime : (scDispatch stamp raw s i).event.scTime = s.event.scTime := by
  obtain ⟨_, _, _, h⟩ := s.scTrigger_eq stamp raw i
  simp [scDispatch, h]

@[simp] theorem scDispatch_mcTime : (scDispatch stamp raw s i).event.mcTime = s.event.mcTime := by
  obtain ⟨_, _, _, h⟩ := s.scTrigger_eq stamp raw i
  simp [scDispatch, h]

@[simp] theorem scDispatch_settime :
    (scDispatch stamp raw s i).event.settime = s.event.settime := by
  obtain ⟨_, _, _, h⟩ := s.scTrigger_eq stamp raw i
  simp [scDispatch, h]

@[simp] theorem scDispatch_cfg : (scDispatch stamp raw s i).cfg = s.cfg := by
  obtain ⟨_, _, _, h⟩ := s.scTrigger_eq stamp raw i
  simp [scDispatch, h]

@[simp] theorem scDispatch_mcTimestamps :
    (scDispatch stamp raw s i).event.mcTimestamps = s.event.mcTimestamps := by
  obtain ⟨_, _, _, h⟩ := s.scTrigger_eq stamp raw i
  simp [scDispatch, h]

@[simp] theorem scDispatch_mcHalves :
    (scDispatch stamp raw s i).event.mcHalves = s.event.mcHalves := by
  obtain ⟨_, _, _, h⟩ := s.scTrigger_eq stamp raw i
  simp [scDispatch, h]

@[simp] theorem scDispatch_scHalves : (scDispatch stamp raw s i).event.scHalves =
    Function.update s.event.scHalves i (s.event.scHalves i + 1) := by
  obtain ⟨_, _, _, h⟩ := s.scTrigger_eq stamp raw i
  simp [scDispatch, h]

@[simp] theorem scDispatch_completed : (scDispatch stamp raw s i).completed = s.completed := by
  obtain ⟨_, _, _, h⟩ := s.scTrigger_eq stamp raw i
  simp [scDispatch, h]

@[simp] theorem scDispatch_consumed : (scDispatch stamp raw s i).consumed = s.consumed := by
  obtain ⟨_, _, _, h⟩ := s.scTrigger_eq stamp raw i
  simp [scDispatch, h]

@[simp] theorem scDispatch_dispatched :
    (scDispatch stamp raw s i).dispatched = s.dispatched ++ [⟨.sc, i, raw⟩] := by
  obtain ⟨_, _, _, h⟩ := s.scTrigger_eq stamp raw i
  simp [scDispatch, h]

@[simp] theorem mcDispatch_scTime : (mcDispatch stamp raw s i).event.scTime = s.event.scTime := by
  obtain ⟨_, _, _, _, _, _, _, _, _, _, h⟩ := mcOnly_mcTrigger s stamp raw i
  simp [mcDispatch, h]

@[simp] theorem mcDispatch_mcTime : (mcDispatch stamp raw s i).event.mcTime = s.event.mcTime := by
  obtain ⟨_, _, _, _, _, _, _, _, _, _, h⟩ := mcOnly_mcTrigger s stamp raw i
  simp [mcDispatch, h]

@[simp] theorem mcDispatch_scTimestamps :
    (mcDispatch stamp raw s i).event.scTimestamps = s.event.scTimestamps := by
  obtain ⟨_, _, _, _, _, _, _, _, _, _, h⟩ := mcOnly_mcTrigger s stamp raw i
  simp [mcDispatch, h]

@[simp] theorem mcDispatch_scHalves :
    (mcDispatch stamp raw s i).event.scHalves = s.event.scHalves := by
  obtain ⟨_, _, _, _, _, _, _, _, _, _, h⟩ := mcOnly_mcTrigger s stamp raw i
  simp [mcDispatch, h]

@[simp] theorem mcDispatch_mcHalves : (mcDispatch stamp raw s i).event.mcHalves =
    Function.update s.event.mcHalves i (s.event.mcHalves i + 1) := by
  obtain ⟨_, _, _, _, _, _, _, _, _, _, h⟩ := mcOnly_mcTrigger s stamp raw i
  simp [mcDispatch, h]

@[simp] theorem mcDispatch_dispatched :
    (mcDispatch stamp raw s i).dispatched = s.dispatched ++ [⟨.mc, i, raw⟩] := by
  obtain ⟨_, _, _, _, _, _, _, _, _, _, h⟩ := mcOnly_mcTrigger s stamp raw i
  simp [mcDispatch, h]

theorem mcDispatch_settime (hi : i ≠ tTrigTrigger) :
    (mcDispatch stamp raw s i).event.settime = s.event.settime := by
  have hsend (t : Driver) (id param : U32) :
      (t.liberaSendEvent id param).event.settime = t.event.settime := by
    obtain ⟨_, h⟩ := t.liberaSendEvent_eq id param
    rw [h]
  have hput (value : HwTime) : (s.putMC i value raw).event.settime = s.event.settime := by
    rcases s.putMC_eq raw i value with h | ⟨_, -, h⟩ <;> rw [h]
  unfold mcDispatch mcTrigger liberaMCtrigSpecific
  simp only [if_neg hi]
  split_ifs
  · exact hsend _ _ _
  · exact hsend _ _ _
  · rfl
  · exact hput _
  · exact hput _

end Fields

/-! ## What a step does -/

/-- `t` differs from `s` in what an ioctl arms, not in the offset of the system time. -/
def Armed (s t : Driver) : Prop :=
  ∃ update ref scphi lmt param writes, t =
    { s with
      event := { s.event with
        settime := ⟨update, ⟨ref, s.event.settime.lst.off, scphi⟩, lmt⟩ }
      cfg := { s.cfg with param := param }
      writes := writes }

theorem armed_setST (s : Driver) (st : Timespec) : Armed s (s.setST st) :=
  ⟨_, _, _, _, _, _, rfl⟩

theorem armed_setMT (s : Driver) (mt : HwTime) (phase : U32) : Armed s (s.setMT mt phase) := by
  by_cases h : s.lgbl.d ≤ phase
  · exact ⟨_, _, _, _, _, _, if_pos h⟩
  · exact ⟨_, _, _, _, _, _, if_neg h⟩

theorem armed_setSCPHI (s : Driver) (scphi : HwTime) : Armed s (s.setSCPHI scphi) :=
  ⟨_, _, _, _, _, _, rfl⟩

theorem armed_setMCPHI (s : Driver) (mcphi : HwTime) : Armed s (s.setMCPHI mcphi) :=
  ⟨_, _, _, _, _, _, rfl⟩

theorem step_cases {l : Timing} (hstep : s.step l = some t) :
    (∃ es, l = .sc es ∧ drain scEntry s es = some t) ∨
    (∃ es, l = .mc es ∧ drain mcEntry s es = some t) ∨
    Armed s t ∨
    ∃ readl req, l = .setCfg readl req ∧
      Requested s t (if s.thaws req then false else s.cfg.pmFreezed) := by
  cases l with
  | sc es => exact .inl ⟨es, rfl, hstep⟩
  | mc es => exact .inr (.inl ⟨es, rfl, hstep⟩)
  | setST st => exact .inr (.inr (.inl (Option.some.inj hstep ▸ armed_setST s st)))
  | setMT mt phase => exact .inr (.inr (.inl (Option.some.inj hstep ▸ armed_setMT s mt phase)))
  | setSCPHI scphi => exact .inr (.inr (.inl (Option.some.inj hstep ▸ armed_setSCPHI s scphi)))
  | setMCPHI mcphi => exact .inr (.inr (.inl (Option.some.inj hstep ▸ armed_setMCPHI s mcphi)))
  | setCfg readl req =>
      exact .inr (.inr (.inr ⟨readl, req, rfl,
        Option.some.inj hstep ▸ requested_liberaIocSetCfg readl s req⟩))

end Driver

end LiberaBase
