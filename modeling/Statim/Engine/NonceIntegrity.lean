import Statim.Engine.RouteSelection

/-!
# Nonces across reforwarding

The pending Interest table, the Interest that waits for its delay and the Interest
that is sent again share one wire buffer.  A Trace update that pulls an Interest
whose Nonce has four octets overwrites the Nonce of all three in place.  As long as
no update does so the buffers only grow, and every Interest keeps the Nonce that it
arrived with.
-/

namespace Statim

open Support SwitchPipeline

namespace ForwardingEngine

variable {cfg : EngineConfig} {w w' w₀ : EngineWorld} {steps : List Step}

/-! ## Buffers that only grow -/

/-- No buffer is overwritten, and the only new events send Interests again. -/
structure Retains (w w' : EngineWorld) : Prop where
  buffers : w.env.rest.buffers <+: w'.env.rest.buffers
  events : ∀ e ∈ w'.env.rest.events, e ∈ w.env.rest.events ∨
    ∃ interest port, e.event = .doDelayedPullSend interest port

theorem Retains.trans {w'' : EngineWorld} (h : Retains w w') (h' : Retains w' w'') :
    Retains w w'' := by
  refine ⟨h.buffers.trans h'.buffers, fun e he => ?_⟩
  rcases h'.events e he with hold | hpull
  · exact h.events e hold
  · exact Or.inr hpull

theorem Retains.of_eq (hbuffers : w'.env.rest.buffers = w.env.rest.buffers)
    (hevents : w'.env.rest.events = w.env.rest.events) : Retains w w' := by
  refine ⟨?_, fun e he => Or.inl ?_⟩
  · rw [hbuffers]
  · rwa [hevents] at he

/-- The Nonce lies in a buffer and has another width than four octets, so that
`setNonce` leaves it alone. -/
def Untouched (buffers : Buffers) (interest : Interest) : Prop :=
  ∃ buffer value, interest.nonce = some buffer ∧ buffers[buffer]? = some value ∧
    value.length ≠ 4

theorem getElem?_of_isPrefix {buffers buffers' : Buffers} (h : buffers <+: buffers')
    {buffer : Nat} {value : Bytes} (hvalue : buffers[buffer]? = some value) :
    buffers'[buffer]? = some value := by
  obtain ⟨hlt, -⟩ := List.getElem?_eq_some_iff.mp hvalue
  obtain ⟨tail, rfl⟩ := h
  rw [List.getElem?_append_left hlt]
  exact hvalue

theorem Untouched.mono {buffers buffers' : Buffers} {interest : Interest}
    (h : Untouched buffers interest) (hgrow : buffers <+: buffers') :
    Untouched buffers' interest := by
  obtain ⟨buffer, value, hnonce, hvalue, hlength⟩ := h
  exact ⟨buffer, value, hnonce, getElem?_of_isPrefix hgrow hvalue, hlength⟩

theorem Untouched.refreshNonce {buffers buffers' : Buffers} {interest retx : Interest}
    (h : Untouched buffers interest) {word : UInt32 → UInt32}
    (hrefresh : interest.refreshNonce word buffers = some (retx, buffers')) :
    buffers <+: buffers' := by
  obtain ⟨buffer, value, hnonce, hvalue, hlength⟩ := h
  unfold Interest.refreshNonce at hrefresh
  split at hrefresh
  · obtain ⟨old, -, heq⟩ := Option.map_eq_some_iff.mp hrefresh
    rcases Interest.setNonce_cases (word old) buffers interest with ⟨_, -, -, hfour, -⟩ | hnew
    · refine absurd ?_ hlength
      simpa [Interest.nonceValue, hnonce, hvalue] using hfour
    · rw [hnew] at heq
      cases heq
      exact List.prefix_append _ _
  · cases hrefresh
    exact List.prefix_rfl

theorem retains_pullAll (cfg : EngineConfig) (port : Port) (pending : List Interest)
    (h : ∀ i ∈ pending, Untouched w.env.rest.buffers i) :
    Retains w (Handled.world (pullAll cfg port pending w)) := by
  induction pending generalizing w with
  | nil => exact Retains.of_eq rfl rfl
  | cons interest rest ih =>
      rw [pullAll]
      split
      · exact Retains.of_eq rfl rfl
      next retx buffers hrefresh =>
        have hgrow := (h interest List.mem_cons_self).refreshNonce hrefresh
        have hscheduled : Retains w (schedulePull retx buffers port w) := by
          refine ⟨hgrow, fun e he => ?_⟩
          rcases List.mem_append.mp he with hold | hnew
          · exact Or.inl hold
          · rw [List.mem_singleton.mp hnew]
            exact Or.inr ⟨retx, port, rfl⟩
        refine hscheduled.trans (ih fun i hi => ?_)
        exact (h i (List.mem_cons_of_mem interest hi)).mono hgrow

/-! ## Trace Data -/

section Trace

variable {p : Name} {seq : Nat} {lifetime : Int}

theorem retains_learnPort (lifetime : Int) (port : Port)
    (h : cfg.enableInterestReforwarding = true → Loop.Admissible cfg.loop.temporary p seq w.ctl →
      ∀ i ∈ pulled cfg p w, Untouched w.env.rest.buffers i) :
    Retains w (Handled.world (learnPort cfg p seq lifetime port w)) := by
  unfold learnPort
  split
  · exact Retains.of_eq rfl rfl
  next updated w₁ hcall =>
    have hrest := (Loop.kept_applyTraceUpdate hcall).rest
    have hupdated : Retains w w₁ :=
      Retains.of_eq (congrArg EngineState.buffers hrest) (congrArg EngineState.events hrest)
    split
    swap
    · exact hupdated
    next hpulls =>
      rw [Bool.and_eq_true] at hpulls
      have hadmissible : Loop.Admissible cfg.loop.temporary p seq w.ctl := by
        obtain ⟨-, ⟨hadmissible, -⟩ | ⟨-, hrefused, -⟩⟩ :=
          Loop.applyTraceUpdate_admissions cfg.guards_eq hcall
        · exact hadmissible
        · exact absurd (hpulls.1.symm.trans hrefused) (by decide)
      have hcounted : Retains w₁ (count .pullInvocations w₁) := Retains.of_eq rfl rfl
      refine (hupdated.trans hcounted).trans (retains_pullAll cfg port _ fun i hi => ?_)
      simp only [pulled, count, modify] at hi ⊢
      rw [hrest] at hi ⊢
      exact h hpulls.2 hadmissible i hi

theorem retains_learnPorts (hlease : Leasable cfg lifetime) (ports : List Port)
    (h : cfg.enableInterestReforwarding = true → Loop.Admissible cfg.loop.temporary p seq w.ctl →
      ∀ i ∈ pulled cfg p w, Untouched w.env.rest.buffers i) :
    Retains w (Handled.world (learnPorts cfg p seq lifetime ports w)) := by
  induction ports generalizing w with
  | nil => exact Retains.of_eq rfl rfl
  | cons port rest ih =>
      have hfirst := retains_learnPort lifetime port h
      have hused := (learnPort_admissions p seq hlease port w).1
      rw [learnPorts]
      split
      next e hraise =>
        rw [hraise] at hfirst
        exact hfirst
      next w₁ hok =>
        rw [hok] at hfirst hused
        exact hfirst.trans (ih fun _ hadmissible => absurd hadmissible hused)

end Trace

/-- Trace Data brings an update that sends again an Interest whose Nonce has four
octets. -/
def PullsInPlace (cfg : EngineConfig) (w : EngineWorld) : EngineAction → Prop
  | .fire (.processDataAfterDelay _ data _) =>
    data.name.judgeNameIsTrace = true ∧ cfg.enableInterestReforwarding = true ∧
      ∃ seq, data.name.getTraceSequence = some seq ∧ CanLearn cfg data.name seq w ∧
        ∃ i ∈ pulledBy cfg data.name w.env.rest.pit,
          (i.nonceValue w.env.rest.buffers).length = 4
  | _ => False

theorem not_pullsInPlace_of_ne {a : EngineAction}
    (h : ∀ inPort data header, a ≠ .fire (.processDataAfterDelay inPort data header)) :
    ¬PullsInPlace cfg w a := by
  match a with
  | .receive inPort packet => exact id
  | .control => exact id
  | .fire (.processInterestAfterDelay inPort interest header) => exact id
  | .fire (.doDelayedPullSend interest port) => exact id
  | .fire (.processDataAfterDelay inPort data header) => exact absurd rfl (h inPort data header)

/-- Every pending Interest has its Nonce in a buffer. -/
def Backed (w : EngineWorld) : Prop :=
  ∀ (p : Name) (entry : PendingEntry), w.env.rest.pit.entries[p]? = some entry →
    ∃ buffer value, entry.interest.nonce = some buffer ∧
      w.env.rest.buffers[buffer]? = some value

theorem retains_forwardData (data : Data) (ports : Std.TreeSet Port) (header : PacketHeader)
    (w : EngineWorld) : Retains w (forwardData cfg data ports header w) := by
  simp only [forwardData, foldl_sendDataToPort]
  split
  · exact Retains.of_eq rfl rfl
  · exact Retains.of_eq rfl rfl

theorem Backed.untouched (h : Backed w) {data : Data} {inPort : Port} {header : PacketHeader}
    (hmeets : ¬PullsInPlace cfg w (.fire (.processDataAfterDelay inPort data header)))
    (htrace : data.name.judgeNameIsTrace = true)
    (hon : cfg.enableInterestReforwarding = true) {seq : Nat}
    (hseq : data.name.getTraceSequence = some seq) (hlearn : CanLearn cfg data.name seq w) :
    ∀ i ∈ pulledBy cfg data.name w.env.rest.pit, Untouched w.env.rest.buffers i := by
  intro i hi
  have hpending := List.mem_of_mem_take hi
  obtain ⟨n, entry, hentry, -, rfl⟩ := PendingInterestTable.mem_findByPrefix.mp hpending
  rw [PendingInterestTable.getElem?_takeDataMatchPorts] at hentry
  split at hentry
  · cases hentry
  obtain ⟨buffer, value, hnonce, hvalue⟩ := h n entry hentry
  refine ⟨buffer, value, hnonce, hvalue, fun hfour => hmeets ?_⟩
  refine ⟨htrace, hon, seq, hseq, hlearn, entry.interest, hi, ?_⟩
  simp only [Interest.nonceValue, hnonce, Option.bind_some, hvalue, Option.getD_some]
  exact hfour

theorem retains_processDataAfterDelay (hpit : w.env.rest.pit.PendingInv) (hbacked : Backed w)
    {data : Data} {inPort : Port} {header : PacketHeader}
    (hmeets : ¬PullsInPlace cfg w (.fire (.processDataAfterDelay inPort data header))) :
    Retains w (Handled.world (processDataAfterDelay cfg data header w)) := by
  have htaken : Retains w (setPit (w.env.rest.pit.takeDataMatchPorts data.name).2 w) :=
    Retains.of_eq rfl rfl
  simp only [processDataAfterDelay]
  split
  · exact htaken
  split
  swap
  · have hstored : Retains w (modify (fun s => { s with cs := s.cs.insert cfg.coin data })
        (setPit (w.env.rest.pit.takeDataMatchPorts data.name).2 w)) := Retains.of_eq rfl rfl
    exact hstored.trans (retains_forwardData _ _ _ _)
  next htrace =>
  split
  · exact htaken.trans (Retains.of_eq rfl rfl)
  next hpositive =>
  have hlearned : Retains w (Handled.world (handleTraceData cfg data
      (w.env.rest.pit.takeDataMatchPorts data.name).1 (savedLifetime data.name w.env.rest.pit)
      (setPit (w.env.rest.pit.takeDataMatchPorts data.name).2 w))) := by
    refine htaken.trans ?_
    unfold handleTraceData
    split
    · exact Retains.of_eq rfl rfl
    next hvalid =>
    split
    · exact Retains.of_eq rfl rfl
    next seq hseq =>
    dsimp only
    split
    · exact Retains.of_eq rfl rfl
    have hlease : Leasable cfg (savedLifetime data.name w.env.rest.pit) := by
      refine ⟨Int.not_le.mp hpositive, ?_⟩
      rwa [Bool.not_eq_true, Bool.not_eq_false'] at hvalid
    have hcounted : Retains (setPit (w.env.rest.pit.takeDataMatchPorts data.name).2 w)
        (count .traceUpdatesHandled
          (setPit (w.env.rest.pit.takeDataMatchPorts data.name).2 w)) := Retains.of_eq rfl rfl
    refine hcounted.trans (retains_learnPorts hlease _ fun hon hadmissible => ?_)
    refine hbacked.untouched hmeets htrace hon hseq ⟨?_, hadmissible⟩
    have hsaved := savedLifetime_eq hpit data.name
    cases hentry : w.env.rest.pit.entries[data.name]? with
    | none =>
        rw [hsaved, hentry] at hpositive
        exact absurd (Int.le_refl 0) hpositive
    | some entry =>
        rw [hsaved, hentry] at hlease
        exact ⟨entry, rfl, hlease⟩
  split
  next e hraise =>
    rw [hraise] at hlearned
    exact hlearned
  next w₁ hok =>
    rw [hok] at hlearned
    exact hlearned.trans (retains_forwardData _ _ _ _)

/-! ## Interests -/

theorem retains_processInterestAfterDelay {inPort : Port} {interest : Interest}
    {header : PacketHeader} (h : processInterestAfterDelay cfg inPort interest header w = .ok w') :
    Retains w w' := by
  obtain ⟨counters, encoded, ports, -, rfl⟩ := processInterestAfterDelay_eq_ok h
  exact Retains.of_eq rfl rfl

/-- An Interest that has its encoding is sent with the Nonce in its buffer. -/
theorem processInterestAfterDelay_sends (cfg : EngineConfig) (inPort : Port)
    {interest : Interest} (hwire : interest.hasWire = true) (header : PacketHeader)
    (w : EngineWorld) :
    ∃ w', processInterestAfterDelay cfg inPort interest header w = .ok w' ∧
      ∃ ports : List Port, w'.env.rest.log = w.env.rest.log ++ ports.map fun port =>
        .sentInterest port interest.name interest.selectors
          (interest.nonceValue w.env.rest.buffers) interest.lifetime := by
  obtain ⟨w', hok⟩ := processInterestAfterDelay_of_hasWire cfg inPort hwire header w
  obtain ⟨counters, encoded, ports, hencoded, rfl⟩ := processInterestAfterDelay_eq_ok hok
  refine ⟨_, hok, ports, congrArg (w.env.rest.log ++ ·) (List.map_congr_left fun port hport => ?_)⟩
  have hencoded := hencoded port hport
  rw [Interest.wireEncode_of_hasWire hwire] at hencoded
  cases hencoded
  rfl

/-! ## Arrivals -/

/-- The step is the arrival of an Interest with this Nonce, and `interest` is what is
decoded from the packet. -/
def Decodes (w : EngineWorld) (a : EngineAction) (interest : Interest) (nonce : Bytes) : Prop :=
  ∃ inPort packet name selectors lifetime, a = .receive inPort packet ∧
    ReachesStateful w inPort packet ∧
    packet.payload = .interest name selectors nonce lifetime ∧
    interest = (Interest.decode name selectors nonce lifetime w.env.rest.buffers).1

/-- The Interest arrived in the run with this Nonce. -/
def Arrived (steps : List Step) (interest : Interest) (nonce : Bytes) : Prop :=
  ∃ s ∈ steps, Decodes s.before s.action interest nonce

/-- What is decoded has the encoding that it is decoded from. -/
theorem Arrived.hasWire {interest : Interest} {nonce : Bytes}
    (h : Arrived steps interest nonce) : interest.hasWire = true := by
  obtain ⟨s, -, inPort, packet, name, selectors, lifetime, -, -, -, rfl⟩ := h
  rfl

/-- What a step does to the buffers and to the Interests that wait for their delay. -/
structure Carries (w : EngineWorld) (a : EngineAction) (w' : EngineWorld) : Prop where
  buffers : w.env.rest.buffers <+: w'.env.rest.buffers
  decoded : ∀ interest nonce, Decodes w a interest nonce →
    ∃ buffer, interest.nonce = some buffer ∧ w'.env.rest.buffers[buffer]? = some nonce
  waiting : ∀ e ∈ w'.env.rest.events, ∀ inPort interest header,
    e.event = .processInterestAfterDelay inPort interest header →
      e ∈ w.env.rest.events ∨ ∃ nonce, Decodes w a interest nonce

theorem Retains.carries (h : Retains w w') {a : EngineAction}
    (hother : ∀ inPort packet, a ≠ .receive inPort packet) : Carries w a w' := by
  refine ⟨h.buffers, ?_, fun e he inPort interest header hevent => Or.inl ?_⟩
  · rintro interest nonce ⟨inPort, packet, -, -, -, ha, -⟩
    exact absurd ha (hother inPort packet)
  · rcases h.events e he with hold | ⟨_, _, hpull⟩
    · exact hold
    · rw [hevent] at hpull
      cases hpull

/-- The control loop leaves the engine's own state alone. -/
theorem carries_control (h : w'.env.rest = w.env.rest) : Carries w .control w' := by
  have hretains : Retains w w' :=
    Retains.of_eq (congrArg EngineState.buffers h) (congrArg EngineState.events h)
  exact hretains.carries (by simp)

/-- The packet is no Interest that reaches the stateful module. -/
theorem Carries.of_eq {a : EngineAction} (hnone : ∀ interest nonce, ¬Decodes w a interest nonce)
    (hbuffers : w'.env.rest.buffers = w.env.rest.buffers)
    (hevents : ∀ e ∈ w'.env.rest.events, e ∈ w.env.rest.events ∨
      ∃ inPort data header, e.event = .processDataAfterDelay inPort data header) :
    Carries w a w' := by
  refine ⟨by rw [hbuffers], fun interest nonce h => absurd h (hnone interest nonce), ?_⟩
  intro e he inPort interest header hevent
  rcases hevents e he with hold | ⟨_, _, _, hdata⟩
  · exact Or.inl hold
  · rw [hevent] at hdata
    cases hdata

theorem waiting_processStatefulInterest (cfg : EngineConfig) (inPort : Port)
    (interest : Interest) (header : PacketHeader) (w : EngineWorld) :
    (Handled.world (processStatefulInterest cfg inPort interest header w)).env.rest.buffers =
        w.env.rest.buffers ∧
      ∀ e ∈ (Handled.world
          (processStatefulInterest cfg inPort interest header w)).env.rest.events,
        e ∈ w.env.rest.events ∨
          ∃ header', e.event = .processInterestAfterDelay inPort interest header' := by
  simp only [processStatefulInterest]
  split
  · exact ⟨rfl, fun e he => Or.inl he⟩
  split
  · exact ⟨rfl, fun e he => Or.inl he⟩
  split
  · exact ⟨rfl, fun e he => Or.inl he⟩
  · refine ⟨rfl, fun e he => ?_⟩
    rcases List.mem_append.mp he with hold | hnew
    · exact Or.inl hold
    · rw [List.mem_singleton.mp hnew]
      exact Or.inr ⟨_, rfl⟩

theorem world_discardMalformed (r : Handled) :
    (Handled.world (discardMalformed r)).env.rest.buffers =
        (Handled.world r).env.rest.buffers ∧
      (Handled.world (discardMalformed r)).env.rest.events =
        (Handled.world r).env.rest.events := by
  unfold discardMalformed
  split
  · exact ⟨rfl, rfl⟩
  · exact ⟨rfl, rfl⟩

theorem carries_onReceiveRawPacket (cfg : EngineConfig) (inPort : Port) (packet : RawPacket)
    (w : EngineWorld) : Carries w (.receive inPort packet)
      (Handled.world (onReceiveRawPacket cfg inPort packet w)) := by
  by_cases hreach : ReachesStateful w inPort packet
  swap
  · have hnone : ∀ interest nonce, ¬Decodes w (.receive inPort packet) interest nonce := by
      rintro interest nonce ⟨_, _, _, _, _, ⟨⟩, hreach', -⟩
      exact hreach hreach'
    unfold onReceiveRawPacket
    split
    · exact Carries.of_eq hnone rfl fun e he => Or.inl he
    next header hheader =>
    dsimp only
    split
    · exact Carries.of_eq hnone rfl fun e he => Or.inl he
    next hin =>
    split
    next hstateful =>
      exact absurd ⟨header, hheader, (Bool.not_eq_true _).mp hin, hstateful⟩ hreach
    next => exact Carries.of_eq hnone rfl fun e he => Or.inl he
  have hnone : (∀ name selectors nonce lifetime,
        packet.payload ≠ .interest name selectors nonce lifetime) →
      ∀ interest nonce, ¬Decodes w (.receive inPort packet) interest nonce := by
    rintro hother interest nonce ⟨_, _, name, selectors, lifetime, ⟨⟩, -, hpayload, -⟩
    exact hother name selectors nonce lifetime hpayload
  obtain ⟨header, hheader, hin, hstateful⟩ := hreach
  simp only [onReceiveRawPacket, hheader, hin, hstateful, Bool.false_eq_true, if_false, if_true]
  obtain ⟨hbuffers, hevents⟩ := world_discardMalformed
    (processPayload cfg inPort header packet.payload w)
  cases hpayload : packet.payload with
  | interest name selectors nonce lifetime =>
      have hdecodes : Decodes w (.receive inPort packet)
          (Interest.decode name selectors nonce lifetime w.env.rest.buffers).1 nonce :=
        ⟨inPort, packet, name, selectors, lifetime, rfl, ⟨header, hheader, hin, hstateful⟩,
          hpayload, rfl⟩
      rw [hpayload] at hbuffers hevents
      obtain ⟨hkept, hwaiting⟩ := waiting_processStatefulInterest cfg inPort
        (Interest.decode name selectors nonce lifetime w.env.rest.buffers).1 header
        (modify (fun s => { s with
          buffers := (Interest.decode name selectors nonce lifetime w.env.rest.buffers).2 }) w)
      have hgrown := hbuffers.trans hkept
      refine ⟨?_, ?_, ?_⟩
      · rw [hgrown]
        exact List.prefix_append _ _
      · rintro interest nonce' ⟨_, _, _, _, _, ⟨⟩, -, hpayload', rfl⟩
        rw [hpayload] at hpayload'
        cases hpayload'
        refine ⟨w.env.rest.buffers.length, rfl, ?_⟩
        rw [hgrown]
        exact List.getElem?_concat_length
      · intro e he inPort' interest header' hevent
        rw [hevents] at he
        rcases hwaiting e he with hold | ⟨_, hnew⟩
        · exact Or.inl hold
        · rw [hevent] at hnew
          cases hnew
          exact Or.inr ⟨nonce, hdecodes⟩
  | data name wire =>
      refine Carries.of_eq (hnone fun _ _ _ _ h => by rw [hpayload] at h; cases h) rfl
        fun e he => ?_
      rcases List.mem_append.mp he with hold | hnew
      · exact Or.inl hold
      · rw [List.mem_singleton.mp hnew]
        exact Or.inr ⟨_, _, _, rfl⟩
  | other =>
      exact Carries.of_eq (hnone fun _ _ _ _ h => by rw [hpayload] at h; cases h) rfl
        fun e he => Or.inl he
  | malformed =>
      exact Carries.of_eq (hnone fun _ _ _ _ h => by rw [hpayload] at h; cases h) rfl
        fun e he => Or.inl he

theorem EngineStep.carries {a : EngineAction} (hpit : w.env.rest.pit.PendingInv)
    (hbacked : Backed w) (hmeets : ¬PullsInPlace cfg w a)
    (hstep : EngineStep cfg w a (.ok w')) : Carries w a w' := by
  generalize hr : (.ok w' : Handled) = r at hstep
  cases hstep with
  | receive inPort packet =>
      have hcarries := carries_onReceiveRawPacket cfg inPort packet w
      rw [← hr] at hcarries
      exact hcarries
  | @fire e he hdue =>
      have htaken : Retains w (ForwardingEngine.take e w) :=
        ⟨List.prefix_rfl, fun e' he' => Or.inl (mem_cancel.mp he').1⟩
      refine Retains.carries ?_ (by simp)
      cases hevent : e.event with
      | processInterestAfterDelay inPort interest header =>
          rw [ForwardingEngine.fire, hevent] at hr
          exact htaken.trans (retains_processInterestAfterDelay hr.symm)
      | processDataAfterDelay inPort data header =>
          rw [hevent] at hmeets
          have hmeets' : ¬PullsInPlace cfg (ForwardingEngine.take e w)
            (.fire (.processDataAfterDelay inPort data header)) := hmeets
          have hdata := retains_processDataAfterDelay (by exact hpit) (by exact hbacked) hmeets'
          rw [ForwardingEngine.fire, hevent, handle] at hr
          rw [← hr] at hdata
          exact htaken.trans hdata
      | doDelayedPullSend interest port =>
          rw [ForwardingEngine.fire, hevent] at hr
          obtain ⟨encoded, -, rfl⟩ := doDelayedPullSend_eq_ok hr.symm
          exact htaken.trans (Retains.of_eq rfl rfl)
  | @temporary e he hdue =>
      cases hr
      exact carries_control (Loop.kept_fire cfg.loop e w).rest
  | @central e he hdue =>
      cases hr
      exact carries_control (Loop.kept_fireCentral cfg.loop e w).rest
  | idle =>
      cases hr
      exact carries_control rfl

/-! ## Runs -/

/-- What is known of every Interest as long as no buffer is overwritten: the Nonces of all
arrivals are where they were, and the pending Interests and those that wait for their
delay have arrived. -/
structure Remembers (steps : List Step) (w : EngineWorld) : Prop where
  stored : ∀ interest nonce, Arrived steps interest nonce →
    ∃ buffer, interest.nonce = some buffer ∧ w.env.rest.buffers[buffer]? = some nonce
  pending : ∀ (p : Name) (entry : PendingEntry), w.env.rest.pit.entries[p]? = some entry →
    ∃ nonce, Arrived steps entry.interest nonce
  waiting : ∀ e ∈ w.env.rest.events, ∀ inPort interest header,
    e.event = .processInterestAfterDelay inPort interest header →
      ∃ nonce, Arrived steps interest nonce

theorem Remembers.backed (h : Remembers steps w) : Backed w := by
  intro p entry hentry
  obtain ⟨nonce, harrived⟩ := h.pending p entry hentry
  obtain ⟨buffer, hbuffer, hvalue⟩ := h.stored _ _ harrived
  exact ⟨buffer, nonce, hbuffer, hvalue⟩

theorem Remembers.nonceValue_eq (h : Remembers steps w) {interest : Interest} {nonce : Bytes}
    (harrived : Arrived steps interest nonce) : interest.nonceValue w.env.rest.buffers = nonce := by
  obtain ⟨buffer, hbuffer, hvalue⟩ := h.stored _ _ harrived
  simp only [Interest.nonceValue, hbuffer, Option.bind_some, hvalue, Option.getD_some]

theorem Arrived.append {interest : Interest} {nonce : Bytes} (h : Arrived steps interest nonce)
    (s : Step) : Arrived (steps ++ [s]) interest nonce := by
  obtain ⟨s', hs', hdecodes⟩ := h
  exact ⟨s', List.mem_append_left _ hs', hdecodes⟩

theorem arrived_last {interest : Interest} {nonce : Bytes} {s : Step}
    (h : Decodes s.before s.action interest nonce) : Arrived (steps ++ [s]) interest nonce :=
  ⟨s, List.mem_append_right _ List.mem_cons_self, h⟩

/-- Where the pending Interests after a step come from. -/
theorem Effect.pending {a : EngineAction} (h : Effect cfg w w' a) {p : Name}
    {entry : PendingEntry} (hentry : w'.env.rest.pit.entries[p]? = some entry) :
    (∃ entry', w.env.rest.pit.entries[p]? = some entry' ∧ entry.interest = entry'.interest) ∨
      ∃ nonce, Decodes w a entry.interest nonce := by
  cases h with
  | quiet _ hquiet =>
      rw [hquiet.pit] at hentry
      exact Or.inl ⟨entry, hentry, rfl⟩
  | discard _ hdiscarded =>
      rw [hdiscarded.pit, PendingInterestTable.getElem?_takeDataMatchPorts] at hentry
      split at hentry
      · cases hentry
      · exact Or.inl ⟨entry, hentry, rfl⟩
  | deliver _ hdelivered =>
      rw [hdelivered.pit, PendingInterestTable.getElem?_takeDataMatchPorts] at hentry
      split at hentry
      · cases hentry
      · exact Or.inl ⟨entry, hentry, rfl⟩
  | @accept inPort packet name pit haccepts haccepted =>
      obtain ⟨hreach, selectors, nonce, lifetime, result, hpayload, hinsert, -⟩ := haccepts
      rw [haccepted.pit] at hentry
      rcases PendingInterestTable.insert_cases hinsert with
        ⟨-, -, rfl⟩ | ⟨first, hfirst, ⟨-, -, rfl⟩ | ⟨-, -, rfl⟩⟩
      · rw [Std.TreeMap.getElem?_insert] at hentry
        split at hentry
        · cases hentry
          exact Or.inr ⟨nonce, inPort, packet, name, selectors, lifetime, rfl, hreach, hpayload,
            rfl⟩
        · exact Or.inl ⟨entry, hentry, rfl⟩
      · exact Or.inl ⟨entry, hentry, rfl⟩
      · rw [Std.TreeMap.getElem?_insert] at hentry
        split at hentry
        next hname =>
          cases hentry
          have hp : name = p := Std.LawfulEqOrd.compare_eq_iff_eq.mp hname
          rw [← hp]
          exact Or.inl ⟨first, hfirst, rfl⟩
        next => exact Or.inl ⟨entry, hentry, rfl⟩

theorem Remembers.step (h : Remembers steps w) {a : EngineAction} (hinv : EngineInv cfg w₀ w)
    (hmeets : ¬PullsInPlace cfg w a) (hstep : EngineStep cfg w a (.ok w')) :
    Remembers (steps ++ [⟨w, a, .ok w'⟩]) w' := by
  have hcarries := hstep.carries hinv.pit h.backed hmeets
  obtain ⟨-, heffect⟩ := hinv.step hstep rfl
  refine ⟨?_, fun p entry hentry => ?_, fun e he inPort interest header hevent => ?_⟩
  · rintro interest nonce ⟨s, hs, hdecodes⟩
    rcases List.mem_append.mp hs with hold | hnew
    · obtain ⟨buffer, hbuffer, hvalue⟩ := h.stored _ _ ⟨s, hold, hdecodes⟩
      exact ⟨buffer, hbuffer, getElem?_of_isPrefix hcarries.buffers hvalue⟩
    · rw [List.mem_singleton.mp hnew] at hdecodes
      exact hcarries.decoded _ _ hdecodes
  · rcases heffect.pending hentry with ⟨entry', hentry', heq⟩ | ⟨nonce, hdecodes⟩
    · obtain ⟨nonce, harrived⟩ := h.pending p entry' hentry'
      rw [heq]
      exact ⟨nonce, harrived.append _⟩
    · exact ⟨nonce, arrived_last hdecodes⟩
  · rcases hcarries.waiting e he inPort interest header hevent with hold | ⟨nonce, hdecodes⟩
    · obtain ⟨nonce, harrived⟩ := h.waiting e hold inPort interest header hevent
      exact ⟨nonce, harrived.append _⟩
    · exact ⟨nonce, arrived_last hdecodes⟩

/-- The step sends its Interest with this Nonce and does nothing else to the log. -/
def SendsWith (s : Step) (interest : Interest) (nonce : Bytes) : Prop :=
  ∃ (w' : EngineWorld) (ports : List Port), s.outcome = .ok w' ∧
    w'.env.rest.log = s.before.env.rest.log ++
      ports.map fun port =>
        .sentInterest port interest.name interest.selectors nonce interest.lifetime

theorem EngineStep.sendsWith {inPort : Port} {interest : Interest} {header : PacketHeader}
    {r : Handled} (hwire : interest.hasWire = true)
    (hstep : EngineStep cfg w (.fire (.processInterestAfterDelay inPort interest header)) r) :
    SendsWith ⟨w, .fire (.processInterestAfterDelay inPort interest header), r⟩ interest
      (interest.nonceValue w.env.rest.buffers) := by
  obtain ⟨e, -, -, -, rfl⟩ := hstep.exists_of_fire
  obtain ⟨w', hok, ports, hlog⟩ := processInterestAfterDelay_sends cfg inPort hwire header
    (ForwardingEngine.take e w)
  exact ⟨w', ports, hok, hlog⟩

/-- A run in which no update pulls in place: what is known at its end, and what its steps
have sent. -/
theorem EngineRun.remembers {r : Handled} (hrun : EngineRun cfg w₀ steps r)
    (hmeets : ∀ s ∈ steps, ¬PullsInPlace cfg s.before s.action) :
    (∀ w, r = .ok w → Remembers steps w) ∧
      ∀ s ∈ steps, ∀ inPort interest header,
        s.action = .fire (.processInterestAfterDelay inPort interest header) →
          ∃ nonce, Arrived steps interest nonce ∧ SendsWith s interest nonce := by
  induction hrun with
  | start h =>
      refine ⟨?_, by simp⟩
      rintro w ⟨⟩
      refine ⟨?_, ?_, ?_⟩
      · rintro interest nonce ⟨s, hs, -⟩
        exact absurd hs List.not_mem_nil
      · intro p entry hentry
        rw [h.pit] at hentry
        simp [PendingInterestTable.empty] at hentry
      · intro e he
        rw [h.events] at he
        exact absurd he List.not_mem_nil
  | @step steps w a r hbefore hstep ih =>
      obtain ⟨hknown, hsent⟩ := ih fun s hs => hmeets s (List.mem_append_left _ hs)
      have hremembers := hknown w rfl
      have hlast : ¬PullsInPlace cfg w a := hmeets ⟨w, a, r⟩ (by simp)
      refine ⟨?_, fun s hs inPort interest header haction => ?_⟩
      · rintro w' rfl
        exact hremembers.step (hbefore.inv.1 w rfl) hlast hstep
      · rcases List.mem_append.mp hs with hold | hnew
        · obtain ⟨nonce, harrived, hsends⟩ := hsent s hold inPort interest header haction
          exact ⟨nonce, harrived.append _, hsends⟩
        · obtain rfl := List.mem_singleton.mp hnew
          obtain rfl : a = .fire (.processInterestAfterDelay inPort interest header) := haction
          obtain ⟨e, he, hevent, -, -⟩ := hstep.exists_of_fire
          obtain ⟨nonce, harrived⟩ := hremembers.waiting e he inPort interest header hevent
          have hsends := hstep.sendsWith harrived.hasWire
          rw [hremembers.nonceValue_eq harrived] at hsends
          exact ⟨nonce, harrived.append _, hsends⟩

/-! ## Loop suppression -/

/-- An Interest with this name and this Nonce is classified as a duplicate if it arrives
now. -/
def IsDuplicate (w : EngineWorld) (inPort : Port) (name : Name) (selectors : Selectors)
    (nonce : Bytes) (lifetime : Option UInt64) : Prop :=
  ∃ result pit, w.env.rest.pit.insert
      (Interest.decode name selectors nonce lifetime w.env.rest.buffers).2 w.clock.now
      (Interest.decode name selectors nonce lifetime w.env.rest.buffers).1 inPort =
        some (result, pit) ∧
    result.status = .duplicate

/-- The Nonce that the entry was created with is a duplicate if `getNonce` can read it. -/
theorem Remembers.isDuplicate_iff (h : Remembers steps w) {p : Name} {entry : PendingEntry}
    (hentry : w.env.rest.pit.entries[p]? = some entry) {nonce : Bytes}
    (harrived : Arrived steps entry.interest nonce) (inPort : Port)
    (selectors : Selectors) (lifetime : Option UInt64) :
    IsDuplicate w inPort p selectors nonce lifetime ↔ (Interest.nonceWord nonce).isSome = true := by
  obtain ⟨buffer, hbuffer, hvalue⟩ := h.stored _ _ harrived
  have hfirst : entry.interest.getNonce (w.env.rest.buffers ++ [nonce]) =
      Interest.nonceWord nonce := by
    have hkept : (w.env.rest.buffers ++ [nonce])[buffer]? = some nonce :=
      getElem?_of_isPrefix (List.prefix_append _ _) hvalue
    simp only [Interest.getNonce, Interest.nonceValue, hbuffer, Option.bind_some, hkept,
      Option.getD_some]
  have hsecond : (Interest.decode p selectors nonce lifetime w.env.rest.buffers).1.getNonce
      (w.env.rest.buffers ++ [nonce]) = Interest.nonceWord nonce := by
    simp [Interest.getNonce, Interest.nonceValue, Interest.decode]
  have hboth : (entry.interest.hasNonce &&
      (Interest.decode p selectors nonce lifetime w.env.rest.buffers).1.hasNonce) = true := by
    simp [Interest.hasNonce, hbuffer, Interest.decode]
  have hsame : PendingInterestTable.sameNonce (w.env.rest.buffers ++ [nonce]) entry.interest
      (Interest.decode p selectors nonce lifetime w.env.rest.buffers).1 =
        (Interest.nonceWord nonce).map fun _ => true := by
    rw [PendingInterestTable.sameNonce, if_pos hboth, hfirst, hsecond]
    cases Interest.nonceWord nonce with
    | none => rfl
    | some word => simp
  have hinsert : w.env.rest.pit.insert
      (Interest.decode p selectors nonce lifetime w.env.rest.buffers).2 w.clock.now
      (Interest.decode p selectors nonce lifetime w.env.rest.buffers).1 inPort =
        (Interest.nonceWord nonce).map fun _ => (⟨.duplicate, entry.interest⟩, w.env.rest.pit) := by
    unfold PendingInterestTable.insert
    have hname : (Interest.decode p selectors nonce lifetime w.env.rest.buffers).1.name = p := rfl
    have hbuffers : (Interest.decode p selectors nonce lifetime w.env.rest.buffers).2 =
      w.env.rest.buffers ++ [nonce] := rfl
    rw [hname, hentry, hbuffers]
    simp only [hsame, Option.map_map]
    rfl
  rw [IsDuplicate, hinsert]
  cases Interest.nonceWord nonce with
  | none => simp
  | some word => simp

/-- Loop suppression and the waiting Interests: as long as a pending Interest exists, its
Nonce is a duplicate if it can be read at all, and every Interest is sent with the Nonce
that it arrived with. -/
structure KeepsNonces (steps : List Step) (w : EngineWorld) : Prop where
  duplicate : ∀ (p : Name) (entry : PendingEntry), w.env.rest.pit.entries[p]? = some entry →
    (∃ nonce, Arrived steps entry.interest nonce) ∧
      ∀ nonce, Arrived steps entry.interest nonce → ∀ inPort selectors lifetime,
        IsDuplicate w inPort p selectors nonce lifetime ↔
          (Interest.nonceWord nonce).isSome = true
  sent : ∀ s ∈ steps, ∀ inPort interest header,
    s.action = .fire (.processInterestAfterDelay inPort interest header) →
      (∃ nonce, Arrived steps interest nonce) ∧
        ∀ nonce, Arrived steps interest nonce → SendsWith s interest nonce

/-- No Nonce changes in a run in which no update pulls an Interest whose Nonce has four
octets. -/
theorem reforwarding_keeps_nonces (hrun : EngineRun cfg w₀ steps (.ok w))
    (hmeets : ∀ s ∈ steps, ¬PullsInPlace cfg s.before s.action) : KeepsNonces steps w := by
  obtain ⟨hknown, hsent⟩ := hrun.remembers hmeets
  have hremembers := hknown w rfl
  refine ⟨fun p entry hentry => ⟨hremembers.pending p entry hentry, ?_⟩,
    fun s hs inPort interest header haction => ?_⟩
  · intro nonce harrived
    exact hremembers.isDuplicate_iff hentry harrived
  · obtain ⟨nonce, harrived, hsends⟩ := hsent s hs inPort interest header haction
    refine ⟨⟨nonce, harrived⟩, fun nonce' harrived' => ?_⟩
    -- both are what the buffer of the Interest holds
    obtain rfl : nonce = nonce' :=
      (hremembers.nonceValue_eq harrived).symm.trans (hremembers.nonceValue_eq harrived')
    exact hsends

/-- After the reforwarding another Interest for the name has arrived, and waits for its
delay. -/
def repeatedWorld : EngineWorld := arrived slowEngineConfig 4 (contentInterest 9) reforwardedWorld

theorem due_repeatedWorld : ∃ e interest header, repeatedWorld.env.rest.events.head? = some e ∧
    IsDue repeatedWorld e.key ∧ e.event = .processInterestAfterDelay 4 interest header ∧
    e.ts = 0 ∧ interest.name = contentName ∧ interest.selectors = {} ∧
    interest.hasWire = true ∧ interest.lifetime = 4000 ∧
    interest.nonceValue repeatedWorld.env.rest.buffers = [9, 0, 0, 0] :=
  ⟨_, _, _, rfl, by decide, rfl, rfl, rfl, rfl, rfl, rfl, rfl⟩

/-- The update gave the name a live hop by port 2. -/
theorem live_repeatedWorld :
    (TemporaryForwardingTable.liveHop? 0 repeatedWorld.ctl.temporaryFib contentName 2).isSome =
      true := by
  decide

/-- The waiting Interest is sent by port 2. -/
theorem fire_repeatedWorld {steps : List Step}
    (hrun : EngineRun slowEngineConfig sampleEngine steps (.ok repeatedWorld)) :
    ∃ e w', repeatedWorld.env.rest.events.head? = some e ∧ IsDue repeatedWorld e.key ∧
      (∃ interest header, e.event = .processInterestAfterDelay 4 interest header) ∧
      fire slowEngineConfig e repeatedWorld = .ok w' ∧
      .sentInterest 2 contentName {} [9, 0, 0, 0] 4000 ∈ w'.env.rest.log ∧
      w'.log = repeatedWorld.log := by
  have hroutable := hrun.edited.routable
  obtain ⟨e, interest, header, he, hdue, hevent, hts, hname, hselectors, hwire, hlifetime,
    hvalue⟩ := due_repeatedWorld
  obtain ⟨w', hok⟩ := processInterestAfterDelay_of_hasWire slowEngineConfig 4 hwire header
    (take e repeatedWorld)
  have hfire : fire slowEngineConfig e repeatedWorld = .ok w' := by
    simp only [fire, hevent, handle]
    exact hok
  have htaken : Loop.Routable (take e repeatedWorld) :=
    ⟨hroutable.fib, hroutable.switch, hroutable.inFlight, hroutable.pending⟩
  have hnow : (take e repeatedWorld).clock.now = 0 := hts
  have hlive : (TemporaryForwardingTable.liveHop? (take e repeatedWorld).clock.now
      (take e repeatedWorld).ctl.temporaryFib (interest.name.take 2) 2).isSome = true := by
    rw [hnow, hname]
    exact live_repeatedWorld
  have hlongest : LongestLive (take e repeatedWorld).clock.now
      (take e repeatedWorld).ctl.temporaryFib interest.name 2 := by
    refine ⟨by rw [hname]; decide, ⟨2, hlive⟩, fun j hlt hle => ?_⟩
    rw [hname] at hle
    exact absurd hle (Nat.not_le.mpr hlt)
  obtain ⟨ports, -, hmem, hsent⟩ := transmits_temporary slowEngineConfig htaken rfl hwire hok
    hlongest (by decide) hlive
  have hvalue : interest.nonceValue (take e repeatedWorld).env.rest.buffers = [9, 0, 0, 0] :=
    hvalue
  have hlog := hsent.log
  rw [hvalue, hname, hselectors, hlifetime] at hlog
  obtain ⟨counters, encoded, sent, -, hw'⟩ := processInterestAfterDelay_eq_ok hok
  refine ⟨e, w', he, hdue, ⟨interest, header, hevent⟩, hfire, ?_, by rw [hw']; rfl⟩
  rw [hlog]
  refine List.mem_append_right _ (List.mem_map.mpr ⟨2, (hmem 2).mpr ⟨hlive, ?_⟩, rfl⟩)
  decide

/-- An update is admitted and an Interest with a Nonce of two octets is sent again, and
the Interest that arrives afterwards is sent with its own Nonce. -/
theorem reforwarding_keeps_nonces_repeatedWorld :
    ∃ steps w u, EngineRun slowEngineConfig sampleEngine steps (.ok w) ∧
      .admitted u ∈ w.log ∧
      (∃ s ∈ steps, s.action = .fire (.doDelayedPullSend resentInterest 2)) ∧
      (∃ s ∈ steps, ∃ interest header,
        s.action = .fire (.processInterestAfterDelay 4 interest header)) ∧
      .sentInterest 2 contentName {} [9, 0, 0, 0] 4000 ∈ w.env.rest.log ∧
      (∀ s ∈ steps, ¬PullsInPlace slowEngineConfig s.before s.action) ∧ KeepsNonces steps w := by
  obtain ⟨steps, hrun, -, hother⟩ := run_answeringWorld
  have hresent := run_reforwardedWorld (run_reforwardingWorld hrun)
  have hrepeated := hresent.arrive 4 (contentInterest 9)
  obtain ⟨e, w', he, hdue, ⟨interest, header, hevent⟩, hfire, hsent, hlog⟩ :=
    fire_repeatedWorld hrepeated
  have hfired := hrepeated.fireNext he hdue hfire
  have hnever : ∀ s ∈ steps, ¬PullsInPlace slowEngineConfig s.before s.action := fun s hs =>
    not_pullsInPlace_of_ne (hother s hs).1
  -- the only Interest that is pulled has a Nonce of two octets
  have hpulled : ∀ i ∈ pulledBy slowEngineConfig traceName answeringWorld.env.rest.pit,
      (i.nonceValue answeringWorld.env.rest.buffers).length ≠ 4 := by decide
  obtain ⟨u, hadmitted⟩ : ∃ u, repeatedWorld.log.head? = some (.admitted u) := ⟨_, rfl⟩
  refine ⟨_, w', u, hfired, ?_, ⟨⟨reforwardingWorld, .fire (.doDelayedPullSend resentInterest 2),
    .ok reforwardedWorld⟩, ?_, rfl⟩, ⟨⟨repeatedWorld, .fire e.event, .ok w'⟩, ?_, interest, header,
    congrArg EngineAction.fire hevent⟩, hsent, ?meets, reforwarding_keeps_nonces hfired ?meets⟩
  · rw [hlog]
    exact List.mem_of_mem_head? hadmitted
  · exact List.mem_append_left _ (List.mem_append_left _ (List.mem_append_right _
      List.mem_cons_self))
  · exact List.mem_append_right _ List.mem_cons_self
  · refine forall_steps_append (forall_steps_append (forall_steps_append
      (forall_steps_append hnever ?_) id) id) ?_
    · rintro ⟨-, -, seq, -, -, i, hi, hfour⟩
      exact hpulled i hi hfour
    · rw [hevent]
      exact id

/-! ## An update overwrites the Nonce of a pending Interest -/

/-- The Interest of `requestedWorld` is pending, and a Trace Interest waits for its
delay. -/
def askedWorld : EngineWorld :=
  arrived sampleEngineConfig 2 (traceInterest 2) (rejected contentName (takeFirst requestedWorld))

/-- The Trace Data has arrived and waits for its delay. -/
def pullingWorld : EngineWorld :=
  arrived sampleEngineConfig 3 traceData (rejected traceName (takeFirst askedWorld))

/-- The update has been learned, and the pending Interest is to be sent again. -/
def pulledWorld : EngineWorld :=
  learned sampleEngineConfig receivedTrace (takeFirst pullingWorld)

theorem run_pullingWorld :
    ∃ steps, EngineRun sampleEngineConfig sampleEngine steps (.ok pullingWorld) ∧
      Arrived steps (Interest.decode contentName {} [1, 0, 0, 0] none []).1 [1, 0, 0, 0] := by
  have hrejected := run_requestedWorld.fireInterest (by rfl) (by decide) (by rfl)
    (fib_initPipeline EntrySort.mergeSort)
  have hasked := (hrejected.arrive 2 (traceInterest 2)).fireInterest (by rfl) (by decide)
    (by rfl) (fib_initPipeline EntrySort.mergeSort)
  refine ⟨_, hasked.arrive 3 traceData, ?_⟩
  have hreach := reachesStateful_unprocessed (w := sampleEngine)
    (isSwitch_initPipeline EntrySort.mergeSort) 1 (contentInterest 1)
  refine ⟨⟨sampleEngine, .receive 1 (unprocessed (contentInterest 1)), .ok requestedWorld⟩,
    by simp, ?_⟩
  exact ⟨1, unprocessed (contentInterest 1), contentName, {}, none, rfl, hreach, rfl, rfl⟩

/-- An Interest with the Nonce of the pending one is aggregated: the update has
overwritten that Nonce. -/
theorem not_keepsNonces_pulledWorld :
    ∃ steps w, EngineRun sampleEngineConfig sampleEngine steps (.ok w) ∧
      ∃ entry, w.env.rest.pit.entries[contentName]? = some entry ∧
        Arrived steps entry.interest [1, 0, 0, 0] ∧
        (Interest.nonceWord [1, 0, 0, 0]).isSome = true ∧
        ¬IsDuplicate w 1 contentName {} [1, 0, 0, 0] none := by
  obtain ⟨steps, hrun, s, hs, hdecodes⟩ := run_pullingWorld
  have hevents : pullingWorld.env.rest.events =
    [⟨0, 2, .processDataAfterDelay 3 receivedTrace hopHeader⟩] := rfl
  have hpulled := hrun.fireTrace hevents (by decide) (by decide) (by decide) (by decide) ⟨_, rfl⟩
  refine ⟨_, pulledWorld, hpulled, _, rfl, ⟨s, List.mem_append_left _ hs, hdecodes⟩, by decide,
    ?_⟩
  rintro ⟨result, pit, hinsert, hstatus⟩
  have haggregated : (pulledWorld.env.rest.pit.insert
      (Interest.decode contentName {} [1, 0, 0, 0] none pulledWorld.env.rest.buffers).2
      pulledWorld.clock.now
      (Interest.decode contentName {} [1, 0, 0, 0] none pulledWorld.env.rest.buffers).1 1).map
        (fun r => r.1.status) = some .aggregated := by decide
  have hagain : some result.status = some .aggregated := by
    rw [← haggregated]
    exact (congrArg (Option.map fun r => r.1.status) hinsert).symm
  rw [hstatus] at hagain
  cases hagain

end ForwardingEngine

end Statim
