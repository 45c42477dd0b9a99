import Statim.Engine.EngineRuns

/-!
# What a step of the engine does

One inversion lemma says what a step can do to the pending Interest table, the
content store and the log: nothing but send Interests, accept an Interest, or
consume pending Interests with Data that is then delivered or discarded.  The
properties of the engine are derived from it, without unfolding a handler again.
-/

namespace Statim

open Support SwitchPipeline

namespace ForwardingEngine

variable {cfg : EngineConfig} {w w' w₀ : EngineWorld}

/-! ## Transmissions -/

/-- Only Interests are sent, and the tables stay as they are. -/
structure Quiet (w w' : EngineWorld) : Prop where
  pit : w'.env.rest.pit = w.env.rest.pit
  cs : w'.env.rest.cs = w.env.rest.cs
  log : ∃ news, w'.env.rest.log = w.env.rest.log ++ news ∧
    ∀ o ∈ news, ∃ port name selectors nonce lifetime,
      o = .sentInterest port name selectors nonce lifetime

theorem Quiet.of_log_eq (hpit : w'.env.rest.pit = w.env.rest.pit)
    (hcs : w'.env.rest.cs = w.env.rest.cs) (hlog : w'.env.rest.log = w.env.rest.log) :
    Quiet w w' :=
  ⟨hpit, hcs, [], by rw [hlog, List.append_nil], by simp⟩

theorem Quiet.of_rest_eq (h : w'.env.rest = w.env.rest) : Quiet w w' :=
  Quiet.of_log_eq (congrArg EngineState.pit h) (congrArg EngineState.cs h)
    (congrArg EngineState.log h)

theorem Quiet.trans {w'' : EngineWorld} (h : Quiet w w') (h' : Quiet w' w'') : Quiet w w'' := by
  obtain ⟨news, hlog, hnews⟩ := h.log
  obtain ⟨news', hlog', hnews'⟩ := h'.log
  refine ⟨h'.pit.trans h.pit, h'.cs.trans h.cs, news ++ news', ?_, fun o ho => ?_⟩
  · rw [hlog', hlog, List.append_assoc]
  · rcases List.mem_append.mp ho with ho | ho
    · exact hnews o ho
    · exact hnews' o ho

theorem quiet_noteInterest (port : Port) (encoded : Interest) (w : EngineWorld) :
    Quiet w (noteInterest port encoded w) := by
  refine ⟨rfl, rfl, _, rfl, fun o ho => ?_⟩
  exact ⟨_, _, _, _, _, List.mem_singleton.mp ho⟩

theorem sendInterestToPort_of_encoded {interest encoded : Interest}
    (h : interest.wireEncode = some encoded) (port : Port) (w : EngineWorld) :
    sendInterestToPort port interest w = .ok (noteInterest port encoded w) := by
  rw [sendInterestToPort, h]

/-- A transmission completes only for an Interest that can be encoded. -/
theorem sendInterestToPort_eq_ok {port : Port} {interest : Interest}
    (h : sendInterestToPort port interest w = .ok w') :
    ∃ encoded, interest.wireEncode = some encoded ∧ w' = noteInterest port encoded w := by
  unfold sendInterestToPort at h
  split at h
  next => cases h
  next encoded hencoded =>
    cases h
    exact ⟨encoded, hencoded, rfl⟩

/-- An Interest that can be encoded goes to every port. -/
theorem forwardInterests_of_encoded {interest encoded : Interest}
    (h : interest.wireEncode = some encoded) (used : Bool) (ports : List Port)
    (w : EngineWorld) :
    forwardInterests used interest ports w =
      .ok (ports.foldl (fun w port => noteInterest port encoded (countTransmission used w)) w) := by
  induction ports generalizing w with
  | nil => rfl
  | cons port rest ih =>
      simp only [forwardInterests, sendInterestToPort_of_encoded h, ih, List.foldl_cons]

/-- The loop only counts and sends one encoding of the Interest. -/
theorem forwardInterests_eq_ok {used : Bool} {interest : Interest} {ports : List Port}
    (h : forwardInterests used interest ports w = .ok w') :
    ∃ counters encoded, (∀ port ∈ ports, interest.wireEncode = some encoded) ∧
      w' = modify (fun s => { s with
        counters := counters
        log := s.log ++ ports.map fun port => .sentInterest port encoded.name encoded.selectors
          (encoded.nonceValue w.env.rest.buffers) encoded.lifetime }) w := by
  induction ports generalizing w with
  | nil =>
      cases h
      exact ⟨w'.env.rest.counters, interest, by simp, by simp [modify]⟩
  | cons port rest ih =>
      rw [forwardInterests] at h
      split at h
      next => cases h
      next w₁ hsend =>
        obtain ⟨encoded, hencoded, rfl⟩ := sendInterestToPort_eq_ok hsend
        obtain ⟨counters, encoded', hrest, rfl⟩ := ih h
        have hsame : ∀ q ∈ rest, encoded' = encoded := fun q hq =>
          Option.some.inj ((hrest q hq).symm.trans hencoded)
        refine ⟨counters, encoded, fun _ _ => hencoded, ?_⟩
        have hmap : (rest.map fun q => EngineObs.sentInterest q encoded'.name encoded'.selectors
            (encoded'.nonceValue w.env.rest.buffers) encoded'.lifetime) =
            rest.map fun q => .sentInterest q encoded.name encoded.selectors
              (encoded.nonceValue w.env.rest.buffers) encoded.lifetime :=
          List.map_congr_left fun q hq => by rw [hsame q hq]
        simp only [noteInterest, note, countTransmission, count, modify, hmap, List.append_assoc,
          List.map_cons, List.singleton_append]

/-- What an Interest does after its delay: it is counted, and one encoding of it is sent
to some ports. -/
theorem processInterestAfterDelay_eq_ok {inPort : Port} {interest : Interest}
    {header : PacketHeader} (h : processInterestAfterDelay cfg inPort interest header w = .ok w') :
    ∃ counters encoded, ∃ ports : List Port,
      (∀ port ∈ ports, interest.wireEncode = some encoded) ∧
      w' = modify (fun s => { s with
        counters := counters
        log := s.log ++ ports.map fun port => .sentInterest port encoded.name encoded.selectors
          (encoded.nonceValue w.env.rest.buffers) encoded.lifetime })
        (LocalRouteController.findLongestPrefix interest.name w).2 := by
  have hroute : (Loop.selectRoute cfg.loop cfg.enableTemporaryFib interest.name header w).2 =
      (LocalRouteController.findLongestPrefix interest.name w).2 := rfl
  simp only [processInterestAfterDelay, hroute] at h
  split at h
  · cases h
    exact ⟨(count .statimLookupMisses
      (LocalRouteController.findLongestPrefix interest.name w).2).env.rest.counters, interest, [],
      by simp, by simp [count, modify]⟩
  split at h
  · cases h
    exact ⟨(count .noRouteRejections (count .statimLookupMisses
      (LocalRouteController.findLongestPrefix interest.name w).2)).env.rest.counters, interest,
      [], by simp, by simp [count, modify]⟩
  · obtain ⟨counters, encoded, hencoded, rfl⟩ := forwardInterests_eq_ok h
    exact ⟨counters, encoded, _, hencoded, rfl⟩

/-- An Interest that has its encoding can be forwarded. -/
theorem processInterestAfterDelay_of_hasWire (cfg : EngineConfig) (inPort : Port)
    {interest : Interest} (hwire : interest.hasWire = true) (header : PacketHeader)
    (w : EngineWorld) :
    ∃ w', processInterestAfterDelay cfg inPort interest header w = .ok w' := by
  simp only [processInterestAfterDelay,
    forwardInterests_of_encoded (Interest.wireEncode_of_hasWire hwire)]
  split
  · exact ⟨_, rfl⟩
  split
  · exact ⟨_, rfl⟩
  · exact ⟨_, rfl⟩

theorem processInterestAfterDelay_effect {inPort : Port} {interest : Interest}
    {header : PacketHeader} (h : processInterestAfterDelay cfg inPort interest header w = .ok w') :
    Moves cfg w w' ∧ Quiet w w' := by
  obtain ⟨counters, encoded, ports, -, rfl⟩ := processInterestAfterDelay_eq_ok h
  refine ⟨(moves_findLongestPrefix cfg interest.name w).trans (moves_modify cfg _ fun _ => rfl),
    rfl, rfl, _, rfl, fun o ho => ?_⟩
  obtain ⟨port, -, rfl⟩ := List.mem_map.mp ho
  exact ⟨_, _, _, _, _, rfl⟩

/-- An Interest that is sent again is encoded first. -/
theorem doDelayedPullSend_eq_ok {interest : Interest} {port : Port}
    (h : doDelayedPullSend interest port w = .ok w') :
    ∃ encoded, interest.wireEncode = some encoded ∧
      w' = noteInterest port encoded (count .pendingPullsSent w) :=
  sendInterestToPort_eq_ok h

/-- Sending Data to a list of ports appends to the log. -/
theorem foldl_sendDataToPort (data : Data) (ports : List Port) (w : EngineWorld) :
    ports.foldl (fun w port => sendDataToPort port data w) w =
      modify (fun s => { s with log := s.log ++ ports.map fun port => .sentData port data }) w := by
  induction ports generalizing w with
  | nil => simp [modify]
  | cons port rest ih =>
      rw [List.foldl_cons, ih]
      simp [sendDataToPort, note, modify]

/-! ## Data -/

/-- The ports that Data with this name goes to. -/
def dataPorts (name : Name) (pit : PendingInterestTable) : List Port :=
  maskPorts (encodeOutPortsMask (pit.takeDataMatchPorts name).1.toList)

/-- The second pass sends Data to the return ports that the bitmap can hold. -/
theorem forwardData_eq (hsw : IsSwitch w.env.switch) (data : Data) (ports : Std.TreeSet Port)
    (header : PacketHeader) :
    forwardData cfg data ports header w =
      modify (fun s => { s with log := s.log ++
        (maskPorts (encodeOutPortsMask ports.toList)).map fun port => .sentData port data }) w := by
  have hsends := hsw.hasTables.sendsTo_data (dataHeader cfg data.name ports header) w.clock.now rfl
  have hmask : (dataHeader cfg data.name ports header).outPorts =
      encodeOutPortsMask ports.toList := rfl
  rw [hmask] at hsends
  simp only [forwardData]
  split
  next hdrop =>
    have hnone : maskPorts (encodeOutPortsMask ports.toList) = [] := by
      rw [Bool.or_eq_true, hsends.dropped, decide_eq_true_eq, isEmpty_iff_toList,
        hsends.outputPorts, or_self] at hdrop
      exact hdrop
    rw [hnone]
    simp [modify]
  next => rw [foldl_sendDataToPort, hsends.outputPorts]

/-- The Data is discarded after it has consumed what it matches. -/
def Discards (name : Name) (pit : PendingInterestTable) : Prop :=
  (pit.takeDataMatchPorts name).1.isEmpty = true ∨
    name.judgeNameIsTrace = true ∧ savedLifetime name pit ≤ 0

/-- What Data does that is discarded. -/
structure Discarded (data : Data) (w w' : EngineWorld) : Prop where
  pit : w'.env.rest.pit = (w.env.rest.pit.takeDataMatchPorts data.name).2
  cs : w'.env.rest.cs = w.env.rest.cs
  log : w'.env.rest.log = w.env.rest.log

/-- What Data does that is delivered. -/
structure Delivered (cfg : EngineConfig) (data : Data) (w w' : EngineWorld) : Prop where
  pit : w'.env.rest.pit = (w.env.rest.pit.takeDataMatchPorts data.name).2
  cs : w'.env.rest.cs = if data.name.judgeNameIsTrace then w.env.rest.cs
    else w.env.rest.cs.insert cfg.coin data
  log : w'.env.rest.log = w.env.rest.log ++
    (dataPorts data.name w.env.rest.pit).map fun port => .sentData port data

theorem moves_forwardData (cfg : EngineConfig) (data : Data) (ports : Std.TreeSet Port)
    (header : PacketHeader) (w : EngineWorld) :
    Moves cfg w (forwardData cfg data ports header w) := by
  simp only [forwardData, foldl_sendDataToPort]
  split
  · exact Moves.refl cfg w
  · exact moves_modify cfg w fun _ => rfl

theorem moves_processDataAfterDelay {data : Data} {header : PacketHeader}
    (h : processDataAfterDelay cfg data header w = .ok w') : Moves cfg w w' := by
  have htaken := moves_setPit cfg (w.env.rest.pit.takeDataMatchPorts data.name).2 w
  simp only [processDataAfterDelay] at h
  split at h
  · cases h
    exact htaken
  split at h
  · split at h
    · cases h
      exact htaken.trans (moves_count cfg _ _)
    split at h
    · cases h
    next w₁ hlearn =>
      have hlearns := learns_handleTraceData cfg data
        (w.env.rest.pit.takeDataMatchPorts data.name).1 (savedLifetime data.name w.env.rest.pit)
        (setPit (w.env.rest.pit.takeDataMatchPorts data.name).2 w)
      rw [hlearn] at hlearns
      cases h
      exact (htaken.trans hlearns.toMoves).trans (moves_forwardData cfg _ _ _ _)
  · cases h
    refine Moves.trans ?_ (moves_forwardData cfg _ _ _ _)
    exact htaken.trans (moves_modify cfg _ fun _ => rfl)

/-- Data changes the table and possibly the loop; what it does to the engine is
decided by the table. -/
theorem processDataAfterDelay_ok (hrun : Loop.LoopRun cfg.loop w₀ w) {data : Data}
    {header : PacketHeader} (h : processDataAfterDelay cfg data header w = .ok w') :
    Discards data.name w.env.rest.pit ∧ Discarded data w w' ∨
      ¬Discards data.name w.env.rest.pit ∧ Delivered cfg data w w' := by
  simp only [processDataAfterDelay] at h
  split at h
  next hempty =>
    cases h
    exact Or.inl ⟨Or.inl hempty, rfl, rfl, rfl⟩
  next hports =>
  split at h
  next htrace =>
    split at h
    next hzero =>
      cases h
      exact Or.inl ⟨Or.inr ⟨htrace, hzero⟩, rfl, rfl, rfl⟩
    next hpositive =>
    have hkeep : ¬Discards data.name w.env.rest.pit := by
      rintro (hempty | ⟨-, hzero⟩)
      · exact hports hempty
      · exact hpositive hzero
    split at h
    · cases h
    next w₁ hlearn =>
      have hlearns := learns_handleTraceData cfg data
        (w.env.rest.pit.takeDataMatchPorts data.name).1 (savedLifetime data.name w.env.rest.pit)
        (setPit (w.env.rest.pit.takeDataMatchPorts data.name).2 w)
      rw [hlearn] at hlearns
      have htaken := moves_setPit cfg (w.env.rest.pit.takeDataMatchPorts data.name).2 w
      have hmoves : Moves cfg w w₁ := htaken.trans hlearns.toMoves
      have hsw := Loop.LoopRun.isSwitch (hmoves.loop w₀ hrun)
      cases h
      rw [forwardData_eq hsw]
      refine Or.inr ⟨hkeep, ?_, ?_, ?_⟩
      · exact hlearns.pit
      · rw [if_pos htrace]
        exact hlearns.cs
      · exact congrArg (· ++ _) hlearns.log
  next htrace =>
    have hkeep : ¬Discards data.name w.env.rest.pit := by
      rintro (hempty | ⟨htrace', -⟩)
      · exact hports hempty
      · exact htrace htrace'
    have hsw := Loop.LoopRun.isSwitch hrun
    cases h
    rw [forwardData_eq (by exact hsw)]
    refine Or.inr ⟨hkeep, rfl, ?_, rfl⟩
    rw [if_neg htrace]
    rfl

/-! ## Interests -/

/-- The first pass hands the packet to the stateful module. -/
def ReachesStateful (w : EngineWorld) (inPort : Port) (packet : RawPacket) : Prop :=
  ∃ header, PacketHeader.deserialize packet.header = some header ∧
    (w.env.switch.processPacket w.clock.now
      (header.setPacketInPort (UInt16.ofNat inPort))).packetIn = false ∧
    (w.env.switch.processPacket w.clock.now
      (header.setPacketInPort (UInt16.ofNat inPort))).outputPorts.contains statefulModule = true

/-- The packet is an Interest that the pending Interest table accepts. -/
def Accepts (w : EngineWorld) (inPort : Port) (packet : RawPacket) (name : Name)
    (pit : PendingInterestTable) : Prop :=
  ReachesStateful w inPort packet ∧ ∃ selectors nonce lifetime result,
    packet.payload = .interest name selectors nonce lifetime ∧
    w.env.rest.pit.insert (Interest.decode name selectors nonce lifetime w.env.rest.buffers).2
      w.clock.now (Interest.decode name selectors nonce lifetime w.env.rest.buffers).1 inPort =
        some (result, pit) ∧
    result.accepted = true

/-- What an accepted Interest does. -/
structure Accepted (inPort : Port) (name : Name) (pit : PendingInterestTable)
    (w w' : EngineWorld) : Prop where
  pit : w'.env.rest.pit = pit
  cs : w'.env.rest.cs = w.env.rest.cs
  log : w'.env.rest.log = w.env.rest.log ++ .accepted inPort name ::
    ((w.env.rest.cs.find name).map fun cached => .sentData inPort cached).toList

theorem processStatefulInterest_cases (cfg : EngineConfig) (inPort : Port)
    {interest : Interest} (hwire : interest.hasWire = true) (header : PacketHeader)
    (w : EngineWorld) :
    Moves cfg w (Handled.world (processStatefulInterest cfg inPort interest header w)) ∧
    ((∃ w', processStatefulInterest cfg inPort interest header w = .error (.tlvError, w') ∧
        Quiet w w') ∨
      ∃ w', processStatefulInterest cfg inPort interest header w = .ok w' ∧
        (Quiet w w' ∨ ∃ result pit,
          w.env.rest.pit.insert w.env.rest.buffers w.clock.now interest inPort =
            some (result, pit) ∧ result.accepted = true ∧
          Accepted inPort interest.name pit w w')) := by
  have hcount := moves_count cfg .interestsReceived w
  simp only [processStatefulInterest]
  split
  next hraise =>
    exact ⟨hcount, Or.inl ⟨_, rfl, Quiet.of_log_eq rfl rfl rfl⟩⟩
  next result pit hinsert =>
  have hinsert : w.env.rest.pit.insert w.env.rest.buffers w.clock.now interest inPort =
      some (result, pit) := hinsert
  have hstored := hcount.trans (moves_setPit cfg pit _)
  split
  next hdup =>
    refine ⟨hstored.trans (moves_count cfg _ _), Or.inr ⟨_, rfl, Or.inl ?_⟩⟩
    refine Quiet.of_log_eq ?_ rfl rfl
    rcases PendingInterestTable.insert_cases hinsert with
      ⟨-, rfl, -⟩ | ⟨entry, -, ⟨-, -, hsame⟩ | ⟨-, rfl, -⟩⟩
    · cases hdup
    · exact hsame
    · cases hdup
  next haccepted =>
  rw [Bool.not_eq_true, Bool.not_eq_false'] at haccepted
  have hnoted := hstored.trans (moves_note cfg (.accepted inPort interest.name) _)
  split
  next cached hcached =>
    have hcached : w.env.rest.cs.find interest.name = some cached := hcached
    refine ⟨(hnoted.trans (moves_count cfg _ _)).trans (moves_note cfg _ _),
      Or.inr ⟨_, rfl, Or.inr ⟨result, pit, hinsert, haccepted, rfl, rfl, ?_⟩⟩⟩
    rw [hcached]
    simp [sendDataToPort, note, modify, count, setPit]
  next hmiss =>
    have hmiss : w.env.rest.cs.find interest.name = none := hmiss
    have hevent : IsEncoded (.processInterestAfterDelay inPort interest
      ((header.computeNameHashes cfg.loop.stdHash interest.name).setPacketInPort
        (UInt16.ofNat inPort))) := hwire
    refine ⟨hnoted.trans (moves_schedule cfg _ hevent _),
      Or.inr ⟨_, rfl, Or.inr ⟨result, pit, hinsert, haccepted, rfl, rfl, ?_⟩⟩⟩
    rw [hmiss]
    rfl

/-- Whatever arrives, the handler completes. -/
theorem onReceiveRawPacket_cases (cfg : EngineConfig) (inPort : Port) (packet : RawPacket)
    (w : EngineWorld) :
    ∃ w', onReceiveRawPacket cfg inPort packet w = .ok w' ∧ Moves cfg w w' ∧
      (Quiet w w' ∨ ∃ name pit, Accepts w inPort packet name pit ∧
        Accepted inPort name pit w w') := by
  unfold onReceiveRawPacket
  split
  · exact ⟨_, rfl, moves_count cfg _ w, Or.inl (Quiet.of_log_eq rfl rfl rfl)⟩
  next header hheader =>
  simp only
  split
  · exact ⟨_, rfl, Moves.refl cfg w, Or.inl (Quiet.of_log_eq rfl rfl rfl)⟩
  next hin =>
  split
  swap
  · exact ⟨_, rfl, moves_count cfg _ w, Or.inl (Quiet.of_log_eq rfl rfl rfl)⟩
  next hstateful =>
  have hreach : ReachesStateful w inPort packet :=
    ⟨header, hheader, (Bool.not_eq_true _).mp hin, hstateful⟩
  cases hpayload : packet.payload with
  | other => exact ⟨_, rfl, moves_count cfg _ w, Or.inl (Quiet.of_log_eq rfl rfl rfl)⟩
  | malformed => exact ⟨_, rfl, moves_count cfg _ w, Or.inl (Quiet.of_log_eq rfl rfl rfl)⟩
  | data name wire =>
      have hevent : IsEncoded (.processDataAfterDelay inPort
        { name, wire, hopCount := some (header.switchId + 1) }
        (header.setSwitchId (header.switchId + 1))) := trivial
      exact ⟨_, rfl, (moves_count cfg _ w).trans (moves_schedule cfg _ hevent _),
        Or.inl (Quiet.of_log_eq rfl rfl rfl)⟩
  | interest name selectors nonce lifetime =>
      have hdecoded : Moves cfg w (modify (fun s => { s with
          buffers := (Interest.decode name selectors nonce lifetime w.env.rest.buffers).2 }) w) :=
        moves_modify cfg w fun _ => rfl
      have hbuffers : Quiet w (modify (fun s => { s with
          buffers := (Interest.decode name selectors nonce lifetime w.env.rest.buffers).2 }) w) :=
        Quiet.of_log_eq rfl rfl rfl
      have hwire : (Interest.decode name selectors nonce lifetime
        w.env.rest.buffers).1.hasWire = true := rfl
      obtain ⟨hmoves, ⟨w₁, hraise, hquiet⟩ | ⟨w₁, hok, hcases⟩⟩ :=
        processStatefulInterest_cases cfg inPort hwire header
          (modify (fun s => { s with
            buffers := (Interest.decode name selectors nonce lifetime w.env.rest.buffers).2 }) w)
      · simp only [processPayload, hraise, discardMalformed]
        rw [hraise] at hmoves
        refine ⟨_, rfl, (hdecoded.trans hmoves).trans (moves_count cfg _ _), Or.inl ?_⟩
        have hdiscarded : Quiet w₁ (count .malformedPackets w₁) := Quiet.of_log_eq rfl rfl rfl
        exact hbuffers.trans (hquiet.trans hdiscarded)
      · simp only [processPayload, hok, discardMalformed]
        rw [hok] at hmoves
        refine ⟨_, rfl, hdecoded.trans hmoves, ?_⟩
        rcases hcases with hquiet | ⟨result, pit, hinsert, haccepted, heffect⟩
        · exact Or.inl (hbuffers.trans hquiet)
        · refine Or.inr ⟨name, pit, ⟨hreach, selectors, nonce, lifetime, result, hpayload,
            hinsert, haccepted⟩, heffect.pit, heffect.cs, heffect.log⟩

/-! ## Steps -/

/-- The invariant of the engine between its events. -/
structure EngineInv (cfg : EngineConfig) (w₀ w : EngineWorld) : Prop where
  loop : Loop.LoopRun cfg.loop w₀ w
  due : ∀ e ∈ w.env.rest.events, w.clock.now ≤ e.ts
  encoded : ∀ e ∈ w.env.rest.events, IsEncoded e.event
  pit : w.env.rest.pit.PendingInv

/-- What a step does to the engine's tables and log. -/
inductive Effect (cfg : EngineConfig) (w w' : EngineWorld) : EngineAction → Prop
  | quiet {a : EngineAction}
      (hother : ∀ inPort data header, a ≠ .fire (.processDataAfterDelay inPort data header))
      (h : Quiet w w') : Effect cfg w w' a
  | accept {inPort : Port} {packet : RawPacket} {name : Name} {pit : PendingInterestTable}
      (haccepts : Accepts w inPort packet name pit) (h : Accepted inPort name pit w w') :
      Effect cfg w w' (.receive inPort packet)
  | discard {inPort : Port} {data : Data} {header : PacketHeader}
      (hdiscards : Discards data.name w.env.rest.pit) (h : Discarded data w w') :
      Effect cfg w w' (.fire (.processDataAfterDelay inPort data header))
  | deliver {inPort : Port} {data : Data} {header : PacketHeader}
      (hkeep : ¬Discards data.name w.env.rest.pit) (h : Delivered cfg data w w') :
      Effect cfg w w' (.fire (.processDataAfterDelay inPort data header))

/-- Taking an event off the engine's queue lets the loop's time pass. -/
theorem EngineInv.take (h : EngineInv cfg w₀ w) {e : Scheduled EngineEvent}
    (he : e ∈ w.env.rest.events) (hdue : IsDue w e.key) : EngineInv cfg w₀ (take e w) := by
  refine ⟨?_, fun e' he' => ?_, fun e' he' => h.encoded e' (mem_cancel.mp he').1, h.pit⟩
  · refine Loop.Continues.of_step ?_ w₀ h.loop
    exact .idle ⟨e.ts, w.clock.uid⟩ (h.due e he) (Nat.le_refl _)
      (fun e' he' => (hdue.1.1 e' he').fst_le)
      (fun e' he' => (hdue.1.2 e' he').fst_le) _
  · exact (hdue.2 e' (mem_cancel.mp he').1).fst_le

theorem EngineInv.moves (h : EngineInv cfg w₀ w) (hmoves : Moves cfg w w')
    (hpit : w'.env.rest.pit.PendingInv) : EngineInv cfg w₀ w' := by
  refine ⟨hmoves.loop w₀ h.loop, ?_, hmoves.encoded h.encoded, hpit⟩
  rw [hmoves.now]
  exact hmoves.due h.due

/-- A step of the control loop leaves the engine's own state alone. -/
theorem EngineInv.control (h : EngineInv cfg w₀ w) (hstep : Loop.LoopStep cfg.loop w w')
    (hrest : w'.env.rest = w.env.rest)
    (hdue : ∀ e ∈ w.env.rest.events, w'.clock.now ≤ e.ts) : EngineInv cfg w₀ w' := by
  refine ⟨Loop.Continues.of_step hstep w₀ h.loop, ?_, ?_, ?_⟩
  · rwa [hrest]
  · rw [hrest]
    exact h.encoded
  · rw [hrest]
    exact h.pit

/-- A step that completes keeps the invariant and has one of the effects. -/
theorem EngineInv.step (h : EngineInv cfg w₀ w) {a : EngineAction} {r : Handled}
    (hstep : EngineStep cfg w a r) (hr : r = .ok w') :
    EngineInv cfg w₀ w' ∧ Effect cfg w w' a := by
  cases hstep with
  | receive inPort packet =>
      obtain ⟨w₁, hok, hmoves, heffect⟩ := onReceiveRawPacket_cases cfg inPort packet w
      obtain rfl : w₁ = w' := Except.ok.inj (hok.symm.trans hr)
      rcases heffect with hquiet | ⟨name, pit, haccepts, haccepted⟩
      · refine ⟨h.moves hmoves ?_, .quiet (by simp) hquiet⟩
        rw [hquiet.pit]
        exact h.pit
      · refine ⟨h.moves hmoves ?_, .accept haccepts haccepted⟩
        obtain ⟨-, selectors, nonce, lifetime, result, -, hinsert, -⟩ := haccepts
        rw [haccepted.pit]
        exact h.pit.insert hinsert
  | @fire e he hdue =>
      have htaken := h.take he hdue
      have hsame : Quiet w (ForwardingEngine.take e w) := Quiet.of_log_eq rfl rfl rfl
      cases hevent : e.event with
      | processInterestAfterDelay inPort interest header =>
          rw [ForwardingEngine.fire, hevent] at hr
          obtain ⟨hmoves, hquiet⟩ := processInterestAfterDelay_effect hr
          refine ⟨htaken.moves hmoves ?_, .quiet (by simp) (hsame.trans hquiet)⟩
          rw [hquiet.pit]
          exact h.pit
      | doDelayedPullSend interest port =>
          rw [ForwardingEngine.fire, hevent] at hr
          obtain ⟨encoded, -, rfl⟩ := doDelayedPullSend_eq_ok hr
          have hmoves := (moves_count cfg .pendingPullsSent (ForwardingEngine.take e w)).trans
            (moves_note cfg (.sentInterest port encoded.name encoded.selectors
              (encoded.nonceValue (count .pendingPullsSent
                (ForwardingEngine.take e w)).env.rest.buffers) encoded.lifetime) _)
          have hcounted : Quiet (ForwardingEngine.take e w)
            (count .pendingPullsSent (ForwardingEngine.take e w)) := Quiet.of_log_eq rfl rfl rfl
          refine ⟨htaken.moves hmoves h.pit, .quiet (by simp)
            (hsame.trans (hcounted.trans ?_))⟩
          exact quiet_noteInterest port encoded _
      | processDataAfterDelay inPort data header =>
          rw [ForwardingEngine.fire, hevent] at hr
          have hmoves := moves_processDataAfterDelay hr
          obtain ⟨hdiscards, hdiscarded⟩ | ⟨hkeep, hdelivered⟩ :=
            processDataAfterDelay_ok htaken.loop hr
          · refine ⟨htaken.moves hmoves ?_, .discard hdiscards ⟨hdiscarded.pit, hdiscarded.cs,
              hdiscarded.log⟩⟩
            rw [hdiscarded.pit]
            exact htaken.pit.takeDataMatchPorts data.name
          · refine ⟨htaken.moves hmoves ?_, .deliver hkeep ⟨hdelivered.pit, hdelivered.cs,
              hdelivered.log⟩⟩
            rw [hdelivered.pit]
            exact htaken.pit.takeDataMatchPorts data.name
  | @temporary e he hdue =>
      cases hr
      have hkept := Loop.kept_fire cfg.loop e w
      refine ⟨h.control (.fireTemporary he hdue.1) hkept.rest fun e' he' => ?_,
        .quiet (by simp) ?_⟩
      · rw [hkept.now]
        exact (hdue.2 e' he').fst_le
      · exact Quiet.of_rest_eq hkept.rest
  | @central e he hdue =>
      cases hr
      have hkept := Loop.kept_fireCentral cfg.loop e w
      refine ⟨h.control (.fireCentral he hdue.1) hkept.rest fun e' he' => ?_,
        .quiet (by simp) ?_⟩
      · rw [hkept.now]
        exact (hdue.2 e' he').fst_le
      · exact Quiet.of_rest_eq hkept.rest
  | idle clock hnow huid hdue hdue' hown =>
      cases hr
      refine ⟨h.control ?_ rfl hown, .quiet (by simp) (Quiet.of_log_eq rfl rfl rfl)⟩
      exact .idle clock hnow huid hdue hdue' w.env.rest

/-- What waits for its delay stays encoded, whatever else happens to the tables. -/
theorem EngineStep.encoded {a : EngineAction} (h : ∀ e ∈ w.env.rest.events, IsEncoded e.event)
    (hstep : EngineStep cfg w a (.ok w')) : ∀ e ∈ w'.env.rest.events, IsEncoded e.event := by
  generalize hr : (.ok w' : Handled) = r at hstep
  cases hstep with
  | receive inPort packet =>
      obtain ⟨w₁, hok, hmoves, -⟩ := onReceiveRawPacket_cases cfg inPort packet w
      obtain rfl : w' = w₁ := Except.ok.inj (hr.trans hok)
      exact hmoves.encoded h
  | @fire e he hdue =>
      have htaken : ∀ e' ∈ (ForwardingEngine.take e w).env.rest.events, IsEncoded e'.event :=
        fun e' he' => h e' (mem_cancel.mp he').1
      cases hevent : e.event with
      | processInterestAfterDelay inPort interest header =>
          rw [ForwardingEngine.fire, hevent] at hr
          exact (processInterestAfterDelay_effect hr.symm).1.encoded htaken
      | processDataAfterDelay inPort data header =>
          rw [ForwardingEngine.fire, hevent] at hr
          exact (moves_processDataAfterDelay hr.symm).encoded htaken
      | doDelayedPullSend interest port =>
          rw [ForwardingEngine.fire, hevent] at hr
          obtain ⟨encoded, -, rfl⟩ := doDelayedPullSend_eq_ok hr.symm
          exact htaken
  | @temporary e he hdue =>
      cases hr
      rw [(Loop.kept_fire cfg.loop e w).rest]
      exact h
  | @central e he hdue =>
      cases hr
      rw [(Loop.kept_fireCentral cfg.loop e w).rest]
      exact h
  | idle clock hnow huid hdue hdue' hown =>
      cases hr
      exact h

theorem EngineInv.initial (h : IsInitial cfg w) : EngineInv cfg w w := by
  refine ⟨⟨h.loop, .refl⟩, ?_, ?_, ?_⟩
  · simp [h.events]
  · simp [h.events]
  · rw [h.pit]
    exact PendingInterestTable.PendingInv.empty

/-- The invariant holds throughout a run, and every completed step of it has one of
the effects. -/
theorem EngineRun.inv {steps : List Step} {r : Handled} (hrun : EngineRun cfg w₀ steps r) :
    (∀ w, r = .ok w → EngineInv cfg w₀ w) ∧
      ∀ s ∈ steps, EngineInv cfg w₀ s.before ∧ EngineStep cfg s.before s.action s.outcome := by
  induction hrun with
  | start h =>
      refine ⟨fun w hw => ?_, by simp⟩
      obtain rfl := Except.ok.inj hw
      exact EngineInv.initial h
  | @step steps w a r _ hstep ih =>
      have hinv := ih.1 w rfl
      refine ⟨fun w' hw' => (hinv.step hstep hw').1, fun s hs => ?_⟩
      rcases List.mem_append.mp hs with hs | hs
      · exact ih.2 s hs
      · rw [List.mem_singleton.mp hs]
        exact ⟨hinv, hstep⟩

/-- The invariant rule for runs whose steps meet a condition: the invariant holds at the
end and before every step. -/
theorem EngineRun.preserves (P : EngineWorld → Prop) (Meets : EngineWorld → EngineAction → Prop)
    (hinitial : IsInitial cfg w₀ → P w₀)
    (hpreserved : ∀ w a r w', EngineInv cfg w₀ w → P w → Meets w a →
      EngineStep cfg w a r → r = .ok w' → P w')
    {steps : List Step} {r : Handled} (hrun : EngineRun cfg w₀ steps r)
    (hmeets : ∀ s ∈ steps, Meets s.before s.action) :
    (∀ w, r = .ok w → P w) ∧ ∀ s ∈ steps, P s.before := by
  induction hrun with
  | start h =>
      refine ⟨?_, by simp⟩
      rintro w ⟨⟩
      exact hinitial h
  | @step steps w a r hbefore hstep ih =>
      obtain ⟨hlast, hall⟩ := ih fun s hs => hmeets s (List.mem_append_left _ hs)
      have hP := hlast w rfl
      refine ⟨fun w' hw' => ?_, fun s hs => ?_⟩
      · exact hpreserved w a r w' (hbefore.inv.1 w rfl) hP (hmeets ⟨w, a, r⟩ (by simp)) hstep hw'
      · rcases List.mem_append.mp hs with hs | hs
        · exact hall s hs
        · rw [List.mem_singleton.mp hs]
          exact hP

/-! ## Steps without the pipeline -/

/-- A packet that no switch has processed yet. -/
def unprocessed (payload : Payload) : RawPacket := ⟨PacketHeader.empty.serialize, payload⟩

theorem deserialize_empty :
    PacketHeader.deserialize PacketHeader.empty.serialize = some PacketHeader.empty := by
  decide

theorem reachesStateful_unprocessed (hsw : IsSwitch w.env.switch) (inPort : Port)
    (payload : Payload) : ReachesStateful w inPort (unprocessed payload) := by
  have hsends := hsw.hasTables.sendsTo_unprocessed
    (PacketHeader.empty.setPacketInPort (UInt16.ofNat inPort)) w.clock.now rfl
  refine ⟨PacketHeader.empty, deserialize_empty, hsends.packetIn, ?_⟩
  rw [← Std.TreeSet.contains_toList, hsends.outputPorts]
  simp

theorem onReceiveRawPacket_unprocessed (hsw : IsSwitch w.env.switch) (inPort : Port)
    (payload : Payload) :
    onReceiveRawPacket cfg inPort (unprocessed payload) w =
      discardMalformed (processPayload cfg inPort PacketHeader.empty payload w) := by
  obtain ⟨header, hread, hin, hstateful⟩ := reachesStateful_unprocessed hsw inPort payload
  obtain rfl : PacketHeader.empty = header :=
    Option.some.inj (deserialize_empty.symm.trans hread)
  simp only [onReceiveRawPacket, unprocessed, deserialize_empty, hin, hstateful,
    Bool.false_eq_true, if_false, if_true]

/-- The world after an unprocessed packet. -/
def arrived (cfg : EngineConfig) (inPort : Port) (payload : Payload) (w : EngineWorld) :
    EngineWorld :=
  Handled.world (discardMalformed (processPayload cfg inPort PacketHeader.empty payload w))

theorem EngineRun.arrive {steps : List Step} (hrun : EngineRun cfg w₀ steps (.ok w))
    (inPort : Port) (payload : Payload) :
    EngineRun cfg w₀ (steps ++ [⟨w, .receive inPort (unprocessed payload),
      .ok (arrived cfg inPort payload w)⟩]) (.ok (arrived cfg inPort payload w)) := by
  have hsw := Loop.LoopRun.isSwitch (hrun.inv.1 w rfl).loop
  obtain ⟨w', hok, -⟩ := onReceiveRawPacket_cases cfg inPort (unprocessed payload) w
  have harrived : onReceiveRawPacket cfg inPort (unprocessed payload) w =
      .ok (arrived cfg inPort payload w) := by
    rw [arrived, ← onReceiveRawPacket_unprocessed hsw, hok]
    rfl
  refine hrun.step ?_
  rw [← harrived]
  exact .receive w inPort (unprocessed payload)

/-- The first event of the engine's queue runs. -/
theorem EngineRun.fireNext {steps : List Step} (hrun : EngineRun cfg w₀ steps (.ok w))
    {e : Scheduled EngineEvent} (he : w.env.rest.events.head? = some e)
    (hdue : IsDue w e.key) {r : Handled} (hr : ForwardingEngine.fire cfg e w = r) :
    EngineRun cfg w₀ (steps ++ [⟨w, .fire e.event, r⟩]) r := by
  refine hrun.step ?_
  rw [← hr]
  exact .fire (List.mem_of_mem_head? he) hdue

/-- The world after plain Data that is delivered. -/
def delivered (cfg : EngineConfig) (data : Data) (w : EngineWorld) : EngineWorld :=
  modify (fun s => { s with
    pit := (s.pit.takeDataMatchPorts data.name).2
    cs := s.cs.insert cfg.coin data
    log := s.log ++ (dataPorts data.name s.pit).map fun port => .sentData port data }) w

theorem processDataAfterDelay_plain (hsw : IsSwitch w.env.switch) {data : Data}
    (header : PacketHeader) (hplain : data.name.judgeNameIsTrace = false)
    (hports : (w.env.rest.pit.takeDataMatchPorts data.name).1.isEmpty = false) :
    processDataAfterDelay cfg data header w = .ok (delivered cfg data w) := by
  simp only [processDataAfterDelay, hplain, hports, Bool.false_eq_true, if_false]
  rw [forwardData_eq (by exact hsw)]
  rfl

/-- What Trace Data teaches, once it has consumed what it matches. -/
def learn (cfg : EngineConfig) (data : Data) (w : EngineWorld) : Handled :=
  handleTraceData cfg data (w.env.rest.pit.takeDataMatchPorts data.name).1
    (savedLifetime data.name w.env.rest.pit)
    (setPit (w.env.rest.pit.takeDataMatchPorts data.name).2 w)

/-- The world after Trace Data that has been learned from and is delivered. -/
def learned (cfg : EngineConfig) (data : Data) (w : EngineWorld) : EngineWorld :=
  modify (fun s => { s with
    log := s.log ++ (dataPorts data.name w.env.rest.pit).map fun port => .sentData port data })
    (Handled.world (learn cfg data w))

theorem processDataAfterDelay_trace (hrun : Loop.LoopRun cfg.loop w₀ w) {data : Data}
    (header : PacketHeader) (htrace : data.name.judgeNameIsTrace = true)
    (hports : (w.env.rest.pit.takeDataMatchPorts data.name).1.isEmpty = false)
    (hpositive : 0 < savedLifetime data.name w.env.rest.pit)
    (hlearn : ∃ w₁, learn cfg data w = .ok w₁) :
    processDataAfterDelay cfg data header w = .ok (learned cfg data w) := by
  obtain ⟨w₁, hlearn⟩ := hlearn
  have hmoves : Moves cfg w (Handled.world (learn cfg data w)) :=
    (moves_setPit cfg _ w).trans (learns_handleTraceData cfg data _ _ _).toMoves
  rw [hlearn] at hmoves
  have hsw : IsSwitch w₁.env.switch := Loop.LoopRun.isSwitch (hmoves.loop w₀ hrun)
  rw [learned, hlearn]
  unfold learn at hlearn
  simp only [processDataAfterDelay, htrace, if_true, hports, Bool.false_eq_true, if_false,
    if_neg (Int.not_le.mpr hpositive), hlearn]
  rw [forwardData_eq hsw]
  rfl

/-- The world after an Interest without a route. -/
def rejected (name : Name) (w : EngineWorld) : EngineWorld :=
  count .noRouteRejections
    (count .statimLookupMisses (LocalRouteController.findLongestPrefix name w).2)

theorem fibPorts_eq_nil {sw : SwitchPipeline} (hfib : sw.fib.entries = [dropEntry]) (now : Time)
    (h : PacketHeader) : fibPorts now h sw = [] := by
  have hlookup : sw.fib.lookup now h.serialize = some dropEntry := by
    simp [FlowTable.lookup, hfib, FlowEntry.isMatch, dropEntry, FlowEntry.isExpired]
  simp [fibPorts, hlookup, dropEntry]

theorem processInterestAfterDelay_noRoute (hsw : IsSwitch w.env.switch) {interest : Interest}
    (inPort : Port) (header : PacketHeader)
    (hfound : (LocalRouteController.findLongestPrefix interest.name w).1 = none)
    (hfib : w.env.switch.fib.entries = [dropEntry]) :
    processInterestAfterDelay cfg inPort interest header w =
      .ok (rejected interest.name w) := by
  have hsends := hsw.hasTables.sendsTo_interest_fib
    (Loop.fibHeader cfg.loop.stdHash interest.name header) w.clock.now rfl rfl
  rw [fibPorts_eq_nil hfib] at hsends
  simp only [processInterestAfterDelay, Loop.selectRoute_of_none hfound]
  simp only [hsends.dropped, decide_true, Bool.true_or, if_true]
  rfl

/-- A condition on the steps of a run, one step more. -/
theorem forall_steps_append {P : Step → Prop} {steps : List Step} (h : ∀ s ∈ steps, P s)
    {s : Step} (hs : P s) : ∀ s' ∈ steps ++ [s], P s' := by
  intro s' hs'
  rcases List.mem_append.mp hs' with hs' | hs'
  · exact h s' hs'
  · rw [List.mem_singleton.mp hs']
    exact hs

/-- The first event of the engine is taken off the queue. -/
def takeFirst (w : EngineWorld) : EngineWorld :=
  match w.env.rest.events with
  | [] => w
  | e :: _ => take e w

theorem EngineRun.fireInterest {steps : List Step} (hrun : EngineRun cfg w₀ steps (.ok w))
    {ts uid : Nat} {inPort : Port} {interest : Interest} {header : PacketHeader}
    (hevents : w.env.rest.events = [⟨ts, uid, .processInterestAfterDelay inPort interest header⟩])
    (hdue : IsDue w (ts, uid))
    (hfound : (LocalRouteController.findLongestPrefix interest.name (takeFirst w)).1 = none)
    (hfib : w.env.switch.fib.entries = [dropEntry]) :
    EngineRun cfg w₀ (steps ++ [⟨w, .fire (.processInterestAfterDelay inPort interest header),
      .ok (rejected interest.name (takeFirst w))⟩])
      (.ok (rejected interest.name (takeFirst w))) := by
  have hsw := Loop.LoopRun.isSwitch (hrun.inv.1 w rfl).loop
  have hfirst : takeFirst w =
      take ⟨ts, uid, .processInterestAfterDelay inPort interest header⟩ w := by
    rw [takeFirst, hevents]
  have he : w.env.rest.events.head? =
      some ⟨ts, uid, .processInterestAfterDelay inPort interest header⟩ := by
    rw [hevents]
    rfl
  rw [hfirst] at hfound ⊢
  refine hrun.fireNext he hdue ?_
  simp only [ForwardingEngine.fire, handle]
  rw [processInterestAfterDelay_noRoute (by exact hsw) _ _ hfound (by exact hfib)]

theorem EngineRun.fireData {steps : List Step} (hrun : EngineRun cfg w₀ steps (.ok w))
    {ts uid : Nat} {inPort : Port} {data : Data} {header : PacketHeader}
    (hevents : w.env.rest.events = [⟨ts, uid, .processDataAfterDelay inPort data header⟩])
    (hdue : IsDue w (ts, uid)) (hplain : data.name.judgeNameIsTrace = false)
    (hports : (w.env.rest.pit.takeDataMatchPorts data.name).1.isEmpty = false) :
    EngineRun cfg w₀ (steps ++ [⟨w, .fire (.processDataAfterDelay inPort data header),
      .ok (delivered cfg data (takeFirst w))⟩]) (.ok (delivered cfg data (takeFirst w))) := by
  have hsw := Loop.LoopRun.isSwitch (hrun.inv.1 w rfl).loop
  have hfirst : takeFirst w =
      take ⟨ts, uid, .processDataAfterDelay inPort data header⟩ w := by
    rw [takeFirst, hevents]
  have he : w.env.rest.events.head? =
      some ⟨ts, uid, .processDataAfterDelay inPort data header⟩ := by
    rw [hevents]
    rfl
  rw [hfirst]
  refine hrun.fireNext he hdue ?_
  simp only [ForwardingEngine.fire, handle]
  exact processDataAfterDelay_plain (by exact hsw) _ hplain hports

theorem EngineRun.fireTrace {steps : List Step} (hrun : EngineRun cfg w₀ steps (.ok w))
    {ts uid : Nat} {inPort : Port} {data : Data} {header : PacketHeader}
    (hevents : w.env.rest.events = [⟨ts, uid, .processDataAfterDelay inPort data header⟩])
    (hdue : IsDue w (ts, uid)) (htrace : data.name.judgeNameIsTrace = true)
    (hports : (w.env.rest.pit.takeDataMatchPorts data.name).1.isEmpty = false)
    (hpositive : 0 < savedLifetime data.name w.env.rest.pit)
    (hlearn : ∃ w₁, learn cfg data (takeFirst w) = .ok w₁) :
    EngineRun cfg w₀ (steps ++ [⟨w, .fire (.processDataAfterDelay inPort data header),
      .ok (learned cfg data (takeFirst w))⟩]) (.ok (learned cfg data (takeFirst w))) := by
  have hfirst : takeFirst w =
      take ⟨ts, uid, .processDataAfterDelay inPort data header⟩ w := by
    rw [takeFirst, hevents]
  have he : w.env.rest.events.head? =
      some ⟨ts, uid, .processDataAfterDelay inPort data header⟩ := by
    rw [hevents]
    rfl
  have htaken := (hrun.inv.1 w rfl).take (List.mem_of_mem_head? he) hdue
  rw [hfirst] at hlearn ⊢
  refine hrun.fireNext he hdue ?_
  simp only [ForwardingEngine.fire, handle]
  exact processDataAfterDelay_trace htaken.loop header htrace hports hpositive hlearn

/-- An Interest that has been pulled is sent. -/
theorem EngineRun.firePull {steps : List Step} (hrun : EngineRun cfg w₀ steps (.ok w))
    {ts uid : Nat} {interest encoded : Interest} {port : Port}
    (hevents : w.env.rest.events = [⟨ts, uid, .doDelayedPullSend interest port⟩])
    (hdue : IsDue w (ts, uid)) (hencoded : interest.wireEncode = some encoded) :
    EngineRun cfg w₀ (steps ++ [⟨w, .fire (.doDelayedPullSend interest port),
      .ok (noteInterest port encoded (count .pendingPullsSent (takeFirst w)))⟩])
      (.ok (noteInterest port encoded (count .pendingPullsSent (takeFirst w)))) := by
  have hfirst : takeFirst w = take ⟨ts, uid, .doDelayedPullSend interest port⟩ w := by
    rw [takeFirst, hevents]
  have he : w.env.rest.events.head? = some ⟨ts, uid, .doDelayedPullSend interest port⟩ := by
    rw [hevents]
    rfl
  rw [hfirst]
  refine hrun.fireNext he hdue ?_
  simp only [ForwardingEngine.fire, handle]
  exact sendInterestToPort_of_encoded hencoded port _

end ForwardingEngine

/-! ## A sample engine -/

/-- An engine around the guarded loop without delay. -/
def sampleEngineConfig : EngineConfig where
  loop := Loop.promptConfig
  statefulDelay := 0
  configuredFlowTableLifetime := 0
  configuredTemporaryLifetime := 0
  enableTemporaryFib := true
  enableInterestReforwarding := true
  interestReforwardingLimit := 30
  coin _ := false
  word32 _ old := old + 1
  entryLifetime_eq := rfl
  guards_eq := rfl
  word32_ne _ old := by
    intro heq
    simp at heq

def sampleEngineState : EngineState where
  pit := .empty
  cs := .ofSize 100
  buffers := []
  words := 0
  events := []
  counters _ := 0
  log := []

def sampleEngine : EngineWorld where
  clock := ⟨0, 0⟩
  ctl := {}
  log := []
  env :=
    { central := {}
      history := []
      switch := SwitchPipeline.initPipeline EntrySort.mergeSort
      flowTableUpdatesApplied := 0
      traceUpdatesAccepted := 0
      rest := sampleEngineState }

theorem isInitial_sampleEngine :
    ForwardingEngine.IsInitial sampleEngineConfig sampleEngine :=
  ⟨⟨⟨rfl, rfl⟩, ⟨rfl, rfl, rfl⟩, .init⟩, rfl, rfl, rfl, rfl⟩

/-- One content name, as an Interest and as Data. -/
def contentName : Name := [.generic [0x61], .generic [0x62]]

def contentInterest (nonce : UInt8) : Payload := .interest contentName {} [nonce, 0, 0, 0] none

def contentData : Payload := .data contentName [0x15]

/-- The Data as the engine remembers it. -/
def receivedData : Data := ⟨contentName, [0x15], some 1⟩

/-- An Interest from port 1 waits for its delay. -/
def requestedWorld : EngineWorld :=
  ForwardingEngine.arrived sampleEngineConfig 1 (contentInterest 1) sampleEngine

/-- A Trace name with sequence number 1. -/
def traceName : Name := [.generic [0x61], .generic Name.traceUri, .generic [0x62],
  .generic [Component.sequenceNumberMarker, 1]]

def traceInterest (nonce : UInt8) : Payload := .interest traceName {} [nonce, 0, 0, 0] none

def traceData : Payload := .data traceName [0x15]

/-- Trace Data as the engine remembers it. -/
def receivedTrace : Data := ⟨traceName, [0x15], some 1⟩

theorem run_requestedWorld :
    ForwardingEngine.EngineRun sampleEngineConfig sampleEngine
      [⟨sampleEngine, .receive 1 (ForwardingEngine.unprocessed (contentInterest 1)),
        .ok requestedWorld⟩] (.ok requestedWorld) :=
  ForwardingEngine.EngineRun.arrive (.start isInitial_sampleEngine) 1 (contentInterest 1)

end Statim
