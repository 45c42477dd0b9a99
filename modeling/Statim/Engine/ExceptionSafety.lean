import Statim.Engine.TraceLearning

/-!
# Exceptions

`onReceiveRawPacket` catches what the decoders throw, but Trace Data is read for
its sequence number, pending Interests for their Nonces, and an Interest that is
sent again is encoded anew, in events that run after the `try` block has been left.
A run in which each of these succeeds never ends in an exception.

A packet is counted as malformed and nothing else exactly if a decoder rejects it; what
the others change that cannot be read later is stated as well.
-/

namespace Statim

open Support SwitchPipeline

namespace ForwardingEngine

variable {cfg : EngineConfig} {w w' w₀ : EngineWorld} {p : Name} {seq : Nat} {lifetime : Int}

/-! ## Reforwarding -/

/-- Interests whose Nonces can be read are all scheduled again. -/
theorem pullAll_ok (cfg : EngineConfig) (port : Port) {pending : List Interest}
    (hread : ∀ i ∈ pending, i.Readable w.env.rest.buffers) :
    ∃ w', pullAll cfg port pending w = .ok w' := by
  induction pending generalizing w with
  | nil => exact ⟨w, rfl⟩
  | cons interest rest ih =>
      have hfirst := hread interest List.mem_cons_self
      have hrest : ∀ i ∈ rest, i.Readable w.env.rest.buffers := fun i hi =>
        hread i (List.mem_cons_of_mem _ hi)
      by_cases hnonce : interest.hasNonce = true
      · obtain ⟨old, hold⟩ := Option.isSome_iff_exists.mp (hfirst hnonce)
        simp only [pullAll, Interest.refreshNonce, hnonce, if_true, hold, Option.map_some]
        refine ih fun i hi => ?_
        exact (hrest i hi).setNonce (cfg.word32 w.env.rest.words old) interest
      · simp only [pullAll, Interest.refreshNonce, if_neg hnonce]
        exact ih hrest

/-- The Interests that an update through Trace Data sends again. -/
def pulledBy (cfg : EngineConfig) (name : Name) (pit : PendingInterestTable) : List Interest :=
  ((pit.takeDataMatchPorts name).2.findByPrefix name.extractDataNameFromTrace).take
    cfg.interestReforwardingLimit.toNat

/-- An update that is admitted completes if the pending Interests can be read. -/
theorem learnPort_ok (hlease : Leasable cfg lifetime) (port : Port)
    (hread : cfg.enableInterestReforwarding = true →
      Loop.Admissible cfg.loop.temporary p seq w.ctl →
        ∀ i ∈ pulled cfg p w, i.Readable w.env.rest.buffers) :
    ∃ w', learnPort cfg p seq lifetime port w = .ok w' := by
  obtain ⟨⟨updated, w₁⟩, hr⟩ := Loop.exists_applyTraceUpdate p port seq
    (Int.le_of_lt hlease.positive) hlease.agrees w
  have hrest : w₁.env.rest = w.env.rest := (Loop.kept_applyTraceUpdate hr).rest
  simp only [learnPort, hr]
  split
  next hpull =>
    rw [Bool.and_eq_true] at hpull
    obtain ⟨-, ⟨hadmissible, -⟩ | ⟨-, hfalse, -⟩⟩ :=
      Loop.applyTraceUpdate_admissions cfg.guards_eq hr
    · refine pullAll_ok cfg port fun i hi => ?_
      have hbuffers : w₁.env.rest.buffers = w.env.rest.buffers :=
        congrArg EngineState.buffers hrest
      have hpit : w₁.env.rest.pit = w.env.rest.pit := congrArg EngineState.pit hrest
      have hpulled : pulled cfg p (count .pullInvocations w₁) = pulled cfg p w :=
        congrArg (fun pit : PendingInterestTable =>
          (pit.findByPrefix p).take cfg.interestReforwardingLimit.toNat) hpit
      rw [hpulled] at hi
      exact hbuffers ▸ hread hpull.2 hadmissible i hi
    · exact absurd (hfalse.symm.trans hpull.1) (by decide)
  next => exact ⟨w₁, rfl⟩

theorem learnPorts_ok (hlease : Leasable cfg lifetime) (ports : List Port)
    (hread : cfg.enableInterestReforwarding = true →
      Loop.Admissible cfg.loop.temporary p seq w.ctl →
        ∀ i ∈ pulled cfg p w, i.Readable w.env.rest.buffers) :
    ∃ w', learnPorts cfg p seq lifetime ports w = .ok w' := by
  cases ports with
  | nil => exact ⟨w, rfl⟩
  | cons port rest =>
      obtain ⟨w₁, hfirst⟩ := learnPort_ok hlease port hread
      have hused := (learnPort_admissions p seq hlease port w).1
      rw [hfirst] at hused
      obtain ⟨w', -, hrest⟩ := learnPorts_of_not_admissible hlease rest hused
      refine ⟨w', ?_⟩
      simp only [learnPorts, hfirst]
      exact hrest

/-! ## Completed steps -/

/-- With no lifetime configured every lifetime is valid. -/
theorem isValidRouteLifetime_of_unconfigured (hflow : cfg.configuredFlowTableLifetime = 0)
    (htemporary : cfg.configuredTemporaryLifetime = 0) (t : Time) :
    isValidRouteLifetime cfg t = true := by
  simp [isValidRouteLifetime, hflow, htemporary]

/-- What an event of the engine needs in order to complete.  Trace Data with a saved Trace
Interest of positive lifetime ends in a sequence number, and if it brings an update, then
the Nonces of the pending Interests that are sent again can be read; an Interest that is
sent again without its encoding has no `KeyLocator` of an unknown type. -/
def Processable (cfg : EngineConfig) (w : EngineWorld) : EngineAction → Prop
  | .fire (.processDataAfterDelay _ data _) =>
    data.name.judgeNameIsTrace = true →
      ∀ entry, w.env.rest.pit.entries[data.name]? = some entry →
        0 < toMicroseconds entry.interest.lifetime →
          ∃ seq, data.name.getTraceSequence = some seq ∧
            (cfg.enableInterestReforwarding = true →
              Loop.Admissible cfg.loop.temporary data.name.extractDataNameFromTrace seq w.ctl →
                ∀ i ∈ pulledBy cfg data.name w.env.rest.pit, i.Readable w.env.rest.buffers)
  | .fire (.doDelayedPullSend interest _) =>
    interest.hasWire = true ∨ interest.selectors.publisherPublicKeyLocator ≠ .unknown
  | _ => True

theorem processDataAfterDelay_completes (hpit : w.env.rest.pit.PendingInv)
    (hvalid : ∀ t, isValidRouteLifetime cfg t = true) {inPort : Port} {data : Data}
    {header : PacketHeader}
    (hmeets : Processable cfg w (.fire (.processDataAfterDelay inPort data header))) :
    ∃ w', processDataAfterDelay cfg data header w = .ok w' := by
  simp only [processDataAfterDelay]
  split
  · exact ⟨_, rfl⟩
  split
  swap
  · exact ⟨_, rfl⟩
  next htrace =>
  split
  · exact ⟨_, rfl⟩
  next hpositive =>
  have hlearn : ∃ w', handleTraceData cfg data (w.env.rest.pit.takeDataMatchPorts data.name).1
      (savedLifetime data.name w.env.rest.pit)
      (setPit (w.env.rest.pit.takeDataMatchPorts data.name).2 w) = .ok w' := by
    have hsaved := savedLifetime_eq hpit data.name
    cases hentry : w.env.rest.pit.entries[data.name]? with
    | none =>
        rw [hsaved, hentry] at hpositive
        exact absurd (Int.le_refl 0) hpositive
    | some entry =>
        have hlifetime : savedLifetime data.name w.env.rest.pit =
            toMicroseconds entry.interest.lifetime := by
          rw [hsaved, hentry]
          rfl
        have hlease : Leasable cfg (savedLifetime data.name w.env.rest.pit) :=
          ⟨Int.not_le.mp hpositive, hvalid _⟩
        obtain ⟨seq, hseq, hread⟩ := hmeets htrace entry hentry (hlifetime ▸ hlease.positive)
        simp only [handleTraceData, hvalid, Bool.not_true, Bool.false_eq_true, if_false, hseq]
        split
        · exact ⟨_, rfl⟩
        · exact learnPorts_ok hlease _ hread
  obtain ⟨w', hlearn⟩ := hlearn
  rw [hlearn]
  exact ⟨_, rfl⟩

/-- The two controllers and the flow tables are the same. -/
structure SameRouting (w w' : EngineWorld) : Prop where
  ctl : w'.ctl = w.ctl
  central : w'.env.central = w.env.central
  switch : w'.env.switch = w.env.switch

theorem SameRouting.trans {w'' : EngineWorld} (h : SameRouting w w') (h' : SameRouting w' w'') :
    SameRouting w w'' :=
  ⟨h'.ctl.trans h.ctl, h'.central.trans h.central, h'.switch.trans h.switch⟩

theorem sameRouting_count (c : EngineCounter) (w : EngineWorld) : SameRouting w (count c w) :=
  ⟨rfl, rfl, rfl⟩

theorem sameRouting_note (o : EngineObs) (w : EngineWorld) : SameRouting w (note o w) :=
  ⟨rfl, rfl, rfl⟩

theorem sameRouting_setPit (pit : PendingInterestTable) (w : EngineWorld) :
    SameRouting w (setPit pit w) :=
  ⟨rfl, rfl, rfl⟩

theorem sameRouting_schedule (delay : Nat) (event : EngineEvent) (w : EngineWorld) :
    SameRouting w (schedule delay event w) :=
  ⟨rfl, rfl, rfl⟩

theorem sameRouting_discardMalformed {r : Handled} (h : SameRouting w (Handled.world r)) :
    SameRouting w (Handled.world (discardMalformed r)) := by
  unfold discardMalformed
  split
  · exact h.trans (sameRouting_count _ _)
  · exact h

/-- The Statim header is too short or of an unknown type, or what follows it is neither an
Interest nor Data. -/
def Undecodable (w : EngineWorld) (inPort : Port) (packet : RawPacket) : Prop :=
  PacketHeader.deserialize packet.header = none ∨
    ReachesStateful w inPort packet ∧ (packet.payload = .other ∨ packet.payload = .malformed)

theorem onReceiveRawPacket_of_undecodable {inPort : Port} {packet : RawPacket}
    (h : Undecodable w inPort packet) :
    onReceiveRawPacket cfg inPort packet w = .ok (count .malformedPackets w) := by
  rcases h with hheader | ⟨⟨header, hheader, hin, hstateful⟩, hpayload⟩
  · simp only [onReceiveRawPacket, hheader]
  · simp only [onReceiveRawPacket, hheader, hin, hstateful, Bool.false_eq_true, if_false, if_true]
    rcases hpayload with hpayload | hpayload
    · rw [hpayload]
      rfl
    · rw [hpayload]
      rfl

theorem sameRouting_processStatefulInterest (cfg : EngineConfig) (inPort : Port)
    (interest : Interest) (header : PacketHeader) (w : EngineWorld) :
    SameRouting w (Handled.world (processStatefulInterest cfg inPort interest header w)) := by
  have hcounted := sameRouting_count .interestsReceived w
  simp only [processStatefulInterest]
  split
  · exact hcounted
  next result pit hinsert =>
  have hstored := hcounted.trans (sameRouting_setPit pit _)
  split
  · exact hstored.trans (sameRouting_count _ _)
  have hnoted := hstored.trans (sameRouting_note (.accepted inPort interest.name) _)
  split
  · exact (hnoted.trans (sameRouting_count _ _)).trans (sameRouting_note _ _)
  · exact hnoted.trans (sameRouting_schedule _ _ _)

/-- No packet changes the routing state on its arrival. -/
theorem sameRouting_onReceiveRawPacket (cfg : EngineConfig) (inPort : Port) (packet : RawPacket)
    (w : EngineWorld) : SameRouting w (Handled.world (onReceiveRawPacket cfg inPort packet w)) := by
  unfold onReceiveRawPacket
  split
  · exact ⟨rfl, rfl, rfl⟩
  next header hheader =>
  simp only
  split
  · exact ⟨rfl, rfl, rfl⟩
  split
  swap
  · exact sameRouting_count _ w
  refine sameRouting_discardMalformed ?_
  cases packet.payload with
  | other => exact sameRouting_count _ w
  | malformed => exact ⟨rfl, rfl, rfl⟩
  | data name wire => exact (sameRouting_count _ w).trans (sameRouting_schedule _ _ _)
  | interest name selectors nonce lifetime =>
      have h := sameRouting_processStatefulInterest cfg inPort
        (Interest.decode name selectors nonce lifetime w.env.rest.buffers).1 header
        (modify (fun s => { s with
          buffers := (Interest.decode name selectors nonce lifetime w.env.rest.buffers).2 }) w)
      exact ⟨h.ctl, h.central, h.switch⟩

theorem processable_of_ne {a : EngineAction}
    (hdata : ∀ inPort data header, a ≠ .fire (.processDataAfterDelay inPort data header))
    (hpull : ∀ interest port, a ≠ .fire (.doDelayedPullSend interest port)) :
    Processable cfg w a := by
  match a with
  | .receive inPort packet => trivial
  | .control => trivial
  | .fire (.processInterestAfterDelay inPort interest header) => trivial
  | .fire (.doDelayedPullSend interest port) => exact absurd rfl (hpull interest port)
  | .fire (.processDataAfterDelay inPort data header) =>
      exact absurd rfl (hdata inPort data header)

/-- An event completes if it is processable. -/
theorem fire_completes (h : EngineInv cfg w₀ w)
    (hvalid : ∀ t, isValidRouteLifetime cfg t = true) {e : Scheduled EngineEvent}
    (he : e ∈ w.env.rest.events) (hmeets : Processable cfg w (.fire e.event)) :
    ∃ w', fire cfg e w = .ok w' := by
  have hencoded := h.encoded e he
  unfold fire
  generalize e.event = event at hmeets hencoded
  cases event with
  | processInterestAfterDelay inPort interest header =>
      exact processInterestAfterDelay_of_hasWire cfg inPort hencoded header (take e w)
  | processDataAfterDelay inPort data header =>
      have htaken : (take e w).env.rest.pit.PendingInv := h.pit
      have hmeets' : Processable cfg (take e w)
        (.fire (.processDataAfterDelay inPort data header)) := hmeets
      exact processDataAfterDelay_completes htaken hvalid hmeets'
  | doDelayedPullSend interest port =>
      have hsendable : interest.wireEncode.isSome = true := by
        rw [Interest.isSome_wireEncode, Selectors.isEncodable, decide_eq_true_eq]
        exact hmeets
      obtain ⟨encoded, hencoded⟩ := Option.isSome_iff_exists.mp hsendable
      exact ⟨_, sendInterestToPort_of_encoded hencoded port _⟩

theorem EngineStep.completes (h : EngineInv cfg w₀ w)
    (hvalid : ∀ t, isValidRouteLifetime cfg t = true) {a : EngineAction} {r : Handled}
    (hmeets : Processable cfg w a) (hstep : EngineStep cfg w a r) : ∃ w', r = .ok w' := by
  cases hstep with
  | receive inPort packet =>
      obtain ⟨w', hok, -⟩ := onReceiveRawPacket_cases cfg inPort packet w
      exact ⟨w', hok⟩
  | fire he hdue => exact fire_completes h hvalid he hmeets
  | temporary he hdue => exact ⟨_, rfl⟩
  | central he hdue => exact ⟨_, rfl⟩
  | idle clock hnow huid hdue hdue' hown => exact ⟨_, rfl⟩

/-! ## Malformed packets -/

/-- The Nonce of a received Interest is in a buffer of its own. -/
def received (nonce : Bytes) (w : EngineWorld) : EngineWorld :=
  modify (fun s => { s with buffers := s.buffers ++ [nonce] }) w

/-- An Interest that reaches the stateful module is counted as received. -/
theorem interestsReceived_onReceiveRawPacket (cfg : EngineConfig) {inPort : Port}
    {packet : RawPacket} (hreach : ReachesStateful w inPort packet) {name : Name}
    {selectors : Selectors} {nonce : Bytes} {lifetime : Option UInt64}
    (hpayload : packet.payload = .interest name selectors nonce lifetime) :
    (Handled.world (onReceiveRawPacket cfg inPort packet w)).env.rest.counters
      .interestsReceived = w.env.rest.counters .interestsReceived + 1 := by
  obtain ⟨header, hheader, hin, hstateful⟩ := hreach
  simp only [onReceiveRawPacket, hheader, hin, hstateful, Bool.false_eq_true, if_false, if_true,
    hpayload, processPayload]
  have hcounted : (Handled.world (processStatefulInterest cfg inPort
      (Interest.decode name selectors nonce lifetime w.env.rest.buffers).1 header
      (modify (fun s => { s with
        buffers := (Interest.decode name selectors nonce lifetime w.env.rest.buffers).2 })
        w))).env.rest.counters .interestsReceived =
      w.env.rest.counters .interestsReceived + 1 := by
    simp only [processStatefulInterest]
    split
    · rfl
    split
    · rfl
    split
    · rfl
    · rfl
  unfold discardMalformed
  split
  next w₁ hraise =>
    rw [hraise] at hcounted
    exact hcounted
  next => exact hcounted

/-- Data that reaches the stateful module is counted as received and waits. -/
theorem onReceiveRawPacket_data (cfg : EngineConfig) {inPort : Port} {packet : RawPacket}
    (hreach : ReachesStateful w inPort packet) {name : Name} {wire : Bytes}
    (hpayload : packet.payload = .data name wire) :
    ∃ data header, data.name = name ∧ onReceiveRawPacket cfg inPort packet w =
      .ok (schedule cfg.statefulDelay (.processDataAfterDelay inPort data header)
        (count .dataReceived w)) := by
  obtain ⟨header, hheader, hin, hstateful⟩ := hreach
  refine ⟨⟨name, wire, some (header.switchId + 1)⟩, header.setSwitchId (header.switchId + 1),
    rfl, ?_⟩
  simp only [onReceiveRawPacket, hheader, hin, hstateful, Bool.false_eq_true, if_false, if_true,
    hpayload, processPayload]
  rfl

/-- What follows the header of a packet that does not reach the stateful module is not
read. -/
theorem onReceiveRawPacket_unread (cfg : EngineConfig) {inPort : Port} {packet : RawPacket}
    (hheader : PacketHeader.deserialize packet.header ≠ none)
    (hunread : ¬ReachesStateful w inPort packet) :
    onReceiveRawPacket cfg inPort packet w = .ok w ∨
      onReceiveRawPacket cfg inPort packet w = .ok (count .noRouteRejections w) := by
  unfold onReceiveRawPacket
  split
  next hnone => exact absurd hnone hheader
  next header hread =>
  dsimp only
  split
  · exact Or.inl rfl
  next hin =>
  split
  next hstateful =>
      exact absurd ⟨header, hread, Bool.eq_false_iff.mpr hin, hstateful⟩ hunread
  · exact Or.inr rfl

/-- A packet only increments `malformedPackets` exactly if it is undecodable. -/
theorem onReceiveRawPacket_eq_malformed_iff {inPort : Port} {packet : RawPacket} :
    onReceiveRawPacket cfg inPort packet w = .ok (count .malformedPackets w) ↔
      Undecodable w inPort packet := by
  refine ⟨fun honly => ?_, onReceiveRawPacket_of_undecodable⟩
  have hcounters : ∀ c, (Handled.world (onReceiveRawPacket cfg inPort packet w)).env.rest.counters
      c = (count .malformedPackets w).env.rest.counters c := fun c => by rw [honly]; rfl
  by_cases hheader : PacketHeader.deserialize packet.header = none
  · exact Or.inl hheader
  by_cases hreach : ReachesStateful w inPort packet
  · cases hpayload : packet.payload with
    | other => exact Or.inr ⟨hreach, Or.inl hpayload⟩
    | malformed => exact Or.inr ⟨hreach, Or.inr hpayload⟩
    | interest name selectors nonce lifetime =>
        have hcounted := hcounters .interestsReceived
        rw [interestsReceived_onReceiveRawPacket cfg hreach hpayload] at hcounted
        exact absurd hcounted (Nat.succ_ne_self _)
    | data name wire =>
        obtain ⟨data, header, -, hdata⟩ := onReceiveRawPacket_data cfg hreach hpayload
        have hcounted := hcounters .dataReceived
        rw [hdata] at hcounted
        exact absurd hcounted (Nat.succ_ne_self _)
  · have hcounted := hcounters .malformedPackets
    rcases onReceiveRawPacket_unread cfg hheader hreach with hkept | hrejected
    · rw [hkept] at hcounted
      exact absurd hcounted.symm (Nat.succ_ne_self _)
    · rw [hrejected] at hcounted
      exact absurd hcounted.symm (Nat.succ_ne_self _)

/-- An Interest with a Nonce is pending under the name. -/
def HoldsNonce (pit : PendingInterestTable) (name : Name) : Prop :=
  ∃ entry, pit.entries[name]? = some entry ∧ entry.interest.hasNonce = true

/-- A Nonce that cannot be read is no other's duplicate, and the insertion fails exactly
if it has to be compared. -/
theorem insert_unreadable {buffers : Buffers} (now : Time) {interest : Interest} (port : Port)
    (pit : PendingInterestTable) (hnonce : interest.hasNonce = true)
    (hunread : interest.getNonce buffers = none) :
    (pit.insert buffers now interest port = none ↔ HoldsNonce pit interest.name) ∧
      ∀ result pit', pit.insert buffers now interest port = some (result, pit') →
        result.accepted = true := by
  have hsame : ∀ entry : PendingEntry,
      PendingInterestTable.sameNonce buffers entry.interest interest =
        if entry.interest.hasNonce then none else some false := by
    intro entry
    rw [PendingInterestTable.sameNonce, hnonce, Bool.and_true, hunread]
    simp
  constructor
  · unfold PendingInterestTable.insert HoldsNonce
    split
    next entry hentry => simp [hentry, hsame]
    next hentry => simp [hentry]
  · intro result pit' hinsert
    rcases PendingInterestTable.insert_cases hinsert with
      ⟨-, rfl, -⟩ | ⟨entry, -, ⟨hdup, -⟩ | ⟨-, rfl, -⟩⟩
    · rfl
    · rw [hsame] at hdup
      split at hdup
      · cases hdup
      · cases hdup
    · rfl

/-- An Interest whose Nonce cannot be read is discarded if another Interest with a Nonce
is pending under its name, and is accepted like any other if none is. -/
theorem onReceiveRawPacket_unreadableNonce {inPort : Port} {packet : RawPacket}
    (hreach : ReachesStateful w inPort packet) {name : Name} {selectors : Selectors}
    {nonce : Bytes} {lifetime : Option UInt64}
    (hpayload : packet.payload = .interest name selectors nonce lifetime)
    (hnonce : Interest.nonceWord nonce = none) :
    (HoldsNonce w.env.rest.pit name → onReceiveRawPacket cfg inPort packet w =
        .ok (count .malformedPackets (count .interestsReceived (received nonce w)))) ∧
      (¬HoldsNonce w.env.rest.pit name → ∃ pit, Accepts w inPort packet name pit) := by
  have hunread : (Interest.decode name selectors nonce lifetime w.env.rest.buffers).1.getNonce
      (Interest.decode name selectors nonce lifetime w.env.rest.buffers).2 = none := by
    simpa [Interest.getNonce, Interest.nonceValue, Interest.decode] using hnonce
  obtain ⟨hfails, haccepted⟩ :=
    insert_unreadable w.clock.now inPort w.env.rest.pit rfl hunread
  cases hinsert : w.env.rest.pit.insert
      (Interest.decode name selectors nonce lifetime w.env.rest.buffers).2 w.clock.now
      (Interest.decode name selectors nonce lifetime w.env.rest.buffers).1 inPort with
  | none =>
      refine ⟨fun _ => ?_, absurd (hfails.mp hinsert)⟩
      obtain ⟨header, hheader, hin, hstateful⟩ := hreach
      have hraise : (count .interestsReceived (received nonce w)).env.rest.pit.insert
          (count .interestsReceived (received nonce w)).env.rest.buffers
          (count .interestsReceived (received nonce w)).clock.now
          (Interest.decode name selectors nonce lifetime w.env.rest.buffers).1 inPort = none :=
        hinsert
      have hraised : processStatefulInterest cfg inPort
          (Interest.decode name selectors nonce lifetime w.env.rest.buffers).1 header
          (received nonce w) =
          .error (.tlvError, count .interestsReceived (received nonce w)) := by
        simp only [processStatefulInterest, hraise]
      simp only [onReceiveRawPacket, hheader, hin, hstateful, Bool.false_eq_true, if_false,
        if_true, hpayload]
      exact congrArg discardMalformed hraised
  | some stored =>
      refine ⟨fun hholds => ?_, fun _ => ⟨stored.2, hreach, selectors, nonce, lifetime,
        stored.1, hpayload, hinsert, haccepted _ _ hinsert⟩⟩
      rw [hfails.mpr hholds] at hinsert
      cases hinsert

/-- The Data takes the pending Interests that it matches, and at most `malformedPackets`
changes besides. -/
structure Consumes (data : Data) (w w' : EngineWorld) : Prop extends SameRouting w w' where
  pit : w'.env.rest.pit = (w.env.rest.pit.takeDataMatchPorts data.name).2
  cs : w'.env.rest.cs = w.env.rest.cs
  log : w'.env.rest.log = w.env.rest.log
  counters : ∀ c, c ≠ .malformedPackets →
    w'.env.rest.counters c = w.env.rest.counters c

/-- Trace Data that ends in no sequence number teaches nothing. -/
theorem consumes_processDataAfterDelay (w : EngineWorld)
    (hvalid : ∀ t, isValidRouteLifetime cfg t = true) {data : Data} (header : PacketHeader)
    (htrace : data.name.judgeNameIsTrace = true) (hseq : data.name.getTraceSequence = none) :
    Consumes data w (Handled.world (processDataAfterDelay cfg data header w)) := by
  have hset : Consumes data w (setPit (w.env.rest.pit.takeDataMatchPorts data.name).2 w) :=
    ⟨⟨rfl, rfl, rfl⟩, rfl, rfl, rfl, fun _ _ => rfl⟩
  simp only [processDataAfterDelay, htrace, if_true, handleTraceData, hvalid, hseq, Bool.not_true,
    Bool.false_eq_true, if_false]
  split
  · exact hset
  split
  · exact ⟨⟨rfl, rfl, rfl⟩, rfl, rfl, rfl, fun c hc => if_neg hc⟩
  · exact hset

/-- What malformed packets do.  A packet is only counted as malformed if and only if it is
undecodable.  Of the others, one that does not reach the stateful module is not read; an
Interest whose Nonce cannot be read is also counted as received, and may be accepted; and
Trace Data without a sequence number waits, and takes the pending Interests that it
matches.  None of them changes the routing state. -/
structure Sturdy (cfg : EngineConfig) (s : Step) : Prop where
  counted : ∀ inPort packet, s.action = .receive inPort packet →
    (s.outcome = .ok (count .malformedPackets s.before) ↔ Undecodable s.before inPort packet)
  unread : ∀ inPort packet, s.action = .receive inPort packet →
    PacketHeader.deserialize packet.header ≠ none → ¬ReachesStateful s.before inPort packet →
      s.outcome = .ok s.before ∨ s.outcome = .ok (count .noRouteRejections s.before)
  arrival : ∀ inPort packet, s.action = .receive inPort packet →
    SameRouting s.before (Handled.world s.outcome)
  nonce : ∀ inPort packet name selectors nonce lifetime, s.action = .receive inPort packet →
    ReachesStateful s.before inPort packet →
      packet.payload = .interest name selectors nonce lifetime →
        Interest.nonceWord nonce = none →
          (HoldsNonce s.before.env.rest.pit name → s.outcome = .ok (count .malformedPackets
              (count .interestsReceived (received nonce s.before)))) ∧
            (¬HoldsNonce s.before.env.rest.pit name →
              ∃ pit, Accepts s.before inPort packet name pit)
  data : ∀ inPort packet name wire, s.action = .receive inPort packet →
    ReachesStateful s.before inPort packet → packet.payload = .data name wire →
      ∃ data header, data.name = name ∧ s.outcome =
        .ok (schedule cfg.statefulDelay (.processDataAfterDelay inPort data header)
          (count .dataReceived s.before))
  unnumbered : ∀ inPort data header,
    s.action = .fire (.processDataAfterDelay inPort data header) →
      data.name.judgeNameIsTrace = true → data.name.getTraceSequence = none →
        Consumes data s.before (Handled.world s.outcome)

theorem sturdy_control {r : Handled} : Sturdy cfg ⟨w, .control, r⟩ :=
  ⟨by rintro _ _ ⟨⟩, by rintro _ _ ⟨⟩, by rintro _ _ ⟨⟩, by rintro _ _ _ _ _ _ ⟨⟩,
    by rintro _ _ _ _ ⟨⟩, by rintro _ _ _ ⟨⟩⟩

theorem EngineStep.sturdy (hvalid : ∀ t, isValidRouteLifetime cfg t = true) {a : EngineAction}
    {r : Handled} (h : EngineStep cfg w a r) : Sturdy cfg ⟨w, a, r⟩ := by
  cases h with
  | receive inPort packet =>
      refine ⟨?_, ?_, ?_, ?_, ?_, by rintro inPort data header ⟨⟩⟩
      · rintro inPort packet ⟨⟩
        exact onReceiveRawPacket_eq_malformed_iff
      · rintro inPort packet ⟨⟩ hheader hunread
        exact onReceiveRawPacket_unread cfg hheader hunread
      · rintro inPort packet ⟨⟩
        exact sameRouting_onReceiveRawPacket cfg inPort packet w
      · rintro inPort packet name selectors nonce lifetime ⟨⟩ hreach hpayload hnonce
        exact onReceiveRawPacket_unreadableNonce hreach hpayload hnonce
      · rintro inPort packet name wire ⟨⟩ hreach hpayload
        exact onReceiveRawPacket_data cfg hreach hpayload
  | @fire e he hdue =>
      refine ⟨by rintro _ _ ⟨⟩, by rintro _ _ ⟨⟩, by rintro _ _ ⟨⟩, by rintro _ _ _ _ _ _ ⟨⟩,
        by rintro _ _ _ _ ⟨⟩, fun inPort data header haction htrace hseq => ?_⟩
      have hevent : e.event = .processDataAfterDelay inPort data header :=
        EngineAction.fire.inj haction
      have hconsumes := consumes_processDataAfterDelay (ForwardingEngine.take e w) hvalid
        header htrace hseq
      simp only [ForwardingEngine.fire, hevent, handle]
      exact ⟨⟨hconsumes.ctl, hconsumes.central, hconsumes.switch⟩, hconsumes.pit, hconsumes.cs,
        hconsumes.log, hconsumes.counters⟩
  | temporary he hdue => exact sturdy_control
  | central he hdue => exact sturdy_control
  | idle clock hnow huid hdue hdue' hown => exact sturdy_control

/-- With no lifetime configured, no step of a run raises an exception as long as every
event that runs is processable.  A packet only increments `malformedPackets` exactly if it
is undecodable, and none changes the routing state on its arrival. -/
theorem no_exception (hflow : cfg.configuredFlowTableLifetime = 0)
    (htemporary : cfg.configuredTemporaryLifetime = 0) {steps : List Step} {r : Handled}
    (hrun : EngineRun cfg w₀ steps r) :
    ((∀ s ∈ steps, Processable cfg s.before s.action) →
        (∃ w, r = .ok w) ∧ ∀ s ∈ steps, ∃ w', s.outcome = .ok w') ∧
      ∀ s ∈ steps, Sturdy cfg s := by
  have hvalid := isValidRouteLifetime_of_unconfigured hflow htemporary
  refine ⟨fun hmeets => ?_, fun s hs => (hrun.inv.2 s hs).2.sturdy hvalid⟩
  have hsteps : ∀ s ∈ steps, ∃ w', s.outcome = .ok w' := by
    intro s hs
    obtain ⟨hinv, hstep⟩ := hrun.inv.2 s hs
    exact hstep.completes hinv hvalid (hmeets s hs)
  refine ⟨?_, hsteps⟩
  cases hrun with
  | start h => exact ⟨w₀, rfl⟩
  | step hbefore hstep => exact hsteps _ (List.mem_append_right _ List.mem_cons_self)

/-! ## A run that reforwards -/

/-- The sample engine with a controller that takes five nanoseconds for every message. -/
def slowEngineConfig : EngineConfig :=
  { sampleEngineConfig with
    loop := Loop.losslessConfig true fun _ => 5
    entryLifetime_eq := rfl
    guards_eq := rfl }

theorem isInitial_slowEngine : IsInitial slowEngineConfig sampleEngine :=
  ⟨⟨⟨rfl, rfl⟩, ⟨rfl, rfl, rfl⟩, .init⟩, rfl, rfl, rfl, rfl⟩

/-- A payload that no decoder accepts has arrived. -/
def countedWorld : EngineWorld := arrived slowEngineConfig 9 .malformed sampleEngine

/-- An Interest whose Nonce has two octets waits for its delay. -/
def shortNonceWorld : EngineWorld :=
  arrived slowEngineConfig 1 (.interest contentName ⟨.keyDigest⟩ [1, 2] none) countedWorld

/-- It is pending, and a Trace Interest waits for its delay. -/
def tracingWorld : EngineWorld :=
  arrived slowEngineConfig 2 (traceInterest 2) (rejected contentName (takeFirst shortNonceWorld))

/-- The Trace Data has arrived and waits for its delay. -/
def answeringWorld : EngineWorld :=
  arrived slowEngineConfig 3 traceData (rejected traceName (takeFirst tracingWorld))

/-- The update has been learned, and the pending Interest is to be sent again. -/
def reforwardingWorld : EngineWorld :=
  learned slowEngineConfig receivedTrace (takeFirst answeringWorld)

/-- The Interest that is sent again. -/
def resentInterest : Interest where
  name := contentName
  selectors := ⟨.keyDigest⟩
  nonce := some 2
  hasWire := false
  lifetime := 4000

/-- The Interest has been sent again. -/
def reforwardedWorld : EngineWorld :=
  noteInterest 2 { resentInterest with hasWire := true }
    (count .pendingPullsSent (takeFirst reforwardingWorld))

theorem run_answeringWorld :
    ∃ steps, EngineRun slowEngineConfig sampleEngine steps (.ok answeringWorld) ∧
      (∃ s ∈ steps, s.action = .receive 9 (unprocessed .malformed)) ∧
      ∀ s ∈ steps, (∀ inPort data header,
        s.action ≠ .fire (.processDataAfterDelay inPort data header)) ∧
          ∀ interest port, s.action ≠ .fire (.doDelayedPullSend interest port) := by
  have hcounted := EngineRun.arrive (.start isInitial_slowEngine) 9 .malformed
  have hasked := (hcounted.arrive 1 (.interest contentName ⟨.keyDigest⟩ [1, 2] none)).fireInterest
    (by rfl) (by decide) (by rfl) (fib_initPipeline EntrySort.mergeSort)
  have htraced := (hasked.arrive 2 (traceInterest 2)).fireInterest (by rfl) (by decide)
    (by rfl) (fib_initPipeline EntrySort.mergeSort)
  refine ⟨_, htraced.arrive 3 traceData, ?_, ?_⟩
  · simp
  · simp

theorem run_reforwardingWorld {steps : List Step}
    (hrun : EngineRun slowEngineConfig sampleEngine steps (.ok answeringWorld)) :
    EngineRun slowEngineConfig sampleEngine (steps ++ [⟨answeringWorld,
      .fire (.processDataAfterDelay 3 receivedTrace hopHeader), .ok reforwardingWorld⟩])
      (.ok reforwardingWorld) := by
  have hevents : answeringWorld.env.rest.events =
    [⟨0, 2, .processDataAfterDelay 3 receivedTrace hopHeader⟩] := rfl
  exact hrun.fireTrace hevents (by decide) (by decide) (by decide) (by decide) ⟨_, rfl⟩

theorem run_reforwardedWorld {steps : List Step}
    (hrun : EngineRun slowEngineConfig sampleEngine steps (.ok reforwardingWorld)) :
    EngineRun slowEngineConfig sampleEngine (steps ++ [⟨reforwardingWorld,
      .fire (.doDelayedPullSend resentInterest 2), .ok reforwardedWorld⟩])
      (.ok reforwardedWorld) := by
  have hevents : reforwardingWorld.env.rest.events =
    [⟨0, 5, .doDelayedPullSend resentInterest 2⟩] := rfl
  exact hrun.firePull hevents (by decide) rfl

/-- The undecodable packet is only counted, the Interest with a Nonce of two octets is
sent again, and every step completes. -/
theorem no_exception_reforwardedWorld :
    ∃ steps r, EngineRun slowEngineConfig sampleEngine steps r ∧
      (∃ s ∈ steps, s.action = .receive 9 (unprocessed .malformed)) ∧
      (∃ s ∈ steps, s.action = .fire (.processDataAfterDelay 3 receivedTrace hopHeader)) ∧
      (∃ s ∈ steps, s.action = .fire (.doDelayedPullSend resentInterest 2)) ∧
      (∃ w, r = .ok w) ∧ (∀ s ∈ steps, ∃ w', s.outcome = .ok w') ∧
      ∀ s ∈ steps, Sturdy slowEngineConfig s := by
  obtain ⟨steps, hrun, ⟨s, hs, hcounted⟩, hother⟩ := run_answeringWorld
  have hsent := run_reforwardedWorld (run_reforwardingWorld hrun)
  obtain ⟨hcompletes, hsturdy⟩ := no_exception rfl rfl hsent
  obtain ⟨hok, hsteps⟩ := hcompletes (by
    refine forall_steps_append (forall_steps_append
      (fun s hs => processable_of_ne (hother s hs).1 (hother s hs).2) ?_) ?_
    · intro htrace entry hentry hpositive
      refine ⟨1, by decide, fun hon hadmissible i hi => ?_⟩
      have hread : ∀ i ∈ pulledBy slowEngineConfig traceName answeringWorld.env.rest.pit,
          (i.getNonce answeringWorld.env.rest.buffers).isSome = true := by decide
      exact fun _ => hread i hi
    · exact Or.inr (by decide))
  exact ⟨_, _, hsent, ⟨s, List.mem_append_left _ (List.mem_append_left _ hs), hcounted⟩,
    ⟨_, List.mem_append_left _ (List.mem_append_right _ List.mem_cons_self), rfl⟩,
    ⟨_, List.mem_append_right _ List.mem_cons_self, rfl⟩, hok, hsteps, hsturdy⟩

/-! ## Trace Data without a sequence number -/

/-- A Trace name whose last component is no sequence number. -/
def unnumberedName : Name := [.generic [0x61], .generic Name.traceUri, .generic [0x62],
  .generic [0x63]]

/-- An Interest for it waits for its delay. -/
def unnumberedWorld : EngineWorld :=
  arrived sampleEngineConfig 2 (.interest unnumberedName {} [1, 0, 0, 0] none) sampleEngine

/-- The Data has arrived and waits for its delay. -/
def answeredWorld : EngineWorld :=
  arrived sampleEngineConfig 3 (.data unnumberedName [0x15])
    (rejected unnumberedName (takeFirst unnumberedWorld))

theorem run_answeredWorld :
    ∃ steps, EngineRun sampleEngineConfig sampleEngine steps (.ok answeredWorld) := by
  have hasked := EngineRun.arrive (.start isInitial_sampleEngine) 2
    (.interest unnumberedName {} [1, 0, 0, 0] none)
  have hrejected := hasked.fireInterest (by rfl) (by decide) (by rfl)
    (fib_initPipeline EntrySort.mergeSort)
  exact ⟨_, hrejected.arrive 3 (.data unnumberedName [0x15])⟩

theorem due_answeredWorld :
    ∃ e, answeredWorld.env.rest.events.head? = some e ∧
      e.event = .processDataAfterDelay 3 ⟨unnumberedName, [0x15], some 1⟩ hopHeader ∧
      IsDue answeredWorld e.key :=
  ⟨_, rfl, rfl, by decide⟩

/-- The exception leaves a scheduled event and ends the run. -/
theorem not_completes_answeredWorld :
    sampleEngineConfig.configuredFlowTableLifetime = 0 ∧
      sampleEngineConfig.configuredTemporaryLifetime = 0 ∧
      ∃ steps w', EngineRun sampleEngineConfig sampleEngine steps (.error (.tlvError, w')) := by
  obtain ⟨steps, hrun⟩ := run_answeredWorld
  obtain ⟨e, he, hevent, hdue⟩ := due_answeredWorld
  have hraised : ForwardingEngine.fire sampleEngineConfig e answeredWorld =
      .error (.tlvError, setPit (answeredWorld.env.rest.pit.takeDataMatchPorts unnumberedName).2
        (take e answeredWorld)) := by
    simp only [ForwardingEngine.fire, hevent]
    rfl
  exact ⟨rfl, rfl, _, _, hrun.fireNext he hdue hraised⟩

end ForwardingEngine

end Statim
