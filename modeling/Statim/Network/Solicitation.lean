import Statim.Network.Network

/-!
# Requests and content across a network

Every Interest in a network can be followed back, from engine to engine, to a host
that sent it, and all Data comes from a host.  Data leaves an engine only where such
a chain of Interests begins.
-/

namespace Statim

open Support SwitchPipeline ForwardingEngine

namespace Network

variable {V : Type} {net : Network V} {s : V → EngineWorld} {name : Name}

/-- An Interest with this name was sent to the port, by a host or by the engine at the
other end. -/
def CameFrom (net : Network V) (s : V → EngineWorld) (name : Name) (v : V) (port : Port) :
    Prop :=
  match net.peer v port with
  | none => ∃ packet selectors nonce element, net.host v port packet ∧
      packet.payload = .interest name selectors nonce element
  | some (u, q) => ∃ selectors nonce lifetime,
      .sentInterest q name selectors nonce lifetime ∈ (s u).env.rest.log

/-- A host at this port may send an Interest with this name. -/
def HostAsks (net : Network V) (name : Name) (v : V) (port : Port) : Prop :=
  ∃ packet selectors nonce element, net.host v port packet ∧
    packet.payload = .interest name selectors nonce element

/-- The Interests with this name lead from the engine back to a host that sent one. -/
def LeadsBack (net : Network V) (s : V → EngineWorld) (name : Name) (v : V) : Prop :=
  Rooted (net.HostAsks name) net.peer (firstAsked name) s v

/-- A host may send Data with this name and these octets. -/
def HostSupplies (net : Network V) (name : Name) (wire : Bytes) : Prop :=
  ∃ v port packet, net.peer v port = none ∧ net.host v port packet ∧
    packet.payload = .data name wire

/-- The payload of a packet that an engine has sent. -/
theorem sentInterest_of_sent {stdHash : Bytes → Nat} {w : EngineWorld} {port : Port}
    {packet : RawPacket} (h : Sent stdHash w port packet) {selectors : Selectors}
    {nonce : Bytes} {element : Option UInt64}
    (hpayload : packet.payload = .interest name selectors nonce element) :
    .sentInterest port name selectors nonce (decodedLifetime element) ∈ w.env.rest.log := by
  cases h with
  | interest hsent =>
      cases hpayload
      exact hsent
  | data hsent => cases hpayload

theorem sentData_of_sent {stdHash : Bytes → Nat} {w : EngineWorld} {port : Port}
    {packet : RawPacket} (h : Sent stdHash w port packet) {wire : Bytes}
    (hpayload : packet.payload = .data name wire) :
    ∃ data, data.name = name ∧ data.wire = wire ∧ .sentData port data ∈ w.env.rest.log := by
  cases h with
  | interest hsent => cases hpayload
  | @data data hsent =>
      cases hpayload
      exact ⟨data, rfl, rfl, hsent⟩

/-- An Interest that arrives was sent to the port. -/
theorem cameFrom_of_delivers {v : V} {port : Port} {packet : RawPacket}
    (h : net.Delivers s v port packet) {selectors : Selectors} {nonce : Bytes}
    {element : Option UInt64}
    (hpayload : packet.payload = .interest name selectors nonce element) :
    net.CameFrom s name v port := by
  cases hpeer : net.peer v port with
  | none =>
      simp only [Delivers, hpeer] at h
      simp only [CameFrom, hpeer]
      exact ⟨packet, selectors, nonce, element, h, hpayload⟩
  | some end_ =>
      simp only [Delivers, hpeer] at h
      simp only [CameFrom, hpeer]
      exact ⟨selectors, nonce, _, sentInterest_of_sent h hpayload⟩

variable [DecidableEq V]

theorem CameFrom.update {v w : V} {port : Port} {t : EngineWorld} (h : net.CameFrom s name v port)
    (hlog : ∀ o ∈ (s w).env.rest.log, o ∈ t.env.rest.log) :
    net.CameFrom (Function.update s w t) name v port := by
  unfold CameFrom at h ⊢
  split at h
  next => exact h
  next u q hpeer =>
    obtain ⟨selectors, nonce, lifetime, hsent⟩ := h
    refine ⟨selectors, nonce, lifetime, ?_⟩
    by_cases hu : u = w
    · subst hu
      rw [Function.update_self]
      exact hlog _ hsent
    · rw [Function.update_of_ne hu]
      exact hsent

/-- Every accepted Interest was sent to the port that it came from. -/
theorem Reached.cameFrom (h : Reached net s) {v : V} {port : Port}
    (haccepted : .accepted port name ∈ (s v).env.rest.log) : net.CameFrom s name v port := by
  obtain ⟨s₀, hinitial, hrun⟩ := h
  induction hrun generalizing v with
  | start =>
      rw [(hinitial v).log] at haccepted
      exact absurd haccepted List.not_mem_nil
  | @step s w t hbefore hstep ih =>
      have hinv := nodeInv_of_interleaving hinitial hbefore w
      have hgrows : ∀ o ∈ (s w).env.rest.log, o ∈ t.env.rest.log :=
        fun o ho => hstep.mem_log hinv ho
      by_cases hv : v = w
      · subst hv
        rw [Function.update_self] at haccepted
        obtain ⟨w₀, hengine⟩ := hinv.engine
        obtain ⟨a, hengineStep, hdelivers⟩ := hstep
        by_cases hold : .accepted port name ∈ (s v).env.rest.log
        · exact (ih hold).update hgrows
        · obtain ⟨packet, pit, rfl, haccepts⟩ :=
            hengineStep.accepts_of_mem_log hengine haccepted hold
          obtain ⟨-, selectors, nonce, element, -, hpayload, -⟩ := haccepts
          exact (cameFrom_of_delivers (hdelivers _ _ rfl) hpayload).update hgrows
      · rw [Function.update_of_ne hv] at haccepted
        exact (ih haccepted).update hgrows

/-- Every request can be followed back to a host that made it. -/
theorem Reached.leadsBack (h : Reached net s) {v : V} (hasked : Asked name (s v)) :
    net.LeadsBack s name v := by
  obtain ⟨s₀, hinitial, hrun⟩ := h
  refine hrun.rooted (fun v => ?_) ?_ ?_ v (firstAsked_ne_none_iff.mpr hasked)
  · rw [firstAsked, (hinitial v).log]
    rfl
  · intro s v t p hbefore hstep hfirst
    obtain ⟨w₀, hengine⟩ := (nodeInv_of_interleaving hinitial hbefore v).engine
    obtain ⟨a, hstep, -⟩ := hstep
    exact firstAsked_step hengine hstep hfirst
  · intro s v t p hbefore hstep hnone hfirst
    have hinv := nodeInv_of_interleaving hinitial hbefore
    obtain ⟨w₀, hengine⟩ := (hinv v).engine
    obtain ⟨a, hstep, hdelivers⟩ := hstep
    have hnew := hstep.accepts_of_mem_log hengine (accepted_of_firstAsked hfirst) fun hold =>
      firstAsked_ne_none_iff.mpr ⟨p, hold⟩ hnone
    obtain ⟨packet, pit, rfl, haccepts⟩ := hnew
    obtain ⟨-, selectors, nonce, element, -, hpayload, -⟩ := haccepts
    have hcame := cameFrom_of_delivers (hdelivers _ _ rfl) hpayload
    cases hpeer : net.peer v p with
    | none =>
        simp only [CameFrom, hpeer] at hcame
        exact Or.inl ⟨rfl, hcame⟩
    | some end_ =>
        simp only [CameFrom, hpeer] at hcame
        obtain ⟨selectors', nonce', lifetime, hsent⟩ := hcame
        refine Or.inr ⟨end_.1, end_.2, rfl, ?_⟩
        exact firstAsked_ne_none_iff.mpr ((hinv end_.1).solicited.sentInterest _ _ _ _ _ hsent)

/-- All Data in the network is a host's. -/
theorem Reached.authentic (h : Reached net s) (v : V) : Authentic net.HostSupplies (s v) := by
  obtain ⟨s₀, hinitial, hrun⟩ := h
  refine hrun.forall_components (fun _ w => Authentic net.HostSupplies w)
    (fun v => Authentic.initial (hinitial v)) (fun s v t hbefore hauthentic hstep => ?_) v
  obtain ⟨w₀, hengine⟩ := (nodeInv_of_interleaving hinitial hbefore v).engine
  obtain ⟨a, hstep, hdelivers⟩ := hstep
  refine (hauthentic v).step hengine hstep fun inPort packet name wire hreceive hpayload => ?_
  have harrives := hdelivers inPort packet hreceive
  cases hpeer : net.peer v inPort with
  | none =>
      simp only [Delivers, hpeer] at harrives
      exact ⟨v, inPort, packet, hpeer, harrives, hpayload⟩
  | some end_ =>
      simp only [Delivers, hpeer] at harrives
      obtain ⟨data, rfl, rfl, hsent⟩ := sentData_of_sent harrives hpayload
      exact (hauthentic end_.1).sent _ data hsent

/-- Data that leaves an engine was sent by a host, with this name and these octets.  It
answers an Interest for a prefix of its name that came in through that port, and such
Interests lead, engine by engine, back to a host that asked. -/
theorem data_answers_a_host (h : Reached net s) {v : V} {port : Port} {data : Data}
    (hsent : .sentData port data ∈ (s v).env.rest.log) :
    net.HostSupplies data.name data.wire ∧
      ∃ n, n <+: data.name ∧ net.CameFrom s n v port ∧
        ∀ u q, net.peer v port = some (u, q) → net.LeadsBack s n u := by
  obtain ⟨n, hn, haccepted⟩ := (h.nodeInv v).solicited.sentData port data hsent
  have hcame := h.cameFrom haccepted
  refine ⟨(h.authentic v).sent port data hsent, n, hn, hcame, ?_⟩
  intro u q hpeer
  simp only [CameFrom, hpeer] at hcame
  obtain ⟨selectors, nonce, lifetime, hasked⟩ := hcame
  exact h.leadsBack ((h.nodeInv u).solicited.sentInterest _ _ _ _ _ hasked)

/-! ## A pair of engines -/

/-- The Trace Interest comes in at port 1 of the first engine, which reaches the second
one through port 2; the Trace Data comes in at port 2 of the second one. -/
def pairNetwork : Network Bool where
  config _ := sampleEngineConfig
  peer v port := if v = false ∧ port = 2 then some (true, 1)
    else if v = true ∧ port = 1 then some (false, 2) else none
  host v port packet :=
    v = false ∧ port = 1 ∧ packet = unprocessed (traceInterest 1) ∨
      v = true ∧ port = 2 ∧ packet = unprocessed traceData
  peer_symm v p u q h := by
    split at h
    next hv =>
      obtain ⟨rfl, rfl⟩ := hv
      cases h
      rfl
    next =>
      split at h
      next hv =>
        obtain ⟨rfl, rfl⟩ := hv
        cases h
        rfl
      next => cases h

/-- The route of the first engine to the second one. -/
def nearHashes : Bytes :=
  PacketHeader.hashesOf sampleEngineConfig.loop.stdHash (traceName.take 1)

/-- The first engine. -/
def nearEngine : EngineWorld :=
  { sampleEngine with env := { sampleEngine.env with
    switch := sampleEngine.env.switch.installFibEntry EntrySort.mergeSort nearHashes 2 0 none } }

theorem isInitial_nearEngine : IsInitial sampleEngineConfig nearEngine :=
  ⟨⟨⟨rfl, rfl⟩, ⟨rfl, rfl, rfl⟩, .install (leading_hashesOf _ _) 2 0 .init⟩, rfl, rfl, rfl, rfl⟩

/-- The only route leads to the second engine. -/
theorem ports_nearEngine {ports : List Port} (h : FlowPorts sampleEngineConfig.loop.stdHash 0
    nearEngine.env.switch traceName ports) : ports = [2] := by
  have hinit := isSwitch_initPipeline EntrySort.mergeSort
  have hfib : nearEngine.env.switch.fib = installed EntrySort.mergeSort nearHashes 2 0 none
      (initPipeline EntrySort.mergeSort).fib :=
    hinit.fib_installFibEntry EntrySort.mergeSort nearHashes 2 0 none
  have hagree : ∀ i < nameHashCount, hashAt nearHashes i = none ∨
      (PacketHeader.ofName sampleEngineConfig.loop.stdHash traceName).nameHashes[i]? =
        hashAt nearHashes i := by
    decide
  have hmatch : FlowMatch sampleEngineConfig.loop.stdHash 0 nearEngine.env.switch traceName
      nearHashes 2 := by
    refine ⟨⟨0, none, ?_, by decide⟩, fun i hi b hb => ?_⟩
    · rw [hfib, hinit.fibInv.mem_installed]
      exact Or.inr rfl
    · rcases hagree i hi with hnone | hsame
      · rw [hnone] at hb
        cases hb
      · rw [hsame, hb]
  refine h.matched nearHashes 2 hmatch fun hs port hother => ?_
  obtain ⟨expiry, source, hmem, -⟩ := hother.entry
  rw [hfib, hinit.fibInv.mem_installed, fib_initPipeline, List.mem_singleton] at hmem
  rcases hmem with ⟨hdrop, -⟩ | heq
  · exact absurd hdrop (by simp [fibEntry, dropEntry])
  · have hpriority := congrArg FlowEntry.priority heq
    simp only [fibEntry, fibPriority] at hpriority
    simp only [matchLength]
    omega

/-- The Trace Interest waits at the first engine. -/
def nearAsked : EngineWorld := arrived sampleEngineConfig 1 (traceInterest 1) nearEngine

theorem due_nearAsked : ∃ e interest header, nearAsked.env.rest.events.head? = some e ∧
    IsDue nearAsked e.key ∧ e.event = .processInterestAfterDelay 1 interest header ∧
    e.ts = 0 ∧ interest.name = traceName ∧ interest.selectors = {} ∧
    interest.hasWire = true ∧ interest.lifetime = 4000 ∧
    interest.nonceValue nearAsked.env.rest.buffers = [1, 0, 0, 0] :=
  ⟨_, _, _, rfl, by decide, rfl, rfl, rfl, rfl, rfl, rfl, rfl⟩

/-- The first engine sends the Trace Interest on. -/
theorem run_nearEngine : ∃ steps w, EngineRun sampleEngineConfig nearEngine steps (.ok w) ∧
    (∀ st ∈ steps, ∀ port packet, st.action = .receive port packet →
      port = 1 ∧ packet = unprocessed (traceInterest 1)) ∧
    .sentInterest 2 traceName {} [1, 0, 0, 0] 4000 ∈ w.env.rest.log := by
  have harrived := (EngineRun.start isInitial_nearEngine).arrive 1 (traceInterest 1)
  have hroutable := harrived.edited.routable
  obtain ⟨e, interest, header, he, hdue, hevent, hts, hname, hselectors, hwire, hlifetime,
    hvalue⟩ := due_nearAsked
  obtain ⟨w', hok⟩ := processInterestAfterDelay_of_hasWire sampleEngineConfig 1 hwire header
    (take e nearAsked)
  have hfire : fire sampleEngineConfig e nearAsked = .ok w' := by
    simp only [fire, hevent, handle]
    exact hok
  refine ⟨_, w', harrived.fireNext he hdue hfire, by simp, ?_⟩
  have htaken : Loop.Routable (take e nearAsked) :=
    ⟨hroutable.fib, hroutable.switch, hroutable.inFlight, hroutable.pending⟩
  obtain ⟨ports, hports, hsent⟩ : ∃ ports, FlowPorts sampleEngineConfig.loop.stdHash
      (take e nearAsked).clock.now (take e nearAsked).env.switch interest.name ports ∧
      Transmits interest (ports.filter (· ≠ 1)) false (take e nearAsked) w' :=
    transmits_flowTable htaken hwire hok (Or.inr fun j _ port => rfl)
  have hnow : (take e nearAsked).clock.now = 0 := hts
  rw [hname, hnow] at hports
  obtain rfl := ports_nearEngine hports
  have hlog := hsent.log
  have hvalue : interest.nonceValue (take e nearAsked).env.rest.buffers = [1, 0, 0, 0] := hvalue
  rw [hvalue, hname, hselectors, hlifetime] at hlog
  rw [hlog]
  exact List.mem_append_right _ (by decide)

/-- What the second engine gets. -/
def linkPacket : RawPacket :=
  interestPacket sampleEngineConfig.loop.stdHash traceName {} [1, 0, 0, 0] none

/-- The Trace Interest waits at the second engine, and then the Trace Data. -/
def farAsked : EngineWorld :=
  Handled.world (discardMalformed (processPayload sampleEngineConfig 1
    (outHeader sampleEngineConfig.loop.stdHash traceName) (traceInterest 1) sampleEngine))

def farReturned : EngineWorld :=
  arrived sampleEngineConfig 2 traceData (rejected traceName (takeFirst farAsked))

/-- The second engine has learned from the Trace Data. -/
def farLearned : EngineWorld :=
  learned sampleEngineConfig receivedTrace (takeFirst farReturned)

theorem run_farEngine : ∃ steps w, EngineRun sampleEngineConfig sampleEngine steps (.ok w) ∧
    (∀ st ∈ steps, ∀ port packet, st.action = .receive port packet →
      port = 1 ∧ packet = linkPacket ∨ port = 2 ∧ packet = unprocessed traceData) ∧
    .sentData 1 receivedTrace ∈ w.env.rest.log ∧
    w.log = farLearned.log ∧ w.ctl = farLearned.ctl := by
  have hsw : IsSwitch sampleEngine.env.switch := isSwitch_initPipeline EntrySort.mergeSort
  have hread : PacketHeader.deserialize linkPacket.header =
      some (outHeader sampleEngineConfig.loop.stdHash traceName) := by decide
  have hok : onReceiveRawPacket sampleEngineConfig 1 linkPacket sampleEngine = .ok farAsked :=
    onReceiveRawPacket_of_read hsw hread rfl 1
  have hstep : EngineStep sampleEngineConfig sampleEngine (.receive 1 linkPacket)
      (.ok farAsked) := by
    rw [← hok]
    exact .receive sampleEngine 1 linkPacket
  have hrejected := ((EngineRun.start isInitial_sampleEngine).step hstep).fireInterest (by rfl)
    (by decide) (by rfl) (fib_initPipeline EntrySort.mergeSort)
  have hreturned := hrejected.arrive 2 traceData
  have hevents : farReturned.env.rest.events =
    [⟨0, 1, .processDataAfterDelay 2 receivedTrace hopHeader⟩] := rfl
  have hlearned := hreturned.fireTrace hevents (by decide) (by decide) (by decide) (by decide)
    ⟨_, rfl⟩
  refine ⟨_, farLearned, hlearned, ?_, ?_, rfl, rfl⟩
  · intro st hst port packet haction
    simp only [List.mem_append, List.mem_singleton] at hst
    rcases hst with ((((hnone | rfl) | rfl) | rfl) | rfl)
    · exact absurd hnone List.not_mem_nil
    · cases haction
      exact Or.inl ⟨rfl, rfl⟩
    · cases haction
    · cases haction
      exact Or.inr ⟨rfl, rfl⟩
    · cases haction
  · exact List.mem_append_right _ (by decide)

/-- Both engines before their first steps. -/
def pairStart (v : Bool) : EngineWorld := if v then sampleEngine else nearEngine

/-- The Trace Interest and its Data have crossed the link. -/
theorem reached_pair : ∃ s, Reached pairNetwork s ∧
    .sentInterest 2 traceName {} [1, 0, 0, 0] 4000 ∈ (s false).env.rest.log ∧
    .sentData 1 receivedTrace ∈ (s true).env.rest.log ∧
    (s true).log = farLearned.log ∧ (s true).ctl = farLearned.ctl := by
  obtain ⟨steps, near, hnear, hreceives, hsent⟩ := run_nearEngine
  obtain ⟨steps', far, hfar, hreceives', hreturned, hlog⟩ := run_farEngine
  have hself : ∀ v port q, pairNetwork.peer v port ≠ some (v, q) := by
    intro v port q
    simp only [pairNetwork]
    split
    next hv => simp [hv.1]
    next =>
      split
      next hv => simp [hv.1]
      next => simp
  have hfirst : Interleaving pairNetwork.NetStep pairStart
      (Function.update pairStart false near) := by
    refine interleaving_run .start hnear rfl (hself false) fun st hst port packet haction => ?_
    obtain ⟨rfl, rfl⟩ := hreceives st hst port packet haction
    exact Or.inl ⟨rfl, rfl, rfl⟩
  have hsecond : Interleaving pairNetwork.NetStep pairStart
      (Function.update (Function.update pairStart false near) true far) := by
    refine interleaving_run hfirst hfar rfl (hself true) fun st hst port packet haction => ?_
    rcases hreceives' st hst port packet haction with ⟨rfl, rfl⟩ | ⟨rfl, rfl⟩
    · have hsent : .sentInterest 2 traceName {} [1, 0, 0, 0] (decodedLifetime none) ∈
          near.env.rest.log := hsent
      exact Sent.interest hsent
    · exact Or.inr ⟨rfl, rfl, rfl⟩
  refine ⟨_, ⟨pairStart, fun v => ?_, hsecond⟩, hsent, hreturned, hlog⟩
  cases v with
  | false => exact isInitial_nearEngine
  | true => exact isInitial_sampleEngine

/-- The Trace Data that crosses the link was asked for by the host of the first engine. -/
theorem data_answers_a_host_pair :
    ∃ s, Reached pairNetwork s ∧ .sentData 1 receivedTrace ∈ (s true).env.rest.log ∧
      pairNetwork.HostSupplies traceName [0x15] ∧
      ∃ n, n <+: traceName ∧ pairNetwork.LeadsBack s n false := by
  obtain ⟨s, hreached, -, hsent, -⟩ := reached_pair
  obtain ⟨hsupplies, n, hn, -, hback⟩ := data_answers_a_host hreached hsent
  exact ⟨s, hreached, hsent, hsupplies, n, hn, hback false 2 rfl⟩

end Network

end Statim
