import Statim.Engine.Provenance
import Statim.Pipeline.HeaderCodec
import Statim.Support.Interleaving

/-!
# Networks of forwarding engines

Forwarding engines are joined by point-to-point links; all other ports lead to
hosts.  A packet that arrives over a link is one that the engine at its other end
has sent: the links may lose, delay, reorder and repeat packets, which is more than
ns-3 does.  Every engine runs on its own clock, so that the runs of the one
simulator clock are among those considered.

`LeadsBack` says that the Interests for a name can be followed, port by port, from
an engine to a host that sent one.
-/

namespace Statim

open Support SwitchPipeline ForwardingEngine

/-! ## Packets on a link -/

/-- The lifetime that the decoder reads off an `InterestLifetime` element. -/
def decodedLifetime (element : Option UInt64) : Int :=
  (Interest.decode [] {} [] element []).1.lifetime

/-- The header that `sendInterestToPort` and `sendDataToPort` put in front. -/
def outHeader (stdHash : Bytes → Nat) (name : Name) : PacketHeader :=
  ((PacketHeader.ofName stdHash name).setType PacketType.unprocessed).setOutPorts 0

/-- The packet of `sendInterestToPort`. -/
def interestPacket (stdHash : Bytes → Nat) (name : Name) (selectors : Selectors)
    (nonce : Bytes) (element : Option UInt64) : RawPacket :=
  ⟨(outHeader stdHash name).serialize, .interest name selectors nonce element⟩

/-- The packet of `sendDataToPort`. -/
def dataPacket (stdHash : Bytes → Nat) (data : Data) : RawPacket :=
  ⟨((outHeader stdHash data.name).setSwitchId (data.hopCount.getD 0)).serialize,
    .data data.name data.wire⟩

/-- The engine has sent this packet to one of its ports.  The lifetime of a sent Interest
is the one that its encoding is decoded to. -/
inductive Sent (stdHash : Bytes → Nat) (w : EngineWorld) (port : Port) : RawPacket → Prop
  | interest {name : Name} {selectors : Selectors} {nonce : Bytes} {element : Option UInt64}
      (hsent : .sentInterest port name selectors nonce (decodedLifetime element) ∈
        w.env.rest.log) :
      Sent stdHash w port (interestPacket stdHash name selectors nonce element)
  | data {data : Data} (hsent : .sentData port data ∈ w.env.rest.log) :
      Sent stdHash w port (dataPacket stdHash data)

/-! ## Networks -/

/-- Engines, the links between their ports, and what the hosts at the other ports may
send. -/
structure Network (V : Type) where
  config : V → EngineConfig
  peer : V → Port → Option (V × Port)
  host : V → Port → RawPacket → Prop
  peer_symm : ∀ v p u q, peer v p = some (u, q) → peer u q = some (v, p)

namespace Network

variable {V : Type} {net : Network V} {s : V → EngineWorld} {v u : V} {p q : Port}

/-- The packet may arrive at the port of the engine. -/
def Delivers (net : Network V) (s : V → EngineWorld) (v : V) (port : Port)
    (packet : RawPacket) : Prop :=
  match net.peer v port with
  | some (u, q) => Sent (net.config u).loop.stdHash (s u) q packet
  | none => net.host v port packet

/-- One engine takes a step that raises no exception. -/
def NetStep (net : Network V) (s : V → EngineWorld) (v : V) (w' : EngineWorld) : Prop :=
  ∃ a, EngineStep (net.config v) (s v) a (.ok w') ∧
    ∀ port packet, a = .receive port packet → net.Delivers s v port packet

/-- The states of a network whose engines all start empty. -/
def Reached [DecidableEq V] (net : Network V) (s : V → EngineWorld) : Prop :=
  ∃ s₀, (∀ v, IsInitial (net.config v) (s₀ v)) ∧ Interleaving net.NetStep s₀ s

/-! ## Invariants of the engines -/

/-- What is known of every engine of a network. -/
structure NodeInv (cfg : EngineConfig) (w : EngineWorld) : Prop where
  engine : ∃ w₀, EngineInv cfg w₀ w
  solicited : Solicited w

theorem NodeInv.initial {cfg : EngineConfig} {w : EngineWorld} (h : IsInitial cfg w) :
    NodeInv cfg w :=
  ⟨⟨w, EngineInv.initial h⟩, Solicited.initial h⟩

theorem NodeInv.step {cfg : EngineConfig} {w w' : EngineWorld} (h : NodeInv cfg w)
    {a : EngineAction} (hstep : EngineStep cfg w a (.ok w')) : NodeInv cfg w' := by
  obtain ⟨w₀, hinv⟩ := h.engine
  exact ⟨⟨w₀, (hinv.step hstep rfl).1⟩, h.solicited.step hinv hstep⟩

theorem NetStep.mem_log {w' : EngineWorld} (hinv : NodeInv (net.config v) (s v))
    (hstep : net.NetStep s v w') {o : EngineObs} (ho : o ∈ (s v).env.rest.log) :
    o ∈ w'.env.rest.log := by
  obtain ⟨a, hstep, -⟩ := hstep
  obtain ⟨w₀, hengine⟩ := hinv.engine
  exact hstep.mem_log hengine ho

section Runs

variable [DecidableEq V]

theorem nodeInv_of_interleaving {s₀ : V → EngineWorld}
    (hinitial : ∀ v, IsInitial (net.config v) (s₀ v))
    (hrun : Interleaving net.NetStep s₀ s) (v : V) : NodeInv (net.config v) (s v) := by
  refine hrun.forall_components (fun v w => NodeInv (net.config v) w)
    (fun v => NodeInv.initial (hinitial v)) (fun s v t _ hinv hstep => ?_) v
  obtain ⟨a, hstep, -⟩ := hstep
  exact (hinv v).step hstep

theorem Reached.nodeInv (h : Reached net s) (v : V) : NodeInv (net.config v) (s v) := by
  obtain ⟨s₀, hinitial, hrun⟩ := h
  exact nodeInv_of_interleaving hinitial hrun v

/-- What one engine does does not change what may arrive there. -/
theorem Delivers.update {port : Port} {packet : RawPacket} {t : EngineWorld}
    (h : net.Delivers s v port packet) (hother : ∀ q, net.peer v port ≠ some (v, q)) :
    net.Delivers (Function.update s v t) v port packet := by
  cases hpeer : net.peer v port with
  | none =>
      simp only [Delivers, hpeer] at h ⊢
      exact h
  | some end_ =>
      simp only [Delivers, hpeer] at h ⊢
      rw [Function.update_of_ne]
      · exact h
      · rintro heq
        exact hother end_.2 (by rw [hpeer, ← heq])

/-- One engine runs while the others rest. -/
theorem interleaving_run {s₀ : V → EngineWorld} (h : Interleaving net.NetStep s₀ s)
    {steps : List Step} {w : EngineWorld} {r : Handled}
    (hrun : EngineRun (net.config v) (s v) steps r) (hr : r = .ok w)
    (hother : ∀ port q, net.peer v port ≠ some (v, q))
    (hdelivers : ∀ st ∈ steps, ∀ port packet, st.action = .receive port packet →
      net.Delivers s v port packet) :
    Interleaving net.NetStep s₀ (Function.update s v w) := by
  induction hrun generalizing w with
  | start =>
      cases hr
      rwa [Function.update_eq_self]
  | @step steps w₁ a r hbefore hstep ih =>
      have hmid := ih rfl fun st hst => hdelivers st (List.mem_append_left _ hst)
      subst hr
      rw [← Function.update_idem (a := v) w₁]
      refine .step hmid ⟨a, ?_, fun port packet ha => ?_⟩
      · rwa [Function.update_self]
      · exact (hdelivers ⟨w₁, a, .ok w⟩ (by simp) port packet ha).update fun q => hother port q

end Runs

/-! ## One hop -/

/-- A packet that no switch has processed is handed to the stateful module. -/
theorem onReceiveRawPacket_of_read {cfg : EngineConfig} {w : EngineWorld} {packet : RawPacket}
    {header : PacketHeader} (hsw : IsSwitch w.env.switch)
    (hread : PacketHeader.deserialize packet.header = some header)
    (htype : header.type = PacketType.unprocessed) (inPort : Port) :
    onReceiveRawPacket cfg inPort packet w =
      discardMalformed (processPayload cfg inPort header packet.payload w) := by
  have hsends := hsw.hasTables.sendsTo_unprocessed
    (header.setPacketInPort (UInt16.ofNat inPort)) w.clock.now htype
  have hstateful : (w.env.switch.processPacket w.clock.now
      (header.setPacketInPort (UInt16.ofNat inPort))).outputPorts.contains statefulModule =
        true := by
    rw [← Std.TreeSet.contains_toList, hsends.outputPorts]
    simp
  simp only [onReceiveRawPacket, hread, hsends.packetIn, hstateful, Bool.false_eq_true, if_false,
    if_true]

end Network

end Statim
