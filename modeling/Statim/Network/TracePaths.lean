import Statim.Engine.TraceStages
import Statim.Network.Solicitation

/-!
# Routes of a Trace across a network

Where nothing disturbs a Trace, its Data leaves a route at every engine that it
passes, and each of these routes is the way that the Trace Interest came.  Followed
from engine to engine they lead to the host that sent the Trace Interest, and they
form no loop.
-/

namespace Statim

open Support ForwardingEngine

namespace Network

variable {V : Type} {net : Network V} {s : V → EngineWorld} {name : Name} {nonce : Bytes}
  {seq : Nat}

/-- What the hosts send as far as this Trace is concerned. -/
structure Undisturbed (net : Network V) (name : Name) (nonce : Bytes) (seq : Nat) : Prop where
  guarded : ∀ v, (net.config v).loop.temporary.generationGuardEnabled = true
  trace : name.judgeNameIsTrace = true
  sequence : name.getTraceSequence = some seq
  /-- The Trace Interest has one Nonce, and asks for a lease. -/
  asks : ∀ v port packet selectors n element, net.host v port packet →
    packet.payload = .interest name selectors n element →
      n = nonce ∧ 0 < toMicroseconds (decodedLifetime element)
  /-- No Interest asks for a shorter name. -/
  alone : ∀ v port n, net.HostAsks n v port → n <+: name → n = name
  /-- Only the Trace Data answers the Trace Interest. -/
  exact : ∀ n wire, net.HostSupplies n wire → name <+: n → n = name
  /-- No other Trace of the prefix has the same sequence number. -/
  unique : ∀ n wire, net.HostSupplies n wire → n.judgeNameIsTrace = true →
    n.extractDataNameFromTrace = name.extractDataNameFromTrace →
      n.getTraceSequence = some seq → n = name
  /-- No Trace is for a prefix of the name. -/
  apart : ∀ n wire, net.HostSupplies n wire → n.judgeNameIsTrace = true →
    ¬n.extractDataNameFromTrace <+: name

/-! ## What an engine gets -/

/-- The Trace Interest arrives with its Nonce and a positive lifetime. -/
theorem Undisturbed.arrivesWith (h : net.Undisturbed name nonce seq) {v : V}
    {a : EngineAction} (hcopies : ∀ u, Copies name nonce (s u))
    (hdelivers : ∀ port packet, a = .receive port packet → net.Delivers s v port packet) :
    ArrivesWith name nonce (s v) a := by
  rintro interest n ⟨port, packet, arrived, selectors, element, rfl, -, hpayload, rfl⟩ hname
  have hname : arrived = name := hname
  subst hname
  have harrives := hdelivers port packet rfl
  cases hpeer : net.peer v port with
  | none =>
      simp only [Delivers, hpeer] at harrives
      exact h.asks v port packet selectors n element harrives hpayload
  | some end_ =>
      simp only [Delivers, hpeer] at harrives
      exact (hcopies end_.1).sent _ _ _ _ (sentInterest_of_sent harrives hpayload)

variable [DecidableEq V]

/-- Nothing else disturbs the Trace at an engine. -/
theorem Undisturbed.node (h : net.Undisturbed name nonce seq) (hreached : Reached net s) {v : V}
    {w' : EngineWorld} {a : EngineAction} (hstep : EngineStep (net.config v) (s v) a (.ok w')) :
    ForwardingEngine.Undisturbed name seq (s v) a := by
  have hnode := hreached.nodeInv v
  have hsupplied : ∀ inPort data header, a = .fire (.processDataAfterDelay inPort data header) →
      net.HostSupplies data.name data.wire := by
    rintro inPort data header rfl
    obtain ⟨e, he, hevent, -⟩ := hstep.exists_of_fire
    exact (hreached.authentic v).waiting e he _ _ _ hevent
  refine ⟨?_, ?_, ?_, ?_⟩
  · intro n entry hentry hprefix
    obtain ⟨w₀, hengine⟩ := hnode.engine
    obtain ⟨u, port, -, hasks⟩ :=
      (hreached.leadsBack (hnode.solicited.asked hengine.pit hentry)).exists_source
    exact h.alone u port n hasks hprefix
  · exact fun inPort data header ha => h.exact _ _ (hsupplied inPort data header ha)
  · exact fun inPort data header ha => h.unique _ _ (hsupplied inPort data header ha)
  · exact fun inPort data header ha => h.apart _ _ (hsupplied inPort data header ha)

/-! ## Runs -/

theorem Undisturbed.traceInv (h : net.Undisturbed name nonce seq) (hreached : Reached net s)
    (v : V) : TraceInv name nonce seq (s v) := by
  obtain ⟨s₀, hinitial, hrun⟩ := hreached
  refine hrun.forall_components (fun _ w => TraceInv name nonce seq w)
    (fun v => TraceInv.initial (hinitial v)) (fun s v t hbefore htraced hstep => ?_) v
  have hreached : Reached net s := ⟨s₀, hinitial, hbefore⟩
  have hnode := hreached.nodeInv v
  obtain ⟨w₀, hengine⟩ := hnode.engine
  obtain ⟨a, hstep, hdelivers⟩ := hstep
  have harrives := h.arrivesWith (fun u => (htraced u).copies) hdelivers
  exact (htraced v).step hengine hnode.solicited (h.guarded v) h.trace h.sequence hstep harrives
    (h.node hreached hstep)

/-- The engine has a route of this Trace to the other one. -/
def RouteTo (net : Network V) (s : V → EngineWorld) (name : Name) (v u : V) : Prop :=
  ∃ update port q, .admitted update ∈ (s v).log ∧ NamedBy name update ∧
    RoutesThrough (s v) update port ∧ net.peer v port = some (u, q)

/-- The routes of a Trace lead, engine by engine, to a host that sent its Interest, and
they form no loop. -/
theorem trace_routes_lead_back (h : net.Undisturbed name nonce seq) (hreached : Reached net s) :
    (∀ v update port, .admitted update ∈ (s v).log → NamedBy name update →
      RoutesThrough (s v) update port →
        net.peer v port = none ∧ net.HostAsks name v port ∨
          ∃ u q, net.peer v port = some (u, q) ∧ net.LeadsBack s name u) ∧
      ∀ v, ¬Relation.TransGen (net.RouteTo s name) v v := by
  have hfirst : ∀ v update port, .admitted update ∈ (s v).log → NamedBy name update →
      RoutesThrough (s v) update port → firstAsked name (s v) = some port := by
    intro v update port hadmitted hnamed hroute
    obtain ⟨w₀, hengine⟩ := (hreached.nodeInv v).engine
    rw [hroute.port_eq hengine.loop hadmitted]
    exact (h.traceInv hreached v).learned update hadmitted hnamed
  refine ⟨fun v update port hadmitted hnamed hroute => ?_, fun v hcycle => ?_⟩
  · have hparent := hfirst v update port hadmitted hnamed hroute
    have hback := hreached.leadsBack ⟨port, accepted_of_firstAsked hparent⟩
    cases hback with
    | source hport hpeer hsource =>
        obtain rfl := Option.some.inj (hparent.symm.trans hport)
        exact Or.inl ⟨hpeer, hsource⟩
    | hop hport hpeer hrooted =>
        obtain rfl := Option.some.inj (hparent.symm.trans hport)
        exact Or.inr ⟨_, _, hpeer, hrooted⟩
  · have hgot : ∀ v u, net.RouteTo s name v u → GotFrom net.peer (firstAsked name) s v u := by
      rintro v u ⟨update, port, q, hadmitted, hnamed, hroute, hpeer⟩
      exact ⟨port, q, hfirst v update port hadmitted hnamed hroute, hpeer⟩
    obtain ⟨u, hroute, -⟩ := Relation.TransGen.head'_iff.mp hcycle
    obtain ⟨port, -, hport, -⟩ := hgot v u hroute
    have hback := hreached.leadsBack ⟨port, accepted_of_firstAsked hport⟩
    exact hback.not_cycle (Relation.TransGen.mono hgot v v hcycle)

/-- The update that the second engine admits. -/
def pairUpdate : Admission where
  pfx := traceName.extractDataNameFromTrace
  nameHashes := PacketHeader.hashesOf sampleEngineConfig.loop.stdHash
    traceName.extractDataNameFromTrace
  prefixLen := 2
  port := 1
  seq := 1
  lifetime := 4000000000
  time := 0
  origin := 0

theorem routesThrough_pairUpdate {w : EngineWorld} (hlog : w.log = farLearned.log)
    (hctl : w.ctl = farLearned.ctl) :
    .admitted pairUpdate ∈ w.log ∧ RoutesThrough w pairUpdate 1 := by
  have hports : (farLearned.ctl.temporaryFib.entries[pairUpdate.pfx]?).map Loop.hopPorts =
      some [1] := by
    decide
  obtain ⟨entry, hentry, hhops⟩ := Option.map_eq_some_iff.mp hports
  rw [hlog]
  refine ⟨by decide, .temporary ⟨?_, ?_⟩ ?_ (hhops ▸ List.mem_cons_self)⟩
  · rw [hlog]
    decide
  · rw [hctl]
    decide
  · rw [hctl]
    exact hentry

theorem undisturbed_pairNetwork : pairNetwork.Undisturbed traceName [1, 0, 0, 0] 1 := by
  have hasks : ∀ v port n, pairNetwork.HostAsks n v port → n = traceName := by
    rintro v port n ⟨packet, selectors, nonce, element, ⟨-, -, rfl⟩ | ⟨-, -, rfl⟩, hpayload⟩
    · cases hpayload
      rfl
    · cases hpayload
  have hsupplies : ∀ n wire, pairNetwork.HostSupplies n wire → n = traceName := by
    rintro n wire ⟨v, port, packet, -, ⟨-, -, rfl⟩ | ⟨-, -, rfl⟩, hpayload⟩
    · cases hpayload
    · cases hpayload
      rfl
  refine ⟨fun _ => rfl, by decide, by decide, ?_, ?_, ?_, ?_, ?_⟩
  · rintro v port packet selectors n element (⟨-, -, rfl⟩ | ⟨-, -, rfl⟩) hpayload
    · cases hpayload
      exact ⟨rfl, by decide⟩
    · cases hpayload
  · exact fun v port n h _ => hasks v port n h
  · exact fun n wire h _ => hsupplies n wire h
  · exact fun n wire h _ _ _ => hsupplies n wire h
  · rintro n wire h -
    rw [hsupplies n wire h]
    decide

/-- The route of the second engine leads to the first one, and from there to its host. -/
theorem trace_routes_lead_back_pair :
    ∃ s, Reached pairNetwork s ∧ RoutesThrough (s true) pairUpdate 1 ∧
      pairNetwork.LeadsBack s traceName false := by
  obtain ⟨s, hreached, -, -, hlog, hctl⟩ := reached_pair
  obtain ⟨hadmitted, hroute⟩ := routesThrough_pairUpdate hlog hctl
  refine ⟨s, hreached, hroute, ?_⟩
  have hnamed : NamedBy traceName pairUpdate := ⟨by decide, rfl, by decide⟩
  rcases (trace_routes_lead_back undisturbed_pairNetwork hreached).1 true pairUpdate 1 hadmitted
    hnamed hroute with ⟨hpeer, -⟩ | ⟨u, q, hpeer, hback⟩
  · cases hpeer
  · cases hpeer
    exact hback

end Network

end Statim
