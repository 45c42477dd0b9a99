import Statim.Engine.LeaseArithmetic
import Statim.Engine.Provenance
import Statim.Engine.Recovery

/-!
# Where admissions come from

An engine admits updates only when it handles Trace Data, and then only for the
prefix and the generation in the name of the Data.  With the generation guard, a
pending Trace Interest that is consumed leaves its generation used up.  The routes
in the two tables go through the ports that were admitted.
-/

namespace Statim

open Support

namespace Loop

open LocalRouteController

variable {ε : Type} {cfg : LoopConfig} {w w' : LoopWorld ε} {Q : Admission → Prop}

/-! ## Admissions of the control loop -/

/-- Updates are only added, and only such that satisfy `Q`. -/
structure AdmitsOnly (Q : Admission → Prop) (w w' : LoopWorld ε) : Prop where
  kept : ∀ u, .admitted u ∈ w.log → .admitted u ∈ w'.log
  new : ∀ u, .admitted u ∈ w'.log → .admitted u ∈ w.log ∨ Q u

theorem AdmitsOnly.of_admissions_eq (h : ∀ p, admissions w'.log p = admissions w.log p) :
    AdmitsOnly Q w w' := by
  have hmem : ∀ u, .admitted u ∈ w'.log ↔ .admitted u ∈ w.log := by
    intro u
    have hsame := congrArg (u ∈ ·) (h u.pfx)
    simpa only [mem_admissions, and_true, eq_iff_iff] using hsame
  exact ⟨fun u => (hmem u).mpr, fun u hu => Or.inl ((hmem u).mp hu)⟩

theorem AdmitsOnly.of_log_eq (h : w'.log = w.log) : AdmitsOnly Q w w' :=
  AdmitsOnly.of_admissions_eq fun p => congrArg (admissions · p) h

theorem AdmitsOnly.trans {w'' : LoopWorld ε} (h : AdmitsOnly Q w w') (h' : AdmitsOnly Q w' w'') :
    AdmitsOnly Q w w'' := by
  refine ⟨fun u hu => h'.kept u (h.kept u hu), fun u hu => ?_⟩
  rcases h'.new u hu with hmid | hQ
  · exact h.new u hmid
  · exact Or.inr hQ

theorem admitsOnly_reenter {local_ : LocalConfig} (h : Reenter local_ w w') :
    AdmitsOnly Q w w' :=
  AdmitsOnly.of_admissions_eq h.admissions

theorem admitsOnly_dispatch (m : ControlMessage) (w : LoopWorld ε) :
    AdmitsOnly Q w (dispatch (temporaryCallbacks cfg) m w) :=
  AdmitsOnly.of_admissions_eq fun p =>
    admissions_dispatch (passive_temporaryCallbacks cfg) m p

theorem admitsOnly_applyTraceUpdate {p : Name} {port seq : Nat} {ttl : Int}
    {r : Bool × LoopWorld ε} (h : applyTraceUpdate cfg p port seq ttl w = .ok r) :
    AdmitsOnly (fun u => u.pfx = p ∧ u.seq = seq) w r.2 := by
  obtain ⟨r₀, hcall, -, accepted, hr⟩ := applyTraceUpdate_eq_ok h
  have hcalled : AdmitsOnly (fun u => u.pfx = p ∧ u.seq = seq) w r₀.2 := by
    rcases LocalRouteController.applyTraceUpdate_cases hcall with
      ⟨-, rfl⟩ | ⟨ctl, s, hguard, -, -, rfl⟩ | ⟨ctl, hguard, -, rfl⟩
    · exact AdmitsOnly.of_log_eq rfl
    · exact AdmitsOnly.of_log_eq rfl
    · refine AdmitsOnly.trans ?_ (admitsOnly_dispatch _ _)
      have hlog := (stages_stage cfg.temporary (temporaryCallbacks cfg)
        (candidate cfg.temporary p (PacketHeader.hashesOf cfg.stdHash p)
          (min p.length nameHashCount) port seq ttl w) { w with ctl := ctl }).log
      refine ⟨fun u hu => ?_, fun u hu => ?_⟩
      · rw [hlog]
        exact List.mem_append_left _ hu
      · rw [hlog] at hu
        rcases List.mem_append.mp hu with hold | hnew
        · exact Or.inl hold
        · obtain rfl := LocalObs.admitted.inj (List.mem_singleton.mp hnew)
          exact Or.inr ⟨rfl, rfl⟩
  rw [hr]
  exact ⟨hcalled.kept, hcalled.new⟩

/-- Timers admit nothing. -/
theorem admitsOnly_fire (e : Scheduled LocalEvent) (w : LoopWorld ε) :
    AdmitsOnly Q w (LocalRouteController.fire cfg.temporary (temporaryCallbacks cfg) e w) := by
  have htaken : AdmitsOnly Q w (LocalRouteController.take e w) := AdmitsOnly.of_log_eq rfl
  refine htaken.trans ?_
  cases hevent : e.event with
  | expireEntryBySeq p s =>
      simp only [LocalRouteController.fire, hevent]
      exact AdmitsOnly.of_log_eq rfl
  | onControllerRetryTimeout p s =>
      simp only [LocalRouteController.fire, hevent, onControllerRetryTimeout]
      split
      · exact AdmitsOnly.of_log_eq rfl
      split
      · exact AdmitsOnly.of_log_eq rfl
      split
      · exact AdmitsOnly.of_log_eq rfl
      split
      · refine AdmitsOnly.trans (AdmitsOnly.trans ?_ (admitsOnly_dispatch _ _))
          (AdmitsOnly.of_log_eq (rescheduleRetry_frame cfg.temporary p s _).2)
        exact AdmitsOnly.of_log_eq rfl
      · exact AdmitsOnly.of_admissions_eq fun q => by simp [admissions]

theorem admitsOnly_fireCentral (e : Scheduled FlowTableEvent) (w : LoopWorld ε) :
    AdmitsOnly Q w (toTemporary
      (FlowTableController.fire cfg.central (centralCallbacks cfg) e (toCentral w))) := by
  have htaken : AdmitsOnly Q w (toTemporary (FlowTableController.take e (toCentral w))) :=
    AdmitsOnly.of_log_eq rfl
  refine htaken.trans ?_
  exact admitsOnly_reenter (reenter_actions (FlowTableController.actions_handle e.event _))

/-! ## Generations that are used up -/

/-- An update of this generation or a later one has been admitted. -/
def UsedUp (p : Name) (seq : Nat) (log : List LocalObs) : Prop :=
  ∃ u, .admitted u ∈ log ∧ u.pfx = p ∧ seq ≤ u.seq

theorem UsedUp.admitsOnly {p : Name} {seq : Nat} (h : UsedUp p seq w.log)
    (hadmits : AdmitsOnly Q w w') : UsedUp p seq w'.log := by
  obtain ⟨u, hu, hpfx, hle⟩ := h
  exact ⟨u, hadmits.kept u hu, hpfx, hle⟩

/-- The guard lets exactly those generations through that are not used up. -/
theorem admissible_iff {local_ : LocalConfig}
    (hon : local_.generationGuardEnabled = true) (h : GuardedInv w) {p : Name} {seq : Nat} :
    Admissible local_ p seq w.ctl ↔ ¬UsedUp p seq w.log := by
  have hwatermark := h.watermark p
  rw [getHighestSeenSeq] at hwatermark
  constructor
  · rintro ⟨hguard, -⟩ ⟨u, hu, rfl, hle⟩
    have hmem : u ∈ admissions w.log u.pfx := mem_admissions.mpr ⟨hu, rfl⟩
    cases hlast : lastAdmission w.log u.pfx with
    | none =>
        rw [lastAdmission, List.getLast?_eq_none_iff] at hlast
        rw [hlast] at hmem
        exact List.not_mem_nil hmem
    | some v =>
        rw [hlast] at hwatermark
        have hlt := hguard hon v.seq hwatermark
        have hlatest := h.le_last hlast hmem
        omega
  · intro hunused
    have hbelow : ∀ high, w.ctl.highestSeenSeq[p]? = some high → high < seq := by
      intro high hhigh
      rw [hhigh] at hwatermark
      obtain ⟨v, hlast, rfl⟩ := Option.map_eq_some_iff.mp hwatermark.symm
      obtain ⟨hv, hpfx⟩ := mem_admissions.mp (List.mem_of_getLast? hlast)
      exact Nat.lt_of_not_le fun hle => hunused ⟨v, hv, hpfx, hle⟩
    refine ⟨fun _ => hbelow, fun s hs => ?_⟩
    obtain ⟨high, hhigh, hle⟩ := h.resident p s hs
    exact Nat.lt_of_le_of_lt hle (hbelow high hhigh)

end Loop

namespace ForwardingEngine

variable {cfg : EngineConfig} {w w' w₀ : EngineWorld} {p : Name} {seq : Nat}

/-! ## Admissions of the engine -/

theorem admitsOnly_learnPort (cfg : EngineConfig) (p : Name) (seq : Nat) (lifetime : Int)
    (port : Port) (w : EngineWorld) : Loop.AdmitsOnly (fun u => u.pfx = p ∧ u.seq = seq) w
      (Handled.world (learnPort cfg p seq lifetime port w)) := by
  unfold learnPort
  split
  · exact Loop.AdmitsOnly.of_log_eq rfl
  next updated w₁ hcall =>
    have hupdated := Loop.admitsOnly_applyTraceUpdate hcall
    split
    · have hpulled := (pullAll_frame cfg port (pulled cfg p (count .pullInvocations w₁))
        (count .pullInvocations w₁)).2
      exact hupdated.trans (Loop.AdmitsOnly.of_log_eq hpulled)
    · exact hupdated

theorem admitsOnly_learnPorts (cfg : EngineConfig) (p : Name) (seq : Nat) (lifetime : Int)
    (ports : List Port) (w : EngineWorld) : Loop.AdmitsOnly (fun u => u.pfx = p ∧ u.seq = seq) w
      (Handled.world (learnPorts cfg p seq lifetime ports w)) := by
  induction ports generalizing w with
  | nil => exact Loop.AdmitsOnly.of_log_eq rfl
  | cons port rest ih =>
      have hfirst := admitsOnly_learnPort cfg p seq lifetime port w
      rw [learnPorts]
      split
      next e hraise =>
        rw [hraise] at hfirst
        exact hfirst
      next w₁ hok =>
        rw [hok] at hfirst
        exact hfirst.trans (ih w₁)

/-- The update is of the prefix and the generation in this Trace name. -/
def NamedBy (name : Name) (u : Admission) : Prop :=
  name.judgeNameIsTrace = true ∧ u.pfx = name.extractDataNameFromTrace ∧
    name.getTraceSequence = some u.seq

theorem admitsOnly_processDataAfterDelay (cfg : EngineConfig) (data : Data)
    (header : PacketHeader) (w : EngineWorld) : Loop.AdmitsOnly (NamedBy data.name) w
      (Handled.world (processDataAfterDelay cfg data header w)) := by
  by_cases htrace : data.name.judgeNameIsTrace = true
  swap
  · simp only [processDataAfterDelay, if_neg htrace]
    split
    · exact Loop.AdmitsOnly.of_log_eq rfl
    · exact Loop.AdmitsOnly.of_log_eq (log_forwardData _ _ _ _)
  cases hseq : data.name.getTraceSequence with
  | none =>
      exact Loop.AdmitsOnly.of_log_eq
        (log_of_getTraceSequence_eq_none cfg header w htrace hseq)
  | some seq =>
      by_cases hports : (w.env.rest.pit.takeDataMatchPorts data.name).1.isEmpty = true
      · simp only [processDataAfterDelay, if_pos hports]
        exact Loop.AdmitsOnly.of_log_eq rfl
      by_cases hpositive : savedLifetime data.name w.env.rest.pit ≤ 0
      · simp only [processDataAfterDelay, htrace, if_true, if_neg hports, if_pos hpositive]
        exact Loop.AdmitsOnly.of_log_eq rfl
      refine Loop.AdmitsOnly.trans ?_
        (Loop.AdmitsOnly.of_log_eq (log_processDataAfterDelay cfg header htrace hports hpositive))
      simp only [handleTraceData, hseq]
      split
      · exact Loop.AdmitsOnly.of_log_eq rfl
      split
      · exact Loop.AdmitsOnly.of_log_eq rfl
      · have hlearned := admitsOnly_learnPorts cfg data.name.extractDataNameFromTrace seq
          (savedLifetime data.name w.env.rest.pit)
          (w.env.rest.pit.takeDataMatchPorts data.name).1.toList
          (count .traceUpdatesHandled
            (setPit (w.env.rest.pit.takeDataMatchPorts data.name).2 w))
        refine ⟨hlearned.kept, fun u hu => ?_⟩
        rcases hlearned.new u hu with hold | ⟨hpfx, hgeneration⟩
        · exact Or.inl hold
        · exact Or.inr ⟨htrace, hpfx, hgeneration ▸ hseq⟩

theorem log_processInterestAfterDelay {inPort : Port} {interest : Interest}
    {header : PacketHeader} (h : processInterestAfterDelay cfg inPort interest header w = .ok w') :
    w'.log = w.log := by
  obtain ⟨counters, encoded, ports, -, rfl⟩ := processInterestAfterDelay_eq_ok h
  rfl

theorem log_processStatefulInterest (cfg : EngineConfig) (inPort : Port) (interest : Interest)
    (header : PacketHeader) (w : EngineWorld) :
    (Handled.world (processStatefulInterest cfg inPort interest header w)).log = w.log := by
  simp only [processStatefulInterest]
  split
  · rfl
  split
  · rfl
  split
  · rfl
  · rfl

theorem log_onReceiveRawPacket (cfg : EngineConfig) (inPort : Port) (packet : RawPacket)
    (w : EngineWorld) : (Handled.world (onReceiveRawPacket cfg inPort packet w)).log = w.log := by
  unfold onReceiveRawPacket
  split
  · rfl
  dsimp only
  split
  · rfl
  split
  swap
  · rfl
  next header _ _ _ =>
  have hprocessed : (Handled.world (processPayload cfg inPort header packet.payload w)).log =
      w.log := by
    cases packet.payload with
    | interest name selectors nonce lifetime =>
        exact log_processStatefulInterest cfg inPort _ header _
    | data name wire => rfl
    | other => rfl
    | malformed => rfl
  rw [← hprocessed]
  unfold discardMalformed
  split
  next w₁ hraise =>
    rw [hraise]
    rfl
  · rfl

/-- What an action may admit. -/
def MayAdmit : EngineAction → Admission → Prop
  | .fire (.processDataAfterDelay _ data _), u => NamedBy data.name u
  | _, _ => False

/-- A step of the engine admits an update only for Trace Data that names it. -/
theorem EngineStep.admitsOnly {a : EngineAction} (hstep : EngineStep cfg w a (.ok w')) :
    Loop.AdmitsOnly (MayAdmit a) w w' := by
  generalize hr : (.ok w' : Handled) = r at hstep
  cases hstep with
  | receive inPort packet =>
      have hlog := log_onReceiveRawPacket cfg inPort packet w
      rw [← hr] at hlog
      exact Loop.AdmitsOnly.of_log_eq hlog
  | @fire e he hdue =>
      have htaken : Loop.AdmitsOnly (MayAdmit (.fire e.event)) w (take e w) :=
        Loop.AdmitsOnly.of_log_eq rfl
      refine htaken.trans ?_
      have hr : .ok w' = handle cfg e.event (take e w) := hr
      generalize e.event = event at hr
      cases event with
      | processInterestAfterDelay inPort interest header =>
          exact Loop.AdmitsOnly.of_log_eq (log_processInterestAfterDelay hr.symm)
      | processDataAfterDelay inPort data header =>
          have hhandled := admitsOnly_processDataAfterDelay cfg data header (take e w)
          have hr : .ok w' = processDataAfterDelay cfg data header (take e w) := hr
          rw [← hr] at hhandled
          exact hhandled
      | doDelayedPullSend interest port =>
          obtain ⟨encoded, -, rfl⟩ := doDelayedPullSend_eq_ok hr.symm
          exact Loop.AdmitsOnly.of_log_eq rfl
  | temporary he hdue =>
      cases hr
      exact Loop.admitsOnly_fire _ w
  | central he hdue =>
      cases hr
      exact Loop.admitsOnly_fireCentral _ w
  | idle clock =>
      cases hr
      exact Loop.AdmitsOnly.of_log_eq rfl

/-! ## Trace Data that is learned from -/

/-- Where a new admission comes from. -/
theorem EngineStep.learned (hinv : EngineInv cfg w₀ w) {a : EngineAction}
    (hstep : EngineStep cfg w a (.ok w')) {u : Admission} (hafter : .admitted u ∈ w'.log)
    (hbefore : .admitted u ∉ w.log) :
    ∃ inPort data header, a = .fire (.processDataAfterDelay inPort data header) ∧
      NamedBy data.name u ∧ CanLearn cfg data.name u.seq w ∧
      u.port ∈ (w.env.rest.pit.takeDataMatchPorts data.name).1 := by
  have hmay := (hstep.admitsOnly.new u hafter).resolve_left hbefore
  cases a with
  | receive => exact hmay.elim
  | control => exact hmay.elim
  | fire event =>
  cases event with
  | processInterestAfterDelay => exact hmay.elim
  | doDelayedPullSend => exact hmay.elim
  | processDataAfterDelay inPort data header =>
      have hnamed : NamedBy data.name u := hmay
      obtain ⟨htrace, hpfx, hseq⟩ := hnamed
      obtain ⟨e, he, -, hdue, hr⟩ := hstep.exists_of_fire
      have hr : .ok w' = processDataAfterDelay cfg data header (take e w) := hr
      have htaken := hinv.take he hdue
      rcases processDataAfterDelay_admissions cfg htaken.pit header htrace hseq with
        ⟨hlearn, v, first, rest, hlist, hgranted⟩ | ⟨-, hlog⟩
      · rw [← hr] at hgranted
        have hmem : u ∈ admissions w'.log data.name.extractDataNameFromTrace :=
          mem_admissions.mpr ⟨hafter, hpfx⟩
        have hadmitted : admissions w'.log data.name.extractDataNameFromTrace =
          admissions w.log data.name.extractDataNameFromTrace ++ [v] := hgranted.admitted
        rw [hadmitted, List.mem_append, List.mem_singleton] at hmem
        rcases hmem with hold | rfl
        · exact absurd (mem_admissions.mp hold).1 hbefore
        · refine ⟨inPort, data, header, rfl, ⟨htrace, hpfx, hseq⟩, hlearn, ?_⟩
          rw [hgranted.port, ← Std.TreeSet.mem_toList]
          have hlist : (w.env.rest.pit.takeDataMatchPorts data.name).1.toList =
            first :: rest := hlist
          rw [hlist]
          exact List.mem_cons_self
      · rw [← hr] at hlog
        have hlog : w'.log = w.log := hlog
        rw [hlog] at hafter
        exact absurd hafter hbefore

/-- A lifetime that differs from a configured one ends the handler by an exception. -/
theorem isValidRouteLifetime_of_ok {data : Data} {header : PacketHeader}
    (hok : processDataAfterDelay cfg data header w = .ok w')
    (htrace : data.name.judgeNameIsTrace = true)
    (hports : ¬(w.env.rest.pit.takeDataMatchPorts data.name).1.isEmpty = true)
    (hpositive : 0 < savedLifetime data.name w.env.rest.pit) :
    isValidRouteLifetime cfg (wrap64 (savedLifetime data.name w.env.rest.pit * 1000)) = true := by
  cases hvalid : isValidRouteLifetime cfg
      (wrap64 (savedLifetime data.name w.env.rest.pit * 1000)) with
  | true => rfl
  | false =>
      simp [processDataAfterDelay, htrace, hports, Int.not_le.mpr hpositive, handleTraceData,
        hvalid] at hok

/-- With the guard, Trace Data that consumes its own Trace Interest leaves its
generation used up. -/
theorem EngineStep.usedUp (hinv : EngineInv cfg w₀ w)
    (hon : cfg.loop.temporary.generationGuardEnabled = true) {inPort : Port} {data : Data}
    {header : PacketHeader}
    (hstep : EngineStep cfg w (.fire (.processDataAfterDelay inPort data header)) (.ok w'))
    (htrace : data.name.judgeNameIsTrace = true) (hseq : data.name.getTraceSequence = some seq)
    {entry : PendingEntry} (hentry : w.env.rest.pit.entries[data.name]? = some entry)
    (hpositive : 0 < toMicroseconds entry.interest.lifetime) :
    Loop.UsedUp data.name.extractDataNameFromTrace seq w'.log := by
  have hadmits := hstep.admitsOnly
  have hguarded := (hinv.step hstep rfl).1.loop.inv.order hon
  obtain ⟨e, he, -, hdue, hr⟩ := hstep.exists_of_fire
  have hr : .ok w' = processDataAfterDelay cfg data header (take e w) := hr
  have htaken := hinv.take he hdue
  rcases processDataAfterDelay_admissions cfg htaken.pit header htrace hseq with
    ⟨hlearn, v, first, rest, hlist, hgranted⟩ | ⟨hnone, -⟩
  · rw [← hr] at hgranted
    have hadmitted : admissions w'.log data.name.extractDataNameFromTrace =
      admissions w.log data.name.extractDataNameFromTrace ++ [v] := hgranted.admitted
    have hmem : v ∈ admissions w'.log data.name.extractDataNameFromTrace := by
      rw [hadmitted]
      exact List.mem_append_right _ List.mem_cons_self
    obtain ⟨hv, hpfx⟩ := mem_admissions.mp hmem
    refine ⟨v, hv, hpfx, ?_⟩
    rcases hadmits.new v hv with hold | hnamed
    · -- the guard never admits one update twice
      have hincreasing := hguarded.increasing data.name.extractDataNameFromTrace
      rw [hadmitted, List.pairwise_append] at hincreasing
      have hlt := hincreasing.2.2 v (mem_admissions.mpr ⟨hold, hpfx⟩) v List.mem_cons_self
      exact absurd hlt (Nat.lt_irrefl _)
    · obtain ⟨-, -, hnamed⟩ := hnamed
      exact Nat.le_of_eq (Option.some.inj (hseq.symm.trans hnamed))
  · have hstored : (take e w).env.rest.pit.entries[data.name]? = some entry := hentry
    have hsaved : savedLifetime data.name (take e w).env.rest.pit =
        toMicroseconds entry.interest.lifetime := by
      rw [savedLifetime_eq htaken.pit, hstored]
      rfl
    have hports : ¬((take e w).env.rest.pit.takeDataMatchPorts data.name).1.isEmpty = true := by
      intro hempty
      have hconsumed := htaken.pit.isEmpty_iff.mp hempty data.name List.prefix_rfl
      rw [hstored] at hconsumed
      cases hconsumed
    have hvalid := isValidRouteLifetime_of_ok hr.symm htrace hports (hsaved ▸ hpositive)
    rw [hsaved] at hvalid
    have hstale : ¬Loop.Admissible cfg.loop.temporary data.name.extractDataNameFromTrace seq
        w.ctl := fun hadmissible => hnone ⟨⟨entry, hstored, hpositive, hvalid⟩, hadmissible⟩
    rw [Loop.admissible_iff hon (hinv.loop.inv.order hon), not_not] at hstale
    exact hstale.admitsOnly hadmits

/-! ## Routes of an update -/

/-- One of the tables holds a route of this update through this port. -/
inductive RoutesThrough (w : EngineWorld) (u : Admission) (port : Port) : Prop
  | temporary {entry : ForwardingEntry} (hcurrent : LocalRouteController.Current w u.pfx u)
      (hentry : w.ctl.temporaryFib.entries[u.pfx]? = some entry)
      (hport : port ∈ Loop.hopPorts entry) : RoutesThrough w u port
  | flowTable {e : FlowEntry} (he : e ∈ w.env.switch.fib.entries)
      (hsource : e.source = some (u.pfx, u.origin))
      (hport : .outputMulticast port ∈ e.actions) : RoutesThrough w u port

/-- Neither table invents a port. -/
theorem RoutesThrough.port_eq {u : Admission} {port : Port} (h : RoutesThrough w u port)
    (hrun : Loop.LoopRun cfg.loop w₀ w) (hu : .admitted u ∈ w.log) : port = u.port := by
  have hinv := hrun.inv
  cases h with
  | @temporary entry hcurrent hentry hport =>
      obtain ⟨v, hv, hone⟩ := hinv.temporary.represents.fib _ entry hentry
      obtain rfl : u = v := Option.some.inj (hcurrent.1.symm.trans hv.1)
      simpa [Loop.hopPorts, hone.toList_eq] using hport
  | @flowTable e he hsource hport =>
      have hsetup := hrun.1.switch
      rw [hinv.joined.switch] at he
      rcases Loop.mem_fib_replay hsetup.isSwitch hinv.joined.leading_applied he with
        he | ⟨m, hm, rfl⟩
      · rw [hsetup.source_eq_none e he] at hsource
        cases hsource
      · obtain ⟨hpfx, horigin⟩ : m.pfx = u.pfx ∧ m.origin = u.origin := by
          simpa [Loop.modEntry, SwitchPipeline.fibEntry] using hsource
        obtain ⟨v, hv, heq⟩ := hinv.joined.descends_applied hm
        have hvorigin : v.origin = u.origin := by
          rw [← horigin, heq]
          rfl
        rw [hpfx] at hv
        have hsame := hinv.joined.eq_of_origin hv (mem_admissions.mpr ⟨hu, rfl⟩) hvorigin
        have hout : m.outputPort = u.port := by
          rw [heq, hsame]
          rfl
        simpa [Loop.modEntry, SwitchPipeline.fibEntry, hout] using hport

end ForwardingEngine

end Statim
