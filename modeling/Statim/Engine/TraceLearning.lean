import Statim.Control.RetryBounds
import Statim.Engine.DataDelivery

/-!
# Learning a route from Trace Data

Trace Data admits at most one update: the return ports are tried in increasing
order, and the first one uses up the generation.  The return ports include those
of pending Interests for shorter names, so the learned next hop need not be the
one of the Trace Interest.
-/

namespace Statim

open Support SwitchPipeline

namespace Loop

variable {ε : Type} {cfg : LoopConfig} {w w' : LoopWorld ε} {m : ControlMessage} {p : Name}

/-! ## Admission of one generation -/

/-- Neither generation check refuses an update. -/
def Admissible (cfg : LocalConfig) (p : Name) (seq : Nat) (ctl : LocalRouteController) : Prop :=
  (cfg.generationGuardEnabled = true →
    ∀ high, ctl.highestSeenSeq[p]? = some high → high < seq) ∧
  ∀ s, ctl.seqMap[p]? = some s → s < seq

/-- Without the guard, a submission never comes back to the local controller. -/
theorem ctl_onRequest (hoff : cfg.central.generationGuardEnabled = false) (m : ControlMessage)
    (w : LoopWorld ε) : (onRequest cfg m w).ctl = w.ctl := by
  simp only [onRequest, FlowTableController.submitFlowUpdate]
  split
  · rfl
  split
  swap
  · rfl
  simp only [FlowTableController.acceptControl, hoff, Bool.false_eq_true, if_false]
  split
  · rfl
  · rfl

/-- An accepted update uses up its generation, if the two guards agree. -/
theorem not_admissible_dispatch
    (hguards : cfg.temporary.generationGuardEnabled = cfg.central.generationGuardEnabled)
    {seq : Nat} (m : ControlMessage)
    (hseen : cfg.temporary.generationGuardEnabled = true → w.ctl.highestSeenSeq[p]? = some seq)
    (hseq : w.ctl.seqMap[p]? = some seq) :
    ¬Admissible cfg.temporary p seq
      (LocalRouteController.dispatch (temporaryCallbacks cfg) m w).ctl := by
  intro hadmissible
  cases hon : cfg.temporary.generationGuardEnabled with
  | true =>
      refine absurd (hadmissible.1 hon seq ?_) (Nat.lt_irrefl seq)
      rw [LocalRouteController.highestSeenSeq_dispatch (passive_temporaryCallbacks cfg)]
      exact hseen hon
  | false =>
      refine absurd (hadmissible.2 seq ?_) (Nat.lt_irrefl seq)
      have hkept := ctl_onRequest (hguards.symm.trans hon) m
        { w with log := w.log ++ [.request w.clock.now m] }
      exact (congrArg (fun ctl : LocalRouteController => ctl.seqMap[p]?) hkept).trans hseq

/-- The history of `w'` continues the one of `w` with the admission of `u` and its
request. -/
structure Granted (cfg : LocalConfig) (p : Name) (port : Port) (ttl : Int) (w w' : LoopWorld ε)
    (u : Admission) : Prop where
  port : u.port = port
  time : u.time = w.clock.now
  lifetime : u.lifetime = LocalRouteController.grantedLifetime cfg ttl
  admitted : admissions w'.log p = admissions w.log p ++ [u]
  requested : ∃ news, w'.log = w.log ++ .admitted u :: .request u.time u.packetIn :: news

/-- Only the history of the second state matters. -/
theorem Granted.of_log_eq {ttl : Int} {port : Port} {w'' : LoopWorld ε} {u : Admission}
    (h : Granted cfg.temporary p port ttl w w' u) (hlog : w''.log = w'.log) :
    Granted cfg.temporary p port ttl w w'' u where
  port := h.port
  time := h.time
  lifetime := h.lifetime
  admitted := by
    rw [hlog]
    exact h.admitted
  requested := by
    rw [hlog]
    exact h.requested

/-- Publishing an update grants its request. -/
theorem granted_publish {nameHashes : Bytes} {prefixLen port seq : Nat} (ttl : Int)
    (ctl : LocalRouteController) (w : LoopWorld ε) :
    Granted cfg.temporary p port ttl w
      (LocalRouteController.publish cfg.temporary (temporaryCallbacks cfg)
        (LocalRouteController.candidate cfg.temporary p nameHashes prefixLen port seq ttl w)
        { w with ctl := ctl })
      (LocalRouteController.candidate cfg.temporary p nameHashes prefixLen port seq ttl w) := by
  have hstages := LocalRouteController.stages_stage cfg.temporary (temporaryCallbacks cfg)
    (LocalRouteController.candidate cfg.temporary p nameHashes prefixLen port seq ttl w)
    { w with ctl := ctl }
  have hset : (temporaryCallbacks cfg : LocalCallbacks (LoopEnv ε)).request.isSome = true := rfl
  have hreenter := LocalRouteController.reenter_dispatch hset (passive_temporaryCallbacks cfg)
    (LocalRouteController.candidate cfg.temporary p nameHashes prefixLen port seq ttl w).packetIn
    (LocalRouteController.stage cfg.temporary (temporaryCallbacks cfg)
      (LocalRouteController.candidate cfg.temporary p nameHashes prefixLen port seq ttl w)
      { w with ctl := ctl })
  refine ⟨rfl, rfl, rfl, ?_, ?_⟩
  · refine (LocalRouteController.admissions_dispatch (passive_temporaryCallbacks cfg) _ p).trans ?_
    rw [hstages.log, admissions_append]
    refine congrArg (admissions w.log p ++ ·) ?_
    simp [admissions, LocalRouteController.candidate]
  · obtain ⟨news, hlog, -, -⟩ := hreenter.quietly.log
    refine ⟨news, hlog.trans ?_⟩
    rw [hstages.log, hstages.now, List.append_assoc, List.append_assoc]
    rfl

/-- What a call of `applyTraceUpdate` that does not throw does to the admissions. -/
theorem applyTraceUpdate_admissions
    (hguards : cfg.temporary.generationGuardEnabled = cfg.central.generationGuardEnabled)
    {port seq : Nat} {ttl : Int} {r : Bool × LoopWorld ε}
    (h : applyTraceUpdate cfg p port seq ttl w = .ok r) :
    ¬Admissible cfg.temporary p seq r.2.ctl ∧
      (Admissible cfg.temporary p seq w.ctl ∧ r.1 = true ∧
          (∃ u, Granted cfg.temporary p port ttl w r.2 u) ∨
        ¬Admissible cfg.temporary p seq w.ctl ∧ r.1 = false ∧ r.2.log = w.log) := by
  obtain ⟨r₀, hcall, hfst, accepted, hr⟩ := applyTraceUpdate_eq_ok h
  rw [hr, hfst]
  rcases LocalRouteController.applyTraceUpdate_cases hcall with
    ⟨hguard, rfl⟩ | ⟨ctl, s, hguard, hs, hle, rfl⟩ | ⟨ctl, hguard, hnew, rfl⟩
  · have hstale : ¬Admissible cfg.temporary p seq w.ctl := by
      intro hadmissible
      unfold LocalRouteController.passGuard at hguard
      split at hguard
      next hon =>
        split at hguard
        next high hhigh =>
          split at hguard
          next hle => exact absurd (hadmissible.1 hon high hhigh) (Nat.not_lt.mpr hle)
          next => cases hguard
        next => cases hguard
      next => cases hguard
    exact ⟨hstale, Or.inr ⟨hstale, rfl, rfl⟩⟩
  · have hstale : ∀ ctl' : LocalRouteController, ctl'.seqMap = w.ctl.seqMap →
        ¬Admissible cfg.temporary p seq ctl' := by
      intro ctl' heq hadmissible
      refine absurd (hadmissible.2 s ?_) (Nat.not_lt.mpr hle)
      rw [heq]
      exact hs
    obtain ⟨seen, rfl⟩ := LocalRouteController.exists_passGuard_eq hguard
    exact ⟨hstale _ rfl, Or.inr ⟨hstale _ rfl, rfl, rfl⟩⟩
  · have hstages := LocalRouteController.stages_stage cfg.temporary (temporaryCallbacks cfg)
      (LocalRouteController.candidate cfg.temporary p (PacketHeader.hashesOf cfg.stdHash p)
        (min p.length nameHashCount) port seq ttl w) { w with ctl := ctl }
    have hadmissible : Admissible cfg.temporary p seq w.ctl := by
      refine ⟨fun hon high hhigh => ?_, hnew⟩
      rcases LocalRouteController.passGuard_eq_some hguard with ⟨hoff, -⟩ | ⟨-, hlt, -⟩
      · rw [hon] at hoff
        cases hoff
      · exact hlt high hhigh
    refine ⟨?_, Or.inl ⟨hadmissible, rfl, _, (granted_publish ttl ctl w).of_log_eq rfl⟩⟩
    · refine not_admissible_dispatch hguards _ (fun hon => ?_) ?_
      · rw [hstages.seen]
        rcases LocalRouteController.passGuard_eq_some hguard with ⟨hoff, -⟩ | ⟨-, -, rfl⟩
        · rw [hon] at hoff
          cases hoff
        · exact Std.TreeMap.getElem?_insert_self
      · rw [hstages.seq]
        exact if_pos rfl

/-- A nonnegative lifetime that agrees with a configured one is never refused by an
exception. -/
theorem exists_applyTraceUpdate (p : Name) (port seq : Nat) {ttl : Int} (httl : 0 ≤ ttl)
    (hvalid : 0 < cfg.temporary.entryLifetime → wrap64 (ttl * 1000) = cfg.temporary.entryLifetime)
    (w : LoopWorld ε) : ∃ r, applyTraceUpdate cfg p port seq ttl w = .ok r := by
  have hagree : ¬(0 < wrap64 (ttl * 1000) ∧ 0 < cfg.temporary.entryLifetime ∧
      wrap64 (ttl * 1000) ≠ cfg.temporary.entryLifetime) := by
    rintro ⟨-, hpos, hne⟩
    exact hne (hvalid hpos)
  have hcall : ∃ r, LocalRouteController.applyTraceUpdate cfg.temporary (temporaryCallbacks cfg) p
      (PacketHeader.hashesOf cfg.stdHash p) (min p.length nameHashCount) port seq ttl w =
        .ok r := by
    simp only [LocalRouteController.applyTraceUpdate, if_neg (Int.not_lt.mpr httl), if_neg hagree]
    split
    · exact ⟨_, rfl⟩
    · split
      · split
        · exact ⟨_, rfl⟩
        · exact ⟨_, rfl⟩
      · exact ⟨_, rfl⟩
  obtain ⟨⟨updated, w₁⟩, hr⟩ := hcall
  simp only [applyTraceUpdate, hr]
  cases updated with
  | false => exact ⟨_, rfl⟩
  | true => exact ⟨_, rfl⟩

end Loop

namespace ForwardingEngine

variable {cfg : EngineConfig} {w w' w₀ : EngineWorld} {p : Name} {seq : Nat} {lifetime : Int}

/-! ## The admissions of one Trace Data -/

/-- Reforwarding leaves the control loop alone. -/
theorem pullAll_frame (cfg : EngineConfig) (port : Port) (pending : List Interest)
    (w : EngineWorld) : (Handled.world (pullAll cfg port pending w)).ctl = w.ctl ∧
      (Handled.world (pullAll cfg port pending w)).log = w.log := by
  induction pending generalizing w with
  | nil => exact ⟨rfl, rfl⟩
  | cons interest rest ih =>
      rw [pullAll]
      split
      · exact ⟨rfl, rfl⟩
      next retx buffers hrefresh => exact ih (schedulePull retx buffers port w)

/-- The lifetime passes the checks of `handleTraceData` and `applyTraceUpdate`. -/
structure Leasable (cfg : EngineConfig) (lifetime : Int) : Prop where
  positive : 0 < lifetime
  valid : isValidRouteLifetime cfg (wrap64 (lifetime * 1000)) = true

theorem Leasable.agrees (h : Leasable cfg lifetime)
    (hpos : 0 < cfg.loop.temporary.entryLifetime) :
    wrap64 (lifetime * 1000) = cfg.loop.temporary.entryLifetime := by
  have hvalid := h.valid
  rw [cfg.entryLifetime_eq] at hpos ⊢
  by_contra hne
  simp [isValidRouteLifetime, hpos, hne] at hvalid

/-- One port: it is admitted exactly if the generation is admissible, and then the
generation is used up. -/
theorem learnPort_admissions (p : Name) (seq : Nat) (hlease : Leasable cfg lifetime)
    (port : Port) (w : EngineWorld) :
    ¬Loop.Admissible cfg.loop.temporary p seq
        (Handled.world (learnPort cfg p seq lifetime port w)).ctl ∧
      (Loop.Admissible cfg.loop.temporary p seq w.ctl ∧
          (∃ u, Loop.Granted cfg.loop.temporary p port lifetime w
            (Handled.world (learnPort cfg p seq lifetime port w)) u) ∨
        ¬Loop.Admissible cfg.loop.temporary p seq w.ctl ∧ ∃ w', w'.log = w.log ∧
          learnPort cfg p seq lifetime port w = .ok w') := by
  obtain ⟨⟨updated, w₁⟩, hr⟩ := Loop.exists_applyTraceUpdate p port seq
    (Int.le_of_lt hlease.positive) hlease.agrees w
  obtain ⟨hused, ⟨hadmissible, hupdated, u, hgranted⟩ | ⟨hstale, hupdated, hlog⟩⟩ :=
    Loop.applyTraceUpdate_admissions cfg.guards_eq hr
  · obtain rfl : updated = true := hupdated
    simp only [learnPort, hr, Bool.true_and]
    split
    · obtain ⟨hctl, hlog'⟩ := pullAll_frame cfg port (pulled cfg p (count .pullInvocations w₁))
        (count .pullInvocations w₁)
      simp only [pullPendingInterests]
      rw [hctl]
      exact ⟨hused, Or.inl ⟨hadmissible, u, hgranted.of_log_eq hlog'⟩⟩
    · exact ⟨hused, Or.inl ⟨hadmissible, u, hgranted⟩⟩
  · obtain rfl : updated = false := hupdated
    simp only [learnPort, hr, Bool.false_and, Bool.false_eq_true, if_false]
    exact ⟨hused, Or.inr ⟨hstale, w₁, hlog, rfl⟩⟩

/-- A generation that is used up admits no port. -/
theorem learnPorts_of_not_admissible (hlease : Leasable cfg lifetime) (ports : List Port)
    (hstale : ¬Loop.Admissible cfg.loop.temporary p seq w.ctl) :
    ∃ w', w'.log = w.log ∧ learnPorts cfg p seq lifetime ports w = .ok w' := by
  induction ports generalizing w with
  | nil => exact ⟨w, rfl, rfl⟩
  | cons port rest ih =>
      obtain ⟨hused, ⟨hadmissible, -⟩ | ⟨-, w₁, hlog, hlearn⟩⟩ :=
        learnPort_admissions p seq hlease port w
      · exact absurd hadmissible hstale
      · rw [hlearn] at hused
        obtain ⟨w', hlog', hrest⟩ := ih hused
        refine ⟨w', hlog'.trans hlog, ?_⟩
        simp only [learnPorts, hlearn]
        exact hrest

/-- An admissible generation admits the first port and no other. -/
theorem learnPorts_of_admissible (hlease : Leasable cfg lifetime) (port : Port)
    (rest : List Port) (hadmissible : Loop.Admissible cfg.loop.temporary p seq w.ctl) :
    ∃ u, Loop.Granted cfg.loop.temporary p port lifetime w
      (Handled.world (learnPorts cfg p seq lifetime (port :: rest) w)) u := by
  obtain ⟨hused, ⟨-, u, hgranted⟩ | ⟨hstale, -⟩⟩ :=
    learnPort_admissions p seq hlease port w
  · refine ⟨u, ?_⟩
    rw [learnPorts]
    split
    next e heq =>
      rw [heq] at hgranted
      exact hgranted
    next w₁ heq =>
      rw [heq] at hgranted hused
      obtain ⟨w', hlog', hrest⟩ := learnPorts_of_not_admissible hlease rest hused
      have hrest : learnPorts cfg p seq lifetime rest w₁ = .ok w' := hrest
      rw [hrest]
      exact hgranted.of_log_eq hlog'
  · exact absurd hadmissible hstale

theorem log_forwardData (data : Data) (ports : Std.TreeSet Port) (header : PacketHeader)
    (w : EngineWorld) : (forwardData cfg data ports header w).log = w.log := by
  simp only [forwardData]
  split
  · rfl
  · rw [foldl_sendDataToPort]
    rfl

/-- Sending the Data after it was learned from does not touch the control loop. -/
theorem log_processDataAfterDelay (cfg : EngineConfig) {data : Data} (header : PacketHeader)
    (htrace : data.name.judgeNameIsTrace = true)
    (hports : ¬(w.env.rest.pit.takeDataMatchPorts data.name).1.isEmpty = true)
    (hpositive : ¬savedLifetime data.name w.env.rest.pit ≤ 0) :
    (Handled.world (processDataAfterDelay cfg data header w)).log =
      (Handled.world (handleTraceData cfg data (w.env.rest.pit.takeDataMatchPorts data.name).1
        (savedLifetime data.name w.env.rest.pit)
        (setPit (w.env.rest.pit.takeDataMatchPorts data.name).2 w))).log := by
  simp only [processDataAfterDelay, htrace, if_true, if_neg hports, if_neg hpositive]
  split
  next e hlearn => rw [hlearn]
  next w₁ hlearn =>
    rw [hlearn]
    exact log_forwardData data _ header w₁

/-- The saved Trace Interest grants a lease, and the generation is new. -/
def CanLearn (cfg : EngineConfig) (name : Name) (seq : Nat) (w : EngineWorld) : Prop :=
  (∃ entry, w.env.rest.pit.entries[name]? = some entry ∧
    Leasable cfg (toMicroseconds entry.interest.lifetime)) ∧
  Loop.Admissible cfg.loop.temporary name.extractDataNameFromTrace seq w.ctl

theorem head?_toList_of_mem {ports : Std.TreeSet Port} {port : Port} (h : port ∈ ports) :
    ∃ first rest, ports.toList = first :: rest := by
  cases hlist : ports.toList with
  | nil =>
      rw [← Std.TreeSet.mem_toList, hlist] at h
      exact absurd h List.not_mem_nil
  | cons first rest => exact ⟨first, rest, rfl⟩

/-- What Trace Data admits: nothing, or one update through the lowest return port. -/
theorem processDataAfterDelay_admissions (cfg : EngineConfig)
    (hpit : w.env.rest.pit.PendingInv) {data : Data} (header : PacketHeader)
    (htrace : data.name.judgeNameIsTrace = true)
    (hseq : data.name.getTraceSequence = some seq) :
    (CanLearn cfg data.name seq w ∧ ∃ u first rest,
        (w.env.rest.pit.takeDataMatchPorts data.name).1.toList = first :: rest ∧
        Loop.Granted cfg.loop.temporary data.name.extractDataNameFromTrace first
          (savedLifetime data.name w.env.rest.pit) w
          (Handled.world (processDataAfterDelay cfg data header w)) u) ∨
      ¬CanLearn cfg data.name seq w ∧
        (Handled.world (processDataAfterDelay cfg data header w)).log = w.log := by
  have hne := Name.extractDataNameFromTrace_ne_nil htrace
  have hsaved := savedLifetime_eq hpit data.name
  by_cases hports : (w.env.rest.pit.takeDataMatchPorts data.name).1.isEmpty = true
  · simp only [processDataAfterDelay, if_pos hports]
    refine Or.inr ⟨?_, rfl⟩
    rintro ⟨⟨entry, hentry, -⟩, -⟩
    rw [hpit.isEmpty_iff.mp hports data.name List.prefix_rfl] at hentry
    cases hentry
  by_cases hpositive : savedLifetime data.name w.env.rest.pit ≤ 0
  · simp only [processDataAfterDelay, htrace, if_true, if_neg hports, if_pos hpositive]
    refine Or.inr ⟨?_, rfl⟩
    rintro ⟨⟨entry, hentry, hlease⟩, -⟩
    rw [hsaved, hentry] at hpositive
    exact absurd hlease.positive (Int.not_lt.mpr hpositive)
  have hentry : ∃ entry, w.env.rest.pit.entries[data.name]? = some entry ∧
      savedLifetime data.name w.env.rest.pit = toMicroseconds entry.interest.lifetime := by
    cases hentry : w.env.rest.pit.entries[data.name]? with
    | none =>
        rw [hsaved, hentry] at hpositive
        exact absurd (Int.le_refl 0) hpositive
    | some entry =>
        rw [hsaved, hentry]
        exact ⟨entry, rfl, rfl⟩
  obtain ⟨entry, hentry, hlifetime⟩ := hentry
  have hlogged := log_processDataAfterDelay cfg header htrace hports hpositive
  cases hvalid : isValidRouteLifetime cfg
      (wrap64 (savedLifetime data.name w.env.rest.pit * 1000)) with
  | false =>
      simp only [handleTraceData, hvalid, Bool.not_false, if_true] at hlogged
      refine Or.inr ⟨?_, hlogged⟩
      rintro ⟨⟨entry', hentry', hlease⟩, -⟩
      obtain rfl := Option.some.inj (hentry.symm.trans hentry')
      rw [hlifetime, hlease.valid] at hvalid
      cases hvalid
  | true =>
  have hlease : Leasable cfg (savedLifetime data.name w.env.rest.pit) :=
    ⟨Int.not_le.mp hpositive, hvalid⟩
  simp only [handleTraceData, hvalid, Bool.not_true, Bool.false_eq_true, if_false, hseq,
    if_neg hne] at hlogged
  by_cases hadmissible : Loop.Admissible cfg.loop.temporary
      data.name.extractDataNameFromTrace seq w.ctl
  · obtain ⟨port, hport⟩ := isEmpty_eq_false_iff.mp ((Bool.not_eq_true _).mp hports)
    obtain ⟨first, rest, hlist⟩ := head?_toList_of_mem hport
    rw [hlist] at hlogged
    obtain ⟨u, hgranted⟩ := learnPorts_of_admissible hlease first rest
      (w := count .traceUpdatesHandled
        (setPit (w.env.rest.pit.takeDataMatchPorts data.name).2 w)) hadmissible
    refine Or.inl ⟨⟨⟨entry, hentry, hlifetime ▸ hlease⟩, hadmissible⟩, u, first, rest, hlist, ?_⟩
    -- the counters and the pending Interests are no part of the history
    have hstart : Loop.Granted cfg.loop.temporary data.name.extractDataNameFromTrace first
        (savedLifetime data.name w.env.rest.pit) w _ u :=
      ⟨hgranted.port, hgranted.time, hgranted.lifetime, hgranted.admitted, hgranted.requested⟩
    exact hstart.of_log_eq hlogged
  · obtain ⟨w', hlog, hlearn⟩ := learnPorts_of_not_admissible hlease
      (w.env.rest.pit.takeDataMatchPorts data.name).1.toList
      (w := count .traceUpdatesHandled
        (setPit (w.env.rest.pit.takeDataMatchPorts data.name).2 w)) hadmissible
    rw [hlearn] at hlogged
    exact Or.inr ⟨fun hlearns => hadmissible hlearns.2, hlogged.trans hlog⟩

/-! ## The learned next hop -/

/-- Every port that is admitted for the traced prefix is one of the entry with exactly
this name. -/
def LearnsOwnPort (name : Name) (w w' : EngineWorld) : Prop :=
  ∃ news, admissions w'.log name.extractDataNameFromTrace =
      admissions w.log name.extractDataNameFromTrace ++ news ∧
    ∀ u ∈ news, ∃ entry, w.env.rest.pit.entries[name]? = some entry ∧ u.port ∈ entry.ports

/-- The lowest port among the matching pending Interests belongs to the entry with
exactly this name. -/
def OwnPortFirst (name : Name) (pit : PendingInterestTable) : Prop :=
  ∃ entry, pit.entries[name]? = some entry ∧ ∃ port ∈ entry.ports,
    ∀ (n : Name) (other : PendingEntry), n <+: name → pit.entries[n]? = some other →
      ∀ p ∈ other.ports, port ≤ p

/-- The first return port is the lowest one. -/
theorem first_mem_ports_iff {pit : PendingInterestTable} {name : Name} {first : Port}
    {rest : List Port} (hlist : (pit.takeDataMatchPorts name).1.toList = first :: rest) :
    (∃ entry, pit.entries[name]? = some entry ∧ first ∈ entry.ports) ↔ OwnPortFirst name pit := by
  have hsorted := pairwise_lt_toList (pit.takeDataMatchPorts name).1
  rw [hlist] at hsorted
  have hleast : ∀ port ∈ (pit.takeDataMatchPorts name).1, first ≤ port := by
    intro port hport
    rw [← Std.TreeSet.mem_toList, hlist] at hport
    rcases List.mem_cons.mp hport with rfl | hport
    · exact Nat.le_refl _
    · exact Nat.le_of_lt (List.rel_of_pairwise_cons hsorted hport)
  have hfirst : first ∈ (pit.takeDataMatchPorts name).1 := by
    rw [← Std.TreeSet.mem_toList, hlist]
    exact List.mem_cons_self
  constructor
  · rintro ⟨entry, hentry, hport⟩
    refine ⟨entry, hentry, first, hport, fun n other hprefix hother p hp => hleast p ?_⟩
    exact PendingInterestTable.mem_takeDataMatchPorts.mpr ⟨n, other, hprefix, hother, hp⟩
  · rintro ⟨entry, hentry, port, hport, hmin⟩
    obtain ⟨n, other, hprefix, hother, hp⟩ :=
      PendingInterestTable.mem_takeDataMatchPorts.mp hfirst
    have hle := hmin n other hprefix hother first hp
    have hge : first ≤ port := hleast port (PendingInterestTable.mem_takeDataMatchPorts.mpr
      ⟨name, entry, List.prefix_rfl, hentry, hport⟩)
    rw [Nat.le_antisymm hge hle]
    exact ⟨entry, hentry, hport⟩

/-- The next hop learned from Trace Data is a port of the saved Trace Interest if and
only if no update is admitted, or the Trace Interest has the lowest port of all
pending Interests that the Data satisfies. -/
theorem learnsOwnPort_iff {steps : List Step} {r : Handled} (hrun : EngineRun cfg w₀ steps r)
    {s : Step} (hs : s ∈ steps) {inPort : Port} {data : Data} {header : PacketHeader}
    (haction : s.action = .fire (.processDataAfterDelay inPort data header))
    (htrace : data.name.judgeNameIsTrace = true)
    (hseq : data.name.getTraceSequence = some seq) :
    LearnsOwnPort data.name s.before (Handled.world s.outcome) ↔
      (CanLearn cfg data.name seq s.before → OwnPortFirst data.name s.before.env.rest.pit) := by
  obtain ⟨hinv, hstep⟩ := hrun.inv.2 s hs
  rw [haction] at hstep
  obtain ⟨e, -, -, -, hr⟩ := hstep.exists_of_fire
  have hpit : (ForwardingEngine.take e s.before).env.rest.pit.PendingInv := hinv.pit
  rw [hr]
  rcases processDataAfterDelay_admissions cfg hpit header htrace hseq with
    ⟨hlearn, u, first, rest, hlist, hgranted⟩ | ⟨hnone, hlog⟩
  · have hown := first_mem_ports_iff hlist
    constructor
    · rintro ⟨news, hnews, hports⟩ -
      obtain rfl : [u] = news := List.append_cancel_left (hgranted.admitted.symm.trans hnews)
      have hport := hports u List.mem_cons_self
      rw [hgranted.port] at hport
      exact hown.mp hport
    · intro hfirst
      refine ⟨[u], hgranted.admitted, fun v hv => ?_⟩
      rw [List.mem_singleton.mp hv, hgranted.port]
      exact hown.mpr (hfirst hlearn)
  · refine iff_of_true ⟨[], ?_, by simp⟩ fun hlearn => absurd hlearn hnone
    rw [List.append_nil]
    exact congrArg (admissions · _) hlog

/-! ## An ancestor's port is learned -/

/-- A Trace Interest from port 2 joins the Interest for its first component from
port 1. -/
def tracedWorld : EngineWorld :=
  arrived sampleEngineConfig 2 (traceInterest 2)
    (rejected (traceName.take 1) (takeFirst ancestorWorld))

/-- The Trace Data has arrived and waits for its delay. -/
def returnedWorld : EngineWorld :=
  arrived sampleEngineConfig 3 traceData (rejected traceName (takeFirst tracedWorld))

theorem run_returnedWorld :
    ∃ steps, EngineRun sampleEngineConfig sampleEngine steps (.ok returnedWorld) ∧
      ∀ s ∈ steps, ∀ inPort data header,
        s.action ≠ .fire (.processDataAfterDelay inPort data header) := by
  have hasked := EngineRun.arrive (.start isInitial_sampleEngine) 1
    (.interest (traceName.take 1) {} [1, 0, 0, 0] none)
  have hrejected := hasked.fireInterest (by rfl) (by decide) (by rfl)
    (fib_initPipeline EntrySort.mergeSort)
  have htraced := (hrejected.arrive 2 (traceInterest 2)).fireInterest (by rfl) (by decide)
    (by rfl) (fib_initPipeline EntrySort.mergeSort)
  refine ⟨_, htraced.arrive 3 traceData, ?_⟩
  simp

theorem due_returnedWorld :
    ∃ e, returnedWorld.env.rest.events.head? = some e ∧
      e.event = .processDataAfterDelay 3 receivedTrace hopHeader ∧ IsDue returnedWorld e.key :=
  ⟨_, rfl, rfl, by decide⟩

theorem canLearn_returnedWorld : CanLearn sampleEngineConfig traceName 1 returnedWorld := by
  refine ⟨⟨_, rfl, ⟨by decide, by decide⟩⟩, fun hon high hhigh => ?_, fun s hs => ?_⟩
  · cases hhigh
  · cases hs

/-- The update goes to port 1, where the Interest for the shorter name came from. -/
theorem not_learnsOwnPort_returnedWorld :
    ∃ steps r, EngineRun sampleEngineConfig sampleEngine steps r ∧
      ∃ s ∈ steps, s.action = .fire (.processDataAfterDelay 3 receivedTrace hopHeader) ∧
        traceName.judgeNameIsTrace = true ∧ traceName.getTraceSequence = some 1 ∧
        ¬LearnsOwnPort traceName s.before (Handled.world s.outcome) := by
  obtain ⟨steps, hrun, -⟩ := run_returnedWorld
  obtain ⟨e, he, hevent, hdue⟩ := due_returnedWorld
  have hlearned := hrun.fireNext he hdue rfl
  have hpit : (take e returnedWorld).env.rest.pit.PendingInv := (hrun.inv.1 _ rfl).pit
  rw [hevent] at hlearned
  refine ⟨_, _, hlearned, _, List.mem_append_right _ List.mem_cons_self, rfl, by decide,
    by decide, ?_⟩
  rintro ⟨news, hnews, hports⟩
  simp only [ForwardingEngine.fire, hevent, handle] at hnews
  have htrace : receivedTrace.name.judgeNameIsTrace = true := by decide
  have hseq : receivedTrace.name.getTraceSequence = some 1 := by decide
  rcases processDataAfterDelay_admissions sampleEngineConfig hpit hopHeader htrace hseq with
    ⟨-, u, first, rest, hlist, hgranted⟩ | ⟨hnone, -⟩
  · obtain rfl : [u] = news := List.append_cancel_left (hgranted.admitted.symm.trans hnews)
    have hfirst : first = 1 := (List.cons.inj (hlist.symm.trans (by rfl))).1
    obtain ⟨entry, hentry, hport⟩ := hports u List.mem_cons_self
    rw [hgranted.port, hfirst] at hport
    obtain rfl := Option.some.inj (hentry.symm.trans (by rfl))
    exact absurd hport (by decide)
  · exact absurd canLearn_returnedWorld hnone

theorem learnsOwnPort_iff_returnedWorld :
    ∃ s : Step, s.before = returnedWorld ∧
      (LearnsOwnPort traceName s.before (Handled.world s.outcome) ↔
        (CanLearn sampleEngineConfig traceName 1 s.before →
          OwnPortFirst traceName s.before.env.rest.pit)) := by
  obtain ⟨steps, hrun, -⟩ := run_returnedWorld
  obtain ⟨e, he, hevent, hdue⟩ := due_returnedWorld
  have hlearned := hrun.fireNext he hdue rfl
  rw [hevent] at hlearned
  refine ⟨⟨returnedWorld, .fire (.processDataAfterDelay 3 receivedTrace hopHeader),
    ForwardingEngine.fire sampleEngineConfig e returnedWorld⟩, rfl, ?_⟩
  exact learnsOwnPort_iff hlearned (List.mem_append_right _ List.mem_cons_self) rfl
    (by decide) (by decide)

end ForwardingEngine

end Statim
