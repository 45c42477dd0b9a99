import Statim.Engine.ForwardingEngine
import Statim.Engine.LoopGuarantees

/-!
# Runs of the forwarding engine

The engine takes packets from its ports and runs its own events among those of
the two controllers.  Every run of the engine is a run of the closed loop, so
that whatever holds of the loop holds here, and the loop never touches the
engine's own state.
-/

namespace Statim

open Support

namespace Loop

variable {ε : Type} {cfg : LoopConfig} {w w' : LoopWorld ε}
  {c c' : FlowTableWorld (CentralEnv ε)} {m : ControlMessage} {p : Name}

/-! ## The loop leaves the rest of the engine alone -/

/-- No time passes, and the rest of the engine is the same. -/
structure Kept (w w' : LoopWorld ε) : Prop where
  rest : w'.env.rest = w.env.rest
  now : w'.clock.now = w.clock.now

theorem Kept.refl (w : LoopWorld ε) : Kept w w := ⟨rfl, rfl⟩

theorem Kept.trans {w'' : LoopWorld ε} (h : Kept w w') (h' : Kept w' w'') : Kept w w'' :=
  ⟨h'.rest.trans h.rest, h'.now.trans h.now⟩

theorem kept_action (h : FlowTableController.Action (centralCallbacks cfg) m c c') :
    Kept (toTemporary c) (toTemporary c') := by
  cases h with
  | book => exact ⟨rfl, rfl⟩
  | schedule => exact ⟨rfl, rfl⟩
  | accept => exact ⟨rfl, rfl⟩
  | refuse hsink hanswer =>
      cases hsink
      obtain ⟨switch, applied, heq⟩ := onFlowTableFlowMod_frame cfg { m with type := .flowMod } c
      rw [heq]
      exact ⟨rfl, rfl⟩
  | apply hsink hanswer =>
      cases hsink
      obtain ⟨switch, applied, heq⟩ := onFlowTableFlowMod_frame cfg { m with type := .flowMod } c
      rw [heq]
      exact ⟨rfl, rfl⟩
  | ack hsync hlive =>
      cases hsync
      simp only [onSyncAck, toTemporary_toCentral]
      rw [handleControlResponse_eq cfg.temporary rfl]
      have hnoted : Kept (toTemporary c) (toTemporary { c with
          log := c.log ++ [.acked c.clock.now { m with type := .syncAck }] }) := ⟨rfl, rfl⟩
      refine hnoted.trans ?_
      obtain ⟨hclock, henv⟩ := acceptResponse_frame cfg.temporary { m with type := .syncAck }
        (toTemporary { c with
          log := c.log ++ [.acked c.clock.now { m with type := .syncAck }] })
      exact ⟨congrArg LoopEnv.rest henv, congrArg Clock.now hclock⟩

theorem kept_actions (h : FlowTableController.Actions (centralCallbacks cfg) m c c') :
    Kept (toTemporary c) (toTemporary c') := by
  induction h with
  | refl => exact Kept.refl _
  | tail _ haction ih => exact ih.trans (kept_action haction)

theorem kept_onRequest (m : ControlMessage) (w : LoopWorld ε) : Kept w (onRequest cfg m w) := by
  have hactions : FlowTableController.Actions (centralCallbacks cfg) m (toCentral w)
      (FlowTableController.submitFlowUpdate cfg.central (centralCallbacks cfg) m (toCentral w)) :=
    FlowTableController.actions_submitFlowUpdate m (toCentral w)
  exact kept_actions hactions

theorem kept_dispatch (m : ControlMessage) (w : LoopWorld ε) :
    Kept w (LocalRouteController.dispatch (temporaryCallbacks cfg) m w) := by
  have hnoted : Kept w { w with log := w.log ++ [.request w.clock.now m] } := ⟨rfl, rfl⟩
  exact hnoted.trans (kept_onRequest m _)

theorem kept_applyTraceUpdate {port seq : Nat} {ttl : Int} {r : Bool × LoopWorld ε}
    (h : applyTraceUpdate cfg p port seq ttl w = .ok r) : Kept w r.2 := by
  obtain ⟨r₀, hcall, -, accepted, hr⟩ := applyTraceUpdate_eq_ok h
  have hcalled : Kept w r₀.2 := by
    rcases LocalRouteController.applyTraceUpdate_cases hcall with
      ⟨-, rfl⟩ | ⟨ctl, s, hguard, -, -, rfl⟩ | ⟨ctl, hguard, -, rfl⟩
    · exact ⟨rfl, rfl⟩
    · exact ⟨rfl, rfl⟩
    · refine Kept.trans ?_ (kept_dispatch _ _)
      refine ⟨congrArg LoopEnv.rest (stage_frame _ _ _ _).1, ?_⟩
      exact (LocalRouteController.stages_stage _ _ _ _).now
  rw [hr]
  exact ⟨hcalled.rest, hcalled.now⟩

theorem kept_rescheduleRetry (p : Name) (s : Nat) (w : LoopWorld ε) :
    Kept w (LocalRouteController.rescheduleRetry cfg.temporary p s w) := by
  unfold LocalRouteController.rescheduleRetry
  split
  · split
    · exact ⟨rfl, rfl⟩
    · exact Kept.refl _
  · exact Kept.refl _

theorem kept_onControllerRetryTimeout (p : Name) (s : Nat) (w : LoopWorld ε) :
    Kept w (LocalRouteController.onControllerRetryTimeout cfg.temporary
      (temporaryCallbacks cfg) p s w) := by
  unfold LocalRouteController.onControllerRetryTimeout
  split
  · exact Kept.refl _
  split
  · exact Kept.refl _
  split
  · exact ⟨rfl, rfl⟩
  split
  · refine Kept.trans ?_ (kept_rescheduleRetry p s _)
    refine Kept.trans ?_ (kept_dispatch _ _)
    exact ⟨rfl, rfl⟩
  · exact ⟨rfl, rfl⟩

/-- An event of the local controller runs at its time. -/
theorem kept_fire (cfg : LoopConfig) (e : Scheduled LocalEvent) (w : LoopWorld ε) :
    Kept { w with clock := { w.clock with now := e.ts } }
      (LocalRouteController.fire cfg.temporary (temporaryCallbacks cfg) e w) := by
  have htake : Kept { w with clock := { w.clock with now := e.ts } }
      (LocalRouteController.take e w) := ⟨rfl, rfl⟩
  refine htake.trans ?_
  cases hevent : e.event with
  | expireEntryBySeq =>
      simp only [LocalRouteController.fire, hevent]
      exact ⟨rfl, rfl⟩
  | onControllerRetryTimeout q s =>
      simp only [LocalRouteController.fire, hevent]
      exact kept_onControllerRetryTimeout q s _

/-- An event of the flow-table controller runs at its time. -/
theorem kept_fireCentral (cfg : LoopConfig) (e : Scheduled FlowTableEvent) (w : LoopWorld ε) :
    Kept { w with clock := { w.clock with now := e.ts } } (toTemporary
      (FlowTableController.fire cfg.central (centralCallbacks cfg) e (toCentral w))) := by
  have htake : Kept { w with clock := { w.clock with now := e.ts } }
      (toTemporary (FlowTableController.take e (toCentral w))) := ⟨rfl, rfl⟩
  exact htake.trans (kept_actions (FlowTableController.actions_handle e.event _))

/-- A run of the loop that ends in one state goes on to the other. -/
def Continues (cfg : LoopConfig) (w w' : LoopWorld ε) : Prop :=
  ∀ w₀, LoopRun cfg w₀ w → LoopRun cfg w₀ w'

theorem Continues.refl (w : LoopWorld ε) : Continues cfg w w := fun _ h => h

theorem Continues.trans {w'' : LoopWorld ε} (h : Continues cfg w w')
    (h' : Continues cfg w' w'') : Continues cfg w w'' :=
  fun w₀ hrun => h' w₀ (h w₀ hrun)

theorem Continues.of_step (h : LoopStep cfg w w') : Continues cfg w w' :=
  fun _ hrun => ⟨hrun.1, hrun.2.tail h⟩

/-- The rest of the engine changes, and event identifiers are used up. -/
theorem continues_rest {uid : Nat} (huid : w.clock.uid ≤ uid) (rest : ε) :
    Continues cfg w { w with
      clock := ⟨w.clock.now, uid⟩, env := { w.env with rest := rest } } := by
  intro w₀ hrun
  have hinv := hrun.inv
  have hdue' : ∀ e ∈ w.env.central.events, w.clock.now ≤ e.ts := hinv.central.queue.due
  have hidle : LoopStep cfg w { w with
      clock := ⟨w.clock.now, uid⟩, env := { w.env with rest := rest } } :=
    .idle ⟨w.clock.now, uid⟩ (Nat.le_refl _) huid hinv.temporary.queue.due hdue' rest
  exact Continues.of_step hidle w₀ hrun

end Loop

/-! ## Steps of the engine -/

/-- What can happen next: a packet arrives, an event of the engine runs, or the
control loop goes on. -/
inductive EngineAction
  | receive (inPort : Port) (packet : RawPacket)
  | fire (event : EngineEvent)
  | control
deriving DecidableEq, Repr

namespace ForwardingEngine

variable {cfg : EngineConfig} {w w' w₀ : EngineWorld}

/-- Nothing in the three queues runs before this key. -/
def IsDue (w : EngineWorld) (key : Nat × Nat) : Prop :=
  Loop.IsDue w key ∧ ∀ e ∈ w.env.rest.events, Precedes key e.key

instance (w : EngineWorld) (key : Nat × Nat) : Decidable (IsDue w key) :=
  inferInstanceAs (Decidable (_ ∧ _))

/-- One step of the engine and its outcome. -/
inductive EngineStep (cfg : EngineConfig) : EngineWorld → EngineAction → Handled → Prop
  | receive (w : EngineWorld) (inPort : Port) (packet : RawPacket) :
      EngineStep cfg w (.receive inPort packet) (onReceiveRawPacket cfg inPort packet w)
  | fire {w : EngineWorld} {e : Scheduled EngineEvent} (he : e ∈ w.env.rest.events)
      (hdue : IsDue w e.key) :
      EngineStep cfg w (.fire e.event) (ForwardingEngine.fire cfg e w)
  | temporary {w : EngineWorld} {e : Scheduled LocalEvent} (he : e ∈ w.ctl.events)
      (hdue : IsDue w e.key) :
      EngineStep cfg w .control (.ok (LocalRouteController.fire cfg.loop.temporary
        (Loop.temporaryCallbacks cfg.loop) e w))
  | central {w : EngineWorld} {e : Scheduled FlowTableEvent}
      (he : e ∈ w.env.central.events) (hdue : IsDue w e.key) :
      EngineStep cfg w .control (.ok (Loop.toTemporary (FlowTableController.fire
        cfg.loop.central (Loop.centralCallbacks cfg.loop) e (Loop.toCentral w))))
  | idle {w : EngineWorld} (clock : Clock) (hnow : w.clock.now ≤ clock.now)
      (huid : w.clock.uid ≤ clock.uid) (hdue : ∀ e ∈ w.ctl.events, clock.now ≤ e.ts)
      (hdue' : ∀ e ∈ w.env.central.events, clock.now ≤ e.ts)
      (hown : ∀ e ∈ w.env.rest.events, clock.now ≤ e.ts) :
      EngineStep cfg w .control (.ok { w with clock := clock })

/-- What runs in a step that runs an event of the engine. -/
theorem EngineStep.exists_of_fire {event : EngineEvent} {r : Handled}
    (h : EngineStep cfg w (.fire event) r) :
    ∃ e ∈ w.env.rest.events, e.event = event ∧ IsDue w e.key ∧
      r = handle cfg event (ForwardingEngine.take e w) := by
  generalize haction : EngineAction.fire event = a at h
  cases h with
  | receive => cases haction
  | temporary => cases haction
  | central => cases haction
  | idle => cases haction
  | @fire e he hdue =>
      obtain rfl := EngineAction.fire.inj haction
      exact ⟨e, he, rfl, hdue, rfl⟩

/-- The engine before its first step. -/
structure IsInitial (cfg : EngineConfig) (w : EngineWorld) : Prop where
  loop : Loop.IsInitial cfg.loop w
  pit : w.env.rest.pit = .empty
  cs : w.env.rest.cs.cache = ∅
  events : w.env.rest.events = []
  log : w.env.rest.log = []

/-- A step of a run. -/
structure Step where
  before : EngineWorld
  action : EngineAction
  outcome : Handled

/-- A run with all its steps; an exception ends it. -/
inductive EngineRun (cfg : EngineConfig) (w₀ : EngineWorld) : List Step → Handled → Prop
  | start (h : IsInitial cfg w₀) : EngineRun cfg w₀ [] (.ok w₀)
  | step {steps : List Step} {w : EngineWorld} {a : EngineAction} {r : Handled}
      (hrun : EngineRun cfg w₀ steps (.ok w)) (hstep : EngineStep cfg w a r) :
      EngineRun cfg w₀ (steps ++ [⟨w, a, r⟩]) r

/-! ## Handlers and the loop -/

/-- An Interest that waits for its delay has the encoding it was decoded from. -/
def IsEncoded : EngineEvent → Prop
  | .processInterestAfterDelay _ interest _ => interest.hasWire = true
  | _ => True

/-- What every handler of the engine keeps: a run of the loop goes on, no time passes,
no event is scheduled in the past, and every Interest that waits for its delay is
encoded. -/
structure Moves (cfg : EngineConfig) (w w' : EngineWorld) : Prop where
  loop : Loop.Continues cfg.loop w w'
  now : w'.clock.now = w.clock.now
  due : (∀ e ∈ w.env.rest.events, w.clock.now ≤ e.ts) →
    ∀ e ∈ w'.env.rest.events, w.clock.now ≤ e.ts
  encoded : (∀ e ∈ w.env.rest.events, IsEncoded e.event) →
    ∀ e ∈ w'.env.rest.events, IsEncoded e.event

theorem Moves.refl (cfg : EngineConfig) (w : EngineWorld) : Moves cfg w w :=
  ⟨Loop.Continues.refl w, rfl, fun h => h, fun h => h⟩

theorem Moves.trans {w'' : EngineWorld} (h : Moves cfg w w') (h' : Moves cfg w' w'') :
    Moves cfg w w'' := by
  refine ⟨h.loop.trans h'.loop, h'.now.trans h.now, fun hdue => ?_,
    fun hencoded => h'.encoded (h.encoded hencoded)⟩
  have hlater := h'.due
  rw [h.now] at hlater
  exact hlater (h.due hdue)

theorem moves_modify (cfg : EngineConfig) {f : EngineState → EngineState}
    (w : EngineWorld)
    (hevents : ∀ s, (f s).events = s.events) :
    Moves cfg w (modify f w) := by
  refine ⟨Loop.continues_rest (Nat.le_refl _) _, rfl, fun hdue e he => hdue e ?_,
    fun hencoded e he => hencoded e ?_⟩
  · simpa only [modify, hevents] using he
  · simpa only [modify, hevents] using he

theorem moves_count (cfg : EngineConfig) (c : EngineCounter) (w : EngineWorld) :
    Moves cfg w (count c w) :=
  moves_modify cfg w fun _ => rfl

theorem moves_note (cfg : EngineConfig) (o : EngineObs) (w : EngineWorld) :
    Moves cfg w (note o w) :=
  moves_modify cfg w fun _ => rfl

theorem moves_setPit (cfg : EngineConfig) (pit : PendingInterestTable) (w : EngineWorld) :
    Moves cfg w (setPit pit w) :=
  moves_modify cfg w fun _ => rfl

theorem moves_schedule (cfg : EngineConfig) (delay : Nat) {event : EngineEvent}
    (hevent : IsEncoded event) (w : EngineWorld) : Moves cfg w (schedule delay event w) := by
  refine ⟨Loop.continues_rest (Nat.le_succ _) _, rfl, fun hdue e he => ?_,
    fun hencoded e he => ?_⟩
  · rcases List.mem_append.mp he with he | he
    · exact hdue e he
    · rw [List.mem_singleton.mp he]
      exact Nat.le_add_right _ _
  · rcases List.mem_append.mp he with he | he
    · exact hencoded e he
    · rw [List.mem_singleton.mp he]
      exact hevent

theorem moves_findLongestPrefix (cfg : EngineConfig) (name : Name) (w : EngineWorld) :
    Moves cfg w (LocalRouteController.findLongestPrefix name w).2 :=
  ⟨Loop.Continues.of_step (.findLongestPrefix w name), rfl, fun hdue => hdue, fun h => h⟩

theorem moves_applyTraceUpdate {p : Name} {port seq : Nat} {ttl : Int}
    {r : Bool × EngineWorld} (h : Loop.applyTraceUpdate cfg.loop p port seq ttl w = .ok r) :
    Moves cfg w r.2 := by
  have hkept := Loop.kept_applyTraceUpdate h
  refine ⟨Loop.Continues.of_step (.trace h), hkept.now, fun hdue => ?_, fun hencoded => ?_⟩
  · rw [hkept.rest]
    exact hdue
  · rw [hkept.rest]
    exact hencoded

/-! ## Learning from Trace Data -/

/-- What `handleTraceData` keeps: it drives the loop, refreshes nonces and schedules
transmissions, and leaves the pending Interests, the store and the log alone. -/
structure Learns (cfg : EngineConfig) (w w' : EngineWorld) : Prop extends Moves cfg w w' where
  pit : w'.env.rest.pit = w.env.rest.pit
  cs : w'.env.rest.cs = w.env.rest.cs
  log : w'.env.rest.log = w.env.rest.log

theorem Learns.refl (cfg : EngineConfig) (w : EngineWorld) : Learns cfg w w :=
  ⟨Moves.refl cfg w, rfl, rfl, rfl⟩

theorem Learns.trans {w'' : EngineWorld} (h : Learns cfg w w') (h' : Learns cfg w' w'') :
    Learns cfg w w'' :=
  ⟨h.toMoves.trans h'.toMoves, h'.pit.trans h.pit, h'.cs.trans h.cs, h'.log.trans h.log⟩

theorem learns_count (cfg : EngineConfig) (c : EngineCounter) (w : EngineWorld) :
    Learns cfg w (count c w) :=
  ⟨moves_count cfg c w, rfl, rfl, rfl⟩

theorem learns_schedulePull (cfg : EngineConfig) (retx : Interest) (buffers : Buffers)
    (port : Port) (w : EngineWorld) : Learns cfg w (schedulePull retx buffers port w) := by
  refine ⟨?_, rfl, rfl, rfl⟩
  have hmodified := moves_modify cfg (f := fun s => { s with
    buffers := buffers, words := s.words + 1 }) w fun _ => rfl
  have hevent : IsEncoded (.doDelayedPullSend retx port) := trivial
  exact (hmodified.trans (moves_count cfg _ _)).trans (moves_schedule cfg _ hevent _)

theorem learns_pullAll (cfg : EngineConfig) (port : Port) (pending : List Interest)
    (w : EngineWorld) : Learns cfg w (Handled.world (pullAll cfg port pending w)) := by
  induction pending generalizing w with
  | nil => exact Learns.refl cfg w
  | cons interest rest ih =>
      rw [pullAll]
      split
      · exact Learns.refl cfg w
      · exact (learns_schedulePull cfg _ _ port w).trans (ih _)

theorem learns_pullPendingInterests (cfg : EngineConfig) (p : Name) (port : Port)
    (w : EngineWorld) : Learns cfg w (Handled.world (pullPendingInterests cfg p port w)) :=
  (learns_count cfg _ w).trans (learns_pullAll cfg port _ _)

theorem learns_learnPort (cfg : EngineConfig) (p : Name) (seq : Nat) (lifetime : Int)
    (port : Port) (w : EngineWorld) :
    Learns cfg w (Handled.world (learnPort cfg p seq lifetime port w)) := by
  unfold learnPort
  split
  · exact Learns.refl cfg w
  next updated w₁ hupdate =>
    have hkept := Loop.kept_applyTraceUpdate hupdate
    have hlearns : Learns cfg w w₁ :=
      ⟨moves_applyTraceUpdate hupdate, congrArg EngineState.pit hkept.rest,
        congrArg EngineState.cs hkept.rest, congrArg EngineState.log hkept.rest⟩
    split
    · exact hlearns.trans (learns_pullPendingInterests cfg p port w₁)
    · exact hlearns

theorem learns_learnPorts (cfg : EngineConfig) (p : Name) (seq : Nat) (lifetime : Int)
    (ports : List Port) (w : EngineWorld) :
    Learns cfg w (Handled.world (learnPorts cfg p seq lifetime ports w)) := by
  induction ports generalizing w with
  | nil => exact Learns.refl cfg w
  | cons port rest ih =>
      have hfirst := learns_learnPort cfg p seq lifetime port w
      rw [learnPorts]
      split
      next e heq =>
        rw [heq] at hfirst
        exact hfirst
      next w₁ heq =>
        rw [heq] at hfirst
        exact hfirst.trans (ih w₁)

theorem learns_handleTraceData (cfg : EngineConfig) (data : Data) (ports : Std.TreeSet Port)
    (lifetime : Int) (w : EngineWorld) :
    Learns cfg w (Handled.world (handleTraceData cfg data ports lifetime w)) := by
  unfold handleTraceData
  split
  · exact Learns.refl cfg w
  split
  · exact Learns.refl cfg w
  next seq hseq =>
    simp only
    split
    · exact Learns.refl cfg w
    · exact (learns_count cfg _ w).trans (learns_learnPorts cfg _ seq lifetime _ _)

end ForwardingEngine

end Statim
