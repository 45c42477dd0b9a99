import Statim.Control.FlowTableActions
import Statim.Control.FlowTableRuns
import Statim.Pipeline.Dispatch

/-!
# The closed control loop

`ForwardingEngine` connects the two controllers and the switch: a request of the
local controller is a PacketIn of the flow-table controller, whose FlowMods
write the flow-table FIB and whose SyncAcks come back as responses.

The loop is the local controller in an environment that holds the rest of the
engine.  Seen from the flow-table controller the same state is its own world,
with the local controller in the environment; `toCentral` and `toTemporary`
change the point of view and nothing else.  What the loop does not touch of
the engine is a parameter `ε`.
-/

namespace Statim

open Support

/-- The settings of the loop.  `stdHash` and `std` are the two functions of the
standard library that the language leaves open. -/
structure LoopConfig where
  temporary : LocalConfig
  central : FlowTableConfig
  stdHash : Bytes → Nat
  std : EntrySort

/-- The surroundings of the local controller. -/
structure LoopEnv (ε : Type) where
  central : FlowTableController
  history : List FlowTableObs
  switch : SwitchPipeline
  flowTableUpdatesApplied : Nat
  traceUpdatesAccepted : Nat
  rest : ε

abbrev LoopWorld (ε : Type) := LocalWorld (LoopEnv ε)

/-- The surroundings of the flow-table controller. -/
structure CentralEnv (ε : Type) where
  ctl : LocalRouteController
  log : List LocalObs
  switch : SwitchPipeline
  flowTableUpdatesApplied : Nat
  traceUpdatesAccepted : Nat
  rest : ε

namespace Loop

variable {ε : Type}

/-! ## Wiring -/

def toCentral (w : LoopWorld ε) : FlowTableWorld (CentralEnv ε) where
  clock := w.clock
  ctl := w.env.central
  log := w.env.history
  env :=
    { ctl := w.ctl
      log := w.log
      switch := w.env.switch
      flowTableUpdatesApplied := w.env.flowTableUpdatesApplied
      traceUpdatesAccepted := w.env.traceUpdatesAccepted
      rest := w.env.rest }

def toTemporary (w : FlowTableWorld (CentralEnv ε)) : LoopWorld ε where
  clock := w.clock
  ctl := w.env.ctl
  log := w.env.log
  env :=
    { central := w.ctl
      history := w.log
      switch := w.env.switch
      flowTableUpdatesApplied := w.env.flowTableUpdatesApplied
      traceUpdatesAccepted := w.env.traceUpdatesAccepted
      rest := w.env.rest }

@[simp] theorem toTemporary_toCentral (w : LoopWorld ε) : toTemporary (toCentral w) = w := rfl

@[simp] theorem toCentral_toTemporary (w : FlowTableWorld (CentralEnv ε)) :
    toCentral (toTemporary w) = w := rfl

/-- `ForwardingEngine::onFlowTableFlowMod`. -/
def onFlowTableFlowMod (cfg : LoopConfig) (message : ControlMessage)
    (w : FlowTableWorld (CentralEnv ε)) : Bool × FlowTableWorld (CentralEnv ε) :=
  if message.isExpiredAt w.clock.now then (false, w)
  else (true, { w with env := { w.env with
    flowTableUpdatesApplied := w.env.flowTableUpdatesApplied + 1
    switch := w.env.switch.installFibEntry cfg.std message.nameHashes message.outputPort
      message.routeExpiry (some (message.pfx, message.origin)) } })

/-- The engine sets no completion callback, and a response never calls the request
callback. -/
def noCallbacks : LocalCallbacks (LoopEnv ε) where
  request := none
  complete := none

/-- The SyncAck callback: the local controller handles the response. -/
def onSyncAck (cfg : LoopConfig) (message : ControlMessage)
    (w : FlowTableWorld (CentralEnv ε)) : FlowTableWorld (CentralEnv ε) :=
  toCentral (LocalRouteController.handleControlResponse cfg.temporary noCallbacks message
    (toTemporary w)).2

def centralCallbacks (cfg : LoopConfig) : FlowTableCallbacks (CentralEnv ε) where
  apply := some (onFlowTableFlowMod cfg)
  syncAck := some (onSyncAck cfg)

/-- The request callback: the flow-table controller gets the PacketIn. -/
def onRequest (cfg : LoopConfig) (message : ControlMessage) (w : LoopWorld ε) : LoopWorld ε :=
  toTemporary (FlowTableController.submitFlowUpdate cfg.central (centralCallbacks cfg) message
    (toCentral w))

def temporaryCallbacks (cfg : LoopConfig) : LocalCallbacks (LoopEnv ε) where
  request := some (onRequest cfg)
  complete := none

/-- `StatefulForwarder::applyTraceUpdate`. -/
def applyTraceUpdate (cfg : LoopConfig) (pfx : Name) (portNumber : Port) (seq : Nat)
    (ttl : Int) (w : LoopWorld ε) : Except String (Bool × LoopWorld ε) :=
  match LocalRouteController.applyTraceUpdate cfg.temporary (temporaryCallbacks cfg) pfx
    (PacketHeader.hashesOf cfg.stdHash pfx) (min pfx.length nameHashCount) portNumber seq ttl
    w with
  | .error message => .error message
  | .ok (false, w) => .ok (false, w)
  | .ok (true, w) => .ok (true, { w with env := { w.env with
      traceUpdatesAccepted := w.env.traceUpdatesAccepted + 1 } })

/-! ## Route selection -/

/-- The ports of a temporary entry. -/
def hopPorts (entry : ForwardingEntry) : List Port :=
  entry.nextHops.toList.map fun hop => hop.2.port

/-- The header that `processInterestAfterDelay` hands to the pipeline, given what the
temporary FIB returned; `none` is the early return for an entry without hops. -/
def routeHeader (stdHash : Bytes → Nat) (enableTemporaryFib : Bool) (name : Name)
    (entry : Option ForwardingEntry) (header : PacketHeader) : Option PacketHeader :=
  let header := (header.computeNameHashes stdHash name).setType PacketType.interest
  match entry with
  | some entry =>
    if enableTemporaryFib then
      if hopPorts entry = [] then none
      else some (header.setOutPorts (encodeOutPortsMask (hopPorts entry)))
    else some (header.setOutPorts 0)
  | none => some (header.setOutPorts 0)

/-- Route selection of `processInterestAfterDelay`: the temporary FIB first, then the
pipeline with its flow-table FIB. -/
def selectRoute (cfg : LoopConfig) (enableTemporaryFib : Bool) (name : Name)
    (header : PacketHeader) (w : LoopWorld ε) : Option PipelineResult × LoopWorld ε :=
  let found := LocalRouteController.findLongestPrefix name w
  let result := (routeHeader cfg.stdHash enableTemporaryFib name found.1 header).map
    (found.2.env.switch.processPacket found.2.clock.now)
  (result, found.2)

/-! ## Runs -/

/-- Nothing in either queue runs before this key. -/
def IsDue (w : LoopWorld ε) (key : Nat × Nat) : Prop :=
  (∀ e ∈ w.ctl.events, Precedes key e.key) ∧ ∀ e ∈ w.env.central.events, Precedes key e.key

instance (w : LoopWorld ε) (key : Nat × Nat) : Decidable (IsDue w key) :=
  inferInstanceAs (Decidable (_ ∧ _))

/-- One step of the loop.  The channel may also deliver a message in flight twice. -/
inductive LoopStep (cfg : LoopConfig) : LoopWorld ε → LoopWorld ε → Prop
  | trace {w : LoopWorld ε} {pfx : Name} {port : Port} {seq : Nat} {ttl : Int}
      {r : Bool × LoopWorld ε} (h : applyTraceUpdate cfg pfx port seq ttl w = .ok r) :
      LoopStep cfg w r.2
  | fireTemporary {w : LoopWorld ε} {e : Scheduled LocalEvent} (he : e ∈ w.ctl.events)
      (hdue : IsDue w e.key) :
      LoopStep cfg w (LocalRouteController.fire cfg.temporary (temporaryCallbacks cfg) e w)
  | fireCentral {w : LoopWorld ε} {e : Scheduled FlowTableEvent}
      (he : e ∈ w.env.central.events) (hdue : IsDue w e.key) :
      LoopStep cfg w (toTemporary
        (FlowTableController.fire cfg.central (centralCallbacks cfg) e (toCentral w)))
  | duplicate {w : LoopWorld ε} {e : Scheduled FlowTableEvent}
      (he : e ∈ w.env.central.events) (delay : Nat) :
      LoopStep cfg w
        (toTemporary (FlowTableController.schedule delay e.event (toCentral w)))
  | findExact (w : LoopWorld ε) (pfx : Name) :
      LoopStep cfg w (LocalRouteController.findExact pfx w).2
  | findLongestPrefix (w : LoopWorld ε) (name : Name) :
      LoopStep cfg w (LocalRouteController.findLongestPrefix name w).2
  | idle {w : LoopWorld ε} (clock : Clock) (hnow : w.clock.now ≤ clock.now)
      (huid : w.clock.uid ≤ clock.uid) (hdue : ∀ e ∈ w.ctl.events, clock.now ≤ e.ts)
      (hdue' : ∀ e ∈ w.env.central.events, clock.now ≤ e.ts) (rest : ε) :
      LoopStep cfg w { w with clock := clock, env := { w.env with rest := rest } }

/-- The switch after set-up: any routes for hash tuples of names, none of them from
the control loop. -/
inductive SetUp (std : EntrySort) : SwitchPipeline → Prop
  | init : SetUp std (SwitchPipeline.initPipeline std)
  | install {sw : SwitchPipeline} {nameHashes : Bytes}
      (hlead : SwitchPipeline.Leading nameHashes) (port : Port) (expiry : Time) :
      SetUp std sw → SetUp std (sw.installFibEntry std nameHashes port expiry none)
  | remove {sw : SwitchPipeline} (nameHashes : Bytes) :
      SetUp std sw → SetUp std (sw.removeFibEntry nameHashes)

/-- The loop before its first step. -/
structure IsInitial (cfg : LoopConfig) (w : LoopWorld ε) : Prop where
  temporary : LocalRouteController.IsFresh w
  central : FlowTableController.IsFresh (toCentral w)
  switch : SetUp cfg.std w.env.switch

/-- The states that runs of the loop reach from one initial state. -/
def LoopRun (cfg : LoopConfig) (w₀ w : LoopWorld ε) : Prop :=
  IsInitial cfg w₀ ∧ Relation.ReflTransGen (LoopStep cfg) w₀ w

/-! ## Sample runs -/

/-- A loop without loss and without retries. -/
def losslessConfig (guard : Bool) (delay : Nat → Nat) : LoopConfig where
  temporary :=
    { entryLifetime := 0
      controllerRetryTimeout := 0
      controllerRetryLimit := 0
      generationGuardEnabled := guard }
  central := { generationGuardEnabled := guard, drop := fun _ _ => false, delay := fun _ => delay }
  stdHash bytes := bytes.length
  std := EntrySort.mergeSort

def startWorld : LoopWorld Unit where
  clock := ⟨0, 0⟩
  ctl := {}
  log := []
  env :=
    { central := {}
      history := []
      switch := SwitchPipeline.initPipeline EntrySort.mergeSort
      flowTableUpdatesApplied := 0
      traceUpdatesAccepted := 0
      rest := () }

/-- The world after a Trace update that does not throw. -/
def traced (cfg : LoopConfig) (pfx : Name) (port : Port) (seq : Nat) (ttl : Int)
    (w : LoopWorld ε) : LoopWorld ε :=
  match applyTraceUpdate cfg pfx port seq ttl w with
  | .error _ => w
  | .ok r => r.2

/-- The world after the first event in the queue of the flow-table controller. -/
def fireFirst (cfg : LoopConfig) (w : LoopWorld ε) : LoopWorld ε :=
  match w.env.central.events with
  | [] => w
  | e :: _ =>
    toTemporary (FlowTableController.fire cfg.central (centralCallbacks cfg) e (toCentral w))

def samplePrefix : Name := [.generic [0x61]]

/-- The guarded loop without delay. -/
def promptConfig : LoopConfig := losslessConfig true fun _ => 0

/-- An update with a lease of five microseconds. -/
def sampleUpdate : Admission where
  pfx := samplePrefix
  nameHashes := [1, 0xff, 0xff, 0xff]
  prefixLen := 1
  port := 3
  seq := 1
  lifetime := 5000
  time := 0
  origin := 0

/-- The update is admitted, and its FlowMod is in flight. -/
def admittedWorld : LoopWorld Unit := traced promptConfig samplePrefix 3 1 5 startWorld

/-- The FlowMod is applied, and its SyncAck has completed the update. -/
def installedWorld : LoopWorld Unit := fireFirst promptConfig admittedWorld

/-- The lease has run out. -/
def elapsedWorld : LoopWorld Unit :=
  { installedWorld with clock := ⟨6000, installedWorld.clock.uid⟩ }

theorem isInitial_startWorld (guard : Bool) (delay : Nat → Nat) :
    IsInitial (losslessConfig guard delay) startWorld :=
  ⟨⟨rfl, rfl⟩, ⟨rfl, rfl, rfl⟩, .init⟩

theorem steps_traced (cfg : LoopConfig) (pfx : Name) (port : Port) (seq : Nat) (ttl : Int)
    (w : LoopWorld ε) :
    Relation.ReflTransGen (LoopStep cfg) w (traced cfg pfx port seq ttl w) := by
  unfold traced
  split
  · exact .refl
  next r hr => exact .single (.trace hr)

theorem steps_fireFirst (cfg : LoopConfig) {w : LoopWorld ε}
    (hdue : ∀ e ∈ w.env.central.events.head?, IsDue w e.key) :
    Relation.ReflTransGen (LoopStep cfg) w (fireFirst cfg w) := by
  unfold fireFirst
  split
  · exact .refl
  next e rest hevents =>
    refine .single (.fireCentral ?_ (hdue e (by rw [hevents]; rfl)))
    rw [hevents]
    exact List.mem_cons_self

theorem run_admittedWorld : LoopRun promptConfig startWorld admittedWorld :=
  ⟨isInitial_startWorld _ _, steps_traced _ _ _ _ _ _⟩

theorem run_installedWorld : LoopRun promptConfig startWorld installedWorld :=
  ⟨run_admittedWorld.1, run_admittedWorld.2.trans (steps_fireFirst promptConfig (by decide))⟩

theorem run_elapsedWorld : LoopRun promptConfig startWorld elapsedWorld := by
  have hnow : installedWorld.clock.now ≤ elapsedWorld.clock.now := by decide
  have hdue : ∀ e ∈ installedWorld.ctl.events, elapsedWorld.clock.now ≤ e.ts := by decide
  have hdue' : ∀ e ∈ installedWorld.env.central.events, elapsedWorld.clock.now ≤ e.ts := by
    decide
  have hidle : LoopStep promptConfig installedWorld elapsedWorld :=
    .idle elapsedWorld.clock hnow (Nat.le_refl _) hdue hdue' ()
  exact ⟨run_installedWorld.1, run_installedWorld.2.tail hidle⟩

end Loop

end Statim
