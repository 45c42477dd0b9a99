import Statim.Engine.Recovery

/-!
# Loops fed with Trace updates

A loop may be driven by a list of Trace updates over a channel without loss and
with a constant delay on each of its three legs.  The updates that such a loop
is to admit are a function of the list, and a handler of the flow-table
controller has few outcomes: the message lapses, is stale, or moves on to its
next leg.
-/

namespace Statim

open Support

/-- One call of `applyTraceUpdate`.  The simulator runs the call and the SyncAck of the
update before it in scheduling order if both are due at the same time: `late` tells
that the SyncAck comes first. -/
structure TraceInput where
  time : Nat
  pfx : Name
  port : Port
  seq : Nat
  ttl : Int
  late : Bool
deriving DecidableEq, Repr

/-- An update that a loop is to admit. -/
structure PlannedUpdate where
  update : Admission
  late : Bool
deriving DecidableEq, Repr

/-- The delays of PacketIn, FlowMod and SyncAck. -/
structure Legs where
  packetIn : Nat
  flowMod : Nat
  syncAck : Nat
deriving DecidableEq, Repr

/-- From the admission of an update to its completion. -/
def Legs.total (d : Legs) : Nat := d.packetIn + d.flowMod + d.syncAck

/-- From the admission of an update to an event of its exchange. -/
def Legs.arrival (d : Legs) : FlowTableEvent → Nat
  | .acceptControl _ => d.packetIn
  | .attemptFlowMod _ => d.packetIn + d.flowMod
  | .deliverSyncAck _ => d.total

theorem Legs.arrival_le_total (d : Legs) (event : FlowTableEvent) : d.arrival event ≤ d.total := by
  cases event <;> simp only [Legs.arrival, Legs.total] <;> omega

namespace Legs

variable {σ : Type}

/-- A submission draws the delay of the PacketIn, and that of the FlowMod if the PacketIn
arrives at once.  The first draw decides on loss. -/
def OnSubmit (d : Legs) (cfg : FlowTableConfig) (m : ControlMessage) (c : FlowTableWorld σ) :
    Prop :=
  cfg.delay m.pfx (c.ctl.draws m.pfx + 1) = d.packetIn ∧
    (d.packetIn = 0 → m.isExpiredAt c.clock.now = false →
      cfg.delay m.pfx (c.ctl.draws m.pfx + 2) = d.flowMod)

/-- A PacketIn in time draws the delay of the FlowMod, and a FlowMod that is applied draws
the delay of the SyncAck after the draw for its own loss. -/
def OnArrival (d : Legs) (cfg : FlowTableConfig) (event : FlowTableEvent)
    (c : FlowTableWorld σ) : Prop :=
  match event with
  | .acceptControl m => m.isExpiredAt c.clock.now = false →
      cfg.delay m.pfx (c.ctl.draws m.pfx) = d.flowMod
  | .attemptFlowMod m => m.isExpiredAt c.clock.now = false →
      (cfg.generationGuardEnabled && FlowTableController.isStaleFlowMod m c.ctl) = false →
        cfg.delay m.pfx (c.ctl.draws m.pfx + 1) = d.syncAck
  | .deliverSyncAck _ => True

end Legs

namespace Loop

open LocalRouteController FlowTableController

variable {ε : Type} {cfg cfg' : LoopConfig} {d : Legs} {w w' : LoopWorld ε}
  {c c' c'' : FlowTableWorld (CentralEnv ε)} {m : ControlMessage} {u : Admission} {p : Name}
  {feed : List TraceInput} {x : TraceInput}

/-! ## Planned updates -/

/-- `applyTraceUpdate` throws. -/
def throws (cfg : LoopConfig) (x : TraceInput) : Bool :=
  decide (x.ttl < 0) || (decide (0 < wrap64 (x.ttl * 1000)) &&
    decide (0 < cfg.temporary.entryLifetime) &&
    decide (wrap64 (x.ttl * 1000) ≠ cfg.temporary.entryLifetime))

/-- The update that an input asks for after the given ones. -/
def planUpdate (cfg : LoopConfig) (plan : List PlannedUpdate) (x : TraceInput) : Admission where
  pfx := x.pfx
  nameHashes := PacketHeader.hashesOf cfg.stdHash x.pfx
  prefixLen := min x.pfx.length nameHashCount
  port := x.port
  seq := x.seq
  lifetime := grantedLifetime cfg.temporary x.ttl
  time := x.time
  origin := plan.countP fun a => decide (a.update.pfx = x.pfx)

/-- One more input. -/
def extendPlan (cfg : LoopConfig) (plan : List PlannedUpdate) (x : TraceInput) :
    List PlannedUpdate :=
  if throws cfg x then plan else plan ++ [⟨planUpdate cfg plan x, x.late⟩]

/-- The updates that the inputs ask for, without those that throw. -/
def planned (cfg : LoopConfig) (feed : List TraceInput) : List PlannedUpdate :=
  feed.foldl (extendPlan cfg) []

theorem planned_snoc (cfg : LoopConfig) (feed : List TraceInput) (x : TraceInput) :
    planned cfg (feed ++ [x]) = extendPlan cfg (planned cfg feed) x := by
  rw [planned, List.foldl_append]
  rfl

/-- The plan depends on the hash function and the configured lifetime only. -/
theorem planned_congr (hhash : cfg'.stdHash = cfg.stdHash)
    (hlife : cfg'.temporary.entryLifetime = cfg.temporary.entryLifetime)
    (feed : List TraceInput) : planned cfg' feed = planned cfg feed := by
  have hextend : extendPlan cfg' = extendPlan cfg := by
    funext plan x
    have hthrows : throws cfg' x = throws cfg x := by simp only [throws, hlife]
    have hupdate : planUpdate cfg' plan x = planUpdate cfg plan x := by
      simp only [planUpdate, grantedLifetime, hhash, hlife]
    rw [extendPlan, extendPlan, hthrows, hupdate]
  rw [planned, planned, hextend]

/-- All updates admitted, oldest first. -/
def updates (log : List LocalObs) : List Admission :=
  log.filterMap fun o =>
    match o with
    | .admitted u => some u
    | _ => none

theorem updates_append (log news : List LocalObs) :
    updates (log ++ news) = updates log ++ updates news := by
  simp [updates]

theorem mem_updates {log : List LocalObs} : u ∈ updates log ↔ .admitted u ∈ log := by
  simp only [updates, List.mem_filterMap]
  constructor
  · rintro ⟨o, ho, heq⟩
    cases o with
    | admitted v =>
        obtain rfl := Option.some.inj heq
        exact ho
    | request t m => cases heq
    | completed t m s d ports => cases heq
    | withdrawn t q s => cases heq
  · exact fun hu => ⟨_, hu, rfl⟩

/-- The admissions of one prefix, in order. -/
theorem admissions_eq_filter (log : List LocalObs) (p : Name) :
    admissions log p = (updates log).filter fun u => decide (u.pfx = p) := by
  induction log with
  | nil => rfl
  | cons o log ih =>
      simp only [admissions, updates] at ih ⊢
      cases o with
      | admitted u =>
          by_cases hu : u.pfx = p
          · simpa [hu] using ih
          · simpa [hu] using ih
      | request t m => simpa using ih
      | completed t m s d ports => simpa using ih
      | withdrawn t q s => simpa using ih

/-! ## Runs -/

/-- The call runs before or after the SyncAck of the latest update of its prefix, as it
says, if the two are due at the same time. -/
def TieBreak (d : Legs) (x : TraceInput) (w : LoopWorld ε) : Prop :=
  ∀ u, lastAdmission w.log x.pfx = some u → u.time + d.total = w.clock.now →
    (x.late = true → ∀ e ∈ w.env.central.events, e.event.message ≠ u.packetIn) ∧
    (x.late = false → ∀ t, .acked t { u.packetIn with type := .syncAck } ∉ w.env.history)

/-- The runs of a loop that is fed with Trace updates, with the given delays on its legs.
No message is duplicated. -/
inductive FedRun (cfg : LoopConfig) (d : Legs) (w₀ : LoopWorld ε) :
    List TraceInput → LoopWorld ε → Prop
  | start (h : IsInitial cfg w₀) : FedRun cfg d w₀ [] w₀
  | trace {feed : List TraceInput} {w : LoopWorld ε} (h : FedRun cfg d w₀ feed w)
      (x : TraceInput) (htime : x.time = w.clock.now) (htie : TieBreak d x w)
      (hlegs : throws cfg x = false → d.OnSubmit cfg.central
        (planUpdate cfg (planned cfg feed) x).packetIn (toCentral w)) :
      FedRun cfg d w₀ (feed ++ [x]) (traced cfg x.pfx x.port x.seq x.ttl w)
  | timer {feed : List TraceInput} {w : LoopWorld ε} (h : FedRun cfg d w₀ feed w)
      {e : Scheduled LocalEvent} (he : e ∈ w.ctl.events) (hdue : IsDue w e.key) :
      FedRun cfg d w₀ feed
        (LocalRouteController.fire cfg.temporary (temporaryCallbacks cfg) e w)
  | message {feed : List TraceInput} {w : LoopWorld ε} (h : FedRun cfg d w₀ feed w)
      {e : Scheduled FlowTableEvent} (he : e ∈ w.env.central.events) (hdue : IsDue w e.key)
      (hlegs : d.OnArrival cfg.central e.event (FlowTableController.take e (toCentral w))) :
      FedRun cfg d w₀ feed (toTemporary
        (FlowTableController.fire cfg.central (centralCallbacks cfg) e (toCentral w)))
  | findExact {feed : List TraceInput} {w : LoopWorld ε} (h : FedRun cfg d w₀ feed w)
      (pfx : Name) : FedRun cfg d w₀ feed (LocalRouteController.findExact pfx w).2
  | findLongestPrefix {feed : List TraceInput} {w : LoopWorld ε} (h : FedRun cfg d w₀ feed w)
      (name : Name) : FedRun cfg d w₀ feed (LocalRouteController.findLongestPrefix name w).2
  | idle {feed : List TraceInput} {w : LoopWorld ε} (h : FedRun cfg d w₀ feed w) (clock : Clock)
      (hnow : w.clock.now ≤ clock.now) (huid : w.clock.uid ≤ clock.uid)
      (hdue : ∀ e ∈ w.ctl.events, clock.now ≤ e.ts)
      (hdue' : ∀ e ∈ w.env.central.events, clock.now ≤ e.ts) (rest : ε) :
      FedRun cfg d w₀ feed { w with clock := clock, env := { w.env with rest := rest } }

/-- A fed run is a run of the loop. -/
theorem FedRun.loopRun {w₀ : LoopWorld ε} (h : FedRun cfg d w₀ feed w) : LoopRun cfg w₀ w := by
  induction h with
  | start h => exact ⟨h, .refl⟩
  | trace _ x _ _ _ ih => exact ⟨ih.1, ih.2.trans (steps_traced _ _ _ _ _ _)⟩
  | timer _ he hdue ih => exact ⟨ih.1, ih.2.tail (.fireTemporary he hdue)⟩
  | message _ he hdue _ ih => exact ⟨ih.1, ih.2.tail (.fireCentral he hdue)⟩
  | findExact _ pfx ih => exact ⟨ih.1, ih.2.tail (.findExact _ pfx)⟩
  | findLongestPrefix _ name ih => exact ⟨ih.1, ih.2.tail (.findLongestPrefix _ name)⟩
  | idle _ clock hnow huid hdue hdue' rest ih =>
      exact ⟨ih.1, ih.2.tail (.idle clock hnow huid hdue hdue' rest)⟩

/-- No message is lost, and no request is retried. -/
structure Lossless (cfg : LoopConfig) : Prop where
  kept : ∀ p n, cfg.central.drop p n = false
  noRetries : ¬0 < cfg.temporary.controllerRetryTimeout

end Loop

end Statim
