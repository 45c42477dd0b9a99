import Statim.Engine.Exchange
import Statim.Support.FifoLanes

/-!
# The timeline of an exchange

With constant delays every message of a fed loop arrives at a time that its update
alone determines, and the messages of one prefix overtake one another on no leg.
So the flow-table controller accepts, applies and acknowledges the updates of a
prefix in the order of their admission, with the guard or without it.
-/

namespace Statim

open Support

namespace Loop

open LocalRouteController FlowTableController

variable {ε : Type} {cfg : LoopConfig} {d : Legs} {m : ControlMessage} {u v : Admission}
  {log log' : List LocalObs} {now now' : Nat} {events : List (Scheduled FlowTableEvent)}
  {history : List FlowTableObs} {event : FlowTableEvent} {e : Scheduled FlowTableEvent}

/-- How far the exchange has come. -/
def controlStage : FlowTableEvent → Nat
  | .acceptControl _ => 0
  | .attemptFlowMod _ => 1
  | .deliverSyncAck _ => 2

/-- The messages of a prefix travel in one lane, in the order of their updates. -/
def controlLanes : Lanes FlowTableEvent Name where
  lane event := event.message.pfx
  stage := controlStage
  rank event := event.message.origin

theorem arrival_congr {a b : FlowTableEvent} (h : controlStage a = controlStage b) :
    d.arrival a = d.arrival b := by
  cases a <;> cases b <;> first | rfl | exact absurd h (by simp [controlStage])

/-- Later updates of a prefix are not earlier in time. -/
def Chronological (log : List LocalObs) : Prop :=
  ∀ u v, .admitted u ∈ log → .admitted v ∈ log → u.pfx = v.pfx → u.origin < v.origin →
    u.time ≤ v.time

/-! ## The invariant -/

/-- What the messages in flight and the history of the flow-table controller look like. -/
structure Exchanges (d : Legs) (log : List LocalObs) (now : Nat)
    (events : List (Scheduled FlowTableEvent)) (history : List FlowTableObs) : Prop where
  inFlight : ∀ e ∈ events, ∃ u, .admitted u ∈ log ∧ e.event.message = u.packetIn ∧
    e.ts = u.time + d.arrival e.event
  entered : ∀ e ∈ events, controlStage e.event = 0 → d.packetIn ≠ 0
  order : InOrder controlLanes events
  accepted : ∀ m, .accepted m ∈ history → ∀ e ∈ events, e.event.message.pfx = m.pfx →
    controlStage e.event = 0 → m.origin < e.event.message.origin
  applied : ∀ m, .applied m ∈ history → ∀ e ∈ events, e.event.message.pfx = m.pfx →
    controlStage e.event ≤ 1 → m.origin < e.event.message.origin
  installs : ∀ p, (appliedMessages history p).Pairwise fun m m' => m.origin < m'.origin
  acked : ∀ t m, .acked t m ∈ history → ∃ u, .admitted u ∈ log ∧
    m = { u.packetIn with type := .syncAck } ∧ t = u.time + d.total ∧ t ≤ now

theorem exchanges_nil (d : Legs) (log : List LocalObs) (now : Nat) :
    Exchanges d log now [] [] where
  inFlight := by simp
  entered := by simp
  order := InOrder.nil _
  accepted := by simp
  applied := by simp
  installs := by simp [appliedMessages]
  acked := by simp

/-- More observations of the local controller, and a later time. -/
theorem Exchanges.mono (h : Exchanges d log now events history) (hlog : ∀ o ∈ log, o ∈ log')
    (hnow : now ≤ now') : Exchanges d log' now' events history where
  inFlight e he := by
    obtain ⟨u, hu, hmessage, hts⟩ := h.inFlight e he
    exact ⟨u, hlog _ hu, hmessage, hts⟩
  entered := h.entered
  order := h.order
  accepted := h.accepted
  applied := h.applied
  installs := h.installs
  acked t m hm := by
    obtain ⟨u, hu, hmessage, ht, hpast⟩ := h.acked t m hm
    exact ⟨u, hlog _ hu, hmessage, ht, Nat.le_trans hpast hnow⟩

theorem Exchanges.cancel (h : Exchanges d log now events history) (uid : Nat) :
    Exchanges d log now (Support.cancel uid events) history where
  inFlight e he := h.inFlight e (mem_cancel.mp he).1
  entered e he := h.entered e (mem_cancel.mp he).1
  order := h.order.cancel uid
  accepted m hm e he := h.accepted m hm e (mem_cancel.mp he).1
  applied m hm e he := h.applied m hm e (mem_cancel.mp he).1
  installs := h.installs
  acked := h.acked

/-! ## A message in hand -/

/-- The request of `u` has come as far as `event`, which is being handled now. -/
structure InHand (d : Legs) (u : Admission) (event : FlowTableEvent) (log : List LocalObs)
    (now : Nat) (events : List (Scheduled FlowTableEvent)) (history : List FlowTableObs) :
    Prop where
  admitted : .admitted u ∈ log
  message : event.message = u.packetIn
  now : now = u.time + d.arrival event
  fits : Fits controlLanes (controlStage event + 1) event events
  accepted : controlStage event = 0 → ∀ m, .accepted m ∈ history → m.pfx = u.pfx →
    m.origin < u.origin
  applied : controlStage event ≤ 1 → ∀ m, .applied m ∈ history → m.pfx = u.pfx →
    m.origin < u.origin

/-- Taking the next event off the queue puts its message in hand. -/
theorem Exchanges.inHand (h : Exchanges d log now events history) (he : e ∈ events)
    (hnext : ∀ b ∈ events, Precedes e.key b.key) :
    ∃ u, InHand d u e.event log e.ts (Support.cancel e.uid events) history := by
  obtain ⟨u, hu, hmessage, hts⟩ := h.inFlight e he
  have hpfx : e.event.message.pfx = u.pfx := congrArg ControlMessage.pfx hmessage
  have horigin : e.event.message.origin = u.origin := congrArg ControlMessage.origin hmessage
  refine ⟨u, hu, hmessage, hts, h.order.fits_of_next he hnext, fun hstage m hm hmp => ?_,
    fun hstage m hm hmp => ?_⟩
  · have hlt := h.accepted m hm e he (hpfx.trans hmp.symm) hstage
    rwa [horigin] at hlt
  · have hlt := h.applied m hm e he (hpfx.trans hmp.symm) hstage
    rwa [horigin] at hlt

/-- The message goes on its next leg. -/
theorem Exchanges.push (h : Exchanges d log now events history)
    (hfits : Fits controlLanes (controlStage e.event) e.event events)
    (hchron : Chronological log) (hu : .admitted u ∈ log)
    (hmessage : e.event.message = u.packetIn) (hts : e.ts = u.time + d.arrival e.event)
    (hentered : controlStage e.event = 0 → d.packetIn ≠ 0)
    (haccepted : controlStage e.event = 0 → ∀ m, .accepted m ∈ history → m.pfx = u.pfx →
      m.origin < u.origin)
    (happlied : controlStage e.event ≤ 1 → ∀ m, .applied m ∈ history → m.pfx = u.pfx →
      m.origin < u.origin)
    (huid : ∀ b ∈ events, b.uid < e.uid) :
    Exchanges d log now (events ++ [e]) history := by
  have hpfx : e.event.message.pfx = u.pfx := congrArg ControlMessage.pfx hmessage
  have horigin : e.event.message.origin = u.origin := congrArg ControlMessage.origin hmessage
  refine { h with inFlight := ?_, entered := ?_, order := ?_, accepted := ?_, applied := ?_ }
  · intro b hb
    rw [List.mem_append, List.mem_singleton] at hb
    rcases hb with hb | rfl
    · exact h.inFlight b hb
    · exact ⟨u, hu, hmessage, hts⟩
  · intro b hb
    rw [List.mem_append, List.mem_singleton] at hb
    rcases hb with hb | rfl
    · exact h.entered b hb
    · exact hentered
  · refine h.order.push hfits (fun b hb hlane hstage hrank => ?_) huid
    obtain ⟨v, hv, hcarried, hbts⟩ := h.inFlight b hb
    have hvpfx : b.event.message.pfx = v.pfx := congrArg ControlMessage.pfx hcarried
    have hvorigin : b.event.message.origin = v.origin := congrArg ControlMessage.origin hcarried
    have hlane : b.event.message.pfx = e.event.message.pfx := hlane
    have hrank : b.event.message.origin < e.event.message.origin := hrank
    have htime : v.time ≤ u.time := by
      refine hchron v u hv hu ?_ ?_
      · rw [← hvpfx, ← hpfx, hlane]
      · rwa [← hvorigin, ← horigin]
    have harrival : d.arrival b.event = d.arrival e.event := arrival_congr hstage
    omega
  · intro m hm b hb hmp hstage
    rw [List.mem_append, List.mem_singleton] at hb
    rcases hb with hb | rfl
    · exact h.accepted m hm b hb hmp hstage
    · rw [horigin]
      exact haccepted hstage m hm (hmp.symm.trans hpfx)
  · intro m hm b hb hmp hstage
    rw [List.mem_append, List.mem_singleton] at hb
    rcases hb with hb | rfl
    · exact h.applied m hm b hb hmp hstage
    · rw [horigin]
      exact happlied hstage m hm (hmp.symm.trans hpfx)

/-- A message that still has to pass the stage in hand belongs to a later update. -/
theorem InHand.lt_of_stage (h : InHand d u event log now events history)
    {b : Scheduled FlowTableEvent} (hb : b ∈ events) (hpfx : b.event.message.pfx = u.pfx)
    (hstage : controlStage b.event ≤ controlStage event) :
    u.origin < b.event.message.origin := by
  have hlane : b.event.message.pfx = event.message.pfx := by
    rw [hpfx, h.message]
    rfl
  have horigin : event.message.origin = u.origin := congrArg ControlMessage.origin h.message
  rcases h.fits b hb hlane with ⟨-, hpast⟩ | ⟨hlt, -⟩
  · have hpast : controlStage event + 1 ≤ controlStage b.event := hpast
    omega
  · have hlt : event.message.origin < b.event.message.origin := hlt
    rwa [horigin] at hlt

theorem Exchanges.accept (h : Exchanges d log now events history)
    (hhand : InHand d u (.acceptControl u.packetIn) log now events history) :
    Exchanges d log now events (history ++ [.accepted u.packetIn]) := by
  refine { h with accepted := ?_, applied := ?_, installs := ?_, acked := ?_ }
  · intro m hm b hb hmp hstage
    simp only [List.mem_append, List.mem_singleton, FlowTableObs.accepted.injEq] at hm
    rcases hm with hm | rfl
    · exact h.accepted m hm b hb hmp hstage
    · exact hhand.lt_of_stage hb hmp (Nat.le_of_eq hstage)
  · intro m hm
    exact h.applied m (by simpa using hm)
  · intro p
    rw [appliedMessages_append]
    simpa [appliedMessages] using h.installs p
  · intro t m hm
    exact h.acked t m (by simpa using hm)

theorem Exchanges.apply (h : Exchanges d log now events history)
    (hhand : InHand d u (.attemptFlowMod u.packetIn) log now events history) :
    Exchanges d log now events (history ++ [.applied { u.packetIn with type := .flowMod }]) := by
  refine { h with accepted := ?_, applied := ?_, installs := ?_, acked := ?_ }
  · intro m hm
    exact h.accepted m (by simpa using hm)
  · intro m hm b hb hmp hstage
    simp only [List.mem_append, List.mem_singleton, FlowTableObs.applied.injEq] at hm
    rcases hm with hm | rfl
    · exact h.applied m hm b hb hmp hstage
    · exact hhand.lt_of_stage hb hmp hstage
  · intro p
    rw [appliedMessages_append]
    by_cases hp : u.pfx = p
    · subst hp
      have hone : appliedMessages [.applied { u.packetIn with type := .flowMod }] u.pfx =
          [{ u.packetIn with type := .flowMod }] := by
        simp [appliedMessages, Admission.packetIn]
      rw [hone, List.pairwise_append]
      refine ⟨h.installs u.pfx, List.pairwise_singleton _ _, fun m hm m' hm' => ?_⟩
      obtain ⟨hmlog, hmp⟩ := mem_appliedMessages.mp hm
      rw [List.mem_singleton.mp hm']
      exact hhand.applied (Nat.le_refl 1) m hmlog hmp
    · have hnone : appliedMessages [.applied { u.packetIn with type := .flowMod }] p = [] := by
        simp [appliedMessages, Admission.packetIn, hp]
      rw [hnone, List.append_nil]
      exact h.installs p
  · intro t m hm
    exact h.acked t m (by simpa using hm)

theorem Exchanges.ack (h : Exchanges d log now events history) (hu : .admitted u ∈ log)
    (hnow : now = u.time + d.total) :
    Exchanges d log now events
      (history ++ [.acked now { u.packetIn with type := .syncAck }]) := by
  refine { h with accepted := ?_, applied := ?_, installs := ?_, acked := ?_ }
  · intro m hm
    exact h.accepted m (by simpa using hm)
  · intro m hm
    exact h.applied m (by simpa using hm)
  · intro p
    rw [appliedMessages_append]
    simpa [appliedMessages] using h.installs p
  · intro t m hm
    simp only [List.mem_append, List.mem_singleton, FlowTableObs.acked.injEq] at hm
    rcases hm with hm | ⟨rfl, rfl⟩
    · exact h.acked t m hm
    · exact ⟨u, hu, rfl, hnow, Nat.le_refl _⟩

/-- The timeline of a loop. -/
abbrev OnTime (d : Legs) (w : LoopWorld ε) : Prop :=
  Exchanges d w.log w.clock.now w.env.central.events w.env.history

/-- A message in hand of a loop. -/
abbrev Holds (d : Legs) (u : Admission) (event : FlowTableEvent) (w : LoopWorld ε) : Prop :=
  InHand d u event w.log w.clock.now w.env.central.events w.env.history

variable {c c' : FlowTableWorld (CentralEnv ε)}

theorem Emits.mem_log {sent : List (Scheduled FlowTableEvent)} {news : List FlowTableObs}
    (h : Emits sent news c c') : ∀ o ∈ c.env.log, o ∈ c'.env.log := by
  obtain ⟨notes, heq, -⟩ := h.notes
  intro o ho
  rw [heq]
  exact List.mem_append_left _ ho

/-- The handler of a message in hand keeps the timeline. -/
theorem onTime_outcome (h : OnTime d (toTemporary c)) (hchron : Chronological c.env.log)
    (hhand : Holds d u event (toTemporary c)) (hissued : ∀ b ∈ c.ctl.events, b.uid < c.clock.uid)
    (houtcome : Outcome cfg d u c c' event) : OnTime d (toTemporary c') := by
  have h : Exchanges d c.env.log c.clock.now c.ctl.events c.log := h
  have hhand : InHand d u event c.env.log c.clock.now c.ctl.events c.log := hhand
  -- what the outcome emits decides the queue and the history
  have hafter : ∀ {sent : List (Scheduled FlowTableEvent)} {news : List FlowTableObs},
      Emits sent news c c' →
      Exchanges d c.env.log c.clock.now (c.ctl.events ++ sent) (c.log ++ news) →
      OnTime d (toTemporary c') := by
    intro sent news hemits hexchanges
    have hgoal : Exchanges d c'.env.log c'.clock.now c'.ctl.events c'.log := by
      rw [hemits.events, hemits.log]
      exact hexchanges.mono hemits.mem_log (Nat.le_of_eq hemits.now.symm)
    exact hgoal
  have hsame : Exchanges d c.env.log c.clock.now (c.ctl.events ++ []) (c.log ++ []) := by
    rw [List.append_nil, List.append_nil]
    exact h
  cases houtcome with
  | lapse _ hemits => exact hafter hemits hsame
  | stale _ _ hemits => exact hafter hemits hsame
  | accept hemits =>
      refine hafter hemits (Exchanges.push (h.accept hhand) hhand.fits hchron hhand.admitted rfl ?_
        (fun hzero => by cases hzero) (fun hzero => by cases hzero) ?_ hissued)
      · have hnow : c.clock.now = u.time + d.packetIn := hhand.now
        simp only [Clock.schedule_ts, Clock.schedule_event, Legs.arrival]
        omega
      · intro _ m hm hmp
        exact hhand.applied (Nat.zero_le 1) m (by simpa using hm) hmp
  | apply hemits =>
      refine hafter hemits (Exchanges.push (h.apply hhand) hhand.fits hchron hhand.admitted rfl ?_
        (fun hzero => by cases hzero) (fun hzero => by cases hzero) (fun hone => ?_) hissued)
      · have hnow : c.clock.now = u.time + (d.packetIn + d.flowMod) := hhand.now
        simp only [Clock.schedule_ts, Clock.schedule_event, Legs.arrival, Legs.total]
        omega
      · exact absurd hone (by simp [controlStage])
  | applyAndAck hprompt _ hemits _ =>
      refine hafter hemits ?_
      have hnow : c.clock.now = u.time + d.total := by
        have hnow : c.clock.now = u.time + (d.packetIn + d.flowMod) := hhand.now
        rw [hnow, Legs.total, hprompt]
        rfl
      have hacked := (h.apply hhand).ack (u := u) hhand.admitted hnow
      simpa using hacked
  | ack _ hemits _ =>
      refine hafter hemits ?_
      have hacked := Exchanges.ack h hhand.admitted hhand.now
      simpa using hacked

end Loop

end Statim
