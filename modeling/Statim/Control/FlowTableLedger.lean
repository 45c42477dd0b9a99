import Statim.Control.FlowTableRuns

/-!
# The books of the flow-table controller

The counters of the controller account for its messages: whatever a handler
takes is either counted at one of the exits of the handler or is in flight
again.  A ledger gives a price to every counter and a
worth to every message in flight, such that no exit loses value; the value of
a ledger then never falls along a run, whatever is lost, delayed, applied or
submitted by a callback.  An account that may be read with both signs is
balanced in every state between two events.
-/

namespace Statim

open Support

namespace FlowTableController

variable {σ : Type} {cfg : FlowTableConfig} {cbs : FlowTableCallbacks σ}
  {w w' w'' : FlowTableWorld σ} {m : ControlMessage}

/-! ## Messages in flight -/

/-- The legs of the exchange. -/
inductive Leg
  | packetIn
  | flowMod
  | syncAck
deriving DecidableEq, Repr

/-- The leg of a message in flight. -/
def legOf : FlowTableEvent → Leg
  | .acceptControl _ => .packetIn
  | .attemptFlowMod _ => .flowMod
  | .deliverSyncAck _ => .syncAck

/-- How many messages of a leg are in flight. -/
def inFlight (leg : Leg) (ctl : FlowTableController) : Nat :=
  ctl.events.countP fun e => decide (legOf e.event = leg)

/-- All counters of the controller. -/
def allCounters : List FlowTableCounter :=
  [.packetIns, .packetInsDelivered, .packetInsDropped, .duplicatePacketIns,
    .stalePacketInsRejected, .conflictingPacketInsRejected, .flowModAttempts,
    .flowModsApplied, .flowModsDropped, .flowModsNoApplySink, .staleFlowModEventsSuppressed,
    .duplicateFlowModEventsSuppressed, .syncAckAttempts, .syncAcksSent, .syncAcksDropped,
    .idempotentAckReplays, .expiredPacketInsRejected, .expiredFlowModsRejected,
    .expiredSyncAcksSuppressed, .flowModsRejectedBySink]

theorem mem_allCounters (c : FlowTableCounter) : c ∈ allCounters := by
  cases c <;> decide

theorem nodup_allCounters : allCounters.Nodup := by decide

/-! ## Ledgers -/

/-- Prices of the counters and worths of the messages in flight.  Each field after
them is one exit of a handler: what the handler counts and leaves in flight is worth at
least the message it took. -/
structure Ledger where
  price : FlowTableCounter → Int
  worth : Leg → Int
  submission : Int
  packetIn_dropped : submission ≤ price .packetIns + price .packetInsDropped
  packetIn_sent : submission ≤ price .packetIns + worth .packetIn
  accept_expired :
    worth .packetIn ≤ price .packetInsDelivered + price .expiredPacketInsRejected
  accept_stale : worth .packetIn ≤ price .packetInsDelivered + price .stalePacketInsRejected
  accept_conflict : worth .packetIn ≤ price .packetInsDelivered + price .duplicatePacketIns +
    price .conflictingPacketInsRejected
  accept_replay : worth .packetIn ≤ price .packetInsDelivered + price .duplicatePacketIns +
    price .idempotentAckReplays + worth .syncAck
  accept_again : worth .packetIn ≤ price .packetInsDelivered + price .duplicatePacketIns +
    worth .flowMod
  accept_new : worth .packetIn ≤ price .packetInsDelivered + worth .flowMod
  attempt_expired : worth .flowMod ≤ price .flowModAttempts + price .expiredFlowModsRejected
  attempt_stale :
    worth .flowMod ≤ price .flowModAttempts + price .staleFlowModEventsSuppressed
  attempt_duplicate : worth .flowMod ≤ price .flowModAttempts +
    price .duplicateFlowModEventsSuppressed + price .idempotentAckReplays + worth .syncAck
  attempt_dropped : worth .flowMod ≤ price .flowModAttempts + price .flowModsDropped
  attempt_noSink : worth .flowMod ≤ price .flowModAttempts + price .flowModsNoApplySink
  attempt_rejected : worth .flowMod ≤ price .flowModAttempts + price .flowModsRejectedBySink
  attempt_applied :
    worth .flowMod ≤ price .flowModAttempts + price .flowModsApplied + worth .syncAck
  ack_expired : worth .syncAck ≤ price .syncAckAttempts + price .expiredSyncAcksSuppressed
  ack_dropped : worth .syncAck ≤ price .syncAckAttempts + price .syncAcksDropped
  ack_sent : worth .syncAck ≤ price .syncAckAttempts + price .syncAcksSent

/-- The value of a controller: its counters and its messages in flight. -/
def Ledger.value (l : Ledger) (ctl : FlowTableController) : Int :=
  (allCounters.map fun c => l.price c * ctl.counters c).sum +
    (l.worth .packetIn * inFlight .packetIn ctl + l.worth .flowMod * inFlight .flowMod ctl +
      l.worth .syncAck * inFlight .syncAck ctl)

/-- The value grows by at least `d`, and the queue stays valid. -/
structure Posts (l : Ledger) (d : Int) (w w' : FlowTableWorld σ) : Prop where
  value : l.value w.ctl + d ≤ l.value w'.ctl
  queue : QueueInv w.clock w.ctl.events → QueueInv w'.clock w'.ctl.events

variable {l : Ledger} {d d' : Int}

theorem Posts.trans (h : Posts l d w w') (h' : Posts l d' w' w'') : Posts l (d + d') w w'' where
  value := by
    have hfirst := h.value
    have hsecond := h'.value
    omega
  queue hq := h'.queue (h.queue hq)

theorem Posts.mono (h : Posts l d w w') (hle : d' ≤ d) : Posts l d' w w' where
  value := by
    have hvalue := h.value
    omega
  queue := h.queue

/-- What the books do not read may change. -/
theorem posts_of_eq (hcounters : w'.ctl.counters = w.ctl.counters)
    (hevents : w'.ctl.events = w.ctl.events) (hnow : w'.clock.now = w.clock.now)
    (huid : w.clock.uid ≤ w'.clock.uid) : Posts l 0 w w' where
  value := by simp [Ledger.value, inFlight, hcounters, hevents]
  queue hq := by
    rw [hevents]
    exact hq.mono hnow huid

theorem posts_refl (w : FlowTableWorld σ) : Posts l 0 w w :=
  posts_of_eq rfl rfl rfl (Nat.le_refl _)

/-- Bookkeeping outside of the books after something that is worth `d`. -/
theorem Posts.quiet (h : Posts l d w w') (hcounters : w''.ctl.counters = w'.ctl.counters)
    (hevents : w''.ctl.events = w'.ctl.events) (hclock : w''.clock = w'.clock) :
    Posts l d w w'' := by
  have hrest : Posts l 0 w' w'' :=
    posts_of_eq hcounters hevents (by rw [hclock]) (by rw [hclock])
  exact (h.trans hrest).mono (by omega)

/-- One more count of `c` is worth the price of `c`. -/
theorem sum_count (price : FlowTableCounter → Int) (x : FlowTableCounter → Nat)
    {c : FlowTableCounter} {cs : List FlowTableCounter} (hnodup : cs.Nodup) (hmem : c ∈ cs) :
    (cs.map fun c' => price c' * ((if c' = c then x c' + 1 else x c' : Nat) : Int)).sum =
      (cs.map fun c' => price c' * (x c' : Int)).sum + price c := by
  induction cs with
  | nil => cases hmem
  | cons c' cs ih =>
      obtain ⟨hfresh, hnodup⟩ := List.nodup_cons.mp hnodup
      simp only [List.map_cons, List.sum_cons]
      by_cases hc : c' = c
      · subst hc
        have htail : (cs.map fun a => price a * ((if a = c' then x a + 1 else x a : Nat) : Int)) =
            cs.map fun a => price a * (x a : Int) := by
          refine List.map_congr_left fun a ha => ?_
          rw [if_neg]
          rintro rfl
          exact hfresh ha
        rw [htail, if_pos rfl, Int.natCast_add, Int.mul_add]
        simp only [Int.natCast_one, Int.mul_one]
        omega
      · have hmem : c ∈ cs := (List.mem_cons.mp hmem).resolve_left fun heq => hc heq.symm
        rw [ih hnodup hmem, if_neg hc]
        omega

theorem posts_count (c : FlowTableCounter) (w : FlowTableWorld σ) :
    Posts l (l.price c) w (count c w) where
  value := by
    have hsum := sum_count l.price w.ctl.counters nodup_allCounters (mem_allCounters c)
    have hflight : ∀ leg, inFlight leg (count c w).ctl = inFlight leg w.ctl := fun _ => rfl
    simp only [Ledger.value, hflight]
    simp only [count]
    rw [hsum]
    omega
  queue hq := hq

theorem posts_schedule (delay : Nat) (event : FlowTableEvent) (w : FlowTableWorld σ) :
    Posts l (l.worth (legOf event)) w (schedule delay event w) where
  value := by
    have hflight : ∀ leg, inFlight leg (schedule delay event w).ctl =
        inFlight leg w.ctl + if legOf event = leg then 1 else 0 := by
      intro leg
      rw [inFlight, schedule, List.countP_append, List.countP_singleton]
      by_cases hleg : legOf event = leg
      · simp [inFlight, hleg]
      · simp [inFlight, hleg]
    have hcounters : (schedule delay event w).ctl.counters = w.ctl.counters := rfl
    simp only [Ledger.value, hflight, hcounters]
    cases legOf event <;> simp [Int.mul_add] <;> omega
  queue hq := hq.schedule delay event

theorem posts_draw (p : Name) (w : FlowTableWorld σ) : Posts l 0 w (draw p w) :=
  posts_of_eq rfl rfl rfl (Nat.le_refl _)

/-! ## Handlers -/

/-- Callbacks that leave the value alone or raise it. -/
structure Keeps (l : Ledger) (cbs : FlowTableCallbacks σ) : Prop where
  apply : ∀ f, cbs.apply = some f → ∀ m w, Posts l 0 w (f m w).2
  syncAck : ∀ f, cbs.syncAck = some f → ∀ m w, Posts l 0 w (f m w)

theorem posts_handOver (hcb : Keeps l cbs) (m : ControlMessage) (w : FlowTableWorld σ) :
    Posts l 0 w (handOver cbs m w) := by
  unfold handOver
  split
  · exact posts_refl w
  next callback hsync =>
    have hlog : Posts l 0 w { w with log := w.log ++ [.acked w.clock.now m] } :=
      posts_of_eq rfl rfl rfl (Nat.le_refl _)
    exact (hlog.trans (hcb.syncAck callback hsync m _)).mono (by omega)

theorem posts_deliverSyncAck (hcb : Keeps l cbs) (m : ControlMessage) (w : FlowTableWorld σ) :
    Posts l (l.worth .syncAck) w (deliverSyncAck cfg cbs m w) := by
  simp only [deliverSyncAck]
  have hstart : Posts l (l.price .syncAckAttempts) w (count .syncAckAttempts w) :=
    posts_count _ w
  have hdraw := hstart.trans (posts_draw m.pfx _)
  split
  · exact (hstart.trans (posts_count _ _)).mono l.ack_expired
  split
  · have hexit := l.ack_dropped
    exact (hdraw.trans (posts_count _ _)).mono (by omega)
  · have hexit := l.ack_sent
    have hhanded := hdraw.trans (posts_handOver hcb { m with type := .syncAck } _)
    exact (hhanded.trans (posts_count _ _)).mono (by omega)

theorem posts_sendSyncAck (hcb : Keeps l cbs) (m : ControlMessage) (w : FlowTableWorld σ) :
    Posts l (l.worth .syncAck) w (sendSyncAck cfg cbs m w) := by
  simp only [sendSyncAck]
  have hdraw : Posts l 0 w (sampleDelay cfg m.pfx w).2 := posts_draw m.pfx w
  split
  · exact (hdraw.trans (posts_deliverSyncAck hcb m _)).mono (by omega)
  · exact (hdraw.trans (posts_schedule _ (.deliverSyncAck m) _)).mono (by simp [legOf])

theorem posts_replay (hcb : Keeps l cbs) (m : ControlMessage) (w : FlowTableWorld σ) :
    Posts l (l.price .idempotentAckReplays + l.worth .syncAck) w
      (scheduleSyncAck cfg cbs m true w) :=
  (posts_count _ w).trans (posts_sendSyncAck hcb m _)

theorem posts_scheduleFlowMod (m : ControlMessage) (w : FlowTableWorld σ) :
    Posts l (l.worth .flowMod) w (scheduleFlowMod cfg m w) := by
  have hlog : Posts l 0 w (sampleDelay cfg m.pfx { w with log := w.log ++ [.accepted m] }).2 :=
    posts_of_eq rfl rfl rfl (Nat.le_refl _)
  exact (hlog.trans (posts_schedule _ (.attemptFlowMod m) _)).mono (by simp [legOf])

theorem posts_acceptControl (hcb : Keeps l cbs) (m : ControlMessage) (w : FlowTableWorld σ) :
    Posts l (l.worth .packetIn) w (acceptControl cfg cbs m w) := by
  simp only [acceptControl]
  have hstart : Posts l (l.price .packetInsDelivered) w (count .packetInsDelivered w) :=
    posts_count _ w
  split
  · exact (hstart.trans (posts_count _ _)).mono l.accept_expired
  split
  swap
  · exact (hstart.trans (posts_scheduleFlowMod m _)).mono l.accept_new
  generalize (count .packetInsDelivered w).ctl.prefixStates[m.pfx]?.getD {} = state
  -- the records of the guard are not part of the books
  have htouched : Posts l (l.price .packetInsDelivered) w { count .packetInsDelivered w with
      ctl := { (count .packetInsDelivered w).ctl with
        prefixStates := (count .packetInsDelivered w).ctl.prefixStates.insert m.pfx state } } :=
    hstart.quiet rfl rfl rfl
  split
  · exact (htouched.trans (posts_count _ _)).mono l.accept_stale
  split
  · have hduplicate := htouched.trans (posts_count .duplicatePacketIns _)
    split
    · exact (hduplicate.trans (posts_count _ _)).mono l.accept_conflict
    split
    · have hexit := l.accept_replay
      exact (hduplicate.trans (posts_replay hcb m _)).mono (by omega)
    · exact (hduplicate.trans (posts_scheduleFlowMod m _)).mono l.accept_again
  · refine Posts.mono (Posts.trans ?_ (posts_scheduleFlowMod m _)) l.accept_new
    exact htouched.quiet rfl rfl rfl

/-- A submission pays for itself. -/
theorem posts_submitFlowUpdate (hcb : Keeps l cbs) (m : ControlMessage)
    (w : FlowTableWorld σ) : Posts l l.submission w (submitFlowUpdate cfg cbs m w) := by
  simp only [submitFlowUpdate]
  have hdraw : Posts l (l.price .packetIns) w (shouldDrop cfg m.pfx (count .packetIns w)).2 :=
    (posts_count _ w).quiet rfl rfl rfl
  split
  · exact (hdraw.trans (posts_count _ _)).mono l.packetIn_dropped
  · have hsent := l.packetIn_sent
    have hdelay := hdraw.trans (posts_draw m.pfx _)
    split
    · exact (hdelay.trans (posts_acceptControl hcb m _)).mono (by omega)
    · refine (hdelay.trans (posts_schedule _ (.acceptControl m) _)).mono ?_
      simp only [legOf]
      omega

/-- An application is recorded and its SyncAck scheduled. -/
theorem posts_firstAck (hcb : Keeps l cbs) (m : ControlMessage) (log : List FlowTableObs)
    (w : FlowTableWorld σ) : Posts l (l.worth .syncAck) w
      (scheduleSyncAck cfg cbs m false { w with
        log := log, ctl := recordApplied cfg m w.ctl }) := by
  have hrecorded : Posts l 0 w { w with log := log, ctl := recordApplied cfg m w.ctl } := by
    unfold recordApplied
    split
    · exact posts_of_eq rfl rfl rfl (Nat.le_refl _)
    · exact posts_of_eq rfl rfl rfl (Nat.le_refl _)
  exact (hrecorded.trans (posts_sendSyncAck hcb m _)).mono (by omega)

theorem posts_attemptFlowMod (hcb : Keeps l cbs) (m : ControlMessage) (w : FlowTableWorld σ) :
    Posts l (l.worth .flowMod) w (attemptFlowMod cfg cbs m w) := by
  simp only [attemptFlowMod]
  have hstart : Posts l (l.price .flowModAttempts) w (count .flowModAttempts w) :=
    posts_count _ w
  split
  · exact (hstart.trans (posts_count _ _)).mono l.attempt_expired
  split
  · exact (hstart.trans (posts_count _ _)).mono l.attempt_stale
  split
  · have hexit := l.attempt_duplicate
    have hsuppressed := hstart.trans (posts_count .duplicateFlowModEventsSuppressed _)
    exact (hsuppressed.trans (posts_replay hcb m _)).mono (by omega)
  simp only [sendFlowMod]
  have hdraw := hstart.trans (posts_draw m.pfx _)
  split
  · have hexit := l.attempt_dropped
    exact (hdraw.trans (posts_count _ _)).mono (by omega)
  simp only [applyFlowMod]
  split
  · have hexit := l.attempt_noSink
    exact (hdraw.trans (posts_count _ _)).mono (by omega)
  next apply hsink =>
    have hanswered := hdraw.trans (hcb.apply apply hsink { m with type := .flowMod } _)
    split
    · have hexit := l.attempt_rejected
      exact (hanswered.trans (posts_count _ _)).mono (by omega)
    · have hexit := l.attempt_applied
      have hcounted := hanswered.trans (posts_count .flowModsApplied _)
      exact (hcounted.trans (posts_firstAck hcb m _ _)).mono (by omega)

theorem posts_handle (hcb : Keeps l cbs) (event : FlowTableEvent) (w : FlowTableWorld σ) :
    Posts l (l.worth (legOf event)) w (handle cfg cbs event w) := by
  cases event with
  | acceptControl m => exact posts_acceptControl hcb m w
  | attemptFlowMod m => exact posts_attemptFlowMod hcb m w
  | deliverSyncAck m => exact posts_deliverSyncAck hcb m w

/-! ## Runs -/

/-- What a callback does before it returns: it submits PacketIns, and what the
controller then calls may do the same; it acts outside of the controller; and it
switches the guard, whose records in the middle of a handler are left open. -/
inductive Calls : FlowTableWorld σ → FlowTableWorld σ → Prop
  | refl (w : FlowTableWorld σ) : Calls w w
  | submit {w w' : FlowTableWorld σ} {cbs : FlowTableCallbacks σ}
      (hsink : ∀ f, cbs.apply = some f → ∀ m w, Calls w (f m w).2)
      (hack : ∀ f, cbs.syncAck = some f → ∀ m w, Calls w (f m w))
      (cfg : FlowTableConfig) (m : ControlMessage) :
      Calls w w' → Calls w (submitFlowUpdate cfg cbs m w')
  | other {w w' : FlowTableWorld σ} {uid : Nat} (huid : w'.clock.uid ≤ uid) (env : σ) :
      Calls w w' → Calls w { w' with clock := { w'.clock with uid := uid }, env := env }
  | records {w w' : FlowTableWorld σ} (states : Std.TreeMap Name PrefixState) :
      Calls w w' → Calls w { w' with ctl := { w'.ctl with prefixStates := states } }

/-- Callbacks that use the controller through its interface only. -/
structure Interfaced (cbs : FlowTableCallbacks σ) : Prop where
  apply : ∀ f, cbs.apply = some f → ∀ m w, Calls w (f m w).2
  syncAck : ∀ f, cbs.syncAck = some f → ∀ m w, Calls w (f m w)

/-- One step of the controller.  Settings and callbacks may be different at every
step. -/
inductive AnyStep : FlowTableWorld σ → FlowTableWorld σ → Prop
  | step {w w' : FlowTableWorld σ} {cfg : FlowTableConfig} {cbs : FlowTableCallbacks σ}
      (hcbs : Interfaced cbs) (h : FlowTableStep cfg cbs w w') : AnyStep w w'
  | records (w : FlowTableWorld σ) (states : Std.TreeMap Name PrefixState) :
      AnyStep w { w with ctl := { w.ctl with prefixStates := states } }

theorem Calls.posts (h : Calls w w') (hfree : 0 ≤ l.submission) : Posts l 0 w w' := by
  induction h with
  | refl w => exact posts_refl w
  | @submit w w' cbs _ _ cfg m _ hsink hack ih =>
      have hsubmit : Posts l l.submission w' (submitFlowUpdate cfg cbs m w') :=
        posts_submitFlowUpdate ⟨hsink, hack⟩ m w'
      exact (ih.trans hsubmit).mono (by omega)
  | @other w w' uid huid env _ ih =>
      have hother : Posts l 0 w' { w' with clock := { w'.clock with uid := uid }, env := env } :=
        posts_of_eq rfl rfl rfl huid
      exact (ih.trans hother).mono (by omega)
  | records states _ ih => exact ih.quiet rfl rfl rfl

theorem Interfaced.keeps (h : Interfaced cbs) (hfree : 0 ≤ l.submission) : Keeps l cbs where
  apply f hf m w := (h.apply f hf m w).posts hfree
  syncAck f hf m w := (h.syncAck f hf m w).posts hfree

/-- Taking a message off the queue costs its worth. -/
theorem value_take (hqueue : QueueInv w.clock w.ctl.events) {e : Scheduled FlowTableEvent}
    (he : e ∈ w.ctl.events) :
    l.value (take e w).ctl = l.value w.ctl - l.worth (legOf e.event) := by
  have hflight : ∀ leg, inFlight leg w.ctl =
      inFlight leg (take e w).ctl + if legOf e.event = leg then 1 else 0 := by
    intro leg
    have hcount := hqueue.countP_cancel he fun e => decide (legOf e.event = leg)
    by_cases hleg : legOf e.event = leg
    · simpa [inFlight, take, hleg] using hcount
    · simpa [inFlight, take, hleg] using hcount
  have hcounters : (take e w).ctl.counters = w.ctl.counters := rfl
  simp only [Ledger.value, hflight, hcounters]
  cases legOf e.event <;> simp [Int.mul_add] <;> omega

/-- A message that arrives is settled by its handler. -/
theorem posts_fire (hcb : Keeps l cbs) (hqueue : QueueInv w.clock w.ctl.events)
    {e : Scheduled FlowTableEvent} (he : IsNext e w.ctl.events) :
    Posts l 0 w (fire cfg cbs e w) := by
  have hhandled : Posts l (l.worth (legOf e.event)) (take e w) (fire cfg cbs e w) :=
    posts_handle hcb e.event (take e w)
  refine ⟨?_, fun _ => hhandled.queue ?_⟩
  · have hvalue := hhandled.value
    rw [value_take hqueue he.1] at hvalue
    omega
  · exact (hqueue.cancel e.uid).advance fun e' he' => he.ts_le (mem_cancel.mp he').1

theorem AnyStep.posts (h : AnyStep w w') (hfree : 0 ≤ l.submission)
    (hqueue : QueueInv w.clock w.ctl.events) :
    l.value w.ctl ≤ l.value w'.ctl ∧ QueueInv w'.clock w'.ctl.events := by
  have hresult : ∀ {d : Int} {w' : FlowTableWorld σ}, 0 ≤ d → Posts l d w w' →
      l.value w.ctl ≤ l.value w'.ctl ∧ QueueInv w'.clock w'.ctl.events := by
    intro d w' hd hposts
    have hvalue := hposts.value
    exact ⟨by omega, hposts.queue hqueue⟩
  cases h with
  | records states => exact ⟨Int.le_refl _, hqueue⟩
  | step hcbs h =>
      have hkeeps := hcbs.keeps hfree
      cases h with
      | submit m => exact hresult hfree (posts_submitFlowUpdate hkeeps m w)
      | fire he => exact hresult (Int.le_refl 0) (posts_fire hkeeps hqueue he)
      | idle hnow huid hdue env =>
          exact ⟨Int.le_refl _, hqueue.distinct,
            fun e he => Nat.lt_of_lt_of_le (hqueue.issued e he) huid, hdue⟩

/-- The value of a controller that was constructed afresh is nonnegative for good. -/
theorem value_nonneg (hfree : 0 ≤ l.submission) {w₀ : FlowTableWorld σ} (hinit : w₀.ctl = {})
    (hrun : Relation.ReflTransGen AnyStep w₀ w) :
    0 ≤ l.value w.ctl ∧ QueueInv w.clock w.ctl.events := by
  induction hrun with
  | refl =>
      rw [hinit]
      refine ⟨?_, QueueInv.nil _⟩
      simp [Ledger.value, inFlight, allCounters]
  | tail _ hstep ih =>
      obtain ⟨hvalue, hqueue⟩ := hstep.posts hfree ih.2
      exact ⟨Int.le_trans ih.1 hvalue, hqueue⟩

/-! ## The accounts -/

/-- What the books are kept about. -/
inductive Account
  | packetIns
  | deliveries
  | attempts
  | notices
  | acks

/-- The side on which an account counts: what comes in counts one, and each way out
counts minus one. -/
def Account.weight : Account → FlowTableCounter → Int
  | .packetIns, .packetIns => 1
  | .packetIns, .packetInsDropped => -1
  | .packetIns, .packetInsDelivered => -1
  | .deliveries, .packetInsDelivered => 1
  | .deliveries, .expiredPacketInsRejected => -1
  | .deliveries, .stalePacketInsRejected => -1
  | .deliveries, .conflictingPacketInsRejected => -1
  | .deliveries, .idempotentAckReplays => -1
  | .deliveries, .duplicateFlowModEventsSuppressed => 1
  | .deliveries, .flowModAttempts => -1
  | .attempts, .flowModAttempts => 1
  | .attempts, .expiredFlowModsRejected => -1
  | .attempts, .staleFlowModEventsSuppressed => -1
  | .attempts, .duplicateFlowModEventsSuppressed => -1
  | .attempts, .flowModsDropped => -1
  | .attempts, .flowModsNoApplySink => -1
  | .attempts, .flowModsRejectedBySink => -1
  | .attempts, .flowModsApplied => -1
  | .notices, .flowModsApplied => 1
  | .notices, .idempotentAckReplays => 1
  | .notices, .syncAckAttempts => -1
  | .acks, .syncAckAttempts => 1
  | .acks, .expiredSyncAcksSuppressed => -1
  | .acks, .syncAcksDropped => -1
  | .acks, .syncAcksSent => -1
  | _, _ => 0

/-- The messages in flight that an account waits for. -/
def Account.pending : Account → Leg → Int
  | .packetIns, .packetIn => -1
  | .deliveries, .flowMod => -1
  | .notices, .syncAck => -1
  | _, _ => 0

/-- The ledger of an account, read with a sign. -/
def Account.ledger (a : Account) (sign : Int) : Ledger where
  price c := sign * a.weight c
  worth leg := sign * a.pending leg
  submission := 0
  packetIn_dropped := by cases a <;> simp [Account.weight]
  packetIn_sent := by cases a <;> simp [Account.weight, Account.pending]
  accept_expired := by cases a <;> simp [Account.weight, Account.pending]
  accept_stale := by cases a <;> simp [Account.weight, Account.pending]
  accept_conflict := by cases a <;> simp [Account.weight, Account.pending]
  accept_replay := by cases a <;> simp [Account.weight, Account.pending]
  accept_again := by cases a <;> simp [Account.weight, Account.pending]
  accept_new := by cases a <;> simp [Account.weight, Account.pending]
  attempt_expired := by cases a <;> simp [Account.weight, Account.pending]
  attempt_stale := by cases a <;> simp [Account.weight, Account.pending]
  attempt_duplicate := by cases a <;> simp [Account.weight, Account.pending]
  attempt_dropped := by cases a <;> simp [Account.weight, Account.pending]
  attempt_noSink := by cases a <;> simp [Account.weight, Account.pending]
  attempt_rejected := by cases a <;> simp [Account.weight, Account.pending]
  attempt_applied := by cases a <;> simp [Account.weight, Account.pending]
  ack_expired := by cases a <;> simp [Account.weight, Account.pending]
  ack_dropped := by cases a <;> simp [Account.weight, Account.pending]
  ack_sent := by cases a <;> simp [Account.weight, Account.pending]

/-- An account that is read with both signs stays balanced. -/
theorem Account.balanced (a : Account) {w₀ : FlowTableWorld σ} (hinit : w₀.ctl = {})
    (hrun : Relation.ReflTransGen AnyStep w₀ w) : (a.ledger 1).value w.ctl = 0 := by
  have hlower := (value_nonneg (l := a.ledger 1) (Int.le_refl 0) hinit hrun).1
  have hupper := (value_nonneg (l := a.ledger (-1)) (Int.le_refl 0) hinit hrun).1
  have hneg : (a.ledger (-1)).value w.ctl = -(a.ledger 1).value w.ctl := by
    simp [Ledger.value, Account.ledger, allCounters]
    omega
  omega

/-- Every suppressed duplicate replays an acknowledgement. -/
def replayLedger : Ledger where
  price
    | .idempotentAckReplays => 1
    | .duplicateFlowModEventsSuppressed => -1
    | _ => 0
  worth _ := 0
  submission := 0
  packetIn_dropped := by simp
  packetIn_sent := by simp
  accept_expired := by simp
  accept_stale := by simp
  accept_conflict := by simp
  accept_replay := by simp
  accept_again := by simp
  accept_new := by simp
  attempt_expired := by simp
  attempt_stale := by simp
  attempt_duplicate := by simp
  attempt_dropped := by simp
  attempt_noSink := by simp
  attempt_rejected := by simp
  attempt_applied := by simp
  ack_expired := by simp
  ack_dropped := by simp
  ack_sent := by simp

/-- The books of the flow-table controller between two events. -/
structure Conserves (ctl : FlowTableController) : Prop where
  packetIns : ctl.counters .packetIns =
    ctl.counters .packetInsDropped + ctl.counters .packetInsDelivered + inFlight .packetIn ctl
  replays :
    ctl.counters .duplicateFlowModEventsSuppressed ≤ ctl.counters .idempotentAckReplays
  deliveries : ctl.counters .packetInsDelivered =
    ctl.counters .expiredPacketInsRejected + ctl.counters .stalePacketInsRejected +
      ctl.counters .conflictingPacketInsRejected +
      (ctl.counters .idempotentAckReplays - ctl.counters .duplicateFlowModEventsSuppressed) +
      ctl.counters .flowModAttempts + inFlight .flowMod ctl
  attempts : ctl.counters .flowModAttempts =
    ctl.counters .expiredFlowModsRejected + ctl.counters .staleFlowModEventsSuppressed +
      ctl.counters .duplicateFlowModEventsSuppressed + ctl.counters .flowModsDropped +
      ctl.counters .flowModsNoApplySink + ctl.counters .flowModsRejectedBySink +
      ctl.counters .flowModsApplied
  notices : ctl.counters .flowModsApplied + ctl.counters .idempotentAckReplays =
    ctl.counters .syncAckAttempts + inFlight .syncAck ctl
  acks : ctl.counters .syncAckAttempts =
    ctl.counters .expiredSyncAcksSuppressed + ctl.counters .syncAcksDropped +
      ctl.counters .syncAcksSent

theorem conserves {w₀ : FlowTableWorld σ} (hinit : w₀.ctl = {})
    (hrun : Relation.ReflTransGen AnyStep w₀ w) : Conserves w.ctl := by
  have hreplays : w.ctl.counters .duplicateFlowModEventsSuppressed ≤
      w.ctl.counters .idempotentAckReplays := by
    have hvalue := (value_nonneg (l := replayLedger) (Int.le_refl 0) hinit hrun).1
    simp [Ledger.value, replayLedger, allCounters] at hvalue
    omega
  have hbalance : ∀ a : Account, (a.ledger 1).value w.ctl = 0 := fun a => a.balanced hinit hrun
  constructor
  · have hpacketIns := hbalance .packetIns
    simp [Ledger.value, Account.ledger, Account.weight, Account.pending, allCounters]
      at hpacketIns
    omega
  · exact hreplays
  · have hdeliveries := hbalance .deliveries
    simp [Ledger.value, Account.ledger, Account.weight, Account.pending, allCounters]
      at hdeliveries
    omega
  · have hattempts := hbalance .attempts
    simp [Ledger.value, Account.ledger, Account.weight, Account.pending, allCounters]
      at hattempts
    omega
  · have hnotices := hbalance .notices
    simp [Ledger.value, Account.ledger, Account.weight, Account.pending, allCounters]
      at hnotices
    omega
  · have hacks := hbalance .acks
    simp [Ledger.value, Account.ledger, Account.weight, Account.pending, allCounters] at hacks
    omega

end FlowTableController

end Statim
