import Statim.Engine.PrefixFrames

/-!
# Prefix isolation

A run of the two controllers from which all Trace updates, timers and messages of
the other prefixes are deleted is still a run, and nothing about the remaining
prefix changes.  The two runs are compared step by step: a step of the prefix is
taken by both, and a step of another prefix is the passage of time.
-/

namespace Statim

open Support LocalRouteController

namespace Link

variable {cfg : LinkConfig} {p q : Name} {w w' v : LinkWorld}

/-! ## One step -/

theorem LinkInv.apart (h : LinkInv cfg w) (hpq : q ≠ p) : Apart p q w where
  lifetime e he hpfx huid := by
    have howned := h.temporary.owns_lifetime q e.uid huid e he rfl
    exact hpq (howned.symm.trans hpfx)
  retry e he hpfx huid := by
    have howned := h.temporary.owns_pending q e.uid huid e he rfl
    exact hpq (howned.symm.trans hpfx)
  issued e he _ := h.temporary.queue.issued e he

/-- A pending record carries a request of its own prefix. -/
theorem LinkInv.pending_pfx (h : LinkInv cfg w) (p : Name) (pending : PendingControllerRequest)
    (hpending : w.ctl.pendingControllerRequests[p]? = some pending) : pending.msg.pfx = p := by
  rcases h.temporary.each p with hvacant | ⟨u, hres⟩
  · rw [hvacant.pending] at hpending
    cases hpending
  · obtain rfl : u.pfx = p := hres.pfx
    by_cases hretry : Retrying cfg.temporary (temporaryCallbacks cfg)
    · obtain ⟨pending', hstored, -, hmsg, -⟩ := hres.pending.1 hretry
      obtain rfl : pending' = pending := Option.some.inj (hstored.symm.trans hpending)
      rw [hmsg]
      rfl
    · rw [(hres.pending.2 hretry).1] at hpending
      cases hpending

/-- What passes by `p` is, at `p`, the passage of time. -/
theorem Alike.passes (h : Alike p w v) (hpass : Passes p q w w') :
    Alike p w' { v with clock := w'.clock } := by
  have hnow : v.clock.now = w'.clock.now := by rw [hpass.now, h.now]
  have hsame := hpass.toSameAt.symm.trans h.toSameAt
  refine { hsame with clock := rfl, hops := fun port => ?_ }
  rw [hsame.hops, hnow]

theorem LinkInv.apart_take (h : LinkInv cfg w) (hpq : q ≠ p) (e : Scheduled LocalEvent) :
    Apart p q (take e w) := by
  have hapart := h.apart hpq
  constructor
  · exact fun e' he' hpfx => hapart.lifetime e' (mem_cancel.mp he').1 hpfx
  · exact fun e' he' hpfx => hapart.retry e' (mem_cancel.mp he').1 hpfx
  · exact fun e' he' hpfx => hapart.issued e' (mem_cancel.mp he').1 hpfx

/-- Taking an event of another prefix off the queue. -/
theorem LinkInv.alike_take (h : LinkInv cfg w) {e : Scheduled LocalEvent}
    (he : e ∈ w.ctl.events) (hpfx : e.event.pfx ≠ p) (halike : Alike p w v) :
    Alike p (take e w) { v with clock := (take e w).clock } := by
  have helapsed := halike.elapse (take e w).clock (h.temporary.queue.due e he)
  refine { helapsed with timers := ?_ }
  have hother : ∀ e' ∈ w.ctl.events, e'.event.pfx = p → some e.uid ≠ some e'.uid := by
    intro e' he' hp heq
    have hsame := h.temporary.queue.uid_unique he he' (Option.some.inj heq)
    exact hpfx (hsame ▸ hp)
  exact (timersOf_cancel?_of_ne hother).trans halike.timers

theorem LinkInv.alike_takeMessage (h : LinkInv cfg w) {e : Scheduled FlowTableEvent}
    (he : e ∈ w.env.central.events) (hpfx : e.event.message.pfx ≠ p) (halike : Alike p w v) :
    Alike p (toTemporary (FlowTableController.take e (toCentral w)))
      { v with clock := (FlowTableController.take e (toCentral w)).clock } := by
  have helapsed := halike.elapse (FlowTableController.take e (toCentral w)).clock
    (h.central.due e he)
  refine { helapsed with messages := ?_ }
  refine Eq.trans ?_ halike.messages
  show messagesOf p (cancel e.uid w.env.central.events) = messagesOf p w.env.central.events
  rw [messagesOf_cancel]
  refine List.filter_eq_self.mpr fun e' he' => ?_
  obtain ⟨hmem, hp⟩ := List.mem_filter.mp he'
  rw [bne_iff_ne]
  intro heq
  have hsame := h.central.uid_unique hmem he heq
  exact hpfx (hsame ▸ of_decide_eq_true hp)

/-- A Trace update, timer or message of another prefix is, at `p`, the passage of time. -/
theorem alike_other (h : LinkInv cfg w) {a : LinkAction} (ha : Enabled w a)
    (hq : a.pfx? = some q) (hpq : q ≠ p) (halike : Alike p w v) :
    Alike p (perform cfg w a) { v with clock := (perform cfg w a).clock } ∧
      w.clock.now ≤ (perform cfg w a).clock.now ∧ w.clock.uid ≤ (perform cfg w a).clock.uid := by
  cases a with
  | trace pfx nameHashes prefixLen port seq ttl =>
      cases hq
      have hpass : Passes p q w (perform cfg w (.trace q nameHashes prefixLen port seq ttl)) :=
        beside_trace hpq nameHashes prefixLen port seq ttl w (h.apart hpq)
      exact ⟨halike.passes hpass, Nat.le_of_eq hpass.now.symm, hpass.uid⟩
  | timer e =>
      cases hq
      have htake := h.alike_take ha.1 hpq halike
      have hpass : Passes p e.event.pfx (take e w) (perform cfg w (.timer e)) := by
        have hmsg := h.pending_pfx e.event.pfx
        have hapart := h.apart_take hpq e
        simp only [perform, LocalRouteController.fire]
        cases hevent : e.event with
        | expireEntryBySeq q seq =>
            rw [hevent] at hpq hapart
            exact beside_expireEntryBySeq hpq seq _ hapart
        | onControllerRetryTimeout q seq =>
            rw [hevent] at hpq hapart hmsg
            exact beside_onControllerRetryTimeout hpq seq _ hmsg hapart
      refine ⟨htake.passes hpass, ?_, hpass.uid⟩
      exact Nat.le_trans (h.temporary.queue.due e ha.1) (Nat.le_of_eq hpass.now.symm)
  | message e =>
      cases hq
      have htake := h.alike_takeMessage ha.1 hpq halike
      have hapart : Apart p e.event.message.pfx
          (toTemporary (FlowTableController.take e (toCentral w))) :=
        { h.apart hpq with }
      have hpass : Passes p e.event.message.pfx
          (toTemporary (FlowTableController.take e (toCentral w))) (perform cfg w (.message e)) :=
        beside_handle hpq _ hapart
      refine ⟨htake.passes hpass, ?_, hpass.uid⟩
      exact Nat.le_trans (h.central.due e ha.1) (Nat.le_of_eq hpass.now.symm)
  | findExact pfx => cases hq
  | findLongestPrefix name => cases hq
  | wait clock => cases hq

/-- A Trace update, timer or message of `p` itself does the same on both sides. -/
theorem alike_own (h : LinkInv cfg w) {a : LinkAction} (ha : Enabled w a)
    (hp : a.pfx? = some p) (halike : Alike p w v) :
    Alike p (perform cfg w a) (perform cfg v a) := by
  cases a with
  | trace pfx nameHashes prefixLen port seq ttl =>
      cases hp
      exact alike_trace halike nameHashes prefixLen port seq ttl
  | timer e =>
      cases hp
      have htake := alike_take halike (h.temporary.queue.due e ha.1)
      have hmsg := h.pending_pfx e.event.pfx
      simp only [perform, LocalRouteController.fire]
      cases hevent : e.event with
      | expireEntryBySeq p seq =>
          rw [hevent] at htake
          exact alike_expireEntryBySeq htake seq
      | onControllerRetryTimeout p seq =>
          rw [hevent] at htake hmsg
          exact alike_onControllerRetryTimeout htake seq hmsg
  | message e =>
      cases hp
      refine alike_handle ?_ rfl
      have helapsed := halike.elapse { w.clock with now := e.ts } (h.central.due e ha.1)
      have hclock : { w.clock with now := e.ts } = { v.clock with now := e.ts } := by
        rw [halike.clock]
      refine { helapsed with clock := hclock, messages := ?_ }
      show messagesOf _ (cancel e.uid w.env.central.events) =
        messagesOf _ (cancel e.uid v.env.central.events)
      rw [messagesOf_cancel, messagesOf_cancel, halike.messages]
  | findExact pfx => cases hp
  | findLongestPrefix name => cases hp
  | wait clock => cases hp

theorem liveHop?_pruneAndFind (now : Time) (p q : Name) (t : TemporaryForwardingTable)
    (port : Port) : (t.pruneAndFind now q).2.liveHop? now p port = t.liveHop? now p port := by
  rw [TemporaryForwardingTable.liveHop?, TemporaryForwardingTable.hop?_pruneAndFind]
  split
  · exact TemporaryForwardingTable.filter_liveHop? _ _ _ _
  · rfl

/-- A lookup prunes what is expired, whichever names it visits. -/
theorem alike_findLongestPrefix (h : Alike p w v) (name : Name) :
    Alike p (LocalRouteController.findLongestPrefix name w).2
      (LocalRouteController.findLongestPrefix name v).2 := by
  have hsame : ∀ (now : Time) (t : TemporaryForwardingTable) (port : Port),
      (t.findLongestPrefix now name).2.liveHop? now p port = t.liveHop? now p port :=
    fun now t port => TemporaryForwardingTable.searchFrom_preserves
      (P := fun t' => t'.liveHop? now p port = t.liveHop? now p port)
      (fun q t' ht' => (liveHop?_pruneAndFind now p q t' port).trans ht') name name.length rfl
  refine { h with hops := fun port => ?_ }
  exact (hsame _ _ port).trans ((h.hops port).trans (hsame _ _ port).symm)

theorem alike_findExact (h : Alike p w v) (q : Name) :
    Alike p (LocalRouteController.findExact q w).2 (LocalRouteController.findExact q v).2 := by
  refine { h with hops := fun port => ?_ }
  exact (liveHop?_pruneAndFind _ p q _ port).trans
    ((h.hops port).trans (liveHop?_pruneAndFind _ p q _ port).symm)

/-! ## Runs -/

/-- The step itself if it is one of the prefix or a lookup; otherwise time passes until
the clock it leaves. -/
def substitute (p : Name) (a : LinkAction) (clock : Clock) : LinkAction :=
  match a.pfx? with
  | none => a
  | some q => if q = p then a else .wait clock

/-- The run without the Trace updates, timers and messages of the prefixes other than
`p`: time passes instead, and the event identifiers they used stay unused. -/
def without (cfg : LinkConfig) (p : Name) : LinkWorld → List LinkAction → List LinkAction
  | _, [] => []
  | w, a :: actions =>
    let w' := perform cfg w a
    substitute p a w'.clock :: without cfg p w' actions

/-- Everything in the two queues belongs to the prefix. -/
structure Only (p : Name) (v : LinkWorld) : Prop where
  timers : ∀ e ∈ v.ctl.events, e.event.pfx = p
  messages : ∀ e ∈ v.env.central.events, e.event.message.pfx = p

/-- The world of a run and that of the run without the other prefixes. -/
structure Mirrors (cfg : LinkConfig) (p : Name) (w v : LinkWorld) : Prop where
  left : LinkInv cfg w
  right : LinkInv cfg v
  alike : Alike p w v
  only : Only p v

theorem Mirrors.mem_timers (h : Mirrors cfg p w v) {e : Scheduled LocalEvent}
    (he : e ∈ v.ctl.events) : e ∈ w.ctl.events := by
  have hown : e ∈ timersOf p v.ctl.events :=
    List.mem_filter.mpr ⟨he, decide_eq_true (h.only.timers e he)⟩
  rw [← h.alike.timers] at hown
  exact (List.mem_filter.mp hown).1

theorem Mirrors.mem_messages (h : Mirrors cfg p w v) {e : Scheduled FlowTableEvent}
    (he : e ∈ v.env.central.events) : e ∈ w.env.central.events := by
  have hown : e ∈ messagesOf p v.env.central.events :=
    List.mem_filter.mpr ⟨he, decide_eq_true (h.only.messages e he)⟩
  rw [← h.alike.messages] at hown
  exact (List.mem_filter.mp hown).1

theorem Mirrors.isDue (h : Mirrors cfg p w v) {key : Nat × Nat} (hdue : IsDue w key) :
    IsDue v key :=
  ⟨fun e he => hdue.1 e (h.mem_timers he), fun e he => hdue.2 e (h.mem_messages he)⟩

/-- A step of the prefix that the run can take, the other run can take as well. -/
theorem Mirrors.enabled_own (h : Mirrors cfg p w v) {a : LinkAction} (ha : Enabled w a)
    (hp : a.pfx? = some p) : Enabled v a := by
  cases a with
  | trace pfx nameHashes prefixLen port seq ttl => trivial
  | timer e =>
      cases hp
      have hown : e ∈ timersOf e.event.pfx w.ctl.events :=
        List.mem_filter.mpr ⟨ha.1, decide_eq_true rfl⟩
      rw [h.alike.timers] at hown
      exact ⟨(List.mem_filter.mp hown).1, h.isDue ha.2⟩
  | message e =>
      cases hp
      have hown : e ∈ messagesOf e.event.message.pfx w.env.central.events :=
        List.mem_filter.mpr ⟨ha.1, decide_eq_true rfl⟩
      rw [h.alike.messages] at hown
      exact ⟨(List.mem_filter.mp hown).1, h.isDue ha.2⟩
  | findExact pfx => cases hp
  | findLongestPrefix name => cases hp
  | wait clock => cases hp

/-- A step of the prefix schedules nothing for the others. -/
theorem Only.perform_own (h : Only p v) (hinv : LinkInv cfg v) {a : LinkAction}
    (ha : Enabled v a) (hp : a.pfx? = some p) : Only p (perform cfg v a) where
  timers e he := by
    by_contra hne
    have hsame := (alike_other hinv ha hp (Ne.symm hne) (Alike.refl e.event.pfx v)).1.timers
    have hown : e ∈ timersOf e.event.pfx (perform cfg v a).ctl.events :=
      List.mem_filter.mpr ⟨he, decide_eq_true rfl⟩
    rw [hsame] at hown
    exact hne (h.timers e (List.mem_filter.mp hown).1)
  messages e he := by
    by_contra hne
    have hsame :=
      (alike_other hinv ha hp (Ne.symm hne) (Alike.refl e.event.message.pfx v)).1.messages
    have hown : e ∈ messagesOf e.event.message.pfx (perform cfg v a).env.central.events :=
      List.mem_filter.mpr ⟨he, decide_eq_true rfl⟩
    rw [hsame] at hown
    exact hne (h.messages e (List.mem_filter.mp hown).1)

/-- The time that another prefix's step takes can pass in the other run, too. -/
theorem Mirrors.enabled_wait (h : Mirrors cfg p w v) (hinv : LinkInv cfg w')
    (halike : Alike p w' { v with clock := w'.clock }) (hnow : w.clock.now ≤ w'.clock.now)
    (huid : w.clock.uid ≤ w'.clock.uid) : Enabled v (.wait w'.clock) := by
  refine ⟨h.alike.clock ▸ hnow, h.alike.clock ▸ huid, fun e he => ?_, fun e he => ?_⟩
  · have hown : e ∈ timersOf p v.ctl.events :=
      List.mem_filter.mpr ⟨he, decide_eq_true (h.only.timers e he)⟩
    rw [← halike.timers] at hown
    exact hinv.temporary.queue.due e (List.mem_filter.mp hown).1
  · have hown : e ∈ messagesOf p v.env.central.events :=
      List.mem_filter.mpr ⟨he, decide_eq_true (h.only.messages e he)⟩
    rw [← halike.messages] at hown
    exact hinv.central.due e (List.mem_filter.mp hown).1

/-- One step of a run, and what stands for it in the run without the other prefixes. -/
theorem Mirrors.step (h : Mirrors cfg p w v) {a : LinkAction} (ha : Enabled w a) :
    Enabled v (substitute p a (perform cfg w a).clock) ∧
      Mirrors cfg p (perform cfg w a)
        (perform cfg v (substitute p a (perform cfg w a).clock)) := by
  have hleft := h.left.perform ha
  have hfinish : ∀ {b : LinkAction}, Enabled v b → Alike p (perform cfg w a) (perform cfg v b) →
      Only p (perform cfg v b) →
      Enabled v b ∧ Mirrors cfg p (perform cfg w a) (perform cfg v b) :=
    fun hb halike honly => ⟨hb, hleft, h.right.perform hb, halike, honly⟩
  unfold substitute
  cases hpfx : a.pfx? with
  | none =>
      cases a with
      | trace pfx nameHashes prefixLen port seq ttl => cases hpfx
      | timer e => cases hpfx
      | message e => cases hpfx
      | findExact q => exact hfinish trivial (alike_findExact h.alike q) ⟨h.only.1, h.only.2⟩
      | findLongestPrefix name =>
          exact hfinish trivial (alike_findLongestPrefix h.alike name) ⟨h.only.1, h.only.2⟩
      | wait clock =>
          obtain ⟨hnow, huid, hdue, hdue'⟩ := ha
          refine hfinish ?_ (h.alike.elapse clock hnow) ⟨h.only.1, h.only.2⟩
          exact ⟨h.alike.clock ▸ hnow, h.alike.clock ▸ huid, fun e he => hdue e (h.mem_timers he),
            fun e he => hdue' e (h.mem_messages he)⟩
  | some q =>
      simp only
      split
      next hq =>
        subst hq
        have hb := h.enabled_own ha hpfx
        exact hfinish hb (alike_own h.left ha hpfx h.alike) (h.only.perform_own h.right hb hpfx)
      next hq =>
        obtain ⟨halike, hnow, huid⟩ := alike_other h.left ha hpfx hq h.alike
        exact hfinish (h.enabled_wait hleft halike hnow huid) halike ⟨h.only.1, h.only.2⟩

theorem Mirrors.run (h : Mirrors cfg p w v) {actions : List LinkAction}
    (hrun : IsRun cfg w actions) :
    IsRun cfg v (without cfg p w actions) ∧
      ∀ n, Mirrors cfg p (after cfg w (actions.take n))
        (after cfg v ((without cfg p w actions).take n)) := by
  induction actions generalizing w v with
  | nil => exact ⟨trivial, fun n => by simpa [after, without] using h⟩
  | cons a actions ih =>
      obtain ⟨ha, hrest⟩ := hrun
      obtain ⟨hb, hnext⟩ := h.step ha
      obtain ⟨hrun', hstates⟩ := ih hnext hrest
      refine ⟨⟨hb, hrun'⟩, fun n => ?_⟩
      cases n with
      | zero => exact h
      | succ n => exact hstates n

/-- A lookup that finds the prefix returns its live hops under its own name. -/
theorem LinkInv.shown_findExact (h : LinkInv cfg w) {entry : ForwardingEntry}
    (hfound : (LocalRouteController.findExact p w).1 = some entry) :
    TemporaryForwardingTable.shown (some entry) =
      some (p, fun port => w.ctl.temporaryFib.liveHop? w.clock.now p port) := by
  have hlive : (w.ctl.temporaryFib.entries[p]?).bind
      (TemporaryForwardingTable.live? w.clock.now) = some entry :=
    (TemporaryForwardingTable.pruneAndFind_fst _ _ _).symm.trans hfound
  have hpfx : entry.pfx = p := by
    obtain ⟨stored, hstored, hprune⟩ := Option.bind_eq_some_iff.mp hlive
    rw [TemporaryForwardingTable.live?_eq_some hprune]
    rcases h.temporary.each p with hvacant | ⟨u, hres⟩
    · rw [hvacant.fib] at hstored
      cases hstored
    · obtain rfl : u.pfx = p := hres.pfx
      have hfib := hres.fib
      unfold FibHolds at hfib
      rw [hstored] at hfib
      exact hfib.1
  simp only [TemporaryForwardingTable.shown, Option.map_some, hpfx,
    TemporaryForwardingTable.getElem?_of_live? hlive]

/-- What a lookup returns depends on the live hops only. -/
theorem Mirrors.findExact_eq (h : Mirrors cfg p w v) :
    TemporaryForwardingTable.shown (LocalRouteController.findExact p w).1 =
      TemporaryForwardingTable.shown (LocalRouteController.findExact p v).1 := by
  have hnone : ∀ w : LinkWorld, (LocalRouteController.findExact p w).1 = none ↔
      ∀ port, w.ctl.temporaryFib.liveHop? w.clock.now p port = none := by
    intro w
    have hfst : (LocalRouteController.findExact p w).1 =
        (w.ctl.temporaryFib.entries[p]?).bind (TemporaryForwardingTable.live? w.clock.now) :=
      TemporaryForwardingTable.pruneAndFind_fst _ _ _
    rw [hfst]
    exact TemporaryForwardingTable.bind_live?_eq_none_iff
  have hiff : (LocalRouteController.findExact p w).1 = none ↔
      (LocalRouteController.findExact p v).1 = none := by
    rw [hnone, hnone]
    exact forall_congr' fun port => by rw [h.alike.hops]
  cases hw : (LocalRouteController.findExact p w).1 with
  | none => rw [hiff.mp hw]
  | some entry =>
      cases hv : (LocalRouteController.findExact p v).1 with
      | none => rw [hiff.mpr hv] at hw; cases hw
      | some entry' =>
          rw [h.left.shown_findExact hw, h.right.shown_findExact hv]
          simp only [h.alike.hops]

/-- The Trace updates, timers and messages that are left are those of the prefix. -/
theorem filter_without (cfg : LinkConfig) (p : Name) (w : LinkWorld)
    (actions : List LinkAction) :
    (without cfg p w actions).filter (fun a => a.pfx?.isSome) =
      actions.filter fun a => a.pfx? = some p := by
  induction actions generalizing w with
  | nil => rfl
  | cons a actions ih =>
      rw [without, List.filter_cons, List.filter_cons, ih]
      unfold substitute
      cases hpfx : a.pfx? with
      | none => simp [hpfx]
      | some q =>
          by_cases hq : q = p
          · simp [hq, hpfx]
          · simp [hq, LinkAction.pfx?]

/-- Deleting the Trace updates, timers and messages of all other prefixes from a run leaves
a run.  It takes the remaining steps at the same times, and after every step it holds and
has shown the same for the prefix. -/
theorem prefix_isolation {w₀ : LinkWorld} (hinit : IsInitial w₀) {actions : List LinkAction}
    (hrun : IsRun cfg w₀ actions) (p : Name) :
    IsRun cfg w₀ (without cfg p w₀ actions) ∧
    ((without cfg p w₀ actions).filter (fun a => a.pfx?.isSome) =
      actions.filter fun a => a.pfx? = some p) ∧
    ∀ n, Alike p (after cfg w₀ (actions.take n))
        (after cfg w₀ ((without cfg p w₀ actions).take n)) ∧
      TemporaryForwardingTable.shown
          (LocalRouteController.findExact p (after cfg w₀ (actions.take n))).1 =
        TemporaryForwardingTable.shown
          (LocalRouteController.findExact p
            (after cfg w₀ ((without cfg p w₀ actions).take n))).1 := by
  have honly : Only p w₀ := by
    have hevents : w₀.ctl.events = [] := by rw [hinit.temporary.1]
    have hmessages : w₀.env.central.events = [] := hinit.central.2.1
    constructor
    · simp [hevents]
    · simp [hmessages]
  have hstart : Mirrors cfg p w₀ w₀ :=
    ⟨LinkInv.initial hinit, LinkInv.initial hinit, Alike.refl p w₀, honly⟩
  obtain ⟨hrun', hstates⟩ := hstart.run hrun
  exact ⟨hrun', filter_without cfg p w₀ actions,
    fun n => ⟨(hstates n).alike, (hstates n).findExact_eq⟩⟩

/-! ## A sample run -/

/-- Both guards are on and requests are retried; nothing is lost. -/
def sampleConfig : LinkConfig where
  temporary :=
    { entryLifetime := 0
      controllerRetryTimeout := 10
      controllerRetryLimit := 1
      generationGuardEnabled := true }
  central := { generationGuardEnabled := true, drop := fun _ _ => false, delay := fun _ _ => 0 }
  verdict _ := true

def startWorld : LinkWorld where
  clock := ⟨0, 0⟩
  ctl := {}
  log := []
  env := { central := {}, history := [], flowMods := [] }

/-- The first message in flight. -/
def firstMessage (w : LinkWorld) : LinkAction :=
  match w.env.central.events with
  | [] => .wait w.clock
  | e :: _ => .message e

/-- An update of a prefix and one of an extension of it; both are in flight. -/
def sampleTraces : List LinkAction :=
  [.trace Loop.samplePrefix [1, 0xff, 0xff, 0xff] 1 3 1 5,
    .trace (Loop.samplePrefix ++ Loop.samplePrefix) [1, 1, 0xff, 0xff] 2 4 7 0]

/-- The FlowMod of the first update is applied and acknowledged. -/
def sampleActions : List LinkAction :=
  sampleTraces ++ [firstMessage (after sampleConfig startWorld sampleTraces)]

theorem isRun_sampleActions : IsRun sampleConfig startWorld sampleActions := by
  have hmessage : Enabled (after sampleConfig startWorld sampleTraces)
      (firstMessage (after sampleConfig startWorld sampleTraces)) := by decide
  exact ⟨trivial, trivial, hmessage, trivial⟩

theorem prefix_isolation_sampleActions :
    IsRun sampleConfig startWorld
        (without sampleConfig Loop.samplePrefix startWorld sampleActions) ∧
      Alike Loop.samplePrefix (after sampleConfig startWorld (sampleActions.take 3))
        (after sampleConfig startWorld
          ((without sampleConfig Loop.samplePrefix startWorld sampleActions).take 3)) := by
  have hinit : IsInitial startWorld := ⟨⟨rfl, rfl⟩, ⟨rfl, rfl, rfl⟩⟩
  obtain ⟨hrun, -, hstates⟩ :=
    prefix_isolation hinit isRun_sampleActions Loop.samplePrefix
  exact ⟨hrun, (hstates 3).1⟩

end Link

end Statim
