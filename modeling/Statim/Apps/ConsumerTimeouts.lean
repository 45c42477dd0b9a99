import Statim.Apps.ConsumerBooks

/-!
# The timeouts of a consumer

The consumer resets its round-trip estimator whenever Data arrives, so that no sample
ever reaches the timeout: it is the initial one throughout.  An Interest times out no
earlier than that, and no later than one check interval after it.
-/

namespace Statim

open Support RttMeanDeviation

namespace StatimConsumer

open Consumer

variable {cfg : ConsumerConfig} {permits : ConsumerWorld → UInt32 → Prop} {startSeq : UInt32}
  {w w' : ConsumerWorld} {draw : ℕ} {a : ConsumerAction}

/-! ## The estimator -/

theorem unsampled_move (h : Unsampled cfg.rtt w.app.rtt) (hmove : Move cfg permits w w') :
    Unsampled cfg.rtt w'.app.rtt := by
  cases hmove with
  | reschedule hmove =>
      have hrtt : w'.app.rtt = w.app.rtt := hmove.field Consumer.rtt fun _ => rfl
      rw [hrtt]
      exact h
  | resend => exact h.sentSeq _ _ _
  | sendNew => exact h.sentSeq _ _ _
  | finish => exact h
  | timeout => exact h.sentSeq _ _ _
  | settle => exact unsampled_reset _
  | late => exact h

/-- No sample is left when a timeout is computed. -/
theorem Reachable.unsampled (h : Reachable cfg permits startSeq w) :
    Unsampled cfg.rtt w.app.rtt :=
  h.of_moves (fun v => Unsampled cfg.rtt v.app.rtt) (fun _ => unsampled_initial)
    fun _ _ hv hmove => unsampled_move hv hmove

/-! ## The loop -/

@[simp] theorem entries_onTimeout (cfg : ConsumerConfig) (draw : ℕ) (seq : UInt32)
    (w : ConsumerWorld) :
    (onTimeout cfg draw seq w).app.seqTimeouts = w.app.seqTimeouts :=
  (reschedules_scheduleNextPacket cfg draw
    (requeue seq (countTimeout cfg seq w))).field Consumer.seqTimeouts fun _ => rfl

theorem now_scheduleNextPacket (cfg : ConsumerConfig) (draw : ℕ) (w : ConsumerWorld) :
    (scheduleNextPacket cfg draw w).clock.now = w.clock.now := by
  unfold scheduleNextPacket
  split
  · rfl
  split
  · rfl
  · rfl

theorem now_onTimeout (cfg : ConsumerConfig) (draw : ℕ) (seq : UInt32) (w : ConsumerWorld) :
    (onTimeout cfg draw seq w).clock.now = w.clock.now :=
  now_scheduleNextPacket cfg draw (requeue seq (countTimeout cfg seq w))

theorem now_expireTimeouts (draw : ℕ) (rto : ℤ) (fuel : ℕ) :
    (expireTimeouts cfg draw rto fuel w).clock.now = w.clock.now :=
  expireTimeouts_induct (fun v => v.clock.now = w.clock.now)
    (fun v entry _ hv _ _ => (now_onTimeout cfg draw entry.1 (eraseTimeout entry.1 v)).trans hv) rfl

/-- The loop takes entries off, and no others appear. -/
theorem mem_entries_expireTimeouts {rto : ℤ} {fuel : ℕ} {entry : UInt32 × ℕ}
    (hentry : entry ∈ (expireTimeouts cfg draw rto fuel w).app.seqTimeouts.entries) :
    entry ∈ w.app.seqTimeouts.entries := by
  refine expireTimeouts_induct (fun v => entry ∈ v.app.seqTimeouts.entries →
    entry ∈ w.app.seqTimeouts.entries) (fun v first rest hv _ _ hmem => ?_) id hentry
  rw [entries_onTimeout] at hmem
  exact hv (TimedSet.mem_erase.mp hmem).1

/-- With fuel for every entry the loop leaves none that is due. -/
theorem lt_of_expireTimeouts {rto : ℤ} {fuel : ℕ}
    (hfuel : w.app.seqTimeouts.entries.length ≤ fuel) {entry : UInt32 × ℕ}
    (hentry : entry ∈ (expireTimeouts cfg draw rto fuel w).app.seqTimeouts.entries) :
    (w.clock.now : ℤ) < entry.2 + rto := by
  induction fuel generalizing w with
  | zero =>
      have hempty := List.length_eq_zero_iff.mp (Nat.le_zero.mp hfuel)
      have hentry : entry ∈ w.app.seqTimeouts.entries := hentry
      rw [hempty] at hentry
      exact absurd hentry List.not_mem_nil
  | succ fuel ih =>
      rw [expireTimeouts] at hentry
      split at hentry
      next hempty =>
        rw [hempty] at hentry
        exact absurd hentry List.not_mem_nil
      next first rest hentries =>
        split at hentry
        next hdue =>
          have herased : (onTimeout cfg draw first.1
              (eraseTimeout first.1 w)).app.seqTimeouts.entries = rest := by
            rw [entries_onTimeout]
            exact TimedSet.entries_erase_head hentries
          have hshorter : rest.length ≤ fuel := by
            rw [hentries, List.length_cons] at hfuel
            omega
          rw [← herased] at hshorter
          have hlater := ih hshorter hentry
          rw [now_onTimeout] at hlater
          exact hlater
        next hnot =>
          have hfirst := TimedSet.head_le hentries hentry
          omega

/-! ## Timeliness -/

/-- How long after it was sent an Interest may still be outstanding. -/
def limit (cfg : ConsumerConfig) : ℤ := max (initialTimeout cfg.rtt) 0 + cfg.retxTimer

/-- A check is scheduled, in time for every outstanding Interest. -/
structure Checked (cfg : ConsumerConfig) (w : ConsumerWorld) : Prop where
  pending : ∃ e ∈ w.app.events, e.event = .checkRetxTimeout
  soon : ∀ e ∈ w.app.events, e.event = .checkRetxTimeout → e.ts ≤ w.clock.now + cfg.retxTimer
  covers : ∀ e ∈ w.app.events, e.event = .checkRetxTimeout →
    ∀ entry ∈ w.app.seqTimeouts.entries, (e.ts : ℤ) ≤ entry.2 + limit cfg

/-- The logged timeouts were on time. -/
def OnTime (cfg : ConsumerConfig) (log : List ConsumerObs) : Prop :=
  ∀ (seq : UInt32) (sendTime time : ℕ), .timeout seq sendTime time ∈ log →
    (sendTime : ℤ) + initialTimeout cfg.rtt ≤ time ∧ (time : ℤ) ≤ sendTime + limit cfg

theorem mem_events_scheduleNextPacket {e : Scheduled ConsumerEvent}
    (hcheck : e.event = .checkRetxTimeout) :
    e ∈ (scheduleNextPacket cfg draw w).app.events ↔ e ∈ w.app.events := by
  have hother : e.event ≠ .sendPacket := by
    rw [hcheck]
    simp
  unfold scheduleNextPacket
  split
  · exact mem_append_of_event_ne hother
  split
  · exact mem_append_of_event_ne hother
  · exact Iff.rfl

theorem Checked.scheduleNextPacket (h : Checked cfg w) (draw : ℕ) :
    Checked cfg (scheduleNextPacket cfg draw w) := by
  have hkept := reschedules_scheduleNextPacket cfg draw w
  have htimeouts : (StatimConsumer.scheduleNextPacket cfg draw w).app.seqTimeouts =
      w.app.seqTimeouts := hkept.field Consumer.seqTimeouts fun _ => rfl
  refine ⟨?_, fun e he hcheck => ?_, fun e he hcheck => ?_⟩
  · obtain ⟨e, he, hcheck⟩ := h.pending
    exact ⟨e, (mem_events_scheduleNextPacket hcheck).mpr he, hcheck⟩
  · rw [now_scheduleNextPacket]
    exact h.soon e ((mem_events_scheduleNextPacket hcheck).mp he) hcheck
  · rw [htimeouts]
    exact h.covers e ((mem_events_scheduleNextPacket hcheck).mp he) hcheck

/-- An Interest that goes out now is covered by the next check. -/
theorem Checked.sendInterest (h : Checked cfg w) (seq : UInt32) :
    Checked cfg (sendInterest cfg seq w) := by
  refine ⟨h.pending, h.soon, fun e he hcheck entry hentry => ?_⟩
  rcases TimedSet.mem_insert.mp hentry with hold | ⟨-, rfl⟩
  · exact h.covers e he hcheck entry hold
  · have hsoon := h.soon e he hcheck
    unfold limit
    dsimp only
    omega

theorem Checked.sendPacket (h : Checked cfg w) (draw : ℕ) :
    Checked cfg (sendPacket cfg draw w) := by
  have hpopped : ∀ seq retxSeqs, Checked cfg { w with app := { w.app with
      seq := seq
      retxSeqs := retxSeqs } } := fun _ _ => ⟨h.pending, h.soon, h.covers⟩
  unfold StatimConsumer.sendPacket
  split
  · exact h
  · dsimp only
    split
    · split
      · exact hpopped _ _
      · exact ((hpopped _ _).sendInterest _).scheduleNextPacket draw
    · exact ((hpopped _ _).sendInterest _).scheduleNextPacket draw

theorem Checked.takeEvent (h : Checked cfg w) (htimers : Timers w)
    {e : Scheduled ConsumerEvent} (hnext : IsNext e w.app.events)
    (hevent : e.event = .sendPacket) : Checked cfg (takeEvent e w) := by
  refine ⟨?_, fun e' he' hcheck => ?_, fun e' he' => h.covers e' (mem_cancel.mp he').1⟩
  · obtain ⟨e', he', hcheck⟩ := h.pending
    refine ⟨e', mem_cancel.mpr ⟨he', fun huid => ?_⟩, hcheck⟩
    rw [htimers.queue.uid_unique he' hnext.1 huid, hevent] at hcheck
    cases hcheck
  · have hsoon := h.soon e' (mem_cancel.mp he').1 hcheck
    have hdue := htimers.queue.due e hnext.1
    have hnow : (StatimConsumer.takeEvent e w).clock.now = e.ts := rfl
    omega

/-- After a check the next one is in time for all that is left. -/
theorem checked_checkRetxTimeout (hunsampled : Unsampled cfg.rtt w.app.rtt)
    (hsoon : ∀ e ∈ w.app.events, e.event = .checkRetxTimeout →
      e.ts ≤ w.clock.now + cfg.retxTimer)
    (hcovers : ∀ e ∈ w.app.events, e.event = .checkRetxTimeout →
      ∀ entry ∈ w.app.seqTimeouts.entries, (e.ts : ℤ) ≤ entry.2 + limit cfg) (draw : ℕ) :
    Checked cfg (checkRetxTimeout cfg draw w) := by
  have hevents : ∀ e : Scheduled ConsumerEvent, e.event = .checkRetxTimeout →
      e ∈ (expireTimeouts cfg draw (w.app.rtt.retransmitTimeout cfg.rtt)
        w.app.seqTimeouts.entries.length w).app.events → e ∈ w.app.events := by
    intro e hcheck he
    refine expireTimeouts_induct (fun v => e ∈ v.app.events → e ∈ w.app.events)
      (fun v entry rest hv _ _ hmem => hv ?_) id he
    have hbefore : e ∈ (requeue entry.1 (countTimeout cfg entry.1
        (eraseTimeout entry.1 v))).app.events := (mem_events_scheduleNextPacket hcheck).mp hmem
    exact hbefore
  have hnow : (expireTimeouts cfg draw (w.app.rtt.retransmitTimeout cfg.rtt)
      w.app.seqTimeouts.entries.length w).clock.now = w.clock.now := now_expireTimeouts _ _ _
  have hleft : ∀ entry ∈ (checkRetxTimeout cfg draw w).app.seqTimeouts.entries,
      (w.clock.now : ℤ) < entry.2 + initialTimeout cfg.rtt := by
    intro entry hentry
    rw [← hunsampled.retransmitTimeout]
    exact lt_of_expireTimeouts (Nat.le_refl _) hentry
  refine ⟨⟨_, List.mem_append_right _ List.mem_cons_self, rfl⟩, fun e he hcheck => ?_,
    fun e he hcheck entry hentry => ?_⟩
  · have hafter : (checkRetxTimeout cfg draw w).clock.now = w.clock.now := hnow
    rw [hafter]
    rcases List.mem_append.mp he with hold | hnew
    · exact hsoon e (hevents e hcheck hold) hcheck
    · rw [List.mem_singleton.mp hnew, Clock.schedule_ts, hnow]
  · have hlate := hleft entry hentry
    rcases List.mem_append.mp he with hold | hnew
    · exact hcovers e (hevents e hcheck hold) hcheck entry (mem_entries_expireTimeouts hentry)
    · rw [List.mem_singleton.mp hnew, Clock.schedule_ts, hnow]
      unfold limit
      omega

/-- What is logged while the entries are taken off. -/
theorem onTime_expireTimeouts (haccounts : Accounts startSeq w) (hlog : OnTime cfg w.log)
    (hcovers : ∀ entry ∈ w.app.seqTimeouts.entries, (w.clock.now : ℤ) ≤ entry.2 + limit cfg)
    (draw fuel : ℕ) : OnTime cfg
      (expireTimeouts cfg draw (initialTimeout cfg.rtt) fuel w).log := by
  refine (expireTimeouts_induct (fun v => Accounts startSeq v ∧ OnTime cfg v.log ∧
    ∀ entry ∈ v.app.seqTimeouts.entries, (v.clock.now : ℤ) ≤ entry.2 + limit cfg)
    (fun v first rest hv hentries hdue => ?_) ⟨haccounts, hlog, hcovers⟩).2.1
  obtain ⟨hbooks, htimely, hlate⟩ := hv
  have hfirst : first ∈ v.app.seqTimeouts.entries := by
    rw [hentries]
    exact List.mem_cons_self
  have hkept := reschedules_scheduleNextPacket cfg draw
    (requeue first.1 (countTimeout cfg first.1 (eraseTimeout first.1 v)))
  refine ⟨(hbooks.timeout (TimedSet.mem_keys_of_mem hfirst)).reschedule hkept, ?_, ?_⟩
  · have hsendTime : (eraseTimeout first.1 v).app.seqSendTime[first.1]? = some first.2 :=
      hbooks.sendTime first.1 first.2 hfirst
    have hlogged : (onTimeout cfg draw first.1 (eraseTimeout first.1 v)).log =
        v.log ++ [.timeout first.1 first.2 v.clock.now] := by
      have hcounted : (requeue first.1 (countTimeout cfg first.1 (eraseTimeout first.1 v))).log =
          v.log ++ ((eraseTimeout first.1 v).app.seqSendTime[first.1]?.map fun t =>
            ConsumerObs.timeout first.1 t v.clock.now).toList := rfl
      rw [onTimeout, hkept.log, hcounted, hsendTime]
      rfl
    rw [hlogged]
    intro seq sendTime time hmem
    rcases List.mem_append.mp hmem with hold | hnew
    · exact htimely seq sendTime time hold
    · rw [List.mem_singleton, ConsumerObs.timeout.injEq] at hnew
      obtain ⟨-, rfl, rfl⟩ := hnew
      exact ⟨hdue, hlate first hfirst⟩
  · rw [now_onTimeout, entries_onTimeout]
    exact fun entry hentry => hlate entry (TimedSet.mem_erase.mp hentry).1

/-- What is logged besides timeouts does not matter. -/
theorem OnTime.append {log news : List ConsumerObs} (h : OnTime cfg log)
    (hnews : ∀ seq sendTime time, ConsumerObs.timeout seq sendTime time ∉ news) :
    OnTime cfg (log ++ news) := by
  intro seq sendTime time hmem
  rcases List.mem_append.mp hmem with hold | hnew
  · exact h seq sendTime time hold
  · exact absurd hnew (hnews seq sendTime time)

theorem onTime_sendPacket (h : OnTime cfg w.log) (draw : ℕ) :
    OnTime cfg (sendPacket cfg draw w).log := by
  have hsent : ∀ seq k retxSeqs, OnTime cfg (scheduleNextPacket cfg draw
      (sendInterest cfg k { w with app := { w.app with
        seq := seq
        retxSeqs := retxSeqs } })).log := by
    intro seq k retxSeqs
    rw [(reschedules_scheduleNextPacket cfg draw _).log]
    exact h.append (by simp)
  unfold sendPacket
  split
  · exact h
  · dsimp only
    split
    · split
      · exact h
      · exact hsent _ _ _
    · exact hsent _ _ _

theorem onTime_settle (h : OnTime cfg w.log) (seq : UInt32) :
    OnTime cfg (settle cfg seq w).log := by
  refine h.append fun seq' sendTime time hmem => ?_
  rcases List.mem_append.mp hmem with hlast | hfull
  · obtain ⟨t, -, heq⟩ := Option.map_eq_some_iff.mp (Option.mem_toList.mp hlast)
    cases heq
  · obtain ⟨t, -, heq⟩ := Option.map_eq_some_iff.mp (Option.mem_toList.mp hfull)
    cases heq

/-- A consumer whose checks are on time. -/
structure Timely (cfg : ConsumerConfig) (w : ConsumerWorld) : Prop where
  checked : Checked cfg w
  onTime : OnTime cfg w.log

theorem Timely.step (h : Timely cfg w) (htimers : Timers w)
    (hunsampled : Unsampled cfg.rtt w.app.rtt) (haccounts : Accounts startSeq w)
    (hstep : ConsumerStep cfg w a w') : Timely cfg w' := by
  cases hstep with
  | start draw hinactive hfirst =>
      have hactive : Checked cfg { w with app := { w.app with active := true } } :=
        ⟨h.checked.pending, h.checked.soon, h.checked.covers⟩
      refine ⟨hactive.scheduleNextPacket draw, ?_⟩
      have hlog : (startApplication cfg draw w).log = w.log :=
        (reschedules_scheduleNextPacket cfg draw _).log
      rw [hlog]
      exact h.onTime
  | stop =>
      refine ⟨⟨?_, fun e he => h.checked.soon e (mem_cancel?.mp he).1,
        fun e he => h.checked.covers e (mem_cancel?.mp he).1⟩, h.onTime⟩
      obtain ⟨e, he, hcheck⟩ := h.checked.pending
      refine ⟨e, mem_cancel?.mpr ⟨he, fun hhandle => ?_⟩, hcheck⟩
      rw [(htimers.send e he).mpr hhandle] at hcheck
      cases hcheck
  | @fire draw e hnext =>
      cases hevent : e.event with
      | sendPacket =>
          rw [fire, hevent]
          exact ⟨(h.checked.takeEvent htimers hnext hevent).sendPacket draw,
            onTime_sendPacket (w := takeEvent e w) h.onTime draw⟩
      | checkRetxTimeout =>
          rw [fire, hevent]
          have hdue := htimers.queue.due e hnext.1
          have hnow : (takeEvent e w).clock.now = e.ts := rfl
          refine ⟨checked_checkRetxTimeout (w := takeEvent e w) hunsampled ?_ ?_ draw, ?_⟩
          · intro e' he' hcheck
            have hsoon := h.checked.soon e' (mem_cancel.mp he').1 hcheck
            omega
          · exact fun e' he' => h.checked.covers e' (mem_cancel.mp he').1
          · have hbooks : Accounts startSeq (takeEvent e w) :=
              ⟨haccounts.unstarted, haccounts.bound, haccounts.sent, haccounts.opened,
                haccounts.apart, haccounts.settled, haccounts.sendTime⟩
            have hlogged := onTime_expireTimeouts hbooks h.onTime
              (h.checked.covers e hnext.1 hevent) draw w.app.seqTimeouts.entries.length
            rw [← hunsampled.retransmitTimeout] at hlogged
            exact hlogged
  | data harrives =>
      rcases onData_cases harrives with ⟨seq, -, -, rfl⟩ | ⟨-, satisfied, rfl, -⟩
      · exact ⟨⟨h.checked.pending, h.checked.soon, fun e he hcheck entry hentry =>
          h.checked.covers e he hcheck entry (TimedSet.mem_erase.mp hentry).1⟩,
          onTime_settle h.onTime seq⟩
      · exact ⟨⟨h.checked.pending, h.checked.soon, h.checked.covers⟩, h.onTime⟩
  | elapse htime huid hdue =>
      refine ⟨⟨h.checked.pending, fun e he hcheck => ?_, h.checked.covers⟩, h.onTime⟩
      exact Nat.le_trans (h.checked.soon e he hcheck) (Nat.add_le_add_right htime _)

theorem timely_initial (cfg : ConsumerConfig) (startSeq : UInt32) (c : Clock) :
    Timely cfg (initial cfg startSeq c) := by
  refine ⟨⟨⟨_, List.mem_append_right _ List.mem_cons_self, rfl⟩, fun e he _ => ?_,
    fun e he hcheck entry hentry => ?_⟩, fun seq sendTime time hmem => ?_⟩
  · have he : e ∈ [c.schedule cfg.retxTimer .checkRetxTimeout] := he
    rw [List.mem_singleton.mp he]
    exact Nat.le_refl _
  · exact absurd hentry List.not_mem_nil
  · exact absurd hmem List.not_mem_nil

theorem Reachable.timely (h : Reachable cfg permits startSeq w) (hregular : Regular w) :
    Timely cfg w := by
  obtain ⟨c, hrun⟩ := h
  induction hrun with
  | refl => exact timely_initial cfg startSeq c
  | @tail v v' hbefore hstep ih =>
      have hreached : Reachable cfg permits startSeq v := ⟨c, hbefore⟩
      obtain ⟨a, hstep, hpermits⟩ := hstep
      have hearlier : Regular v := fun hmem => hregular (invariant_of_steps
        (fun u => noSeq ∈ u.app.seqFirstSent) hmem (fun _ _ hu hmove => hmove.seqFirstSent_mono hu)
        (hstep.moves hreached.timers.queue hpermits))
      exact (ih hearlier).step hreached.timers hreached.unsampled (hreached.accounts hearlier) hstep

/-- The timeout is the initial one throughout.  Until the number that stands for none has
been sent, every timeout is found no earlier than that after its Interest was sent, and no
later than one check interval after it; no Interest is outstanding for longer. -/
theorem timeouts_on_time (h : Reachable cfg permits startSeq w) :
    w.app.rtt.retransmitTimeout cfg.rtt = initialTimeout cfg.rtt ∧
      (noSeq ∉ w.app.seqFirstSent →
        (∀ (seq : UInt32) (sendTime time : ℕ), .timeout seq sendTime time ∈ w.log →
          (sendTime : ℤ) + initialTimeout cfg.rtt ≤ time ∧ (time : ℤ) ≤ sendTime + limit cfg) ∧
        ∀ entry ∈ w.app.seqTimeouts.entries, (w.clock.now : ℤ) ≤ entry.2 + limit cfg) := by
  refine ⟨h.unsampled.retransmitTimeout, fun hregular => ?_⟩
  have htimely := h.timely hregular
  refine ⟨htimely.onTime, fun entry hentry => ?_⟩
  obtain ⟨e, he, hcheck⟩ := htimely.checked.pending
  have hcovered := htimely.checked.covers e he hcheck entry hentry
  have hdue := h.timers.queue.due e he
  omega

theorem timeouts_on_time_sampleRun :
    ((0 : ℕ) : ℤ) + initialTimeout sampleConfig.rtt ≤ (5 : ℕ) ∧
      ((5 : ℕ) : ℤ) ≤ (0 : ℕ) + limit sampleConfig :=
  ((timeouts_on_time reachable_sampleRun).2 (by decide)).1 0 0 5 (by decide)

end StatimConsumer

end Statim
