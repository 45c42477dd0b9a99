import Statim.Apps.ConsumerRuns

/-!
# The send event of a consumer

At most one `SendPacket` is scheduled at any time, and one is scheduled whenever a
running consumer has anything to send.  Without randomization two Interests are never
closer than the configured period, whether they are new or sent again.
-/

namespace Statim

open Support

namespace StatimConsumer

open Consumer

variable {cfg : ConsumerConfig} {permits : ConsumerWorld → UInt32 → Prop} {startSeq : UInt32}
  {w w' : ConsumerWorld} {draw : ℕ} {a : ConsumerAction}

/-! ## The handle -/

/-- The handle of the send event is on the event that is scheduled, if one is. -/
structure Timers (w : ConsumerWorld) : Prop where
  queue : QueueInv w.clock w.app.events
  issued : ∀ u, w.app.sendEvent = some u → u < w.clock.uid
  send : ∀ e ∈ w.app.events, e.event = .sendPacket ↔ w.app.sendEvent = some e.uid
  unstarted : w.app.firstTime = true → ∀ e ∈ w.app.events, e.event ≠ .sendPacket

/-- A send event is scheduled. -/
def Awake (w : ConsumerWorld) : Prop := ∃ e ∈ w.app.events, e.event = .sendPacket

theorem Timers.isRunning_iff (h : Timers w) :
    isRunning w.app.sendEvent w.app.events = true ↔ Awake w := by
  cases hhandle : w.app.sendEvent with
  | none =>
      have hnone : ¬Awake w := by
        rintro ⟨e, he, hevent⟩
        have hsome := (h.send e he).mp hevent
        rw [hhandle] at hsome
        cases hsome
      simp [isRunning, hnone]
  | some uid =>
      rw [isRunning, List.any_eq_true]
      constructor
      · rintro ⟨e, he, huid⟩
        rw [beq_iff_eq] at huid
        exact ⟨e, he, (h.send e he).mpr (by rw [hhandle, huid])⟩
      · rintro ⟨e, he, hevent⟩
        have hsome := (h.send e he).mp hevent
        rw [hhandle, Option.some.injEq] at hsome
        exact ⟨e, he, beq_iff_eq.mpr hsome.symm⟩

/-- What a new send event makes of the schedule. -/
structure Schedules (delay : ℕ) (w w' : ConsumerWorld) : Prop where
  clock : w'.clock = w.clock.next
  handle : w'.app.sendEvent = some w.clock.uid
  events : w'.app.events = w.app.events ++ [w.clock.schedule delay .sendPacket]

theorem Timers.schedules (h : Timers w) {delay : ℕ} (hnone : ¬Awake w)
    (hnew : Schedules delay w w') (hfirst : w'.app.firstTime = false) : Timers w' := by
  refine ⟨?_, ?_, ?_, fun hstarted => ?_⟩
  · rw [hnew.clock, hnew.events]
    exact h.queue.schedule _ _
  · intro u hu
    rw [hnew.handle] at hu
    rw [hnew.clock, ← Option.some.inj hu]
    exact Nat.lt_succ_self _
  · intro e he
    rw [hnew.events] at he
    rw [hnew.handle]
    rcases List.mem_append.mp he with hold | hnew
    · have hevent : e.event ≠ .sendPacket := fun hevent => hnone ⟨e, hold, hevent⟩
      have huid : w.clock.uid ≠ e.uid := Nat.ne_of_gt (h.queue.issued e hold)
      simp [hevent, huid]
    · rw [List.mem_singleton.mp hnew]
      simp
  · rw [hfirst] at hstarted
    cases hstarted

/-- The next packet is scheduled unless one is scheduled already. -/
theorem scheduleNextPacket_cases (h : Timers w) (cfg : ConsumerConfig) (draw : ℕ) :
    (Awake w ∧ w.app.firstTime = false ∧ scheduleNextPacket cfg draw w = w) ∨
      (¬Awake w ∧ ∃ delay, Schedules delay w (scheduleNextPacket cfg draw w) ∧
        (w.app.firstTime = false → cfg.randomized = false → delay = cfg.period)) := by
  unfold scheduleNextPacket
  split
  next hfirst =>
    refine Or.inr ⟨?_, 0, ⟨rfl, rfl, rfl⟩, fun hlater => ?_⟩
    · rintro ⟨e, he, hevent⟩
      exact h.unstarted hfirst e he hevent
    · rw [hfirst] at hlater
      cases hlater
  next hfirst =>
    rw [Bool.not_eq_true] at hfirst
    split
    next hrunning =>
      refine Or.inr ⟨?_, _, ⟨rfl, rfl, rfl⟩, fun _ hfixed => ?_⟩
      · rw [← h.isRunning_iff]
        simpa using hrunning
      · rw [hfixed, if_neg Bool.false_ne_true]
    next hrunning =>
      refine Or.inl ⟨?_, hfirst, rfl⟩
      rw [← h.isRunning_iff]
      simpa using hrunning

theorem Timers.scheduleNextPacket (h : Timers w) (cfg : ConsumerConfig) (draw : ℕ) :
    Timers (scheduleNextPacket cfg draw w) := by
  rcases scheduleNextPacket_cases h cfg draw with ⟨-, -, hsame⟩ | ⟨hnone, delay, hnew, -⟩
  · rw [hsame]
    exact h
  · exact h.schedules hnone hnew (firstTime_scheduleNextPacket cfg draw w)

theorem awake_scheduleNextPacket (h : Timers w) (cfg : ConsumerConfig) (draw : ℕ) :
    Awake (StatimConsumer.scheduleNextPacket cfg draw w) := by
  rcases scheduleNextPacket_cases h cfg draw with ⟨hawake, -, hsame⟩ | ⟨-, delay, hnew, -⟩
  · rw [hsame]
    exact hawake
  · refine ⟨w.clock.schedule delay .sendPacket, ?_, rfl⟩
    rw [hnew.events]
    exact List.mem_append_right _ List.mem_cons_self

theorem Timers.scheduleCheck (h : Timers w) (cfg : ConsumerConfig) :
    Timers (scheduleCheck cfg w) := by
  refine ⟨h.queue.schedule _ _, fun u hu => Nat.lt_succ_of_lt (h.issued u hu), ?_, ?_⟩
  · intro e he
    rcases List.mem_append.mp he with hold | hnew
    · exact h.send e hold
    · rw [List.mem_singleton.mp hnew]
      constructor
      · intro hevent
        cases hevent
      · intro hhandle
        exact absurd (h.issued _ hhandle) (Nat.lt_irrefl _)
  · intro hfirst e he
    rcases List.mem_append.mp he with hold | hnew
    · exact h.unstarted hfirst e hold
    · rw [List.mem_singleton.mp hnew]
      simp

/-- An event that runs is no longer scheduled. -/
def takeEvent (e : Scheduled ConsumerEvent) (w : ConsumerWorld) : ConsumerWorld :=
  { w with
    clock := { w.clock with now := e.ts }
    app := { w.app with events := cancel e.uid w.app.events } }

theorem Timers.takeEvent (h : Timers w) {e : Scheduled ConsumerEvent}
    (hnext : IsNext e w.app.events) : Timers (takeEvent e w) where
  queue := (h.queue.cancel e.uid).advance fun _ he' => hnext.ts_le (mem_cancel.mp he').1
  issued := h.issued
  send e' he' := h.send e' (mem_cancel.mp he').1
  unstarted hfirst e' he' := h.unstarted hfirst e' (mem_cancel.mp he').1

/-- The send event was the only one. -/
theorem Timers.not_awake_takeEvent (h : Timers w) {e : Scheduled ConsumerEvent}
    (he : e ∈ w.app.events) (hevent : e.event = .sendPacket) :
    ¬Awake (StatimConsumer.takeEvent e w) := by
  rintro ⟨e', he', hevent'⟩
  obtain ⟨hmem, hne⟩ := mem_cancel.mp he'
  have hhandle := (h.send e he).mp hevent
  have hhandle' := (h.send e' hmem).mp hevent'
  rw [hhandle] at hhandle'
  exact hne (Option.some.inj hhandle').symm

/-! ## The handlers -/

/-- What each turn of the loop keeps, the loop keeps. -/
theorem expireTimeouts_induct (Inv : ConsumerWorld → Prop) {rto : ℤ}
    (hturn : ∀ w entry rest, Inv w → w.app.seqTimeouts.entries = entry :: rest →
      (entry.2 : ℤ) + rto ≤ w.clock.now →
        Inv (onTimeout cfg draw entry.1 (eraseTimeout entry.1 w)))
    {fuel : ℕ} (h : Inv w) : Inv (expireTimeouts cfg draw rto fuel w) := by
  induction fuel generalizing w with
  | zero => exact h
  | succ fuel ih =>
      rw [expireTimeouts]
      split
      · exact h
      next entry rest hentries =>
        split
        next hdue => exact ih (hturn w entry rest h hentries hdue)
        · exact h

theorem Timers.sendInterest (h : Timers w) (cfg : ConsumerConfig) (seq : UInt32) :
    Timers (sendInterest cfg seq w) := ⟨h.queue, h.issued, h.send, h.unstarted⟩

theorem Timers.sendPacket (h : Timers w) (cfg : ConsumerConfig) (draw : ℕ) :
    Timers (sendPacket cfg draw w) := by
  unfold StatimConsumer.sendPacket
  split
  · exact h
  · have hpopped : ∀ seq retxSeqs, Timers { w with app := { w.app with
        seq := seq
        retxSeqs := retxSeqs } } := fun _ _ => ⟨h.queue, h.issued, h.send, h.unstarted⟩
    dsimp only
    split
    · split
      · exact hpopped _ _
      · exact ((hpopped _ _).sendInterest cfg _).scheduleNextPacket cfg draw
    · exact ((hpopped _ _).sendInterest cfg _).scheduleNextPacket cfg draw

theorem Timers.eraseTimeout (h : Timers w) (seq : UInt32) : Timers (eraseTimeout seq w) :=
  ⟨h.queue, h.issued, h.send, h.unstarted⟩

theorem Timers.requeue (h : Timers w) (cfg : ConsumerConfig) (seq : UInt32) :
    Timers (requeue seq (countTimeout cfg seq w)) := ⟨h.queue, h.issued, h.send, h.unstarted⟩

theorem Timers.onTimeout (h : Timers w) (cfg : ConsumerConfig) (draw : ℕ) (seq : UInt32) :
    Timers (onTimeout cfg draw seq w) :=
  (h.requeue cfg seq).scheduleNextPacket cfg draw

theorem Timers.expireTimeouts (h : Timers w) (cfg : ConsumerConfig) (draw : ℕ) (rto : ℤ)
    (fuel : ℕ) : Timers (expireTimeouts cfg draw rto fuel w) := by
  refine expireTimeouts_induct Timers (fun w entry rest hw _ _ => ?_) h
  exact (hw.eraseTimeout entry.1).onTimeout cfg draw entry.1

theorem Timers.step (h : Timers w) (hstep : ConsumerStep cfg w a w') : Timers w' := by
  cases hstep with
  | start draw hinactive hfirst =>
      have hactive : Timers { w with app := { w.app with active := true } } :=
        ⟨h.queue, h.issued, h.send, h.unstarted⟩
      exact hactive.scheduleNextPacket cfg draw
  | stop =>
      exact ⟨h.queue.cancel? _, h.issued, fun e he => h.send e (mem_cancel?.mp he).1,
        fun hfirst e he => h.unstarted hfirst e (mem_cancel?.mp he).1⟩
  | @fire draw e hnext =>
      have htaken := h.takeEvent hnext
      cases hevent : e.event with
      | sendPacket =>
          rw [fire, hevent]
          exact htaken.sendPacket cfg draw
      | checkRetxTimeout =>
          rw [fire, hevent]
          exact (htaken.expireTimeouts cfg draw _ _).scheduleCheck cfg
  | data harrives =>
      rcases onData_cases harrives with ⟨seq, -, -, rfl⟩ | ⟨-, satisfied, rfl, -⟩
      · exact ⟨h.queue, h.issued, h.send, h.unstarted⟩
      · exact ⟨h.queue, h.issued, h.send, h.unstarted⟩
  | elapse htime huid hdue =>
      refine ⟨⟨h.queue.distinct, fun e he => Nat.lt_of_lt_of_le (h.queue.issued e he) huid, hdue⟩,
        fun u hu => Nat.lt_of_lt_of_le (h.issued u hu) huid, h.send, h.unstarted⟩

theorem timers_initial (cfg : ConsumerConfig) (startSeq : UInt32) (c : Clock) :
    Timers (initial cfg startSeq c) := by
  refine Timers.scheduleCheck ⟨QueueInv.nil c, ?_, ?_, ?_⟩ cfg
  · intro u hu
    cases hu
  · intro e he
    cases he
  · intro _ e he
    cases he

theorem Reachable.timers (h : Reachable cfg permits startSeq w) : Timers w := by
  obtain ⟨c, hrun⟩ := h
  exact invariant_of_steps Timers (timers_initial cfg startSeq c)
    (fun _ _ hw ⟨_, hstep, _⟩ => hw.step hstep) hrun

/-! ## No lost wake-up -/

/-- There is a sequence number to send. -/
def HasWork (cfg : ConsumerConfig) (app : Consumer) : Prop :=
  (∃ k, k ∈ app.retxSeqs) ∨ cfg.seqMax = noSeq ∨ app.seq < cfg.seqMax

/-- A running consumer with something to send has a send event. -/
def Woken (cfg : ConsumerConfig) (w : ConsumerWorld) : Prop :=
  w.app.active = true → HasWork cfg w.app → Awake w

theorem woken_sendPacket (h : Timers w) (cfg : ConsumerConfig) (draw : ℕ) :
    Woken cfg (sendPacket cfg draw w) := by
  have hscheduled : ∀ v, Timers v → Woken cfg (scheduleNextPacket cfg draw v) :=
    fun v hv _ _ => awake_scheduleNextPacket hv cfg draw
  have hpopped : ∀ seq retxSeqs, Timers { w with app := { w.app with
      seq := seq
      retxSeqs := retxSeqs } } := fun _ _ => ⟨h.queue, h.issued, h.send, h.unstarted⟩
  unfold sendPacket
  split
  next hinactive =>
    intro hactive
    rw [hinactive] at hactive
    cases hactive
  next =>
    dsimp only
    split
    next hnone =>
      split
      next hmax =>
        -- everything is requested, and only the number that stands for none was queued
        rintro - (⟨k, hk⟩ | hnoMax | hmore)
        · rcases takeRetx_cases w.app.retxSeqs with ⟨-, -, hempty⟩ | ⟨seq, -, hseq, htaken⟩
          · exact absurd hk (hempty k)
          · rw [htaken] at hnone
            exact absurd hnone hseq
        · exact absurd hnoMax hmax.1
        · exact absurd hmore (UInt32.not_lt.mpr hmax.2)
      · exact hscheduled _ ((hpopped _ _).sendInterest cfg _)
    · exact hscheduled _ ((hpopped _ _).sendInterest cfg _)

/-- A turn of the loop schedules the next packet. -/
theorem woken_expireTimeouts (h : Timers w) (hwoken : Woken cfg w) (draw : ℕ) (rto : ℤ)
    (fuel : ℕ) : Woken cfg (expireTimeouts cfg draw rto fuel w) := by
  refine (expireTimeouts_induct (fun v => Timers v ∧ Woken cfg v)
    (fun v entry rest hv _ _ => ?_) ⟨h, hwoken⟩).2
  have hqueued := (hv.1.eraseTimeout entry.1).requeue cfg entry.1
  exact ⟨hqueued.scheduleNextPacket cfg draw,
    fun _ _ => awake_scheduleNextPacket hqueued cfg draw⟩

/-- Running another event leaves the send event. -/
theorem Awake.takeEvent (hawake : Awake w) {e : Scheduled ConsumerEvent} (h : Timers w)
    (he : e ∈ w.app.events) (hevent : e.event ≠ .sendPacket) : Awake (takeEvent e w) := by
  obtain ⟨e', he', hevent'⟩ := hawake
  refine ⟨e', mem_cancel.mpr ⟨he', fun huid => ?_⟩, hevent'⟩
  rw [h.queue.uid_unique he' he huid] at hevent'
  exact hevent hevent'

theorem Woken.step (hwoken : Woken cfg w) (h : Timers w) (hstep : ConsumerStep cfg w a w') :
    Woken cfg w' := by
  cases hstep with
  | start draw hinactive hfirst =>
      have hactive : Timers { w with app := { w.app with active := true } } :=
        ⟨h.queue, h.issued, h.send, h.unstarted⟩
      exact fun _ _ => awake_scheduleNextPacket hactive cfg draw
  | stop => exact fun hactive => absurd hactive Bool.false_ne_true
  | @fire draw e hnext =>
      have htaken := h.takeEvent hnext
      cases hevent : e.event with
      | sendPacket =>
          rw [fire, hevent]
          exact woken_sendPacket htaken cfg draw
      | checkRetxTimeout =>
          rw [fire, hevent]
          have hkept : Woken cfg (takeEvent e w) := fun hactive hwork =>
            (hwoken hactive hwork).takeEvent h hnext.1 (by rw [hevent]; simp)
          intro hactive hwork
          obtain ⟨e', he', hevent'⟩ := woken_expireTimeouts htaken hkept draw _ _ hactive hwork
          exact ⟨e', List.mem_append_left _ he', hevent'⟩
  | data harrives =>
      rcases onData_cases harrives with ⟨seq, -, -, rfl⟩ | ⟨-, satisfied, rfl, -⟩
      · rintro hactive (⟨k, hk⟩ | hmore)
        · exact hwoken hactive (Or.inl ⟨k, Std.TreeSet.mem_of_mem_erase hk⟩)
        · exact hwoken hactive (Or.inr hmore)
      · exact hwoken
  | elapse htime huid hdue => exact hwoken

theorem Reachable.woken (h : Reachable cfg permits startSeq w) : Woken cfg w := by
  obtain ⟨c, hrun⟩ := h
  refine (invariant_of_steps (fun v => Timers v ∧ Woken cfg v)
    ⟨timers_initial cfg startSeq c, fun hactive => absurd hactive Bool.false_ne_true⟩
    (fun v v' hv ⟨_, hstep, _⟩ => ⟨hv.1.step hstep, hv.2.step hv.1 hstep⟩) hrun).2

/-! ## Pacing -/

/-- When an Interest went out. -/
def ConsumerObs.sentTime? : ConsumerObs → Option ℕ
  | .sentInterest time _ _ _ => some time
  | _ => none

/-- When the Interests went out, in order. -/
def sentTimes (log : List ConsumerObs) : List ℕ := log.filterMap ConsumerObs.sentTime?

theorem sentTimes_append (log log' : List ConsumerObs) :
    sentTimes (log ++ log') = sentTimes log ++ sentTimes log' := List.filterMap_append

theorem sentTimes_countTimeout (cfg : ConsumerConfig) (seq : UInt32) (w : ConsumerWorld) :
    sentTimes (countTimeout cfg seq w).log = sentTimes w.log := by
  rw [countTimeout, sentTimes_append]
  cases w.app.seqSendTime[seq]? with
  | none => exact List.append_nil _
  | some time => exact List.append_nil _

theorem sentTimes_settle (cfg : ConsumerConfig) (seq : UInt32) (w : ConsumerWorld) :
    sentTimes (settle cfg seq w).log = sentTimes w.log := by
  have hnone : sentTimes (dataDelays seq 0 w) = [] := by
    rw [dataDelays, sentTimes_append]
    cases w.app.seqLastDelay.time? seq with
    | none =>
        cases w.app.seqFullDelay.time? seq with
        | none => rfl
        | some time => rfl
    | some last =>
        cases w.app.seqFullDelay.time? seq with
        | none => rfl
        | some time => rfl
  rw [settle, sentTimes_append, hnone, List.append_nil]

/-- The Interests are a period apart, and the next one is a period away from all. -/
structure Paced (cfg : ConsumerConfig) (w : ConsumerWorld) : Prop where
  spaced : (sentTimes w.log).Pairwise fun t t' => t + cfg.period ≤ t'
  next : ∀ e ∈ w.app.events, e.event = .sendPacket →
    ∀ t ∈ sentTimes w.log, t + cfg.period ≤ e.ts
  past : ∀ t ∈ sentTimes w.log, t ≤ w.clock.now
  unstarted : w.app.firstTime = true → sentTimes w.log = []

theorem Paced.scheduleNextPacket (hpaced : Paced cfg w) (h : Timers w)
    (hfixed : cfg.randomized = false) (draw : ℕ) : Paced cfg (scheduleNextPacket cfg draw w) := by
  have hkept := reschedules_scheduleNextPacket cfg draw w
  have hstarted := firstTime_scheduleNextPacket cfg draw w
  rcases scheduleNextPacket_cases h cfg draw with ⟨-, -, hsame⟩ | ⟨hnone, delay, hnew, hdelay⟩
  · rw [hsame]
    exact hpaced
  · refine ⟨hkept.log ▸ hpaced.spaced, ?_, ?_, fun hfirst => ?_⟩
    · rw [hnew.events, hkept.log]
      intro e he hevent t ht
      rcases List.mem_append.mp he with hold | hmem
      · exact absurd ⟨e, hold, hevent⟩ hnone
      · rw [List.mem_singleton.mp hmem, Clock.schedule_ts]
        have hlater : w.app.firstTime = false := by
          rw [← Bool.not_eq_true]
          intro hfirst
          rw [hpaced.unstarted hfirst] at ht
          exact absurd ht List.not_mem_nil
        rw [hdelay hlater hfixed]
        exact Nat.add_le_add_right (hpaced.past t ht) _
    · rw [hkept.log]
      exact fun t ht => Nat.le_trans (hpaced.past t ht) hkept.now
    · rw [hstarted] at hfirst
      cases hfirst

/-- An Interest goes out a period after all others. -/
theorem Paced.sendInterest (hpaced : Paced cfg w) (hnone : ¬Awake w)
    (hfirst : w.app.firstTime = false)
    (hapart : ∀ t ∈ sentTimes w.log, t + cfg.period ≤ w.clock.now)
    (seq : UInt32) : Paced cfg (sendInterest cfg seq w) := by
  have hsent : sentTimes (StatimConsumer.sendInterest cfg seq w).log =
      sentTimes w.log ++ [w.clock.now] := sentTimes_append _ _
  refine ⟨?_, fun e he hevent => absurd ⟨e, he, hevent⟩ hnone, ?_, fun hunstarted => ?_⟩
  · rw [hsent, List.pairwise_append]
    refine ⟨hpaced.spaced, List.pairwise_singleton _ _, fun t ht t' ht' => ?_⟩
    rw [List.mem_singleton.mp ht']
    exact hapart t ht
  · rw [hsent]
    intro t ht
    rcases List.mem_append.mp ht with hold | hnew
    · exact hpaced.past t hold
    · exact Nat.le_of_eq (List.mem_singleton.mp hnew)
  · have hstarted : w.app.firstTime = true := hunstarted
    rw [hfirst] at hstarted
    cases hstarted

theorem Paced.sendPacket (hpaced : Paced cfg w) (h : Timers w) (hnone : ¬Awake w)
    (hfirst : w.app.firstTime = false)
    (hapart : ∀ t ∈ sentTimes w.log, t + cfg.period ≤ w.clock.now)
    (hfixed : cfg.randomized = false) (draw : ℕ) : Paced cfg (sendPacket cfg draw w) := by
  have hpopped : ∀ seq retxSeqs, Timers { w with app := { w.app with
      seq := seq
      retxSeqs := retxSeqs } } := fun _ _ => ⟨h.queue, h.issued, h.send, h.unstarted⟩
  have hkept : ∀ seq retxSeqs, Paced cfg { w with app := { w.app with
      seq := seq
      retxSeqs := retxSeqs } } :=
    fun _ _ => ⟨hpaced.spaced, hpaced.next, hpaced.past, hpaced.unstarted⟩
  have hsends : ∀ seq retxSeqs k, Paced cfg (StatimConsumer.scheduleNextPacket cfg draw
      (StatimConsumer.sendInterest cfg k { w with app := { w.app with
        seq := seq
        retxSeqs := retxSeqs } })) := by
    intro seq retxSeqs k
    exact ((hkept seq retxSeqs).sendInterest hnone hfirst hapart k).scheduleNextPacket
      ((hpopped seq retxSeqs).sendInterest cfg k) hfixed draw
  unfold StatimConsumer.sendPacket
  split
  · exact hpaced
  · dsimp only
    split
    · split
      · exact hkept _ _
      · exact hsends _ _ _
    · exact hsends _ _ _

theorem Paced.expireTimeouts (hpaced : Paced cfg w) (h : Timers w)
    (hfixed : cfg.randomized = false) (draw : ℕ) (rto : ℤ) (fuel : ℕ) :
    Paced cfg (expireTimeouts cfg draw rto fuel w) := by
  refine (expireTimeouts_induct (fun v => Timers v ∧ Paced cfg v)
    (fun v entry rest hv _ _ => ?_) ⟨h, hpaced⟩).2
  have hqueued := (hv.1.eraseTimeout entry.1).requeue cfg entry.1
  have hlog : sentTimes (requeue entry.1 (countTimeout cfg entry.1 (eraseTimeout entry.1 v))).log =
      sentTimes v.log := sentTimes_countTimeout cfg entry.1 (eraseTimeout entry.1 v)
  have hkept : Paced cfg (requeue entry.1 (countTimeout cfg entry.1 (eraseTimeout entry.1 v))) := by
    refine ⟨hlog ▸ hv.2.spaced, ?_, hlog ▸ hv.2.past, hlog ▸ hv.2.unstarted⟩
    rw [hlog]
    exact hv.2.next
  exact ⟨hqueued.scheduleNextPacket cfg draw, hkept.scheduleNextPacket hqueued hfixed draw⟩

theorem Paced.takeEvent (hpaced : Paced cfg w) (h : Timers w) {e : Scheduled ConsumerEvent}
    (hnext : IsNext e w.app.events) : Paced cfg (takeEvent e w) where
  spaced := hpaced.spaced
  next e' he' := hpaced.next e' (mem_cancel.mp he').1
  past t ht := Nat.le_trans (hpaced.past t ht) (h.queue.due e hnext.1)
  unstarted := hpaced.unstarted

theorem Paced.step (hpaced : Paced cfg w) (h : Timers w) (hfixed : cfg.randomized = false)
    (hstep : ConsumerStep cfg w a w') : Paced cfg w' := by
  cases hstep with
  | start draw hinactive hfirst =>
      have hactive : Timers { w with app := { w.app with active := true } } :=
        ⟨h.queue, h.issued, h.send, h.unstarted⟩
      have hkept : Paced cfg { w with app := { w.app with active := true } } :=
        ⟨hpaced.spaced, hpaced.next, hpaced.past, hpaced.unstarted⟩
      exact hkept.scheduleNextPacket hactive hfixed draw
  | stop =>
      exact ⟨hpaced.spaced, fun e he => hpaced.next e (mem_cancel?.mp he).1, hpaced.past,
        hpaced.unstarted⟩
  | @fire draw e hnext =>
      have htaken := h.takeEvent hnext
      have hkept := hpaced.takeEvent h hnext
      cases hevent : e.event with
      | sendPacket =>
          rw [fire, hevent]
          have hfirst : w.app.firstTime = false := by
            rw [← Bool.not_eq_true]
            exact fun hfirst => h.unstarted hfirst e hnext.1 hevent
          exact hkept.sendPacket htaken (h.not_awake_takeEvent hnext.1 hevent) hfirst
            (hpaced.next e hnext.1 hevent) hfixed draw
      | checkRetxTimeout =>
          rw [fire, hevent]
          have hexpired := hkept.expireTimeouts htaken hfixed draw
            (w.app.rtt.retransmitTimeout cfg.rtt) w.app.seqTimeouts.entries.length
          refine ⟨hexpired.spaced, fun e' he' hsend => ?_, hexpired.past, hexpired.unstarted⟩
          rcases List.mem_append.mp he' with hold | hnew
          · exact hexpired.next e' hold hsend
          · rw [List.mem_singleton.mp hnew] at hsend
            cases hsend
  | data harrives =>
      rcases onData_cases harrives with ⟨seq, -, -, rfl⟩ | ⟨-, satisfied, rfl, -⟩
      · have hlog := sentTimes_settle cfg seq w
        refine ⟨hlog ▸ hpaced.spaced, ?_, hlog ▸ hpaced.past, hlog ▸ hpaced.unstarted⟩
        rw [hlog]
        exact hpaced.next
      · exact ⟨hpaced.spaced, hpaced.next, hpaced.past, hpaced.unstarted⟩
  | elapse htime huid hdue =>
      exact ⟨hpaced.spaced, hpaced.next, fun t ht => Nat.le_trans (hpaced.past t ht) htime,
        hpaced.unstarted⟩

theorem Reachable.paced (h : Reachable cfg permits startSeq w)
    (hfixed : cfg.randomized = false) : Paced cfg w := by
  obtain ⟨c, hrun⟩ := h
  have hinitial : Paced cfg (initial cfg startSeq c) :=
    ⟨List.Pairwise.nil, fun _ _ _ _ ht => absurd ht List.not_mem_nil,
      fun _ ht => absurd ht List.not_mem_nil, fun _ => rfl⟩
  refine (invariant_of_steps (fun v => Timers v ∧ Paced cfg v)
    ⟨timers_initial cfg startSeq c, hinitial⟩
    (fun v v' hv ⟨_, hstep, _⟩ => ⟨hv.1.step hstep, hv.2.step hv.1 hfixed hstep⟩) hrun).2

/-- A consumer has at most one `SendPacket` scheduled, and it has one while it runs and has
anything to send.  At a fixed rate no two Interests, new or sent again, are closer than the
period. -/
theorem one_send_event (h : Reachable cfg permits startSeq w) :
    (w.app.events.filter fun e => e.event == .sendPacket).length ≤ 1 ∧
      (w.app.active = true → HasWork cfg w.app → ∃ e ∈ w.app.events, e.event = .sendPacket) ∧
      (cfg.randomized = false →
        (sentTimes w.log).Pairwise fun t t' => t + cfg.period ≤ t') := by
  refine ⟨?_, h.woken, fun hfixed => (h.paced hfixed).spaced⟩
  have htimers := h.timers
  have hsame : ∀ e ∈ w.app.events.filter fun e => e.event == .sendPacket,
      w.app.sendEvent = some e.uid := by
    intro e he
    obtain ⟨hmem, hevent⟩ := List.mem_filter.mp he
    exact (htimers.send e hmem).mp (beq_iff_eq.mp hevent)
  have hdistinct := htimers.queue.distinct.sublist
    (List.filter_sublist (p := fun e => e.event == .sendPacket))
  generalize w.app.events.filter (fun e => e.event == .sendPacket) = sends at hsame hdistinct
  match sends with
  | [] => exact Nat.zero_le _
  | [e] => exact Nat.le_refl _
  | e :: e' :: rest =>
      have he := hsame e List.mem_cons_self
      have he' := hsame e' (List.mem_cons_of_mem e List.mem_cons_self)
      rw [he, Option.some.injEq] at he'
      exact absurd he' ((List.pairwise_cons.mp hdistinct).1 e' List.mem_cons_self)

theorem one_send_event_sampleRun : (∃ e ∈ sampleRun.app.events, e.event = .sendPacket) ∧
    (sentTimes sampleRun.log).Pairwise fun t t' => t + 10 ≤ t' :=
  have h := one_send_event reachable_sampleRun
  ⟨h.2.1 (by decide) (Or.inr (Or.inl rfl)), h.2.2 rfl⟩

/-! ## From moves to runs -/

/-- What every move keeps holds in every state. -/
theorem Reachable.of_moves (Inv : ConsumerWorld → Prop)
    (hinitial : ∀ c, Inv (initial cfg startSeq c))
    (hmove : ∀ v v', Inv v → Move cfg permits v v' → Inv v')
    (h : Reachable cfg permits startSeq w) : Inv w := by
  obtain ⟨c, hrun⟩ := h
  refine (invariant_of_steps (fun v => Timers v ∧ Inv v)
    ⟨timers_initial cfg startSeq c, hinitial c⟩ (fun v v' hv hstep => ?_) hrun).2
  obtain ⟨a, hstep, hpermits⟩ := hstep
  exact ⟨hv.1.step hstep,
    invariant_of_steps Inv hv.2 hmove (hstep.moves hv.1.queue hpermits)⟩

end StatimConsumer

end Statim
