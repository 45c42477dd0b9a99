import Statim.Apps.Consumer

/-!
# Runs of a consumer

What the simulator lets a consumer do, and the parts that each of its steps is made
of.  A step that only moves the schedule leaves the books of the consumer as they are;
every entry in the books is made by one of the moves below.
-/

namespace Statim

open Support

namespace StatimConsumer

open Consumer

variable {cfg : ConsumerConfig} {w w' : ConsumerWorld} {draw : ℕ} {seq : UInt32} {name : Name}

/-- What happens to a consumer. -/
inductive ConsumerAction
  | start
  | stop
  | fire (e : Scheduled ConsumerEvent)
  | data (name : Name)
  | elapse (time uid : ℕ)

/-- One step.  An application is started once; `draw` is any value of `m_random`. -/
inductive ConsumerStep (cfg : ConsumerConfig) (w : ConsumerWorld) :
    ConsumerAction → ConsumerWorld → Prop
  | start (draw : ℕ) (hinactive : w.app.active = false) (hfirst : w.app.firstTime = true) :
      ConsumerStep cfg w .start (startApplication cfg draw w)
  | stop : ConsumerStep cfg w .stop (Consumer.stopApplication w)
  | fire (draw : ℕ) {e : Scheduled ConsumerEvent} (hnext : IsNext e w.app.events) :
      ConsumerStep cfg w (.fire e) (StatimConsumer.fire cfg draw e w)
  | data {name : Name} {w' : ConsumerWorld} (harrives : onData cfg name w = some w') :
      ConsumerStep cfg w (.data name) w'
  | elapse {time uid : ℕ} (htime : w.clock.now ≤ time) (huid : w.clock.uid ≤ uid)
      (hdue : ∀ e ∈ w.app.events, time ≤ e.ts) :
      ConsumerStep cfg w (.elapse time uid) { w with clock := ⟨time, uid⟩ }

/-- The sequence number that the Data with this name satisfies. -/
def satisfies (name : Name) : Option UInt32 :=
  if 2 ≤ name.length then
    (name.dropLast.getLast?.bind Component.toSequenceNumber).map UInt32.ofNat
  else none

/-- The states of a consumer that is constructed with `startSeq`, where `permits` says
which sequence numbers Data may come for. -/
def Reachable (cfg : ConsumerConfig) (permits : ConsumerWorld → UInt32 → Prop) (startSeq : UInt32)
    (w : ConsumerWorld) : Prop :=
  ∃ c, Relation.ReflTransGen
    (fun w w' => ∃ a, ConsumerStep cfg w a w' ∧
      ∀ name seq, a = .data name → satisfies name = some seq → permits w seq)
    (initial cfg startSeq c) w

/-- Data comes only for sequence numbers that have been sent. -/
def Solicited (w : ConsumerWorld) (seq : UInt32) : Prop := seq ∈ w.app.seqFirstSent

/-! ## A run -/

/-- A step as it is computed, where `m_random` draws 0 and Data is solicited. -/
def act (cfg : ConsumerConfig) (w : ConsumerWorld) : ConsumerAction → Option ConsumerWorld
  | .start =>
      if w.app.active = false ∧ w.app.firstTime = true then some (startApplication cfg 0 w)
      else none
  | .stop => some (Consumer.stopApplication w)
  | .fire e => if IsNext e w.app.events then some (fire cfg 0 e w) else none
  | .data name =>
      if (satisfies name).all w.app.seqFirstSent.contains then onData cfg name w else none
  | .elapse time uid =>
      if w.clock.now ≤ time ∧ w.clock.uid ≤ uid ∧ ∀ e ∈ w.app.events, time ≤ e.ts then
        some { w with clock := ⟨time, uid⟩ }
      else none

theorem step_of_act {a : ConsumerAction} (h : act cfg w a = some w') :
    ConsumerStep cfg w a w' ∧
      ∀ name seq, a = .data name → satisfies name = some seq → Solicited w seq := by
  cases a with
  | start =>
      obtain ⟨⟨hinactive, hfirst⟩, hstarted⟩ := Option.ite_none_right_eq_some.mp h
      obtain rfl := Option.some.inj hstarted
      exact ⟨.start 0 hinactive hfirst, fun _ _ ha => nomatch ha⟩
  | stop =>
      obtain rfl := Option.some.inj h
      exact ⟨.stop, fun _ _ ha => nomatch ha⟩
  | fire e =>
      obtain ⟨hnext, hfired⟩ := Option.ite_none_right_eq_some.mp h
      obtain rfl := Option.some.inj hfired
      exact ⟨.fire 0 hnext, fun _ _ ha => nomatch ha⟩
  | data name =>
      obtain ⟨hsolicited, harrives⟩ := Option.ite_none_right_eq_some.mp h
      refine ⟨.data harrives, fun name' seq ha hseq => ?_⟩
      rw [ConsumerAction.data.inj ha, hseq] at hsolicited
      exact Std.TreeMap.contains_iff_mem.mp hsolicited
  | elapse time uid =>
      obtain ⟨⟨htime, huid, hdue⟩, hpassed⟩ := Option.ite_none_right_eq_some.mp h
      obtain rfl := Option.some.inj hpassed
      exact ⟨.elapse htime huid hdue, fun _ _ ha => nomatch ha⟩

theorem reflTransGen_of_acts {actions : List ConsumerAction}
    (h : actions.foldlM (act cfg) w = some w') :
    Relation.ReflTransGen (fun w w' => ∃ a, ConsumerStep cfg w a w' ∧
      ∀ name seq, a = .data name → satisfies name = some seq → Solicited w seq) w w' := by
  induction actions generalizing w with
  | nil =>
      obtain rfl := Option.some.inj h
      exact Relation.ReflTransGen.refl
  | cons a actions ih =>
      obtain ⟨v, hfirst, hrest⟩ := Option.bind_eq_some_iff.mp h
      exact Relation.ReflTransGen.head ⟨a, step_of_act hfirst⟩ (ih hrest)

/-- A consumer of `/a` with a period of 10, a timeout of 5 and a check every 5; losses are
also reported for the Interests first sent from 15 on and before 25. -/
def sampleConfig : ConsumerConfig where
  interestName := [.generic [97]]
  interestLifeTime := 2000
  retxTimer := 5
  seqMax := Consumer.noSeq
  randomized := false
  period := 10
  lossWindowStart := 15
  lossWindowLen := 10
  rtt :=
    { initialEstimatedRtt := 5
      halve := fun m => m / 2
      smooth := fun _ estimate variance => (estimate, variance)
      timeout := fun multiplier estimate variance => multiplier * (estimate + 4 * variance) }
  sendBin := fun t => t / 10

/-- Number 0 times out and is sent again, its Data arrives, and number 1 is sent. -/
def sampleActions : List ConsumerAction :=
  [ .start,
    .fire ⟨0, 1, .sendPacket⟩,
    .fire ⟨5, 0, .checkRetxTimeout⟩,
    .fire ⟨10, 2, .sendPacket⟩,
    .fire ⟨10, 3, .checkRetxTimeout⟩,
    .elapse 12 6,
    .data [.generic [97], .fromSequenceNumber 0, .generic [98]],
    .fire ⟨15, 5, .checkRetxTimeout⟩,
    .fire ⟨20, 4, .sendPacket⟩ ]

/-- The state after these. -/
def sampleRun : ConsumerWorld :=
  (sampleActions.foldlM (act sampleConfig) (initial sampleConfig 0 ⟨0, 0⟩)).get (by decide)

theorem foldlM_sampleActions :
    sampleActions.foldlM (act sampleConfig) (initial sampleConfig 0 ⟨0, 0⟩) = some sampleRun := by
  unfold sampleRun
  rw [Option.some_get]

theorem reachable_sampleRun : Reachable sampleConfig Solicited 0 sampleRun :=
  ⟨⟨0, 0⟩, reflTransGen_of_acts foldlM_sampleActions⟩

/-! ## The books -/

/-- A consumer without its schedule. -/
def books (app : Consumer) : Consumer :=
  { app with
    active := false
    firstTime := false
    sendEvent := none
    retxEvent := none
    events := [] }

/-- The schedule moves, the books stay. -/
structure Reschedules (w w' : ConsumerWorld) : Prop where
  now : w.clock.now ≤ w'.clock.now
  log : w'.log = w.log
  books : books w'.app = books w.app
  first : w'.app.firstTime = true →
    w.app.firstTime = true ∧ (w'.app.active = true → w.app.active = true)
  active : w'.app.active = true → w.app.active = true ∨ w.app.firstTime = true

theorem Reschedules.field {β : Type*} (h : Reschedules w w') (f : Consumer → β)
    (hf : ∀ app, f (StatimConsumer.books app) = f app) : f w'.app = f w.app := by
  rw [← hf, h.books, hf]

/-- No sequence number waits to be sent again. -/
def RetxDone (app : Consumer) : Prop := ∀ k ∈ app.retxSeqs, k = noSeq

/-- The Data for `seq` is booked. -/
def settle (cfg : ConsumerConfig) (seq : UInt32) (w : ConsumerWorld) : ConsumerWorld :=
  { w with
    log := w.log ++ dataDelays seq 0 w
    app := { w.app with
      dataReceived := w.app.dataReceived + 1
      seqSatisfied := w.app.seqSatisfied.insert seq
      seqRetxCounts := w.app.seqRetxCounts.erase seq
      seqFullDelay := w.app.seqFullDelay.erase seq
      seqLastDelay := w.app.seqLastDelay.erase seq
      seqTimeouts := w.app.seqTimeouts.erase seq
      retxSeqs := w.app.retxSeqs.erase seq
      rtt := (w.app.rtt.ackSeq cfg.rtt seq w.clock.now).reset cfg.rtt } }

/-- The moves that steps are made of. -/
inductive Move (cfg : ConsumerConfig) (permits : ConsumerWorld → UInt32 → Prop) :
    ConsumerWorld → ConsumerWorld → Prop
  | reschedule {w w' : ConsumerWorld} (h : Reschedules w w') : Move cfg permits w w'
  | resend {w : ConsumerWorld} {seq : UInt32} (hactive : w.app.active = true)
      (hmem : seq ∈ w.app.retxSeqs) (hseq : seq ≠ noSeq) :
      Move cfg permits w (sendInterest cfg seq
        { w with app := { w.app with retxSeqs := w.app.retxSeqs.erase seq } })
  | sendNew {w : ConsumerWorld} (hactive : w.app.active = true) (hdone : RetxDone w.app)
      (hempty : ∀ k, k ∉ (takeRetx w.app.retxSeqs).2)
      (hmore : cfg.seqMax = noSeq ∨ w.app.seq < cfg.seqMax) :
      Move cfg permits w (sendInterest cfg w.app.seq
        { w with app := { w.app with
            retxSeqs := (takeRetx w.app.retxSeqs).2
            seq := w.app.seq + 1 } })
  | finish {w : ConsumerWorld} (hdone : RetxDone w.app)
      (hempty : ∀ k, k ∉ (takeRetx w.app.retxSeqs).2) :
      Move cfg permits w { w with app := { w.app with
        retxSeqs := (takeRetx w.app.retxSeqs).2 } }
  | timeout {w : ConsumerWorld} {entry : UInt32 × ℕ} {rest : List (UInt32 × ℕ)}
      (hentries : w.app.seqTimeouts.entries = entry :: rest)
      (hdue : (entry.2 : ℤ) + w.app.rtt.retransmitTimeout cfg.rtt ≤ w.clock.now) :
      Move cfg permits w (requeue entry.1 (countTimeout cfg entry.1 (eraseTimeout entry.1 w)))
  | settle {w : ConsumerWorld} {seq : UInt32} (hactive : w.app.active = true)
      (hpermits : permits w seq) : Move cfg permits w (settle cfg seq w)
  | late {w : ConsumerWorld} {satisfied : Std.TreeSet UInt32} (hactive : w.app.active = false)
      (hsatisfied : satisfied = w.app.seqSatisfied ∨
        ∃ seq, permits w seq ∧ satisfied = w.app.seqSatisfied.insert seq) :
      Move cfg permits w { w with app := { w.app with
        dataReceived := w.app.dataReceived + 1
        seqSatisfied := satisfied } }

/-! ## Steps are made of moves -/

theorem reschedules_scheduleNextPacket (cfg : ConsumerConfig) (draw : ℕ) (w : ConsumerWorld) :
    Reschedules w (scheduleNextPacket cfg draw w) := by
  unfold scheduleNextPacket
  split
  · exact ⟨Nat.le_refl _, rfl, rfl, fun h => absurd h Bool.false_ne_true, Or.inl⟩
  next hfirst =>
    split
    · exact ⟨Nat.le_refl _, rfl, rfl, fun h => absurd h hfirst, Or.inl⟩
    · exact ⟨Nat.le_refl _, rfl, rfl, fun h => absurd h hfirst, Or.inl⟩

theorem le_noSeq (k : UInt32) : k ≤ noSeq :=
  UInt32.le_iff_toNat_le.mpr (Nat.le_of_lt_succ k.toNat_lt)

/-- A number to send again is taken, or there is none. -/
theorem takeRetx_cases (retxSeqs : Std.TreeSet UInt32) :
    ((∀ k ∈ retxSeqs, k = noSeq) ∧ (takeRetx retxSeqs).1 = noSeq ∧
        ∀ k, k ∉ (takeRetx retxSeqs).2) ∨
      ∃ seq ∈ retxSeqs, seq ≠ noSeq ∧ takeRetx retxSeqs = (seq, retxSeqs.erase seq) := by
  unfold takeRetx
  rw [← Std.TreeSet.min?_eq_head?_toList]
  cases hmin : retxSeqs.min? with
  | none =>
      have hempty := Std.TreeSet.min?_eq_none_iff.mp hmin
      rw [Std.TreeSet.isEmpty_iff_forall_not_mem] at hempty
      exact Or.inl ⟨fun k hk => absurd hk (hempty k), rfl, hempty⟩
  | some seq =>
      obtain ⟨hmem, hleast⟩ := Std.TreeSet.min?_eq_some_iff_mem_and_forall.mp hmin
      by_cases hseq : seq = noSeq
      · have hall : ∀ k ∈ retxSeqs, k = seq := by
          intro k hk
          have hle := (Std.LawfulOrderOrd.isLE_compare seq k).mp (hleast k hk)
          have hmax := le_noSeq k
          rw [← hseq] at hmax
          exact UInt32.le_antisymm hmax hle
        refine Or.inl ⟨hseq ▸ hall, hseq, fun k hk => ?_⟩
        obtain ⟨hne, hk⟩ := Std.TreeSet.mem_erase.mp hk
        rw [hall k hk] at hne
        exact hne Std.ReflOrd.compare_self
      · exact Or.inr ⟨seq, hmem, hseq, rfl⟩

variable {permits : ConsumerWorld → UInt32 → Prop}

theorem Move.scheduled (h : Move cfg permits w w') (draw : ℕ) :
    Relation.ReflTransGen (Move cfg permits) w (scheduleNextPacket cfg draw w') :=
  (Relation.ReflTransGen.single h).tail
    (.reschedule (reschedules_scheduleNextPacket cfg draw w'))

theorem moves_sendPacket (cfg : ConsumerConfig) (draw : ℕ) (w : ConsumerWorld) :
    Relation.ReflTransGen (Move cfg permits) w (sendPacket cfg draw w) := by
  unfold sendPacket
  split
  · exact Relation.ReflTransGen.refl
  next hactive =>
    rw [Bool.not_eq_false] at hactive
    rcases takeRetx_cases w.app.retxSeqs with ⟨hdone, hnone, hempty⟩ | ⟨seq, hmem, hseq, htaken⟩
    · simp only [hnone, if_true]
      split
      · exact Relation.ReflTransGen.single (.finish hdone hempty)
      next hmore =>
        rw [not_and_or, not_not, UInt32.not_le] at hmore
        exact (Move.sendNew hactive hdone hempty hmore).scheduled draw
    · simp only [htaken, hseq, if_false]
      exact (Move.resend hactive hmem hseq).scheduled draw

/-- The timeout does not change while the entries are taken off. -/
theorem rtt_onTimeout (cfg : ConsumerConfig) (draw : ℕ) (seq : UInt32) (w : ConsumerWorld) :
    (onTimeout cfg draw seq w).app.rtt.retransmitTimeout cfg.rtt =
      w.app.rtt.retransmitTimeout cfg.rtt := by
  have hbooks := (reschedules_scheduleNextPacket cfg draw
    (requeue seq (countTimeout cfg seq w))).books
  have hrtt : (onTimeout cfg draw seq w).app.rtt = w.app.rtt.sentSeq seq 1 w.clock.now :=
    congrArg Consumer.rtt hbooks
  rw [hrtt, RttMeanDeviation.retransmitTimeout_sentSeq]

/-- The loop of a check, one entry at a time. -/
theorem moves_expireTimeouts (cfg : ConsumerConfig) (draw fuel : ℕ) (w : ConsumerWorld) :
    Relation.ReflTransGen (Move cfg permits) w
      (expireTimeouts cfg draw (w.app.rtt.retransmitTimeout cfg.rtt) fuel w) := by
  generalize hrto : w.app.rtt.retransmitTimeout cfg.rtt = rto
  induction fuel generalizing w with
  | zero => exact Relation.ReflTransGen.refl
  | succ fuel ih =>
      rw [expireTimeouts]
      split
      · exact Relation.ReflTransGen.refl
      next entry rest hentries =>
      split
      next hdue =>
        rw [← hrto] at hdue
        refine ((Move.timeout hentries hdue).scheduled draw).trans (ih _ ?_)
        exact (rtt_onTimeout cfg draw entry.1 _).trans hrto
      · exact Relation.ReflTransGen.refl

/-- The first packet is scheduled once. -/
theorem firstTime_scheduleNextPacket (cfg : ConsumerConfig) (draw : ℕ) (w : ConsumerWorld) :
    (scheduleNextPacket cfg draw w).app.firstTime = false := by
  unfold scheduleNextPacket
  split
  · rfl
  next hfirst =>
    rw [Bool.not_eq_true] at hfirst
    split
    · exact hfirst
    · exact hfirst

theorem reschedules_scheduleCheck (cfg : ConsumerConfig) (w : ConsumerWorld) :
    Reschedules w (scheduleCheck cfg w) :=
  ⟨Nat.le_refl _, rfl, rfl, fun h => ⟨h, id⟩, Or.inl⟩

/-- What becomes of Data that arrives. -/
theorem onData_cases (h : onData cfg name w = some w') :
    (∃ seq, satisfies name = some seq ∧ w.app.active = true ∧ w' = settle cfg seq w) ∨
      (w.app.active = false ∧ ∃ satisfied, w' = { w with app := { w.app with
          dataReceived := w.app.dataReceived + 1
          seqSatisfied := satisfied } } ∧
        (satisfied = w.app.seqSatisfied ∨ ∃ seq, satisfies name = some seq ∧
          satisfied = w.app.seqSatisfied.insert seq)) := by
  unfold onData at h
  cases hactive : w.app.active with
  | false =>
      have hkept : ∀ (name : Name) (v : ConsumerWorld), v.app.active = false →
          Consumer.onData cfg name none v = some v := fun _ _ hinactive => if_pos hinactive
      refine Or.inr ⟨rfl, ?_⟩
      split at h
      next hlength =>
        split at h
        · cases h
        next number hnumber =>
          have hsome := (hkept _ _ (by exact hactive)).symm.trans h
          refine ⟨_, (Option.some.inj hsome).symm, Or.inr ⟨UInt32.ofNat number, ?_, rfl⟩⟩
          rw [satisfies, if_pos hlength, hnumber]
          rfl
      next =>
        have hsome := (hkept _ _ (by exact hactive)).symm.trans h
        exact ⟨_, (Option.some.inj hsome).symm, Or.inl rfl⟩
  | true =>
      have hrunning : ¬w.app.active = false := by rw [hactive]; exact Bool.true_eq_false.mp
      split at h
      next hlength =>
        split at h
        · cases h
        next number hnumber =>
          unfold Consumer.onData at h
          simp only [if_neg hrunning, hnumber, Option.some.injEq] at h
          refine Or.inl ⟨UInt32.ofNat number, ?_, rfl, h.symm⟩
          rw [satisfies, if_pos hlength, hnumber]
          rfl
      next hlength =>
        have hempty : name.dropLast = [] := by
          rw [← List.length_eq_zero_iff, List.length_dropLast]
          omega
        unfold Consumer.onData at h
        simp only [if_neg hrunning, hempty, List.getLast?_nil, Option.bind_none] at h
        cases h

theorem moves_run (cfg : ConsumerConfig) (draw : ℕ) (event : ConsumerEvent)
    (w : ConsumerWorld) : Relation.ReflTransGen (Move cfg permits) w (run cfg draw event w) := by
  cases event with
  | sendPacket => exact moves_sendPacket cfg draw w
  | checkRetxTimeout =>
      exact (moves_expireTimeouts cfg draw _ w).tail
        (.reschedule (reschedules_scheduleCheck cfg _))

/-- Every step is made of moves. -/
theorem ConsumerStep.moves {a : ConsumerAction} (hqueue : QueueInv w.clock w.app.events)
    (hstep : ConsumerStep cfg w a w')
    (hpermits : ∀ name seq, a = .data name → satisfies name = some seq → permits w seq) :
    Relation.ReflTransGen (Move cfg permits) w w' := by
  cases hstep with
  | start draw hinactive hfirst =>
      have hscheduled := reschedules_scheduleNextPacket cfg draw
        { w with app := { w.app with active := true } }
      refine Relation.ReflTransGen.single (.reschedule ⟨hscheduled.now, hscheduled.log,
        hscheduled.books, fun h => ?_, fun _ => Or.inr hfirst⟩)
      exact absurd h (Bool.not_eq_true _ ▸ firstTime_scheduleNextPacket cfg draw _)
  | stop =>
      refine Relation.ReflTransGen.single (.reschedule ⟨Nat.le_refl _, rfl, rfl, ?_, ?_⟩)
      · exact fun h => ⟨h, fun h => absurd h Bool.false_ne_true⟩
      · exact fun h => absurd h Bool.false_ne_true
  | fire draw hnext =>
      refine Relation.ReflTransGen.trans (Relation.ReflTransGen.single (.reschedule ?_))
        (moves_run cfg draw _ _)
      exact ⟨hqueue.due _ hnext.1, rfl, rfl, fun h => ⟨h, id⟩, Or.inl⟩
  | data harrives =>
      rcases onData_cases harrives with
        ⟨seq, hseq, hactive, rfl⟩ | ⟨hinactive, satisfied, rfl, hsatisfied⟩
      · exact Relation.ReflTransGen.single (.settle hactive (hpermits _ _ rfl hseq))
      · refine Relation.ReflTransGen.single (.late hinactive (hsatisfied.imp_right ?_))
        rintro ⟨seq, hseq, rfl⟩
        exact ⟨seq, hpermits _ _ rfl hseq, rfl⟩
  | elapse htime huid hdue =>
      exact Relation.ReflTransGen.single
        (.reschedule ⟨htime, rfl, rfl, fun h => ⟨h, id⟩, Or.inl⟩)

end StatimConsumer

end Statim
