import Mathlib.Data.List.Pairwise
import Mathlib.Logic.Relation

/-!
# Discrete-event schedules

A discrete-event simulator keeps a clock, a counter of event identifiers, and
the events that are scheduled and not cancelled.  Events run in the order of
their time stamp, and in scheduling order when time stamps agree.  The queue is
a plain list here: the order of execution is a relation on time stamp and
identifier, so that the components of a system may each hold their own share
of the queue.
-/

namespace Support

/-- The simulator's clock and the next event identifier. -/
structure Clock where
  now : ℕ
  uid : ℕ
deriving DecidableEq, Repr

/-- An event in the queue. -/
structure Scheduled (ε : Type*) where
  ts : ℕ
  uid : ℕ
  event : ε
deriving DecidableEq, Repr

/-- The queue entry of an event scheduled `delay` after the current time. -/
def Clock.schedule {ε : Type*} (c : Clock) (delay : ℕ) (event : ε) : Scheduled ε :=
  ⟨c.now + delay, c.uid, event⟩

/-- Consume one event identifier. -/
def Clock.next (c : Clock) : Clock := { c with uid := c.uid + 1 }

@[simp] theorem Clock.next_now (c : Clock) : c.next.now = c.now := rfl

@[simp] theorem Clock.next_uid (c : Clock) : c.next.uid = c.uid + 1 := rfl

@[simp] theorem Clock.schedule_event {ε : Type*} (c : Clock) (d : ℕ) (e : ε) :
    (c.schedule d e).event = e := rfl

@[simp] theorem Clock.schedule_uid {ε : Type*} (c : Clock) (d : ℕ) (e : ε) :
    (c.schedule d e).uid = c.uid := rfl

@[simp] theorem Clock.schedule_ts {ε : Type*} (c : Clock) (d : ℕ) (e : ε) :
    (c.schedule d e).ts = c.now + d := rfl

/-- The key by which the simulator orders its queue. -/
def Scheduled.key {ε : Type*} (e : Scheduled ε) : ℕ × ℕ := (e.ts, e.uid)

/-- One key runs no later than another. -/
def Precedes (a b : ℕ × ℕ) : Prop :=
  a.1 < b.1 ∨ (a.1 = b.1 ∧ a.2 ≤ b.2)

instance (a b : ℕ × ℕ) : Decidable (Precedes a b) :=
  inferInstanceAs (Decidable (_ ∨ _))

theorem Precedes.fst_le {a b : ℕ × ℕ} (h : Precedes a b) : a.1 ≤ b.1 := by
  rcases h with hlt | ⟨heq, -⟩
  · exact Nat.le_of_lt hlt
  · exact Nat.le_of_eq heq

/-- An event that may run next: nothing in the queue runs before it. -/
def IsNext {ε : Type*} (e : Scheduled ε) (queue : List (Scheduled ε)) : Prop :=
  e ∈ queue ∧ ∀ e' ∈ queue, Precedes e.key e'.key

instance {ε : Type*} [DecidableEq ε] (e : Scheduled ε) (queue : List (Scheduled ε)) :
    Decidable (IsNext e queue) :=
  inferInstanceAs (Decidable (_ ∧ _))

theorem IsNext.ts_le {ε : Type*} {e e' : Scheduled ε} {queue : List (Scheduled ε)}
    (h : IsNext e queue) (he' : e' ∈ queue) : e.ts ≤ e'.ts :=
  (h.2 e' he').fst_le

/-- Remove the event with identifier `uid`; cancelling an event that has run
already changes nothing. -/
def cancel {ε : Type*} (uid : ℕ) (queue : List (Scheduled ε)) : List (Scheduled ε) :=
  queue.filter fun e => e.uid != uid

theorem mem_cancel {ε : Type*} {uid : ℕ} {queue : List (Scheduled ε)}
    {e : Scheduled ε} :
    e ∈ cancel uid queue ↔ e ∈ queue ∧ e.uid ≠ uid := by
  simp [cancel]

/-- Cancel through an optional handle. -/
def cancel? {ε : Type*} (handle : Option ℕ) (queue : List (Scheduled ε)) :
    List (Scheduled ε) :=
  match handle with
  | none => queue
  | some uid => cancel uid queue

theorem mem_cancel? {ε : Type*} {handle : Option ℕ}
    {queue : List (Scheduled ε)} {e : Scheduled ε} :
    e ∈ cancel? handle queue ↔ e ∈ queue ∧ handle ≠ some e.uid := by
  cases handle with
  | none => simp [cancel?]
  | some uid =>
      simp only [cancel?, mem_cancel, ne_eq, Option.some.injEq]
      exact and_congr_right fun _ => ⟨fun h => Ne.symm h, fun h => Ne.symm h⟩

/-- A new event does not hide or add any other. -/
theorem mem_append_of_event_ne {ε : Type*} {queue : List (Scheduled ε)}
    {e new : Scheduled ε} (h : e.event ≠ new.event) :
    e ∈ queue ++ [new] ↔ e ∈ queue := by
  rw [List.mem_append, List.mem_singleton]
  refine or_iff_left ?_
  rintro rfl
  exact h rfl

/-- A queue that agrees with the clock: identifiers are distinct and already
issued, and no event is overdue. -/
structure QueueInv {ε : Type*} (c : Clock) (queue : List (Scheduled ε)) : Prop where
  distinct : queue.Pairwise fun a b => a.uid ≠ b.uid
  issued : ∀ e ∈ queue, e.uid < c.uid
  due : ∀ e ∈ queue, c.now ≤ e.ts

namespace QueueInv

variable {ε : Type*} {c : Clock} {queue : List (Scheduled ε)}

theorem nil (c : Clock) : QueueInv c ([] : List (Scheduled ε)) :=
  ⟨List.Pairwise.nil, by simp, by simp⟩

theorem uid_unique (h : QueueInv c queue) {a b : Scheduled ε}
    (ha : a ∈ queue) (hb : b ∈ queue) (huid : a.uid = b.uid) : a = b := by
  have hsymm : Std.Symm fun a b : Scheduled ε => a.uid ≠ b.uid :=
    ⟨fun _ _ hne => Ne.symm hne⟩
  by_contra hne
  exact h.distinct.forall ha hb hne huid

theorem sublist (h : QueueInv c queue) {queue' : List (Scheduled ε)}
    (hsub : queue'.Sublist queue) : QueueInv c queue' :=
  ⟨h.distinct.sublist hsub, fun e he => h.issued e (hsub.subset he),
    fun e he => h.due e (hsub.subset he)⟩

theorem cancel (h : QueueInv c queue) (uid : ℕ) :
    QueueInv c (Support.cancel uid queue) :=
  h.sublist List.filter_sublist

theorem cancel? (h : QueueInv c queue) (handle : Option ℕ) :
    QueueInv c (Support.cancel? handle queue) := by
  cases handle with
  | none => exact h
  | some uid => exact h.cancel uid

/-- Cancelling an event of the queue removes it and no other. -/
theorem countP_cancel (h : QueueInv c queue) {e : Scheduled ε} (he : e ∈ queue)
    (p : Scheduled ε → Bool) :
    queue.countP p = (Support.cancel e.uid queue).countP p + if p e then 1 else 0 := by
  have hdistinct := h.distinct
  clear h
  induction queue with
  | nil => cases he
  | cons a queue ih =>
      obtain ⟨hfresh, htail⟩ := List.pairwise_cons.mp hdistinct
      rcases List.mem_cons.mp he with rfl | he
      · have hkeep : Support.cancel e.uid (e :: queue) = queue := by
          have hall : ∀ b ∈ queue, (b.uid != e.uid) = true := by
            intro b hb
            simpa using Ne.symm (hfresh b hb)
          rw [Support.cancel, List.filter_cons_of_neg (by simp), List.filter_eq_self.mpr hall]
        rw [hkeep, List.countP_cons]
      · have hkeep : Support.cancel e.uid (a :: queue) = a :: Support.cancel e.uid queue := by
          rw [Support.cancel, List.filter_cons_of_pos (by simpa using hfresh e he)]
          rfl
        rw [hkeep, List.countP_cons, List.countP_cons, ih he htail]
        omega

/-- Issuing identifiers elsewhere keeps the queue valid. -/
theorem mono (h : QueueInv c queue) {c' : Clock}
    (hnow : c'.now = c.now) (huid : c.uid ≤ c'.uid) : QueueInv c' queue :=
  ⟨h.distinct, fun e he => Nat.lt_of_lt_of_le (h.issued e he) huid,
    fun e he => hnow ▸ h.due e he⟩

theorem schedule (h : QueueInv c queue) (delay : ℕ) (event : ε) :
    QueueInv c.next (queue ++ [c.schedule delay event]) := by
  refine ⟨?_, ?_, ?_⟩
  · rw [List.pairwise_append]
    refine ⟨h.distinct, by simp, ?_⟩
    intro a ha b hb
    rw [List.mem_singleton] at hb
    subst hb
    exact Nat.ne_of_lt (h.issued a ha)
  · intro e he
    rcases List.mem_append.mp he with he | he
    · exact Nat.lt_succ_of_lt (h.issued e he)
    · rw [List.mem_singleton] at he
      subst he
      exact Nat.lt_succ_self _
  · intro e he
    rcases List.mem_append.mp he with he | he
    · exact h.due e he
    · rw [List.mem_singleton] at he
      subst he
      exact Nat.le_add_right _ _

/-- The clock may move as long as it passes no event. -/
theorem advance (h : QueueInv c queue) {t : ℕ} (hdue : ∀ e ∈ queue, t ≤ e.ts) :
    QueueInv { c with now := t } queue :=
  ⟨h.distinct, h.issued, hdue⟩

end QueueInv

/-- A property that holds initially and is kept by every step holds along every
run. -/
theorem invariant_of_steps {σ : Type*} {step : σ → σ → Prop} (Inv : σ → Prop)
    {s t : σ} (hinit : Inv s) (hstep : ∀ a b, Inv a → step a b → Inv b)
    (hrun : Relation.ReflTransGen step s t) : Inv t := by
  induction hrun with
  | refl => exact hinit
  | tail _ hlast ih => exact hstep _ _ ih hlast

end Support
