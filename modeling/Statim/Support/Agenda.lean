import Mathlib.Data.List.MinMax
import Mathlib.Data.Prod.Lex
import Statim.Support.Schedule

/-!
# Agendas

Where several components hold a share of the simulator queue, the agenda is the whole of
it.  The event that the simulator runs next is the one with the least time stamp, and with
the least identifier among those.
-/

namespace Support

variable {ε ε' : Type*}

/-- The same queue entry, seen as an event of a larger system. -/
def Scheduled.map (f : ε → ε') (e : Scheduled ε) : Scheduled ε' := ⟨e.ts, e.uid, f e.event⟩

@[simp] theorem Scheduled.map_ts (f : ε → ε') (e : Scheduled ε) : (e.map f).ts = e.ts := rfl

@[simp] theorem Scheduled.map_uid (f : ε → ε') (e : Scheduled ε) : (e.map f).uid = e.uid := rfl

@[simp] theorem Scheduled.map_event (f : ε → ε') (e : Scheduled ε) :
    (e.map f).event = f e.event := rfl

@[simp] theorem Scheduled.map_key (f : ε → ε') (e : Scheduled ε) : (e.map f).key = e.key := rfl

/-- The order in which events run. -/
def Scheduled.rank (e : Scheduled ε) : ℕ ×ₗ ℕ := toLex e.key

/-- The event that runs next. -/
def earliest? (queue : List (Scheduled ε)) : Option (Scheduled ε) := queue.argmin Scheduled.rank

@[simp] theorem earliest?_nil : earliest? ([] : List (Scheduled ε)) = none := rfl

theorem precedes_iff {a b : Scheduled ε} : Precedes a.key b.key ↔ a.rank ≤ b.rank :=
  Prod.Lex.toLex_le_toLex.symm

variable {queue : List (Scheduled ε)} {e : Scheduled ε}

/-- With distinct identifiers only one event can run next. -/
theorem earliest?_eq_some (hdistinct : queue.Pairwise fun a b => a.uid ≠ b.uid)
    (h : IsNext e queue) : earliest? queue = some e := by
  have hsymm : Std.Symm fun a b : Scheduled ε => a.uid ≠ b.uid := ⟨fun _ _ hne => Ne.symm hne⟩
  cases hfound : earliest? queue with
  | none =>
      rw [earliest?, List.argmin_eq_none] at hfound
      rw [hfound] at h
      exact absurd h.1 List.not_mem_nil
  | some e' =>
      have hmem : e' ∈ queue := List.argmin_mem hfound
      have hrank : e'.rank = e.rank :=
        le_antisymm (List.le_of_mem_argmin h.1 hfound) (precedes_iff.mp (h.2 e' hmem))
      by_contra hne
      refine hdistinct.forall hmem h.1 (fun heq => hne (congrArg some heq)) ?_
      exact congrArg (fun rank => (ofLex rank).2) hrank

theorem cancel_append (uid : ℕ) (queue queue' : List (Scheduled ε)) :
    cancel uid (queue ++ queue') = cancel uid queue ++ cancel uid queue' :=
  List.filter_append ..

/-- An identifier that is not in the queue. -/
theorem cancel_of_fresh {uid : ℕ} (hfresh : ∀ e' ∈ queue, e'.uid ≠ uid) :
    cancel uid queue = queue := by
  rw [cancel, List.filter_eq_self]
  intro e' he'
  simpa using hfresh e' he'

/-- Taking the first event off a queue leaves the others. -/
theorem cancel_cons (hfresh : ∀ e' ∈ queue, e'.uid ≠ e.uid) :
    cancel e.uid (e :: queue) = queue := by
  rw [← cancel_of_fresh hfresh, cancel, List.filter_cons_of_neg (by simp), ← cancel,
    cancel_of_fresh hfresh, cancel_of_fresh hfresh]

/-! ## Series -/

variable {α : Type*} {ts : α → ℕ} {event : α → ε} {uid : ℕ} {l : List α}

/-- The events of items that are scheduled one after the other, from an identifier on. -/
def series (ts : α → ℕ) (event : α → ε) : ℕ → List α → List (Scheduled ε)
  | _, [] => []
  | uid, x :: rest => ⟨ts x, uid, event x⟩ :: series ts event (uid + 1) rest

theorem series_concat (ts : α → ℕ) (event : α → ε) (uid : ℕ) (l : List α) (x : α) :
    series ts event uid (l ++ [x]) =
      series ts event uid l ++ [⟨ts x, uid + l.length, event x⟩] := by
  induction l generalizing uid with
  | nil => rfl
  | cons y l ih =>
      rw [List.cons_append, series, ih, series, List.cons_append, List.length_cons,
        Nat.add_right_comm, Nat.add_assoc]

theorem mem_series (he : e ∈ series ts event uid l) :
    uid ≤ e.uid ∧ e.uid < uid + l.length ∧ ∃ x ∈ l, e.ts = ts x := by
  induction l generalizing uid with
  | nil => exact absurd he List.not_mem_nil
  | cons y l ih =>
      rw [List.length_cons]
      rcases List.mem_cons.mp he with rfl | he
      · exact ⟨Nat.le_refl _, Nat.lt_add_of_pos_right (Nat.succ_pos _), y, List.mem_cons_self, rfl⟩
      · obtain ⟨hlow, hhigh, x, hx, hts⟩ := ih he
        exact ⟨by omega, by omega, x, List.mem_cons_of_mem y hx, hts⟩

theorem pairwise_series : (series ts event uid l).Pairwise fun a b => a.uid ≠ b.uid := by
  induction l generalizing uid with
  | nil => exact List.Pairwise.nil
  | cons y l ih =>
      refine List.pairwise_cons.mpr ⟨fun e he => ?_, ih⟩
      exact Nat.ne_of_lt (mem_series he).1

/-- The first event of a series can be taken off alone. -/
theorem cancel_series {x : α} :
    cancel uid (series ts event uid (x :: l)) = series ts event (uid + 1) l :=
  cancel_cons (e := ⟨ts x, uid, event x⟩) fun _ he => Nat.ne_of_gt (mem_series he).1

end Support
