import Mathlib.Algebra.Order.BigOperators.Group.List
import Mathlib.Data.List.Sort
import Mathlib.Data.Prod.Lex
import Mathlib.MeasureTheory.Integral.IntervalIntegral.Basic
import Statim.Support.OrderedMap

/-!
# Families of time spans

A family of spans is measured in two ways: by a sweep over the sorted starts and stops,
which keeps the number of open spans and its peak, and by the number of spans at each
time.  The peak of the sweep is the largest number of closed spans that share a time, and
the integral of the number of half-open spans is the sum of their lengths.
-/

namespace Support

open Prod.Lex

/-- A span of time. -/
structure Span (τ : Type*) where
  start : τ
  stop : τ
deriving DecidableEq, Repr

/-- What a sweep sorts: the time, then starts before stops, then the change. -/
abbrev SweepEvent (τ : Type*) := τ ×ₗ ℕ ×ₗ ℤ

variable {τ : Type*}

namespace SweepEvent

def arrival (t : τ) : SweepEvent τ := toLex (t, toLex (0, 1))

def departure (t : τ) : SweepEvent τ := toLex (t, toLex (1, -1))

def delta (e : SweepEvent τ) : ℤ := (ofLex (ofLex e).2).2

@[simp] theorem delta_arrival (t : τ) : (arrival t).delta = 1 := rfl

@[simp] theorem delta_departure (t : τ) : (departure t).delta = -1 := rfl

/-- The same event on another time line. -/
def map {σ : Type*} (f : σ → τ) (e : SweepEvent σ) : SweepEvent τ :=
  toLex (f (ofLex e).1, (ofLex e).2)

@[simp] theorem delta_map {σ : Type*} (f : σ → τ) (e : SweepEvent σ) : (e.map f).delta = e.delta :=
  rfl

theorem map_le_map {σ : Type*} [LinearOrder σ] [LinearOrder τ] {f : σ → τ} (hf : StrictMono f)
    {a b : SweepEvent σ} (h : a ≤ b) : a.map f ≤ b.map f := by
  rw [Prod.Lex.le_iff] at h ⊢
  rcases h with hlt | ⟨heq, hle⟩
  · exact Or.inl (hf hlt)
  · exact Or.inr ⟨congrArg f heq, hle⟩

variable [LinearOrder τ] {s t : τ}

/-- An event whose rank is not above that of another comes no later at equal times. -/
theorem toLex_le_of_rank {a b : ℕ ×ₗ ℤ} (h : a ≤ b) : toLex (s, a) ≤ toLex (t, b) ↔ s ≤ t := by
  rw [Prod.Lex.toLex_le_toLex, and_iff_left h]
  exact le_iff_lt_or_eq.symm

@[simp] theorem arrival_le_arrival : arrival s ≤ arrival t ↔ s ≤ t := toLex_le_of_rank le_rfl

@[simp] theorem arrival_le_departure : arrival s ≤ departure t ↔ s ≤ t :=
  toLex_le_of_rank (by decide)

@[simp] theorem departure_le_arrival : departure s ≤ arrival t ↔ s < t := by
  have hrank : ¬(toLex ((1, -1) : ℕ × ℤ) ≤ toLex (0, 1)) := by decide
  rw [departure, arrival, Prod.Lex.toLex_le_toLex]
  simp only [hrank, and_false, or_false]

@[simp] theorem departure_le_departure : departure s ≤ departure t ↔ s ≤ t :=
  toLex_le_of_rank le_rfl

end SweepEvent

open SweepEvent

/-! ## The sweep -/

/-- One event: the number of open spans, and the largest one so far. -/
def sweepStep (s : ℤ × ℤ) (e : SweepEvent τ) : ℤ × ℤ :=
  (s.1 + e.delta, max s.2 (s.1 + e.delta))

def sweep (events : List (SweepEvent τ)) : ℤ × ℤ := events.foldl sweepStep (0, 0)

@[simp] theorem sweep_nil : sweep ([] : List (SweepEvent τ)) = (0, 0) := rfl

theorem sweep_concat (events : List (SweepEvent τ)) (e : SweepEvent τ) :
    sweep (events ++ [e]) = sweepStep (sweep events) e := by
  rw [sweep, List.foldl_append]
  rfl

theorem sweep_fst (events : List (SweepEvent τ)) :
    (sweep events).1 = (events.map delta).sum := by
  induction events using List.reverseRecOn with
  | nil => rfl
  | append_singleton events e ih =>
      rw [sweep_concat, sweepStep, ih, List.map_append, List.sum_append]
      simp

theorem sweep_map {σ : Type*} (f : σ → τ) (events : List (SweepEvent σ)) :
    sweep (events.map (SweepEvent.map f)) = sweep events := by
  rw [sweep, sweep, List.foldl_map]
  rfl

/-- The peak is reached after some of the events, or before the first one. -/
theorem exists_prefix_peak (events : List (SweepEvent τ)) :
    ∃ before, before <+: events ∧ (sweep events).2 = (sweep before).1 := by
  induction events using List.reverseRecOn with
  | nil => exact ⟨[], List.prefix_refl _, rfl⟩
  | append_singleton events e ih =>
      obtain ⟨before, hbefore, hpeak⟩ := ih
      rw [sweep_concat]
      rcases le_total (sweep events).2 ((sweep events).1 + e.delta) with hle | hle
      · refine ⟨events ++ [e], List.prefix_refl _, ?_⟩
        rw [sweep_concat, sweepStep, max_eq_right hle]
      · refine ⟨before, hbefore.trans (List.prefix_append _ _), ?_⟩
        rw [sweepStep, max_eq_left hle, hpeak]

theorem le_peak {before : List (SweepEvent τ)} (h : before <+: events) :
    (sweep before).1 ≤ (sweep events).2 := by
  induction events using List.reverseRecOn with
  | nil =>
      rw [List.prefix_nil] at h
      rw [h]
      rfl
  | append_singleton events e ih =>
      rw [sweep_concat, sweepStep]
      rcases List.prefix_concat_iff.mp h with rfl | h
      · rw [sweep_concat, sweepStep]
        exact le_max_right _ _
      · exact (ih h).trans (le_max_left _ _)

/-! ## Sorted events -/

namespace Span

/-- The two events of a span. -/
def events (s : Span τ) : List (SweepEvent τ) := [arrival s.start, departure s.stop]

theorem mem_events_cases {spans : List (Span τ)} {e : SweepEvent τ} (h : e ∈ spans.flatMap events) :
    (∃ t, e = arrival t) ∨ ∃ t, e = departure t := by
  obtain ⟨s, -, hs⟩ := List.mem_flatMap.mp h
  rw [events, List.mem_cons, List.mem_singleton] at hs
  rcases hs with rfl | rfl
  · exact Or.inl ⟨_, rfl⟩
  · exact Or.inr ⟨_, rfl⟩

variable [LinearOrder τ]

/-- The number of closed spans that contain a time. -/
def overlap (spans : List (Span τ)) (t : τ) : ℕ :=
  spans.countP fun s => decide (s.start ≤ t ∧ t ≤ s.stop)

/-- The number of half-open spans that contain a time. -/
def active (spans : List (Span τ)) (t : τ) : ℕ :=
  spans.countP fun s => decide (s.start ≤ t ∧ t < s.stop)

variable {spans : List (Span τ)} {swept : List (SweepEvent τ)}

/-- Every start and every stop is swept once, in order. -/
structure Sweeps (spans : List (Span τ)) (swept : List (SweepEvent τ)) : Prop where
  perm : swept.Perm (spans.flatMap events)
  sorted : swept.Pairwise (· ≤ ·)

/-- There is only one order in which the events can be swept. -/
theorem Sweeps.eq {other : List (SweepEvent τ)} (h : Sweeps spans swept)
    (hother : Sweeps spans other) : swept = other :=
  (h.perm.trans hother.perm.symm).eq_of_pairwise' h.sorted hother.sorted

/-- A sweep on another time line. -/
theorem Sweeps.map {σ : Type*} [LinearOrder σ] {spans : List (Span σ)}
    {swept : List (SweepEvent σ)} (h : Sweeps spans swept) {f : σ → τ} (hf : StrictMono f) :
    Sweeps (spans.map fun s => (⟨f s.start, f s.stop⟩ : Span τ))
      (swept.map (SweepEvent.map f)) where
  perm := by
    refine (h.perm.map _).trans ?_
    rw [List.map_flatMap, List.flatMap_map]
    rfl
  sorted := List.pairwise_map.mpr (h.sorted.imp fun hle => map_le_map hf hle)

/-- In the end no span is open. -/
theorem Sweeps.active_eq_zero (h : Sweeps spans swept) : (sweep swept).1 = 0 := by
  rw [sweep_fst, (h.perm.map delta).sum_eq]
  clear h
  induction spans with
  | nil => rfl
  | cons s spans ih =>
      rw [List.flatMap_cons, List.map_append, List.sum_append, ih]
      rfl

/-- Up to the starts at `t` the open spans are those that contain `t`. -/
theorem Sweeps.sum_delta_filter (h : Sweeps spans swept) (hspans : ∀ s ∈ spans, s.start ≤ s.stop)
    (t : τ) : ((swept.filter fun e => decide (e ≤ arrival t)).map delta).sum = overlap spans t := by
  rw [((h.perm.filter _).map delta).sum_eq]
  clear h
  induction spans with
  | nil => rfl
  | cons s spans ih =>
      rw [List.forall_mem_cons] at hspans
      rw [List.flatMap_cons, List.filter_append, List.map_append, List.sum_append,
        ih hspans.2, overlap, overlap, List.countP_cons, Nat.cast_add, add_comm]
      refine congrArg _ ?_
      by_cases hstart : s.start ≤ t
      · by_cases hstop : s.stop < t
        · simp [events, hstart, hstop, hstop.not_ge]
        · simp [events, hstart, hstop, not_lt.mp hstop]
      · have hstop : ¬s.stop < t := fun hlt => hstart (hspans.1.trans hlt.le)
        simp [events, hstart, hstop]

theorem Sweeps.overlap_le (h : Sweeps spans swept) (hspans : ∀ s ∈ spans, s.start ≤ s.stop)
    (t : τ) : (overlap spans t : ℤ) ≤ (sweep swept).2 := by
  have hprefix : (swept.takeWhile fun e => decide (e ≤ arrival t)) <+: swept :=
    List.takeWhile_prefix _
  have hfilter := takeWhile_eq_filter (p := fun e => decide (e ≤ arrival t)) (l := swept)
    (h.sorted.imp fun hle hlater => by
      rw [decide_eq_true_eq] at hlater ⊢
      exact hle.trans hlater)
  have hpeak := le_peak hprefix
  rwa [sweep_fst, hfilter, h.sum_delta_filter hspans] at hpeak

/-- What is open after some of the events is open at a common time. -/
theorem Sweeps.exists_le_overlap [Nonempty τ] (h : Sweeps spans swept)
    (hspans : ∀ s ∈ spans, s.start ≤ s.stop) {before : List (SweepEvent τ)}
    (hbefore : before <+: swept) : ∃ t, (sweep before).1 ≤ overlap spans t := by
  induction before using List.reverseRecOn with
  | nil => exact ⟨Classical.arbitrary τ, Int.natCast_nonneg _⟩
  | append_singleton before e ih =>
      have hmem : e ∈ spans.flatMap events :=
        h.perm.subset (hbefore.subset (List.mem_append_right _ (List.mem_singleton_self e)))
      rcases mem_events_cases hmem with ⟨t, rfl⟩ | ⟨t, rfl⟩
      · refine ⟨t, ?_⟩
        obtain ⟨after, hafter⟩ := hbefore
        have hsorted := h.sorted
        rw [← hafter, List.pairwise_append] at hsorted
        obtain ⟨hfirst, -, hacross⟩ := hsorted
        -- the events up to the start are those swept so far, and further starts at its time
        have hall : ∀ e ∈ before ++ [arrival t], e ≤ arrival t := by
          intro e he
          rcases List.mem_append.mp he with he | he
          · exact (List.pairwise_append.mp hfirst).2.2 e he _ (List.mem_singleton_self _)
          · rw [List.mem_singleton.mp he]
        have hrest : ∀ e ∈ after.filter fun e => decide (e ≤ arrival t), 0 ≤ delta e := by
          intro e he
          obtain ⟨hafter', hle⟩ := List.mem_filter.mp he
          have hge := hacross (arrival t) (List.mem_append_right _ (List.mem_singleton_self _)) e
            hafter'
          rw [le_antisymm (of_decide_eq_true hle) hge]
          exact Int.one_nonneg
        have hsum := h.sum_delta_filter hspans t
        rw [← hafter, List.filter_append, List.map_append, List.sum_append,
          List.filter_eq_self.mpr fun e he => decide_eq_true (hall e he)] at hsum
        have hnonneg : 0 ≤ ((after.filter fun e => decide (e ≤ arrival t)).map delta).sum :=
          List.sum_nonneg fun d hd => by
            obtain ⟨e, he, rfl⟩ := List.mem_map.mp hd
            exact hrest e he
        rw [sweep_fst]
        omega
      · obtain ⟨t', ht'⟩ := ih ((List.prefix_append _ _).trans hbefore)
        refine ⟨t', le_trans ?_ ht'⟩
        rw [sweep_concat, sweepStep, delta_departure]
        omega

/-- The peak of the sweep is the largest number of closed spans that share a time. -/
theorem Sweeps.isGreatest_peak [Nonempty τ] (h : Sweeps spans swept)
    (hspans : ∀ s ∈ spans, s.start ≤ s.stop) :
    IsGreatest (Set.range fun t => (overlap spans t : ℤ)) (sweep swept).2 := by
  refine ⟨?_, ?_⟩
  · obtain ⟨before, hbefore, hpeak⟩ := exists_prefix_peak swept
    obtain ⟨t, ht⟩ := h.exists_le_overlap hspans hbefore
    exact ⟨t, le_antisymm (h.overlap_le hspans t) (hpeak.trans_le ht)⟩
  · rintro _ ⟨t, rfl⟩
    exact h.overlap_le hspans t

/-- A span that starts where another one stops overlaps it. -/
example : sweep [arrival 0, arrival 3, departure 3, departure 6] = (0, 2) := by decide

/-! ## Integration -/

open MeasureTheory

/-- Being inside one span. -/
theorem intervalIntegrable_indicator (a b c d : ℝ) :
    IntervalIntegrable ((Set.Ico a b).indicator fun _ => (1 : ℝ)) volume c d := by
  refine Integrable.intervalIntegrable ?_
  rw [integrable_indicator_iff measurableSet_Ico]
  exact integrableOn_const (by simp) (by simp)

theorem integral_indicator_Ico {a b c : ℝ} (ha : 0 ≤ a) (hab : a ≤ b) (hb : b ≤ c) :
    ∫ x in (0 : ℝ)..c, (Set.Ico a b).indicator (fun _ => (1 : ℝ)) x = b - a := by
  have hinside : Set.Icc 0 c ∩ Set.Ico a b = Set.Ico a b := by
    refine Set.inter_eq_right.mpr fun x hx => ?_
    exact ⟨ha.trans hx.1, hx.2.le.trans hb⟩
  rw [intervalIntegral.integral_of_le (ha.trans (hab.trans hb)), ← integral_Icc_eq_integral_Ioc,
    setIntegral_indicator measurableSet_Ico, hinside, setIntegral_const,
    Real.volume_real_Ico_of_le hab, smul_eq_mul, mul_one]

/-- The number of open spans integrates to the sum of their lengths. -/
theorem integral_active {spans : List (Span ℝ)} {horizon : ℝ}
    (hspans : ∀ s ∈ spans, 0 ≤ s.start ∧ s.start ≤ s.stop ∧ s.stop ≤ horizon) :
    IntervalIntegrable (fun x => (active spans x : ℝ)) volume 0 horizon ∧
      ∫ x in (0 : ℝ)..horizon, (active spans x : ℝ) =
        (spans.map fun s => s.stop - s.start).sum := by
  induction spans with
  | nil =>
      simp only [active, List.countP_nil, Nat.cast_zero, List.map_nil, List.sum_nil,
        intervalIntegral.integral_zero, and_true]
      exact intervalIntegrable_const
  | cons s spans ih =>
      rw [List.forall_mem_cons] at hspans
      obtain ⟨hs, hrest⟩ := hspans
      obtain ⟨hintegrable, hintegral⟩ := ih hrest
      have hone := intervalIntegrable_indicator s.start s.stop 0 horizon
      have hsplit : (fun x => (active (s :: spans) x : ℝ)) = fun x =>
          (active spans x : ℝ) + (Set.Ico s.start s.stop).indicator (fun _ => (1 : ℝ)) x := by
        funext x
        rw [active, List.countP_cons, Nat.cast_add]
        refine congrArg _ ?_
        by_cases hx : s.start ≤ x ∧ x < s.stop
        · rw [Set.indicator_of_mem (Set.mem_Ico.mpr hx), if_pos (decide_eq_true hx), Nat.cast_one]
        · rw [Set.indicator_of_notMem fun h => hx (Set.mem_Ico.mp h),
            if_neg fun h => hx (of_decide_eq_true h), Nat.cast_zero]
      rw [hsplit]
      refine ⟨hintegrable.add hone, ?_⟩
      rw [intervalIntegral.integral_add hintegrable hone, hintegral,
        integral_indicator_Ico hs.1 hs.2.1 hs.2.2, List.map_cons, List.sum_cons, add_comm]

end Span

end Support
