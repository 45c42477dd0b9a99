import Mathlib.Algebra.Order.Group.Defs
import Mathlib.Tactic.Abel
import Statim.Support.Spans

/-!
# Delay lines

Items enter a line in the order of their times, and each leaves it a fixed delay later;
where an entry and an exit fall on one time, the entry comes first.  The line accounts for
the time that items spend inside, and remembers its entries and exits in the order in which
they happened.
-/

namespace Support

open SweepEvent

variable {α τ : Type*}

/-- A line between two of its steps. -/
structure DelayLine (α τ : Type*) where
  done : List α
  inside : List α
  ahead : List α
  now : τ
  area : τ
  history : List (SweepEvent τ)

namespace DelayLine

variable [AddCommGroup τ]

/-- Time passes for the items inside. -/
def areaAt (s : DelayLine α τ) (t : τ) : τ := s.area + s.inside.length • (t - s.now)

/-- Before the first step. -/
def initial (items : List α) : DelayLine α τ where
  done := []
  inside := []
  ahead := items
  now := 0
  area := 0
  history := []

/-- The span of an item. -/
def span (time : α → τ) (delay : τ) (x : α) : Span τ := ⟨time x, time x + delay⟩

/-- The first of the items ahead enters. -/
def enter (time : α → τ) (x : α) (rest : List α) (s : DelayLine α τ) : DelayLine α τ :=
  { s with
    inside := s.inside ++ [x]
    ahead := rest
    now := time x
    area := s.areaAt (time x)
    history := s.history ++ [arrival (time x)] }

/-- The first of the items inside leaves. -/
def leave (time : α → τ) (delay : τ) (x : α) (rest : List α) (s : DelayLine α τ) :
    DelayLine α τ :=
  { s with
    done := s.done ++ [x]
    inside := rest
    now := time x + delay
    area := s.areaAt (time x + delay)
    history := s.history ++ [departure (time x + delay)] }

/-- The time that the items inside spend there. -/
theorem sum_map_sub (l : List α) (f : α → τ) (a b : τ) :
    (l.map fun x => a - f x).sum + l.length • (b - a) = (l.map fun x => b - f x).sum := by
  induction l with
  | nil => simp
  | cons x l ih =>
      rw [List.map_cons, List.sum_cons, List.length_cons, succ_nsmul, List.map_cons,
        List.sum_cons, ← ih]
      abel

variable [LinearOrder τ] {time : α → τ} {delay : τ} {items : List α} {s s' : DelayLine α τ}

/-- One step of the line. -/
inductive Step (time : α → τ) (delay : τ) : DelayLine α τ → DelayLine α τ → Prop
  | enter {s : DelayLine α τ} {x : α} {rest : List α} (hahead : s.ahead = x :: rest)
      (hfirst : ∀ y ∈ s.inside, time x ≤ time y + delay) :
      Step time delay s (s.enter time x rest)
  | leave {s : DelayLine α τ} {x : α} {rest : List α} (hinside : s.inside = x :: rest)
      (hfirst : ∀ y ∈ s.ahead, time x + delay < time y) :
      Step time delay s (s.leave time delay x rest)

/-- What holds between two steps. -/
structure Inv (time : α → τ) (delay : τ) (items : List α) (s : DelayLine α τ) : Prop where
  split : s.done ++ (s.inside ++ s.ahead) = items
  past : ∀ x ∈ s.done, time x + delay ≤ s.now
  entered : ∀ x ∈ s.inside, time x ≤ s.now
  due : ∀ x ∈ s.inside, s.now ≤ time x + delay
  ahead : ∀ x ∈ s.ahead, s.now ≤ time x
  last : ∀ t, 0 ≤ t → (∀ x ∈ items, time x + delay ≤ t) → s.now ≤ t
  gap : ∀ x ∈ s.done, ∀ y ∈ s.ahead, time x + delay < time y
  area : s.area = s.done.length • delay + (s.inside.map fun x => s.now - time x).sum
  perm : s.history.Perm (s.done.flatMap (fun x => (span time delay x).events) ++
    s.inside.map fun x => arrival (time x))
  ordered : s.history.Pairwise (· ≤ ·)

theorem Inv.initial (hpos : ∀ x ∈ items, 0 ≤ time x) :
    Inv time delay items (initial items : DelayLine α τ) where
  split := rfl
  past x hx := absurd hx List.not_mem_nil
  entered x hx := absurd hx List.not_mem_nil
  due x hx := absurd hx List.not_mem_nil
  ahead := hpos
  last _ ht _ := ht
  gap x hx := absurd hx List.not_mem_nil
  area := by simp [DelayLine.initial]
  perm := List.Perm.nil
  ordered := List.Pairwise.nil

theorem Inv.areaAt_eq (h : Inv time delay items s) (t : τ) :
    s.areaAt t = s.done.length • delay + (s.inside.map fun x => t - time x).sum := by
  rw [areaAt, h.area, add_assoc, sum_map_sub]

/-- The events so far are those of the items that have entered. -/
theorem Inv.mem_history (h : Inv time delay items s) {e : SweepEvent τ} (he : e ∈ s.history) :
    (∃ x ∈ s.done ++ s.inside, e = arrival (time x)) ∨
      ∃ x ∈ s.done, e = departure (time x + delay) := by
  rcases List.mem_append.mp (h.perm.subset he) with hmem | hmem
  · obtain ⟨x, hx, hmem⟩ := List.mem_flatMap.mp hmem
    rw [Span.events, List.mem_cons, List.mem_singleton] at hmem
    rcases hmem with rfl | rfl
    · exact Or.inl ⟨x, List.mem_append_left _ hx, rfl⟩
    · exact Or.inr ⟨x, hx, rfl⟩
  · obtain ⟨x, hx, rfl⟩ := List.mem_map.mp hmem
    exact Or.inl ⟨x, List.mem_append_right _ hx, rfl⟩

omit [AddCommGroup τ] in
theorem pairwise_concat {l : List (SweepEvent τ)} {e : SweepEvent τ}
    (h : l.Pairwise (· ≤ ·)) (hle : ∀ e' ∈ l, e' ≤ e) : (l ++ [e]).Pairwise (· ≤ ·) := by
  refine List.pairwise_append.mpr ⟨h, List.pairwise_singleton _ _, fun e' he' b hb => ?_⟩
  rw [List.mem_singleton.mp hb]
  exact hle e' he'

/-! ## At a time between two steps -/

/-- The steps up to `t` have been made, and no other. -/
structure Settled (time : α → τ) (delay : τ) (s : DelayLine α τ) (t : τ) : Prop where
  now : s.now ≤ t
  due : ∀ x ∈ s.inside, t < time x + delay
  ahead : ∀ x ∈ s.ahead, t < time x

/-- The items inside are those whose span contains the time. -/
theorem Inv.mem_inside_iff (h : Inv time delay items s) {t : τ} (ht : Settled time delay s t)
    {x : α} (hx : x ∈ items) : x ∈ s.inside ↔ time x ≤ t ∧ t < time x + delay := by
  constructor
  · intro hinside
    exact ⟨(h.entered x hinside).trans ht.now, ht.due x hinside⟩
  · rintro ⟨hlow, hhigh⟩
    rw [← h.split] at hx
    rcases List.mem_append.mp hx with hdone | hx
    · exact absurd hhigh (not_lt.mpr ((h.past x hdone).trans ht.now))
    rcases List.mem_append.mp hx with hinside | hahead
    · exact hinside
    · exact absurd hlow (not_le.mpr (ht.ahead x hahead))

theorem Inv.length_inside (h : Inv time delay items s) {t : τ} (ht : Settled time delay s t) :
    s.inside.length = Span.active (items.map (span time delay)) t := by
  have hdone : s.done.countP (fun x => decide (time x ≤ t ∧ t < time x + delay)) = 0 := by
    refine List.countP_eq_zero.mpr fun x hx hspan => ?_
    exact absurd (of_decide_eq_true hspan).2 (not_lt.mpr ((h.past x hx).trans ht.now))
  have hinside : s.inside.countP (fun x => decide (time x ≤ t ∧ t < time x + delay)) =
      s.inside.length := by
    refine List.countP_eq_length.mpr fun x hx => decide_eq_true ?_
    exact ⟨(h.entered x hx).trans ht.now, ht.due x hx⟩
  have hahead : s.ahead.countP (fun x => decide (time x ≤ t ∧ t < time x + delay)) = 0 := by
    refine List.countP_eq_zero.mpr fun x hx hspan => ?_
    exact absurd (of_decide_eq_true hspan).1 (not_le.mpr (ht.ahead x hx))
  rw [Span.active, List.countP_map, ← h.split, List.countP_append, List.countP_append]
  change s.inside.length = s.done.countP (fun x => decide (time x ≤ t ∧ t < time x + delay)) +
    (s.inside.countP (fun x => decide (time x ≤ t ∧ t < time x + delay)) +
      s.ahead.countP (fun x => decide (time x ≤ t ∧ t < time x + delay)))
  omega

/-! ## At the end -/

/-- Every item has passed through the line. -/
def Finished (s : DelayLine α τ) : Prop := s.inside = [] ∧ s.ahead = []

theorem Inv.done_eq (h : Inv time delay items s) (hend : Finished s) : s.done = items := by
  rw [← h.split, hend.1, hend.2, List.append_nil, List.append_nil]

theorem Inv.area_eq (h : Inv time delay items s) (hend : Finished s) :
    s.area = items.length • delay := by
  rw [h.area, h.done_eq hend, hend.1, List.map_nil, List.sum_nil, add_zero]

theorem Inv.sweeps (h : Inv time delay items s) (hend : Finished s) :
    Span.Sweeps (items.map (span time delay)) s.history where
  perm := by
    have hperm := h.perm
    rw [hend.1, List.map_nil, List.append_nil, h.done_eq hend] at hperm
    rwa [List.flatMap_map]
  sorted := h.ordered

/-! ## Steps -/

variable [IsOrderedAddMonoid τ]

theorem Inv.enter (h : Inv time delay items s) (hdelay : 0 ≤ delay)
    (hsorted : items.Pairwise fun x y => time x ≤ time y) {x : α} {rest : List α}
    (hahead : s.ahead = x :: rest) (hfirst : ∀ y ∈ s.inside, time x ≤ time y + delay) :
    Inv time delay items (s.enter time x rest) := by
  have hx : x ∈ s.ahead := hahead ▸ List.mem_cons_self
  have hrest : ∀ y ∈ rest, y ∈ s.ahead := fun y hy => hahead ▸ List.mem_cons_of_mem x hy
  have hnow : s.now ≤ time x := h.ahead x hx
  have hlater : ∀ y ∈ rest, time x ≤ time y := by
    rw [← h.split, hahead, ← List.append_assoc] at hsorted
    exact fun y hy => List.rel_of_pairwise_cons (List.pairwise_append.mp hsorted).2.1 hy
  constructor
  case split =>
    rw [← h.split, hahead]
    simp [DelayLine.enter]
  case past => exact fun y hy => (h.gap y hy x hx).le
  case entered =>
    intro y hy
    rcases List.mem_append.mp hy with hy | hy
    · exact (h.entered y hy).trans hnow
    · rw [List.mem_singleton.mp hy]
      exact le_rfl
  case due =>
    intro y hy
    rcases List.mem_append.mp hy with hy | hy
    · exact hfirst y hy
    · rw [List.mem_singleton.mp hy]
      exact le_add_of_nonneg_right hdelay
  case ahead => exact hlater
  case last =>
    intro t _ ht
    exact (le_add_of_nonneg_right hdelay).trans (ht x (h.split ▸ by simp [hahead]))
  case gap => exact fun y hy z hz => h.gap y hy z (hrest z hz)
  case area =>
    rw [show (s.enter time x rest).area = s.areaAt (time x) from rfl, h.areaAt_eq]
    simp [DelayLine.enter]
  case perm =>
    simp only [DelayLine.enter, List.map_append, List.map_cons, List.map_nil]
    rw [← List.append_assoc]
    exact h.perm.append_right _
  case ordered =>
    refine pairwise_concat h.ordered fun e he => ?_
    rcases h.mem_history he with ⟨y, hy, rfl⟩ | ⟨y, hy, rfl⟩
    · rw [arrival_le_arrival]
      rcases List.mem_append.mp hy with hy | hy
      · exact (le_add_of_nonneg_right hdelay).trans (h.gap y hy x hx).le
      · exact (h.entered y hy).trans hnow
    · exact departure_le_arrival.mpr (h.gap y hy x hx)

theorem Inv.leave (h : Inv time delay items s) (hdelay : 0 ≤ delay)
    (hsorted : items.Pairwise fun x y => time x ≤ time y) {x : α} {rest : List α}
    (hinside : s.inside = x :: rest) (hfirst : ∀ y ∈ s.ahead, time x + delay < time y) :
    Inv time delay items (s.leave time delay x rest) := by
  have hx : x ∈ s.inside := hinside ▸ List.mem_cons_self
  have hrest : ∀ y ∈ rest, y ∈ s.inside := fun y hy => hinside ▸ List.mem_cons_of_mem x hy
  have hnow : s.now ≤ time x + delay := h.due x hx
  rw [← h.split, hinside] at hsorted
  obtain ⟨-, hsorted, hdone⟩ := List.pairwise_append.mp hsorted
  have hlater : ∀ y ∈ rest, time x ≤ time y := fun y hy =>
    List.rel_of_pairwise_cons hsorted (List.mem_append_left _ hy)
  have hearlier : ∀ y ∈ s.done, time y ≤ time x := fun y hy => hdone y hy x List.mem_cons_self
  constructor
  case split =>
    rw [← h.split, hinside]
    simp [DelayLine.leave]
  case past =>
    intro y hy
    rcases List.mem_append.mp hy with hy | hy
    · exact (h.past y hy).trans hnow
    · rw [List.mem_singleton.mp hy]
      exact le_rfl
  case entered => exact fun y hy => (h.entered y (hrest y hy)).trans hnow
  case due => exact fun y hy => add_le_add_left (hlater y hy) delay
  case ahead => exact fun y hy => (hfirst y hy).le
  case last => exact fun t _ ht => ht x (h.split ▸ by simp [hinside])
  case gap =>
    intro y hy z hz
    rcases List.mem_append.mp hy with hy | hy
    · exact h.gap y hy z hz
    · rw [List.mem_singleton.mp hy]
      exact hfirst z hz
  case area =>
    rw [show (s.leave time delay x rest).area = s.areaAt (time x + delay) from rfl, h.areaAt_eq,
      hinside]
    simp only [DelayLine.leave, List.map_cons, List.sum_cons, List.length_append,
      List.length_singleton, succ_nsmul]
    abel
  case perm =>
    have hperm := h.perm
    simp only [DelayLine.leave, List.flatMap_append, List.flatMap_singleton, hinside,
      List.map_cons] at hperm ⊢
    refine (hperm.append_right _).trans ?_
    simp only [span, Span.events, List.append_assoc, List.cons_append, List.nil_append]
    refine List.Perm.append_left _ (List.Perm.cons _ ?_)
    exact List.perm_append_singleton _ _
  case ordered =>
    refine pairwise_concat h.ordered fun e he => ?_
    rcases h.mem_history he with ⟨y, hy, rfl⟩ | ⟨y, hy, rfl⟩
    · rw [arrival_le_departure]
      rcases List.mem_append.mp hy with hy | hy
      · exact (hearlier y hy).trans (le_add_of_nonneg_right hdelay)
      · exact (h.entered y hy).trans hnow
    · exact departure_le_departure.mpr (add_le_add_left (hearlier y hy) delay)

/-- A line that is not finished can make a step. -/
theorem Inv.exists_step (h : Inv time delay items s)
    (hsorted : items.Pairwise fun x y => time x ≤ time y) (hgoing : ¬Finished s) :
    (∃ x rest, s.ahead = x :: rest ∧ ∀ y ∈ s.inside, time x ≤ time y + delay) ∨
      ∃ x rest, s.inside = x :: rest ∧ ∀ y ∈ s.ahead, time x + delay < time y := by
  rw [← h.split] at hsorted
  obtain ⟨-, hsorted, -⟩ := List.pairwise_append.mp hsorted
  obtain ⟨hinsides, haheads, -⟩ := List.pairwise_append.mp hsorted
  cases hinside : s.inside with
  | nil =>
      cases hahead : s.ahead with
      | nil => exact absurd ⟨hinside, hahead⟩ hgoing
      | cons x rest => exact Or.inl ⟨x, rest, rfl, fun y hy => absurd hy List.not_mem_nil⟩
  | cons z insides =>
      rw [hinside] at hinsides
      cases hahead : s.ahead with
      | nil => exact Or.inr ⟨z, insides, rfl, fun y hy => absurd hy List.not_mem_nil⟩
      | cons x rest =>
          rw [hahead] at haheads
          rcases le_or_gt (time x) (time z + delay) with hle | hlt
          · refine Or.inl ⟨x, rest, rfl, fun y hy => ?_⟩
            rcases List.mem_cons.mp hy with rfl | hy
            · exact hle
            · exact hle.trans (add_le_add_left (List.rel_of_pairwise_cons hinsides hy) delay)
          · refine Or.inr ⟨z, insides, rfl, fun y hy => ?_⟩
            rcases List.mem_cons.mp hy with rfl | hy
            · exact hlt
            · exact hlt.trans_le (List.rel_of_pairwise_cons haheads hy)

/-- One step keeps the invariant. -/
theorem Inv.step (h : Inv time delay items s) (hdelay : 0 ≤ delay)
    (hsorted : items.Pairwise fun x y => time x ≤ time y) (hstep : Step time delay s s') :
    Inv time delay items s' := by
  cases hstep with
  | enter hahead hfirst => exact h.enter hdelay hsorted hahead hfirst
  | leave hinside hfirst => exact h.leave hdelay hsorted hinside hfirst

end DelayLine

end Support
