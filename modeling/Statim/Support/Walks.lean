import Mathlib.Algebra.BigOperators.Group.List.Basic
import Mathlib.Algebra.Ring.Nat
import Mathlib.Data.List.Nodup

/-!
# Walks of least cost

A directed graph is given by the labelled edges that leave each vertex, and a label has
a cost.  Where each vertex passes things on along the first edge of some walk of least
cost to a target, a thing that is passed on follows a walk of least cost itself, and
visits no vertex twice.
-/

namespace Support

variable {V α : Type*} {out : V → List (α × V)} {cost : α → ℕ} {u v t : V} {e : α × V}
  {walk rest : List (α × V)}

/-- The edges lead from one vertex to the other. -/
def IsWalk (out : V → List (α × V)) : V → List (α × V) → V → Prop
  | u, [], t => u = t
  | u, e :: rest, t => e ∈ out u ∧ IsWalk out e.2 rest t

instance decidableIsWalk [DecidableEq V] [DecidableEq α] (out : V → List (α × V)) (t : V) :
    (u : V) → (walk : List (α × V)) → Decidable (IsWalk out u walk t)
  | u, [] => inferInstanceAs (Decidable (u = t))
  | u, e :: rest =>
      have := decidableIsWalk out t e.2 rest
      inferInstanceAs (Decidable (e ∈ out u ∧ IsWalk out e.2 rest t))

/-- What the edges cost together. -/
def walkCost (cost : α → ℕ) (walk : List (α × V)) : ℕ := (walk.map fun e => cost e.1).sum

@[simp] theorem walkCost_nil : walkCost cost ([] : List (α × V)) = 0 := rfl

@[simp] theorem walkCost_cons :
    walkCost cost (e :: rest) = cost e.1 + walkCost cost rest := by
  simp [walkCost]

theorem walkCost_append (walk walk' : List (α × V)) :
    walkCost cost (walk ++ walk') = walkCost cost walk + walkCost cost walk' := by
  simp [walkCost]

/-- A walk can be taken apart where it visits a vertex. -/
theorem IsWalk.split (h : IsWalk out u walk t) (hv : v ∈ walk.map Prod.snd) :
    ∃ first rest, walk = first ++ rest ∧ first ≠ [] ∧ IsWalk out v rest t := by
  induction walk generalizing u with
  | nil => exact absurd hv List.not_mem_nil
  | cons e walk ih =>
      rcases List.mem_cons.mp hv with rfl | hv
      · exact ⟨[e], walk, rfl, List.cons_ne_nil _ _, h.2⟩
      · obtain ⟨first, rest, rfl, -, hrest⟩ := ih h.2 hv
        exact ⟨e :: first, rest, rfl, List.cons_ne_nil _ _, hrest⟩

/-! ## Walks of least cost -/

/-- A walk that costs no more than any other. -/
structure IsShortest (out : V → List (α × V)) (cost : α → ℕ) (u : V) (walk : List (α × V))
    (t : V) : Prop where
  isWalk : IsWalk out u walk t
  least : ∀ other, IsWalk out u other t → walkCost cost walk ≤ walkCost cost other

theorem IsShortest.cost_eq (h : IsShortest out cost u walk t) (h' : IsShortest out cost u rest t) :
    walkCost cost walk = walkCost cost rest :=
  Nat.le_antisymm (h.least rest h'.isWalk) (h'.least walk h.isWalk)

/-- What is left of it after its first edge is one, too. -/
theorem IsShortest.tail (h : IsShortest out cost u (e :: rest) t) :
    IsShortest out cost e.2 rest t := by
  obtain ⟨he, hrest⟩ := h.isWalk
  refine ⟨hrest, fun other hother => ?_⟩
  have hle := h.least (e :: other) ⟨he, hother⟩
  rw [walkCost_cons, walkCost_cons] at hle
  exact Nat.le_of_add_le_add_left hle

/-- An edge before one, at the cost that is left. -/
theorem IsShortest.cons (h : IsShortest out cost u (e :: walk) t)
    (hrest : IsShortest out cost e.2 rest t) : IsShortest out cost u (e :: rest) t := by
  refine ⟨⟨h.isWalk.1, hrest.isWalk⟩, fun other hother => ?_⟩
  have hle := h.least other hother
  rw [walkCost_cons, h.tail.cost_eq hrest] at hle
  rw [walkCost_cons]
  exact hle

/-- Where there is a walk, there is one of least cost. -/
theorem exists_isShortest (h : IsWalk out u walk t) :
    ∃ best, IsShortest out cost u best t ∧ walkCost cost best ≤ walkCost cost walk := by
  induction hcost : walkCost cost walk using Nat.strong_induction_on generalizing walk with
  | _ n ih =>
    by_cases hleast : ∀ other, IsWalk out u other t → walkCost cost walk ≤ walkCost cost other
    · exact ⟨walk, ⟨h, hleast⟩, Nat.le_of_eq hcost⟩
    · push Not at hleast
      obtain ⟨other, hother, hlt⟩ := hleast
      obtain ⟨best, hbest, hle⟩ := ih _ (hcost ▸ hlt) hother rfl
      exact ⟨best, hbest, by omega⟩

/-- A bound that no edge lowers by more than it costs is a bound on every walk. -/
theorem IsWalk.le_walkCost {bound : V → ℕ}
    (hbound : ∀ v, ∀ e ∈ out v, bound v ≤ cost e.1 + bound e.2) (h : IsWalk out u walk t) :
    bound u ≤ walkCost cost walk + bound t := by
  induction walk generalizing u with
  | nil =>
      obtain rfl : u = t := h
      exact Nat.le_add_left _ _
  | cons e walk ih =>
      have hedge := hbound u e h.1
      have hrest := ih h.2
      rw [walkCost_cons]
      omega

/-- The vertices in `S` stay among themselves, and every edge there costs something. -/
def CostsWithin (out : V → List (α × V)) (cost : α → ℕ) (S : V → Prop) : Prop :=
  ∀ v, S v → ∀ e ∈ out v, 0 < cost e.1 ∧ S e.2

/-- Where every edge costs something, it visits no vertex twice. -/
theorem IsShortest.nodup {S : V → Prop} (h : IsShortest out cost u walk t)
    (hcosts : CostsWithin out cost S) (hu : S u) : (u :: walk.map Prod.snd).Nodup := by
  induction walk generalizing u with
  | nil => exact List.nodup_singleton u
  | cons e walk ih =>
      obtain ⟨hcost, hnext⟩ := hcosts u hu e h.isWalk.1
      refine List.nodup_cons.mpr ⟨fun hmem => ?_, ih h.tail hnext⟩
      obtain ⟨first, rest, hsplit, hne, hrest⟩ := h.isWalk.split hmem
      obtain ⟨e', first, rfl⟩ := List.exists_cons_of_ne_nil hne
      obtain ⟨rfl, -⟩ := List.cons.inj hsplit
      have hle := h.least rest hrest
      rw [hsplit, walkCost_append, walkCost_cons] at hle
      omega

/-! ## Passing on -/

/-- Each vertex passes on along the next edge. -/
def Follows (Next : V → α × V → Prop) : V → List (α × V) → Prop
  | _, [] => True
  | u, e :: rest => Next u e ∧ Follows Next e.2 rest

/-- Where the vertices in `S` pass on along the first edge of some walk of least cost, a walk
of least cost is followed to the target. -/
theorem exists_follows {Next : V → α × V → Prop} {S : V → Prop} {bound : ℕ}
    (hcosts : CostsWithin out cost S)
    (hnext : ∀ u walk, S u → u ≠ t → IsShortest out cost u walk t → walkCost cost walk < bound →
      ∃ e rest, IsShortest out cost u (e :: rest) t ∧ Next u e)
    (hu : S u) (h : IsShortest out cost u walk t) (hbound : walkCost cost walk < bound) :
    ∃ route, IsShortest out cost u route t ∧ Follows Next u route := by
  induction hcost : walkCost cost walk using Nat.strong_induction_on generalizing u walk with
  | _ n ih =>
    by_cases heq : u = t
    · exact ⟨[], ⟨heq, fun other _ => Nat.zero_le _⟩, trivial⟩
    · obtain ⟨e, rest, hshortest, hpass⟩ := hnext u walk hu heq h hbound
      obtain ⟨hpositive, hstep⟩ := hcosts u hu e hshortest.isWalk.1
      have hsame := h.cost_eq hshortest
      rw [walkCost_cons] at hsame
      obtain ⟨route, hroute, hfollows⟩ :=
        ih (walkCost cost rest) (by omega) hstep hshortest.tail (by omega) rfl
      exact ⟨e :: route, hshortest.cons hroute, hpass, hfollows⟩

end Support
