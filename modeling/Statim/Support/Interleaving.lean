import Mathlib.Logic.Function.Basic
import Mathlib.Logic.Relation

/-!
# Interleaved components

A system takes the steps of its components one at a time and in any order.  What
a component may do depends on the states of all of them, since components read
what the others have sent.

The second part is about things that are passed on from one component to the
next.  Where every component notes whom it first got the thing from, the notes
lead back to where the thing entered the system.
-/

namespace Support

variable {V σ : Type*}

section Systems

variable [DecidableEq V] {step : (V → σ) → V → σ → Prop} {s₀ s : V → σ}

/-- The system states that are reached from `s₀`, where `step s v t` says that
component `v` may go to state `t` when the system is in state `s`. -/
inductive Interleaving (step : (V → σ) → V → σ → Prop) (s₀ : V → σ) : (V → σ) → Prop
  | start : Interleaving step s₀ s₀
  | step {s : V → σ} {v : V} {t : σ} (hbefore : Interleaving step s₀ s)
      (hstep : step s v t) : Interleaving step s₀ (Function.update s v t)

/-- A property of single components holds of all of them if every step keeps it,
given that it holds everywhere. -/
theorem Interleaving.forall_components (Inv : V → σ → Prop)
    (hrun : Interleaving step s₀ s) (hinit : ∀ v, Inv v (s₀ v))
    (hstep : ∀ s v t, Interleaving step s₀ s → (∀ u, Inv u (s u)) → step s v t → Inv v t)
    (v : V) : Inv v (s v) := by
  induction hrun generalizing v with
  | start => exact hinit v
  | @step s u t hbefore hlast ih =>
      by_cases hv : v = u
      · subst hv
        rw [Function.update_self]
        exact hstep s v t hbefore ih hlast
      · rw [Function.update_of_ne hv]
        exact ih v

end Systems

/-! ## Passing on -/

section Passing

variable {P : Type*} {s : V → σ} {source : V → P → Prop} {peer : V → P → Option (V × P)}
  {parent : σ → Option P}

/-- `v` has first got it from `u`. -/
def GotFrom (peer : V → P → Option (V × P)) (parent : σ → Option P) (s : V → σ)
    (v u : V) : Prop :=
  ∃ p q, parent (s v) = some p ∧ peer v p = some (u, q)

/-- The notes lead from `v` back to where the thing entered the system. -/
inductive Rooted (source : V → P → Prop) (peer : V → P → Option (V × P))
    (parent : σ → Option P) (s : V → σ) : V → Prop
  | source {v : V} {p : P} (hparent : parent (s v) = some p) (hpeer : peer v p = none)
      (hsource : source v p) : Rooted source peer parent s v
  | hop {v u : V} {p q : P} (hparent : parent (s v) = some p) (hpeer : peer v p = some (u, q))
      (hrooted : Rooted source peer parent s u) : Rooted source peer parent s v

/-- Notes that are never changed stay good. -/
theorem Rooted.update [DecidableEq V] {v w : V} {t : σ} (h : Rooted source peer parent s v)
    (hkeep : ∀ p, parent (s w) = some p → parent t = some p) :
    Rooted source peer parent (Function.update s w t) v := by
  have hparents : ∀ v p, parent (s v) = some p →
      parent (Function.update s w t v) = some p := by
    intro v p hp
    by_cases hv : v = w
    · subst hv
      rw [Function.update_self]
      exact hkeep p hp
    · rw [Function.update_of_ne hv]
      exact hp
  induction h with
  | source hparent hpeer hsource => exact .source (hparents _ _ hparent) hpeer hsource
  | hop hparent hpeer _ ih => exact .hop (hparents _ _ hparent) hpeer ih

/-- There is a source at the end of the way back. -/
theorem Rooted.exists_source {v : V} (h : Rooted source peer parent s v) :
    ∃ u p, peer u p = none ∧ source u p := by
  induction h with
  | source _ hpeer hsource => exact ⟨_, _, hpeer, hsource⟩
  | hop _ _ _ ih => exact ih

/-- The way back never meets a component twice. -/
theorem Rooted.not_cycle {v : V} (h : Rooted source peer parent s v) :
    ¬Relation.TransGen (GotFrom peer parent s) v v := by
  induction h with
  | @source v p hparent hpeer _ =>
      intro hcycle
      obtain ⟨u, ⟨p', q', hparent', hpeer'⟩, -⟩ := Relation.TransGen.head'_iff.mp hcycle
      obtain rfl := Option.some.inj (hparent.symm.trans hparent')
      rw [hpeer] at hpeer'
      cases hpeer'
  | @hop v u p q hparent hpeer _ ih =>
      intro hcycle
      obtain ⟨u', ⟨p', q', hparent', hpeer'⟩, hback⟩ := Relation.TransGen.head'_iff.mp hcycle
      obtain rfl := Option.some.inj (hparent.symm.trans hparent')
      obtain ⟨rfl, rfl⟩ := Prod.mk.inj (Option.some.inj (hpeer.symm.trans hpeer'))
      -- the cycle can be entered one component later
      exact ih (Relation.TransGen.tail' hback ⟨p, q, hparent, hpeer⟩)

/-- If a component gets the thing only at a source or from a component that already
has it, then all notes lead back to a source. -/
theorem Interleaving.rooted [DecidableEq V] {step : (V → σ) → V → σ → Prop} {s₀ : V → σ}
    (hrun : Interleaving step s₀ s)
    (hinit : ∀ v, parent (s₀ v) = none)
    (hkeep : ∀ s v t p, Interleaving step s₀ s → step s v t → parent (s v) = some p →
      parent t = some p)
    (hnew : ∀ s v t p, Interleaving step s₀ s → step s v t → parent (s v) = none →
      parent t = some p → peer v p = none ∧ source v p ∨
        ∃ u q, peer v p = some (u, q) ∧ parent (s u) ≠ none)
    (v : V) (hv : parent (s v) ≠ none) : Rooted source peer parent s v := by
  induction hrun generalizing v with
  | start => exact absurd (hinit v) hv
  | @step s w t hbefore hlast ih =>
      have hstays : ∀ v, parent (s v) ≠ none →
          Rooted source peer parent (Function.update s w t) v :=
        fun v hv => (ih v hv).update fun p => hkeep s w t p hbefore hlast
      by_cases hvw : v = w
      · subst hvw
        cases hold : parent (s v) with
        | some p =>
            refine hstays v ?_
            rw [hold]
            exact Option.some_ne_none p
        | none =>
            rw [Function.update_self] at hv
            obtain ⟨p, hp⟩ := Option.ne_none_iff_exists'.mp hv
            have hp' : parent (Function.update s v t v) = some p := by
              rwa [Function.update_self]
            rcases hnew s v t p hbefore hlast hold hp with
              ⟨hpeer, hsource⟩ | ⟨u, q, hpeer, hu⟩
            · exact .source hp' hpeer hsource
            · exact .hop hp' hpeer (hstays u hu)
      · rw [Function.update_of_ne hvw] at hv
        exact hstays v hv

end Passing

end Support
