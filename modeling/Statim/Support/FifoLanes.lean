import Statim.Support.Schedule

/-!
# First-in first-out lanes

Events may travel in lanes, through stages that take the same time for all of
them.  Each event has a rank within its lane, in the order of entry.  Then
nothing overtakes: the event with the smaller rank is further on, or at the
same stage and runs first.  That order is kept when the next event of the queue
moves on, and when a new one enters behind the others.
-/

namespace Support

/-- How events travel. -/
structure Lanes (ε κ : Type*) where
  lane : ε → κ
  stage : ε → ℕ
  rank : ε → ℕ

variable {ε κ : Type*} {L : Lanes ε κ} {queue : List (Scheduled ε)} {e : Scheduled ε}

/-- Of two events of one lane the one with the smaller rank is further on, or at
the same stage and runs first; no two have the same rank. -/
structure InOrder (L : Lanes ε κ) (queue : List (Scheduled ε)) : Prop where
  ordered : ∀ a ∈ queue, ∀ b ∈ queue, L.lane a.event = L.lane b.event →
    L.rank a.event < L.rank b.event → L.stage b.event < L.stage a.event ∨
      (L.stage b.event = L.stage a.event ∧ a.ts ≤ b.ts ∧ a.uid < b.uid)
  unique : ∀ a ∈ queue, ∀ b ∈ queue, L.lane a.event = L.lane b.event →
    L.rank a.event = L.rank b.event → a = b

/-- An event that enters stage `k` overtakes nothing and is overtaken by nothing. -/
def Fits (L : Lanes ε κ) (k : ℕ) (event : ε) (queue : List (Scheduled ε)) : Prop :=
  ∀ b ∈ queue, L.lane b.event = L.lane event →
    (L.rank b.event < L.rank event ∧ k ≤ L.stage b.event) ∨
      (L.rank event < L.rank b.event ∧ L.stage b.event < k)

theorem InOrder.nil (L : Lanes ε κ) : InOrder L [] :=
  ⟨by simp, by simp⟩

theorem InOrder.cancel (h : InOrder L queue) (uid : ℕ) : InOrder L (cancel uid queue) where
  ordered a ha b hb := h.ordered a (mem_cancel.mp ha).1 b (mem_cancel.mp hb).1
  unique a ha b hb := h.unique a (mem_cancel.mp ha).1 b (mem_cancel.mp hb).1

/-- An event that fits may be scheduled at the end of the queue. -/
theorem InOrder.push (h : InOrder L queue) (hfits : Fits L (L.stage e.event) e.event queue)
    (hts : ∀ b ∈ queue, L.lane b.event = L.lane e.event → L.stage b.event = L.stage e.event →
      L.rank b.event < L.rank e.event → b.ts ≤ e.ts)
    (huid : ∀ b ∈ queue, b.uid < e.uid) : InOrder L (queue ++ [e]) where
  ordered a ha b hb hlane hrank := by
    rw [List.mem_append, List.mem_singleton] at ha hb
    rcases ha with ha | rfl
    · rcases hb with hb | rfl
      · exact h.ordered a ha b hb hlane hrank
      · rcases hfits a ha hlane with ⟨-, hstage⟩ | ⟨hless, -⟩
        · rcases Nat.lt_or_eq_of_le hstage with hlt | heq
          · exact Or.inl hlt
          · exact Or.inr ⟨heq, hts a ha hlane heq.symm hrank, huid a ha⟩
        · omega
    · rcases hb with hb | rfl
      · rcases hfits b hb hlane.symm with ⟨hless, -⟩ | ⟨-, hstage⟩
        · omega
        · exact Or.inl hstage
      · exact absurd hrank (Nat.lt_irrefl _)
  unique a ha b hb hlane hrank := by
    rw [List.mem_append, List.mem_singleton] at ha hb
    rcases ha with ha | rfl
    · rcases hb with hb | rfl
      · exact h.unique a ha b hb hlane hrank
      · rcases hfits a ha hlane with ⟨hless, -⟩ | ⟨hless, -⟩ <;> omega
    · rcases hb with hb | rfl
      · rcases hfits b hb hlane.symm with ⟨hless, -⟩ | ⟨hless, -⟩ <;> omega
      · rfl

/-- The next event of the queue fits into the stage after its own. -/
theorem InOrder.fits_of_next (h : InOrder L queue) (he : e ∈ queue)
    (hnext : ∀ b ∈ queue, Precedes e.key b.key) :
    Fits L (L.stage e.event + 1) e.event (Support.cancel e.uid queue) := by
  intro b hb hlane
  obtain ⟨hb, huid⟩ := mem_cancel.mp hb
  rcases Nat.lt_trichotomy (L.rank b.event) (L.rank e.event) with hless | heq | hmore
  · rcases h.ordered b hb e he hlane hless with hstage | ⟨-, hts, hbefore⟩
    · exact Or.inl ⟨hless, hstage⟩
    · -- at the same stage it would run first
      exfalso
      rcases hnext b hb with hlt | ⟨-, hle⟩
      · exact Nat.not_lt.mpr hts hlt
      · exact Nat.not_lt.mpr hle hbefore
  · exact absurd (congrArg Scheduled.uid (h.unique b hb e he hlane heq)) huid
  · refine Or.inr ⟨hmore, ?_⟩
    rcases h.ordered e he b hb hlane.symm hmore with hstage | ⟨hstage, -⟩ <;> omega

/-- The newest event of a lane fits into a stage that no other is before. -/
theorem fits_of_newest {event : ε} {k : ℕ}
    (hrank : ∀ b ∈ queue, L.lane b.event = L.lane event → L.rank b.event < L.rank event)
    (hstage : ∀ b ∈ queue, k ≤ L.stage b.event) : Fits L k event queue :=
  fun b hb hlane => Or.inl ⟨hrank b hb hlane, hstage b hb⟩

end Support
