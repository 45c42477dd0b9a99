import Mathlib.Data.List.Infix

/-!
# Histories

A history is a list that only grows at its end.  `Along P log` says that every
element of a history stands in relation `P` to what came before it, and
`Since start keep log` that something started and was kept up ever since.
-/

namespace Support

variable {α : Type*} {P Q : List α → α → Prop} {log : List α} {a : α}

/-- Every element of the history is related to the elements before it. -/
def Along (P : List α → α → Prop) (log : List α) : Prop :=
  ∀ before a after, log = before ++ a :: after → P before a

theorem Along.nil : Along P [] := by
  intro before a after h
  simp at h

theorem Along.snoc (h : Along P log) (ha : P log a) : Along P (log ++ [a]) := by
  intro before b after heq
  rcases List.eq_nil_or_concat after with rfl | ⟨after, c, rfl⟩
  · obtain ⟨rfl, hab⟩ := List.append_inj' heq rfl
    rwa [List.singleton_inj.mp hab] at ha
  · rw [List.concat_eq_append, ← List.cons_append, ← List.append_assoc] at heq
    obtain ⟨hinit, -⟩ := List.append_inj' heq rfl
    exact h before b after hinit

/-- Elements that stand in the relation to any past may follow. -/
theorem Along.append {news : List α} (h : Along P log) (hnews : ∀ before, ∀ b ∈ news, P before b) :
    Along P (log ++ news) := by
  induction news generalizing log with
  | nil =>
      rw [List.append_nil]
      exact h
  | cons b news ih =>
      rw [List.append_cons]
      apply ih
      · exact h.snoc (hnews log b List.mem_cons_self)
      · exact fun before c hc => hnews before c (List.mem_cons_of_mem b hc)

/-- What holds along a history holds of each element and some part before it. -/
theorem Along.of_mem (h : Along P log) (ha : a ∈ log) : ∃ before, before <+: log ∧ P before a := by
  obtain ⟨before, after, rfl⟩ := List.append_of_mem ha
  exact ⟨before, List.prefix_append _ _, h before a after rfl⟩

/-- Some element of the history starts it, and all later ones keep it up. -/
def Since (start keep : α → Prop) (log : List α) : Prop :=
  ∃ before a after, log = before ++ a :: after ∧ start a ∧ ∀ b ∈ after, keep b

variable {start keep : α → Prop}

theorem Since.append {news : List α} (h : Since start keep log) (hnews : ∀ b ∈ news, keep b) :
    Since start keep (log ++ news) := by
  obtain ⟨before, a, after, rfl, hstart, hkeep⟩ := h
  refine ⟨before, a, after ++ news, by simp, hstart, fun b hb => ?_⟩
  rcases List.mem_append.mp hb with hb | hb
  · exact hkeep b hb
  · exact hnews b hb

theorem not_since_nil : ¬Since start keep [] := by
  rintro ⟨before, b, after, heq, -⟩
  simp at heq

/-- One more element starts it anew or keeps it up. -/
theorem since_snoc : Since start keep (log ++ [a]) ↔ start a ∨ Since start keep log ∧ keep a := by
  constructor
  · rintro ⟨before, b, after, heq, hstart, hkeep⟩
    rcases List.eq_nil_or_concat after with rfl | ⟨after, c, rfl⟩
    · obtain ⟨-, hab⟩ := List.append_inj' heq rfl
      rw [List.singleton_inj.mp hab]
      exact Or.inl hstart
    · rw [List.concat_eq_append] at heq hkeep
      rw [← List.cons_append, ← List.append_assoc] at heq
      obtain ⟨hinit, hac⟩ := List.append_inj' heq rfl
      rw [List.singleton_inj.mp hac]
      refine Or.inr ⟨⟨before, b, after, hinit, hstart, fun d hd => ?_⟩, ?_⟩
      · exact hkeep d (List.mem_append_left _ hd)
      · exact hkeep c (List.mem_append_right _ List.mem_cons_self)
  · rintro (hstart | ⟨⟨before, b, after, rfl, hstart, hkeep⟩, ha⟩)
    · exact ⟨log, a, [], rfl, hstart, by simp⟩
    · refine ⟨before, b, after ++ [a], by simp, hstart, fun d hd => ?_⟩
      rcases List.mem_append.mp hd with hd | hd
      · exact hkeep d hd
      · rwa [List.mem_singleton.mp hd]

end Support
