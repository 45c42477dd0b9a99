import Mathlib.Data.List.Basic

/-!
# Checks

A check succeeds or raises a message.  A sequence of checks succeeds exactly if each of
them does.
-/

namespace Support

variable {ε α β : Type}

/-- Raise the message unless the condition holds. -/
def require (condition : Bool) (message : ε) : Except ε Unit :=
  if condition then .ok () else .error message

theorem require_eq_ok {condition : Bool} {message : ε} {u : Unit} :
    require condition message = .ok u ↔ condition = true := by
  cases condition with
  | true => exact iff_of_true rfl rfl
  | false => simp [require]

/-- A condition that holds is passed. -/
theorem require_bind {condition : Bool} (h : condition = true) (message : ε)
    (f : Unit → Except ε β) : (require condition message >>= f) = f () := by
  rw [h]
  rfl

theorem bind_eq_ok {x : Except ε α} {f : α → Except ε β} {b : β} :
    (x >>= f) = .ok b ↔ ∃ a, x = .ok a ∧ f a = .ok b := by
  cases x with
  | error e => simp [bind, Except.bind]
  | ok a => simp [bind, Except.bind]

theorem forM_eq_ok {f : α → Except ε Unit} {l : List α} {u : Unit} :
    l.forM f = .ok u ↔ ∀ a ∈ l, f a = .ok () := by
  induction l with
  | nil => exact iff_of_true rfl fun _ h => nomatch h
  | cons a rest ih =>
      rw [List.forM_eq_forM, List.forM_cons, bind_eq_ok, List.forall_mem_cons]
      constructor
      · rintro ⟨_, ha, hrest⟩
        exact ⟨ha, ih.mp hrest⟩
      · rintro ⟨ha, hrest⟩
        exact ⟨(), ha, ih.mpr hrest⟩

/-- The results of a check that succeeds on every element. -/
theorem mem_of_mapM_eq_ok {f : α → Except ε β} {l : List α} {r : List β} (h : l.mapM f = .ok r)
    {b : β} : b ∈ r ↔ ∃ a ∈ l, f a = .ok b := by
  induction l generalizing r with
  | nil =>
      rw [List.mapM_nil] at h
      obtain rfl := Except.ok.inj h
      simp
  | cons a rest ih =>
      rw [List.mapM_cons, bind_eq_ok] at h
      obtain ⟨b', hb', h⟩ := h
      rw [bind_eq_ok] at h
      obtain ⟨r', hr', h⟩ := h
      obtain rfl := Except.ok.inj h
      rw [List.mem_cons, ih hr']
      simp only [List.mem_cons, exists_eq_or_imp, hb', Except.ok.injEq]
      rw [eq_comm]

theorem ok_of_mapM_eq_ok {f : α → Except ε β} {l : List α} {r : List β} (h : l.mapM f = .ok r)
    {a : α} (ha : a ∈ l) : ∃ b, f a = .ok b := by
  induction l generalizing r with
  | nil => cases ha
  | cons a' rest ih =>
      rw [List.mapM_cons, bind_eq_ok] at h
      obtain ⟨b, hb, h⟩ := h
      rw [bind_eq_ok] at h
      obtain ⟨r', hr', -⟩ := h
      rcases List.mem_cons.mp ha with rfl | ha
      · exact ⟨b, hb⟩
      · exact ih hr' ha

end Support
