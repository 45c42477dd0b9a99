import Mathlib.Data.Nat.Find

/-!
# Maps with deadlines

A map from pairs of a key and a value to deadlines.  A pair is live as long as its
deadline is ahead; expired pairs are never removed, only ignored when the map is
observed.  Two maps agree from some time on if they show the same live pairs then,
which is all that an observer can tell later.
-/

namespace Support

/-- The deadline of each pair that was ever put in. -/
abbrev DeadlineMap (κ π : Type) := κ → π → Option Int

namespace DeadlineMap

variable {κ π : Type} {m m' : DeadlineMap κ π} {now later : Int} {k k' : κ} {p p' : π}

/-- The deadline of a live pair. -/
def live (now : Int) (m : DeadlineMap κ π) (k : κ) (p : π) : Option Int :=
  (m k p).filter fun deadline => decide (now < deadline)

/-- A pair that is live keeps its deadline; one that is expired or absent gets the new
one. -/
def put [DecidableEq κ] [DecidableEq π] (now : Int) (k : κ) (p : π) (deadline : Int)
    (m : DeadlineMap κ π) : DeadlineMap κ π :=
  fun k' p' => if k' = k ∧ p' = p ∧ live now m k p = none then some deadline else m k' p'

/-- Remove all pairs of a key. -/
def remove [DecidableEq κ] (k : κ) (m : DeadlineMap κ π) : DeadlineMap κ π :=
  fun k' p' => if k' = k then none else m k' p'

/-- The key has a live pair. -/
def HasLive (now : Int) (m : DeadlineMap κ π) (k : κ) : Prop :=
  ∃ p, (live now m k p).isSome = true

/-- A key with its live pairs, if there are any. -/
noncomputable def find (now : Int) (k : κ) (m : DeadlineMap κ π) :
    Option (κ × (π → Option Int)) :=
  open Classical in if HasLive now m k then some (k, live now m k) else none

/-- The longest initial segment of a list, of at most `count` elements, that has a live
pair. -/
noncomputable def findUpTo {α : Type} (now : Int) (name : List α) (m : DeadlineMap (List α) π)
    (count : Nat) : Option (List α × (π → Option Int)) :=
  open Classical in
  find now (name.take (Nat.findGreatest (fun n => HasLive now m (name.take n)) count)) m

/-- The longest initial segment of a list that has a live pair. -/
noncomputable def findLongest {α : Type} (now : Int) (name : List α)
    (m : DeadlineMap (List α) π) : Option (List α × (π → Option Int)) :=
  findUpTo now name m name.length

/-- A search from the longest segment downwards. -/
theorem findUpTo_succ {α : Type} (now : Int) (name : List α) (m : DeadlineMap (List α) π)
    (count : Nat) : findUpTo now name m (count + 1) =
      (find now (name.take (count + 1)) m).or (findUpTo now name m count) := by
  classical
  unfold findUpTo
  rw [Nat.findGreatest_succ]
  by_cases hlive : HasLive now m (name.take (count + 1))
  · rw [if_pos hlive, find, if_pos hlive, Option.some_or]
  · have hnone : find now (name.take (count + 1)) m = none := by
      rw [find, if_neg hlive]
    rw [if_neg hlive, hnone, Option.none_or]

/-! ## Agreement -/

/-- The two maps show the same live pairs from now on. -/
def Agree (now : Int) (m m' : DeadlineMap κ π) : Prop :=
  ∀ k p, live now m k p = live now m' k p

theorem live_of_le (h : now ≤ later) :
    live later m k p = (live now m k p).filter fun deadline => decide (later < deadline) := by
  unfold live
  cases m k p with
  | none => rfl
  | some deadline =>
      by_cases hlive : now < deadline
      · simp [Option.filter_some, hlive]
      · have hlater : ¬later < deadline := by omega
        simp [Option.filter_some, hlive, hlater]

/-- Time only hides pairs. -/
theorem Agree.mono (h : Agree now m m') (hle : now ≤ later) : Agree later m m' := by
  intro k p
  rw [live_of_le hle, live_of_le hle, h k p]

theorem Agree.trans {m'' : DeadlineMap κ π} (h : Agree now m m') (h' : Agree now m' m'') :
    Agree now m m'' :=
  fun k p => (h k p).trans (h' k p)

theorem live_put [DecidableEq κ] [DecidableEq π] (now : Int) (k k' : κ) (p p' : π)
    (deadline : Int) (m : DeadlineMap κ π) :
    live now (put now k p deadline m) k' p' =
      if k' = k ∧ p' = p ∧ live now m k p = none then
        (some deadline).filter fun deadline => decide (now < deadline)
      else live now m k' p' :=
  apply_ite (Option.filter fun deadline => decide (now < deadline)) _ _ _

theorem Agree.put [DecidableEq κ] [DecidableEq π] (h : Agree now m m') (k : κ) (p : π)
    (deadline : Int) :
    Agree now (DeadlineMap.put now k p deadline m) (DeadlineMap.put now k p deadline m') := by
  intro k' p'
  rw [live_put, live_put, h k p, h k' p']

theorem live_remove [DecidableEq κ] (now : Int) (k k' : κ) (p : π) (m : DeadlineMap κ π) :
    live now (remove k m) k' p = if k' = k then none else live now m k' p :=
  apply_ite (Option.filter fun deadline => decide (now < deadline)) _ _ _

theorem Agree.remove [DecidableEq κ] (h : Agree now m m') (k : κ) :
    Agree now (DeadlineMap.remove k m) (DeadlineMap.remove k m') := by
  intro k' p
  rw [live_remove, live_remove, h k' p]

theorem Agree.hasLive_iff (h : Agree now m m') (k : κ) : HasLive now m k ↔ HasLive now m' k := by
  refine exists_congr fun p => ?_
  rw [h k p]

theorem Agree.find_eq (h : Agree now m m') (k : κ) : find now k m = find now k m' := by
  have hlive : live now m k = live now m' k := funext fun p => h k p
  unfold find
  rw [hlive]
  by_cases hk : HasLive now m k
  · rw [if_pos hk, if_pos ((h.hasLive_iff k).mp hk)]
  · rw [if_neg hk, if_neg (mt (h.hasLive_iff k).mpr hk)]

theorem Agree.findUpTo_eq {α : Type} {m m' : DeadlineMap (List α) π} (h : Agree now m m')
    (name : List α) (count : Nat) : findUpTo now name m count = findUpTo now name m' count := by
  induction count with
  | zero => exact h.find_eq _
  | succ count ih => rw [findUpTo_succ, findUpTo_succ, h.find_eq, ih]

end DeadlineMap

end Support
