import Mathlib.Data.List.Sort
import Mathlib.Data.Nat.Basic

/-!
# Ordered sets of numbers

`std::set` of machine integers is iterated in increasing order.  Here it is a
`Std.TreeSet`; these lemmas say what repeated insertion and iteration give.
-/

namespace Support

/-- Insert the elements of a list one after the other. -/
def insertAll (elems : List ℕ) (s : Std.TreeSet ℕ) : Std.TreeSet ℕ :=
  elems.foldl (fun s x => s.insert x) s

@[simp] theorem mem_insertAll {elems : List ℕ} {s : Std.TreeSet ℕ} {x : ℕ} :
    x ∈ insertAll elems s ↔ x ∈ elems ∨ x ∈ s := by
  induction elems generalizing s with
  | nil => simp [insertAll]
  | cons y rest ih =>
      rw [insertAll, List.foldl_cons]
      rw [show rest.foldl (fun s x => s.insert x) (s.insert y) = insertAll rest (s.insert y)
        from rfl, ih, Std.TreeSet.mem_insert, Std.LawfulEqOrd.compare_eq_iff_eq,
        List.mem_cons, or_left_comm, ← or_assoc]
      simp only [eq_comm]

theorem mem_insert_iff {s : Std.TreeSet ℕ} {x y : ℕ} : y ∈ s.insert x ↔ y = x ∨ y ∈ s := by
  rw [Std.TreeSet.mem_insert, Std.LawfulEqOrd.compare_eq_iff_eq, eq_comm]

/-- Iteration runs in increasing order. -/
theorem pairwise_lt_toList (s : Std.TreeSet ℕ) : s.toList.Pairwise (· < ·) := by
  have hordered : s.toList.Pairwise fun a b => compare a b = .lt :=
    Std.TreeSet.ordered_toList
  exact hordered.imp fun h => Nat.compare_eq_lt.mp h

/-- Increasing lists with the same elements are equal. -/
theorem eq_of_pairwise_lt {l l' : List ℕ} (hl : l.Pairwise (· < ·))
    (hl' : l'.Pairwise (· < ·)) (h : ∀ x, x ∈ l ↔ x ∈ l') : l = l' := by
  have hperm : l.Perm l' := by
    rw [List.perm_ext_iff_of_nodup]
    · exact h
    · exact hl.imp Nat.ne_of_lt
    · exact hl'.imp Nat.ne_of_lt
  exact hperm.eq_of_pairwise (fun a b _ _ hab hba => absurd hab (Nat.lt_asymm hba)) hl hl'

/-- The iteration of a set is the increasing list of its elements. -/
theorem toList_eq {s : Std.TreeSet ℕ} {l : List ℕ} (hl : l.Pairwise (· < ·))
    (h : ∀ x, x ∈ s ↔ x ∈ l) : s.toList = l :=
  eq_of_pairwise_lt (pairwise_lt_toList s) hl fun x => by
    rw [Std.TreeSet.mem_toList, h]

theorem isEmpty_eq_false_iff {s : Std.TreeSet ℕ} : s.isEmpty = false ↔ ∃ x, x ∈ s :=
  Std.TreeSet.isEmpty_eq_false_iff_exists_mem

theorem isEmpty_iff_toList {s : Std.TreeSet ℕ} : s.isEmpty = true ↔ s.toList = [] := by
  rw [Std.TreeSet.isEmpty_iff_forall_not_mem, List.eq_nil_iff_forall_not_mem]
  simp only [Std.TreeSet.mem_toList]

theorem toList_insert_empty (x : ℕ) : ((∅ : Std.TreeSet ℕ).insert x).toList = [x] :=
  toList_eq (List.pairwise_singleton _ x) fun y => by
    rw [Std.TreeSet.mem_insert, Std.LawfulEqOrd.compare_eq_iff_eq, List.mem_singleton]
    simp [eq_comm]

end Support
