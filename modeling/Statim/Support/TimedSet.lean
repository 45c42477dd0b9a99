import Mathlib.Data.List.Sort
import Mathlib.Data.List.Nodup

/-!
# Sets of keys with a time

A container with two indices: at most one entry for each key, and the entries in
the order of their time.  Entries with the same time stay in the order of their
insertion.
-/

namespace Support

/-- Keys, each with its time, in the order of time. -/
structure TimedSet (κ : Type*) where
  entries : List (κ × ℕ)
  distinct : (entries.map Prod.fst).Nodup
  ordered : entries.Pairwise fun a b => a.2 ≤ b.2

namespace TimedSet

variable {κ : Type*} {s : TimedSet κ} {k k' : κ} {t t' : ℕ} {e : κ × ℕ}
  {rest : List (κ × ℕ)}

/-- The place of a new entry is behind all that are no later. -/
def place (e : κ × ℕ) (l : List (κ × ℕ)) : List (κ × ℕ) :=
  l.orderedInsert (fun a b => a.2 < b.2) e

theorem perm_place (e : κ × ℕ) (l : List (κ × ℕ)) : (place e l).Perm (e :: l) :=
  List.perm_orderedInsert _ e l

theorem ordered_place {l : List (κ × ℕ)} (h : l.Pairwise fun a b => a.2 ≤ b.2) :
    (place e l).Pairwise fun a b => a.2 ≤ b.2 := by
  induction l with
  | nil => exact List.pairwise_singleton _ e
  | cons a l ih =>
      obtain ⟨hfirst, hrest⟩ := List.pairwise_cons.mp h
      rw [place, List.orderedInsert_cons]
      split
      next hlt =>
        apply List.pairwise_cons.mpr
        refine ⟨fun b hb => ?_, h⟩
        rcases List.mem_cons.mp hb with rfl | hb
        · exact Nat.le_of_lt hlt
        · exact Nat.le_trans (Nat.le_of_lt hlt) (hfirst b hb)
      next hle =>
        apply List.pairwise_cons.mpr
        refine ⟨fun b hb => ?_, ih hrest⟩
        rcases List.mem_cons.mp ((perm_place e l).mem_iff.mp hb) with rfl | hb
        · exact Nat.le_of_not_lt hle
        · exact hfirst b hb

/-! ## Operations -/

/-- No entry. -/
def empty : TimedSet κ := ⟨[], List.nodup_nil, List.Pairwise.nil⟩

/-- The keys with an entry. -/
def keys (s : TimedSet κ) : List κ := s.entries.map Prod.fst

theorem mem_keys : k ∈ s.keys ↔ ∃ t, (k, t) ∈ s.entries := by
  simp [keys]

theorem mem_keys_of_mem (h : e ∈ s.entries) : e.1 ∈ s.keys := List.mem_map_of_mem h

theorem nodup_keys (s : TimedSet κ) : s.keys.Nodup := s.distinct

@[simp] theorem not_mem_empty : e ∉ (empty : TimedSet κ).entries := List.not_mem_nil

variable [DecidableEq κ]

/-- The time of a key. -/
def time? (s : TimedSet κ) (k : κ) : Option ℕ := s.entries.lookup k

/-- Insertion; a key that has an entry keeps it. -/
def insert (s : TimedSet κ) (k : κ) (t : ℕ) : TimedSet κ :=
  if h : k ∈ s.keys then s
  else
    { entries := place (k, t) s.entries
      distinct := by
        have hkeys := (perm_place (k, t) s.entries).map Prod.fst
        rw [List.map_cons] at hkeys
        exact hkeys.nodup_iff.mpr (List.nodup_cons.mpr ⟨h, s.distinct⟩)
      ordered := ordered_place s.ordered }

/-- Removal of a key. -/
def erase (s : TimedSet κ) (k : κ) : TimedSet κ where
  entries := s.entries.filter fun e => e.1 ≠ k
  distinct := s.distinct.sublist (List.filter_sublist.map _)
  ordered := s.ordered.sublist List.filter_sublist

/-! ## What they do -/

theorem mem_insert : e ∈ (s.insert k t).entries ↔ e ∈ s.entries ∨ (k ∉ s.keys ∧ e = (k, t)) := by
  unfold insert
  split
  next hmem => simp [hmem]
  next hnew =>
    rw [(perm_place (k, t) s.entries).mem_iff, List.mem_cons]
    simp [hnew, or_comm]

theorem mem_erase : e ∈ (s.erase k).entries ↔ e ∈ s.entries ∧ e.1 ≠ k := by
  simp [erase]

theorem mem_keys_insert : k' ∈ (s.insert k t).keys ↔ k' = k ∨ k' ∈ s.keys := by
  rw [mem_keys, mem_keys]
  simp only [mem_insert]
  constructor
  · rintro ⟨t', hold | ⟨-, hnew⟩⟩
    · exact Or.inr ⟨t', hold⟩
    · exact Or.inl (Prod.mk.inj hnew).1
  · rintro (rfl | ⟨t', hold⟩)
    · by_cases hmem : k' ∈ s.keys
      · obtain ⟨t', hold⟩ := mem_keys.mp hmem
        exact ⟨t', Or.inl hold⟩
      · exact ⟨t, Or.inr ⟨hmem, rfl⟩⟩
    · exact ⟨t', Or.inl hold⟩

theorem mem_keys_erase : k' ∈ (s.erase k).keys ↔ k' ∈ s.keys ∧ k' ≠ k := by
  rw [mem_keys, mem_keys]
  simp only [mem_erase]
  constructor
  · rintro ⟨t, hmem, hne⟩
    exact ⟨⟨t, hmem⟩, hne⟩
  · rintro ⟨⟨t, hmem⟩, hne⟩
    exact ⟨t, hmem, hne⟩

theorem time?_eq_some : s.time? k = some t ↔ (k, t) ∈ s.entries := by
  have hdistinct := s.distinct
  unfold time?
  generalize s.entries = l at hdistinct
  induction l with
  | nil => simp
  | cons a l ih =>
      obtain ⟨a, ta⟩ := a
      obtain ⟨hnew, hrest⟩ := List.nodup_cons.mp hdistinct
      rw [List.lookup_cons, List.mem_cons]
      by_cases hk : k = a
      · subst hk
        have habsent : (k, t) ∉ l := by
          intro hmem
          have hkey : k ∈ l.map Prod.fst := List.mem_map_of_mem hmem
          exact hnew hkey
        simp [habsent, eq_comm]
      · rw [beq_false_of_ne hk]
        simp [ih hrest, hk]

/-! ## The earliest entry -/

/-- Removal of the first key leaves the others as they are. -/
theorem entries_erase_head (h : s.entries = e :: rest) : (s.erase e.1).entries = rest := by
  have hdistinct := s.distinct
  rw [h, List.map_cons, List.nodup_cons] at hdistinct
  have herase : (s.erase e.1).entries = s.entries.filter fun e' => e'.1 ≠ e.1 := rfl
  rw [herase, h, List.filter_cons_of_neg (by simp), List.filter_eq_self]
  intro e' he'
  rw [decide_eq_true_eq]
  intro hsame
  exact hdistinct.1 (hsame ▸ List.mem_map_of_mem he')

omit [DecidableEq κ] in
/-- No entry is earlier than the first. -/
theorem head_le (h : s.entries = e :: rest) {e' : κ × ℕ} (he' : e' ∈ s.entries) :
    e.2 ≤ e'.2 := by
  have hordered := s.ordered
  rw [h] at hordered he'
  rcases List.mem_cons.mp he' with rfl | hrest
  · exact Nat.le_refl _
  · exact (List.pairwise_cons.mp hordered).1 e' hrest

end TimedSet

end Support
