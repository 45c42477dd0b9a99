import Mathlib.Data.List.Forall2
import Mathlib.Data.List.Nodup
import Mathlib.Data.List.Perm.Basic

/-!
# Dictionaries

A `dict` keeps its keys in the order of their first insertion.  Here it is the list of
its entries together with the proof that no key occurs twice, so that an entry is
determined by its key and lookups are statements about membership.
-/

namespace Support

/-- A dictionary in insertion order. -/
structure Dictionary (κ α : Type) where
  entries : List (κ × α)
  nodup : (entries.map Prod.fst).Nodup

namespace Dictionary

variable {κ α β : Type} [DecidableEq κ]

/-! ## Lists of entries -/

/-- Write one entry: in place if the key is there, else at the end. -/
def put (k : κ) (v : α) : List (κ × α) → List (κ × α)
  | [] => [(k, v)]
  | e :: rest => if e.1 = k then (k, v) :: rest else e :: put k v rest

/-- The value of a key. -/
def find (k : κ) : List (κ × α) → Option α
  | [] => none
  | e :: rest => if e.1 = k then some e.2 else find k rest

theorem put_of_notMem {k : κ} (v : α) {l : List (κ × α)} (h : k ∉ l.map Prod.fst) :
    put k v l = l ++ [(k, v)] := by
  induction l with
  | nil => rfl
  | cons e rest ih =>
      rw [List.map_cons, List.mem_cons, not_or] at h
      rw [put, if_neg (Ne.symm h.1), ih h.2, List.cons_append]

theorem keys_put_of_mem {k : κ} (v : α) {l : List (κ × α)} (h : k ∈ l.map Prod.fst) :
    (put k v l).map Prod.fst = l.map Prod.fst := by
  induction l with
  | nil => cases h
  | cons e rest ih =>
      by_cases he : e.1 = k
      · rw [put, if_pos he, List.map_cons, List.map_cons, he]
      · have hrest : k ∈ rest.map Prod.fst :=
          (List.mem_cons.mp h).resolve_left (Ne.symm he)
        rw [put, if_neg he, List.map_cons, List.map_cons, ih hrest]

theorem nodup_put (k : κ) (v : α) {l : List (κ × α)} (h : (l.map Prod.fst).Nodup) :
    ((put k v l).map Prod.fst).Nodup := by
  by_cases hk : k ∈ l.map Prod.fst
  · rw [keys_put_of_mem v hk]
    exact h
  · rw [put_of_notMem v hk, List.map_append]
    exact h.append (List.nodup_singleton k) (List.disjoint_singleton.mpr hk)

theorem mem_put {k k' : κ} {v v' : α} {l : List (κ × α)} (h : (l.map Prod.fst).Nodup) :
    (k', v') ∈ put k v l ↔ k' = k ∧ v' = v ∨ k' ≠ k ∧ (k', v') ∈ l := by
  induction l with
  | nil =>
      simp only [put, List.mem_singleton, Prod.mk.injEq, List.not_mem_nil, and_false, or_false]
  | cons e rest ih =>
      rw [List.map_cons, List.nodup_cons] at h
      by_cases he : e.1 = k
      · have hgone : (k, v') ∉ rest := by
          intro hmem
          apply h.1
          rw [he]
          exact List.mem_map_of_mem hmem
        rw [put, if_pos he, List.mem_cons, List.mem_cons, Prod.mk.injEq]
        by_cases hk : k' = k
        · subst hk
          simp [hgone]
        · have hne : (k', v') ≠ e := by
            intro heq
            rw [← he, ← heq] at hk
            exact hk rfl
          simp [hk, hne]
      · rw [put, if_neg he, List.mem_cons, ih h.2, List.mem_cons]
        by_cases hk : k' = k
        · subst hk
          have hne : (k', v') ≠ e := fun heq => he (congrArg Prod.fst heq).symm
          rw [or_iff_right hne]
          simp
        · simp [hk]

theorem find_eq_some_iff {k : κ} {v : α} {l : List (κ × α)} (h : (l.map Prod.fst).Nodup) :
    find k l = some v ↔ (k, v) ∈ l := by
  induction l with
  | nil => simp [find]
  | cons e rest ih =>
      rw [List.map_cons, List.nodup_cons] at h
      by_cases he : e.1 = k
      · have hgone : (k, v) ∉ rest := by
          intro hmem
          apply h.1
          rw [he]
          exact List.mem_map_of_mem hmem
        rw [find, if_pos he, Option.some.injEq, List.mem_cons, or_iff_left hgone, ← he,
          Prod.ext_iff, eq_comm (a := e.2)]
        simp
      · have hne : (k, v) ≠ e := fun heq => he (congrArg Prod.fst heq).symm
        rw [find, if_neg he, ih h.2, List.mem_cons, or_iff_right hne]

theorem find_eq_none_iff {k : κ} {l : List (κ × α)} :
    find k l = none ↔ k ∉ l.map Prod.fst := by
  induction l with
  | nil => simp [find]
  | cons e rest ih =>
      rw [find, List.map_cons, List.mem_cons, not_or]
      by_cases he : e.1 = k
      · simp [he]
      · rw [if_neg he, ih, and_iff_right (Ne.symm he)]

/-! ## Operations -/

/-- The keys in insertion order. -/
def keys (d : Dictionary κ α) : List κ :=
  d.entries.map Prod.fst

/-- The values in insertion order. -/
def values (d : Dictionary κ α) : List α :=
  d.entries.map Prod.snd

/-- `d.get(k)`. -/
def get? (d : Dictionary κ α) (k : κ) : Option α :=
  find k d.entries

/-- The dictionary without entries. -/
def empty : Dictionary κ α :=
  ⟨[], List.nodup_nil⟩

/-- `d[k] = v`. -/
def insert (k : κ) (v : α) (d : Dictionary κ α) : Dictionary κ α :=
  ⟨put k v d.entries, nodup_put k v d.nodup⟩

/-- `d.update(l)`. -/
def update (d : Dictionary κ α) (l : List (κ × α)) : Dictionary κ α :=
  l.foldl (fun d e => d.insert e.1 e.2) d

/-- `dict(l)`. -/
def ofList (l : List (κ × α)) : Dictionary κ α :=
  empty.update l

/-- `d.setdefault(k, v)`. -/
def setdefault (k : κ) (v : α) (d : Dictionary κ α) : Dictionary κ α :=
  if k ∈ d.keys then d else d.insert k v

omit [DecidableEq κ] in
theorem nodup_filter (p : κ × α → Bool) (d : Dictionary κ α) :
    ((d.entries.filter p).map Prod.fst).Nodup :=
  d.nodup.sublist (List.filter_sublist.map Prod.fst)

/-- `del d[k]`. -/
def erase (k : κ) (d : Dictionary κ α) : Dictionary κ α :=
  ⟨d.entries.filter fun e => e.1 ≠ k, nodup_filter _ d⟩

omit [DecidableEq κ] in
theorem nodup_map (f : κ → α → β) (d : Dictionary κ α) :
    ((d.entries.map fun e => (e.1, f e.1 e.2)).map Prod.fst).Nodup := by
  rw [List.map_map]
  exact d.nodup

/-- Change every value. -/
def mapValues (f : κ → α → β) (d : Dictionary κ α) : Dictionary κ β :=
  ⟨d.entries.map fun e => (e.1, f e.1 e.2), nodup_map f d⟩

variable {d d' : Dictionary κ α} {k k' : κ} {v v' : α}

/-! ## Lookups -/

theorem get?_eq_some_iff : d.get? k = some v ↔ (k, v) ∈ d.entries :=
  find_eq_some_iff d.nodup

theorem get?_eq_none_iff : d.get? k = none ↔ k ∉ d.keys :=
  find_eq_none_iff

omit [DecidableEq κ] in
theorem mem_keys_of_mem (h : (k, v) ∈ d.entries) : k ∈ d.keys :=
  List.mem_map_of_mem h

omit [DecidableEq κ] in
theorem exists_of_mem_keys (h : k ∈ d.keys) : ∃ v, (k, v) ∈ d.entries := by
  obtain ⟨⟨a, b⟩, hmem, rfl⟩ := List.mem_map.mp h
  exact ⟨b, hmem⟩

/-- A key has one value. -/
theorem eq_of_mem (h : (k, v) ∈ d.entries) (h' : (k, v') ∈ d.entries) : v = v' :=
  Option.some.inj ((get?_eq_some_iff.mpr h).symm.trans (get?_eq_some_iff.mpr h'))

/-! ## Insertion -/

theorem mem_entries_insert :
    (k', v') ∈ (d.insert k v).entries ↔ k' = k ∧ v' = v ∨ k' ≠ k ∧ (k', v') ∈ d.entries :=
  mem_put d.nodup

theorem entries_insert_of_notMem (v : α) (h : k ∉ d.keys) :
    (d.insert k v).entries = d.entries ++ [(k, v)] :=
  put_of_notMem v h

theorem keys_insert_of_mem (v : α) (h : k ∈ d.keys) : (d.insert k v).keys = d.keys :=
  keys_put_of_mem v h

theorem mem_keys_insert : k' ∈ (d.insert k v).keys ↔ k' = k ∨ k' ∈ d.keys := by
  by_cases hk : k ∈ d.keys
  · rw [keys_insert_of_mem v hk]
    constructor
    · exact Or.inr
    · rintro (rfl | h)
      · exact hk
      · exact h
  · rw [keys, entries_insert_of_notMem v hk, List.map_append, List.mem_append, or_comm]
    exact or_congr List.mem_singleton Iff.rfl

/-- Writing a key does not change a property of the entry that both values share. -/
theorem map_insert_of_mem (f : κ × α → β) (h : (k, v') ∈ d.entries)
    (hsame : f (k, v) = f (k, v')) : (d.insert k v).entries.map f = d.entries.map f := by
  suffices hput : ∀ l : List (κ × α), (l.map Prod.fst).Nodup → (k, v') ∈ l →
      (put k v l).map f = l.map f from hput d.entries d.nodup h
  intro l hnodup hmem
  induction l with
  | nil => cases hmem
  | cons e rest ih =>
      rw [List.map_cons, List.nodup_cons] at hnodup
      rcases List.mem_cons.mp hmem with rfl | hmem
      · rw [put, if_pos rfl, List.map_cons, List.map_cons, hsame]
      · have hne : e.1 ≠ k := by
          intro heq
          apply hnodup.1
          rw [heq]
          exact List.mem_map_of_mem hmem
        rw [put, if_neg hne, List.map_cons, List.map_cons, ih hnodup.2 hmem]

/-! ## Building from a list -/

theorem update_append (d : Dictionary κ α) (l l' : List (κ × α)) :
    d.update (l ++ l') = (d.update l).update l' :=
  List.foldl_append

theorem insert_update (d : Dictionary κ α) (l : List (κ × α)) (k : κ) (v : α) :
    (d.update l).insert k v = d.update (l ++ [(k, v)]) :=
  (update_append d l [(k, v)]).symm

theorem mem_keys_update {l : List (κ × α)} :
    k ∈ (d.update l).keys ↔ k ∈ d.keys ∨ k ∈ l.map Prod.fst := by
  induction l generalizing d with
  | nil => simp [update]
  | cons e rest ih =>
      have hupdate : d.update (e :: rest) = (d.insert e.1 e.2).update rest := rfl
      rw [hupdate, ih, mem_keys_insert, List.map_cons, List.mem_cons, or_assoc, or_left_comm]

theorem entries_update {l : List (κ × α)} (hnodup : (l.map Prod.fst).Nodup)
    (hnew : ∀ e ∈ l, e.1 ∉ d.keys) : (d.update l).entries = d.entries ++ l := by
  induction l generalizing d with
  | nil => rw [List.append_nil]; rfl
  | cons e rest ih =>
      rw [List.map_cons, List.nodup_cons] at hnodup
      have hinsert := entries_insert_of_notMem e.2 (hnew e List.mem_cons_self)
      have hrest : ∀ e' ∈ rest, e'.1 ∉ (d.insert e.1 e.2).keys := by
        intro e' he' hmem
        rcases mem_keys_insert.mp hmem with heq | hmem
        · apply hnodup.1
          rw [← heq]
          exact List.mem_map_of_mem he'
        · exact hnew e' (List.mem_cons_of_mem e he') hmem
      have hupdate : d.update (e :: rest) = (d.insert e.1 e.2).update rest := rfl
      rw [hupdate, ih hnodup.2 hrest, hinsert, List.append_assoc]
      rfl

/-- Pairs with different keys are the entries of their dictionary. -/
theorem entries_ofList {l : List (κ × α)} (hnodup : (l.map Prod.fst).Nodup) :
    (ofList l).entries = l :=
  entries_update hnodup fun _ _ => List.not_mem_nil

theorem mem_keys_ofList {l : List (κ × α)} : k ∈ (ofList l).keys ↔ k ∈ l.map Prod.fst := by
  rw [ofList, mem_keys_update]
  exact or_iff_right List.not_mem_nil

/-! ## Defaults and removal -/

theorem setdefault_of_mem (v : α) (h : k ∈ d.keys) : d.setdefault k v = d :=
  if_pos h

theorem setdefault_of_notMem (v : α) (h : k ∉ d.keys) : d.setdefault k v = d.insert k v :=
  if_neg h

theorem mem_entries_erase :
    (k', v') ∈ (d.erase k).entries ↔ k' ≠ k ∧ (k', v') ∈ d.entries := by
  simp only [erase, List.mem_filter, decide_eq_true_eq, and_comm]

theorem mem_keys_erase : k' ∈ (d.erase k).keys ↔ k' ≠ k ∧ k' ∈ d.keys := by
  constructor
  · intro h
    obtain ⟨⟨a, b⟩, hmem, rfl⟩ := List.mem_map.mp h
    have herased := mem_entries_erase.mp hmem
    exact ⟨herased.1, mem_keys_of_mem herased.2⟩
  · rintro ⟨hne, h⟩
    obtain ⟨⟨a, b⟩, hmem, rfl⟩ := List.mem_map.mp h
    exact mem_keys_of_mem (mem_entries_erase.mpr ⟨hne, hmem⟩)

/-- Moving an entry to a key of its own. -/
theorem mem_entries_move (f : α → α) (h : (k, v) ∈ d.entries) (hnew : k' ∉ d.keys)
    {e : κ × α} :
    e ∈ ((d.erase k).insert k' (f v)).entries ↔
      ∃ e' ∈ d.entries, e = if e'.1 = k then (k', f e'.2) else e' := by
  obtain ⟨a, b⟩ := e
  rw [mem_entries_insert, mem_entries_erase]
  constructor
  · rintro (⟨rfl, rfl⟩ | ⟨-, hne, hmem⟩)
    · exact ⟨(k, v), h, (if_pos rfl).symm⟩
    · exact ⟨(a, b), hmem, (if_neg hne).symm⟩
  · rintro ⟨⟨a', b'⟩, hmem, heq⟩
    by_cases hk : a' = k
    · subst hk
      rw [if_pos rfl, Prod.mk.injEq] at heq
      obtain ⟨rfl, rfl⟩ := heq
      exact Or.inl ⟨rfl, congrArg f (eq_of_mem hmem h)⟩
    · rw [if_neg hk, Prod.mk.injEq] at heq
      obtain ⟨rfl, rfl⟩ := heq
      refine Or.inr ⟨?_, hk, hmem⟩
      rintro rfl
      exact hnew (mem_keys_of_mem hmem)

/-- Moving an entry that is not there. -/
theorem mem_entries_keep (f : κ × α → κ × α) (h : k ∉ d.keys) {e : κ × α} :
    e ∈ d.entries ↔ ∃ e' ∈ d.entries, e = if e'.1 = k then f e' else e' := by
  have hne : ∀ e' ∈ d.entries, e'.1 ≠ k := by
    rintro ⟨a, b⟩ hmem rfl
    exact h (mem_keys_of_mem hmem)
  constructor
  · intro hmem
    exact ⟨e, hmem, (if_neg (hne e hmem)).symm⟩
  · rintro ⟨e', hmem, rfl⟩
    rw [if_neg (hne e' hmem)]
    exact hmem

omit [DecidableEq κ] in
theorem mem_entries_mapValues {f : κ → α → β} {e : κ × β} :
    e ∈ (d.mapValues f).entries ↔ ∃ e' ∈ d.entries, e = (e'.1, f e'.1 e'.2) := by
  simp only [mapValues, List.mem_map, eq_comm]

/-! ## Comparing dictionaries -/

/-- The same keys, with related values. -/
def Matches (R : α → β → Prop) (d : Dictionary κ α) (d' : Dictionary κ β) : Prop :=
  ∀ k, Option.Rel R (d.get? k) (d'.get? k)

/-- Dictionaries match if every entry of the first has a related one in the second,
which has no further keys. -/
theorem matches_of_entries {R : α → β → Prop} {d : Dictionary κ α} {d' : Dictionary κ β}
    (hentries : ∀ k v, (k, v) ∈ d.entries → ∃ v', (k, v') ∈ d'.entries ∧ R v v')
    (hkeys : ∀ k ∈ d'.keys, k ∈ d.keys) : Matches R d d' := by
  intro k
  cases hk : d.get? k with
  | none =>
      have hgone : k ∉ d'.keys := fun h => get?_eq_none_iff.mp hk (hkeys k h)
      rw [get?_eq_none_iff.mpr hgone]
      exact Option.Rel.none
  | some v =>
      obtain ⟨v', hmem, hrel⟩ := hentries k v (get?_eq_some_iff.mp hk)
      rw [get?_eq_some_iff.mpr hmem]
      exact Option.Rel.some hrel

theorem Matches.refl {R : α → α → Prop} (hrefl : ∀ x, R x x) (d : Dictionary κ α) :
    Matches R d d := by
  intro k
  cases d.get? k with
  | none => exact Option.Rel.none
  | some x => exact Option.Rel.some (hrefl x)

theorem Matches.symm {R : α → α → Prop} (hsymm : ∀ x y, R x y → R y x) (h : Matches R d d') :
    Matches R d' d := by
  intro k
  have hk := h k
  generalize d.get? k = x at hk ⊢
  generalize d'.get? k = y at hk ⊢
  cases hk with
  | some hrel => exact Option.Rel.some (hsymm _ _ hrel)
  | none => exact Option.Rel.none

theorem Matches.trans {R : α → α → Prop} {d'' : Dictionary κ α}
    (htrans : ∀ x y z, R x y → R y z → R x z) (h : Matches R d d') (h' : Matches R d' d'') :
    Matches R d d'' := by
  intro k
  have hk := h k
  have hk' := h' k
  generalize d.get? k = x at hk ⊢
  generalize d'.get? k = y at hk hk'
  generalize d''.get? k = z at hk' ⊢
  cases hk with
  | none => exact hk'
  | some hrel =>
      cases hk' with
      | some hrel' => exact Option.Rel.some (htrans _ _ _ hrel hrel')

end Dictionary

end Support
