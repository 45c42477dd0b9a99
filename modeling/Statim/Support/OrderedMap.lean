import Mathlib.Algebra.BigOperators.Group.List.Basic
import Mathlib.Algebra.Ring.Nat
import Mathlib.Data.List.Perm.Basic

/-!
# Ordered maps

`std::map` is iterated in the order of its keys.  Here it is a `Std.TreeMap`;
this module has sums over the entries of a map, and the scan that starts at a
lower bound and stops at the first entry outside of a range.
-/

namespace Support

variable {α β : Type*} [Ord α] [Std.TransOrd α] [Std.LawfulEqOrd α]

/-! ## Entries -/

theorem nodup_toList (t : Std.TreeMap α β) : t.toList.Nodup := by
  have hordered : t.toList.Pairwise fun a b => compare a.1 b.1 = .lt :=
    Std.TreeMap.ordered_keys_toList
  refine hordered.imp fun {a b} hlt heq => ?_
  rw [heq, Std.ReflOrd.compare_self] at hlt
  cases hlt

/-- Maps with the same lookups have the same entries. -/
theorem toList_perm_of_getElem? {t t' : Std.TreeMap α β} (h : ∀ k : α, t[k]? = t'[k]?) :
    t.toList.Perm t'.toList := by
  rw [List.perm_ext_iff_of_nodup (nodup_toList t) (nodup_toList t')]
  rintro ⟨k, v⟩
  rw [Std.TreeMap.mem_toList_iff_getElem?_eq_some, Std.TreeMap.mem_toList_iff_getElem?_eq_some, h]

theorem getElem?_erase_of_ne (t : Std.TreeMap α β) {k k' : α} (h : k ≠ k') :
    (t.erase k)[k']? = t[k']? := by
  have hne : compare k k' ≠ .eq := fun heq => h (Std.LawfulEqOrd.eq_of_compare heq)
  rw [Std.TreeMap.getElem?_erase, if_neg hne]

theorem getElem?_insert_of_ne (t : Std.TreeMap α β) {k k' : α} (v : β) (h : k ≠ k') :
    (t.insert k v)[k']? = t[k']? := by
  have hne : compare k k' ≠ .eq := fun heq => h (Std.LawfulEqOrd.eq_of_compare heq)
  rw [Std.TreeMap.getElem?_insert, if_neg hne]

/-- Taking one entry out of a map. -/
theorem toList_perm_cons_erase {t : Std.TreeMap α β} {k : α} {v : β} (h : t[k]? = some v) :
    t.toList.Perm ((k, v) :: (t.erase k).toList) := by
  have hgone : (k, v) ∉ (t.erase k).toList := by
    rw [Std.TreeMap.mem_toList_iff_getElem?_eq_some]
    simp
  have hnodup : ((k, v) :: (t.erase k).toList).Nodup :=
    List.nodup_cons.mpr ⟨hgone, nodup_toList _⟩
  rw [List.perm_ext_iff_of_nodup (nodup_toList t) hnodup]
  rintro ⟨k', v'⟩
  rw [List.mem_cons, Std.TreeMap.mem_toList_iff_getElem?_eq_some,
    Std.TreeMap.mem_toList_iff_getElem?_eq_some, Prod.mk.injEq]
  by_cases hk : k = k'
  · subst hk
    rw [Std.TreeMap.getElem?_erase_self, h, Option.some.injEq]
    simp [eq_comm]
  · rw [getElem?_erase_of_ne t hk]
    simp [Ne.symm hk]

/-! ## Sums -/

/-- The sum of a quantity over the entries of a map. -/
def sumOver (f : α → β → ℕ) (t : Std.TreeMap α β) : ℕ :=
  (t.toList.map fun kv => f kv.1 kv.2).sum

omit [Std.TransOrd α] [Std.LawfulEqOrd α] in
@[simp] theorem sumOver_empty (f : α → β → ℕ) : sumOver f (∅ : Std.TreeMap α β) = 0 :=
  rfl

theorem sumOver_congr {f : α → β → ℕ} {t t' : Std.TreeMap α β} (h : ∀ k : α, t[k]? = t'[k]?) :
    sumOver f t = sumOver f t' :=
  ((toList_perm_of_getElem? h).map _).sum_eq

theorem sumOver_of_getElem? (f : α → β → ℕ) {t : Std.TreeMap α β} {k : α} {v : β}
    (h : t[k]? = some v) : sumOver f t = f k v + sumOver f (t.erase k) :=
  ((toList_perm_cons_erase h).map _).sum_eq

theorem sumOver_erase_of_none (f : α → β → ℕ) {t : Std.TreeMap α β} {k : α}
    (h : t[k]? = none) : sumOver f (t.erase k) = sumOver f t := by
  refine sumOver_congr fun k' => ?_
  by_cases hk : k = k'
  · rw [← hk, Std.TreeMap.getElem?_erase_self, h]
  · exact getElem?_erase_of_ne t hk

theorem sumOver_insert (f : α → β → ℕ) (t : Std.TreeMap α β) (k : α) (v : β) :
    sumOver f (t.insert k v) = f k v + sumOver f (t.erase k) := by
  rw [sumOver_of_getElem? f (Std.TreeMap.getElem?_insert_self)]
  refine congrArg (f k v + ·) (sumOver_congr fun k' => ?_)
  simp only [Std.TreeMap.getElem?_erase, Std.TreeMap.getElem?_insert]
  split <;> rfl

/-! ## Range scans -/

theorem takeWhile_eq_filter {γ : Type*} {p : γ → Bool} {l : List γ}
    (h : l.Pairwise fun x y => p y = true → p x = true) : l.takeWhile p = l.filter p := by
  induction l with
  | nil => rfl
  | cons x rest ih =>
      obtain ⟨hx, hrest⟩ := List.pairwise_cons.mp h
      cases hp : p x with
      | true => rw [List.takeWhile_cons_of_pos hp, List.filter_cons_of_pos hp, ih hrest]
      | false =>
          have hnone : rest.filter p = [] := by
            rw [List.filter_eq_nil_iff]
            intro y hy hpy
            rw [hx y hy hpy] at hp
            cases hp
          rw [List.takeWhile_cons_of_neg (by simp [hp]), List.filter_cons_of_neg (by simp [hp]),
            hnone]

/-- Skip what lies below a range, then stop at the first entry above it: the scan
visits exactly the range. -/
theorem takeWhile_dropWhile_eq_filter {γ : Type*} {below inside : γ → Bool} {l : List γ}
    (hdisjoint : ∀ x, inside x = true → below x = false)
    (hbelow : l.Pairwise fun x y => below y = true → below x = true)
    (hinside : l.Pairwise fun x y => inside y = true → below x = false → inside x = true) :
    (l.dropWhile below).takeWhile inside = l.filter inside := by
  induction l with
  | nil => rfl
  | cons x rest ih =>
      obtain ⟨hx, hrest⟩ := List.pairwise_cons.mp hbelow
      obtain ⟨hx', hrest'⟩ := List.pairwise_cons.mp hinside
      cases hb : below x with
      | true =>
          have hout : ¬inside x = true := by
            intro hin
            rw [hdisjoint x hin] at hb
            cases hb
          rw [List.dropWhile_cons_of_pos hb, List.filter_cons_of_neg hout, ih hrest hrest']
      | false =>
          rw [List.dropWhile_cons_of_neg (by simp [hb])]
          refine takeWhile_eq_filter (List.pairwise_cons.mpr ⟨?_, ?_⟩)
          · exact fun y hy hin => hx' y hy hin hb
          · -- everything after `x` lies above the lower bound as well
            have habove : ∀ y ∈ rest, below y = false := by
              intro y hy
              rw [← Bool.not_eq_true]
              intro hby
              rw [hx y hy hby] at hb
              cases hb
            refine hrest'.imp_of_mem fun {y z} hy _ hyz hin => ?_
            exact hyz hin (habove y hy)

end Support
