import Statim.Stateful.ContentStore
import Statim.Support.OrderedMap

/-!
# Eviction

A trim flips a coin for one entry after the other and, if that leaves too many, goes on
from the front.  It ends exactly at the bound, whatever the coins; and where the coins
alone reach the bound, it does what the original scan did, entry by entry and flip by
flip.
-/

namespace Statim

open Support

namespace ContentStore

variable {coin : Nat → Bool} {cs cs' cs'' : ContentStore} {name : Name} {names : List Name}
  {data : Data}

theorem isEmpty_of_size_eq_zero (h : cs.size = 0) : cs.cache.isEmpty = true := by
  rw [Std.TreeMap.isEmpty_eq_size_eq_zero, beq_iff_eq]
  exact h

theorem find_eq_none (h : cs.size = 0) (n : Name) : cs.find n = none :=
  Std.TreeMap.getElem?_of_isEmpty (isEmpty_of_size_eq_zero h)

/-! ## One entry less -/

/-- The names are different and all cached. -/
structure Cached (names : List Name) (cs : ContentStore) : Prop where
  nodup : names.Nodup
  mem : ∀ n ∈ names, n ∈ cs.cache

theorem cached_keys (cs : ContentStore) : Cached cs.cache.keys cs :=
  ⟨Std.TreeMap.nodup_keys, fun _ hn => Std.TreeMap.mem_keys.mp hn⟩

theorem Cached.tail (h : Cached (name :: names) cs) (flips : Nat) :
    Cached names { cs with flips := flips } :=
  ⟨(List.nodup_cons.mp h.nodup).2, fun n hn => h.mem n (List.mem_cons_of_mem name hn)⟩

theorem Cached.erase (h : Cached (name :: names) cs) (flips : Nat) :
    Cached names { cs with cache := cs.cache.erase name, flips := flips } := by
  obtain ⟨hnot, hnodup⟩ := List.nodup_cons.mp h.nodup
  refine ⟨hnodup, fun n hn => ?_⟩
  rw [Std.TreeMap.mem_erase]
  refine ⟨fun heq => hnot ?_, h.mem n (List.mem_cons_of_mem name hn)⟩
  rwa [Std.LawfulEqOrd.eq_of_compare heq]

theorem Cached.size_erase (h : Cached (name :: names) cs) :
    (cs.cache.erase name).size + 1 = cs.cache.size := by
  have hcached := h.mem name List.mem_cons_self
  have hpos : cs.cache.size ≠ 0 := fun hzero =>
    Std.TreeMap.isEmpty_iff_forall_not_mem.mp (isEmpty_of_size_eq_zero hzero) name hcached
  rw [Std.TreeMap.size_erase, if_pos (Std.TreeMap.mem_iff_contains.mp hcached)]
  omega

/-- Entries were evicted, down to the bound at most. -/
structure Shrinks (cs cs' : ContentStore) : Prop where
  maxSize : cs'.maxSize = cs.maxSize
  find : ∀ n d, cs'.find n = some d → cs.find n = some d
  low : min cs.size cs.maxSize ≤ cs'.size
  high : cs'.size ≤ cs.size

theorem Shrinks.refl (cs : ContentStore) : Shrinks cs cs :=
  ⟨rfl, fun _ _ => id, Nat.min_le_left _ _, Nat.le_refl _⟩

theorem Shrinks.trans (h : Shrinks cs cs') (h' : Shrinks cs' cs'') : Shrinks cs cs'' where
  maxSize := h'.maxSize.trans h.maxSize
  find n d hd := h.find n d (h'.find n d hd)
  low := by
    have hlow := h.low
    have hlow' := h'.low
    have hmax := h.maxSize
    omega
  high := Nat.le_trans h'.high h.high

/-- An entry is evicted from a store that holds too many. -/
theorem Cached.shrinks (h : Cached (name :: names) cs) (hfull : cs.maxSize < cs.cache.size)
    (flips : Nat) :
    Shrinks cs { cs with cache := cs.cache.erase name, flips := flips } where
  maxSize := rfl
  find n d hd := by
    rw [ContentStore.find, Std.TreeMap.getElem?_erase] at hd
    split at hd
    · cases hd
    · exact hd
  low := by
    have hsize := h.size_erase
    simp only [size]
    omega
  high := by
    have hsize := h.size_erase
    simp only [size]
    omega

/-! ## The two loops -/

theorem shrinks_scan (coin : Nat → Bool) (h : Cached names cs) :
    Shrinks cs (scan coin names cs) := by
  induction names generalizing cs with
  | nil => exact Shrinks.refl cs
  | cons name rest ih =>
      rw [scan]
      split
      next hfull =>
        split
        · exact (h.shrinks hfull _).trans (ih (h.erase _))
        · have hflipped : Shrinks cs { cs with flips := cs.flips + 1 } :=
            ⟨rfl, fun _ _ => id, Nat.min_le_left _ _, Nat.le_refl _⟩
          exact hflipped.trans (ih (h.tail _))
      · exact Shrinks.refl cs

theorem dropFront_of_le (names : List Name) (h : cs.size ≤ cs.maxSize) :
    dropFront names cs = cs := by
  cases names with
  | nil => rfl
  | cons name rest => exact if_neg (Nat.not_lt.mpr h)

/-- Erasing from the front reaches the bound if there are enough names. -/
theorem dropFront_spec (h : Cached names cs) :
    Shrinks cs (dropFront names cs) ∧
      (cs.size ≤ cs.maxSize + names.length → (dropFront names cs).size ≤ cs.maxSize) := by
  induction names generalizing cs with
  | nil => exact ⟨Shrinks.refl cs, id⟩
  | cons name rest ih =>
      by_cases hfull : cs.maxSize < cs.cache.size
      · rw [dropFront, if_pos hfull]
        obtain ⟨hshrinks, hbound⟩ := ih (h.erase cs.flips)
        refine ⟨(h.shrinks hfull cs.flips).trans hshrinks, fun hsize => hbound ?_⟩
        have herased := h.size_erase
        simp only [size, List.length_cons] at hsize ⊢
        omega
      · rw [dropFront_of_le (name :: rest) (Nat.le_of_not_lt hfull)]
        exact ⟨Shrinks.refl cs, fun _ => Nat.le_of_not_lt hfull⟩

/-- A trim ends exactly at the bound. -/
theorem trimToCapacity_spec (coin : Nat → Bool) (cs : ContentStore) :
    Shrinks cs (trimToCapacity coin cs) ∧
      (trimToCapacity coin cs).size = min cs.size cs.maxSize := by
  by_cases hzero : cs.maxSize = 0
  · rw [trimToCapacity, if_pos hzero]
    refine ⟨⟨rfl, ?_, ?_, Nat.zero_le _⟩, ?_⟩
    · intro n d hd
      cases hd
    · rw [hzero, Nat.min_zero]
      exact Nat.zero_le _
    · rw [hzero, Nat.min_zero]
      rfl
  · rw [trimToCapacity, if_neg hzero]
    have hscan := shrinks_scan coin (cached_keys cs)
    obtain ⟨hdrop, hbound⟩ := dropFront_spec (cached_keys (scan coin cs.cache.keys cs))
    have hshrinks := hscan.trans hdrop
    refine ⟨hshrinks, Nat.le_antisymm (Nat.le_min.mpr ⟨hshrinks.high, ?_⟩) hshrinks.low⟩
    refine (hbound ?_).trans_eq hscan.maxSize
    rw [Std.TreeMap.length_keys]
    exact Nat.le_add_left _ _

theorem scan_of_le (names : List Name) (h : cs.size ≤ cs.maxSize) : scan coin names cs = cs := by
  cases names with
  | nil => rfl
  | cons name rest => exact if_neg (Nat.not_lt.mpr h)

/-- Nothing is evicted within the bound. -/
theorem trimToCapacity_of_le (coin : Nat → Bool) (h : cs.size ≤ cs.maxSize) :
    (∀ n, (trimToCapacity coin cs).find n = cs.find n) ∧
      (trimToCapacity coin cs).flips = cs.flips := by
  by_cases hzero : cs.maxSize = 0
  · rw [trimToCapacity, if_pos hzero]
    refine ⟨fun n => ?_, rfl⟩
    have hsize : cs.size = 0 := Nat.le_zero.mp (hzero ▸ h)
    rw [find_eq_none hsize]
    rfl
  · rw [trimToCapacity, if_neg hzero, scan_of_le _ h, dropFront_of_le _ h]
    exact ⟨fun _ => rfl, rfl⟩

/-- An insertion adds its own Data and nothing else. -/
theorem find_insert {n : Name} {d : Data} (h : (insert coin data cs).find n = some d) :
    cs.find n = some d ∨ n = data.name ∧ d = data := by
  unfold insert at h
  split at h
  · exact Or.inl h
  · have hfound := (trimToCapacity_spec coin _).1.find n d h
    simp only [ContentStore.find, Std.TreeMap.getElem?_insert,
      Std.LawfulEqOrd.compare_eq_iff_eq] at hfound
    split at hfound
    next hname => exact Or.inr ⟨hname.symm, (Option.some.inj hfound).symm⟩
    next => exact Or.inl hfound

/-! ## The original scan -/

/-- One coin flip. -/
def flip (coin : Nat → Bool) (name : Name) (cs : ContentStore) : ContentStore :=
  { cs with
    cache := if coin cs.flips then cs.cache.erase name else cs.cache
    flips := cs.flips + 1 }

/-- The scan before there was a deterministic end: flip a coin for an entry, then stop if
the bound is met. -/
def originalScan (coin : Nat → Bool) : List Name → ContentStore → ContentStore
  | [], cs => cs
  | name :: rest, cs =>
    if (flip coin name cs).size ≤ cs.maxSize then flip coin name cs
    else originalScan coin rest (flip coin name cs)

/-- It was made when there were too many entries. -/
def originalTrim (coin : Nat → Bool) (cs : ContentStore) : ContentStore :=
  if cs.maxSize < cs.cache.size then originalScan coin cs.cache.keys cs else cs

theorem scan_cons (h : cs.maxSize < cs.cache.size) (name : Name) (rest : List Name) :
    scan coin (name :: rest) cs = scan coin rest (flip coin name cs) := by
  unfold flip
  rw [scan, if_pos h]
  split
  · rfl
  · rfl

theorem scan_eq_originalScan (h : cs.maxSize < cs.size) (names : List Name) :
    scan coin names cs = originalScan coin names cs := by
  induction names generalizing cs with
  | nil => rfl
  | cons name rest ih =>
      rw [scan_cons h, originalScan]
      split
      next hwithin => exact scan_of_le rest hwithin
      next hfull => exact ih (Nat.lt_of_not_le hfull)

/-- Where the original scan reaches a positive bound, a trim does the same. -/
theorem trimToCapacity_eq_originalTrim (hpos : 0 < cs.maxSize)
    (hreaches : (originalTrim coin cs).size ≤ cs.maxSize) :
    trimToCapacity coin cs = originalTrim coin cs := by
  have hscan : scan coin cs.cache.keys cs = originalTrim coin cs := by
    unfold originalTrim
    split
    next hfull => exact scan_eq_originalScan hfull _
    next hwithin => exact scan_of_le _ (Nat.le_of_not_lt hwithin)
  have hmax : (originalTrim coin cs).maxSize = cs.maxSize := by
    rw [← hscan]
    exact (shrinks_scan coin (cached_keys cs)).maxSize
  rw [trimToCapacity, if_neg (Nat.ne_of_gt hpos), hscan, dropFront_of_le]
  rwa [hmax]

/-! ## Runs -/

inductive Operation
  | insert (data : Data)
  | setMaxSize (maxSize : Nat)
  | clear
deriving DecidableEq, Repr

def perform (coin : Nat → Bool) (cs : ContentStore) : Operation → ContentStore
  | .insert data => cs.insert coin data
  | .setMaxSize maxSize => cs.setMaxSize coin maxSize
  | .clear => cs.clear

/-- The store after operations on a new one. -/
def after (coin : Nat → Bool) (maxSize : Nat) (operations : List Operation) : ContentStore :=
  operations.foldl (perform coin) (ofSize maxSize)

/-- The Data that an operation inserts under a name. -/
def Operation.insertedAs (name : Name) : Operation → Option Data
  | .insert data => if data.name = name then some data else none
  | .setMaxSize _ => none
  | .clear => none

/-- The Data inserted last under exactly a name. -/
def lastInserted (name : Name) (operations : List Operation) : Option Data :=
  (operations.filterMap (·.insertedAs name)).getLast?

/-- The bound that an operation sets. -/
def Operation.maxSize? : Operation → Option Nat
  | .insert _ => none
  | .setMaxSize maxSize => some maxSize
  | .clear => none

/-- The bound set last, the initial one if none was. -/
def lastMaxSize (maxSize : Nat) (operations : List Operation) : Nat :=
  (operations.filterMap (·.maxSize?)).getLast?.getD maxSize

/-- How many entries an operation has before its trim. -/
def Operation.entries (cs : ContentStore) : Operation → Nat
  | .insert data => if (cs.find data.name).isSome then cs.size else cs.size + 1
  | .setMaxSize _ => cs.size
  | .clear => 0

/-- The Data under a name before the trim of an operation. -/
def Operation.found (cs : ContentStore) (name : Name) : Operation → Option Data
  | .insert data => if data.name = name then some data else cs.find name
  | .setMaxSize _ => cs.find name
  | .clear => none

/-- An operation ends at the bound and evicts nothing within it. -/
structure Performs (bound : Nat) (operation : Operation) (cs cs' : ContentStore) : Prop where
  size : cs'.size = min (operation.entries cs) bound
  kept : operation.entries cs ≤ bound → ∀ name, cs'.find name = operation.found cs name

/-- What holds of a store after operations. -/
structure StoreInv (operations : List Operation) (cs : ContentStore) : Prop where
  bounded : cs.size ≤ cs.maxSize
  fresh : ∀ n d, cs.find n = some d → lastInserted n operations = some d

theorem lastInserted_snoc (name : Name) (operations : List Operation) (operation : Operation) :
    lastInserted name (operations ++ [operation]) =
      (operation.insertedAs name).or (lastInserted name operations) := by
  rw [lastInserted, List.filterMap_append, List.getLast?_append]
  cases hinserted : operation.insertedAs name with
  | none => simp [hinserted, lastInserted]
  | some data => simp [hinserted]

theorem lastMaxSize_snoc (maxSize : Nat) (operations : List Operation) (operation : Operation) :
    lastMaxSize maxSize (operations ++ [operation]) =
      operation.maxSize?.getD (lastMaxSize maxSize operations) := by
  rw [lastMaxSize, List.filterMap_append, List.getLast?_append]
  cases hset : operation.maxSize? with
  | none => simp [hset, lastMaxSize]
  | some bound => simp [hset]

theorem after_snoc (coin : Nat → Bool) (maxSize : Nat) (operations : List Operation)
    (operation : Operation) :
    after coin maxSize (operations ++ [operation]) =
      perform coin (after coin maxSize operations) operation := by
  rw [after, List.foldl_append]
  rfl

/-- The store knows the bound set last. -/
theorem maxSize_after (coin : Nat → Bool) (maxSize : Nat) (operations : List Operation) :
    (after coin maxSize operations).maxSize = lastMaxSize maxSize operations := by
  induction operations using List.reverseRecOn with
  | nil => rfl
  | append_singleton operations operation ih =>
      rw [after_snoc, lastMaxSize_snoc, ← ih]
      cases operation with
      | insert data =>
          simp only [perform, insert]
          split
          · rfl
          · exact (trimToCapacity_spec coin _).1.maxSize
      | setMaxSize bound => exact (trimToCapacity_spec coin _).1.maxSize
      | clear => rfl

/-- An operation on a store within its bound. -/
theorem performs_perform (coin : Nat → Bool) (h : cs.size ≤ cs.maxSize)
    (operation : Operation) :
    Performs (perform coin cs operation).maxSize operation cs (perform coin cs operation) := by
  cases operation with
  | insert data =>
      have hentries : (cs.cache.insert data.name data).size =
          (Operation.insert data).entries cs := by
        rw [Std.TreeMap.size_insert, Operation.entries, ContentStore.find,
          ← Std.TreeMap.contains_eq_isSome_getElem?]
        rfl
      simp only [perform, insert]
      split
      next hzero =>
        have hempty : cs.size = 0 := Nat.le_zero.mp (hzero ▸ h)
        have hone : (Operation.insert data).entries cs = 1 := by
          rw [Operation.entries, find_eq_none hempty, hempty]
          rfl
        refine ⟨?_, fun hle => ?_⟩
        · rw [hzero, Nat.min_zero, hempty]
        · omega
      next hpos =>
        obtain ⟨hshrinks, hsize⟩ := trimToCapacity_spec coin
          { cs with cache := cs.cache.insert data.name data }
        rw [hshrinks.maxSize]
        refine ⟨hsize.trans (by rw [← hentries]; rfl), fun hle name => ?_⟩
        have hwithin : ContentStore.size { cs with cache := cs.cache.insert data.name data } ≤
            cs.maxSize := hentries.trans_le hle
        rw [(trimToCapacity_of_le coin hwithin).1 name]
        simp only [ContentStore.find, Std.TreeMap.getElem?_insert, Operation.found,
          Std.LawfulEqOrd.compare_eq_iff_eq]
  | setMaxSize bound =>
      obtain ⟨hshrinks, hsize⟩ := trimToCapacity_spec coin { cs with maxSize := bound }
      simp only [perform, setMaxSize]
      rw [hshrinks.maxSize]
      refine ⟨hsize, fun hle => ?_⟩
      have hwithin : ContentStore.size { cs with maxSize := bound } ≤ bound := hle
      exact (trimToCapacity_of_le coin hwithin).1
  | clear => exact ⟨(Nat.zero_min _).symm, fun _ _ => rfl⟩

theorem StoreInv.trim {operations : List Operation}
    (h : ∀ n d, cs.find n = some d → lastInserted n operations = some d) :
    StoreInv operations (trimToCapacity coin cs) := by
  obtain ⟨hshrinks, hsize⟩ := trimToCapacity_spec coin cs
  refine ⟨?_, fun n d hd => h n d (hshrinks.find n d hd)⟩
  rw [hsize, hshrinks.maxSize]
  exact Nat.min_le_right _ _

/-- Every operation keeps the invariant. -/
theorem StoreInv.perform {operations : List Operation} (h : StoreInv operations cs)
    (operation : Operation) :
    StoreInv (operations ++ [operation]) (perform coin cs operation) := by
  cases operation with
  | insert data =>
      simp only [ContentStore.perform, ContentStore.insert]
      split
      next hzero =>
        refine ⟨h.bounded, fun n d hd => ?_⟩
        rw [find_eq_none (Nat.le_zero.mp (hzero ▸ h.bounded))] at hd
        cases hd
      next hpos =>
        refine StoreInv.trim fun n d hd => ?_
        rw [lastInserted_snoc, Operation.insertedAs]
        simp only [ContentStore.find, Std.TreeMap.getElem?_insert,
          Std.LawfulEqOrd.compare_eq_iff_eq] at hd
        split at hd
        next hname => rw [if_pos hname, Option.some_or, hd]
        next hname =>
          rw [if_neg hname, Option.none_or]
          exact h.fresh n d hd
  | setMaxSize maxSize =>
      refine StoreInv.trim fun n d hd => ?_
      rw [lastInserted_snoc]
      exact h.fresh n d hd
  | clear =>
      refine ⟨Nat.zero_le _, fun n d hd => ?_⟩
      cases hd

theorem storeInv_after (coin : Nat → Bool) (maxSize : Nat) (operations : List Operation) :
    StoreInv operations (after coin maxSize operations) := by
  induction operations using List.reverseRecOn with
  | nil =>
      refine ⟨Nat.zero_le _, fun n d hd => ?_⟩
      cases hd
  | append_singleton operations operation ih =>
      rw [after_snoc]
      exact ih.perform operation

/-- After any operations and coin flips the store is within the bound set last and holds
under a name only the Data inserted there last, and nothing at capacity zero; every
operation ends exactly at the bound and evicts nothing within it, as does a trim of any
content; and where the original scan reaches a positive bound, a trim keeps the same
entries with the same flips. -/
theorem content_store (coin : Nat → Bool) :
    (∀ maxSize operations,
      (after coin maxSize operations).size ≤ lastMaxSize maxSize operations ∧
      (after coin maxSize operations).maxSize = lastMaxSize maxSize operations ∧
      (∀ n d, (after coin maxSize operations).find n = some d →
        lastInserted n operations = some d) ∧
      (lastMaxSize maxSize operations = 0 → ∀ data,
        (after coin maxSize (operations ++ [.insert data])).size = 0) ∧
      ∀ operation, Performs (lastMaxSize maxSize (operations ++ [operation])) operation
        (after coin maxSize operations) (after coin maxSize (operations ++ [operation]))) ∧
      (∀ cs : ContentStore, (trimToCapacity coin cs).size = min cs.size cs.maxSize ∧
        (cs.size ≤ cs.maxSize → (∀ n, (trimToCapacity coin cs).find n = cs.find n) ∧
          (trimToCapacity coin cs).flips = cs.flips)) ∧
      ∀ cs : ContentStore, 0 < cs.maxSize → (originalTrim coin cs).size ≤ cs.maxSize →
        (∀ n, (trimToCapacity coin cs).find n = (originalTrim coin cs).find n) ∧
        (trimToCapacity coin cs).flips = (originalTrim coin cs).flips := by
  refine ⟨fun maxSize operations => ?_, fun cs => ⟨(trimToCapacity_spec coin cs).2,
    trimToCapacity_of_le coin⟩, fun cs hpos hreaches => ?_⟩
  · have h := storeInv_after coin maxSize operations
    have hmax := maxSize_after coin maxSize operations
    refine ⟨hmax ▸ h.bounded, hmax, h.fresh, fun hzero data => ?_, fun operation => ?_⟩
    · have hsame : after coin maxSize (operations ++ [.insert data]) =
          after coin maxSize operations := by
        rw [after_snoc]
        exact if_pos (hmax.trans hzero)
      rw [hsame]
      exact Nat.le_zero.mp ((hmax.trans hzero) ▸ h.bounded)
    · rw [← maxSize_after coin, after_snoc]
      exact performs_perform coin h.bounded operation
  · rw [trimToCapacity_eq_originalTrim hpos hreaches]
    exact ⟨fun _ => rfl, rfl⟩

end ContentStore

end Statim
