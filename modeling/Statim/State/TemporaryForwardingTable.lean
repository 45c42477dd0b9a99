import Mathlib.Algebra.Ring.Int.Defs
import Mathlib.Algebra.Ring.Nat
import Statim.Name

/-!
# Temporary forwarding table

`TemporaryForwardingTable` stores next-hop ports with deadlines per prefix.
Lookups prune expired hops and drop prefixes that become empty; insertion
prunes the prefix it touches and never renews a live hop.  The table is
independent of generations and of the replacement policy of its caller.

The `std::map`s of the source are `Std.TreeMap`s, and the clock function is the
argument `now`.
-/

namespace Statim

/-- Port numbers (`uint16_t` in the source; no operation overflows them). -/
abbrev Port := Nat

/-- Simulator time and table time points, in nanoseconds. -/
abbrev Time := Int

/-- Reduction of an integer to a signed 64-bit word, as ns-3 and chrono
arithmetic do. -/
def wrap64 (x : Int) : Int := x.bmod (2 ^ 64)

theorem wrap64_of_range {x : Int} (hlo : -2 ^ 63 ≤ x) (hhi : x < 2 ^ 63) : wrap64 x = x := by
  rw [wrap64, Int.bmod_def]
  omega

theorem wrap64_of_nonneg {x : Int} (hlo : 0 ≤ x) (hhi : x < 2 ^ 63) : wrap64 x = x :=
  wrap64_of_range (by omega) hhi

/-- `TimePoint::max()`, the deadline of a route without a finite lease. -/
def timePointMax : Time := 2 ^ 63 - 1

structure PortNextHop where
  port : Port
  deadline : Time
deriving DecidableEq, Repr

structure ForwardingEntry where
  pfx : Name
  nextHops : Std.TreeMap Port PortNextHop

structure TemporaryForwardingTable where
  entries : Std.TreeMap Name ForwardingEntry

namespace TemporaryForwardingTable

def empty : TemporaryForwardingTable := ⟨∅⟩

/-- `TemporaryForwardingTable::InsertResult`. -/
structure InsertResult where
  prefixCreated : Bool
  hopAdded : Bool
deriving DecidableEq, Repr

def pruneExpiredHops (now : Time) (entry : ForwardingEntry) : ForwardingEntry :=
  { entry with nextHops := entry.nextHops.filter fun _ hop => !decide (hop.deadline ≤ now) }

def insertUntil (now : Time) (pfx : Name) (port : Port) (deadline : Time)
    (t : TemporaryForwardingTable) : InsertResult × TemporaryForwardingTable :=
  let found := t.entries[pfx]?
  let entry : ForwardingEntry := match found with
    | none => ⟨pfx, ∅⟩
    | some entry => pruneExpiredHops now entry
  let hopAdded := !entry.nextHops.contains port
  -- `std::map::emplace` keeps a hop that is already present
  let entry : ForwardingEntry := { entry with
    nextHops := entry.nextHops.insertIfNew port ⟨port, deadline⟩ }
  (⟨found.isNone, hopAdded⟩, ⟨t.entries.insert pfx entry⟩)

/-- `insert` with a lifetime in microseconds. -/
def insert (now : Time) (pfx : Name) (port : Port) (lifetime : Int)
    (t : TemporaryForwardingTable) : InsertResult × TemporaryForwardingTable :=
  insertUntil now pfx port (wrap64 (now + lifetime * 1000)) t

def pruneAndFind (now : Time) (pfx : Name) (t : TemporaryForwardingTable) :
    Option ForwardingEntry × TemporaryForwardingTable :=
  match t.entries[pfx]? with
  | none => (none, t)
  | some entry =>
    let entry := pruneExpiredHops now entry
    if entry.nextHops.isEmpty then (none, ⟨t.entries.erase pfx⟩)
    else (some entry, ⟨t.entries.insert pfx entry⟩)

def findExact (now : Time) (pfx : Name) (t : TemporaryForwardingTable) :
    Option ForwardingEntry × TemporaryForwardingTable :=
  pruneAndFind now pfx t

/-- The loop of `findLongestPrefix` from `count` components downwards. -/
def searchFrom (now : Time) (name : Name) :
    Nat → TemporaryForwardingTable → Option ForwardingEntry × TemporaryForwardingTable
  | 0, t => pruneAndFind now (name.take 0) t
  | count + 1, t =>
    match pruneAndFind now (name.take (count + 1)) t with
    | (some entry, t) => (some entry, t)
    | (none, t) => searchFrom now name count t

def findLongestPrefix (now : Time) (name : Name) (t : TemporaryForwardingTable) :
    Option ForwardingEntry × TemporaryForwardingTable :=
  searchFrom now name name.length t

def erase (pfx : Name) (t : TemporaryForwardingTable) : TemporaryForwardingTable :=
  ⟨t.entries.erase pfx⟩

def size (t : TemporaryForwardingTable) : Nat := t.entries.size

/-! ## What the operations do to one prefix -/

/-- The stored entry as a lookup at `now` sees it. -/
def live? (now : Time) (entry : ForwardingEntry) : Option ForwardingEntry :=
  let entry := pruneExpiredHops now entry
  if entry.nextHops.isEmpty then none else some entry

theorem getElem?_erase (t : TemporaryForwardingTable) (p q : Name) :
    (t.erase p).entries[q]? = if p = q then none else t.entries[q]? := by
  simp [erase, Std.TreeMap.getElem?_erase]

theorem getElem?_insertUntil_of_ne (now : Time) {p q : Name} (h : p ≠ q) (port : Port)
    (deadline : Time) (t : TemporaryForwardingTable) :
    (insertUntil now p port deadline t).2.entries[q]? = t.entries[q]? := by
  simp [insertUntil, Std.TreeMap.getElem?_insert, h]

theorem pruneAndFind_fst (now : Time) (p : Name) (t : TemporaryForwardingTable) :
    (pruneAndFind now p t).1 = (t.entries[p]?).bind (live? now) := by
  unfold pruneAndFind
  cases h : t.entries[p]? with
  | none => rfl
  | some entry =>
      by_cases hempty : (pruneExpiredHops now entry).nextHops.isEmpty = true
      · simp [live?, hempty]
      · simp [live?, hempty]

theorem getElem?_pruneAndFind (now : Time) (p q : Name) (t : TemporaryForwardingTable) :
    (pruneAndFind now p t).2.entries[q]? =
      if p = q then (t.entries[q]?).bind (live? now) else t.entries[q]? := by
  unfold pruneAndFind
  cases h : t.entries[p]? with
  | none =>
      by_cases hpq : p = q
      · subst hpq
        simp [h]
      · simp [hpq]
  | some entry =>
      by_cases hpq : p = q
      · subst hpq
        by_cases hempty : (pruneExpiredHops now entry).nextHops.isEmpty = true
        · simp [live?, hempty, h]
        · simp [live?, hempty, h]
      · by_cases hempty : (pruneExpiredHops now entry).nextHops.isEmpty = true
        · simp [hempty, hpq, Std.TreeMap.getElem?_erase]
        · simp [hempty, hpq, Std.TreeMap.getElem?_insert]

/-- Anything that pruning one prefix keeps, a whole search keeps. -/
theorem searchFrom_preserves {P : TemporaryForwardingTable → Prop} {now : Time}
    (hprune : ∀ p t, P t → P (pruneAndFind now p t).2) (name : Name) (count : Nat)
    {t : TemporaryForwardingTable} (ht : P t) : P (searchFrom now name count t).2 := by
  induction count generalizing t with
  | zero => exact hprune _ t ht
  | succ count ih =>
      have hstep := hprune (name.take (count + 1)) t ht
      unfold searchFrom
      split
      next hfound => simpa [hfound] using hstep
      next hfound =>
        rw [hfound] at hstep
        exact ih hstep

/-- The longest prefix of `name` with at most `count` components that is live. -/
def longestLive (now : Time) (name : Name) (t : TemporaryForwardingTable) :
    Nat → Option ForwardingEntry
  | 0 => (t.entries[name.take 0]?).bind (live? now)
  | count + 1 =>
    ((t.entries[name.take (count + 1)]?).bind (live? now)).or
      (longestLive now name t count)

theorem longestLive_congr {now : Time} {name : Name} {t t' : TemporaryForwardingTable}
    {count : Nat}
    (h : ∀ k ≤ count, t.entries[name.take k]? = t'.entries[name.take k]?) :
    longestLive now name t count = longestLive now name t' count := by
  induction count with
  | zero => simp only [longestLive, h 0 (Nat.le_refl 0)]
  | succ count ih =>
      have hrest := ih fun k hk => h k (Nat.le_succ_of_le hk)
      simp only [longestLive, h (count + 1) (Nat.le_refl _), hrest]

/-- Pruning on the way down does not disturb the shorter prefixes, so the
search returns the longest live prefix of the table it started from. -/
theorem searchFrom_fst (now : Time) (name : Name) {count : Nat}
    (hcount : count ≤ name.length) (t : TemporaryForwardingTable) :
    (searchFrom now name count t).1 = longestLive now name t count := by
  induction count generalizing t with
  | zero => exact pruneAndFind_fst now _ t
  | succ count ih =>
      have hfst := pruneAndFind_fst now (name.take (count + 1)) t
      have hother : ∀ k ≤ count,
          (pruneAndFind now (name.take (count + 1)) t).2.entries[name.take k]? =
            t.entries[name.take k]? := by
        intro k hk
        rw [getElem?_pruneAndFind, if_neg]
        intro heq
        have hlen := congrArg List.length heq
        simp only [List.length_take] at hlen
        omega
      unfold searchFrom
      split
      next entry t' hfound =>
        rw [hfound] at hfst
        simp [longestLive, ← hfst]
      next t' hfound =>
        rw [hfound] at hfst hother
        rw [ih (Nat.le_of_succ_le hcount), longestLive, ← hfst]
        simpa using longestLive_congr hother

theorem findLongestPrefix_fst (now : Time) (name : Name) (t : TemporaryForwardingTable) :
    (findLongestPrefix now name t).1 = longestLive now name t name.length :=
  searchFrom_fst now name (Nat.le_refl _) t

/-! ## Live entries -/

theorem live?_eq_some {now : Time} {entry entry' : ForwardingEntry}
    (h : live? now entry = some entry') : entry' = pruneExpiredHops now entry := by
  simp only [live?] at h
  split at h
  · cases h
  · exact (Option.some.inj h).symm

theorem getElem?_pruneExpiredHops (now : Time) (entry : ForwardingEntry) (port : Port) :
    (pruneExpiredHops now entry).nextHops[port]? =
      (entry.nextHops[port]?).filter fun hop => !decide (hop.deadline ≤ now) := by
  simp [pruneExpiredHops]

theorem live?_eq_none_iff {now : Time} {entry : ForwardingEntry} :
    live? now entry = none ↔
      ∀ port : Port, (pruneExpiredHops now entry).nextHops[port]? = none := by
  rw [live?]
  cases hempty : (pruneExpiredHops now entry).nextHops.isEmpty with
  | true =>
      simp only [if_true, true_iff]
      intro port
      rw [Std.TreeMap.getElem?_eq_none]
      exact Std.TreeMap.isEmpty_iff_forall_not_mem.mp hempty port
  | false =>
      obtain ⟨port, hport⟩ := Std.TreeMap.isEmpty_eq_false_iff_exists_mem.mp hempty
      simp only [Bool.false_eq_true, if_false, reduceCtorEq, false_iff]
      intro hnone
      rw [Std.TreeMap.mem_iff_isSome_getElem?, hnone port] at hport
      cases hport

/-- The entry a search returns is a stored one, pruned. -/
theorem longestLive_eq_some {now : Time} {name : Name} {t : TemporaryForwardingTable}
    {count : Nat} {entry : ForwardingEntry}
    (h : longestLive now name t count = some entry) :
    ∃ k ≤ count, ∃ stored, t.entries[name.take k]? = some stored ∧
      live? now stored = some entry := by
  induction count with
  | zero =>
      obtain ⟨stored, hstored, hlive⟩ := Option.bind_eq_some_iff.mp h
      exact ⟨0, Nat.le_refl 0, stored, hstored, hlive⟩
  | succ count ih =>
      rw [longestLive, Option.or_eq_some_iff] at h
      rcases h with h | ⟨-, h⟩
      · obtain ⟨stored, hstored, hlive⟩ := Option.bind_eq_some_iff.mp h
        exact ⟨count + 1, Nat.le_refl _, stored, hstored, hlive⟩
      · obtain ⟨k, hk, hrest⟩ := ih h
        exact ⟨k, Nat.le_succ_of_le hk, hrest⟩

theorem longestLive_eq_none {now : Time} {name : Name} {t : TemporaryForwardingTable}
    {count : Nat} (h : ∀ j ≤ count, t.entries[name.take j]? = none) :
    longestLive now name t count = none := by
  induction count with
  | zero => rw [longestLive, h 0 (Nat.le_refl 0), Option.bind_none]
  | succ count ih =>
      rw [longestLive, h (count + 1) (Nat.le_refl _), Option.bind_none, Option.none_or]
      exact ih fun j hj => h j (Nat.le_succ_of_le hj)

/-- If `name.take k` is the only prefix of `name` that is stored, the search
sees exactly its entry. -/
theorem longestLive_of_unique {now : Time} {name : Name} {t : TemporaryForwardingTable}
    {count k : Nat} (hk : k ≤ count)
    (hother : ∀ j ≤ count, j ≠ k → t.entries[name.take j]? = none) :
    longestLive now name t count = (t.entries[name.take k]?).bind (live? now) := by
  induction count with
  | zero =>
      obtain rfl : k = 0 := Nat.le_zero.mp hk
      rfl
  | succ count ih =>
      by_cases hlast : k = count + 1
      · subst hlast
        have hnone : longestLive now name t count = none :=
          longestLive_eq_none fun j hj => hother j (by omega) (by omega)
        rw [longestLive, hnone, Option.or_none]
      · rw [longestLive, hother (count + 1) (Nat.le_refl _) (Ne.symm hlast)]
        simpa using ih (by omega) fun j hj => hother j (Nat.le_succ_of_le hj)

end TemporaryForwardingTable

/-! ## Entries with one hop -/

namespace ForwardingEntry

open TemporaryForwardingTable

/-- The entry has exactly one next hop. -/
def OneHop (entry : ForwardingEntry) (port : Port) (deadline : Time) : Prop :=
  ∀ q, entry.nextHops[q]? = if port = q then some ⟨port, deadline⟩ else none

variable {entry : ForwardingEntry} {port : Port} {deadline now : Time}

theorem OneHop.live?_of_expired (h : entry.OneHop port deadline) (hexpired : deadline ≤ now) :
    live? now entry = none := by
  rw [live?_eq_none_iff]
  intro q
  rw [getElem?_pruneExpiredHops, h q]
  by_cases hq : port = q
  · simp [hq, Option.filter, hexpired]
  · simp [hq]

theorem OneHop.live?_of_lt (h : entry.OneHop port deadline) (hlt : now < deadline) :
    ∃ entry', live? now entry = some entry' ∧ entry'.pfx = entry.pfx ∧
      entry'.OneHop port deadline := by
  have hsame : ∀ q : Port, (pruneExpiredHops now entry).nextHops[q]? = entry.nextHops[q]? := by
    intro q
    rw [getElem?_pruneExpiredHops, h q]
    by_cases hq : port = q
    · simp [hq, Option.filter, hlt]
    · simp [hq]
  cases hlive : live? now entry with
  | none =>
      have hnone := live?_eq_none_iff.mp hlive port
      rw [hsame, h port, if_pos rfl] at hnone
      cases hnone
  | some entry' =>
      refine ⟨entry', rfl, ?_⟩
      rw [live?_eq_some hlive]
      exact ⟨rfl, fun q => (hsame q).trans (h q)⟩

theorem OneHop.keys_eq (h : entry.OneHop port deadline) : entry.nextHops.keys = [port] := by
  have hmem : ∀ q, q ∈ entry.nextHops.keys ↔ q = port := by
    intro q
    rw [Std.TreeMap.mem_keys, Std.TreeMap.mem_iff_isSome_getElem?, h q]
    by_cases hq : port = q
    · simp [hq]
    · simp [hq, Ne.symm hq]
  have hnodup : entry.nextHops.keys.Nodup := Std.TreeMap.nodup_keys
  cases hkeys : entry.nextHops.keys with
  | nil => simpa [hkeys] using (hmem port).mpr rfl
  | cons k rest =>
      rw [hkeys] at hmem hnodup
      obtain rfl : k = port := (hmem k).mp List.mem_cons_self
      cases rest with
      | nil => rfl
      | cons k' rest =>
          obtain rfl : k' = k := (hmem k').mp (by simp)
          simp at hnodup

theorem OneHop.toList_eq (h : entry.OneHop port deadline) :
    entry.nextHops.toList = [(port, ⟨port, deadline⟩)] := by
  have hkeys : entry.nextHops.toList.map Prod.fst = [port] := by
    rw [Std.TreeMap.map_fst_toList_eq_keys, h.keys_eq]
  obtain ⟨hop, htoList⟩ : ∃ hop, entry.nextHops.toList = [(port, hop)] := by
    obtain ⟨⟨k, hop⟩, hsingle, hk⟩ := List.map_eq_singleton_iff.mp hkeys
    exact ⟨hop, hk ▸ hsingle⟩
  have hmem : (port, hop) ∈ entry.nextHops.toList := by
    rw [htoList]
    exact List.mem_cons_self
  rw [Std.TreeMap.mem_toList_iff_getElem?_eq_some, h port, if_pos rfl] at hmem
  rw [htoList, Option.some.inj hmem]

/-- Inserting under an absent prefix stores exactly the one hop. -/
theorem exists_oneHop_insertUntil {p : Name} {t : TemporaryForwardingTable}
    (habsent : t.entries[p]? = none) (now : Time) (port : Port) (deadline : Time) :
    ∃ entry, (insertUntil now p port deadline t).2.entries[p]? = some entry ∧
      entry.pfx = p ∧ entry.OneHop port deadline := by
  refine ⟨⟨p, (∅ : Std.TreeMap Port PortNextHop).insertIfNew port ⟨port, deadline⟩⟩,
    ?_, rfl, ?_⟩
  · simp [insertUntil, habsent]
  · intro q
    simp [Std.TreeMap.getElem?_insertIfNew]

end ForwardingEntry

end Statim
