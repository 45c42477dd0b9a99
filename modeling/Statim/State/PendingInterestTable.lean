import Statim.Packet
import Statim.Support.OrderedMap
import Statim.Support.OrderedSet

/-!
# Pending Interest table

`PendingInterestTable` remembers, per name, the first accepted Interest and one
ingress record for every accepted one.  Aggregation prunes the expired records
of its own name; Data consumes the entries of all prefixes of its name, expired
or not.
-/

namespace Statim

open Support

/-- `PendingInterestTable::IngressRecord`; the lifetime is in microseconds. -/
structure IngressRecord where
  port : Port
  insertedAt : Time
  lifetime : Int
deriving DecidableEq, Repr

def IngressRecord.isExpired (now : Time) (record : IngressRecord) : Bool :=
  decide (wrap64 (record.insertedAt + record.lifetime * 1000) ≤ now)

/-- `PendingInterestTable::Entry`. -/
structure PendingEntry where
  interest : Interest
  ingress : List IngressRecord
deriving DecidableEq, Repr

/-- The ports of an entry. -/
def PendingEntry.ports (entry : PendingEntry) : List Port := entry.ingress.map (·.port)

structure PendingInterestTable where
  entries : Std.TreeMap Name PendingEntry

namespace PendingInterestTable

def empty : PendingInterestTable := ⟨∅⟩

/-- `InsertResult::Status`. -/
inductive Status
  | created
  | aggregated
  | duplicate
deriving DecidableEq, Repr

structure InsertResult where
  status : Status
  interest : Interest
deriving DecidableEq, Repr

def InsertResult.accepted (r : InsertResult) : Bool := r.status ≠ .duplicate

/-- The record of an Interest that arrives now. -/
def recordOf (now : Time) (interest : Interest) (port : Port) : IngressRecord :=
  ⟨port, now, toMicroseconds interest.lifetime⟩

def pruneExpiredIngress (now : Time) (entry : PendingEntry) : PendingEntry :=
  { entry with ingress := entry.ingress.filter fun record => !record.isExpired now }

/-- The nonce comparison of `insert`; `none` is a `tlv::Error` of `getNonce`. -/
def sameNonce (buffers : Buffers) (first interest : Interest) : Option Bool :=
  if first.hasNonce && interest.hasNonce then
    (first.getNonce buffers).bind fun a => (interest.getNonce buffers).map fun b => a == b
  else some false

/-- Add a record to an existing entry. -/
def aggregate (now : Time) (interest : Interest) (port : Port) (entry : PendingEntry) :
    PendingEntry :=
  let entry := pruneExpiredIngress now entry
  { entry with ingress := entry.ingress ++ [recordOf now interest port] }

/-- `PendingInterestTable::insert`. -/
def insert (buffers : Buffers) (now : Time) (interest : Interest) (port : Port)
    (t : PendingInterestTable) : Option (InsertResult × PendingInterestTable) :=
  match t.entries[interest.name]? with
  | some entry =>
    (sameNonce buffers entry.interest interest).map fun same =>
      if same then (⟨.duplicate, entry.interest⟩, t)
      else (⟨.aggregated, entry.interest⟩,
        ⟨t.entries.insert interest.name (aggregate now interest port entry)⟩)
  | none =>
    some (⟨.created, interest⟩,
      ⟨t.entries.insert interest.name ⟨interest, [recordOf now interest port]⟩⟩)

/-- One round of the loop of `takeDataMatchPorts`. -/
def takeEntry (name : Name) (s : Std.TreeSet Port × PendingInterestTable) :
    Std.TreeSet Port × PendingInterestTable :=
  match s.2.entries[name]? with
  | none => s
  | some entry => (insertAll entry.ports s.1, ⟨s.2.entries.erase name⟩)

/-- The loop of `takeDataMatchPorts` from `count` components downwards. -/
def takeFrom (dataName : Name) (count : Nat) (s : Std.TreeSet Port × PendingInterestTable) :
    Std.TreeSet Port × PendingInterestTable :=
  match count with
  | 0 => takeEntry (dataName.take 0) s
  | count + 1 => takeFrom dataName count (takeEntry (dataName.take (count + 1)) s)

/-- `PendingInterestTable::takeDataMatchPorts`. -/
def takeDataMatchPorts (dataName : Name) (t : PendingInterestTable) :
    Std.TreeSet Port × PendingInterestTable :=
  takeFrom dataName dataName.length (∅, t)

/-- `PendingInterestTable::findByPrefix`: from the lower bound of the prefix to the
first name without it. -/
def findByPrefix (pfx : Name) (t : PendingInterestTable) : List Interest :=
  ((t.entries.toList.dropWhile fun kv => compare kv.1 pfx == .lt).takeWhile
    fun kv => pfx.isPrefixOf kv.1).map fun kv => kv.2.interest

def erase (name : Name) (t : PendingInterestTable) : Bool × PendingInterestTable :=
  (t.entries.contains name, ⟨t.entries.erase name⟩)

def size (t : PendingInterestTable) : Nat := t.entries.size

/-! ## Insertion -/

variable {buffers : Buffers} {now : Time} {interest : Interest} {port : Port}
  {t t' : PendingInterestTable} {r : InsertResult}

/-- What an insertion can do. -/
theorem insert_cases (h : insert buffers now interest port t = some (r, t')) :
    (t.entries[interest.name]? = none ∧ r = ⟨.created, interest⟩ ∧
      t' = ⟨t.entries.insert interest.name ⟨interest, [recordOf now interest port]⟩⟩) ∨
    ∃ entry, t.entries[interest.name]? = some entry ∧
      ((sameNonce buffers entry.interest interest = some true ∧
          r = ⟨.duplicate, entry.interest⟩ ∧ t' = t) ∨
        (sameNonce buffers entry.interest interest = some false ∧
          r = ⟨.aggregated, entry.interest⟩ ∧
          t' = ⟨t.entries.insert interest.name (aggregate now interest port entry)⟩)) := by
  unfold insert at h
  split at h
  next entry hentry =>
    refine Or.inr ⟨entry, hentry, ?_⟩
    obtain ⟨same, hsame, heq⟩ := Option.map_eq_some_iff.mp h
    cases same with
    | true =>
        obtain ⟨rfl, rfl⟩ := Prod.mk.inj heq
        exact Or.inl ⟨hsame, rfl, rfl⟩
    | false =>
        obtain ⟨rfl, rfl⟩ := Prod.mk.inj heq
        exact Or.inr ⟨hsame, rfl, rfl⟩
  next hentry =>
    obtain ⟨rfl, rfl⟩ := Prod.mk.inj (Option.some.inj h)
    exact Or.inl ⟨hentry, rfl, rfl⟩

/-- The records after an insertion are those from before and the new one. -/
theorem mem_ports_insert (h : insert buffers now interest port t = some (r, t')) {n : Name}
    {entry : PendingEntry} (hentry : t'.entries[n]? = some entry) {p : Port}
    (hp : p ∈ entry.ports) :
    (∃ old, t.entries[n]? = some old ∧ p ∈ old.ports) ∨
      n = interest.name ∧ p = port ∧ r.accepted = true := by
  have hstored : ∀ stored : PendingEntry,
      (t.entries.insert interest.name stored)[n]? = some entry →
        t.entries[n]? = some entry ∨ n = interest.name ∧ entry = stored := by
    intro stored hstored
    simp only [Std.TreeMap.getElem?_insert, Std.LawfulEqOrd.compare_eq_iff_eq] at hstored
    split at hstored
    next hname => exact Or.inr ⟨hname.symm, (Option.some.inj hstored).symm⟩
    next => exact Or.inl hstored
  rcases insert_cases h with ⟨-, rfl, rfl⟩ | ⟨first, hfirst, ⟨-, -, rfl⟩ | ⟨-, rfl, rfl⟩⟩
  · rcases hstored _ hentry with hold | ⟨hname, rfl⟩
    · exact Or.inl ⟨entry, hold, hp⟩
    · refine Or.inr ⟨hname, ?_, rfl⟩
      simpa [PendingEntry.ports, recordOf] using hp
  · exact Or.inl ⟨entry, hentry, hp⟩
  · rcases hstored _ hentry with hold | ⟨rfl, rfl⟩
    · exact Or.inl ⟨entry, hold, hp⟩
    · simp only [aggregate, pruneExpiredIngress, PendingEntry.ports, List.map_append,
        List.mem_append, List.map_cons, List.map_nil, List.mem_singleton] at hp
      rcases hp with hp | rfl
      · exact Or.inl ⟨first, hfirst, (List.filter_sublist.map _).subset hp⟩
      · exact Or.inr ⟨rfl, rfl, rfl⟩

/-! ## Consumption -/

theorem getElem?_takeEntry (name : Name) (s : Std.TreeSet Port × PendingInterestTable)
    (n : Name) : (takeEntry name s).2.entries[n]? =
      if n = name then none else s.2.entries[n]? := by
  unfold takeEntry
  split
  next hnone =>
    split
    next heq => rw [heq, hnone]
    next => rfl
  next entry hentry =>
    split
    next heq => rw [heq, Std.TreeMap.getElem?_erase_self]
    next hne => exact getElem?_erase_of_ne _ (Ne.symm hne)

theorem mem_takeEntry {name : Name} {s : Std.TreeSet Port × PendingInterestTable} :
    port ∈ (takeEntry name s).1 ↔ port ∈ s.1 ∨
      ∃ entry, s.2.entries[name]? = some entry ∧ port ∈ entry.ports := by
  unfold takeEntry
  split
  next hnone => simp [hnone]
  next entry hentry => simp [hentry, or_comm]

theorem getElem?_takeFrom (dataName : Name) (count : Nat)
    (s : Std.TreeSet Port × PendingInterestTable) (n : Name) :
    (takeFrom dataName count s).2.entries[n]? =
      if ∃ k ≤ count, n = dataName.take k then none else s.2.entries[n]? := by
  induction count generalizing s with
  | zero =>
      rw [takeFrom, getElem?_takeEntry]
      exact if_congr (by simp) rfl rfl
  | succ count ih =>
      rw [takeFrom, ih, getElem?_takeEntry]
      by_cases hlow : ∃ k ≤ count, n = dataName.take k
      · obtain ⟨k, hk, hn⟩ := hlow
        rw [if_pos ⟨k, hk, hn⟩, if_pos ⟨k, Nat.le_succ_of_le hk, hn⟩]
      · rw [if_neg hlow]
        by_cases hn : n = dataName.take (count + 1)
        · rw [if_pos hn, if_pos ⟨count + 1, Nat.le_refl _, hn⟩]
        · rw [if_neg hn, if_neg]
          rintro ⟨k, hk, hk'⟩
          rcases Nat.le_succ_iff.mp hk with hle | rfl
          · exact hlow ⟨k, hle, hk'⟩
          · exact hn hk'

theorem mem_takeFrom {dataName : Name} {count : Nat} (hcount : count ≤ dataName.length)
    {s : Std.TreeSet Port × PendingInterestTable} :
    port ∈ (takeFrom dataName count s).1 ↔ port ∈ s.1 ∨
      ∃ k ≤ count, ∃ entry, s.2.entries[dataName.take k]? = some entry ∧
        port ∈ entry.ports := by
  induction count generalizing s with
  | zero =>
      rw [takeFrom, mem_takeEntry]
      simp
  | succ count ih =>
      rw [takeFrom, ih (by omega), mem_takeEntry, or_assoc]
      refine or_congr_right ?_
      -- the shorter prefixes are not the one that was just erased
      have hkeep : ∀ k ≤ count, (takeEntry (dataName.take (count + 1)) s).2.entries[
          dataName.take k]? = s.2.entries[dataName.take k]? := by
        intro k hk
        rw [getElem?_takeEntry, if_neg]
        intro heq
        have hlen := congrArg List.length heq
        rw [List.length_take, List.length_take] at hlen
        omega
      constructor
      · rintro (⟨entry, hentry, hport⟩ | ⟨k, hk, entry, hentry, hport⟩)
        · exact ⟨count + 1, Nat.le_refl _, entry, hentry, hport⟩
        · rw [hkeep k hk] at hentry
          exact ⟨k, Nat.le_succ_of_le hk, entry, hentry, hport⟩
      · rintro ⟨k, hk, entry, hentry, hport⟩
        rcases Nat.le_succ_iff.mp hk with hle | rfl
        · exact Or.inr ⟨k, hle, entry, (hkeep k hle).trans hentry, hport⟩
        · exact Or.inl ⟨entry, hentry, hport⟩

/-- Data takes out the entries of all prefixes of its name and no others. -/
theorem getElem?_takeDataMatchPorts (dataName : Name) (t : PendingInterestTable) (n : Name) :
    (takeDataMatchPorts dataName t).2.entries[n]? =
      if n <+: dataName then none else t.entries[n]? := by
  rw [takeDataMatchPorts, getElem?_takeFrom]
  refine if_congr ?_ rfl rfl
  constructor
  · rintro ⟨k, -, rfl⟩
    exact List.take_prefix k dataName
  · intro hprefix
    exact ⟨n.length, hprefix.length_le, List.prefix_iff_eq_take.mp hprefix⟩

/-- The returned ports are those of the entries that were taken out. -/
theorem mem_takeDataMatchPorts {dataName : Name} {t : PendingInterestTable} :
    port ∈ (takeDataMatchPorts dataName t).1 ↔ ∃ n entry, n <+: dataName ∧
      t.entries[n]? = some entry ∧ port ∈ entry.ports := by
  rw [takeDataMatchPorts, mem_takeFrom (Nat.le_refl _)]
  constructor
  · rintro (hempty | ⟨k, -, entry, hentry, hport⟩)
    · exact absurd hempty Std.TreeSet.not_mem_emptyc
    · exact ⟨dataName.take k, entry, List.take_prefix k dataName, hentry, hport⟩
  · rintro ⟨n, entry, hprefix, hentry, hport⟩
    refine Or.inr ⟨n.length, hprefix.length_le, entry, ?_, hport⟩
    rw [← List.prefix_iff_eq_take.mp hprefix]
    exact hentry

/-! ## Well-formed tables -/

/-- Every entry is stored under the name of its Interest and has a record. -/
structure PendingInv (t : PendingInterestTable) : Prop where
  named : ∀ (n : Name) (entry : PendingEntry),
    t.entries[n]? = some entry → entry.interest.name = n
  recorded : ∀ (n : Name) (entry : PendingEntry),
    t.entries[n]? = some entry → entry.ingress ≠ []

theorem PendingInv.empty : PendingInv .empty := by
  constructor
  · intro n entry hentry
    simp [PendingInterestTable.empty] at hentry
  · intro n entry hentry
    simp [PendingInterestTable.empty] at hentry

/-- Storing one more well-formed entry. -/
theorem PendingInv.store (h : PendingInv t) {entry : PendingEntry} {n : Name}
    (hname : entry.interest.name = n) (hrecord : entry.ingress ≠ []) :
    PendingInv ⟨t.entries.insert n entry⟩ := by
  constructor
  · intro n' entry' hentry
    simp only [Std.TreeMap.getElem?_insert, Std.LawfulEqOrd.compare_eq_iff_eq] at hentry
    split at hentry
    next heq =>
      rw [← Option.some.inj hentry, hname, heq]
    next => exact h.named n' entry' hentry
  · intro n' entry' hentry
    simp only [Std.TreeMap.getElem?_insert, Std.LawfulEqOrd.compare_eq_iff_eq] at hentry
    split at hentry
    next => rwa [← Option.some.inj hentry]
    next => exact h.recorded n' entry' hentry

theorem PendingInv.insert (h : PendingInv t)
    (hinsert : insert buffers now interest port t = some (r, t')) : PendingInv t' := by
  rcases insert_cases hinsert with
    ⟨-, -, rfl⟩ | ⟨entry, hentry, ⟨-, -, rfl⟩ | ⟨-, -, rfl⟩⟩
  · exact h.store rfl (List.cons_ne_nil _ _)
  · exact h
  · exact h.store (h.named _ entry hentry) (List.append_ne_nil_of_right_ne_nil _ (by simp))

theorem PendingInv.takeDataMatchPorts (h : PendingInv t) (dataName : Name) :
    PendingInv (takeDataMatchPorts dataName t).2 := by
  constructor
  · intro n entry hentry
    rw [getElem?_takeDataMatchPorts] at hentry
    split at hentry
    · cases hentry
    · exact h.named n entry hentry
  · intro n entry hentry
    rw [getElem?_takeDataMatchPorts] at hentry
    split at hentry
    · cases hentry
    · exact h.recorded n entry hentry

/-- Nothing is returned only if no prefix of the name is pending. -/
theorem PendingInv.isEmpty_iff (h : PendingInv t) {dataName : Name} :
    (PendingInterestTable.takeDataMatchPorts dataName t).1.isEmpty = true ↔
      ∀ n : Name, n <+: dataName → t.entries[n]? = none := by
  rw [Std.TreeSet.isEmpty_iff_forall_not_mem]
  constructor
  · intro hnone n hprefix
    cases hentry : t.entries[n]? with
    | none => rfl
    | some entry =>
        obtain ⟨record, hrecord⟩ := List.exists_mem_of_ne_nil _ (h.recorded n entry hentry)
        have hport : record.port ∈ entry.ports := List.mem_map_of_mem hrecord
        exact absurd (mem_takeDataMatchPorts.mpr ⟨n, entry, hprefix, hentry, hport⟩) (hnone _)
  · intro hnone port hport
    obtain ⟨n, entry, hprefix, hentry, -⟩ := mem_takeDataMatchPorts.mp hport
    rw [hnone n hprefix] at hentry
    cases hentry

/-! ## Enumeration -/

/-- The names with a prefix form an interval of the canonical order. -/
theorem isPrefix_of_between {p n m : Name} (hm : p <+: m) (hn : (compare p n).isLE)
    (hnm : (compare n m).isLE) : p <+: n := by
  induction p generalizing n m with
  | nil => exact List.nil_prefix
  | cons c p ih =>
      obtain ⟨m, rfl, hpm⟩ := List.cons_prefix_iff.mp hm
      cases n with
      | nil => exact absurd hn (by simp [List.compare_cons_nil])
      | cons d n =>
          rw [List.compare_cons_cons] at hn hnm
          have hcd : compare c d = .eq := by
            refine Std.OrientedCmp.isLE_antisymm ?_ ?_
            · exact Ordering.isLE_left_of_isLE_then hn
            · exact Ordering.isLE_left_of_isLE_then hnm
          obtain rfl := Std.LawfulEqOrd.eq_of_compare hcd
          rw [Std.ReflOrd.compare_self] at hn hnm
          exact (List.prefix_cons_inj c).mpr (ih hpm hn hnm)

theorem isLE_compare_of_isPrefix {p n : Name} (h : p <+: n) : (compare p n).isLE := by
  induction p generalizing n with
  | nil => exact List.isLE_compare_nil_left
  | cons c p ih =>
      obtain ⟨n, rfl, hpn⟩ := List.cons_prefix_iff.mp h
      rw [List.compare_cons_cons, Std.ReflOrd.compare_self]
      exact ih hpn

/-- The scan lists exactly the entries whose name has the prefix, in name order. -/
theorem findByPrefix_eq_filter (p : Name) (t : PendingInterestTable) :
    findByPrefix p t =
      (t.entries.toList.filter fun kv => p.isPrefixOf kv.1).map fun kv => kv.2.interest := by
  have hordered : t.entries.toList.Pairwise fun a b => compare a.1 b.1 = .lt :=
    Std.TreeMap.ordered_keys_toList
  rw [findByPrefix, takeWhile_dropWhile_eq_filter]
  · intro kv hin
    have hle := isLE_compare_of_isPrefix (List.isPrefixOf_iff_prefix.mp hin)
    rw [Std.OrientedOrd.eq_swap, Ordering.isLE_swap] at hle
    cases hc : compare kv.1 p <;> simp_all
  · refine hordered.imp fun {a b} hab hb => ?_
    rw [beq_iff_eq] at hb ⊢
    exact Std.TransCmp.lt_trans hab hb
  · refine hordered.imp fun {a b} hab hin hge => ?_
    rw [List.isPrefixOf_iff_prefix] at hin ⊢
    refine isPrefix_of_between hin ?_ (by rw [hab]; rfl)
    rw [Std.OrientedOrd.eq_swap, Ordering.isLE_swap]
    cases hc : compare a.1 p <;> simp_all

theorem mem_findByPrefix {p : Name} {t : PendingInterestTable} :
    interest ∈ findByPrefix p t ↔
      ∃ n entry, t.entries[n]? = some entry ∧ p <+: n ∧ entry.interest = interest := by
  rw [findByPrefix_eq_filter]
  simp only [List.mem_map, List.mem_filter, Prod.exists,
    Std.TreeMap.mem_toList_iff_getElem?_eq_some, List.isPrefixOf_iff_prefix, and_assoc]

/-! ## Records per port -/

/-- How many ingress records a port has. -/
def pendingOf (port : Port) (t : PendingInterestTable) : Nat :=
  sumOver (fun _ entry => entry.ports.count port) t.entries

theorem count_ports_prune_le (port : Port) (now : Time) (entry : PendingEntry) :
    (pruneExpiredIngress now entry).ports.count port ≤ entry.ports.count port :=
  (List.filter_sublist.map _).count_le _

/-- An accepted Interest adds at most its own record. -/
theorem pendingOf_insert_le (h : insert buffers now interest port t = some (r, t'))
    (q : Port) : pendingOf q t' ≤
      pendingOf q t + if r.accepted ∧ port = q then 1 else 0 := by
  rcases insert_cases h with ⟨hnone, rfl, rfl⟩ | ⟨entry, hentry, ⟨-, rfl, rfl⟩ | ⟨-, rfl, rfl⟩⟩
  · rw [pendingOf, sumOver_insert, sumOver_erase_of_none _ hnone]
    by_cases hq : port = q
    · simp [InsertResult.accepted, PendingEntry.ports, recordOf, hq, pendingOf, Nat.add_comm]
    · simp [InsertResult.accepted, PendingEntry.ports, recordOf, hq, pendingOf]
  · simp
  · have hprune := count_ports_prune_le q now entry
    rw [pendingOf, pendingOf, sumOver_insert, sumOver_of_getElem? _ hentry]
    by_cases hq : port = q
    · simp only [aggregate, PendingEntry.ports, List.map_append, List.count_append] at hprune ⊢
      simp [InsertResult.accepted, recordOf, hq]
      omega
    · simp only [aggregate, PendingEntry.ports, List.map_append, List.count_append] at hprune ⊢
      simp [InsertResult.accepted, recordOf, hq]
      omega

/-- One round consumes at least one record of every port it adds. -/
theorem pendingOf_takeEntry (name : Name) (s : Std.TreeSet Port × PendingInterestTable)
    (q : Port) : pendingOf q (takeEntry name s).2 ≤ pendingOf q s.2 ∧
      (q ∈ (takeEntry name s).1 → q ∉ s.1 →
        pendingOf q (takeEntry name s).2 < pendingOf q s.2) := by
  unfold takeEntry
  split
  next => exact ⟨Nat.le_refl _, fun hq hnot => absurd hq hnot⟩
  next entry hentry =>
    have hsum := sumOver_of_getElem? (fun _ entry => entry.ports.count q) hentry
    refine ⟨?_, fun hq hnot => ?_⟩
    · rw [pendingOf, pendingOf, hsum]
      exact Nat.le_add_left _ _
    · have hport : q ∈ entry.ports := (mem_insertAll.mp hq).resolve_right hnot
      have hpos : 0 < entry.ports.count q := List.count_pos_iff.mpr hport
      rw [pendingOf, pendingOf, hsum]
      exact Nat.lt_add_of_pos_left hpos

theorem pendingOf_takeFrom (dataName : Name) (count : Nat)
    (s : Std.TreeSet Port × PendingInterestTable) (q : Port) :
    pendingOf q (takeFrom dataName count s).2 ≤ pendingOf q s.2 ∧
      (q ∈ (takeFrom dataName count s).1 → q ∉ s.1 →
        pendingOf q (takeFrom dataName count s).2 < pendingOf q s.2) := by
  induction count generalizing s with
  | zero => exact pendingOf_takeEntry _ s q
  | succ count ih =>
      obtain ⟨hle, hlt⟩ := pendingOf_takeEntry (dataName.take (count + 1)) s q
      obtain ⟨hle', hlt'⟩ := ih (takeEntry (dataName.take (count + 1)) s)
      rw [takeFrom]
      refine ⟨Nat.le_trans hle' hle, fun hq hnot => ?_⟩
      by_cases hround : q ∈ (takeEntry (dataName.take (count + 1)) s).1
      · exact Nat.lt_of_le_of_lt hle' (hlt hround hnot)
      · exact Nat.lt_of_lt_of_le (hlt' hq hround) hle

/-- Data never adds records. -/
theorem pendingOf_takeDataMatchPorts_le (dataName : Name) (t : PendingInterestTable)
    (q : Port) : pendingOf q (takeDataMatchPorts dataName t).2 ≤ pendingOf q t :=
  (pendingOf_takeFrom dataName dataName.length (∅, t) q).1

/-- For every port that Data is returned to, at least one record is consumed. -/
theorem pendingOf_takeDataMatchPorts_lt {dataName : Name} {t : PendingInterestTable}
    {q : Port} (hq : q ∈ (takeDataMatchPorts dataName t).1) :
    pendingOf q (takeDataMatchPorts dataName t).2 < pendingOf q t :=
  (pendingOf_takeFrom dataName dataName.length (∅, t) q).2 hq Std.TreeSet.not_mem_emptyc

end PendingInterestTable

end Statim
