import Mathlib.Data.List.Pairwise
import Statim.Pipeline.SwitchPipeline

/-!
# The flow-table FIB

Table 51 keeps one entry for each tuple of component hashes, under a default
drop entry.  Installation replaces the entry of its tuple.  On tuples computed
from names the table is a longest-prefix map, whatever order `std::sort` leaves
among entries of equal priority.
-/

namespace Statim

open StatimField StatimTableId

namespace SwitchPipeline

/-! ## Keys -/

/-- The hash at position `i` that an entry matches exactly, if any. -/
def hashAt (nameHashes : Bytes) (i : Nat) : Option UInt8 :=
  nameHashes[i]?.filter (· != noHash)

theorem hashField_eq (hs : Bytes) (i : Nat) :
    hashField hs i = match hashAt hs i with
      | none => matchNameHashWildcard i
      | some hash => matchNameHash i hash := by
  unfold hashField hashAt
  cases hs[i]? with
  | none => rfl
  | some hash =>
      by_cases hff : hash = noHash
      · simp [hff, Option.filter_some]
      · simp [hff, Option.filter_some]

/-- A wildcard field differs from every exact one. -/
theorem hashField_eq_iff (hs hs' : Bytes) (i : Nat) :
    hashField hs i = hashField hs' i ↔ hashAt hs i = hashAt hs' i := by
  rw [hashField_eq, hashField_eq]
  cases hashAt hs i with
  | none =>
      cases hashAt hs' i with
      | none => simp
      | some b => simp [matchNameHashWildcard, matchNameHash, MatchField.any, MatchField.exactly]
  | some a =>
      cases hashAt hs' i with
      | none => simp [matchNameHashWildcard, matchNameHash, MatchField.any, MatchField.exactly]
      | some b =>
          simp only [matchNameHash, MatchField.exactly, MatchField.mk.injEq, true_and, and_true,
            Option.some.injEq]
          exact UInt8.toNat_inj

theorem sameField_hashField (hs hs' : Bytes) (i : Nat) :
    sameField (hashField hs i) (hashField hs' i) = true ↔ hashAt hs i = hashAt hs' i := by
  rw [hashField_eq, hashField_eq]
  cases hashAt hs i with
  | none =>
      cases hashAt hs' i with
      | none => simp [sameField, matchNameHashWildcard, MatchField.any]
      | some b =>
          simp [sameField, matchNameHashWildcard, matchNameHash, MatchField.any,
            MatchField.exactly]
  | some a =>
      cases hashAt hs' i with
      | none =>
          simp [sameField, matchNameHashWildcard, matchNameHash, MatchField.any,
            MatchField.exactly]
      | some b =>
          simp only [sameField, matchNameHash, MatchField.exactly, beq_self_eq_true,
            Bool.false_or, Bool.true_and, beq_iff_eq, Option.some.injEq]
          exact UInt8.toNat_inj

/-- Two hash tuples that the FIB does not tell apart. -/
def SameKey (hs hs' : Bytes) : Prop :=
  ∀ i < nameHashCount, hashAt hs i = hashAt hs' i

theorem fibMatchFields_eq_iff (hs hs' : Bytes) :
    fibMatchFields hs = fibMatchFields hs' ↔ SameKey hs hs' := by
  simp only [fibMatchFields, List.cons.injEq, true_and, List.map_inj_left, List.mem_range,
    hashField_eq_iff, SameKey]

theorem filter_take_eq (hs : Bytes) (n : Nat) :
    (hs.take n).filter (· != noHash) = (List.range n).filterMap (hashAt hs) := by
  induction n with
  | zero => simp
  | succ n ih =>
      rw [List.take_add_one, List.filter_append, ih, List.range_succ, List.filterMap_append]
      congr 1
      cases hn : hs[n]? with
      | none => simp [hashAt, hn]
      | some b => by_cases hb : b = noHash <;> simp [hashAt, hn, hb, Option.filter_some]

/-- The priority depends on the key only. -/
theorem SameKey.fibPriority_eq {hs hs' : Bytes} (h : SameKey hs hs') :
    fibPriority hs = fibPriority hs' := by
  rw [fibPriority, fibPriority, filter_take_eq, filter_take_eq]
  have hmap : (List.range nameHashCount).filterMap (hashAt hs) =
      (List.range nameHashCount).filterMap (hashAt hs') :=
    List.filterMap_congr fun i hi => h i (List.mem_range.mp hi)
  rw [hmap]

/-- `removeFibEntry` finds exactly the entries with the key it is given. -/
theorem isFibEntryFor_fibEntry (hs hs' : Bytes) (port : Port) (expiry : Time)
    (source : Option (Name × Nat)) :
    isFibEntryFor hs (fibEntry hs' port expiry source) = true ↔ SameKey hs' hs := by
  have hfields : ((fibMatchFields hs').zip (fibMatchFields hs)).all
      (fun ab => sameField ab.1 ab.2) = true ↔ SameKey hs' hs := by
    have htype : sameField matchTypeWildcard matchTypeWildcard = true := rfl
    simp only [fibMatchFields, List.zip_cons_cons, List.all_cons, htype, Bool.true_and,
      List.zip_map', List.all_map, List.all_eq_true, List.mem_range, Function.comp_apply,
      sameField_hashField]
    rfl
  simp only [isFibEntryFor, fibEntry, Bool.and_eq_true, beq_iff_eq, hfields]
  constructor
  · exact fun h => h.2
  · intro h
    exact ⟨⟨h.fibPriority_eq, by simp [fibMatchFields]⟩, h⟩

theorem isFibEntryFor_dropEntry (hs : Bytes) : isFibEntryFor hs dropEntry = false := by
  simp [isFibEntryFor, dropEntry, fibMatchFields]

/-! ## The invariant of the table -/

/-- Exact hashes come first and wildcards after them, as in every computed
tuple. -/
def Leading (hs : Bytes) : Prop :=
  ∀ i j, i ≤ j → j < nameHashCount → (hashAt hs j).isSome = true →
    (hashAt hs i).isSome = true

/-- The FIB table: sorted, with the default entry, and at most one entry for each
key. -/
structure FibInv (table : FlowTable) : Prop where
  sorted : table.Sorted
  default : dropEntry ∈ table.entries
  shape : ∀ e ∈ table.entries, e = dropEntry ∨
    ∃ hs port expiry source, Leading hs ∧ e = fibEntry hs port expiry source
  distinct : table.entries.Pairwise fun a b => a.matchFields ≠ b.matchFields

theorem FibInv.removeIf {table : FlowTable} (h : FibInv table) (hs : Bytes) :
    FibInv (table.removeIf (isFibEntryFor hs)) where
  sorted := h.sorted.removeIf _
  default := FlowTable.mem_removeIf.mpr ⟨h.default, isFibEntryFor_dropEntry hs⟩
  shape e he := h.shape e (FlowTable.mem_removeIf.mp he).1
  distinct := h.distinct.sublist List.filter_sublist

/-- The FIB table after `installFibEntry`. -/
def installed (std : EntrySort) (hs : Bytes) (port : Port) (expiry : Time)
    (source : Option (Name × Nat)) (table : FlowTable) : FlowTable :=
  (table.removeIf (isFibEntryFor hs)).addEntry std (fibEntry hs port expiry source)

variable {std : EntrySort} {hs : Bytes} {port : Port} {expiry : Time}
  {source : Option (Name × Nat)} {table : FlowTable}

/-- Installation replaces the entry of its key and keeps every other. -/
theorem FibInv.mem_installed (h : FibInv table) {e : FlowEntry} :
    e ∈ (installed std hs port expiry source table).entries ↔
      (e ∈ table.entries ∧ e.matchFields ≠ fibMatchFields hs) ∨
        e = fibEntry hs port expiry source := by
  rw [installed, FlowTable.mem_addEntry, FlowTable.mem_removeIf]
  refine or_congr_left (and_congr_right fun he => ?_)
  rcases h.shape e he with rfl | ⟨hs', port', expiry', source', -, rfl⟩
  · rw [isFibEntryFor_dropEntry]
    simp [dropEntry, fibMatchFields]
  · rw [← Bool.not_eq_true, isFibEntryFor_fibEntry, ← fibMatchFields_eq_iff]
    rfl

theorem FibInv.install (h : FibInv table) (hlead : Leading hs) :
    FibInv (installed std hs port expiry source table) where
  sorted := FlowTable.sorted_addEntry std _ _
  default := h.mem_installed.mpr (Or.inl ⟨h.default, by simp [dropEntry, fibMatchFields]⟩)
  shape e he := by
    rcases h.mem_installed.mp he with ⟨hold, -⟩ | rfl
    · exact h.shape e hold
    · exact Or.inr ⟨hs, port, expiry, source, hlead, rfl⟩
  distinct := by
    have hsymm : ∀ {a b : FlowEntry}, a.matchFields ≠ b.matchFields →
        b.matchFields ≠ a.matchFields := fun hne => Ne.symm hne
    refine ((std.perm _).pairwise_iff hsymm).mpr ?_
    rw [List.pairwise_append]
    refine ⟨(h.removeIf hs).distinct, by simp, ?_⟩
    intro a ha b hb
    rw [List.mem_singleton] at hb
    subst hb
    obtain ⟨ha, hpred⟩ := FlowTable.mem_removeIf.mp ha
    rcases h.shape a ha with rfl | ⟨hs', port', expiry', source', -, rfl⟩
    · simp [dropEntry, fibEntry, fibMatchFields]
    · rw [← Bool.not_eq_true, isFibEntryFor_fibEntry, ← fibMatchFields_eq_iff] at hpred
      exact hpred

/-! ## Lookup -/

/-- A header carries every hash that the tuple asks for. -/
def HeaderMatches (hs : Bytes) (header : PacketHeader) : Prop :=
  ∀ i < nameHashCount, ∀ b, hashAt hs i = some b → header.nameHashes[i]? = some b

theorem isMatch_hashField (hs : Bytes) (header : PacketHeader) {i : Nat}
    (hi : i < nameHashCount) :
    (hashField hs i).isMatch header.serialize = true ↔
      ∀ b, hashAt hs i = some b → header.nameHashes[i]? = some b := by
  have hlen := PacketHeader.length_serialize header
  unfold PacketHeader.serializedSize at hlen
  have hfits : ¬header.serialize.length < (56 + i * 8 + 8 + 7) / 8 := by
    unfold nameHashCount at hi
    omega
  rw [hashField_eq]
  cases hashAt hs i with
  | none => simp [matchNameHashWildcard, MatchField.any, MatchField.isMatch, hfits]
  | some hash =>
      have hbyte : MatchField.extractBits header.serialize (56 + i * 8) 8 =
          ((header.serialize[7 + i]?).getD 0).toNat := by
        rw [show 56 + i * 8 = 8 * (7 + i) by omega]
        exact MatchField.extractBits_byte _ _
      have hin : i < header.nameHashes.length := header.nameHashes_length.symm ▸ hi
      rw [PacketHeader.getElem?_serialize_nameHashes header hi,
        List.getElem?_eq_getElem hin, Option.getD_some] at hbyte
      simp only [matchNameHash, MatchField.exactly, MatchField.isMatch, hfits, hbyte,
        List.getElem?_eq_getElem hin, Option.some.injEq]
      rw [if_neg (by decide)]
      simp only [if_false, Bool.false_eq_true, beq_iff_eq, UInt8.toNat_inj, forall_eq']

theorem isExpired_fibEntry (hs : Bytes) (port : Port) (expiry now : Time)
    (source : Option (Name × Nat)) :
    (fibEntry hs port expiry source).isExpired now = true ↔ 0 < expiry ∧ expiry ≤ now := by
  by_cases hpos : 0 < expiry
  · simp [FlowEntry.isExpired, fibEntry, hpos]
  · simp [FlowEntry.isExpired, fibEntry, hpos]

/-- A FIB entry matches a header as long as it is not expired and its hashes agree. -/
theorem isMatch_fibEntry (hs : Bytes) (port : Port) (expiry now : Time)
    (source : Option (Name × Nat)) (header : PacketHeader) :
    (fibEntry hs port expiry source).isMatch now header.serialize = true ↔
      ¬(0 < expiry ∧ expiry ≤ now) ∧ HeaderMatches hs header := by
  have htype : matchTypeWildcard.isMatch header.serialize = true := by
    have hlen := PacketHeader.length_serialize header
    simp [matchTypeWildcard, MatchField.any, MatchField.isMatch, hlen,
      PacketHeader.serializedSize]
  rw [FlowEntry.isMatch, Bool.and_eq_true, Bool.not_eq_true', ← Bool.not_eq_true,
    isExpired_fibEntry]
  refine and_congr_right fun _ => ?_
  simp only [fibEntry, fibMatchFields, List.all_cons, htype, Bool.true_and, List.all_map,
    List.all_eq_true, List.mem_range, Function.comp_apply]
  exact forall_congr' fun i => forall_congr' fun hi => isMatch_hashField hs header hi

/-- In a leading tuple the exact hashes are those below their number. -/
theorem Leading.isSome_iff {hs : Bytes} (h : Leading hs) {n : Nat} (hn : n ≤ nameHashCount) :
    ((List.range n).filterMap (hashAt hs)).length ≤ n ∧
      ∀ i < n, ((hashAt hs i).isSome = true ↔
        i < ((List.range n).filterMap (hashAt hs)).length) := by
  induction n with
  | zero => simp
  | succ n ih =>
      obtain ⟨hle, hiff⟩ := ih (Nat.le_of_succ_le hn)
      rw [List.range_succ, List.filterMap_append, List.length_append]
      cases hlast : hashAt hs n with
      | none =>
          simp only [List.filterMap_cons, hlast, List.filterMap_nil, List.length_nil,
            Nat.add_zero]
          refine ⟨by omega, fun i hi => ?_⟩
          by_cases hin : i < n
          · exact hiff i hin
          · obtain rfl : i = n := by omega
            rw [hlast]
            simp only [Option.isSome_none, Bool.false_eq_true, false_iff]
            omega
      | some b =>
          -- the last hash is exact, so all those before it are
          have hall : ∀ i < n, (hashAt hs i).isSome = true := fun i hi =>
            h i n (Nat.le_of_lt hi) hn (by rw [hlast]; rfl)
          have hfull : ((List.range n).filterMap (hashAt hs)).length = n := by
            rcases Nat.eq_zero_or_pos n with rfl | hpos
            · omega
            · have := (hiff (n - 1) (by omega)).mp (hall (n - 1) (by omega))
              omega
          simp only [List.filterMap_cons, hlast, List.filterMap_nil, List.length_cons,
            List.length_nil, hfull]
          refine ⟨by omega, fun i hi => ?_⟩
          by_cases hin : i < n
          · exact ⟨fun _ => by omega, fun _ => hall i hin⟩
          · obtain rfl : i = n := by omega
            rw [hlast]
            simp

/-- Leading tuples of one priority that match one header have the same key. -/
theorem sameKey_of_priority {hs hs' : Bytes} (h : Leading hs) (h' : Leading hs')
    (hprio : fibPriority hs = fibPriority hs') {header : PacketHeader}
    (hm : HeaderMatches hs header) (hm' : HeaderMatches hs' header) : SameKey hs hs' := by
  intro i hi
  have hcount : ((List.range nameHashCount).filterMap (hashAt hs)).length =
      ((List.range nameHashCount).filterMap (hashAt hs')).length := by
    rw [fibPriority, fibPriority, filter_take_eq, filter_take_eq] at hprio
    omega
  have hsome : (hashAt hs i).isSome = true ↔ (hashAt hs' i).isSome = true := by
    rw [(h.isSome_iff (Nat.le_refl _)).2 i hi, (h'.isSome_iff (Nat.le_refl _)).2 i hi, hcount]
  cases ha : hashAt hs i with
  | none =>
      cases hb : hashAt hs' i with
      | none => rfl
      | some b =>
          rw [ha, hb] at hsome
          simp at hsome
  | some a =>
      cases hb : hashAt hs' i with
      | none =>
          rw [ha, hb] at hsome
          simp at hsome
      | some b => exact (hm i hi a ha).symm.trans (hm' i hi b hb)

theorem FibInv.eq_of_matchFields (h : FibInv table) {a b : FlowEntry} (ha : a ∈ table.entries)
    (hb : b ∈ table.entries) (heq : a.matchFields = b.matchFields) : a = b := by
  have hsymm : Std.Symm fun a b : FlowEntry => a.matchFields ≠ b.matchFields :=
    ⟨fun _ _ hne => Ne.symm hne⟩
  by_contra hne
  exact h.distinct.forall ha hb hne heq

/-- The longest live match of the table is the entry found. -/
theorem FibInv.lookup_eq (h : FibInv table) {now : Time} {header : PacketHeader}
    (hmem : fibEntry hs port expiry source ∈ table.entries) (hlead : Leading hs)
    (hlive : ¬(0 < expiry ∧ expiry ≤ now)) (hmatch : HeaderMatches hs header)
    (hlongest : ∀ e ∈ table.entries, e.isMatch now header.serialize = true →
      e.priority ≤ fibPriority hs) :
    table.lookup now header.serialize = some (fibEntry hs port expiry source) := by
  refine h.sorted.lookup_eq hmem ((isMatch_fibEntry ..).mpr ⟨hlive, hmatch⟩) ?_
  intro e he hem hprio
  refine h.eq_of_matchFields he hmem ?_
  rcases h.shape e he with rfl | ⟨hs', port', expiry', source', hlead', rfl⟩
  · simp only [dropEntry, fibEntry, fibPriority] at hprio
    omega
  · obtain ⟨-, hmatch'⟩ := (isMatch_fibEntry ..).mp hem
    have heq : fibPriority hs' = fibPriority hs := Nat.le_antisymm (hlongest _ he hem) hprio
    exact (fibMatchFields_eq_iff hs' hs).mpr
      (sameKey_of_priority hlead' hlead heq hmatch' hmatch)

/-! ## Tuples computed from names -/

section Names

variable (stdHash : Bytes → Nat)

theorem hashAt_hashesOf (name : Name) {i : Nat} (hi : i < nameHashCount) :
    hashAt (PacketHeader.hashesOf stdHash name) i =
      name[i]?.map (PacketHeader.computeComponentHash stdHash) := by
  rw [hashAt, PacketHeader.getElem?_hashesOf stdHash name hi]
  cases name[i]? with
  | none => simp [Option.filter_some]
  | some c =>
      have hne := PacketHeader.computeComponentHash_ne_noHash stdHash c
      simp [Option.filter_some, hne]

theorem leading_hashesOf (name : Name) : Leading (PacketHeader.hashesOf stdHash name) := by
  intro i j hij hj hsome
  rw [hashAt_hashesOf stdHash name hj, Option.isSome_map] at hsome
  rw [hashAt_hashesOf stdHash name (Nat.lt_of_le_of_lt hij hj), Option.isSome_map]
  have hlt : j < name.length := by simpa using hsome
  simpa using Nat.lt_of_le_of_lt hij hlt

/-- The tuple of a name matches the header of every name under it. -/
theorem headerMatches_of_prefix {p name : Name} (h : p <+: name) {header : PacketHeader}
    (hheader : header.nameHashes = PacketHeader.hashesOf stdHash name) :
    HeaderMatches (PacketHeader.hashesOf stdHash p) header := by
  intro i hi b hb
  rw [hashAt_hashesOf stdHash p hi] at hb
  obtain ⟨c, hc, rfl⟩ := Option.map_eq_some_iff.mp hb
  have hname : name[i]? = some c := by
    obtain ⟨rest, rfl⟩ := h
    rw [List.getElem?_append_left (List.getElem?_eq_some_iff.mp hc).1, hc]
  rw [hheader, PacketHeader.getElem?_hashesOf stdHash name hi, hname]
  rfl

/-- A tuple of up to four components matches only names under it, if the hash tells the
components apart. -/
theorem prefix_of_headerMatches {p name : Name} (hlen : p.length ≤ nameHashCount)
    (hapart : ∀ c ∈ p, ∀ c' ∈ name, PacketHeader.computeComponentHash stdHash c =
      PacketHeader.computeComponentHash stdHash c' → c = c') {header : PacketHeader}
    (hheader : header.nameHashes = PacketHeader.hashesOf stdHash name)
    (h : HeaderMatches (PacketHeader.hashesOf stdHash p) header) : p <+: name := by
  rw [List.prefix_iff_getElem?]
  intro i hi
  have hin : i < nameHashCount := Nat.lt_of_lt_of_le hi hlen
  have hhash : hashAt (PacketHeader.hashesOf stdHash p) i =
      some (PacketHeader.computeComponentHash stdHash p[i]) := by
    rw [hashAt_hashesOf stdHash p hin, List.getElem?_eq_getElem hi]
    rfl
  have hfound := h i hin _ hhash
  rw [hheader, PacketHeader.getElem?_hashesOf stdHash name hin] at hfound
  cases hname : name[i]? with
  | none =>
      rw [hname] at hfound
      have hfound := Option.some.inj hfound
      exact absurd hfound.symm (PacketHeader.computeComponentHash_ne_noHash stdHash p[i])
  | some c =>
      rw [hname] at hfound
      have hfound := Option.some.inj hfound
      exact congrArg some (hapart p[i] (List.getElem_mem hi) c (List.mem_of_getElem? hname)
        hfound.symm).symm

end Names

end SwitchPipeline

end Statim
