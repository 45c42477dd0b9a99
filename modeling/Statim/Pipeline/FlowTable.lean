import Mathlib.Data.List.Sort
import Statim.Name
import Statim.State.TemporaryForwardingTable

/-!
# Flow tables

Entries match header bits, most significant bit first, and carry lists of
actions.  A table is searched in priority order; the pipeline follows
`GOTO_TABLE` for at most 32 hops.  `std::sort` fixes no order among entries of
equal priority, so the sorting function is a parameter with its two guarantees.
-/

namespace Statim

/-! ## Matching -/

/-- `MatchField`; offset and length count bits. -/
structure MatchField where
  offset : Nat
  length : Nat
  value : Nat
  wildcard : Bool
deriving DecidableEq, Repr

namespace MatchField

def exactly (offset length value : Nat) : MatchField := ⟨offset, length, value, false⟩

/-- `MatchField::Wildcard`. -/
def any (offset length : Nat) : MatchField := ⟨offset, length, 0, true⟩

/-- Bit `pos` of a buffer. -/
def bitAt (buf : Bytes) (pos : Nat) : Bool :=
  (buf[pos / 8]?.getD 0).toNat.testBit (7 - pos % 8)

def extractBits (buf : Bytes) (startBit numBits : Nat) : Nat :=
  (List.range numBits).foldl (fun result i =>
    if bitAt buf (startBit + i) then result ||| (1 <<< (numBits - 1 - i)) else result) 0

/-- `MatchField::matches`. -/
def isMatch (field : MatchField) (buf : Bytes) : Bool :=
  if field.length = 0 ∨ 32 < field.length then false
  else if buf.length < (field.offset + field.length + 7) / 8 then false
  else if field.wildcard then true
  else extractBits buf field.offset field.length == field.value

end MatchField

/-! ## Actions and entries -/

inductive FlowAction
  | output (port : Port)
  | outputMulticast (port : Port)
  | gotoTable (tableId : Nat)
  | packetIn
  /-- Offset and length count bytes. -/
  | setField (offset length : Nat) (value : Bytes)
  | drop
deriving DecidableEq, Repr

structure FlowEntry where
  matchFields : List MatchField
  priority : Nat
  actions : List FlowAction
  expiry : Time := 0
  hasExpiry : Bool := false
  /-- Ghost: the route update the entry was installed for, by prefix and
  admission.  No function of the model reads it. -/
  source : Option (Name × Nat) := none
deriving DecidableEq, Repr

namespace FlowEntry

def isExpired (now : Time) (entry : FlowEntry) : Bool :=
  entry.hasExpiry && decide (entry.expiry ≤ now)

/-- `FlowEntry::matches`. -/
def isMatch (now : Time) (buf : Bytes) (entry : FlowEntry) : Bool :=
  !entry.isExpired now && entry.matchFields.all (·.isMatch buf)

end FlowEntry

/-- What `std::sort` by decreasing priority promises. -/
structure EntrySort where
  sort : List FlowEntry → List FlowEntry
  perm : ∀ entries, (sort entries).Perm entries
  sorted : ∀ entries, (sort entries).Pairwise fun a b => b.priority ≤ a.priority

/-- One stable way to sort. -/
def EntrySort.mergeSort : EntrySort where
  sort entries := entries.mergeSort fun a b => decide (b.priority ≤ a.priority)
  perm entries := List.mergeSort_perm entries _
  sorted entries := by
    refine (List.pairwise_mergeSort ?_ ?_ entries).imp of_decide_eq_true
    · intro a b c hab hbc
      exact decide_eq_true (Nat.le_trans (of_decide_eq_true hbc) (of_decide_eq_true hab))
    · intro a b
      simp only [Bool.or_eq_true, decide_eq_true_eq]
      omega

/-- `FlowTable`. -/
structure FlowTable where
  entries : List FlowEntry := []
deriving DecidableEq, Repr

namespace FlowTable

def addEntry (std : EntrySort) (entry : FlowEntry) (table : FlowTable) : FlowTable :=
  ⟨std.sort (table.entries ++ [entry])⟩

def removeIf (pred : FlowEntry → Bool) (table : FlowTable) : FlowTable :=
  ⟨table.entries.filter fun e => !pred e⟩

def lookup (now : Time) (buf : Bytes) (table : FlowTable) : Option FlowEntry :=
  table.entries.find? (·.isMatch now buf)

end FlowTable

/-! ## The pipeline -/

structure PipelineResult where
  matched : Bool := false
  packetIn : Bool := false
  dropped : Bool := false
  outputPorts : Std.TreeSet Port := ∅
  modifiedHeader : Bytes := []

/-- How the actions of an entry end: with `return`, or with the table to
continue at. -/
inductive ActionsEnd
  | returned (result : PipelineResult)
  | finished (next : Option Nat) (result : PipelineResult)

/-- Overwrite `value.take len` at `off`. -/
def overwrite (buf : Bytes) (off len : Nat) (value : Bytes) : Bytes :=
  buf.take off ++ value.take len ++ buf.drop (off + len)

/-- The action loop of `process`. -/
def runActions : List FlowAction → Option Nat → PipelineResult → ActionsEnd
  | [], next, r => .finished next r
  | .output port :: _, _, r =>
    .returned { r with outputPorts := r.outputPorts.insert port, dropped := false }
  | .outputMulticast port :: rest, next, r =>
    runActions rest next { r with outputPorts := r.outputPorts.insert port }
  | .gotoTable tableId :: rest, _, r => runActions rest (some tableId) r
  | .packetIn :: _, _, r => .returned { r with packetIn := true }
  | .setField off len value :: rest, next, r =>
    if r.modifiedHeader.length < off ∨ r.modifiedHeader.length - off < len ∨
        value.length < len then
      .returned { r with dropped := true, outputPorts := ∅ }
    else runActions rest next
      { r with modifiedHeader := overwrite r.modifiedHeader off len value }
  | .drop :: _, _, r => .returned { r with dropped := true }

/-- `FlowTablePipeline`; `addTable` keeps table identifiers unique, so the vector
of tables is a map. -/
structure FlowTablePipeline where
  tables : Std.TreeMap Nat FlowTable := ∅

namespace FlowTablePipeline

/-- `addTable`: an existing table is kept. -/
def addTable (tableId : Nat) (p : FlowTablePipeline) : FlowTablePipeline :=
  ⟨p.tables.insertIfNew tableId {}⟩

/-- Act on the table that the non-const `getTable` returns; it creates the table
if it is missing. -/
def updateTable (tableId : Nat) (f : FlowTable → FlowTable) (p : FlowTablePipeline) :
    FlowTablePipeline :=
  ⟨p.tables.insert tableId (f (p.tables[tableId]?.getD {}))⟩

/-- `MAX_HOPS`. -/
def maxHops : Nat := 32

/-- The hop loop of `process`. -/
def processFrom (p : FlowTablePipeline) (now : Time) :
    Nat → Nat → PipelineResult → PipelineResult
  | 0, _, r => { r with dropped := true }
  | hops + 1, tableId, r =>
    match p.tables[tableId]? with
    | none => { r with dropped := true }
    | some table =>
      match table.lookup now r.modifiedHeader with
      | none => { r with dropped := true }
      | some entry =>
        match runActions entry.actions none { r with matched := true } with
        | .returned r => r
        | .finished none r => if r.outputPorts.isEmpty then { r with dropped := true } else r
        | .finished (some next) r => processFrom p now hops next r

/-- `FlowTablePipeline::process`; a null buffer counts as an empty one. -/
def process (p : FlowTablePipeline) (now : Time) (header : Bytes) (startTableId : Nat) :
    PipelineResult :=
  if header = [] then { dropped := true }
  else processFrom p now maxHops startTableId { modifiedHeader := header }

end FlowTablePipeline

/-! ## Bits -/

namespace MatchField

theorem testBit_foldl_bits (bit : Nat → Bool) (n : Nat) {k : Nat} (hk : k ≤ n) (j : Nat) :
    ((List.range k).foldl (fun result i =>
      if bit i then result ||| (1 <<< (n - 1 - i)) else result) 0).testBit j =
      decide (n - k ≤ j ∧ j < n ∧ bit (n - 1 - j) = true) := by
  induction k with
  | zero =>
      simp only [List.range_zero, List.foldl_nil, Nat.zero_testBit]
      rw [eq_comm, decide_eq_false_iff_not]
      omega
  | succ k ih =>
      rw [List.range_succ, List.foldl_append, List.foldl_cons, List.foldl_nil]
      have ih := ih (Nat.le_of_succ_le hk)
      by_cases hbit : bit k = true
      · rw [if_pos hbit, Nat.testBit_or, ih, Nat.one_shiftLeft, Nat.testBit_two_pow]
        rw [Bool.eq_iff_iff]
        simp only [Bool.or_eq_true, decide_eq_true_eq]
        constructor
        · rintro (⟨hlo, hhi, hj⟩ | rfl)
          · exact ⟨by omega, hhi, hj⟩
          · exact ⟨by omega, by omega, by rwa [show n - 1 - (n - 1 - k) = k by omega]⟩
        · rintro ⟨hlo, hhi, hj⟩
          by_cases hlast : n - 1 - k = j
          · exact Or.inr hlast
          · exact Or.inl ⟨by omega, hhi, hj⟩
      · rw [if_neg hbit, ih, decide_eq_decide]
        constructor
        · rintro ⟨hlo, hhi, hj⟩
          exact ⟨by omega, hhi, hj⟩
        · rintro ⟨hlo, hhi, hj⟩
          refine ⟨?_, hhi, hj⟩
          by_contra hlt
          obtain rfl : k = n - 1 - j := by omega
          exact hbit hj

/-- The extracted number has the bits of the buffer, most significant first. -/
theorem testBit_extractBits (buf : Bytes) (start n j : Nat) :
    (extractBits buf start n).testBit j =
      decide (j < n ∧ bitAt buf (start + (n - 1 - j)) = true) := by
  rw [extractBits, testBit_foldl_bits (fun i => bitAt buf (start + i)) n (Nat.le_refl n)]
  simp

/-- A byte-aligned field of eight bits is the byte. -/
theorem extractBits_byte (buf : Bytes) (k : Nat) :
    extractBits buf (8 * k) 8 = (buf[k]?.getD 0).toNat := by
  refine Nat.eq_of_testBit_eq fun j => ?_
  rw [testBit_extractBits]
  by_cases hj : j < 8
  · have hdiv : (8 * k + (8 - 1 - j)) / 8 = k := by omega
    have hmod : 7 - (8 * k + (8 - 1 - j)) % 8 = j := by omega
    simp only [bitAt, hdiv, hmod, hj, true_and, Bool.decide_eq_true]
  · have hlt : (buf[k]?.getD 0).toNat < 2 ^ j :=
      Nat.lt_of_lt_of_le (UInt8.toNat_lt _) (Nat.pow_le_pow_right (by decide) (by omega))
    rw [Nat.testBit_lt_two_pow hlt]
    simp [hj]

end MatchField

/-! ## Lookups in sorted tables -/

namespace FlowTable

def Sorted (table : FlowTable) : Prop :=
  table.entries.Pairwise fun a b => b.priority ≤ a.priority

theorem sorted_addEntry (std : EntrySort) (e : FlowEntry) (table : FlowTable) :
    (table.addEntry std e).Sorted :=
  std.sorted _

theorem Sorted.removeIf {table : FlowTable} (h : table.Sorted) (pred : FlowEntry → Bool) :
    (table.removeIf pred).Sorted :=
  List.Pairwise.sublist List.filter_sublist h

theorem mem_addEntry {std : EntrySort} {e e' : FlowEntry} {table : FlowTable} :
    e' ∈ (table.addEntry std e).entries ↔ e' ∈ table.entries ∨ e' = e := by
  rw [addEntry, (std.perm _).mem_iff, List.mem_append, List.mem_singleton]

theorem mem_removeIf {pred : FlowEntry → Bool} {e : FlowEntry} {table : FlowTable} :
    e ∈ (table.removeIf pred).entries ↔ e ∈ table.entries ∧ pred e = false := by
  simp [removeIf]

/-- The first match of a sorted table has the highest priority of all matches. -/
theorem Sorted.priority_le {table : FlowTable} (h : table.Sorted) {now : Time} {buf : Bytes}
    {e e' : FlowEntry} (hlookup : table.lookup now buf = some e) (he' : e' ∈ table.entries)
    (hmatch : e'.isMatch now buf = true) : e'.priority ≤ e.priority := by
  obtain ⟨-, before, after, hsplit, hbefore⟩ := List.find?_eq_some_iff_append.mp hlookup
  rw [hsplit] at he'
  rcases List.mem_append.mp he' with hmem | hmem
  · have hnot := hbefore e' hmem
    simp [hmatch] at hnot
  · rcases List.mem_cons.mp hmem with rfl | hmem
    · exact Nat.le_refl _
    · unfold Sorted at h
      rw [hsplit] at h
      exact List.rel_of_pairwise_cons (List.pairwise_append.mp h).2.1 hmem

/-- A match above all other matches is the one found. -/
theorem Sorted.lookup_eq {table : FlowTable} (h : table.Sorted) {now : Time} {buf : Bytes}
    {e : FlowEntry} (he : e ∈ table.entries) (hmatch : e.isMatch now buf = true)
    (hbest : ∀ e' ∈ table.entries, e'.isMatch now buf = true → e.priority ≤ e'.priority →
      e' = e) : table.lookup now buf = some e := by
  cases hfound : table.lookup now buf with
  | none =>
      rw [lookup, List.find?_eq_none] at hfound
      exact absurd hmatch (hfound e he)
  | some e' =>
      have hmem : e' ∈ table.entries := List.mem_of_find?_eq_some hfound
      have hmatch' : e'.isMatch now buf = true := List.find?_some hfound
      rw [hbest e' hmem hmatch' (h.priority_le hfound he hmatch)]

end FlowTable

end Statim
