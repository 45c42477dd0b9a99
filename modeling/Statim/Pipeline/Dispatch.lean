import Mathlib.Data.List.Find
import Statim.Pipeline.FibTable
import Statim.Pipeline.HeaderCodec
import Statim.Support.OrderedSet

/-!
# What the pipeline does with a header

The set-up tables are known only up to the order `std::sort` leaves among
equal priorities.  Lookups in them do not depend on it, and the outcome of
`processPacket` follows: unprocessed packets go to the stateful module, a
nonzero bitmap is expanded to its ports, and an Interest without a bitmap is
decided by the FIB table.
-/

namespace Statim

open Support StatimField StatimTableId

/-! ## The set-up tables -/

namespace FlowTablePipeline

/-- The table exists, is sorted, and has exactly these entries. -/
def HasEntries (p : FlowTablePipeline) (tableId : Nat) (entries : List FlowEntry) : Prop :=
  ∃ table, p.tables[tableId]? = some table ∧ table.entries.Perm entries ∧ table.Sorted

variable {p : FlowTablePipeline} {i j : Nat} {entries : List FlowEntry}

theorem HasEntries.updateTable_of_ne (h : p.HasEntries i entries) (hij : j ≠ i)
    (f : FlowTable → FlowTable) : (p.updateTable j f).HasEntries i entries := by
  obtain ⟨table, htable, hrest⟩ := h
  exact ⟨table, by simpa [updateTable, Std.TreeMap.getElem?_insert, hij] using htable, hrest⟩

theorem HasEntries.addEntry (h : p.HasEntries i entries) (std : EntrySort) (e : FlowEntry) :
    (p.updateTable i (FlowTable.addEntry std e)).HasEntries i (entries ++ [e]) := by
  obtain ⟨table, htable, hperm, -⟩ := h
  refine ⟨table.addEntry std e, by simp [updateTable, htable], ?_, table.sorted_addEntry std e⟩
  exact (std.perm _).trans (hperm.append_right [e])

theorem HasEntries.addEntries (h : p.HasEntries i entries) (std : EntrySort)
    (new : List FlowEntry) :
    (SwitchPipeline.addEntries std i new p).HasEntries i (entries ++ new) := by
  induction new generalizing p entries with
  | nil => simpa [SwitchPipeline.addEntries] using h
  | cons e rest ih =>
      have hnext := ih (h.addEntry std e)
      rwa [List.append_assoc, List.singleton_append] at hnext

theorem HasEntries.addEntries_of_ne (h : p.HasEntries i entries) (hij : j ≠ i)
    (std : EntrySort) (new : List FlowEntry) :
    (SwitchPipeline.addEntries std j new p).HasEntries i entries := by
  induction new generalizing p with
  | nil => exact h
  | cons e rest ih => exact ih (h.updateTable_of_ne hij _)

/-- Filling distinct empty tables one after the other gives each its entries. -/
theorem HasEntries.fill (std : EntrySort) {fills : List (Nat × List FlowEntry)}
    (hdistinct : (fills.map Prod.fst).Nodup)
    (hempty : ∀ t ∈ fills, p.HasEntries t.1 []) :
    ∀ t ∈ fills, (fills.foldl (fun p t => SwitchPipeline.addEntries std t.1 t.2 p)
      p).HasEntries t.1 t.2 := by
  induction fills generalizing p with
  | nil => simp
  | cons t rest ih =>
      rw [List.map_cons, List.nodup_cons] at hdistinct
      obtain ⟨hnew, hdistinct⟩ := hdistinct
      have hkeep : ∀ {q : FlowTablePipeline}, q.HasEntries t.1 t.2 →
          ∀ (fills : List (Nat × List FlowEntry)), t.1 ∉ fills.map Prod.fst →
            (fills.foldl (fun p t => SwitchPipeline.addEntries std t.1 t.2 p)
              q).HasEntries t.1 t.2 := by
        intro q hq fills hfills
        induction fills generalizing q with
        | nil => exact hq
        | cons u rest ih =>
            rw [List.map_cons, List.mem_cons, not_or] at hfills
            exact ih (hq.addEntries_of_ne (Ne.symm hfills.1) std u.2) hfills.2
      intro u hu
      rcases List.mem_cons.mp hu with rfl | hu
      · refine hkeep ?_ rest hnew
        simpa using (hempty u List.mem_cons_self).addEntries std u.2
      · refine ih hdistinct (fun v hv => ?_) u hu
        refine (hempty v (List.mem_cons_of_mem t hv)).addEntries_of_ne ?_ std t.2
        rintro heq
        exact hnew (heq ▸ List.mem_map_of_mem hv)

end FlowTablePipeline

namespace SwitchPipeline

/-- Where byte table `k` continues. -/
def byteNext (k : Nat) : Option Nat := if k = 3 then none else some (53 + k)

/-- Apart from the default entry, the FIB table holds what `installFibEntry` wrote. -/
def FibShape (table : FlowTable) : Prop :=
  ∀ e ∈ table.entries, e = dropEntry ∨
    ∃ hs port expiry source, e = fibEntry hs port expiry source

/-- The tables that `initPipeline` sets up, with any routes in the FIB. -/
structure HasTables (sw : SwitchPipeline) : Prop where
  state : sw.pipeline.HasEntries ndnState stateEntries
  bytes : ∀ k < 4, sw.pipeline.HasEntries (52 + k) (initMulticastByteTable k (byteNext k))
  fib : ∃ table, sw.pipeline.tables[ndnFib]? = some table ∧ FibShape table

/-- A switch as `initPipeline` and later FIB changes leave it. -/
structure IsSwitch (sw : SwitchPipeline) : Prop where
  state : sw.pipeline.HasEntries ndnState stateEntries
  bytes : ∀ k < 4, sw.pipeline.HasEntries (52 + k) (initMulticastByteTable k (byteNext k))
  fib : ∃ table, sw.pipeline.tables[ndnFib]? = some table ∧ FibInv table

theorem FibInv.fibShape {table : FlowTable} (h : FibInv table) : FibShape table := by
  intro e he
  rcases h.shape e he with rfl | ⟨hs, port, expiry, source, -, rfl⟩
  · exact Or.inl rfl
  · exact Or.inr ⟨hs, port, expiry, source, rfl⟩

theorem IsSwitch.hasTables {sw : SwitchPipeline} (hsw : IsSwitch sw) : HasTables sw := by
  obtain ⟨table, htable, hinv⟩ := hsw.fib
  exact ⟨hsw.state, hsw.bytes, table, htable, hinv.fibShape⟩

theorem fibInv_default {table : FlowTable} (hperm : table.entries.Perm [dropEntry])
    (hsorted : table.Sorted) : FibInv table where
  sorted := hsorted
  default := by simp [hperm.mem_iff]
  shape e he := Or.inl (by simpa [hperm.mem_iff] using he)
  distinct := by
    rw [List.perm_singleton.mp hperm]
    exact List.pairwise_singleton _ _

theorem hasEntries_initPipeline (std : EntrySort) :
    ∀ t ∈ initialEntries, (initPipeline std).pipeline.HasEntries t.1 t.2 := by
  have hids : initialEntries.map Prod.fst = [50, 51, 52, 53, 54, 55] := rfl
  have hempty : ∀ t ∈ initialEntries, emptyTables.HasEntries t.1 [] := by
    intro t ht
    have htables : ∀ i ∈ [50, 51, 52, 53, 54, 55],
        emptyTables.tables[i]? = some { entries := [] } := by
      decide
    exact ⟨_, htables t.1 (hids ▸ List.mem_map_of_mem ht), List.Perm.nil, List.Pairwise.nil⟩
  have hdistinct : (initialEntries.map Prod.fst).Nodup := by
    rw [hids]
    decide
  have hfill := FlowTablePipeline.HasEntries.fill std hdistinct hempty
  intro t ht
  simpa only [initPipeline] using hfill t ht

theorem isSwitch_initPipeline (std : EntrySort) : IsSwitch (initPipeline std) := by
  have hall := hasEntries_initPipeline std
  simp only [initialEntries, List.forall_mem_cons] at hall
  obtain ⟨hstate, ⟨table, htable, hperm, hsorted⟩, h1, h2, h3, h4, -⟩ := hall
  refine ⟨hstate, fun k hk => ?_, table, htable, fibInv_default hperm hsorted⟩
  match k, hk with
  | 0, _ => exact h1
  | 1, _ => exact h2
  | 2, _ => exact h3
  | 3, _ => exact h4

/-- A new switch has no route. -/
theorem fib_initPipeline (std : EntrySort) : (initPipeline std).fib.entries = [dropEntry] := by
  have hall := hasEntries_initPipeline std
  simp only [initialEntries, List.forall_mem_cons] at hall
  obtain ⟨-, ⟨table, htable, hperm, -⟩, -⟩ := hall
  rw [fib, htable, Option.getD_some]
  exact List.perm_singleton.mp hperm

/-! ## Matching a serialized header -/

variable (h : PacketHeader)

theorem testBit_octet (word : UInt32) (i b : Nat) :
    (PacketHeader.octet word i).toNat.testBit b =
      (decide (b < 8) && word.toNat.testBit (24 - 8 * i + b)) := by
  rw [PacketHeader.octet, UInt8.toNat_ofNat', Nat.testBit_mod_two_pow, Nat.testBit_shiftRight]

theorem isMatch_matchType (value : UInt8) :
    (matchType value).isMatch h.serialize = decide (h.type = value) := by
  have hlen := PacketHeader.length_serialize h
  have hbyte := MatchField.extractBits_byte h.serialize 0
  rw [PacketHeader.getElem?_serialize_type] at hbyte
  simp only [Nat.mul_zero, Option.getD_some] at hbyte
  simp [matchType, MatchField.exactly, MatchField.isMatch, hlen, PacketHeader.serializedSize,
    hbyte, beq_eq_decide, UInt8.toNat_inj]

theorem isMatch_matchOutPortsWildcard : matchOutPortsWildcard.isMatch h.serialize = true := by
  have hlen := PacketHeader.length_serialize h
  simp [matchOutPortsWildcard, MatchField.any, MatchField.isMatch, hlen,
    PacketHeader.serializedSize]

/-- The bitmap field read as a number is the bitmap. -/
theorem extractBits_outPorts :
    MatchField.extractBits h.serialize 8 32 = h.outPorts.toNat := by
  have hlen := PacketHeader.length_serialize h
  have hfits : 8 + 32 ≤ 8 * h.serialize.length := by
    rw [hlen]
    decide
  rw [PacketHeader.extractBits_eq_slice hfits]
  exact (PacketHeader.slice_serialize h).2.1

theorem isMatch_matchOutPortsZero :
    matchOutPortsZero.isMatch h.serialize = decide (h.outPorts = 0) := by
  have hlen := PacketHeader.length_serialize h
  simp [matchOutPortsZero, MatchField.exactly, MatchField.isMatch, hlen,
    PacketHeader.serializedSize, extractBits_outPorts, beq_eq_decide, ← UInt32.toNat_inj]

theorem isMatch_matchOutPortByte {k : Nat} (hk : k < 4) (value : Nat) :
    (matchOutPortByte k value).isMatch h.serialize =
      decide ((PacketHeader.octet h.outPorts k).toNat = value) := by
  have hlen := PacketHeader.length_serialize h
  have hbyte := MatchField.extractBits_byte h.serialize (1 + k)
  rw [PacketHeader.getElem?_serialize_outPorts h hk, Option.getD_some] at hbyte
  have hfits : ¬h.serialize.length < (8 * (1 + k) + 8 + 7) / 8 := by
    rw [hlen, PacketHeader.serializedSize]
    omega
  have hfield : matchOutPortByte k value = .exactly (8 * (1 + k)) 8 value := by
    rw [matchOutPortByte, show 8 + k * 8 = 8 * (1 + k) by omega]
  rw [hfield]
  simp [MatchField.exactly, MatchField.isMatch, hfits, hbyte, beq_eq_decide]

/-! ## Lookups in the set-up tables -/

variable {sw : SwitchPipeline} (now : Time)

theorem isMatch_of_fields {e : FlowEntry} (hexpiry : e.hasExpiry = false) (buf : Bytes) :
    e.isMatch now buf = e.matchFields.all (·.isMatch buf) := by
  simp [FlowEntry.isMatch, FlowEntry.isExpired, hexpiry]

/-- An entry of the state table that wins against all others is found, wherever
sorting put it. -/
theorem HasTables.lookup_state (hsw : HasTables sw) {e : FlowEntry} (he : e ∈ stateEntries)
    (hmatch : e.isMatch now h.serialize = true)
    (hbest : ∀ e' ∈ stateEntries, e'.isMatch now h.serialize = true →
      e.priority ≤ e'.priority → e' = e) :
    ∃ table, sw.pipeline.tables[ndnState]? = some table ∧
      table.lookup now h.serialize = some e := by
  obtain ⟨table, htable, hperm, hsorted⟩ := hsw.state
  refine ⟨table, htable, hsorted.lookup_eq (hperm.mem_iff.mpr he) hmatch ?_⟩
  intro e' he'
  exact hbest e' (hperm.mem_iff.mp he')

/-- Byte table `k` finds the entry of its byte. -/
theorem HasTables.lookup_byte (hsw : HasTables sw) {k : Nat} (hk : k < 4) :
    ∃ table, sw.pipeline.tables[52 + k]? = some table ∧
      table.lookup now h.serialize =
        some (byteEntry k (byteNext k) (PacketHeader.octet h.outPorts k).toNat) := by
  obtain ⟨table, htable, hperm, hsorted⟩ := hsw.bytes k hk
  have hmatch : ∀ b, (byteEntry k (byteNext k) b).isMatch now h.serialize = true ↔
      (PacketHeader.octet h.outPorts k).toNat = b := by
    intro b
    rw [isMatch_of_fields now rfl]
    simp [byteEntry, isMatch_matchOutPortByte h hk]
  have hbyte : (PacketHeader.octet h.outPorts k).toNat < 256 := UInt8.toNat_lt _
  refine ⟨table, htable, hsorted.lookup_eq ?_ ((hmatch _).mpr rfl) ?_⟩
  · rw [hperm.mem_iff]
    exact List.mem_map_of_mem (List.mem_range.mpr hbyte)
  · intro e' he' hm _
    rw [hperm.mem_iff] at he'
    obtain ⟨b, -, rfl⟩ := List.mem_map.mp he'
    rw [(hmatch b).mp hm]

/-! ## Bitmaps -/

/-- The ports of a bitmap, in increasing order. -/
def maskPorts (mask : UInt32) : List Port :=
  (List.range' 1 32).filter fun (port : Nat) => mask.toNat.testBit (32 - port)

theorem mem_maskPorts {mask : UInt32} {port : Nat} :
    port ∈ maskPorts mask ↔
      1 ≤ port ∧ port ≤ 32 ∧ mask.toNat.testBit (32 - port) = true := by
  rw [maskPorts, List.mem_filter, List.mem_range'_1, and_assoc]
  refine and_congr_right fun _ => and_congr_left fun _ => ?_
  omega

theorem pairwise_maskPorts (mask : UInt32) : (maskPorts mask).Pairwise (· < ·) :=
  List.Pairwise.filter _ List.pairwise_lt_range'

theorem maskPorts_eq_nil_iff {mask : UInt32} : maskPorts mask = [] ↔ mask = 0 := by
  constructor
  · intro hnil
    rw [← UInt32.toNat_inj]
    refine Nat.eq_of_testBit_eq fun j => ?_
    rw [UInt32.toNat_zero, Nat.zero_testBit, ← Bool.not_eq_true]
    intro hbit
    have hj : j < 32 := by
      by_contra hge
      have hlt : mask.toNat < 2 ^ j :=
        Nat.lt_of_lt_of_le (UInt32.toNat_lt _) (Nat.pow_le_pow_right (by decide) (by omega))
      rw [Nat.testBit_lt_two_pow hlt] at hbit
      exact Bool.false_ne_true hbit
    have hmem : 32 - j ∈ maskPorts mask :=
      mem_maskPorts.mpr ⟨by omega, by omega, by rwa [show 32 - (32 - j) = j by omega]⟩
    rw [hnil] at hmem
    exact List.not_mem_nil hmem
  · rintro rfl
    rw [List.eq_nil_iff_forall_not_mem]
    intro port hport
    have hbit := (mem_maskPorts.mp hport).2.2
    simp at hbit

/-- Encoding sets the bits of the ports 1 to 32 and no others. -/
theorem testBit_encodeOutPortsMask (ports : List Nat) {j : Nat} (hj : j < 32) :
    (encodeOutPortsMask ports).toNat.testBit j = decide (32 - j ∈ ports) := by
  have hfold : ∀ mask : UInt32, (ports.foldl (fun mask (port : Nat) =>
      if 1 ≤ port ∧ port ≤ 32 then mask ||| (1 <<< UInt32.ofNat (32 - port))
      else mask) mask).toNat.testBit j = (mask.toNat.testBit j || decide (32 - j ∈ ports)) := by
    intro mask
    induction ports generalizing mask with
    | nil => simp
    | cons port rest ih =>
        rw [List.foldl_cons, ih]
        by_cases hport : 1 ≤ port ∧ port ≤ 32
        · have hbit : ((1 : UInt32) <<< UInt32.ofNat (32 - port)).toNat.testBit j =
              decide (32 - j = port) := by
            have hmod : (UInt32.ofNat (32 - port)).toNat % 32 = 32 - port := by
              rw [UInt32.toNat_ofNat', Nat.mod_mod_of_dvd _ (by decide)]
              omega
            rw [UInt32.toNat_shiftLeft, hmod, UInt32.toNat_one, Nat.one_shiftLeft,
              Nat.testBit_mod_two_pow, Nat.testBit_two_pow]
            simp only [hj, decide_true, Bool.true_and, decide_eq_decide]
            omega
          rw [if_pos hport, UInt32.toNat_or, Nat.testBit_or, hbit, Bool.or_assoc,
            ← Bool.decide_or]
          simp only [List.mem_cons]
        · rw [if_neg hport]
          have hne : 32 - j ≠ port := by omega
          simp [hne]
  rw [encodeOutPortsMask, hfold]
  simp

theorem mem_maskPorts_encodeOutPortsMask {ports : List Nat} {port : Nat} :
    port ∈ maskPorts (encodeOutPortsMask ports) ↔ 1 ≤ port ∧ port ≤ 32 ∧ port ∈ ports := by
  rw [mem_maskPorts]
  refine and_congr_right fun hlo => and_congr_right fun hhi => ?_
  rw [testBit_encodeOutPortsMask ports (by omega), decide_eq_true_eq,
    show 32 - (32 - port) = port by omega]

/-- Port sets within 1 to 32 survive the bitmap. -/
theorem maskPorts_encodeOutPortsMask {ports : List Nat} (hsorted : ports.Pairwise (· < ·))
    (hports : ∀ port ∈ ports, 1 ≤ port ∧ port ≤ 32) :
    maskPorts (encodeOutPortsMask ports) = ports := by
  refine eq_of_pairwise_lt (pairwise_maskPorts _) hsorted fun port => ?_
  rw [mem_maskPorts_encodeOutPortsMask]
  constructor
  · exact fun hport => hport.2.2
  · exact fun hport => ⟨(hports port hport).1, (hports port hport).2, hport⟩

/-! ## Outcomes -/

/-- The packet goes to exactly these ports, and is dropped if there are none. -/
structure SendsTo (r : PipelineResult) (ports : List Port) : Prop where
  packetIn : r.packetIn = false
  outputPorts : r.outputPorts.toList = ports
  dropped : r.dropped = decide (ports = [])

theorem runActions_multicast (ports : List Port) (rest : List FlowAction) (next : Option Nat)
    (r : PipelineResult) :
    runActions (ports.map .outputMulticast ++ rest) next r =
      runActions rest next { r with outputPorts := insertAll ports r.outputPorts } := by
  induction ports generalizing r with
  | nil => rfl
  | cons port ports ih =>
      rw [List.map_cons, List.cons_append, runActions, ih]
      rfl

/-- Resetting the type octet of a serialized header. -/
theorem runActions_setType (rest : List FlowAction) (next : Option Nat) (r : PipelineResult)
    (hheader : r.modifiedHeader = h.serialize) :
    runActions (.setField 0 1 [0x00] :: rest) next r =
      runActions rest next { r with modifiedHeader := (h.setType 0x00).serialize } := by
  have hlen : r.modifiedHeader.length = 12 := by
    rw [hheader]
    exact PacketHeader.length_serialize h
  rw [runActions, if_neg (by simp [hlen])]
  have hover : overwrite r.modifiedHeader 0 1 [0x00] = (h.setType 0x00).serialize := by
    rw [hheader]
    rfl
  rw [hover]

/-- The state of a run after byte table `k`. -/
def afterByte (k : Nat) (r : PipelineResult) : PipelineResult :=
  { r with
    matched := true
    modifiedHeader := (h.setType 0x00).serialize
    outputPorts := insertAll (bytePorts k (PacketHeader.octet h.outPorts k).toNat)
      r.outputPorts }

theorem HasTables.processFrom_byte (hsw : HasTables sw) {k : Nat} (hk : k < 4) (hops : Nat)
    {r : PipelineResult} (hheader : r.modifiedHeader = h.serialize) :
    sw.pipeline.processFrom now (hops + 1) (52 + k) r =
      match byteNext k with
      | none =>
        if (afterByte h k r).outputPorts.isEmpty then { afterByte h k r with dropped := true }
        else afterByte h k r
      | some next => sw.pipeline.processFrom now hops next (afterByte h k r) := by
  obtain ⟨table, htable, hlookup⟩ := hsw.lookup_byte h now hk
  rw [FlowTablePipeline.processFrom]
  simp only [htable, hheader, hlookup, byteEntry, List.cons_append]
  rw [runActions_setType h _ _ _ (by rfl), runActions_multicast]
  cases byteNext k with
  | none => rfl
  | some next => rfl

theorem mem_bytePorts {k b port : Nat} :
    port ∈ bytePorts k b ↔ 8 * k < port ∧ port ≤ 8 * k + 8 ∧
      b.testBit (8 * k + 8 - port) = true := by
  simp only [bytePorts, List.mem_map, List.mem_filter, List.mem_cons, List.not_mem_nil, or_false]
  constructor
  · rintro ⟨i, ⟨hi, hbit⟩, rfl⟩
    refine ⟨by omega, by omega, ?_⟩
    rwa [show 8 * k + 8 - (k * 8 + i) = 8 - i by omega]
  · rintro ⟨hlo, hhi, hbit⟩
    refine ⟨port - 8 * k, ⟨by omega, ?_⟩, by omega⟩
    rwa [show 8 - (port - 8 * k) = 8 * k + 8 - port by omega]

/-- Byte `k` of the bitmap stands for its ports `8 * k + 1` to `8 * k + 8`. -/
theorem mem_bytePorts_octet (mask : UInt32) {k port : Nat} (hk : k < 4) :
    port ∈ bytePorts k (PacketHeader.octet mask k).toNat ↔
      8 * k < port ∧ port ≤ 8 * k + 8 ∧ port ∈ maskPorts mask := by
  rw [mem_bytePorts]
  refine and_congr_right fun hlo => and_congr_right fun hhi => ?_
  have hlow : 8 * k + 8 - port < 8 := by omega
  rw [testBit_octet, mem_maskPorts, decide_eq_true hlow, Bool.true_and,
    show 24 - 8 * k + (8 * k + 8 - port) = 32 - port by omega]
  constructor
  · exact fun hbit => ⟨by omega, by omega, hbit⟩
  · exact fun hbit => hbit.2.2

/-- The byte tables expand the whole bitmap. -/
theorem HasTables.sendsTo_bytes (hsw : HasTables sw) {hops : Nat} {r : PipelineResult}
    (hheader : r.modifiedHeader = h.serialize) (hports : r.outputPorts = ∅)
    (hin : r.packetIn = false) (hdropped : r.dropped = false) :
    SendsTo (sw.pipeline.processFrom now (hops + 4) multiByte1 r) (maskPorts h.outPorts) := by
  have h0 := hsw.processFrom_byte h now (k := 0) (by decide) (hops + 3) hheader
  have h1 := hsw.processFrom_byte (h.setType 0x00) now (k := 1) (by decide) (hops + 2)
    (r := afterByte h 0 r) rfl
  have h2 := hsw.processFrom_byte (h.setType 0x00) now (k := 2) (by decide) (hops + 1)
    (r := afterByte (h.setType 0x00) 1 (afterByte h 0 r)) rfl
  have h3 := hsw.processFrom_byte (h.setType 0x00) now (k := 3) (by decide) hops
    (r := afterByte (h.setType 0x00) 2 (afterByte (h.setType 0x00) 1 (afterByte h 0 r))) rfl
  have hrun := ((h0.trans h1).trans h2).trans h3
  rw [show (multiByte1 : Nat) = 52 + 0 from rfl, hrun]
  -- the four bytes together cover the ports 1 to 32
  have hmem : ∀ port, port ∈ (afterByte (h.setType 0x00) 3 (afterByte (h.setType 0x00) 2
      (afterByte (h.setType 0x00) 1 (afterByte h 0 r)))).outputPorts ↔
      port ∈ maskPorts h.outPorts := by
    intro port
    have hmask : (h.setType 0x00).outPorts = h.outPorts := rfl
    simp only [afterByte, mem_insertAll, hports, hmask, Std.TreeSet.not_mem_emptyc, or_false]
    rw [mem_bytePorts_octet _ (by decide), mem_bytePorts_octet _ (by decide),
      mem_bytePorts_octet _ (by decide), mem_bytePorts_octet _ (by decide)]
    constructor
    · rintro (hp | hp | hp | hp) <;> exact hp.2.2
    · intro hp
      have hrange := mem_maskPorts.mp hp
      rcases Nat.lt_or_ge 24 port with h24 | h24
      · exact Or.inl ⟨by omega, by omega, hp⟩
      · rcases Nat.lt_or_ge 16 port with h16 | h16
        · exact Or.inr (Or.inl ⟨by omega, by omega, hp⟩)
        · rcases Nat.lt_or_ge 8 port with h8 | h8
          · exact Or.inr (Or.inr (Or.inl ⟨by omega, by omega, hp⟩))
          · exact Or.inr (Or.inr (Or.inr ⟨by omega, by omega, hp⟩))
  have hlist := toList_eq (pairwise_maskPorts h.outPorts) hmem
  simp only [byteNext, if_true]
  split
  · next hempty => exact ⟨hin, hlist, by simp [← hlist, isEmpty_iff_toList.mp hempty]⟩
  · next hempty =>
      refine ⟨hin, hlist, hdropped.trans (decide_eq_false ?_).symm⟩
      rw [← hlist, ← isEmpty_iff_toList]
      exact hempty

/-! ## Dispatch on the packet type -/

theorem processPacket_eq : sw.processPacket now h =
    sw.pipeline.processFrom now 32 ndnState { modifiedHeader := h.serialize } := by
  have hlen := PacketHeader.length_serialize h
  have hne : h.serialize ≠ [] := by
    intro hnil
    rw [hnil] at hlen
    exact absurd hlen (by decide)
  rw [processPacket, processBuffer, if_neg (by rw [hlen]; decide),
    FlowTablePipeline.process, if_neg hne]
  rfl

/-- `StatimPort::STATEFUL_MODULE` gets every unprocessed packet. -/
theorem HasTables.sendsTo_unprocessed (hsw : HasTables sw)
    (htype : h.type = PacketType.unprocessed) :
    SendsTo (sw.processPacket now h) [statefulModule] := by
  obtain ⟨table, htable, hlookup⟩ := hsw.lookup_state h now
    (e := { matchFields := [matchType PacketType.unprocessed, matchOutPortsWildcard]
            priority := 4000
            actions := [.output statefulModule] })
    (by simp [stateEntries])
    (by simp [isMatch_of_fields, isMatch_matchType, isMatch_matchOutPortsWildcard, htype])
    (by simp [stateEntries, isMatch_of_fields, isMatch_matchType, htype, PacketType.unprocessed,
          PacketType.interest, PacketType.data, PacketType.control,
          PacketType.selfLearningDiscovery])
  rw [processPacket_eq h now, FlowTablePipeline.processFrom]
  simp only [htable, hlookup, runActions]
  exact ⟨rfl, toList_insert_empty _, rfl⟩

/-- Data follows its bitmap. -/
theorem HasTables.sendsTo_data (hsw : HasTables sw) (htype : h.type = PacketType.data) :
    SendsTo (sw.processPacket now h) (maskPorts h.outPorts) := by
  obtain ⟨table, htable, hlookup⟩ := hsw.lookup_state h now
    (e := { matchFields := [matchType PacketType.data, matchOutPortsWildcard]
            priority := 4000
            actions := [.gotoTable multiByte1] })
    (by simp [stateEntries])
    (by simp [isMatch_of_fields, isMatch_matchType, isMatch_matchOutPortsWildcard, htype])
    (by simp [stateEntries, isMatch_of_fields, isMatch_matchType, htype, PacketType.unprocessed,
          PacketType.interest, PacketType.data, PacketType.control,
          PacketType.selfLearningDiscovery])
  rw [processPacket_eq h now, FlowTablePipeline.processFrom]
  simp only [htable, hlookup, runActions]
  exact hsw.sendsTo_bytes h now rfl rfl rfl rfl

/-- An Interest with a bitmap follows it, whatever the FIB holds. -/
theorem HasTables.sendsTo_interest_mask (hsw : HasTables sw)
    (htype : h.type = PacketType.interest) (hmask : h.outPorts ≠ 0) :
    SendsTo (sw.processPacket now h) (maskPorts h.outPorts) := by
  obtain ⟨table, htable, hlookup⟩ := hsw.lookup_state h now
    (e := { matchFields := [matchType PacketType.interest, matchOutPortsWildcard]
            priority := 4000
            actions := [.gotoTable multiByte1] })
    (by simp [stateEntries])
    (by simp [isMatch_of_fields, isMatch_matchType, isMatch_matchOutPortsWildcard, htype])
    (by simp [stateEntries, isMatch_of_fields, isMatch_matchType, isMatch_matchOutPortsZero,
          htype, hmask, PacketType.unprocessed, PacketType.interest, PacketType.data,
          PacketType.control, PacketType.selfLearningDiscovery])
  rw [processPacket_eq h now, FlowTablePipeline.processFrom]
  simp only [htable, hlookup, runActions]
  exact hsw.sendsTo_bytes h now rfl rfl rfl rfl

/-- The ports of the FIB entry that a header finds. -/
def fibPorts (now : Time) (h : PacketHeader) (sw : SwitchPipeline) : List Port :=
  match sw.fib.lookup now h.serialize with
  | none => []
  | some e => e.actions.filterMap fun
    | .outputMulticast port => some port
    | _ => none

/-- The FIB table sends a packet where the entry it finds says, and resets its type. -/
theorem HasTables.sendsTo_fib (hsw : HasTables sw) (hops : Nat) :
    SendsTo (sw.pipeline.processFrom now (hops + 1) ndnFib
      { matched := true, modifiedHeader := h.serialize }) (sw.fibPorts now h) := by
  obtain ⟨fibTable, hfib, hinv⟩ := hsw.fib
  rw [FlowTablePipeline.processFrom]
  simp only [hfib, fibPorts, SwitchPipeline.fib, Option.getD_some]
  cases hfound : fibTable.lookup now h.serialize with
  | none => exact ⟨rfl, rfl, rfl⟩
  | some e =>
      rcases hinv e (List.mem_of_find?_eq_some hfound) with
        rfl | ⟨hs, port, expiry, source, rfl⟩
      · exact ⟨rfl, rfl, rfl⟩
      · simp only [fibEntry]
        rw [runActions_setType h _ _ _ (by rfl)]
        simp only [runActions]
        have hempty : (Std.TreeSet.insert (∅ : Std.TreeSet Port) port).isEmpty = false :=
          isEmpty_eq_false_iff.mpr ⟨port, by simp [Std.TreeSet.mem_insert]⟩
        simp only [hempty, Bool.false_eq_true, if_false]
        exact ⟨rfl, toList_insert_empty port, rfl⟩

/-- An Interest without a bitmap is decided by the FIB table. -/
theorem HasTables.sendsTo_interest_fib (hsw : HasTables sw)
    (htype : h.type = PacketType.interest) (hmask : h.outPorts = 0) :
    SendsTo (sw.processPacket now h) (sw.fibPorts now h) := by
  obtain ⟨table, htable, hlookup⟩ := hsw.lookup_state h now
    (e := { matchFields := [matchType PacketType.interest, matchOutPortsZero]
            priority := 4500
            actions := [.gotoTable ndnFib] })
    (by simp [stateEntries])
    (by simp [isMatch_of_fields, isMatch_matchType, isMatch_matchOutPortsZero, htype, hmask])
    (by simp [stateEntries, isMatch_of_fields, isMatch_matchType, htype, PacketType.unprocessed,
          PacketType.interest, PacketType.data, PacketType.control,
          PacketType.selfLearningDiscovery])
  rw [processPacket_eq h now, FlowTablePipeline.processFrom]
  simp only [htable, hlookup, runActions]
  exact hsw.sendsTo_fib h now 30

/-- Discovery packets are decided by the FIB table, whatever their bitmap. -/
theorem HasTables.sendsTo_selfLearningDiscovery (hsw : HasTables sw)
    (htype : h.type = PacketType.selfLearningDiscovery) :
    SendsTo (sw.processPacket now h) (sw.fibPorts now h) := by
  obtain ⟨table, htable, hlookup⟩ := hsw.lookup_state h now
    (e := { matchFields := [matchType PacketType.selfLearningDiscovery, matchOutPortsWildcard]
            priority := 3000
            actions := [.gotoTable ndnFib] })
    (by simp [stateEntries])
    (by simp [isMatch_of_fields, isMatch_matchType, isMatch_matchOutPortsWildcard, htype])
    (by simp [stateEntries, isMatch_of_fields, isMatch_matchType, htype, PacketType.unprocessed,
          PacketType.interest, PacketType.data, PacketType.control,
          PacketType.selfLearningDiscovery])
  rw [processPacket_eq h now, FlowTablePipeline.processFrom]
  simp only [htable, hlookup, runActions]
  exact hsw.sendsTo_fib h now 30

/-- The packet is handed to the controller and goes to no port. -/
structure RaisesPacketIn (r : PipelineResult) : Prop where
  packetIn : r.packetIn = true
  outputPorts : r.outputPorts.toList = []
  dropped : r.dropped = false

/-- Control packets are handed to the controller. -/
theorem HasTables.raisesPacketIn_control (hsw : HasTables sw)
    (htype : h.type = PacketType.control) : RaisesPacketIn (sw.processPacket now h) := by
  obtain ⟨table, htable, hlookup⟩ := hsw.lookup_state h now
    (e := { matchFields := [matchType PacketType.control, matchOutPortsWildcard]
            priority := 3500
            actions := [.packetIn] })
    (by simp [stateEntries])
    (by simp [isMatch_of_fields, isMatch_matchType, isMatch_matchOutPortsWildcard, htype])
    (by simp [stateEntries, isMatch_of_fields, isMatch_matchType, htype, PacketType.unprocessed,
          PacketType.interest, PacketType.data, PacketType.control,
          PacketType.selfLearningDiscovery])
  rw [processPacket_eq h now, FlowTablePipeline.processFrom]
  simp only [htable, hlookup, runActions]
  exact ⟨rfl, rfl, rfl⟩

/-- A type that no entry of the state table asks for is dropped. -/
theorem HasTables.sendsTo_of_unknown (hsw : HasTables sw)
    (htype : PacketType.isValid h.type = false) : SendsTo (sw.processPacket now h) [] := by
  obtain ⟨table, htable, hperm, -⟩ := hsw.state
  have hmiss : table.lookup now h.serialize = none := by
    rw [FlowTable.lookup, List.find?_eq_none]
    intro e he
    rw [hperm.mem_iff] at he
    simp only [PacketType.isValid, Bool.or_eq_false_iff, beq_eq_false_iff_ne] at htype
    obtain ⟨⟨⟨⟨h0, h1⟩, h2⟩, h3⟩, h5⟩ := htype
    simp only [stateEntries, List.mem_cons, List.not_mem_nil, or_false] at he
    rcases he with rfl | rfl | rfl | rfl | rfl | rfl
    all_goals
      simp [isMatch_of_fields, isMatch_matchType, PacketType.unprocessed, PacketType.interest,
        PacketType.data, PacketType.control, PacketType.selfLearningDiscovery, h0, h1, h2, h3, h5]
  rw [processPacket_eq h now, FlowTablePipeline.processFrom]
  simp only [htable, hmiss]
  exact ⟨rfl, rfl, rfl⟩

/-- The FIB looks at the name hashes of a header and at nothing else. -/
theorem HasTables.fibPorts_congr (hsw : HasTables sw) {h h' : PacketHeader}
    (hhashes : h.nameHashes = h'.nameHashes) : sw.fibPorts now h = sw.fibPorts now h' := by
  obtain ⟨table, htable, hinv⟩ := hsw.fib
  have hlookup : table.lookup now h.serialize = table.lookup now h'.serialize := by
    refine List.find?_congr fun e he => ?_
    rcases hinv e he with rfl | ⟨hs, port, expiry, source, rfl⟩
    · rfl
    · rw [Bool.eq_iff_iff, isMatch_fibEntry, isMatch_fibEntry]
      simp only [HeaderMatches, hhashes]
  rw [fibPorts, fibPorts, SwitchPipeline.fib, htable, Option.getD_some, hlookup]

/-! ## FIB changes -/

theorem IsSwitch.removeFibEntry (hsw : IsSwitch sw) (hs : Bytes) :
    IsSwitch (sw.removeFibEntry hs) := by
  obtain ⟨table, htable, hinv⟩ := hsw.fib
  refine ⟨hsw.state.updateTable_of_ne (by decide) _, fun k hk =>
    (hsw.bytes k hk).updateTable_of_ne ?_ _, table.removeIf (isFibEntryFor hs), ?_,
    hinv.removeIf hs⟩
  · simp only [ndnFib]
    omega
  · simp [SwitchPipeline.removeFibEntry, FlowTablePipeline.updateTable, htable]

theorem IsSwitch.fib_removeFibEntry (hsw : IsSwitch sw) (hs : Bytes) :
    (sw.removeFibEntry hs).fib = sw.fib.removeIf (isFibEntryFor hs) := by
  obtain ⟨table, htable, -⟩ := hsw.fib
  simp [SwitchPipeline.fib, SwitchPipeline.removeFibEntry, FlowTablePipeline.updateTable, htable]

theorem IsSwitch.fib_installFibEntry (hsw : IsSwitch sw) (std : EntrySort) (hs : Bytes)
    (port : Port) (expiry : Time) (source : Option (Name × Nat)) :
    (sw.installFibEntry std hs port expiry source).fib =
      installed std hs port expiry source sw.fib := by
  obtain ⟨table, htable, -⟩ := hsw.fib
  simp [SwitchPipeline.fib, installFibEntry, SwitchPipeline.removeFibEntry, installed,
    FlowTablePipeline.updateTable, htable]

theorem IsSwitch.installFibEntry (hsw : IsSwitch sw) (std : EntrySort) {hs : Bytes}
    (hlead : Leading hs) (port : Port) (expiry : Time) (source : Option (Name × Nat)) :
    IsSwitch (sw.installFibEntry std hs port expiry source) := by
  have hrem := hsw.removeFibEntry hs
  obtain ⟨table, htable, hinv⟩ := hsw.fib
  refine ⟨hrem.state.updateTable_of_ne (by decide) _, fun k hk =>
    (hrem.bytes k hk).updateTable_of_ne ?_ _, installed std hs port expiry source table, ?_,
    hinv.install hlead⟩
  · simp only [ndnFib]
    omega
  · simp [SwitchPipeline.installFibEntry, SwitchPipeline.removeFibEntry,
      FlowTablePipeline.updateTable, installed, htable]

/-- Any tuple may be removed or installed without touching the other tables. -/
theorem HasTables.removeFibEntry (hsw : HasTables sw) (hs : Bytes) :
    HasTables (sw.removeFibEntry hs) := by
  obtain ⟨table, htable, hshape⟩ := hsw.fib
  refine ⟨hsw.state.updateTable_of_ne (by decide) _, fun k hk =>
    (hsw.bytes k hk).updateTable_of_ne ?_ _, table.removeIf (isFibEntryFor hs), ?_, ?_⟩
  · simp only [ndnFib]
    omega
  · simp [SwitchPipeline.removeFibEntry, FlowTablePipeline.updateTable, htable]
  · intro e he
    exact hshape e (FlowTable.mem_removeIf.mp he).1

theorem HasTables.installFibEntry (hsw : HasTables sw) (std : EntrySort) (hs : Bytes)
    (port : Port) (expiry : Time) (source : Option (Name × Nat)) :
    HasTables (sw.installFibEntry std hs port expiry source) := by
  have hrem := hsw.removeFibEntry hs
  obtain ⟨table, htable, hshape⟩ := hrem.fib
  refine ⟨hrem.state.updateTable_of_ne (by decide) _, fun k hk =>
    (hrem.bytes k hk).updateTable_of_ne ?_ _,
    table.addEntry std (fibEntry hs port expiry source), ?_, ?_⟩
  · simp only [ndnFib]
    omega
  · simp [SwitchPipeline.installFibEntry, FlowTablePipeline.updateTable, htable]
  · intro e he
    rcases FlowTable.mem_addEntry.mp he with he | rfl
    · exact hshape e he
    · exact Or.inr ⟨hs, port, expiry, source, rfl⟩

theorem IsSwitch.fibInv (hsw : IsSwitch sw) : FibInv sw.fib := by
  obtain ⟨table, htable, hinv⟩ := hsw.fib
  rwa [SwitchPipeline.fib, htable, Option.getD_some]

end SwitchPipeline

end Statim
