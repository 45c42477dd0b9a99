import Statim.Pipeline.FlowTable
import Statim.Support.OrderedSet

/-!
# Dropped or forwarded

A packet's way through the tables ends with an output, a packet-in, the last action of
an entry without a `GOTO_TABLE`, or with one of five reasons to drop it.  The ports of
`OUTPUT_MULTICAST` actions are collected on the way.  Only a malformed `SET_FIELD`
clears them again; the other ways to drop a packet leave them in the result.
-/

namespace Statim

open Support

/-- How the way of a packet ends. -/
inductive Exit
  | output (port : Port)
  | packetIn
  /-- The actions of an entry end without a `GOTO_TABLE`. -/
  | settled
  | badWrite
  | drop
  | miss
  | missingTable
  | hopBound
deriving DecidableEq, Repr

namespace Exit

/-- A reason to drop the packet that leaves the collected ports in the result. -/
def LeavesPorts (exit : Exit) : Prop :=
  exit = .drop ∨ exit = .miss ∨ exit = .missingTable ∨ exit = .hopBound

instance (exit : Exit) : Decidable exit.LeavesPorts :=
  inferInstanceAs (Decidable (_ ∨ _ ∨ _ ∨ _))

/-- Whether a packet that has collected `ports` is dropped. -/
def drops (ports : List Port) : Exit → Bool
  | .output _ | .packetIn => false
  | .settled => ports.isEmpty
  | .badWrite | .drop | .miss | .missingTable | .hopBound => true

/-- The ports in the result of a packet that has collected `ports`. -/
def outputs (ports : List Port) : Exit → List Port
  | .output port => port :: ports
  | .badWrite => []
  | .packetIn | .settled | .drop | .miss | .missingTable | .hopBound => ports

end Exit

/-! ## The way of a packet -/

/-- The multicast ports of the actions that are carried out, and how these end: with the
packet's way, or with the table to continue at and the header so far. -/
def walkActions : List FlowAction → Option Nat → Bytes →
    List Port × (Exit ⊕ (Option Nat × Bytes))
  | [], next, header => ([], .inr (next, header))
  | .output port :: _, _, _ => ([], .inl (.output port))
  | .outputMulticast port :: rest, next, header =>
    (port :: (walkActions rest next header).1, (walkActions rest next header).2)
  | .gotoTable tableId :: rest, _, header => walkActions rest (some tableId) header
  | .packetIn :: _, _, _ => ([], .inl .packetIn)
  | .setField off len value :: rest, next, header =>
    if header.length < off ∨ header.length - off < len ∨ value.length < len then
      ([], .inl .badWrite)
    else walkActions rest next (overwrite header off len value)
  | .drop :: _, _, _ => ([], .inl .drop)

/-- The multicast ports on the way of a packet, and its end. -/
def walk (p : FlowTablePipeline) (now : Time) : Nat → Nat → Bytes → List Port × Exit
  | 0, _, _ => ([], .hopBound)
  | hops + 1, tableId, header =>
    match p.tables[tableId]? with
    | none => ([], .missingTable)
    | some table =>
      match table.lookup now header with
      | none => ([], .miss)
      | some entry =>
        match walkActions entry.actions none header with
        | (ports, .inl exit) => (ports, exit)
        | (ports, .inr (none, _)) => (ports, .settled)
        | (ports, .inr (some next, header)) =>
          (ports ++ (walk p now hops next header).1, (walk p now hops next header).2)

namespace FlowTablePipeline

variable {p : FlowTablePipeline} {now : Time} {header : Bytes} {start : Nat}
  {r : PipelineResult} {seen : List Port}

/-! ## The result follows the way -/

/-- A packet on its way that has collected `seen`. -/
structure Collects (seen : List Port) (r : PipelineResult) : Prop where
  packetIn : r.packetIn = false
  dropped : r.dropped = false
  ports : ∀ port, port ∈ r.outputPorts ↔ port ∈ seen

/-- The result of a packet that has collected `seen` and ends by `exit`. -/
structure Verdict (seen : List Port) (exit : Exit) (r : PipelineResult) : Prop where
  packetIn : r.packetIn = decide (exit = .packetIn)
  dropped : r.dropped = exit.drops seen
  ports : ∀ port, port ∈ r.outputPorts ↔ port ∈ exit.outputs seen

theorem length_overwrite {buf value : Bytes} {off len : Nat}
    (h : ¬(buf.length < off ∨ buf.length - off < len ∨ value.length < len)) :
    (overwrite buf off len value).length = buf.length := by
  simp only [overwrite, List.length_append, List.length_take, List.length_drop]
  omega

theorem Collects.insert (h : Collects seen r) (port : Port) :
    Collects (seen ++ [port]) { r with outputPorts := r.outputPorts.insert port } where
  packetIn := h.packetIn
  dropped := h.dropped
  ports q := by
    rw [mem_insert_iff, h.ports, List.mem_append, List.mem_singleton, or_comm]

/-- The packet is dropped, and the ports stay. -/
theorem Collects.drop (h : Collects seen r) (exit : Exit) (hdrops : exit.drops seen = true)
    (houtputs : exit.outputs seen = seen) : Verdict seen exit { r with dropped := true } where
  packetIn := by
    rw [h.packetIn, eq_comm, decide_eq_false_iff_not]
    rintro rfl
    cases hdrops
  dropped := hdrops.symm
  ports := by
    rw [houtputs]
    exact h.ports

/-- The actions of an entry end without a `GOTO_TABLE`. -/
theorem Collects.settle (h : Collects seen r) :
    Verdict seen .settled (if r.outputPorts.isEmpty then { r with dropped := true } else r) := by
  have hempty : r.outputPorts.isEmpty = seen.isEmpty := by
    rw [Bool.eq_iff_iff, Std.TreeSet.isEmpty_iff_forall_not_mem, List.isEmpty_iff,
      List.eq_nil_iff_forall_not_mem]
    simp only [h.ports]
  split
  next hnone => exact h.drop .settled (hempty.symm.trans hnone) rfl
  next hsome =>
    rw [hempty, Bool.not_eq_true] at hsome
    exact ⟨h.packetIn, h.dropped.trans hsome.symm, h.ports⟩

/-- What the actions of one entry do to a packet. -/
theorem runActions_walk (h : Collects seen r) (actions : List FlowAction) (next : Option Nat) :
    match walkActions actions next r.modifiedHeader with
    | (ports, .inl exit) => ∃ r', runActions actions next r = .returned r' ∧
        Verdict (seen ++ ports) exit r' ∧ r'.modifiedHeader.length = r.modifiedHeader.length
    | (ports, .inr (next', header)) => ∃ r', runActions actions next r = .finished next' r' ∧
        Collects (seen ++ ports) r' ∧ r'.modifiedHeader = header ∧
        header.length = r.modifiedHeader.length := by
  induction actions generalizing next r seen with
  | nil =>
      refine ⟨r, rfl, ?_, rfl, rfl⟩
      rwa [List.append_nil]
  | cons action rest ih =>
      cases action with
      | output port =>
          refine ⟨_, rfl, ⟨h.packetIn, rfl, fun q => ?_⟩, rfl⟩
          rw [mem_insert_iff, h.ports, List.append_nil]
          exact List.mem_cons.symm
      | outputMulticast port =>
          have hrest := ih (h.insert port) next
          simp only [walkActions]
          rcases hwalk : walkActions rest next r.modifiedHeader with
            ⟨ports, exit | ⟨next', header⟩⟩
          · simpa [hwalk, runActions] using hrest
          · simpa [hwalk, runActions] using hrest
      | gotoTable tableId => exact ih h (some tableId)
      | packetIn =>
          refine ⟨_, rfl, ⟨rfl, h.dropped, fun q => ?_⟩, rfl⟩
          simp [Exit.outputs, h.ports]
      | setField off len value =>
          by_cases hbad : r.modifiedHeader.length < off ∨ r.modifiedHeader.length - off < len ∨
              value.length < len
          · simp only [walkActions, runActions, if_pos hbad]
            refine ⟨_, rfl, ⟨h.packetIn, rfl, fun q => ?_⟩, rfl⟩
            simp [Exit.outputs]
          · have hlength := length_overwrite hbad
            have hrest := ih (r := { r with
              modifiedHeader := overwrite r.modifiedHeader off len value })
              ⟨h.packetIn, h.dropped, h.ports⟩ next
            simp only [walkActions, runActions, if_neg hbad]
            simpa [hlength] using hrest
      | drop =>
          refine ⟨_, rfl, ⟨h.packetIn, rfl, fun q => ?_⟩, rfl⟩
          simp [Exit.outputs, h.ports]

/-- The result of the pipeline is the verdict on the packet's way. -/
theorem processFrom_walk (h : Collects seen r) (hops tableId : Nat) :
    Verdict (seen ++ (walk p now hops tableId r.modifiedHeader).1)
        (walk p now hops tableId r.modifiedHeader).2 (processFrom p now hops tableId r) ∧
      (processFrom p now hops tableId r).modifiedHeader.length = r.modifiedHeader.length := by
  induction hops generalizing tableId r seen with
  | zero =>
      rw [walk, processFrom, List.append_nil]
      exact ⟨h.drop .hopBound rfl rfl, rfl⟩
  | succ hops ih =>
      cases htable : p.tables[tableId]? with
      | none =>
          simp only [walk, processFrom, htable, List.append_nil]
          exact ⟨h.drop .missingTable rfl rfl, trivial⟩
      | some table =>
      cases hlookup : table.lookup now r.modifiedHeader with
      | none =>
          simp only [walk, processFrom, htable, hlookup, List.append_nil]
          exact ⟨h.drop .miss rfl rfl, trivial⟩
      | some entry =>
        simp only [walk, processFrom, htable, hlookup]
        have hmatched : Collects seen { r with matched := true } :=
          ⟨h.packetIn, h.dropped, h.ports⟩
        have hactions := runActions_walk hmatched entry.actions none
        rcases hwalk : walkActions entry.actions none r.modifiedHeader with
          ⟨ports, exit | ⟨_ | next, header⟩⟩
        · simp only [hwalk] at hactions
          obtain ⟨r', hrun, hverdict, hlength⟩ := hactions
          rw [hrun]
          exact ⟨hverdict, hlength⟩
        · simp only [hwalk] at hactions
          obtain ⟨r', hrun, hcollects, rfl, hlength⟩ := hactions
          rw [hrun]
          refine ⟨hcollects.settle, ?_⟩
          simp only
          split
          · exact hlength
          · exact hlength
        · simp only [hwalk] at hactions
          obtain ⟨r', hrun, hcollects, rfl, hlength⟩ := hactions
          rw [hrun]
          obtain ⟨hverdict, hlength'⟩ := ih hcollects next
          rw [List.append_assoc] at hverdict
          exact ⟨hverdict, hlength'.trans hlength⟩

/-! ## One verdict -/

/-- The packet is dropped or forwarded and not both, and its header keeps its length. -/
structure OneVerdict (header : Bytes) (r : PipelineResult) : Prop where
  length : header ≠ [] → r.modifiedHeader.length = header.length
  dropped : r.dropped = true → r.outputPorts.isEmpty = true ∧ r.packetIn = false
  forwarded : r.dropped = false → r.packetIn = true ∨ r.outputPorts.isEmpty = false

/-- An `OUTPUT_MULTICAST` action is carried out on a way that ends with a `DROP` action, a
table miss, a missing table or the hop bound. -/
def DropsAfterMulticast (p : FlowTablePipeline) (now : Time) (header : Bytes) (start : Nat) :
    Prop :=
  header ≠ [] ∧ (walk p now maxHops start header).1 ≠ [] ∧
    (walk p now maxHops start header).2.LeavesPorts

instance (p : FlowTablePipeline) (now : Time) (header : Bytes) (start : Nat) :
    Decidable (DropsAfterMulticast p now header start) :=
  inferInstanceAs (Decidable (_ ∧ _ ∧ _))

theorem Verdict.oneVerdict_iff {exit : Exit} (h : Verdict seen exit r) :
    ((r.dropped = true → r.outputPorts.isEmpty = true ∧ r.packetIn = false) ∧
      (r.dropped = false → r.packetIn = true ∨ r.outputPorts.isEmpty = false)) ↔
      ¬(seen ≠ [] ∧ exit.LeavesPorts) := by
  have hempty : r.outputPorts.isEmpty = (exit.outputs seen).isEmpty := by
    rw [Bool.eq_iff_iff, Std.TreeSet.isEmpty_iff_forall_not_mem, List.isEmpty_iff,
      List.eq_nil_iff_forall_not_mem]
    simp only [h.ports]
  rw [h.packetIn, h.dropped, hempty]
  cases exit <;> cases seen <;> simp [Exit.drops, Exit.outputs, Exit.LeavesPorts]

/-- A result is either dropped or forwarded if and only if no multicast output is carried
out before the packet is dropped, a malformed `SET_FIELD` apart. -/
theorem dropped_xor_forwarded (p : FlowTablePipeline) (now : Time) (header : Bytes)
    (start : Nat) : OneVerdict header (p.process now header start) ↔
      ¬DropsAfterMulticast p now header start := by
  by_cases hempty : header = []
  · have hresult : p.process now header start = { dropped := true } := if_pos hempty
    rw [hresult]
    refine iff_of_true ⟨fun hne => absurd hempty hne, fun _ => ⟨rfl, rfl⟩, nofun⟩ ?_
    exact fun hdrops => hdrops.1 hempty
  · have hresult : p.process now header start =
        processFrom p now maxHops start { modifiedHeader := header } := if_neg hempty
    have hstart : Collects [] { modifiedHeader := header } :=
      ⟨rfl, rfl, fun port => by simp⟩
    obtain ⟨hverdict, hlength⟩ :
        Verdict ([] ++ (walk p now maxHops start header).1) (walk p now maxHops start header).2
            (processFrom p now maxHops start { modifiedHeader := header }) ∧ _ :=
      processFrom_walk hstart maxHops start
    rw [List.nil_append] at hverdict
    rw [hresult, DropsAfterMulticast, and_iff_right hempty, ← hverdict.oneVerdict_iff]
    exact ⟨fun hone => ⟨hone.dropped, hone.forwarded⟩, fun hboth =>
      ⟨fun _ => hlength, hboth.1, hboth.2⟩⟩

/-- An entry that sends a packet to port 1 and then drops it. -/
def leakyEntry : FlowEntry where
  matchFields := []
  priority := 0
  actions := [.outputMulticast 1, .drop]

/-- It is the only entry of the only table. -/
def leakyPipeline : FlowTablePipeline := updateTable 0 (fun _ => ⟨[leakyEntry]⟩) {}

theorem not_oneVerdict_leakyPipeline :
    (leakyPipeline.process 0 [0xab] 0).dropped = true ∧
      (leakyPipeline.process 0 [0xab] 0).outputPorts.toList = [1] ∧
      ¬OneVerdict [0xab] (leakyPipeline.process 0 [0xab] 0) := by
  refine ⟨by decide, by decide, fun hone => ?_⟩
  exact absurd (hone.dropped (by decide)).1 (by decide)

end FlowTablePipeline

end Statim
