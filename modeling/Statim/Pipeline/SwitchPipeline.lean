import Statim.Pipeline.FlowTable
import Statim.Pipeline.PacketHeader

/-!
# The switch pipeline

`SwitchPipeline` sets up six tables: the state table dispatches on the packet
type, the FIB table maps component hashes to output ports, and the four byte
tables turn the output bitmap into multicast actions.
-/

namespace Statim

/-- `StatimPort::STATEFUL_MODULE`. -/
def statefulModule : Port := 0xFFFF

namespace StatimTableId

def ndnState : Nat := 50
def ndnFib : Nat := 51
def multiByte1 : Nat := 52
def multiByte2 : Nat := 53
def multiByte3 : Nat := 54
def multiByte4 : Nat := 55

end StatimTableId

/-! ## Match fields of the Statim header -/

namespace StatimField

def matchType (value : UInt8) : MatchField := .exactly 0 8 value.toNat

def matchTypeWildcard : MatchField := .any 0 8

def matchOutPortsZero : MatchField := .exactly 8 32 0

def matchOutPortsWildcard : MatchField := .any 8 32

/-- `matchOutPortByte`; the callers keep `byteIdx` below four. -/
def matchOutPortByte (byteIdx value : Nat) : MatchField := .exactly (8 + byteIdx * 8) 8 value

/-- `matchNameHash`; the callers keep `idx` below four. -/
def matchNameHash (idx : Nat) (hash : UInt8) : MatchField :=
  .exactly (56 + idx * 8) 8 hash.toNat

def matchNameHashWildcard (idx : Nat) : MatchField := .any (56 + idx * 8) 8

end StatimField

open StatimField StatimTableId

structure SwitchPipeline where
  pipeline : FlowTablePipeline := {}

namespace SwitchPipeline

/-! ## Set-up -/

/-- The entries of the state table, in the order of `initPipeline`. -/
def stateEntries : List FlowEntry :=
  [{ matchFields := [matchType PacketType.interest, matchOutPortsZero]
     priority := 4500
     actions := [.gotoTable ndnFib] },
   { matchFields := [matchType PacketType.unprocessed, matchOutPortsWildcard]
     priority := 4000
     actions := [.output statefulModule] },
   { matchFields := [matchType PacketType.interest, matchOutPortsWildcard]
     priority := 4000
     actions := [.gotoTable multiByte1] },
   { matchFields := [matchType PacketType.data, matchOutPortsWildcard]
     priority := 4000
     actions := [.gotoTable multiByte1] },
   { matchFields := [matchType PacketType.control, matchOutPortsWildcard]
     priority := 3500
     actions := [.packetIn] },
   { matchFields := [matchType PacketType.selfLearningDiscovery, matchOutPortsWildcard]
     priority := 3000
     actions := [.gotoTable ndnFib] }]

/-- The default entry of the FIB table. -/
def dropEntry : FlowEntry where
  matchFields := []
  priority := 0
  actions := [.drop]

/-- The ports that byte `byteIndex` of the bitmap stands for. -/
def bytePorts (byteIndex byteVal : Nat) : List Nat :=
  ([1, 2, 3, 4, 5, 6, 7, 8].filter fun i => byteVal.testBit (8 - i)).map fun i =>
    byteIndex * 8 + i

/-- One entry of a byte table; `next` is the table to continue at. -/
def byteEntry (byteIndex : Nat) (next : Option Nat) (byteVal : Nat) : FlowEntry where
  matchFields := [matchOutPortByte byteIndex byteVal]
  priority := 3000
  actions := .setField 0 1 [0x00] :: (bytePorts byteIndex byteVal).map .outputMulticast ++
    (match next with
      | none => []
      | some tableId => [.gotoTable tableId])

/-- Add entries one after the other. -/
def addEntries (std : EntrySort) (tableId : Nat) (entries : List FlowEntry)
    (p : FlowTablePipeline) : FlowTablePipeline :=
  entries.foldl (fun p e => p.updateTable tableId (FlowTable.addEntry std e)) p

/-- The entries that `initMulticastByteTable` adds, for the byte values 0 to 255;
`next = none` is the last table. -/
def initMulticastByteTable (byteIndex : Nat) (next : Option Nat) : List FlowEntry :=
  (List.range 256).map (byteEntry byteIndex next)

/-- The six tables before any entry is added. -/
def emptyTables : FlowTablePipeline :=
  [ndnState, ndnFib, multiByte1, multiByte2, multiByte3, multiByte4].foldl
    (fun p tableId => p.addTable tableId) {}

/-- The entries that `initPipeline` adds to each table. -/
def initialEntries : List (Nat × List FlowEntry) :=
  [(ndnState, stateEntries),
   (ndnFib, [dropEntry]),
   (multiByte1, initMulticastByteTable 0 (some multiByte2)),
   (multiByte2, initMulticastByteTable 1 (some multiByte3)),
   (multiByte3, initMulticastByteTable 2 (some multiByte4)),
   (multiByte4, initMulticastByteTable 3 none)]

/-- `SwitchPipeline::initPipeline` on a new switch. -/
def initPipeline (std : EntrySort) : SwitchPipeline :=
  ⟨initialEntries.foldl (fun p t => addEntries std t.1 t.2 p) emptyTables⟩

/-! ## Processing -/

/-- `processPacket` on a header buffer. -/
def processBuffer (sw : SwitchPipeline) (now : Time) (header : Bytes) : PipelineResult :=
  if header.length < PacketHeader.serializedSize then { dropped := true }
  else sw.pipeline.process now header ndnState

/-- `SwitchPipeline::processPacket`. -/
def processPacket (sw : SwitchPipeline) (now : Time) (header : PacketHeader) :
    PipelineResult :=
  sw.processBuffer now header.serialize

/-! ## The flow-table FIB -/

/-- `fibPriority`. -/
def fibPriority (nameHashes : Bytes) : Nat :=
  2000 + (((nameHashes.take nameHashCount).filter (· != noHash)).length) * 1000

/-- The name-hash fields of a FIB entry; absent hashes and `0xff` are wildcards. -/
def hashField (nameHashes : Bytes) (i : Nat) : MatchField :=
  match nameHashes[i]? with
  | none => matchNameHashWildcard i
  | some hash => if hash ≠ noHash then matchNameHash i hash else matchNameHashWildcard i

/-- The match fields that `installFibEntry` writes and `removeFibEntry` expects. -/
def fibMatchFields (nameHashes : Bytes) : List MatchField :=
  matchTypeWildcard :: (List.range nameHashCount).map (hashField nameHashes)

/-- The entry that `installFibEntry` adds. -/
def fibEntry (nameHashes : Bytes) (outputPort : Port) (expiry : Time)
    (source : Option (Name × Nat)) : FlowEntry where
  matchFields := fibMatchFields nameHashes
  priority := fibPriority nameHashes
  actions := [.setField 0 1 [0x00], .outputMulticast outputPort]
  expiry := if 0 < expiry then expiry else 0
  hasExpiry := decide (0 < expiry)
  source := source

/-- Two match fields agree as far as `removeFibEntry` compares them. -/
def sameField (a b : MatchField) : Bool :=
  a.wildcard == b.wildcard && (a.wildcard || a.value == b.value)

/-- The predicate of `removeFibEntry`. -/
def isFibEntryFor (nameHashes : Bytes) (e : FlowEntry) : Bool :=
  e.priority == fibPriority nameHashes &&
    e.matchFields.length == (fibMatchFields nameHashes).length &&
    (e.matchFields.zip (fibMatchFields nameHashes)).all fun ab => sameField ab.1 ab.2

def removeFibEntry (nameHashes : Bytes) (sw : SwitchPipeline) : SwitchPipeline :=
  ⟨sw.pipeline.updateTable ndnFib (FlowTable.removeIf (isFibEntryFor nameHashes))⟩

/-- `installFibEntry`; `source` is ghost. -/
def installFibEntry (std : EntrySort) (nameHashes : Bytes) (outputPort : Port)
    (expiry : Time) (source : Option (Name × Nat)) (sw : SwitchPipeline) : SwitchPipeline :=
  let sw := removeFibEntry nameHashes sw
  ⟨sw.pipeline.updateTable ndnFib
    (FlowTable.addEntry std (fibEntry nameHashes outputPort expiry source))⟩

/-- The flow-table FIB. -/
def fib (sw : SwitchPipeline) : FlowTable := sw.pipeline.tables[ndnFib]?.getD {}

/-- `FibLookupDiagnostic`. -/
structure FibLookupDiagnostic where
  matched : Bool := false
  matchLength : Nat := 0
  outputPort : Port := 0
deriving DecidableEq, Repr

/-- The port of an output action. -/
def outputPortOf : FlowAction → Option Port
  | .output port => some port
  | .outputMulticast port => some port
  | _ => none

/-- What `diagnoseFibLookup` reports of the entry it finds. -/
def diagnose (entry : FlowEntry) : FibLookupDiagnostic :=
  match entry.actions.findSome? outputPortOf with
  | none => {}
  | some port =>
    { matched := true
      outputPort := port
      matchLength := (entry.matchFields.drop 1).countP fun field => !field.wildcard }

/-- `diagnoseFibLookup`; `none` is the `std::out_of_range` of a switch without its
tables. -/
def diagnoseFibLookup (sw : SwitchPipeline) (now : Time) (header : PacketHeader) :
    Option FibLookupDiagnostic :=
  sw.pipeline.tables[ndnFib]?.map fun table =>
    match table.lookup now header.serialize with
    | none => {}
    | some entry => diagnose entry

end SwitchPipeline

/-- `StatefulForwarder::encodeOutPortsMask`. -/
def encodeOutPortsMask (ports : List Port) : UInt32 :=
  ports.foldl (fun mask (port : Nat) =>
    if 1 ≤ port ∧ port ≤ 32 then mask ||| (1 <<< UInt32.ofNat (32 - port)) else mask) 0

end Statim
