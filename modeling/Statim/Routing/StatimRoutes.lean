import Mathlib.Data.UInt
import Statim.Pipeline.FibHistory
import Statim.Routing.GlobalRouter
import Statim.Support.Walks

/-!
# Routes to the origins

`StatimHelper::CalculateStatimRoutes` searches the graph of the global routers from each
node with an engine and installs an entry for each prefix of each router that it finds.
The entry names the port of the first face on the way.  Entries of the same hashes
replace each other, so the order in which the routers are listed matters, and every
engine installs its own routes alone.  Interests still reach an origin.
-/

namespace Statim

open Support SwitchPipeline

variable {N C D F : Type}

/-! ## Ports -/

/-- The ports of an engine and their devices. -/
structure PortTable (D : Type) where
  portToDevice : Port → Option D := fun _ => none
  deviceToPort : D → Option Port := fun _ => none
  nextPort : Port := 1

namespace PortTable

variable {table : PortTable D} {device : D} {n : ℕ}

def addDevice [DecidableEq D] (device : D) (table : PortTable D) : PortTable D where
  portToDevice := Function.update table.portToDevice table.nextPort (some device)
  deviceToPort := Function.update table.deviceToPort device (some table.nextPort)
  nextPort := (table.nextPort + 1) % 2 ^ 16

def getDevice (table : PortTable D) (port : Port) : Option D := table.portToDevice port

def getPort (table : PortTable D) (device : D) : Port := (table.deviceToPort device).getD 0

@[simp] theorem portToDevice_addDevice [DecidableEq D] (device : D) (table : PortTable D) :
    (table.addDevice device).portToDevice =
      Function.update table.portToDevice table.nextPort (some device) := rfl

@[simp] theorem deviceToPort_addDevice [DecidableEq D] (device : D) (table : PortTable D) :
    (table.addDevice device).deviceToPort =
      Function.update table.deviceToPort device (some table.nextPort) := rfl

/-- A table after at most `n` additions. -/
structure Numbered (n : ℕ) (table : PortTable D) : Prop where
  nextPort : table.nextPort ≤ n + 1
  back : ∀ device port, table.deviceToPort device = some port →
    port < table.nextPort ∧ table.portToDevice port = some device

theorem numbered_empty : Numbered 0 ({} : PortTable D) :=
  ⟨Nat.le_refl 1, fun _ _ h => nomatch h⟩

theorem Numbered.addDevice [DecidableEq D] (h : Numbered n table) (hn : n < 65534) (device : D) :
    Numbered (n + 1) (table.addDevice device) := by
  have hnext : (table.addDevice device).nextPort = table.nextPort + 1 :=
    Nat.mod_eq_of_lt (Nat.lt_of_le_of_lt (Nat.succ_le_succ h.nextPort) (by omega))
  refine ⟨by rw [hnext]; exact Nat.succ_le_succ h.nextPort, fun device' port hport => ?_⟩
  rw [hnext]
  by_cases hdevice : device' = device
  · subst hdevice
    rw [deviceToPort_addDevice, Function.update_self, Option.some.injEq] at hport
    subst hport
    exact ⟨Nat.lt_succ_self _, Function.update_self _ _ _⟩
  · rw [deviceToPort_addDevice, Function.update_of_ne hdevice] at hport
    obtain ⟨hlt, hback⟩ := h.back device' port hport
    refine ⟨Nat.lt_succ_of_lt hlt, ?_⟩
    rw [portToDevice_addDevice, Function.update_of_ne (Nat.ne_of_lt hlt), hback]

theorem Numbered.getDevice_getPort (h : Numbered n table)
    (hdevice : (table.deviceToPort device).isSome) :
    table.getDevice (table.getPort device) = some device := by
  obtain ⟨port, hport⟩ := Option.isSome_iff_exists.mp hdevice
  rw [getPort, hport]
  exact (h.back device port hport).2

end PortTable

/-- `L3Protocol::addFace`, at a node with an engine. -/
def addFace [DecidableEq D] (topo : Topology N C D F) (table : PortTable D) (face : F) :
    PortTable D :=
  match topo.netDevice face with
  | none => table
  | some nd => table.addDevice nd

/-- The port table of a node with an engine. -/
def portTable [DecidableEq D] (topo : Topology N C D F) (node : N) : PortTable D :=
  (topo.registeredFaces node).foldl (addFace topo) {}

section Ports

variable [DecidableEq D] {topo : Topology N C D F} {table : PortTable D} {n : ℕ}

theorem numbered_foldl_addFace (topo : Topology N C D F) (faces : List F)
    (h : PortTable.Numbered n table) (hn : n + faces.length < 65535) :
    PortTable.Numbered (n + faces.length) (faces.foldl (addFace topo) table) ∧
      (∀ device, (table.deviceToPort device).isSome →
        ((faces.foldl (addFace topo) table).deviceToPort device).isSome) ∧
        ∀ face ∈ faces, ∀ device, topo.netDevice face = some device →
          ((faces.foldl (addFace topo) table).deviceToPort device).isSome := by
  induction faces generalizing n table with
  | nil => exact ⟨h, fun _ hdevice => hdevice, fun _ hface => absurd hface List.not_mem_nil⟩
  | cons face faces ih =>
      rw [List.length_cons] at hn
      have hface : PortTable.Numbered (n + 1) (addFace topo table face) ∧
          (∀ device, (table.deviceToPort device).isSome →
            ((addFace topo table face).deviceToPort device).isSome) ∧
            ∀ device, topo.netDevice face = some device →
              ((addFace topo table face).deviceToPort device).isSome := by
        unfold addFace
        cases hdevice : topo.netDevice face with
        | none =>
            refine ⟨⟨Nat.le_succ_of_le h.nextPort, h.back⟩, fun _ hsome => hsome, ?_⟩
            intro device hsome
            cases hsome
        | some nd =>
            refine ⟨h.addDevice (by omega) nd, fun device hsome => ?_, fun device hsome => ?_⟩
            · by_cases heq : device = nd
              · rw [PortTable.deviceToPort_addDevice, heq, Function.update_self]
                rfl
              · rw [PortTable.deviceToPort_addDevice, Function.update_of_ne heq]
                exact hsome
            · cases hsome
              rw [PortTable.deviceToPort_addDevice, Function.update_self]
              rfl
      obtain ⟨hnumbered, hkept, hnew⟩ := ih hface.1 (by omega)
      rw [List.length_cons, List.foldl_cons]
      refine ⟨by rw [show n + (faces.length + 1) = n + 1 + faces.length by omega]
                 exact hnumbered,
        fun device hsome => hkept device (hface.2.1 device hsome), fun face' hface' => ?_⟩
      rcases List.mem_cons.mp hface' with rfl | hface'
      · exact fun device hsome => hkept device (hface.2.2 device hsome)
      · exact hnew face' hface'

/-- The device of a face is found again under its port. -/
theorem getDevice_getPort {node : N} {face : F} {nd : D}
    (hports : (topo.registeredFaces node).length < 65535)
    (hface : face ∈ topo.registeredFaces node) (hnd : topo.netDevice face = some nd) :
    (portTable topo node).getDevice ((portTable topo node).getPort nd) = some nd := by
  obtain ⟨hnumbered, -, hnew⟩ := numbered_foldl_addFace topo (topo.registeredFaces node)
    PortTable.numbered_empty (by omega)
  exact hnumbered.getDevice_getPort (hnew face hface nd hnd)

end Ports

/-! ## Distances -/

/-- A distance, and the face that the way to it starts with. -/
abbrev Weight (F : Type) := Option F × UInt32

def weightZero : Weight F := (none, 0)

/-- The weight of an edge: an edge without a face costs nothing. -/
def edgeWeight (metric : F → UInt64) : Option F → Option F × UInt16
  | none => (none, 0)
  | some face => (some face, (metric face).toUInt16)

def weightCombine (a : Weight F) (b : Option F × UInt16) : Weight F :=
  match a.1 with
  | none => (b.1, a.2 + b.2.toUInt32)
  | some face => (some face, a.2 + b.2.toUInt32)

/-- The weight of a walk from the source of a search. -/
def walkWeight (metric : F → UInt64) (walk : List (Incidency N C F)) : Weight F :=
  walk.foldl (fun w e => weightCombine w (edgeWeight metric e.1)) weightZero

def edgeCost (metric : F → UInt64) (edge : Option F) : ℕ := (edgeWeight metric edge).2.toNat

/-- What `dijkstra_shortest_paths` finds: the weight of a walk of least cost to each router
that is nearer than `WeightInf`. -/
def ShortestPaths (out : N ⊕ C → List (Incidency N C F)) (metric : F → UInt64) (source : N ⊕ C)
    (distances : N ⊕ C → Weight F) : Prop :=
  ∀ x walk, IsWalk out source walk x → walkCost (edgeCost metric) walk < 65535 →
    ∃ best, IsShortest out (edgeCost metric) source best x ∧
      distances x = walkWeight metric best

/-- The face of a walk is that of its first edge, if it has one. -/
theorem walkWeight_cons_fst {metric : F → UInt64} {face : F} {y : N ⊕ C}
    {rest : List (Incidency N C F)} :
    (walkWeight metric ((some face, y) :: rest)).1 = some face := by
  have hkept : ∀ (rest : List (Incidency N C F)) (w : Weight F), w.1 = some face →
      (rest.foldl (fun w e => weightCombine w (edgeWeight metric e.1)) w).1 = some face := by
    intro rest
    induction rest with
    | nil => exact fun w hw => hw
    | cons e rest ih =>
        intro w hw
        refine ih _ ?_
        simp only [weightCombine, hw]
  exact hkept rest _ rfl

/-! ## Routes -/

section Routes

variable [DecidableEq N] [DecidableEq C] [DecidableEq D] (topo : Topology N C D F)
  (stdHash : Bytes → Nat) (localPrefixes : N ⊕ C → List Name)

/-- The entries for the prefixes of one router. -/
def routesTo (source : N) (distances : N ⊕ C → Weight F) (x : N ⊕ C) : List FibOp :=
  if x = .inl source then []
  else
    match (distances x).1 with
    | none => []
    | some nextHopFace =>
        match topo.netDevice nextHopFace with
        | none => []
        | some nd =>
            (localPrefixes x).map fun p =>
              .install (PacketHeader.ofName stdHash p).nameHashes
                ((portTable topo source).getPort nd) 0

/-- `StatimHelper::CalculateStatimRoutes` at one node with an engine; `order` is the order
of the routers in the map of the distances. -/
def calculateStatimRoutes (order : List (N ⊕ C)) (source : N) (distances : N ⊕ C → Weight F) :
    List FibOp :=
  order.flatMap (routesTo topo stdHash localPrefixes source distances)

variable {topo stdHash localPrefixes}

/-- A face on the way gives every prefix of the router its port. -/
theorem routesTo_of_face {source : N} {distances : N ⊕ C → Weight F} {x : N ⊕ C} {face : F}
    {nd : D} (hx : x ≠ .inl source) (hface : (distances x).1 = some face)
    (hnd : topo.netDevice face = some nd) :
    routesTo topo stdHash localPrefixes source distances x =
      (localPrefixes x).map fun p =>
        .install (PacketHeader.ofName stdHash p).nameHashes
          ((portTable topo source).getPort nd) 0 := by
  simp only [routesTo, if_neg hx, hface, hnd]

/-- An entry is for a prefix of its router. -/
theorem exists_of_mem_routesTo {source : N} {distances : N ⊕ C → Weight F} {x : N ⊕ C}
    {op : FibOp} (hop : op ∈ routesTo topo stdHash localPrefixes source distances x) :
    ∃ p ∈ localPrefixes x, ∃ port,
      op = .install (PacketHeader.ofName stdHash p).nameHashes port 0 := by
  unfold routesTo at hop
  split at hop
  · exact absurd hop List.not_mem_nil
  · cases hface : (distances x).1 with
    | none => simp [hface] at hop
    | some face =>
        cases hnd : topo.netDevice face with
        | none => simp [hface, hnd] at hop
        | some nd =>
            simp only [hface, hnd] at hop
            obtain ⟨p, hp, rfl⟩ := List.mem_map.mp hop
            exact ⟨p, hp, _, rfl⟩

end Routes

/-! ## Prefixes -/

section Prefixes

variable (stdHash : Bytes → Nat)

/-- The hashes of a name that a FIB entry matches. -/
def hashKey (name : Name) : Bytes := prefixKey stdHash name nameHashCount

theorem isTuple_ofName (p : Name) : IsTuple (PacketHeader.ofName stdHash p).nameHashes := by
  have hkey := isKey_prefixKey stdHash p (Nat.le_refl nameHashCount)
  exact ⟨hashKey stdHash p, nameHashCount - p.length, hkey.length, hkey.exact, rfl⟩

theorem keyOf_ofName (p : Name) :
    keyOf (PacketHeader.ofName stdHash p).nameHashes = hashKey stdHash p :=
  keyOf_eq (isKey_prefixKey stdHash p (Nat.le_refl nameHashCount)) (nameHashCount - p.length)

theorem prefixKey_eq_take (name : Name) {k : Nat} (hk : k ≤ nameHashCount) :
    prefixKey stdHash name k = (hashKey stdHash name).take k := by
  rw [hashKey, prefixKey, prefixKey, ← List.map_take, List.take_take, Nat.min_eq_left hk]

theorem length_hashKey (name : Name) :
    (hashKey stdHash name).length = min nameHashCount name.length := by
  rw [hashKey, prefixKey, List.length_map, List.length_take]

end Prefixes

/-- Of the routers with a prefix whose hashes the name has longest, the last in the map of
the distances. -/
structure IsLastOrigin (stdHash : Bytes → Nat) (localPrefixes : N ⊕ C → List Name)
    (order : List (N ⊕ C)) (name p : Name) (origin : N ⊕ C) : Prop where
  mem : p ∈ localPrefixes origin
  isPrefix : hashKey stdHash p <+: hashKey stdHash name
  longest : ∀ y ∈ order, ∀ q ∈ localPrefixes y, hashKey stdHash q <+: hashKey stdHash name →
    (hashKey stdHash q).length ≤ (hashKey stdHash p).length
  last : ∃ before after, order = before ++ origin :: after ∧
    ∀ y ∈ after, ∀ q ∈ localPrefixes y, hashKey stdHash q <+: hashKey stdHash name →
      (hashKey stdHash q).length < (hashKey stdHash p).length

/-! ## Lookups -/

section Lookups

variable [DecidableEq N] [DecidableEq C] [DecidableEq D] {topo : Topology N C D F}
  {stdHash : Bytes → Nat} {localPrefixes : N ⊕ C → List Name} {order : List (N ⊕ C)}
  {source : N} {distances : N ⊕ C → Weight F} {history : List (EntrySort × FibOp)}

theorem exists_of_mem_routes {op : FibOp}
    (hop : op ∈ calculateStatimRoutes topo stdHash localPrefixes order source distances) :
    ∃ y ∈ order, ∃ p ∈ localPrefixes y, ∃ port,
      op = .install (PacketHeader.ofName stdHash p).nameHashes port 0 := by
  obtain ⟨y, hy, hop⟩ := List.mem_flatMap.mp hop
  exact ⟨y, hy, exists_of_mem_routesTo hop⟩

theorem wellFormed_of_routes
    (hroutes : history.map Prod.snd =
      calculateStatimRoutes topo stdHash localPrefixes order source distances) :
    ∀ call ∈ history, call.2.WellFormed := by
  intro call hcall
  have hop : call.2 ∈ history.map Prod.snd := List.mem_map_of_mem hcall
  rw [hroutes] at hop
  obtain ⟨y, -, p, -, port, heq⟩ := exists_of_mem_routes hop
  rw [heq]
  exact ⟨isTuple_ofName stdHash p, Int.le_refl 0⟩

variable {name p : Name} {origin : N ⊕ C} {nd : D} {face : F}

/-- The entry of the origin is the last one for its hashes. -/
theorem IsLastOrigin.lastOn_eq (h : IsLastOrigin stdHash localPrefixes order name p origin)
    (hroutes : history.map Prod.snd =
      calculateStatimRoutes topo stdHash localPrefixes order source distances)
    (hother : origin ≠ .inl source) (hface : (distances origin).1 = some face)
    (hnd : topo.netDevice face = some nd) :
    ∃ hs, lastOn (hashKey stdHash p) history =
      some (.install hs ((portTable topo source).getPort nd) 0) := by
  obtain ⟨before, after, horder, hafter⟩ := h.last
  have hlater : ((after.flatMap
      (routesTo topo stdHash localPrefixes source distances)).reverse.find? fun op =>
        keyOf op.nameHashes = hashKey stdHash p) = none := by
    refine List.find?_eq_none.mpr fun op hop hkey => ?_
    obtain ⟨y, hy, hop⟩ := List.mem_flatMap.mp (List.mem_reverse.mp hop)
    obtain ⟨q, hq, port, rfl⟩ := exists_of_mem_routesTo hop
    have hsame : hashKey stdHash q = hashKey stdHash p := by
      rw [← keyOf_ofName]
      exact of_decide_eq_true hkey
    have hlt := hafter y hy q hq (by rw [hsame]; exact h.isPrefix)
    rw [hsame] at hlt
    exact absurd hlt (Nat.lt_irrefl _)
  have hfound : (((routesTo topo stdHash localPrefixes source distances origin).reverse).find?
      fun op => keyOf op.nameHashes = hashKey stdHash p).isSome := by
    rw [List.find?_isSome, routesTo_of_face hother hface hnd]
    exact ⟨_, List.mem_reverse.mpr (List.mem_map_of_mem h.mem),
      decide_eq_true (keyOf_ofName stdHash p)⟩
  obtain ⟨op, hop⟩ := Option.isSome_iff_exists.mp hfound
  have hmem := List.mem_reverse.mp (List.mem_of_find?_eq_some hop)
  rw [routesTo_of_face hother hface hnd] at hmem
  obtain ⟨q, -, rfl⟩ := List.mem_map.mp hmem
  refine ⟨(PacketHeader.ofName stdHash q).nameHashes, ?_⟩
  rw [lastOn, hroutes, calculateStatimRoutes, horder, List.flatMap_append, List.flatMap_cons,
    List.reverse_append, List.reverse_append, List.find?_append, List.find?_append, hlater, hop]
  rfl

/-- No entry has more of the name's hashes. -/
theorem IsLastOrigin.lastOn_eq_none (h : IsLastOrigin stdHash localPrefixes order name p origin)
    (hroutes : history.map Prod.snd =
      calculateStatimRoutes topo stdHash localPrefixes order source distances)
    {k : Nat} (hk : (hashKey stdHash p).length < k) (hname : k ≤ min nameHashCount name.length) :
    lastOn (prefixKey stdHash name k) history = none := by
  rw [lastOn, hroutes]
  refine List.find?_eq_none.mpr fun op hop hkey => ?_
  obtain ⟨y, hy, q, hq, port, rfl⟩ := exists_of_mem_routes (List.mem_reverse.mp hop)
  have hsame : hashKey stdHash q = prefixKey stdHash name k := by
    rw [← keyOf_ofName]
    exact of_decide_eq_true hkey
  have hlength : (hashKey stdHash q).length = k := by
    rw [hsame, length_prefixKey stdHash name (Nat.le_min.mp hname).2]
  have hle := h.longest y hy q hq (by
    rw [hsame, prefixKey_eq_take stdHash name (Nat.le_min.mp hname).1]
    exact List.take_prefix _ _)
  omega

/-- An engine sends the Interests for a name to the port of the face on its way to the last
origin. -/
theorem IsLastOrigin.sendsTo (h : IsLastOrigin stdHash localPrefixes order name p origin)
    (hroutes : history.map Prod.snd =
      calculateStatimRoutes topo stdHash localPrefixes order source distances)
    (hother : origin ≠ .inl source) (hface : (distances origin).1 = some face)
    (hnd : topo.netDevice face = some nd) (std : EntrySort) (now : Time) {header : PacketHeader}
    (htype : header.type = PacketType.interest) (hmask : header.outPorts = 0)
    (hheader : header.nameHashes = PacketHeader.hashesOf stdHash name) :
    SendsTo ((afterOps std history).processPacket now header)
      [(portTable topo source).getPort nd] := by
  have hcalls := wellFormed_of_routes hroutes
  have hholds := holds_afterOps std history hcalls
  have hlength : (hashKey stdHash p).length ≤ min nameHashCount name.length := by
    rw [← length_hashKey stdHash name]
    exact h.isPrefix.length_le
  have hkey : prefixKey stdHash name (hashKey stdHash p).length = hashKey stdHash p := by
    rw [prefixKey_eq_take stdHash name (Nat.le_min.mp hlength).1]
    exact (List.prefix_iff_eq_take.mp h.isPrefix).symm
  obtain ⟨hs, hlast⟩ := h.lastOn_eq hroutes hother hface hnd
  have hport : portAt history now (prefixKey stdHash name (hashKey stdHash p).length) =
      some ((portTable topo source).getPort nd) := by
    rw [hkey, portAt_eq_some_iff]
    exact ⟨hs, 0, hlast, Or.inl rfl⟩
  have hlongest : ∀ j, (hashKey stdHash p).length < j → j ≤ min nameHashCount name.length →
      portAt history now (prefixKey stdHash name j) = none := by
    intro j hj hname
    rw [portAt, h.lastOn_eq_none hroutes hj hname]
  obtain ⟨expiry, hlookup⟩ :=
    hholds.lookup_of_longest hcalls hheader hlength hport hlongest
  have hsends := hholds.isSwitch.hasTables.sendsTo_interest_fib header now htype hmask
  simpa [fibPorts, hlookup, fibEntry] using hsends

end Lookups

end Statim
