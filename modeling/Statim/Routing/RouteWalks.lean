import Mathlib.Data.Fin.VecNotation
import Statim.Routing.StatimRoutes

/-!
# Walks to the origins

Every engine has looked for its own routes, and each entry knows its next hop only.
Where an Interest is passed on from engine to engine, it nevertheless follows a walk of
least cost to the origin that is last in the map of the distances, and meets no router
twice.
-/

namespace Statim

open Support SwitchPipeline GlobalRoutingHelper

variable {N C D F : Type}

/-- The edges that a search sees: `out_edges` of `NdnGlobalRouterGraph`. -/
def outEdges (r : GlobalRouters N C F) (x : N ⊕ C) : List (Incidency N C F) := (r x).getD []

/-- An engine sends these Interests to the port of a device whose link leads to the next
router. -/
def PassesOn [DecidableEq D] (topo : Topology N C D F) (engine : N → Prop)
    (switch : N → SwitchPipeline) (now : Time) (header : PacketHeader) (x : N ⊕ C)
    (e : Incidency N C F) : Prop :=
  ∀ node, x = .inl node → engine node → ∃ nd port,
    SendsTo ((switch node).processPacket now header) [port] ∧
      (portTable topo node).getDevice port = some nd ∧ LeadsTo topo nd e.2

variable [DecidableEq N] [DecidableEq C] [DecidableEq D] [Fintype N] [Fintype C]
  {topo : Topology N C D F} {nodes : List N} {r₀ : GlobalRouters N C F} {metric : F → UInt64}

/-- A router that was made by hand has no edges, and the others have those of their links. -/
theorem mem_outEdges (hmade : ∀ y edges, r₀ y = some edges → edges = []) {x : N ⊕ C}
    {e : Incidency N C F} (he : e ∈ outEdges (installNodes topo nodes r₀) x) :
    e ∈ incidencies topo x := by
  have hgrows : Grows topo r₀ (installNodes topo nodes r₀) := (installNodes_spec topo nodes r₀).1
  unfold outEdges at he
  cases hr : r₀ x with
  | some edges =>
      rw [hgrows.kept x (by rw [hr]; rfl), hr, hmade x edges hr] at he
      exact absurd he List.not_mem_nil
  | none =>
      rcases hgrows.complete x hr with hx | hx
      · rw [hx] at he
        exact absurd he List.not_mem_nil
      · rw [hx] at he
        exact he

/-- Edges lead from nodes to nodes. -/
theorem costsWithin_outEdges (hmade : ∀ y edges, r₀ y = some edges → edges = [])
    (hmetric : ∀ face, (metric face).toUInt16 ≠ 0) :
    CostsWithin (outEdges (installNodes topo nodes r₀)) (edgeCost metric)
      fun x => ∃ node, x = .inl node := by
  rintro _ ⟨node, rfl⟩ e he
  obtain ⟨face, -, nd, -, hface, ch, otherSide, -, -, -, -, hend⟩ :=
    mem_incidencies (mem_outEdges hmade he)
  refine ⟨?_, _, hend⟩
  rw [hface]
  refine Nat.pos_of_ne_zero fun hzero => hmetric face ?_
  exact UInt16.toNat_inj.mp hzero

variable {stdHash : Bytes → Nat} {localPrefixes : N ⊕ C → List Name} {order : List (N ⊕ C)}
  {engine : N → Prop} {distances : N → N ⊕ C → Weight F}
  {histories : N → List (EntrySort × FibOp)} {name p : Name} {origin : N ⊕ C}

/-- Interests that are passed on by the routes of the engines follow a walk of least cost
to the last origin, and meet no router twice. -/
theorem routes_lead_to_origin (hmade : ∀ y edges, r₀ y = some edges → edges = [])
    (hmetric : ∀ face, (metric face).toUInt16 ≠ 0)
    (hports : ∀ node, engine node → (topo.registeredFaces node).length < 65535)
    (hsearch : ∀ node, engine node → ShortestPaths (outEdges (installNodes topo nodes r₀)) metric
      (.inl node) (distances node))
    (hroutes : ∀ node, engine node → (histories node).map Prod.snd =
      calculateStatimRoutes topo stdHash localPrefixes order node (distances node))
    (horigin : IsLastOrigin stdHash localPrefixes order name p origin) (std : EntrySort)
    (now : Time) {header : PacketHeader} (htype : header.type = PacketType.interest)
    (hmask : header.outPorts = 0) (hheader : header.nameHashes = PacketHeader.hashesOf stdHash name)
    {node : N} {walk : List (Incidency N C F)}
    (hwalk : IsWalk (outEdges (installNodes topo nodes r₀)) (.inl node) walk origin)
    (hcost : walkCost (edgeCost metric) walk < 65535) :
    ∃ route, IsShortest (outEdges (installNodes topo nodes r₀)) (edgeCost metric) (.inl node)
        route origin ∧
      (.inl node :: route.map Prod.snd).Nodup ∧
        Follows (PassesOn topo engine (fun node => afterOps std (histories node)) now header)
          (.inl node) route := by
  have hcosts : CostsWithin (outEdges (installNodes topo nodes r₀)) (edgeCost metric)
      fun x => ∃ node, x = .inl node := costsWithin_outEdges hmade hmetric
  obtain ⟨best, hbest, hle⟩ : ∃ best, IsShortest (outEdges (installNodes topo nodes r₀))
      (edgeCost metric) (.inl node) best origin ∧
        walkCost (edgeCost metric) best ≤ walkCost (edgeCost metric) walk :=
    exists_isShortest hwalk
  have hnext : ∀ x walk, (∃ node, x = .inl node) → x ≠ origin →
      IsShortest (outEdges (installNodes topo nodes r₀)) (edgeCost metric) x walk origin →
      walkCost (edgeCost metric) walk < 65535 →
      ∃ e rest, IsShortest (outEdges (installNodes topo nodes r₀)) (edgeCost metric) x
          (e :: rest) origin ∧
        PassesOn topo engine (fun node => afterOps std (histories node)) now header x e := by
    rintro _ walk ⟨source, rfl⟩ hne hshortest hcost
    by_cases hengine : engine source
    · obtain ⟨found, hfound, hdistance⟩ :=
        hsearch source hengine origin walk hshortest.isWalk hcost
      cases found with
      | nil => exact absurd hfound.isWalk hne
      | cons e rest =>
          refine ⟨e, rest, hfound, ?_⟩
          rintro _ ⟨⟩ -
          obtain ⟨face, hface, nd, hnd, hedge, hlink⟩ :=
            mem_incidencies (mem_outEdges hmade hfound.isWalk.1)
          obtain ⟨edge, y⟩ := e
          obtain rfl : edge = some face := hedge
          have hfirst : (distances source origin).1 = some face := by
            rw [hdistance, walkWeight_cons_fst]
          have hsends := horigin.sendsTo (hroutes source hengine) hne.symm hfirst hnd std now
            htype hmask hheader
          exact ⟨nd, _, hsends, getDevice_getPort (hports source hengine) hface hnd, hlink⟩
    · -- what is no engine is not asked to pass anything on
      cases walk with
      | nil => exact absurd hshortest.isWalk hne
      | cons e rest =>
          refine ⟨e, rest, hshortest, ?_⟩
          rintro _ ⟨⟩ hsource
          exact absurd hsource hengine
  obtain ⟨route, hroute, hfollows⟩ :=
    exists_follows hcosts hnext ⟨node, rfl⟩ hbest (Nat.lt_of_le_of_lt hle hcost)
  exact ⟨route, hroute, hroute.nodup hcosts ⟨node, rfl⟩, hfollows⟩

section Samples

/-- Two switches in a row, a host behind the second, and a mobile node at the first. -/
def sampleTopology : Topology (Fin 4) (Fin 3) (Fin 6) (Fin 6) where
  registeredFaces := ![[0, 4], [1, 2], [3], [5]]
  netDevice := some
  channel device := some (![0, 0, 1, 1, 2, 2] device)
  devices := ![[0, 1], [2, 3], [4, 5]]
  node := ![0, 1, 1, 2, 0, 3]

/-- The mobile node is kept out of the graph by a router without edges. -/
def sampleRouters : GlobalRouters (Fin 4) (Fin 3) (Fin 6) :=
  fun x => if x = .inl 3 then some [] else none

def sampleInstalled : GlobalRouters (Fin 4) (Fin 3) (Fin 6) :=
  installNodes sampleTopology [0, 1, 2, 3] sampleRouters

/-- The walks that the searches at the switches find. -/
def sampleWalk : Fin 4 → Fin 4 → List (Incidency (Fin 4) (Fin 3) (Fin 6))
  | 0, 1 => [(some 0, .inl 1)]
  | 0, 2 => [(some 0, .inl 1), (some 2, .inl 2)]
  | 0, 3 => [(some 4, .inl 3)]
  | 1, 0 => [(some 1, .inl 0)]
  | 1, 2 => [(some 2, .inl 2)]
  | 1, 3 => [(some 1, .inl 0), (some 4, .inl 3)]
  | _, _ => []

def sampleDistances (source : Fin 4) : Fin 4 ⊕ Fin 3 → Weight (Fin 6)
  | .inl node => walkWeight (fun _ => 1) (sampleWalk source node)
  | .inr _ => (none, 65535)

/-- How far the routers are from a node; a channel is never reached. -/
def sampleHops : Fin 4 ⊕ Fin 3 → Fin 4 ⊕ Fin 3 → ℕ
  | .inl x, .inl y => ![![0, 1, 2, 1], ![1, 0, 1, 2], ![2, 1, 0, 3], ![1, 2, 3, 0]] x y
  | .inl _, .inr _ => 65535
  | .inr _, _ => 0

/-- Both the second switch and the host have the prefix, and the host is listed last. -/
def samplePrefixes : Fin 4 ⊕ Fin 3 → List Name
  | .inl 1 => [[.generic [0x61]]]
  | .inl 2 => [[.generic [0x61]]]
  | _ => []

def sampleOrder : List (Fin 4 ⊕ Fin 3) := [.inl 3, .inl 1, .inl 0, .inl 2]

def sampleRoutes (source : Fin 4) : List (EntrySort × FibOp) :=
  (calculateStatimRoutes sampleTopology sampleHash samplePrefixes sampleOrder source
    (sampleDistances source)).map fun op => (.mergeSort, op)

theorem sampleHops_le : ∀ x y, ∀ e ∈ outEdges sampleInstalled x,
    sampleHops x y ≤ edgeCost (fun _ => 1) e.1 + sampleHops e.2 y := by
  decide +kernel

theorem isWalk_sampleWalk : ∀ source : Fin 4, source.val < 2 → ∀ y,
    IsWalk (outEdges sampleInstalled) (.inl source) (sampleWalk source y) (.inl y) ∧
      walkCost (edgeCost fun _ => 1) (sampleWalk source y) = sampleHops (.inl source) (.inl y) := by
  decide +kernel

theorem sampleHops_self : ∀ x : Fin 4 ⊕ Fin 3, sampleHops x x = 0 := by
  decide

theorem shortestPaths_sampleDistances (source : Fin 4) (hsource : source.val < 2) :
    ShortestPaths (outEdges sampleInstalled) (fun _ => 1) (.inl source)
      (sampleDistances source) := by
  intro x walk hwalk hcost
  cases x with
  | inr ch =>
      have hle := hwalk.le_walkCost fun v e he => sampleHops_le v (.inr ch) e he
      have hfar : sampleHops (.inl source : Fin 4 ⊕ Fin 3) (.inr ch) = 65535 := rfl
      rw [hfar, sampleHops_self] at hle
      omega
  | inl y =>
      obtain ⟨hbest, hhops⟩ := isWalk_sampleWalk source hsource y
      refine ⟨sampleWalk source y, ⟨hbest, fun other hother => ?_⟩, rfl⟩
      have hle := hother.le_walkCost fun v e he => sampleHops_le v (.inl y) e he
      rw [sampleHops_self] at hle
      omega

theorem isLastOrigin_sampleOrder :
    IsLastOrigin sampleHash samplePrefixes sampleOrder
      [.generic [0x61], .generic [0x62], .generic [0x63]] [.generic [0x61]] (.inl 2) where
  mem := by decide
  isPrefix := by decide
  longest := by decide
  last := ⟨[.inl 3, .inl 1, .inl 0], [], rfl, by decide⟩

theorem routes_lead_to_origin_sampleTopology :
    ∃ route, IsShortest (outEdges sampleInstalled) (edgeCost fun _ => 1) (.inl 0) route
        (.inl 2) ∧
      ((.inl 0 : Fin 4 ⊕ Fin 3) :: route.map Prod.snd).Nodup ∧
        Follows (PassesOn sampleTopology (fun node => node.val < 2)
          (fun node => afterOps .mergeSort (sampleRoutes node)) 10 sampleHeader) (.inl 0)
          route := by
  have hmade : ∀ y edges, sampleRouters y = some edges → edges = [] := by
    intro y edges hy
    unfold sampleRouters at hy
    split at hy
    · exact (Option.some.inj hy).symm
    · cases hy
  have hports : ∀ node : Fin 4, node.val < 2 →
      (sampleTopology.registeredFaces node).length < 65535 := by
    decide
  have hroutes : ∀ node : Fin 4, node.val < 2 → (sampleRoutes node).map Prod.snd =
      calculateStatimRoutes sampleTopology sampleHash samplePrefixes sampleOrder node
        (sampleDistances node) := by
    intro node _
    rw [sampleRoutes, List.map_map]
    exact List.map_id _
  have hwalk := (isWalk_sampleWalk 0 (by decide) 2).1
  exact routes_lead_to_origin hmade (fun _ => by decide) hports shortestPaths_sampleDistances
    hroutes isLastOrigin_sampleOrder .mergeSort 10 rfl rfl rfl hwalk (by decide)

end Samples

end Statim
