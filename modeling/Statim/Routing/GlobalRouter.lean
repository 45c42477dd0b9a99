import Mathlib.Data.Fintype.Sum
import Mathlib.Data.List.Basic
import Mathlib.Logic.Relation

/-!
# Global routers

`GlobalRoutingHelper::Install` gives each node and each shared channel a router, and
lists for each router the routers that its links lead to.  It goes on from a router to
those behind its links before it has listed them all, and it leaves alone what has a
router already.  What each router lists in the end does not depend on any of this.
-/

namespace Statim

/-- The devices of the nodes, the channels between them, and the faces on top. -/
structure Topology (N C D F : Type) where
  registeredFaces : N → List F
  /-- `NetDeviceTransport::GetNetDevice`, for a face with such a transport. -/
  netDevice : F → Option D
  channel : D → Option C
  devices : C → List D
  node : D → N

variable {N C D F : Type}

/-- An edge of `GlobalRouter::m_incidencies`: the face it starts from and the router at its
end. -/
abbrev Incidency (N C F : Type) := Option F × (N ⊕ C)

/-- The routers that are installed, with their edges. -/
abbrev GlobalRouters (N C F : Type) := N ⊕ C → Option (List (Incidency N C F))

/-- One turn of the loops of `GlobalRoutingHelper::Install`: the router that the loop makes
sure of, and the face of the edge that it adds, if it adds one. -/
structure Visit (N C F : Type) where
  router : N ⊕ C
  face : Option (Option F)

namespace GlobalRoutingHelper

/-- The turns for a face of a node.  A point-to-point link leads to the node at its other
end; another channel gets a router, but no edge leads there. -/
def visitsOfFace [DecidableEq D] (topo : Topology N C D F) (face : F) : List (Visit N C F) :=
  match topo.netDevice face with
  | none => []
  | some nd =>
      match topo.channel nd with
      | none => []
      | some ch =>
          if (topo.devices ch).length = 2 then
            ((topo.devices ch).filter (· ≠ nd)).map fun otherSide =>
              ⟨.inl (topo.node otherSide), some (some face)⟩
          else [⟨.inr ch, none⟩]

/-- The turns for a node or a channel. -/
def visits [DecidableEq D] (topo : Topology N C D F) : N ⊕ C → List (Visit N C F)
  | .inl node => (topo.registeredFaces node).flatMap (visitsOfFace topo)
  | .inr ch => (topo.devices ch).map fun dev => ⟨.inl (topo.node dev), some none⟩

/-- `GlobalRouter::AddIncidency`, where a turn adds an edge. -/
def addIncidency [DecidableEq N] [DecidableEq C] (x : N ⊕ C) (v : Visit N C F)
    (r : GlobalRouters N C F) : GlobalRouters N C F :=
  match v.face with
  | none => r
  | some face => Function.update r x ((r x).map (· ++ [(face, v.router)]))

/-- `GlobalRoutingHelper::Install` for a node or a channel, with fuel for the depth of its
recursion. -/
def install [DecidableEq N] [DecidableEq C] [DecidableEq D] (topo : Topology N C D F) :
    ℕ → N ⊕ C → GlobalRouters N C F → GlobalRouters N C F
  | 0, _, r => r
  | fuel + 1, x, r =>
      if (r x).isSome then r
      else
        (visits topo x).foldl (fun r v => addIncidency x v (install topo fuel v.router r))
          (Function.update r x (some []))

/-- `GlobalRoutingHelper::Install` for a container of nodes. -/
def installNodes [Fintype N] [Fintype C] [DecidableEq N] [DecidableEq C] [DecidableEq D]
    (topo : Topology N C D F) (nodes : List N) (r : GlobalRouters N C F) :
    GlobalRouters N C F :=
  nodes.foldl (fun r node => install topo (Fintype.card (N ⊕ C)) (.inl node) r) r

/-! ## What is installed -/

section

variable [DecidableEq D]

/-- The edges of a router. -/
def incidencies (topo : Topology N C D F) (x : N ⊕ C) : List (Incidency N C F) :=
  (visits topo x).filterMap fun v => v.face.map fun face => (face, v.router)

/-- The device's link has a device of the router at its other end. -/
def LeadsTo (topo : Topology N C D F) (nd : D) (y : N ⊕ C) : Prop :=
  ∃ ch otherSide, topo.channel nd = some ch ∧ (topo.devices ch).length = 2 ∧
    otherSide ∈ topo.devices ch ∧ otherSide ≠ nd ∧ y = .inl (topo.node otherSide)

/-- The edges of a node are its faces with a link. -/
theorem mem_incidencies {topo : Topology N C D F} {node : N} {e : Incidency N C F}
    (he : e ∈ incidencies topo (.inl node)) :
    ∃ face ∈ topo.registeredFaces node, ∃ nd, topo.netDevice face = some nd ∧
      e.1 = some face ∧ LeadsTo topo nd e.2 := by
  obtain ⟨v, hv, hedge⟩ := List.mem_filterMap.mp he
  obtain ⟨face, hface, hturn⟩ := List.mem_flatMap.mp hv
  refine ⟨face, hface, ?_⟩
  unfold visitsOfFace at hturn
  cases hnd : topo.netDevice face with
  | none => simp [hnd] at hturn
  | some nd =>
      cases hch : topo.channel nd with
      | none => simp [hnd, hch] at hturn
      | some ch =>
          simp only [hnd, hch] at hturn
          by_cases htwo : (topo.devices ch).length = 2
          · rw [if_pos htwo] at hturn
            obtain ⟨otherSide, hother, rfl⟩ := List.mem_map.mp hturn
            obtain ⟨hmem, hne⟩ := List.mem_filter.mp hother
            cases hedge
            exact ⟨nd, rfl, rfl, ch, otherSide, hch, htwo, hmem, of_decide_eq_true hne, rfl⟩
          · rw [if_neg htwo, List.mem_singleton] at hturn
            subst hturn
            cases hedge

/-- A router that is reached through others that are not installed yet. -/
def Reaches (topo : Topology N C D F) (r : GlobalRouters N C F) : N ⊕ C → N ⊕ C → Prop :=
  Relation.ReflTransGen fun a b => r a = none ∧ ∃ v ∈ visits topo a, v.router = b

variable {topo : Topology N C D F} {r s s' : GlobalRouters N C F} {x y : N ⊕ C}

/-- What becomes of the routers that were not installed before. -/
structure Grows (topo : Topology N C D F) (r s : GlobalRouters N C F) : Prop where
  kept : ∀ y, (r y).isSome → s y = r y
  complete : ∀ y, r y = none → s y = none ∨ s y = some (incidencies topo y)
  closed : ∀ y, r y = none → (s y).isSome → ∀ v ∈ visits topo y, (s v.router).isSome

theorem Grows.refl (r : GlobalRouters N C F) : Grows topo r r :=
  ⟨fun _ _ => rfl, fun _ hy => Or.inl hy, fun y hy hsome => by rw [hy] at hsome; cases hsome⟩

theorem Grows.isSome (h : Grows topo r s) (hy : (r y).isSome) : (s y).isSome := by
  rw [h.kept y hy]
  exact hy

theorem Grows.trans (h : Grows topo r s) (h' : Grows topo s s') : Grows topo r s' := by
  refine ⟨fun y hy => ?_, fun y hy => ?_, fun y hy hsome v hv => ?_⟩
  · rw [h'.kept y (h.isSome hy), h.kept y hy]
  · rcases h.complete y hy with hnone | hedges
    · exact h'.complete y hnone
    · refine Or.inr ?_
      rw [h'.kept y (by rw [hedges]; rfl), hedges]
  · cases hs : s y with
    | none => exact h'.closed y hs hsome v hv
    | some edges => exact h'.isSome (h.closed y hy (by rw [hs]; rfl) v hv)

/-- A router with an edge to everything that is reached from it, once it is installed. -/
theorem Grows.isSome_of_reaches (h : Grows topo r s) (hx : (s x).isSome)
    (hreaches : Reaches topo r x y) : (s y).isSome := by
  induction hreaches with
  | refl => exact hx
  | tail _ hstep ih =>
      obtain ⟨hnone, v, hv, rfl⟩ := hstep
      exact h.closed _ hnone ih v hv

theorem Reaches.mono (h : ∀ a, s a = none → r a = none) (hreaches : Reaches topo s x y) :
    Reaches topo r x y :=
  Relation.ReflTransGen.mono (fun _ _ hstep => ⟨h _ hstep.1, hstep.2⟩) _ _ hreaches

/-! ## The loop -/

/-- The state of a loop after some of the turns for a router. -/
structure Looping (topo : Topology N C D F) (r : GlobalRouters N C F) (x : N ⊕ C)
    (turns : List (Visit N C F)) (s : GlobalRouters N C F) : Prop where
  edges : s x = some (turns.filterMap fun v => v.face.map fun face => (face, v.router))
  visited : ∀ v ∈ turns, (s v.router).isSome
  kept : ∀ y, (r y).isSome → s y = r y
  complete : ∀ y, y ≠ x → r y = none → s y = none ∨ s y = some (incidencies topo y)
  closed : ∀ y, y ≠ x → r y = none → (s y).isSome → ∀ v ∈ visits topo y, (s v.router).isSome
  reached : ∀ y, r y = none → (s y).isSome → Reaches topo r x y

section

variable [Fintype N] [Fintype C]

/-- What has no router yet; the recursion goes no deeper than there is of it. -/
def uninstalled (r : GlobalRouters N C F) : Finset (N ⊕ C) :=
  Finset.univ.filter fun y => (r y).isNone

theorem mem_uninstalled : y ∈ uninstalled r ↔ r y = none := by
  simp [uninstalled]

theorem Looping.card_lt {turns : List (Visit N C F)} (h : Looping topo r x turns s)
    (hx : r x = none) : (uninstalled s).card < (uninstalled r).card := by
  refine Finset.card_lt_card ((Finset.ssubset_iff_of_subset fun y hy => ?_).mpr ⟨x, ?_, ?_⟩)
  · rw [mem_uninstalled] at hy ⊢
    cases hr : r y with
    | none => rfl
    | some edges =>
        rw [h.kept y (by rw [hr]; rfl), hr] at hy
        cases hy
  · exact mem_uninstalled.mpr hx
  · rw [mem_uninstalled, h.edges]
    exact Option.some_ne_none _

end

variable [DecidableEq N] [DecidableEq C]

theorem looping_start (hx : r x = none) : Looping topo r x [] (Function.update r x (some [])) := by
  have hother : ∀ y, y ≠ x → Function.update r x (some []) y = r y :=
    fun y hy => Function.update_of_ne hy _ _
  refine ⟨Function.update_self _ _ _, fun v hv => absurd hv List.not_mem_nil, fun y hy => ?_,
    fun y hne hy => Or.inl ((hother y hne).trans hy), fun y hne hy hsome => ?_,
    fun y hy hsome => ?_⟩
  · refine hother y ?_
    rintro rfl
    rw [hx] at hy
    cases hy
  · rw [hother y hne, hy] at hsome
    cases hsome
  · by_cases heq : y = x
    · rw [heq]
      exact Relation.ReflTransGen.refl
    · rw [hother y heq, hy] at hsome
      cases hsome

theorem addIncidency_of_ne (v : Visit N C F) (hy : y ≠ x) : addIncidency x v s y = s y := by
  unfold addIncidency
  cases v.face with
  | none => rfl
  | some face => exact Function.update_of_ne hy _ _

theorem isSome_addIncidency (v : Visit N C F) :
    (addIncidency x v s y).isSome = (s y).isSome := by
  by_cases hy : y = x
  · subst hy
    unfold addIncidency
    cases v.face with
    | none => rfl
    | some face => simp
  · rw [addIncidency_of_ne v hy]

theorem Looping.turn {turns : List (Visit N C F)} {v : Visit N C F} (h : Looping topo r x turns s)
    (hx : r x = none) (hv : v ∈ visits topo x) (hgrows : Grows topo s s')
    (hfound : (s' v.router).isSome)
    (hreached : ∀ y, s y = none → (s' y).isSome → Reaches topo s v.router y) :
    Looping topo r x (turns ++ [v]) (addIncidency x v s') := by
  have hedges : s' x = some (turns.filterMap fun v => v.face.map fun face => (face, v.router)) := by
    rw [hgrows.kept x (by rw [h.edges]; rfl), h.edges]
  have hnone : ∀ y, s y = none → r y = none := by
    intro y hy
    cases hr : r y with
    | none => rfl
    | some edges =>
        rw [h.kept y (by rw [hr]; rfl), hr] at hy
        cases hy
  refine ⟨?_, fun v' hv' => ?_, fun y hy => ?_, fun y hne hy => ?_, fun y hne hy hsome v' hv' => ?_,
    fun y hy hsome => ?_⟩
  · rw [List.filterMap_append]
    unfold addIncidency
    cases hface : v.face with
    | none => simp [hedges, hface]
    | some face => simp [hedges, hface]
  · rw [isSome_addIncidency]
    rcases List.mem_append.mp hv' with hold | hnew
    · exact hgrows.isSome (h.visited v' hold)
    · rw [List.mem_singleton.mp hnew]
      exact hfound
  · have hne : y ≠ x := by
      rintro rfl
      rw [hx] at hy
      cases hy
    have hs := h.kept y hy
    rw [addIncidency_of_ne v hne, hgrows.kept y (by rw [hs]; exact hy), hs]
  · rw [addIncidency_of_ne v hne]
    rcases h.complete y hne hy with hs | hs
    · exact hgrows.complete y hs
    · refine Or.inr ?_
      rw [hgrows.kept y (by rw [hs]; rfl), hs]
  · rw [isSome_addIncidency] at hsome ⊢
    cases hs : s y with
    | none => exact hgrows.closed y hs hsome v' hv'
    | some edges => exact hgrows.isSome (h.closed y hne hy (by rw [hs]; rfl) v' hv')
  · rw [isSome_addIncidency] at hsome
    cases hs : s y with
    | none =>
        have hrest := (hreached y hs hsome).mono hnone
        exact Relation.ReflTransGen.head ⟨hx, v, hv, rfl⟩ hrest
    | some edges => exact h.reached y hy (by rw [hs]; rfl)

/-- After all turns the router is complete like the others. -/
theorem Looping.grows (h : Looping topo r x (visits topo x) s) : Grows topo r s := by
  refine ⟨h.kept, fun y hy => ?_, fun y hy hsome v hv => ?_⟩
  · by_cases heq : y = x
    · rw [heq]
      exact Or.inr h.edges
    · exact h.complete y heq hy
  · by_cases heq : y = x
    · rw [heq] at hv
      exact h.visited v hv
    · exact h.closed y heq hy hsome v hv

/-! ## The recursion -/

variable [Fintype N] [Fintype C]

/-- What an installation does, whatever is installed already. -/
structure Installed (topo : Topology N C D F) (r : GlobalRouters N C F) (x : N ⊕ C)
    (s : GlobalRouters N C F) : Prop where
  grows : Grows topo r s
  found : (s x).isSome
  reached : ∀ y, r y = none → (s y).isSome → Reaches topo r x y

theorem Looping.foldl_install {fuel : ℕ} {turns rest : List (Visit N C F)}
    (hinstall : ∀ y (s : GlobalRouters N C F), (uninstalled s).card ≤ fuel →
      Installed topo s y (install topo fuel y s))
    (h : Looping topo r x turns s) (hx : r x = none) (hfuel : (uninstalled r).card ≤ fuel + 1)
    (hrest : visits topo x = turns ++ rest) :
    Looping topo r x (visits topo x)
      (rest.foldl (fun r v => addIncidency x v (install topo fuel v.router r)) s) := by
  induction rest generalizing turns s with
  | nil =>
      rw [hrest, List.append_nil]
      exact h
  | cons v rest ih =>
      have hcard := h.card_lt hx
      have hv : v ∈ visits topo x := by
        rw [hrest]
        exact List.mem_append_right _ List.mem_cons_self
      have hv' := hinstall v.router s (by omega)
      have hnext := h.turn hx hv hv'.grows hv'.found hv'.reached
      exact ih hnext (by rw [hrest, List.append_assoc, List.singleton_append])

theorem installed_install {fuel : ℕ} (hfuel : (uninstalled r).card ≤ fuel) :
    Installed topo r x (install topo fuel x r) := by
  induction fuel generalizing r x with
  | zero =>
      refine ⟨Grows.refl r, ?_, fun y hy hsome => ?_⟩
      · have hx : x ∉ uninstalled r := by
          rw [Finset.card_eq_zero.mp (Nat.le_zero.mp hfuel)]
          exact Finset.notMem_empty x
        rw [mem_uninstalled] at hx
        exact Option.isSome_iff_ne_none.mpr hx
      · rw [install, hy] at hsome
        cases hsome
  | succ fuel ih =>
      rw [install]
      by_cases hx : (r x).isSome
      · rw [if_pos hx]
        refine ⟨Grows.refl r, hx, fun y hy hsome => ?_⟩
        rw [hy] at hsome
        cases hsome
      · rw [if_neg hx]
        have hnone : r x = none := Option.not_isSome_iff_eq_none.mp hx
        have hstart : Looping topo r x [] (Function.update r x (some [])) := looping_start hnone
        have h := hstart.foldl_install (fun y s hs => ih hs) hnone hfuel rfl
        exact ⟨h.grows, Option.isSome_iff_exists.mpr ⟨_, h.edges⟩, h.reached⟩

/-- The nodes of a container one after the other. -/
theorem installNodes_spec (topo : Topology N C D F) (nodes : List N) (r : GlobalRouters N C F) :
    Grows topo r (installNodes topo nodes r) ∧
      (∀ n ∈ nodes, (installNodes topo nodes r (.inl n)).isSome) ∧
        ∀ y, r y = none → (installNodes topo nodes r y).isSome →
          ∃ n ∈ nodes, Reaches topo r (.inl n) y := by
  induction nodes generalizing r with
  | nil =>
      refine ⟨Grows.refl r, fun n hn => absurd hn List.not_mem_nil, fun y hy hsome => ?_⟩
      rw [installNodes, List.foldl_nil, hy] at hsome
      cases hsome
  | cons n nodes ih =>
      have h : Installed topo r (.inl n) (install topo (Fintype.card (N ⊕ C)) (.inl n) r) :=
        installed_install (Finset.card_le_univ _)
      obtain ⟨hgrows, hfound, hreached⟩ :=
        ih (install topo (Fintype.card (N ⊕ C)) (.inl n) r)
      refine ⟨h.grows.trans hgrows, fun n' hn' => ?_, fun y hy hsome => ?_⟩
      · rcases List.mem_cons.mp hn' with rfl | hn'
        · exact hgrows.isSome h.found
        · exact hfound n' hn'
      · cases hs : install topo (Fintype.card (N ⊕ C)) (.inl n) r y with
        | some edges => exact ⟨n, List.mem_cons_self, h.reached y hy (by rw [hs]; rfl)⟩
        | none =>
            obtain ⟨n', hn', hreaches⟩ := hreached y hs hsome
            refine ⟨n', List.mem_cons_of_mem _ hn', hreaches.mono fun a ha => ?_⟩
            by_contra hne
            have hsome' := h.grows.isSome (Option.isSome_iff_ne_none.mpr hne)
            rw [ha] at hsome'
            cases hsome'

open Classical in
/-- What is installed after `Install`: the routers that were installed are left as they
are, and what is reached from the nodes without going through one of these has a router
that lists all its links, in order and once. -/
theorem install_adjacency (topo : Topology N C D F) (nodes : List N) (r : GlobalRouters N C F)
    (y : N ⊕ C) :
    installNodes topo nodes r y =
      (r y).or (if ∃ n ∈ nodes, Reaches topo r (.inl n) y then some (incidencies topo y)
        else none) := by
  obtain ⟨hgrows, hfound, hreached⟩ := installNodes_spec topo nodes r
  cases hy : r y with
  | some edges =>
      rw [hgrows.kept y (by rw [hy]; rfl), hy]
      rfl
  | none =>
      rw [Option.none_or]
      split
      · rename_i hreaches
        obtain ⟨n, hn, hreaches⟩ := hreaches
        rcases hgrows.complete y hy with hnone | hedges
        · have hsome := hgrows.isSome_of_reaches (hfound n hn) hreaches
          rw [hnone] at hsome
          cases hsome
        · exact hedges
      · rename_i hreaches
        refine Option.not_isSome_iff_eq_none.mp fun hsome => ?_
        exact hreaches (hreached y hy hsome)

end

end GlobalRoutingHelper

end Statim
