import Statim.Engine.RouteSelection

/-!
# Reforwarding

`findByPrefix` starts at the lower bound of a prefix and stops at the first name
without it; `pullPendingInterests` sends the first of the Interests it finds again.
The scan is exact, and so is the selection, unless `refreshNonce` throws: an Interest
is decoded whatever the width of its Nonce, and the Nonce is read only here.
-/

namespace Statim

open Support

namespace PendingInterestTable

/-- The saved Interests of the stored names with a prefix, each name once and in
increasing order. -/
def Lists (p : Name) (t : PendingInterestTable) (found : List Interest) : Prop :=
  ∃ names : List Name, names.Pairwise (fun a b => compare a b = .lt) ∧
    (∀ n, n ∈ names ↔ n ∈ t.entries ∧ p <+: n) ∧
    List.Forall₂ (fun n interest => ∃ entry, t.entries[n]? = some entry ∧
      entry.interest = interest) names found

theorem lists_findByPrefix (p : Name) (t : PendingInterestTable) :
    Lists p t (findByPrefix p t) := by
  have hordered : t.entries.toList.Pairwise fun a b => compare a.1 b.1 = .lt :=
    Std.TreeMap.ordered_keys_toList
  refine ⟨(t.entries.toList.filter fun kv => p.isPrefixOf kv.1).map (·.1), ?_, fun n => ?_, ?_⟩
  · rw [List.pairwise_map]
    exact hordered.sublist List.filter_sublist
  · simp only [List.mem_map, List.mem_filter, Prod.exists, exists_and_right, exists_eq_right,
      Std.TreeMap.mem_toList_iff_getElem?_eq_some, List.isPrefixOf_iff_prefix,
      Std.TreeMap.mem_iff_isSome_getElem?, Option.isSome_iff_exists]
  · rw [findByPrefix_eq_filter, List.forall₂_map_left_iff, List.forall₂_map_right_iff,
      List.forall₂_same]
    intro kv hkv
    have hstored := (List.mem_filter.mp hkv).1
    exact ⟨kv.2, Std.TreeMap.mem_toList_iff_getElem?_eq_some.mp hstored, rfl⟩

end PendingInterestTable

namespace ForwardingEngine

variable {cfg : EngineConfig} {w w' : EngineWorld} {port : Port} {pending : List Interest}

/-! ## One pass of the loop -/

/-- `e` sends `interest` again, now and by the given port. -/
structure Resends (now : Nat) (port : Port) (interest : Interest) (e : Scheduled EngineEvent) :
    Prop where
  event : ∃ retx : Interest, e.event = .doDelayedPullSend retx port ∧
    retx.name = interest.name ∧ retx.selectors = interest.selectors ∧
    retx.lifetime = interest.lifetime
  ts : e.ts = now

/-- Exactly the Interests of a list are scheduled and counted, and the pending Interest
table is left alone. -/
def Schedules (port : Port) (pending : List Interest) (w w' : EngineWorld) : Prop :=
  ∃ added, w'.env.rest.events = w.env.rest.events ++ added ∧
    List.Forall₂ (Resends w.clock.now port) pending added ∧
    w'.env.rest.counters .pendingPullsScheduled =
      w.env.rest.counters .pendingPullsScheduled + pending.length ∧
    w'.env.rest.pit = w.env.rest.pit

theorem setNonce_frame (nonce : UInt32) (buffers : Buffers) (interest : Interest) :
    (interest.setNonce nonce buffers).1.name = interest.name ∧
      (interest.setNonce nonce buffers).1.selectors = interest.selectors ∧
      (interest.setNonce nonce buffers).1.lifetime = interest.lifetime := by
  rcases Interest.setNonce_cases nonce buffers interest with ⟨_, -, -, -, heq⟩ | heq
  · rw [heq]
    exact ⟨rfl, rfl, rfl⟩
  · rw [heq]
    exact ⟨rfl, rfl, rfl⟩

theorem refreshNonce_frame {word : UInt32 → UInt32} {buffers buffers' : Buffers}
    {interest retx : Interest}
    (h : interest.refreshNonce word buffers = some (retx, buffers')) :
    retx.name = interest.name ∧ retx.selectors = interest.selectors ∧
      retx.lifetime = interest.lifetime := by
  unfold Interest.refreshNonce at h
  split at h
  · obtain ⟨old, -, heq⟩ := Option.map_eq_some_iff.mp h
    have hframe := setNonce_frame (word old) buffers interest
    rw [heq] at hframe
    exact hframe
  · cases h
    exact ⟨rfl, rfl, rfl⟩

/-- `refreshNonce` throws on a Nonce that cannot be read. -/
theorem isSome_refreshNonce_iff (word : UInt32 → UInt32) (buffers : Buffers)
    (interest : Interest) :
    (interest.refreshNonce word buffers).isSome = true ↔ interest.Readable buffers := by
  unfold Interest.refreshNonce Interest.Readable
  split
  next hnonce => simp [hnonce]
  next hnonce => simp [hnonce]

/-- What one refreshed Nonce leaves readable. -/
theorem readable_refreshNonce_iff {word : UInt32 → UInt32} {buffers buffers' : Buffers}
    {interest retx other : Interest}
    (h : interest.refreshNonce word buffers = some (retx, buffers'))
    (hallocated : other.Allocated buffers) :
    other.Allocated buffers' ∧ (other.Readable buffers' ↔ other.Readable buffers) := by
  unfold Interest.refreshNonce at h
  split at h
  · obtain ⟨old, -, heq⟩ := Option.map_eq_some_iff.mp h
    have hbuffers : buffers' = (interest.setNonce (word old) buffers).2 :=
      (congrArg Prod.snd heq).symm
    rw [hbuffers]
    refine ⟨fun buffer hbuffer => ?_, ?_, ?_⟩
    · exact Nat.lt_of_lt_of_le (hallocated buffer hbuffer) (Interest.length_le_setNonce _ _ _)
    · exact Interest.Readable.of_setNonce hallocated
    · exact fun hread => hread.setNonce _ _
  · cases h
    exact ⟨hallocated, Iff.rfl⟩

/-- A pass that completes has scheduled every Interest. -/
theorem schedules_pullAll (h : pullAll cfg port pending w = .ok w') :
    Schedules port pending w w' := by
  induction pending generalizing w with
  | nil =>
      obtain rfl : w = w' := Except.ok.inj h
      exact ⟨[], (List.append_nil _).symm, .nil, rfl, rfl⟩
  | cons interest rest ih =>
      rw [pullAll] at h
      split at h
      · cases h
      next retx buffers hrefresh =>
        obtain ⟨added, hevents, hresends, hcount, hpit⟩ := ih h
        obtain ⟨hname, hselectors, hlifetime⟩ := refreshNonce_frame hrefresh
        have hresent : Resends w.clock.now port interest
            (w.clock.schedule 0 (.doDelayedPullSend retx port)) :=
          ⟨⟨retx, rfl, hname, hselectors, hlifetime⟩, rfl⟩
        refine ⟨_ :: added, ?_, .cons hresent hresends, ?_, hpit⟩
        · rw [hevents]
          exact List.append_assoc _ [_] _
        · rw [hcount, List.length_cons]
          exact Nat.add_right_comm _ 1 _

/-- A pass completes exactly if all Nonces can be read. -/
theorem pullAll_completes_iff (hallocated : ∀ i ∈ pending, i.Allocated w.env.rest.buffers) :
    (∃ w', pullAll cfg port pending w = .ok w') ↔
      ∀ i ∈ pending, i.Readable w.env.rest.buffers := by
  induction pending generalizing w with
  | nil => exact ⟨fun _ i hi => absurd hi List.not_mem_nil, fun _ => ⟨w, rfl⟩⟩
  | cons interest rest ih =>
      rw [List.forall_mem_cons, ← isSome_refreshNonce_iff (cfg.word32 w.env.rest.words)]
      cases hrefresh : interest.refreshNonce (cfg.word32 w.env.rest.words) w.env.rest.buffers with
      | none => simp [pullAll, hrefresh]
      | some refreshed =>
          obtain ⟨retx, buffers⟩ := refreshed
          have hrest : ∀ i ∈ rest, i.Allocated buffers ∧
              (i.Readable buffers ↔ i.Readable w.env.rest.buffers) := fun i hi =>
            readable_refreshNonce_iff hrefresh (hallocated i (List.mem_cons_of_mem _ hi))
          have hpass := ih (w := schedulePull retx buffers port w) fun i hi => (hrest i hi).1
          simp only [pullAll, hrefresh, Option.isSome_some, true_and]
          rw [hpass]
          exact forall₂_congr fun i hi => (hrest i hi).2

/-! ## The selection -/

/-- `pullPendingInterests` schedules exactly the first Interests that `findByPrefix` lists,
as many as the limit allows. -/
def Reforwards (cfg : EngineConfig) (p : Name) (port : Port) (w : EngineWorld) : Prop :=
  ∃ w' selected, pullPendingInterests cfg p port w = .ok w' ∧
    selected <+: w.env.rest.pit.findByPrefix p ∧
    (selected.length : Int) =
      max 0 (min cfg.interestReforwardingLimit (w.env.rest.pit.findByPrefix p).length) ∧
    Schedules port selected w w'

theorem length_pulled (cfg : EngineConfig) (p : Name) (w : EngineWorld) :
    ((pulled cfg p w).length : Int) =
      max 0 (min cfg.interestReforwardingLimit (w.env.rest.pit.findByPrefix p).length) := by
  rw [pulled, List.length_take]
  omega

theorem reforwards_iff (cfg : EngineConfig) (p : Name) (port : Port) (w : EngineWorld) :
    Reforwards cfg p port w ↔ ∃ w', pullPendingInterests cfg p port w = .ok w' := by
  constructor
  · rintro ⟨w', -, hpull, -⟩
    exact ⟨w', hpull⟩
  · rintro ⟨w', hpull⟩
    have hschedules : Schedules port (pulled cfg p w) (count .pullInvocations w) w' :=
      schedules_pullAll hpull
    exact ⟨w', _, hpull, List.take_prefix _ _, length_pulled cfg p w, hschedules⟩

/-- The saved Interests of a prefix are listed exactly, and reforwarding sends exactly the
first of them again, if and only if those have no Nonce or one that `getNonce` can read. -/
theorem reforwarding_exact (cfg : EngineConfig) (p : Name) (port : Port) (w : EngineWorld)
    (hallocated : ∀ (n : Name) (entry : PendingEntry), w.env.rest.pit.entries[n]? = some entry →
      entry.interest.Allocated w.env.rest.buffers) :
    w.env.rest.pit.Lists p (w.env.rest.pit.findByPrefix p) ∧
      (Reforwards cfg p port w ↔
        ∀ i ∈ (w.env.rest.pit.findByPrefix p).take cfg.interestReforwardingLimit.toNat,
          i.Readable w.env.rest.buffers) := by
  refine ⟨PendingInterestTable.lists_findByPrefix p _, ?_⟩
  rw [reforwards_iff]
  refine pullAll_completes_iff (w := count .pullInvocations w) fun i hi => ?_
  obtain ⟨n, entry, hentry, -, rfl⟩ :=
    PendingInterestTable.mem_findByPrefix.mp (List.mem_of_mem_take hi)
  exact hallocated n entry hentry

/-- The sample engine with a limit of two reforwarded Interests. -/
def limitedEngineConfig : EngineConfig :=
  { sampleEngineConfig with
    interestReforwardingLimit := 2
    entryLifetime_eq := rfl
    guards_eq := rfl }

/-- Interests are pending for `/b`, `/a/b`, `/a` and `/a/c`. -/
def crowdedWorld : EngineWorld :=
  arrived limitedEngineConfig 4 (.interest [.generic [0x61], .generic [0x63]] {} [4, 0, 0, 0] none)
    (arrived limitedEngineConfig 3 (.interest [.generic [0x61]] {} [3] none)
      (arrived limitedEngineConfig 2 (contentInterest 2)
        (arrived limitedEngineConfig 1 (.interest [.generic [0x62]] {} [1, 0, 0] none)
          sampleEngine)))

/-- Of three Interests under the prefix the first two are sent again.  The Nonce that
cannot be read belongs to an Interest beside the prefix. -/
theorem reforwarding_exact_crowdedWorld :
    (crowdedWorld.env.rest.pit.findByPrefix [.generic [0x61]]).map (·.name) =
        [[.generic [0x61]], contentName, [.generic [0x61], .generic [0x63]]] ∧
      crowdedWorld.env.rest.pit.size = 4 ∧
      Reforwards limitedEngineConfig [.generic [0x61]] 7 crowdedWorld := by
  have hallocated : ∀ (n : Name) (entry : PendingEntry),
      crowdedWorld.env.rest.pit.entries[n]? = some entry →
        entry.interest.Allocated crowdedWorld.env.rest.buffers := by
    intro n entry hentry buffer hbuffer
    have hmem : (n, entry) ∈ crowdedWorld.env.rest.pit.entries.toList :=
      Std.TreeMap.mem_toList_iff_getElem?_eq_some.mpr hentry
    have hentries : ∀ kv ∈ crowdedWorld.env.rest.pit.entries.toList,
        kv.2.interest.nonce.getD 0 < crowdedWorld.env.rest.buffers.length := by decide
    have hlt := hentries _ hmem
    rwa [hbuffer] at hlt
  refine ⟨by decide, by decide, ?_⟩
  refine (reforwarding_exact limitedEngineConfig [.generic [0x61]] 7 crowdedWorld
    hallocated).2.mpr ?_
  unfold Interest.Readable
  decide

/-! ## A Nonce that cannot be read -/

/-- An Interest whose Nonce has three octets is pending. -/
def oddNonceWorld : EngineWorld :=
  arrived sampleEngineConfig 1 (.interest contentName {} [1, 0, 0] none) sampleEngine

/-- Its Nonce is in its buffer, and an update for its prefix ends in an exception. -/
theorem not_reforwards_oddNonceWorld :
    (∃ steps, EngineRun sampleEngineConfig sampleEngine steps (.ok oddNonceWorld)) ∧
      oddNonceWorld.env.rest.buffers = [[1, 0, 0]] ∧
      (oddNonceWorld.env.rest.pit.findByPrefix (contentName.take 1)).map (·.nonce) = [some 0] ∧
      sampleEngineConfig.interestReforwardingLimit = 30 ∧
      ¬Reforwards sampleEngineConfig (contentName.take 1) 7 oddNonceWorld := by
  refine ⟨⟨_, EngineRun.arrive (.start isInitial_sampleEngine) 1 _⟩, rfl, by decide, rfl, ?_⟩
  rintro ⟨w', -, hpull, -⟩
  have hraised : (pullPendingInterests sampleEngineConfig (contentName.take 1) 7
      oddNonceWorld).isOk = false := by decide
  rw [hpull] at hraised
  cases hraised

end ForwardingEngine

end Statim
