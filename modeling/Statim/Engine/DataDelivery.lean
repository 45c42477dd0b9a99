import Statim.Engine.EngineInvariant

/-!
# Consumption and delivery

Data consumes the pending Interests of every prefix of its name.  Plain Data is
then sent to all their ports; Trace Data for which no Trace Interest with a
positive lifetime is saved is counted as malformed and lost, after the records
of shorter names are gone.
-/

namespace Statim

open Support SwitchPipeline

namespace ForwardingEngine

variable {cfg : EngineConfig} {w w' w₀ : EngineWorld}

/-! ## The saved Trace Interest -/

/-- The scan finds the entry of exactly this name. -/
theorem savedLifetime_eq {pit : PendingInterestTable} (h : pit.PendingInv) (name : Name) :
    savedLifetime name pit =
      ((pit.entries[name]?).map fun entry => toMicroseconds entry.interest.lifetime).getD 0 := by
  unfold savedLifetime
  cases hentry : pit.entries[name]? with
  | none =>
      have hnone : (pit.findByPrefix name).find? (fun pending => pending.name = name) = none := by
        rw [List.find?_eq_none]
        intro pending hpending
        obtain ⟨n, entry, hn, -, rfl⟩ := PendingInterestTable.mem_findByPrefix.mp hpending
        simp only [decide_eq_true_eq]
        intro hname
        rw [h.named n entry hn] at hname
        rw [hname, hentry] at hn
        cases hn
      rw [hnone]
      rfl
  | some entry =>
      have hname := h.named name entry hentry
      cases hfound : (pit.findByPrefix name).find? fun pending => pending.name = name with
      | none =>
          rw [List.find?_eq_none] at hfound
          have hmem : entry.interest ∈ pit.findByPrefix name :=
            PendingInterestTable.mem_findByPrefix.mpr
              ⟨name, entry, hentry, List.prefix_rfl, rfl⟩
          exact absurd (decide_eq_true hname) (hfound _ hmem)
      | some pending =>
          have hsame : pending.name = name := by
            simpa using List.find?_some hfound
          obtain ⟨n, entry', hn, -, rfl⟩ :=
            PendingInterestTable.mem_findByPrefix.mp (List.mem_of_find?_eq_some hfound)
          rw [← hsame, h.named n entry' hn, hn] at hentry
          cases hentry
          rfl

/-- Pending Interests match, but no Trace Interest with a positive lifetime is saved
under exactly this Trace name. -/
def LosesTrace (name : Name) (pit : PendingInterestTable) : Prop :=
  name.judgeNameIsTrace = true ∧ (∃ n : Name, n <+: name ∧ (pit.entries[n]?).isSome = true) ∧
    ∀ entry, pit.entries[name]? = some entry → toMicroseconds entry.interest.lifetime ≤ 0

theorem savedLifetime_nonpos_iff {pit : PendingInterestTable} (h : pit.PendingInv) (name : Name) :
    savedLifetime name pit ≤ 0 ↔
      ∀ entry, pit.entries[name]? = some entry → toMicroseconds entry.interest.lifetime ≤ 0 := by
  rw [savedLifetime_eq h]
  cases pit.entries[name]? with
  | none => simp
  | some entry => simp

/-! ## Records and ports -/

/-- Every ingress record has a port that the bitmap can hold. -/
def PortsFit (w : EngineWorld) : Prop :=
  ∀ (n : Name) (entry : PendingEntry), w.env.rest.pit.entries[n]? = some entry →
    ∀ port ∈ entry.ports, 1 ≤ port ∧ port ≤ 32

/-- Packets arrive on ports that the bitmap can hold. -/
def ArrivesInRange (_ : EngineWorld) (a : EngineAction) : Prop :=
  ∀ inPort packet, a = .receive inPort packet → 1 ≤ inPort ∧ inPort ≤ 32

theorem portsFit_insert {buffers : Buffers} {now : Time} {interest : Interest} {port : Port}
    {t t' : PendingInterestTable} {result : PendingInterestTable.InsertResult}
    (h : t.insert buffers now interest port = some (result, t'))
    (hfit : ∀ (n : Name) (entry : PendingEntry), t.entries[n]? = some entry →
      ∀ p ∈ entry.ports, 1 ≤ p ∧ p ≤ 32) (hport : 1 ≤ port ∧ port ≤ 32) :
    ∀ (n : Name) (entry : PendingEntry), t'.entries[n]? = some entry →
      ∀ p ∈ entry.ports, 1 ≤ p ∧ p ≤ 32 := by
  have hstore : ∀ stored : PendingEntry, (∀ p ∈ stored.ports, 1 ≤ p ∧ p ≤ 32) →
      ∀ (n : Name) (entry : PendingEntry),
        (t.entries.insert interest.name stored)[n]? = some entry →
          ∀ p ∈ entry.ports, 1 ≤ p ∧ p ≤ 32 := by
    intro stored hstored n entry hentry
    rw [Std.TreeMap.getElem?_insert] at hentry
    split at hentry
    · rwa [← Option.some.inj hentry]
    · exact hfit n entry hentry
  rcases PendingInterestTable.insert_cases h with
    ⟨-, -, rfl⟩ | ⟨entry, hentry, ⟨-, -, rfl⟩ | ⟨-, -, rfl⟩⟩
  · refine hstore _ fun p hp => ?_
    obtain rfl : p = port := by simpa [PendingEntry.ports, PendingInterestTable.recordOf] using hp
    exact hport
  · exact hfit
  · refine hstore _ fun p hp => ?_
    simp only [PendingInterestTable.aggregate, PendingInterestTable.pruneExpiredIngress,
      PendingEntry.ports, List.map_append, List.mem_append, List.map_cons, List.map_nil,
      List.mem_singleton] at hp
    rcases hp with hp | rfl
    · refine hfit _ entry hentry p ?_
      exact (List.filter_sublist.map _).subset hp
    · exact hport

theorem PortsFit.step {a : EngineAction} (h : PortsFit w) (heffect : Effect cfg w w' a)
    (hrange : ArrivesInRange w a) : PortsFit w' := by
  unfold PortsFit at h ⊢
  have htake : ∀ (name n : Name) (entry : PendingEntry),
      (w.env.rest.pit.takeDataMatchPorts name).2.entries[n]? = some entry →
        ∀ port ∈ entry.ports, 1 ≤ port ∧ port ≤ 32 := by
    intro name n entry hentry
    rw [PendingInterestTable.getElem?_takeDataMatchPorts] at hentry
    split at hentry
    · cases hentry
    · exact h n entry hentry
  cases heffect with
  | quiet _ hquiet =>
      rw [hquiet.pit]
      exact h
  | @accept inPort packet name pit haccepts haccepted =>
      obtain ⟨-, selectors, nonce, lifetime, result, -, hinsert, -⟩ := haccepts
      rw [haccepted.pit]
      exact portsFit_insert hinsert h (hrange inPort packet rfl)
  | discard _ hdiscarded =>
      rw [hdiscarded.pit]
      exact htake _
  | deliver _ hdelivered =>
      rw [hdelivered.pit]
      exact htake _

/-! ## Consumed records -/

/-- Every record that the step removes from the table gets the Data. -/
def DeliversConsumed (data : Data) (w w' : EngineWorld) : Prop :=
  ∀ (n : Name) (entry : PendingEntry) (record : IngressRecord),
    w.env.rest.pit.entries[n]? = some entry → record ∈ entry.ingress →
    (∀ entry', w'.env.rest.pit.entries[n]? = some entry' → record ∉ entry'.ingress) →
    ∃ news, w'.env.rest.log = w.env.rest.log ++ news ∧ .sentData record.port data ∈ news

/-- A record is gone only if its name is a prefix of the Data's. -/
theorem isPrefix_of_consumed {name n : Name} {pit : PendingInterestTable}
    {entry : PendingEntry} {record : IngressRecord} (hentry : pit.entries[n]? = some entry)
    (hrecord : record ∈ entry.ingress)
    (hgone : ∀ entry', (pit.takeDataMatchPorts name).2.entries[n]? = some entry' →
      record ∉ entry'.ingress) : n <+: name := by
  by_contra hnot
  refine hgone entry ?_ hrecord
  rw [PendingInterestTable.getElem?_takeDataMatchPorts, if_neg hnot]
  exact hentry

/-- Pending state is consumed only by Data that is delivered, unless Trace Data meets
pending Interests of shorter names and no saved Trace Interest of its own. -/
theorem deliversConsumed_iff {steps : List Step} {r : Handled}
    (hrun : EngineRun cfg w₀ steps r)
    (hrange : ∀ s ∈ steps, ArrivesInRange s.before s.action) {s : Step} (hs : s ∈ steps)
    {inPort : Port} {data : Data} {header : PacketHeader}
    (haction : s.action = .fire (.processDataAfterDelay inPort data header))
    (hok : s.outcome = .ok w') :
    DeliversConsumed data s.before w' ↔ ¬LosesTrace data.name s.before.env.rest.pit := by
  obtain ⟨hinv, hstep⟩ := hrun.inv.2 s hs
  have hfit : PortsFit s.before := by
    refine (EngineRun.preserves PortsFit ArrivesInRange (fun hinitial => ?_) ?_ hrun hrange).2 s hs
    · intro n entry hentry
      rw [hinitial.pit] at hentry
      simp [PendingInterestTable.empty] at hentry
    · intro w a r w' hinv hfit hmeets hstep hr
      exact hfit.step (hinv.step hstep hr).2 hmeets
  have heffect := (hinv.step hstep hok).2
  rw [haction] at heffect
  cases heffect with
  | quiet hother => exact absurd rfl (hother inPort data header)
  | discard hdiscards hdiscarded =>
      constructor
      · rintro hdelivers ⟨-, ⟨n, hprefix, hpending⟩, -⟩
        obtain ⟨entry, hentry⟩ := Option.isSome_iff_exists.mp hpending
        obtain ⟨record, hrecord⟩ :=
          List.exists_mem_of_ne_nil _ (hinv.pit.recorded n entry hentry)
        obtain ⟨news, hlog, hsent⟩ := hdelivers n entry record hentry hrecord fun entry' h => by
          rw [hdiscarded.pit, PendingInterestTable.getElem?_takeDataMatchPorts,
            if_pos hprefix] at h
          cases h
        -- discarded Data is sent nowhere
        rw [hdiscarded.log] at hlog
        rw [List.self_eq_append_right.mp hlog] at hsent
        exact absurd hsent List.not_mem_nil
      · intro hkeeps n entry record hentry hrecord hgone
        rw [hdiscarded.pit] at hgone
        have hprefix := isPrefix_of_consumed hentry hrecord hgone
        have hpending : ∃ n : Name, n <+: data.name ∧
            (s.before.env.rest.pit.entries[n]?).isSome = true :=
          ⟨n, hprefix, by rw [hentry]; rfl⟩
        rcases hdiscards with hempty | ⟨htrace, hzero⟩
        · rw [hinv.pit.isEmpty_iff.mp hempty n hprefix] at hentry
          cases hentry
        · exact absurd ⟨htrace, hpending, (savedLifetime_nonpos_iff hinv.pit _).mp hzero⟩ hkeeps
  | deliver hkeep hdelivered =>
      have hnotLost : ¬LosesTrace data.name s.before.env.rest.pit := by
        rintro ⟨htrace, -, hzero⟩
        exact hkeep (Or.inr ⟨htrace, (savedLifetime_nonpos_iff hinv.pit _).mpr hzero⟩)
      refine iff_of_true ?_ hnotLost
      intro n entry record hentry hrecord hgone
      rw [hdelivered.pit] at hgone
      have hprefix := isPrefix_of_consumed hentry hrecord hgone
      have hport : record.port ∈ entry.ports := List.mem_map_of_mem hrecord
      refine ⟨_, hdelivered.log, List.mem_map.mpr ⟨record.port, ?_, rfl⟩⟩
      refine mem_maskPorts_encodeOutPortsMask.mpr ⟨(hfit n entry hentry _ hport).1,
        (hfit n entry hentry _ hport).2, ?_⟩
      rw [Std.TreeSet.mem_toList]
      exact PendingInterestTable.mem_takeDataMatchPorts.mpr ⟨n, entry, hprefix, hentry, hport⟩

/-! ## Trace Data that is lost -/

/-- An Interest for the first component of the Trace name is pending. -/
def ancestorWorld : EngineWorld :=
  arrived sampleEngineConfig 1 (.interest (traceName.take 1) {} [1, 0, 0, 0] none) sampleEngine

/-- Trace Data arrives before any Trace Interest. -/
def strandedWorld : EngineWorld :=
  arrived sampleEngineConfig 2 traceData (rejected (traceName.take 1) (takeFirst ancestorWorld))

/-- The Data has consumed the Interest and is gone. -/
def lostWorld : EngineWorld :=
  count .malformedPackets (setPit
    (strandedWorld.env.rest.pit.takeDataMatchPorts traceName).2 (takeFirst strandedWorld))

/-- The header of received Data after one hop. -/
def hopHeader : PacketHeader := PacketHeader.empty.setSwitchId 1

theorem run_strandedWorld :
    ∃ steps, EngineRun sampleEngineConfig sampleEngine steps (.ok strandedWorld) ∧
      ∀ s ∈ steps, ArrivesInRange s.before s.action := by
  have hasked := EngineRun.arrive (.start isInitial_sampleEngine) 1
    (.interest (traceName.take 1) {} [1, 0, 0, 0] none)
  have hrejected := hasked.fireInterest (by rfl) (by decide) (by rfl)
    (fib_initPipeline EntrySort.mergeSort)
  refine ⟨_, hrejected.arrive 2 traceData, ?_⟩
  refine forall_steps_append (forall_steps_append (forall_steps_append (by simp) ?_) ?_) ?_
  · rintro inPort packet ⟨⟩
    decide
  · rintro inPort packet ⟨⟩
  · rintro inPort packet ⟨⟩
    decide

theorem fire_strandedWorld :
    ∃ e, strandedWorld.env.rest.events.head? = some e ∧
      e.event = .processDataAfterDelay 2 receivedTrace hopHeader ∧ IsDue strandedWorld e.key ∧
      ForwardingEngine.fire sampleEngineConfig e strandedWorld = .ok lostWorld :=
  ⟨_, rfl, rfl, by decide, rfl⟩

/-- The record of the pending Interest is consumed, and its port gets no Data. -/
theorem not_deliversConsumed_lostWorld :
    ∃ steps, EngineRun sampleEngineConfig sampleEngine steps (.ok lostWorld) ∧
      (∀ s ∈ steps, ArrivesInRange s.before s.action) ∧
      ∃ s ∈ steps, s.action = .fire (.processDataAfterDelay 2 receivedTrace hopHeader) ∧
        s.outcome = .ok lostWorld ∧ ¬DeliversConsumed receivedTrace s.before lostWorld := by
  obtain ⟨steps, hrun, hrange⟩ := run_strandedWorld
  obtain ⟨e, he, hevent, hdue, hfire⟩ := fire_strandedWorld
  have hlost := hrun.fireNext he hdue hfire
  rw [hevent] at hlost
  refine ⟨_, hlost, forall_steps_append hrange ?_, _, List.mem_append_right _ List.mem_cons_self,
    rfl, rfl, ?_⟩
  · rintro inPort packet ⟨⟩
  · intro hdelivers
    obtain ⟨news, hlog, hsent⟩ := hdelivers (traceName.take 1) _ ⟨1, 0, 4000000⟩ rfl (by decide)
      (by decide)
    have hnone : news = [] := List.self_eq_append_right.mp (show _ = _ ++ news from hlog)
    rw [hnone] at hsent
    exact absurd hsent List.not_mem_nil

theorem deliversConsumed_iff_strandedWorld :
    ∃ s : Step, s.before = strandedWorld ∧ (DeliversConsumed receivedTrace s.before lostWorld ↔
      ¬LosesTrace traceName s.before.env.rest.pit) := by
  obtain ⟨steps, hrun, hrange⟩ := run_strandedWorld
  obtain ⟨e, he, hevent, hdue, hfire⟩ := fire_strandedWorld
  have hlost := hrun.fireNext he hdue hfire
  rw [hevent] at hlost
  refine ⟨⟨strandedWorld, .fire (.processDataAfterDelay 2 receivedTrace hopHeader),
    .ok lostWorld⟩, rfl, deliversConsumed_iff hlost (forall_steps_append hrange ?_)
      (List.mem_append_right _ List.mem_cons_self) rfl rfl⟩
  rintro inPort packet ⟨⟩

end ForwardingEngine

end Statim
