import Statim.Engine.EngineInvariant

/-!
# Flow balance

One accepted Interest is worth one Data packet: the ingress records of the pending
Interest table are the Data still owed to each port.  A hit in the content store
breaks the balance, since it answers an Interest whose record stays behind and can
be satisfied again.
-/

namespace Statim

open Support SwitchPipeline

namespace ForwardingEngine

variable {cfg : EngineConfig} {w w' w₀ : EngineWorld}

/-- Data sent to a port. -/
def isDataTo (port : Port) : EngineObs → Bool
  | .sentData p _ => decide (p = port)
  | _ => false

/-- An Interest accepted from a port. -/
def isAcceptedFrom (port : Port) : EngineObs → Bool
  | .accepted p _ => decide (p = port)
  | _ => false

def dataSent (port : Port) (w : EngineWorld) : Nat := w.env.rest.log.countP (isDataTo port)

def interestsAccepted (port : Port) (w : EngineWorld) : Nat :=
  w.env.rest.log.countP (isAcceptedFrom port)

/-- The step answers an accepted Interest from the content store. -/
def AnswersFromStore (w : EngineWorld) (a : EngineAction) : Prop :=
  ∃ inPort packet name pit, a = .receive inPort packet ∧ Accepts w inPort packet name pit ∧
    (w.env.rest.cs.find name).isSome = true

/-- Data sent and Data owed do not exceed the accepted Interests. -/
def Balanced (port : Port) (w : EngineWorld) : Prop :=
  dataSent port w + w.env.rest.pit.pendingOf port ≤ interestsAccepted port w

theorem count_dataPorts_le (port : Port) (name : Name) (pit : PendingInterestTable) :
    (dataPorts name pit).count port ≤
      pit.pendingOf port - (pit.takeDataMatchPorts name).2.pendingOf port := by
  have hnodup : (dataPorts name pit).Nodup := (pairwise_maskPorts _).imp Nat.ne_of_lt
  by_cases hport : port ∈ dataPorts name pit
  · have htaken : port ∈ (pit.takeDataMatchPorts name).1 := by
      have hmem := (mem_maskPorts_encodeOutPortsMask.mp hport).2.2
      exact Std.TreeSet.mem_toList.mp hmem
    have hlt := PendingInterestTable.pendingOf_takeDataMatchPorts_lt htaken
    have hone := List.nodup_iff_count_le_one.mp hnodup port
    omega
  · rw [List.count_eq_zero_of_not_mem hport]
    exact Nat.zero_le _

theorem countP_sentInterest {news : List EngineObs} {f : EngineObs → Bool}
    (hf : ∀ port name selectors nonce lifetime,
      f (.sentInterest port name selectors nonce lifetime) = false)
    (hnews : ∀ o ∈ news, ∃ port name selectors nonce lifetime,
      o = .sentInterest port name selectors nonce lifetime) :
    news.countP f = 0 := by
  rw [List.countP_eq_zero]
  intro o ho
  obtain ⟨port, name, selectors, nonce, lifetime, rfl⟩ := hnews o ho
  simp [hf]

theorem countP_sentData (port : Port) (data : Data) (ports : List Port) :
    (ports.map fun p => EngineObs.sentData p data).countP (isDataTo port) = ports.count port := by
  rw [List.countP_map, List.count]
  refine List.countP_congr fun p _ => ?_
  simp [isDataTo]

/-- A step that does not answer from the store keeps the balance. -/
theorem Balanced.step {port : Port} {a : EngineAction} (h : Balanced port w)
    (heffect : Effect cfg w w' a) (hmiss : ¬AnswersFromStore w a) : Balanced port w' := by
  unfold Balanced dataSent interestsAccepted at h ⊢
  cases heffect with
  | quiet _ hquiet =>
      obtain ⟨news, hlog, hnews⟩ := hquiet.log
      rw [hquiet.pit, hlog, List.countP_append, List.countP_append,
        countP_sentInterest (fun _ _ _ _ _ => rfl) hnews,
        countP_sentInterest (fun _ _ _ _ _ => rfl) hnews]
      exact h
  | @accept inPort packet name pit haccepts haccepted =>
      have hnone : w.env.rest.cs.find name = none := by
        cases hfind : w.env.rest.cs.find name with
        | none => rfl
        | some cached =>
            refine absurd ⟨inPort, packet, name, pit, rfl, haccepts, ?_⟩ hmiss
            rw [hfind]
            rfl
      obtain ⟨-, selectors, nonce, lifetime, result, -, hinsert, hok⟩ := haccepts
      have hstored := PendingInterestTable.pendingOf_insert_le hinsert port
      rw [haccepted.pit, haccepted.log, hnone, List.countP_append, List.countP_append]
      by_cases hport : inPort = port
      · simp only [hok, hport, and_self, if_true] at hstored
        simp [isDataTo, isAcceptedFrom, hport]
        omega
      · simp only [hport, and_false, if_false, Nat.add_zero] at hstored
        simp [isDataTo, isAcceptedFrom, hport]
        omega
  | @discard inPort data header hdiscards hdiscarded =>
      have hle := PendingInterestTable.pendingOf_takeDataMatchPorts_le data.name
        w.env.rest.pit port
      rw [hdiscarded.pit, hdiscarded.log]
      omega
  | @deliver inPort data header hkeep hdelivered =>
      have hle := PendingInterestTable.pendingOf_takeDataMatchPorts_le data.name
        w.env.rest.pit port
      have hcount := count_dataPorts_le port data.name w.env.rest.pit
      have haccepted : ((dataPorts data.name w.env.rest.pit).map fun p =>
          EngineObs.sentData p data).countP (isAcceptedFrom port) = 0 := by
        simp [List.countP_map, List.countP_eq_zero, isAcceptedFrom]
      rw [hdelivered.pit, hdelivered.log, List.countP_append, List.countP_append,
        countP_sentData, haccepted]
      omega

/-- Flow balance: in every run in which the content store answers no accepted
Interest, no port gets more Data than it had Interests accepted. -/
theorem flow_balance {steps : List Step} (hrun : EngineRun cfg w₀ steps (.ok w))
    (hmiss : ∀ s ∈ steps, ¬AnswersFromStore s.before s.action) (port : Port) :
    dataSent port w ≤ interestsAccepted port w := by
  have hbalanced : Balanced port w := by
    refine (EngineRun.preserves (Balanced port) (fun w a => ¬AnswersFromStore w a)
      (fun hinitial => ?_) ?_ hrun hmiss).1 w rfl
    · simp [Balanced, dataSent, interestsAccepted, hinitial.log, hinitial.pit,
        PendingInterestTable.pendingOf, PendingInterestTable.empty]
    · intro w a r w' hinv hbefore hmeets hstep hr
      exact hbefore.step (hinv.step hstep hr).2 hmeets
  exact Nat.le_trans (Nat.le_add_right _ _) hbalanced

/-! ## A second answer for one Interest -/

/-- The Interest has no route; Data arrives and goes to port 1. -/
def repliedWorld : EngineWorld :=
  delivered sampleEngineConfig receivedData (takeFirst
    (arrived sampleEngineConfig 2 contentData (rejected contentName (takeFirst requestedWorld))))

/-- A second Interest is answered from the store, and later by Data. -/
def overpaidWorld : EngineWorld :=
  delivered sampleEngineConfig receivedData (takeFirst
    (arrived sampleEngineConfig 2 contentData
      (arrived sampleEngineConfig 1 (contentInterest 2) repliedWorld)))

/-- An Interest whose name the store does not find is not answered from the store. -/
theorem not_answersFromStore_receive {inPort : Port} {packet : RawPacket} {name : Name}
    {selectors : Selectors} {nonce : Bytes} {lifetime : Option UInt64}
    (hpayload : packet.payload = .interest name selectors nonce lifetime)
    (hmiss : w.env.rest.cs.find name = none) :
    ¬AnswersFromStore w (.receive inPort packet) := by
  rintro ⟨p, q, found, pit, haction, ⟨-, selectors', nonce', lifetime', result, hq, -⟩, hfind⟩
  obtain ⟨rfl, rfl⟩ := EngineAction.receive.inj haction
  obtain ⟨rfl, -⟩ := Payload.interest.inj (hpayload.symm.trans hq)
  rw [hmiss] at hfind
  cases hfind

theorem run_repliedWorld :
    ∃ steps, EngineRun sampleEngineConfig sampleEngine steps (.ok repliedWorld) ∧
      ∀ s ∈ steps, ¬AnswersFromStore s.before s.action := by
  have hrejected := run_requestedWorld.fireInterest (by rfl) (by decide) (by rfl)
    (fib_initPipeline EntrySort.mergeSort)
  have hdelivered := (hrejected.arrive 2 contentData).fireData (by rfl) (by decide) (by decide)
    (by decide)
  refine ⟨_, hdelivered, ?_⟩
  intro s hs
  simp only [List.mem_append, List.mem_singleton] at hs
  rcases hs with ((rfl | rfl) | rfl) | rfl
  · -- the store is empty when the Interest arrives
    exact not_answersFromStore_receive rfl rfl
  · rintro ⟨_, _, _, _, haction, -⟩
    cases haction
  · rintro ⟨_, _, _, _, haction, ⟨-, _, _, _, _, hpayload, -⟩, -⟩
    cases haction
    cases hpayload
  · rintro ⟨_, _, _, _, haction, -⟩
    cases haction

/-- The Interest is paid by the Data, which is stored; the next Interest is for another
name. -/
theorem flow_balance_repliedWorld :
    ∃ w, (∃ steps, EngineRun sampleEngineConfig sampleEngine steps (.ok w)) ∧
      (w.env.rest.cs.find contentName).isSome = true ∧
      interestsAccepted 1 w = 2 ∧ dataSent 1 w = 1 ∧
      dataSent 1 w ≤ interestsAccepted 1 w := by
  obtain ⟨steps, hreplied, hmiss⟩ := run_repliedWorld
  have hrun := hreplied.arrive 1 (.interest (contentName.take 1) {} [2, 0, 0, 0] none)
  refine ⟨_, ⟨_, hrun⟩, by decide, by decide, by decide, flow_balance hrun ?_ 1⟩
  intro s hs
  rcases List.mem_append.mp hs with hs | hs
  · exact hmiss s hs
  · rw [List.mem_singleton.mp hs]
    exact not_answersFromStore_receive rfl (by decide)

/-- The second Interest from port 1 is paid twice. -/
theorem not_balanced_overpaidWorld :
    (∃ steps, EngineRun sampleEngineConfig sampleEngine steps (.ok overpaidWorld)) ∧
      interestsAccepted 1 overpaidWorld = 2 ∧ dataSent 1 overpaidWorld = 3 := by
  obtain ⟨steps, hreplied, -⟩ := run_repliedWorld
  refine ⟨?_, by decide, by decide⟩
  exact ⟨_, ((hreplied.arrive 1 (contentInterest 2)).arrive 2 contentData).fireData (by rfl)
    (by decide) (by decide) (by decide)⟩

end ForwardingEngine

end Statim
