import Statim.Engine.Origins
import Statim.Stateful.Eviction

/-!
# Provenance

The engine makes up neither requests nor content.  An Interest that it holds or
sends was accepted before; Data that it holds or sends has arrived with the same
name and the same octets; and Data is sent only to a port from which an Interest
for a prefix of its name was accepted.
-/

namespace Statim

open Support SwitchPipeline

namespace ForwardingEngine

variable {cfg : EngineConfig} {w w' w₀ : EngineWorld} {a : EngineAction}

/-- An Interest with this name has been accepted. -/
def Asked (name : Name) (w : EngineWorld) : Prop :=
  ∃ port, .accepted port name ∈ w.env.rest.log

/-! ## Interests -/

/-- Whatever the engine does about Interests, and whatever Data it sends, answers
Interests that were accepted. -/
structure Solicited (w : EngineWorld) : Prop where
  pending : ∀ (n : Name) (entry : PendingEntry), w.env.rest.pit.entries[n]? = some entry →
    ∀ port ∈ entry.ports, .accepted port n ∈ w.env.rest.log
  waiting : ∀ e ∈ w.env.rest.events, ∀ inPort interest header,
    e.event = .processInterestAfterDelay inPort interest header → Asked interest.name w
  pulled : ∀ e ∈ w.env.rest.events, ∀ interest port,
    e.event = .doDelayedPullSend interest port → Asked interest.name w
  cached : ∀ n data, w.env.rest.cs.find n = some data → data.name = n
  sentInterest : ∀ port name selectors nonce lifetime,
    .sentInterest port name selectors nonce lifetime ∈ w.env.rest.log → Asked name w
  sentData : ∀ port data, .sentData port data ∈ w.env.rest.log →
    ∃ n, n <+: data.name ∧ .accepted port n ∈ w.env.rest.log

theorem Solicited.initial (h : IsInitial cfg w) : Solicited w where
  pending n entry hentry := by
    rw [h.pit] at hentry
    simp [PendingInterestTable.empty] at hentry
  waiting e he := by
    rw [h.events] at he
    exact absurd he List.not_mem_nil
  pulled e he := by
    rw [h.events] at he
    exact absurd he List.not_mem_nil
  cached n data hdata := by
    rw [ContentStore.find, h.cs] at hdata
    simp at hdata
  sentInterest port name selectors nonce lifetime hsent := by
    rw [h.log] at hsent
    exact absurd hsent List.not_mem_nil
  sentData port data hsent := by
    rw [h.log] at hsent
    exact absurd hsent List.not_mem_nil

/-- A pending Interest was accepted, since its entry has a record. -/
theorem Solicited.asked (h : Solicited w) (hpit : w.env.rest.pit.PendingInv) {n : Name}
    {entry : PendingEntry} (hentry : w.env.rest.pit.entries[n]? = some entry) :
    Asked n w := by
  obtain ⟨record, hrecord⟩ := List.exists_mem_of_ne_nil _ (hpit.recorded n entry hentry)
  exact ⟨record.port, h.pending n entry hentry _ (List.mem_map_of_mem hrecord)⟩

/-- What becomes of a packet with an Interest that is accepted. -/
theorem Accepts.accepted (cfg : EngineConfig) {inPort : Port} {packet : RawPacket} {name : Name}
    {pit : PendingInterestTable} (h : Accepts w inPort packet name pit) :
    Accepted inPort name pit w (Handled.world (onReceiveRawPacket cfg inPort packet w)) := by
  obtain ⟨⟨header, hheader, hin, hstateful⟩, selectors, nonce, lifetime, result, hpayload,
    hinsert, hok⟩ := h
  have hinsert : (count .interestsReceived (modify (fun s => { s with
      buffers := (Interest.decode name selectors nonce lifetime
        w.env.rest.buffers).2 }) w)).env.rest.pit.insert
        (Interest.decode name selectors nonce lifetime w.env.rest.buffers).2 w.clock.now
        (Interest.decode name selectors nonce lifetime w.env.rest.buffers).1 inPort =
      some (result, pit) := hinsert
  simp only [onReceiveRawPacket, hheader, hin, hstateful, Bool.false_eq_true, if_false, if_true,
    hpayload, processPayload, processStatefulInterest]
  split
  next hnone => exact absurd (hinsert.symm.trans hnone) (by simp)
  next result' pit' hsome =>
    obtain ⟨rfl, rfl⟩ := Prod.mk.inj (Option.some.inj (hinsert.symm.trans hsome))
    simp only [hok, Bool.not_true, Bool.false_eq_true, if_false]
    split
    next cached hcached =>
      have hcached : w.env.rest.cs.find name = some cached := hcached
      refine ⟨rfl, rfl, ?_⟩
      rw [hcached]
      exact List.append_assoc _ [_] [_]
    next hmiss =>
      have hmiss : w.env.rest.cs.find name = none := hmiss
      refine ⟨rfl, rfl, ?_⟩
      rw [hmiss]
      rfl

/-- A step adds to the log. -/
theorem EngineStep.mem_log (hinv : EngineInv cfg w₀ w) (hstep : EngineStep cfg w a (.ok w'))
    {o : EngineObs} (ho : o ∈ w.env.rest.log) : o ∈ w'.env.rest.log := by
  obtain ⟨news, hlog, -⟩ := (hstep.trail hinv).log
  rw [hlog]
  exact List.mem_append_left _ ho

/-- A newly accepted Interest has just arrived. -/
theorem EngineStep.accepts_of_mem_log (hinv : EngineInv cfg w₀ w)
    (hstep : EngineStep cfg w a (.ok w')) {port : Port} {name : Name}
    (hafter : .accepted port name ∈ w'.env.rest.log)
    (hbefore : .accepted port name ∉ w.env.rest.log) :
    ∃ packet pit, a = .receive port packet ∧ Accepts w port packet name pit := by
  obtain ⟨news, hlog, hnews⟩ := (hstep.trail hinv).log
  rw [hlog] at hafter
  rcases List.mem_append.mp hafter with hold | hnew
  · exact absurd hold hbefore
  · cases hnews _ hnew with
    | accepted haccepts => exact ⟨_, _, rfl, haccepts⟩

/-- An accepted Interest is noted. -/
theorem EngineStep.mem_log_of_accepts {inPort : Port} {packet : RawPacket} {name : Name}
    {pit : PendingInterestTable} (hstep : EngineStep cfg w (.receive inPort packet) (.ok w'))
    (h : Accepts w inPort packet name pit) : .accepted inPort name ∈ w'.env.rest.log := by
  have haccepted := (h.accepted cfg).log
  generalize hr : (.ok w' : Handled) = r at hstep
  cases hstep
  rw [← hr] at haccepted
  have hlog : w'.env.rest.log = w.env.rest.log ++ .accepted inPort name ::
    ((w.env.rest.cs.find name).map fun cached => .sentData inPort cached).toList := haccepted
  rw [hlog]
  exact List.mem_append_right _ List.mem_cons_self

/-- A pending Interest came in through its ports. -/
theorem Solicited.pending_step (h : Solicited w) (hinv : EngineInv cfg w₀ w)
    (hstep : EngineStep cfg w a (.ok w')) {n : Name} {entry : PendingEntry}
    (hentry : w'.env.rest.pit.entries[n]? = some entry) {port : Port}
    (hport : port ∈ entry.ports) : .accepted port n ∈ w'.env.rest.log := by
  obtain ⟨-, heffect⟩ := hinv.step hstep rfl
  cases heffect with
  | quiet _ hquiet =>
      rw [hquiet.pit] at hentry
      exact hstep.mem_log hinv (h.pending n entry hentry port hport)
  | discard _ hdiscarded =>
      rw [hdiscarded.pit, PendingInterestTable.getElem?_takeDataMatchPorts] at hentry
      split at hentry
      · cases hentry
      · exact hstep.mem_log hinv (h.pending n entry hentry port hport)
  | deliver _ hdelivered =>
      rw [hdelivered.pit, PendingInterestTable.getElem?_takeDataMatchPorts] at hentry
      split at hentry
      · cases hentry
      · exact hstep.mem_log hinv (h.pending n entry hentry port hport)
  | @accept inPort packet name pit haccepts haccepted =>
      have hnoted := hstep.mem_log_of_accepts haccepts
      obtain ⟨-, selectors, nonce, lifetime, result, -, hinsert, -⟩ := haccepts
      rw [haccepted.pit] at hentry
      rcases PendingInterestTable.mem_ports_insert hinsert hentry hport with
        ⟨old, hold, hp⟩ | ⟨rfl, rfl, -⟩
      · exact hstep.mem_log hinv (h.pending n old hold port hp)
      · exact hnoted

/-- Stored Data is found under its own name. -/
theorem Solicited.cached_step (h : Solicited w) (hinv : EngineInv cfg w₀ w)
    (hstep : EngineStep cfg w a (.ok w')) {n : Name} {data : Data}
    (hdata : w'.env.rest.cs.find n = some data) : data.name = n := by
  obtain ⟨-, heffect⟩ := hinv.step hstep rfl
  cases heffect with
  | quiet _ hquiet =>
      rw [hquiet.cs] at hdata
      exact h.cached n data hdata
  | accept _ haccepted =>
      rw [haccepted.cs] at hdata
      exact h.cached n data hdata
  | discard _ hdiscarded =>
      rw [hdiscarded.cs] at hdata
      exact h.cached n data hdata
  | deliver _ hdelivered =>
      rw [hdelivered.cs] at hdata
      split at hdata
      · exact h.cached n data hdata
      · rcases ContentStore.find_insert hdata with hold | ⟨rfl, rfl⟩
        · exact h.cached n data hold
        · rfl

theorem Solicited.step (h : Solicited w) (hinv : EngineInv cfg w₀ w)
    (hstep : EngineStep cfg w a (.ok w')) : Solicited w' := by
  have htrail := hstep.trail hinv
  obtain ⟨news, hlog, hnews⟩ := htrail.log
  have hasked : ∀ name, Asked name w → Asked name w' := by
    rintro name ⟨port, hport⟩
    exact ⟨port, hstep.mem_log hinv hport⟩
  refine ⟨fun n entry hentry port => h.pending_step hinv hstep hentry, ?_, ?_,
    fun n data => h.cached_step hinv hstep, ?_, ?_⟩
  · intro e he inPort interest header hevent
    rcases htrail.events e he with hold | hspawned
    · exact hasked _ (h.waiting e hold inPort interest header hevent)
    · rw [hevent] at hspawned
      cases hspawned with
      | interest hdecodes haccepts => exact ⟨inPort, hstep.mem_log_of_accepts haccepts⟩
  · intro e he interest port hevent
    rcases htrail.events e he with hold | hspawned
    · exact hasked _ (h.pulled e hold interest port hevent)
    · rw [hevent] at hspawned
      cases hspawned with
      | pull htrace hpullable hname hlifetime =>
          obtain ⟨n, entry, hentry, -, rfl⟩ := hpullable
          rw [hname, hinv.pit.named n entry hentry]
          exact hasked n (h.asked hinv.pit hentry)
  · intro port name selectors nonce lifetime hsent
    rw [hlog] at hsent
    rcases List.mem_append.mp hsent with hold | hnew
    · exact hasked name (h.sentInterest port name selectors nonce lifetime hold)
    · cases hnews _ hnew with
      | forward hencoded =>
          obtain ⟨e, he, hevent, -⟩ := hstep.exists_of_fire
          rw [(Interest.wireEncode_eq_some hencoded).1]
          exact hasked _ (h.waiting e he _ _ _ hevent)
      | pull hencoded =>
          obtain ⟨e, he, hevent, -⟩ := hstep.exists_of_fire
          rw [(Interest.wireEncode_eq_some hencoded).1]
          exact hasked _ (h.pulled e he _ _ hevent)
  · intro port data hsent
    rw [hlog] at hsent
    rcases List.mem_append.mp hsent with hold | hnew
    · obtain ⟨n, hn, haccepted⟩ := h.sentData port data hold
      exact ⟨n, hn, hstep.mem_log hinv haccepted⟩
    · cases hnews _ hnew with
      | cached haccepts hfind =>
          refine ⟨_, ?_, hstep.mem_log_of_accepts haccepts⟩
          rw [h.cached _ data hfind]
      | data hport =>
          obtain ⟨n, entry, hn, hentry, hp⟩ :=
            PendingInterestTable.mem_takeDataMatchPorts.mp hport
          exact ⟨n, hn, hstep.mem_log hinv (h.pending n entry hentry port hp)⟩

/-! ## The first asker -/

section FirstAsker

variable {name : Name} {port : Port}

/-- The port of an accepted Interest with this name. -/
def acceptedPort (name : Name) : EngineObs → Option Port
  | .accepted port n => if n = name then some port else none
  | _ => none

/-- The port that the first Interest with this name came from. -/
def firstAsked (name : Name) (w : EngineWorld) : Option Port :=
  w.env.rest.log.findSome? (acceptedPort name)

theorem acceptedPort_eq_some {o : EngineObs} :
    acceptedPort name o = some port ↔ o = .accepted port name := by
  cases o with
  | accepted p n =>
      by_cases hn : n = name
      · simp [acceptedPort, hn]
      · simp [acceptedPort, hn]
  | sentData p data => simp [acceptedPort]
  | sentInterest p n selectors nonce lifetime => simp [acceptedPort]

theorem firstAsked_ne_none_iff : firstAsked name w ≠ none ↔ Asked name w := by
  rw [firstAsked, ne_eq, List.findSome?_eq_none_iff]
  constructor
  · intro h
    by_contra hnot
    refine h fun o ho => ?_
    rw [Option.eq_none_iff_forall_ne_some]
    intro p hp
    rw [acceptedPort_eq_some.mp hp] at ho
    exact hnot ⟨p, ho⟩
  · rintro ⟨p, hp⟩ h
    have hnone := h _ hp
    simp [acceptedPort] at hnone

theorem accepted_of_firstAsked (h : firstAsked name w = some port) :
    .accepted port name ∈ w.env.rest.log := by
  obtain ⟨o, ho, heq⟩ := List.exists_of_findSome?_eq_some h
  rwa [acceptedPort_eq_some.mp heq] at ho

/-- The first port stays the first one. -/
theorem firstAsked_step (hinv : EngineInv cfg w₀ w)
    (hstep : EngineStep cfg w a (.ok w')) (h : firstAsked name w = some port) :
    firstAsked name w' = some port := by
  obtain ⟨news, hlog, -⟩ := (hstep.trail hinv).log
  rw [firstAsked, hlog, List.findSome?_append]
  rw [firstAsked] at h
  rw [h]
  rfl

end FirstAsker

/-! ## Data -/

/-- All Data that the engine holds or has sent satisfies `Q`. -/
structure Authentic (Q : Name → Bytes → Prop) (w : EngineWorld) : Prop where
  waiting : ∀ e ∈ w.env.rest.events, ∀ inPort data header,
    e.event = .processDataAfterDelay inPort data header → Q data.name data.wire
  cached : ∀ n data, w.env.rest.cs.find n = some data → Q data.name data.wire
  sent : ∀ port data, .sentData port data ∈ w.env.rest.log → Q data.name data.wire

variable {Q : Name → Bytes → Prop}

theorem Authentic.initial (h : IsInitial cfg w) : Authentic Q w where
  waiting e he := by
    rw [h.events] at he
    exact absurd he List.not_mem_nil
  cached n data hdata := by
    rw [ContentStore.find, h.cs] at hdata
    simp at hdata
  sent port data hsent := by
    rw [h.log] at hsent
    exact absurd hsent List.not_mem_nil

/-- If what arrives satisfies `Q`, so does what is held and sent. -/
theorem Authentic.step (h : Authentic Q w) (hinv : EngineInv cfg w₀ w)
    (hstep : EngineStep cfg w a (.ok w'))
    (harrives : ∀ inPort packet name wire, a = .receive inPort packet →
      packet.payload = .data name wire → Q name wire) : Authentic Q w' := by
  have htrail := hstep.trail hinv
  obtain ⟨-, heffect⟩ := hinv.step hstep rfl
  obtain ⟨news, hlog, hnews⟩ := htrail.log
  refine ⟨?_, ?_, ?_⟩
  · intro e he inPort data header hevent
    rcases htrail.events e he with hold | hspawned
    · exact h.waiting e hold inPort data header hevent
    · rw [hevent] at hspawned
      cases hspawned with
      | data hpayload => exact harrives _ _ _ _ rfl hpayload
  · intro n data hdata
    cases heffect with
    | quiet _ hquiet =>
        rw [hquiet.cs] at hdata
        exact h.cached n data hdata
    | accept _ haccepted =>
        rw [haccepted.cs] at hdata
        exact h.cached n data hdata
    | discard _ hdiscarded =>
        rw [hdiscarded.cs] at hdata
        exact h.cached n data hdata
    | @deliver inPort received header hkeep hdelivered =>
        rw [hdelivered.cs] at hdata
        split at hdata
        · exact h.cached n data hdata
        · rcases ContentStore.find_insert hdata with hold | ⟨-, rfl⟩
          · exact h.cached n data hold
          · obtain ⟨e, he, hevent, -⟩ := hstep.exists_of_fire
            exact h.waiting e he _ _ _ hevent
  · intro port data hsent
    rw [hlog] at hsent
    rcases List.mem_append.mp hsent with hold | hnew
    · exact h.sent port data hold
    · cases hnews _ hnew with
      | cached haccepts hfind => exact h.cached _ data hfind
      | data hport =>
          obtain ⟨e, he, hevent, -⟩ := hstep.exists_of_fire
          exact h.waiting e he _ _ _ hevent

end ForwardingEngine

end Statim
