import Statim.Engine.Origins

/-!
# Copies of one Interest

If all Interests of a name arrive with the same Nonce and a positive lifetime, and
no Trace Data sends them again, then an engine never changes the Nonce: it takes
every further copy for a duplicate while the first one is pending, and what it
sends carries the Nonce that arrived.
-/

namespace Statim

open Support SwitchPipeline

namespace ForwardingEngine

variable {cfg : EngineConfig} {w w' w₀ : EngineWorld} {a : EngineAction} {name : Name}
  {nonce : Bytes} {interest : Interest}

/-- The Interest asks for a positive lifetime and has this Nonce in a buffer that no
pending Interest with another name uses. -/
structure Keeps (nonce : Bytes) (w : EngineWorld) (interest : Interest) : Prop where
  lifetime : 0 < toMicroseconds interest.lifetime
  stored : ∃ buffer, interest.nonce = some buffer ∧ w.env.rest.buffers[buffer]? = some nonce ∧
    ∀ (n : Name) (entry : PendingEntry), w.env.rest.pit.entries[n]? = some entry →
      entry.interest.nonce = some buffer → n = interest.name

/-- What the engine holds and has sent of the Interests with this name. -/
structure Copies (name : Name) (nonce : Bytes) (w : EngineWorld) : Prop where
  allocated : ∀ (n : Name) (entry : PendingEntry), w.env.rest.pit.entries[n]? = some entry →
    ∀ buffer, entry.interest.nonce = some buffer → buffer < w.env.rest.buffers.length
  pending : ∀ entry, w.env.rest.pit.entries[name]? = some entry → Keeps nonce w entry.interest
  waiting : ∀ e ∈ w.env.rest.events, ∀ inPort interest header,
    e.event = .processInterestAfterDelay inPort interest header → interest.name = name →
      Keeps nonce w interest
  pulled : ∀ e ∈ w.env.rest.events, ∀ interest port,
    e.event = .doDelayedPullSend interest port → interest.name ≠ name
  sent : ∀ port selectors n lifetime,
    .sentInterest port name selectors n lifetime ∈ w.env.rest.log →
    n = nonce ∧ 0 < toMicroseconds lifetime

theorem Copies.initial (h : IsInitial cfg w) : Copies name nonce w where
  allocated n entry hentry := by
    rw [h.pit] at hentry
    simp [PendingInterestTable.empty] at hentry
  pending entry hentry := by
    rw [h.pit] at hentry
    simp [PendingInterestTable.empty] at hentry
  waiting e he := by
    rw [h.events] at he
    exact absurd he List.not_mem_nil
  pulled e he := by
    rw [h.events] at he
    exact absurd he List.not_mem_nil
  sent port selectors n lifetime hsent := by
    rw [h.log] at hsent
    exact absurd hsent List.not_mem_nil

theorem Keeps.nonceValue_eq (h : Keeps nonce w interest) :
    interest.nonceValue w.env.rest.buffers = nonce := by
  obtain ⟨buffer, hnonce, hvalue, -⟩ := h.stored
  simp only [Interest.nonceValue, hnonce, Option.bind_some, hvalue, Option.getD_some]

/-- The action is no Trace Data for a prefix of this name. -/
def PullsNot (name : Name) (a : EngineAction) : Prop :=
  ∀ inPort data header, a = .fire (.processDataAfterDelay inPort data header) →
    data.name.judgeNameIsTrace = true → ¬data.name.extractDataNameFromTrace <+: name

/-- Interests with this name arrive with this Nonce and a positive lifetime. -/
def ArrivesWith (name : Name) (nonce : Bytes) (w : EngineWorld) (a : EngineAction) : Prop :=
  ∀ interest n, Decodes w a interest n → interest.name = name →
    n = nonce ∧ 0 < toMicroseconds interest.lifetime

/-! ## One step -/

theorem Decodes.nonce_eq {n : Bytes} (h : Decodes w a interest n) :
    interest.nonce = some w.env.rest.buffers.length := by
  obtain ⟨inPort, packet, name, selectors, lifetime, -, -, -, rfl⟩ := h
  rfl

theorem Decodes.unique {n n' : Bytes} {interest' : Interest} (h : Decodes w a interest n)
    (h' : Decodes w a interest' n') : interest = interest' := by
  obtain ⟨inPort, packet, name, selectors, lifetime, rfl, -, hpayload, rfl⟩ := h
  obtain ⟨inPort', packet', name', selectors', lifetime', heq, -, hpayload', rfl⟩ := h'
  cases heq
  rw [hpayload] at hpayload'
  cases hpayload'
  rfl

/-- What was decoded lies in the next buffer. -/
theorem EngineStep.decoded {n : Bytes} (hstep : EngineStep cfg w a (.ok w'))
    (h : Decodes w a interest n) :
    w'.env.rest.buffers[w.env.rest.buffers.length]? = some n := by
  have hnonce := h.nonce_eq
  obtain ⟨inPort, packet, name, selectors, lifetime, rfl, hreach, hpayload, rfl⟩ := h
  have hcarries := carries_onReceiveRawPacket cfg inPort packet w
  generalize hr : (.ok w' : Handled) = r at hstep
  cases hstep
  rw [← hr] at hcarries
  obtain ⟨buffer, hbuffer, hvalue⟩ := hcarries.decoded _ n
    ⟨inPort, packet, name, selectors, lifetime, rfl, hreach, hpayload, rfl⟩
  rw [hnonce] at hbuffer
  cases hbuffer
  exact hvalue

/-- A buffer of a pending Interest after a step is an old one, or the Interest has just
been decoded. -/
theorem pending_of_step (hinv : EngineInv cfg w₀ w) (hstep : EngineStep cfg w a (.ok w'))
    {n : Name} {entry : PendingEntry} (hentry : w'.env.rest.pit.entries[n]? = some entry) :
    (∃ old, w.env.rest.pit.entries[n]? = some old ∧ entry.interest = old.interest) ∨
      entry.interest.name = n ∧ ∃ value, Decodes w a entry.interest value := by
  obtain ⟨hafter, heffect⟩ := hinv.step hstep rfl
  rcases heffect.pending hentry with hold | hnew
  · exact Or.inl hold
  · exact Or.inr ⟨hafter.pit.named n entry hentry, hnew⟩

/-- A copy keeps its Nonce. -/
theorem Keeps.step (h : Keeps nonce w interest) (hinv : EngineInv cfg w₀ w)
    (hstep : EngineStep cfg w a (.ok w')) (hpulls : PullsNot interest.name a) :
    Keeps nonce w' interest := by
  obtain ⟨buffer, hnonce, hvalue, honly⟩ := h.stored
  refine ⟨h.lifetime, buffer, hnonce, ?_, fun n entry hentry hshared => ?_⟩
  · rcases (hstep.trail hinv).kept buffer nonce hvalue with
      hkept | ⟨inPort, data, header, pulled, ha, htrace, ⟨n, entry, hentry, hn, rfl⟩, hshared⟩
    · exact hkept
    · -- only a pending Interest under the traced prefix is overwritten
      rw [honly n entry hentry hshared] at hn
      exact absurd hn (hpulls inPort data header ha htrace)
  · rcases pending_of_step hinv hstep hentry with ⟨old, hold, heq⟩ | ⟨-, value, hdecodes⟩
    · rw [heq] at hshared
      exact honly n old hold hshared
    · rw [hdecodes.nonce_eq] at hshared
      obtain rfl := Option.some.inj hshared
      rw [List.getElem?_length] at hvalue
      cases hvalue

/-- What arrives keeps its Nonce. -/
theorem Decodes.keeps (h : Decodes w a interest nonce) (hcopies : Copies name nonce w)
    (hinv : EngineInv cfg w₀ w) (hstep : EngineStep cfg w a (.ok w'))
    (hlifetime : 0 < toMicroseconds interest.lifetime) : Keeps nonce w' interest := by
  refine ⟨hlifetime, w.env.rest.buffers.length, h.nonce_eq, hstep.decoded h, ?_⟩
  intro n entry hentry hshared
  rcases pending_of_step hinv hstep hentry with ⟨old, hold, heq⟩ | ⟨hname, value, hdecodes⟩
  · rw [heq] at hshared
    exact absurd (hcopies.allocated n old hold _ hshared) (Nat.lt_irrefl _)
  · rw [h.unique hdecodes]
    exact hname.symm

theorem Copies.step (h : Copies name nonce w) (hinv : EngineInv cfg w₀ w)
    (hstep : EngineStep cfg w a (.ok w')) (hpulls : PullsNot name a)
    (harrives : ArrivesWith name nonce w a) : Copies name nonce w' := by
  have htrail := hstep.trail hinv
  refine ⟨?_, ?_, ?_, ?_, ?_⟩
  · intro n entry hentry buffer hbuffer
    rcases pending_of_step hinv hstep hentry with ⟨old, hold, heq⟩ | ⟨-, value, hdecodes⟩
    · rw [heq] at hbuffer
      exact Nat.lt_of_lt_of_le (h.allocated n old hold buffer hbuffer) htrail.grows
    · rw [hdecodes.nonce_eq] at hbuffer
      obtain rfl := Option.some.inj hbuffer
      exact (List.getElem?_eq_some_iff.mp (hstep.decoded hdecodes)).1
  · intro entry hentry
    rcases pending_of_step hinv hstep hentry with ⟨old, hold, heq⟩ | ⟨hname, value, hdecodes⟩
    · rw [heq]
      refine (h.pending old hold).step hinv hstep ?_
      rwa [hinv.pit.named name old hold]
    · obtain ⟨rfl, hlifetime⟩ := harrives _ _ hdecodes hname
      exact hdecodes.keeps h hinv hstep hlifetime
  · intro e he inPort interest header hevent hname
    rcases htrail.events e he with hold | hspawned
    · refine (h.waiting e hold inPort interest header hevent hname).step hinv hstep ?_
      rwa [hname]
    · rw [hevent] at hspawned
      cases hspawned with
      | interest hdecodes haccepts =>
          obtain ⟨rfl, hlifetime⟩ := harrives _ _ hdecodes hname
          exact hdecodes.keeps h hinv hstep hlifetime
  · intro e he interest port hevent
    rcases htrail.events e he with hold | hspawned
    · exact h.pulled e hold interest port hevent
    · rw [hevent] at hspawned
      cases hspawned with
      | pull htrace hpullable hsame hlifetime =>
          obtain ⟨n, entry, hentry, hn, rfl⟩ := hpullable
          rw [hsame, hinv.pit.named n entry hentry]
          rintro rfl
          exact hpulls _ _ _ rfl htrace hn
  · intro port selectors n lifetime hsent
    obtain ⟨news, hlog, hnews⟩ := htrail.log
    rw [hlog] at hsent
    rcases List.mem_append.mp hsent with hold | hnew
    · exact h.sent port selectors n lifetime hold
    · generalize ho : EngineObs.sentInterest port name selectors n lifetime = o at hnew
      cases hnews _ hnew with
      | accepted => cases ho
      | cached => cases ho
      | data => cases ho
      | @forward inPort q interest encoded header hencoded =>
          cases ho
          obtain ⟨e, he, hevent, -⟩ := hstep.exists_of_fire
          obtain ⟨hname, hnonce, -⟩ := Interest.wireEncode_eq_some hencoded
          have hkeeps := h.waiting e he _ _ _ hevent hname.symm
          refine ⟨?_, Interest.positive_wireEncode hencoded hkeeps.lifetime⟩
          rw [Interest.nonceValue, hnonce]
          exact hkeeps.nonceValue_eq
      | @pull q interest encoded hencoded =>
          cases ho
          obtain ⟨e, he, hevent, -⟩ := hstep.exists_of_fire
          exact absurd (Interest.wireEncode_eq_some hencoded).1.symm (h.pulled e he _ _ hevent)

/-! ## Duplicates -/

/-- While one copy is pending, no other is accepted. -/
theorem Copies.not_accepts (h : Copies name nonce w) {inPort : Port} {packet : RawPacket}
    (harrives : ArrivesWith name nonce w (.receive inPort packet)) {entry : PendingEntry}
    (hentry : w.env.rest.pit.entries[name]? = some entry) {pit : PendingInterestTable} :
    ¬Accepts w inPort packet name pit := by
  rintro ⟨hreach, selectors, n, lifetime, result, hpayload, hinsert, hok⟩
  obtain ⟨rfl, -⟩ := harrives _ n
    ⟨inPort, packet, name, selectors, lifetime, rfl, hreach, hpayload, rfl⟩ rfl
  rcases PendingInterestTable.insert_cases hinsert with
    ⟨hnone, -⟩ | ⟨first, hfirst, ⟨-, rfl, -⟩ | ⟨hsame, -⟩⟩
  · have hnone : w.env.rest.pit.entries[name]? = none := hnone
    rw [hentry] at hnone
    cases hnone
  · cases hok
  · have hfirst : w.env.rest.pit.entries[name]? = some first := hfirst
    obtain rfl := Option.some.inj (hentry.symm.trans hfirst)
    obtain ⟨buffer, hbuffer, hvalue, -⟩ := (h.pending entry hentry).stored
    have hbuffers : (Interest.decode name selectors n lifetime w.env.rest.buffers).2 =
      w.env.rest.buffers ++ [n] := rfl
    have hkept : (w.env.rest.buffers ++ [n])[buffer]? = some n :=
      getElem?_of_isPrefix (List.prefix_append _ _) hvalue
    rw [hbuffers] at hsame
    -- both Nonces are read from the same octets
    cases hword : Interest.nonceWord n with
    | none =>
        simp [PendingInterestTable.sameNonce, Interest.hasNonce, Interest.getNonce,
          Interest.nonceValue, Interest.decode, hbuffer, hkept, hword] at hsame
    | some word =>
        simp [PendingInterestTable.sameNonce, Interest.hasNonce, Interest.getNonce,
          Interest.nonceValue, Interest.decode, hbuffer, hkept, hword] at hsame

end ForwardingEngine

end Statim
