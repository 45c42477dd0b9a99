import Statim.Engine.Copies
import Statim.Engine.Generations

/-!
# The stages of a Trace

At one engine a Trace has not been asked for, or its Interest is pending for one port,
or its generation is used up.  If nothing else in the network disturbs the Trace, an
engine that learns from its Data learns the port of the first asker.
-/

namespace Statim

open Support SwitchPipeline

namespace ForwardingEngine

variable {cfg : EngineConfig} {w w' w₀ : EngineWorld} {a : EngineAction} {name : Name}
  {nonce : Bytes} {seq : Nat}

/-- How far the Trace has come at an engine. -/
inductive Stage (name : Name) (seq : Nat) (w : EngineWorld) : Prop
  | unasked (h : ¬Asked name w) : Stage name seq w
  | pending {port : Port} {entry : PendingEntry} (hfirst : firstAsked name w = some port)
      (hentry : w.env.rest.pit.entries[name]? = some entry) (hports : entry.ports = [port]) :
      Stage name seq w
  | usedUp (h : Loop.UsedUp name.extractDataNameFromTrace seq w.log) : Stage name seq w

/-- What an engine knows of a Trace. -/
structure TraceInv (name : Name) (nonce : Bytes) (seq : Nat) (w : EngineWorld) : Prop where
  copies : Copies name nonce w
  stage : Stage name seq w
  learned : ∀ u, .admitted u ∈ w.log → NamedBy name u → firstAsked name w = some u.port

/-- Nothing else is pending for the Trace Data, no other Data answers the Trace Interest
or brings its generation, and no Trace sends its Interest again. -/
structure Undisturbed (name : Name) (seq : Nat) (w : EngineWorld) (a : EngineAction) : Prop where
  alone : ∀ (n : Name) (entry : PendingEntry), w.env.rest.pit.entries[n]? = some entry →
    n <+: name → n = name
  exact : ∀ inPort data header, a = .fire (.processDataAfterDelay inPort data header) →
    name <+: data.name → data.name = name
  unique : ∀ inPort data header, a = .fire (.processDataAfterDelay inPort data header) →
    data.name.judgeNameIsTrace = true →
    data.name.extractDataNameFromTrace = name.extractDataNameFromTrace →
    data.name.getTraceSequence = some seq → data.name = name
  pullsNot : PullsNot name a

theorem TraceInv.initial (h : IsInitial cfg w) : TraceInv name nonce seq w where
  copies := Copies.initial h
  stage := by
    refine .unasked ?_
    rintro ⟨port, hport⟩
    rw [h.log] at hport
    exact List.not_mem_nil hport
  learned u hu := by
    rw [h.loop.temporary.2] at hu
    exact absurd hu List.not_mem_nil

/-! ## The first Interest -/

/-- The first accepted Trace Interest leaves an entry with its port. -/
theorem Stage.ask (hinv : EngineInv cfg w₀ w) (hsolicited : Solicited w)
    (hstep : EngineStep cfg w a (.ok w')) (hnone : ¬Asked name w) (hasked : Asked name w') :
    Stage name seq w' := by
  obtain ⟨port, hport⟩ := hasked
  obtain ⟨packet, pit, rfl, haccepts⟩ :=
    hstep.accepts_of_mem_log hinv hport fun hold => hnone ⟨port, hold⟩
  have haccepted := haccepts.accepted cfg
  generalize hr : (.ok w' : Handled) = r at hstep
  cases hstep
  rw [← hr] at haccepted
  have hpit : w'.env.rest.pit = pit := haccepted.pit
  have hlog : w'.env.rest.log = w.env.rest.log ++ .accepted port name ::
    ((w.env.rest.cs.find name).map fun cached => .sentData port cached).toList := haccepted.log
  have hfirst : firstAsked name w' = some port := by
    have hunasked : firstAsked name w = none := by
      rw [← not_ne_iff]
      exact fun hne => hnone (firstAsked_ne_none_iff.mp hne)
    rw [firstAsked] at hunasked ⊢
    rw [hlog, List.findSome?_append, hunasked, Option.none_or, List.findSome?_cons]
    simp [acceptedPort]
  obtain ⟨-, selectors, n, lifetime, result, -, hinsert, hok⟩ := haccepts
  rcases PendingInterestTable.insert_cases hinsert with
    ⟨-, -, rfl⟩ | ⟨first, hentry, -⟩
  · have hentry := congrArg (fun t : PendingInterestTable => t.entries[name]?) hpit
    exact .pending hfirst (hentry.trans Std.TreeMap.getElem?_insert_self) rfl
  · exact absurd (hsolicited.asked hinv.pit hentry) hnone

/-! ## While the Interest is pending -/

/-- An accepted Interest with another name leaves an entry alone. -/
theorem getElem?_of_accepts {inPort : Port} {packet : RawPacket} {n : Name}
    {pit : PendingInterestTable} (h : Accepts w inPort packet n pit) (hne : n ≠ name) :
    pit.entries[name]? = w.env.rest.pit.entries[name]? := by
  obtain ⟨-, selectors, value, lifetime, result, -, hinsert, -⟩ := h
  rcases PendingInterestTable.insert_cases hinsert with
    ⟨-, -, rfl⟩ | ⟨first, -, ⟨-, -, rfl⟩ | ⟨-, -, rfl⟩⟩
  · exact getElem?_insert_of_ne _ _ hne
  · rfl
  · exact getElem?_insert_of_ne _ _ hne

/-- The pending Trace Interest stays as it is, or its own Data consumes it. -/
theorem Copies.entry_or_consumed (h : Copies name nonce w) (hinv : EngineInv cfg w₀ w)
    (hstep : EngineStep cfg w a (.ok w')) (harrives : ArrivesWith name nonce w a)
    (hundisturbed : Undisturbed name seq w a) {entry : PendingEntry}
    (hentry : w.env.rest.pit.entries[name]? = some entry) :
    w'.env.rest.pit.entries[name]? = some entry ∨
      ∃ inPort data header, a = .fire (.processDataAfterDelay inPort data header) ∧
        data.name = name := by
  obtain ⟨-, heffect⟩ := hinv.step hstep rfl
  cases heffect with
  | quiet _ hquiet =>
      rw [hquiet.pit]
      exact Or.inl hentry
  | @accept inPort packet n pit haccepts haccepted =>
      rw [haccepted.pit]
      by_cases hn : n = name
      · subst hn
        exact absurd haccepts (h.not_accepts harrives hentry)
      · rw [getElem?_of_accepts haccepts hn]
        exact Or.inl hentry
  | @discard inPort data header _ hdiscarded =>
      by_cases hname : name <+: data.name
      · exact Or.inr ⟨inPort, data, header, rfl, hundisturbed.exact _ _ _ rfl hname⟩
      · rw [hdiscarded.pit, PendingInterestTable.getElem?_takeDataMatchPorts, if_neg hname]
        exact Or.inl hentry
  | @deliver inPort data header _ hdelivered =>
      by_cases hname : name <+: data.name
      · exact Or.inr ⟨inPort, data, header, rfl, hundisturbed.exact _ _ _ rfl hname⟩
      · rw [hdelivered.pit, PendingInterestTable.getElem?_takeDataMatchPorts, if_neg hname]
        exact Or.inl hentry

/-! ## One step -/

section Step

variable (hinv : EngineInv cfg w₀ w) (hsolicited : Solicited w)
  (hon : cfg.loop.temporary.generationGuardEnabled = true)
  (htrace : name.judgeNameIsTrace = true) (hseq : name.getTraceSequence = some seq)
  (hstep : EngineStep cfg w a (.ok w')) (harrives : ArrivesWith name nonce w a)
  (hundisturbed : Undisturbed name seq w a)

include hinv hsolicited hon htrace hseq hstep harrives hundisturbed in
theorem TraceInv.stage_step (h : TraceInv name nonce seq w) : Stage name seq w' := by
  cases h.stage with
  | unasked hnone =>
      by_cases hasked : Asked name w'
      · exact Stage.ask hinv hsolicited hstep hnone hasked
      · exact .unasked hasked
  | usedUp hused => exact .usedUp (hused.admitsOnly hstep.admitsOnly)
  | @pending port entry hfirst hentry hports =>
      rcases h.copies.entry_or_consumed hinv hstep harrives hundisturbed hentry with
        hkept | ⟨inPort, data, header, rfl, rfl⟩
      · exact .pending (firstAsked_step hinv hstep hfirst) hkept hports
      · exact .usedUp (hstep.usedUp hinv hon htrace hseq hentry
          (h.copies.pending entry hentry).lifetime)

include hinv hsolicited hon hseq hstep hundisturbed in
theorem TraceInv.learned_step (h : TraceInv name nonce seq w) {u : Admission}
    (hu : .admitted u ∈ w'.log) (hnamed : NamedBy name u) :
    firstAsked name w' = some u.port := by
  by_cases hold : .admitted u ∈ w.log
  · exact firstAsked_step hinv hstep (h.learned u hold hnamed)
  obtain ⟨inPort, data, header, rfl, hdata, hlearn, hport⟩ := hstep.learned hinv hu hold
  obtain ⟨-, hpfx, hgeneration⟩ := hnamed
  obtain rfl : seq = u.seq := Option.some.inj (hseq.symm.trans hgeneration)
  obtain rfl : data.name = name :=
    hundisturbed.unique _ _ _ rfl hdata.1 (hdata.2.1.symm.trans hpfx) hdata.2.2
  obtain ⟨⟨entry, hentry, -⟩, hadmissible⟩ := hlearn
  cases h.stage with
  | unasked hnone => exact absurd (hsolicited.asked hinv.pit hentry) hnone
  | usedUp hused =>
      rw [Loop.admissible_iff hon (hinv.loop.inv.order hon)] at hadmissible
      exact absurd hused hadmissible
  | @pending port first hfirst hstored hports =>
      -- all ports that the Data is returned to are the one of the Trace Interest
      obtain ⟨n, other, hprefix, hother, hp⟩ := PendingInterestTable.mem_takeDataMatchPorts.mp hport
      obtain rfl := hundisturbed.alone n other hother hprefix
      obtain rfl := Option.some.inj (hstored.symm.trans hother)
      rw [hports, List.mem_singleton] at hp
      rw [hp]
      exact firstAsked_step hinv hstep hfirst

include hinv hsolicited hon htrace hseq hstep harrives hundisturbed in
theorem TraceInv.step (h : TraceInv name nonce seq w) : TraceInv name nonce seq w' where
  copies := h.copies.step hinv hstep hundisturbed.pullsNot harrives
  stage := h.stage_step hinv hsolicited hon htrace hseq hstep harrives hundisturbed
  learned _ hu hnamed := h.learned_step hinv hsolicited hon hseq hstep hundisturbed hu hnamed

end Step

end ForwardingEngine

end Statim
