import Statim.Engine.ExceptionSafety

/-!
# Lease arithmetic

The lifetime of a Trace Interest is read in milliseconds, converted to microseconds and
to nanoseconds and added to the clock, each time in 64 bits.  The admission keeps the
lease exactly if the deadline fits; otherwise the deadline comes too early, or a
negative lifetime is taken for the absence of a lease.
-/

namespace Statim

open Support SwitchPipeline

/-! ## Wrapping arithmetic -/

theorem wrap64_wrap64_mul (x k : Int) : wrap64 (wrap64 x * k) = wrap64 (x * k) := by
  simp only [wrap64]
  exact Int.bmod_mul_bmod

theorem wrap64_add_wrap64 (x y : Int) : wrap64 (x + wrap64 y) = wrap64 (x + y) := by
  simp only [wrap64]
  exact Int.add_bmod_bmod

theorem wrap64_eq_self_iff {x : Int} : wrap64 x = x ↔ -2 ^ 63 ≤ x ∧ x < 2 ^ 63 := by
  constructor
  · intro h
    rw [wrap64, Int.bmod_def] at h
    omega
  · rintro ⟨hlo, hhi⟩
    exact wrap64_of_range hlo hhi

/-- The microseconds of a lifetime on the wire. -/
theorem toMicroseconds_wrap64 (ms : Nat) : toMicroseconds (wrap64 ms) = wrap64 (ms * 1000) :=
  wrap64_wrap64_mul _ _

namespace ForwardingEngine

variable {cfg : EngineConfig} {w w' w₀ : EngineWorld} {data : Data} {header : PacketHeader}
  {u : Admission} {now ms : Nat} {ttl : Int}

/-! ## Both deadlines -/

/-- The two copies of the deadline say `deadline`. -/
def Expires (u : Admission) (deadline : Int) : Prop :=
  u.packetIn.routeExpiry = deadline ∧ u.tableDeadline = deadline

/-- A positive number of microseconds on the wire gives the exact deadline if and only
if it fits into 64 bits. -/
theorem expires_iff (htime : u.time = now) (hms : ttl = wrap64 (ms * 1000)) (hpositive : 0 < ttl)
    (hlifetime : u.lifetime = if 0 < wrap64 (ttl * 1000) then wrap64 (ttl * 1000) else 0) :
    Expires u (now + ms * 10 ^ 6) ↔ (now : Int) + ms * 10 ^ 6 < 2 ^ 63 := by
  have hnanoseconds : wrap64 (ttl * 1000) = wrap64 (ms * 10 ^ 6) := by
    rw [hms, wrap64_wrap64_mul, Int.mul_assoc]
    norm_num
  have hms : 0 < ms := by
    rcases Nat.eq_zero_or_pos ms with rfl | hms'
    · rw [hms] at hpositive
      exact absurd hpositive (by decide)
    · exact hms'
  have hexpiry : u.packetIn.routeExpiry = u.routeExpiry := rfl
  rw [hnanoseconds] at hlifetime
  rw [Expires, hexpiry, Admission.routeExpiry, Admission.tableDeadline, htime]
  by_cases hlease : 0 < wrap64 (ms * 10 ^ 6)
  · rw [if_pos hlease] at hlifetime
    rw [if_pos (hlifetime ▸ hlease), if_pos (hlifetime ▸ hlease), hlifetime, wrap64_add_wrap64,
      and_self, wrap64_eq_self_iff]
    omega
  · rw [if_neg hlease] at hlifetime
    rw [if_neg (by rw [hlifetime]; decide), if_neg (by rw [hlifetime]; decide)]
    apply iff_of_false
    · rintro ⟨hzero, -⟩
      have hzero : (0 : Int) = now + ms * 10 ^ 6 := hzero
      omega
    · intro hfits
      rw [wrap64_of_nonneg (by omega) (by omega)] at hlease
      omega

/-! ## Processing Trace Data -/

/-- Processing Trace Data is a run of the loop, also if it ends in an exception. -/
theorem loopRun_processDataAfterDelay (h : EngineInv cfg w₀ w) (data : Data)
    (header : PacketHeader) :
    Loop.LoopRun cfg.loop w₀ (Handled.world (processDataAfterDelay cfg data header w)) := by
  cases hresult : processDataAfterDelay cfg data header w with
  | ok w' => exact (moves_processDataAfterDelay hresult).loop w₀ h.loop
  | error raised =>
      simp only [processDataAfterDelay] at hresult
      split_ifs at hresult
      split at hresult
      next e hlearn =>
        have hlearns := learns_handleTraceData cfg data
          (w.env.rest.pit.takeDataMatchPorts data.name).1
          (savedLifetime data.name w.env.rest.pit)
          (setPit (w.env.rest.pit.takeDataMatchPorts data.name).2 w)
        rw [hlearn] at hlearns
        obtain rfl := Except.error.inj hresult
        exact ((moves_setPit cfg _ w).trans hlearns.toMoves).loop w₀ h.loop
      next => cases hresult

/-- Data without a sequence number admits nothing. -/
theorem log_of_getTraceSequence_eq_none (cfg : EngineConfig) (header : PacketHeader)
    (w : EngineWorld) (htrace : data.name.judgeNameIsTrace = true)
    (hseq : data.name.getTraceSequence = none) :
    (Handled.world (processDataAfterDelay cfg data header w)).log = w.log := by
  by_cases hports : (w.env.rest.pit.takeDataMatchPorts data.name).1.isEmpty = true
  · simp only [processDataAfterDelay, if_pos hports]
    rfl
  by_cases hpositive : savedLifetime data.name w.env.rest.pit ≤ 0
  · simp only [processDataAfterDelay, htrace, if_true, if_neg hports, if_pos hpositive]
    rfl
  rw [log_processDataAfterDelay cfg header htrace hports hpositive]
  simp only [handleTraceData, hseq]
  split
  · rfl
  · rfl

/-- What the processing of Trace Data does to the lease: nothing is admitted or
requested, or one update whose request and temporary route both end at `now + lease`. -/
def KeepsLease (p : Name) (now : Nat) (lease : Int) (w w' : EngineWorld) : Prop :=
  w'.log = w.log ∨
    ∃ u, admissions w'.log p = admissions w.log p ++ [u] ∧
      (∃ news, w'.log = w.log ++ .admitted u :: .request now u.packetIn :: news) ∧
      Expires u (now + lease) ∧
      ∀ stored, w'.ctl.temporaryFib.entries[p]? = some stored →
        stored.OneHop u.port (now + lease)

/-- Some generation of the traced prefix is admitted from the Data. -/
def LearnsFrom (cfg : EngineConfig) (name : Name) (w : EngineWorld) : Prop :=
  ∃ seq, name.getTraceSequence = some seq ∧ CanLearn cfg name seq w

/-- The lease that a Trace Interest asks for on the wire is kept if and only if no update
is admitted, or the exact deadline fits into a signed 64-bit number of nanoseconds. -/
theorem keepsLease_iff {steps : List Step} (hrun : EngineRun cfg w₀ steps (.ok w))
    {e : Scheduled EngineEvent} (he : e ∈ w.env.rest.events) (hdue : IsDue w e.key)
    {inPort : Port} (hevent : e.event = .processDataAfterDelay inPort data header)
    (htrace : data.name.judgeNameIsTrace = true) {entry : PendingEntry}
    (hentry : w.env.rest.pit.entries[data.name]? = some entry) {ms : UInt64}
    (hlifetime : entry.interest.lifetime = wrap64 ms.toNat)
    (htemporary : cfg.configuredTemporaryLifetime = 0) :
    KeepsLease data.name.extractDataNameFromTrace e.ts (ms.toNat * 10 ^ 6) w
        (Handled.world (fire cfg e w)) ↔
      (LearnsFrom cfg data.name w → (e.ts : Int) + ms.toNat * 10 ^ 6 < 2 ^ 63) := by
  have hinv := (hrun.inv.1 w rfl).take he hdue
  have hloop := loopRun_processDataAfterDelay hinv data header
  have hlogged : (take e w).log = w.log := rfl
  simp only [fire, handle, hevent]
  cases hseq : data.name.getTraceSequence with
  | none =>
      apply iff_of_true
      · exact Or.inl (log_of_getTraceSequence_eq_none cfg header _ htrace hseq)
      · rintro ⟨seq, hseq', -⟩
        rw [hseq] at hseq'
        cases hseq'
  | some seq =>
  rcases processDataAfterDelay_admissions cfg hinv.pit header htrace hseq with
    ⟨hlearn, u, first, rest, -, hgranted⟩ | ⟨hnone, hlog⟩
  swap
  · apply iff_of_true
    · exact Or.inl hlog
    · rintro ⟨seq', hseq', hlearn⟩
      obtain rfl := Option.some.inj (hseq.symm.trans hseq')
      exact absurd hlearn hnone
  have hlearns : LearnsFrom cfg data.name w := ⟨seq, hseq, hlearn⟩
  have hsaved : savedLifetime data.name (take e w).env.rest.pit =
      wrap64 (ms.toNat * 1000) := by
    have hstored : (take e w).env.rest.pit.entries[data.name]? = some entry := hentry
    rw [savedLifetime_eq hinv.pit, hstored, Option.map_some, Option.getD_some, hlifetime,
      toMicroseconds_wrap64]
  have hpositive : 0 < savedLifetime data.name (take e w).env.rest.pit := by
    obtain ⟨⟨entry', hentry', hlease⟩, -⟩ := hlearn
    obtain rfl := Option.some.inj (hentry.symm.trans hentry')
    rw [hsaved, ← toMicroseconds_wrap64, ← hlifetime]
    exact hlease.positive
  have hgrant := hgranted.lifetime
  rw [LocalRouteController.grantedLifetime, cfg.entryLifetime_eq, htemporary] at hgrant
  have hexpires := expires_iff hgranted.time hsaved hpositive hgrant
  rw [imp_iff_right hlearns]
  have hnow : (take e w).clock.now = e.ts := rfl
  rw [hnow] at hexpires
  rw [← hexpires]
  constructor
  · rintro (hsame | ⟨v, hadmitted, -, hexpiry, -⟩)
    · have hnone := hgranted.admitted
      rw [hsame, hlogged] at hnone
      exact absurd hnone (by simp)
    · have hsame := hgranted.admitted.symm.trans hadmitted
      rw [hlogged] at hsame
      obtain rfl : u = v := List.singleton_inj.mp (List.append_cancel_left hsame)
      exact hexpiry
  · intro hexpiry
    refine Or.inr ⟨u, hgranted.admitted, ?_, hexpiry, fun stored hstored => ?_⟩
    · obtain ⟨news, hrequested⟩ := hgranted.requested
      rw [hgranted.time] at hrequested
      exact ⟨news, hrequested⟩
    · obtain ⟨v, hcurrent, hone⟩ := hloop.inv.temporary.represents.fib _ stored hstored
      have hlast := hcurrent.1
      rw [lastAdmission, hgranted.admitted, List.getLast?_concat] at hlast
      obtain rfl := Option.some.inj hlast
      rw [hexpiry.2] at hone
      exact hone

/-! ## A lease that wraps around -/

/-- A lifetime of 18446744073709552 milliseconds is 384 microseconds modulo `2 ^ 64`. -/
def wrappingLifetime : UInt64 := 18446744073709552

/-- A Trace Interest with this lifetime has arrived from port 2. -/
def leasedWorld : EngineWorld :=
  arrived sampleEngineConfig 2 (.interest traceName {} [1, 0, 0, 0] (some wrappingLifetime))
    sampleEngine

/-- Its Trace Data has arrived and waits for its delay. -/
def wrappingWorld : EngineWorld :=
  arrived sampleEngineConfig 3 traceData (rejected traceName (takeFirst leasedWorld))

theorem run_wrappingWorld :
    ∃ steps, EngineRun sampleEngineConfig sampleEngine steps (.ok wrappingWorld) := by
  have hasked := EngineRun.arrive (.start isInitial_sampleEngine) 2
    (.interest traceName {} [1, 0, 0, 0] (some wrappingLifetime))
  have hrejected := hasked.fireInterest (by rfl) (by decide) (by rfl)
    (fib_initPipeline EntrySort.mergeSort)
  exact ⟨_, hrejected.arrive 3 traceData⟩

theorem due_wrappingWorld :
    ∃ e ∈ wrappingWorld.env.rest.events,
      e.event = .processDataAfterDelay 3 receivedTrace hopHeader ∧ IsDue wrappingWorld e.key ∧
        e.ts = 0 :=
  ⟨_, List.mem_cons_self, rfl, by decide, rfl⟩

theorem entry_wrappingWorld :
    ∃ entry, wrappingWorld.env.rest.pit.entries[traceName]? = some entry ∧
      entry.interest.lifetime = wrap64 wrappingLifetime.toNat := by
  refine ⟨_, rfl, ?_⟩
  have hstored : wrap64 wrappingLifetime.toNat = 18446744073709552 := by decide
  rw [hstored]
  decide

theorem canLearn_wrappingWorld : CanLearn sampleEngineConfig traceName 1 wrappingWorld := by
  refine ⟨⟨_, rfl, ⟨by decide, by decide⟩⟩, fun hon high hhigh => ?_, fun s hs => ?_⟩
  · cases hhigh
  · cases hs

/-- The route learned from the Data ends after 384 microseconds. -/
theorem not_keepsLease_wrappingWorld :
    ∃ steps, EngineRun sampleEngineConfig sampleEngine steps (.ok wrappingWorld) ∧
      ∃ e ∈ wrappingWorld.env.rest.events, IsDue wrappingWorld e.key ∧
        e.event = .processDataAfterDelay 3 receivedTrace hopHeader ∧
        ¬KeepsLease traceName.extractDataNameFromTrace e.ts (wrappingLifetime.toNat * 10 ^ 6)
          wrappingWorld (Handled.world (fire sampleEngineConfig e wrappingWorld)) := by
  obtain ⟨steps, hrun⟩ := run_wrappingWorld
  obtain ⟨e, he, hevent, hdue, hts⟩ := due_wrappingWorld
  refine ⟨steps, hrun, e, he, hdue, hevent, ?_⟩
  have hpit : (take e wrappingWorld).env.rest.pit.PendingInv := (hrun.inv.1 _ rfl).pit
  have htrace : receivedTrace.name.judgeNameIsTrace = true := by decide
  have hseq : receivedTrace.name.getTraceSequence = some 1 := by decide
  simp only [fire, handle, hevent]
  rcases processDataAfterDelay_admissions sampleEngineConfig hpit hopHeader htrace hseq with
    ⟨-, u, first, rest, -, hgranted⟩ | ⟨hnone, -⟩
  swap
  · exact absurd canLearn_wrappingWorld hnone
  rintro (hsame | ⟨v, hadmitted, -, hexpiry, -⟩)
  · have hnone := hgranted.admitted
    rw [hsame] at hnone
    exact absurd hnone (by simp [take, modify])
  · have hsame := hgranted.admitted.symm.trans hadmitted
    obtain rfl : u = v := List.singleton_inj.mp (List.append_cancel_left hsame)
    have hsaved : savedLifetime receivedTrace.name (take e wrappingWorld).env.rest.pit = 384 := by
      have hpit : (take e wrappingWorld).env.rest.pit = wrappingWorld.env.rest.pit := rfl
      rw [hpit]
      decide
    have hlifetime : u.lifetime = 384000 := by
      rw [hgranted.lifetime, hsaved]
      decide
    have htime : u.time = e.ts := hgranted.time
    have hdeadline := hexpiry.2
    rw [Admission.tableDeadline, hlifetime, if_pos (by decide), htime, hts] at hdeadline
    exact absurd hdeadline (by decide)

theorem keepsLease_iff_wrappingWorld :
    ∃ e ∈ wrappingWorld.env.rest.events,
      (KeepsLease traceName.extractDataNameFromTrace e.ts (wrappingLifetime.toNat * 10 ^ 6)
          wrappingWorld (Handled.world (fire sampleEngineConfig e wrappingWorld)) ↔
        (LearnsFrom sampleEngineConfig traceName wrappingWorld →
          (e.ts : Int) + wrappingLifetime.toNat * 10 ^ 6 < 2 ^ 63)) := by
  obtain ⟨steps, hrun⟩ := run_wrappingWorld
  obtain ⟨e, he, hevent, hdue, -⟩ := due_wrappingWorld
  obtain ⟨entry, hentry, hlifetime⟩ := entry_wrappingWorld
  exact ⟨e, he, keepsLease_iff hrun he hdue hevent (by decide) hentry hlifetime rfl⟩

end ForwardingEngine

end Statim
