import Statim.Engine.LoopInvariant

/-!
# Guarantees of the closed loop

Three guarantees over whole runs: a lease bounds every route and message that
comes from its update, a completion belongs to the resident update, and with
the generation guard traffic under a prefix is steered to the port of its
latest generation at every instant.
-/

namespace Statim

open Support LocalRouteController SwitchPipeline

namespace Loop

variable {ε : Type} {cfg : LoopConfig} {w w₀ : LoopWorld ε} {m : ControlMessage} {p : Name}
  {u v : Admission} {std : EntrySort} {sw : SwitchPipeline}

/-! ## The flow-table FIB as a replay -/

theorem SetUp.isSwitch (h : SetUp std sw) : IsSwitch sw := by
  induction h with
  | init => exact isSwitch_initPipeline std
  | install hlead port expiry _ ih => exact ih.installFibEntry std hlead port expiry none
  | remove hs _ ih => exact ih.removeFibEntry hs

/-- Set-up routes come from no update. -/
theorem SetUp.source_eq_none (h : SetUp std sw) :
    ∀ e ∈ sw.fib.entries, e.source = none := by
  induction h with
  | init =>
      intro e he
      rw [fib_initPipeline, List.mem_singleton] at he
      rw [he]
      rfl
  | install hlead port expiry hsw ih =>
      intro e he
      rw [hsw.isSwitch.fib_installFibEntry, hsw.isSwitch.fibInv.mem_installed] at he
      rcases he with ⟨he, -⟩ | rfl
      · exact ih e he
      · rfl
  | remove hs hsw ih =>
      intro e he
      rw [hsw.isSwitch.fib_removeFibEntry, FlowTable.mem_removeIf] at he
      exact ih e he.1

/-- The entry that a FlowMod installs. -/
def modEntry (m : ControlMessage) : FlowEntry :=
  fibEntry m.nameHashes m.outputPort m.routeExpiry (some (m.pfx, m.origin))

theorem IsSwitch.replay (hsw : IsSwitch sw) {mods : List ControlMessage}
    (hlead : ∀ m ∈ mods, Leading m.nameHashes) : IsSwitch (replay std mods sw) := by
  induction mods generalizing sw with
  | nil => exact hsw
  | cons m rest ih =>
      exact ih (hsw.installFibEntry std (hlead m List.mem_cons_self) _ _ _)
        fun b hb => hlead b (List.mem_cons_of_mem m hb)

/-- A replay leaves only set-up routes and entries of its FlowMods. -/
theorem mem_fib_replay (hsw : IsSwitch sw) {mods : List ControlMessage}
    (hlead : ∀ m ∈ mods, Leading m.nameHashes) {e : FlowEntry}
    (he : e ∈ (replay std mods sw).fib.entries) :
    e ∈ sw.fib.entries ∨ ∃ m ∈ mods, e = modEntry m := by
  induction mods generalizing sw with
  | nil => exact Or.inl he
  | cons m rest ih =>
      have hnext := hsw.installFibEntry std (hlead m List.mem_cons_self) m.outputPort
        m.routeExpiry (some (m.pfx, m.origin))
      rcases ih hnext (fun b hb => hlead b (List.mem_cons_of_mem m hb)) he with he | ⟨b, hb, rfl⟩
      · rw [hsw.fib_installFibEntry, hsw.fibInv.mem_installed] at he
        rcases he with ⟨he, -⟩ | rfl
        · exact Or.inl he
        · exact Or.inr ⟨m, List.mem_cons_self, rfl⟩
      · exact Or.inr ⟨b, List.mem_cons_of_mem m hb, rfl⟩

/-- An entry stays as long as no FlowMod for its key follows. -/
theorem mem_fib_replay_of_ne (hsw : IsSwitch sw) {mods : List ControlMessage}
    (hlead : ∀ m ∈ mods, Leading m.nameHashes) {e : FlowEntry} (he : e ∈ sw.fib.entries)
    (hother : ∀ m ∈ mods, e.matchFields ≠ fibMatchFields m.nameHashes) :
    e ∈ (replay std mods sw).fib.entries := by
  induction mods generalizing sw with
  | nil => exact he
  | cons m rest ih =>
      have hnext := hsw.installFibEntry std (hlead m List.mem_cons_self) m.outputPort
        m.routeExpiry (some (m.pfx, m.origin))
      refine ih hnext (fun b hb => hlead b (List.mem_cons_of_mem m hb)) ?_
        fun b hb => hother b (List.mem_cons_of_mem m hb)
      rw [hsw.fib_installFibEntry, hsw.fibInv.mem_installed]
      exact Or.inl ⟨he, hother m List.mem_cons_self⟩

theorem mem_appliedAll {history : List FlowTableObs} :
    m ∈ appliedAll history ↔ .applied m ∈ history := by
  simp only [appliedAll, List.mem_filterMap]
  constructor
  · rintro ⟨o, ho, heq⟩
    cases o with
    | accepted m' => cases heq
    | applied m' =>
        obtain rfl := Option.some.inj heq
        exact ho
    | acked t m' => cases heq
  · exact fun hm => ⟨_, hm, rfl⟩

/-- A message that descends from admissions carries the hashes of its prefix. -/
theorem Joined.nameHashes_eq {sw₀ : SwitchPipeline} (h : Joined cfg sw₀ w)
    (hm : Descends w.log m) : m.nameHashes = PacketHeader.hashesOf cfg.stdHash m.pfx := by
  obtain ⟨u, hu, heq⟩ := hm
  rw [← (h.admitted _ u hu).1, heq]
  rfl

theorem Joined.descends_applied {sw₀ : SwitchPipeline} (h : Joined cfg sw₀ w)
    (hm : m ∈ appliedAll w.env.history) : Descends w.log m :=
  h.seen (.applied m) (mem_appliedAll.mp hm)

theorem Joined.leading_applied {sw₀ : SwitchPipeline} (h : Joined cfg sw₀ w) :
    ∀ m ∈ appliedAll w.env.history, Leading m.nameHashes := by
  intro m hm
  rw [h.nameHashes_eq (h.descends_applied hm)]
  exact leading_hashesOf cfg.stdHash m.pfx

theorem LoopRun.isSwitch (h : LoopRun cfg w₀ w) : IsSwitch w.env.switch := by
  rw [h.inv.joined.switch]
  exact IsSwitch.replay h.1.switch.isSwitch h.inv.joined.leading_applied

/-! ## One shared lease -/

/-- The messages of a run: requested, waiting for a retry, in flight, or seen by
the flow-table controller. -/
inductive InPlay (w : LoopWorld ε) (m : ControlMessage) : Prop
  | requested (t : Nat) (h : .request t m ∈ w.log)
  | pending {p : Name} {pending : PendingControllerRequest}
      (h : w.ctl.pendingControllerRequests[p]? = some pending) (hm : pending.msg = m)
  | inFlight {e : Scheduled FlowTableEvent} (h : e ∈ w.env.central.events)
      (hm : e.event.message = m)
  | seen {o : FlowTableObs} (h : o ∈ w.env.history) (hm : obsMessage o = m)

theorem LoopInv.descends {sw₀ : SwitchPipeline} (h : LoopInv cfg sw₀ w) (hm : InPlay w m) :
    Descends w.log m := by
  cases hm with
  | requested t hm => exact h.joined.requested t m hm
  | @pending q pending hstored hmsg =>
      rcases h.temporary.each q with hvacant | ⟨u, hres⟩
      · rw [hvacant.pending] at hstored
        cases hstored
      obtain rfl : u.pfx = q := hres.pfx
      by_cases hretry : Retrying cfg.temporary (temporaryCallbacks (ε := ε) cfg)
      · obtain ⟨pending', hstored', -, hpacket, -⟩ := hres.pending.1 hretry
        obtain rfl : pending' = pending := Option.some.inj (hstored'.symm.trans hstored)
        rw [← hmsg, hpacket]
        exact descends_packetIn hres.last
      · rw [(hres.pending.2 hretry).1] at hstored
        cases hstored
  | inFlight he hmsg => exact hmsg ▸ h.joined.inFlight _ he
  | seen ho hmsg => exact hmsg ▸ h.joined.seen _ ho

/-- A number identifies one admission of its prefix. -/
theorem Joined.eq_of_origin {sw₀ : SwitchPipeline} (h : Joined cfg sw₀ w)
    (hu : u ∈ admissions w.log p) (hv : v ∈ admissions w.log p) (horigin : u.origin = v.origin) :
    u = v := by
  have hu := (h.admitted p u hu).2
  have hv := (h.admitted p v hv).2
  rw [horigin] at hu
  exact Option.some.inj (hu.symm.trans hv)

theorem Joined.routeExpiry_eq {sw₀ : SwitchPipeline} (h : Joined cfg sw₀ w)
    (hu : .admitted u ∈ w.log) (hm : Descends w.log m) (hpfx : m.pfx = u.pfx)
    (horigin : m.origin = u.origin) : m.routeExpiry = u.routeExpiry := by
  obtain ⟨v, hv, heq⟩ := hm
  rw [hpfx] at hv
  have hsame : v = u := h.eq_of_origin hv (mem_admissions.mpr ⟨hu, rfl⟩) (by
    rw [← horigin, heq]
    rfl)
  rw [heq, hsame]
  rfl

theorem deadline_nonneg (hlease : 0 < u.lifetime) : 0 ≤ u.time + u.lifetime :=
  Int.add_nonneg (Int.natCast_nonneg _) (Int.le_of_lt hlease)

theorem routeExpiry_of_lease (hlease : 0 < u.lifetime) (hrange : u.time + u.lifetime < 2 ^ 63) :
    u.routeExpiry = u.time + u.lifetime := by
  rw [Admission.routeExpiry, if_pos hlease, wrap64_of_nonneg (deadline_nonneg hlease) hrange]

theorem tableDeadline_of_lease (hlease : 0 < u.lifetime)
    (hrange : u.time + u.lifetime < 2 ^ 63) : u.tableDeadline = u.time + u.lifetime := by
  rw [Admission.tableDeadline, if_pos hlease, wrap64_of_nonneg (deadline_nonneg hlease) hrange]

/-- An entry that comes from an update carries its deadline. -/
theorem expiry_of_source (hrun : LoopRun cfg w₀ w) (hu : .admitted u ∈ w.log)
    {e : FlowEntry} (he : e ∈ w.env.switch.fib.entries)
    (hsource : e.source = some (u.pfx, u.origin)) :
    ∃ hs port, e = fibEntry hs port u.routeExpiry (some (u.pfx, u.origin)) := by
  have hjoined := hrun.inv.joined
  have hsetup := hrun.1.switch
  rw [hjoined.switch] at he
  rcases mem_fib_replay hsetup.isSwitch hjoined.leading_applied he with he | ⟨m, hm, rfl⟩
  · rw [hsetup.source_eq_none e he] at hsource
    cases hsource
  · obtain ⟨hpfx, horigin⟩ : m.pfx = u.pfx ∧ m.origin = u.origin := by
      simpa [modEntry, fibEntry] using hsource
    have hexpiry := hjoined.routeExpiry_eq hu (hjoined.descends_applied hm) hpfx horigin
    exact ⟨m.nameHashes, m.outputPort, by rw [modEntry, hexpiry, hpfx, horigin]⟩

/-- The temporary FIB returns only live entries of the current generation. -/
theorem LocalInv.current_of_live {cbs : LocalCallbacks (LoopEnv ε)}
    (h : LocalInv cfg.temporary cbs none w) {stored entry : ForwardingEntry}
    (hstored : w.ctl.temporaryFib.entries[p]? = some stored)
    (hlive : TemporaryForwardingTable.live? w.clock.now stored = some entry) :
    ∃ v, Current w entry.pfx v ∧ entry.OneHop v.port v.tableDeadline ∧
      w.clock.now < v.tableDeadline := by
  rcases h.each p with hvacant | ⟨v, hres⟩
  · rw [hvacant.fib] at hstored
    cases hstored
  obtain rfl : v.pfx = p := hres.pfx
  have hfib := hres.fib
  simp only [FibHolds, hstored] at hfib
  obtain ⟨hpfx, hone⟩ := hfib
  have hlt : (w.clock.now : Int) < v.tableDeadline := by
    by_contra hge
    rw [hone.live?_of_expired (Int.not_lt.mp hge)] at hlive
    cases hlive
  obtain ⟨entry', hlive', hpfx', hone'⟩ := hone.live?_of_lt hlt
  obtain rfl : entry' = entry := Option.some.inj (hlive'.symm.trans hlive)
  rw [hpfx', hpfx]
  exact ⟨v, hres.current, hone', hlt⟩

/-- A lookup in the temporary FIB, exact or by longest prefix. -/
def TemporaryLookup (w : LoopWorld ε) (entry : ForwardingEntry) : Prop :=
  ∃ name, (findExact name w).1 = some entry ∨ (findLongestPrefix name w).1 = some entry

theorem LocalInv.current_of_lookup {cbs : LocalCallbacks (LoopEnv ε)}
    (h : LocalInv cfg.temporary cbs none w) {entry : ForwardingEntry}
    (hlookup : TemporaryLookup w entry) :
    ∃ v, Current w entry.pfx v ∧ entry.OneHop v.port v.tableDeadline ∧
      w.clock.now < v.tableDeadline := by
  obtain ⟨name, hexact | hlongest⟩ := hlookup
  · have hfound : (w.ctl.temporaryFib.pruneAndFind w.clock.now name).1 = some entry := hexact
    rw [TemporaryForwardingTable.pruneAndFind_fst] at hfound
    obtain ⟨stored, hstored, hlive⟩ := Option.bind_eq_some_iff.mp hfound
    exact LocalInv.current_of_live h hstored hlive
  · have hfound : (w.ctl.temporaryFib.findLongestPrefix w.clock.now name).1 = some entry :=
      hlongest
    rw [TemporaryForwardingTable.findLongestPrefix_fst] at hfound
    obtain ⟨k, -, stored, hstored, hlive⟩ :=
      TemporaryForwardingTable.longestLive_eq_some hfound
    exact LocalInv.current_of_live h hstored hlive

/-- One lease for everything that comes from an update: its messages and flow
entries carry the deadline `t + L`, and from that instant on neither table
returns its route, whatever was lost, delayed, reordered, duplicated or retried
and with the guard on or off. -/
theorem one_shared_lease (hrun : LoopRun cfg w₀ w) (hu : .admitted u ∈ w.log)
    (hlease : 0 < u.lifetime) (hrange : u.time + u.lifetime < 2 ^ 63) :
    (∀ m, InPlay w m → m.pfx = u.pfx → m.origin = u.origin →
      m.routeExpiry = u.time + u.lifetime) ∧
    (∀ e ∈ w.env.switch.fib.entries, e.source = some (u.pfx, u.origin) →
      e.hasExpiry = true ∧ e.expiry = u.time + u.lifetime) ∧
    (u.time + u.lifetime ≤ w.clock.now →
      (∀ entry, TemporaryLookup w entry → ∃ v, v ≠ u ∧ Current w entry.pfx v ∧
        entry.OneHop v.port v.tableDeadline) ∧
      ∀ buf e, w.env.switch.fib.lookup w.clock.now buf = some e →
        e.source ≠ some (u.pfx, u.origin)) := by
  have hinv := hrun.inv
  have hexpiry := routeExpiry_of_lease hlease hrange
  have hentry : ∀ e ∈ w.env.switch.fib.entries, e.source = some (u.pfx, u.origin) →
      e.hasExpiry = true ∧ e.expiry = u.time + u.lifetime := by
    intro e he hsource
    obtain ⟨hs, port, rfl⟩ := expiry_of_source hrun hu he hsource
    have hpos : 0 < u.routeExpiry := by
      rw [hexpiry]
      exact Int.add_pos_of_nonneg_of_pos (Int.natCast_nonneg _) hlease
    exact ⟨decide_eq_true hpos, (if_pos hpos).trans hexpiry⟩
  refine ⟨fun m hm hpfx horigin => ?_, hentry, fun hpast => ⟨fun entry hlookup => ?_, ?_⟩⟩
  · rw [← hexpiry]
    exact hinv.joined.routeExpiry_eq hu (hinv.descends hm) hpfx horigin
  · obtain ⟨v, hv, hone, hlt⟩ := LocalInv.current_of_lookup hinv.temporary hlookup
    refine ⟨v, ?_, hv, hone⟩
    rintro rfl
    rw [tableDeadline_of_lease hlease hrange] at hlt
    exact absurd hpast (Int.not_le.mpr hlt)
  · intro buf e hfound hsource
    obtain ⟨hhas, hdeadline⟩ := hentry e (List.mem_of_find?_eq_some hfound) hsource
    have hmatch : e.isMatch w.clock.now buf = true := List.find?_some hfound
    simp [FlowEntry.isMatch, FlowEntry.isExpired, hhas, hdeadline, hpast] at hmatch

theorem one_shared_lease_elapsedWorld :
    .admitted sampleUpdate ∈ elapsedWorld.log ∧
      ∀ buf e, elapsedWorld.env.switch.fib.lookup 6000 buf = some e →
        e.source ≠ some (samplePrefix, 0) :=
  have hadmitted : .admitted sampleUpdate ∈ elapsedWorld.log := by decide
  ⟨hadmitted, ((one_shared_lease run_elapsedWorld hadmitted (by decide) (by decide)).2.2
    (by decide)).2⟩

/-! ## Completion -/

/-- The sink applied a FlowMod with the payload of `u`, and `ack` was delivered at
time `t` after that. -/
def AppliedThenAcked (history : List FlowTableObs) (u : Admission) (t : Nat)
    (ack : ControlMessage) : Prop :=
  ∃ (i j : Nat) (a : ControlMessage), i < j ∧ history[i]? = some (.applied a) ∧
    a.type = .flowMod ∧ a.payload = u.packetIn.payload ∧ history[j]? = some (.acked t ack)

theorem LoopInv.appliedThenAcked {sw₀ : SwitchPipeline} (h : LoopInv cfg sw₀ w) {t : Nat}
    {ack : ControlMessage} (hacked : .acked t ack ∈ w.env.history)
    (hpayload : ack.payload = u.packetIn.payload) :
    ack.type = .syncAck ∧ AppliedThenAcked w.env.history u t ack := by
  obtain ⟨j, hj, hget⟩ := List.mem_iff_getElem.mp hacked
  have hat : w.env.history[j]? = some (.acked t ack) := by rw [List.getElem?_eq_getElem hj, hget]
  obtain ⟨htype, -, i, hi, a, ha, hkind, hsame⟩ := h.central.history j t ack hat
  exact ⟨htype, i, j, a, hi, ha, hkind, hsame.trans hpayload, hat⟩

theorem Descends.exists_payload {log : List LocalObs} (h : Descends log m) :
    ∃ u ∈ admissions log m.pfx, m = { u.packetIn with type := m.type } ∧
      m.payload = u.packetIn.payload := by
  obtain ⟨u, hu, heq⟩ := h
  exact ⟨u, hu, heq, by rw [heq]; rfl⟩

/-- With the guard, one generation is one admission. -/
theorem LoopInv.eq_of_seq {sw₀ : SwitchPipeline} (h : LoopInv cfg sw₀ w)
    (hon : cfg.temporary.generationGuardEnabled = true) (hu : u ∈ admissions w.log p)
    (hv : v ∈ admissions w.log p) (hseq : u.seq = v.seq) : u = v := by
  obtain ⟨i, hi, rfl⟩ := List.mem_iff_getElem.mp hu
  obtain ⟨j, hj, rfl⟩ := List.mem_iff_getElem.mp hv
  have hinc := List.pairwise_iff_getElem.mp ((h.order hon).increasing p)
  rcases Nat.lt_trichotomy i j with hij | rfl | hij
  · have hlt := hinc i j hi hj hij
    omega
  · rfl
  · have hlt := hinc j i hj hi hij
    omega

/-- Whatever update a completion acknowledges, its FlowMod was applied before. -/
theorem LoopInv.acknowledges {sw₀ : SwitchPipeline} (h : LoopInv cfg sw₀ w)
    {before after : List LocalObs} {t : Nat} {ack : ControlMessage} {seq : Nat} {expiry : Time}
    {ports : List Port} (hlog : w.log = before ++ .completed t ack seq expiry ports :: after) :
    ∃ v ∈ admissions before ack.pfx, ack = { v.packetIn with type := .syncAck } ∧
      AppliedThenAcked w.env.history v t ack := by
  obtain ⟨hdescends, -⟩ := h.joined.completions before _ after hlog
  obtain ⟨v, hv, heq, hpayload⟩ := hdescends.exists_payload
  have hacked : .acked t ack ∈ w.env.history := by
    refine h.joined.acked t ack seq expiry ports ?_
    rw [hlog]
    exact List.mem_append_right _ List.mem_cons_self
  obtain ⟨htype, happlied⟩ := h.appliedThenAcked hacked hpayload
  exact ⟨v, hv, htype ▸ heq, happlied⟩

/-- A completion retires the resident update through a SyncAck that follows the
application of a FlowMod of the same prefix and deadline.  With the guard it is
the FlowMod of the resident update itself; without it the acknowledged update
may be another one of the same generation, or one of generation 0. -/
theorem completion_of_resident (hrun : LoopRun cfg w₀ w) {before after : List LocalObs}
    {t : Nat} {ack : ControlMessage} {seq : Nat} {expiry : Time} {ports : List Port}
    (hlog : w.log = before ++ .completed t ack seq expiry ports :: after) :
    ∃ u v, lastAdmission before ack.pfx = some u ∧ u.seq = seq ∧ u.routeExpiry = expiry ∧
      v ∈ admissions before ack.pfx ∧ ack = { v.packetIn with type := .syncAck } ∧
      AppliedThenAcked w.env.history v t ack ∧ v.routeExpiry = u.routeExpiry ∧
      (v.seq = u.seq ∨ cfg.temporary.generationGuardEnabled = false ∧ v.seq = 0) ∧
      (cfg.temporary.generationGuardEnabled = true → v = u) := by
  have hinv := hrun.inv
  obtain ⟨-, hexpiry, hguard, u, hlast, hseq, hdeadline⟩ :=
    hinv.joined.completions before _ after hlog
  obtain ⟨v, hv, heq, happlied⟩ := hinv.acknowledges hlog
  have hvseq : v.seq = ack.seq := by
    rw [heq]
    rfl
  have hvexpiry : v.routeExpiry = ack.routeExpiry := by
    rw [heq]
    rfl
  refine ⟨u, v, hlast, hseq, hdeadline, hv, heq, happlied, ?_, ?_, fun hon => ?_⟩
  · rw [hvexpiry, hexpiry, hdeadline]
  · rcases hguard with hsame | ⟨hoff, hzero⟩
    · exact Or.inl (by rw [hvseq, hseq, hsame])
    · exact Or.inr ⟨hoff, by rw [hvseq, hzero]⟩
  · have hadmitted : ∀ x ∈ admissions before ack.pfx, x ∈ admissions w.log ack.pfx := by
      intro x hx
      rw [hlog, admissions_append]
      exact List.mem_append_left _ hx
    refine hinv.eq_of_seq hon (hadmitted v hv) (hadmitted u (List.mem_of_getLast? hlast)) ?_
    rcases hguard with hsame | ⟨hoff, -⟩
    · rw [hvseq, hseq, hsame]
    · rw [hon] at hoff
      cases hoff

theorem completion_of_resident_installedWorld :
    ∃ u v, lastAdmission (installedWorld.log.take 2) samplePrefix = some u ∧
      AppliedThenAcked installedWorld.env.history v 0
        { sampleUpdate.packetIn with type := .syncAck } ∧ v = u := by
  have hlog : installedWorld.log = installedWorld.log.take 2 ++
      .completed 0 { sampleUpdate.packetIn with type := .syncAck } 1 5000 [3] :: [] := by
    decide
  obtain ⟨u, v, hlast, -, -, -, -, happlied, -, -, hguard⟩ :=
    completion_of_resident run_installedWorld hlog
  exact ⟨u, v, hlast, happlied, hguard rfl⟩

/-- Every completion acknowledges the FlowMod of the update that is resident. -/
def CompletesResident (w : LoopWorld ε) : Prop :=
  ∀ before after t ack seq expiry ports,
    w.log = before ++ .completed t ack seq expiry ports :: after →
      ∃ u, lastAdmission before ack.pfx = some u ∧ AppliedThenAcked w.env.history u t ack

/-- Without the guard: the SyncAck of the first update takes five, the FlowMod of the
second one takes a hundred. -/
def crossedConfig : LoopConfig :=
  losslessConfig false fun n => if n = 4 then 5 else if n = 7 then 100 else 0

/-- Generation 0 is installed, then generation 1 replaces it with another port. -/
def replacedWorld : LoopWorld Unit :=
  traced crossedConfig samplePrefix 2 1 0
    (fireFirst crossedConfig (traced crossedConfig samplePrefix 1 0 0 startWorld))

/-- The SyncAck of generation 0 has arrived. -/
def crossedWorld : LoopWorld Unit := fireFirst crossedConfig replacedWorld

theorem run_crossedWorld : LoopRun crossedConfig startWorld crossedWorld := by
  refine ⟨isInitial_startWorld _ _, ?_⟩
  have hfirst := (steps_traced crossedConfig samplePrefix 1 0 0 startWorld).trans
    (steps_fireFirst crossedConfig (by decide))
  exact (hfirst.trans (steps_traced crossedConfig samplePrefix 2 1 0 _)).trans
    (steps_fireFirst crossedConfig (by decide))

/-- Without the guard an acknowledgement of generation 0 retires generation 1, whose
own FlowMod was never applied. -/
theorem not_completesResident_crossedWorld :
    LoopRun crossedConfig startWorld crossedWorld ∧ ¬CompletesResident crossedWorld := by
  refine ⟨run_crossedWorld, fun h => ?_⟩
  obtain ⟨u, hlast, i, j, a, -, ha, -, hpayload, -⟩ :=
    h (crossedWorld.log.take 4) [] 5
      { type := .syncAck, nameHashes := [1, 0xff, 0xff, 0xff], prefixLen := 1, outputPort := 1
        pfx := samplePrefix, seq := 0, routeExpiry := 0, origin := 0 } 1 0 [2] (by decide)
  have hu : u.port = 2 := by
    have hport : (lastAdmission (crossedWorld.log.take 4) samplePrefix).map (·.port) = some 2 := by
      decide
    rw [hlast] at hport
    exact Option.some.inj hport
  have hall : ∀ o ∈ crossedWorld.env.history, ∀ a, o = .applied a → a.outputPort = 1 := by
    have happlied : (appliedAll crossedWorld.env.history).map (·.outputPort) = [1] := by decide
    intro o ho a heq
    have hmem := mem_appliedAll.mpr (heq ▸ ho)
    simpa [happlied] using List.mem_map_of_mem (f := (·.outputPort)) hmem
  have hport : a.outputPort = u.port := congrArg ControlMessage.Payload.outputPort hpayload
  rw [hall _ (List.mem_of_getElem? ha) a rfl, hu] at hport
  exact absurd hport (by decide)

/-! ## Steering -/

/-- No other admitted prefix is a prefix or an extension of `p`. -/
def Alone (log : List LocalObs) (p : Name) : Prop :=
  ∀ v, .admitted v ∈ log → v.pfx = p ∨ (¬v.pfx <+: p ∧ ¬p <+: v.pfx)

/-- The component hash tells the components of admitted prefixes apart. -/
def HashesApart (stdHash : Bytes → Nat) (log : List LocalObs) : Prop :=
  ∀ v v', .admitted v ∈ log → .admitted v' ∈ log → ∀ c ∈ v.pfx, ∀ c' ∈ v'.pfx,
    PacketHeader.computeComponentHash stdHash c = PacketHeader.computeComponentHash stdHash c' →
      c = c'

/-- Names that are not comparable differ at a component of both. -/
theorem exists_ne_of_not_prefix {a b : Name} (hab : ¬a <+: b) (hba : ¬b <+: a) :
    ∃ (i : Nat) (x y : Component), a[i]? = some x ∧ b[i]? = some y ∧ x ≠ y := by
  induction a generalizing b with
  | nil => exact absurd List.nil_prefix hab
  | cons x a ih =>
      cases b with
      | nil => exact absurd List.nil_prefix hba
      | cons y b =>
          by_cases hxy : x = y
          · subst hxy
            rw [List.cons_prefix_cons, not_and] at hab hba
            obtain ⟨i, hi⟩ := ih (hab rfl) (hba rfl)
            exact ⟨i + 1, hi⟩
          · exact ⟨0, x, y, rfl, rfl, hxy⟩

/-- Prefixes that are not comparable have different FIB keys. -/
theorem not_sameKey_of_alone {log : List LocalObs} (hapart : HashesApart cfg.stdHash log)
    (hlen : p.length ≤ nameHashCount) (hu : .admitted u ∈ log) (hup : u.pfx = p)
    (hv : .admitted v ∈ log) (hvp : ¬v.pfx <+: p) (hpv : ¬p <+: v.pfx) :
    ¬SameKey (PacketHeader.hashesOf cfg.stdHash p)
      (PacketHeader.hashesOf cfg.stdHash v.pfx) := by
  obtain ⟨i, x, y, hx, hy, hne⟩ := exists_ne_of_not_prefix hpv hvp
  intro hsame
  have hi : i < nameHashCount :=
    Nat.lt_of_lt_of_le (List.getElem?_eq_some_iff.mp hx).1 hlen
  have hhash := hsame i hi
  rw [hashAt_hashesOf cfg.stdHash p hi, hashAt_hashesOf cfg.stdHash v.pfx hi, hx, hy,
    Option.map_some, Option.map_some] at hhash
  refine hne (hapart u v hu hv x ?_ y (List.mem_of_getElem? hy) (Option.some.inj hhash))
  rw [hup]
  exact List.mem_of_getElem? hx

/-- Only the one comparable prefix of a name can be in the temporary FIB. -/
theorem temporaryFib_of_alone {cbs : LocalCallbacks (LoopEnv ε)}
    (h : LocalInv cfg.temporary cbs none w) (halone : Alone w.log p) {name : Name}
    (hname : p <+: name) {j : Nat} (hj : j ≤ name.length) (hne : j ≠ p.length) :
    w.ctl.temporaryFib.entries[name.take j]? = none := by
  rcases h.each (name.take j) with hvacant | ⟨v, hres⟩
  · exact hvacant.fib
  exfalso
  obtain ⟨hv, hpfx⟩ := mem_of_lastAdmission hres.last
  rcases halone v hv with heq | ⟨hvp, hpv⟩
  · have hlength := congrArg List.length (hpfx.symm.trans heq)
    rw [List.length_take, Nat.min_eq_left hj] at hlength
    exact hne hlength
  · rw [hpfx] at hvp hpv
    rcases List.prefix_or_prefix_of_prefix (List.take_prefix j name) hname with hle | hle
    · exact hvp hle
    · exact hpv hle

/-- The applied FlowMods of one prefix, in order. -/
theorem appliedMessages_eq_filter (history : List FlowTableObs) (p : Name) :
    appliedMessages history p = (appliedAll history).filter fun m => decide (m.pfx = p) := by
  induction history with
  | nil => rfl
  | cons o history ih =>
      simp only [appliedMessages, appliedAll] at ih ⊢
      cases o with
      | accepted m => simpa using ih
      | applied m =>
          by_cases hm : m.pfx = p
          · simpa [hm] using ih
          · simpa [hm] using ih
      | acked t m => simpa using ih

/-- The FlowMod of `u` was applied, and none of its prefix after it. -/
def AppliedLast (w : LoopWorld ε) (u : Admission) : Prop :=
  ∃ mods a later, appliedAll w.env.history = mods ++ a :: later ∧
    a.payload = u.packetIn.payload ∧ ∀ b ∈ later, b.pfx ≠ u.pfx

/-- With the guard, no FlowMod of the prefix follows the one of its latest
admission. -/
theorem LoopInv.last_applied {sw₀ : SwitchPipeline} (h : LoopInv cfg sw₀ w)
    (hon : cfg.temporary.generationGuardEnabled = true)
    (hon' : cfg.central.generationGuardEnabled = true) (hlast : lastAdmission w.log p = some u)
    (happlied : ∃ a, .applied a ∈ w.env.history ∧ a.payload = u.packetIn.payload) :
    AppliedLast w u := by
  obtain ⟨a, ha, hpayload⟩ := happlied
  obtain ⟨mods, later, hsplit⟩ := List.append_of_mem (mem_appliedAll.mpr ha)
  refine ⟨mods, a, later, hsplit, hpayload, fun b hb hbp => ?_⟩
  obtain rfl : u.pfx = p := (mem_of_lastAdmission hlast).2
  have hap : a.pfx = u.pfx := ControlMessage.payload_pfx hpayload
  have haseq : a.seq = u.seq := ControlMessage.payload_seq hpayload
  -- the FlowMods of the prefix are applied in increasing order
  have hinc := (h.central.guard hon').increasing u.pfx
  have hfilter : appliedMessages (toCentral w).log u.pfx =
      (appliedAll w.env.history).filter fun m => decide (m.pfx = u.pfx) :=
    appliedMessages_eq_filter w.env.history u.pfx
  rw [hfilter, hsplit, List.filter_append, List.filter_cons_of_pos (by simpa using hap),
    List.pairwise_append, List.pairwise_cons] at hinc
  have hlt := hinc.2.1.1 b (List.mem_filter.mpr ⟨hb, by simpa using hbp⟩)
  -- and none of them is above the latest admission
  have hbmem : b ∈ appliedAll w.env.history := by
    rw [hsplit]
    exact List.mem_append_right _ (List.mem_cons_of_mem a hb)
  obtain ⟨v, hv, -, hvpayload⟩ := (h.joined.descends_applied hbmem).exists_payload
  rw [hbp] at hv
  have hle := (h.order hon).le_last hlast hv
  have hbseq : b.seq = v.seq := ControlMessage.payload_seq hvpayload
  omega

/-- An update that was applied last has its entry in the flow-table FIB for as long as
the prefix is alone. -/
theorem LoopRun.modEntry_mem (hrun : LoopRun cfg w₀ w) (hlen : p.length ≤ nameHashCount)
    (halone : Alone w.log p) (hapart : HashesApart cfg.stdHash w.log)
    (hlast : lastAdmission w.log p = some u) (hfinal : AppliedLast w u) :
    ∃ source, fibEntry (PacketHeader.hashesOf cfg.stdHash p) u.port u.routeExpiry source ∈
      w.env.switch.fib.entries := by
  have hjoined := hrun.inv.joined
  have hlead := hjoined.leading_applied
  obtain ⟨mods, a, later, hsplit, hpayload, hother⟩ := hfinal
  obtain ⟨hu, hup⟩ := mem_of_lastAdmission hlast
  have hap : a.pfx = p := (ControlMessage.payload_pfx hpayload).trans hup
  have hhashes : a.nameHashes = PacketHeader.hashesOf cfg.stdHash p := by
    have ha : a ∈ appliedAll w.env.history := by
      rw [hsplit]
      exact List.mem_append_right _ List.mem_cons_self
    rw [hjoined.nameHashes_eq (hjoined.descends_applied ha), hap]
  have hentry : modEntry a = fibEntry (PacketHeader.hashesOf cfg.stdHash p) u.port
      u.routeExpiry (some (a.pfx, a.origin)) := by
    have hport : a.outputPort = u.port := congrArg ControlMessage.Payload.outputPort hpayload
    have hexpiry : a.routeExpiry = u.routeExpiry := ControlMessage.payload_routeExpiry hpayload
    rw [modEntry, hhashes, hport, hexpiry]
  refine ⟨some (a.pfx, a.origin), ?_⟩
  rw [← hentry, hjoined.switch, hsplit, replay, List.foldl_append, List.foldl_cons]
  rw [hsplit] at hlead
  have hbefore : IsSwitch (replay cfg.std mods w₀.env.switch) :=
    IsSwitch.replay hrun.1.switch.isSwitch fun b hb => hlead b (List.mem_append_left _ hb)
  have hleadA := hlead a (List.mem_append_right _ List.mem_cons_self)
  refine mem_fib_replay_of_ne (hbefore.installFibEntry cfg.std hleadA _ _ _)
    (fun b hb => hlead b (List.mem_append_right _ (List.mem_cons_of_mem a hb))) ?_ ?_
  · rw [hbefore.fib_installFibEntry, hbefore.fibInv.mem_installed]
    exact Or.inr rfl
  · intro b hb hfields
    have hbmem : b ∈ appliedAll w.env.history := by
      rw [hsplit]
      exact List.mem_append_right _ (List.mem_cons_of_mem a hb)
    obtain ⟨v, hv, -⟩ := hjoined.descends_applied hbmem
    obtain ⟨hvlog, hvp⟩ := mem_admissions.mp hv
    rcases halone v hvlog with heq | ⟨hbp, hpb⟩
    · exact hother b hb ((hvp.symm.trans heq).trans hup.symm)
    · refine not_sameKey_of_alone hapart hlen hu hup hvlog hbp hpb ?_
      rw [hvp, ← hjoined.nameHashes_eq (hjoined.descends_applied hbmem), ← hhashes]
      exact (fibMatchFields_eq_iff _ _).mp hfields

theorem lt_tableDeadline (hlease : 0 < u.lifetime → u.time + u.lifetime < 2 ^ 63)
    (hclock : (w.clock.now : Int) < timePointMax)
    (hlive : 0 < u.lifetime → w.clock.now < u.time + u.lifetime) :
    w.clock.now < u.tableDeadline := by
  by_cases hpos : 0 < u.lifetime
  · rw [tableDeadline_of_lease hpos (hlease hpos)]
    exact hlive hpos
  · rwa [Admission.tableDeadline, if_neg hpos]

/-- The header of an Interest whose route the flow-table FIB decides. -/
def fibHeader (stdHash : Bytes → Nat) (name : Name) (header : PacketHeader) : PacketHeader :=
  ((header.computeNameHashes stdHash name).setType PacketType.interest).setOutPorts 0

theorem selectRoute_of_none {name : Name} {header : PacketHeader} {enable : Bool}
    (h : (findLongestPrefix name w).1 = none) :
    (selectRoute cfg enable name header w).1 =
      some (w.env.switch.processPacket w.clock.now (fibHeader cfg.stdHash name header)) := by
  simp only [selectRoute, h, routeHeader]
  rfl

theorem selectRoute_of_some {name : Name} {header : PacketHeader} {entry : ForwardingEntry}
    (h : (findLongestPrefix name w).1 = some entry) (hne : hopPorts entry ≠ []) :
    (selectRoute cfg true name header w).1 =
      some (w.env.switch.processPacket w.clock.now ((fibHeader cfg.stdHash name
        header).setOutPorts (encodeOutPortsMask (hopPorts entry)))) := by
  simp only [selectRoute, h, routeHeader, if_true, if_neg hne]
  rfl

/-- A live temporary entry decides the route. -/
theorem sendsTo_of_oneHop (hsw : IsSwitch w.env.switch) {name : Name} {header : PacketHeader}
    {entry : ForwardingEntry} (hfound : (findLongestPrefix name w).1 = some entry)
    {port : Port} {deadline : Time} (hone : entry.OneHop port deadline)
    (hport : 1 ≤ port ∧ port ≤ 32) :
    ∃ r, (selectRoute cfg true name header w).1 = some r ∧ SendsTo r [port] := by
  have hports : hopPorts entry = [port] := by
    rw [hopPorts, hone.toList_eq]
    rfl
  have hmask : maskPorts (encodeOutPortsMask [port]) = [port] :=
    maskPorts_encodeOutPortsMask (List.pairwise_singleton _ _) (by simpa using hport)
  have hne : encodeOutPortsMask [port] ≠ 0 := by
    intro hzero
    rw [maskPorts_eq_nil_iff.mpr hzero] at hmask
    cases hmask
  refine ⟨_, selectRoute_of_some hfound (by simp [hports]), ?_⟩
  rw [← hmask, hports]
  exact hsw.hasTables.sendsTo_interest_mask _ _ rfl hne

/-- Without a temporary entry the longest live flow entry decides it. -/
theorem sendsTo_of_fibEntry (hsw : IsSwitch w.env.switch) {name : Name}
    {header : PacketHeader} (hfound : (findLongestPrefix name w).1 = none) (hname : p <+: name)
    {port : Port} {expiry : Time} {source : Option (Name × Nat)}
    (hentry : fibEntry (PacketHeader.hashesOf cfg.stdHash p) port expiry source ∈
      w.env.switch.fib.entries)
    (hlive : ¬(0 < expiry ∧ expiry ≤ w.clock.now))
    (hlonger : ∀ e ∈ w.env.switch.fib.entries,
      e.isMatch w.clock.now (fibHeader cfg.stdHash name header).serialize = true →
        e.priority ≤ fibPriority (PacketHeader.hashesOf cfg.stdHash p)) :
    ∃ r, (selectRoute cfg true name header w).1 = some r ∧ SendsTo r [port] := by
  have hmatch : HeaderMatches (PacketHeader.hashesOf cfg.stdHash p)
      (fibHeader cfg.stdHash name header) := headerMatches_of_prefix cfg.stdHash hname rfl
  have hlookup := hsw.fibInv.lookup_eq hentry (leading_hashesOf cfg.stdHash p) hlive hmatch
    hlonger
  have hsends := hsw.hasTables.sendsTo_interest_fib (fibHeader cfg.stdHash name header)
    w.clock.now rfl rfl
  rw [fibPorts, hlookup] at hsends
  exact ⟨_, selectRoute_of_none hfound, hsends⟩

/-- With the guard, a generation that left the local controller before its deadline
and was not withdrawn has been applied. -/
theorem LoopRun.applied_of_settled (hrun : LoopRun cfg w₀ w)
    (hon : cfg.temporary.generationGuardEnabled = true)
    (hlast : lastAdmission w.log p = some u) (hgone : w.ctl.seqMap[p]? = none)
    (hlive : 0 < u.lifetime → w.clock.now < u.time + u.lifetime)
    (hkept : ∀ t, .withdrawn t p u.seq ∉ w.log) :
    ∃ a, .applied a ∈ w.env.history ∧ a.payload = u.packetIn.payload := by
  have hinv := hrun.inv
  rcases hinv.joined.settled p u hlast with hseq | hcompleted | ⟨t, hwithdrawn⟩ | ⟨hpos, hpast⟩
  · rw [hgone] at hseq
    cases hseq
  · obtain ⟨t, ack, expiry, ports, hmem, hpfx⟩ := hcompleted
    obtain ⟨before, after, hlog⟩ := List.append_of_mem hmem
    obtain ⟨-, -, hguard, -⟩ := hinv.joined.completions before _ after hlog
    obtain ⟨v, hv, heq, happlied⟩ := hinv.acknowledges hlog
    have hv : v ∈ admissions w.log p := by
      rw [hlog, admissions_append, ← hpfx]
      exact List.mem_append_left _ hv
    have hseq : v.seq = u.seq := by
      rcases hguard with hsame | ⟨hoff, -⟩
      · rw [hsame, heq]
        rfl
      · rw [hon] at hoff
        cases hoff
    obtain rfl := hinv.eq_of_seq hon hv (List.mem_of_getLast? hlast) hseq
    obtain ⟨i, j, a, -, ha, -, hpayload, -⟩ := happlied
    exact ⟨a, List.mem_of_getElem? ha, hpayload⟩
  · exact absurd hwithdrawn (hkept t)
  · exact absurd hpast (Int.not_le.mpr (hlive hpos))

/-- A live generation decides the route as long as it is resident or was applied last:
its temporary entry does, or its flow entry. -/
theorem LoopRun.steers (hrun : LoopRun cfg w₀ w) (hlen : p.length ≤ nameHashCount)
    (halone : Alone w.log p) (hapart : HashesApart cfg.stdHash w.log)
    (hlast : lastAdmission w.log p = some u) (hport : 1 ≤ u.port ∧ u.port ≤ 32)
    (hlease : 0 < u.lifetime → u.time + u.lifetime < 2 ^ 63)
    (hclock : (w.clock.now : Int) < timePointMax)
    (hlive : 0 < u.lifetime → w.clock.now < u.time + u.lifetime)
    (hgone : w.ctl.seqMap[p]? = none → AppliedLast w u) {name : Name} (hname : p <+: name)
    (header : PacketHeader)
    (hlonger : ∀ e ∈ w.env.switch.fib.entries,
      e.isMatch w.clock.now (fibHeader cfg.stdHash name header).serialize = true →
        e.priority ≤ fibPriority (PacketHeader.hashesOf cfg.stdHash p)) :
    ∃ r, (selectRoute cfg true name header w).1 = some r ∧ SendsTo r [u.port] := by
  have hinv := hrun.inv
  have hsw := hrun.isSwitch
  have hfound : (findLongestPrefix name w).1 =
      (w.ctl.temporaryFib.entries[p]?).bind (TemporaryForwardingTable.live? w.clock.now) := by
    refine (TemporaryForwardingTable.findLongestPrefix_fst _ _ _).trans ?_
    rw [TemporaryForwardingTable.longestLive_of_unique (List.IsPrefix.length_le hname) fun j hj
      hne => temporaryFib_of_alone hinv.temporary halone hname hj hne]
    rw [← List.prefix_iff_eq_take.mp hname]
  rcases hinv.temporary.each p with hvacant | ⟨v, hres⟩
  · -- the generation has left, so its FlowMod is in the flow table
    rw [hvacant.fib, Option.bind_none] at hfound
    obtain ⟨source, hentry⟩ := hrun.modEntry_mem hlen halone hapart hlast (hgone hvacant.seq)
    refine sendsTo_of_fibEntry hsw hfound hname hentry ?_ hlonger
    rintro ⟨hpos, hexpired⟩
    by_cases hleased : 0 < u.lifetime
    · rw [routeExpiry_of_lease hleased (hlease hleased)] at hexpired
      exact absurd hexpired (Int.not_le.mpr (hlive hleased))
    · rw [Admission.routeExpiry, if_neg hleased] at hpos
      exact absurd hpos (Int.lt_irrefl 0)
  · -- the generation is resident, and its temporary entry is live
    obtain rfl : v = u := Option.some.inj (hres.last.symm.trans hlast)
    obtain rfl : v.pfx = p := hres.pfx
    have hdeadline := lt_tableDeadline hlease hclock hlive
    have hfib := hres.fib
    cases hstored : w.ctl.temporaryFib.entries[v.pfx]? with
    | none =>
        simp only [FibHolds, hstored] at hfib
        exact absurd hfib (Int.not_le.mpr hdeadline)
    | some stored =>
        simp only [FibHolds, hstored] at hfib
        obtain ⟨entry, hentry, -, hone⟩ := hfib.2.live?_of_lt hdeadline
        rw [hstored, Option.bind_some, hentry] at hfound
        exact sendsTo_of_oneHop hsw hfound hone hport

/-- Make-before-break steering.  With the guard on both controllers, in every state
of every run, an Interest under a prefix goes to exactly the port of the latest
admitted generation, as long as its lease lasts and it was not withdrawn; the
only other route that may take precedence is a longer one in the flow table. -/
theorem make_before_break (hrun : LoopRun cfg w₀ w)
    (hon : cfg.temporary.generationGuardEnabled = true)
    (hon' : cfg.central.generationGuardEnabled = true) (hlen : p.length ≤ nameHashCount)
    (halone : Alone w.log p) (hapart : HashesApart cfg.stdHash w.log)
    (hlast : lastAdmission w.log p = some u) (hport : 1 ≤ u.port ∧ u.port ≤ 32)
    (hlease : 0 < u.lifetime → u.time + u.lifetime < 2 ^ 63)
    (hclock : (w.clock.now : Int) < timePointMax)
    (hlive : 0 < u.lifetime → w.clock.now < u.time + u.lifetime)
    (hkept : ∀ t, .withdrawn t p u.seq ∉ w.log) {name : Name} (hname : p <+: name)
    (header : PacketHeader)
    (hlonger : ∀ e ∈ w.env.switch.fib.entries,
      e.isMatch w.clock.now (fibHeader cfg.stdHash name header).serialize = true →
        e.priority ≤ fibPriority (PacketHeader.hashesOf cfg.stdHash p)) :
    ∃ r, (selectRoute cfg true name header w).1 = some r ∧ SendsTo r [u.port] := by
  refine hrun.steers hlen halone hapart hlast hport hlease hclock hlive (fun hgone => ?_) hname
    header hlonger
  have happlied := hrun.applied_of_settled hon hlast hgone hlive hkept
  exact hrun.inv.last_applied hon hon' hlast happlied

theorem eq_of_admitted_admittedWorld (h : .admitted v ∈ admittedWorld.log) :
    v = sampleUpdate := by
  have hone : admissions admittedWorld.log v.pfx ⊆ [sampleUpdate] := by
    have hlog : admittedWorld.log = [.admitted sampleUpdate,
        .request 0 sampleUpdate.packetIn] := by decide
    rw [hlog]
    by_cases hv : sampleUpdate.pfx = v.pfx <;> simp [admissions, hv]
  exact List.mem_singleton.mp (hone (mem_admissions.mpr ⟨h, rfl⟩))

theorem make_before_break_admittedWorld :
    lastAdmission admittedWorld.log samplePrefix = some sampleUpdate ∧
      ∃ r, (selectRoute promptConfig true (samplePrefix ++ [.generic [0x62]]) .empty
        admittedWorld).1 = some r ∧ SendsTo r [3] := by
  have hlast : lastAdmission admittedWorld.log samplePrefix = some sampleUpdate := by decide
  refine ⟨hlast, make_before_break run_admittedWorld rfl rfl (by decide) ?_ ?_ hlast (by decide)
    (by decide) (by decide) (by decide) ?_ (List.prefix_append _ _) .empty ?_⟩
  · intro v hv
    exact Or.inl (congrArg Admission.pfx (eq_of_admitted_admittedWorld hv))
  · intro v v' hv hv' c hc c' hc' _
    rw [eq_of_admitted_admittedWorld hv] at hc
    rw [eq_of_admitted_admittedWorld hv'] at hc'
    exact (List.mem_singleton.mp hc).trans (List.mem_singleton.mp hc').symm
  · intro t
    have hlog : admittedWorld.log = [.admitted sampleUpdate,
        .request 0 sampleUpdate.packetIn] := by decide
    simp [hlog]
  · intro e he _
    have hswitch : admittedWorld.env.switch = initPipeline EntrySort.mergeSort := rfl
    rw [hswitch, fib_initPipeline, List.mem_singleton] at he
    rw [he]
    exact Nat.zero_le _

end Loop

end Statim
