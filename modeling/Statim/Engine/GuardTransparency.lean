import Mathlib.Data.Set.Function
import Statim.Engine.FedLoop

/-!
# The guard is transparent on well-behaved channels

The generation guard changes what the flow table holds, and yet nothing that a
consumer sees.  With or without it, a loop that is fed a well-behaved plan over a
lossless channel with constant delays routes every name to the port of the latest
update that the plan has for it, and completes the same updates.
-/

namespace Statim

open Support

instance (u : Admission) (t : Nat) : Decidable (u.LiveAt t) :=
  inferInstanceAs (Decidable (_ → _))

namespace Loop

open LocalRouteController FlowTableController SwitchPipeline

variable {ε : Type} {cfg : LoopConfig} {d : Legs} {w w₀ : LoopWorld ε} {u v : Admission}
  {p name : Name} {plan : List PlannedUpdate} {hand : Option Admission}
  {sw₀ : SwitchPipeline} {feed : List TraceInput} {S : Set Component}

/-- The ports that a plan gives a name: the one of its latest update for a prefix of the
name, while the lease of that update lasts. -/
def plannedPorts (plan : List PlannedUpdate) (now : Nat) (name : Name) : List Port :=
  match (plan.filter fun a => decide (a.update.pfx <+: name)).getLast? with
  | none => []
  | some a => if a.update.LiveAt now then [a.update.port] else []

/-! ## The tables of a settled loop -/

theorem LiveAt.of_lt_tableDeadline (hrange : 0 < u.lifetime → u.time + u.lifetime < 2 ^ 63)
    {now : Nat} (h : (now : Int) < u.tableDeadline) : u.LiveAt now := by
  intro hlease
  rwa [tableDeadline_of_lease hlease (hrange hlease)] at h

/-- The temporary FIB holds no route for a name without a live update. -/
theorem Settlement.findLongestPrefix_eq_none (h : Settlement d plan hand w)
    (hplan : WellBehaved plan) (hinv : LoopInv cfg sw₀ w)
    (hnone : ∀ u, .admitted u ∈ w.log → u.pfx <+: name → ¬u.LiveAt w.clock.now) :
    (LocalRouteController.findLongestPrefix name w).1 = none := by
  have hfound : (LocalRouteController.findLongestPrefix name w).1 =
      TemporaryForwardingTable.longestLive w.clock.now name w.ctl.temporaryFib name.length :=
    TemporaryForwardingTable.findLongestPrefix_fst _ _ _
  rw [hfound, Option.eq_none_iff_forall_ne_some]
  intro entry hsome
  obtain ⟨k, -, stored, hstored, hlive⟩ := TemporaryForwardingTable.longestLive_eq_some hsome
  rcases hinv.temporary.each (name.take k) with hvacant | ⟨v, hres⟩
  · cases hvacant.fib.symm.trans hstored
  · obtain ⟨hv, hvp⟩ := mem_of_lastAdmission hres.last
    have hfib := hres.fib
    simp only [FibHolds, hres.pfx, hstored] at hfib
    refine hnone v hv ?_ (LiveAt.of_lt_tableDeadline (h.range hplan hv) ?_)
    · rw [hvp]
      exact List.take_prefix k name
    · by_contra hge
      rw [hfib.2.live?_of_expired (Int.not_lt.mp hge)] at hlive
      cases hlive

/-- A flow entry that matches a name is the default one, or comes from a live update for a
prefix of the name. -/
theorem Settlement.update_of_isMatch (h : Settlement d plan hand w) (hplan : WellBehaved plan)
    (hinv : LoopInv cfg sw₀ w) (hfresh : sw₀ = initPipeline cfg.std)
    (hinj : Set.InjOn (PacketHeader.computeComponentHash cfg.stdHash) S)
    (hover : ∀ a ∈ plan, ∀ c ∈ a.update.pfx, c ∈ S) (hname : ∀ c ∈ name, c ∈ S)
    {header : PacketHeader} {e : FlowEntry} (he : e ∈ w.env.switch.fib.entries)
    (hmatch : e.isMatch w.clock.now (fibHeader cfg.stdHash name header).serialize = true) :
    e = dropEntry ∨ ∃ u, .admitted u ∈ w.log ∧ u.pfx <+: name ∧ u.LiveAt w.clock.now ∧
      e.priority = fibPriority (PacketHeader.hashesOf cfg.stdHash u.pfx) := by
  have hjoined := hinv.joined
  rw [hjoined.switch, hfresh] at he
  rcases mem_fib_replay (isSwitch_initPipeline cfg.std) hjoined.leading_applied he with
    he | ⟨m, hm, rfl⟩
  · rw [fib_initPipeline, List.mem_singleton] at he
    exact Or.inl he
  · obtain ⟨u, hu, heq⟩ := hjoined.descends_applied hm
    obtain ⟨hulog, hup⟩ := mem_admissions.mp hu
    obtain ⟨a, ha, rfl⟩ := h.exists_plan hulog
    have hhashes : m.nameHashes = PacketHeader.hashesOf cfg.stdHash a.update.pfx := by
      rw [hjoined.nameHashes_eq (hjoined.descends_applied hm), hup]
    have hexpiry : m.routeExpiry = a.update.packetIn.routeExpiry := by rw [heq]
    obtain ⟨hlive, hagree⟩ := (isMatch_fibEntry ..).mp hmatch
    rw [hhashes] at hagree
    refine Or.inr ⟨a.update, hulog, ?_, ?_, by rw [← hhashes]; rfl⟩
    · refine prefix_of_headerMatches cfg.stdHash (hplan.short a ha) (fun c hc c' hc' hsame => ?_)
        rfl hagree
      exact hinj (hover a ha c hc) (hname c' hc') hsame
    · rw [← isExpiredAt_packetIn_eq_false_iff (hplan.range a ha),
        ControlMessage.isExpiredAt_eq_false_iff, ← hexpiry]
      by_cases hzero : m.routeExpiry = 0
      · exact Or.inl hzero
      · refine Or.inr ?_
        by_contra hge
        refine hlive ⟨?_, Int.not_lt.mp hge⟩
        have hroute : m.routeExpiry = a.update.routeExpiry := hexpiry
        rw [hroute] at hzero ⊢
        by_cases hlease : 0 < a.update.lifetime
        · rw [routeExpiry_of_lease hlease (hplan.range a ha hlease)]
          exact Int.add_pos_of_nonneg_of_pos (Int.natCast_nonneg _) hlease
        · exact absurd (by rw [Admission.routeExpiry, if_neg hlease]) hzero

/-- A name without a live update has no route. -/
theorem Settlement.no_route (h : Settlement d plan hand w) (hplan : WellBehaved plan)
    (hinv : LoopInv cfg sw₀ w) (hsw : IsSwitch w.env.switch) (hfresh : sw₀ = initPipeline cfg.std)
    (hinj : Set.InjOn (PacketHeader.computeComponentHash cfg.stdHash) S)
    (hover : ∀ a ∈ plan, ∀ c ∈ a.update.pfx, c ∈ S) (hname : ∀ c ∈ name, c ∈ S)
    (hnone : ∀ u, .admitted u ∈ w.log → u.pfx <+: name → ¬u.LiveAt w.clock.now)
    (header : PacketHeader) :
    ∃ r, (selectRoute cfg true name header w).1 = some r ∧ SendsTo r [] := by
  have hfound := h.findLongestPrefix_eq_none hplan hinv hnone
  refine ⟨_, selectRoute_of_none hfound, ?_⟩
  have hsends := hsw.hasTables.sendsTo_interest_fib (fibHeader cfg.stdHash name header)
    w.clock.now rfl rfl
  have hports : fibPorts w.clock.now (fibHeader cfg.stdHash name header) w.env.switch = [] := by
    unfold fibPorts
    split
    · rfl
    next e hlookup =>
      rcases h.update_of_isMatch hplan hinv hfresh hinj hover hname
          (List.mem_of_find?_eq_some hlookup) (List.find?_some hlookup) with
        rfl | ⟨u, hu, hup, hlive, -⟩
      · rfl
      · exact absurd hlive (hnone u hu hup)
  rw [hports] at hsends
  exact hsends

/-- The FlowMod of a live update that has left the local controller was applied last. -/
theorem Settlement.appliedLast (h : Settlement d plan hand w) (hplan : WellBehaved plan)
    (hinv : LoopInv cfg sw₀ w) (hlast : lastAdmission w.log u.pfx = some u)
    (hlive : u.LiveAt w.clock.now) (hgone : w.ctl.seqMap[u.pfx]? = none) : AppliedLast w u := by
  have hu := (mem_of_lastAdmission hlast).1
  obtain ⟨-, t, seq, expiry, ports, hmem⟩ :=
    h.completed_of_gone hplan hinv rfl h.kept hlast hgone hlive
  obtain ⟨-, i, j, a, -, ha, -, hpayload, -⟩ :=
    hinv.appliedThenAcked (hinv.joined.acked _ _ _ _ _ hmem) (u := u) rfl
  have ha := List.mem_of_getElem? ha
  have hap : a.pfx = u.pfx := ControlMessage.payload_pfx hpayload
  -- the message was that of `u`, so every later one would belong to a later update
  have hdescends : ∀ {b : ControlMessage}, .applied b ∈ w.env.history → b.pfx = u.pfx →
      ∃ x, .admitted x ∈ w.log ∧ x.pfx = u.pfx ∧ b = { x.packetIn with type := b.type } := by
    intro b hb hbp
    obtain ⟨x, hx, heq⟩ := hinv.joined.seen _ hb
    obtain ⟨hxlog, hxp⟩ := mem_admissions.mp hx
    exact ⟨x, hxlog, hxp.trans hbp, heq⟩
  obtain ⟨x, hx, hxp, heq⟩ := hdescends ha hap
  have hxu : x = u := by
    refine h.eq_of_seq hplan hx hu hxp ?_
    have hseq : a.seq = u.seq := ControlMessage.payload_seq hpayload
    have haseq : a.seq = x.seq := by rw [heq]; rfl
    omega
  subst hxu
  have horigin : a.origin = x.origin := by
    rw [heq]
    rfl
  obtain ⟨mods, later, hsplit⟩ := List.append_of_mem (mem_appliedAll.mpr ha)
  refine ⟨mods, a, later, hsplit, hpayload, fun b hb hbp => ?_⟩
  have hinstalls := h.timeline.installs x.pfx
  rw [appliedMessages_eq_filter, hsplit, List.filter_append,
    List.filter_cons_of_pos (by simpa using hap), List.pairwise_append,
    List.pairwise_cons] at hinstalls
  have hlt := hinstalls.2.1.1 b (List.mem_filter.mpr ⟨hb, by simpa using hbp⟩)
  have hblog : .applied b ∈ w.env.history := by
    rw [← mem_appliedAll, hsplit]
    exact List.mem_append_right _ (List.mem_cons_of_mem a hb)
  obtain ⟨y, hy, hyp, hbeq⟩ := hdescends hblog hbp
  have hyorigin : b.origin = y.origin := by
    rw [hbeq]
    rfl
  have hle := h.numbered.le_last hlast hy hyp
  omega

/-! ## Routes -/

/-- The latest update of the plan for a prefix of the name is the latest admission of that
prefix. -/
theorem Settlement.lastAdmission_of_plan (h : Settlement d plan hand w)
    (hplan : WellBehaved plan) {a : PlannedUpdate}
    (ha : (plan.filter fun b => decide (b.update.pfx <+: name)).getLast? = some a) :
    a ∈ plan ∧ a.update.pfx <+: name ∧ lastAdmission w.log a.update.pfx = some a.update ∧
      ∀ u, .admitted u ∈ w.log → u.pfx <+: name → u.pfx = a.update.pfx := by
  obtain ⟨hmem, hprefix⟩ := List.mem_filter.mp (List.mem_of_getLast? ha)
  have hprefix : a.update.pfx <+: name := of_decide_eq_true hprefix
  have hsame : ∀ b ∈ plan, b.update.pfx <+: name → b.update.pfx = a.update.pfx := by
    intro b hb hbp
    rcases hplan.incomparable b hb a hmem with heq | ⟨hba, hab⟩
    · exact heq
    · rcases List.prefix_or_prefix_of_prefix hbp hprefix with hle | hle
      · exact absurd hle hba
      · exact absurd hle hab
  refine ⟨hmem, hprefix, ?_, fun u hu hup => ?_⟩
  · have hfilter : (plan.filter fun b => decide (b.update.pfx <+: name)) =
        plan.filter fun b => decide (b.update.pfx = a.update.pfx) := by
      refine List.filter_congr fun b hb => ?_
      rw [decide_eq_decide]
      exact ⟨hsame b hb, fun heq => heq ▸ hprefix⟩
    rw [lastAdmission, admissions_eq_filter, h.admitted, List.filter_map, List.getLast?_map]
    rw [hfilter] at ha
    exact congrArg (Option.map (·.update)) ha
  · obtain ⟨b, hb, rfl⟩ := h.exists_plan hu
    exact hsame b hb hup

/-- A fed loop routes every name as its plan says. -/
theorem FedRun.selectRoute_planned (hrun : FedRun cfg d w₀ feed w) (hlossless : Lossless cfg)
    (hguards : cfg.central.generationGuardEnabled = true →
      cfg.temporary.generationGuardEnabled = true)
    (hfresh : w₀.env.switch = initPipeline cfg.std) (hplan : WellBehaved (planned cfg feed))
    (hclock : (w.clock.now : Int) < timePointMax)
    (hinj : Set.InjOn (PacketHeader.computeComponentHash cfg.stdHash) S)
    (hover : ∀ a ∈ planned cfg feed, ∀ c ∈ a.update.pfx, c ∈ S) (hname : ∀ c ∈ name, c ∈ S)
    (header : PacketHeader) :
    ∃ r, (selectRoute cfg true name header w).1 = some r ∧
      SendsTo r (plannedPorts (planned cfg feed) w.clock.now name) := by
  have h := hrun.settlement hlossless hguards hplan
  have hinv := hrun.loopRun.inv
  have hsw := hrun.loopRun.isSwitch
  unfold plannedPorts
  split
  next hnone =>
    rw [List.getLast?_eq_none_iff, List.filter_eq_nil_iff] at hnone
    refine h.no_route hplan hinv hsw hfresh hinj hover hname (fun u hu hup => ?_) header
    obtain ⟨a, ha, rfl⟩ := h.exists_plan hu
    exact absurd (decide_eq_true hup) (hnone a ha)
  next a ha =>
    obtain ⟨hmem, hprefix, hlast, honly⟩ := h.lastAdmission_of_plan hplan ha
    by_cases hlive : a.update.LiveAt w.clock.now
    · rw [if_pos hlive]
      refine hrun.loopRun.steers (hplan.short a hmem) (fun v hv => ?_) (fun v v' hv hv' c hc c' hc'
        hsame => ?_) hlast (hplan.ports a hmem) (hplan.range a hmem) hclock hlive
        (h.appliedLast hplan hinv hlast hlive) hprefix header fun e he hmatch => ?_
      · obtain ⟨b, hb, rfl⟩ := h.exists_plan hv
        exact hplan.incomparable b hb a hmem
      · obtain ⟨b, hb, rfl⟩ := h.exists_plan hv
        obtain ⟨b', hb', rfl⟩ := h.exists_plan hv'
        exact hinj (hover b hb c hc) (hover b' hb' c' hc') hsame
      · rcases h.update_of_isMatch hplan hinv hfresh hinj hover hname he hmatch with
          rfl | ⟨u, hu, hup, -, hpriority⟩
        · exact Nat.zero_le _
        · rw [hpriority, honly u hu hup]
    · rw [if_neg hlive]
      refine h.no_route hplan hinv hsw hfresh hinj hover hname
        (fun u hu hup hulive => hlive ?_) header
      -- no earlier update outlives the latest one
      rcases Nat.lt_or_eq_of_le (h.numbered.le_last hlast hu (honly u hu hup)) with hlt | heq
      · intro hlease
        have hdeadlines := h.rel (R := fun u v => 0 < v.lifetime → 0 < u.lifetime ∧
          (u.time : Int) + u.lifetime ≤ v.time + v.lifetime) hplan.deadlines hu
          (h.admitted_of_plan hmem) (honly u hu hup) hlt hlease
        exact Int.lt_of_lt_of_le (hulive hdeadlines.1) hdeadlines.2
      · have hsame := h.numbered.eq_of_origin hu (h.admitted_of_plan hmem) (honly u hu hup) heq
        rwa [← hsame]

/-! ## Completions -/

/-- Every message that is due has been handled. -/
def Quiet (w : LoopWorld ε) : Prop :=
  ∀ e ∈ w.env.central.events, w.clock.now < e.ts

/-- Between the events of an instant, exactly the updates that the plan completes have
completed. -/
theorem Settlement.completed_iff (h : Settlement d plan none w) (hquiet : Quiet w) :
    Completed w u ↔ u ∈ plan.map (·.update) ∧ Completes d plan w.clock.now u := by
  constructor
  · intro hcompleted
    refine ⟨?_, h.sound u hcompleted⟩
    rw [← h.admitted]
    exact mem_updates.mpr hcompleted.1
  · rintro ⟨hu, hlive, hpast, hnext⟩
    rw [← h.admitted, mem_updates] at hu
    rcases h.numbered.next_or_last hu with hlast | ⟨v, hv, hvp, hvnum⟩
    · rcases h.last _ _ hlast with hcompleted | ⟨e, he, hmessage⟩ | hnone | hlapsed
      · exact hcompleted
      · -- a message on its way would have been due
        exfalso
        obtain ⟨y, hy, hcarried, hts⟩ := h.timeline.inFlight e he
        have hyu : y = u := h.numbered.eq_of_packetIn hy hu (hcarried.symm.trans hmessage)
        rw [hyu] at hts
        have harrival := d.arrival_le_total e.event
        have hlater := hquiet e he
        omega
      · cases hnone
      · exact absurd hlive hlapsed
    · obtain ⟨a, ha, rfl⟩ := h.exists_plan hu
      obtain ⟨b, hb, rfl⟩ := h.exists_plan hv
      rcases h.earlier a ha b hb hvp hvnum with hcompleted | hlapsed | hovertaken
      · exact hcompleted
      · exact absurd hlive hlapsed
      · exact absurd (hnext b hb hvp hvnum) hovertaken

/-! ## Two loops -/

/-- The generation guard is transparent on well-behaved control channels.  Two loops that
are fed the same Trace updates over lossless channels with the same constant delays, one
with the guard and one without it, send every name to the same ports at every time, admit
the same updates, and have completed the same ones between the events of an instant.  Of
the guarded loop only the guard of the local controller is asked for, and of the other one
only that the flow-table controller has none.  The flow tables may differ. -/
theorem guard_transparent {on off : LoopConfig} {w₀ v₀ w v : LoopWorld ε}
    (hon : on.temporary.generationGuardEnabled = true)
    (hoff : off.central.generationGuardEnabled = false)
    (hhash : off.stdHash = on.stdHash)
    (hlife : off.temporary.entryLifetime = on.temporary.entryLifetime)
    (hlossless : Lossless on) (hlossless' : Lossless off)
    (hfresh : w₀.env.switch = initPipeline on.std)
    (hfresh' : v₀.env.switch = initPipeline off.std)
    (hplan : WellBehaved (planned on feed)) (hw : FedRun on d w₀ feed w)
    (hv : FedRun off d v₀ feed v) (hnow : v.clock.now = w.clock.now)
    (hclock : (w.clock.now : Int) < timePointMax)
    (hinj : Set.InjOn (PacketHeader.computeComponentHash on.stdHash) S)
    (hover : ∀ a ∈ planned on feed, ∀ c ∈ a.update.pfx, c ∈ S) :
    (∀ name, (∀ c ∈ name, c ∈ S) → ∀ header, ∃ ports r r',
      (selectRoute on true name header w).1 = some r ∧ SendsTo r ports ∧
      (selectRoute off true name header v).1 = some r' ∧ SendsTo r' ports) ∧
    updates w.log = (planned on feed).map (·.update) ∧ updates v.log = updates w.log ∧
    (Quiet w → Quiet v → ∀ u, Completed w u ↔ Completed v u) := by
  have hsame : planned off feed = planned on feed := planned_congr hhash hlife feed
  have hguards : off.central.generationGuardEnabled = true →
      off.temporary.generationGuardEnabled = true := by
    intro htrue
    exact absurd (hoff.symm.trans htrue) Bool.false_ne_true
  have hplan' : WellBehaved (planned off feed) := by rwa [hsame]
  have hset := hw.settlement hlossless (fun _ => hon) hplan
  have hset' := hv.settlement hlossless' hguards hplan'
  rw [hsame] at hset'
  refine ⟨fun name hname header => ?_, hset.admitted, ?_, fun hquiet hquiet' u => ?_⟩
  · obtain ⟨r, hr, hsends⟩ := hw.selectRoute_planned hlossless (fun _ => hon) hfresh hplan hclock
      hinj hover hname header
    obtain ⟨r', hr', hsends'⟩ := hv.selectRoute_planned (S := S) hlossless' hguards hfresh' hplan'
      (by rwa [hnow]) (by rwa [hhash]) (by rwa [hsame]) hname header
    rw [hsame, hnow] at hsends'
    exact ⟨_, r, r', hr, hsends, hr', hsends'⟩
  · rw [hset'.admitted, hset.admitted]
  · rw [hset.completed_iff hquiet, hset'.completed_iff hquiet', hnow]

/-! ## A sample pair of runs -/

/-- Every leg takes five. -/
def steadyConfig (guard : Bool) : LoopConfig := losslessConfig guard fun _ => 5

def steadyLegs : Legs := ⟨5, 5, 5⟩

/-- The second update overtakes the FlowMod of the first one. -/
def sampleFeed : List TraceInput :=
  [⟨0, samplePrefix, 3, 1, 0, false⟩, ⟨4, samplePrefix, 4, 2, 0, false⟩]

/-- The second update is admitted while the PacketIn of the first one is in flight. -/
def pursuedWorld (guard : Bool) : LoopWorld Unit :=
  let first := traced (steadyConfig guard) samplePrefix 3 1 0 startWorld
  traced (steadyConfig guard) samplePrefix 4 2 0 { first with clock := ⟨4, first.clock.uid⟩ }

/-- Both PacketIns are accepted, and the FlowMod of the first update has been attempted. -/
def overtakenWorld (guard : Bool) : LoopWorld Unit :=
  fireFirst (steadyConfig guard) (fireFirst (steadyConfig guard)
    (fireFirst (steadyConfig guard) (pursuedWorld guard)))

theorem onSubmit_steadyConfig (guard : Bool) {σ : Type} (m : ControlMessage)
    (c : FlowTableWorld σ) : steadyLegs.OnSubmit (steadyConfig guard).central m c :=
  ⟨rfl, fun _ _ => rfl⟩

theorem onArrival_steadyConfig (guard : Bool) {σ : Type} (event : FlowTableEvent)
    (c : FlowTableWorld σ) : steadyLegs.OnArrival (steadyConfig guard).central event c := by
  cases event with
  | acceptControl m => exact fun _ => rfl
  | attemptFlowMod m => exact fun _ _ => rfl
  | deliverSyncAck m => trivial

theorem FedRun.fireFirst_steadyConfig {guard : Bool} {w₀ w : LoopWorld Unit}
    (h : FedRun (steadyConfig guard) steadyLegs w₀ feed w)
    (hdue : ∀ e ∈ w.env.central.events.head?, IsDue w e.key) :
    FedRun (steadyConfig guard) steadyLegs w₀ feed (fireFirst (steadyConfig guard) w) := by
  unfold fireFirst
  split
  · exact h
  next e rest hevents =>
    refine .message h ?_ (hdue e (by rw [hevents]; rfl)) (onArrival_steadyConfig guard _ _)
    rw [hevents]
    exact List.mem_cons_self

theorem fedRun_overtakenWorld (guard : Bool) :
    FedRun (steadyConfig guard) steadyLegs startWorld sampleFeed (overtakenWorld guard) := by
  have hstart : FedRun (steadyConfig guard) steadyLegs startWorld [] startWorld :=
    .start (isInitial_startWorld _ _)
  have hfirst := hstart.trace ⟨0, samplePrefix, 3, 1, 0, false⟩ rfl
    (fun u hu => by cases hu) (fun _ => onSubmit_steadyConfig _ _ _)
  have hidle := hfirst.idle ⟨4, (traced (steadyConfig guard) samplePrefix 3 1 0
    startWorld).clock.uid⟩ (by cases guard <;> decide) (Nat.le_refl _)
    (by cases guard <;> decide) (by cases guard <;> decide) ()
  have hpursued := hidle.trace ⟨4, samplePrefix, 4, 2, 0, false⟩ rfl ?_
    (fun _ => onSubmit_steadyConfig _ _ _)
  · have hfired := (hpursued.fireFirst_steadyConfig (by cases guard <;> decide))
    have hfired' := hfired.fireFirst_steadyConfig (by cases guard <;> decide)
    exact hfired'.fireFirst_steadyConfig (by cases guard <;> decide)
  · intro u _ htie
    have hfifteen : u.time + 15 = 4 := htie
    omega

theorem guard_transparent_overtakenWorld :
    (overtakenWorld true).env.history ≠ (overtakenWorld false).env.history ∧
      ∃ ports r r', (selectRoute (steadyConfig true) true samplePrefix .empty
        (overtakenWorld true)).1 = some r ∧ SendsTo r ports ∧
        (selectRoute (steadyConfig false) true samplePrefix .empty
          (overtakenWorld false)).1 = some r' ∧ SendsTo r' ports := by
  have hplan : WellBehaved (planned (steadyConfig true) sampleFeed) :=
    ⟨by decide, by decide, by decide, by decide, by decide, by decide, by decide⟩
  have hlossless : ∀ guard, Lossless (steadyConfig guard) :=
    fun guard => ⟨fun _ _ => rfl, Int.lt_irrefl 0⟩
  have hon : (steadyConfig true).temporary.generationGuardEnabled = true := rfl
  have hoff : (steadyConfig false).central.generationGuardEnabled = false := rfl
  have hhash : (steadyConfig false).stdHash = (steadyConfig true).stdHash := rfl
  have hlife : (steadyConfig false).temporary.entryLifetime =
      (steadyConfig true).temporary.entryLifetime := rfl
  have hfresh : ∀ guard, startWorld.env.switch = initPipeline (steadyConfig guard).std :=
    fun _ => rfl
  have hnow : (overtakenWorld false).clock.now = (overtakenWorld true).clock.now := by decide
  have hclock : ((overtakenWorld true).clock.now : Int) < timePointMax := by decide
  have hover : ∀ a ∈ planned (steadyConfig true) sampleFeed, ∀ c ∈ a.update.pfx,
      c ∈ ({.generic [0x61]} : Set Component) := by decide
  have hall := guard_transparent hon hoff hhash hlife (hlossless true) (hlossless false)
    (hfresh true) (hfresh false) hplan (fedRun_overtakenWorld true) (fedRun_overtakenWorld false)
    hnow hclock (Set.injOn_singleton _ _) hover
  exact ⟨by decide, hall.1 samplePrefix (by decide) .empty⟩

end Loop

end Statim
