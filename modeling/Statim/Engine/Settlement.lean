import Statim.Engine.Timeline

/-!
# When an update completes

On a lossless channel with constant delays an update completes exactly when its
SyncAck arrives before its lease ends and before the next update of its prefix.
The guard has no part in it: it suppresses messages of updates that the next one
has overtaken anyway.
-/

namespace Statim

open Support

/-- The lease of the update has not ended. -/
def Admission.LiveAt (u : Admission) (t : Nat) : Prop :=
  0 < u.lifetime → (t : Int) < u.time + u.lifetime

theorem Admission.LiveAt.mono {u : Admission} {t t' : Nat} (h : u.LiveAt t') (hle : t ≤ t') :
    u.LiveAt t := by
  intro hlease
  have hlt := h hlease
  omega

namespace Loop

open LocalRouteController FlowTableController

variable {ε : Type} {cfg : LoopConfig} {d : Legs} {w w' : LoopWorld ε} {m : ControlMessage}
  {u v : Admission} {p : Name} {log : List LocalObs} {plan : List PlannedUpdate}
  {event : FlowTableEvent}

/-! ## Well-behaved plans -/

/-- Ports 1 to 32, prefixes of at most four components none of which is a prefix of
another, generations from 1 on that increase strictly for each prefix, and deadlines that
never move back.  An update without a lease has an infinite deadline. -/
structure WellBehaved (plan : List PlannedUpdate) : Prop where
  ports : ∀ a ∈ plan, 1 ≤ a.update.port ∧ a.update.port ≤ 32
  short : ∀ a ∈ plan, a.update.pfx.length ≤ nameHashCount
  incomparable : ∀ a ∈ plan, ∀ b ∈ plan, a.update.pfx = b.update.pfx ∨
    (¬a.update.pfx <+: b.update.pfx ∧ ¬b.update.pfx <+: a.update.pfx)
  positive : ∀ a ∈ plan, 1 ≤ a.update.seq
  increasing : plan.Pairwise fun a b => a.update.pfx = b.update.pfx →
    a.update.seq < b.update.seq
  deadlines : plan.Pairwise fun a b => a.update.pfx = b.update.pfx → 0 < b.update.lifetime →
    0 < a.update.lifetime ∧
      (a.update.time : Int) + a.update.lifetime ≤ b.update.time + b.update.lifetime
  range : ∀ a ∈ plan, 0 < a.update.lifetime → a.update.time + a.update.lifetime < 2 ^ 63

theorem WellBehaved.sublist {plan' : List PlannedUpdate} (h : WellBehaved plan)
    (hsub : plan'.Sublist plan) : WellBehaved plan' where
  ports a ha := h.ports a (hsub.subset ha)
  short a ha := h.short a (hsub.subset ha)
  incomparable a ha b hb := h.incomparable a (hsub.subset ha) b (hsub.subset hb)
  positive a ha := h.positive a (hsub.subset ha)
  increasing := h.increasing.sublist hsub
  deadlines := h.deadlines.sublist hsub
  range a ha := h.range a (hsub.subset ha)

/-- The messages of an update expire with its lease. -/
theorem isExpiredAt_packetIn_eq_false_iff
    (hrange : 0 < u.lifetime → u.time + u.lifetime < 2 ^ 63) (t : Nat) :
    u.packetIn.isExpiredAt t = false ↔ u.LiveAt t := by
  rw [ControlMessage.isExpiredAt_eq_false_iff]
  have hroute : u.packetIn.routeExpiry = u.routeExpiry := rfl
  rw [hroute, Admission.LiveAt]
  by_cases hlease : 0 < u.lifetime
  · rw [routeExpiry_of_lease hlease (hrange hlease)]
    constructor
    · intro h _
      rcases h with hzero | hlt
      · have hpos := Int.add_pos_of_nonneg_of_pos (Int.natCast_nonneg u.time) hlease
        exact absurd hzero (Int.ne_of_gt hpos)
      · exact hlt
    · exact fun h => Or.inr (h hlease)
  · simp [Admission.routeExpiry, hlease]

/-! ## Numbered admissions -/

/-- What holds between earlier and later updates of a prefix holds along their numbers. -/
theorem Numbered.rel (h : Numbered log) {R : Admission → Admission → Prop}
    (hR : (updates log).Pairwise fun u v => u.pfx = v.pfx → R u v) (hu : .admitted u ∈ log)
    (hv : .admitted v ∈ log) (hpfx : u.pfx = v.pfx) (hlt : u.origin < v.origin) : R u v := by
  have hpairs : (admissions log v.pfx).Pairwise fun u v => u.pfx = v.pfx → R u v := by
    rw [admissions_eq_filter]
    exact hR.sublist List.filter_sublist
  have hgetU := h.get hu
  rw [hpfx] at hgetU
  obtain ⟨hi, hatU⟩ := List.getElem?_eq_some_iff.mp hgetU
  obtain ⟨hj, hatV⟩ := List.getElem?_eq_some_iff.mp (h.get hv)
  have hrel := List.pairwise_iff_getElem.mp hpairs _ _ hi hj hlt
  rw [hatU, hatV] at hrel
  exact hrel hpfx

/-- Observations other than admissions change no numbers. -/
theorem admissions_congr {log' : List LocalObs} (h : updates log' = updates log) (p : Name) :
    admissions log' p = admissions log p := by
  rw [admissions_eq_filter, admissions_eq_filter, h]

/-! ## Completion -/

/-- The SyncAck of the update comes before a later one. -/
def Before (d : Legs) (u : Admission) (b : PlannedUpdate) : Prop :=
  u.time + d.total < b.update.time ∨ (u.time + d.total = b.update.time ∧ b.late = true)

/-- The SyncAck of the update has come, before its deadline and before the next update. -/
def Completes (d : Legs) (plan : List PlannedUpdate) (now : Nat) (u : Admission) : Prop :=
  u.LiveAt (u.time + d.total) ∧ u.time + d.total ≤ now ∧
    ∀ b ∈ plan, b.update.pfx = u.pfx → b.update.origin = u.origin + 1 → Before d u b

/-- The update has been admitted and completed by its own SyncAck. -/
def Completed (w : LoopWorld ε) (u : Admission) : Prop :=
  .admitted u ∈ w.log ∧ ∃ t seq expiry ports,
    .completed t { u.packetIn with type := .syncAck } seq expiry ports ∈ w.log

theorem Completed.mono (h : Completed w u) (hlog : ∀ o ∈ w.log, o ∈ w'.log) : Completed w' u := by
  obtain ⟨hu, t, seq, expiry, ports, hmem⟩ := h
  exact ⟨hlog _ hu, t, seq, expiry, ports, hlog _ hmem⟩

/-- A message of the update is on its way. -/
def InFlight (w : LoopWorld ε) (u : Admission) : Prop :=
  ∃ e ∈ w.env.central.events, e.event.message = u.packetIn

/-! ## The invariant -/

/-- What a fed loop has admitted and completed.  While a handler runs, `hand` is the
update whose message it handles. -/
structure Settlement (d : Legs) (plan : List PlannedUpdate) (hand : Option Admission)
    (w : LoopWorld ε) : Prop where
  timeline : OnTime d w
  admitted : updates w.log = plan.map (·.update)
  numbered : Numbered w.log
  chronological : plan.Pairwise fun a b => a.update.time ≤ b.update.time
  past : ∀ a ∈ plan, a.update.time ≤ w.clock.now
  kept : ∀ t q s, .withdrawn t q s ∉ w.log
  sound : ∀ u, Completed w u → Completes d plan w.clock.now u
  last : ∀ p u, lastAdmission w.log p = some u → Completed w u ∨ InFlight w u ∨ hand = some u ∨
    ¬u.LiveAt (u.time + d.total)
  earlier : ∀ a ∈ plan, ∀ b ∈ plan, b.update.pfx = a.update.pfx →
    b.update.origin = a.update.origin + 1 → Completed w a.update ∨
      ¬a.update.LiveAt (a.update.time + d.total) ∨ ¬Before d a.update b

namespace Settlement

variable {hand : Option Admission}

theorem exists_plan (h : Settlement d plan hand w) (hu : .admitted u ∈ w.log) :
    ∃ a ∈ plan, a.update = u := by
  have hmem := mem_updates.mpr hu
  rw [h.admitted] at hmem
  exact List.mem_map.mp hmem

theorem admitted_of_plan (h : Settlement d plan hand w) {a : PlannedUpdate} (ha : a ∈ plan) :
    .admitted a.update ∈ w.log := by
  refine mem_updates.mp ?_
  rw [h.admitted]
  exact List.mem_map_of_mem ha

/-- What holds between earlier and later updates of the plan holds along their numbers. -/
theorem rel (h : Settlement d plan hand w) {R : Admission → Admission → Prop}
    (hR : plan.Pairwise fun a b => a.update.pfx = b.update.pfx → R a.update b.update)
    (hu : .admitted u ∈ w.log) (hv : .admitted v ∈ w.log) (hpfx : u.pfx = v.pfx)
    (hlt : u.origin < v.origin) : R u v := by
  refine h.numbered.rel ?_ hu hv hpfx hlt
  rw [h.admitted, List.pairwise_map]
  exact hR

theorem chron (h : Settlement d plan hand w) : Chronological w.log := by
  intro u v hu hv hpfx hlt
  have htimes : plan.Pairwise fun a b => a.update.pfx = b.update.pfx →
      a.update.time ≤ b.update.time := by
    refine h.chronological.imp ?_
    intro a b hle _
    exact hle
  exact h.rel (R := fun u v => u.time ≤ v.time) htimes hu hv hpfx hlt

theorem seq_lt (h : Settlement d plan hand w) (hplan : WellBehaved plan)
    (hu : .admitted u ∈ w.log) (hv : .admitted v ∈ w.log) (hpfx : u.pfx = v.pfx)
    (hlt : u.origin < v.origin) : u.seq < v.seq :=
  h.rel (R := fun u v => u.seq < v.seq) hplan.increasing hu hv hpfx hlt

theorem eq_of_seq (h : Settlement d plan hand w) (hplan : WellBehaved plan)
    (hu : .admitted u ∈ w.log) (hv : .admitted v ∈ w.log) (hpfx : u.pfx = v.pfx)
    (hseq : u.seq = v.seq) : u = v := by
  rcases Nat.lt_trichotomy u.origin v.origin with hlt | heq | hgt
  · have hless := h.seq_lt hplan hu hv hpfx hlt
    omega
  · exact h.numbered.eq_of_origin hu hv hpfx heq
  · have hless := h.seq_lt hplan hv hu hpfx.symm hgt
    omega

theorem seq_pos (h : Settlement d plan hand w) (hplan : WellBehaved plan)
    (hu : .admitted u ∈ w.log) : 1 ≤ u.seq := by
  obtain ⟨a, ha, rfl⟩ := h.exists_plan hu
  exact hplan.positive a ha

theorem range (h : Settlement d plan hand w) (hplan : WellBehaved plan)
    (hu : .admitted u ∈ w.log) : 0 < u.lifetime → u.time + u.lifetime < 2 ^ 63 := by
  obtain ⟨a, ha, rfl⟩ := h.exists_plan hu
  exact hplan.range a ha

/-- A message of an earlier update is of an older generation. -/
theorem seq_lt_of_descends (h : Settlement d plan hand w) (hplan : WellBehaved plan)
    (hu : .admitted u ∈ w.log) (hm : Descends w.log m) (hpfx : m.pfx = u.pfx)
    (hlt : m.origin < u.origin) : m.seq < u.seq := by
  obtain ⟨v, hv, heq⟩ := hm
  obtain ⟨hvlog, hvp⟩ := mem_admissions.mp hv
  have horigin : m.origin = v.origin := by
    rw [heq]
    rfl
  have hseq : m.seq = v.seq := by
    rw [heq]
    rfl
  rw [hseq]
  exact h.seq_lt hplan hvlog hu (hvp.trans hpfx) (by omega)

end Settlement

theorem Completes.mono {now now' : Nat} (h : Completes d plan now u) (hnow : now ≤ now') :
    Completes d plan now' u :=
  ⟨h.1, Nat.le_trans h.2.1 hnow, h.2.2⟩

/-- Time passes, and lookups prune the temporary FIB. -/
theorem Settlement.quiet {hand : Option Admission} (h : Settlement d plan hand w)
    (hnow : w.clock.now ≤ w'.clock.now) (hlog : w'.log = w.log)
    (hevents : w'.env.central.events = w.env.central.events)
    (hhistory : w'.env.history = w.env.history) : Settlement d plan hand w' where
  timeline := by
    have hmono := h.timeline.mono (fun o ho => ho) hnow
    rw [OnTime, hlog, hevents, hhistory]
    exact hmono
  admitted := by
    rw [hlog]
    exact h.admitted
  numbered := by
    rw [hlog]
    exact h.numbered
  chronological := h.chronological
  past a ha := Nat.le_trans (h.past a ha) hnow
  kept := by
    rw [hlog]
    exact h.kept
  sound u hu := by
    rw [Completed, hlog] at hu
    exact (h.sound u hu).mono hnow
  last p u hu := by
    rw [Completed, InFlight, hlog, hevents]
    rw [hlog] at hu
    exact h.last p u hu
  earlier a ha b hb hpfx horigin := by
    rw [Completed, hlog]
    exact h.earlier a ha b hb hpfx horigin

/-! ## A message is handled -/

/-- The world in which the handler of an event of the flow-table controller runs. -/
def taken (e : Scheduled FlowTableEvent) (w : LoopWorld ε) : LoopWorld ε :=
  toTemporary (FlowTableController.take e (toCentral w))

/-- The message of the next event comes to hand. -/
theorem Settlement.take (h : Settlement d plan none w)
    (hqueue : QueueInv w.clock w.env.central.events) {e : Scheduled FlowTableEvent}
    (he : e ∈ w.env.central.events) (hdue : IsDue w e.key) :
    ∃ u, Holds d u e.event (taken e w) ∧ Settlement d plan (some u) (taken e w) := by
  obtain ⟨u, hhand⟩ := h.timeline.inHand he hdue.2
  have hnow : w.clock.now ≤ e.ts := hqueue.due e he
  refine ⟨u, hhand, ?_⟩
  refine
    { timeline := (h.timeline.cancel e.uid).mono (fun o ho => ho) hnow
      admitted := h.admitted
      numbered := h.numbered
      chronological := h.chronological
      past := fun a ha => Nat.le_trans (h.past a ha) hnow
      kept := h.kept
      sound := fun v hv => (h.sound v hv).mono hnow
      last := ?_
      earlier := h.earlier }
  intro p v hv
  rcases h.last p v hv with hcompleted | ⟨b, hb, hmessage⟩ | hnone | hlapsed
  · exact Or.inl hcompleted
  · by_cases hbe : b = e
    · subst hbe
      have hsame : u = v := h.numbered.eq_of_packetIn hhand.admitted (mem_of_lastAdmission hv).1
        (hhand.message.symm.trans hmessage)
      exact Or.inr (Or.inr (Or.inl (congrArg some hsame)))
    · refine Or.inr (Or.inl ⟨b, mem_cancel.mpr ⟨hb, fun huid => hbe ?_⟩, hmessage⟩)
      exact hqueue.uid_unique hb he huid
  · cases hnone
  · exact Or.inr (Or.inr (Or.inr hlapsed))

/-- Completions are no admissions. -/
theorem updates_of_completions {notes : List LocalObs}
    (h : ∀ o ∈ notes, ∃ t ack seq expiry ports, o = .completed t ack seq expiry ports) :
    updates notes = [] := by
  rw [updates, List.filterMap_eq_nil_iff]
  intro o ho
  obtain ⟨t, ack, seq, expiry, ports, rfl⟩ := h o ho
  rfl

/-- An update that has left the local controller before its deadline has completed. -/
theorem Settlement.completed_of_gone {hand : Option Admission} {sw₀ : SwitchPipeline}
    (h : Settlement d plan hand w) (hplan : WellBehaved plan) (hinv : LoopInv cfg sw₀ w')
    (hupdates : updates w'.log = updates w.log) (hkept : ∀ t q s, .withdrawn t q s ∉ w'.log)
    (hlast : lastAdmission w.log u.pfx = some u) (hgone : w'.ctl.seqMap[u.pfx]? = none)
    (hlive : u.LiveAt w'.clock.now) : Completed w' u := by
  have hold : ∀ {v}, .admitted v ∈ w'.log → .admitted v ∈ w.log := by
    intro v hv
    rw [← mem_updates, hupdates] at hv
    exact mem_updates.mp hv
  have hu := (mem_of_lastAdmission hlast).1
  have hlast' : lastAdmission w'.log u.pfx = some u := by
    rw [lastAdmission, admissions_congr hupdates]
    exact hlast
  rcases hinv.joined.settled u.pfx u hlast' with hres | hcompleted | ⟨t, hwithdrawn⟩ | hover
  · cases hgone.symm.trans hres
  · obtain ⟨t, ack, expiry, ports, hmem, hpfx⟩ := hcompleted
    obtain ⟨before, after, hlog⟩ := List.append_of_mem hmem
    obtain ⟨-, -, hguard, -⟩ := hinv.joined.completions before _ after hlog
    obtain ⟨v, hv, heq, -⟩ := hinv.acknowledges hlog
    obtain ⟨hvbefore, hvp⟩ := mem_admissions.mp hv
    have hvlog : .admitted v ∈ w.log := by
      refine hold ?_
      rw [hlog]
      exact List.mem_append_left _ hvbefore
    have hseq : u.seq = v.seq := by
      have hack : ack.seq = v.seq := by
        rw [heq]
        rfl
      rcases hguard with hsame | ⟨-, hzero⟩
      · rw [hsame, hack]
      · have hpos := h.seq_pos hplan hvlog
        omega
    obtain rfl := h.eq_of_seq hplan hu hvlog (hpfx.symm.trans hvp.symm) hseq
    refine ⟨mem_updates.mp ?_, t, u.seq, expiry, ports, ?_⟩
    · rw [hupdates]
      exact mem_updates.mpr hu
    · rw [← heq]
      exact hmem
  · exact absurd hwithdrawn (hkept t u.pfx u.seq)
  · exact absurd hover.2 (Int.not_le.mpr (hlive hover.1))

/-- A completion is that of the latest update, and its SyncAck came on time. -/
theorem Settlement.completes_of_note {hand : Option Admission} {sw₀ : SwitchPipeline}
    (h : Settlement d plan hand w) (hplan : WellBehaved plan) (hinv : LoopInv cfg sw₀ w')
    (htimeline : OnTime d w') {notes : List LocalObs} (hlog : w'.log = w.log ++ notes)
    (hnotes : ∀ o ∈ notes, ∃ t ack seq expiry ports, o = .completed t ack seq expiry ports)
    (hv : .admitted v ∈ w.log) {t seq : Nat} {expiry : Time} {ports : List Port}
    (hmem : .completed t { v.packetIn with type := .syncAck } seq expiry ports ∈ notes) :
    Completes d plan w'.clock.now v := by
  obtain ⟨earlier, later, hsplit⟩ := List.append_of_mem hmem
  have hwhole : w'.log = (w.log ++ earlier) ++
      .completed t { v.packetIn with type := .syncAck } seq expiry ports :: later := by
    rw [hlog, hsplit, List.append_assoc]
  obtain ⟨-, -, hguard, x, hxlast, hxseq, -⟩ := hinv.joined.completions _ _ _ hwhole
  have hxlast : lastAdmission (w.log ++ earlier) v.pfx = some x := hxlast
  have hguard : seq = v.seq ∨ cfg.temporary.generationGuardEnabled = false ∧ v.seq = 0 := hguard
  have hnone : updates earlier = [] := updates_of_completions fun o ho => hnotes o (by
    rw [hsplit]
    exact List.mem_append_left _ ho)
  have hlast : lastAdmission w.log v.pfx = some x := by
    rw [← hxlast, lastAdmission, lastAdmission, admissions_congr]
    rw [updates_append, hnone, List.append_nil]
  obtain ⟨hx, hxp⟩ := mem_of_lastAdmission hlast
  have hseq : x.seq = v.seq := by
    rcases hguard with hsame | ⟨-, hzero⟩
    · omega
    · have hpos := h.seq_pos hplan hv
      omega
  obtain rfl := h.eq_of_seq hplan hx hv hxp hseq
  -- its SyncAck was handed over on time and before the deadline
  have hcompleted : .completed t { x.packetIn with type := .syncAck } seq expiry ports ∈
      w'.log := by
    rw [hlog]
    exact List.mem_append_right _ hmem
  have hacked := hinv.joined.acked t _ seq expiry ports hcompleted
  obtain ⟨y, hy, hsame, ht, hpast⟩ := htimeline.acked t _ hacked
  have hyold : .admitted y ∈ w.log := by
    rw [← mem_updates, hlog, updates_append, updates_of_completions hnotes, List.append_nil] at hy
    exact mem_updates.mp hy
  have hyx : x = y := h.numbered.eq_of_origin hx hyold (congrArg ControlMessage.pfx hsame)
    (congrArg ControlMessage.origin hsame)
  subst hyx
  obtain ⟨i, hi⟩ := List.mem_iff_getElem?.mp hacked
  obtain ⟨-, hdeadline, -⟩ := hinv.central.history i t _ hi
  have hlive : x.LiveAt t := by
    rw [← isExpiredAt_packetIn_eq_false_iff (h.range hplan hx),
      ControlMessage.isExpiredAt_eq_false_iff]
    exact hdeadline
  rw [ht] at hlive hpast
  refine ⟨hlive, hpast, fun b hb hpfx hnext => ?_⟩
  have hle := h.numbered.le_last hlast (h.admitted_of_plan hb) hpfx
  omega

/-- What the handler emits settles the message in hand. -/
theorem Settlement.emits {sw₀ : SwitchPipeline} (h : Settlement d plan (some u) w)
    (hplan : WellBehaved plan) (hinv : LoopInv cfg sw₀ w') {sent : List (Scheduled FlowTableEvent)}
    {news : List FlowTableObs} (hemits : Emits sent news (toCentral w) (toCentral w'))
    (htimeline : OnTime d w')
    (hmoved : lastAdmission w.log u.pfx = some u → updates w'.log = updates w.log →
      (∀ t q s, .withdrawn t q s ∉ w'.log) →
        Completed w' u ∨ InFlight w' u ∨ ¬u.LiveAt (u.time + d.total)) :
    Settlement d plan none w' := by
  obtain ⟨notes, hlog, hnotes⟩ := hemits.notes
  have hlog : w'.log = w.log ++ notes := hlog
  have hnow : w'.clock.now = w.clock.now := hemits.now
  have hevents : w'.env.central.events = w.env.central.events ++ sent := hemits.events
  have hgrows : ∀ o ∈ w.log, o ∈ w'.log := by
    intro o ho
    rw [hlog]
    exact List.mem_append_left _ ho
  have hupdates : updates w'.log = updates w.log := by
    rw [hlog, updates_append, updates_of_completions hnotes, List.append_nil]
  have hkept : ∀ t q s, .withdrawn t q s ∉ w'.log := by
    intro t q s hmem
    rw [hlog] at hmem
    rcases List.mem_append.mp hmem with hmem | hmem
    · exact h.kept t q s hmem
    · obtain ⟨_, _, _, _, _, heq⟩ := hnotes _ hmem
      cases heq
  refine ⟨htimeline, ?_, ?_, h.chronological, ?_, hkept, ?_, ?_, ?_⟩
  · rw [hupdates]
    exact h.admitted
  · intro p i v hv
    rw [admissions_congr hupdates] at hv
    exact h.numbered p i v hv
  · rw [hnow]
    exact h.past
  · rintro v ⟨hv, t, seq, expiry, ports, hmem⟩
    have hvold : .admitted v ∈ w.log := by
      rw [← mem_updates, hupdates] at hv
      exact mem_updates.mp hv
    rw [hlog] at hmem
    rcases List.mem_append.mp hmem with hmem | hmem
    · rw [hnow]
      exact h.sound v ⟨hvold, t, seq, expiry, ports, hmem⟩
    · exact h.completes_of_note hplan hinv htimeline hlog hnotes hvold hmem
  · intro p v hv
    have hvold : lastAdmission w.log p = some v := by
      rw [← hv, lastAdmission, lastAdmission, admissions_congr hupdates]
    rcases h.last p v hvold with hcompleted | ⟨b, hb, hmessage⟩ | hhand | hlapsed
    · exact Or.inl (hcompleted.mono hgrows)
    · refine Or.inr (Or.inl ⟨b, ?_, hmessage⟩)
      rw [hevents]
      exact List.mem_append_left _ hb
    · obtain rfl := Option.some.inj hhand
      obtain rfl : u.pfx = p := (mem_of_lastAdmission hvold).2
      rcases hmoved hvold hupdates hkept with hcompleted | hflies | hlapsed
      · exact Or.inl hcompleted
      · exact Or.inr (Or.inl hflies)
      · exact Or.inr (Or.inr (Or.inr hlapsed))
    · exact Or.inr (Or.inr (Or.inr hlapsed))
  · intro a ha b hb hpfx hnext
    rcases h.earlier a ha b hb hpfx hnext with hcompleted | hrest
    · exact Or.inl (hcompleted.mono hgrows)
    · exact Or.inr hrest

end Loop

end Statim
