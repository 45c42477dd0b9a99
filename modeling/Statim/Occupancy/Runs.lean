import Statim.Occupancy.Refinement
import Statim.Occupancy.Residence

/-!
# Runs of the experiment

A run makes the steps of the delay line in their order, ends with the line empty, and
raises no exception.  What it measured is then compared with what `verify_residence`
recomputes from its samples, and with the integral and the overlaps of the residences.
-/

namespace Statim.Occupancy

open Support

variable {stdHash : Bytes → Nat} {work : Workload} {line : Line} {w w' : ExperimentWorld}

/-! ## The start of a run -/

theorem foldl_scheduleDriver (l : List (UInt64 × Nat)) {w : ExperimentWorld}
    (hnow : w.clock.now = 0) :
    l.foldl (fun w arrival => scheduleDriver arrival.2 (.arrive arrival.1) w) w =
      update (fun x => { x with driver := x.driver ++ arrivalEvents w.clock.uid l })
        { w with clock := ⟨0, w.clock.uid + l.length⟩ } := by
  induction l generalizing w with
  | nil =>
      obtain ⟨⟨now, uid⟩, ctl, log, env⟩ := w
      obtain rfl : now = 0 := hnow
      simp [update, arrivalEvents, series]
  | cons x l ih =>
      have hnow' : (scheduleDriver x.2 (.arrive x.1) w).clock.now = 0 := hnow
      rw [List.foldl_cons, ih hnow']
      simp [update, arrivalEvents, series, scheduleDriver, Clock.schedule, hnow, Nat.add_right_comm,
        Nat.add_assoc]

theorem start_eq (work : Workload) :
    start work = { blank with
      clock := ⟨0, work.arrivals.length + 1⟩
      env := { blank.env with members := { blank.env.members with
        driver := arrivalEvents 0 work.arrivals ++ [stopEvent work] } } } := by
  rw [start, foldl_scheduleDriver work.arrivals rfl]
  simp [scheduleDriver, update, blank, Clock.schedule, stopEvent, Clock.next]

theorem leaseFree_blank (tc : Nat) : LeaseFree tc blank :=
  ⟨LocalRouteController.LocalInv.initial ⟨rfl, rfl⟩, fun _ hu => absurd hu List.not_mem_nil⟩

theorem tracks_start (stdHash : Bytes → Nat) (work : Workload) :
    Tracks stdHash work (DelayLine.initial work.arrivals) (start work) := by
  rw [start_eq]
  refine ⟨⟨?_, rfl, rfl, rfl, rfl, rfl⟩, ?_, ?_, ?_⟩
  · simp [seconds, DelayLine.initial]
  · constructor
    case leaseFree =>
      exact (leaseFree_blank work.tc).elapse plain_temporaryConfig rfl rfl (Nat.le_refl 0)
    case size => rfl
    case resident => exact fun _ hx => absurd hx List.not_mem_nil
    case vacant => exact fun _ _ => Std.TreeMap.getElem?_emptyc
    case unseen => exact fun _ _ => rfl
    case drawsInside => exact fun _ hx => absurd hx List.not_mem_nil
    case drawsAhead => exact fun _ _ => rfl
  · constructor
    case observed => rfl
    case active => rfl
    case highWater => rfl
    case transition => rfl
    case area => rfl
    case samples => rfl
    case resident => exact fun _ hx => absurd hx List.not_mem_nil
    case vacant => exact fun _ _ => Std.TreeMap.getElem?_emptyc
  · exact ⟨rfl, rfl, rfl, rfl, rfl, rfl, rfl, rfl, rfl, rfl, rfl, rfl, rfl, rfl⟩

theorem lineInv_initial (work : Workload) :
    LineInv work (DelayLine.initial work.arrivals) :=
  DelayLine.Inv.initial fun _ _ => seconds_nonneg _

/-! ## The event that runs next -/

/-- What the simulator queue holds. -/
theorem Tracks.mem_queue (h : Tracks stdHash work line w) (hline : LineInv work line)
    {e : Scheduled SystemEvent} (he : e ∈ queue w) :
    (∃ y ∈ line.ahead, e.ts = y.2 ∧ line.done.length + line.inside.length ≤ e.uid ∧
      e.uid < work.arrivals.length) ∨
    (e.ts = work.horizon + 1 ∧ e.uid = work.arrivals.length) ∨
    ∃ y ∈ line.inside, e.ts = y.2 + work.tc ∧
      work.arrivals.length + 1 + line.done.length ≤ e.uid := by
  have hlength := hline.length
  rw [queue, h.tables.leaseFree.events_eq_nil plain_temporaryConfig, h.queues.driver,
    h.queues.central, List.map_nil, List.nil_append] at he
  rcases List.mem_append.mp he with he | he
  · obtain ⟨e', he', rfl⟩ := List.mem_map.mp he
    rcases List.mem_append.mp he' with he' | he'
    · obtain ⟨hlow, hhigh, y, hy, hts⟩ := mem_series he'
      exact Or.inl ⟨y, hy, hts, hlow, by rw [Scheduled.map_uid]; omega⟩
    · rw [List.mem_singleton.mp he']
      exact Or.inr (Or.inl ⟨rfl, rfl⟩)
  · obtain ⟨e', he', rfl⟩ := List.mem_map.mp he
    obtain ⟨hlow, -, y, hy, hts⟩ := mem_series he'
    exact Or.inr (Or.inr ⟨y, hy, hts, hlow⟩)

/-- No two events of the queue share an identifier. -/
theorem Tracks.pairwise_queue (h : Tracks stdHash work line w) (hline : LineInv work line) :
    (queue w).Pairwise fun a b => a.uid ≠ b.uid := by
  have hlength := hline.length
  rw [queue, h.tables.leaseFree.events_eq_nil plain_temporaryConfig, h.queues.driver,
    h.queues.central, List.map_nil, List.nil_append]
  refine List.pairwise_append.mpr ⟨?_, List.pairwise_map.mpr pairwise_series, ?_⟩
  · refine List.pairwise_map.mpr (List.pairwise_append.mpr
      ⟨pairwise_series, List.pairwise_singleton _ _, fun a ha b hb => ?_⟩)
    have hhigh := (mem_series ha).2.1
    rw [List.mem_singleton.mp hb]
    show a.uid ≠ work.arrivals.length
    omega
  · intro a ha b hb
    obtain ⟨a', ha', rfl⟩ := List.mem_map.mp ha
    obtain ⟨b', hb', rfl⟩ := List.mem_map.mp hb
    have hlow := (mem_series hb').1
    rw [Scheduled.map_uid, Scheduled.map_uid]
    rcases List.mem_append.mp ha' with ha' | ha'
    · have hhigh := (mem_series ha').2.1
      omega
    · rw [List.mem_singleton.mp ha']
      show work.arrivals.length ≠ b'.uid
      omega

variable {x : UInt64 × Nat} {rest : List (UInt64 × Nat)}

theorem LineInv.le_ahead (h : LineInv work line) (hahead : line.ahead = x :: rest) :
    ∀ y ∈ line.ahead, x.2 ≤ y.2 := by
  have hsorted := work.sorted
  rw [← h.split, ← List.append_assoc, hahead] at hsorted
  intro y hy
  rw [hahead] at hy
  rcases List.mem_cons.mp hy with rfl | hy
  · exact Nat.le_refl _
  · exact List.rel_of_pairwise_cons (List.pairwise_append.mp hsorted).2.1 hy

theorem LineInv.le_inside (h : LineInv work line) (hinside : line.inside = x :: rest) :
    ∀ y ∈ line.inside, x.2 ≤ y.2 := by
  have hsorted := work.sorted
  rw [← h.split, hinside, List.cons_append] at hsorted
  intro y hy
  rw [hinside] at hy
  rcases List.mem_cons.mp hy with rfl | hy
  · exact Nat.le_refl _
  · exact List.rel_of_pairwise_cons (List.pairwise_append.mp hsorted).2.1
      (List.mem_append_left _ hy)

theorem LineInv.ahead_lt_stop (h : LineInv work line) (hx : x ∈ line.ahead) :
    x.2 < work.horizon + 1 :=
  Nat.lt_succ_of_le ((le_lastArrival (h.mem_ahead hx)).trans (Nat.le_add_right _ _))

theorem LineInv.inside_lt_stop (h : LineInv work line) (hx : x ∈ line.inside) :
    x.2 + work.tc < work.horizon + 1 :=
  Nat.lt_succ_of_le (Nat.add_le_add_right (le_lastArrival (h.mem_inside hx)) work.tc)

/-- The first arrival runs next if no completion is due before it. -/
theorem Tracks.next_arrival (h : Tracks stdHash work line w) (hline : LineInv work line)
    (hahead : line.ahead = x :: rest) (hfirst : ∀ y ∈ line.inside, x.2 ≤ y.2 + work.tc) :
    earliest? (queue w) =
      some ⟨x.2, line.done.length + line.inside.length, .driver (.arrive x.1)⟩ := by
  have hlength := hline.length
  rw [hahead, List.length_cons] at hlength
  refine earliest?_eq_some (h.pairwise_queue hline) ⟨?_, fun e he => ?_⟩
  · rw [queue, h.queues.driver, hahead]
    exact List.mem_append_left _ List.mem_cons_self
  · show x.2 < e.ts ∨ x.2 = e.ts ∧ line.done.length + line.inside.length ≤ e.uid
    rcases h.mem_queue hline he with ⟨y, hy, hts, hlow, -⟩ | ⟨hts, huid⟩ | ⟨y, hy, hts, hlow⟩
    · have hle := hline.le_ahead hahead y hy
      omega
    · have hlt := hline.ahead_lt_stop (hahead ▸ List.mem_cons_self : x ∈ line.ahead)
      omega
    · have hle := hfirst y hy
      omega

/-- The first completion runs next if all arrivals come after it. -/
theorem Tracks.next_completion (h : Tracks stdHash work line w) (hline : LineInv work line)
    (hinside : line.inside = x :: rest) (hfirst : ∀ y ∈ line.ahead, x.2 + work.tc < y.2) :
    earliest? (queue w) =
      some ⟨x.2 + work.tc, work.arrivals.length + 1 + line.done.length,
        .central (.attemptFlowMod (admission stdHash x).packetIn)⟩ := by
  refine earliest?_eq_some (h.pairwise_queue hline) ⟨?_, fun e he => ?_⟩
  · rw [queue, h.queues.central, hinside]
    exact List.mem_append_right _ (List.mem_append_right _ List.mem_cons_self)
  · show x.2 + work.tc < e.ts ∨
      x.2 + work.tc = e.ts ∧ work.arrivals.length + 1 + line.done.length ≤ e.uid
    rcases h.mem_queue hline he with ⟨y, hy, hts, -, -⟩ | ⟨hts, huid⟩ | ⟨y, hy, hts, hlow⟩
    · have hlt := hfirst y hy
      omega
    · have hlt := hline.inside_lt_stop (hinside ▸ List.mem_cons_self : x ∈ line.inside)
      omega
    · have hle := hline.le_inside hinside y hy
      omega

/-- The run stops after the last completion. -/
theorem Tracks.next_stop (h : Tracks stdHash work line w) (hline : LineInv work line)
    (hend : DelayLine.Finished line) :
    earliest? (queue w) = some ((stopEvent work).map .driver) := by
  refine earliest?_eq_some (h.pairwise_queue hline) ⟨?_, fun e he => ?_⟩
  · rw [queue, h.queues.driver, List.map_append]
    exact List.mem_append_left _ (List.mem_append_right _ (List.mem_singleton_self _))
  · rcases h.mem_queue hline he with ⟨y, hy, -⟩ | ⟨hts, huid⟩ | ⟨y, hy, -⟩
    · rw [hend.2] at hy
      exact absurd hy List.not_mem_nil
    · exact Or.inr ⟨hts.symm, huid.ge⟩
    · rw [hend.1] at hy
      exact absurd hy List.not_mem_nil

/-! ## Where runs end -/

/-- Nothing is left to do up to the limit. -/
structure Pauses (stdHash : Bytes → Nat) (work : Workload) (limit : WithTop Nat) (line : Line)
    (w : ExperimentWorld) : Prop where
  tracks : Tracks stdHash work line w
  inside : ∀ x ∈ line.inside, limit < WithTop.some (x.2 + work.tc)
  ahead : ∀ x ∈ line.ahead, limit < WithTop.some x.2
  stop : limit < WithTop.some (work.horizon + 1)

/-- The world after the event that stops the run. -/
def halted (work : Workload) (w : ExperimentWorld) : ExperimentWorld :=
  update (fun x => { x with stopped := true }) (takeDriver ((stopEvent work).map .driver) w)

/-- The run has been stopped with the line empty. -/
structure Stops (stdHash : Bytes → Nat) (work : Workload) (line : Line) (w : ExperimentWorld) :
    Prop where
  finished : DelayLine.Finished line
  tracks : ∃ w₀, Tracks stdHash work line w₀ ∧ w = halted work w₀

/-! ## The loop of the simulator -/

section

variable {tc : Nat} {limit : WithTop Nat} {e : Scheduled SystemEvent}

theorem simulate_of_stopped (h : w.env.members.stopped = true) (fuel : Nat) :
    simulate stdHash tc limit fuel w = .ok w := by
  cases fuel with
  | zero => rfl
  | succ fuel => rw [simulate, if_pos h]

/-- The loop stays where the next event is beyond the limit. -/
theorem simulate_of_lt (hnext : earliest? (queue w) = some e) (hlimit : limit < WithTop.some e.ts)
    (fuel : Nat) : simulate stdHash tc limit fuel w = .ok w := by
  cases fuel with
  | zero => rfl
  | succ fuel =>
      rw [simulate, hnext]
      split_ifs
      · rfl
      · exact if_pos hlimit

/-- The loop runs the next event. -/
theorem simulate_of_fire (hrunning : w.env.members.stopped = false)
    (hnext : earliest? (queue w) = some e) (hlimit : ¬limit < WithTop.some e.ts)
    (hfire : fire stdHash tc e w = .ok w') (fuel : Nat) :
    simulate stdHash tc limit (fuel + 1) w = simulate stdHash tc limit fuel w' := by
  have hstopped : ¬w.env.members.stopped = true := by
    rw [hrunning]
    decide
  rw [simulate, if_neg hstopped, hnext]
  refine (if_neg hlimit).trans ?_
  rw [hfire]
  rfl

end

/-- The line has not passed the limit. -/
def Within (limit : WithTop Nat) (line : Line) : Prop :=
  ∀ t : Nat, limit = WithTop.some t → line.now ≤ seconds t

/-- The number of events that are still to run, without the one that stops the run. -/
def remaining (line : Line) : Nat := 2 * line.ahead.length + line.inside.length

/-- One turn of the loop is one step of the line. -/
structure Advances (stdHash : Bytes → Nat) (work : Workload) (limit : WithTop Nat)
    (line line' : Line) (w w' : ExperimentWorld) : Prop where
  turn : ∀ fuel, simulate stdHash work.tc limit (fuel + 1) w =
    simulate stdHash work.tc limit fuel w'
  step : DelayLine.Step arrivalTime (seconds work.tc) line line'
  tracks : Tracks stdHash work line' w'
  within : Within limit line'
  remaining_lt : remaining line' < remaining line

/-- The turn of an arrival. -/
theorem Tracks.turn_arrival (h : Tracks stdHash work line w) (hline : LineInv work line)
    (limit : WithTop Nat) (hahead : line.ahead = x :: rest)
    (hfirst : ∀ y ∈ line.inside, arrivalTime x ≤ arrivalTime y + seconds work.tc) :
    ((∀ fuel, simulate stdHash work.tc limit fuel w = .ok w) ∧
        Pauses stdHash work limit line w) ∨
      ∃ line' w', Advances stdHash work limit line line' w w' := by
  have hx : x ∈ line.ahead := hahead ▸ List.mem_cons_self
  have hdue : ∀ y ∈ line.inside, x.2 ≤ y.2 + work.tc := fun y hy => by
    rw [← seconds_le_iff, seconds_add]
    exact hfirst y hy
  have hnext := h.next_arrival hline hahead hdue
  by_cases hlimit : limit < WithTop.some x.2
  · refine Or.inl ⟨simulate_of_lt hnext hlimit, h, ?_, ?_, ?_⟩
    · exact fun y hy => hlimit.trans_le (WithTop.coe_le_coe.mpr (hdue y hy))
    · exact fun y hy => hlimit.trans_le (WithTop.coe_le_coe.mpr (hline.le_ahead hahead y hy))
    · exact hlimit.trans (WithTop.coe_lt_coe.mpr (hline.ahead_lt_stop hx))
  · obtain ⟨w', hfire, htracks⟩ := h.arrive hline hahead
      (e := ⟨x.2, line.done.length + line.inside.length, .driver (.arrive x.1)⟩) rfl rfl rfl
    refine Or.inr ⟨line.enter arrivalTime x rest, w', ?_, .enter hahead hfirst, htracks, ?_, ?_⟩
    · exact simulate_of_fire h.queues.stopped hnext hlimit hfire
    · intro t ht
      rw [ht, WithTop.coe_lt_coe, Nat.not_lt] at hlimit
      exact seconds_le_iff.mpr hlimit
    · simp only [remaining, DelayLine.enter, hahead, List.length_append, List.length_cons,
        List.length_nil]
      omega

/-- The turn of a completion. -/
theorem Tracks.turn_completion (h : Tracks stdHash work line w) (hline : LineInv work line)
    (limit : WithTop Nat) (hinside : line.inside = x :: rest)
    (hfirst : ∀ y ∈ line.ahead, arrivalTime x + seconds work.tc < arrivalTime y) :
    ((∀ fuel, simulate stdHash work.tc limit fuel w = .ok w) ∧
        Pauses stdHash work limit line w) ∨
      ∃ line' w', Advances stdHash work limit line line' w w' := by
  have hx : x ∈ line.inside := hinside ▸ List.mem_cons_self
  have hlater : ∀ y ∈ line.ahead, x.2 + work.tc < y.2 := fun y hy => by
    rw [← seconds_lt_iff, seconds_add]
    exact hfirst y hy
  have hnext := h.next_completion hline hinside hlater
  by_cases hlimit : limit < WithTop.some (x.2 + work.tc)
  · refine Or.inl ⟨simulate_of_lt hnext hlimit, h, ?_, ?_, ?_⟩
    · exact fun y hy => hlimit.trans_le
        (WithTop.coe_le_coe.mpr (Nat.add_le_add_right (hline.le_inside hinside y hy) _))
    · exact fun y hy => hlimit.trans (WithTop.coe_lt_coe.mpr (hlater y hy))
    · exact hlimit.trans (WithTop.coe_lt_coe.mpr (hline.inside_lt_stop hx))
  · obtain ⟨w', hfire, htracks⟩ := h.leave hline hinside
      (e := ⟨x.2 + work.tc, work.arrivals.length + 1 + line.done.length,
        .central (.attemptFlowMod (admission stdHash x).packetIn)⟩) rfl rfl rfl
    refine Or.inr ⟨line.leave arrivalTime (seconds work.tc) x rest, w', ?_,
      .leave hinside hfirst, htracks, ?_, ?_⟩
    · exact simulate_of_fire h.queues.stopped hnext hlimit hfire
    · intro t ht
      rw [ht, WithTop.coe_lt_coe, Nat.not_lt] at hlimit
      exact (seconds_add _ _).symm.trans_le (seconds_le_iff.mpr hlimit)
    · simp only [remaining, DelayLine.leave, hinside, List.length_cons]
      omega

/-- A run makes steps of the line until it pauses or stops. -/
theorem Tracks.simulate (limit : WithTop Nat) {fuel : Nat} (h : Tracks stdHash work line w)
    (hline : LineInv work line) (hwithin : Within limit line)
    (hfuel : remaining line + 1 ≤ fuel) :
    ∃ line' w', (∀ extra, simulate stdHash work.tc limit (fuel + extra) w = .ok w') ∧
      LineInv work line' ∧ Within limit line' ∧
      (Pauses stdHash work limit line' w' ∨ Stops stdHash work line' w') := by
  induction fuel generalizing line w with
  | zero => exact absurd hfuel (by omega)
  | succ fuel ih =>
      by_cases hend : DelayLine.Finished line
      · have hnext := h.next_stop hline hend
        by_cases hlimit : limit < WithTop.some (work.horizon + 1)
        · refine ⟨line, w, fun _ => simulate_of_lt hnext hlimit _, hline, hwithin,
            Or.inl ⟨h, ?_, ?_, hlimit⟩⟩
          · rw [hend.1]
            exact fun x hx => absurd hx List.not_mem_nil
          · rw [hend.2]
            exact fun x hx => absurd hx List.not_mem_nil
        · refine ⟨line, halted work w, fun extra => ?_, hline, hwithin,
            Or.inr ⟨hend, w, h, rfl⟩⟩
          rw [Nat.succ_add, simulate_of_fire h.queues.stopped hnext hlimit rfl]
          exact simulate_of_stopped rfl _
      have hturn : ((∀ fuel, simulate stdHash work.tc limit fuel w = .ok w) ∧
          Pauses stdHash work limit line w) ∨
          ∃ line' w', Advances stdHash work limit line line' w w' := by
        rcases hline.exists_step (sorted_arrivalTime work) hend with
          ⟨x, rest, hahead, hfirst⟩ | ⟨x, rest, hinside, hfirst⟩
        · exact h.turn_arrival hline limit hahead hfirst
        · exact h.turn_completion hline limit hinside hfirst
      rcases hturn with ⟨hok, hpauses⟩ | ⟨line₁, w₁, hadvances⟩
      · exact ⟨line, w, fun _ => hok _, hline, hwithin, Or.inl hpauses⟩
      · have hleft := hadvances.remaining_lt
        have hinv := hline.step (seconds_nonneg _) (sorted_arrivalTime work) hadvances.step
        obtain ⟨line', w', hok, hrest⟩ :=
          ih hadvances.tracks hinv hadvances.within (by omega)
        refine ⟨line', w', fun extra => ?_, hrest⟩
        rw [Nat.succ_add, hadvances.turn]
        exact hok extra

/-- The run of a workload up to a limit. -/
theorem exists_run (stdHash : Bytes → Nat) (work : Workload) (limit : WithTop Nat) :
    ∃ line w, (∀ extra, simulate stdHash work.tc limit (2 * work.arrivals.length + 1 + extra)
        (start work) = .ok w) ∧ LineInv work line ∧ Within limit line ∧
      (Pauses stdHash work limit line w ∨ Stops stdHash work line w) :=
  (tracks_start stdHash work).simulate limit (lineInv_initial work)
    (fun _ _ => seconds_nonneg _) (Nat.le_refl _)

end Statim.Occupancy
