import Statim.Control.LocalRuns

/-!
# The order of admissions

With the generation guard the local controller admits strictly increasing
generations per prefix and remembers the latest one for good.  This does not
depend on the representation invariant, and it survives callbacks that admit
updates of their own.
-/

namespace Statim

open Support

namespace LocalRouteController

variable {ω : Type} {cfg : LocalConfig} {cbs : LocalCallbacks ω} {w w' : LocalWorld ω}
  {p q : Name} {u : Admission}

/-! ## Re-entrant admissions -/

/-- The same callbacks without their effects. -/
def silent (cbs : LocalCallbacks ω) : LocalCallbacks ω where
  request := cbs.request.map fun _ _ w => w
  complete := none

/-- One call that a callback makes before it returns; here it may also admit an
update of its own. -/
inductive NestedCall (cfg : LocalConfig) (cbs : LocalCallbacks ω) :
    LocalWorld ω → LocalWorld ω → Prop
  | reenter {w w' : LocalWorld ω} (h : Reenter cfg w w') : NestedCall cfg cbs w w'
  | trace {w : LocalWorld ω} {pfx : Name} {nameHashes : Bytes} {prefixLen port seq : Nat}
      {ttl : Int} {r : Bool × LocalWorld ω}
      (h : LocalRouteController.applyTraceUpdate cfg (silent cbs) pfx nameHashes prefixLen
        port seq ttl w = .ok r) :
      NestedCall cfg cbs w r.2

/-- Callbacks that use the controller through its interface only. -/
structure Confined (cfg : LocalConfig) (cbs : LocalCallbacks ω) : Prop where
  request : ∀ f, cbs.request = some f → ∀ m w,
    Relation.ReflTransGen (NestedCall cfg cbs) w (f m w)
  complete : ∀ f, cbs.complete = some f → ∀ p w,
    Relation.ReflTransGen (NestedCall cfg cbs) w (f p w)

theorem Passive.confined (h : Passive cfg cbs) : Confined cfg cbs where
  request f hf m w := Relation.ReflTransGen.single (.reenter (h.request f hf m w))
  complete f hf p w := Relation.ReflTransGen.single (.reenter (h.complete f hf p w))

/-! ## The invariant of the guard -/

/-- With the guard, the watermark is the latest admitted generation, every
admission is newer than those before it, and no resident generation is above
the watermark. -/
structure GuardedInv (w : LocalWorld ω) : Prop where
  watermark : ∀ p, getHighestSeenSeq w.ctl p = (lastAdmission w.log p).map (·.seq)
  increasing : ∀ p, (admissions w.log p).Pairwise fun u v => u.seq < v.seq
  resident : ∀ (p : Name) (s : Nat), w.ctl.seqMap[p]? = some s →
    ∃ high, w.ctl.highestSeenSeq[p]? = some high ∧ s ≤ high

theorem GuardedInv.congr (h : GuardedInv w) (hseen : w'.ctl.highestSeenSeq = w.ctl.highestSeenSeq)
    (hseq : ∀ (p : Name) (s : Nat), w'.ctl.seqMap[p]? = some s → w.ctl.seqMap[p]? = some s)
    (hlog : ∀ p, admissions w'.log p = admissions w.log p) : GuardedInv w' where
  watermark p := by
    rw [getHighestSeenSeq, hseen, lastAdmission, hlog]
    exact h.watermark p
  increasing p := by
    rw [hlog]
    exact h.increasing p
  resident p s hs := by
    rw [hseen]
    exact h.resident p s (hseq p s hs)

/-- The latest admission is the newest one. -/
theorem GuardedInv.le_last (h : GuardedInv w) {v : Admission}
    (hlast : lastAdmission w.log p = some v) (hu : u ∈ admissions w.log p) :
    u.seq ≤ v.seq := by
  obtain ⟨init, hsplit⟩ := List.getLast?_eq_some_iff.mp hlast
  have hinc := h.increasing p
  rw [hsplit] at hu hinc
  rcases List.mem_append.mp hu with hu | hu
  · exact Nat.le_of_lt ((List.pairwise_append.mp hinc).2.2 u hu v List.mem_cons_self)
  · rw [List.mem_singleton.mp hu]

/-- Every earlier admission is below a generation that passes the guard. -/
theorem GuardedInv.lt_of_admitted (h : GuardedInv w) {seq : Nat}
    (hnew : ∀ high, w.ctl.highestSeenSeq[p]? = some high → high < seq)
    (hu : u ∈ admissions w.log p) : u.seq < seq := by
  cases hlast : lastAdmission w.log p with
  | none =>
      rw [lastAdmission, List.getLast?_eq_none_iff] at hlast
      rw [hlast] at hu
      cases hu
  | some v =>
      have hmark : w.ctl.highestSeenSeq[p]? = some v.seq := by
        have hmark := h.watermark p
        rwa [hlast] at hmark
      exact Nat.lt_of_le_of_lt (h.le_last hlast hu) (hnew v.seq hmark)

/-- Staging a generation above the watermark keeps the order. -/
theorem GuardedInv.stage (h : GuardedInv w)
    (hnew : ∀ high, w.ctl.highestSeenSeq[u.pfx]? = some high → high < u.seq) :
    GuardedInv (stage cfg cbs u { w with ctl := { w.ctl with
      highestSeenSeq := w.ctl.highestSeenSeq.insert u.pfx u.seq } }) := by
  have hs := stages_stage cfg cbs u { w with ctl := { w.ctl with
    highestSeenSeq := w.ctl.highestSeenSeq.insert u.pfx u.seq } }
  refine ⟨fun p => ?_, fun p => ?_, fun p s hp => ?_⟩
  · rw [getHighestSeenSeq, hs.seen, hs.log, lastAdmission_admitted]
    by_cases hp : u.pfx = p
    · simp [hp]
    · have hold := h.watermark p
      rw [getHighestSeenSeq] at hold
      simpa [hp, Std.TreeMap.getElem?_insert] using hold
  · rw [hs.log, admissions_append]
    by_cases hp : u.pfx = p
    swap
    · simpa [admissions, hp] using h.increasing p
    subst hp
    have hone : admissions [.admitted u] u.pfx = [u] := by simp [admissions]
    rw [hone, List.pairwise_append]
    refine ⟨h.increasing u.pfx, by simp, ?_⟩
    rintro v hv _ (_ | ⟨_, ⟨⟩⟩)
    exact h.lt_of_admitted hnew hv
  · rw [hs.seq] at hp
    rw [hs.seen]
    by_cases hpq : u.pfx = p
    · rw [if_pos hpq] at hp
      exact ⟨u.seq, by simp [hpq], Nat.le_of_eq (Option.some.inj hp).symm⟩
    · rw [if_neg hpq] at hp
      obtain ⟨high, hhigh, hle⟩ := h.resident p s hp
      exact ⟨high, by simpa [Std.TreeMap.getElem?_insert, hpq] using hhigh, hle⟩

/-- An update keeps the order if the callback does. -/
theorem GuardedInv.applyTraceUpdate (h : GuardedInv w)
    (hon : cfg.generationGuardEnabled = true)
    (hdispatch : ∀ m w', GuardedInv w' → GuardedInv (dispatch cbs m w'))
    {nameHashes : Bytes} {prefixLen port seq : Nat} {ttl : Int} {r : Bool × LocalWorld ω}
    (hr : applyTraceUpdate cfg cbs p nameHashes prefixLen port seq ttl w = .ok r) :
    GuardedInv r.2 := by
  rcases applyTraceUpdate_cases hr with
    ⟨-, rfl⟩ | ⟨ctl, s, hguard, hseq, hle, rfl⟩ | ⟨ctl, hguard, -, rfl⟩
  · exact h.congr rfl (fun _ _ hp => hp) fun _ => rfl
  · -- the resident generation is not above the watermark, so the second check
    -- cannot refuse what the guard let through
    rcases passGuard_eq_some hguard with ⟨hoff, -⟩ | ⟨-, hnew, -⟩
    · rw [hon] at hoff
      cases hoff
    · obtain ⟨high, hhigh, hbelow⟩ := h.resident p s hseq
      have hlt := hnew high hhigh
      omega
  · rcases passGuard_eq_some hguard with ⟨hoff, -⟩ | ⟨-, hnew, rfl⟩
    · rw [hon] at hoff
      cases hoff
    · exact hdispatch _ _ (h.stage hnew)

/-- Removing a prefix from `m_seqMap` removes no other. -/
theorem getElem?_of_erase {m : Std.TreeMap Name Nat} {s : Nat}
    (h : (m.erase p)[q]? = some s) : m[q]? = some s := by
  rw [Std.TreeMap.getElem?_erase] at h
  split at h
  · cases h
  · exact h

theorem GuardedInv.acceptResponse (h : GuardedInv w) (m : ControlMessage) :
    GuardedInv (acceptResponse cfg m w).2 := by
  refine h.congr (highestSeenSeq_acceptResponse m) ?_ (admissions_acceptResponse m)
  intro p s hp
  rcases acceptResponse_cases cfg m w with ⟨counters, heq⟩ | ⟨seq, -, -, -, -, -, heq⟩
  · rw [heq] at hp
    exact hp
  · rw [heq] at hp
    exact getElem?_of_erase hp

theorem Reenter.guardedInv (hr : Reenter cfg w w') (h : GuardedInv w) : GuardedInv w' := by
  induction hr with
  | refl => exact h
  | respond m _ ih => exact ih.acceptResponse m
  | exact _ _ ih => exact ih.congr rfl (fun _ _ hp => hp) fun _ => rfl
  | longest _ _ ih => exact ih.congr rfl (fun _ _ hp => hp) fun _ => rfl
  | other _ _ _ ih => exact ih.congr rfl (fun _ _ hp => hp) fun _ => rfl

theorem GuardedInv.nestedCalls (h : GuardedInv w) (hon : cfg.generationGuardEnabled = true)
    (hcalls : Relation.ReflTransGen (NestedCall cfg cbs) w w') : GuardedInv w' := by
  refine invariant_of_steps GuardedInv h (fun a b ha hab => ?_) hcalls
  cases hab with
  | reenter hr => exact hr.guardedInv ha
  | trace hr =>
      refine ha.applyTraceUpdate hon (fun m w' hw' => ?_) hr
      unfold dispatch silent
      cases cbs.request with
      | none => exact hw'
      | some request => exact hw'.congr rfl (fun _ _ hp => hp) fun _ => by simp [admissions]

theorem GuardedInv.dispatch (h : GuardedInv w) (hon : cfg.generationGuardEnabled = true)
    (hconf : Confined cfg cbs) (m : ControlMessage) : GuardedInv (dispatch cbs m w) := by
  unfold LocalRouteController.dispatch
  cases hrequest : cbs.request with
  | none => exact h
  | some request =>
      refine GuardedInv.nestedCalls ?_ hon (hconf.request request hrequest m _)
      exact h.congr rfl (fun _ _ hp => hp) fun _ => by simp [admissions]

theorem GuardedInv.handleControlResponse (h : GuardedInv w)
    (hon : cfg.generationGuardEnabled = true) (hconf : Confined cfg cbs)
    (m : ControlMessage) : GuardedInv (handleControlResponse cfg cbs m w).2 := by
  have haccepted : GuardedInv (LocalRouteController.acceptResponse cfg m w).2 :=
    h.acceptResponse m
  unfold LocalRouteController.handleControlResponse
  split
  next w' complete haccept hcomplete =>
    rw [haccept] at haccepted
    exact haccepted.nestedCalls hon (hconf.complete complete hcomplete _ _)
  next => exact haccepted

theorem GuardedInv.rescheduleRetry (h : GuardedInv w) (p : Name) (s : Nat) :
    GuardedInv (rescheduleRetry cfg p s w) := by
  unfold LocalRouteController.rescheduleRetry
  split
  · split
    · exact h.congr rfl (fun _ _ hp => hp) fun _ => rfl
    · exact h
  · exact h

theorem highestSeenSeq_expireEntryBySeq (ctl : LocalRouteController) (p : Name) (s : Nat) :
    (expireEntryBySeq p s ctl).highestSeenSeq = ctl.highestSeenSeq := by
  unfold expireEntryBySeq
  split
  · simp only
    split
    · split <;> rfl
    · rfl
  · rfl

theorem seqMap_expireEntryBySeq (ctl : LocalRouteController) (p : Name) (s : Nat) :
    (expireEntryBySeq p s ctl).seqMap =
      if ctl.seqMap[p]? = some s then ctl.seqMap.erase p else ctl.seqMap := by
  unfold expireEntryBySeq
  split
  · simp only
    split
    · split <;> rfl
    · rfl
  · rfl

theorem GuardedInv.fire (h : GuardedInv w) (hon : cfg.generationGuardEnabled = true)
    (hconf : Confined cfg cbs) (e : Scheduled LocalEvent) : GuardedInv (fire cfg cbs e w) := by
  have htake : GuardedInv (take e w) := h.congr rfl (fun _ _ hp => hp) fun _ => rfl
  unfold LocalRouteController.fire
  cases e.event with
  | expireEntryBySeq p s =>
      refine htake.congr (highestSeenSeq_expireEntryBySeq _ p s) (fun q t hq => ?_) fun _ => rfl
      simp only [seqMap_expireEntryBySeq] at hq
      split at hq
      · exact getElem?_of_erase hq
      · exact hq
  | onControllerRetryTimeout p s =>
      simp only [onControllerRetryTimeout]
      split
      · exact htake
      split_ifs
      · exact htake
      · exact htake.congr rfl (fun _ _ hp => hp) fun _ => rfl
      · refine GuardedInv.rescheduleRetry (GuardedInv.dispatch ?_ hon hconf _) p s
        exact htake.congr rfl (fun _ _ hp => hp) fun _ => rfl
      · exact htake.congr rfl (fun _ _ hp => getElem?_of_erase hp)
          fun q => by simp [admissions]

theorem GuardedInv.step (h : GuardedInv w) (hon : cfg.generationGuardEnabled = true)
    (hconf : Confined cfg cbs) (hstep : LocalStep cfg cbs w w') : GuardedInv w' := by
  cases hstep with
  | trace hr => exact h.applyTraceUpdate hon (fun m w' hw' => hw'.dispatch hon hconf m) hr
  | respond m => exact h.handleControlResponse hon hconf m
  | fire he => exact h.fire hon hconf _
  | findExact p => exact h.congr rfl (fun _ _ hp => hp) fun _ => rfl
  | findLongestPrefix name => exact h.congr rfl (fun _ _ hp => hp) fun _ => rfl
  | idle clock hnow huid hdue env => exact h.congr rfl (fun _ _ hp => hp) fun _ => rfl

/-- With the guard on, every run admits strictly increasing generations per
prefix, and the watermark is the latest admission, whether or not it is still
resident. -/
theorem LocalReachable.guardedInv (hon : cfg.generationGuardEnabled = true)
    (hconf : Confined cfg cbs) (h : LocalReachable cfg cbs w) : GuardedInv w := by
  obtain ⟨w₀, ⟨hctl, hlog⟩, hrun⟩ := h
  have hinit : GuardedInv w₀ := by
    refine ⟨fun p => ?_, fun p => ?_, fun p s hp => ?_⟩
    · simp [getHighestSeenSeq, hctl, hlog, lastAdmission, admissions]
    · simp [hlog, admissions]
    · simp [hctl] at hp
  exact invariant_of_steps GuardedInv hinit (fun _ _ ha hstep => ha.step hon hconf hstep) hrun

end LocalRouteController

namespace Loop

variable {log : List LocalObs} {u v : Admission} {p : Name}

/-! ## Numbered admissions -/

/-- The updates of a prefix are numbered in the order of their admission. -/
def Numbered (log : List LocalObs) : Prop :=
  ∀ (p : Name) (i : Nat) (u : Admission), (admissions log p)[i]? = some u → u.origin = i

theorem Numbered.get (h : Numbered log) (hu : .admitted u ∈ log) :
    (admissions log u.pfx)[u.origin]? = some u := by
  obtain ⟨i, hi⟩ := List.mem_iff_getElem?.mp (mem_admissions.mpr ⟨hu, rfl⟩)
  rw [h u.pfx i u hi]
  exact hi

theorem Numbered.lt_length (h : Numbered log) (hu : .admitted u ∈ log) :
    u.origin < (admissions log u.pfx).length :=
  (List.getElem?_eq_some_iff.mp (h.get hu)).1

theorem Numbered.eq_of_origin (h : Numbered log) (hu : .admitted u ∈ log)
    (hv : .admitted v ∈ log) (hpfx : u.pfx = v.pfx) (horigin : u.origin = v.origin) : u = v := by
  have hgetU := h.get hu
  have hgetV := h.get hv
  rw [hpfx, horigin] at hgetU
  exact Option.some.inj (hgetU.symm.trans hgetV)

theorem Numbered.eq_of_packetIn (h : Numbered log) (hu : .admitted u ∈ log)
    (hv : .admitted v ∈ log) (hsame : u.packetIn = v.packetIn) : u = v :=
  h.eq_of_origin hu hv (congrArg ControlMessage.pfx hsame) (congrArg ControlMessage.origin hsame)

theorem Numbered.le_last (h : Numbered log) (hlast : lastAdmission log p = some u)
    (hv : .admitted v ∈ log) (hpfx : v.pfx = p) : v.origin ≤ u.origin := by
  obtain ⟨init, hsplit⟩ := List.getLast?_eq_some_iff.mp hlast
  have hnum : u.origin = init.length := by
    refine h p init.length u ?_
    rw [hsplit]
    simp
  have hget := h.get hv
  rw [hpfx] at hget
  have hlt := (List.getElem?_eq_some_iff.mp hget).1
  rw [hsplit, List.length_append, List.length_singleton] at hlt
  omega

/-- An update is the latest of its prefix, or another one has the next number. -/
theorem Numbered.next_or_last (h : Numbered log) (hu : .admitted u ∈ log) :
    lastAdmission log u.pfx = some u ∨
      ∃ v, .admitted v ∈ log ∧ v.pfx = u.pfx ∧ v.origin = u.origin + 1 := by
  have hget := h.get hu
  have hlt := (List.getElem?_eq_some_iff.mp hget).1
  by_cases hnext : u.origin + 1 < (admissions log u.pfx).length
  · refine Or.inr ⟨(admissions log u.pfx)[u.origin + 1], ?_⟩
    obtain ⟨hv, hpfx⟩ := mem_admissions.mp (List.getElem_mem hnext)
    exact ⟨hv, hpfx, h u.pfx _ _ (List.getElem?_eq_getElem hnext)⟩
  · refine Or.inl ?_
    have hlength : (admissions log u.pfx).length - 1 = u.origin := by omega
    rw [lastAdmission, List.getLast?_eq_getElem?, hlength]
    exact hget

theorem Numbered.admit (h : Numbered log) (horigin : u.origin = (admissions log u.pfx).length) :
    Numbered (log ++ [.admitted u]) := by
  intro p i v hv
  rw [admissions_append] at hv
  by_cases hp : u.pfx = p
  · subst hp
    have hone : admissions [.admitted u] u.pfx = [u] := by simp [admissions]
    rw [hone] at hv
    rcases Nat.lt_or_ge i (admissions log u.pfx).length with hlt | hge
    · rw [List.getElem?_append_left hlt] at hv
      exact h _ _ _ hv
    · rw [List.getElem?_append_right hge, List.getElem?_singleton] at hv
      split at hv
      next hzero =>
        obtain rfl := Option.some.inj hv
        omega
      next => cases hv
  · have hnone : admissions [.admitted u] p = [] := by simp [admissions, hp]
    rw [hnone, List.append_nil] at hv
    exact h _ _ _ hv

end Loop

end Statim
