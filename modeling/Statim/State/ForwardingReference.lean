import Statim.State.TemporaryForwardingTable
import Statim.Support.DeadlineMap

/-!
# Lazy pruning is invisible

The table removes expired hops at different moments: an insertion prunes its own
prefix, a lookup every prefix it visits.  The reference keeps every pair of a prefix
and a port with its deadline and ignores the expired ones when it is observed.  Under
a clock that does not run backwards both show the same to every caller.
-/

namespace Statim

open Support

namespace TemporaryForwardingTable

variable {now : Time} {t : TemporaryForwardingTable} {p q : Name} {port : Port}
  {deadline : Time}

/-! ## The stored hops -/

/-- The hop of a prefix and a port, as stored. -/
def hop? (t : TemporaryForwardingTable) (p : Name) (port : Port) : Option PortNextHop :=
  (t.entries[p]?).bind fun entry => entry.nextHops[port]?

/-- The hop of a prefix and a port, unless it is expired. -/
def liveHop? (now : Time) (t : TemporaryForwardingTable) (p : Name) (port : Port) :
    Option PortNextHop :=
  (t.hop? p port).filter fun hop => decide (now < hop.deadline)

theorem getElem?_pruneExpiredHops_eq (now : Time) (entry : ForwardingEntry) (port : Port) :
    (pruneExpiredHops now entry).nextHops[port]? =
      (entry.nextHops[port]?).filter fun hop => decide (now < hop.deadline) := by
  rw [getElem?_pruneExpiredHops]
  cases entry.nextHops[port]? with
  | none => rfl
  | some hop =>
    have hlive : (!decide (hop.deadline ≤ now)) = decide (now < hop.deadline) := by
      simp only [← decide_not, Int.not_le]
    simp [Option.filter_some, hlive]

/-- `std::map::emplace` on the hops of an entry. -/
theorem getElem?_emplace (hops : Std.TreeMap Port PortNextHop) (port q : Port)
    (hop : PortNextHop) : (hops.insertIfNew port hop)[q]? =
      if q = port ∧ hops[port]? = none then some hop else hops[q]? := by
  have hkey : compare port q = .eq ↔ q = port := by
    rw [Std.LawfulEqOrd.compare_eq_iff_eq, eq_comm]
  have habsent : port ∉ hops ↔ hops[port]? = none := by
    rw [Std.TreeMap.mem_iff_isSome_getElem?, Option.not_isSome_iff_eq_none]
  rw [Std.TreeMap.getElem?_insertIfNew]
  simp only [hkey, habsent]

/-- What an insertion leaves under its own prefix: the live hops, and the new one unless
its port is live. -/
theorem getElem?_insertUntil_self (now : Time) (p : Name) (port : Port) (deadline : Time)
    (t : TemporaryForwardingTable) :
    ∃ entry, (insertUntil now p port deadline t).2.entries[p]? = some entry ∧
      entry.pfx = ((t.entries[p]?).map (·.pfx)).getD p ∧
      ∀ q : Port, entry.nextHops[q]? =
        if q = port ∧ liveHop? now t p port = none then some ⟨port, deadline⟩
        else liveHop? now t p q := by
  have hstored := getElem?_pruneExpiredHops_eq now
  cases hentry : t.entries[p]? with
  | none =>
      refine ⟨⟨p, (∅ : Std.TreeMap Port PortNextHop).insertIfNew port ⟨port, deadline⟩⟩, ?_,
        rfl, fun q => ?_⟩
      · simp [insertUntil, hentry]
      · rw [getElem?_emplace]
        simp [liveHop?, hop?, hentry]
  | some stored =>
      refine ⟨⟨stored.pfx, (pruneExpiredHops now stored).nextHops.insertIfNew port
        ⟨port, deadline⟩⟩, ?_, rfl, fun q => ?_⟩
      · simp [insertUntil, hentry, pruneExpiredHops]
      · have hlive : ∀ q, liveHop? now t p q = (pruneExpiredHops now stored).nextHops[q]? := by
          intro q
          rw [hstored, liveHop?, hop?, hentry, Option.bind_some]
        rw [getElem?_emplace, hlive, hlive]

theorem hopAdded_insertUntil (now : Time) (p : Name) (port : Port) (deadline : Time)
    (t : TemporaryForwardingTable) :
    (insertUntil now p port deadline t).1.hopAdded = (liveHop? now t p port).isNone := by
  cases hentry : t.entries[p]? with
  | none => simp [insertUntil, hentry, liveHop?, hop?]
  | some stored =>
      have hlive : liveHop? now t p port = (pruneExpiredHops now stored).nextHops[port]? := by
        rw [getElem?_pruneExpiredHops_eq, liveHop?, hop?, hentry, Option.bind_some]
      rw [hlive]
      simp only [insertUntil, hentry]
      rw [Std.TreeMap.contains_eq_isSome_getElem?, Option.not_isSome]

/-! ## Invariant -/

/-- Every entry is stored under its prefix, every hop under its port, and no entry is
without hops. -/
structure TableInv (t : TemporaryForwardingTable) : Prop where
  named : ∀ (p : Name) (entry : ForwardingEntry), t.entries[p]? = some entry → entry.pfx = p
  keyed : ∀ (p : Name) (port : Port) (hop : PortNextHop), t.hop? p port = some hop →
    hop.port = port
  nonempty : ∀ (p : Name) (entry : ForwardingEntry), t.entries[p]? = some entry →
    ∃ (port : Port) (hop : PortNextHop), entry.nextHops[port]? = some hop

theorem TableInv.empty : TableInv .empty := by
  refine ⟨?_, ?_, ?_⟩
  · intro p entry hentry
    simp [TemporaryForwardingTable.empty] at hentry
  · intro p port hop hhop
    simp [hop?, TemporaryForwardingTable.empty] at hhop
  · intro p entry hentry
    simp [TemporaryForwardingTable.empty] at hentry

theorem hop?_insertUntil (now : Time) (p : Name) (port : Port) (deadline : Time)
    (t : TemporaryForwardingTable) (q : Name) (port' : Port) :
    (insertUntil now p port deadline t).2.hop? q port' =
      if q = p then
        if port' = port ∧ liveHop? now t p port = none then some ⟨port, deadline⟩
        else liveHop? now t p port'
      else t.hop? q port' := by
  by_cases hq : q = p
  · subst hq
    obtain ⟨entry, hentry, -, hhops⟩ := getElem?_insertUntil_self now q port deadline t
    rw [hop?, hentry, Option.bind_some, hhops, if_pos rfl]
  · rw [if_neg hq, hop?, getElem?_insertUntil_of_ne now (Ne.symm hq)]
    rfl

theorem hop?_of_liveHop? {hop : PortNextHop} (h : liveHop? now t p port = some hop) :
    t.hop? p port = some hop :=
  (Option.filter_eq_some_iff.mp h).1

/-- The entry that a lookup finds has exactly the live hops. -/
theorem getElem?_of_live? {entry : ForwardingEntry}
    (h : (t.entries[p]?).bind (live? now) = some entry) (port : Port) :
    entry.nextHops[port]? = liveHop? now t p port := by
  obtain ⟨stored, hstored, hlive⟩ := Option.bind_eq_some_iff.mp h
  rw [live?_eq_some hlive, getElem?_pruneExpiredHops_eq, liveHop?, hop?, hstored,
    Option.bind_some]

/-- A lookup finds nothing exactly if no hop is live. -/
theorem bind_live?_eq_none_iff : (t.entries[p]?).bind (live? now) = none ↔
    ∀ port, liveHop? now t p port = none := by
  cases hentry : t.entries[p]? with
  | none => simp [liveHop?, hop?, hentry]
  | some stored =>
      rw [Option.bind_some, live?_eq_none_iff]
      refine forall_congr' fun port => ?_
      rw [getElem?_pruneExpiredHops_eq, liveHop?, hop?, hentry, Option.bind_some]

/-- The longest prefix with a live hop is found. -/
theorem longestLive_of_live {name : Name} {k count : Nat} (hk : k ≤ count)
    (hlive : ∃ port, (liveHop? now t (name.take k) port).isSome = true)
    (hlonger : ∀ j, k < j → j ≤ count → ∀ port, liveHop? now t (name.take j) port = none) :
    ∃ entry, longestLive now name t count = some entry ∧
      ∀ port : Port, entry.nextHops[port]? = liveHop? now t (name.take k) port := by
  have hfound : longestLive now name t count = (t.entries[name.take k]?).bind (live? now) ∧
      (t.entries[name.take k]?).bind (live? now) ≠ none := by
    have hsome : (t.entries[name.take k]?).bind (live? now) ≠ none := by
      rw [ne_eq, bind_live?_eq_none_iff]
      intro hnone
      obtain ⟨port, hport⟩ := hlive
      rw [hnone port] at hport
      cases hport
    refine ⟨?_, hsome⟩
    induction count with
    | zero =>
        obtain rfl : k = 0 := Nat.le_zero.mp hk
        rfl
    | succ count ih =>
        rw [longestLive]
        by_cases hlast : k = count + 1
        · rw [← hlast, Option.or_of_isSome (Option.isSome_iff_ne_none.mpr hsome)]
        · rw [bind_live?_eq_none_iff.mpr (hlonger (count + 1) (by omega) (Nat.le_refl _)),
            Option.none_or]
          exact ih (by omega) fun j hj hle => hlonger j hj (Nat.le_succ_of_le hle)
  obtain ⟨entry, hentry⟩ := Option.ne_none_iff_exists'.mp hfound.2
  exact ⟨entry, hfound.1.trans hentry, fun port => getElem?_of_live? hentry port⟩

theorem longestLive_of_expired {name : Name} {count : Nat}
    (hnone : ∀ j ≤ count, ∀ port, liveHop? now t (name.take j) port = none) :
    longestLive now name t count = none := by
  induction count with
  | zero => exact bind_live?_eq_none_iff.mpr (hnone 0 (Nat.le_refl 0))
  | succ count ih =>
      rw [longestLive, bind_live?_eq_none_iff.mpr (hnone (count + 1) (Nat.le_refl _)),
        Option.none_or]
      exact ih fun j hj => hnone j (Nat.le_succ_of_le hj)

theorem TableInv.insertUntil (h : TableInv t) (now : Time) (p : Name) (port : Port)
    (deadline : Time) : TableInv (insertUntil now p port deadline t).2 := by
  obtain ⟨entry, hentry, hpfx, hhops⟩ := getElem?_insertUntil_self now p port deadline t
  have hother : ∀ q, q ≠ p → (TemporaryForwardingTable.insertUntil now p port deadline
      t).2.entries[q]? = t.entries[q]? := fun q hq =>
    getElem?_insertUntil_of_ne now (Ne.symm hq) port deadline t
  refine ⟨fun q e he => ?_, fun q port' hop hhop => ?_, fun q e he => ?_⟩
  · by_cases hq : q = p
    · subst hq
      obtain rfl := Option.some.inj (hentry.symm.trans he)
      cases hstored : t.entries[q]? with
      | none => rw [hpfx, hstored]; rfl
      | some stored =>
          rw [hpfx, hstored]
          exact h.named q stored hstored
    · rw [hother q hq] at he
      exact h.named q e he
  · rw [hop?_insertUntil] at hhop
    split at hhop
    next =>
      split at hhop
      next hnew =>
        cases hhop
        exact hnew.1.symm
      next => exact h.keyed p port' hop (hop?_of_liveHop? hhop)
    next => exact h.keyed q port' hop hhop
  · by_cases hq : q = p
    · subst hq
      obtain rfl := Option.some.inj (hentry.symm.trans he)
      cases hlive : liveHop? now t q port with
      | none =>
          refine ⟨port, ⟨port, deadline⟩, ?_⟩
          rw [hhops, if_pos ⟨rfl, hlive⟩]
      | some hop =>
          refine ⟨port, hop, ?_⟩
          rw [hhops, hlive, if_neg (by simp)]
    · rw [hother q hq] at he
      exact h.nonempty q e he

theorem hop?_pruneAndFind (now : Time) (p : Name) (t : TemporaryForwardingTable) (q : Name)
    (port : Port) : (pruneAndFind now p t).2.hop? q port =
      if p = q then liveHop? now t q port else t.hop? q port := by
  rw [hop?, getElem?_pruneAndFind]
  split
  next =>
    rw [liveHop?, hop?]
    cases t.entries[q]? with
    | none => rfl
    | some entry =>
        rw [Option.bind_some, Option.bind_some, ← getElem?_pruneExpiredHops_eq]
        cases hlive : live? now entry with
        | none => exact (live?_eq_none_iff.mp hlive port).symm
        | some pruned => rw [Option.bind_some, live?_eq_some hlive]
  next => rfl

theorem hop?_erase (t : TemporaryForwardingTable) (p q : Name) (port : Port) :
    (t.erase p).hop? q port = if q = p then none else t.hop? q port := by
  rw [hop?, getElem?_erase]
  by_cases hq : p = q
  · simp [hq]
  · simp [hq, Ne.symm hq, hop?]

theorem TableInv.pruneAndFind (h : TableInv t) (now : Time) (p : Name) :
    TableInv (pruneAndFind now p t).2 := by
  have hstored : ∀ (q : Name) (entry : ForwardingEntry),
      (TemporaryForwardingTable.pruneAndFind now p t).2.entries[q]? = some entry →
        t.entries[q]? = some entry ∨
          ∃ stored, t.entries[q]? = some stored ∧ live? now stored = some entry := by
    intro q entry hentry
    rw [getElem?_pruneAndFind] at hentry
    split at hentry
    · exact Or.inr (Option.bind_eq_some_iff.mp hentry)
    · exact Or.inl hentry
  refine ⟨fun q entry hentry => ?_, fun q port hop hhop => ?_, fun q entry hentry => ?_⟩
  · rcases hstored q entry hentry with hentry | ⟨stored, hentry, hlive⟩
    · exact h.named q entry hentry
    · rw [live?_eq_some hlive]
      exact h.named q stored hentry
  · rw [hop?_pruneAndFind] at hhop
    split at hhop
    · exact h.keyed q port hop (hop?_of_liveHop? hhop)
    · exact h.keyed q port hop hhop
  · rcases hstored q entry hentry with hentry | ⟨stored, hentry, hlive⟩
    · exact h.nonempty q entry hentry
    · by_contra hnone
      have hempty : live? now stored = none := by
        rw [live?_eq_none_iff, ← live?_eq_some hlive]
        intro port
        cases hhop : entry.nextHops[port]? with
        | none => rfl
        | some hop => exact absurd ⟨port, hop, hhop⟩ hnone
      rw [hempty] at hlive
      cases hlive

theorem TableInv.erase (h : TableInv t) (p : Name) : TableInv (t.erase p) := by
  have hstored : ∀ (q : Name) (entry : ForwardingEntry),
      (t.erase p).entries[q]? = some entry → t.entries[q]? = some entry := by
    intro q entry hentry
    rw [getElem?_erase] at hentry
    split at hentry
    · cases hentry
    · exact hentry
  refine ⟨fun q entry hentry => h.named q entry (hstored q entry hentry), ?_,
    fun q entry hentry => h.nonempty q entry (hstored q entry hentry)⟩
  intro q port hop hhop
  rw [hop?_erase] at hhop
  split at hhop
  · cases hhop
  · exact h.keyed q port hop hhop

/-! ## The reference map -/

/-- The deadline of every stored hop. -/
def deadlines (t : TemporaryForwardingTable) : DeadlineMap Name Port :=
  fun p port => (t.hop? p port).map (·.deadline)

theorem live_deadlines (now : Time) (t : TemporaryForwardingTable) (p : Name) (port : Port) :
    DeadlineMap.live now t.deadlines p port = (liveHop? now t p port).map (·.deadline) := by
  rw [DeadlineMap.live, deadlines, liveHop?]
  cases t.hop? p port with
  | none => rfl
  | some hop =>
      by_cases hlive : now < hop.deadline
      · simp [Option.filter_some, hlive]
      · simp [Option.filter_some, hlive]

theorem live_deadlines_eq_none {now : Time} {t : TemporaryForwardingTable} {p : Name}
    {port : Port} : DeadlineMap.live now t.deadlines p port = none ↔
      liveHop? now t p port = none := by
  rw [live_deadlines, Option.map_eq_none_iff]

/-- Filtering twice is filtering once. -/
theorem filter_liveHop? (now : Time) (t : TemporaryForwardingTable) (p : Name) (port : Port) :
    (liveHop? now t p port).filter (fun hop => decide (now < hop.deadline)) =
      liveHop? now t p port := by
  rw [liveHop?]
  cases t.hop? p port with
  | none => rfl
  | some hop =>
      by_cases hlive : now < hop.deadline
      · simp [Option.filter_some, hlive]
      · simp [Option.filter_some, hlive]

/-- Pruning a prefix hides nothing that is live. -/
theorem agree_pruneAndFind (now : Time) (p : Name) (t : TemporaryForwardingTable) :
    DeadlineMap.Agree now (pruneAndFind now p t).2.deadlines t.deadlines := by
  intro q port
  rw [live_deadlines, live_deadlines, liveHop?, hop?_pruneAndFind]
  split
  · rw [filter_liveHop?]
  · rfl

/-- Insertion is `put` on the reference. -/
theorem agree_insertUntil (now : Time) (p : Name) (port : Port) (deadline : Time)
    (t : TemporaryForwardingTable) :
    DeadlineMap.Agree now (insertUntil now p port deadline t).2.deadlines
      (DeadlineMap.put now p port deadline t.deadlines) := by
  intro q port'
  rw [DeadlineMap.live_put]
  simp only [live_deadlines_eq_none]
  rw [live_deadlines, live_deadlines, liveHop?, hop?_insertUntil]
  by_cases hq : q = p
  · subst hq
    rw [if_pos rfl]
    by_cases hnew : port' = port ∧ liveHop? now t q port = none
    · rw [if_pos hnew, if_pos ⟨rfl, hnew⟩]
      by_cases hlive : now < deadline
      · simp [Option.filter_some, hlive]
      · simp [Option.filter_some, hlive]
    · rw [if_neg hnew, if_neg fun h => hnew h.2, filter_liveHop?]
  · rw [if_neg hq, if_neg fun h => hq h.1]
    rfl

theorem agree_erase (now : Time) (p : Name) (t : TemporaryForwardingTable) :
    DeadlineMap.Agree now (t.erase p).deadlines (DeadlineMap.remove p t.deadlines) := by
  intro q port
  rw [DeadlineMap.live_remove, live_deadlines, live_deadlines, liveHop?, hop?_erase]
  split
  · rfl
  · rfl

/-- What a caller sees of a lookup: the prefix and its hops. -/
def shown (entry : Option ForwardingEntry) : Option (Name × (Port → Option PortNextHop)) :=
  entry.map fun e => (e.pfx, fun port => e.nextHops[port]?)

/-- The same for the reference. -/
def shownPairs (found : Option (Name × (Port → Option Time))) :
    Option (Name × (Port → Option PortNextHop)) :=
  found.map fun f => (f.1, fun port => (f.2 port).map (PortNextHop.mk port))

/-- One prefix: the table shows the live pairs of the reference. -/
theorem shown_live? (h : TableInv t) (now : Time) (p : Name) :
    shown ((t.entries[p]?).bind (live? now)) =
      shownPairs (DeadlineMap.find now p t.deadlines) := by
  have hhops : ∀ port, (DeadlineMap.live now t.deadlines p port).map (PortNextHop.mk port) =
      liveHop? now t p port := by
    intro port
    rw [live_deadlines]
    cases hlive : liveHop? now t p port with
    | none => rfl
    | some hop =>
        have hport := h.keyed p port hop (hop?_of_liveHop? hlive)
        rw [Option.map_some, Option.map_some, ← hport]
  have hsome : DeadlineMap.HasLive now t.deadlines p ↔
      ∃ port hop, liveHop? now t p port = some hop := by
    refine exists_congr fun port => ?_
    rw [live_deadlines, Option.isSome_map, Option.isSome_iff_exists]
  unfold DeadlineMap.find
  cases hfound : (t.entries[p]?).bind (live? now) with
  | none =>
      have hnone : ¬DeadlineMap.HasLive now t.deadlines p := by
        rw [hsome]
        rintro ⟨port, hop, hlive⟩
        rw [bind_live?_eq_none_iff.mp hfound port] at hlive
        cases hlive
      rw [if_neg hnone]
      rfl
  | some entry =>
      have hlives : DeadlineMap.HasLive now t.deadlines p := by
        rw [hsome]
        by_contra hnone
        have hempty : (t.entries[p]?).bind (live? now) = none := by
          rw [bind_live?_eq_none_iff]
          intro port
          cases hhop : liveHop? now t p port with
          | none => rfl
          | some hop => exact absurd ⟨port, hop, hhop⟩ hnone
        rw [hempty] at hfound
        cases hfound
      obtain ⟨stored, hstored, hlive⟩ := Option.bind_eq_some_iff.mp hfound
      have hpfx : entry.pfx = p := by
        rw [live?_eq_some hlive]
        exact h.named p stored hstored
      rw [if_pos hlives]
      simp only [shown, shownPairs, Option.map_some, hhops, getElem?_of_live? hfound, hpfx]

theorem shown_longestLive (h : TableInv t) (now : Time) (name : Name) (count : Nat) :
    shown (longestLive now name t count) =
      shownPairs (DeadlineMap.findUpTo now name t.deadlines count) := by
  induction count with
  | zero => exact shown_live? h now _
  | succ count ih =>
      rw [longestLive, DeadlineMap.findUpTo_succ, shown, shownPairs, Option.map_or,
        Option.map_or]
      exact congrArg₂ Option.or (shown_live? h now _) ih

/-! ## Histories -/

/-- The operations of the table. -/
inductive TableOp
  | insert (pfx : Name) (port : Port) (lifetime : Int)
  | insertUntil (pfx : Name) (port : Port) (deadline : Time)
  | erase (pfx : Name)
  | findExact (pfx : Name)
  | findLongestPrefix (name : Name)
deriving DecidableEq, Repr

/-- A call with what the clock shows: `insert` reads it once to form the deadline, and
every operation but `erase` reads it to prune. -/
structure TableCall where
  first : Time
  now : Time
  op : TableOp
deriving DecidableEq, Repr

/-- What a call returns. -/
inductive Answer
  | nothing
  | hopAdded (added : Bool)
  | found (entry : Option (Name × (Port → Option PortNextHop)))

/-- Run a call on the table. -/
def TableCall.run (c : TableCall) (t : TemporaryForwardingTable) :
    Answer × TemporaryForwardingTable :=
  match c.op with
  | .insert pfx port lifetime =>
    let r := insertUntil c.now pfx port (wrap64 (c.first + lifetime * 1000)) t
    (.hopAdded r.1.hopAdded, r.2)
  | .insertUntil pfx port deadline =>
    let r := insertUntil c.now pfx port deadline t
    (.hopAdded r.1.hopAdded, r.2)
  | .erase pfx => (.nothing, t.erase pfx)
  | .findExact pfx =>
    let r := findExact c.now pfx t
    (.found (shown r.1), r.2)
  | .findLongestPrefix name =>
    let r := findLongestPrefix c.now name t
    (.found (shown r.1), r.2)

-- a clock that stands still gives `insert` one reading
example (now : Time) (pfx : Name) (port : Port) (lifetime : Int)
    (t : TemporaryForwardingTable) :
    (TableCall.run ⟨now, now, .insert pfx port lifetime⟩ t).2 =
      (TemporaryForwardingTable.insert now pfx port lifetime t).2 :=
  rfl

/-- Run a call on the reference. -/
noncomputable def TableCall.runReference (c : TableCall) (m : DeadlineMap Name Port) :
    Answer × DeadlineMap Name Port :=
  match c.op with
  | .insert pfx port lifetime =>
    (.hopAdded (DeadlineMap.live c.now m pfx port).isNone,
      DeadlineMap.put c.now pfx port (c.first + lifetime * 1000) m)
  | .insertUntil pfx port deadline =>
    (.hopAdded (DeadlineMap.live c.now m pfx port).isNone,
      DeadlineMap.put c.now pfx port deadline m)
  | .erase pfx => (.nothing, DeadlineMap.remove pfx m)
  | .findExact pfx => (.found (shownPairs (DeadlineMap.find c.now pfx m)), m)
  | .findLongestPrefix name => (.found (shownPairs (DeadlineMap.findLongest c.now name m)), m)

/-- The deadline that `insert` forms fits into a time point. -/
def TableCall.InRange (c : TableCall) : Prop :=
  ∀ pfx port lifetime, c.op = .insert pfx port lifetime →
    -2 ^ 63 ≤ c.first + lifetime * 1000 ∧ c.first + lifetime * 1000 < 2 ^ 63

/-- The answers of a history, and what it leaves. -/
def runAll {σ : Type} (run : TableCall → σ → Answer × σ) :
    List TableCall → σ → List Answer × σ
  | [], s => ([], s)
  | c :: calls, s =>
    let r := run c s
    let rest := runAll run calls r.2
    (r.1 :: rest.1, rest.2)

/-- The table and the reference show the same from now on. -/
structure Refines (now : Time) (t : TemporaryForwardingTable) (m : DeadlineMap Name Port) :
    Prop where
  inv : TableInv t
  agree : DeadlineMap.Agree now t.deadlines m

theorem Refines.mono {m : DeadlineMap Name Port} {later : Time} (h : Refines now t m)
    (hle : now ≤ later) : Refines later t m :=
  ⟨h.inv, h.agree.mono hle⟩

theorem Refines.insertUntil {m : DeadlineMap Name Port} (h : Refines now t m) (p : Name)
    (port : Port) (deadline : Time) :
    (insertUntil now p port deadline t).1.hopAdded = (DeadlineMap.live now m p port).isNone ∧
      Refines now (insertUntil now p port deadline t).2
        (DeadlineMap.put now p port deadline m) := by
  refine ⟨?_, h.inv.insertUntil now p port deadline, ?_⟩
  · rw [hopAdded_insertUntil, ← h.agree p port, live_deadlines, Option.isNone_map]
  · exact (agree_insertUntil now p port deadline t).trans (h.agree.put p port deadline)

theorem Refines.pruneAndFind {m : DeadlineMap Name Port} (h : Refines now t m) (p : Name) :
    Refines now (pruneAndFind now p t).2 m :=
  ⟨h.inv.pruneAndFind now p, (agree_pruneAndFind now p t).trans h.agree⟩

/-- One call: the same answer, and the two still show the same. -/
theorem Refines.run {m : DeadlineMap Name Port} {c : TableCall} (h : Refines c.now t m)
    (hrange : c.InRange) :
    (c.run t).1 = (c.runReference m).1 ∧ Refines c.now (c.run t).2 (c.runReference m).2 := by
  obtain ⟨first, now, op⟩ := c
  cases op with
  | insert p port lifetime =>
      obtain ⟨hlo, hhi⟩ := hrange p port lifetime rfl
      obtain ⟨hadded, hrefines⟩ := h.insertUntil p port (first + lifetime * 1000)
      simp only [TableCall.run, TableCall.runReference]
      rw [wrap64_of_range hlo hhi]
      exact ⟨congrArg Answer.hopAdded hadded, hrefines⟩
  | insertUntil p port deadline =>
      obtain ⟨hadded, hrefines⟩ := h.insertUntil p port deadline
      exact ⟨congrArg Answer.hopAdded hadded, hrefines⟩
  | erase p =>
      refine ⟨rfl, h.inv.erase p, ?_⟩
      exact (agree_erase now p t).trans (h.agree.remove p)
  | findExact p =>
      refine ⟨?_, h.pruneAndFind p⟩
      simp only [TableCall.run, TableCall.runReference, findExact]
      rw [pruneAndFind_fst, shown_live? h.inv, h.agree.find_eq]
  | findLongestPrefix name =>
      refine ⟨?_, ?_⟩
      · simp only [TableCall.run, TableCall.runReference, DeadlineMap.findLongest]
        rw [findLongestPrefix_fst, shown_longestLive h.inv, h.agree.findUpTo_eq]
      · have hprune : ∀ p t', Refines now t' m →
            Refines now (TemporaryForwardingTable.pruneAndFind now p t').2 m :=
          fun p t' h' => h'.pruneAndFind p
        exact searchFrom_preserves hprune name name.length h

/-- The readings of the clock in the order in which they are made. -/
def readings (calls : List TableCall) : List Time := calls.flatMap fun c => [c.first, c.now]

theorem Refines.runAll {m : DeadlineMap Name Port} {calls : List TableCall}
    (h : Refines now t m) (hclock : (readings calls).Pairwise (· ≤ ·))
    (hlater : ∀ r ∈ readings calls, now ≤ r) (hrange : ∀ c ∈ calls, c.InRange) :
    (runAll TableCall.run calls t).1 = (runAll TableCall.runReference calls m).1 ∧
      TableInv (runAll TableCall.run calls t).2 := by
  induction calls generalizing now t m with
  | nil => exact ⟨rfl, h.inv⟩
  | cons c rest ih =>
      have hreadings : readings (c :: rest) = c.first :: c.now :: readings rest := rfl
      rw [hreadings] at hclock hlater
      rw [List.pairwise_cons, List.pairwise_cons] at hclock
      obtain ⟨-, hnow, hclock⟩ := hclock
      have hle : now ≤ c.now := hlater c.now (by simp)
      obtain ⟨hanswer, hrefines⟩ := (h.mono hle).run (hrange c List.mem_cons_self)
      obtain ⟨hanswers, hinv⟩ := ih hrefines hclock hnow fun c' hc' =>
        hrange c' (List.mem_cons_of_mem c hc')
      refine ⟨?_, hinv⟩
      simp only [TemporaryForwardingTable.runAll]
      rw [hanswer, hanswers]

/-- Lazy pruning is invisible: for every history of calls under a clock that does not run
backwards, the answers are those of the reference map, and every stored entry has a
hop. -/
theorem lazy_pruning_invisible {calls : List TableCall}
    (hclock : (readings calls).Pairwise (· ≤ ·)) (hrange : ∀ c ∈ calls, c.InRange) :
    (runAll TableCall.run calls .empty).1 =
        (runAll TableCall.runReference calls fun _ _ => none).1 ∧
      TableInv (runAll TableCall.run calls .empty).2 := by
  have hempty : ∀ now, Refines now .empty fun _ _ => none := by
    intro now
    refine ⟨TableInv.empty, fun p port => ?_⟩
    have hnone : deadlines .empty p port = none := by
      simp [deadlines, hop?, TemporaryForwardingTable.empty]
    rw [DeadlineMap.live, hnone]
    rfl
  cases hreadings : readings calls with
  | nil =>
      refine (hempty 0).runAll hclock ?_ hrange
      simp [hreadings]
  | cons first rest =>
      refine (hempty first).runAll hclock ?_ hrange
      rw [hreadings] at hclock ⊢
      intro r hr
      rcases List.mem_cons.mp hr with rfl | hr
      · exact Int.le_refl r
      · exact List.rel_of_pairwise_cons hclock hr

/-- Two hops with deadlines 10 and 20 and a shorter prefix, looked up at 10. -/
def sampleCalls : List TableCall :=
  [⟨0, 0, .insertUntil [.generic [0x61]] 3 50⟩,
    ⟨0, 0, .insertUntil [.generic [0x61], .generic [0x62]] 1 10⟩,
    ⟨0, 0, .insertUntil [.generic [0x61], .generic [0x62]] 2 20⟩,
    ⟨10, 10, .findLongestPrefix [.generic [0x61], .generic [0x62], .generic [0x63]]⟩,
    ⟨10, 10, .insert [.generic [0x61], .generic [0x62]] 1 5⟩]

theorem lazy_pruning_invisible_sampleCalls :
    (runAll TableCall.run sampleCalls .empty).1 =
        (runAll TableCall.runReference sampleCalls fun _ _ => none).1 ∧
      TableInv (runAll TableCall.run sampleCalls .empty).2 := by
  refine lazy_pruning_invisible (by decide) ?_
  intro c hc pfx port lifetime hop
  simp only [sampleCalls, List.mem_cons, List.not_mem_nil, or_false] at hc
  rcases hc with rfl | rfl | rfl | rfl | rfl
  · cases hop
  · cases hop
  · cases hop
  · cases hop
  · cases hop
    decide

end TemporaryForwardingTable

end Statim
