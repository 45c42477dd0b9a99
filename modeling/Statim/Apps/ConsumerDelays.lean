import Statim.Apps.ConsumerBooks

/-!
# The delays that a consumer reports

For each sequence number the consumer reports how long its first Interest and its last
one took, and how often it was sent.  Each report agrees with the Interests that were
sent, and there is one for each number that is no longer open.  The hop count in it is
always 0, since the Data that is handed to the base class is built anew.
-/

namespace Statim

open Support

namespace StatimConsumer

open Consumer

variable {cfg : ConsumerConfig} {permits : ConsumerWorld → UInt32 → Prop} {startSeq : UInt32}
  {w w' : ConsumerWorld} {k seq : UInt32} {opened opened' : UInt32 → Prop}

/-- When an Interest for this number was sent. -/
def ConsumerObs.sendTime? (k : UInt32) : ConsumerObs → Option ℕ
  | .sentInterest time seq _ _ => if k = seq then some time else none
  | _ => none

/-- When this number was sent, in order. -/
def sendTimes (k : UInt32) (log : List ConsumerObs) : List ℕ :=
  log.filterMap (ConsumerObs.sendTime? k)

/-- The number whose first delay is reported. -/
def ConsumerObs.reported? : ConsumerObs → Option UInt32
  | .firstInterestDataDelay _ seq _ _ _ => some seq
  | _ => none

/-- The numbers whose first delay was reported, in order. -/
def reported (log : List ConsumerObs) : List UInt32 := log.filterMap ConsumerObs.reported?

/-- What the consumer keeps of the Interests that it sent for the numbers that are open,
and what it has reported of the others. -/
structure Delays (opened : UInt32 → Prop) (w : ConsumerWorld) : Prop where
  first : ∀ k : UInt32, w.app.seqFirstSent[k]? = (sendTimes k w.log).head?
  latest : ∀ k : UInt32, w.app.seqSendTime[k]? = (sendTimes k w.log).getLast?
  past : ∀ k, ∀ t ∈ sendTimes k w.log, t ≤ w.clock.now
  full : ∀ (k : UInt32) (t : ℕ), (k, t) ∈ w.app.seqFullDelay.entries ↔
    opened k ∧ (sendTimes k w.log).head? = some t
  last : ∀ (k : UInt32) (t : ℕ), (k, t) ∈ w.app.seqLastDelay.entries ↔
    opened k ∧ (sendTimes k w.log).getLast? = some t
  counts : ∀ k, opened k →
    w.app.seqRetxCounts[k]?.getD 0 = UInt32.ofNat (sendTimes k w.log).length
  uncounted : ∀ k, ¬opened k → w.app.seqRetxCounts[k]?.getD 0 = 0
  once : (reported w.log).Nodup
  closed : ∀ k, k ∈ reported w.log ↔ k ∈ w.app.seqFirstSent ∧ ¬opened k
  firstReports : ∀ (time : ℕ) (k : UInt32) (delay : ℕ) (count : UInt32) (hops : ℕ),
    .firstInterestDataDelay time k delay count hops ∈ w.log →
      (∃ t, (sendTimes k w.log).head? = some t ∧ time = t + delay) ∧
        count = UInt32.ofNat (sendTimes k w.log).length ∧ hops = 0
  lastReports : ∀ (time : ℕ) (k : UInt32) (delay hops : ℕ),
    .lastRetransmittedInterestDataDelay time k delay hops ∈ w.log →
      (k ∈ w.app.seqFirstSent ∧ ¬opened k) ∧
        (∃ t, (sendTimes k w.log).getLast? = some t ∧ time = t + delay) ∧ hops = 0

theorem sendTimes_append (k : UInt32) (log log' : List ConsumerObs) :
    sendTimes k (log ++ log') = sendTimes k log ++ sendTimes k log' := List.filterMap_append

theorem reported_append (log log' : List ConsumerObs) :
    reported (log ++ log') = reported log ++ reported log' := List.filterMap_append

theorem mem_reported {log : List ConsumerObs} {time delay hops : ℕ} {count : UInt32}
    (h : .firstInterestDataDelay time k delay count hops ∈ log) : k ∈ reported log :=
  List.mem_filterMap.mpr ⟨_, h, rfl⟩

/-- A number that was not sent has no times. -/
theorem Delays.sendTimes_eq_nil (h : Delays opened w) (hk : k ∉ w.app.seqFirstSent) :
    sendTimes k w.log = [] := by
  rw [← List.head?_eq_none_iff, ← h.first, Std.TreeMap.getElem?_eq_none hk]

/-- A number has an entry while it is open. -/
theorem Delays.mem_keys (h : Delays opened w) (hsent : ∀ k, opened k → k ∈ w.app.seqFirstSent) :
    k ∈ w.app.seqFullDelay.keys ↔ opened k := by
  rw [TimedSet.mem_keys]
  constructor
  · rintro ⟨t, hentry⟩
    exact ((h.full k t).mp hentry).1
  · intro hk
    obtain ⟨t, ht⟩ := Option.isSome_iff_exists.mp
      (Std.TreeMap.mem_iff_isSome_getElem?.mp (hsent k hk))
    exact ⟨t, (h.full k t).mpr ⟨hk, (h.first k).symm.trans ht⟩⟩

/-! ## Sending -/

theorem sendTimes_sendInterest (cfg : ConsumerConfig) (seq k : UInt32) (w : ConsumerWorld) :
    sendTimes k (sendInterest cfg seq w).log =
      sendTimes k w.log ++ if k = seq then [w.clock.now] else [] := by
  have hlog : (sendInterest cfg seq w).log = w.log ++
      [.sentInterest w.clock.now seq (nameWithSequence cfg seq) cfg.interestLifeTime] := rfl
  rw [hlog, sendTimes_append]
  by_cases hk : k = seq
  · simp [sendTimes, ConsumerObs.sendTime?, hk]
  · simp [sendTimes, ConsumerObs.sendTime?, hk]

theorem getElem?_seqFirstSent_sendInterest (cfg : ConsumerConfig) (seq k : UInt32)
    (w : ConsumerWorld) : (sendInterest cfg seq w).app.seqFirstSent[k]? =
      w.app.seqFirstSent[k]?.or (if k = seq then some w.clock.now else none) := by
  have hsent : (sendInterest cfg seq w).app.seqFirstSent =
      if w.app.seqFirstSent.contains seq then w.app.seqFirstSent
      else w.app.seqFirstSent.insert seq w.clock.now := rfl
  rw [hsent]
  by_cases hk : k = seq
  · subst hk
    rw [if_pos rfl]
    split
    next hmem =>
      obtain ⟨t, ht⟩ := Option.isSome_iff_exists.mp (Std.TreeMap.mem_iff_isSome_getElem?.mp hmem)
      rw [ht, Option.some_or]
    next hnew =>
      rw [Std.TreeMap.getElem?_insert_self, Std.TreeMap.getElem?_eq_none hnew, Option.none_or]
  · rw [if_neg hk, Option.or_none]
    split
    · rfl
    · exact getElem?_insert_of_ne _ _ (Ne.symm hk)

theorem sendTimes_sendInterest_self (cfg : ConsumerConfig) (seq : UInt32) (w : ConsumerWorld) :
    sendTimes seq (sendInterest cfg seq w).log = sendTimes seq w.log ++ [w.clock.now] := by
  rw [sendTimes_sendInterest, if_pos rfl]

theorem sendTimes_sendInterest_of_ne (cfg : ConsumerConfig) (hk : k ≠ seq) (w : ConsumerWorld) :
    sendTimes k (sendInterest cfg seq w).log = sendTimes k w.log := by
  rw [sendTimes_sendInterest, if_neg hk, List.append_nil]

theorem reported_sendInterest (cfg : ConsumerConfig) (seq : UInt32) (w : ConsumerWorld) :
    reported (sendInterest cfg seq w).log = reported w.log := by
  have hnone : reported (sendInterest cfg seq w).log = reported w.log ++ [] :=
    reported_append _ _
  rw [hnone, List.append_nil]

theorem Delays.latest_sendInterest (h : Delays opened w) (k : UInt32) :
    (sendInterest cfg seq w).app.seqSendTime[k]? =
      (sendTimes k (sendInterest cfg seq w).log).getLast? := by
  have hsend : (sendInterest cfg seq w).app.seqSendTime =
      w.app.seqSendTime.insert seq w.clock.now := rfl
  rw [hsend]
  by_cases hk : k = seq
  · rw [hk, sendTimes_sendInterest_self, Std.TreeMap.getElem?_insert_self, List.getLast?_concat]
  · rw [sendTimes_sendInterest_of_ne cfg hk, getElem?_insert_of_ne _ _ (Ne.symm hk)]
    exact h.latest k

section

variable (h : Delays opened w) (hopen : ∀ k, opened' k ↔ k = seq ∨ opened k)
  (hsent : ∀ k, opened k → k ∈ w.app.seqFirstSent)
  (hseq : opened seq ∨ seq ∉ w.app.seqFirstSent)

include h hopen hsent hseq

/-- The time of the first Interest stays until the number is closed. -/
theorem Delays.full_sendInterest (k : UInt32) (t : ℕ) :
    (k, t) ∈ (sendInterest cfg seq w).app.seqFullDelay.entries ↔
      opened' k ∧ (sendTimes k (sendInterest cfg seq w).log).head? = some t := by
  have hentries : (k, t) ∈ (sendInterest cfg seq w).app.seqFullDelay.entries ↔
      (k, t) ∈ w.app.seqFullDelay.entries ∨
        (seq ∉ w.app.seqFullDelay.keys ∧ (k, t) = (seq, w.clock.now)) := TimedSet.mem_insert
  rw [hentries, h.full, h.mem_keys hsent, Prod.mk.injEq]
  by_cases hk : k = seq
  · subst hk
    have hnew : opened' k := (hopen k).mpr (Or.inl rfl)
    rw [sendTimes_sendInterest_self]
    rcases hseq with hopened | hunsent
    · obtain ⟨first, hfirst⟩ := Option.isSome_iff_exists.mp
        (Std.TreeMap.mem_iff_isSome_getElem?.mp (hsent k hopened))
      rw [h.first] at hfirst
      simp [hopened, hnew, List.head?_append, hfirst]
    · have hclosed : ¬opened k := fun hopened => hunsent (hsent k hopened)
      simp [hclosed, hnew, h.sendTimes_eq_nil hunsent, eq_comm]
  · rw [sendTimes_sendInterest_of_ne cfg hk, hopen]
    simp [hk]

omit hsent in
/-- The Interests of an open number are counted. -/
theorem Delays.counts_sendInterest (k : UInt32) (hk : opened' k) :
    (sendInterest cfg seq w).app.seqRetxCounts[k]?.getD 0 =
      UInt32.ofNat (sendTimes k (sendInterest cfg seq w).log).length := by
  have hcount : (sendInterest cfg seq w).app.seqRetxCounts =
      w.app.seqRetxCounts.insert seq (w.app.seqRetxCounts[seq]?.getD 0 + 1) := rfl
  rw [hcount]
  by_cases heq : k = seq
  · subst heq
    have hbefore : w.app.seqRetxCounts[k]?.getD 0 =
        UInt32.ofNat (sendTimes k w.log).length := by
      by_cases hopened : opened k
      · exact h.counts k hopened
      · rw [h.uncounted k hopened, h.sendTimes_eq_nil (hseq.resolve_left hopened)]
        rfl
    rw [Std.TreeMap.getElem?_insert_self, Option.getD_some, hbefore,
      sendTimes_sendInterest_self, List.length_append, UInt32.ofNat_add]
    rfl
  · rw [getElem?_insert_of_ne _ _ (Ne.symm heq), sendTimes_sendInterest_of_ne cfg heq]
    exact h.counts k (((hopen k).mp hk).resolve_left heq)

omit hsent hseq in
/-- The time of the last Interest is the current one. -/
theorem Delays.last_sendInterest (k : UInt32) (t : ℕ) :
    (k, t) ∈ (sendInterest cfg seq w).app.seqLastDelay.entries ↔
      opened' k ∧ (sendTimes k (sendInterest cfg seq w).log).getLast? = some t := by
  have hentries : (k, t) ∈ (sendInterest cfg seq w).app.seqLastDelay.entries ↔
      (k, t) ∈ (w.app.seqLastDelay.erase seq).entries ∨
        (seq ∉ (w.app.seqLastDelay.erase seq).keys ∧ (k, t) = (seq, w.clock.now)) :=
    TimedSet.mem_insert
  have herased : seq ∉ (w.app.seqLastDelay.erase seq).keys :=
    fun hkey => (TimedSet.mem_keys_erase.mp hkey).2 rfl
  rw [hentries, TimedSet.mem_erase, h.last, Prod.mk.injEq]
  by_cases hk : k = seq
  · subst hk
    have hnew : opened' k := (hopen k).mpr (Or.inl rfl)
    simp [sendTimes_sendInterest_self, herased, hnew, eq_comm]
  · rw [sendTimes_sendInterest_of_ne cfg hk, hopen]
    simp [hk]

omit hsent in
/-- What was reported was for other numbers. -/
theorem Delays.closed_sendInterest (k : UInt32) :
    k ∈ reported w.log ↔ k ∈ (sendInterest cfg seq w).app.seqFirstSent ∧ ¬opened' k := by
  rw [h.closed, mem_seqFirstSent_sendInterest, hopen]
  constructor
  · rintro ⟨hmem, hk⟩
    refine ⟨Or.inr hmem, not_or.mpr ⟨?_, hk⟩⟩
    rintro rfl
    exact hseq.elim hk fun hnew => hnew hmem
  · rintro ⟨hmem, hk⟩
    obtain ⟨hne, hk⟩ := not_or.mp hk
    exact ⟨hmem.resolve_left hne, hk⟩

/-- An Interest for a number that was open, or that was not sent before. -/
theorem Delays.sendInterest : Delays opened' (sendInterest cfg seq w) := by
  have hclosed : ∀ k, k ∈ reported w.log ↔
      k ∈ (StatimConsumer.sendInterest cfg seq w).app.seqFirstSent ∧ ¬opened' k :=
    h.closed_sendInterest hopen hseq
  have hother : ∀ k, k ∈ reported w.log →
      sendTimes k (StatimConsumer.sendInterest cfg seq w).log = sendTimes k w.log := by
    intro k hk
    refine sendTimes_sendInterest_of_ne cfg ?_ w
    exact fun heq => ((hclosed k).mp hk).2 ((hopen k).mpr (Or.inl heq))
  refine ⟨fun k => ?_, h.latest_sendInterest, fun k t ht => ?_,
    h.full_sendInterest hopen hsent hseq, h.last_sendInterest hopen,
    h.counts_sendInterest hopen hseq, fun k hk => ?_, ?_, fun k => ?_, ?_, ?_⟩
  · rw [getElem?_seqFirstSent_sendInterest, sendTimes_sendInterest, List.head?_append, h.first]
    split
    · rfl
    · rfl
  · rw [sendTimes_sendInterest] at ht
    rcases List.mem_append.mp ht with ht | ht
    · exact h.past k t ht
    · split at ht
      · exact Nat.le_of_eq (List.mem_singleton.mp ht)
      · exact absurd ht List.not_mem_nil
  · have hk' := not_or.mp (mt (hopen k).mpr hk)
    have hcount : (StatimConsumer.sendInterest cfg seq w).app.seqRetxCounts =
        w.app.seqRetxCounts.insert seq (w.app.seqRetxCounts[seq]?.getD 0 + 1) := rfl
    rw [hcount, getElem?_insert_of_ne _ _ (Ne.symm hk'.1)]
    exact h.uncounted k hk'.2
  · rw [reported_sendInterest]
    exact h.once
  · rw [reported_sendInterest]
    exact hclosed k
  · intro time k delay count hops hmem
    rcases List.mem_append.mp hmem with hmem | hreport
    · rw [hother k (mem_reported hmem)]
      exact h.firstReports time k delay count hops hmem
    · rw [List.mem_singleton] at hreport
      cases hreport
  · intro time k delay hops hmem
    rcases List.mem_append.mp hmem with hmem | hreport
    · obtain ⟨hreported, hexact⟩ := h.lastReports time k delay hops hmem
      have hk := (h.closed k).mpr hreported
      rw [hother k hk]
      exact ⟨(hclosed k).mp hk, hexact⟩
    · rw [List.mem_singleton] at hreport
      cases hreport

end

/-! ## Other moves -/

/-- A move that changes none of this and logs at most timeouts. -/
theorem Delays.keep (h : Delays opened w) (hopen : ∀ k, opened' k ↔ opened k)
    (hfull : w'.app.seqFullDelay = w.app.seqFullDelay)
    (hlast : w'.app.seqLastDelay = w.app.seqLastDelay)
    (hcounts : w'.app.seqRetxCounts = w.app.seqRetxCounts)
    (hfirst : w'.app.seqFirstSent = w.app.seqFirstSent)
    (hsend : w'.app.seqSendTime = w.app.seqSendTime) (hnow : w.clock.now ≤ w'.clock.now)
    {news : List ConsumerObs} (hlog : w'.log = w.log ++ news)
    (hnews : ∀ o ∈ news, ∃ seq sendTime time, o = .timeout seq sendTime time) :
    Delays opened' w' := by
  obtain rfl : opened' = opened := funext fun k => propext (hopen k)
  have htimes : ∀ k, sendTimes k w'.log = sendTimes k w.log := by
    intro k
    have hnone : sendTimes k news = [] := by
      rw [sendTimes, List.filterMap_eq_nil_iff]
      intro o ho
      obtain ⟨seq, sendTime, time, rfl⟩ := hnews o ho
      rfl
    rw [hlog, sendTimes_append, hnone, List.append_nil]
  have hreported : reported w'.log = reported w.log := by
    have hnone : reported news = [] := by
      rw [reported, List.filterMap_eq_nil_iff]
      intro o ho
      obtain ⟨seq, sendTime, time, rfl⟩ := hnews o ho
      rfl
    rw [hlog, reported_append, hnone, List.append_nil]
  have hmem : ∀ o, (∀ seq sendTime time, o ≠ .timeout seq sendTime time) → o ∈ w'.log →
      o ∈ w.log := by
    intro o ho hmem
    rw [hlog] at hmem
    refine (List.mem_append.mp hmem).resolve_right fun hnew => ?_
    obtain ⟨seq, sendTime, time, heq⟩ := hnews o hnew
    exact ho seq sendTime time heq
  refine ⟨fun k => ?_, fun k => ?_, fun k t ht => ?_, fun k t => ?_, fun k t => ?_,
    fun k hk => ?_, ?_, ?_, ?_, ?_, ?_⟩
  · rw [hfirst, htimes]
    exact h.first k
  · rw [hsend, htimes]
    exact h.latest k
  · rw [htimes] at ht
    exact Nat.le_trans (h.past k t ht) hnow
  · rw [hfull, htimes]
    exact h.full k t
  · rw [hlast, htimes]
    exact h.last k t
  · rw [hcounts, htimes]
    exact h.counts k hk
  · rw [hcounts]
    exact h.uncounted
  · rw [hreported]
    exact h.once
  · rw [hreported, hfirst]
    exact h.closed
  · intro time k delay count hops hreport
    rw [htimes]
    exact h.firstReports time k delay count hops (hmem _ (by simp) hreport)
  · intro time k delay hops hreport
    rw [hfirst, htimes]
    exact h.lastReports time k delay hops (hmem _ (by simp) hreport)

/-! ## Data -/

theorem firstReport_dataDelays {time delay hops hops' : ℕ} {count : UInt32}
    (h : .firstInterestDataDelay time k delay count hops ∈ dataDelays seq hops' w) :
    k = seq ∧ time = w.clock.now ∧ ∃ t, (k, t) ∈ w.app.seqFullDelay.entries ∧
      delay = w.clock.now - t ∧ count = w.app.seqRetxCounts[k]?.getD 0 ∧ hops = hops' := by
  rcases List.mem_append.mp h with hlast | hfull
  · obtain ⟨t, -, heq⟩ := Option.map_eq_some_iff.mp (Option.mem_toList.mp hlast)
    cases heq
  · obtain ⟨t, ht, heq⟩ := Option.map_eq_some_iff.mp (Option.mem_toList.mp hfull)
    cases heq
    exact ⟨rfl, rfl, t, TimedSet.time?_eq_some.mp ht, rfl, rfl, rfl⟩

theorem lastReport_dataDelays {time delay hops hops' : ℕ}
    (h : .lastRetransmittedInterestDataDelay time k delay hops ∈ dataDelays seq hops' w) :
    k = seq ∧ time = w.clock.now ∧ ∃ t, (k, t) ∈ w.app.seqLastDelay.entries ∧
      delay = w.clock.now - t ∧ hops = hops' := by
  rcases List.mem_append.mp h with hlast | hfull
  · obtain ⟨t, ht, heq⟩ := Option.map_eq_some_iff.mp (Option.mem_toList.mp hlast)
    cases heq
    exact ⟨rfl, rfl, t, TimedSet.time?_eq_some.mp ht, rfl, rfl⟩
  · obtain ⟨t, -, heq⟩ := Option.map_eq_some_iff.mp (Option.mem_toList.mp hfull)
    cases heq

theorem sendTimes_dataDelays (k seq : UInt32) (hops : ℕ) (w : ConsumerWorld) :
    sendTimes k (dataDelays seq hops w) = [] := by
  rw [sendTimes, List.filterMap_eq_nil_iff]
  intro o ho
  rcases List.mem_append.mp ho with hlast | hfull
  · obtain ⟨t, -, rfl⟩ := Option.map_eq_some_iff.mp (Option.mem_toList.mp hlast)
    rfl
  · obtain ⟨t, -, rfl⟩ := Option.map_eq_some_iff.mp (Option.mem_toList.mp hfull)
    rfl

/-- The number of the Data is reported if it has an entry. -/
theorem reported_dataDelays (seq : UInt32) (hops : ℕ) (w : ConsumerWorld) :
    reported (dataDelays seq hops w) =
      ((w.app.seqFullDelay.time? seq).map fun _ => seq).toList := by
  have hlast : reported ((w.app.seqLastDelay.time? seq).map fun time =>
      ConsumerObs.lastRetransmittedInterestDataDelay w.clock.now seq (w.clock.now - time)
        hops).toList = [] := by
    cases w.app.seqLastDelay.time? seq with
    | none => rfl
    | some t => rfl
  rw [dataDelays, reported_append, hlast, List.nil_append]
  cases w.app.seqFullDelay.time? seq with
  | none => rfl
  | some t => rfl

theorem sendTimes_settle (cfg : ConsumerConfig) (seq k : UInt32) (w : ConsumerWorld) :
    sendTimes k (settle cfg seq w).log = sendTimes k w.log := by
  have happend : sendTimes k (settle cfg seq w).log =
      sendTimes k w.log ++ sendTimes k (dataDelays seq 0 w) := sendTimes_append _ _ _
  rw [happend, sendTimes_dataDelays, List.append_nil]

theorem reported_settle (cfg : ConsumerConfig) (seq : UInt32) (w : ConsumerWorld) :
    reported (settle cfg seq w).log =
      reported w.log ++ ((w.app.seqFullDelay.time? seq).map fun _ => seq).toList := by
  rw [← reported_dataDelays seq 0 w]
  exact reported_append _ _

section

variable (h : Delays opened w) (hopen : ∀ k, opened' k ↔ opened k ∧ k ≠ seq)
  (hsent : ∀ k, opened k → k ∈ w.app.seqFirstSent)

include h

include hsent in
/-- The Data is reported if its number is open. -/
theorem Delays.mem_reported_settle : k ∈ reported (settle cfg seq w).log ↔
    k ∈ reported w.log ∨ k = seq ∧ opened seq := by
  rw [reported_settle, List.mem_append, ← h.mem_keys hsent, Option.mem_toList, TimedSet.mem_keys]
  simp only [← TimedSet.time?_eq_some, Option.map_eq_some_iff]
  refine or_congr_right ?_
  constructor
  · rintro ⟨t, ht, rfl⟩
    exact ⟨rfl, t, ht⟩
  · rintro ⟨rfl, t, ht⟩
    exact ⟨t, ht, rfl⟩

theorem Delays.once_settle : (reported (settle cfg seq w).log).Nodup := by
  rw [reported_settle]
  cases hentry : w.app.seqFullDelay.time? seq with
  | none =>
      rw [Option.map_none, Option.toList_none, List.append_nil]
      exact h.once
  | some t =>
      have hopened := ((h.full seq t).mp (TimedSet.time?_eq_some.mp hentry)).1
      rw [Option.map_some, Option.toList_some, ← List.concat_eq_append]
      exact h.once.concat fun hold => ((h.closed seq).mp hold).2 hopened

include hopen hsent

/-- A number is reported if it was sent and is no longer open. -/
theorem Delays.closed_settle :
    k ∈ reported (settle cfg seq w).log ↔ k ∈ w.app.seqFirstSent ∧ ¬opened' k := by
  rw [h.mem_reported_settle hsent, h.closed, hopen]
  constructor
  · rintro (⟨hk, hclosed⟩ | ⟨rfl, hopened⟩)
    · exact ⟨hk, fun hk' => hclosed hk'.1⟩
    · exact ⟨hsent k hopened, fun hk' => hk'.2 rfl⟩
  · rintro ⟨hk, hclosed⟩
    by_cases hopened : opened k
    · obtain rfl : k = seq := by
        by_contra hne
        exact hclosed ⟨hopened, hne⟩
      exact Or.inr ⟨rfl, hopened⟩
    · exact Or.inl ⟨hk, hopened⟩

/-- The report of the last Interest spans the time since that one. -/
theorem Delays.lastReports_settle {time delay hops : ℕ}
    (hreport : .lastRetransmittedInterestDataDelay time k delay hops ∈ (settle cfg seq w).log) :
    (k ∈ w.app.seqFirstSent ∧ ¬opened' k) ∧
      (∃ t, (sendTimes k w.log).getLast? = some t ∧ time = t + delay) ∧ hops = 0 := by
  rcases List.mem_append.mp hreport with hold | hreport
  · obtain ⟨⟨hk, hclosed⟩, hexact⟩ := h.lastReports time k delay hops hold
    exact ⟨⟨hk, fun hk' => hclosed ((hopen k).mp hk').1⟩, hexact⟩
  · obtain ⟨rfl, rfl, t, hentry, rfl, rfl⟩ := lastReport_dataDelays hreport
    obtain ⟨hopened, ht⟩ := (h.last k t).mp hentry
    have hpast := h.past k t (List.mem_of_getLast? ht)
    exact ⟨⟨hsent k hopened, fun hk' => ((hopen k).mp hk').2 rfl⟩,
      ⟨t, ht, (Nat.add_sub_of_le hpast).symm⟩, rfl⟩

end

/-- The report of the first Interest spans the time since that one. -/
theorem Delays.firstReports_settle (h : Delays opened w) {time delay hops : ℕ} {count : UInt32}
    (hreport : .firstInterestDataDelay time k delay count hops ∈ (settle cfg seq w).log) :
    (∃ t, (sendTimes k w.log).head? = some t ∧ time = t + delay) ∧
      count = UInt32.ofNat (sendTimes k w.log).length ∧ hops = 0 := by
  rcases List.mem_append.mp hreport with hold | hreport
  · exact h.firstReports time k delay count hops hold
  · obtain ⟨rfl, rfl, t, hentry, rfl, rfl, rfl⟩ := firstReport_dataDelays hreport
    obtain ⟨hopened, ht⟩ := (h.full k t).mp hentry
    have hpast := h.past k t (List.mem_of_mem_head? ht)
    exact ⟨⟨t, ht, (Nat.add_sub_of_le hpast).symm⟩, h.counts k hopened, rfl⟩

/-- Data closes its number and reports it. -/
theorem Delays.settle (h : Delays opened w) (hopen : ∀ k, opened' k ↔ opened k ∧ k ≠ seq)
    (hsent : ∀ k, opened k → k ∈ w.app.seqFirstSent) :
    Delays opened' (settle cfg seq w) := by
  have htimes : ∀ k, sendTimes k (StatimConsumer.settle cfg seq w).log =
      sendTimes k w.log := fun k => sendTimes_settle cfg seq k w
  have hcounts : (StatimConsumer.settle cfg seq w).app.seqRetxCounts =
      w.app.seqRetxCounts.erase seq := rfl
  refine ⟨fun k => ?_, fun k => ?_, fun k t ht => ?_, fun k t => ?_, fun k t => ?_,
    fun k hk => ?_, fun k hk => ?_, h.once_settle, fun k => h.closed_settle hopen hsent, ?_, ?_⟩
  · rw [htimes]
    exact h.first k
  · rw [htimes]
    exact h.latest k
  · rw [htimes] at ht
    exact h.past k t ht
  · have hentries : (k, t) ∈ (StatimConsumer.settle cfg seq w).app.seqFullDelay.entries ↔
        (k, t) ∈ w.app.seqFullDelay.entries ∧ k ≠ seq := TimedSet.mem_erase
    rw [hentries, htimes, h.full, hopen, and_right_comm]
  · have hentries : (k, t) ∈ (StatimConsumer.settle cfg seq w).app.seqLastDelay.entries ↔
        (k, t) ∈ w.app.seqLastDelay.entries ∧ k ≠ seq := TimedSet.mem_erase
    rw [hentries, htimes, h.last, hopen, and_right_comm]
  · obtain ⟨hk, hne⟩ := (hopen k).mp hk
    rw [hcounts, getElem?_erase_of_ne _ (Ne.symm hne), htimes]
    exact h.counts k hk
  · rw [hcounts]
    by_cases heq : k = seq
    · rw [heq, Std.TreeMap.getElem?_erase_self]
      rfl
    · rw [getElem?_erase_of_ne _ (Ne.symm heq)]
      exact h.uncounted k fun hk' => hk ((hopen k).mpr ⟨hk', heq⟩)
  · intro time k delay count hops hreport
    rw [htimes]
    exact h.firstReports_settle hreport
  · intro time k delay hops hreport
    rw [htimes]
    exact h.lastReports_settle hopen hsent hreport

/-! ## Runs -/

theorem Delays.move (h : Delays (Open · w.app) w) (haccounts : Accounts startSeq w)
    (hmove : Move cfg permits w w') (hregular : Regular w) : Delays (Open · w'.app) w' := by
  have hsilent : ∀ o ∈ ([] : List ConsumerObs), ∃ seq sendTime time,
      o = .timeout seq sendTime time := fun o ho => absurd ho List.not_mem_nil
  have hnone : RetxDone w.app → ∀ k, k ∉ w.app.retxSeqs := by
    intro hdone k hk
    rw [hdone k hk] at hk
    exact hregular (haccounts.opened noSeq (Or.inr hk))
  cases hmove with
  | reschedule hmove =>
      refine h.keep (fun k => ?_) (hmove.field Consumer.seqFullDelay fun _ => rfl)
        (hmove.field Consumer.seqLastDelay fun _ => rfl)
        (hmove.field Consumer.seqRetxCounts fun _ => rfl)
        (hmove.field Consumer.seqFirstSent fun _ => rfl)
        (hmove.field Consumer.seqSendTime fun _ => rfl) hmove.now
        (hmove.log.trans (List.append_nil _).symm) hsilent
      rw [Open, Open, hmove.field Consumer.seqTimeouts fun _ => rfl,
        hmove.field Consumer.retxSeqs fun _ => rfl]
  | @resend seq hactive hmem hseq =>
      have hpopped : Delays (Open · w.app)
          { w with app := { w.app with retxSeqs := w.app.retxSeqs.erase seq } } :=
        h.keep (fun k => Iff.rfl) rfl rfl rfl rfl rfl (Nat.le_refl _)
          (List.append_nil _).symm hsilent
      refine hpopped.sendInterest (fun k => ?_) haccounts.opened (Or.inl (Or.inr hmem))
      have herase : k ∈ w.app.retxSeqs.erase seq ↔ k ≠ seq ∧ k ∈ w.app.retxSeqs := by
        rw [Std.TreeSet.mem_erase, ne_eq, Std.LawfulEqOrd.compare_eq_iff_eq, eq_comm]
      rw [Open, mem_keys_sendInterest, or_assoc]
      by_cases heq : k = seq
      · exact iff_of_true (Or.inl heq) (Or.inl heq)
      · refine or_congr_right (or_congr_right (herase.trans ?_))
        exact and_iff_right heq
  | sendNew hactive hdone hempty hmore =>
      have hfresh : w.app.seq ∉ w.app.seqFirstSent :=
        fun hmem => UInt32.lt_irrefl _ ((haccounts.sent _).mp hmem).2
      have hpopped : Delays (Open · w.app) { w with app := { w.app with
          retxSeqs := (takeRetx w.app.retxSeqs).2
          seq := w.app.seq + 1 } } :=
        h.keep (fun k => Iff.rfl) rfl rfl rfl rfl rfl (Nat.le_refl _)
          (List.append_nil _).symm hsilent
      refine hpopped.sendInterest (fun k => ?_) haccounts.opened (Or.inr hfresh)
      rw [Open, mem_keys_sendInterest, or_assoc]
      exact or_congr_right (or_congr_right (iff_of_false (hempty k) (hnone hdone k)))
  | finish hdone hempty =>
      exact h.keep (fun k => or_congr_right (iff_of_false (hempty k) (hnone hdone k)))
        rfl rfl rfl rfl rfl (Nat.le_refl _) (List.append_nil _).symm hsilent
  | @timeout entry rest hentries hdue =>
      have hmem : entry.1 ∈ w.app.seqTimeouts.keys := by
        rw [TimedSet.keys, hentries]
        exact List.mem_cons_self
      refine h.keep (fun k => open_timeout hmem) rfl rfl rfl rfl rfl (Nat.le_refl _) rfl ?_
      intro o ho
      obtain ⟨t, -, rfl⟩ := Option.map_eq_some_iff.mp (Option.mem_toList.mp ho)
      exact ⟨entry.1, t, w.clock.now, rfl⟩
  | settle hactive hpermits => exact h.settle (fun k => open_settle) haccounts.opened
  | late hactive hsatisfied =>
      exact h.keep (fun k => Iff.rfl) rfl rfl rfl rfl rfl (Nat.le_refl _)
        (List.append_nil _).symm hsilent

theorem delays_initial (cfg : ConsumerConfig) (startSeq : UInt32) (c : Clock) :
    Delays (Open · (initial cfg startSeq c).app) (initial cfg startSeq c) := by
  have hclosed : ∀ k, ¬Open k (initial cfg startSeq c).app := by
    rintro k (hkey | hretx)
    · exact absurd hkey List.not_mem_nil
    · exact absurd hretx Std.TreeSet.not_mem_emptyc
  have hsent : ∀ k, k ∉ (initial cfg startSeq c).app.seqFirstSent :=
    fun k => Std.TreeMap.not_mem_emptyc
  refine ⟨fun k => Std.TreeMap.getElem?_emptyc, fun k => Std.TreeMap.getElem?_emptyc,
    fun k t ht => absurd ht List.not_mem_nil,
    fun k t => iff_of_false List.not_mem_nil fun h => hclosed k h.1,
    fun k t => iff_of_false List.not_mem_nil fun h => hclosed k h.1,
    fun k hk => absurd hk (hclosed k), fun k _ => ?_, List.nodup_nil,
    fun k => iff_of_false List.not_mem_nil fun h => hsent k h.1,
    fun time k delay count hops hmem => absurd hmem List.not_mem_nil,
    fun time k delay hops hmem => absurd hmem List.not_mem_nil⟩
  have hempty : (initial cfg startSeq c).app.seqRetxCounts[k]? = none :=
    Std.TreeMap.getElem?_emptyc
  rw [hempty]
  rfl

theorem Reachable.delays (h : Reachable cfg permits startSeq w) (hregular : Regular w) :
    Delays (Open · w.app) w := by
  refine (h.of_moves
    (fun v => Regular v → Accounts startSeq v ∧ Delays (Open · v.app) v)
    (fun c _ => ⟨accounts_initial cfg startSeq c, delays_initial cfg startSeq c⟩)
    (fun v v' hv hmove hafter => ?_) hregular).2
  have hbefore := hafter.of_move hmove
  obtain ⟨haccounts, hdelays⟩ := hv hbefore
  exact ⟨haccounts.move hmove hafter, hdelays.move haccounts hmove hbefore⟩

/-- A number is reported once, when it is no longer open.  The report of its first
Interest spans the time since that was sent, with the number of its Interests, and the
report of its last Interest the time since that one. -/
theorem delays_reported (h : Reachable cfg permits startSeq w)
    (hregular : noSeq ∉ w.app.seqFirstSent) :
    (reported w.log).Nodup ∧
      (∀ k, k ∈ reported w.log ↔
        k ∈ w.app.seqFirstSent ∧ k ∉ w.app.seqTimeouts.keys ∧ k ∉ w.app.retxSeqs) ∧
      (∀ time k delay count hops,
        .firstInterestDataDelay time k delay count hops ∈ w.log →
          (∃ t, (sendTimes k w.log).head? = some t ∧ time = t + delay) ∧
            count = UInt32.ofNat (sendTimes k w.log).length ∧ hops = 0) ∧
      ∀ time k delay hops, .lastRetransmittedInterestDataDelay time k delay hops ∈ w.log →
        (∃ t, (sendTimes k w.log).getLast? = some t ∧ time = t + delay) ∧ hops = 0 := by
  have hdelays := h.delays hregular
  refine ⟨hdelays.once, fun k => ?_, hdelays.firstReports, fun time k delay hops hreport => ?_⟩
  · rw [hdelays.closed, Open, not_or]
  · exact (hdelays.lastReports time k delay hops hreport).2

theorem delays_reported_sampleRun :
    (∃ t, (sendTimes 0 sampleRun.log).head? = some t ∧ 12 = t + 12) ∧
      (2 : UInt32) = UInt32.ofNat (sendTimes 0 sampleRun.log).length :=
  have hreports := (delays_reported reachable_sampleRun (by decide)).2.2.1
  have h := hreports 12 0 12 2 0 (by decide)
  ⟨h.1, h.2.1⟩

end StatimConsumer

end Statim
