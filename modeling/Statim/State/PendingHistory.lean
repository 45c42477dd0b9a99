import Statim.State.PendingInterestTable
import Statim.Support.History

/-!
# Pending Interests as a function of the history

An ingress record lives from the accepted insertion that made it until its name is
consumed or erased, or until an accepted aggregation on the same name finds it
expired.  Consumption itself ignores expiry, and a duplicate changes nothing.  Saved
Interests are values here: the buffers that hold their Nonces do not change.
-/

namespace Statim

open Support

namespace PendingInterestTable

/-! ## Histories -/

/-- The operations of the table. -/
inductive PitOp
  | insert (interest : Interest) (port : Port)
  | takeDataMatchPorts (dataName : Name)
  | erase (name : Name)
deriving DecidableEq, Repr

/-- A call with what the clock shows. -/
structure PitCall where
  now : Time
  op : PitOp
deriving DecidableEq, Repr

/-- A call with the status that its insertion returned, if it did. -/
structure PitEvent where
  call : PitCall
  status : Option Status
deriving DecidableEq, Repr

/-- Run a call; an insertion that throws leaves the table as it is. -/
def PitCall.run (buffers : Buffers) (c : PitCall) (t : PendingInterestTable) :
    Option Status × PendingInterestTable :=
  match c.op with
  | .insert interest port =>
    match t.insert buffers c.now interest port with
    | none => (none, t)
    | some (r, t') => (some r.status, t')
  | .takeDataMatchPorts dataName => (none, (t.takeDataMatchPorts dataName).2)
  | .erase name => (none, (t.erase name).2)

/-- The events of a history and the table it leaves. -/
def runCalls (buffers : Buffers) (calls : List PitCall) : List PitEvent × PendingInterestTable :=
  calls.foldl (fun s c => (s.1 ++ [⟨c, (c.run buffers s.2).1⟩], (c.run buffers s.2).2))
    ([], .empty)

theorem runCalls_append (buffers : Buffers) (calls : List PitCall) (c : PitCall) :
    runCalls buffers (calls ++ [c]) =
      ((runCalls buffers calls).1 ++ [⟨c, (c.run buffers (runCalls buffers calls).2).1⟩],
        (c.run buffers (runCalls buffers calls).2).2) := by
  rw [runCalls, List.foldl_append]
  rfl

/-! ## What the events say -/

namespace PitEvent

/-- The event is an insertion of this Interest that returned this status. -/
def InsertsAs (status : Status) (interest : Interest) (port : Port) (e : PitEvent) : Prop :=
  e.call.op = .insert interest port ∧ e.status = some status

/-- An event inserts one Interest only. -/
theorem InsertsAs.eq {status status' : Status} {interest interest' : Interest} {port port' : Port}
    {e : PitEvent} (h : e.InsertsAs status interest port)
    (h' : e.InsertsAs status' interest' port') : interest' = interest ∧ port' = port := by
  obtain ⟨rfl, rfl⟩ := PitOp.insert.inj (h'.1.symm.trans h.1)
  exact ⟨rfl, rfl⟩

/-- The event creates the entry of this Interest. -/
def Creates (interest : Interest) (e : PitEvent) : Prop :=
  ∃ port, e.InsertsAs .created interest port

/-- The event is an accepted aggregation under this name. -/
def Aggregates (n : Name) (e : PitEvent) : Prop :=
  ∃ interest port, interest.name = n ∧ e.InsertsAs .aggregated interest port

/-- The event is an accepted insertion under this name that makes this record. -/
def Records (n : Name) (record : IngressRecord) (e : PitEvent) : Prop :=
  ∃ interest port, interest.name = n ∧
    (e.InsertsAs .created interest port ∨ e.InsertsAs .aggregated interest port) ∧
    record = recordOf e.call.now interest port

/-- The event consumes or erases the name. -/
def Clears (n : Name) (e : PitEvent) : Prop :=
  (∃ dataName, e.call.op = .takeDataMatchPorts dataName ∧ n <+: dataName) ∨
    e.call.op = .erase n

end PitEvent

/-- The record of an accepted insertion that is still there: its name was neither consumed
nor erased since, and no later accepted aggregation on the name found it expired. -/
def Survives (n : Name) (record : IngressRecord) : List PitEvent → Prop :=
  Since (PitEvent.Records n record) fun e =>
    ¬e.Clears n ∧ (e.Aggregates n → record.isExpired e.call.now = false)

/-- The Interest whose insertion created the entry of its name. -/
def CreatedBy (n : Name) (interest : Interest) : List PitEvent → Prop :=
  Since (fun e => interest.name = n ∧ e.Creates interest) fun e => ¬e.Clears n

/-- What a history leaves under a name. -/
def ExplainedAt (events : List PitEvent) (n : Name) : Option PendingEntry → Prop
  | none => (∀ i, ¬CreatedBy n i events) ∧ ∀ record, ¬Survives n record events
  | some entry => (∀ i, CreatedBy n i events ↔ i = entry.interest) ∧
    ∀ record, Survives n record events ↔ record ∈ entry.ingress

variable {events : List PitEvent} {e : PitEvent} {n : Name} {held : Option PendingEntry}

theorem not_clears_of_insert {interest : Interest} {port : Port}
    (h : e.call.op = .insert interest port) : ¬e.Clears n := by
  rintro (⟨dataName, hop, -⟩ | hop)
  · rw [h] at hop
    cases hop
  · rw [h] at hop
    cases hop

/-- An event that has nothing to do with a name. -/
theorem ExplainedAt.skip (h : ExplainedAt events n held) (hclears : ¬e.Clears n)
    (hother : ∀ interest port, interest.name = n →
      ¬e.InsertsAs .created interest port ∧ ¬e.InsertsAs .aggregated interest port) :
    ExplainedAt (events ++ [e]) n held := by
  have hcreated : ∀ i, CreatedBy n i (events ++ [e]) ↔ CreatedBy n i events := by
    intro i
    unfold CreatedBy
    rw [since_snoc]
    constructor
    · rintro (⟨hname, port, hinserts⟩ | ⟨hsince, -⟩)
      · exact absurd hinserts (hother i port hname).1
      · exact hsince
    · exact fun hsince => Or.inr ⟨hsince, hclears⟩
  have hsurvives : ∀ record, Survives n record (events ++ [e]) ↔ Survives n record events := by
    intro record
    unfold Survives
    rw [since_snoc]
    constructor
    · rintro (⟨i, port, hname, hinserts | hinserts, -⟩ | ⟨hsince, -⟩)
      · exact absurd hinserts (hother i port hname).1
      · exact absurd hinserts (hother i port hname).2
      · exact hsince
    · refine fun hsince => Or.inr ⟨hsince, hclears, ?_⟩
      rintro ⟨i, port, hname, hinserts⟩
      exact absurd hinserts (hother i port hname).2
  cases held with
  | none =>
      refine ⟨fun i => ?_, fun record => ?_⟩
      · rw [hcreated]
        exact h.1 i
      · rw [hsurvives]
        exact h.2 record
  | some entry =>
      refine ⟨fun i => ?_, fun record => ?_⟩
      · rw [hcreated]
        exact h.1 i
      · rw [hsurvives]
        exact h.2 record

/-- An event that inserts nothing leaves what it does not clear. -/
theorem ExplainedAt.skip_of_not_insert (h : ExplainedAt events n held) (hclears : ¬e.Clears n)
    (hop : ∀ interest port, e.call.op ≠ .insert interest port) :
    ExplainedAt (events ++ [e]) n held :=
  h.skip hclears fun interest port _ =>
    ⟨fun hinserts => hop interest port hinserts.1, fun hinserts => hop interest port hinserts.1⟩

/-- An insertion leaves the other names alone. -/
theorem ExplainedAt.skip_of_name_ne (h : ExplainedAt events n held) {interest : Interest}
    {port : Port} (hop : e.call.op = .insert interest port) (hname : interest.name ≠ n) :
    ExplainedAt (events ++ [e]) n held := by
  refine h.skip (not_clears_of_insert hop) fun i port' hi =>
    ⟨fun hinserts => ?_, fun hinserts => ?_⟩
  · obtain ⟨rfl, -⟩ := PitOp.insert.inj (hop.symm.trans hinserts.1)
    exact hname hi
  · obtain ⟨rfl, -⟩ := PitOp.insert.inj (hop.symm.trans hinserts.1)
    exact hname hi

/-- An insertion that is not accepted leaves every name alone. -/
theorem ExplainedAt.skip_of_rejected (h : ExplainedAt events n held) {interest : Interest}
    {port : Port} (hop : e.call.op = .insert interest port)
    (hcreated : e.status ≠ some .created) (haggregated : e.status ≠ some .aggregated) :
    ExplainedAt (events ++ [e]) n held :=
  h.skip (not_clears_of_insert hop) fun _ _ _ =>
    ⟨fun hinserts => hcreated hinserts.2, fun hinserts => haggregated hinserts.2⟩

/-- Nothing outlives a consumption or an erasure. -/
theorem explainedAt_of_clears (hclears : e.Clears n) :
    ExplainedAt (events ++ [e]) n none := by
  refine ⟨fun i hcreated => ?_, fun record hsurvives => ?_⟩
  · unfold CreatedBy at hcreated
    rw [since_snoc] at hcreated
    rcases hcreated with ⟨-, port, hop, -⟩ | ⟨-, hkeep⟩
    · exact not_clears_of_insert hop hclears
    · exact hkeep hclears
  · unfold Survives at hsurvives
    rw [since_snoc] at hsurvives
    rcases hsurvives with ⟨i, port, -, hinserts | hinserts, -⟩ | ⟨-, hkeep, -⟩
    · exact not_clears_of_insert hinserts.1 hclears
    · exact not_clears_of_insert hinserts.1 hclears
    · exact hkeep hclears

/-- A creation under a name without an entry. -/
theorem ExplainedAt.create (h : ExplainedAt events n none) {interest : Interest} {port : Port}
    (hname : interest.name = n) (hinserts : e.InsertsAs .created interest port) :
    ExplainedAt (events ++ [e]) n
      (some ⟨interest, [recordOf e.call.now interest port]⟩) := by
  refine ⟨fun i => ?_, fun record => ?_⟩
  · unfold CreatedBy
    rw [since_snoc]
    constructor
    · rintro (⟨-, port', hinserts'⟩ | ⟨hsince, -⟩)
      · exact (hinserts.eq hinserts').1
      · exact absurd hsince (h.1 i)
    · rintro rfl
      exact Or.inl ⟨hname, port, hinserts⟩
  · unfold Survives
    rw [since_snoc, List.mem_singleton]
    constructor
    · rintro (⟨i, port', -, hinserts' | hinserts', rfl⟩ | ⟨hsince, -⟩)
      · rw [(hinserts.eq hinserts').1, (hinserts.eq hinserts').2]
      · rw [(hinserts.eq hinserts').1, (hinserts.eq hinserts').2]
      · exact absurd hsince (h.2 record)
    · rintro rfl
      exact Or.inl ⟨interest, port, hname, Or.inl hinserts, rfl⟩

/-- An aggregation prunes the expired records and adds its own. -/
theorem ExplainedAt.aggregate {entry : PendingEntry} (h : ExplainedAt events n (some entry))
    {interest : Interest} {port : Port} (hname : interest.name = n)
    (hinserts : e.InsertsAs .aggregated interest port) :
    ExplainedAt (events ++ [e]) n
      (some (PendingInterestTable.aggregate e.call.now interest port entry)) := by
  have hclears : ¬e.Clears n := not_clears_of_insert hinserts.1
  refine ⟨fun i => ?_, fun record => ?_⟩
  · have hsame := h.1 i
    unfold CreatedBy at hsame ⊢
    rw [since_snoc, hsame]
    constructor
    · rintro (⟨-, port', hinserts'⟩ | ⟨heq, -⟩)
      · exact absurd (hinserts'.2.symm.trans hinserts.2) (by decide)
      · exact heq
    · exact fun heq => Or.inr ⟨heq, hclears⟩
  · have hsame := h.2 record
    unfold Survives at hsame ⊢
    rw [since_snoc, hsame]
    simp only [PendingInterestTable.aggregate, pruneExpiredIngress, List.mem_append,
      List.mem_filter, List.mem_singleton, Bool.not_eq_true']
    constructor
    · rintro (⟨i, port', -, hinserts' | hinserts', rfl⟩ | ⟨hmem, -, hlive⟩)
      · rw [(hinserts.eq hinserts').1, (hinserts.eq hinserts').2]
        exact Or.inr rfl
      · rw [(hinserts.eq hinserts').1, (hinserts.eq hinserts').2]
        exact Or.inr rfl
      · exact Or.inl ⟨hmem, hlive ⟨interest, port, hname, hinserts⟩⟩
    · rintro (⟨hmem, hlive⟩ | rfl)
      · exact Or.inr ⟨hmem, hclears, fun _ => hlive⟩
      · exact Or.inl ⟨interest, port, hname, Or.inr hinserts, rfl⟩

/-! ## Every history -/

/-- The entry of an inserted name and of all others. -/
theorem getElem?_store (t : PendingInterestTable) (m : Name) (entry : PendingEntry) (n : Name) :
    (⟨t.entries.insert m entry⟩ : PendingInterestTable).entries[n]? =
      if m = n then some entry else t.entries[n]? := by
  simp only [Std.TreeMap.getElem?_insert, Std.LawfulEqOrd.compare_eq_iff_eq]

variable {t : PendingInterestTable}

theorem ExplainedAt.runTake (h : ExplainedAt events n t.entries[n]?) (now : Time)
    (dataName : Name) (status : Option Status) :
    ExplainedAt (events ++ [⟨⟨now, .takeDataMatchPorts dataName⟩, status⟩]) n
      (t.takeDataMatchPorts dataName).2.entries[n]? := by
  rw [getElem?_takeDataMatchPorts]
  by_cases hprefix : n <+: dataName
  · rw [if_pos hprefix]
    exact explainedAt_of_clears (Or.inl ⟨dataName, rfl, hprefix⟩)
  · rw [if_neg hprefix]
    refine h.skip_of_not_insert ?_ fun interest port hop => by cases hop
    rintro (⟨dataName', hop, hprefix'⟩ | hop)
    · cases hop
      exact hprefix hprefix'
    · cases hop

theorem ExplainedAt.runErase (h : ExplainedAt events n t.entries[n]?) (now : Time) (name : Name)
    (status : Option Status) :
    ExplainedAt (events ++ [⟨⟨now, .erase name⟩, status⟩]) n (t.erase name).2.entries[n]? := by
  have herased : (⟨t.entries.erase name⟩ : PendingInterestTable).entries[n]? =
      if name = n then none else t.entries[n]? := by
    simp only [Std.TreeMap.getElem?_erase, Std.LawfulEqOrd.compare_eq_iff_eq]
  simp only [PendingInterestTable.erase]
  rw [herased]
  by_cases hname : name = n
  · rw [if_pos hname]
    exact explainedAt_of_clears (Or.inr (by rw [hname]))
  · rw [if_neg hname]
    refine h.skip_of_not_insert ?_ fun interest port hop => by cases hop
    rintro (⟨dataName, hop, -⟩ | hop)
    · cases hop
    · cases hop
      exact hname rfl

theorem ExplainedAt.runInsert (h : ExplainedAt events n t.entries[n]?) (buffers : Buffers)
    (now : Time) (interest : Interest) (port : Port) :
    ExplainedAt (events ++ [⟨⟨now, .insert interest port⟩,
        (PitCall.run buffers ⟨now, .insert interest port⟩ t).1⟩]) n
      (PitCall.run buffers ⟨now, .insert interest port⟩ t).2.entries[n]? := by
  cases hinsert : t.insert buffers now interest port with
  | none =>
      simp only [PitCall.run, hinsert]
      exact h.skip_of_rejected rfl (by simp) (by simp)
  | some result =>
      obtain ⟨r, t'⟩ := result
      simp only [PitCall.run, hinsert]
      rcases insert_cases hinsert with
        ⟨habsent, rfl, rfl⟩ | ⟨entry, hentry, ⟨-, rfl, rfl⟩ | ⟨-, rfl, rfl⟩⟩
      · rw [getElem?_store]
        by_cases hname : interest.name = n
        · rw [if_pos hname]
          rw [← hname, habsent] at h
          rw [← hname]
          exact h.create rfl ⟨rfl, rfl⟩
        · rw [if_neg hname]
          exact h.skip_of_name_ne rfl hname
      · exact h.skip_of_rejected rfl (by simp) (by simp)
      · rw [getElem?_store]
        by_cases hname : interest.name = n
        · rw [if_pos hname]
          rw [← hname, hentry] at h
          rw [← hname]
          exact h.aggregate rfl ⟨rfl, rfl⟩
        · rw [if_neg hname]
          exact h.skip_of_name_ne rfl hname

/-- One call keeps every name explained. -/
theorem ExplainedAt.run (h : ExplainedAt events n t.entries[n]?) (buffers : Buffers)
    (c : PitCall) :
    ExplainedAt (events ++ [⟨c, (c.run buffers t).1⟩]) n (c.run buffers t).2.entries[n]? := by
  obtain ⟨now, op⟩ := c
  cases op with
  | takeDataMatchPorts dataName => exact h.runTake now dataName none
  | erase name => exact h.runErase now name none
  | insert interest port => exact h.runInsert buffers now interest port

theorem explainedAt_runCalls (buffers : Buffers) (calls : List PitCall) (n : Name) :
    ExplainedAt (runCalls buffers calls).1 n (runCalls buffers calls).2.entries[n]? := by
  induction calls using List.reverseRecOn generalizing n with
  | nil =>
      have hnone : (runCalls buffers []).2.entries[n]? = none := by
        simp [runCalls, PendingInterestTable.empty]
      rw [hnone]
      exact ⟨fun i => not_since_nil, fun record => not_since_nil⟩
  | append_singleton calls c ih =>
      rw [runCalls_append]
      exact (ih n).run buffers c

/-- Two Interests have Nonces, and their values are equal. -/
def EqualNonces (buffers : Buffers) (first interest : Interest) : Prop :=
  first.hasNonce = true ∧ interest.hasNonce = true ∧
    ∃ value, first.getNonce buffers = some value ∧ interest.getNonce buffers = some value

theorem sameNonce_eq_some_true {buffers : Buffers} {first interest : Interest} :
    sameNonce buffers first interest = some true ↔ EqualNonces buffers first interest := by
  unfold sameNonce EqualNonces
  split
  next hboth =>
    rw [Bool.and_eq_true] at hboth
    rw [Option.bind_eq_some_iff]
    constructor
    · rintro ⟨a, ha, hb⟩
      obtain ⟨b, hb, heq⟩ := Option.map_eq_some_iff.mp hb
      rw [beq_iff_eq] at heq
      exact ⟨hboth.1, hboth.2, a, ha, heq ▸ hb⟩
    · rintro ⟨-, -, value, ha, hb⟩
      exact ⟨value, ha, by rw [hb]; simp⟩
  next hnone =>
    refine iff_of_false (by simp) ?_
    rintro ⟨hfirst, hinterest, -⟩
    exact hnone (by rw [hfirst, hinterest]; rfl)

/-- An insertion is a duplicate exactly if the Nonce of the saved Interest is the arriving
one. -/
theorem insert_duplicate_iff {buffers : Buffers} {now : Time} {interest : Interest}
    {port : Port} {t : PendingInterestTable} :
    (∃ r t', t.insert buffers now interest port = some (r, t') ∧ r.status = .duplicate) ↔
      ∃ entry, t.entries[interest.name]? = some entry ∧
        EqualNonces buffers entry.interest interest := by
  constructor
  · rintro ⟨r, t', hinsert, hstatus⟩
    rcases insert_cases hinsert with
      ⟨-, rfl, -⟩ | ⟨entry, hentry, ⟨hsame, -, -⟩ | ⟨-, rfl, -⟩⟩
    · cases hstatus
    · exact ⟨entry, hentry, sameNonce_eq_some_true.mp hsame⟩
    · cases hstatus
  · rintro ⟨entry, hentry, hequal⟩
    refine ⟨⟨.duplicate, entry.interest⟩, t, ?_, rfl⟩
    simp [PendingInterestTable.insert, hentry, sameNonce_eq_some_true.mpr hequal]

/-- The pending Interest table is determined by its history, under any clock: Data returns
the ports of exactly the surviving insertions under the prefixes of its name and removes
the entries of these prefixes and no others; an insertion is a duplicate exactly if the
Interest that created the entry has the same Nonce, and then changes nothing; and the
saved Interest of an entry is the one that created it. -/
theorem pending_history (buffers : Buffers) (calls : List PitCall) :
    (∀ dataName port, port ∈ ((runCalls buffers calls).2.takeDataMatchPorts dataName).1 ↔
      ∃ n record, n <+: dataName ∧ Survives n record (runCalls buffers calls).1 ∧
        record.port = port) ∧
    (∀ dataName n, ((runCalls buffers calls).2.takeDataMatchPorts dataName).2.entries[n]? =
      if n <+: dataName then none else (runCalls buffers calls).2.entries[n]?) ∧
    (∀ now interest port,
      ((∃ r t', (runCalls buffers calls).2.insert buffers now interest port = some (r, t') ∧
          r.status = .duplicate) ↔
        ∃ first, CreatedBy interest.name first (runCalls buffers calls).1 ∧
          EqualNonces buffers first interest) ∧
      ∀ r t', (runCalls buffers calls).2.insert buffers now interest port = some (r, t') →
        r.status = .duplicate → t' = (runCalls buffers calls).2) ∧
    ∀ n entry, (runCalls buffers calls).2.entries[n]? = some entry →
      ∀ i, CreatedBy n i (runCalls buffers calls).1 ↔ i = entry.interest := by
  have hexplained := explainedAt_runCalls buffers calls
  have hentries : ∀ (n : Name) (entry : PendingEntry),
      (runCalls buffers calls).2.entries[n]? = some entry →
        ExplainedAt (runCalls buffers calls).1 n (some entry) := by
    intro n entry hentry
    have h := hexplained n
    rwa [hentry] at h
  have habsent : ∀ n : Name, (runCalls buffers calls).2.entries[n]? = none →
      ExplainedAt (runCalls buffers calls).1 n none := by
    intro n hnone
    have h := hexplained n
    rwa [hnone] at h
  refine ⟨fun dataName port => ?_, fun dataName n => getElem?_takeDataMatchPorts dataName _ n,
    fun now interest port => ⟨?_, ?_⟩, fun n entry hentry => (hentries n entry hentry).1⟩
  · rw [mem_takeDataMatchPorts]
    constructor
    · rintro ⟨n, entry, hprefix, hentry, hport⟩
      obtain ⟨record, hrecord, rfl⟩ := List.mem_map.mp hport
      exact ⟨n, record, hprefix, ((hentries n entry hentry).2 record).mpr hrecord, rfl⟩
    · rintro ⟨n, record, hprefix, hsurvives, rfl⟩
      cases hentry : (runCalls buffers calls).2.entries[n]? with
      | none => exact absurd hsurvives ((habsent n hentry).2 record)
      | some entry =>
          refine ⟨n, entry, hprefix, hentry, ?_⟩
          exact List.mem_map_of_mem (((hentries n entry hentry).2 record).mp hsurvives)
  · rw [insert_duplicate_iff]
    constructor
    · rintro ⟨entry, hentry, hequal⟩
      exact ⟨entry.interest, ((hentries _ entry hentry).1 _).mpr rfl, hequal⟩
    · rintro ⟨first, hcreated, hequal⟩
      cases hentry : (runCalls buffers calls).2.entries[interest.name]? with
      | none => exact absurd hcreated ((habsent _ hentry).1 first)
      | some entry =>
          rw [((hentries _ entry hentry).1 first).mp hcreated] at hequal
          exact ⟨entry, rfl, hequal⟩
  · intro r t' hinsert hstatus
    rcases insert_cases hinsert with
      ⟨-, rfl, -⟩ | ⟨entry, -, ⟨-, -, hsame⟩ | ⟨-, rfl, -⟩⟩
    · cases hstatus
    · exact hsame
    · cases hstatus

end PendingInterestTable

end Statim
