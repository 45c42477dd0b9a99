import Statim.Apps.ConsumerTimers
import Statim.Support.OrderedMap

/-!
# The books of a consumer

Every sequence number that a consumer has sent is outstanding, or waits to be sent
again, or has been satisfied.  The loss that it reports when it is stopped is therefore
the number of those that are still outstanding or waiting.

The value that stands for no sequence number is itself a sequence number, and one that
cannot be sent again: a consumer that has sent it keeps none of this.
-/

namespace Statim

open Support

namespace StatimConsumer

open Consumer

variable {cfg : ConsumerConfig} {permits : ConsumerWorld → UInt32 → Prop} {startSeq : UInt32}
  {w w' : ConsumerWorld} {k seq : UInt32}

/-- A sequence number that is outstanding or waits to be sent again. -/
def Open (k : UInt32) (app : Consumer) : Prop := k ∈ app.seqTimeouts.keys ∨ k ∈ app.retxSeqs

/-- The books of a consumer. -/
structure Accounts (startSeq : UInt32) (w : ConsumerWorld) : Prop where
  unstarted : w.app.firstTime = true → w.app.active = false ∧ ∀ k, k ∉ w.app.seqFirstSent
  bound : startSeq ≤ w.app.seq
  sent : ∀ k, k ∈ w.app.seqFirstSent ↔ startSeq ≤ k ∧ k < w.app.seq
  opened : ∀ k, Open k w.app → k ∈ w.app.seqFirstSent
  apart : ∀ k, k ∈ w.app.seqTimeouts.keys → k ∉ w.app.retxSeqs
  settled : ∀ k, k ∈ w.app.seqFirstSent → Open k w.app ∨ k ∈ w.app.seqSatisfied
  sendTime : ∀ k t, (k, t) ∈ w.app.seqTimeouts.entries → w.app.seqSendTime[k]? = some t

/-- The last sequence number has not been sent. -/
def Regular (w : ConsumerWorld) : Prop := noSeq ∉ w.app.seqFirstSent

/-! ## What a move sends -/

theorem mem_seqFirstSent_sendInterest :
    k ∈ (sendInterest cfg seq w).app.seqFirstSent ↔ k = seq ∨ k ∈ w.app.seqFirstSent := by
  have hsent : (sendInterest cfg seq w).app.seqFirstSent =
      if w.app.seqFirstSent.contains seq then w.app.seqFirstSent
      else w.app.seqFirstSent.insert seq w.clock.now := rfl
  rw [hsent]
  split
  next hold =>
    have hmem : seq ∈ w.app.seqFirstSent := hold
    exact ⟨Or.inr, fun h => h.elim (fun heq => heq ▸ hmem) id⟩
  next =>
    rw [Std.TreeMap.mem_insert, Std.LawfulEqOrd.compare_eq_iff_eq, eq_comm]

/-- What has been sent stays sent. -/
theorem Move.seqFirstSent_mono (h : Move cfg permits w w') (hk : k ∈ w.app.seqFirstSent) :
    k ∈ w'.app.seqFirstSent := by
  cases h with
  | reschedule h =>
      have hsame : w'.app.seqFirstSent = w.app.seqFirstSent :=
        h.field Consumer.seqFirstSent fun _ => rfl
      rw [hsame]
      exact hk
  | resend => exact mem_seqFirstSent_sendInterest.mpr (Or.inr hk)
  | sendNew => exact mem_seqFirstSent_sendInterest.mpr (Or.inr hk)
  | finish => exact hk
  | timeout => exact hk
  | settle => exact hk
  | late => exact hk

theorem Regular.of_move (h : Move cfg permits w w') (hregular : Regular w') : Regular w :=
  fun hmem => hregular (h.seqFirstSent_mono hmem)

/-! ## Each move keeps the books -/

theorem Accounts.reschedule (h : Accounts startSeq w) (hmove : Reschedules w w') :
    Accounts startSeq w' := by
  have hseq : w'.app.seq = w.app.seq := hmove.field Consumer.seq fun _ => rfl
  have hsent : w'.app.seqFirstSent = w.app.seqFirstSent :=
    hmove.field Consumer.seqFirstSent fun _ => rfl
  have htimeouts : w'.app.seqTimeouts = w.app.seqTimeouts :=
    hmove.field Consumer.seqTimeouts fun _ => rfl
  have hretx : w'.app.retxSeqs = w.app.retxSeqs := hmove.field Consumer.retxSeqs fun _ => rfl
  have hsatisfied : w'.app.seqSatisfied = w.app.seqSatisfied :=
    hmove.field Consumer.seqSatisfied fun _ => rfl
  have hsendTime : w'.app.seqSendTime = w.app.seqSendTime :=
    hmove.field Consumer.seqSendTime fun _ => rfl
  refine ⟨fun hfirst => ?_, ?_, ?_, ?_, ?_, ?_, ?_⟩
  · obtain ⟨hbefore, hactive⟩ := hmove.first hfirst
    obtain ⟨hinactive, hnone⟩ := h.unstarted hbefore
    refine ⟨?_, hsent ▸ hnone⟩
    rw [← Bool.not_eq_true]
    intro hafter
    rw [hactive hafter] at hinactive
    cases hinactive
  · rw [hseq]
    exact h.bound
  · rw [hsent, hseq]
    exact h.sent
  · unfold Open
    rw [hsent, htimeouts, hretx]
    exact h.opened
  · rw [htimeouts, hretx]
    exact h.apart
  · unfold Open
    rw [hsent, htimeouts, hretx, hsatisfied]
    exact h.settled
  · rw [htimeouts, hsendTime]
    exact h.sendTime

theorem mem_keys_sendInterest :
    k ∈ (sendInterest cfg seq w).app.seqTimeouts.keys ↔ k = seq ∨ k ∈ w.app.seqTimeouts.keys :=
  TimedSet.mem_keys_insert

/-- The send times after an Interest for a number that is not outstanding. -/
theorem sendTime_sendInterest (hnew : seq ∉ w.app.seqTimeouts.keys)
    (h : ∀ k t, (k, t) ∈ w.app.seqTimeouts.entries → w.app.seqSendTime[k]? = some t) (t : ℕ)
    (hmem : (k, t) ∈ (sendInterest cfg seq w).app.seqTimeouts.entries) :
    (sendInterest cfg seq w).app.seqSendTime[k]? = some t := by
  have hsendTime : (sendInterest cfg seq w).app.seqSendTime =
      w.app.seqSendTime.insert seq w.clock.now := rfl
  rw [hsendTime]
  rcases TimedSet.mem_insert.mp hmem with hold | ⟨-, hentry⟩
  · have hne : seq ≠ k := by
      rintro rfl
      exact hnew (TimedSet.mem_keys_of_mem hold)
    rw [getElem?_insert_of_ne _ _ hne]
    exact h k t hold
  · obtain ⟨rfl, rfl⟩ := Prod.mk.inj hentry
    exact Std.TreeMap.getElem?_insert_self

theorem Accounts.resend (h : Accounts startSeq w) (hactive : w.app.active = true)
    (hmem : seq ∈ w.app.retxSeqs) :
    Accounts startSeq (sendInterest cfg seq
      { w with app := { w.app with retxSeqs := w.app.retxSeqs.erase seq } }) := by
  have hsent : ∀ k, k = seq ∨ k ∈ w.app.seqFirstSent ↔ k ∈ w.app.seqFirstSent :=
    fun k => or_iff_right_of_imp fun heq => heq ▸ h.opened seq (Or.inr hmem)
  have hnew : seq ∉ w.app.seqTimeouts.keys := fun hkey => h.apart seq hkey hmem
  refine ⟨fun hfirst => ?_, h.bound, fun k => ?_, fun k hk => ?_, fun k hk hretx => ?_,
    fun k hk => ?_, fun k => sendTime_sendInterest hnew h.sendTime⟩
  · have hinactive := (h.unstarted hfirst).1
    rw [hactive] at hinactive
    cases hinactive
  · rw [mem_seqFirstSent_sendInterest, hsent]
    exact h.sent k
  · rw [mem_seqFirstSent_sendInterest, hsent]
    rcases hk with hkey | hretx
    · rcases mem_keys_sendInterest.mp hkey with rfl | hold
      · exact h.opened k (Or.inr hmem)
      · exact h.opened k (Or.inl hold)
    · exact h.opened k (Or.inr (Std.TreeSet.mem_of_mem_erase hretx))
  · have hretx : k ∈ w.app.retxSeqs.erase seq := hretx
    obtain ⟨hne, hretx⟩ := Std.TreeSet.mem_erase.mp hretx
    rcases mem_keys_sendInterest.mp hk with rfl | hold
    · exact hne Std.ReflOrd.compare_self
    · exact h.apart k hold hretx
  · rw [mem_seqFirstSent_sendInterest, hsent] at hk
    rcases h.settled k hk with (hold | hretx) | hsatisfied
    · exact Or.inl (Or.inl (mem_keys_sendInterest.mpr (Or.inr hold)))
    · by_cases heq : k = seq
      · exact Or.inl (Or.inl (mem_keys_sendInterest.mpr (Or.inl heq)))
      · refine Or.inl (Or.inr (Std.TreeSet.mem_erase.mpr ⟨?_, hretx⟩))
        rw [ne_eq, Std.LawfulEqOrd.compare_eq_iff_eq]
        exact Ne.symm heq
    · exact Or.inr hsatisfied

theorem toNat_succ (hseq : seq ≠ noSeq) : (seq + 1).toNat = seq.toNat + 1 := by
  have hmax : seq.toNat ≠ noSeq.toNat := fun heq => hseq (UInt32.toNat_inj.mp heq)
  have hlt := seq.toNat_lt
  have hnoSeq : noSeq.toNat = 2 ^ 32 - 1 := rfl
  rw [UInt32.toNat_add]
  have hone : (1 : UInt32).toNat = 1 := rfl
  omega

theorem Accounts.sendNew (h : Accounts startSeq w) (hactive : w.app.active = true)
    (hdone : RetxDone w.app) (hempty : ∀ k, k ∉ (takeRetx w.app.retxSeqs).2)
    (hregular : Regular w) (hseq : w.app.seq ≠ noSeq) :
    Accounts startSeq (sendInterest cfg w.app.seq { w with app := { w.app with
      retxSeqs := (takeRetx w.app.retxSeqs).2
      seq := w.app.seq + 1 } }) := by
  have hnext := toNat_succ hseq
  have hbound := UInt32.le_iff_toNat_le.mp h.bound
  have hfresh : w.app.seq ∉ w.app.seqFirstSent :=
    fun hmem => UInt32.lt_irrefl _ ((h.sent _).mp hmem).2
  have hnone : ∀ k, k ∉ w.app.retxSeqs := by
    intro k hk
    rw [hdone k hk] at hk
    exact hregular (h.opened noSeq (Or.inr hk))
  have hnew : w.app.seq ∉ w.app.seqTimeouts.keys := fun hkey => hfresh (h.opened _ (Or.inl hkey))
  refine ⟨fun hfirst => ?_, ?_, fun k => ?_, fun k hk => ?_, fun k _ => hempty k,
    fun k hk => ?_, fun k => sendTime_sendInterest hnew h.sendTime⟩
  · have hinactive := (h.unstarted hfirst).1
    rw [hactive] at hinactive
    cases hinactive
  · have hle : startSeq ≤ w.app.seq + 1 := by
      rw [UInt32.le_iff_toNat_le, hnext]
      omega
    exact hle
  · rw [mem_seqFirstSent_sendInterest]
    have hrange : k = w.app.seq ∨ k ∈ w.app.seqFirstSent ↔ startSeq ≤ k ∧ k < w.app.seq + 1 := by
      rw [h.sent, UInt32.le_iff_toNat_le, UInt32.lt_iff_toNat_lt, UInt32.lt_iff_toNat_lt, hnext,
        ← UInt32.toNat_inj]
      omega
    exact hrange
  · rw [mem_seqFirstSent_sendInterest]
    rcases hk with hkey | hretx
    · exact (mem_keys_sendInterest.mp hkey).imp_right fun hold => h.opened k (Or.inl hold)
    · exact absurd hretx (hempty k)
  · rcases mem_seqFirstSent_sendInterest.mp hk with heq | hold
    · exact Or.inl (Or.inl (mem_keys_sendInterest.mpr (Or.inl heq)))
    · rcases h.settled k hold with (hkey | hretx) | hsatisfied
      · exact Or.inl (Or.inl (mem_keys_sendInterest.mpr (Or.inr hkey)))
      · exact absurd hretx (hnone k)
      · exact Or.inr hsatisfied

/-- The numbers to send again were none, or the one that is regularly not sent. -/
theorem Accounts.finish (h : Accounts startSeq w) (hdone : RetxDone w.app)
    (hempty : ∀ k, k ∉ (takeRetx w.app.retxSeqs).2) (hregular : Regular w) :
    Accounts startSeq
      { w with app := { w.app with retxSeqs := (takeRetx w.app.retxSeqs).2 } } := by
  refine ⟨h.unstarted, h.bound, h.sent, fun k hk => ?_, fun k _ => hempty k, fun k hk => ?_,
    h.sendTime⟩
  · exact h.opened k (hk.imp_right fun hretx => absurd hretx (hempty k))
  · rcases h.settled k hk with (hkey | hretx) | hsatisfied
    · exact Or.inl (Or.inl hkey)
    · rw [hdone k hretx] at hretx
      exact absurd (h.opened noSeq (Or.inr hretx)) hregular
    · exact Or.inr hsatisfied

theorem mem_insert_retxSeqs {retxSeqs : Std.TreeSet UInt32} :
    k ∈ retxSeqs.insert seq ↔ k = seq ∨ k ∈ retxSeqs := by
  rw [Std.TreeSet.mem_insert, Std.LawfulEqOrd.compare_eq_iff_eq, eq_comm]

/-- A timeout moves a number to those to send again. -/
theorem open_timeout (hmem : seq ∈ w.app.seqTimeouts.keys) :
    Open k (requeue seq (countTimeout cfg seq (eraseTimeout seq w))).app ↔ Open k w.app := by
  have hafter : Open k (requeue seq (countTimeout cfg seq (eraseTimeout seq w))).app ↔
      k ∈ (w.app.seqTimeouts.erase seq).keys ∨ k ∈ w.app.retxSeqs.insert seq := Iff.rfl
  rw [hafter, TimedSet.mem_keys_erase, mem_insert_retxSeqs, Open]
  by_cases heq : k = seq
  · simp [heq, hmem]
  · simp [heq]

theorem Accounts.timeout (h : Accounts startSeq w) (hmem : seq ∈ w.app.seqTimeouts.keys) :
    Accounts startSeq (requeue seq (countTimeout cfg seq (eraseTimeout seq w))) := by
  refine ⟨h.unstarted, h.bound, h.sent, fun k hk => h.opened k ((open_timeout hmem).mp hk),
    fun k hk hqueued => ?_, fun k hk => (h.settled k hk).imp_left (open_timeout hmem).mpr,
    fun k t hentry => h.sendTime k t (TimedSet.mem_erase.mp hentry).1⟩
  obtain ⟨hkey, hne⟩ := TimedSet.mem_keys_erase.mp hk
  rcases mem_insert_retxSeqs.mp hqueued with heq | hold
  · exact hne heq
  · exact h.apart k hkey hold

/-- Data closes a number. -/
theorem open_settle : Open k (settle cfg seq w).app ↔ Open k w.app ∧ k ≠ seq := by
  have hafter : Open k (settle cfg seq w).app ↔
      k ∈ (w.app.seqTimeouts.erase seq).keys ∨ k ∈ w.app.retxSeqs.erase seq := Iff.rfl
  rw [hafter, TimedSet.mem_keys_erase, Std.TreeSet.mem_erase, ne_eq (compare _ _),
    Std.LawfulEqOrd.compare_eq_iff_eq, Open, eq_comm (a := seq), and_comm (a := ¬k = seq),
    ← or_and_right]

theorem Accounts.settle (h : Accounts startSeq w) : Accounts startSeq (settle cfg seq w) := by
  refine ⟨h.unstarted, h.bound, h.sent, fun k hk => h.opened k (open_settle.mp hk).1,
    fun k hk hretx => ?_, fun k hk => ?_,
    fun k t hentry => h.sendTime k t (TimedSet.mem_erase.mp hentry).1⟩
  · exact h.apart k (TimedSet.mem_keys_erase.mp hk).1 (Std.TreeSet.mem_of_mem_erase hretx)
  · have hsatisfied : k ∈ (StatimConsumer.settle cfg seq w).app.seqSatisfied ↔
        k = seq ∨ k ∈ w.app.seqSatisfied := by
      have hinsert : (StatimConsumer.settle cfg seq w).app.seqSatisfied =
          w.app.seqSatisfied.insert seq := rfl
      rw [hinsert, Std.TreeSet.mem_insert, Std.LawfulEqOrd.compare_eq_iff_eq, eq_comm]
    rw [hsatisfied]
    by_cases heq : k = seq
    · exact Or.inr (Or.inl heq)
    · exact (h.settled k hk).imp (fun hopen => open_settle.mpr ⟨hopen, heq⟩) Or.inr

theorem Accounts.late (h : Accounts startSeq w) {received : ℕ} {satisfied : Std.TreeSet UInt32}
    (hsatisfied : ∀ k ∈ w.app.seqSatisfied, k ∈ satisfied) :
    Accounts startSeq { w with app := { w.app with
      dataReceived := received
      seqSatisfied := satisfied } } :=
  ⟨h.unstarted, h.bound, h.sent, h.opened, h.apart,
    fun k hk => (h.settled k hk).imp_right (hsatisfied k), h.sendTime⟩

/-- What may become of the set of satisfied numbers when no one listens any more. -/
theorem mem_late {satisfied : Std.TreeSet UInt32}
    (h : satisfied = w.app.seqSatisfied ∨
      ∃ seq, permits w seq ∧ satisfied = w.app.seqSatisfied.insert seq) :
    (∀ k ∈ w.app.seqSatisfied, k ∈ satisfied) ∧
      ∀ k ∈ satisfied, k ∈ w.app.seqSatisfied ∨ permits w k := by
  rcases h with rfl | ⟨seq, hpermits, rfl⟩
  · exact ⟨fun k hk => hk, fun k hk => Or.inl hk⟩
  · refine ⟨fun k hk => Std.TreeSet.mem_insert.mpr (Or.inr hk), fun k hk => ?_⟩
    rcases Std.TreeSet.mem_insert.mp hk with heq | hold
    · rw [Std.LawfulEqOrd.eq_of_compare heq] at hpermits
      exact Or.inr hpermits
    · exact Or.inl hold

theorem Accounts.move (h : Accounts startSeq w) (hmove : Move cfg permits w w')
    (hregular : Regular w') : Accounts startSeq w' := by
  have hbefore := hregular.of_move hmove
  cases hmove with
  | reschedule hmove => exact h.reschedule hmove
  | resend hactive hmem hseq => exact h.resend hactive hmem
  | sendNew hactive hdone hempty hmore =>
      refine h.sendNew hactive hdone hempty hbefore fun hseq => hregular ?_
      rw [← hseq]
      exact mem_seqFirstSent_sendInterest.mpr (Or.inl rfl)
  | finish hdone hempty => exact h.finish hdone hempty hbefore
  | timeout hentries hdue =>
      refine h.timeout (TimedSet.mem_keys_of_mem ?_)
      rw [hentries]
      exact List.mem_cons_self
  | settle hactive hpermits => exact h.settle
  | late hactive hsatisfied => exact h.late (mem_late hsatisfied).1

theorem accounts_initial (cfg : ConsumerConfig) (startSeq : UInt32) (c : Clock) :
    Accounts startSeq (initial cfg startSeq c) := by
  refine ⟨fun _ => ⟨rfl, fun _ => Std.TreeMap.not_mem_emptyc⟩, UInt32.le_refl _, fun k => ?_,
    ?_, ?_, ?_, ?_⟩
  · refine iff_of_false Std.TreeMap.not_mem_emptyc fun ⟨hle, hlt⟩ => ?_
    exact absurd hle (UInt32.not_le.mpr hlt)
  · rintro k (hkey | hretx)
    · exact absurd hkey List.not_mem_nil
    · exact absurd hretx Std.TreeSet.not_mem_emptyc
  · exact fun k hkey => absurd hkey List.not_mem_nil
  · exact fun k hk => absurd hk Std.TreeMap.not_mem_emptyc
  · exact fun k t hmem => absurd hmem List.not_mem_nil

theorem Reachable.accounts (h : Reachable cfg permits startSeq w) (hregular : Regular w) :
    Accounts startSeq w := by
  refine h.of_moves (fun v => Regular v → Accounts startSeq v)
    (fun c _ => accounts_initial cfg startSeq c) (fun v v' hv hmove hafter => ?_) hregular
  exact (hv (hafter.of_move hmove)).move hmove hafter

/-! ## Solicited Data -/

/-- Nothing that is open has been satisfied. -/
structure Unsatisfied (w : ConsumerWorld) : Prop where
  satisfied : ∀ k ∈ w.app.seqSatisfied, k ∈ w.app.seqFirstSent
  opened : w.app.active = true → ∀ k, Open k w.app → k ∉ w.app.seqSatisfied

/-- A number that a move opens has not been sent before. -/
theorem open_of_move (haccounts : Accounts startSeq w) (hmove : Move cfg permits w w')
    (hk : Open k w'.app) : Open k w.app ∨ k ∉ w.app.seqFirstSent := by
  cases hmove with
  | reschedule hmove =>
      have htimeouts : w'.app.seqTimeouts = w.app.seqTimeouts :=
        hmove.field Consumer.seqTimeouts fun _ => rfl
      have hretx : w'.app.retxSeqs = w.app.retxSeqs := hmove.field Consumer.retxSeqs fun _ => rfl
      rw [Open, htimeouts, hretx] at hk
      exact Or.inl hk
  | resend hactive hmem hseq =>
      rcases hk with hkey | hretx
      · rcases mem_keys_sendInterest.mp hkey with rfl | hold
        · exact Or.inl (Or.inr hmem)
        · exact Or.inl (Or.inl hold)
      · exact Or.inl (Or.inr (Std.TreeSet.mem_of_mem_erase hretx))
  | sendNew hactive hdone hempty hmore =>
      rcases hk with hkey | hretx
      · rcases mem_keys_sendInterest.mp hkey with rfl | hold
        · exact Or.inr fun hmem => UInt32.lt_irrefl _ ((haccounts.sent _).mp hmem).2
        · exact Or.inl (Or.inl hold)
      · exact absurd hretx (hempty k)
  | finish hdone hempty =>
      exact Or.inl (hk.imp_right fun hretx => absurd hretx (hempty k))
  | timeout hentries hdue =>
      rcases hk with hkey | hretx
      · exact Or.inl (Or.inl (TimedSet.mem_keys_erase.mp hkey).1)
      · rcases Std.TreeSet.mem_insert.mp hretx with heq | hold
        · rw [← Std.LawfulEqOrd.eq_of_compare heq]
          refine Or.inl (Or.inl (TimedSet.mem_keys_of_mem ?_))
          rw [hentries]
          exact List.mem_cons_self
        · exact Or.inl (Or.inr hold)
  | settle hactive hpermits => exact Or.inl (open_settle.mp hk).1
  | late hactive hsatisfied => exact Or.inl hk

/-- A consumer that runs ran before, or nothing was open. -/
theorem active_of_move (haccounts : Accounts startSeq w) (hmove : Move cfg permits w w')
    (hactive : w'.app.active = true) : w.app.active = true ∨ ∀ k, k ∉ w.app.seqFirstSent := by
  cases hmove with
  | reschedule hmove =>
      exact (hmove.active hactive).imp_right fun hfirst => (haccounts.unstarted hfirst).2
  | resend hbefore => exact Or.inl hbefore
  | sendNew hbefore => exact Or.inl hbefore
  | finish => exact Or.inl hactive
  | timeout => exact Or.inl hactive
  | settle hbefore => exact Or.inl hbefore
  | late => exact Or.inl hactive

theorem mem_satisfied_settle :
    k ∈ (settle cfg seq w).app.seqSatisfied ↔ k = seq ∨ k ∈ w.app.seqSatisfied := by
  have hinsert : (settle cfg seq w).app.seqSatisfied = w.app.seqSatisfied.insert seq := rfl
  rw [hinsert, Std.TreeSet.mem_insert, Std.LawfulEqOrd.compare_eq_iff_eq, eq_comm]

/-- A number that a move satisfies was permitted, and is closed if the consumer runs. -/
theorem satisfied_of_move (hmove : Move cfg permits w w') (hk : k ∈ w'.app.seqSatisfied) :
    k ∈ w.app.seqSatisfied ∨
      permits w k ∧ (w'.app.active = true → ¬Open k w'.app) := by
  cases hmove with
  | reschedule hmove =>
      have hsatisfied : w'.app.seqSatisfied = w.app.seqSatisfied :=
        hmove.field Consumer.seqSatisfied fun _ => rfl
      rw [hsatisfied] at hk
      exact Or.inl hk
  | resend => exact Or.inl hk
  | sendNew => exact Or.inl hk
  | finish => exact Or.inl hk
  | timeout => exact Or.inl hk
  | settle hactive hpermits =>
      rcases mem_satisfied_settle.mp hk with rfl | hold
      · exact Or.inr ⟨hpermits, fun _ hopen => (open_settle.mp hopen).2 rfl⟩
      · exact Or.inl hold
  | late hinactive hsatisfied =>
      refine ((mem_late hsatisfied).2 k hk).imp_right fun hpermits => ⟨hpermits, fun hactive => ?_⟩
      have hactive : w.app.active = true := hactive
      rw [hinactive] at hactive
      cases hactive

theorem Unsatisfied.move (h : Unsatisfied w) (haccounts : Accounts startSeq w)
    (hmove : Move cfg Solicited w w') : Unsatisfied w' := by
  refine ⟨fun k hk => hmove.seqFirstSent_mono ?_, fun hactive k hopen hk => ?_⟩
  · exact (satisfied_of_move hmove hk).elim (h.satisfied k) And.left
  · rcases satisfied_of_move hmove hk with hold | ⟨-, hclosed⟩
    · have hsent := h.satisfied k hold
      rcases active_of_move haccounts hmove hactive with hbefore | hnone
      · rcases open_of_move haccounts hmove hopen with hopened | hnew
        · exact h.opened hbefore k hopened hold
        · exact hnew hsent
      · exact hnone k hsent
    · exact hclosed hactive hopen

theorem Reachable.unsatisfied (h : Reachable cfg Solicited startSeq w) (hregular : Regular w) :
    Unsatisfied w := by
  refine (h.of_moves (fun v => Regular v → Accounts startSeq v ∧ Unsatisfied v)
    (fun c _ => ⟨accounts_initial cfg startSeq c, ?_, ?_⟩)
    (fun v v' hv hmove hafter => ?_) hregular).2
  · exact fun k hk => absurd hk Std.TreeSet.not_mem_emptyc
  · exact fun hactive => absurd hactive Bool.false_ne_true
  · obtain ⟨haccounts, hunsatisfied⟩ := hv (hafter.of_move hmove)
    exact ⟨haccounts.move hmove hafter, hunsatisfied.move haccounts hmove⟩

/-! ## The loss report -/

/-- The numbers that are open are those that were sent and not satisfied. -/
theorem keys_unsatisfied_perm (haccounts : Accounts startSeq w) (h : Unsatisfied w)
    (hactive : w.app.active = true) :
    (w.app.seqFirstSent.keys.filter fun k => !w.app.seqSatisfied.contains k).Perm
      (w.app.seqTimeouts.keys ++ w.app.retxSeqs.toList) := by
  have hsent : w.app.seqFirstSent.keys.Nodup := Std.TreeMap.nodup_keys
  have hretx : w.app.retxSeqs.toList.Nodup := by
    refine Std.TreeSet.distinct_toList.imp fun hdistinct heq => hdistinct ?_
    rw [heq]
    exact Std.ReflOrd.compare_self
  have hopen : (w.app.seqTimeouts.keys ++ w.app.retxSeqs.toList).Nodup := by
    refine List.nodup_append.mpr ⟨TimedSet.nodup_keys _, hretx, ?_⟩
    rintro k hkey _ hretx rfl
    exact haccounts.apart k hkey (Std.TreeSet.mem_toList.mp hretx)
  rw [List.perm_ext_iff_of_nodup (hsent.filter _) hopen]
  intro k
  rw [List.mem_filter, List.mem_append, Std.TreeSet.mem_toList, Std.TreeMap.mem_keys,
    Bool.not_eq_true', ← Bool.not_eq_true, Std.TreeSet.contains_iff_mem]
  constructor
  · rintro ⟨hk, hunsatisfied⟩
    exact (haccounts.settled k hk).resolve_right hunsatisfied
  · intro hk
    exact ⟨haccounts.opened k hk, h.opened hactive k hk⟩

/-- Entries of a map counted by their keys. -/
theorem neverSatisfied_eq (window : ℕ → Bool) (app : Consumer) :
    neverSatisfied window app =
      (app.seqFirstSent.keys.filter fun k => !app.seqSatisfied.contains k).countP fun k =>
        (app.seqFirstSent[k]?.map window).getD false := by
  rw [List.countP_filter, ← Std.TreeMap.map_fst_toList_eq_keys, List.countP_map]
  refine List.countP_congr fun kv hkv => ?_
  have hfirst : app.seqFirstSent[kv.1]? = some kv.2 :=
    Std.TreeMap.mem_toList_iff_getElem?_eq_some.mp hkv
  simp [hfirst]

/-- The numbers sent are those from the first to the next one. -/
theorem keys_seqFirstSent_perm (haccounts : Accounts startSeq w) :
    (w.app.seqFirstSent.keys.map UInt32.toNat).Perm
      (List.range' startSeq.toNat (w.app.seq.toNat - startSeq.toNat)) := by
  have hnodup : (w.app.seqFirstSent.keys.map UInt32.toNat).Nodup :=
    Std.TreeMap.nodup_keys.map fun a b heq => UInt32.toNat_inj.mp heq
  rw [List.perm_ext_iff_of_nodup hnodup List.nodup_range']
  intro n
  rw [List.mem_map, List.mem_range'_1]
  constructor
  · rintro ⟨k, hk, rfl⟩
    obtain ⟨hle, hlt⟩ := (haccounts.sent k).mp (Std.TreeMap.mem_keys.mp hk)
    rw [UInt32.le_iff_toNat_le] at hle
    rw [UInt32.lt_iff_toNat_lt] at hlt
    omega
  · intro hn
    have hlt := w.app.seq.toNat_lt
    refine ⟨UInt32.ofNat n, Std.TreeMap.mem_keys.mpr ((haccounts.sent _).mpr ?_), ?_⟩
    · rw [UInt32.le_iff_toNat_le, UInt32.lt_iff_toNat_lt, UInt32.toNat_ofNat']
      omega
    · rw [UInt32.toNat_ofNat']
      omega

theorem size_seqFirstSent (haccounts : Accounts startSeq w) :
    w.app.seqFirstSent.size = w.app.seq.toNat - startSeq.toNat := by
  have hlength := (keys_seqFirstSent_perm haccounts).length_eq
  rw [List.length_map, List.length_range', Std.TreeMap.length_keys] at hlength
  exact hlength

/-- The number was first sent within `window`. -/
def FirstSentIn (window : ℕ → Bool) (app : Consumer) (k : UInt32) : Bool :=
  (app.seqFirstSent[k]?.map window).getD false

theorem firstSentIn_eq (haccounts : Accounts startSeq w) (window : ℕ → Bool) :
    firstSentIn window w.app =
      (List.range' startSeq.toNat (w.app.seq.toNat - startSeq.toNat)).countP fun n =>
        FirstSentIn window w.app (UInt32.ofNat n) := by
  rw [← (keys_seqFirstSent_perm haccounts).countP_eq, List.countP_map,
    ← Std.TreeMap.map_fst_toList_eq_keys, List.countP_map]
  refine List.countP_congr fun kv hkv => ?_
  have hfirst : w.app.seqFirstSent[kv.1]? = some kv.2 :=
    Std.TreeMap.mem_toList_iff_getElem?_eq_some.mp hkv
  simp [FirstSentIn, hfirst]

/-- While a consumer runs, `RUN_LOSS` is the number of sequence numbers that are outstanding
or wait to be sent again, out of those from `startSeq` to the next one; `WINDOW_LOSS` counts
the same ones among those first sent in the window. -/
theorem loss_report (h : Reachable cfg Solicited startSeq w) (hactive : w.app.active = true)
    (hregular : noSeq ∉ w.app.seqFirstSent) :
    runLoss w.app = (w.app.seq.toNat - startSeq.toNat,
        w.app.seqTimeouts.entries.length + w.app.retxSeqs.size) ∧
      (∀ window, neverSatisfied window w.app =
        (w.app.seqTimeouts.keys ++ w.app.retxSeqs.toList).countP (FirstSentIn window w.app)) ∧
      windowLoss cfg w.app = if 0 < cfg.lossWindowStart then
        some ((List.range' startSeq.toNat (w.app.seq.toNat - startSeq.toNat)).countP fun n =>
            FirstSentIn (inLossWindow cfg) w.app (UInt32.ofNat n),
          (w.app.seqTimeouts.keys ++ w.app.retxSeqs.toList).countP
            (FirstSentIn (inLossWindow cfg) w.app))
        else none := by
  have haccounts := h.accounts hregular
  have hperm := keys_unsatisfied_perm haccounts (h.unsatisfied hregular) hactive
  have hcount : ∀ window, neverSatisfied window w.app =
      (w.app.seqTimeouts.keys ++ w.app.retxSeqs.toList).countP (FirstSentIn window w.app) := by
    intro window
    rw [neverSatisfied_eq, hperm.countP_eq]
    rfl
  refine ⟨Prod.ext (size_seqFirstSent haccounts) ?_, hcount, ?_⟩
  · have hall : (w.app.seqTimeouts.keys ++ w.app.retxSeqs.toList).countP
        (FirstSentIn (fun _ => true) w.app) =
          (w.app.seqTimeouts.keys ++ w.app.retxSeqs.toList).length := by
      rw [List.countP_eq_length]
      intro k hk
      rw [List.mem_append, Std.TreeSet.mem_toList] at hk
      have hsent := haccounts.opened k hk
      obtain ⟨time, htime⟩ := Option.isSome_iff_exists.mp
        (Std.TreeMap.mem_iff_isSome_getElem?.mp hsent)
      rw [FirstSentIn, htime]
      rfl
    have hreport : (runLoss w.app).2 = neverSatisfied (fun _ => true) w.app := rfl
    rw [hreport, hcount, hall, List.length_append, TimedSet.keys, List.length_map,
      Std.TreeSet.length_toList]
  · rw [windowLoss, firstSentIn_eq haccounts, hcount]

theorem loss_report_sampleRun :
    runLoss sampleRun.app = (2, 1) ∧ windowLoss sampleConfig sampleRun.app = some (1, 1) := by
  obtain ⟨hrun, -, hwindow⟩ := loss_report reachable_sampleRun (by decide) (by decide)
  rw [hrun, hwindow]
  decide

end StatimConsumer

end Statim
