import Mathlib.Data.List.TakeWhile
import Statim.Pipeline.Dispatch

/-!
# The flow-table FIB as a longest-prefix map

After any history of installations and removals the FIB table holds, besides
the default entry, one entry for each hash tuple whose last operation is an
installation.  Which port an Interest takes is therefore a function of the
history: the last operation on the longest live prefix of its hashes decides.
-/

namespace Statim

open Support StatimField StatimTableId

/-- A call that changes the flow-table FIB. -/
inductive FibOp
  | install (nameHashes : Bytes) (outputPort : Port) (expiry : Time)
  | remove (nameHashes : Bytes)
deriving DecidableEq, Repr

namespace FibOp

def nameHashes : FibOp → Bytes
  | install nameHashes _ _ => nameHashes
  | remove nameHashes => nameHashes

/-- Run the call; `std` is the order that its sorting leaves. -/
def apply (std : EntrySort) (op : FibOp) (sw : SwitchPipeline) : SwitchPipeline :=
  match op with
  | install nameHashes outputPort expiry =>
    sw.installFibEntry std nameHashes outputPort expiry none
  | remove nameHashes => sw.removeFibEntry nameHashes

end FibOp

namespace SwitchPipeline

/-- The switch after a history of calls, each with the sort it uses. -/
def afterOps (std : EntrySort) (history : List (EntrySort × FibOp)) : SwitchPipeline :=
  history.foldl (fun sw call => call.2.apply call.1 sw) (initPipeline std)

theorem afterOps_append (std : EntrySort) (history : List (EntrySort × FibOp))
    (call : EntrySort × FibOp) :
    afterOps std (history ++ [call]) = call.2.apply call.1 (afterOps std history) := by
  rw [afterOps, List.foldl_append]
  rfl

/-! ## Tuples and their keys -/

/-- Up to four hashes, then only padding. -/
def IsTuple (nameHashes : Bytes) : Prop :=
  ∃ hashes padding, hashes.length ≤ nameHashCount ∧ noHash ∉ hashes ∧
    nameHashes = hashes ++ List.replicate padding noHash

/-- The hashes of a tuple without the padding. -/
def keyOf (nameHashes : Bytes) : Bytes :=
  (nameHashes.take nameHashCount).takeWhile (· != noHash)

/-- A tuple without padding. -/
structure IsKey (key : Bytes) : Prop where
  length : key.length ≤ nameHashCount
  exact : noHash ∉ key

theorem isKey_keyOf (hs : Bytes) : IsKey (keyOf hs) where
  length := by
    refine Nat.le_trans (List.takeWhile_prefix _).length_le ?_
    rw [List.length_take]
    exact Nat.min_le_left _ _
  exact hmem := by
    have hne := List.mem_takeWhile_imp hmem
    simp at hne

theorem keyOf_eq {key : Bytes} (h : IsKey key) (padding : Nat) :
    keyOf (key ++ List.replicate padding noHash) = key := by
  have hall : ∀ b ∈ key, (b != noHash) = true := by
    intro b hb
    rw [bne_iff_ne]
    rintro rfl
    exact h.exact hb
  rw [keyOf, List.take_append, List.take_of_length_le h.length, List.take_replicate,
    List.takeWhile_append_of_pos hall]
  cases min (nameHashCount - key.length) padding with
  | zero => simp
  | succ n => simp [List.replicate_succ]

theorem IsKey.hashAt_eq {key : Bytes} (h : IsKey key) (i : Nat) : hashAt key i = key[i]? := by
  unfold hashAt
  cases hi : key[i]? with
  | none => rfl
  | some b =>
      have hne : b ≠ noHash := by
        rintro rfl
        exact h.exact (List.mem_of_getElem? hi)
      simp [Option.filter_some, hne]

theorem IsKey.leading {key : Bytes} (h : IsKey key) : Leading key := by
  intro i j hij _ hsome
  rw [h.hashAt_eq] at hsome ⊢
  have hlt : j < key.length := by simpa using hsome
  simpa using Nat.lt_of_le_of_lt hij hlt

theorem IsKey.fibPriority_eq {key : Bytes} (h : IsKey key) :
    fibPriority key = 2000 + key.length * 1000 := by
  rw [fibPriority, List.take_of_length_le h.length]
  have hall : ∀ b ∈ key, (b != noHash) = true := by
    intro b hb
    rw [bne_iff_ne]
    rintro rfl
    exact h.exact hb
  rw [List.filter_eq_self.mpr hall]

/-- Padding is invisible in every position. -/
theorem hashAt_padded (hs : Bytes) (padding i : Nat) :
    hashAt (hs ++ List.replicate padding noHash) i = hashAt hs i := by
  unfold hashAt
  by_cases hi : i < hs.length
  · rw [List.getElem?_append_left hi]
  · rw [List.getElem?_append_right (Nat.le_of_not_lt hi),
      List.getElem?_eq_none (Nat.le_of_not_lt hi), List.getElem?_replicate]
    split
    · simp [Option.filter_some]
    · rfl

theorem sameKey_padded (hs : Bytes) (padding : Nat) :
    SameKey (hs ++ List.replicate padding noHash) hs :=
  fun i _ => hashAt_padded hs padding i

theorem IsTuple.sameKey {hs : Bytes} (h : IsTuple hs) : SameKey hs (keyOf hs) := by
  obtain ⟨hashes, padding, hlength, hexact, rfl⟩ := h
  rw [keyOf_eq ⟨hlength, hexact⟩]
  exact sameKey_padded hashes padding

/-- Keys that the FIB does not tell apart are equal. -/
theorem IsKey.eq_of_sameKey {key key' : Bytes} (h : IsKey key) (h' : IsKey key')
    (hsame : SameKey key key') : key = key' := by
  refine List.ext_getElem? fun i => ?_
  by_cases hi : i < nameHashCount
  · rw [← h.hashAt_eq, ← h'.hashAt_eq]
    exact hsame i hi
  · rw [List.getElem?_eq_none (Nat.le_trans h.length (Nat.le_of_not_lt hi)),
      List.getElem?_eq_none (Nat.le_trans h'.length (Nat.le_of_not_lt hi))]

theorem SameKey.symm {hs hs' : Bytes} (h : SameKey hs hs') : SameKey hs' hs :=
  fun i hi => (h i hi).symm

theorem SameKey.trans {hs hs' hs'' : Bytes} (h : SameKey hs hs') (h' : SameKey hs' hs'') :
    SameKey hs hs'' :=
  fun i hi => (h i hi).trans (h' i hi)

/-- The entry of a tuple depends on its key only. -/
theorem SameKey.fibEntry_eq {hs hs' : Bytes} (h : SameKey hs hs') (port : Port) (expiry : Time)
    (source : Option (Name × Nat)) :
    fibEntry hs port expiry source = fibEntry hs' port expiry source := by
  rw [fibEntry, fibEntry, (fibMatchFields_eq_iff hs hs').mpr h, h.fibPriority_eq]

theorem SameKey.isFibEntryFor_eq {hs hs' : Bytes} (h : SameKey hs hs') :
    isFibEntryFor hs = isFibEntryFor hs' := by
  funext e
  rw [isFibEntryFor, isFibEntryFor, (fibMatchFields_eq_iff hs hs').mpr h, h.fibPriority_eq]

/-! ## The table after a history -/

/-- The last operation on a key. -/
def lastOn (key : Bytes) (history : List (EntrySort × FibOp)) : Option FibOp :=
  (history.map Prod.snd).reverse.find? fun op => keyOf op.nameHashes = key

theorem lastOn_append (key : Bytes) (history : List (EntrySort × FibOp))
    (call : EntrySort × FibOp) :
    lastOn key (history ++ [call]) =
      if keyOf call.2.nameHashes = key then some call.2 else lastOn key history := by
  rw [lastOn, List.map_append, List.reverse_append]
  by_cases hkey : keyOf call.2.nameHashes = key
  · simp [hkey]
  · simp [hkey, lastOn]

theorem isKey_of_lastOn {key : Bytes} {history : List (EntrySort × FibOp)} {op : FibOp}
    (h : lastOn key history = some op) : IsKey key := by
  have hkey : keyOf op.nameHashes = key := by
    simpa using List.find?_some h
  rw [← hkey]
  exact isKey_keyOf _

end SwitchPipeline

/-- The calls that a history may hold. -/
def FibOp.WellFormed : FibOp → Prop
  | .install nameHashes _ expiry => SwitchPipeline.IsTuple nameHashes ∧ 0 ≤ expiry
  | .remove nameHashes => SwitchPipeline.IsTuple nameHashes

theorem FibOp.WellFormed.isTuple {op : FibOp} (h : op.WellFormed) :
    SwitchPipeline.IsTuple op.nameHashes := by
  cases op with
  | install hs port expiry => exact h.1
  | remove hs => exact h

namespace SwitchPipeline

/-- What a history leaves in the FIB table. -/
structure Holds (history : List (EntrySort × FibOp)) (sw : SwitchPipeline) : Prop where
  isSwitch : IsSwitch sw
  entries : ∀ e, e ∈ sw.fib.entries ↔ e = dropEntry ∨ ∃ key hs port expiry,
    lastOn key history = some (.install hs port expiry) ∧ e = fibEntry key port expiry none

/-- The entries that a call on a tuple leaves alone. -/
theorem Holds.kept {history : List (EntrySort × FibOp)} {sw : SwitchPipeline}
    (h : Holds history sw) {hs : Bytes} (htuple : IsTuple hs) (e : FlowEntry) :
    (e ∈ sw.fib.entries ∧ e.matchFields ≠ fibMatchFields hs) ↔
      e = dropEntry ∨ ∃ key hs' port expiry, key ≠ keyOf hs ∧
        lastOn key history = some (.install hs' port expiry) ∧
        e = fibEntry key port expiry none := by
  rw [h.entries e]
  constructor
  · rintro ⟨rfl | ⟨key, hs', port, expiry, hlast, rfl⟩, hne⟩
    · exact Or.inl rfl
    · refine Or.inr ⟨key, hs', port, expiry, ?_, hlast, rfl⟩
      rintro rfl
      exact hne ((fibMatchFields_eq_iff _ hs).mpr htuple.sameKey.symm)
  · rintro (rfl | ⟨key, hs', port, expiry, hkey, hlast, rfl⟩)
    · exact ⟨Or.inl rfl, by simp [dropEntry, fibMatchFields]⟩
    · refine ⟨Or.inr ⟨key, hs', port, expiry, hlast, rfl⟩, fun heq => hkey ?_⟩
      have hsame : SameKey key hs := (fibMatchFields_eq_iff key hs).mp heq
      exact (isKey_of_lastOn hlast).eq_of_sameKey (isKey_keyOf hs) (hsame.trans htuple.sameKey)

/-- Removal takes exactly the entry of its tuple. -/
theorem FibInv.mem_removeIf {table : FlowTable} (h : FibInv table) {hs : Bytes}
    {e : FlowEntry} : e ∈ (table.removeIf (isFibEntryFor hs)).entries ↔
      e ∈ table.entries ∧ e.matchFields ≠ fibMatchFields hs := by
  rw [FlowTable.mem_removeIf]
  refine and_congr_right fun he => ?_
  rcases h.shape e he with rfl | ⟨hs', port', expiry', source', -, rfl⟩
  · rw [isFibEntryFor_dropEntry]
    simp [dropEntry, fibMatchFields]
  · rw [← Bool.not_eq_true, isFibEntryFor_fibEntry, ← fibMatchFields_eq_iff]
    rfl

theorem Holds.apply {history : List (EntrySort × FibOp)} {sw : SwitchPipeline}
    (h : Holds history sw) {call : EntrySort × FibOp} (hcall : call.2.WellFormed) :
    Holds (history ++ [call]) (call.2.apply call.1 sw) := by
  obtain ⟨std, op⟩ := call
  cases op with
  | install hs port expiry =>
      have htuple : IsTuple hs := hcall.isTuple
      have hlead : Leading hs := by
        intro i j hij hj hsome
        rw [htuple.sameKey j hj] at hsome
        rw [htuple.sameKey i (Nat.lt_of_le_of_lt hij hj)]
        exact (isKey_keyOf hs).leading i j hij hj hsome
      refine ⟨h.isSwitch.installFibEntry std hlead port expiry none, fun e => ?_⟩
      simp only [FibOp.apply]
      rw [h.isSwitch.fib_installFibEntry, h.isSwitch.fibInv.mem_installed, h.kept htuple,
        htuple.sameKey.fibEntry_eq]
      constructor
      · rintro ((rfl | ⟨key, hs', port', expiry', hkey, hlast, rfl⟩) | rfl)
        · exact Or.inl rfl
        · refine Or.inr ⟨key, hs', port', expiry', ?_, rfl⟩
          rw [lastOn_append]
          exact (if_neg (Ne.symm hkey)).trans hlast
        · refine Or.inr ⟨keyOf hs, hs, port, expiry, ?_, rfl⟩
          rw [lastOn_append]
          exact if_pos rfl
      · rintro (rfl | ⟨key, hs', port', expiry', hlast, rfl⟩)
        · exact Or.inl (Or.inl rfl)
        · rw [lastOn_append] at hlast
          split at hlast
          next hkey =>
            cases hlast
            exact Or.inr (by rw [← hkey]; rfl)
          next hkey =>
            exact Or.inl (Or.inr ⟨key, hs', port', expiry', Ne.symm hkey, hlast, rfl⟩)
  | remove hs =>
      have htuple : IsTuple hs := hcall.isTuple
      refine ⟨h.isSwitch.removeFibEntry hs, fun e => ?_⟩
      simp only [FibOp.apply]
      rw [h.isSwitch.fib_removeFibEntry, h.isSwitch.fibInv.mem_removeIf, h.kept htuple]
      refine or_congr_right ?_
      constructor
      · rintro ⟨key, hs', port', expiry', hkey, hlast, rfl⟩
        refine ⟨key, hs', port', expiry', ?_, rfl⟩
        rw [lastOn_append]
        exact (if_neg (Ne.symm hkey)).trans hlast
      · rintro ⟨key, hs', port', expiry', hlast, rfl⟩
        rw [lastOn_append] at hlast
        split at hlast
        next => cases hlast
        next hkey => exact ⟨key, hs', port', expiry', Ne.symm hkey, hlast, rfl⟩

/-- The table holds what its history says, whatever the sorts do. -/
theorem holds_afterOps (std : EntrySort) (history : List (EntrySort × FibOp))
    (hcalls : ∀ call ∈ history, call.2.WellFormed) : Holds history (afterOps std history) := by
  induction history using List.reverseRecOn with
  | nil =>
      refine ⟨isSwitch_initPipeline std, fun e => ?_⟩
      simp only [afterOps, List.foldl_nil]
      rw [fib_initPipeline]
      simp [lastOn]
  | append_singleton history call ih =>
      rw [afterOps_append]
      refine (ih fun c hc => hcalls c (List.mem_append_left _ hc)).apply ?_
      exact hcalls call (List.mem_append_right _ List.mem_cons_self)

/-! ## Lookups -/

/-- The port of a key, if its last operation is an installation that is lease-free or
not yet expired. -/
def portAt (history : List (EntrySort × FibOp)) (now : Time) (key : Bytes) : Option Port :=
  match lastOn key history with
  | some (.install _ port expiry) => if expiry = 0 ∨ now < expiry then some port else none
  | _ => none

theorem portAt_eq_some_iff {history : List (EntrySort × FibOp)} {now : Time} {key : Bytes}
    {port : Port} : portAt history now key = some port ↔ ∃ hs expiry,
      lastOn key history = some (.install hs port expiry) ∧ (expiry = 0 ∨ now < expiry) := by
  unfold portAt
  split
  next hs port' expiry hlast =>
    rw [hlast]
    split
    next hlive =>
      constructor
      · rintro ⟨⟩
        exact ⟨hs, expiry, rfl, hlive⟩
      · rintro ⟨hs', expiry', ⟨⟩, -⟩
        rfl
    next hexpired =>
      refine iff_of_false (by simp) ?_
      rintro ⟨hs', expiry', ⟨⟩, hlive⟩
      exact hexpired hlive
  next hother =>
    refine iff_of_false (by simp) ?_
    rintro ⟨hs, expiry, hlast, -⟩
    exact hother hs port expiry hlast

section Names

variable (stdHash : Bytes → Nat)

/-- The first `k` hashes of a name. -/
def prefixKey (name : Name) (k : Nat) : Bytes :=
  (name.take k).map (PacketHeader.computeComponentHash stdHash)

theorem isKey_prefixKey (name : Name) {k : Nat} (hk : k ≤ nameHashCount) :
    IsKey (prefixKey stdHash name k) where
  length := by
    rw [prefixKey, List.length_map, List.length_take]
    omega
  exact hmem := by
    obtain ⟨c, -, hc⟩ := List.mem_map.mp hmem
    exact PacketHeader.computeComponentHash_ne_noHash stdHash c hc

theorem length_prefixKey (name : Name) {k : Nat} (hk : k ≤ name.length) :
    (prefixKey stdHash name k).length = k := by
  rw [prefixKey, List.length_map, List.length_take]
  omega

/-- The keys that match the header of a name are its own prefixes. -/
theorem headerMatches_iff {name : Name} {header : PacketHeader}
    (hheader : header.nameHashes = PacketHeader.hashesOf stdHash name) {key : Bytes}
    (hkey : IsKey key) : HeaderMatches key header ↔
      key.length ≤ min nameHashCount name.length ∧ key = prefixKey stdHash name key.length := by
  have hat : ∀ i < nameHashCount, header.nameHashes[i]? =
      some ((name[i]?.map (PacketHeader.computeComponentHash stdHash)).getD noHash) := by
    intro i hi
    rw [hheader]
    exact PacketHeader.getElem?_hashesOf stdHash name hi
  constructor
  · intro hmatch
    -- every hash of the key is that of a component
    have hcomponent : ∀ (i : Nat) (b : UInt8), key[i]? = some b →
        name[i]?.map (PacketHeader.computeComponentHash stdHash) = some b := by
      intro i b hb
      have hi : i < nameHashCount :=
        Nat.lt_of_lt_of_le (List.getElem?_eq_some_iff.mp hb).1 hkey.length
      have hheaderAt := hmatch i hi b (by rw [hkey.hashAt_eq]; exact hb)
      rw [hat i hi, Option.some.injEq] at hheaderAt
      cases hname : name[i]? with
      | none =>
          rw [hname, Option.map_none, Option.getD_none] at hheaderAt
          exact absurd (hheaderAt ▸ List.mem_of_getElem? hb) hkey.exact
      | some c =>
          rw [hname, Option.map_some, Option.getD_some] at hheaderAt
          rw [Option.map_some, hheaderAt]
    have hlength : key.length ≤ name.length := by
      by_contra hlt
      have hin : name.length < key.length := Nat.lt_of_not_le hlt
      have hlast := hcomponent name.length key[name.length] (List.getElem?_eq_getElem hin)
      rw [List.getElem?_eq_none (Nat.le_refl _)] at hlast
      cases hlast
    refine ⟨Nat.le_min.mpr ⟨hkey.length, hlength⟩, List.ext_getElem? fun i => ?_⟩
    by_cases hi : i < key.length
    · rw [prefixKey, List.getElem?_map, List.getElem?_take_of_lt hi]
      rw [hcomponent i key[i] (List.getElem?_eq_getElem hi)]
      exact List.getElem?_eq_getElem hi
    · rw [List.getElem?_eq_none (Nat.le_of_not_lt hi), List.getElem?_eq_none]
      rw [length_prefixKey stdHash name hlength]
      exact Nat.le_of_not_lt hi
  · rintro ⟨-, heq⟩ i hi b hb
    rw [hkey.hashAt_eq, heq, prefixKey, List.getElem?_map] at hb
    obtain ⟨c, hc, rfl⟩ := Option.map_eq_some_iff.mp hb
    have hname : name[i]? = some c := by
      have hlt : i < key.length := by
        have hin := (List.getElem?_eq_some_iff.mp hc).1
        rw [List.length_take] at hin
        omega
      rw [List.getElem?_take_of_lt hlt] at hc
      exact hc
    rw [hat i hi, hname]
    rfl

end Names

theorem not_expired_iff {expiry now : Time} (h : 0 ≤ expiry) :
    ¬(0 < expiry ∧ expiry ≤ now) ↔ expiry = 0 ∨ now < expiry := by
  unfold Time at *
  omega

theorem nonneg_of_lastOn {key hs : Bytes} {port : Port} {expiry : Time}
    {history : List (EntrySort × FibOp)} (hcalls : ∀ call ∈ history, call.2.WellFormed)
    (h : lastOn key history = some (.install hs port expiry)) : 0 ≤ expiry := by
  have hmem := List.mem_reverse.mp (List.mem_of_find?_eq_some h)
  obtain ⟨call, hcall, heq⟩ := List.mem_map.mp hmem
  have hvalid := hcalls call hcall
  rw [heq] at hvalid
  exact hvalid.2

section Lookup

variable {stdHash : Bytes → Nat} {history : List (EntrySort × FibOp)} {sw : SwitchPipeline}
  {now : Time} {name : Name} {header : PacketHeader}

/-- What matches the header of a name: the default entry, and the live prefixes of the
name. -/
theorem Holds.matching (h : Holds history sw)
    (hcalls : ∀ call ∈ history, call.2.WellFormed)
    (hheader : header.nameHashes = PacketHeader.hashesOf stdHash name) {e : FlowEntry}
    (he : e ∈ sw.fib.entries) (hmatch : e.isMatch now header.serialize = true) :
    e = dropEntry ∨ ∃ k ≤ min nameHashCount name.length, ∃ port expiry,
      portAt history now (prefixKey stdHash name k) = some port ∧
      e = fibEntry (prefixKey stdHash name k) port expiry none := by
  rcases (h.entries e).mp he with rfl | ⟨key, hs, port, expiry, hlast, rfl⟩
  · exact Or.inl rfl
  · obtain ⟨hlive, hkey⟩ := (isMatch_fibEntry ..).mp hmatch
    obtain ⟨hle, heq⟩ := (headerMatches_iff stdHash hheader (isKey_of_lastOn hlast)).mp hkey
    refine Or.inr ⟨key.length, hle, port, expiry, ?_, by rw [← heq]⟩
    rw [← heq]
    exact portAt_eq_some_iff.mpr
      ⟨hs, expiry, hlast, (not_expired_iff (nonneg_of_lastOn hcalls hlast)).mp hlive⟩

/-- The longest live prefix is found. -/
theorem Holds.lookup_of_longest (h : Holds history sw)
    (hcalls : ∀ call ∈ history, call.2.WellFormed)
    (hheader : header.nameHashes = PacketHeader.hashesOf stdHash name) {k : Nat} {port : Port}
    (hk : k ≤ min nameHashCount name.length)
    (hport : portAt history now (prefixKey stdHash name k) = some port)
    (hlongest : ∀ j, k < j → j ≤ min nameHashCount name.length →
      portAt history now (prefixKey stdHash name j) = none) :
    ∃ expiry, sw.fib.lookup now header.serialize =
      some (fibEntry (prefixKey stdHash name k) port expiry none) := by
  obtain ⟨hs, expiry, hlast, hlive⟩ := portAt_eq_some_iff.mp hport
  have hlength : ∀ j ≤ min nameHashCount name.length,
      fibPriority (prefixKey stdHash name j) = 2000 + j * 1000 := by
    intro j hj
    obtain ⟨hcount, hname⟩ := Nat.le_min.mp hj
    rw [(isKey_prefixKey stdHash name hcount).fibPriority_eq, length_prefixKey stdHash name hname]
  have hkey := isKey_prefixKey stdHash name (Nat.le_min.mp hk).1
  have hmatch : HeaderMatches (prefixKey stdHash name k) header := by
    rw [headerMatches_iff stdHash hheader hkey, length_prefixKey stdHash name (Nat.le_min.mp hk).2]
    exact ⟨hk, rfl⟩
  refine ⟨expiry, h.isSwitch.fibInv.lookup_eq ?_ hkey.leading ?_ hmatch ?_⟩
  · exact (h.entries _).mpr (Or.inr ⟨_, hs, port, expiry, hlast, rfl⟩)
  · exact (not_expired_iff (nonneg_of_lastOn hcalls hlast)).mpr hlive
  · intro e he hem
    rcases h.matching hcalls hheader he hem with rfl | ⟨j, hj, port', expiry', hport', rfl⟩
    · exact Nat.zero_le _
    · have hjk : j ≤ k := by
        by_contra hlt
        rw [hlongest j (Nat.lt_of_not_le hlt) hj] at hport'
        cases hport'
      simp only [fibEntry, hlength j hj, hlength k hk]
      omega

/-- Without a live prefix the default entry is found. -/
theorem Holds.lookup_of_none (h : Holds history sw)
    (hcalls : ∀ call ∈ history, call.2.WellFormed)
    (hheader : header.nameHashes = PacketHeader.hashesOf stdHash name)
    (hnone : ∀ k ≤ min nameHashCount name.length,
      portAt history now (prefixKey stdHash name k) = none) :
    sw.fib.lookup now header.serialize = some dropEntry := by
  refine h.isSwitch.fibInv.sorted.lookup_eq h.isSwitch.fibInv.default rfl ?_
  intro e he hmatch _
  rcases h.matching hcalls hheader he hmatch with rfl | ⟨k, hk, port, expiry, hport, -⟩
  · rfl
  · rw [hnone k hk] at hport
    cases hport

/-- The diagnosis of an installed entry counts the hashes of its key. -/
theorem diagnose_fibEntry {key : Bytes} (h : IsKey key) (port : Port) (expiry : Time) :
    diagnose (fibEntry key port expiry none) = ⟨true, key.length, port⟩ := by
  have hexact : ∀ i, (!(hashField key i).wildcard) = decide (i < key.length) := by
    intro i
    rw [hashField_eq, h.hashAt_eq]
    by_cases hi : i < key.length
    · simp [matchNameHash, MatchField.exactly, hi]
    · simp [matchNameHashWildcard, MatchField.any, hi]
  have hcount : ∀ n ≤ nameHashCount,
      (List.range nameHashCount).countP (fun i => decide (i < n)) = n := by decide
  have hlength : ((fibMatchFields key).drop 1).countP (fun field => !field.wildcard) =
      key.length := by
    rw [fibMatchFields, List.drop_one, List.tail_cons, List.countP_map]
    simp only [Function.comp_def, hexact]
    exact hcount key.length h.length
  exact congrArg (fun n => (⟨true, n, port⟩ : FibLookupDiagnostic)) hlength

end Lookup

/-- The flow-table FIB is a longest-prefix map, for every history of calls and whatever
order the sorts leave: an Interest without a bitmap goes to the port of the last operation
on the longest live prefix of its hashes, and is dropped if no prefix is live.
`diagnoseFibLookup` reports the same port and length, padding is invisible, and the
default entry survives. -/
theorem longest_prefix_map (std : EntrySort) {history : List (EntrySort × FibOp)}
    (hcalls : ∀ call ∈ history, call.2.WellFormed) (stdHash : Bytes → Nat) (name : Name)
    (now : Time) {header : PacketHeader} (htype : header.type = PacketType.interest)
    (hmask : header.outPorts = 0)
    (hheader : header.nameHashes = PacketHeader.hashesOf stdHash name) :
    (∀ k port, k ≤ min nameHashCount name.length →
      portAt history now (prefixKey stdHash name k) = some port →
      (∀ j, k < j → j ≤ min nameHashCount name.length →
        portAt history now (prefixKey stdHash name j) = none) →
      SendsTo ((afterOps std history).processPacket now header) [port] ∧
        (afterOps std history).diagnoseFibLookup now header = some ⟨true, k, port⟩) ∧
    ((∀ k ≤ min nameHashCount name.length,
        portAt history now (prefixKey stdHash name k) = none) →
      SendsTo ((afterOps std history).processPacket now header) [] ∧
        (afterOps std history).diagnoseFibLookup now header = some ⟨false, 0, 0⟩) ∧
    (∀ hs padding, (∀ sort port expiry sw,
        installFibEntry sort (hs ++ List.replicate padding noHash) port expiry none sw =
          installFibEntry sort hs port expiry none sw) ∧
      ∀ sw, removeFibEntry (hs ++ List.replicate padding noHash) sw = removeFibEntry hs sw) ∧
    dropEntry ∈ (afterOps std history).fib.entries := by
  have hholds := holds_afterOps std history hcalls
  have hsends := hholds.isSwitch.hasTables.sendsTo_interest_fib header now htype hmask
  have hdiagnose : (afterOps std history).diagnoseFibLookup now header =
      some (((afterOps std history).fib.lookup now header.serialize).elim {} diagnose) := by
    obtain ⟨table, htable, -⟩ := hholds.isSwitch.fib
    simp only [diagnoseFibLookup, SwitchPipeline.fib, htable, Option.map_some, Option.getD_some]
    cases table.lookup now header.serialize with
    | none => rfl
    | some entry => rfl
  refine ⟨fun k port hk hport hlongest => ?_, fun hnone => ?_, fun hs padding => ?_,
    hholds.isSwitch.fibInv.default⟩
  · obtain ⟨expiry, hlookup⟩ := hholds.lookup_of_longest hcalls hheader hk hport hlongest
    have hkey := isKey_prefixKey stdHash name (Nat.le_min.mp hk).1
    constructor
    · simpa [fibPorts, hlookup, fibEntry] using hsends
    · rw [hdiagnose, hlookup, Option.elim_some, diagnose_fibEntry hkey,
        length_prefixKey stdHash name (Nat.le_min.mp hk).2]
  · have hlookup := hholds.lookup_of_none hcalls hheader hnone
    constructor
    · simpa [fibPorts, hlookup, dropEntry] using hsends
    · rw [hdiagnose, hlookup]
      rfl
  · have hsame := sameKey_padded hs padding
    have hremove : ∀ sw, removeFibEntry (hs ++ List.replicate padding noHash) sw =
        removeFibEntry hs sw := by
      intro sw
      rw [removeFibEntry, hsame.isFibEntryFor_eq]
      rfl
    refine ⟨fun sort port expiry sw => ?_, hremove⟩
    simp only [installFibEntry, hremove, hsame.fibEntry_eq]

/-- A route for one component, a longer one that is replaced in padded form, and one
that is removed again. -/
def sampleHistory : List (EntrySort × FibOp) :=
  [(.mergeSort, .install [0x61] 1 0), (.mergeSort, .install [0x61, 0x62] 32 0),
    (.mergeSort, .install [0x61, 0x62, 0xff, 0xff] 9 50),
    (.mergeSort, .install [0x61, 0x62, 0x63] 7 0), (.mergeSort, .remove [0x61, 0x62, 0x63])]

/-- The first octet as the hash. -/
def sampleHash (bytes : Bytes) : Nat := (bytes.headD 0).toNat

/-- An Interest for three components that has no bitmap yet. -/
def sampleHeader : PacketHeader :=
  (PacketHeader.ofName sampleHash
    [.generic [0x61], .generic [0x62], .generic [0x63]]).setType PacketType.interest

theorem wellFormed_sampleHistory : ∀ call ∈ sampleHistory, call.2.WellFormed := by
  simp only [sampleHistory, List.forall_mem_cons]
  refine ⟨⟨⟨[0x61], 0, by decide, by decide, rfl⟩, by decide⟩,
    ⟨⟨[0x61, 0x62], 0, by decide, by decide, rfl⟩, by decide⟩,
    ⟨⟨[0x61, 0x62], 2, by decide, by decide, rfl⟩, by decide⟩,
    ⟨⟨[0x61, 0x62, 0x63], 0, by decide, by decide, rfl⟩, by decide⟩,
    ⟨[0x61, 0x62, 0x63], 0, by decide, by decide, rfl⟩, by simp⟩

theorem longest_prefix_map_sampleHistory :
    SendsTo ((afterOps .mergeSort sampleHistory).processPacket 10 sampleHeader) [9] ∧
      (afterOps .mergeSort sampleHistory).diagnoseFibLookup 10 sampleHeader =
        some ⟨true, 2, 9⟩ := by
  have hheader : sampleHeader.nameHashes = PacketHeader.hashesOf sampleHash
      [.generic [0x61], .generic [0x62], .generic [0x63]] := rfl
  have hmap := (longest_prefix_map .mergeSort wellFormed_sampleHistory sampleHash _ 10 rfl rfl
    hheader).1
  refine hmap 2 9 (by decide) (by decide) fun j hlt hle => ?_
  obtain rfl : j = 3 := by
    have hthree : min nameHashCount 3 = 3 := rfl
    simp only [List.length_cons, List.length_nil] at hle
    omega
  decide

/-! ## Every header has one disposition -/

theorem hasTables_afterOps (std : EntrySort) (history : List (EntrySort × FibOp)) :
    HasTables (afterOps std history) := by
  induction history using List.reverseRecOn with
  | nil => exact (isSwitch_initPipeline std).hasTables
  | append_singleton history call ih =>
      rw [afterOps_append]
      obtain ⟨sort, op⟩ := call
      cases op with
      | install hs port expiry => exact ih.installFibEntry sort hs port expiry none
      | remove hs => exact ih.removeFibEntry hs

/-- The bitmap carries the ports 1 to 32 of a set and loses the others. -/
theorem maskPorts_encodeOutPortsMask_eq_filter (ports : Std.TreeSet Port) :
    maskPorts (encodeOutPortsMask ports.toList) =
      ports.toList.filter fun port => decide (1 ≤ port ∧ port ≤ 32) := by
  refine eq_of_pairwise_lt (pairwise_maskPorts _) ((pairwise_lt_toList ports).filter _) ?_
  intro port
  rw [mem_maskPorts_encodeOutPortsMask, List.mem_filter, decide_eq_true_eq]
  constructor
  · rintro ⟨hlo, hhi, hmem⟩
    exact ⟨hmem, hlo, hhi⟩
  · rintro ⟨hmem, hlo, hhi⟩
    exact ⟨hlo, hhi, hmem⟩

/-- Dispatch on the type octet, for every header and every history of the FIB: to the
stateful module, to the controller, by the FIB table, by the bitmap, or dropped.  Data that
carries an encoded port set goes to the ports of the set that the bitmap can hold. -/
theorem header_disposition (std : EntrySort) (history : List (EntrySort × FibOp)) (now : Time)
    (h : PacketHeader) :
    (h.type = PacketType.unprocessed →
      SendsTo ((afterOps std history).processPacket now h) [statefulModule]) ∧
    (h.type = PacketType.control →
      RaisesPacketIn ((afterOps std history).processPacket now h)) ∧
    (h.type = PacketType.selfLearningDiscovery ∨
        h.type = PacketType.interest ∧ h.outPorts = 0 →
      SendsTo ((afterOps std history).processPacket now h) ((afterOps std history).fibPorts now
        ((h.setType PacketType.interest).setOutPorts 0))) ∧
    ((h.type = PacketType.interest ∨ h.type = PacketType.data) ∧ h.outPorts ≠ 0 →
      maskPorts h.outPorts ≠ [] ∧
        SendsTo ((afterOps std history).processPacket now h) (maskPorts h.outPorts)) ∧
    (h.type = PacketType.data ∧ h.outPorts = 0 ∨ PacketType.isValid h.type = false →
      SendsTo ((afterOps std history).processPacket now h) []) ∧
    ∀ ports : Std.TreeSet Port,
      SendsTo ((afterOps std history).processPacket now
          ((h.setType PacketType.data).setOutPorts (encodeOutPortsMask ports.toList)))
        (ports.toList.filter fun port => decide (1 ≤ port ∧ port ≤ 32)) := by
  have hsw := hasTables_afterOps std history
  refine ⟨hsw.sendsTo_unprocessed h now, hsw.raisesPacketIn_control h now, ?_, ?_, ?_, ?_⟩
  · intro htype
    have hfib : (afterOps std history).fibPorts now
        ((h.setType PacketType.interest).setOutPorts 0) =
          (afterOps std history).fibPorts now h := hsw.fibPorts_congr now rfl
    rw [hfib]
    rcases htype with htype | ⟨htype, hmask⟩
    · exact hsw.sendsTo_selfLearningDiscovery h now htype
    · exact hsw.sendsTo_interest_fib h now htype hmask
  · rintro ⟨htype | htype, hmask⟩
    · exact ⟨mt maskPorts_eq_nil_iff.mp hmask, hsw.sendsTo_interest_mask h now htype hmask⟩
    · exact ⟨mt maskPorts_eq_nil_iff.mp hmask, hsw.sendsTo_data h now htype⟩
  · rintro (⟨htype, hmask⟩ | htype)
    · have hsends := hsw.sendsTo_data h now htype
      rwa [maskPorts_eq_nil_iff.mpr hmask] at hsends
    · exact hsw.sendsTo_of_unknown h now htype
  · intro ports
    rw [← maskPorts_encodeOutPortsMask_eq_filter]
    exact hsw.sendsTo_data _ now rfl

theorem header_disposition_sampleHistory :
    SendsTo ((afterOps .mergeSort sampleHistory).processPacket 10
      (sampleHeader.setOutPorts 0x80000001)) [1, 32] := by
  have hmask := (header_disposition .mergeSort sampleHistory 10
    (sampleHeader.setOutPorts 0x80000001)).2.2.2.1
  exact (hmask ⟨Or.inl rfl, by decide⟩).2

end SwitchPipeline

end Statim
