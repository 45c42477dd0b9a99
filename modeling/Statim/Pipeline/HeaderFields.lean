import Statim.Pipeline.HeaderCodec

/-!
# Reading and writing header fields

A match field reads bits and `SET_FIELD` writes octets of the same header.  Here the
fields have the widths that the source stores them in and every read of the buffer is
checked, so that the loop of `extractBits` is followed at the limits of its words; the
fields of the flow tables are their values.
-/

namespace Statim

open Support

/-- `MatchField` with its stored words. -/
structure StoredMatchField where
  offset : UInt16
  length : UInt16
  value : UInt32
  wildcard : Bool
deriving DecidableEq, Repr

namespace StoredMatchField

/-- One round of the loop of `extractBits`; `none` is a read outside the buffer. -/
def extractBit (buf : Bytes) (startBit numBits : UInt16) (result : UInt32) (i : Nat) :
    Option UInt32 := do
  let bitPos := startBit.toNat + i
  let byte ← buf[bitPos / 8]?
  let bitInByte := UInt8.ofNat (7 - bitPos % 8)
  if byte &&& (1 <<< bitInByte) ≠ 0 then
    return result ||| (1 <<< UInt32.ofNat (numBits.toNat - 1 - i))
  else return result

/-- `MatchField::extractBits`. -/
def extractBits (buf : Bytes) (startBit numBits : UInt16) : Option UInt32 :=
  (List.range numBits.toNat).foldlM (extractBit buf startBit numBits) 0

/-- `MatchField::matches`; a null buffer counts as an empty one. -/
def isMatch (field : StoredMatchField) (buf : Bytes) : Option Bool :=
  if field.length = 0 ∨ 32 < field.length then some false
  else
    let endBit := field.offset.toNat + field.length.toNat
    if buf.length < (endBit + 7) / 8 then some false
    else if field.wildcard then some true
    else (extractBits buf field.offset field.length).map fun bits => bits == field.value

/-- The field of the flow tables with the same values. -/
def toMatchField (field : StoredMatchField) : MatchField where
  offset := field.offset.toNat
  length := field.length.toNat
  value := field.value.toNat
  wildcard := field.wildcard

/-- The field lies inside the buffer. -/
def Fits (field : StoredMatchField) (buf : Bytes) : Prop :=
  field.offset.toNat + field.length.toNat ≤ 8 * buf.length

/-! ## The loop of `extractBits` -/

/-- Masking with a power of two tests a bit. -/
theorem and_shiftLeft_ne_zero (byte : UInt8) {k : Nat} (hk : k < 8) :
    byte &&& (1 <<< UInt8.ofNat k) ≠ 0 ↔ byte.toNat.testBit k = true := by
  have hlt : 2 ^ k < 2 ^ 8 := Nat.pow_lt_pow_right (by decide) hk
  have hshift : (1 <<< UInt8.ofNat k : UInt8).toNat = 2 ^ k := by
    rw [UInt8.toNat_shiftLeft, UInt8.toNat_ofNat', Nat.mod_eq_of_lt (show k < 2 ^ 8 by omega),
      Nat.mod_eq_of_lt hk, UInt8.toNat_one, Nat.one_shiftLeft, Nat.mod_eq_of_lt hlt]
  rw [ne_eq, ← UInt8.toNat_inj, UInt8.toNat_and, hshift, Nat.and_two_pow]
  cases byte.toNat.testBit k with
  | false => simp
  | true => simp

/-- Setting a bit of the word sets it in its value. -/
theorem toNat_or_shiftLeft (result : UInt32) {k : Nat} (hk : k < 32) :
    (result ||| (1 <<< UInt32.ofNat k)).toNat = result.toNat ||| (1 <<< k) := by
  have hlt : 2 ^ k < 2 ^ 32 := Nat.pow_lt_pow_right (by decide) hk
  rw [UInt32.toNat_or, UInt32.toNat_shiftLeft, UInt32.toNat_ofNat',
    Nat.mod_eq_of_lt (show k < 2 ^ 32 by omega), Nat.mod_eq_of_lt hk, UInt32.toNat_one,
    Nat.one_shiftLeft, Nat.mod_eq_of_lt hlt]

variable {buf : Bytes} {startBit numBits : UInt16}

/-- A read inside the buffer succeeds. -/
theorem extractBit_eq {i : Nat} (hi : startBit.toNat + i < 8 * buf.length) (result : UInt32) :
    extractBit buf startBit numBits result i =
      some (if MatchField.bitAt buf (startBit.toNat + i) then
        result ||| (1 <<< UInt32.ofNat (numBits.toNat - 1 - i)) else result) := by
  have hbyte : (startBit.toNat + i) / 8 < buf.length := by omega
  have hbit := and_shiftLeft_ne_zero buf[(startBit.toNat + i) / 8]
    (show 7 - (startBit.toNat + i) % 8 < 8 by omega)
  simp only [extractBit, MatchField.bitAt, List.getElem?_eq_getElem hbyte, Option.getD_some,
    Option.bind_eq_bind, Option.bind_some, hbit]
  split_ifs
  · rfl
  · rfl

/-- After `k` rounds the word holds the bits read so far. -/
theorem exists_foldlM_extractBit (hfits : startBit.toNat + numBits.toNat ≤ 8 * buf.length)
    (hshort : numBits.toNat ≤ 32) {k : Nat} (hk : k ≤ numBits.toNat) :
    ∃ bits, (List.range k).foldlM (extractBit buf startBit numBits) 0 = some bits ∧
      bits.toNat = (List.range k).foldl (fun result i =>
        if MatchField.bitAt buf (startBit.toNat + i) then
          result ||| (1 <<< (numBits.toNat - 1 - i)) else result) 0 := by
  induction k with
  | zero => exact ⟨0, rfl, rfl⟩
  | succ k ih =>
      obtain ⟨bits, hbits, hvalue⟩ := ih (Nat.le_of_succ_le hk)
      refine ⟨if MatchField.bitAt buf (startBit.toNat + k) then
        bits ||| (1 <<< UInt32.ofNat (numBits.toNat - 1 - k)) else bits, ?_, ?_⟩
      · rw [List.range_succ, List.foldlM_append, hbits]
        simp only [Option.bind_eq_bind, Option.bind_some, List.foldlM_cons, List.foldlM_nil]
        rw [extractBit_eq (by omega)]
        rfl
      · rw [List.range_succ, List.foldl_append, List.foldl_cons, List.foldl_nil, ← hvalue]
        split_ifs
        · exact toNat_or_shiftLeft bits (by omega)
        · rfl

/-- The loop stays inside the buffer and computes the number of the slice. -/
theorem exists_extractBits (hfits : startBit.toNat + numBits.toNat ≤ 8 * buf.length)
    (hshort : numBits.toNat ≤ 32) :
    ∃ bits, extractBits buf startBit numBits = some bits ∧
      bits.toNat = MatchField.extractBits buf startBit.toNat numBits.toNat :=
  exists_foldlM_extractBit hfits hshort (Nat.le_refl _)

/-! ## Matching -/

variable {field : StoredMatchField}

theorem length_eq_zero_iff : field.length = 0 ↔ field.length.toNat = 0 :=
  UInt16.toNat_inj.symm

theorem lt_length_iff : 32 < field.length ↔ 32 < field.length.toNat :=
  UInt16.lt_iff_toNat_lt

theorem not_fits_iff :
    ¬field.Fits buf ↔ buf.length < (field.offset.toNat + field.length.toNat + 7) / 8 := by
  rw [Fits]
  omega

/-- Matching never reads outside the buffer, and gives the answer of the flow tables. -/
theorem isMatch_eq (field : StoredMatchField) (buf : Bytes) :
    field.isMatch buf = some (field.toMatchField.isMatch buf) := by
  rw [isMatch, MatchField.isMatch]
  simp only [length_eq_zero_iff, lt_length_iff]
  by_cases hlength : field.length.toNat = 0 ∨ 32 < field.length.toNat
  · rw [if_pos hlength]
    exact congrArg some (if_pos hlength).symm
  rw [if_neg hlength]
  refine Eq.trans ?_ (congrArg some (if_neg hlength).symm)
  by_cases houtside : buf.length < (field.offset.toNat + field.length.toNat + 7) / 8
  · rw [if_pos houtside]
    exact congrArg some (if_pos houtside).symm
  rw [if_neg houtside]
  refine Eq.trans ?_ (congrArg some (if_neg houtside).symm)
  by_cases hwildcard : field.wildcard = true
  · rw [if_pos hwildcard]
    exact congrArg some (if_pos hwildcard).symm
  rw [if_neg hwildcard]
  refine Eq.trans ?_ (congrArg some (if_neg hwildcard).symm)
  have hfits : field.Fits buf := by
    by_contra hnot
    exact houtside (not_fits_iff.mp hnot)
  obtain ⟨bits, hbits, hvalue⟩ := exists_extractBits hfits (by omega)
  rw [hbits, Option.map_some]
  refine congrArg some ?_
  rw [Bool.eq_iff_iff, beq_iff_eq, beq_iff_eq, ← UInt32.toNat_inj, hvalue]
  rfl

/-- A field of another width, or outside the buffer, never matches. -/
theorem isMatch_of_not_fits
    (h : field.length = 0 ∨ 32 < field.length ∨ ¬field.Fits buf) :
    field.isMatch buf = some false := by
  rw [not_fits_iff] at h
  rcases h with h | h | h
  · rw [isMatch, if_pos (Or.inl h)]
  · rw [isMatch, if_pos (Or.inr h)]
  · by_cases hlength : field.length = 0 ∨ 32 < field.length
    · rw [isMatch, if_pos hlength]
    · rw [isMatch, if_neg hlength]
      exact if_pos h

/-- Inside the buffer, a field that is no wildcard matches the number of its slice. -/
theorem isMatch_iff (hzero : field.length ≠ 0) (hshort : field.length ≤ 32)
    (hfits : field.Fits buf) (hwildcard : field.wildcard = false) :
    field.isMatch buf = some true ↔
      field.value.toNat = slice buf field.offset.toNat field.length.toNat := by
  have hwide : ¬(field.length = 0 ∨ 32 < field.length) := by
    rintro (hlength | hlength)
    · exact hzero hlength
    · exact absurd hshort (UInt16.not_le.mpr hlength)
  have hinside : ¬buf.length < (field.offset.toNat + field.length.toNat + 7) / 8 :=
    fun h => not_fits_iff.mpr h hfits
  obtain ⟨bits, hbits, hvalue⟩ := exists_extractBits hfits (UInt16.le_iff_toNat_le.mp hshort)
  rw [PacketHeader.extractBits_eq_slice hfits] at hvalue
  simp only [isMatch, if_neg hwide, if_neg hinside, hwildcard, hbits, Bool.false_eq_true,
    if_false, Option.map_some, Option.some.injEq, beq_iff_eq]
  rw [← hvalue, UInt32.toNat_inj, eq_comm]

end StoredMatchField

/-! ## Writing -/

/-- The `SET_FIELD` branch of `process`; `none` is a rejected action. -/
def setField (off len : UInt16) (value header : Bytes) : Option Bytes :=
  if header.length < off.toNat ∨ header.length - off.toNat < len.toNat ∨
      value.length < len.toNat then none
  else some (overwrite header off.toNat len.toNat value)

/-- The action loop writes the field, or drops the packet with its header unchanged. -/
theorem runActions_setField (off len : UInt16) (value : Bytes) (rest : List FlowAction)
    (next : Option Nat) (r : PipelineResult) :
    runActions (.setField off.toNat len.toNat value :: rest) next r =
      match setField off len value r.modifiedHeader with
      | none => .returned { r with dropped := true, outputPorts := ∅ }
      | some header => runActions rest next { r with modifiedHeader := header } := by
  rw [runActions, setField]
  split_ifs
  · rfl
  · rfl

variable {off len : UInt16} {value header written : Bytes}

theorem setField_isSome_iff :
    (∃ written, setField off len value header = some written) ↔
      off.toNat + len.toNat ≤ header.length ∧ len.toNat ≤ value.length := by
  rw [setField]
  split_ifs with h
  · refine iff_of_false (fun hsome => ?_) (by omega)
    obtain ⟨written, hwritten⟩ := hsome
    cases hwritten
  · exact iff_of_true ⟨_, rfl⟩ (by omega)

/-- What an accepted action writes. -/
structure Writes (off len : Nat) (value header written : Bytes) : Prop where
  length : written.length = header.length
  inside : ∀ i, off ≤ i → i < off + len → written[i]? = value[i - off]?
  outside : ∀ i, (i < off ∨ off + len ≤ i) → written[i]? = header[i]?

theorem writes_overwrite {off len : Nat} (hroom : off + len ≤ header.length)
    (hvalue : len ≤ value.length) :
    Writes off len value header (overwrite header off len value) := by
  have hbefore : (header.take off).length = off := by
    rw [List.length_take]
    omega
  have hfield : (value.take len).length = len := by
    rw [List.length_take]
    omega
  refine ⟨?_, fun i hlow hhigh => ?_, fun i hi => ?_⟩
  · rw [overwrite, List.length_append, List.length_append, hbefore, hfield, List.length_drop]
    omega
  · rw [overwrite, List.append_assoc, List.getElem?_append_right (by rwa [hbefore]), hbefore,
      List.getElem?_append_left (by rw [hfield]; omega), List.getElem?_take_of_lt (by omega)]
  · rcases hi with hi | hi
    · rw [overwrite, List.append_assoc, List.getElem?_append_left (by rwa [hbefore]),
        List.getElem?_take_of_lt hi]
    · have hpast : (header.take off ++ value.take len).length ≤ i := by
        rw [List.length_append, hbefore, hfield]
        exact hi
      rw [overwrite, List.getElem?_append_right hpast, List.length_append, hbefore, hfield,
        List.getElem?_drop]
      congr 1
      omega

theorem writes_of_setField (h : setField off len value header = some written) :
    Writes off.toNat len.toNat value header written := by
  obtain ⟨hroom, hvalue⟩ := setField_isSome_iff.mp ⟨written, h⟩
  have hwrites := writes_overwrite hroom hvalue
  rw [setField, if_neg (by omega)] at h
  exact Option.some.inj h ▸ hwrites

namespace StoredMatchField

variable {field : StoredMatchField}

/-- A field that no written octet belongs to keeps its answer. -/
theorem isMatch_of_disjoint {off len : Nat} (h : Writes off len value header written)
    (hdisjoint : ∀ pos, field.offset.toNat ≤ pos →
      pos < field.offset.toNat + field.length.toNat → ¬(8 * off ≤ pos ∧ pos < 8 * (off + len))) :
    field.isMatch written = field.isMatch header := by
  have hbits : ∀ pos, field.offset.toNat ≤ pos →
      pos < field.offset.toNat + field.length.toNat →
        MatchField.bitAt written pos = MatchField.bitAt header pos := by
    intro pos hlow hhigh
    have hout := hdisjoint pos hlow hhigh
    rw [MatchField.bitAt, MatchField.bitAt, h.outside (pos / 8) (by omega)]
  have hextract : MatchField.extractBits written field.offset.toNat field.length.toNat =
      MatchField.extractBits header field.offset.toNat field.length.toNat := by
    refine Nat.eq_of_testBit_eq fun j => ?_
    rw [MatchField.testBit_extractBits, MatchField.testBit_extractBits, decide_eq_decide]
    refine and_congr_right fun hj => ?_
    rw [hbits _ (by omega) (by omega)]
  have hanswer : field.toMatchField.isMatch written = field.toMatchField.isMatch header := by
    rw [MatchField.isMatch, MatchField.isMatch, h.length]
    simp only [toMatchField, hextract]
    rfl
  rw [isMatch_eq, isMatch_eq, hanswer]

/-- The slice of the written octets is the number of the value. -/
theorem slice_of_setField (h : setField off len value header = some written) :
    slice written (8 * off.toNat) (8 * len.toNat) =
      Component.bigEndian (value.take len.toNat) := by
  obtain ⟨hroom, hvalue⟩ := setField_isSome_iff.mp ⟨written, h⟩
  have hslice := slice_octets (header.take off.toNat) (value.take len.toNat)
    (header.drop (off.toNat + len.toNat))
  rw [List.length_take, List.length_take, Nat.min_eq_left (by omega),
    Nat.min_eq_left hvalue] at hslice
  rw [setField, if_neg (by omega)] at h
  exact Option.some.inj h ▸ hslice

/-- A field on the written octets matches exactly their value. -/
theorem isMatch_iff_of_setField (h : setField off len value header = some written)
    (hlow : 1 ≤ len.toNat) (hhigh : len.toNat ≤ 4) (hoffset : field.offset.toNat = 8 * off.toNat)
    (hlength : field.length.toNat = 8 * len.toNat) (hwildcard : field.wildcard = false) :
    field.isMatch written = some true ↔
      field.value.toNat = Component.bigEndian (value.take len.toNat) := by
  obtain ⟨hroom, -⟩ := setField_isSome_iff.mp ⟨written, h⟩
  have hzero : field.length ≠ 0 := by
    rw [ne_eq, length_eq_zero_iff]
    omega
  have hshort : field.length ≤ 32 := by
    rw [UInt16.le_iff_toNat_le]
    exact hlength ▸ (by omega : 8 * len.toNat ≤ 32)
  have hfits : field.Fits written := by
    rw [Fits, (writes_of_setField h).length]
    omega
  rw [isMatch_iff hzero hshort hfits hwildcard, hoffset, hlength, slice_of_setField h]

end StoredMatchField

/-! ## One header -/

/-- Bits that are matched and octets that are written describe the same header.  Matching
reads inside the buffer and compares the big-endian number of the slice; a `SET_FIELD` is
accepted if it fits, a rejected one changes nothing, and an accepted one changes its octets,
which a match field then reads as the value, and no other field. -/
theorem header_fields :
    (∀ (field : StoredMatchField) (buf : Bytes), ∃ answer, field.isMatch buf = some answer ∧
      (field.length = 0 ∨ 32 < field.length ∨ ¬field.Fits buf → answer = false) ∧
      (field.length ≠ 0 → field.length ≤ 32 → field.Fits buf → field.wildcard = false →
        (answer = true ↔
          field.value.toNat = slice buf field.offset.toNat field.length.toNat))) ∧
    ∀ (off len : UInt16) (value : Bytes) (rest : List FlowAction) (next : Option Nat)
        (r : PipelineResult),
      ((∃ written, setField off len value r.modifiedHeader = some written) ↔
        off.toNat + len.toNat ≤ r.modifiedHeader.length ∧ len.toNat ≤ value.length) ∧
      (setField off len value r.modifiedHeader = none →
        runActions (.setField off.toNat len.toNat value :: rest) next r =
          .returned { r with dropped := true, outputPorts := ∅ }) ∧
      ∀ written, setField off len value r.modifiedHeader = some written →
        runActions (.setField off.toNat len.toNat value :: rest) next r =
          runActions rest next { r with modifiedHeader := written } ∧
        Writes off.toNat len.toNat value r.modifiedHeader written ∧
        (∀ field : StoredMatchField, 1 ≤ len.toNat → len.toNat ≤ 4 →
          field.offset.toNat = 8 * off.toNat → field.length.toNat = 8 * len.toNat →
          field.wildcard = false →
            (field.isMatch written = some true ↔
              field.value.toNat = Component.bigEndian (value.take len.toNat))) ∧
        ∀ field : StoredMatchField,
          (∀ pos, field.offset.toNat ≤ pos → pos < field.offset.toNat + field.length.toNat →
            ¬(8 * off.toNat ≤ pos ∧ pos < 8 * (off.toNat + len.toNat))) →
          field.isMatch written = field.isMatch r.modifiedHeader := by
  refine ⟨fun field buf => ?_, fun off len value rest next r => ⟨setField_isSome_iff, ?_, ?_⟩⟩
  · refine ⟨_, StoredMatchField.isMatch_eq field buf, fun h => ?_, fun hzero hshort hfits hw => ?_⟩
    · have hanswer := StoredMatchField.isMatch_of_not_fits h
      rw [StoredMatchField.isMatch_eq] at hanswer
      exact Option.some.inj hanswer
    · have hanswer := StoredMatchField.isMatch_iff hzero hshort hfits hw
      rw [StoredMatchField.isMatch_eq, Option.some.injEq] at hanswer
      exact hanswer
  · intro hrejected
    rw [runActions_setField, hrejected]
  · intro written hwritten
    refine ⟨?_, writes_of_setField hwritten, fun field hlow hhigh => ?_, fun field => ?_⟩
    · rw [runActions_setField, hwritten]
    · exact StoredMatchField.isMatch_iff_of_setField hwritten hlow hhigh
    · exact StoredMatchField.isMatch_of_disjoint (writes_of_setField hwritten)

end Statim
