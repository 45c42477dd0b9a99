import Statim.Pipeline.FlowTable
import Statim.Pipeline.PacketHeader
import Statim.Support.Bits

/-!
# The header codec

`Serialize` and `Deserialize` go through an `ns3::Buffer::Iterator`, at any position
of a buffer.  Writer, reader and the bit offsets of the match fields are three
descriptions of one layout; this module shows that they agree, and what is left of a
header when reading fails.
-/

namespace Statim

open Support

/-- `ns3::Buffer::Iterator`: the octets before its position and those from there on. -/
structure BufferIterator where
  before : Bytes
  rest : Bytes
deriving DecidableEq, Repr

namespace BufferIterator

/-- The whole buffer. -/
def buffer (it : BufferIterator) : Bytes := it.before ++ it.rest

def isEnd (it : BufferIterator) : Bool := it.rest.isEmpty

def next (it : BufferIterator) : BufferIterator :=
  ⟨it.before ++ it.rest.take 1, it.rest.drop 1⟩

def readU8 (it : BufferIterator) : UInt8 × BufferIterator := (it.rest.headD 0, it.next)

/-- `count` calls of `ReadU8`. -/
def readU8s : Nat → BufferIterator → Bytes × BufferIterator
  | 0, it => ([], it)
  | count + 1, it =>
    let rest := readU8s count it.readU8.2
    (it.readU8.1 :: rest.1, rest.2)

def readNtohU16 (it : BufferIterator) : UInt16 × BufferIterator :=
  let octets := it.readU8s 2
  (UInt16.ofNat (Component.bigEndian octets.1), octets.2)

def readNtohU32 (it : BufferIterator) : UInt32 × BufferIterator :=
  let octets := it.readU8s 4
  (UInt32.ofNat (Component.bigEndian octets.1), octets.2)

def writeU8 (value : UInt8) (it : BufferIterator) : BufferIterator :=
  ⟨it.before ++ [value], it.rest.drop 1⟩

/-- `WriteU8` for one octet after the other. -/
def writeU8s (values : Bytes) (it : BufferIterator) : BufferIterator :=
  values.foldl (fun it value => it.writeU8 value) it

def writeHtonU16 (value : UInt16) (it : BufferIterator) : BufferIterator :=
  it.writeU8s [UInt8.ofNat (value.toNat >>> 8), UInt8.ofNat value.toNat]

def writeHtonU32 (value : UInt32) (it : BufferIterator) : BufferIterator :=
  it.writeU8s ([24, 16, 8, 0].map fun shift => UInt8.ofNat (value.toNat >>> shift))

theorem writeU8s_eq (values : Bytes) (it : BufferIterator) :
    it.writeU8s values = ⟨it.before ++ values, it.rest.drop values.length⟩ := by
  induction values generalizing it with
  | nil => simp [writeU8s]
  | cons value values ih =>
      have hstep : it.writeU8s (value :: values) = (it.writeU8 value).writeU8s values := rfl
      rw [hstep, ih]
      simp [writeU8]

theorem length_readU8s (count : Nat) (it : BufferIterator) :
    (it.readU8s count).1.length = count := by
  induction count generalizing it with
  | zero => rfl
  | succ count ih => rw [readU8s, List.length_cons, ih]

end BufferIterator

/-! ## Bit offsets -/

namespace StatimField

def typeOffset : Nat := 0
def typeLength : Nat := 8
def outPortsOffset : Nat := 8
def outPortsLength : Nat := 32
def inPortOffset : Nat := 40
def inPortLength : Nat := 16
def nameHashBaseOffset : Nat := 56
def nameHashLength : Nat := 8
def switchIdOffset : Nat := 88
def switchIdLength : Nat := 8

/-- `nameHashOffset`; `none` is the `std::out_of_range` it throws. -/
def nameHashOffset (idx : Nat) : Option Nat :=
  if 4 ≤ idx then none else some (nameHashBaseOffset + idx * nameHashLength)

end StatimField

namespace PacketHeader

open StatimField

variable {h old : PacketHeader} {it : BufferIterator}

/-! ## Writing and reading -/

theorem length_noHashes : (List.replicate nameHashCount noHash).length = nameHashCount :=
  List.length_replicate

/-- `clear`. -/
def clear (_ : PacketHeader) : PacketHeader where
  type := PacketType.unprocessed
  outPorts := 0
  packetInPort := 0
  nameHashes := List.replicate nameHashCount noHash
  switchId := 0
  nameHashes_length := length_noHashes

/-- `isValid`. -/
def isValid (h : PacketHeader) : Bool :=
  PacketType.isValid h.type && h.nameHashes.length == nameHashCount

/-- `Serialize`, at a position of a buffer. -/
def serializeAt (h : PacketHeader) (start : BufferIterator) : BufferIterator :=
  ((((start.writeU8 h.type).writeHtonU32 h.outPorts).writeHtonU16 h.packetInPort).writeU8s
    h.nameHashes).writeU8 h.switchId

/-- The loop of `Deserialize` that probes for the octets it needs. -/
def probe : Nat → BufferIterator → Bool
  | 0, _ => true
  | count + 1, it => if it.isEnd then false else probe count it.next

/-- `Deserialize` on a header that holds `old`: the number of octets consumed and what
the header holds then. -/
def deserializeAt (start : BufferIterator) (old : PacketHeader) : Nat × PacketHeader :=
  let h := old.clear
  if !probe serializedSize start then (0, h)
  else
    let type := start.readU8
    let h := h.setType type.1
    if !PacketType.isValid type.1 then (0, h)
    else
      let outPorts := type.2.readNtohU32
      let packetInPort := outPorts.2.readNtohU16
      let hashes := packetInPort.2.readU8s nameHashCount
      let switchId := hashes.2.readU8
      (serializedSize,
        { h with
          outPorts := outPorts.1
          packetInPort := packetInPort.1
          nameHashes := hashes.1
          switchId := switchId.1
          nameHashes_length := BufferIterator.length_readU8s _ _ })

theorem clear_eq_empty (h : PacketHeader) : h.clear = empty := rfl

theorem probe_eq (count : Nat) (it : BufferIterator) :
    probe count it = decide (count ≤ it.rest.length) := by
  induction count generalizing it with
  | zero => simp [probe]
  | succ count ih =>
      obtain ⟨before, rest⟩ := it
      cases rest with
      | nil => simp [probe, BufferIterator.isEnd]
      | cons b rest => simp [probe, BufferIterator.isEnd, BufferIterator.next, ih]

/-- Writing replaces twelve octets by those of the header. -/
theorem serializeAt_eq (h : PacketHeader) (it : BufferIterator) :
    h.serializeAt it = ⟨it.before ++ h.serialize, it.rest.drop serializedSize⟩ := by
  have hlength := h.nameHashes_length
  simp [serializeAt, BufferIterator.writeHtonU32, BufferIterator.writeHtonU16,
    BufferIterator.writeU8s_eq, BufferIterator.writeU8, serialize, octet, hlength,
    nameHashCount, serializedSize]

/-- Twelve octets make a header. -/
theorem exists_fields {bytes : Bytes} (h : serializedSize ≤ bytes.length) :
    ∃ type o0 o1 o2 o3 p0 p1 h0 h1 h2 h3 switchId rest, bytes =
      type :: o0 :: o1 :: o2 :: o3 :: p0 :: p1 :: h0 :: h1 :: h2 :: h3 :: switchId :: rest := by
  match bytes, h with
  | type :: o0 :: o1 :: o2 :: o3 :: p0 :: p1 :: h0 :: h1 :: h2 :: h3 :: switchId :: rest, _ =>
    exact ⟨type, o0, o1, o2, o3, p0, p1, h0, h1, h2, h3, switchId, rest, rfl⟩
  | [], h | [_], h | [_, _], h | [_, _, _], h | [_, _, _, _], h | [_, _, _, _, _], h
  | [_, _, _, _, _, _], h | [_, _, _, _, _, _, _], h | [_, _, _, _, _, _, _, _], h
  | [_, _, _, _, _, _, _, _, _], h | [_, _, _, _, _, _, _, _, _, _], h
  | [_, _, _, _, _, _, _, _, _, _, _], h => exact absurd h (by simp [serializedSize])

theorem deserialize_of_short {bytes : Bytes} (h : bytes.length < serializedSize) :
    deserialize bytes = none := by
  unfold deserialize
  split
  next =>
    simp only [List.length_cons, serializedSize] at h
    omega
  next => rfl

/-- Reading depends on the octets from the position on. -/
theorem deserializeAt_eq (it : BufferIterator) (old : PacketHeader) :
    deserializeAt it old =
      match deserialize it.rest with
      | some h => (serializedSize, h)
      | none => (0, if it.rest.length < serializedSize then empty
          else empty.setType (it.rest.headD 0)) := by
  by_cases hshort : it.rest.length < serializedSize
  · have hprobe : probe serializedSize it = false := by
      rw [probe_eq, decide_eq_false_iff_not]
      omega
    simp [deserializeAt, hprobe, deserialize_of_short hshort, hshort, clear_eq_empty]
  · have hprobe : probe serializedSize it = true := by
      rw [probe_eq, decide_eq_true_eq]
      omega
    obtain ⟨before, rest⟩ := it
    obtain ⟨type, o0, o1, o2, o3, p0, p1, h0, h1, h2, h3, switchId, rest, rfl⟩ :=
      exists_fields (Nat.le_of_not_lt hshort)
    simp only [deserializeAt, hprobe, deserialize, BufferIterator.readU8, List.headD_cons]
    by_cases hvalid : PacketType.isValid type = true
    · simp [hvalid, BufferIterator.readNtohU32, BufferIterator.readNtohU16,
        BufferIterator.readU8s, BufferIterator.readU8, BufferIterator.next,
        Component.bigEndian, nameHashCount, setType]
    · have hlong : ¬(type :: o0 :: o1 :: o2 :: o3 :: p0 :: p1 :: h0 :: h1 :: h2 :: h3 ::
          switchId :: rest).length < serializedSize := hshort
      simp only [hvalid, clear_eq_empty, if_neg hlong, Bool.not_true, Bool.not_false,
        Bool.false_eq_true, if_true, if_false]

/-! ## Round trips -/

theorem bigEndian_octets (word : UInt32) :
    Component.bigEndian [octet word 0, octet word 1, octet word 2, octet word 3] =
      word.toNat := by
  have hlt := UInt32.toNat_lt word
  simp only [Component.bigEndian, octet, List.foldl_cons, List.foldl_nil, UInt8.toNat_ofNat',
    Nat.shiftRight_eq_div_pow]
  omega

theorem bigEndian_pair (word : UInt16) :
    Component.bigEndian [UInt8.ofNat (word.toNat >>> 8), UInt8.ofNat word.toNat] =
      word.toNat := by
  have hlt := UInt16.toNat_lt word
  simp only [Component.bigEndian, List.foldl_cons, List.foldl_nil, UInt8.toNat_ofNat',
    Nat.shiftRight_eq_div_pow]
  omega

/-- What was written is read again. -/
theorem deserialize_serialize (hvalid : h.isValid = true) (rest : Bytes) :
    deserialize (h.serialize ++ rest) = some h := by
  obtain ⟨type, outPorts, packetInPort, nameHashes, switchId, hlength⟩ := h
  rw [isValid, Bool.and_eq_true] at hvalid
  match nameHashes, hlength with
  | [h0, h1, h2, h3], hlength =>
      have hword := bigEndian_octets outPorts
      have hpair := bigEndian_pair packetInPort
      simp only [Component.bigEndian, List.foldl_cons, List.foldl_nil, Nat.zero_mul,
        Nat.zero_add] at hword hpair
      simp only [serialize, List.cons_append, List.nil_append, deserialize, if_pos hvalid.1,
        hword, hpair, UInt32.ofNat_toNat, UInt16.ofNat_toNat]

/-- Reading an accepted header and writing it again gives the same octets. -/
theorem serialize_deserialize {bytes : Bytes} (hread : deserialize bytes = some h) :
    h.serialize = bytes.take serializedSize := by
  unfold deserialize at hread
  split at hread
  next type o0 o1 o2 o3 p0 p1 h0 h1 h2 h3 switchId rest =>
    split at hread
    · obtain rfl := Option.some.inj hread
      have h0 := UInt8.toNat_lt o0
      have h1 := UInt8.toNat_lt o1
      have h2 := UInt8.toNat_lt o2
      have h3 := UInt8.toNat_lt o3
      have h4 := UInt8.toNat_lt p0
      have h5 := UInt8.toNat_lt p1
      simp only [serialize, octet, serializedSize, List.cons_append, List.nil_append,
        List.take_succ_cons, List.take_zero, List.cons.injEq, ← UInt8.toNat_inj,
        UInt8.toNat_ofNat', UInt16.toNat_ofNat', UInt32.toNat_ofNat', Nat.shiftRight_eq_div_pow,
        true_and, and_true]
      omega
    · cases hread
  next => cases hread

theorem isValid_type_iff (type : UInt8) :
    PacketType.isValid type = true ↔ type ∈ ([0, 1, 2, 3, 5] : List UInt8) := by
  simp [PacketType.isValid, or_assoc]

/-- At least twelve octets follow, and the first one is a known type. -/
def HoldsHeader (it : BufferIterator) : Prop :=
  serializedSize ≤ it.rest.length ∧
    ∃ type ∈ ([0, 1, 2, 3, 5] : List UInt8), it.rest.head? = some type

theorem exists_deserialize_iff (it : BufferIterator) :
    (∃ h, deserialize it.rest = some h) ↔ HoldsHeader it := by
  obtain ⟨before, rest⟩ := it
  by_cases hshort : rest.length < serializedSize
  · simp only [HoldsHeader, deserialize_of_short hshort]
    constructor
    · rintro ⟨h, hread⟩
      cases hread
    · rintro ⟨hlong, -⟩
      exact absurd hshort (Nat.not_lt.mpr hlong)
  · have hlong := Nat.le_of_not_lt hshort
    obtain ⟨type, o0, o1, o2, o3, p0, p1, h0, h1, h2, h3, switchId, rest, rfl⟩ :=
      exists_fields hlong
    simp only [HoldsHeader, deserialize, List.head?_cons, Option.some.injEq, exists_eq_right',
      ← isValid_type_iff]
    by_cases hvalid : PacketType.isValid type = true
    · simpa [hvalid] using hlong
    · simp [hvalid]

/-! ## The layout -/

theorem extractBits_eq_slice {bytes : Bytes} {start count : Nat}
    (hfits : start + count ≤ 8 * bytes.length) :
    MatchField.extractBits bytes start count = slice bytes start count := by
  refine Nat.eq_of_testBit_eq fun j => ?_
  rw [MatchField.testBit_extractBits, testBit_slice hfits, getElem?_bitsOf, MatchField.bitAt]
  cases bytes[(start + (count - 1 - j)) / 8]? with
  | none => simp
  | some b => simp

/-- The slices of the twelve octets at the offsets of the match fields. -/
theorem slice_serialize (h : PacketHeader) :
    slice h.serialize typeOffset typeLength = h.type.toNat ∧
      slice h.serialize outPortsOffset outPortsLength = h.outPorts.toNat ∧
      slice h.serialize inPortOffset inPortLength = h.packetInPort.toNat ∧
      (∀ idx offset, nameHashOffset idx = some offset →
        h.nameHashes[idx]?.map UInt8.toNat = some (slice h.serialize offset nameHashLength)) ∧
      slice h.serialize switchIdOffset switchIdLength = h.switchId.toNat := by
  have hword := bigEndian_octets h.outPorts
  have hpair := bigEndian_pair h.packetInPort
  refine ⟨slice_octet (k := 0) (getElem?_serialize_type h), ?_, ?_, fun idx offset hoffset => ?_,
    ?_⟩
  · exact (slice_octets [h.type] ([0, 1, 2, 3].map (octet h.outPorts)) _).trans hword
  · exact (slice_octets (h.type :: [0, 1, 2, 3].map (octet h.outPorts))
      [UInt8.ofNat (h.packetInPort.toNat >>> 8), UInt8.ofNat h.packetInPort.toNat] _).trans hpair
  · have hidx : idx < 4 := by
      by_contra hge
      rw [nameHashOffset, if_pos (Nat.le_of_not_lt hge)] at hoffset
      cases hoffset
    rw [nameHashOffset, if_neg (Nat.not_le.mpr hidx)] at hoffset
    obtain rfl := Option.some.inj hoffset
    have hstored := getElem?_serialize_nameHashes h hidx
    have hlt : idx < h.nameHashes.length := by rwa [h.nameHashes_length]
    rw [List.getElem?_eq_getElem hlt] at hstored ⊢
    have hslice := slice_octet hstored
    rw [show 8 * (7 + idx) = nameHashBaseOffset + idx * nameHashLength by
      rw [nameHashBaseOffset, nameHashLength]; omega] at hslice
    exact congrArg some hslice.symm
  · refine slice_octet (k := 11) ?_
    have hlength := h.nameHashes_length
    rw [serialize, List.getElem?_append_right (by simp [hlength, nameHashCount])]
    simp [hlength, nameHashCount]

/-! ## The codec -/

/-- Writer, reader and bit offsets agree.  A valid header that was written at any position
of a buffer is read again, whatever the reading header held; twelve octets are consumed
exactly if there are that many and the first one is a known type, and writing the header
reproduces them; and otherwise nothing is consumed and the header is cleared, or has an
unknown type. -/
theorem header_codec :
    (∀ (h old : PacketHeader) (it : BufferIterator), h.isValid = true →
      serializedSize ≤ it.rest.length →
        (h.serializeAt it).buffer = it.before ++ h.serialize ++ it.rest.drop serializedSize ∧
        deserializeAt ⟨it.before, (h.serializeAt it).buffer.drop it.before.length⟩ old =
          (serializedSize, h)) ∧
      (∀ (it : BufferIterator) (old : PacketHeader),
        ((deserializeAt it old).1 = serializedSize ↔ HoldsHeader it) ∧
        (HoldsHeader it →
          (deserializeAt it old).2.serialize = it.rest.take serializedSize) ∧
        (¬HoldsHeader it → (deserializeAt it old).1 = 0 ∧
          (it.rest.length < serializedSize → (deserializeAt it old).2 = empty) ∧
          (serializedSize ≤ it.rest.length → (deserializeAt it old).2.isValid = false))) ∧
      ∀ h : PacketHeader,
        slice h.serialize typeOffset typeLength = h.type.toNat ∧
        slice h.serialize outPortsOffset outPortsLength = h.outPorts.toNat ∧
        slice h.serialize inPortOffset inPortLength = h.packetInPort.toNat ∧
        (∀ idx offset, nameHashOffset idx = some offset →
          h.nameHashes[idx]?.map UInt8.toNat =
            some (slice h.serialize offset nameHashLength)) ∧
        slice h.serialize switchIdOffset switchIdLength = h.switchId.toNat := by
  refine ⟨fun h old it hvalid hroom => ?_, fun it old => ?_, slice_serialize⟩
  · rw [serializeAt_eq, BufferIterator.buffer]
    refine ⟨rfl, ?_⟩
    rw [List.append_assoc, List.drop_left, deserializeAt_eq, deserialize_serialize hvalid]
  · have hholds := exists_deserialize_iff it
    rw [deserializeAt_eq]
    cases hread : deserialize it.rest with
    | some h =>
        have hheader : HoldsHeader it := hholds.mp ⟨h, hread⟩
        exact ⟨⟨fun _ => hheader, fun _ => rfl⟩, fun _ => serialize_deserialize hread,
          fun hnot => absurd hheader hnot⟩
    | none =>
        have hnot : ¬HoldsHeader it := by
          intro hheader
          obtain ⟨h, hsome⟩ := hholds.mpr hheader
          rw [hread] at hsome
          cases hsome
        refine ⟨⟨fun hzero => absurd hzero.symm (Nat.succ_ne_zero 11), fun hheader =>
          absurd hheader hnot⟩,
          fun hheader => absurd hheader hnot, fun _ => ⟨rfl, fun hshort => ?_, fun hlong => ?_⟩⟩
        · exact if_pos hshort
        · -- twelve octets that are no header begin with an unknown type
          rw [if_neg (Nat.not_lt.mpr hlong)]
          have htype : PacketType.isValid (it.rest.headD 0) = false := by
            rw [Bool.eq_false_iff]
            intro hvalid
            obtain ⟨type, rest, hrest⟩ := List.exists_cons_of_length_pos
              (Nat.lt_of_lt_of_le (by decide : 0 < serializedSize) hlong)
            rw [hrest] at hvalid
            refine hnot ⟨hlong, type, (isValid_type_iff type).mp hvalid, ?_⟩
            rw [hrest]
            rfl
          exact congrArg (· && _) htype

end PacketHeader

end Statim
