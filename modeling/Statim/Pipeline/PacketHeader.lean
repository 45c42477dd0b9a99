import Statim.Name

/-!
# The Statim packet header

Twelve bytes in front of every NDN packet: type, output-port bitmap, ingress
port, four component hashes and the switch identifier, in network byte order.
`std::hash<std::string>` is implementation-defined and stays a parameter.
-/

namespace Statim

/-- `STATIM_NAME_HASH_COUNT`. -/
def nameHashCount : Nat := 4

/-- The hash of an absent component; it acts as a wildcard in the FIB. -/
def noHash : UInt8 := 0xff

-- `PacketType` has `uint8_t` as its underlying type and a header may hold any
-- octet, so its values are constants
namespace PacketType

def unprocessed : UInt8 := 0x00
def interest : UInt8 := 0x01
def data : UInt8 := 0x02
def control : UInt8 := 0x03
def selfLearningDiscovery : UInt8 := 0x05

/-- `isValidPacketType`. -/
def isValid (value : UInt8) : Bool :=
  value == 0x00 || value == 0x01 || value == 0x02 || value == 0x03 || value == 0x05

end PacketType

/-- `PacketHeader`; the hash vector always has four elements. -/
structure PacketHeader where
  type : UInt8
  outPorts : UInt32
  packetInPort : UInt16
  nameHashes : Bytes
  switchId : UInt8
  nameHashes_length : nameHashes.length = nameHashCount
deriving DecidableEq, Repr

namespace PacketHeader

/-- `SERIALIZED_SIZE`. -/
def serializedSize : Nat := 12

/-! ## Name hashes -/

section Hashes

variable (stdHash : Bytes → Nat)

def computeComponentHash (c : Component) : UInt8 :=
  UInt8.ofNat (stdHash c.toUri % 0xfe)

/-- The vector that `computeNameHashes` assigns. -/
def hashesOf (name : Name) : Bytes :=
  (name.take nameHashCount).map (computeComponentHash stdHash) ++
    List.replicate (nameHashCount - name.length) noHash

theorem length_hashesOf (name : Name) : (hashesOf stdHash name).length = nameHashCount := by
  simp only [hashesOf, List.length_append, List.length_map, List.length_take,
    List.length_replicate, nameHashCount]
  omega

/-- A computed hash is never the wildcard. -/
theorem computeComponentHash_ne_noHash (c : Component) :
    computeComponentHash stdHash c ≠ noHash := by
  intro h
  have hnat := congrArg UInt8.toNat h
  have hlt : stdHash c.toUri % 0xfe < 0xfe := Nat.mod_lt _ (by decide)
  simp only [computeComponentHash, UInt8.toNat_ofNat', noHash] at hnat
  have hval : (0xff : UInt8).toNat = 255 := rfl
  omega

theorem getElem?_hashesOf (name : Name) {i : Nat} (hi : i < nameHashCount) :
    (hashesOf stdHash name)[i]? =
      some ((name[i]?.map (computeComponentHash stdHash)).getD noHash) := by
  unfold hashesOf
  by_cases hlt : i < name.length
  · have htake : i < ((name.take nameHashCount).map (computeComponentHash stdHash)).length := by
      simp only [List.length_map, List.length_take]
      omega
    rw [List.getElem?_append_left htake, List.getElem?_map, List.getElem?_take_of_lt hi]
    simp [List.getElem?_eq_getElem hlt]
  · have hge : ((name.take nameHashCount).map (computeComponentHash stdHash)).length ≤ i := by
      simp only [List.length_map, List.length_take]
      omega
    rw [List.getElem?_append_right hge, List.getElem?_eq_none (Nat.le_of_not_lt hlt)]
    simp only [List.length_map, List.length_take, List.getElem?_replicate, Option.map_none,
      Option.getD_none]
    rw [if_pos (by unfold nameHashCount at *; omega)]

def computeNameHashes (name : Name) (h : PacketHeader) : PacketHeader :=
  { h with
    nameHashes := hashesOf stdHash name
    nameHashes_length := length_hashesOf stdHash name }

end Hashes

/-- A default-constructed header. -/
def empty : PacketHeader where
  type := PacketType.unprocessed
  outPorts := 0
  packetInPort := 0
  nameHashes := List.replicate nameHashCount noHash
  switchId := 0
  nameHashes_length := by simp

/-- `PacketHeader(name)`. -/
def ofName (stdHash : Bytes → Nat) (name : Name) : PacketHeader :=
  computeNameHashes stdHash name empty

def setType (type : UInt8) (h : PacketHeader) : PacketHeader := { h with type := type }

def setOutPorts (ports : UInt32) (h : PacketHeader) : PacketHeader :=
  { h with outPorts := ports }

def setPacketInPort (port : UInt16) (h : PacketHeader) : PacketHeader :=
  { h with packetInPort := port }

def setSwitchId (id : UInt8) (h : PacketHeader) : PacketHeader := { h with switchId := id }

/-! ## Wire format -/

/-- Octet `i` of a 32-bit word, most significant first. -/
def octet (word : UInt32) (i : Nat) : UInt8 :=
  UInt8.ofNat (word.toNat >>> (24 - 8 * i))

/-- `Serialize`. -/
def serialize (h : PacketHeader) : Bytes :=
  [h.type, octet h.outPorts 0, octet h.outPorts 1, octet h.outPorts 2, octet h.outPorts 3,
    UInt8.ofNat (h.packetInPort.toNat >>> 8), UInt8.ofNat h.packetInPort.toNat] ++
  h.nameHashes ++ [h.switchId]

/-- `Deserialize`; `none` is the return value zero for truncated input or an
unknown packet type. -/
def deserialize (bytes : Bytes) : Option PacketHeader :=
  match bytes with
  | type :: o0 :: o1 :: o2 :: o3 :: p0 :: p1 :: h0 :: h1 :: h2 :: h3 :: switchId :: _ =>
    if PacketType.isValid type then
      some
        { type := type
          outPorts := UInt32.ofNat
            (((o0.toNat * 256 + o1.toNat) * 256 + o2.toNat) * 256 + o3.toNat)
          packetInPort := UInt16.ofNat (p0.toNat * 256 + p1.toNat)
          nameHashes := [h0, h1, h2, h3]
          switchId := switchId
          nameHashes_length := rfl }
    else none
  | _ => none

theorem length_serialize (h : PacketHeader) : (serialize h).length = serializedSize := by
  simp [serialize, h.nameHashes_length, nameHashCount, serializedSize]

theorem getElem?_serialize_type (h : PacketHeader) : (serialize h)[0]? = some h.type := rfl

theorem getElem?_serialize_outPorts (h : PacketHeader) {i : Nat} (hi : i < 4) :
    (serialize h)[1 + i]? = some (octet h.outPorts i) := by
  match i, hi with
  | 0, _ => rfl
  | 1, _ => rfl
  | 2, _ => rfl
  | 3, _ => rfl

theorem getElem?_serialize_nameHashes (h : PacketHeader) {i : Nat} (hi : i < nameHashCount) :
    (serialize h)[7 + i]? = h.nameHashes[i]? := by
  have hlen := h.nameHashes_length
  rw [serialize, List.getElem?_append_left (by
    simp only [List.length_append, List.length_cons, List.length_nil]; omega),
    List.getElem?_append_right (by simp)]
  simp

end PacketHeader

end Statim
