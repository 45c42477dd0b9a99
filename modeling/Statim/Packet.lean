import Statim.State.TemporaryForwardingTable

/-!
# Interests, Data and nonce buffers

The parts of the `ndn-cxx` packet classes that the forwarding engine uses.  A
decoded Interest does not own its Nonce: it points into a wire buffer, copies of
the Interest point into the same buffer, and `setNonce` on an Interest with a
wire encoding overwrites the octets in place.  The buffers are therefore part of
the state, and an Interest holds the identity of its buffer.
-/

namespace Statim

/-- The wire buffers; the position in the list is the identity. -/
abbrev Buffers := List Bytes

/-- `KeyLocator::Type`; `wireDecode` reports an inner element that it does not know as
`unknown`. -/
inductive KeyLocatorType
  | none
  | name
  | keyDigest
  | unknown
deriving DecidableEq, Repr

/-- The part of `ndn::Selectors` that decides whether they can be encoded. -/
structure Selectors where
  publisherPublicKeyLocator : KeyLocatorType := .none
deriving DecidableEq, Repr

/-- `Selectors::wireEncode` does not throw: `KeyLocator::wireEncode` supports the type. -/
def Selectors.isEncodable (selectors : Selectors) : Bool :=
  selectors.publisherPublicKeyLocator ≠ .unknown

/-- `ndn::Interest`. -/
structure Interest where
  name : Name
  selectors : Selectors
  /-- The buffer that holds the Nonce, if there is one. -/
  nonce : Option Nat
  /-- Whether the Interest still has the encoding it was decoded from. -/
  hasWire : Bool
  /-- `InterestLifetime`, in milliseconds. -/
  lifetime : Int
deriving DecidableEq, Repr

/-- `ndn::Data` with its `HopCountTag`; `wire` is the rest of the encoding. -/
structure Data where
  name : Name
  wire : Bytes
  hopCount : Option UInt8
deriving DecidableEq, Repr

/-- `readNonNegativeInteger`; `none` is the `tlv::Error` it throws. -/
def readNonNegativeInteger (value : Bytes) : Option Nat :=
  if value.length = 1 ∨ value.length = 2 ∨ value.length = 4 ∨ value.length = 8 then
    some (Component.bigEndian value)
  else none

/-- `DEFAULT_INTEREST_LIFETIME`, in milliseconds. -/
def defaultInterestLifetime : Int := 4000

/-- Conversion of milliseconds to microseconds in 64 bits. -/
def toMicroseconds (ms : Int) : Int := wrap64 (ms * 1000)

namespace Interest

/-- The word that `getNonce` reads from the octets of a Nonce: four octets in host
order (little-endian), any other width as a truncated integer; `none` is a
`tlv::Error`. -/
def nonceWord (value : Bytes) : Option UInt32 :=
  if value.length = 4 then some (UInt32.ofNat (Component.bigEndian value.reverse))
  else (readNonNegativeInteger value).map UInt32.ofNat

/-- The octets of a word in host order. -/
def nonceOctets (word : UInt32) : Bytes :=
  [0, 8, 16, 24].map fun shift => UInt8.ofNat (word.toNat >>> shift)

def hasNonce (interest : Interest) : Bool := interest.nonce.isSome

/-- The octets of the Nonce. -/
def nonceValue (buffers : Buffers) (interest : Interest) : Bytes :=
  (interest.nonce.bind (buffers[·]?)).getD []

/-- `getNonce` of an Interest that has a Nonce. -/
def getNonce (buffers : Buffers) (interest : Interest) : Option UInt32 :=
  nonceWord (interest.nonceValue buffers)

/-- `setNonce`: in place when there is a wire encoding with four octets, and else in
a new buffer. -/
def setNonce (nonce : UInt32) (buffers : Buffers) (interest : Interest) :
    Interest × Buffers :=
  match interest.nonce with
  | some buffer =>
    if interest.hasWire && (interest.nonceValue buffers).length == 4 then
      (interest, buffers.set buffer (nonceOctets nonce))
    else
      ({ interest with nonce := some buffers.length, hasWire := false },
        buffers ++ [nonceOctets nonce])
  | none =>
    ({ interest with nonce := some buffers.length, hasWire := false },
      buffers ++ [nonceOctets nonce])

/-- `refreshNonce`, where `word old` is the first random word that differs from the
old Nonce; `none` is the `tlv::Error` of `getNonce`. -/
def refreshNonce (word : UInt32 → UInt32) (buffers : Buffers) (interest : Interest) :
    Option (Interest × Buffers) :=
  if interest.hasNonce then
    (interest.getNonce buffers).map fun old => interest.setNonce (word old) buffers
  else some (interest, buffers)

/-- Decoding: the Nonce stays in the buffer of the packet. -/
def decode (name : Name) (selectors : Selectors) (nonce : Bytes) (lifetime : Option UInt64)
    (buffers : Buffers) : Interest × Buffers :=
  ({ name
     selectors
     nonce := some buffers.length
     hasWire := true
     lifetime := match lifetime with
       | none => defaultInterestLifetime
       | some ms => wrap64 ms.toNat },
    buffers ++ [nonce])

/-- `wireEncode`: the Interest as it is sent, with the encoding it has or else with a new
one, from which it is decoded again; `none` is the `tlv::Error` of an encoder.  A new
encoding leaves out a negative lifetime.  An Interest is without an encoding only after
`setNonce` has given it a Nonce of four octets, which `getNonce` reads. -/
def wireEncode (interest : Interest) : Option Interest :=
  if interest.hasWire then some interest
  else if interest.selectors.isEncodable then
    some { interest with
      hasWire := true
      lifetime := if interest.lifetime < 0 then defaultInterestLifetime
        else interest.lifetime }
  else none

theorem wireEncode_of_hasWire {interest : Interest} (h : interest.hasWire = true) :
    interest.wireEncode = some interest := by
  rw [wireEncode, if_pos h]

/-- What `wireEncode` keeps, and what it does to the lifetime. -/
theorem wireEncode_eq_some {interest encoded : Interest}
    (h : interest.wireEncode = some encoded) :
    encoded.name = interest.name ∧ encoded.nonce = interest.nonce ∧
      (encoded.lifetime = interest.lifetime ∨
        interest.lifetime < 0 ∧ encoded.lifetime = defaultInterestLifetime) := by
  unfold wireEncode at h
  split at h
  · cases h
    exact ⟨rfl, rfl, Or.inl rfl⟩
  split at h
  · cases h
    refine ⟨rfl, rfl, ?_⟩
    simp only
    split
    next hnegative => exact Or.inr ⟨hnegative, rfl⟩
    next => exact Or.inl rfl
  · cases h

/-- A positive lifetime stays positive when it is encoded. -/
theorem positive_wireEncode {interest encoded : Interest}
    (h : interest.wireEncode = some encoded)
    (hpositive : 0 < toMicroseconds interest.lifetime) :
    0 < toMicroseconds encoded.lifetime := by
  obtain ⟨-, -, hsame | ⟨-, hdefault⟩⟩ := wireEncode_eq_some h
  · rwa [hsame]
  · rw [hdefault]
    decide

/-- An Interest is sent unless it has lost its encoding and its Selectors cannot be
encoded. -/
theorem isSome_wireEncode {interest : Interest} :
    interest.wireEncode.isSome = true ↔
      interest.hasWire = true ∨ interest.selectors.isEncodable = true := by
  unfold wireEncode
  split
  next hwire => simp [hwire]
  next hwire =>
    split
    next hencodable => simp [hencodable]
    next hencodable => simp [hwire, hencodable]

/-! ## Readable Nonces -/

/-- `getNonce` does not throw on this Interest. -/
def Readable (buffers : Buffers) (interest : Interest) : Prop :=
  interest.hasNonce = true → (interest.getNonce buffers).isSome = true

theorem isSome_nonceWord_nonceOctets (word : UInt32) :
    (nonceWord (nonceOctets word)).isSome = true := rfl

/-- What `setNonce` does to the buffers. -/
theorem setNonce_cases (nonce : UInt32) (buffers : Buffers) (interest : Interest) :
    (∃ buffer, interest.nonce = some buffer ∧ interest.hasWire = true ∧
        (interest.nonceValue buffers).length = 4 ∧
        interest.setNonce nonce buffers = (interest, buffers.set buffer (nonceOctets nonce))) ∨
      interest.setNonce nonce buffers =
        ({ interest with nonce := some buffers.length, hasWire := false },
          buffers ++ [nonceOctets nonce]) := by
  unfold setNonce
  split
  next buffer hbuffer =>
    split
    next hplace =>
      rw [Bool.and_eq_true, beq_iff_eq] at hplace
      exact Or.inl ⟨buffer, hbuffer, hplace.1, hplace.2, rfl⟩
    next => exact Or.inr rfl
  next => exact Or.inr rfl

/-- The buffer of a Nonce that can be read exists. -/
theorem Readable.exists_buffer {buffers : Buffers} {interest : Interest}
    (h : Readable buffers interest) {buffer : Nat} (hbuffer : interest.nonce = some buffer) :
    ∃ value, buffers[buffer]? = some value := by
  have hsome := h (by rw [hasNonce, hbuffer]; rfl)
  cases hvalue : buffers[buffer]? with
  | some value => exact ⟨value, rfl⟩
  | none =>
      simp [getNonce, nonceValue, hbuffer, hvalue, nonceWord, readNonNegativeInteger] at hsome

/-- A Nonce that can be read stays so when another one, or the same one, is
refreshed. -/
theorem Readable.setNonce {buffers : Buffers} {interest : Interest}
    (h : Readable buffers interest) (nonce : UInt32) (other : Interest) :
    Readable (other.setNonce nonce buffers).2 interest := by
  intro hnonce
  obtain ⟨buffer, hbuffer⟩ := Option.isSome_iff_exists.mp hnonce
  obtain ⟨value, hvalue⟩ := h.exists_buffer hbuffer
  obtain ⟨hlt, -⟩ := List.getElem?_eq_some_iff.mp hvalue
  have hread := h hnonce
  simp only [getNonce, nonceValue, hbuffer, Option.bind_some] at hread ⊢
  rcases setNonce_cases nonce buffers other with ⟨buffer', -, -, -, heq⟩ | heq
  · rw [heq]
    by_cases hsame : buffer' = buffer
    · rw [hsame, List.getElem?_set_self hlt]
      exact isSome_nonceWord_nonceOctets nonce
    · rw [List.getElem?_set_ne hsame]
      exact hread
  · rw [heq]
    simp only
    rw [List.getElem?_append_left hlt]
    exact hread

/-- The Nonce lies in one of the buffers. -/
def Allocated (buffers : Buffers) (interest : Interest) : Prop :=
  ∀ buffer, interest.nonce = some buffer → buffer < buffers.length

theorem length_le_setNonce (nonce : UInt32) (buffers : Buffers) (interest : Interest) :
    buffers.length ≤ (interest.setNonce nonce buffers).2.length := by
  rcases setNonce_cases nonce buffers interest with ⟨buffer, -, -, -, heq⟩ | heq
  · rw [heq, List.length_set]
  · rw [heq, List.length_append]
    exact Nat.le_add_right _ _

/-- A Nonce that cannot be read does not become readable when another one is
refreshed. -/
theorem Readable.of_setNonce {buffers : Buffers} {interest other : Interest} {nonce : UInt32}
    (hallocated : Allocated buffers interest)
    (h : Readable (other.setNonce nonce buffers).2 interest) : Readable buffers interest := by
  intro hnonce
  obtain ⟨buffer, hbuffer⟩ := Option.isSome_iff_exists.mp hnonce
  have hlt := hallocated buffer hbuffer
  have hread := h hnonce
  simp only [getNonce, nonceValue, hbuffer, Option.bind_some] at hread ⊢
  rcases setNonce_cases nonce buffers other with ⟨buffer', hother, -, hfour, heq⟩ | heq
  · rw [heq] at hread
    by_cases hsame : buffer' = buffer
    · -- the octets that were overwritten were four
      simp only [nonceValue, hother, hsame, Option.bind_some] at hfour
      rw [nonceWord, if_pos hfour]
      rfl
    · rwa [List.getElem?_set_ne hsame] at hread
  · rw [heq] at hread
    simp only at hread
    rwa [List.getElem?_append_left hlt] at hread

end Interest

end Statim
