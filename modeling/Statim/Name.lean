import Mathlib.Data.List.Infix
import Mathlib.Data.Nat.Basic

/-!
# NDN names

Names are sequences of typed components.  This module follows the parts of the
`ndn-cxx` name library that Statim uses: the canonical order behind every
`std::map` keyed by names, the URI spelling of a component, the
sequence-number component, and the two helpers of `packet-utils.hpp` that
recognise a Trace name and strip it to the traced prefix.  A component is its
type and value: both TLV numbers are taken in their shortest form, the one the
encoding asks for, so that equal components have equal octets.
-/

namespace Statim

/-- An octet string; it also stands for a `std::string`. -/
abbrev Bytes := List UInt8

/-- A name component: its TLV type and its value. -/
structure Component where
  type : Nat
  value : Bytes
deriving DecidableEq, Repr

namespace Component

/-- `tlv::ImplicitSha256DigestComponent`. -/
def digestType : Nat := 1

/-- `tlv::NameComponent`. -/
def genericType : Nat := 8

/-- A generic component with the given value. -/
def generic (value : Bytes) : Component := ⟨genericType, value⟩

/-- Canonical order: TLV type, then length, then the octets. -/
instance : Ord Component where
  compare := compareLex (compareOn type)
    (compareLex (compareOn fun c => c.value.length) (compareOn value))

instance : Std.TransOrd Component :=
  inferInstanceAs (Std.TransCmp (compareLex (compareOn type)
    (compareLex (compareOn fun c => c.value.length) (compareOn value))))

instance : Std.LawfulEqOrd Component where
  eq_of_compare {a b} h := by
    have hlex : (compareOn type a b).then
        ((compareOn (fun c : Component => c.value.length) a b).then
          (compareOn value a b)) = .eq := h
    rw [Ordering.then_eq_eq, Ordering.then_eq_eq] at hlex
    obtain ⟨htype, -, hvalue⟩ := hlex
    cases a
    cases b
    simp only [compareOn, Std.LawfulEqOrd.compare_eq_iff_eq] at htype hvalue
    simp [htype, hvalue]

/-! ## URI spelling -/

/-- One hexadecimal digit, upper case or lower case. -/
def hexDigit (upper : Bool) (d : UInt8) : UInt8 :=
  if d < 10 then 0x30 + d else (if upper then 0x41 else 0x61) + (d - 10)

/-- The octets that `toUri` writes unescaped. -/
def isUnescaped (x : UInt8) : Bool :=
  (0x30 ≤ x && x ≤ 0x39) || (0x41 ≤ x && x ≤ 0x5a) ||
    (0x61 ≤ x && x ≤ 0x7a) || x == 0x2b || x == 0x2d || x == 0x2e || x == 0x5f

/-- `sha256digest=`, the URI marker of an implicit digest. -/
def digestUri : Bytes :=
  [0x73, 0x68, 0x61, 0x32, 0x35, 0x36, 0x64, 0x69, 0x67, 0x65, 0x73, 0x74, 0x3d]

/-- `Component::toUri`. -/
def toUri (c : Component) : Bytes :=
  if c.type = digestType then
    digestUri ++ c.value.flatMap fun x =>
      [hexDigit false (x / 16), hexDigit false (x % 16)]
  else if c.value.all (· == 0x2e) then
    -- a component made only of periods gains three more
    [0x2e, 0x2e, 0x2e] ++ c.value
  else
    c.value.flatMap fun x =>
      if isUnescaped x then [x]
      else [0x25, hexDigit true (x / 16), hexDigit true (x % 16)]

/-! ## Sequence numbers -/

/-- `SEQUENCE_NUMBER_MARKER`. -/
def sequenceNumberMarker : UInt8 := 0xfe

/-- Big-endian value of an octet string. -/
def bigEndian (bytes : Bytes) : Nat :=
  bytes.foldl (fun acc b => acc * 256 + b.toNat) 0

/-- `Component::isSequenceNumber`. -/
def isSequenceNumber (c : Component) : Bool :=
  c.value.head? == some sequenceNumberMarker &&
    (c.value.length == 2 || c.value.length == 3 || c.value.length == 5 ||
      c.value.length == 9)

/-- `Component::toSequenceNumber`; `none` is the `Component::Error` it throws. -/
def toSequenceNumber (c : Component) : Option Nat :=
  if c.isSequenceNumber then some (bigEndian c.value.tail) else none

end Component

/-- `ndn::Name`. -/
abbrev Name := List Component

namespace Name

/-- `trace`, the component that marks a Trace name. -/
def traceUri : Bytes := [0x74, 0x72, 0x61, 0x63, 0x65]

/-- `judgeNameIsTrace`. -/
def judgeNameIsTrace (name : Name) : Bool :=
  decide (4 ≤ name.length) && ((name[1]?.map Component.toUri) == some traceUri)

/-- `extractDataNameFromTrace`: drop the marker and the sequence number. -/
def extractDataNameFromTrace (name : Name) : Name :=
  if name.length < 4 then []
  else name.take 1 ++ (name.drop 2).take (name.length - 3)

/-- `getTraceSequence`: the last component read as a sequence number. -/
def getTraceSequence (name : Name) : Option Nat :=
  name.getLast?.bind Component.toSequenceNumber

theorem extractDataNameFromTrace_ne_nil {name : Name}
    (h : judgeNameIsTrace name = true) : extractDataNameFromTrace name ≠ [] := by
  have hlen : 4 ≤ name.length := by
    simp only [judgeNameIsTrace, Bool.and_eq_true, decide_eq_true_eq] at h
    exact h.1
  rw [extractDataNameFromTrace, if_neg (by omega)]
  cases name with
  | nil => simp at hlen
  | cons c rest => simp

end Name

end Statim
