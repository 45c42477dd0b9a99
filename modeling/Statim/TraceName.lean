import Mathlib.Algebra.Ring.Nat
import Mathlib.Data.List.Induction
import Statim.Name

/-!
# Trace names

`StatimMobile` builds the name of a Trace Interest from two configured prefixes, and
`packet-utils.hpp` takes it apart again by fixed positions.  The two agree on rendezvous
prefixes of one component; a longer one is taken apart at the wrong place.
-/

namespace Statim

namespace Component

/-- A number in `width` octets, most significant first. -/
def octetsOf : Nat → Nat → Bytes
  | 0, _ => []
  | width + 1, number => octetsOf width (number / 256) ++ [UInt8.ofNat number]

/-- `prependNonNegativeInteger` on an empty buffer. -/
def nonNegativeInteger (number : UInt64) : Bytes :=
  if number.toNat ≤ 0xff then octetsOf 1 number.toNat
  else if number.toNat ≤ 0xffff then octetsOf 2 number.toNat
  else if number.toNat ≤ 0xffffffff then octetsOf 4 number.toNat
  else octetsOf 8 number.toNat

/-- `Component::fromNumberWithMarker`. -/
def fromNumberWithMarker (marker : UInt8) (number : UInt64) : Component :=
  .generic (marker :: nonNegativeInteger number)

/-- `Component::fromSequenceNumber`. -/
def fromSequenceNumber (seqNo : UInt64) : Component :=
  fromNumberWithMarker sequenceNumberMarker seqNo

/-- `trace`. -/
def trace : Component := .generic Name.traceUri

/-! ## Sequence numbers -/

theorem length_octetsOf (width number : Nat) : (octetsOf width number).length = width := by
  induction width generalizing number with
  | zero => rfl
  | succ width ih => rw [octetsOf, List.length_append, ih, List.length_singleton]

theorem bigEndian_snoc (bytes : Bytes) (b : UInt8) :
    bigEndian (bytes ++ [b]) = bigEndian bytes * 256 + b.toNat := by
  rw [bigEndian, List.foldl_append]
  rfl

theorem bigEndian_octetsOf {width number : Nat} (h : number < 256 ^ width) :
    bigEndian (octetsOf width number) = number := by
  induction width generalizing number with
  | zero =>
      rw [Nat.pow_zero] at h
      rw [Nat.lt_one_iff.mp h]
      rfl
  | succ width ih =>
      have hhigh : number / 256 < 256 ^ width := by
        rw [Nat.div_lt_iff_lt_mul (by decide)]
        exact h
      rw [octetsOf, bigEndian_snoc, ih hhigh, UInt8.toNat_ofNat']
      omega

/-- A sequence number is read back from its component. -/
theorem toSequenceNumber_fromSequenceNumber (seqNo : UInt64) :
    (fromSequenceNumber seqNo).toSequenceNumber = some seqNo.toNat := by
  have hlt := UInt64.toNat_lt seqNo
  have hdecodes : ∀ width, (width = 1 ∨ width = 2 ∨ width = 4 ∨ width = 8) →
      seqNo.toNat < 256 ^ width →
      (generic (sequenceNumberMarker :: octetsOf width seqNo.toNat)).toSequenceNumber =
        some seqNo.toNat := by
    intro width hwidth hfits
    have hnumber : (generic (sequenceNumberMarker ::
        octetsOf width seqNo.toNat)).isSequenceNumber = true := by
      simp only [isSequenceNumber, generic, List.head?_cons, List.length_cons, length_octetsOf]
      rcases hwidth with rfl | rfl | rfl | rfl
      · rfl
      · rfl
      · rfl
      · rfl
    rw [toSequenceNumber, if_pos hnumber]
    exact congrArg some (bigEndian_octetsOf hfits)
  unfold fromSequenceNumber fromNumberWithMarker nonNegativeInteger
  split
  · exact hdecodes 1 (by decide) (by omega)
  split
  · exact hdecodes 2 (by decide) (by omega)
  split
  · exact hdecodes 4 (by decide) (by omega)
  · exact hdecodes 8 (by decide) (by omega)

/-! ## The marker component -/

/-- An octet string without `%` is escaped from itself only. -/
theorem eq_of_flatMap_escaped {value uri : Bytes} (hpercent : (0x25 : UInt8) ∉ uri)
    (h : (value.flatMap fun x => if isUnescaped x then [x]
      else [0x25, hexDigit true (x / 16), hexDigit true (x % 16)]) = uri) : value = uri := by
  induction value generalizing uri with
  | nil => exact h
  | cons x value ih =>
      rw [List.flatMap_cons] at h
      split at h
      · cases uri with
        | nil => cases h
        | cons y uri =>
            obtain ⟨rfl, hrest⟩ := List.cons.inj h
            rw [ih (fun hmem => hpercent (List.mem_cons_of_mem x hmem)) hrest]
      · refine absurd ?_ hpercent
        rw [← h]
        exact List.mem_cons_self

/-- Only a component with the octets of `trace` is spelled `trace`. -/
theorem toUri_eq_traceUri_iff (c : Component) :
    c.toUri = Name.traceUri ↔ c.type ≠ digestType ∧ c.value = Name.traceUri := by
  unfold toUri
  split
  next hdigest => simp [hdigest, digestUri, Name.traceUri]
  next hgeneric =>
    split
    next hperiods =>
      constructor
      · intro huri
        cases (List.cons.inj huri).1
      · rintro ⟨-, hvalue⟩
        rw [hvalue] at hperiods
        cases hperiods
    next =>
      constructor
      · intro huri
        exact ⟨hgeneric, eq_of_flatMap_escaped (by decide) huri⟩
      · rintro ⟨-, hvalue⟩
        rw [hvalue]
        rfl

end Component

namespace Name

/-! ## Building and taking apart -/

variable {rvPrefix dataPrefix name : Name} {seq : UInt64}

/-- `StatimMobile::MakeTracePrefix`. -/
def makeTracePrefix (rvPrefix dataPrefix : Name) : Name :=
  rvPrefix ++ [Component.trace] ++ dataPrefix

/-- The name of the Trace Interest that `StatimMobile::SendTrace` sends. -/
def sendTraceName (rvPrefix dataPrefix : Name) (seq : UInt64) : Name :=
  makeTracePrefix rvPrefix dataPrefix ++ [.fromSequenceNumber seq]

/-- The name of a Trace Interest is recognised and taken apart into its sequence number
and the prefix that consumers use. -/
structure RoundTrips (rvPrefix dataPrefix : Name) (seq : UInt64) : Prop where
  recognised : judgeNameIsTrace (sendTraceName rvPrefix dataPrefix seq) = true
  sequence : getTraceSequence (sendTraceName rvPrefix dataPrefix seq) = some seq.toNat
  extracted : extractDataNameFromTrace (sendTraceName rvPrefix dataPrefix seq) =
    rvPrefix ++ dataPrefix

theorem getTraceSequence_sendTraceName (rvPrefix dataPrefix : Name) (seq : UInt64) :
    getTraceSequence (sendTraceName rvPrefix dataPrefix seq) = some seq.toNat := by
  rw [getTraceSequence, sendTraceName, List.getLast?_concat]
  exact Component.toSequenceNumber_fromSequenceNumber seq

/-- What is left of a rendezvous prefix `c :: rest` once the second component of the name is
dropped. -/
theorem extractDataNameFromTrace_sendTraceName (c : Component) (rest : Name)
    (hdata : dataPrefix ≠ []) (seq : UInt64) :
    extractDataNameFromTrace (sendTraceName (c :: rest) dataPrefix seq) =
      c :: ((rest ++ [Component.trace]).tail ++ dataPrefix) := by
  obtain ⟨marker, shifted, hshifted⟩ : ∃ marker shifted,
      rest ++ [Component.trace] = marker :: shifted :=
    List.exists_cons_of_ne_nil (by simp)
  have hname : sendTraceName (c :: rest) dataPrefix seq =
      c :: marker :: (shifted ++ dataPrefix ++ [.fromSequenceNumber seq]) := by
    rw [sendTraceName, makeTracePrefix, List.cons_append, hshifted]
    simp only [List.cons_append]
  have hpos := List.length_pos_of_ne_nil hdata
  rw [hshifted, hname, extractDataNameFromTrace, if_neg (by
    simp only [List.length_cons, List.length_append, List.length_nil]
    omega)]
  have hcount : (c :: marker :: (shifted ++ dataPrefix ++
      [Component.fromSequenceNumber seq])).length - 3 = (shifted ++ dataPrefix).length := by
    simp only [List.length_cons, List.length_append, List.length_nil]
    omega
  rw [hcount, List.take_succ_cons, List.take_zero, List.drop_succ_cons, List.drop_succ_cons,
    List.drop_zero, List.take_left]
  rfl

/-- Components followed by `trace` and shifted by one are the same components only if all of
them are `trace`. -/
theorem tail_append_trace_eq_iff (rest : Name) :
    (rest ++ [Component.trace]).tail = rest ↔ ∀ c ∈ rest, c = Component.trace := by
  induction rest with
  | nil => simp
  | cons c rest ih =>
      rw [List.cons_append, List.tail_cons, List.forall_mem_cons]
      cases rest with
      | nil => simp [eq_comm]
      | cons c' rest =>
          rw [List.cons_append, List.tail_cons] at ih
          rw [List.cons_append, List.cons.injEq, ih, List.forall_mem_cons]
          constructor
          · rintro ⟨rfl, hall⟩
            exact ⟨hall.1, hall⟩
          · rintro ⟨rfl, hall⟩
            exact ⟨hall.1, hall⟩

/-- The round trip holds exactly for the rendezvous prefixes whose components after the
first are all `trace`. -/
theorem roundTrips_iff (hrv : rvPrefix ≠ []) (hdata : dataPrefix ≠ []) (seq : UInt64) :
    RoundTrips rvPrefix dataPrefix seq ↔ ∀ c ∈ rvPrefix.tail, c = Component.trace := by
  obtain ⟨c, rest, rfl⟩ := List.exists_cons_of_ne_nil hrv
  have hextract := extractDataNameFromTrace_sendTraceName c rest hdata seq
  rw [List.tail_cons, ← tail_append_trace_eq_iff]
  constructor
  · intro h
    rw [h.extracted, List.cons_append, List.cons.injEq] at hextract
    exact (List.append_cancel_right hextract.2).symm
  · intro hsame
    refine ⟨?_, getTraceSequence_sendTraceName _ _ seq, ?_⟩
    · have hlength : 4 ≤ (sendTraceName (c :: rest) dataPrefix seq).length := by
        have hpos := List.length_pos_of_ne_nil hdata
        simp only [sendTraceName, makeTracePrefix, List.length_append, List.length_cons,
          List.length_nil]
        omega
      have hmarker : (sendTraceName (c :: rest) dataPrefix seq)[1]? = some Component.trace := by
        have hall := (tail_append_trace_eq_iff rest).mp hsame
        cases rest with
        | nil => rfl
        | cons c' rest => exact congrArg some (hall c' List.mem_cons_self)
      rw [judgeNameIsTrace, hmarker, decide_eq_true hlength]
      rfl
    · rw [hextract, hsame]
      rfl

/-- A name without a component `trace` is never recognised. -/
theorem judgeNameIsTrace_eq_false (h : ∀ c ∈ name, c.value ≠ traceUri) :
    judgeNameIsTrace name = false := by
  rw [judgeNameIsTrace, Bool.and_eq_false_iff]
  refine Or.inr ?_
  rw [beq_eq_false_iff_ne, ne_eq, Option.map_eq_some_iff]
  rintro ⟨c, hc, huri⟩
  exact h c (List.mem_of_getElem? hc) ((Component.toUri_eq_traceUri_iff c).mp huri).2

/-- Trace names make the round trip if and only if the components of the rendezvous prefix
after the first are all `trace`, above all where there is only one; and names of ordinary
content are never taken for Trace names. -/
theorem trace_naming (hrv : rvPrefix ≠ []) (hdata : dataPrefix ≠ []) :
    (∀ seq, RoundTrips rvPrefix dataPrefix seq ↔
      ∀ c ∈ rvPrefix.tail, c = Component.trace) ∧
      ∀ item, (∀ c ∈ rvPrefix ++ dataPrefix ++ item, c.value ≠ traceUri) →
        judgeNameIsTrace (rvPrefix ++ dataPrefix ++ item) = false :=
  ⟨roundTrips_iff hrv hdata, fun _ h => judgeNameIsTrace_eq_false h⟩

theorem trace_naming_rv : RoundTrips [.generic [0x72, 0x76]]
    [.generic [0x61], .generic [0x62]] 300 ∧
      judgeNameIsTrace [.generic [0x72, 0x76], .generic [0x61], .generic [0x62],
        .generic [0x63]] = false := by
  have hrv : ([.generic [0x72, 0x76]] : Name) ≠ [] := List.cons_ne_nil _ _
  have hdata : ([.generic [0x61], .generic [0x62]] : Name) ≠ [] := List.cons_ne_nil _ _
  have hnaming := trace_naming hrv hdata
  exact ⟨(hnaming.1 300).mpr (by simp), hnaming.2 [.generic [0x63]] (by decide)⟩

/-- With a rendezvous prefix of two components the name is not recognised. -/
theorem not_roundTrips_two :
    sendTraceName [.generic [0x72], .generic [0x76]] [.generic [0x61]] 1 =
        [.generic [0x72], .generic [0x76], Component.trace, .generic [0x61],
          .generic [0xfe, 1]] ∧
      judgeNameIsTrace (sendTraceName [.generic [0x72], .generic [0x76]] [.generic [0x61]] 1) =
        false ∧
      ¬RoundTrips [.generic [0x72], .generic [0x76]] [.generic [0x61]] 1 := by
  have hrecognised : judgeNameIsTrace
      (sendTraceName [.generic [0x72], .generic [0x76]] [.generic [0x61]] 1) = false := by decide
  refine ⟨by decide, hrecognised, fun h => ?_⟩
  rw [h.recognised] at hrecognised
  cases hrecognised

end Name

end Statim
