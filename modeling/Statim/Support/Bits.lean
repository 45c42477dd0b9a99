import Mathlib.Data.List.Induction
import Mathlib.Data.Nat.Bitwise
import Mathlib.Tactic.Ring

/-!
# Bits in network order

The bits of an octet string, most significant first, and the number that a row of
bits stands for.
-/

namespace Support

/-- The bits of an octet, most significant first. -/
def octetBits (b : UInt8) : List Bool := (List.range 8).map fun i => b.toNat.testBit (7 - i)

/-- The bits of an octet string. -/
def bitsOf (bytes : List UInt8) : List Bool := bytes.flatMap octetBits

/-- The number that bits stand for, most significant first. -/
def ofBits (bits : List Bool) : Nat := bits.foldl (fun value bit => 2 * value + bit.toNat) 0

/-- `count` bits of an octet string from position `start` on, as a number. -/
def slice (bytes : List UInt8) (start count : Nat) : Nat :=
  ofBits (((bitsOf bytes).drop start).take count)

theorem length_octetBits (b : UInt8) : (octetBits b).length = 8 := by simp [octetBits]

theorem length_bitsOf (bytes : List UInt8) : (bitsOf bytes).length = 8 * bytes.length := by
  induction bytes with
  | nil => rfl
  | cons b bytes ih =>
      rw [bitsOf, List.flatMap_cons, List.length_append, length_octetBits, List.length_cons]
      rw [bitsOf] at ih
      omega

theorem getElem?_octetBits (b : UInt8) {i : Nat} (hi : i < 8) :
    (octetBits b)[i]? = some (b.toNat.testBit (7 - i)) := by
  simp [octetBits, List.getElem?_range hi]

theorem getElem?_bitsOf (bytes : List UInt8) (pos : Nat) :
    (bitsOf bytes)[pos]? = bytes[pos / 8]?.map fun b => b.toNat.testBit (7 - pos % 8) := by
  induction bytes generalizing pos with
  | nil => rfl
  | cons b bytes ih =>
      rw [bitsOf, List.flatMap_cons]
      by_cases hpos : pos < 8
      · rw [List.getElem?_append_left (by rwa [length_octetBits]), getElem?_octetBits b hpos,
          Nat.div_eq_of_lt hpos, Nat.mod_eq_of_lt hpos]
        rfl
      · obtain ⟨next, rfl⟩ := Nat.exists_eq_add_of_le (Nat.le_of_not_lt hpos)
        rw [List.getElem?_append_right (by rw [length_octetBits]; omega), length_octetBits,
          Nat.add_sub_cancel_left]
        have hnext := ih next
        rw [bitsOf] at hnext
        rw [hnext, show (8 + next) / 8 = next / 8 + 1 by omega, Nat.add_mod_left]
        rfl

/-! ## The number -/

theorem ofBits_snoc (bits : List Bool) (bit : Bool) :
    ofBits (bits ++ [bit]) = 2 * ofBits bits + bit.toNat := by
  rw [ofBits, List.foldl_append]
  rfl

/-- Bit `j` of the number is the one `j` places before the end. -/
theorem testBit_ofBits (bits : List Bool) (j : Nat) :
    (ofBits bits).testBit j = (bits.reverse[j]?).getD false := by
  induction bits using List.reverseRecOn generalizing j with
  | nil => exact Nat.zero_testBit j
  | append_singleton bits bit ih =>
      rw [ofBits_snoc, List.reverse_append, List.reverse_singleton, List.singleton_append]
      cases j with
      | zero =>
          rw [List.getElem?_cons_zero]
          cases bit with
          | false => simp [Nat.testBit_zero]
          | true => simp [Nat.testBit_zero]
      | succ j =>
          have hhalf : (2 * ofBits bits + bit.toNat) / 2 = ofBits bits := by
            cases bit with
            | false => simp
            | true =>
                simp only [Bool.toNat_true]
                omega
          rw [List.getElem?_cons_succ, Nat.testBit_succ, hhalf]
          exact ih j

/-- The bits of a slice. -/
theorem testBit_slice {bytes : List UInt8} {start count : Nat}
    (h : start + count ≤ 8 * bytes.length) (j : Nat) :
    (slice bytes start count).testBit j = decide (j < count ∧
      ((bitsOf bytes)[start + (count - 1 - j)]?).getD false = true) := by
  have hlength : (((bitsOf bytes).drop start).take count).length = count := by
    rw [List.length_take, List.length_drop, length_bitsOf]
    omega
  rw [slice, testBit_ofBits]
  by_cases hj : j < count
  · rw [List.getElem?_reverse (by rwa [hlength]), hlength,
      List.getElem?_take_of_lt (by omega), List.getElem?_drop]
    simp [hj]
  · rw [List.getElem?_eq_none (by rw [List.length_reverse, hlength]; omega)]
    simp [hj]

/-! ## Whole octets -/

theorem ofBits_append (bits bits' : List Bool) :
    ofBits (bits ++ bits') = ofBits bits * 2 ^ bits'.length + ofBits bits' := by
  induction bits' using List.reverseRecOn with
  | nil => simp [ofBits]
  | append_singleton bits' bit ih =>
      rw [← List.append_assoc, ofBits_snoc, ih, ofBits_snoc, List.length_append,
        List.length_singleton, Nat.pow_succ]
      ring

/-- An octet is the number of its bits. -/
theorem ofBits_octetBits (b : UInt8) : ofBits (octetBits b) = b.toNat := by
  refine Nat.eq_of_testBit_eq fun j => ?_
  rw [testBit_ofBits]
  by_cases hj : j < 8
  · rw [List.getElem?_reverse (by rwa [length_octetBits]), length_octetBits,
      getElem?_octetBits b (by omega), show 7 - (8 - 1 - j) = j by omega]
    rfl
  · have hlt : b.toNat < 2 ^ j :=
      Nat.lt_of_lt_of_le (UInt8.toNat_lt b) (Nat.pow_le_pow_right (by decide) (by omega))
    rw [List.getElem?_eq_none (by rw [List.length_reverse, length_octetBits]; omega),
      Nat.testBit_lt_two_pow hlt]
    rfl

/-- The bits of an octet string stand for its big-endian number. -/
theorem ofBits_bitsOf (bytes : List UInt8) :
    ofBits (bitsOf bytes) = bytes.foldl (fun value b => value * 256 + b.toNat) 0 := by
  induction bytes using List.reverseRecOn with
  | nil => rfl
  | append_singleton bytes b ih =>
      rw [bitsOf, List.flatMap_append, List.flatMap_singleton, ofBits_append, length_octetBits,
        ofBits_octetBits, List.foldl_append, List.foldl_cons, List.foldl_nil, ← ih, bitsOf]
      rfl

/-- A slice of whole octets is their big-endian number. -/
theorem slice_octets (before field after : List UInt8) :
    slice (before ++ field ++ after) (8 * before.length) (8 * field.length) =
      field.foldl (fun value b => value * 256 + b.toNat) 0 := by
  rw [slice, bitsOf, List.flatMap_append, List.flatMap_append, ← bitsOf, ← bitsOf, ← bitsOf,
    ← length_bitsOf, ← length_bitsOf, List.append_assoc, List.drop_left, List.take_left,
    ofBits_bitsOf]

theorem slice_octet {bytes : List UInt8} {k : Nat} {b : UInt8} (h : bytes[k]? = some b) :
    slice bytes (8 * k) 8 = b.toNat := by
  obtain ⟨hlt, hb⟩ := List.getElem?_eq_some_iff.mp h
  have hsplit : bytes.take k ++ [b] ++ bytes.drop (k + 1) = bytes := by
    rw [List.append_assoc, List.singleton_append, ← hb, ← List.drop_eq_getElem_cons hlt,
      List.take_append_drop]
  have hslice := slice_octets (bytes.take k) [b] (bytes.drop (k + 1))
  rw [hsplit, List.length_take, Nat.min_eq_left (Nat.le_of_lt hlt)] at hslice
  exact hslice.trans (Nat.zero_add _)

end Support
