import Mathlib.Data.Int.Log
import Mathlib.Data.List.DropRight
import Mathlib.Data.Rat.Floor
import Mathlib.Tactic.FieldSimp
import Mathlib.Tactic.Linarith
import Mathlib.Tactic.NormNum
import Mathlib.Tactic.Positivity
import Mathlib.Tactic.Ring

/-!
# Decimal texts

The general number format `%.Ng` writes `N` significant digits, in fixed notation or with
an exponent, and leaves insignificant zeros out.  Reading the text of a number that has at
most `N` significant digits gives the number back.
-/

namespace Support.DecimalText

/-! ## Digits -/

/-- The number that a list of digits denotes. -/
def value (cs : List Char) : ℕ :=
  Nat.ofDigitChars 10 cs 0

/-- The last `k` digits of a number, with zeros in front. -/
def padded : ℕ → ℕ → List Char
  | 0, _ => []
  | k + 1, n => padded k (n / 10) ++ [Nat.digitChar (n % 10)]

theorem value_append (cs ds : List Char) :
    value (cs ++ ds) = 10 ^ ds.length * value cs + value ds := by
  rw [value, Nat.ofDigitChars_append, Nat.ofDigitChars_eq_ofDigitChars_zero]
  rfl

theorem value_toDigits (n : ℕ) : value (Nat.toDigits 10 n) = n :=
  Nat.ofDigitChars_ten_toDigits

@[simp] theorem length_padded (k n : ℕ) : (padded k n).length = k := by
  induction k generalizing n with
  | zero => rfl
  | succ k ih => rw [padded, List.length_append, ih, List.length_singleton]

theorem value_padded (k n : ℕ) : value (padded k n) = n % 10 ^ k := by
  induction k generalizing n with
  | zero => rw [pow_zero, Nat.mod_one]; rfl
  | succ k ih =>
      have hdigit : value [Nat.digitChar (n % 10)] = n % 10 := by
        rw [value, Nat.ofDigitChars_cons_digitChar_of_lt_ten (Nat.mod_lt n (by decide)),
          Nat.ofDigitChars_nil, Nat.mul_zero, Nat.zero_add]
      rw [padded, value_append, ih, hdigit, List.length_singleton, pow_one, pow_succ',
        Nat.mod_mul]
      omega

/-- Every character is a decimal digit. -/
def Digits (cs : List Char) : Prop :=
  ∀ c ∈ cs, c.isDigit = true

theorem digits_toDigits (n : ℕ) : Digits (Nat.toDigits 10 n) :=
  fun _ hc => Nat.isDigit_of_mem_toDigits (by decide) (by decide) hc

theorem digits_padded (k n : ℕ) : Digits (padded k n) := by
  induction k generalizing n with
  | zero =>
      intro c hc
      cases hc
  | succ k ih =>
      intro c hc
      rw [padded, List.mem_append, List.mem_singleton] at hc
      rcases hc with hc | rfl
      · exact ih (n / 10) c hc
      · rw [Nat.isDigit_digitChar]
        exact decide_eq_true (Nat.mod_lt n (by decide))

/-- Digits without the zeros at the end. -/
def significant (cs : List Char) : List Char :=
  cs.rdropWhile (· = '0')

theorem digits_significant {cs : List Char} (h : Digits cs) : Digits (significant cs) :=
  fun c hc => h c ((List.rdropWhile_prefix _ _).subset hc)

theorem length_significant_le (cs : List Char) : (significant cs).length ≤ cs.length :=
  (List.rdropWhile_prefix _ _).length_le

/-- Zeros at the end only shift the digits before them. -/
theorem value_significant (cs : List Char) :
    10 ^ (cs.length - (significant cs).length) * value (significant cs) = value cs := by
  have hsplit : significant cs ++ cs.rtakeWhile (· = '0') = cs :=
    List.rdropWhile_append_rtakeWhile
  have hzeros : cs.rtakeWhile (· = '0') =
      List.replicate (cs.rtakeWhile (· = '0')).length '0' :=
    List.eq_replicate_of_mem fun c hc => by simpa using List.mem_rtakeWhile_imp hc
  have hlength : (cs.rtakeWhile (· = '0')).length = cs.length - (significant cs).length := by
    have hlen := congrArg List.length hsplit
    rw [List.length_append] at hlen
    omega
  have hvalue := congrArg value hsplit
  rw [hzeros, hlength, value_append, List.length_replicate] at hvalue
  have hzero : value (List.replicate (cs.length - (significant cs).length) '0') = 0 := by
    rw [value, Nat.ofDigitChars_replicate_zero, Nat.mul_zero]
  rw [← hvalue, hzero, Nat.add_zero]

/-! ## Writing -/

/-- The text of `n / 10 ^ k`. -/
def pointed (n k : ℕ) : List Char :=
  Nat.toDigits 10 (n / 10 ^ k) ++
    if significant (padded k n) = [] then [] else '.' :: significant (padded k n)

/-- The exponent part: a sign and at least two digits. -/
def exponentPart (e : ℤ) : List Char :=
  'e' :: (if e < 0 then '-' else '+') ::
    if e.natAbs < 10 then padded 2 e.natAbs else Nat.toDigits 10 e.natAbs

/-- The text of `m * 10 ^ (e - (N - 1))`, whose leading digit has the exponent `e`. -/
def layout (N m : ℕ) (e : ℤ) : List Char :=
  if -4 ≤ e ∧ e < N then pointed m (N - 1 - e).toNat
  else pointed m (N - 1) ++ exponentPart e

/-- The nearest integer, the even one of two. -/
def roundHalfEven (x : ℚ) : ℤ :=
  if x - ⌊x⌋ < 1 / 2 then ⌊x⌋
  else if 1 / 2 < x - ⌊x⌋ then ⌊x⌋ + 1
  else if ⌊x⌋ % 2 = 0 then ⌊x⌋ else ⌊x⌋ + 1

/-- `N` significant digits of a positive number. -/
def generalPositive (N : ℕ) (a : ℚ) : List Char :=
  let e := Int.log 10 a
  let m := (roundHalfEven (a * 10 ^ (N - 1 - e))).toNat
  -- rounding can carry into one more digit
  if m = 10 ^ N then layout N (10 ^ (N - 1)) (e + 1) else layout N m e

/-- `format(q, ".Ng")`. -/
def general (N : ℕ) (q : ℚ) : String :=
  if q = 0 then "0"
  else String.ofList ((if q < 0 then ['-'] else []) ++ generalPositive N |q|)

/-! ## Reading -/

/-- An integer with an optional sign. -/
def readInteger : List Char → Option ℤ
  | '-' :: ds => if ds ≠ [] ∧ ds.all Char.isDigit then some (-value ds) else none
  | '+' :: ds => if ds ≠ [] ∧ ds.all Char.isDigit then some (value ds) else none
  | ds => if ds ≠ [] ∧ ds.all Char.isDigit then some (value ds) else none

/-- The exponent behind the digits. -/
def readExponent : List Char → Option ℤ
  | [] => some 0
  | c :: rest => if c = 'e' ∨ c = 'E' then readInteger rest else none

/-- The digits behind a point, and what follows. -/
def readFraction : List Char → List Char × List Char
  | '.' :: rest => (rest.takeWhile Char.isDigit, rest.dropWhile Char.isDigit)
  | rest => ([], rest)

/-- A decimal literal without a sign. -/
def readUnsigned (cs : List Char) : Option ℚ :=
  let whole := cs.takeWhile Char.isDigit
  let tail := readFraction (cs.dropWhile Char.isDigit)
  if whole ++ tail.1 = [] then none
  else (readExponent tail.2).map fun e : ℤ =>
    (value (whole ++ tail.1) : ℚ) * 10 ^ (e - (tail.1.length : ℤ))

/-- The number that a decimal literal denotes. -/
def read (text : String) : Option ℚ :=
  match text.toList with
  | '-' :: cs => (readUnsigned cs).map fun a => -a
  | '+' :: cs => readUnsigned cs
  | cs => readUnsigned cs

/-! ## Reading digits back -/

/-- The text does not go on with a digit. -/
def NoDigit (cs : List Char) : Prop :=
  ∀ c ∈ cs.head?, c.isDigit = false

theorem takeWhile_digits {ds rest : List Char} (hds : Digits ds) (hrest : NoDigit rest) :
    (ds ++ rest).takeWhile Char.isDigit = ds := by
  rw [List.takeWhile_append_of_pos hds]
  cases rest with
  | nil => simp
  | cons c rest =>
      have hc := hrest c rfl
      rw [List.takeWhile_cons_of_neg (by simp [hc]), List.append_nil]

theorem dropWhile_digits {ds rest : List Char} (hds : Digits ds) (hrest : NoDigit rest) :
    (ds ++ rest).dropWhile Char.isDigit = rest := by
  rw [List.dropWhile_append_of_pos hds]
  cases rest with
  | nil => rfl
  | cons c rest =>
      have hc := hrest c rfl
      rw [List.dropWhile_cons_of_neg (by simp [hc])]

/-- The rest of a literal is an exponent or nothing. -/
structure Tail (rest : List Char) : Prop where
  digit : NoDigit rest
  point : ∀ ds, rest ≠ '.' :: ds

theorem tail_nil : Tail [] :=
  ⟨fun _ hc => (by cases hc), fun _ h => (by cases h)⟩

theorem tail_exponentPart (e : ℤ) : Tail (exponentPart e) := by
  refine ⟨fun c hc => ?_, fun ds h => ?_⟩
  · obtain rfl := Option.some.inj hc
    rfl
  · exact absurd (List.cons.inj h).1 (by decide)

theorem readFraction_of_tail {rest : List Char} (h : Tail rest) :
    readFraction rest = ([], rest) := by
  unfold readFraction
  split
  next ds => exact absurd rfl (h.point ds)
  next => rfl

/-- A pointed text reads as its quotient, whatever exponent follows. -/
theorem readUnsigned_pointed (n k : ℕ) {rest : List Char} (hrest : Tail rest) :
    readUnsigned (pointed n k ++ rest) =
      (readExponent rest).map fun e : ℤ => (n : ℚ) * 10 ^ (e - (k : ℤ)) := by
  have hwhole := digits_toDigits (n / 10 ^ k)
  have hne : Nat.toDigits 10 (n / 10 ^ k) ≠ [] := Nat.toDigits_ne_nil
  have hsplit : n = 10 ^ k * (n / 10 ^ k) + n % 10 ^ k := (Nat.div_add_mod n (10 ^ k)).symm
  have hfraction := value_significant (padded k n)
  rw [length_padded, value_padded] at hfraction
  have hlength := length_significant_le (padded k n)
  rw [length_padded] at hlength
  rw [pointed]
  split
  next hnone =>
    rw [hnone, List.length_nil, Nat.sub_zero] at hfraction
    have hzero : n % 10 ^ k = 0 := by
      rw [← hfraction, value, Nat.ofDigitChars_nil, Nat.mul_zero]
    rw [List.append_nil, readUnsigned, takeWhile_digits hwhole hrest.digit,
      dropWhile_digits hwhole hrest.digit, readFraction_of_tail hrest, List.append_nil,
      if_neg hne, value_toDigits]
    congr 1
    funext e
    have hn : (n : ℚ) = 10 ^ k * ((n / 10 ^ k : ℕ) : ℚ) := by
      rw [hzero, Nat.add_zero] at hsplit
      exact_mod_cast hsplit
    rw [hn, List.length_nil, Nat.cast_zero, sub_zero, mul_comm ((10 : ℚ) ^ k), mul_assoc,
      ← zpow_natCast, ← zpow_add₀ (by norm_num), add_sub_cancel]
  next =>
    have hdigits : Digits (significant (padded k n)) := digits_significant (digits_padded k n)
    generalize significant (padded k n) = ds at hdigits hfraction hlength ⊢
    have hpoint : NoDigit ('.' :: ds ++ rest) := by
      intro c hc
      obtain rfl := Option.some.inj hc
      rfl
    rw [List.append_assoc, readUnsigned, takeWhile_digits hwhole hpoint,
      dropWhile_digits hwhole hpoint]
    rw [List.cons_append, readFraction, takeWhile_digits hdigits hrest.digit,
      dropWhile_digits hdigits hrest.digit]
    dsimp only
    have hdigitsne : Nat.toDigits 10 (n / 10 ^ k) ++ ds ≠ [] :=
      List.append_ne_nil_of_left_ne_nil hne ds
    rw [if_neg hdigitsne, value_append, value_toDigits]
    congr 1
    funext e
    have hn : (n : ℚ) =
        10 ^ (k - ds.length) * ((10 ^ ds.length * (n / 10 ^ k) + value ds : ℕ) : ℚ) := by
      have hpow : 10 ^ k = 10 ^ (k - ds.length) * 10 ^ ds.length := by
        rw [← pow_add, Nat.sub_add_cancel hlength]
      have hnat : n = 10 ^ (k - ds.length) * (10 ^ ds.length * (n / 10 ^ k) + value ds) := by
        rw [Nat.mul_add, hfraction, ← Nat.mul_assoc, ← hpow]
        exact hsplit
      exact_mod_cast hnat
    have hexponent : (10 : ℚ) ^ (k - ds.length) = 10 ^ ((k : ℤ) - ds.length) := by
      rw [← zpow_natCast, Nat.cast_sub hlength]
    rw [hn, hexponent, mul_comm ((10 : ℚ) ^ ((k : ℤ) - ds.length)), mul_assoc,
      ← zpow_add₀ (by norm_num)]
    congr 2
    ring

theorem all_isDigit {ds : List Char} (h : Digits ds) : ds.all Char.isDigit = true :=
  List.all_eq_true.mpr h

theorem readExponent_exponentPart (e : ℤ) : readExponent (exponentPart e) = some e := by
  have hvalue : ∀ ds : List Char, ds = (if e.natAbs < 10 then padded 2 e.natAbs
      else Nat.toDigits 10 e.natAbs) → ds ≠ [] ∧ ds.all Char.isDigit = true ∧
        value ds = e.natAbs := by
    rintro ds rfl
    split
    next hsmall =>
      refine ⟨List.ne_nil_of_length_pos (by rw [length_padded]; decide),
        all_isDigit (digits_padded _ _), ?_⟩
      rw [value_padded, Nat.mod_eq_of_lt (by omega)]
    next =>
      exact ⟨Nat.toDigits_ne_nil, all_isDigit (digits_toDigits _), value_toDigits _⟩
  obtain ⟨hne, hall, hval⟩ := hvalue _ rfl
  rw [exponentPart, readExponent, if_pos (Or.inl rfl)]
  by_cases hneg : e < 0
  · rw [if_pos hneg, readInteger, if_pos ⟨hne, hall⟩, hval]
    congr 1
    omega
  · rw [if_neg hneg, readInteger, if_pos ⟨hne, hall⟩, hval]
    congr 1
    omega

/-- A layout reads as the number that it lays out. -/
theorem readUnsigned_layout (N m : ℕ) (e : ℤ) (hN : 0 < N) :
    readUnsigned (layout N m e) = some ((m : ℚ) * 10 ^ (e - (N - 1))) := by
  rw [layout]
  split
  next hfixed =>
    have hplaces : (((N : ℤ) - 1 - e).toNat : ℤ) = N - 1 - e :=
      Int.toNat_of_nonneg (by omega)
    have hread := readUnsigned_pointed m ((N : ℤ) - 1 - e).toNat tail_nil
    rw [List.append_nil] at hread
    rw [hread, show readExponent [] = some 0 from rfl, Option.map_some, hplaces]
    congr 3
    ring
  next =>
    have hplaces : ((N - 1 : ℕ) : ℤ) = N - 1 := by omega
    rw [readUnsigned_pointed m (N - 1) (tail_exponentPart e), readExponent_exponentPart,
      Option.map_some, hplaces]

/-! ## Significant digits -/

/-- The number has at most `N` significant decimal digits. -/
def HasDigits (N : ℕ) (q : ℚ) : Prop :=
  ∃ m e : ℤ, |m| < 10 ^ N ∧ q = m * 10 ^ e

theorem roundHalfEven_natCast (n : ℕ) : roundHalfEven n = n := by
  rw [roundHalfEven, Int.floor_natCast, Int.cast_natCast, sub_self, if_pos (by norm_num)]

/-- Scaled to its leading digit, a number with at most `N` digits is an integer of `N`
digits. -/
theorem HasDigits.scaled {N : ℕ} {a : ℚ} (h : HasDigits N a) (ha : 0 < a) :
    ∃ n : ℕ, a * 10 ^ ((N : ℤ) - 1 - Int.log 10 a) = n ∧ n < 10 ^ N := by
  obtain ⟨m, e, hm, rfl⟩ := h
  have hpow : ∀ i : ℤ, (0 : ℚ) < 10 ^ i := fun i => zpow_pos (by norm_num) i
  have hmpos : 0 < m := by
    have hcast : (0 : ℚ) < m := (mul_pos_iff_of_pos_right (hpow e)).mp ha
    exact_mod_cast hcast
  have hm' : (m : ℚ) < 10 ^ (N : ℤ) := by
    rw [abs_of_pos hmpos] at hm
    rw [zpow_natCast]
    exact_mod_cast hm
  have hlow := Int.zpow_log_le_self (b := 10) (by decide) ha
  have hhigh := Int.lt_zpow_succ_log_self (b := 10) (by decide) ((m : ℚ) * 10 ^ e)
  generalize Int.log 10 ((m : ℚ) * 10 ^ e) = l at hlow hhigh ⊢
  have hshift : 0 ≤ e + (N - 1 - l) := by
    have hlt : (10 : ℚ) ^ l < 10 ^ ((N : ℤ) + e) := by
      rw [zpow_add₀ (by norm_num)]
      exact hlow.trans_lt (mul_lt_mul_of_pos_right hm' (hpow e))
    have hexponents := (zpow_lt_zpow_iff_right₀ (by norm_num : (1 : ℚ) < 10)).mp hlt
    omega
  obtain ⟨j, hj⟩ := Int.eq_ofNat_of_zero_le hshift
  obtain ⟨n, hn⟩ := Int.eq_ofNat_of_zero_le hmpos.le
  have hscaled : (m : ℚ) * 10 ^ e * 10 ^ ((N : ℤ) - 1 - l) = ((n * 10 ^ j : ℕ) : ℚ) := by
    rw [mul_assoc, ← zpow_add₀ (by norm_num), hj, hn]
    push_cast
    rfl
  refine ⟨n * 10 ^ j, hscaled, ?_⟩
  have hlt : ((n * 10 ^ j : ℕ) : ℚ) < ((10 ^ N : ℕ) : ℚ) := by
    rw [← hscaled]
    calc (m : ℚ) * 10 ^ e * 10 ^ ((N : ℤ) - 1 - l)
        < 10 ^ (l + 1) * 10 ^ ((N : ℤ) - 1 - l) := mul_lt_mul_of_pos_right hhigh (hpow _)
      _ = ((10 ^ N : ℕ) : ℚ) := by
        rw [← zpow_add₀ (by norm_num)]
        push_cast
        rw [← zpow_natCast]
        congr 1
        ring
  exact_mod_cast hlt

/-- A power of ten shifts the digits. -/
theorem HasDigits.shift {N : ℕ} {q : ℚ} (h : HasDigits N q) (k : ℤ) : HasDigits N (q * 10 ^ k) := by
  obtain ⟨m, e, hm, rfl⟩ := h
  exact ⟨m, e + k, hm, by rw [mul_assoc, ← zpow_add₀ (by norm_num)]⟩

theorem HasDigits.abs {N : ℕ} {q : ℚ} (h : HasDigits N q) : HasDigits N |q| := by
  obtain ⟨m, e, hm, rfl⟩ := h
  refine ⟨|m|, e, by rwa [abs_abs], ?_⟩
  have hpow : (0 : ℚ) ≤ 10 ^ e := (zpow_pos (by norm_num) e).le
  rw [abs_mul, abs_of_nonneg hpow, Int.cast_abs]

theorem readUnsigned_generalPositive {N : ℕ} {a : ℚ} (hN : 0 < N) (h : HasDigits N a)
    (ha : 0 < a) : readUnsigned (generalPositive N a) = some a := by
  obtain ⟨n, hn, hlt⟩ := h.scaled ha
  have hround : (roundHalfEven (a * 10 ^ ((N : ℤ) - 1 - Int.log 10 a))).toNat = n := by
    rw [hn, roundHalfEven_natCast, Int.toNat_natCast]
  simp only [generalPositive, hround, if_neg hlt.ne]
  rw [readUnsigned_layout N n _ hN, ← hn, mul_assoc, ← zpow_add₀ (by norm_num)]
  congr 1
  rw [show (N : ℤ) - 1 - Int.log 10 a + (Int.log 10 a - (N - 1)) = 0 by ring, zpow_zero, mul_one]

/-! ## Round trips -/

/-- A text that reads without a sign has none. -/
theorem read_ofList {cs : List Char} {a : ℚ} (h : readUnsigned cs = some a) :
    read (String.ofList cs) = some a := by
  rw [read, String.toList_ofList]
  split
  next rest => cases h
  next rest => cases h
  next => exact h

theorem read_ofList_neg {cs : List Char} {a : ℚ} (h : readUnsigned cs = some a) :
    read (String.ofList ('-' :: cs)) = some (-a) := by
  rw [read, String.toList_ofList]
  simp only [h, Option.map_some]

theorem readUnsigned_toDigits (n : ℕ) : readUnsigned (Nat.toDigits 10 n) = some (n : ℚ) := by
  have hpointed : pointed n 0 ++ [] = Nat.toDigits 10 n := by
    rw [pointed, pow_zero, Nat.div_one, List.append_nil]
    exact List.append_nil _
  have hread := readUnsigned_pointed n 0 tail_nil
  rw [hpointed] at hread
  rw [hread, show readExponent [] = some 0 from rfl, Option.map_some]
  norm_num

/-- The text of an integer reads as the integer. -/
theorem read_toString (n : ℤ) : read (toString n) = some (n : ℚ) := by
  cases n with
  | ofNat n =>
      have htext : toString (Int.ofNat n) = String.ofList (Nat.toDigits 10 n) :=
        Nat.repr_eq_ofList_toDigits
      rw [htext, read_ofList (readUnsigned_toDigits n)]
      rfl
  | negSucc n =>
      have htext : toString (Int.negSucc n) =
          String.ofList ('-' :: Nat.toDigits 10 (n + 1)) := by
        rw [String.ofList_cons, ← Nat.repr_eq_ofList_toDigits]
        rfl
      rw [htext, read_ofList_neg (readUnsigned_toDigits (n + 1))]
      push_cast [Int.negSucc_eq]
      rfl

/-- The text of a number with at most `N` significant digits reads as the number. -/
theorem read_general {N : ℕ} {q : ℚ} (hN : 0 < N) (h : HasDigits N q) :
    read (general N q) = some q := by
  rw [general]
  by_cases hzero : q = 0
  · have hread := read_toString 0
    rw [Int.cast_zero] at hread
    rw [if_pos hzero, hzero]
    exact hread
  rw [if_neg hzero]
  have hread := readUnsigned_generalPositive hN h.abs (abs_pos.mpr hzero)
  by_cases hneg : q < 0
  · rw [if_pos hneg, List.singleton_append, read_ofList_neg hread, abs_of_neg hneg, neg_neg]
  · rw [if_neg hneg, List.nil_append, read_ofList hread, abs_of_nonneg (not_lt.mp hneg)]

example : general 15 (1 / 10) = "0.1" ∧ general 15 (-1234567 / 1000) = "-1234.567" ∧
    general 15 (10 ^ 16) = "1e+16" ∧ general 15 (2 / 3) = "0.666666666666667" := by
  decide +kernel

end Support.DecimalText
