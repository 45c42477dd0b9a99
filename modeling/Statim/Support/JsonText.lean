import Mathlib.Data.List.Basic
import Mathlib.Data.Nat.Basic

/-!
# JSON texts

Strings and arrays of strings in JSON, with everything outside of printable ASCII escaped
and without blanks.  No such text is the beginning of another one, so that a text made of
several of them can be taken apart in one way only.
-/

namespace Support.JsonText

/-! ## Escapes -/

/-- Four hexadecimal digits. -/
def hex4 (n : ℕ) : List Char :=
  [Nat.digitChar (n / 4096), Nat.digitChar (n / 256 % 16), Nat.digitChar (n / 16 % 16),
    Nat.digitChar (n % 16)]

/-- `\u` and four hexadecimal digits. -/
def unicode (n : ℕ) : List Char :=
  '\\' :: 'u' :: hex4 n

/-- One character of a string. -/
def escape (c : Char) : List Char :=
  if c = '"' then ['\\', '"']
  else if c = '\\' then ['\\', '\\']
  else if c = '\n' then ['\\', 'n']
  else if c = '\r' then ['\\', 'r']
  else if c = '\t' then ['\\', 't']
  else if c = '\x0c' then ['\\', 'f']
  else if c = '\x08' then ['\\', 'b']
  else if ' ' ≤ c ∧ c ≤ '~' then [c]
  else if c.toNat < 0x10000 then unicode c.toNat
  -- a surrogate pair
  else unicode (0xd800 + (c.toNat - 0x10000) / 0x400) ++
    unicode (0xdc00 + (c.toNat - 0x10000) % 0x400)

/-- A string in quotation marks. -/
def quote (s : String) : List Char :=
  '"' :: s.toList.flatMap escape ++ ['"']

/-- Quoted strings with commas between them. -/
def items : List String → List Char
  | [] => []
  | [s] => quote s
  | s :: rest => quote s ++ ',' :: items rest

/-- An array of strings. -/
def strings (l : List String) : List Char :=
  '[' :: items l ++ [']']

/-! ## Reading one character back -/

/-- The value of a hexadecimal digit. -/
def hexValue (c : Char) : ℕ :=
  if c.isDigit then c.toNat - 48 else c.toNat - 87

/-- The number of four hexadecimal digits. -/
def unhex4 (a b c d : Char) : ℕ :=
  hexValue a * 4096 + hexValue b * 256 + hexValue c * 16 + hexValue d

/-- The character that an escape sequence stands for, and what follows. -/
def unescape : List Char → Option (Char × List Char)
  | '\\' :: 'u' :: a :: b :: c :: d :: rest =>
      if 0xd800 ≤ unhex4 a b c d ∧ unhex4 a b c d < 0xdc00 then
        match rest with
        | _ :: _ :: a' :: b' :: c' :: d' :: rest =>
            some (Char.ofNat (0x10000 + (unhex4 a b c d - 0xd800) * 0x400 +
              (unhex4 a' b' c' d' - 0xdc00)), rest)
        | _ => none
      else some (Char.ofNat (unhex4 a b c d), rest)
  | '\\' :: 'n' :: rest => some ('\n', rest)
  | '\\' :: 'r' :: rest => some ('\r', rest)
  | '\\' :: 't' :: rest => some ('\t', rest)
  | '\\' :: 'f' :: rest => some ('\x0c', rest)
  | '\\' :: 'b' :: rest => some ('\x08', rest)
  | '\\' :: c :: rest => some (c, rest)
  | c :: rest => some (c, rest)
  | [] => none

theorem hexValue_digitChar : ∀ d < 16, hexValue (Nat.digitChar d) = d := by decide

theorem unhex4_hex4 {n : ℕ} (h : n < 0x10000) :
    unhex4 (Nat.digitChar (n / 4096)) (Nat.digitChar (n / 256 % 16))
      (Nat.digitChar (n / 16 % 16)) (Nat.digitChar (n % 16)) = n := by
  rw [unhex4, hexValue_digitChar _ (by omega), hexValue_digitChar _ (by omega),
    hexValue_digitChar _ (by omega), hexValue_digitChar _ (by omega)]
  omega

/-- No character is a surrogate. -/
theorem not_surrogate (c : Char) : ¬(0xd800 ≤ c.toNat ∧ c.toNat < 0xdc00) := by
  have hvalid := c.valid
  rw [UInt32.isValidChar, Nat.isValidChar] at hvalid
  have hnat : c.val.toNat = c.toNat := rfl
  omega

theorem toNat_lt (c : Char) : c.toNat < 0x110000 := by
  have hvalid := c.valid
  rw [UInt32.isValidChar, Nat.isValidChar] at hvalid
  have hnat : c.val.toNat = c.toNat := rfl
  omega

/-- An escaped character reads back, whatever follows. -/
theorem unescape_escape (c : Char) (rest : List Char) :
    unescape (escape c ++ rest) = some (c, rest) := by
  rw [escape]
  split_ifs with h₁ h₂ h₃ h₄ h₅ h₆ h₇ h₈ h₉
  · rw [h₁]; rfl
  · rw [h₂]; rfl
  · rw [h₃]; rfl
  · rw [h₄]; rfl
  · rw [h₅]; rfl
  · rw [h₆]; rfl
  · rw [h₇]; rfl
  · rw [List.singleton_append]
    unfold unescape
    split
    all_goals simp_all
  · simp only [unicode, hex4, List.cons_append, List.nil_append, unescape]
    rw [unhex4_hex4 h₉, if_neg (not_surrogate c), Char.ofNat_toNat]
  · have hlt := toNat_lt c
    have hhigh : 0xd800 + (c.toNat - 0x10000) / 0x400 < 0x10000 := by omega
    have hlow : 0xdc00 + (c.toNat - 0x10000) % 0x400 < 0x10000 := by omega
    simp only [unicode, hex4, List.cons_append, List.nil_append, unescape]
    rw [unhex4_hex4 hhigh, unhex4_hex4 hlow, if_pos (by omega)]
    have hnat : 0x10000 + (0xd800 + (c.toNat - 0x10000) / 0x400 - 0xd800) * 0x400 +
        (0xdc00 + (c.toNat - 0x10000) % 0x400 - 0xdc00) = c.toNat := by omega
    rw [hnat, Char.ofNat_toNat]

theorem escape_append_inj {c d : Char} {r r' : List Char} (h : escape c ++ r = escape d ++ r') :
    c = d ∧ r = r' := by
  have hread := congrArg unescape h
  rw [unescape_escape, unescape_escape, Option.some.injEq, Prod.mk.injEq] at hread
  exact hread

/-- A quotation mark inside a string does not end it. -/
theorem escape_append_ne (c : Char) (r r' : List Char) : escape c ++ r ≠ '"' :: r' := by
  intro h
  have hread := congrArg unescape h
  have hmark : unescape ('"' :: r') = some ('"', r') := rfl
  rw [unescape_escape, hmark, Option.some.injEq, Prod.mk.injEq] at hread
  obtain ⟨rfl, rfl⟩ := hread
  exact absurd (congrArg List.length h) (by simp [escape])

/-! ## Taking texts apart -/

theorem body_append_inj {s t r r' : List Char}
    (h : s.flatMap escape ++ '"' :: r = t.flatMap escape ++ '"' :: r') : s = t ∧ r = r' := by
  induction s generalizing t with
  | nil =>
      cases t with
      | nil => exact ⟨rfl, (List.cons.inj h).2⟩
      | cons d t =>
          rw [List.flatMap_cons, List.append_assoc] at h
          exact absurd h.symm (escape_append_ne d _ _)
  | cons c s ih =>
      cases t with
      | nil =>
          rw [List.flatMap_cons, List.append_assoc] at h
          exact absurd h (escape_append_ne c _ _)
      | cons d t =>
          rw [List.flatMap_cons, List.flatMap_cons, List.append_assoc, List.append_assoc] at h
          obtain ⟨rfl, hrest⟩ := escape_append_inj h
          obtain ⟨rfl, hr⟩ := ih hrest
          exact ⟨rfl, hr⟩

theorem quote_append_inj {s t : String} {r r' : List Char} (h : quote s ++ r = quote t ++ r') :
    s = t ∧ r = r' := by
  simp only [quote, List.cons_append, List.append_assoc, List.cons.injEq, true_and,
    List.nil_append] at h
  obtain ⟨hs, hr⟩ := body_append_inj h
  exact ⟨String.toList_inj.mp hs, hr⟩

theorem items_append_inj {l l' : List String} {r r' : List Char}
    (h : items l ++ ']' :: r = items l' ++ ']' :: r') : l = l' ∧ r = r' := by
  induction l using items.induct generalizing l' with
  | case1 =>
      rcases l' with _ | ⟨t, _ | ⟨t', l'⟩⟩
      · exact ⟨rfl, (List.cons.inj h).2⟩
      · exact absurd (List.cons.inj h).1 (by decide)
      · exact absurd (List.cons.inj h).1 (by decide)
  | case2 s =>
      rcases l' with _ | ⟨t, _ | ⟨t', l'⟩⟩
      · exact absurd (List.cons.inj h).1 (by decide)
      · obtain ⟨rfl, hr⟩ := quote_append_inj h
        exact ⟨rfl, (List.cons.inj hr).2⟩
      · rw [items, items, List.append_assoc] at h
        exact absurd (List.cons.inj (quote_append_inj h).2).1 (by decide)
        simp
  | case3 s l hne ih =>
      have hitems : items (s :: l) = quote s ++ ',' :: items l := by
        rw [items]
        exact hne
      rcases l' with _ | ⟨t, _ | ⟨t', l'⟩⟩
      · rw [hitems] at h
        exact absurd (List.cons.inj h).1 (by decide)
      · rw [hitems, items, List.append_assoc] at h
        exact absurd (List.cons.inj (quote_append_inj h).2).1 (by decide)
      · have hitems' : items (t :: t' :: l') = quote t ++ ',' :: items (t' :: l') := by
          rw [items]
          simp
        rw [hitems, hitems', List.append_assoc, List.append_assoc] at h
        obtain ⟨rfl, hrest⟩ := quote_append_inj h
        obtain ⟨rfl, hr⟩ := ih (List.cons.inj hrest).2
        exact ⟨rfl, hr⟩

/-- An array of strings is determined by the text that begins with it. -/
theorem strings_append_inj {l l' : List String} {r r' : List Char}
    (h : strings l ++ r = strings l' ++ r') : l = l' ∧ r = r' := by
  simp only [strings, List.cons_append, List.append_assoc, List.cons.injEq, true_and,
    List.nil_append] at h
  exact items_append_inj h

end Support.JsonText
