import Noobia.Lib.CString

/-!
# Numbers and bytes in digits

How a number is written in decimal digits and bytes in hexadecimal ones, and that they are read
back: numbers by `strtol` and by the `%u` of `sscanf`, whatever follows that is not a digit, and
bytes digit by digit.
-/

open List Bytes

namespace Bytes

/-! ## Decimal -/

/-- A number in decimal, as `%u` and `%d` write it. -/
def ofNat (n : Nat) : Bytes := (Nat.toDigits 10 n).map fun c ↦ UInt8.ofNat c.toNat

theorem isDigit_iff (b : UInt8) : isDigit b = true ↔ 48 ≤ b.toNat ∧ b.toNat ≤ 57 := by
  simp [isDigit, UInt8.le_iff_toNat_le]

variable {b : UInt8}

theorem isSpace_of_isDigit (h : isDigit b = true) : isSpace b = false := by
  rw [isDigit_iff] at h
  have hne : b ≠ 32 := by
    rintro rfl
    exact absurd h.1 (by decide)
  simp only [isSpace, hne, decide_false, Bool.false_or, Bool.and_eq_false_iff,
    decide_eq_false_iff_not, UInt8.le_iff_toNat_le, UInt8.reduceToNat]
  omega

theorem toNat_of_isDigit {c : Char} (h : c.isDigit = true) :
    (UInt8.ofNat c.toNat).toNat = c.toNat ∧ 48 ≤ c.toNat ∧ c.toNat ≤ 57 := by
  rw [Char.isDigit, Bool.and_eq_true, decide_eq_true_eq, decide_eq_true_eq] at h
  have hlow : 48 ≤ c.toNat := h.1
  have hhigh : c.toNat ≤ 57 := h.2
  refine ⟨?_, hlow, hhigh⟩
  rw [UInt8.toNat_ofNat']
  exact Nat.mod_eq_of_lt (by omega)

theorem isDigit_of_mem_ofNat {n : Nat} (h : b ∈ ofNat n) : isDigit b = true := by
  obtain ⟨c, hc, rfl⟩ := mem_map.mp h
  obtain ⟨hsmall, hrange⟩ :=
    toNat_of_isDigit (Nat.isDigit_of_mem_toDigits (by decide) (Nat.le_refl 10) hc)
  rw [isDigit_iff, hsmall]
  exact hrange

theorem ofNat_ne_nil (n : Nat) : ofNat n ≠ [] := fun hnil ↦
  Nat.toDigits_ne_nil (map_eq_nil_iff.mp hnil)

theorem length_ofNat_le {n k : Nat} (hk : 0 < k) (hn : n < 10 ^ k) : (ofNat n).length ≤ k := by
  rw [ofNat, length_map]
  exact (Nat.length_toDigits_le_iff (by decide) hk).mpr hn

/-- A number in decimal, with a minus sign if it is negative, as `%d` writes it. -/
def ofInt (n : Int) : Bytes := if n < 0 then 45 :: ofNat n.natAbs else ofNat n.natAbs

theorem ofInt_ne_nil (n : Int) : ofInt n ≠ [] := by
  rw [ofInt]
  split
  · exact cons_ne_nil _ _
  · exact ofNat_ne_nil _

theorem ne_space_of_mem_ofInt {n : Int} (h : b ∈ ofInt n) : b ≠ 32 := by
  have hdigit : b = 45 ∨ isDigit b = true := by
    rw [ofInt] at h
    split at h
    · exact (mem_cons.mp h).imp_right isDigit_of_mem_ofNat
    · exact .inr (isDigit_of_mem_ofNat h)
  rintro rfl
  exact absurd hdigit (by decide)

end Bytes

namespace CString

/-- **A number is read as it was written.** -/
theorem decimal_ofNat (n : Nat) : decimal 0 (ofNat n) = n := by
  have hdigits (cs : List Char) (hcs : ∀ c ∈ cs, c.isDigit = true) (value : Nat) :
      decimal value (cs.map fun c ↦ UInt8.ofNat c.toNat) = Nat.ofDigitChars 10 cs value := by
    induction cs generalizing value with
    | nil => rfl
    | cons c cs ih =>
      obtain ⟨hc, hcs⟩ := forall_mem_cons.mp hcs
      obtain ⟨hsmall, hrange⟩ := toNat_of_isDigit hc
      have hdigit : isDigit (UInt8.ofNat c.toNat) = true := by
        rw [isDigit_iff, hsmall]
        exact hrange
      rw [map_cons, decimal, if_pos hdigit, ih hcs, Nat.ofDigitChars_cons, hsmall,
        Nat.mul_comm]
      rfl
  rw [ofNat, hdigits _ fun c hc ↦
    Nat.isDigit_of_mem_toDigits (by decide) (Nat.le_refl 10) hc]
  exact Nat.ofDigitChars_ten_toDigits

variable {n : Nat} {rest string digits : Bytes}

theorem sign_of_isDigit (h : digits.head?.any isDigit = true) : sign digits = (false, digits) := by
  refine sign.eq_3 _ ?_ ?_
  · rintro rest rfl
    cases h
  · rintro rest rfl
    cases h

theorem dropWhile_of_isDigit (h : digits.head?.any isDigit = true) :
    digits.dropWhile isSpace = digits := by
  cases digits with
  | nil => rfl
  | cons c digits => exact dropWhile_cons_of_neg (by simp [isSpace_of_isDigit h])

theorem head?_ofNat (n : Nat) (rest : Bytes) : (ofNat n ++ rest).head?.any isDigit = true := by
  obtain ⟨b, digits, hb⟩ := exists_cons_of_ne_nil (ofNat_ne_nil n)
  rw [hb]
  exact isDigit_of_mem_ofNat (hb ▸ mem_cons_self : b ∈ ofNat n)

/-- The digits of a number have no sign and no space before them. -/
theorem sign_ofNat (n : Nat) (rest : Bytes) :
    sign ((ofNat n ++ rest).dropWhile isSpace) = (false, ofNat n ++ rest) := by
  rw [dropWhile_of_isDigit (head?_ofNat n rest), sign_of_isDigit (head?_ofNat n rest)]

/-- What is read of a number and something that is not a digit. -/
theorem digits_ofNat (hrest : rest.head?.all (!isDigit ·) = true) :
    (ofNat n ++ rest).head?.any isDigit = true ∧
      decimal 0 (ofNat n ++ rest) = n ∧ (ofNat n ++ rest).dropWhile isDigit = rest := by
  refine ⟨head?_ofNat n rest, ?_, ?_⟩
  · rw [decimal_append hrest, decimal_ofNat]
  · rw [dropWhile_isDigit_append hrest, dropWhile_eq_nil_iff.mpr, nil_append]
    exact fun b hb ↦ isDigit_of_mem_ofNat hb

variable {bound : Nat}

theorem strtoSigned_ofNat (hn : n < bound) (hrest : rest.head?.all (!isDigit ·) = true) :
    strtoSigned bound (ofNat n ++ rest) = ((n : Int), rest, false) := by
  obtain ⟨hhead, hvalue, htail⟩ := digits_ofNat (n := n) hrest
  have hclamp : max (-(bound : Int)) (min (n : Int) (bound - 1)) = n := by omega
  have hlow : ¬ (n : Int) < -(bound : Int) := by omega
  have hhigh : ¬ (bound : Int) ≤ n := by omega
  rw [strtoSigned, sign_ofNat, number, if_neg (by rw [hhead]; decide), htail, hvalue]
  simp only [Bool.false_eq_true, if_false, hclamp, hlow, hhigh, decide_false, Bool.or_false]

theorem scanUInt_ofNat {ulong : Nat} (hn : n < ulong) (hn' : n < 2 ^ 32)
    (hrest : rest.head?.all (!isDigit ·) = true) :
    scanUInt ulong (ofNat n ++ rest) = some (n, rest) := by
  obtain ⟨hhead, hvalue, htail⟩ := digits_ofNat (n := n) hrest
  rw [scanUInt, sign_ofNat]
  simp only [hhead, hvalue, htail, Bool.not_true, Bool.false_eq_true, if_false,
    Nat.not_le.mpr hn, Nat.mod_eq_of_lt hn']

theorem scanUnsigned_ofNat (hn : n < 2 ^ 64) (hrest : rest.head?.all (!isDigit ·) = true) :
    scanUnsigned (ofNat n ++ rest) = some (n, rest) := by
  obtain ⟨hhead, hvalue, htail⟩ := digits_ofNat (n := n) hrest
  have hspace : ((ofNat n ++ rest).dropWhile isSpace).dropWhile isSpace =
      (ofNat n ++ rest).dropWhile isSpace := dropWhile_idempotent _ _
  rw [scanUnsigned, strtoul, hspace, sign_ofNat]
  simp only [hhead, hvalue, htail, Bool.not_true, Bool.false_eq_true, if_false]
  rw [Nat.min_eq_left (by omega)]

theorem strtoul_lt (string : Bytes) : strtoul string < 2 ^ 64 := by
  rw [strtoul]
  rcases sign (string.dropWhile isSpace) with ⟨negative, digits⟩
  dsimp only
  split
  · split
    · decide
    · exact Nat.mod_lt _ (by decide)
  · exact Nat.lt_of_le_of_lt (Nat.min_le_right _ _) (by decide)

/-- What is read as an `unsigned long long` is one. -/
theorem scanUnsigned_lt {value : Nat} (h : scanUnsigned string = some (value, rest)) :
    value < 2 ^ 64 := by
  rw [scanUnsigned] at h
  split at h
  · cases h
  · obtain ⟨rfl, -⟩ := Prod.mk.inj (Option.some.inj h)
    exact strtoul_lt _

/-- What is left of the text behind a number is not longer than the text. -/
theorem length_scanUnsigned_le {value : Nat} (h : scanUnsigned string = some (value, rest)) :
    rest.length ≤ string.length := by
  rw [scanUnsigned] at h
  split at h
  · cases h
  obtain ⟨-, rfl⟩ := Prod.mk.inj (Option.some.inj h)
  exact ((dropWhile_suffix _).trans ((sign_suffix _).trans
    (dropWhile_suffix _))).length_le

/-- The number a text is: digits, perhaps behind a sign, and nothing else. -/
def numeral (string : Bytes) : Option Int :=
  match sign string with
  | (negative, digits) =>
    if digits.isEmpty || !digits.all Bytes.isDigit then none
    else some (if negative then -(decimal 0 digits : Int) else decimal 0 digits)

variable {n : Int}

theorem exists_of_numeral (h : numeral string = some n) :
    ∃ negative digits, sign string = (negative, digits) ∧
      digits.head?.any isDigit = true ∧
      n = if negative then -(decimal 0 digits : Int) else decimal 0 digits := by
  rcases hsign : sign string with ⟨negative, digits⟩
  rw [numeral, hsign] at h
  simp only [Option.ite_none_left_eq_some, Option.some.injEq] at h
  refine ⟨negative, digits, rfl, ?_, h.2.symm⟩
  cases digits with
  | nil => exact absurd rfl h.1
  | cons c digits =>
    have hdigits := h.1
    simp only [isEmpty_cons, all_cons, Bool.false_or, Bool.not_eq_true',
      Bool.not_eq_false, Bool.and_eq_true] at hdigits
    exact hdigits.1

/-- There is no space before a number that is all of the text. -/
theorem dropWhile_of_numeral (h : numeral string = some n) : string.dropWhile isSpace = string := by
  obtain ⟨negative, digits, hsign, hhead, -⟩ := exists_of_numeral h
  rw [sign.eq_def] at hsign
  split at hsign
  · rfl
  · rfl
  · obtain ⟨-, rfl⟩ := Prod.mk.inj hsign
    exact dropWhile_of_isDigit hhead

theorem numeral_of_sign {negative : Bool}
    (hsign : sign string = (negative, digits)) (hne : digits ≠ [])
    (hdigits : digits.all isDigit = true) :
    numeral string = some (if negative then -(decimal 0 digits : Int) else decimal 0 digits) := by
  rw [numeral, hsign]
  dsimp only
  rw [hdigits, if_neg (by simpa using hne)]

theorem numeral_digits (hne : string ≠ []) (hdigits : string.all isDigit = true) :
    numeral string = some (decimal 0 string : Int) := by
  refine numeral_of_sign (sign_of_isDigit ?_) hne hdigits
  obtain ⟨c, digits, rfl⟩ := exists_cons_of_ne_nil hne
  exact all_eq_true.mp hdigits c (mem_cons_self ..)

/-- What `strtol` makes of a number, with white space before it and no digit behind it. -/
theorem strtoSigned_spaced (bound : Nat) {blank word rest : Bytes}
    (hblank : ∀ b ∈ blank, isSpace b = true) (hword : numeral word = some n)
    (hrest : rest.head?.all (!isDigit ·) = true) :
    strtoSigned bound (blank ++ (word ++ rest)) = (max (-(bound : Int)) (min n (bound - 1)), rest,
      decide (n < -(bound : Int)) || decide ((bound : Int) ≤ n)) := by
  obtain ⟨negative, digits, hsign, hhead, hn⟩ := exists_of_numeral hword
  have hstart := dropWhile_of_numeral hword
  have hdigits : digits.dropWhile isDigit = [] := by
    rw [numeral, hsign] at hword
    simp only [Option.ite_none_left_eq_some, Bool.not_eq_true, Bool.or_eq_false_iff,
      Bool.not_eq_false'] at hword
    exact dropWhile_eq_nil_iff.mpr (all_eq_true.mp hword.1.2)
  cases word with
  | nil => cases hword
  | cons c word =>
    have hspace : (c :: word ++ rest).dropWhile isSpace = c :: word ++ rest := by
      rw [dropWhile_append, hstart]
      rfl
    have hhead' : (digits ++ rest).head?.any isDigit = true := by
      cases digits with
      | nil => cases hhead
      | cons d digits => exact hhead
    rw [strtoSigned, dropWhile_append_of_pos hblank, hspace, sign_append, hsign, number,
      if_neg (by rw [hhead']; simp), decimal_append hrest, dropWhile_isDigit_append hrest, hdigits,
      ← hn, nil_append]

/-- `strtol` of a number is the number nearest to it in the range. -/
theorem strtoSigned_numeral (bound : Nat) (h : numeral string = some n) :
    (strtoSigned bound string).1 = max (-(bound : Int)) (min n (bound - 1)) := by
  have hspaced : strtoSigned bound ([] ++ (string ++ [])) = _ :=
    strtoSigned_spaced bound (by simp) h rfl
  rw [nil_append, append_nil] at hspaced
  rw [hspaced]

/-- `strtol` of a number is the number, if it fits. -/
theorem strtoSigned_of_numeral (h : numeral string = some n)
    (hlow : -(bound : Int) ≤ n) (hhigh : n < bound) : (strtoSigned bound string).1 = n := by
  rw [strtoSigned_numeral bound h]
  omega

/-- A text that `strtol` reads to its end as a number: the number, perhaps behind white space. -/
def Spells (string : Bytes) (n : Int) : Prop :=
  ∃ blank word, string = blank ++ word ∧ (∀ b ∈ blank, Bytes.isSpace b = true) ∧
    numeral word = some n

/-- `strtol` reads such a text as the number. -/
theorem strtoSigned_of_spells (h : Spells string n) (hlow : -(bound : Int) ≤ n)
    (hhigh : n < bound) : strtoSigned bound string = (n, [], false) := by
  obtain ⟨blank, word, rfl, hblank, hword⟩ := h
  have hspaced : strtoSigned bound (blank ++ (word ++ [])) = _ :=
    strtoSigned_spaced bound hblank hword rfl
  have hclamp : max (-(bound : Int)) (min n (bound - 1)) = n := by omega
  rw [append_nil] at hspaced
  rw [hspaced, hclamp, decide_eq_false (by omega), decide_eq_false (by omega), Bool.or_false]

/-- What is before the digits is a sign, whatever the digits are. -/
theorem exists_sign (string : Bytes) : ∃ front, string = front ++ (sign string).2 ∧
    ∀ digits : Bytes, digits.head?.any isDigit = true →
      sign (front ++ digits) = ((sign string).1, digits) := by
  rw [sign.eq_def]
  split
  · exact ⟨[45], rfl, fun _ _ ↦ rfl⟩
  · exact ⟨[43], rfl, fun _ _ ↦ rfl⟩
  · exact ⟨[], rfl, fun _ h ↦ sign_of_isDigit h⟩

/-- A text in which `strtol` finds a number, and nothing behind it, is such a text. -/
theorem spells_of_strtoSigned (h : strtoSigned bound string = (n, [], false))
    (hstring : string ≠ []) : Spells string n := by
  obtain ⟨front, hfront, hsign⟩ := exists_sign (string.dropWhile isSpace)
  rw [strtoSigned] at h
  generalize sign (string.dropWhile isSpace) = signed at h hfront hsign
  obtain ⟨negative, digits⟩ := signed
  rw [number] at h
  split at h
  · obtain ⟨-, hnil, -⟩ := h
    exact absurd rfl hstring
  rename_i hhead
  simp only [Bool.not_eq_true', Bool.not_eq_false] at hhead
  simp only [Prod.mk.injEq, Bool.or_eq_false_iff, decide_eq_false_iff_not] at h
  obtain ⟨hn, hall, hrange⟩ := h
  refine ⟨string.takeWhile isSpace, front ++ digits, ?_, fun b hb ↦ mem_takeWhile_imp hb, ?_⟩
  · rw [← hfront, takeWhile_append_dropWhile]
  rw [numeral_of_sign (hsign _ hhead), Option.some.injEq]
  · generalize (if negative = true then -(decimal 0 digits : Int) else decimal 0 digits) = v
      at hn hrange ⊢
    omega
  · rintro rfl
    cases hhead
  · exact all_eq_true.mpr (dropWhile_eq_nil_iff.mp hall)

/-- `strtoul` of a number is the number, if it fits. -/
theorem strtoul_of_numeral (h : numeral string = some n) (hlow : 0 ≤ n) (hhigh : n < 2 ^ 64) :
    (strtoul string : Int) = n := by
  obtain ⟨negative, digits, hsign, -, hn⟩ := exists_of_numeral h
  rw [strtoul, dropWhile_of_numeral h, hsign]
  cases negative with
  | false =>
    simp only [Bool.false_eq_true, if_false] at hn ⊢
    omega
  | true =>
    -- only minus zero is a negative number that fits
    simp only [if_true] at hn ⊢
    have hzero : decimal 0 digits = 0 := by omega
    rw [hzero, hn, hzero]
    rfl

end CString

namespace Bytes

/-! ## Hexadecimal -/

/-- A digit, in lower case. -/
def hexDigit (n : Nat) : UInt8 := UInt8.ofNat (if n < 10 then 48 + n else 87 + n)

/-- Bytes in hexadecimal. -/
def toHex (bytes : Bytes) : Bytes :=
  bytes.flatMap fun b ↦ [hexDigit (b.toNat / 16), hexDigit (b.toNat % 16)]

/-- The value of a digit in either case. -/
def hexValue (c : UInt8) : Option Nat :=
  if 48 ≤ c && c ≤ 57 then some (c.toNat - 48)
  else if 97 ≤ c && c ≤ 102 then some (c.toNat - 97 + 10)
  else if 65 ≤ c && c ≤ 70 then some (c.toNat - 65 + 10)
  else none

@[simp] theorem toHex_cons (b : UInt8) (bytes : Bytes) :
    toHex (b :: bytes) = hexDigit (b.toNat / 16) :: hexDigit (b.toNat % 16) :: toHex bytes := rfl

@[simp] theorem length_toHex (bytes : Bytes) : (toHex bytes).length = 2 * bytes.length := by
  simp [toHex, Nat.mul_comm]

theorem hexValue_hexDigit {n : Nat} (hn : n < 16) : hexValue (hexDigit n) = some n := by
  have hall : ∀ n : Fin 16, hexValue (hexDigit n.val) = some n.val := by decide
  exact hall ⟨n, hn⟩

theorem exists_of_mem_toHex {bytes : Bytes} {c : UInt8} (h : c ∈ toHex bytes) :
    ∃ n < 16, c = hexDigit n := by
  simp only [toHex, mem_flatMap, mem_cons, not_mem_nil, or_false] at h
  obtain ⟨b, -, rfl | rfl⟩ := h
  · have := b.toNat_lt
    exact ⟨b.toNat / 16, by omega, rfl⟩
  · exact ⟨b.toNat % 16, by omega, rfl⟩

theorem ofNat_digits (b : UInt8) : UInt8.ofNat (b.toNat / 16 * 16 + b.toNat % 16) = b := by
  rw [Nat.div_add_mod', UInt8.ofNat_toNat]

end Bytes
