import Mathlib

/-!
# Byte strings

The text every part of the program reads is a string of bytes, not of characters: what a client or
a peer sends need not be valid UTF-8, and lengths, positions and limits all count bytes.  `Bytes` is
that string.  Text the program only ever writes, its messages and details, is a Lean `String`;
`Bytes.render` is the way from one to the other where a message quotes its input.

The character classes below are those of the C locale, which is what the `ctype` functions and
Arduino's `String` methods use on these targets.
-/

/-- A string of bytes. -/
abbrev Bytes := List UInt8

namespace Bytes

open List

instance : LawfulBEq Bytes := inferInstanceAs (LawfulBEq (List UInt8))

section

variable (p : UInt8 → Prop) [DecidablePred p]

/-- A statement about every byte of a string is decided along the string, not over all bytes. -/
instance decidableForall (text : Bytes) : Decidable (∀ b ∈ text, p b) := List.decidableBAll p text

instance decidableForallOption (byte : Option UInt8) : Decidable (∀ b ∈ byte, p b) :=
  Option.decidableForallMem byte

end

/-- The bytes of an ASCII literal. -/
def ofAscii (text : String) : Bytes := text.toList.map fun c ↦ UInt8.ofNat c.toNat

/-- A byte string quoted in a message, each byte as the character of that code. -/
def render (bytes : Bytes) : String := String.ofList (bytes.map fun b ↦ Char.ofNat b.toNat)

def isDigit (b : UInt8) : Bool := 48 ≤ b && b ≤ 57

/-- `isspace`: space, `\t`, `\n`, `\v`, `\f` and `\r`. -/
def isSpace (b : UInt8) : Bool := b = 32 || (9 ≤ b && b ≤ 13)

def toLower (b : UInt8) : UInt8 := if 65 ≤ b && b ≤ 90 then b + 32 else b

def toUpper (b : UInt8) : UInt8 := if 97 ≤ b && b ≤ 122 then b - 32 else b

/-- `isxdigit`. -/
def isHexDigit (b : UInt8) : Bool := isDigit b || (97 ≤ toLower b && toLower b ≤ 102)

/-- A byte from the space to the tilde. -/
def isPrintable (b : UInt8) : Bool := !(b < 32 || b > 126)

/-- Equality up to the case of ASCII letters. -/
def equalsIgnoreCase (a b : Bytes) : Bool := a.map toLower = b.map toLower

/-- Without the spaces at both ends. -/
def trim (text : Bytes) : Bytes := (text.dropWhile isSpace).rdropWhile isSpace

@[simp] theorem trim_nil : trim [] = [] := by simp [trim]

@[simp] theorem trim_trim (text : Bytes) : trim (trim text) = trim text := by
  have hstart : (trim text).dropWhile isSpace = trim text := by
    rw [dropWhile_eq_self_iff]
    intro hpos
    have hfirst : trim text <+: text.dropWhile isSpace := rdropWhile_prefix ..
    have hne : text.dropWhile isSpace ≠ [] := by
      rintro hnil
      rw [hnil, prefix_nil] at hfirst
      simp [hfirst] at hpos
    have hhead := head_dropWhile_not isSpace hne
    rw [hfirst.getElem hpos, ← head_eq_getElem hne, hhead]
    simp
  rw [trim, hstart, trim, rdropWhile_idempotent]

end Bytes
