import Noobia.Lib.CString

/-!
# Neo's registry of native functions

Neo is the Linux computer next to Iris.  Its daemon has a table of the functions it can be asked
for, with the number of integers each of them takes and whether it takes a text, and one parser for
the arguments (`noob_native_registry.h`).

A C string is the list of its bytes before the terminator.  How large a `long` is depends on the
processor, so the parser has the smallest number that is too large for it as a parameter.
-/

namespace Noobia.Neo

/-- `NoobNativeArguments`; `count` is the number of `numbers`. -/
structure NoobNativeArguments where
  numbers : List Int := []
  ascii : Bytes := []
  deriving DecidableEq

/-- `NoobNativeEntry`, without the function. -/
structure NoobNativeEntry where
  name : String
  numbers : Nat
  text : Bool
  deriving DecidableEq

def noobNativeFind (entries : List NoobNativeEntry) (name : Bytes) : Option NoobNativeEntry :=
  entries.find? fun entry ↦ Bytes.ofAscii entry.name = name

/-! ## The parser -/

/-- The first loop of `noob_native_parse`, with room for so many more numbers.  The text does not
begin with a space. -/
def nativeNumbers (long : Nat) : Nat → Bytes → Option (List Int × Bytes)
  | room, text =>
    if text.head?.all (· = 34) then some ([], text)
    else
      match room with
      | 0 => none
      | room + 1 =>
        let (value, tail, range) := CString.strtoSigned long text
        if range || tail = text || value < -2 ^ 31 || 2 ^ 31 - 1 < value ||
            !tail.head?.all (· = 32) then none
        else
          (nativeNumbers long room (tail.dropWhile (· = 32))).map fun (numbers, rest) ↦
            (value :: numbers, rest)

/-- The second loop: the text up to its closing quote, with the quote, or up to the end. -/
def nativeAscii (ascii : Bytes) : Bytes → Option (Bytes × Bytes)
  | [] => some (ascii, [])
  | 34 :: rest => some (ascii, 34 :: rest)
  | [92] => none
  | 92 :: c :: rest =>
    if c ≠ 92 ∧ c ≠ 34 then none
    else if c < 32 || c > 126 || 192 ≤ ascii.length + 1 then none
    else nativeAscii (ascii ++ [c]) rest
  | c :: rest =>
    if c < 32 || c > 126 || 192 ≤ ascii.length + 1 then none else nativeAscii (ascii ++ [c]) rest

def noobNativeParse (long : Nat) (text : Bytes) (mixed : Bool) : Option NoobNativeArguments :=
  match nativeNumbers long 8 (text.dropWhile (· = 32)) with
  | none => none
  | some (numbers, text) =>
    if !mixed then if text.isEmpty then some ⟨numbers, []⟩ else none
    else
      match text with
      | 34 :: text =>
        match nativeAscii [] text with
        | some (ascii, 34 :: text) =>
          if (text.dropWhile (· = 32)).isEmpty then some ⟨numbers, ascii⟩ else none
        | _ => none
      | _ => none

/-! ## What is accepted -/

variable {numbers : List Int}

theorem nativeNumbers_spec {long room : Nat} {text rest : Bytes}
    (h : nativeNumbers long room text = some (numbers, rest)) :
    rest <:+ text ∧ rest.head?.all (· = 34) = true := by
  induction room generalizing text numbers with
  | zero =>
    rw [nativeNumbers] at h
    split at h
    · rename_i hhead
      obtain ⟨-, rfl⟩ := Prod.mk.inj (Option.some.inj h)
      exact ⟨List.suffix_refl _, hhead⟩
    · cases h
  | succ room ih =>
    rw [nativeNumbers] at h
    split at h
    · rename_i hhead
      obtain ⟨-, rfl⟩ := Prod.mk.inj (Option.some.inj h)
      exact ⟨List.suffix_refl _, hhead⟩
    dsimp only at h
    split at h
    · cases h
    obtain ⟨⟨numbers', rest'⟩, hrest, heq⟩ := Option.map_eq_some_iff.mp h
    obtain ⟨-, rfl⟩ := Prod.mk.inj heq
    obtain ⟨hsuffix, hhead⟩ := ih hrest
    exact ⟨hsuffix.trans
      ((List.dropWhile_suffix _).trans (CString.strtoSigned_suffix long text)),
      hhead⟩

/-- **What is accepted**, of a call with a text. -/
theorem noobNativeParse_mixed {long : Nat} {text : Bytes} {ascii : Bytes} :
    noobNativeParse long text true = some ⟨numbers, ascii⟩ ↔ ∃ rest rest',
      nativeNumbers long 8 (text.dropWhile (· = 32)) = some (numbers, 34 :: rest) ∧
        nativeAscii [] rest = some (ascii, 34 :: rest') ∧ rest'.dropWhile (· = 32) = [] := by
  rw [noobNativeParse]
  constructor
  · intro h
    split at h
    · cases h
    rename_i numbers' text' hnumbers
    simp only [Bool.not_true, Bool.false_eq_true, if_false] at h
    split at h
    · rename_i rest
      split at h
      · rename_i ascii' rest' hascii
        split at h
        · rename_i hempty
          obtain ⟨rfl, rfl⟩ := NoobNativeArguments.mk.inj (Option.some.inj h)
          exact ⟨rest, rest', hnumbers, hascii, List.isEmpty_iff.mp hempty⟩
        · cases h
      · cases h
    · cases h
  · rintro ⟨rest, rest', hnumbers, hascii, hempty⟩
    simp [hnumbers, hascii, hempty]

end Noobia.Neo
