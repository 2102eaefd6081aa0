import Noobia.Esp.Mixed
import Noobia.Neo.Registry

/-!
# Iris and Neo read mixed calls alike

`CALL_MIXED` has numbers and a quoted text as its arguments.  The dispatcher of a Noob cuts a word
off the line and gives it to `strtoll`; Neo lets `strtol` find the end of the number in the line
itself.  They check what they read in a different order and have different limits on the text.

`mixed_calls_agree` says that on printable text they come to the same result, up to the limit of
191 bytes that Neo has on the text.
-/

open Bytes

namespace Noobia

open List CString

variable {W : Type}

namespace CommandDispatcher

open Neo (nativeNumbers nativeAscii noobNativeParse)

/-! ## Numbers -/

theorem of_isPrintable {b : UInt8} (h : isPrintable b = true) :
    b ≠ 0 ∧ (b ≠ 32 → isSpace b = false) := by
  simp only [isPrintable, Bool.not_eq_true', Bool.or_eq_false_iff, decide_eq_false_iff_not,
    UInt8.lt_iff_toNat_lt, UInt8.reduceToNat] at h
  refine ⟨?_, fun hne ↦ ?_⟩
  · rintro rfl
    exact h.1 (by decide)
  simp only [isSpace, hne, decide_false, Bool.false_or, Bool.and_eq_false_iff,
    decide_eq_false_iff_not, UInt8.le_iff_toNat_le, UInt8.reduceToNat]
  omega

/-- A number that fits 32 bits stays what it is in a larger type. -/
theorem clamp_of_fits {bound : Nat} (hbound : 2 ^ 31 ≤ bound) {value : Int}
    (hlow : -2 ^ 31 ≤ value) (hhigh : value ≤ 2 ^ 31 - 1) :
    max (-(bound : Int)) (min value (bound - 1)) = value ∧
      (decide (value < -(bound : Int)) || decide ((bound : Int) ≤ value)) = false := by
  have hbound : (2 : Int) ^ 31 ≤ bound := by exact_mod_cast hbound
  have hlow' : ¬ value < -(bound : Int) := by omega
  have hhigh' : ¬ (bound : Int) ≤ value := by omega
  refine ⟨by omega, ?_⟩
  rw [decide_eq_false hlow', decide_eq_false hhigh']
  rfl

/-- One that does not is seen not to, whatever the type makes of it. -/
theorem clamp_of_not_fits {bound : Nat} (hbound : 2 ^ 31 ≤ bound) {value : Int}
    (h : ¬ (-2 ^ 31 ≤ value ∧ value ≤ 2 ^ 31 - 1)) :
    max (-(bound : Int)) (min value (bound - 1)) < -2 ^ 31 ∨
      2 ^ 31 - 1 < max (-(bound : Int)) (min value (bound - 1)) ∨
      (decide (value < -(bound : Int)) || decide ((bound : Int) ≤ value)) = true := by
  have hbound : (2 : Int) ^ 31 ≤ bound := by exact_mod_cast hbound
  by_cases hlow : value < -(bound : Int)
  · simp [hlow]
  by_cases hhigh : (bound : Int) ≤ value
  · simp [hhigh]
  · omega

/-- A word and what follows it: both parsers take it for the same number, or for none. -/
theorem strtoSigned_word {long : Nat} (hlong : 2 ^ 31 ≤ long) {word rest : Bytes} (hne : word ≠ [])
    (hword : ∀ b ∈ word, isPrintable b = true ∧ b ≠ 32) (hrest : rest.head?.all (· = 32) = true) :
    ∃ (value value' : Int) (tail : Bytes) (range range' : Bool),
      strtoSigned (2 ^ 63) word = (value, tail, range) ∧
      strtoSigned long (word ++ rest) = (value', tail ++ rest, range') ∧
      ((tail = [] ∧ range = false ∧ range' = false ∧ value' = value ∧ -2 ^ 31 ≤ value ∧
          value ≤ 2 ^ 31 - 1) ∨
        (ends tail = false ∧ (tail ++ rest).head?.all (· = 32) = false) ∨
        (value < -2 ^ 31 ∨ 2 ^ 31 - 1 < value ∨ range = true) ∧
          (value' < -2 ^ 31 ∨ 2 ^ 31 - 1 < value' ∨ range' = true)) := by
  obtain ⟨value, tail, hstrto⟩ := exists_strtoSigned word
  have hesp := hstrto (2 ^ 63) (by decide)
  have hneo := hstrto long (by omega)
  have happend : strtoSigned long (word ++ rest) =
      ((strtoSigned long word).1, (strtoSigned long word).2.1 ++ rest,
        (strtoSigned long word).2.2) := by
    obtain ⟨b, word, rfl⟩ := exists_cons_of_ne_nil hne
    obtain ⟨hb, hb'⟩ := hword b (mem_cons_self ..)
    refine strtoSigned_append long ((of_isPrintable hb).2 hb') word ?_
    cases rest with
    | nil => rfl
    | cons c rest =>
      have hc : c = 32 := by simpa using hrest
      rw [hc]
      rfl
  rw [hneo] at happend
  refine ⟨_, _, tail, _, _, hesp, happend, ?_⟩
  cases htail : tail with
  | nil =>
    by_cases hvalue : -2 ^ 31 ≤ value ∧ value ≤ 2 ^ 31 - 1
    · obtain ⟨hclamp, hrange⟩ := clamp_of_fits (show 2 ^ 31 ≤ 2 ^ 63 by decide) hvalue.1 hvalue.2
      obtain ⟨hclamp', hrange'⟩ := clamp_of_fits hlong hvalue.1 hvalue.2
      rw [hclamp, hrange, hclamp', hrange']
      exact .inl ⟨rfl, rfl, rfl, rfl, hvalue⟩
    · exact .inr (.inr ⟨clamp_of_not_fits (by decide) hvalue, clamp_of_not_fits hlong hvalue⟩)
  | cons b tail' =>
    have hsuffix : tail <:+ word := by
      have h := strtoSigned_suffix (2 ^ 63) word
      rwa [hesp] at h
    obtain ⟨hb, hb'⟩ := hword b (hsuffix.subset (by rw [htail]; exact mem_cons_self ..))
    refine .inr (.inl ⟨?_, ?_⟩)
    · simp [ends, (of_isPrintable hb).1]
    · simp [hb']

/-- **The numbers are the same**, and so is what follows them. -/
theorem mixedNumbers_eq {long : Nat} (hlong : 2 ^ 31 ≤ long) {text : Bytes}
    (htext : ∀ b ∈ text, isPrintable b = true) (room : Nat) :
    mixedNumbers room text = nativeNumbers long room (text.dropWhile (· = 32)) := by
  induction room generalizing text with
  | zero => rw [mixedNumbers, nativeNumbers]
  | succ room ih =>
    rw [mixedNumbers, nativeNumbers]
    dsimp only
    split
    · rfl
    rename_i hhead
    rw [tokenAt_dropWhile]
    have hsplit : text.dropWhile (· = 32) = (tokenAt text).1 ++ (tokenAt text).2 :=
      takeWhile_append_dropWhile.symm
    obtain ⟨-, -, hword, hspace, hnil⟩ := exists_tokenAt text
    generalize tokenAt text = token at *
    obtain ⟨word, rest⟩ := token
    dsimp only at *
    have hmem (b : UInt8) (hb : b ∈ word ++ rest) : isPrintable b = true :=
      htext b ((dropWhile_sublist _).subset (hsplit ▸ hb))
    have hne : word ≠ [] := by
      intro hempty
      rw [hsplit, hempty, hnil hempty] at hhead
      exact hhead rfl
    obtain ⟨value, value', tail, range, range', hesp, hneo, hcases⟩ := strtoSigned_word hlong hne
      (fun b hb ↦ ⟨hmem b (mem_append_left _ hb), hword b hb⟩) hspace
    rw [hsplit, hesp, hneo]
    dsimp only
    rcases hcases with ⟨rfl, rfl, rfl, rfl, -⟩ | ⟨hends, hhead'⟩ | ⟨hbad, hbad'⟩
    · have hlonger : ¬ rest = word ++ rest := by simpa using hne
      rw [nil_append, ih fun b hb ↦ hmem b (mem_append_right _ hb)]
      simp [ends, hlonger, hspace]
    · rw [if_pos (by simp only [hends, Bool.not_false, Bool.true_or]),
        if_pos (by simp only [hhead', Bool.not_false, Bool.or_true])]
    rw [if_pos (by rcases hbad with h | h | h <;>
        simp only [h, decide_true, Bool.or_true, Bool.true_or]),
      if_pos (by rcases hbad' with h | h | h <;>
        simp only [h, decide_true, Bool.or_true, Bool.true_or])]

/-! ## The text -/

theorem length_le_quoted {ascii text s : Bytes} {closing : Option Bytes}
    (h : quoted ascii text = .ok (s, closing)) : ascii.length ≤ s.length := by
  fun_induction quoted ascii text with
  | case1 ascii | case2 ascii rest | case3 ascii =>
    obtain ⟨rfl, -⟩ := Prod.mk.inj (Except.ok.inj h)
    exact Nat.le_refl _
  | case4 | case5 | case7 => cases h
  | case6 ascii c rest _ _ ih | case8 ascii c rest _ _ _ _ ih =>
    have := ih h
    rw [length_append] at this
    omega

/-- A byte is put to the text by either parser, or is one too many for Neo. -/
theorem push_iff (ascii tail s rest : Bytes) {c : UInt8} (hc : isPrintable c = true)
    (hrec : (ascii ++ [c]).length ≤ 191 →
      (quoted (ascii ++ [c]) tail = .ok (s, some rest) ∧ s.length ≤ 191 ↔
        nativeAscii (ascii ++ [c]) tail = some (s, 34 :: rest))) :
    (if NativeRegistry.maxAsciiBytes < (ascii ++ [c]).length then
        .error "ASCII argument too long"
      else quoted (ascii ++ [c]) tail) = .ok (s, some rest) ∧ s.length ≤ 191 ↔
    (if c < 32 || c > 126 || 192 ≤ ascii.length + 1 then none
      else nativeAscii (ascii ++ [c]) tail) = some (s, 34 :: rest) := by
  have hrange : (decide (c < 32) || decide (c > 126)) = false := by
    simpa [isPrintable] using hc
  have hlength : (ascii ++ [c]).length = ascii.length + 1 := by simp
  rw [hrange, Bool.false_or]
  by_cases hroom : 192 ≤ ascii.length + 1
  · simp only [hroom, decide_true, if_true, reduceCtorEq, iff_false]
    rintro ⟨h, hshort⟩
    split at h
    · cases h
    · have := length_le_quoted h
      omega
  · have hmaximum : ¬ NativeRegistry.maxAsciiBytes < (ascii ++ [c]).length := by
      rw [hlength, NativeRegistry.maxAsciiBytes]
      omega
    rw [if_neg hmaximum, if_neg (by simpa using hroom)]
    exact hrec (by omega)

/-- **The text is the same**, if it is not too long for Neo. -/
theorem quoted_iff {ascii text s rest : Bytes} (htext : ∀ b ∈ text, isPrintable b = true)
    (hascii : ascii.length ≤ 191) :
    quoted ascii text = .ok (s, some rest) ∧ s.length ≤ 191 ↔
      nativeAscii ascii text = some (s, 34 :: rest) := by
  have hmaximum : 191 ≤ NativeRegistry.maxAsciiBytes := by decide
  fun_induction quoted ascii text with
  | case1 ascii | case3 ascii => simp [nativeAscii]
  | case2 ascii rest' =>
    simp only [nativeAscii, Except.ok.injEq, Option.some.injEq, Prod.mk.injEq, List.cons.injEq,
      true_and]
    refine ⟨fun h ↦ h.1, fun h ↦ ⟨h, ?_⟩⟩
    rw [← h.1]
    exact hascii
  | case4 ascii c rest' hc => simp [nativeAscii, hc]
  | case5 ascii c rest' hc hlimit =>
    have h := push_iff ascii rest' s rest (htext c (by simp)) fun h ↦ (by omega : False).elim
    rw [if_pos hlimit] at h
    rw [nativeAscii, if_neg (by tauto)]
    exact h
  | case6 ascii c rest' hc hlimit ih =>
    have h := push_iff ascii rest' s rest (htext c (by simp)) (ih fun b hb ↦ htext b (by simp [hb]))
    rw [if_neg hlimit] at h
    rw [nativeAscii, if_neg (by tauto)]
    exact h
  | case7 ascii c rest' hquote hend hescape hlimit =>
    have h := push_iff ascii rest' s rest (htext c (by simp)) fun h ↦ (by omega : False).elim
    rw [if_pos hlimit] at h
    rw [nativeAscii]
    · exact h
    · exact hquote
    · exact hend
    · exact hescape
  | case8 ascii c rest' hquote hend hescape hlimit ih =>
    have h := push_iff ascii rest' s rest (htext c (by simp)) (ih fun b hb ↦ htext b (by simp [hb]))
    rw [if_neg hlimit] at h
    rw [nativeAscii]
    · exact h
    · exact hquote
    · exact hend
    · exact hescape

/-! ## The result -/

/-- **Iris and Neo agree on mixed calls.**  Of a printable text after the selector of a function and
a space, the dispatcher makes `mixedArguments`; it accepts the text with these numbers and a text of
at most 191 bytes if and only if Neo does. -/
theorem mixed_calls_agree {long : Nat} (hlong : 2 ^ 31 ≤ long) {text : Bytes}
    (htext : ∀ b ∈ text, Bytes.isPrintable b = true) :
    (∀ (d : CommandDispatcher W) (m : Machine W) (id command selector : Bytes)
        (entry : NativeEntry (Script W NoobVm VmCall)), selector ≠ [] → (∀ b ∈ selector, b ≠ 32) →
        d.mixedEntry selector = some entry →
        d.callMixedNative ⟨id, command, selector ++ 32 :: text⟩ m =
          match mixedArguments text with
          | .error error => (NoobProtocol.fail id "BAD_ARGUMENT" error, m)
          | .ok (numbers, ascii) =>
            ((m.invoke (NativeRegistry.callMixed entry numbers ascii)).1.reply id,
              (m.invoke (NativeRegistry.callMixed entry numbers ascii)).2)) ∧
      ∀ numbers ascii, mixedArguments text = .ok (numbers, ascii) ∧ ascii.length ≤ 191 ↔
        noobNativeParse long text true = some ⟨numbers, ascii⟩ := by
  refine ⟨fun d m id command selector entry hne hselector hentry ↦ ?_, fun numbers ascii ↦ ?_⟩
  · have htoken : tokenAt (selector ++ 32 :: text) = (selector, 32 :: text) :=
      tokenAt_word hselector hne rfl
    refine (callMixedNative_eq d m htoken hentry).trans ?_
    cases harguments : mixedArguments text with
    | error error | ok arguments => simp only [mixedArguments_space, harguments]
  · have hnumbers := mixedNumbers_eq hlong htext 8
    have hrest {rest : Bytes} (h : nativeNumbers long 8 (text.dropWhile (· = 32)) =
        some (numbers, rest)) : (∀ b ∈ rest, isPrintable b = true) ∧
          rest.head?.all (· = 34) = true := by
      obtain ⟨hsuffix, hhead⟩ := Neo.nativeNumbers_spec h
      exact ⟨fun b hb ↦ htext b ((dropWhile_suffix _).subset (hsuffix.subset hb)), hhead⟩
    rw [mixedArguments_iff, Neo.noobNativeParse_mixed, NoobVm.registerCount, hnumbers]
    constructor
    · rintro ⟨⟨quote, rest, rest', hnative, hquoted, hempty⟩, hshort⟩
      obtain ⟨hprintable, hhead⟩ := hrest hnative
      obtain rfl : quote = 34 := by simpa using hhead
      have hascii := (quoted_iff (fun b hb ↦ hprintable b (mem_cons_of_mem _ hb))
        (by simp)).mp ⟨hquoted, hshort⟩
      exact ⟨rest, rest', hnative, hascii, hempty⟩
    · rintro ⟨rest, rest', hnative, hascii, hempty⟩
      obtain ⟨hprintable, -⟩ := hrest hnative
      obtain ⟨hquoted, hshort⟩ := (quoted_iff
        (fun b hb ↦ hprintable b (mem_cons_of_mem _ hb)) (by simp)).mpr hascii
      exact ⟨⟨34, rest, rest', hnative, hquoted, hempty⟩, hshort⟩

/-- Two numbers and a text with a quote in it, on a processor with a `long` of 32 bits. -/
theorem mixed_calls_agree_quote :
    noobNativeParse (2 ^ 31) (Bytes.ofAscii "5 -7 \"a\\\"b\" ") true =
      some ⟨[5, -7], Bytes.ofAscii "a\"b"⟩ :=
  ((mixed_calls_agree (W := Unit) (Nat.le_refl _) (by decide)).2 _ _).mp (by decide)

end CommandDispatcher

end Noobia
