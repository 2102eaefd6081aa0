import Noobia.Esp.Upload

/-!
# Loading a program

`LOAD` is given a program in hex, with blanks, underscores and colons wherever one likes them, even
between the two digits of a byte.  `decodeHex` goes through the text with half a byte in hand at
most, and `NoobVm::load` has checks of its own.

`decodeHex_eq_ok_iff` says exactly which texts are a program, and which one.  `load_exact` puts this
together with the loader: a program is loaded as a whole into a VM that is not in the middle of
another one, and whatever else comes with `LOAD` changes nothing.
-/

namespace Noobia

open List Bytes

variable {W : Type}

/-! ## Which texts are a program -/

/-- A byte that `decodeHex` passes over. -/
def isSeparator (value : UInt8) : Bool := value = 32 || value = 95 || value = 58

/-- The text is the program in hex, with separators anywhere. -/
def IsWritingOf (text program : Bytes) : Prop := IsHexOf (text.filter (!isSeparator ·)) program

theorem isHexDigit_of_hexValue {digit : UInt8} {n : Nat}
    (h : CommandDispatcher.hexValue digit = some n) : IsHexDigit digit n ∧ n < 16 := by
  have hall : ∀ digit : Fin 256, ∀ n ∈ CommandDispatcher.hexValue (UInt8.ofNat digit.val),
      IsHexDigit (UInt8.ofNat digit.val) n ∧ n < 16 := by
    decide +kernel
  have hdigit := hall ⟨digit.toNat, digit.toNat_lt⟩ n
  rw [UInt8.ofNat_toNat] at hdigit
  exact hdigit h

namespace CommandDispatcher

variable {capacity : Nat} {output program : Bytes}

theorem decodeDigits_cons (index : Nat) (high : Option Nat) (value : UInt8) (text : Bytes) :
    decodeDigits capacity index high output (value :: text) =
      if isSeparator value then decodeDigits capacity (index + 1) high output text
      else
        match hexValue value, high with
        | none, _ => .error ("non-hex character at " ++ toString index)
        | some nibble, none => decodeDigits capacity (index + 1) (some nibble) output text
        | some nibble, some high =>
          if capacity ≤ output.length then .error "program exceeds 1024 bytes"
          else
            decodeDigits capacity (index + 1) none
              (output ++ [UInt8.ofNat ((high <<< 4) ||| nibble)]) text := rfl

/-- The separators and the position make no difference to what is decoded. -/
theorem decodeDigits_filter (index index' : Nat) (high : Option Nat) (text : Bytes) :
    decodeDigits capacity index high output text = .ok program ↔
      decodeDigits capacity index' high output (text.filter (!isSeparator ·)) = .ok program := by
  induction text generalizing index index' high output with
  | nil => rfl
  | cons value text ih =>
    cases hseparator : isSeparator value with
    | true =>
      rw [filter_cons_of_neg (by rw [hseparator]; decide), decodeDigits_cons,
        if_pos hseparator]
      exact ih ..
    | false =>
      rw [filter_cons_of_pos (by rw [hseparator]; decide), decodeDigits_cons,
        decodeDigits_cons, hseparator, if_neg (by decide), if_neg (by decide)]
      cases hexValue value with
      | none => exact ⟨fun h ↦ (nomatch h), fun h ↦ (nomatch h)⟩
      | some nibble =>
        cases high with
        | none => exact ih ..
        | some high =>
          dsimp only
          split
          · exact Iff.rfl
          · exact ih ..

/-- The text is the rest of the bytes in hex, after the digit in hand. -/
def IsRestOf (high : Option Nat) (text bytes : Bytes) : Prop :=
  match high with
  | none => IsHexOf text bytes
  | some n => n < 16 → ∀ digit, IsHexDigit digit n → IsHexOf (digit :: text) bytes

theorem halves_of_digits {high low : Nat} (hhigh : high < 16) (hlow : low < 16) :
    (UInt8.ofNat ((high <<< 4) ||| low)).toNat / 16 = high ∧
      (UInt8.ofNat ((high <<< 4) ||| low)).toNat % 16 = low := by
  rw [← Nat.shiftLeft_add_eq_or_of_lt (i := 4) hlow, Nat.shiftLeft_eq, UInt8.toNat_ofNat']
  omega

/-- What is decoded is written in the text, two digits to a byte, and fits. -/
theorem isRestOf_of_decodeDigits {text : Bytes} (hclean : ∀ value ∈ text, isSeparator value = false)
    {index : Nat} {high : Option Nat}
    (h : decodeDigits capacity index high output text = .ok program) :
    (∃ bytes, IsRestOf high text bytes ∧ program = output ++ bytes) ∧ program ≠ [] ∧
      (output.length ≤ capacity → program.length ≤ capacity) := by
  induction text generalizing index high output with
  | nil =>
    cases high with
    | some n => cases h
    | none =>
      rw [decodeDigits, if_neg (by decide)] at h
      split at h
      · cases h
      rename_i hempty
      obtain rfl := Except.ok.inj h
      exact ⟨⟨[], .nil, (append_nil _).symm⟩, fun hnil ↦ hempty (List.isEmpty_iff.mpr hnil),
        id⟩
  | cons value text ih =>
    obtain ⟨hvalue, htext⟩ := forall_mem_cons.mp hclean
    rw [decodeDigits_cons, hvalue, if_neg (by decide)] at h
    cases hnibble : hexValue value with
    | none =>
      rw [hnibble] at h
      cases h
    | some nibble =>
      rw [hnibble] at h
      obtain ⟨hdigit, hlt⟩ := isHexDigit_of_hexValue hnibble
      cases high with
      | none =>
        obtain ⟨⟨bytes, hrest, hprogram⟩, hne, hle⟩ := ih htext h
        exact ⟨⟨bytes, hrest hlt value hdigit, hprogram⟩, hne, hle⟩
      | some high =>
        dsimp only at h
        split at h
        · cases h
        rename_i hroom
        obtain ⟨⟨bytes, hrest, hprogram⟩, hne, hle⟩ := ih htext h
        refine ⟨⟨UInt8.ofNat ((high <<< 4) ||| nibble) :: bytes, fun hhigh digit hdigit' ↦ ?_,
          ?_⟩,
          hne, fun _ ↦ hle ?_⟩
        · obtain ⟨hdiv, hmod⟩ := halves_of_digits hhigh hlt
          exact .cons (hdiv.symm ▸ hdigit') (hmod.symm ▸ hdigit) hrest
        · rw [hprogram, append_assoc, singleton_append]
        · rw [length_append, length_singleton]
          omega

/-- **A text is decoded just if it is a program in hex**, and then to that program. -/
theorem decodeHex_eq_ok_iff (text program : Bytes) :
    decodeHex text NoobVm.programBytes = .ok program ↔
      IsWritingOf text program ∧ 1 ≤ program.length ∧ program.length ≤ 1024 := by
  rw [decodeHex, decodeDigits_filter 0 0]
  constructor
  · intro h
    have hclean : ∀ value ∈ text.filter (!isSeparator ·), isSeparator value = false := by
      intro value hvalue
      simpa using (mem_filter.mp hvalue).2
    obtain ⟨⟨bytes, hrest, hprogram⟩, hne, hle⟩ := isRestOf_of_decodeDigits hclean h
    rw [nil_append] at hprogram
    exact ⟨hprogram ▸ hrest, length_pos_iff.mpr hne, hle (Nat.zero_le _)⟩
  · rintro ⟨hwriting, hpos, hle⟩
    exact hwriting.decodeDigits 0 [] (by rw [NoobVm.programBytes, length_nil]; omega)
      (ne_nil_of_length_pos hpos)

end CommandDispatcher

/-! ## The command -/

/-- The VM after a program has been loaded into it: nothing is left of the run before. -/
structure NoobVm.Fresh (vm : NoobVm) (program : Bytes) : Prop where
  loaded : vm.loaded = program
  length : vm.programLength = program.length
  pc : vm.pc = 0
  stackDepth : vm.stackDepth = 0
  registers : vm.registers = .replicate 8 0
  memory : vm.memory = .replicate 256 0
  faultMessage : vm.faultMessage = ""
  state : vm.state = .ready

theorem NoobVm.fresh_of_load {vm vm' : NoobVm} {program : Bytes} (h : vm.load program = .ok vm') :
    vm'.Fresh program := by
  have hloaded := (NoobVm.load_spec h).1
  rw [NoobVm.load] at h
  split at h
  · cases h
  split at h
  · cases h
  · obtain rfl := Except.ok.inj h
    exact ⟨hloaded, rfl, rfl, rfl, rfl, rfl, rfl, rfl⟩

/-- **`LOAD` is exact and all or nothing.**  A program, however it is written, is loaded into a VM
that is not running; anything else is answered with `ERR`, and nothing is changed. -/
theorem load_exact (d : CommandDispatcher W) (id text : Bytes) (m : Machine W) :
    (∀ program : Bytes, IsWritingOf text program → 1 ≤ program.length → program.length ≤ 1024 →
      m.vm.busy = false →
      ∃ vm, vm.Fresh program ∧ d.dispatch ⟨id, Bytes.ofAscii "LOAD", text⟩ m =
        (NoobProtocol.ok id ("loaded=" ++ toString program.length), { m with vm })) ∧
    ((m.vm.busy = true ∨ ¬ ∃ program, IsWritingOf text program ∧ 1 ≤ program.length ∧
        program.length ≤ 1024) →
      ∃ code error, d.dispatch ⟨id, Bytes.ofAscii "LOAD", text⟩ m =
        (NoobProtocol.fail id code error, m)) := by
  have hdispatch : d.dispatch ⟨id, ofAscii "LOAD", text⟩ m =
      CommandDispatcher.loadProgram ⟨id, ofAscii "LOAD", text⟩ m := rfl
  rw [hdispatch, CommandDispatcher.loadProgram]
  constructor
  · intro program hwriting hpos hle hidle
    obtain ⟨vm, hload⟩ := m.vm.load_ok hidle hpos hle
    rw [(CommandDispatcher.decodeHex_eq_ok_iff text program).mpr ⟨hwriting, hpos, hle⟩]
    dsimp only
    rw [hload]
    exact ⟨vm, NoobVm.fresh_of_load hload, rfl⟩
  · intro hrefused
    cases hdecode : CommandDispatcher.decodeHex text NoobVm.programBytes with
    | error error => exact ⟨_, _, rfl⟩
    | ok program =>
      have hprogram := (CommandDispatcher.decodeHex_eq_ok_iff text program).mp hdecode
      have hbusy : m.vm.busy = true := hrefused.resolve_right fun hnone ↦ hnone ⟨program, hprogram⟩
      dsimp only
      rw [NoobVm.load, if_neg (by rw [NoobVm.programBytes]; omega), if_pos hbusy]
      exact ⟨_, _, rfl⟩

/-- Two bytes, in both cases and with all separators. -/
theorem load_exact_separated :
    let d : CommandDispatcher Unit := ⟨"noob", "1", ⟨[]⟩, [], none⟩
    let text := ofAscii " 0_a:F f"
    IsWritingOf text [10, 255] ∧ ∃ vm, vm.Fresh [10, 255] ∧
      d.dispatch ⟨ofAscii "7", ofAscii "LOAD", text⟩ (.init ()) =
        (NoobProtocol.ok (ofAscii "7") ("loaded=" ++ toString 2), ⟨vm, (), []⟩) := by
  have hwriting : IsWritingOf (ofAscii " 0_a:F f") [10, 255] :=
    .cons (by decide) (by decide) (.cons (by decide) (by decide) .nil)
  exact ⟨hwriting, (load_exact _ _ _ (.init ())).1 _ hwriting (by decide) (by decide) rfl⟩

end Noobia
