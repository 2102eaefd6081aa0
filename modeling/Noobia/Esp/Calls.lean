import Noobia.Esp.Protocol
import Noobia.Lib.Digits
import Noobia.Lib.Int32

/-!
# What `CALL` calls

The dispatcher is given a record of the native functions it calls, kept beside their world where
they cannot see it: `CommandDispatcher.recorded` is the dispatcher that keeps it, and
`callNative_forget` says that it is otherwise the same.

`CALL` is lenient.  The number of a function is cut to 16 bits, so that 65537 calls function 1; an
argument that is no number is read as one all the same, `7x` as 7 and `x` as 0, and one that is too
large as the largest there is; and a ninth argument is not read at all.  `call_asked_iff` says that
these are the only ways in which it calls what it was not asked for.
-/

open Bytes

namespace Noobia

open List CString

variable {W : Type}

/-! ## Recording -/

/-- A call of a native function. -/
structure NativeCall where
  id : Nat
  name : Bytes
  arguments : List Int
  ascii : Bytes
  deriving DecidableEq

/-- The world of the native functions, with the calls made so far. -/
abbrev Recorded (W : Type) := W × List NativeCall

/-- The entry, each call of which is recorded. -/
def NativeEntry.recorded (entry : NativeEntry (Script W NoobVm VmCall)) :
    NativeEntry (Script (Recorded W) NoobVm VmCall) where
  id := entry.id
  name := entry.name
  implementation :=
    { entry.implementation.beside (List NativeCall) with
      callMixed := fun arguments ascii w vm ↦
        let script := (entry.implementation.callMixed arguments ascii).beside (List NativeCall)
        (script.answer w vm, script.calls w vm,
          ((script.world w vm).1, w.2 ++ [⟨entry.id, entry.name, arguments, ascii⟩])) }

/-- A hook of the lifecycle, which calls no native function. -/
def hookBeside (hook : NoobVm → W → String × W) (vm : NoobVm) (w : Recorded W) :
    String × Recorded W :=
  ((hook vm w.1).1, ((hook vm w.1).2, w.2))

/-- The dispatcher that keeps a record of its calls. -/
def CommandDispatcher.recorded (d : CommandDispatcher W) : CommandDispatcher (Recorded W) where
  noobName := d.noobName
  firmwareVersion := d.firmwareVersion
  natives := ⟨d.natives.entries.map NativeEntry.recorded⟩
  capabilities := d.capabilities
  lifecycle := d.lifecycle.map fun hooks ↦
    ⟨hookBeside hooks.onStarted, hookBeside hooks.onStopped, hookBeside hooks.onReset⟩

/-- The machine without the record. -/
def Machine.forget (m : Machine (Recorded W)) : Machine W := ⟨m.vm, m.world.1, m.log⟩

/-- The calls recorded. -/
def Machine.calls (m : Machine (Recorded W)) : List NativeCall := m.world.2

namespace CommandDispatcher

variable (d : CommandDispatcher W)

theorem find_recorded (id : Nat) :
    d.recorded.natives.find id = (d.natives.find id).map NativeEntry.recorded := by
  rw [NativeRegistry.find, NativeRegistry.find, recorded, find?_map]
  rfl

theorem findName_recorded (name : Bytes) :
    d.recorded.natives.findName name = (d.natives.findName name).map NativeEntry.recorded := by
  rw [NativeRegistry.findName, NativeRegistry.findName, recorded, find?_map]
  rfl

end CommandDispatcher

/-- What running a function comes to, since what it does to the VM does not touch the world. -/
theorem Machine.invoke_eq {α : Type} (script : Script W NoobVm VmCall α) (m : Machine W) :
    m.invoke script =
      (script.answer m.world m.vm,
        { m with
          world := script.world m.world m.vm
          vm := (script.calls m.world m.vm).foldl (fun vm c ↦ c.perform vm) m.vm }) := by
  rw [invoke, Script.exec_apart]

/-- The arguments the registry lets through. -/
def NativeRegistry.Admits (ascii : Bytes) : Prop :=
  ascii.length ≤ maxAsciiBytes ∧ ascii.all Bytes.isPrintable = true
  deriving Decidable

/-- **What running a function does to the record**, and that it does the rest as ever. -/
theorem Machine.invoke_recorded (entry : NativeEntry (Script W NoobVm VmCall))
    (arguments : List Int) (ascii : Bytes) (m : Machine (Recorded W)) :
    let r := m.invoke (NativeRegistry.callMixed entry.recorded arguments ascii)
    let r' := m.forget.invoke (NativeRegistry.callMixed entry arguments ascii)
    r.1 = r'.1 ∧ r.2.forget = r'.2 ∧
      r.2.calls =
        if NativeRegistry.Admits ascii then
          m.calls ++ [⟨entry.id, entry.name, arguments, ascii⟩]
        else m.calls := by
  rw [Machine.invoke_eq, Machine.invoke_eq, NativeRegistry.callMixed, NativeRegistry.callMixed]
  by_cases hlength : NativeRegistry.maxAsciiBytes < ascii.length
  · have hnot : ¬ NativeRegistry.Admits ascii := fun h ↦ absurd h.1 (by omega)
    rw [if_pos hlength, if_pos hlength, if_neg hnot]
    exact ⟨rfl, rfl, rfl⟩
  rw [if_neg hlength, if_neg hlength]
  by_cases hprintable : ascii.all isPrintable = true
  · rw [if_neg (by simpa using hprintable), if_neg (by simpa using hprintable),
      if_pos ⟨by omega, hprintable⟩]
    exact ⟨rfl, rfl, rfl⟩
  · have hnot : ¬ NativeRegistry.Admits ascii := fun h ↦ hprintable h.2
    rw [if_pos (by simpa using hprintable), if_pos (by simpa using hprintable), if_neg hnot]
    exact ⟨rfl, rfl, rfl⟩

/-! ## The words of a text -/

/-- The words of a text, between the spaces. -/
def words (text : Bytes) : List Bytes := (text.splitOn 32).filter (!·.isEmpty)

@[simp] theorem words_nil : words [] = [] := by simp [words]

@[simp] theorem words_space (text : Bytes) : words (32 :: text) = words text := by
  have hsplit : ([] ++ 32 :: text).splitOn 32 = [] :: text.splitOn 32 :=
    splitOnP_append_cons_of_forall_mem (by simp) 32 (by simp) text
  rw [nil_append] at hsplit
  rw [words, hsplit, filter_cons_of_neg (by simp), words]

theorem words_word {word : Bytes} (hword : ∀ b ∈ word, b ≠ 32) (hne : word ≠ []) {rest : Bytes}
    (hrest : rest.head?.all (· = 32)) : words (word ++ rest) = word :: words rest := by
  cases rest with
  | nil =>
    have hmem : (32 : UInt8) ∉ word := fun h ↦ hword 32 h rfl
    rw [append_nil, words, splitOn_eq_singleton hmem, words_nil]
    simp [hne]
  | cons b rest =>
    obtain rfl : b = 32 := by simpa using hrest
    have hsplit : (word ++ 32 :: rest).splitOn 32 = word :: rest.splitOn 32 :=
      splitOnP_append_cons_of_forall_mem (by simpa using hword) 32 (by simp) rest
    rw [words, hsplit, filter_cons_of_pos (by simpa using hne), words_space, words]

/-- `tokenAt` finds the first word. -/
theorem words_eq (text : Bytes) :
    words text =
      if (tokenAt text).1.isEmpty then [] else (tokenAt text).1 :: words (tokenAt text).2 := by
  obtain ⟨spaces, htext, hword, hrest, hnil⟩ := exists_tokenAt text
  have hspaces : words text = words ((tokenAt text).1 ++ (tokenAt text).2) := by
    conv_lhs => rw [htext]
    clear htext
    induction spaces with
    | zero => rfl
    | succ spaces ih => rw [replicate_succ, cons_append, words_space, ih]
  rw [hspaces]
  by_cases hne : (tokenAt text).1 = []
  · rw [hnil hne, hne]
    rfl
  · rw [words_word hword hne hrest, if_neg (by simpa using hne)]

variable {entry : NativeEntry (Script W NoobVm VmCall)}

namespace CommandDispatcher

/-- The numbers `callNative` reads are those of the first words. -/
theorem callNumbers_eq (room : Nat) (text : Bytes) :
    callNumbers room text = ((words text).take room).map toInt := by
  induction room generalizing text with
  | zero => rfl
  | succ room ih =>
    rw [callNumbers, words_eq]
    dsimp only
    split
    · rfl
    · rw [ih, take_succ_cons, map_cons]

theorem isInt32_toInt (token : Bytes) : IsInt32 (toInt token) := by
  rw [toInt, strtoSigned, number.eq_def]
  dsimp only
  split
  · exact isInt32_zero
  refine ⟨?_, ?_⟩
  · omega
  · omega

/-- Words that are numbers of 32 bits are read as what they are, and no others. -/
theorem map_numeral_iff (room : Nat) (tokens : List Bytes) :
    tokens.map numeral = ((tokens.take room).map toInt).map some ↔
      tokens.length ≤ room ∧ ∀ token ∈ tokens, ∃ n, numeral token = some n ∧ IsInt32 n := by
  constructor
  · intro h
    have hlength : tokens.length ≤ room := by
      have := congrArg List.length h
      simp only [length_map, length_take] at this
      omega
    rw [take_of_length_le hlength, map_map, map_inj_left] at h
    exact ⟨hlength, fun token htoken ↦ ⟨_, h token htoken, isInt32_toInt token⟩⟩
  · rintro ⟨hlength, htokens⟩
    rw [take_of_length_le hlength, map_map, map_inj_left]
    intro token htoken
    obtain ⟨n, hn, hlow, hhigh⟩ := htokens token htoken
    have htoInt : toInt token = n := strtoSigned_of_numeral hn hlow hhigh
    rw [hn, Function.comp_apply, htoInt]

/-! ## The function that is called -/

variable (d : CommandDispatcher W)

/-- Where a selector leads.  A number is cut to a `long` and then to 16 bits. -/
def callEntry (selector : Bytes) : Option (NativeEntry (Script W NoobVm VmCall)) :=
  if selector ≠ [] ∧ selector.all Bytes.isDigit = true then
    d.natives.find (min (CString.decimal 0 selector) (2 ^ 31 - 1) % 2 ^ 16)
  else d.natives.findName selector

/-- The function `CALL` calls, which must be one for numbers. -/
def callTarget (selector : Bytes) : Option (NativeEntry (Script W NoobVm VmCall)) :=
  (d.callEntry selector).filter fun entry ↦ entry.implementation.acceptsNumbers

variable (selector : Bytes) {request : NoobRequest} (m : Machine (Recorded W))

theorem callEntry_eq :
    (if !selector.isEmpty && selector.all isDigit then
        d.natives.find ((toInt selector).toNat % 2 ^ 16)
      else d.natives.findName selector) = d.callEntry selector := by
  rw [callEntry]
  by_cases h : selector ≠ [] ∧ selector.all isDigit = true
  · have htoInt : (toInt selector).toNat = min (decimal 0 selector) (2 ^ 31 - 1) := by
      rw [toInt, strtoSigned_numeral _ (numeral_digits h.1 h.2)]
      omega
    rw [if_pos h, if_pos (by simpa using h), htoInt]
  · rw [if_neg h, if_neg (by simpa using h)]

/-- What `callNative` does, in terms of the words of the text. -/
theorem callNative_eq (request : NoobRequest) (m : Machine W) :
    d.callNative request m =
      match d.callEntry (tokenAt request.arguments).1 with
      | none =>
        (NoobProtocol.fail request.requestId "NO_FUNCTION" (tokenAt request.arguments).1.render, m)
      | some entry =>
        if !entry.implementation.acceptsNumbers then
          (NoobProtocol.fail request.requestId "FUNCTION_KIND"
            ("use CALL_TEXT for " ++ (tokenAt request.arguments).1.render), m)
        else
          let r := m.invoke (NativeRegistry.callMixed entry
            (((words (tokenAt request.arguments).2).take NoobVm.registerCount).map toInt) [])
          (r.1.reply request.requestId, r.2) := by
  rw [callNative]
  dsimp only
  rw [callEntry_eq]
  cases d.callEntry (tokenAt request.arguments).1 with
  | none => rfl
  | some entry =>
    dsimp only
    split
    · rfl
    · rename_i haccepts
      rw [callNumbers_eq, NativeRegistry.call, if_neg haccepts]

theorem callEntry_recorded :
    d.recorded.callEntry selector = (d.callEntry selector).map NativeEntry.recorded := by
  rw [callEntry, callEntry]
  split
  · exact d.find_recorded _
  · exact d.findName_recorded _

/-- **The record changes nothing**: without it, the reply and the machine are the same. -/
theorem callNative_forget (request : NoobRequest) (m : Machine (Recorded W)) :
    (d.recorded.callNative request m).1 = (d.callNative request m.forget).1 ∧
      (d.recorded.callNative request m).2.forget = (d.callNative request m.forget).2 := by
  rw [callNative_eq, callNative_eq, callEntry_recorded]
  cases d.callEntry (tokenAt request.arguments).1 with
  | none => exact ⟨rfl, rfl⟩
  | some entry =>
    rw [Option.map_some]
    dsimp only
    have haccepts : entry.recorded.implementation.acceptsNumbers =
      entry.implementation.acceptsNumbers := rfl
    rw [haccepts]
    split
    · exact ⟨rfl, rfl⟩
    obtain ⟨hreply, hmachine, -⟩ := Machine.invoke_recorded entry
      (((words (tokenAt request.arguments).2).take NoobVm.registerCount).map toInt) [] m
    exact ⟨congrArg (NativeResult.reply request.requestId) hreply, hmachine⟩

/-- Where there is no function to call, none is called, and the reply says so. -/
theorem callNative_of_none (h : d.callTarget (tokenAt request.arguments).1 = none) :
    (d.recorded.callNative request m).2.calls = m.calls ∧ ∃ code detail,
      (d.recorded.callNative request m).1 = NoobProtocol.fail request.requestId code detail := by
  rw [callTarget] at h
  rw [callNative_eq, callEntry_recorded]
  cases hentry : d.callEntry (tokenAt request.arguments).1 with
  | none => exact ⟨rfl, _, _, rfl⟩
  | some entry =>
    rw [hentry, Option.filter_some, ite_eq_right_iff] at h
    rw [Option.map_some]
    dsimp only
    rw [if_pos (by simpa [NativeEntry.recorded, NoobFunction.beside] using h)]
    exact ⟨rfl, _, _, rfl⟩

/-- Where there is one, it is called with the numbers of the first words. -/
theorem callNative_of_some
    (h : d.callTarget (tokenAt request.arguments).1 = some entry) :
    (d.recorded.callNative request m).2.calls =
      m.calls ++ [⟨entry.id, entry.name,
        ((words (tokenAt request.arguments).2).take NoobVm.registerCount).map toInt, []⟩] := by
  rw [callTarget, Option.filter_eq_some_iff] at h
  rw [callNative_eq, callEntry_recorded, h.1, Option.map_some]
  dsimp only
  rw [if_neg (by simpa [NativeEntry.recorded, NoobFunction.beside] using h.2)]
  refine (Machine.invoke_recorded _ _ _ _).2.2.trans ?_
  rw [if_pos ⟨by simp, rfl⟩]

end CommandDispatcher

/-! ## What was asked for -/

/-- The word that says which function is meant. -/
def selectorOf (text : Bytes) : Bytes := (words text).headD []

/-- A text asks for a call: it has the function's name or its number, and then the arguments as
numbers of 32 bits. -/
structure Asks (text : Bytes) (call : NativeCall) : Prop where
  /-- The function is named in any case, or numbered. -/
  function : (selectorOf text).equalsIgnoreCase call.name = true ∨
    CString.numeral (selectorOf text) = some (call.id : Int)
  /-- Each further word is an argument. -/
  arguments : (words text).tail.map CString.numeral = call.arguments.map some
  range : ∀ n ∈ call.arguments, IsInt32 n
  ascii : call.ascii = []

namespace CommandDispatcher

variable (d : CommandDispatcher W)

/-- `CALL` does what it is asked for: it calls one function as the text says, or none and says why.
-/
def Obeys (request : NoobRequest) (m : Machine (Recorded W)) : Prop :=
  (∃ call, (d.recorded.callNative request m).2.calls = m.calls ++ [call] ∧
      Asks request.arguments call) ∨
    (d.recorded.callNative request m).2.calls = m.calls ∧ ∃ code detail,
      (d.recorded.callNative request m).1 = NoobProtocol.fail request.requestId code detail

/-- A text that is careful: if it leads to a function, then a number in it that leads there is below
65536, or the function's name; and there are at most eight arguments, numbers of 32 bits. -/
def Careful (text : Bytes) : Prop :=
  ∀ entry ∈ d.callTarget (selectorOf text),
    (selectorOf text ≠ [] ∧ (selectorOf text).all Bytes.isDigit = true →
      CString.decimal 0 (selectorOf text) < 2 ^ 16 ∨
        (selectorOf text).equalsIgnoreCase entry.name = true) ∧
    (words text).tail.length ≤ NoobVm.registerCount ∧
    ∀ word ∈ (words text).tail, ∃ n, CString.numeral word = some n ∧ IsInt32 n

theorem selectorOf_eq (text : Bytes) : selectorOf text = (tokenAt text).1 := by
  rw [selectorOf, words_eq]
  split
  · rename_i h
    exact (List.isEmpty_iff.mp h).symm
  · rfl

theorem tail_words (text : Bytes) : (words text).tail = words (tokenAt text).2 := by
  rw [words_eq]
  split
  · rename_i h
    obtain ⟨-, -, -, -, hnil⟩ := exists_tokenAt text
    rw [hnil (List.isEmpty_iff.mp h)]
    rfl
  · rfl

/-- The function found is the one asked for, unless its number was cut. -/
theorem function_iff {selector : Bytes} (h : d.callEntry selector = some entry) :
    (selector.equalsIgnoreCase entry.name = true ∨
        numeral selector = some (entry.id : Int)) ↔
      (selector ≠ [] ∧ selector.all isDigit = true →
        decimal 0 selector < 2 ^ 16 ∨ selector.equalsIgnoreCase entry.name = true) := by
  rw [callEntry] at h
  split at h
  · rename_i hnumeric
    have hid : entry.id = min (decimal 0 selector) (2 ^ 31 - 1) % 2 ^ 16 := by
      simpa using find?_some h
    rw [numeral_digits hnumeric.1 hnumeric.2, Option.some.injEq, Int.natCast_inj]
    constructor
    · rintro (hname | hnumber) -
      · exact .inr hname
      · exact .inl (by omega)
    · intro himp
      rcases himp hnumeric with hlt | hname
      · exact .inr (by omega)
      · exact .inl hname
  · rename_i hnumeric
    have hname : selector.equalsIgnoreCase entry.name = true := by
      simpa using find?_some h
    exact iff_of_true (.inl hname) fun hdigits ↦ absurd hdigits hnumeric

/-- **`CALL` calls what it was asked for exactly if the text is careful.** -/
theorem call_asked_iff (request : NoobRequest) (m : Machine (Recorded W)) :
    d.Obeys request m ↔ d.Careful request.arguments := by
  rw [Obeys, Careful, selectorOf_eq, tail_words]
  cases htarget : d.callTarget (tokenAt request.arguments).1 with
  | none => exact iff_of_true (.inr (d.callNative_of_none m htarget)) (by simp)
  | some entry =>
    have hentry : d.callEntry (tokenAt request.arguments).1 = some entry :=
      (Option.filter_eq_some_iff.mp htarget).1
    rw [d.callNative_of_some m htarget]
    simp only [Option.mem_some_iff, forall_eq']
    rw [← d.function_iff hentry, ← map_numeral_iff]
    constructor
    · rintro (⟨call, hcalls, hfunction, harguments, -, -⟩ | ⟨hcalls, -⟩)
      · obtain rfl := singleton_injective (append_cancel_left hcalls)
        rw [selectorOf_eq] at hfunction
        rw [tail_words] at harguments
        exact ⟨hfunction, harguments⟩
      · simp at hcalls
    · rintro ⟨hfunction, harguments⟩
      refine .inl ⟨_, rfl, ?_, ?_, ?_, rfl⟩
      · rwa [selectorOf_eq]
      · rwa [tail_words]
      intro n hn
      obtain ⟨word, -, rfl⟩ := mem_map.mp hn
      exact isInt32_toInt word

/-- A Noob whose only function has the number 1. -/
def lamp : CommandDispatcher Unit where
  noobName := "noob"
  firmwareVersion := "1"
  natives := ⟨[⟨1, Bytes.ofAscii "LED", .numericAdapter fun _ ↦ pure ⟨true, 0, "", .empty⟩⟩]⟩
  capabilities := []
  lifecycle := none

/-- The request `CALL 65537`. -/
def farCall : NoobRequest :=
  ⟨Bytes.ofAscii "7", Bytes.ofAscii "CALL", Bytes.ofAscii "65537"⟩

/-- Function 65537 is asked for, of which there is none, and function 1 is called. -/
theorem far_call_calls_lamp :
    (lamp.recorded.callNative farCall (.init ((), []))).2.calls =
        [⟨1, Bytes.ofAscii "LED", [], []⟩] ∧
      ¬ lamp.Obeys farCall (.init ((), [])) := by
  have hcalls : (lamp.recorded.callNative farCall (.init ((), []))).2.calls =
      [⟨1, ofAscii "LED", [], []⟩] := by
    decide
  refine ⟨hcalls, ?_⟩
  rintro (⟨call, hcall, hasks⟩ | ⟨hnone, -⟩)
  · rw [hcalls] at hcall
    obtain rfl := singleton_injective hcall
    exact absurd hasks.function (by decide)
  · rw [hcalls] at hnone
    cases hnone

end CommandDispatcher

end Noobia
