import Noobia.Lib.Bytes
import Noobia.Lib.Script
import Noobia.Native.Record

/-!
# Native functions and their registry

Every syscall target, from a pin primitive to a compiled sequence, is a `NoobFunction`: an object
with three entry points (`call` for numbers, `callText` for text, `callMixed` for both) and two
flags that say which of them it means to be used.  The effects of a call live in whatever `M` the
caller works in, so an equality between two calls is an equality of results *and* effects.

A C++ subclass is modelled by the entry points it overrides.  `NoobFunction.ofBase` is a subclass
that leaves `callMixed` alone and therefore inherits the base class's routing of it; the three
adapters are the ones the registry wraps plain function pointers in.

An argument vector is a list, so the pair of a null pointer and a positive count, which the source
guards against in several places, cannot be written down.
-/

namespace Noobia

open List

universe v

/-- `NativeResult`. -/
structure NativeResult where
  /-- Whether the call succeeded. -/
  ok : Bool
  /-- The number it returns, an `int32_t`. -/
  value : Int
  /-- What it has to say about it. -/
  detail : String
  /-- The structured result, empty for most functions. -/
  record : NoobRecord := .empty
  deriving DecidableEq

namespace NativeResult

/-- The usual failure: no value and a reason. -/
def fail (detail : String) : NativeResult := ⟨false, 0, detail, .empty⟩

@[simp] theorem fail_ok (detail : String) : (fail detail).ok = false := rfl

end NativeResult

/-- `NoobFunction`, as the table of its virtual methods. -/
structure NoobFunction (M : Type → Type v) where
  acceptsNumbers : Bool
  acceptsText : Bool
  call : List Int → M NativeResult
  callText : Bytes → M NativeResult
  callMixed : List Int → Bytes → M NativeResult

variable {M : Type → Type v} [Pure M]

namespace NoobFunction

/-- The base class's `call`. -/
def baseCall (_ : List Int) : M NativeResult := pure (.fail "numeric call unsupported")

/-- The base class's `callText`. -/
def baseCallText (_ : Bytes) : M NativeResult := pure (.fail "text call unsupported")

/-- A subclass that overrides what it likes except `callMixed`, which then goes by the flags. -/
def ofBase (acceptsNumbers acceptsText : Bool) (call : List Int → M NativeResult)
    (callText : Bytes → M NativeResult) : NoobFunction M where
  acceptsNumbers := acceptsNumbers
  acceptsText := acceptsText
  call := call
  callText := callText
  callMixed arguments ascii :=
    if ascii.isEmpty && acceptsNumbers then call arguments
    else if arguments.isEmpty && acceptsText then callText ascii
    else pure (.fail "mixed arguments unsupported")

/-- A subclass for numbers only: every thread, sequence program, pin and sensor. -/
def ofNumbers (call : List Int → M NativeResult) : NoobFunction M :=
  ofBase true false call baseCallText

/-- `NumericFunctionAdapter`, once it is bound. -/
def numericAdapter (function : List Int → M NativeResult) : NoobFunction M := ofNumbers function

/-- `TextFunctionAdapter`, once it is bound. -/
def textAdapter (function : Bytes → M NativeResult) : NoobFunction M :=
  ofBase false true baseCall function

/-- `MixedFunctionAdapter`, once it is bound. -/
def mixedAdapter (function : List Int → Bytes → M NativeResult) : NoobFunction M where
  acceptsNumbers := true
  acceptsText := true
  call arguments := function arguments []
  callText ascii := function [] ascii
  callMixed := function

end NoobFunction

/-- `NativeEntry`. -/
structure NativeEntry (M : Type → Type v) where
  /-- The function's number, a `uint16_t`. -/
  id : Nat
  name : Bytes
  /-- The function.  Every way of registering one rejects a null pointer. -/
  implementation : NoobFunction M

/-- `NativeRegistry`. -/
structure NativeRegistry (M : Type → Type v) where
  /-- `entries_[0 .. count_)`. -/
  entries : List (NativeEntry M) := []

namespace NativeRegistry

def maxFunctions : Nat := 128

def maxAsciiBytes : Nat := 255

variable (registry : NativeRegistry M)

def find (id : Nat) : Option (NativeEntry M) := registry.entries.find? fun entry ↦ entry.id = id

/-- `find(name)`, which ignores case. -/
def findName (name : Bytes) : Option (NativeEntry M) :=
  registry.entries.find? fun entry ↦ name.equalsIgnoreCase entry.name

/-- What the four ways of registering a function have in common: a null name or function, a full
table, a taken number or a taken name are all refused, and nothing changes then. -/
def register (id : Nat) (name : Option Bytes) (implementation : Option (NoobFunction M)) :
    Bool × NativeRegistry M :=
  match name, implementation with
  | some name, some implementation =>
    if maxFunctions ≤ registry.entries.length || (registry.find id).isSome ||
        (registry.findName name).isSome then (false, registry)
    else (true, ⟨registry.entries ++ [⟨id, name, implementation⟩]⟩)
  | _, _ => (false, registry)

/-- A registry that was filled in this way, with numbers that are a `uint16_t`. -/
inductive Built : NativeRegistry M → Prop
  | empty : Built {}
  | register {registry : NativeRegistry M} (h : Built registry) {id : Nat} (hid : id < 2 ^ 16)
      (name : Option Bytes) (implementation : Option (NoobFunction M)) :
      Built (registry.register id name implementation).2

def add (id : Nat) (name : Option Bytes) (implementation : NoobFunction M) :=
  registry.register id name (some implementation)

/-- `add(id, name, function)`, for a function on numbers. -/
def addNumeric (id : Nat) (name : Option Bytes)
    (function : Option (List Int → M NativeResult)) :=
  registry.register id name (function.map .numericAdapter)

def addText (id : Nat) (name : Option Bytes) (function : Option (Bytes → M NativeResult)) :=
  registry.register id name (function.map .textAdapter)

def addMixed (id : Nat) (name : Option Bytes)
    (function : Option (List Int → Bytes → M NativeResult)) :=
  registry.register id name (function.map .mixedAdapter)

def callMixed (entry : NativeEntry M) (arguments : List Int) (ascii : Bytes) : M NativeResult :=
  if maxAsciiBytes < ascii.length then pure (.fail "ASCII argument exceeds 255 bytes")
  else if !ascii.all Bytes.isPrintable then
    pure (.fail "ASCII argument must contain printable ASCII")
  else entry.implementation.callMixed arguments ascii

def call (entry : NativeEntry M) (arguments : List Int) : M NativeResult :=
  if !entry.implementation.acceptsNumbers then pure (.fail "numeric call unsupported")
  else callMixed entry arguments []

/-- `callText(entry, arguments)`.  The text is not checked: legacy calls may carry UTF-8. -/
def callText (entry : NativeEntry M) (arguments : Bytes) : M NativeResult :=
  if !entry.implementation.acceptsText then pure (.fail "text call unsupported")
  else entry.implementation.callMixed [] arguments

/-- What there is to know about an entry without calling it. -/
structure Signature where
  id : Nat
  name : Bytes
  acceptsNumbers : Bool
  acceptsText : Bool
  deriving DecidableEq

/-- The signatures of the registered functions, in order.  The sequencer looks functions up when a
track is configured, long before it calls them, and this is all it looks at. -/
def directory : List Signature :=
  registry.entries.map fun entry ↦
    ⟨entry.id, entry.name, entry.implementation.acceptsNumbers, entry.implementation.acceptsText⟩

/-- Empty text always passes the registry's checks. -/
@[simp] theorem callMixed_nil (entry : NativeEntry M) (arguments : List Int) :
    callMixed entry arguments [] = entry.implementation.callMixed arguments [] := by
  simp [callMixed, maxAsciiBytes]

/-! ## What was registered -/

section

omit [Pure M]

/-- Registering a function changes nothing, or adds it under a number and a name that were free. -/
theorem register_cases (id : Nat) (name : Option Bytes) (implementation : Option (NoobFunction M)) :
    registry.register id name implementation = (false, registry) ∨
      ∃ name' function, name = some name' ∧ implementation = some function ∧
        registry.find id = none ∧ registry.findName name' = none ∧
        registry.register id name implementation =
          (true, ⟨registry.entries ++ [⟨id, name', function⟩]⟩) := by
  rw [register.eq_def]
  split
  · rename_i name implementation
    split
    · exact .inl rfl
    rename_i hfree
    simp only [Bool.or_eq_true, not_or, Bool.not_eq_true, Option.isSome_eq_false_iff,
      Option.isNone_iff_eq_none] at hfree
    exact .inr ⟨name, implementation, rfl, rfl, hfree.1.2, hfree.2, rfl⟩
  · exact .inl rfl

variable {registry}

theorem Built.distinct (h : registry.Built) : registry.entries.Pairwise fun a b ↦
    a.id ≠ b.id ∧ a.name.map Bytes.toLower ≠ b.name.map Bytes.toLower := by
  induction h with
  | empty => exact .nil
  | @register registry _ id _ name implementation ih =>
    rcases registry.register_cases id name implementation with
      hsame | ⟨_, _, -, -, hid, hname, hnew⟩
    · rw [hsame]
      exact ih
    rw [hnew]
    refine pairwise_append.mpr ⟨ih, pairwise_singleton .., ?_⟩
    intro a ha b hb
    obtain rfl := mem_singleton.mp hb
    refine ⟨by simpa using find?_eq_none.mp hid a ha, fun heq ↦ ?_⟩
    exact find?_eq_none.mp hname a ha (decide_eq_true heq.symm)

variable {entry : NativeEntry M}

theorem Built.id_lt (h : registry.Built)
    (hentry : entry ∈ registry.entries) : entry.id < 2 ^ 16 := by
  induction h with
  | empty => cases hentry
  | @register registry _ id hid name implementation ih =>
    rcases registry.register_cases id name implementation with hsame | ⟨_, _, -, -, -, -, hnew⟩
    · rw [hsame] at hentry
      exact ih hentry
    rw [hnew] at hentry
    rcases mem_append.mp hentry with hold | hlast
    · exact ih hold
    · obtain rfl := mem_singleton.mp hlast
      exact hid

theorem find?_eq_some_of_pairwise {α : Type v} {p : α → Bool} {list : List α}
    (h : list.Pairwise fun a b ↦ p a = true → p b = false) {a : α} :
    list.find? p = some a ↔ a ∈ list ∧ p a = true := by
  constructor
  · intro hfind
    exact ⟨mem_of_find?_eq_some hfind, find?_some hfind⟩
  · rintro ⟨hmem, ha⟩
    induction h with
    | nil => cases hmem
    | @cons b list hb _ ih =>
      by_cases hp : p b = true
      · rw [find?_cons_of_pos hp]
        rcases mem_cons.mp hmem with rfl | hlist
        · rfl
        · rw [hb a hlist hp] at ha
          cases ha
      · rw [find?_cons_of_neg hp]
        rcases mem_cons.mp hmem with rfl | hlist
        · exact absurd ha hp
        · exact ih hlist

theorem Built.find_eq_some_iff (h : registry.Built) {id : Nat} :
    registry.find id = some entry ↔ entry ∈ registry.entries ∧ entry.id = id := by
  have hpairwise := h.distinct.imp (S := fun a b ↦ decide (a.id = id) = true →
      decide (b.id = id) = false) fun {a b} hab ha ↦ by
    rw [decide_eq_true_eq] at ha
    exact decide_eq_false fun hb ↦ hab.1 (ha.trans hb.symm)
  rw [find, find?_eq_some_of_pairwise hpairwise, decide_eq_true_eq]

/-- A function is found under its name, in any case. -/
theorem Built.findName_eq_some_iff (h : registry.Built) {name : Bytes} :
    registry.findName name = some entry ↔
      entry ∈ registry.entries ∧ name.equalsIgnoreCase entry.name = true := by
  have hpairwise := h.distinct.imp (S := fun a b ↦ name.equalsIgnoreCase a.name = true →
      name.equalsIgnoreCase b.name = false) fun {a b} hab ha ↦
    decide_eq_false fun hb ↦ hab.2 ((of_decide_eq_true ha).symm.trans hb)
  rw [findName, find?_eq_some_of_pairwise hpairwise]

end

end NativeRegistry

/-! ## In a world with something beside it -/

section

variable {W S Op : Type}

/-- A function in a world with something beside it. -/
def NoobFunction.beside (G : Type) (function : NoobFunction (Script W S Op)) :
    NoobFunction (Script (W × G) S Op) where
  acceptsNumbers := function.acceptsNumbers
  acceptsText := function.acceptsText
  call arguments := (function.call arguments).beside G
  callText ascii := (function.callText ascii).beside G
  callMixed arguments ascii := (function.callMixed arguments ascii).beside G

/-- An entry of the registry there. -/
def NativeEntry.beside (G : Type) (entry : NativeEntry (Script W S Op)) :
    NativeEntry (Script (W × G) S Op) :=
  ⟨entry.id, entry.name, entry.implementation.beside G⟩

/-- The registry there. -/
def NativeRegistry.beside (G : Type) (natives : NativeRegistry (Script W S Op)) :
    NativeRegistry (Script (W × G) S Op) :=
  ⟨natives.entries.map (·.beside G)⟩

theorem NativeRegistry.find_beside (G : Type)
    (natives : NativeRegistry (Script W S Op)) (id : Nat) :
    (natives.beside G).find id = (natives.find id).map (·.beside G) := by
  rw [find, find, beside, find?_map]
  rfl

theorem NativeRegistry.callMixed_beside (G : Type)
    (entry : NativeEntry (Script W S Op)) (arguments : List Int) (ascii : Bytes) :
    callMixed (entry.beside G) arguments ascii = (callMixed entry arguments ascii).beside G := by
  rw [callMixed, callMixed]
  split
  · rfl
  split
  · rfl
  · rfl

end

end Noobia
