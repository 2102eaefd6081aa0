import Noobia.Native.Registry

/-!
# A channel to a native function

A sequence track and a sampling thread both hold a `NoobProgramChannel`: the number of a native
function, the arguments to call it with, the outcome of the last call and a queue of what the calls
returned.  `invoke` reads the channel before the call and writes the outcome after it.  The function
may have replaced the channel in between, so the two halves are kept apart here: `callArguments` is
what goes out, `finished` and `missing` are what comes back.
-/

namespace Noobia

/-- `NoobProgramChannel`. -/
structure NoobProgramChannel where
  /-- `functionId_`, a `uint16_t`. -/
  functionId : Nat := 0
  /-- `arguments_[0 .. argumentCount_)`. -/
  arguments : List Int := []
  lastOk : Bool := true
  busy : Bool := false
  lastDetail : String := ""
  ascii : Bytes := []
  results : NoobRecordQueue := {}
  deriving DecidableEq

namespace NoobProgramChannel

def maxArguments : Nat := 7

/-- `configure`: too many arguments or unprintable text leave the channel as it was. -/
def configure (c : NoobProgramChannel) (functionId : Nat) (arguments : List Int) (ascii : Bytes) :
    Option NoobProgramChannel :=
  if maxArguments < arguments.length ∨ 255 < ascii.length then none
  else if !ascii.all Bytes.isPrintable then none
  else some
    { c with
      functionId := functionId
      arguments := arguments
      ascii := ascii
      results := c.results.clear
      lastOk := true
      lastDetail := "" }

/-- The arguments `invoke` calls the function with. -/
def callArguments (c : NoobProgramChannel) (input : Int) (appendInput : Bool) : List Int :=
  c.arguments ++ if appendInput then [input] else []

/-- `invoke` when no function has the channel's number. -/
def missing (c : NoobProgramChannel) : NoobProgramChannel :=
  { c with lastOk := false, lastDetail := "function missing", busy := false }

/-- `invoke` from the function's return on. -/
def finished (c : NoobProgramChannel) (result : NativeResult) : NoobProgramChannel :=
  { c with
    lastOk := result.ok
    lastDetail := result.detail
    results :=
      if !result.ok then c.results
      else if result.record.isEmpty then c.results.pushValue result.value
      else c.results.push result.record
    busy := false }

/-- What `configure` ensures of a channel and nothing undoes. -/
structure Wf (c : NoobProgramChannel) : Prop where
  /-- The fixed arguments leave room for the bit. -/
  arguments_le : c.arguments.length ≤ 7
  /-- The text passes the registry's length check. -/
  ascii_le : c.ascii.length ≤ 255
  /-- The text passes the registry's character check. -/
  ascii_printable : c.ascii.all Bytes.isPrintable = true

theorem wf_default : Wf {} := ⟨Nat.zero_le _, Nat.zero_le _, rfl⟩

variable {c : NoobProgramChannel}

/-- What a successful `configure` stores. -/
theorem configure_eq_some {c' : NoobProgramChannel} {functionId : Nat} {arguments : List Int}
    {ascii : Bytes} (h : c.configure functionId arguments ascii = some c') :
    c'.Wf ∧ c'.functionId = functionId ∧ c'.arguments = arguments ∧ c'.ascii = ascii := by
  rw [configure] at h
  split at h
  · cases h
  rename_i hlen
  split at h
  · cases h
  rename_i hprint
  simp only [maxArguments, not_or, Nat.not_lt, Bool.not_eq_true', Bool.not_eq_false]
    at hlen hprint
  obtain rfl := Option.some.inj h
  exact ⟨⟨hlen.1, hlen.2, hprint⟩, rfl, rfl, rfl⟩

theorem Wf.configure (h : c.Wf) (functionId : Nat) (arguments : List Int)
    (ascii : Bytes) : ((c.configure functionId arguments ascii).getD c).Wf := by
  cases hc : c.configure functionId arguments ascii with
  | none => exact h
  | some c' => exact (configure_eq_some hc).1

theorem Wf.finished (h : c.Wf) (result : NativeResult) : (c.finished result).Wf :=
  ⟨h.arguments_le, h.ascii_le, h.ascii_printable⟩

theorem Wf.missing (h : c.Wf) : c.missing.Wf :=
  ⟨h.arguments_le, h.ascii_le, h.ascii_printable⟩

end NoobProgramChannel

end Noobia
