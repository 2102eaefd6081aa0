import Noobia.Lib.CString

/-!
# The contact book and the turn

Everyone a council knows is a contact, and a contact is spoken of by its place in the book: the C
program passes pointers into `contact_book.items` around and compares them, so here a contact is a
`Fin` of the length of the book.

`Arbitration` is the turn.  The current speaker is a name and not a contact; an empty name means
that the turn is free.  `Arbitration.next` is the round robin: it looks for the first contact from
`nextIndex` on that is online and is not the one who has just spoken.
-/

namespace Noobia.Council

open List

/-- What a `char[COUNCIL_NAME_LENGTH]` can hold: a string of at most 63 bytes. -/
structure Name where
  /-- The bytes before the terminator. -/
  bytes : Bytes
  /-- There is room for the terminator. -/
  short : bytes.length < 64
  /-- None of them is a terminator. -/
  ne_zero : ∀ b ∈ bytes, b ≠ 0
  deriving DecidableEq

namespace Name

/-- `snprintf(name, sizeof(name), "%s", string)`: what does not fit is cut off. -/
def snprintf (string : Bytes) : Name where
  bytes := (CString.text string).take 63
  short := by
    rw [List.length_take]
    omega
  ne_zero _ hb := CString.ne_zero_of_mem_text (List.mem_of_mem_take hb)

/-- The empty string. -/
def empty : Name := snprintf []

/-- `!name[0]`. -/
def isEmpty (name : Name) : Bool := name.bytes.isEmpty

/-- A name copied into another comes out the same. -/
@[simp]
theorem snprintf_bytes (name : Name) : snprintf name.bytes = name := by
  obtain ⟨bytes, hshort, hzero⟩ := name
  simp only [snprintf, mk.injEq]
  rw [CString.text_of_ne_zero hzero, take_of_length_le (by omega)]

end Name

/-- `contact_role`. -/
inductive ContactRole
  | human
  | ai
  deriving DecidableEq

/-- `contact`, without the address and the key, which are the network's business. -/
structure Contact where
  name : Name
  role : ContactRole
  arbiterPriority : Nat

/-! ## The turn -/

/-- `arbitration_state`. -/
structure Arbitration where
  nextIndex : Nat
  currentSpeaker : Name

namespace Arbitration

/-- `arbitration_init`. -/
def init : Arbitration := ⟨0, .empty⟩

/-- `arbitration_can_speak`. -/
def canSpeak (s : Arbitration) (name : Name) : Bool :=
  s.currentSpeaker.isEmpty || s.currentSpeaker = name

/-- `arbitration_grant`. -/
def grant (s : Arbitration) (name : Bytes) : Arbitration :=
  { s with currentSpeaker := .snprintf name }

/-- The contact the search of `arbitration_next` looks at after `checked` others. -/
def slot (start : Nat) {count : Nat} (checked : Fin count) : Fin count :=
  ⟨(start + checked) % count, Nat.mod_lt _ (Nat.zero_lt_of_lt checked.isLt)⟩

/-- `arbitration_next`: who speaks after `previous`.  When there is nobody the turn becomes free. -/
def next (book : List Contact) (previous : Name) (online : Fin book.length → Bool)
    (s : Arbitration) : Option (Fin book.length) × Arbitration :=
  let eligible (i : Fin book.length) : Bool := online i && (book.get i).name ≠ previous
  match ((List.finRange book.length).map (slot s.nextIndex)).find? eligible with
  | some i => (some i, { s with nextIndex := (i + 1) % book.length }.grant (book.get i).name.bytes)
  | none => (none, { s with currentSpeaker := .empty })

theorem exists_slot (start : Nat) {count : Nat} (i : Fin count) :
    ∃ checked : Fin count, slot start checked = i := by
  have hi := i.isLt
  have hcount : 0 < count := by omega
  have hstart := Nat.mod_lt start hcount
  -- as far ahead of the start as `i` is, going round once if need be
  refine ⟨⟨(i + (count - start % count)) % count, Nat.mod_lt _ hcount⟩, Fin.ext ?_⟩
  simp only [slot]
  rw [Nat.add_mod_mod, ← Nat.mod_add_mod, show start % count + (i + (count - start % count)) =
    i + count by omega, Nat.add_mod_right, Nat.mod_eq_of_lt hi]

/-- **The round robin gives the turn to a contact that is online and has not just spoken, and frees
it only if there is none.** -/
theorem next_spec (book : List Contact) (previous : Name) (online : Fin book.length → Bool)
    (s : Arbitration) :
    (∃ i, (s.next book previous online).1 = some i ∧ online i = true ∧
      (book.get i).name ≠ previous ∧
      (s.next book previous online).2.currentSpeaker = (book.get i).name) ∨
    ((s.next book previous online).1 = none ∧
      (∀ i, online i = true → (book.get i).name = previous) ∧
      (s.next book previous online).2.currentSpeaker = .empty) := by
  rw [next]
  split
  · rename_i i hi
    have heligible := find?_some hi
    rw [Bool.and_eq_true, decide_eq_true_eq] at heligible
    exact .inl ⟨i, rfl, heligible.1, heligible.2, Name.snprintf_bytes _⟩
  · rename_i hnone
    refine .inr ⟨rfl, fun i hi ↦ ?_, rfl⟩
    obtain ⟨checked, hchecked⟩ := exists_slot s.nextIndex i
    have := find?_eq_none.mp hnone i
      (mem_map.mpr ⟨checked, mem_finRange checked, hchecked⟩)
    simpa [hi] using this

end Arbitration

end Noobia.Council
