import Noobia.Council.Arbitration
import Noobia.Lib.Digits
import Noobia.Lib.Fields
import Noobia.Lib.Proc

/-!
# Loading the contact book

The contact book is a JSON file: a list of objects, one for each contact.  `contact_book_load` reads
it with a parser of its own, a cursor into the text that is moved along by hand.  What it cannot
read it rejects, with the place where the cursor was.

The parser is a `Proc` over the text that is still in front of the cursor: one that gives up leaves
the cursor where it is.  A round of either loop moves the cursor on, `memberStep_advances` and
`entryStep_advances`, and so the loops end.

On the other side are the texts a book can have.  `BookText` lets the members of an object come in
any order, with any space between them, with the optional ones left out or not, and with a character
of a string behind a backslash wherever that is allowed.  `book_loaded` says that a book comes out
of every such text as it went in, provided its numbers are in the ranges the program takes.
-/

namespace Noobia.Council

open List

open Proc
open Bytes (Blank)

/-! ## The program -/

/-- `contact`, with everything in it.  Before it has been read a contact has no role. -/
structure Entry where
  name : Bytes
  role : Option ContactRole
  host : Bytes
  port : Nat
  sharedKey : Bytes
  arbiterPriority : Int
  ramGb : Nat
  deriving DecidableEq

/-- `memset(&item, 0, sizeof(item))`. -/
def Entry.zero : Entry := ⟨[], none, [], 0, [], 0, 0⟩

/-- A parser: it moves the cursor along the text, or gives up and leaves it where it is. -/
abbrev Parser (α : Type) := Proc Bytes α

def skipSpace (p : Bytes) : Bytes := p.dropWhile Bytes.isSpace

/-- `*p`. -/
def peek (p : Bytes) : UInt8 := p.headD 0

/-- The loop of `json_string`: the characters up to the closing quote and what follows it, for a
buffer in which so much is used. -/
def stringLoop (size : Nat) : Nat → Bytes → Option (Bytes × Bytes)
  | _, [] => none
  | used, c :: p =>
    if c = 34 then some ([], p)
    else if c = 92 then
      match p with
      | [] => none
      | e :: p =>
        if e ≠ 92 ∧ e ≠ 34 ∧ e ≠ 47 then none
        else if e < 32 ∨ size ≤ used + 1 then none
        else (stringLoop size (used + 1) p).map fun (out, p) ↦ (e :: out, p)
    else if c < 32 ∨ size ≤ used + 1 then none
    else (stringLoop size (used + 1) p).map fun (out, p) ↦ (c :: out, p)

def jsonString (size : Nat) : Parser Bytes := fun cursor ↦
  match skipSpace cursor with
  | 34 :: p =>
    match stringLoop size 0 p with
    | some (out, p) => (some out, p)
    | none => (none, cursor)
  | _ => (none, cursor)

def expect (token : UInt8) : Parser Unit := fun cursor ↦
  if peek (skipSpace cursor) ≠ token then (none, cursor) else (some (), (skipSpace cursor).tail)

/-- `strtol(p, &end, 10)`, which has to find a number, and one that is in range. -/
def jsonLong (low high : Int) : Parser Int := fun p ↦
  let (value, rest, _) := CString.strtoSigned (2 ^ 63) p
  if rest = p ∨ value < low ∨ high < value then (none, p) else (some value, rest)

/-- `strtoul(p, &end, 10)`, likewise. -/
def jsonUnsigned (high : Nat) : Parser Nat := fun p ↦
  match CString.scanUnsigned p with
  | none => (none, p)
  | some (value, rest) => if high < value then (none, p) else (some value, rest)

def copyValue (size : Nat) (value : Bytes) : Parser Bytes :=
  if size ≤ value.length then exit else pure value

/-- The member of an object behind its key: what becomes of the contact, and of `fields`. -/
def memberValue (key : Bytes) (item : Entry) (fields : Nat) : Parser (Entry × Nat) := do
  if key = Bytes.ofAscii "port" then
    change skipSpace
    let port ← jsonLong 1 65535
    return ({ item with port := port.toNat }, fields ||| 8)
  else if key = Bytes.ofAscii "RAM" then
    change skipSpace
    let ram ← jsonUnsigned 1048576
    return ({ item with ramGb := ram }, fields)
  else if key = Bytes.ofAscii "arbiter_priority" then
    change skipSpace
    let priority ← jsonLong 0 1000000
    return ({ item with arbiterPriority := priority }, fields)
  else
    let value ← jsonString 256
    if key = Bytes.ofAscii "name" then
      let name ← copyValue 64 value
      return ({ item with name }, fields ||| 1)
    else if key = Bytes.ofAscii "role" then
      if value = Bytes.ofAscii "human" then return ({ item with role := some .human }, fields ||| 2)
      else if value = Bytes.ofAscii "ai" then return ({ item with role := some .ai }, fields ||| 2)
      else exit
    else if key = Bytes.ofAscii "host" then
      let host ← copyValue 256 value
      return ({ item with host }, fields ||| 4)
    else if key = Bytes.ofAscii "shared_key" then
      let sharedKey ← copyValue 128 value
      return ({ item with sharedKey }, fields ||| 16)
    else exit

/-- What stands between two members or contacts, unless the closing bracket comes. -/
def comma (closing : UInt8) : Parser Unit := do
  change skipSpace
  let c ← read peek
  if c = 44 then change List.tail
  else if c ≠ closing then exit
  else pure ()

/-- A round of the inner loop of `contact_book_load`. -/
def memberStep (item : Entry) (fields : Nat) : Parser (Entry × Nat) := do
  let key ← jsonString 32
  expect 58
  let (item, fields) ← memberValue key item fields
  comma 125
  return (item, fields)

/-! ## The cursor moves on -/

theorem length_skipSpace_le (p : Bytes) : (skipSpace p).length ≤ p.length :=
  (dropWhile_suffix _).length_le

theorem length_stringLoop_lt {size used : Nat} {p out rest : Bytes}
    (h : stringLoop size used p = some (out, rest)) : rest.length < p.length := by
  fun_induction stringLoop size used p generalizing out with
  | case1 | case3 | case4 | case5 | case7 => cases h
  | case2 used p =>
    cases h
    exact Nat.lt_succ_self _
  | case6 used e p hquote hescape hfull ih | case8 used c p hquote hescape hfull ih =>
    obtain ⟨⟨out', rest'⟩, hloop, heq⟩ := Option.map_eq_some_iff.mp h
    cases heq
    have := ih hloop
    simp only [length_cons]
    omega

/-- The parser moves the cursor on by so many bytes at least, unless it gives up. -/
def Advances (n : Nat) {α : Type} (m : Parser α) : Prop :=
  ∀ p, Wp m (fun _ q ↦ q.length + n ≤ p.length) (fun _ ↦ True) p

section

variable {α β : Type} {n k : Nat}

theorem advances_pure (a : α) : Advances 0 (pure a : Parser α) := fun _ ↦ Nat.le_refl _

theorem advances_exit : Advances n (exit : Parser α) := fun _ ↦ trivial

theorem advances_read (f : Bytes → α) : Advances 0 (read f : Parser α) := fun _ ↦ Nat.le_refl _

theorem advances_change {f : Bytes → Bytes} (h : ∀ p, (f p).length ≤ p.length) :
    Advances 0 (change f : Parser PUnit) := fun p ↦ h p

theorem Advances.bind {m : Parser α} {f : α → Parser β} (hm : Advances n m)
    (hf : ∀ a, Advances k (f a)) : Advances (n + k) (m >>= f) := by
  refine fun p ↦ wp_bind ((hm p).mono (fun a q hq ↦ ?_) fun _ _ ↦ trivial)
  exact (hf a q).mono (fun _ r hr ↦ by omega) fun _ _ ↦ trivial

theorem Advances.mono {m : Parser α} (hm : Advances n m) (h : k ≤ n) : Advances k m :=
  fun p ↦ (hm p).mono (fun _ q hq ↦ by omega) fun _ _ ↦ trivial

theorem Advances.ite {c : Prop} [Decidable c] {m m' : Parser α} (hm : Advances n m)
    (hm' : Advances n m') : Advances n (if c then m else m') :=
  fun p ↦ wp_ite (fun _ ↦ hm p) fun _ ↦ hm' p

end

theorem jsonString_advances (size : Nat) : Advances 1 (jsonString size) := by
  intro p
  have hskip := length_skipSpace_le p
  rw [Wp, jsonString]
  split
  · rename_i out q h
    split at h
    · rename_i q' hq'
      rw [hq', length_cons] at hskip
      split at h
      · rename_i out' rest hloop
        cases h
        have := length_stringLoop_lt hloop
        omega
      · cases h
    · cases h
  · trivial

theorem expect_advances (token : UInt8) (h : token ≠ 0) : Advances 1 (expect token) := by
  intro p
  have hskip := length_skipSpace_le p
  rw [Wp, expect]
  by_cases hpeek : peek (skipSpace p) ≠ token
  · rw [if_pos hpeek]
    trivial
  rw [if_neg hpeek]
  cases hq : skipSpace p with
  | nil =>
    rw [hq] at hpeek
    exact absurd (fun hzero ↦ h hzero.symm) hpeek
  | cons c q =>
    rw [hq, length_cons] at hskip
    exact hskip

theorem jsonLong_advances (low high : Int) : Advances 0 (jsonLong low high) := by
  intro p
  have hsuffix := (CString.strtoSigned_suffix (2 ^ 63) p).length_le
  rw [Wp, jsonLong]
  dsimp only
  by_cases hbad : (CString.strtoSigned (2 ^ 63) p).2.1 = p ∨
      (CString.strtoSigned (2 ^ 63) p).1 < low ∨ high < (CString.strtoSigned (2 ^ 63) p).1
  · rw [if_pos hbad]
    trivial
  · rw [if_neg hbad]
    exact hsuffix

theorem jsonUnsigned_advances (high : Nat) : Advances 0 (jsonUnsigned high) := by
  intro p
  rw [Wp, jsonUnsigned]
  cases hscan : CString.scanUnsigned p with
  | none => trivial
  | some read =>
    obtain ⟨value, rest⟩ := read
    by_cases hhigh : high < value
    · simp only [if_pos hhigh]
    · simp only [if_neg hhigh]
      exact CString.length_scanUnsigned_le hscan

theorem copyValue_advances (size : Nat) (value : Bytes) : Advances 0 (copyValue size value) :=
  .ite advances_exit (advances_pure value)

theorem memberValue_advances (key : Bytes) (item : Entry) (fields : Nat) :
    Advances 0 (memberValue key item fields) := by
  have hskip := advances_change length_skipSpace_le
  refine .ite (.bind hskip fun _ ↦ .bind (jsonLong_advances _ _) fun _ ↦ advances_pure _) ?_
  refine .ite (.bind hskip fun _ ↦ .bind (jsonUnsigned_advances _) fun _ ↦ advances_pure _) ?_
  refine .ite (.bind hskip fun _ ↦ .bind (jsonLong_advances _ _) fun _ ↦ advances_pure _) ?_
  refine .mono (.bind (jsonString_advances 256) fun value ↦ ?_) (Nat.zero_le (1 + 0))
  refine .ite (.bind (copyValue_advances _ _) fun _ ↦ advances_pure _) ?_
  refine .ite (.ite (advances_pure _) (.ite (advances_pure _) advances_exit)) ?_
  refine .ite (.bind (copyValue_advances _ _) fun _ ↦ advances_pure _) ?_
  exact .ite (.bind (copyValue_advances _ _) fun _ ↦ advances_pure _) advances_exit

theorem comma_advances (closing : UInt8) : Advances 0 (comma closing) := by
  change Advances (0 + (0 + 0)) (comma closing)
  refine .bind (advances_change length_skipSpace_le) fun _ ↦ .bind (advances_read peek) fun c ↦ ?_
  refine .ite (advances_change fun p ↦ ?_) (.ite advances_exit (advances_pure _))
  rw [length_tail]
  omega

theorem memberStep_advances (item : Entry) (fields : Nat) :
    Advances 1 (memberStep item fields) := by
  refine .mono (.bind (jsonString_advances 32) fun key ↦ .bind (expect_advances 58 (by decide))
    fun _ ↦ .bind (memberValue_advances key item fields) fun read ↦ .bind (comma_advances 125)
    fun _ ↦ advances_pure read) ?_
  decide

/-! ## The loops -/

theorem Advances.le {α : Type} {n : Nat} {m : Parser α} (hm : Advances n m) {p q : Bytes} {a : α}
    (h : m p = (some a, q)) : q.length + n ≤ p.length := by
  have hp := hm p
  rw [Wp, h] at hp
  exact hp

theorem advances_of_le {α : Type} {n : Nat} {m : Parser α}
    (h : ∀ p a q, m p = (some a, q) → q.length + n ≤ p.length) : Advances n m := by
  intro p
  rw [Wp]
  split
  · rename_i a q hm
    exact h p a q hm
  · trivial

/-- The inner loop of `contact_book_load`. -/
def memberLoop (item : Entry) (fields : Nat) (p : Bytes) : Option (Entry × Nat) × Bytes :=
  if peek (skipSpace p) = 125 then (some (item, fields), p)
  else
    match _h : memberStep item fields p with
    | (none, q) => (none, q)
    | (some (item, fields), q) => memberLoop item fields q
  termination_by p.length
  decreasing_by
    have := (memberStep_advances _ _).le _h
    omega

theorem length_memberLoop_le {item : Entry} {fields : Nat} {p q : Bytes} {read : Entry × Nat}
    (h : memberLoop item fields p = (some read, q)) : q.length ≤ p.length := by
  fun_induction memberLoop item fields p with
  | case1 =>
    obtain ⟨-, rfl⟩ := Prod.mk.inj h
    exact Nat.le_refl _
  | case2 => cases (Prod.mk.inj h).1
  | case3 item fields p hclosing item' fields' q' hstep ih =>
    have hless := (memberStep_advances _ _).le hstep
    have := ih h
    omega

theorem memberLoop_advances (item : Entry) (fields : Nat) : Advances 0 (memberLoop item fields) :=
  advances_of_le fun _ _ _ h ↦ length_memberLoop_le h

/-- A round of the outer loop, with so many contacts in the book. -/
def entryStep (count : Nat) : Parser Entry := do
  if count = 64 then exit
  else
    expect 123
    let (item, fields) ← memberLoop .zero 0
    change List.tail
    if fields ≠ 31 then exit
    else
      comma 93
      return item

theorem entryStep_advances (count : Nat) : Advances 1 (entryStep count) := by
  change Advances (1 + (0 + (0 + 0))) (entryStep count)
  refine .ite advances_exit (.bind (expect_advances 123 (by decide)) fun _ ↦
    .bind (memberLoop_advances .zero 0) fun read ↦ .bind (advances_change fun p ↦ ?_) fun _ ↦ ?_)
  · rw [length_tail]
    omega
  · exact .ite advances_exit (.bind (comma_advances 93) fun _ ↦ advances_pure _)

/-- The outer loop of `contact_book_load`. -/
def entryLoop (items : List Entry) (p : Bytes) : Option (List Entry) × Bytes :=
  if peek (skipSpace p) = 93 then (some items, p)
  else
    match _h : entryStep items.length p with
    | (none, q) => (none, q)
    | (some item, q) => entryLoop (items ++ [item]) q
  termination_by p.length
  decreasing_by
    have := (entryStep_advances _).le _h
    omega

/-- The parser of `contact_book_load`. -/
def bookParser : Parser (List Entry) := do
  expect 91
  let items ← entryLoop []
  change List.tail
  let c ← read fun p ↦ peek (skipSpace p)
  if c ≠ 0 then exit else return items

/-- `contact_book_load` of what is in the file, if it can be read: the contacts, or the error. -/
def contactBookLoad (path : Bytes) (file : Option Bytes) : Except Bytes (List Entry) :=
  match file with
  | none => .error (Bytes.ofAscii "cannot open " ++ path)
  | some file =>
    let text := CString.text file
    match bookParser text with
    | (some items, _) => .ok items
    | (none, p) =>
      .error (Bytes.ofAscii "invalid contacts JSON near byte " ++
        Bytes.ofNat (text.length - p.length))

/-! ## Texts -/

/-- How the characters of a string can be written between its quotes. -/
inductive StringText : Bytes → Bytes → Prop
  | nil : StringText [] []
  | plain {c : UInt8} {value text : Bytes} (hquote : c ≠ 34) (hescape : c ≠ 92)
    (h : StringText value text) : StringText (c :: value) (c :: text)
  | escaped {c : UInt8} {value text : Bytes} (hc : c = 34 ∨ c = 92 ∨ c = 47)
    (h : StringText value text) : StringText (c :: value) (92 :: c :: text)

/-- The members of an object. -/
inductive Member
  | name
  | role
  | host
  | port
  | sharedKey
  | arbiterPriority
  | ram
  deriving DecidableEq

/-- The key of a member. -/
def Member.key : Member → Bytes
  | name => Bytes.ofAscii "name"
  | role => Bytes.ofAscii "role"
  | host => Bytes.ofAscii "host"
  | port => Bytes.ofAscii "port"
  | sharedKey => Bytes.ofAscii "shared_key"
  | arbiterPriority => Bytes.ofAscii "arbiter_priority"
  | ram => Bytes.ofAscii "RAM"

/-- A number, with its sign if it has one. -/
def intText : Int → Bytes
  | .ofNat n => Bytes.ofNat n
  | .negSucc n => 45 :: Bytes.ofNat (n + 1)

/-- The word for a role. -/
def roleText : ContactRole → Bytes
  | .human => Bytes.ofAscii "human"
  | .ai => Bytes.ofAscii "ai"

/-- How the value of a member of a contact can be written. -/
inductive ValueText (e : Entry) : Member → Bytes → Prop
  | name {text : Bytes} (h : StringText e.name text) : ValueText e .name (34 :: text ++ [34])
  | role {role : ContactRole} (h : e.role = some role) :
    ValueText e .role (34 :: roleText role ++ [34])
  | host {text : Bytes} (h : StringText e.host text) : ValueText e .host (34 :: text ++ [34])
  | port : ValueText e .port (Bytes.ofNat e.port)
  | sharedKey {text : Bytes} (h : StringText e.sharedKey text) :
    ValueText e .sharedKey (34 :: text ++ [34])
  | arbiterPriority : ValueText e .arbiterPriority (intText e.arbiterPriority)
  | ram : ValueText e .ram (Bytes.ofNat e.ramGb)

/-- How a member can be written, with space around everything. -/
inductive MemberText (e : Entry) : Member → Bytes → Prop
  | mk {m : Member} {value s₁ s₂ s₃ s₄ : Bytes} (h : ValueText e m value) (h₁ : Blank s₁)
    (h₂ : Blank s₂) (h₃ : Blank s₃) (h₄ : Blank s₄) :
    MemberText e m (s₁ ++ 34 :: m.key ++ 34 :: s₂ ++ 58 :: s₃ ++ value ++ s₄)

/-- How members can be written one after the other. -/
inductive MembersText (e : Entry) : List Member → Bytes → Prop
  | single {m : Member} {text : Bytes} (h : MemberText e m text) : MembersText e [m] text
  | cons {m : Member} {members : List Member} {text texts : Bytes} (h : MemberText e m text)
    (hs : MembersText e members texts) : MembersText e (m :: members) (text ++ 44 :: texts)

/-- The members an object has: all of them once, in any order, and the last two may be missing if
they are 0. -/
structure Listed (e : Entry) (members : List Member) : Prop where
  nodup : members.Nodup
  required : ∀ m, m ≠ .arbiterPriority → m ≠ .ram → m ∈ members
  arbiterPriority : .arbiterPriority ∉ members → e.arbiterPriority = 0
  ram : .ram ∉ members → e.ramGb = 0

/-- How a contact can be written. -/
inductive EntryText (e : Entry) : Bytes → Prop
  | mk {members : List Member} {text s₁ s₂ : Bytes} (hlisted : Listed e members)
    (h : MembersText e members text) (h₁ : Blank s₁) (h₂ : Blank s₂) :
    EntryText e (s₁ ++ 123 :: text ++ 125 :: s₂)

/-- How contacts can be written one after the other. -/
inductive EntriesText : List Entry → Bytes → Prop
  | single {e : Entry} {text : Bytes} (h : EntryText e text) : EntriesText [e] text
  | cons {e : Entry} {entries : List Entry} {text texts : Bytes} (h : EntryText e text)
    (hs : EntriesText entries texts) : EntriesText (e :: entries) (text ++ 44 :: texts)

/-- How a book can be written, unless it is empty. -/
inductive BookText (entries : List Entry) : Bytes → Prop
  | mk {text s₁ s₂ : Bytes} (h : EntriesText entries text) (h₁ : Blank s₁) (h₂ : Blank s₂) :
    BookText entries (s₁ ++ 91 :: text ++ 93 :: s₂)

/-- The strings of a contact fit their fields and have no control characters in them. -/
structure Entry.Fits (e : Entry) : Prop where
  name : e.name.length < 64 ∧ ∀ b ∈ e.name, 32 ≤ b
  role : e.role.isSome = true
  host : e.host.length < 256 ∧ ∀ b ∈ e.host, 32 ≤ b
  sharedKey : e.sharedKey.length < 128 ∧ ∀ b ∈ e.sharedKey, 32 ≤ b

/-- The numbers of a contact are in the ranges the program takes. -/
structure Entry.InRange (e : Entry) : Prop where
  port : 1 ≤ e.port ∧ e.port ≤ 65535
  arbiterPriority : 0 ≤ e.arbiterPriority ∧ e.arbiterPriority ≤ 1000000
  ram : e.ramGb ≤ 1048576

/-! ## Reading the tokens -/

variable {c : UInt8}

section

variable {s rest : Bytes}

theorem skipSpace_append (hs : Blank s) (hc : Bytes.isSpace c = false) (rest : Bytes) :
    skipSpace (s ++ c :: rest) = c :: rest := by
  rw [skipSpace, dropWhile_append_of_pos hs, dropWhile_cons_of_neg (by simp [hc])]

variable {value text : Bytes} {size : Nat}

theorem stringText_self (h : ∀ c ∈ value, c ≠ 34 ∧ c ≠ 92) : StringText value value := by
  induction value with
  | nil => exact .nil
  | cons c value ih =>
    obtain ⟨hc, hvalue⟩ := forall_mem_cons.mp h
    exact .plain hc.1 hc.2 (ih hvalue)

theorem stringLoop_read {used : Nat} (h : StringText value text) (hvalue : ∀ b ∈ value, 32 ≤ b)
    (hsize : used + value.length < size) :
    stringLoop size used (text ++ 34 :: rest) = some (value, rest) := by
  induction h generalizing used with
  | nil =>
    rw [nil_append, stringLoop.eq_def]
    exact if_pos rfl
  | @plain c value text hquote hescape h ih =>
    obtain ⟨hc, hvalue⟩ := forall_mem_cons.mp hvalue
    rw [length_cons] at hsize
    have hfull : ¬ (c < 32 ∨ size ≤ used + 1) := by
      rintro (hlow | hfull)
      · exact absurd hc (UInt8.not_le.mpr hlow)
      · omega
    rw [cons_append, stringLoop.eq_def]
    simp only [if_neg hquote, if_neg hescape, if_neg hfull]
    rw [ih hvalue (by omega), Option.map_some]
  | @escaped c value text hc h ih =>
    obtain ⟨hlow, hvalue⟩ := forall_mem_cons.mp hvalue
    rw [length_cons] at hsize
    have hpermitted : ¬ (c ≠ 92 ∧ c ≠ 34 ∧ c ≠ 47) := by
      rintro ⟨hbackslash, hquote, hslash⟩
      rcases hc with h | h | h
      · exact hquote h
      · exact hbackslash h
      · exact hslash h
    have hfull : ¬ (c < 32 ∨ size ≤ used + 1) := by
      rintro (hless | hfull)
      · exact absurd hlow (UInt8.not_le.mpr hless)
      · omega
    rw [cons_append, cons_append, stringLoop.eq_def]
    simp only [if_neg hpermitted, if_neg hfull]
    rw [if_neg (by decide), if_pos trivial, ih hvalue (by omega), Option.map_some]

/-- A string is read, whatever of it is behind a backslash. -/
theorem jsonString_read (hs : Blank s) (h : StringText value text) (hvalue : ∀ b ∈ value, 32 ≤ b)
    (hsize : value.length < size) (rest : Bytes) :
    jsonString size (s ++ 34 :: (text ++ 34 :: rest)) = (some value, rest) := by
  have hloop : stringLoop size 0 (text ++ 34 :: rest) = some (value, rest) :=
    stringLoop_read h hvalue (by omega)
  rw [jsonString, skipSpace_append hs (by decide)]
  simp only [hloop]

theorem expect_read {token : UInt8} (htoken : Bytes.isSpace token = false) (hs : Blank s) :
    expect token (s ++ token :: rest) = (some (), rest) := by
  rw [expect, skipSpace_append hs htoken]
  exact if_neg fun h ↦ h rfl

theorem skipSpace_ofNat (hs : Blank s) (n : Nat) (rest : Bytes) :
    (change skipSpace : Parser PUnit) (s ++ Bytes.ofNat n ++ rest) =
      (some ⟨⟩, Bytes.ofNat n ++ rest) := by
  obtain ⟨b, digits, hb⟩ := exists_cons_of_ne_nil (Bytes.ofNat_ne_nil n)
  have hdigit : Bytes.isDigit b = true :=
    Bytes.isDigit_of_mem_ofNat (hb ▸ mem_cons_self : b ∈ Bytes.ofNat n)
  have hskip := skipSpace_append hs (Bytes.isSpace_of_isDigit hdigit) (digits ++ rest)
  rw [hb, append_assoc, cons_append]
  exact congrArg (Prod.mk _) hskip

theorem ofNat_append_ne (n : Nat) (rest : Bytes) : rest ≠ Bytes.ofNat n ++ rest := by
  intro h
  have hlength := congrArg List.length h
  rw [length_append] at hlength
  have := length_pos_iff.mpr (Bytes.ofNat_ne_nil n)
  omega

theorem jsonLong_read {low high : Int} {n : Nat} (hlow : low ≤ n) (hhigh : (n : Int) ≤ high)
    (hsmall : n < 2 ^ 63) (hrest : rest.head?.all (!Bytes.isDigit ·) = true) :
    jsonLong low high (Bytes.ofNat n ++ rest) = (some (n : Int), rest) := by
  rw [jsonLong, CString.strtoSigned_ofNat hsmall hrest]
  refine if_neg ?_
  rintro (h | h | h)
  · exact ofNat_append_ne n rest h
  · omega
  · omega

theorem jsonUnsigned_read {high n : Nat} (hhigh : n ≤ high) (hsmall : n < 2 ^ 64)
    (hrest : rest.head?.all (!Bytes.isDigit ·) = true) :
    jsonUnsigned high (Bytes.ofNat n ++ rest) = (some n, rest) := by
  rw [jsonUnsigned, CString.scanUnsigned_ofNat hsmall hrest]
  exact if_neg (Nat.not_lt.mpr hhigh)

theorem copyValue_read (h : value.length < size) (p : Bytes) :
    copyValue size value p = (some value, p) := by
  rw [copyValue, if_neg (Nat.not_le.mpr h)]
  rfl

/-- Where the cursor is after a comma or before a closing bracket. -/
def behind (c : UInt8) (rest : Bytes) : Bytes := if c = 44 then rest else c :: rest

theorem comma_read {closing : UInt8} (hc : c = 44 ∨ c = closing)
    (hspace : Bytes.isSpace c = false) (hs : Blank s) :
    comma closing (s ++ c :: rest) = (some (), behind c rest) := by
  have hskip : (change skipSpace : Parser PUnit) (s ++ c :: rest) = (some ⟨⟩, c :: rest) :=
    congrArg (Prod.mk _) (skipSpace_append hs hspace rest)
  have hpeek : (read peek : Parser UInt8) (c :: rest) = (some c, c :: rest) := rfl
  rw [comma, bind_of_some hskip, bind_of_some hpeek, behind]
  by_cases hcomma : c = 44
  · rw [if_pos hcomma, if_pos hcomma]
    rfl
  have hclosing : ¬ c ≠ closing := fun h ↦ h (hc.resolve_left hcomma)
  rw [if_neg hcomma, if_neg hclosing, if_neg hcomma]
  rfl

end

/-! ## Reading the members -/

/-- A member of a contact is stored in the one being read. -/
def Member.store (e : Entry) (item : Entry) : Member → Entry
  | name => { item with name := e.name }
  | role => { item with role := e.role }
  | host => { item with host := e.host }
  | port => { item with port := e.port }
  | sharedKey => { item with sharedKey := e.sharedKey }
  | arbiterPriority => { item with arbiterPriority := e.arbiterPriority }
  | ram => { item with ramGb := e.ramGb }

/-- The bit of `fields` that says that a member has been read. -/
def Member.bit : Member → Nat
  | name => 1
  | role => 2
  | host => 4
  | port => 8
  | sharedKey => 16
  | arbiterPriority | ram => 0

section

variable {e : Entry} {m : Member} {rest : Bytes}

theorem memberValue_read (hfits : e.Fits) (hrange : e.InRange) {value s : Bytes} (hs : Blank s)
    (h : ValueText e m value) (hrest : rest.head?.all (!Bytes.isDigit ·) = true) (item : Entry)
    (fields : Nat) :
    memberValue m.key item fields (s ++ value ++ rest) =
      (some (m.store e item, fields ||| m.bit), rest) := by
  have hstring {value text : Bytes} (h : StringText value text) (hvalue : ∀ b ∈ value, 32 ≤ b)
      (hsize : value.length < 256) :
      jsonString 256 (s ++ (34 :: text ++ [34]) ++ rest) = (some value, rest) := by
    have hread := jsonString_read hs h hvalue hsize rest
    simpa only [append_assoc, cons_append, nil_append] using hread
  rw [memberValue]
  cases h with
  | name h =>
    obtain ⟨hsize, hvalue⟩ := hfits.name
    rw [if_neg (by decide), if_neg (by decide), if_neg (by decide),
      bind_of_some (hstring h hvalue (by omega)), if_pos (by decide),
      bind_of_some (copyValue_read hsize rest)]
    rfl
  | @role role h =>
    have hplain : ∀ c ∈ roleText role, c ≠ 34 ∧ c ≠ 92 := by cases role <;> decide
    have hvalue : ∀ b ∈ roleText role, 32 ≤ b := by cases role <;> decide
    have hsize : (roleText role).length < 256 := by cases role <;> decide
    rw [if_neg (by decide), if_neg (by decide), if_neg (by decide),
      bind_of_some (hstring (stringText_self hplain) hvalue hsize), if_neg (by decide),
      if_pos (by decide), Member.store, h]
    cases role with
    | human | ai => rfl
  | host h =>
    obtain ⟨hsize, hvalue⟩ := hfits.host
    rw [if_neg (by decide), if_neg (by decide), if_neg (by decide),
      bind_of_some (hstring h hvalue hsize), if_neg (by decide), if_neg (by decide),
      if_pos (by decide), bind_of_some (copyValue_read hsize rest)]
    rfl
  | port =>
    rw [if_pos (by decide), bind_of_some (skipSpace_ofNat hs e.port rest)]
    obtain ⟨hlow, hhigh⟩ := hrange.port
    have hread : jsonLong 1 65535 (Bytes.ofNat e.port ++ rest) = (some (e.port : Int), rest) :=
      jsonLong_read (by omega) (by omega) (by omega) hrest
    rw [bind_of_some hread]
    rfl
  | sharedKey h =>
    obtain ⟨hsize, hvalue⟩ := hfits.sharedKey
    rw [if_neg (by decide), if_neg (by decide), if_neg (by decide),
      bind_of_some (hstring h hvalue (by omega)), if_neg (by decide), if_neg (by decide),
      if_neg (by decide), if_pos (by decide), bind_of_some (copyValue_read hsize rest)]
    rfl
  | arbiterPriority =>
    obtain ⟨hlow, hhigh⟩ := hrange.arbiterPriority
    obtain ⟨n, hn⟩ := Int.eq_ofNat_of_zero_le hlow
    have hread : jsonLong 0 1000000 (Bytes.ofNat n ++ rest) = (some (n : Int), rest) :=
      jsonLong_read (by omega) (by omega) (by omega) hrest
    have htext : intText e.arbiterPriority = Bytes.ofNat n := by rw [hn]; rfl
    rw [if_neg (by decide), if_neg (by decide), if_pos (by decide), htext,
      bind_of_some (skipSpace_ofNat hs n rest), bind_of_some hread, Member.store, hn, Member.bit,
      Nat.or_zero]
    rfl
  | ram =>
    have hram := hrange.ram
    rw [if_neg (by decide), if_pos (by decide), bind_of_some (skipSpace_ofNat hs e.ramGb rest),
      bind_of_some (jsonUnsigned_read hram (by omega) hrest), Member.bit, Nat.or_zero]
    rfl

theorem isSpace_separator (hc : c = 44 ∨ c = 125 ∨ c = 93) :
    Bytes.isSpace c = false ∧ Bytes.isDigit c = false := by
  rcases hc with rfl | rfl | rfl <;> decide

/-- A number can end where there is space or a separator. -/
theorem head_blank_append {s : Bytes} (hs : Blank s) (hc : Bytes.isDigit c = false) :
    (s ++ c :: rest).head?.all (!Bytes.isDigit ·) = true := by
  cases s with
  | nil => simp [hc]
  | cons b s =>
    have hb : Bytes.isDigit b = false := by
      rw [Bool.eq_false_iff]
      intro hdigit
      exact absurd (hs b mem_cons_self) (by simp [Bytes.isSpace_of_isDigit hdigit])
    simp [hb]

/-- A member is read, up to the comma behind it or the brace. -/
theorem memberStep_read (hfits : e.Fits) (hrange : e.InRange) {text : Bytes}
    (h : MemberText e m text) (hc : c = 44 ∨ c = 125) (item : Entry) (fields : Nat)
    (rest : Bytes) : memberStep item fields (text ++ c :: rest) =
      (some (m.store e item, fields ||| m.bit), behind c rest) := by
  obtain ⟨hspace, hdigit⟩ := isSpace_separator (c := c) (hc.imp_right .inl)
  obtain @⟨value, s₁, s₂, s₃, s₄, h, h₁, h₂, h₃, h₄⟩ := h
  have hkey : jsonString 32
      (s₁ ++ 34 :: m.key ++ 34 :: s₂ ++ 58 :: s₃ ++ value ++ s₄ ++ c :: rest) =
      (some m.key, s₂ ++ 58 :: (s₃ ++ value ++ (s₄ ++ c :: rest))) := by
    have hplain : ∀ c ∈ m.key, c ≠ 34 ∧ c ≠ 92 := by cases m <;> decide
    have hvalue : ∀ b ∈ m.key, 32 ≤ b := by cases m <;> decide
    have hsize : m.key.length < 32 := by cases m <;> decide
    have hread := jsonString_read h₁ (stringText_self hplain) hvalue hsize
      (s₂ ++ 58 :: (s₃ ++ value ++ (s₄ ++ c :: rest)))
    simpa only [append_assoc, cons_append, nil_append] using hread
  rw [memberStep, bind_of_some hkey, bind_of_some (expect_read (by decide) h₂),
    bind_of_some (memberValue_read hfits hrange h₃ h (head_blank_append h₄ hdigit) item fields)]
  dsimp only
  rw [bind_of_some (comma_read hc hspace h₄)]
  rfl

theorem peek_member {text : Bytes} (h : MemberText e m text) (rest : Bytes) :
    peek (skipSpace (text ++ rest)) = 34 := by
  obtain @⟨value, s₁, s₂, s₃, s₄, -, h₁, -, -, -⟩ := h
  simp only [append_assoc, cons_append]
  rw [skipSpace_append h₁ (by decide)]
  rfl

theorem memberLoop_closing (item : Entry) (fields : Nat) (rest : Bytes) :
    memberLoop item fields (125 :: rest) = (some (item, fields), 125 :: rest) := by
  rw [memberLoop]
  exact if_pos rfl

theorem memberLoop_read (hfits : e.Fits) (hrange : e.InRange) {members : List Member} {text : Bytes}
    (h : MembersText e members text) (item : Entry) (fields : Nat) (rest : Bytes) :
    memberLoop item fields (text ++ 125 :: rest) = (some (members.foldl (Member.store e) item,
      members.foldl (fun fields m ↦ fields ||| m.bit) fields), 125 :: rest) := by
  have hround {m : Member} {text : Bytes} (h : MemberText e m text) {c : UInt8}
      (hc : c = 44 ∨ c = 125) (item : Entry) (fields : Nat) (rest : Bytes) :
      memberLoop item fields (text ++ c :: rest) =
        memberLoop (m.store e item) (fields ||| m.bit) (behind c rest) := by
    have hstep := memberStep_read hfits hrange h hc item fields rest
    rw [memberLoop, if_neg (by rw [peek_member h]; decide)]
    split
    · rename_i heq
      cases hstep.symm.trans heq
    rename_i heq
    cases hstep.symm.trans heq
    rfl
  induction h generalizing item fields with
  | single h =>
    rw [hround h (.inr rfl)]
    exact memberLoop_closing _ _ _
  | @cons m members text texts h hs ih =>
    rw [append_assoc, cons_append, hround h (.inl rfl)]
    exact ih _ _

end

/-! ## What has been read -/

section

variable {e : Entry} {members : List Member}

/-- What is in the contact after some members have been stored. -/
theorem foldl_store (item : Entry) : members.foldl (Member.store e) item =
    { name := if .name ∈ members then e.name else item.name
      role := if .role ∈ members then e.role else item.role
      host := if .host ∈ members then e.host else item.host
      port := if .port ∈ members then e.port else item.port
      sharedKey := if .sharedKey ∈ members then e.sharedKey else item.sharedKey
      arbiterPriority := if .arbiterPriority ∈ members then e.arbiterPriority
        else item.arbiterPriority
      ramGb := if .ram ∈ members then e.ramGb else item.ramGb } := by
  induction members generalizing item with
  | nil => simp
  | cons m members ih =>
    rw [foldl_cons, ih]
    cases m <;> simp [Member.store]

/-- **All the members together are the contact.** -/
theorem Listed.store (h : Listed e members) : members.foldl (Member.store e) .zero = e := by
  rw [foldl_store, if_pos (h.required .name nofun nofun), if_pos (h.required .role nofun nofun),
    if_pos (h.required .host nofun nofun), if_pos (h.required .port nofun nofun),
    if_pos (h.required .sharedKey nofun nofun)]
  have hpriority : (if .arbiterPriority ∈ members then e.arbiterPriority
      else Entry.zero.arbiterPriority) = e.arbiterPriority := by
    split
    · rfl
    · rename_i hmissing
      exact (h.arbiterPriority hmissing).symm
  have hram : (if .ram ∈ members then e.ramGb else Entry.zero.ramGb) = e.ramGb := by
    split
    · rfl
    · rename_i hmissing
      exact (h.ram hmissing).symm
  rw [hpriority, hram]

theorem foldl_bit (x fields : Nat) :
    members.foldl (fun fields m ↦ fields ||| m.bit) (x ||| fields) =
    x ||| members.foldl (fun fields m ↦ fields ||| m.bit) fields := by
  induction members generalizing fields with
  | nil => rfl
  | cons m members ih => rw [foldl_cons, foldl_cons, Nat.or_assoc, ih]

theorem bit_or_foldl {m : Member} (h : m ∈ members) (fields : Nat) :
    m.bit ||| members.foldl (fun fields m ↦ fields ||| m.bit) fields =
      members.foldl (fun fields m ↦ fields ||| m.bit) fields := by
  induction members generalizing fields with
  | nil => cases h
  | cons m' members ih =>
    rw [foldl_cons]
    rcases mem_cons.mp h with rfl | h
    · rw [Nat.or_comm fields, foldl_bit, ← Nat.or_assoc, Nat.or_self]
    · exact ih h _

theorem foldl_bit_or_all (members : List Member) (fields : Nat) (h : fields ||| 31 = 31) :
    members.foldl (fun fields m ↦ fields ||| m.bit) fields ||| 31 = 31 := by
  induction members generalizing fields with
  | nil => exact h
  | cons m members ih =>
    refine ih _ ?_
    have hbit : m.bit ||| 31 = 31 := by cases m <;> decide
    rw [Nat.or_assoc, hbit, h]

/-- **All the bits are set.** -/
theorem Listed.bits (h : Listed e members) :
    members.foldl (fun fields m ↦ fields ||| m.bit) 0 = 31 := by
  have hname := bit_or_foldl (h.required .name nofun nofun) 0
  have hrole := bit_or_foldl (h.required .role nofun nofun) 0
  have hhost := bit_or_foldl (h.required .host nofun nofun) 0
  have hport := bit_or_foldl (h.required .port nofun nofun) 0
  have hkey := bit_or_foldl (h.required .sharedKey nofun nofun) 0
  have hall := foldl_bit_or_all members 0 (by decide)
  generalize members.foldl (fun fields m ↦ fields ||| m.bit) 0 = fields at *
  simp only [Member.bit] at hname hrole hhost hport hkey
  rw [← hall, Nat.or_comm, show 31 = 1 ||| (2 ||| (4 ||| (8 ||| 16))) from rfl, Nat.or_assoc,
    Nat.or_assoc, Nat.or_assoc, Nat.or_assoc, hkey, hport, hhost, hrole, hname]

end

/-! ## Reading the book -/

section

variable {e : Entry} {rest : Bytes}

/-- A contact is read, up to the comma behind it or the bracket. -/
theorem entryStep_read (hfits : e.Fits) (hrange : e.InRange) {count : Nat} (hcount : count ≠ 64)
    {text : Bytes} (h : EntryText e text) (hc : c = 44 ∨ c = 93) (rest : Bytes) :
    entryStep count (text ++ c :: rest) = (some e, behind c rest) := by
  obtain ⟨hspace, -⟩ := isSpace_separator (c := c) (hc.imp_right .inr)
  obtain @⟨members, text, s₁, s₂, hlisted, h, h₁, h₂⟩ := h
  have htext : s₁ ++ 123 :: text ++ 125 :: s₂ ++ c :: rest =
      s₁ ++ 123 :: (text ++ 125 :: (s₂ ++ c :: rest)) := by
    simp only [append_assoc, cons_append]
  have hmembers := memberLoop_read hfits hrange h .zero 0 (s₂ ++ c :: rest)
  rw [hlisted.store, hlisted.bits] at hmembers
  have htail : (change List.tail : Parser PUnit) (125 :: (s₂ ++ c :: rest)) =
      (some ⟨⟩, s₂ ++ c :: rest) := rfl
  rw [entryStep, if_neg hcount, htext, bind_of_some (expect_read (by decide) h₁)]
  rw [bind_of_some hmembers]
  dsimp only
  rw [bind_of_some htail, if_neg (fun h ↦ h rfl), bind_of_some (comma_read hc hspace h₂)]
  rfl

theorem peek_entry {text : Bytes} (h : EntryText e text) (rest : Bytes) :
    peek (skipSpace (text ++ rest)) = 123 := by
  obtain @⟨members, text, s₁, s₂, -, -, h₁, -⟩ := h
  simp only [append_assoc, cons_append]
  rw [skipSpace_append h₁ (by decide)]
  rfl

theorem entryLoop_closing (items : List Entry) (rest : Bytes) :
    entryLoop items (93 :: rest) = (some items, 93 :: rest) := by
  rw [entryLoop]
  exact if_pos rfl

theorem entryLoop_read {entries items : List Entry} {text : Bytes} (h : EntriesText entries text)
    (hfits : ∀ e ∈ entries, e.Fits ∧ e.InRange) (hcount : items.length + entries.length ≤ 64) :
    entryLoop items (text ++ 93 :: rest) = (some (items ++ entries), 93 :: rest) := by
  have hround {e : Entry} (hfits : e.Fits ∧ e.InRange) {items : List Entry}
      (hcount : items.length < 64) {text : Bytes} (h : EntryText e text) {c : UInt8}
      (hc : c = 44 ∨ c = 93) (rest : Bytes) :
      entryLoop items (text ++ c :: rest) = entryLoop (items ++ [e]) (behind c rest) := by
    have hstep := entryStep_read hfits.1 hfits.2 (Nat.ne_of_lt hcount) h hc rest
    rw [entryLoop, if_neg (by rw [peek_entry h]; decide)]
    split
    · rename_i heq
      cases hstep.symm.trans heq
    rename_i heq
    cases hstep.symm.trans heq
    rfl
  induction h generalizing items with
  | single h =>
    rw [length_singleton] at hcount
    rw [hround (hfits _ (mem_singleton_self _)) (by omega) h (.inr rfl)]
    exact entryLoop_closing _ _
  | @cons e entries text texts h hs ih =>
    obtain ⟨hfirst, hothers⟩ := forall_mem_cons.mp hfits
    rw [length_cons] at hcount
    rw [append_assoc, cons_append, hround hfirst (by omega) h (.inl rfl)]
    have hmore : (items ++ [e]).length + entries.length ≤ 64 := by
      rw [length_append, length_singleton]
      omega
    have hrest := ih hothers hmore
    rw [append_assoc, singleton_append] at hrest
    exact hrest

end

/-! ## There is no terminator in a text -/

theorem StringText.zero_notMem {value text : Bytes} (h : StringText value text)
    (hvalue : ∀ b ∈ value, 32 ≤ b) : 0 ∉ text := by
  induction h with
  | nil => exact not_mem_nil
  | @plain c value text hquote hescape h ih =>
    obtain ⟨hc, hvalue⟩ := forall_mem_cons.mp hvalue
    rw [mem_cons, not_or]
    refine ⟨?_, ih hvalue⟩
    rintro rfl
    exact absurd hc (by decide)
  | @escaped c value text hc h ih =>
    obtain ⟨hlow, hvalue⟩ := forall_mem_cons.mp hvalue
    rw [mem_cons, mem_cons, not_or, not_or]
    refine ⟨by decide, ?_, ih hvalue⟩
    rintro rfl
    exact absurd hlow (by decide)

theorem zero_notMem_ofNat (n : Nat) : 0 ∉ Bytes.ofNat n :=
  fun h ↦ absurd (Bytes.isDigit_of_mem_ofNat h) (by decide)

section

variable {e : Entry} {text : Bytes}

theorem ValueText.zero_notMem {m : Member} (h : ValueText e m text) (hfits : e.Fits) :
    0 ∉ text := by
  have hquoted {text : Bytes} (h : 0 ∉ text) : 0 ∉ 34 :: text ++ [34] := by simpa using h
  cases h with
  | name h => exact hquoted (h.zero_notMem hfits.name.2)
  | @role role h =>
    refine hquoted ?_
    cases role <;> decide
  | host h => exact hquoted (h.zero_notMem hfits.host.2)
  | port | ram => exact zero_notMem_ofNat _
  | sharedKey h => exact hquoted (h.zero_notMem hfits.sharedKey.2)
  | arbiterPriority =>
    cases e.arbiterPriority with
    | ofNat n => exact zero_notMem_ofNat n
    | negSucc n =>
      rw [intText, mem_cons, not_or]
      exact ⟨by decide, zero_notMem_ofNat _⟩

theorem MemberText.zero_notMem {m : Member} (h : MemberText e m text) (hfits : e.Fits) :
    0 ∉ text := by
  obtain @⟨value, s₁, s₂, s₃, s₄, h, h₁, h₂, h₃, h₄⟩ := h
  have hkey : 0 ∉ m.key := by cases m <;> decide
  simp [h₁.zero_notMem, h₂.zero_notMem, h₃.zero_notMem, h₄.zero_notMem, h.zero_notMem hfits, hkey]

theorem MembersText.zero_notMem {members : List Member} (h : MembersText e members text)
    (hfits : e.Fits) : 0 ∉ text := by
  induction h with
  | single h => exact h.zero_notMem hfits
  | cons h _ ih => simp [h.zero_notMem hfits, ih]

theorem EntryText.zero_notMem (h : EntryText e text) (hfits : e.Fits) : 0 ∉ text := by
  obtain @⟨members, text, s₁, s₂, -, h, h₁, h₂⟩ := h
  simp [h₁.zero_notMem, h₂.zero_notMem, h.zero_notMem hfits]

theorem EntriesText.zero_notMem {entries : List Entry} (h : EntriesText entries text)
    (hfits : ∀ e ∈ entries, e.Fits) : 0 ∉ text := by
  induction h with
  | single h => exact h.zero_notMem (hfits _ (mem_singleton_self _))
  | cons h _ ih =>
    obtain ⟨hfirst, hothers⟩ := forall_mem_cons.mp hfits
    simp [h.zero_notMem hfirst, ih hothers]

end

/-! ## The result -/

/-- **A book comes out of its text as it went in**, however the text is written. -/
theorem book_loaded {entries : List Entry} (hcount : entries.length ≤ 64)
    (hfits : ∀ e ∈ entries, e.Fits ∧ e.InRange) {text : Bytes} (h : BookText entries text)
    (path : Bytes) : contactBookLoad path (some text) = .ok entries := by
  obtain @⟨text, s₁, s₂, h, h₁, h₂⟩ := h
  have hzero : 0 ∉ s₁ ++ 91 :: text ++ 93 :: s₂ := by
    simp [h₁.zero_notMem, h₂.zero_notMem, h.zero_notMem fun e he ↦ (hfits e he).1]
  have htext : CString.text (s₁ ++ 91 :: text ++ 93 :: s₂) = s₁ ++ 91 :: (text ++ 93 :: s₂) := by
    rw [CString.text_of_not_mem hzero, append_assoc, cons_append]
  have hentries : entryLoop [] (text ++ 93 :: s₂) = (some entries, 93 :: s₂) :=
    entryLoop_read h hfits (by simpa using hcount)
  have htail : (change List.tail : Parser PUnit) (93 :: s₂) = (some ⟨⟩, s₂) := rfl
  have hend : peek (skipSpace s₂) = 0 := by
    rw [skipSpace, dropWhile_eq_nil_iff.mpr h₂]
    rfl
  have hpeek : (read fun p ↦ peek (skipSpace p) : Parser UInt8) s₂ = (some 0, s₂) :=
    congrArg (fun c ↦ (some c, s₂)) hend
  have hbook : bookParser (s₁ ++ 91 :: (text ++ 93 :: s₂)) = (some entries, s₂) := by
    rw [bookParser, bind_of_some (expect_read (by decide) h₁), bind_of_some hentries,
      bind_of_some htail, bind_of_some hpeek, if_neg (fun h ↦ h rfl)]
    rfl
  simp only [contactBookLoad, htext, hbook]

/-! ## Two books -/

theorem memberText_dense {e : Entry} {m : Member} {value : Bytes} (h : ValueText e m value) :
    MemberText e m (34 :: m.key ++ 34 :: 58 :: value) := by
  have hnil : Blank [] := fun _ hb ↦ nomatch hb
  have hdense := MemberText.mk h hnil hnil hnil hnil
  simpa only [nil_append, append_assoc, cons_append, append_nil] using hdense

/-- A contact without the last two members, written without any space. -/
def denseText (e : Entry) (role : ContactRole) : Bytes :=
  let member (m : Member) (value : Bytes) := 34 :: m.key ++ 34 :: 58 :: value
  let quoted (text : Bytes) := 34 :: text ++ [34]
  123 :: (member .port (Bytes.ofNat e.port) ++ 44 :: (member .name (quoted e.name) ++
    44 :: (member .role (quoted (roleText role)) ++ 44 :: (member .host (quoted e.host) ++
      44 :: member .sharedKey (quoted e.sharedKey))))) ++ [125]

theorem entryText_dense {e : Entry} {role : ContactRole} (hrole : e.role = some role)
    (hpriority : e.arbiterPriority = 0) (hram : e.ramGb = 0)
    (hstrings : ∀ text ∈ [e.name, e.host, e.sharedKey], StringText text text) :
    EntryText e (denseText e role) := by
  have hlisted : Listed e [.port, .name, .role, .host, .sharedKey] := by
    refine ⟨by decide, fun m hpriority hram ↦ ?_, fun _ ↦ hpriority, fun _ ↦ hram⟩
    cases m
    case arbiterPriority => exact absurd rfl hpriority
    case ram => exact absurd rfl hram
    all_goals decide
  have hmembers : MembersText e [.port, .name, .role, .host, .sharedKey] _ :=
    .cons (memberText_dense .port) (.cons (memberText_dense (.name (hstrings _ (by simp))))
      (.cons (memberText_dense (.role hrole)) (.cons
        (memberText_dense (.host (hstrings _ (by simp))))
        (.single (memberText_dense (.sharedKey (hstrings _ (by simp))))))))
  exact EntryText.mk hlisted hmembers (show Blank [] by decide) (show Blank [] by decide)

/-- A contact. -/
def ada : Entry :=
  ⟨Bytes.ofAscii "a/b", some .human, Bytes.ofAscii "h", 47100, Bytes.ofAscii "k", 0, 16⟩

theorem ada_listed : Listed ada [.ram, .role, .port, .name, .sharedKey, .host] where
  nodup := by decide
  required m hpriority _ := by
    cases m
    case arbiterPriority => exact absurd rfl hpriority
    all_goals decide
  arbiterPriority _ := rfl
  ram h := absurd mem_cons_self h

/-- Another one. -/
def grace : Entry :=
  ⟨Bytes.ofAscii "grace", some .ai, Bytes.ofAscii "h", 47101, Bytes.ofAscii "", 0, 0⟩

/-- The text of a book with the two of them: the members are in another order, some are left out,
there is some space and a character is escaped. -/
def adaText : Bytes :=
  Bytes.ofAscii ("[ \x7b\"RAM\":16,\"role\":\"human\",\"port\":47100,\"name\":\"a\\/b\"," ++
    "\"shared_key\":\"k\",\"host\":\"h\"\x7d\n,\x7b\"port\":47101,\"name\":\"grace\"," ++
    "\"role\":\"ai\",\"host\":\"h\",\"shared_key\":\"\"\x7d]")

theorem adaText_book : BookText [ada, grace] adaText := by
  have hname : StringText ada.name (Bytes.ofAscii "a\\/b") :=
    .plain (by decide) (by decide) (.escaped (by decide) (.plain (by decide) (by decide) .nil))
  have hmembers : MembersText ada [.ram, .role, .port, .name, .sharedKey, .host] _ :=
    .cons (memberText_dense .ram) (.cons (memberText_dense (.role rfl)) (.cons
      (memberText_dense .port) (.cons (memberText_dense (.name hname)) (.cons
        (memberText_dense (.sharedKey (stringText_self (by decide))))
        (.single (memberText_dense (.host (stringText_self (by decide)))))))))
  have hgrace : EntryText grace (denseText grace .ai) := by
    refine entryText_dense rfl rfl rfl ?_
    simp only [forall_mem_cons, not_mem_nil, false_imp_iff, implies_true, and_true]
    exact ⟨stringText_self (by decide), stringText_self (by decide), stringText_self (by decide)⟩
  have hbook := BookText.mk (.cons (EntryText.mk ada_listed hmembers
    (show Blank [32] by decide) (show Blank [10] by decide)) (.single hgrace))
    (show Blank [] by decide) (show Blank [] by decide)
  refine cast (congrArg (BookText [ada, grace]) ?_) hbook
  decide +kernel

/-- They are loaded. -/
theorem ada_loaded : contactBookLoad [] (some adaText) = .ok [ada, grace] := by
  refine book_loaded (by decide) ?_ adaText_book []
  rw [forall_mem_cons, forall_mem_singleton]
  exact ⟨⟨⟨by decide, rfl, by decide, by decide⟩, by decide, by decide, by decide⟩,
    ⟨by decide, rfl, by decide, by decide⟩, by decide, by decide, by decide⟩

/-- A contact whose port is 0. -/
def portless : Entry :=
  ⟨Bytes.ofAscii "a", some .ai, Bytes.ofAscii "h", 0, Bytes.ofAscii "k", 0, 0⟩

/-- The text of a book in which it is the only contact. -/
def portlessText : Bytes :=
  Bytes.ofAscii ("[\x7b\"port\":0,\"name\":\"a\",\"role\":\"ai\",\"host\":\"h\"," ++
    "\"shared_key\":\"k\"\x7d]")

theorem portlessText_book : BookText [portless] portlessText := by
  have hentry : EntryText portless (denseText portless .ai) := by
    refine entryText_dense rfl rfl rfl ?_
    simp only [forall_mem_cons, not_mem_nil, false_imp_iff, implies_true, and_true]
    exact ⟨stringText_self (by decide), stringText_self (by decide), stringText_self (by decide)⟩
  have hbook := BookText.mk (.single hentry) (show Blank [] by decide) (show Blank [] by decide)
  refine cast (congrArg (BookText [portless]) ?_) hbook
  decide +kernel

/-- **A contact whose port is 0 cannot be loaded.** -/
theorem zero_port_rejected : portless.Fits ∧ BookText [portless] portlessText ∧
    contactBookLoad [] (some portlessText) =
      .error (Bytes.ofAscii "invalid contacts JSON near byte 9") := by
  refine ⟨⟨by decide, rfl, by decide, by decide⟩, portlessText_book, ?_⟩
  have hstep : memberStep .zero 0 (portlessText.drop 2) = (none, portlessText.drop 9) := by
    decide +kernel
  have hmembers : memberLoop .zero 0 (portlessText.drop 2) = (none, portlessText.drop 9) := by
    rw [memberLoop, if_neg (by decide +kernel)]
    split
    · rename_i heq
      exact congrArg (Prod.mk none) (congrArg Prod.snd (hstep.symm.trans heq)).symm
    · rename_i heq
      cases hstep.symm.trans heq
  have hbrace : expect 123 (portlessText.drop 1) = (some (), portlessText.drop 2) := by
    decide +kernel
  have hentry : entryStep 0 (portlessText.drop 1) = (none, portlessText.drop 9) := by
    rw [entryStep, if_neg (by decide +kernel), bind_of_some hbrace, bind_of_none hmembers]
  have hentries : entryLoop [] (portlessText.drop 1) = (none, portlessText.drop 9) := by
    rw [entryLoop, if_neg (by decide +kernel)]
    split
    · rename_i heq
      exact congrArg (Prod.mk none) (congrArg Prod.snd (hentry.symm.trans heq)).symm
    · rename_i heq
      cases hentry.symm.trans heq
  have hbracket : expect 91 portlessText = (some (), portlessText.drop 1) := by decide +kernel
  have hbook : bookParser portlessText = (none, portlessText.drop 9) := by
    rw [bookParser, bind_of_some hbracket, bind_of_none hentries]
  have htext : CString.text portlessText = portlessText := by decide +kernel
  have hplace : Bytes.ofAscii "invalid contacts JSON near byte " ++
      Bytes.ofNat (portlessText.length - (portlessText.drop 9).length) =
      Bytes.ofAscii "invalid contacts JSON near byte 9" := by decide +kernel
  simp only [contactBookLoad, htext, hbook, hplace]

end Noobia.Council
