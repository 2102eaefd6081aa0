import Noobia.Council.Reading
import Noobia.Council.Sha256
import Noobia.Council.Wire

/-!
# Who is calling

A service that is called sends a nonce, and the caller answers with its name and a digest of name
and nonce under its own key (`AUTH <name> <digest>`).  The service looks the name up in the contact
book and compares.  All services have the same book, with everybody's key in it.

A hub calls the service of an AI to deliver a message, to tell it that it may speak, to see whether
it is there, and to forward a file.  For the first three it goes through `outbound_contact`, which
puts its own key into the copy of the contact it dials.  For a file it dials the contact as it is in
the book, with the key of the one it calls.  `authenticates_iff` says what comes of it.
-/

open Bytes

namespace Noobia.Council

open List CString

/-- What a `char[COUNCIL_KEY_LENGTH]` can hold: a string of at most 127 bytes. -/
@[ext] structure Key where
  bytes : Bytes
  short : bytes.length < 128
  ne_zero : ∀ b ∈ bytes, b ≠ 0

instance : DecidableEq Key := fun a b ↦ decidable_of_iff (a.bytes = b.bytes) Key.ext_iff.symm

/-! ## Digests -/

/-- `authentication_digest`, in hex; the text goes through a buffer of 256 bytes. -/
def authenticationDigest (key : Key) (name nonce : Bytes) : Bytes :=
  hex (hmacSha256 key.bytes ((name ++ [124] ++ nonce).take 255))

def authenticationMatches (a b : Bytes) : Bool :=
  a.length = b.length && (a.zip b).foldl (fun d (x, y) ↦ d ||| (x ^^^ y)) 0 = 0

@[simp] theorem length_authenticationDigest (key : Key) (name nonce : Bytes) :
    (authenticationDigest key name nonce).length = 64 := by
  simp [authenticationDigest]

theorem authenticationMatches_iff (a b : Bytes) : authenticationMatches a b = true ↔ a = b := by
  have hfold (a b : Bytes) (d : UInt8) (hlength : a.length = b.length) :
      (a.zip b).foldl (fun d (x, y) ↦ d ||| (x ^^^ y)) d = 0 ↔ d = 0 ∧ a = b := by
    induction a generalizing b d with
    | nil =>
      obtain rfl := length_eq_zero_iff.mp hlength.symm
      simp
    | cons x a ih =>
      cases b with
      | nil => simp at hlength
      | cons y b =>
        rw [zip_cons_cons, foldl_cons, ih b _ (by simpa using hlength),
          UInt8.or_eq_zero_iff, UInt8.xor_eq_zero_iff, List.cons.injEq, and_assoc]
  rw [authenticationMatches, Bool.and_eq_true, decide_eq_true_eq, decide_eq_true_eq]
  constructor
  · rintro ⟨hlength, h⟩
    exact ((hfold a b 0 hlength).mp h).2
  · rintro rfl
    exact ⟨rfl, (hfold a a 0 rfl).mpr ⟨rfl, rfl⟩⟩

/-! ## The two ends -/

/-- `sscanf(line, "AUTH %63s %64s", name, given)`. -/
def scanAuth (line : Bytes) : Option (Bytes × Bytes) :=
  if !starts "AUTH" line then none
  else do
    let (name, rest) ← CString.scanWord 63 (line.drop 4)
    let (given, _) ← CString.scanWord 64 rest
    return (name, given)

section

variable {cfg : Config} (keys : cfg.Person → Key)

/-- The first line of `protocol_accept_identity`. -/
def greeting (nonce : Bytes) : Bytes :=
  (Bytes.ofAscii "NONCE " ++ nonce ++ [10]).take (messageLength - 1)

/-- The rest of `protocol_accept_identity`: what it answers, and whom it takes the caller for. -/
def acceptIdentity (role : ContactRole) (nonce stream : Bytes) : Bytes × Option cfg.Person :=
  match networkReadLine messageLength stream with
  | none => ([], none)
  | some (line, _) =>
  match scanAuth (CString.text line) with
  | none => ([], none)
  | some (name, given) =>
  match (cfg.find (.snprintf name)).filter fun p ↦ (cfg.contact p).role = role with
  | none => (Bytes.ofAscii "ERROR IDENTITY\n", none)
  | some person =>
    if !authenticationMatches given (authenticationDigest (keys person) name nonce) then
      (Bytes.ofAscii "ERROR AUTHENTICATION\n", none)
    else (Bytes.ofAscii "OK\n", some person)

/-- What `protocol_connect_identity` answers to the greeting. -/
def authLine (key : Key) (localName : Name) (stream : Bytes) : Option Bytes :=
  match networkReadLine messageLength stream with
  | none => none
  | some (line, _) =>
    if !starts "NONCE " (CString.text line) then none
    else some <| (Bytes.ofAscii "AUTH " ++ localName.bytes ++ [32] ++
      authenticationDigest key localName.bytes ((CString.text line).drop 6) ++ [10]).take
        (messageLength - 1)

/-- `protocol_connect_identity` is content with the answer. -/
def welcomed (stream : Bytes) : Bool :=
  (networkReadLine messageLength stream).any fun (line, _) ↦
    CString.text line = Bytes.ofAscii "OK"

/-- `protocol_connect_identity` at one end and `protocol_accept_identity` at the other: whom the
caller has been taken for, if both are content. -/
def connectIdentity (role : ContactRole) (nonce : Bytes) (key : Key) (localName : Name) :
    Option cfg.Person :=
  match authLine key localName (greeting nonce) with
  | none => none
  | some auth =>
    if welcomed (acceptIdentity keys role nonce auth).1 then
      (acceptIdentity keys role nonce auth).2
    else none

/-! ## The hub calls -/

/-- What the hub calls the service of an AI for. -/
inductive Outbound
  | deliver
  | speak
  | probe
  | file
  deriving DecidableEq

/-- The key in the contact the hub dials: from `outbound_contact` its own, if it is in its own book,
and from `file_transfer_forward` the one of the contact it is given. -/
def dial (target : cfg.Person) : Outbound → Option Key
  | .deliver | .speak | .probe => (cfg.find cfg.name).map keys
  | .file => some (keys target)

/-- Whom the AI's service takes the hub for.  An AI is called at the port for AIs. -/
def authenticates (target : cfg.Person) (kind : Outbound) (nonce : Bytes) : Option cfg.Person :=
  (dial keys target kind).bind fun key ↦ connectIdentity keys .ai nonce key cfg.name

/-! ## Names and lines -/

/-- `%63s` reads all of the name. -/
def Name.IsWord (name : Name) : Prop :=
  name.bytes ≠ [] ∧ ∀ b ∈ name.bytes, Bytes.isSpace b = false
  deriving Decidable

/-- There is no space at either end of the name; `service_config_load` takes it off. -/
def Name.Trimmed (name : Name) : Prop :=
  (∀ b ∈ name.bytes.head?, Bytes.isSpace b = false) ∧
    ∀ b ∈ name.bytes.getLast?, Bytes.isSpace b = false
  deriving Decidable

variable {b : UInt8} {nonce n given : Bytes}

/-- What comes after the space is neither the end of anything nor a space. -/
theorem of_space_lt (h : 32 < b.toNat) : b ≠ 0 ∧ b ≠ 10 ∧ b ≠ 13 ∧ isSpace b = false := by
  have hne (n : UInt8) (hn : n.toNat < 33) : b ≠ n := by
    rintro rfl
    omega
  refine ⟨hne 0 (by decide), hne 10 (by decide), hne 13 (by decide), ?_⟩
  simp only [isSpace, Bool.or_eq_false_iff, Bool.and_eq_false_iff, decide_eq_false_iff_not,
    UInt8.le_iff_toNat_le, UInt8.reduceToNat]
  exact ⟨hne 32 (by decide), .inr (by omega)⟩

theorem of_isHexDigit (h : isHexDigit b = true) : b ≠ 0 ∧ b ≠ 10 ∧ b ≠ 13 ∧ isSpace b = false := by
  refine of_space_lt (Nat.lt_of_lt_of_le (by decide : 32 < 48) ?_)
  simp only [isHexDigit, isDigit, toLower, Bool.or_eq_true, Bool.and_eq_true,
    decide_eq_true_eq, UInt8.le_iff_toNat_le] at h
  rcases h with h | h
  · exact h.1
  split at h
  · rename_i hupper
    exact Nat.le_trans (by decide) hupper.1
  · exact Nat.le_trans (by decide) h.1

/-- The line with which a caller answers. -/
def authText (key : Key) (localName : Name) (nonce : Bytes) : Bytes :=
  Bytes.ofAscii "AUTH" ++ 32 :: (localName.bytes ++ 32 ::
    authenticationDigest key localName.bytes nonce)

variable {key : Key} {name : Name} {random : Bytes}

theorem mem_authText (hb : b ∈ authText key name nonce) :
    b ∈ ofAscii "AUTH" ∨ b = 32 ∨ b ∈ name.bytes ∨ isHexDigit b = true := by
  simp only [authText, mem_append, mem_cons] at hb
  rcases hb with hb | rfl | hb | rfl | hb
  · exact .inl hb
  · exact .inr (.inl rfl)
  · exact .inr (.inr (.inl hb))
  · exact .inr (.inl rfl)
  · exact .inr (.inr (.inr (isHexDigit_of_mem_hex hb)))

theorem length_authText (nonce : Bytes) :
    (authText key name nonce).length = name.bytes.length + 70 := by
  simp [authText, ofAscii]

theorem authLine_greeting (hrandom : random.length = 16) :
    authLine key name (greeting (hex random)) = some (authText key name (hex random) ++ [10]) := by
  have hdigits (b : UInt8) (hb : b ∈ hex random) := of_isHexDigit (isHexDigit_of_mem_hex hb)
  have hlength : (hex random).length = 32 := by simp [hrandom]
  have hmem (b : UInt8) (hb : b ∈ ofAscii "NONCE " ++ hex random) :
      b ≠ 0 ∧ b ≠ 10 ∧ b ≠ 13 := by
    rcases mem_append.mp hb with hb | hb
    · exact (by decide : ∀ b ∈ ofAscii "NONCE ", b ≠ 0 ∧ b ≠ 10 ∧ b ≠ 13) b hb
    · exact ⟨(hdigits b hb).1, (hdigits b hb).2.1, (hdigits b hb).2.2.1⟩
  have hread : networkReadLine messageLength (greeting (hex random)) =
      some (ofAscii "NONCE " ++ hex random, []) := by
    rw [greeting, take_of_length_le (by simp [hlength, messageLength, ofAscii])]
    refine networkReadLine_line (fun h ↦ (hmem 10 h).2.1 rfl) (fun h ↦ (hmem 13 h).2.2 rfl) ?_ []
    simp [hlength, messageLength, ofAscii]
  have htext : text (ofAscii "NONCE " ++ hex random) =
      ofAscii "NONCE " ++ hex random :=
    text_of_ne_zero fun b hb ↦ (hmem b hb).1
  have hstarts : starts "NONCE " (ofAscii "NONCE " ++ hex random) = true := by
    rw [starts, isPrefixOf_iff_prefix]
    exact prefix_append _ _
  have hdrop : (ofAscii "NONCE " ++ hex random).drop 6 = hex random := rfl
  have hshort := name.short
  rw [authLine, hread]
  dsimp only
  rw [htext, hstarts, hdrop, take_of_length_le]
  · simp [authText, ofAscii]
  · simp [messageLength, ofAscii]
    omega

/-! ## What is read of the line -/

theorem scanAuth_authText :
    scanAuth (authText key name nonce) = some (n, given) ↔ ∃ rest rest',
      scanWord 63 (name.bytes ++ 32 :: authenticationDigest key name.bytes nonce) =
        some (n, rest) ∧ scanWord 64 rest = some (given, rest') := by
  have hstarts : starts "AUTH" (authText key name nonce) = true := by
    rw [starts, isPrefixOf_iff_prefix]
    exact prefix_append _ _
  have hdrop : (authText key name nonce).drop 4 =
      32 :: (name.bytes ++ 32 :: authenticationDigest key name.bytes nonce) := rfl
  rw [scanAuth, hstarts, hdrop, scanWord_space]
  simp [Option.bind_eq_some_iff]

theorem scanWord_digest (nonce : Bytes) :
    scanWord 64 (authenticationDigest key name.bytes nonce) =
      some (authenticationDigest key name.bytes nonce, []) := by
  have h : scanWord 64 (authenticationDigest key name.bytes nonce ++ []) =
      some (authenticationDigest key name.bytes nonce, []) :=
    scanWord_word (ne_nil_of_length_pos (by simp))
      (fun b hb ↦ (of_isHexDigit (isHexDigit_of_mem_hex hb)).2.2.2) (by simp) rfl
  rwa [append_nil] at h

/-- A name that is a word is read as it is, and so is the digest. -/
theorem scanAuth_of_isWord (hword : name.IsWord) (nonce : Bytes) :
    scanAuth (authText key name nonce) =
      some (name.bytes, authenticationDigest key name.bytes nonce) := by
  have hshort := name.short
  rw [scanAuth_authText]
  refine ⟨_, [], scanWord_word hword.1 hword.2 (by omega) rfl, ?_⟩
  rw [scanWord_space, scanWord_digest]

/-- Without a name the digest is taken for it, as far as there is room. -/
theorem scanAuth_of_empty (hempty : name.bytes = [])
    (h : scanAuth (authText key name nonce) = some (n, given)) : given.length < 64 := by
  obtain ⟨rest, rest', hname, hgiven⟩ := scanAuth_authText.mp h
  have hdigits : ∀ b ∈ authenticationDigest key name.bytes nonce, isSpace b = false :=
    fun b hb ↦ (of_isHexDigit (isHexDigit_of_mem_hex hb)).2.2.2
  have hlength := length_authenticationDigest key name.bytes nonce
  rw [hempty, nil_append, scanWord_space, ← hempty] at hname
  generalize authenticationDigest key name.bytes nonce = digest at *
  have hstart : digest.dropWhile isSpace = digest := by
    obtain ⟨b, digest, rfl⟩ := exists_cons_of_length_pos (by omega : 0 < digest.length)
    exact dropWhile_cons_of_neg (by simp [hdigits b (mem_cons_self ..)])
  have htake : (digest.take 63).takeWhile (!isSpace ·) = digest.take 63 := by
    rw [takeWhile_eq_self_iff]
    intro b hb
    simp [hdigits b (mem_of_mem_take hb)]
  rw [scanWord, hstart, htake] at hname
  split at hname
  · cases hname
  obtain ⟨-, rfl⟩ := Prod.mk.inj (Option.some.inj hname)
  have hle := length_scanWord hgiven
  simp only [length_drop, length_take] at hle
  omega

/-- Of a name with a space in it something is left over, and that is taken for the digest. -/
theorem scanAuth_of_space (htrimmed : name.Trimmed) (hspace : ∃ b ∈ name.bytes, isSpace b = true)
    (h : scanAuth (authText key name nonce) = some (n, given)) : given.length < 64 := by
  obtain ⟨rest, rest', hname, hgiven⟩ := scanAuth_authText.mp h
  have hshort := name.short
  obtain ⟨word, b, tail, hbytes, hword, hb⟩ : ∃ word b tail, name.bytes = word ++ b :: tail ∧
      (∀ c ∈ word, isSpace c = false) ∧ isSpace b = true := by
    obtain ⟨b, hb, hisSpace⟩ := hspace
    have hne : name.bytes.dropWhile (!isSpace ·) ≠ [] := by
      rw [ne_eq, dropWhile_eq_nil_iff]
      intro hall
      simpa [hisSpace] using hall b hb
    obtain ⟨c, tail, hcons⟩ := exists_cons_of_ne_nil hne
    refine ⟨name.bytes.takeWhile (!isSpace ·), c, tail, ?_, ?_, ?_⟩
    · rw [← hcons, takeWhile_append_dropWhile]
    · intro d hd
      simpa using mem_takeWhile_imp hd
    · have hhead := head_dropWhile_not (!isSpace ·) hne
      simpa [hcons] using hhead
  have hlast : ∃ c ∈ tail, isSpace c = false := by
    cases hcases : tail.getLast? with
    | none =>
      have hlast := htrimmed.2 b (by
        rw [hbytes, getLast?_eq_none_iff.mp hcases]
        simp)
      simp [hb] at hlast
    | some c =>
      refine ⟨c, mem_of_getLast? hcases, htrimmed.2 c ?_⟩
      rw [hbytes, getLast?_append, getLast?_cons, hcases]
      rfl
  have hne : word ≠ [] := by
    rintro rfl
    have hhead := htrimmed.1 b (by simp [hbytes])
    simp [hb] at hhead
  have hlength : word.length + (tail.length + 1) < 64 := by
    simpa [hbytes] using hshort
  rw [hbytes, append_assoc, scanWord_word hne hword (by omega) (by simpa using hb)]
    at hname
  obtain ⟨-, rfl⟩ := Prod.mk.inj (Option.some.inj hname)
  have hleft : (b :: tail).dropWhile isSpace ≠ [] := by
    obtain ⟨c, hc, hisSpace⟩ := hlast
    rw [ne_eq, dropWhile_eq_nil_iff]
    intro hall
    simpa [hisSpace] using hall c (mem_cons_of_mem _ hc)
  have hle : given.length ≤ (b :: tail).length :=
    length_scanWord_le hleft (by decide : isSpace 32 = true) rfl hgiven
  simp only [length_cons] at hle
  omega

/-- Whatever is read of a name that is not a word, it is not followed by a digest. -/
theorem isWord_of_scanAuth (htrimmed : name.Trimmed)
    (h : scanAuth (authText key name nonce) = some (n, given)) (hgiven : given.length = 64) :
    name.IsWord := by
  refine ⟨fun hempty ↦ ?_, fun b hb ↦ ?_⟩
  · exact absurd hgiven (scanAuth_of_empty hempty h).ne
  · by_contra hspace
    exact absurd hgiven (scanAuth_of_space htrimmed ⟨b, hb, by simpa using hspace⟩ h).ne

/-! ## Who is recognised -/

section

variable {role : ContactRole} {nonce stream : Bytes} {p : cfg.Person}

theorem name_of_find (h : cfg.find name = some p) : (cfg.contact p).name = name :=
  of_decide_eq_true (find?_some (p := fun p ↦ decide ((cfg.contact p).name = name)) h)

/-- What it takes to be recognised, once the line has been read. -/
theorem acceptIdentity_of_scan {line rest n given : Bytes}
    (hread : networkReadLine messageLength stream = some (line, rest))
    (hscan : scanAuth (text line) = some (n, given)) :
    (acceptIdentity keys role nonce stream).2 = some p ↔ cfg.find (.snprintf n) = some p ∧
      (cfg.contact p).role = role ∧ given = authenticationDigest (keys p) n nonce := by
  rw [acceptIdentity, hread]
  dsimp only
  rw [hscan]
  dsimp only
  split
  · rename_i hnobody
    rw [Option.filter_eq_none_iff] at hnobody
    refine ⟨nofun, fun h ↦ ?_⟩
    exact absurd h.2.1 (by simpa using hnobody p h.1)
  · rename_i person hperson
    obtain ⟨hfind, hrole⟩ := Option.filter_eq_some_iff.mp hperson
    rw [decide_eq_true_eq] at hrole
    split
    · rename_i hdigest
      refine ⟨nofun, fun h ↦ ?_⟩
      obtain rfl := Option.some.inj (hfind.symm.trans h.1)
      rw [(authenticationMatches_iff _ _).mpr h.2.2] at hdigest
      cases hdigest
    · rename_i hdigest
      rw [Bool.not_eq_true', Bool.not_eq_false, authenticationMatches_iff] at hdigest
      refine ⟨fun h ↦ ?_, fun h ↦ hfind.symm.trans h.1⟩
      obtain rfl := Option.some.inj h
      exact ⟨hfind, hrole, hdigest⟩

theorem welcomed_acceptIdentity : welcomed (acceptIdentity keys role nonce stream).1 =
    (acceptIdentity keys role nonce stream).2.isSome := by
  rw [acceptIdentity]
  repeat' split
  all_goals rfl

theorem isWord_of_acceptIdentity (h : (acceptIdentity keys role nonce stream).2 = some p) :
    (cfg.contact p).name.IsWord := by
  cases hread : networkReadLine messageLength stream with
  | none => simp [acceptIdentity, hread] at h
  | some read =>
    obtain ⟨line, rest⟩ := read
    cases hscan : scanAuth (text line) with
    | none => simp [acceptIdentity, hread, hscan] at h
    | some scanned =>
      obtain ⟨n, given⟩ := scanned
      obtain ⟨hfind, -, -⟩ := (acceptIdentity_of_scan keys hread hscan).mp h
      rw [scanAuth] at hscan
      split at hscan
      · cases hscan
      obtain ⟨⟨n', rest'⟩, hname, hscan⟩ := Option.bind_eq_some_iff.mp hscan
      obtain ⟨⟨given', rest''⟩, -, hscan⟩ := Option.bind_eq_some_iff.mp hscan
      obtain ⟨rfl, -⟩ := Prod.mk.inj (Option.some.inj hscan)
      obtain ⟨hne, hspace, hlength, hsubset⟩ := of_scanWord hname
      have hzero (b : UInt8) (hb : b ∈ n') : b ≠ 0 :=
        ne_zero_of_mem_text (mem_of_mem_drop (hsubset hb))
      have hbytes : (Name.snprintf n').bytes = n' :=
        (congrArg (List.take 63) (text_of_ne_zero hzero)).trans
          (take_of_length_le hlength)
      rw [name_of_find hfind, Name.IsWord, hbytes]
      exact ⟨hne, hspace⟩

/-- A caller is recognised if its name is a word and it has the key that belongs to it. -/
theorem connectIdentity_eq_some (hname : ∀ b ∈ name.bytes, 32 ≤ b) (htrimmed : name.Trimmed)
    (hrandom : random.length = 16) :
    connectIdentity keys role (hex random) key name = some p ↔ name.IsWord ∧
      cfg.find name = some p ∧ (cfg.contact p).role = role ∧
      authenticationDigest key name.bytes (hex random) =
        authenticationDigest (keys p) name.bytes (hex random) := by
  have hmem (b : UInt8) (hb : b ∈ authText key name (hex random)) : b ≠ 0 ∧ b ≠ 10 ∧ b ≠ 13 := by
    rcases mem_authText hb with hb | rfl | hb | hb
    · exact (by decide : ∀ b ∈ ofAscii "AUTH", b ≠ 0 ∧ b ≠ 10 ∧ b ≠ 13) b hb
    · decide
    · have hle := UInt8.le_iff_toNat_le.mp (hname b hb)
      refine ⟨?_, ?_, ?_⟩ <;> rintro rfl <;> simp at hle
    · exact ⟨(of_isHexDigit hb).1, (of_isHexDigit hb).2.1, (of_isHexDigit hb).2.2.1⟩
  have hshort := name.short
  have hread : networkReadLine messageLength (authText key name (hex random) ++ [10]) =
      some (authText key name (hex random), []) := by
    refine networkReadLine_line (fun h ↦ (hmem 10 h).2.1 rfl) (fun h ↦ (hmem 13 h).2.2 rfl) ?_ []
    rw [length_authText, messageLength]
    omega
  have htext : text (authText key name (hex random)) = authText key name (hex random) :=
    text_of_ne_zero fun b hb ↦ (hmem b hb).1
  have hconnect : connectIdentity keys role (hex random) key name =
      (acceptIdentity keys role (hex random) (authText key name (hex random) ++ [10])).2 := by
    rw [connectIdentity, authLine_greeting hrandom]
    dsimp only
    rw [welcomed_acceptIdentity]
    cases (acceptIdentity keys role (hex random) (authText key name (hex random) ++ [10])).2 <;> rfl
  rw [hconnect]
  by_cases hword : name.IsWord
  · have hscan : scanAuth (authText key name (hex random)) = _ :=
      scanAuth_of_isWord hword (hex random)
    rw [acceptIdentity_of_scan keys hread (htext.symm ▸ hscan), Name.snprintf_bytes]
    simp only [hword, true_and]
  · refine ⟨fun h ↦ ?_, fun h ↦ absurd h.1 hword⟩
    cases hscan : scanAuth (authText key name (hex random)) with
    | none => simp [acceptIdentity, hread, htext, hscan] at h
    | some scanned =>
      obtain ⟨n, given⟩ := scanned
      obtain ⟨-, -, hgiven⟩ := (acceptIdentity_of_scan keys hread (htext.symm ▸ hscan)).mp h
      refine absurd (isWord_of_scanAuth htrimmed hscan ?_) hword
      rw [hgiven, length_authenticationDigest]

end

/-! ## Calls of the hub -/

/-- What it takes for a call of the hub to be accepted: the hub is an AI, its name can be read, and
for a file the digest it makes with the key of the one it calls is the one its own key makes. -/
structure Recognised (hub target : cfg.Person) (kind : Outbound) (nonce : Bytes) : Prop where
  role : (cfg.contact hub).role = .ai
  word : cfg.name.IsWord
  digest : kind = .file → authenticationDigest (keys target) cfg.name.bytes nonce =
    authenticationDigest (keys hub) cfg.name.bytes nonce

/-- **Whether a call of the hub is accepted.**  The name of the hub is in the book, and nobody takes
it for somebody else. -/
theorem authenticates_iff (hloaded : cfg.Loaded) {hub : cfg.Person}
    (hhub : cfg.find cfg.name = some hub) (htrimmed : cfg.name.Trimmed)
    (hrandom : random.length = 16) (target : cfg.Person) (kind : Outbound) (p : cfg.Person) :
    authenticates keys target kind (hex random) = some p ↔
      p = hub ∧ Recognised keys hub target kind (hex random) := by
  have hname : ∀ b ∈ cfg.name.bytes, 32 ≤ b := name_of_find hhub ▸ hloaded.contacts hub
  have hdial (key : Key) : connectIdentity keys .ai (hex random) key cfg.name = some p ↔
      p = hub ∧ cfg.name.IsWord ∧ (cfg.contact hub).role = .ai ∧
        authenticationDigest key cfg.name.bytes (hex random) =
          authenticationDigest (keys hub) cfg.name.bytes (hex random) := by
    rw [connectIdentity_eq_some keys hname htrimmed hrandom, hhub, Option.some.injEq]
    constructor
    · rintro ⟨hword, rfl, hrole, hdigest⟩
      exact ⟨rfl, hword, hrole, hdigest⟩
    · rintro ⟨rfl, hword, hrole, hdigest⟩
      exact ⟨hword, rfl, hrole, hdigest⟩
  rw [authenticates]
  cases kind with
  | file =>
    rw [dial, Option.bind_some, hdial]
    exact and_congr_right fun _ ↦
      ⟨fun h ↦ ⟨h.2.1, h.1, fun _ ↦ h.2.2⟩, fun h ↦ ⟨h.word, h.role, h.digest rfl⟩⟩
  | _ =>
    rw [dial, hhub, Option.map_some, Option.bind_some, hdial]
    exact and_congr_right fun _ ↦ ⟨fun h ↦ ⟨h.2.1, h.1, nofun⟩, fun h ↦ ⟨h.word, h.role, rfl⟩⟩

end

end Noobia.Council
