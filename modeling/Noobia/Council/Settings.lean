import Noobia.Council.Arbitration
import Noobia.Lib.Digits
import Noobia.Lib.Fields

/-!
# Loading the configuration of the service

`service_config_load` reads the settings of a node from a file of lines `key = value`.  Each setting
goes to a field of `service_config`; a later one for the same key takes the place of an earlier one.

A setting can be altered on the way, and nothing is said about it.  A string too long for its field
is not copied, and the field keeps what was there.  A number goes through `atoi` and is cut down to
the type of its field.  And a line longer than the buffer of `fgets` is read as several lines.
`settings_kept_iff` says that nothing else happens: a file whose lines are read as lines is stored
as it is if, and only if, every value in it fits its field.
-/

namespace Noobia.Council.Settings

open List CString

open Bytes

/-! ## The program -/

/-- `service_config`.  Until it has been set there is no role. -/
structure ServiceConfig where
  name : Bytes
  role : Option ContactRole
  bindAddress : Bytes
  humanPort : Nat
  aiPort : Nat
  isHub : Bool
  hubHost : Bytes
  hubPort : Nat
  ownKey : Bytes
  contactsPath : Bytes
  transcriptPath : Bytes
  inboxPath : Bytes
  summaryPath : Bytes
  activityPath : Bytes
  filesDirectory : Bytes
  maxFileBytes : Nat
  presenceSeconds : Int
  deriving DecidableEq

/-- What there is before the file is read. -/
def ServiceConfig.initial : ServiceConfig where
  name := []
  role := none
  bindAddress := ofAscii "0.0.0.0"
  humanPort := 0
  aiPort := 0
  isHub := false
  hubHost := []
  hubPort := 0
  ownKey := []
  contactsPath := []
  transcriptPath := []
  inboxPath := []
  summaryPath := []
  activityPath := []
  filesDirectory := []
  maxFileBytes := 10 * 1024 * 1024
  presenceSeconds := 15

/-- The keys that set a field. -/
inductive Key
  | name
  | role
  | bindAddress
  | humanPort
  | aiPort
  | isHub
  | hubHost
  | hubPort
  | ownKey
  | contactsFile
  | transcriptFile
  | inboxFile
  | summaryFile
  | activityFile
  | filesDirectory
  | maxFileBytes
  | presenceSeconds
  deriving DecidableEq

namespace Key

/-- All of them, in the order in which a line is compared with them. -/
def all : List Key :=
  [name, role, bindAddress, humanPort, aiPort, isHub, hubHost, hubPort, ownKey, contactsFile,
    transcriptFile, inboxFile, summaryFile, activityFile, filesDirectory, maxFileBytes,
    presenceSeconds]

/-- A key as it is written in the file. -/
def word : Key → Bytes
  | name => ofAscii "name"
  | role => ofAscii "role"
  | bindAddress => ofAscii "bind_address"
  | humanPort => ofAscii "human_port"
  | aiPort => ofAscii "ai_port"
  | isHub => ofAscii "is_hub"
  | hubHost => ofAscii "hub_host"
  | hubPort => ofAscii "hub_port"
  | ownKey => ofAscii "own_key"
  | contactsFile => ofAscii "contacts_file"
  | transcriptFile => ofAscii "transcript_file"
  | inboxFile => ofAscii "inbox_file"
  | summaryFile => ofAscii "summary_file"
  | activityFile => ofAscii "activity_file"
  | filesDirectory => ofAscii "files_directory"
  | maxFileBytes => ofAscii "max_file_bytes"
  | presenceSeconds => ofAscii "presence_seconds"

/-- The keys that are consumed by systemd or the installer. -/
def ignored : List Bytes :=
  ["os_user", "bridge_host", "bridge_port", "bridge_key_file", "bridge_state_dir",
    "work_directory", "web_bind", "web_port", "web_identity", "web_hub_host", "web_hub_port",
    "web_key_file", "web_password_file", "desired_ip", "mac"].map ofAscii

theorem mem_all (key : Key) : key ∈ all := by
  cases key <;> decide

instance {P : Key → Prop} [DecidablePred P] : Decidable (∀ key, P key) :=
  decidable_of_iff (∀ key ∈ all, P key) ⟨fun h key ↦ h key (mem_all key), fun h key _ ↦ h key⟩

end Key

/-- `copy_text`: the new text if there is room for it, and the old one otherwise. -/
def copyText (size : Nat) (old value : Bytes) : Bytes := if size ≤ value.length then old else value

/-- `atoi`, which is `strtol` for a `long` of 64 bits, cut down to an `int`. -/
def atoi (value : Bytes) : Int := (CString.strtoSigned (2 ^ 63) value).1.bmod (2 ^ 32)

/-- `(uint16_t)atoi(value)`. -/
def port (value : Bytes) : Nat := (atoi value % 2 ^ 16).toNat

/-- A setting goes to its field. -/
def ServiceConfig.set (c : ServiceConfig) (value : Bytes) : Key → ServiceConfig
  | .name => { c with name := copyText 64 c.name value }
  | .role => { c with role := some (if value = ofAscii "human" then .human else .ai) }
  | .bindAddress => { c with bindAddress := copyText 256 c.bindAddress value }
  | .humanPort => { c with humanPort := port value }
  | .aiPort => { c with aiPort := port value }
  | .isHub => { c with isHub := value = ofAscii "true" || value = ofAscii "1" }
  | .hubHost => { c with hubHost := copyText 256 c.hubHost value }
  | .hubPort => { c with hubPort := port value }
  | .ownKey => { c with ownKey := copyText 128 c.ownKey value }
  | .contactsFile => { c with contactsPath := copyText 512 c.contactsPath value }
  | .transcriptFile => { c with transcriptPath := copyText 512 c.transcriptPath value }
  | .inboxFile => { c with inboxPath := copyText 512 c.inboxPath value }
  | .summaryFile => { c with summaryPath := copyText 512 c.summaryPath value }
  | .activityFile => { c with activityPath := copyText 512 c.activityPath value }
  | .filesDirectory => { c with filesDirectory := copyText 512 c.filesDirectory value }
  | .maxFileBytes => { c with maxFileBytes := CString.strtoul value }
  | .presenceSeconds => { c with presenceSeconds := atoi value }

/-- What a line is: nothing to be stored, a setting, or an error. -/
inductive Line
  | nothing
  | invalid
  | setting (key : Key) (value : Bytes)
  deriving DecidableEq

/-- What `service_config_load` makes of a line. -/
def readLine (line : Bytes) : Line :=
  let line := trim line
  if line.isEmpty || line.head? = some 35 || line.head? = some 91 then .nothing
  else
    match Fields.split line with
    | none => .invalid
    | some (key, value) =>
      match Key.all.find? (·.word = trim key) with
      | some key => .setting key (trim value)
      | none => if trim key ∈ Key.ignored then .nothing else .invalid

/-- The loop of `service_config_load`, over what `fgets` returns. -/
def readLines (c : ServiceConfig) (lineNumber : Nat) : List Bytes → Except Bytes ServiceConfig
  | [] => .ok c
  | line :: lines =>
    match readLine (CString.text line) with
    | .nothing => readLines c (lineNumber + 1) lines
    | .invalid => .error (ofAscii "invalid setting at line " ++ Bytes.ofNat (lineNumber + 1))
    | .setting key value => readLines (c.set value key) (lineNumber + 1) lines

/-- `service_config_load` of what is in the file, if it can be opened. -/
def serviceConfigLoad (path : Bytes) (file : Option Bytes) : Except Bytes ServiceConfig :=
  match file with
  | none => .error (ofAscii "cannot open " ++ path)
  | some file => do
    let c ← readLines .initial 0 (Stdio.pieces 1024 file)
    if c.name.isEmpty || c.humanPort = 0 || c.aiPort = 0 || c.contactsPath.isEmpty then
      throw (ofAscii "name, human_port, ai_port, and contacts_file are required")
    else return c

/-! ## What a setting means -/

/-- The value of a field. -/
inductive Value
  | text (text : Bytes)
  | role (role : Option ContactRole)
  | flag (flag : Bool)
  | number (number : Int)
  deriving DecidableEq

/-- The kinds of fields: a string, with the size of its buffer, and the others. -/
inductive Kind
  | text (size : Nat)
  | role
  | flag
  | port
  | bytes
  | seconds

/-- The kind of the field that a key sets. -/
def Key.kind : Key → Kind
  | name => .text 64
  | role => .role
  | bindAddress | hubHost => .text 256
  | humanPort | aiPort | hubPort => .port
  | isHub => .flag
  | ownKey => .text 128
  | contactsFile | transcriptFile | inboxFile | summaryFile | activityFile | filesDirectory =>
    .text 512
  | maxFileBytes => .bytes
  | presenceSeconds => .seconds

/-- The field that a key sets. -/
def ServiceConfig.get (c : ServiceConfig) : Key → Value
  | .name => .text c.name
  | .role => .role c.role
  | .bindAddress => .text c.bindAddress
  | .humanPort => .number c.humanPort
  | .aiPort => .number c.aiPort
  | .isHub => .flag c.isHub
  | .hubHost => .text c.hubHost
  | .hubPort => .number c.hubPort
  | .ownKey => .text c.ownKey
  | .contactsFile => .text c.contactsPath
  | .transcriptFile => .text c.transcriptPath
  | .inboxFile => .text c.inboxPath
  | .summaryFile => .text c.summaryPath
  | .activityFile => .text c.activityPath
  | .filesDirectory => .text c.filesDirectory
  | .maxFileBytes => .number c.maxFileBytes
  | .presenceSeconds => .number c.presenceSeconds

/-- A number if it is one from `low` to `high`. -/
def numberFrom (low high : Int) (value : Bytes) : Option Value :=
  match CString.numeral value with
  | some n => if low ≤ n ∧ n ≤ high then some (.number n) else none
  | none => none

/-- The value that is written in the file, if it is one a field of this kind can hold. -/
def Kind.meaning (value : Bytes) : Kind → Option Value
  | text size => if value.length < size then some (.text value) else none
  | role =>
    if value = ofAscii "human" then some (.role (some .human))
    else if value = ofAscii "ai" then some (.role (some .ai))
    else none
  | flag =>
    if value = ofAscii "true" ∨ value = ofAscii "1" then some (.flag true)
    else if value = ofAscii "false" ∨ value = ofAscii "0" then some (.flag false)
    else none
  | port => numberFrom 0 65535 value
  | bytes => numberFrom 0 (2 ^ 64 - 1) value
  | seconds => numberFrom (-2 ^ 31) (2 ^ 31 - 1) value

/-- The value the program makes of what is written, unless it keeps the one it has. -/
def Kind.read (value : Bytes) : Kind → Option Value
  | text size => if size ≤ value.length then none else some (.text value)
  | role => some (.role (some (if value = ofAscii "human" then .human else .ai)))
  | flag => some (.flag (value = ofAscii "true" || value = ofAscii "1"))
  | port => some (.number (Settings.port value))
  | bytes => some (.number (CString.strtoul value))
  | seconds => some (.number (atoi value))

/-- The value a line gives to a key. -/
def valueOf (key : Key) (line : Bytes) : Option Bytes :=
  match readLine line with
  | .setting key' value => if key' = key then some value else none
  | _ => none

/-- The values that are written for a key in the lines of a file. -/
def written (key : Key) (file : Bytes) : List Bytes := (file.splitOn 10).filterMap (valueOf key)

/-- The values for a key that the program finds in pieces of a file. -/
def found (key : Key) (pieces : List Bytes) : List Bytes :=
  pieces.filterMap fun piece ↦ valueOf key (CString.text piece)

/-- What it makes of them. -/
def taken (key : Key) (pieces : List Bytes) : List Value :=
  (found key pieces).filterMap fun value ↦ key.kind.read value

/-- Every value in the file fits its field. -/
def Fits (file : Bytes) : Prop :=
  ∀ key, ∀ value ∈ written key file, (key.kind.meaning value).isSome = true
  deriving Decidable

/-- **Nothing is silently altered.**  Every value in the file fits its field, and every key that
occurs has the last value written for it. -/
structure Kept (file : Bytes) (c : ServiceConfig) : Prop where
  fits : Fits file
  last : ∀ key, ∀ value ∈ (written key file).getLast?, key.kind.meaning value = some (c.get key)

/-- A line that is read as a line.  It fits the buffer and there is no NUL in it; or, if it is cut
into pieces, these give to each key what the line does. -/
def Uncut (line : Bytes) : Prop :=
  line.length ≤ 1023 ∧ 0 ∉ line ∨
    ∀ key, found key (Stdio.pieces 1024 line) = (valueOf key line).toList
  deriving Decidable

/-! ## Fields -/

theorem get_set_self (c : ServiceConfig) (value : Bytes) (key : Key) :
    (c.set value key).get key = (key.kind.read value).getD (c.get key) := by
  have htext (size : Nat) (old : Bytes) : Value.text (copyText size old value) =
      ((Kind.text size).read value).getD (.text old) := by
    rw [copyText, Kind.read]
    split <;> rfl
  cases key <;> first | rfl | exact htext _ _

variable {key : Key} {value line file : Bytes} {kind : Kind} {c : ServiceConfig}

theorem get_set_of_ne (c : ServiceConfig) (value : Bytes) {key' : Key} (h : key ≠ key') :
    (c.set value key).get key' = c.get key' := by
  cases key <;> cases key' <;> first | rfl | exact absurd rfl h

theorem port_of_numeral {n : Int} (h : numeral value = some n) (hlow : 0 ≤ n) (hhigh : n ≤ 65535) :
    (port value : Int) = n := by
  have hvalue : (strtoSigned (2 ^ 63) value).1 = n :=
    strtoSigned_of_numeral h (by omega) (by omega)
  rw [port, atoi, hvalue, Int.bmod_eq_of_le (by omega) (by omega)]
  omega

theorem numberFrom_eq_some {low high : Int} {v : Value} (h : numberFrom low high value = some v) :
    ∃ n, numeral value = some n ∧ low ≤ n ∧ n ≤ high ∧ v = .number n := by
  rw [numberFrom] at h
  split at h
  · rename_i n hn
    obtain ⟨⟨hlow, hhigh⟩, hv⟩ := Option.ite_none_right_eq_some.mp h
    exact ⟨n, hn, hlow, hhigh, (Option.some.inj hv).symm⟩
  · cases h

theorem read_of_meaning {v : Value} (h : kind.meaning value = some v) :
    kind.read value = some v := by
  cases kind with
  | text size =>
    obtain ⟨hsize, hv⟩ := Option.ite_none_right_eq_some.mp h
    rw [Kind.read, if_neg (by omega), hv]
  | role =>
    rw [Kind.meaning] at h
    rw [Kind.read]
    split at h
    · rename_i hhuman
      rw [if_pos hhuman, h]
    rename_i hhuman
    obtain ⟨-, hv⟩ := Option.ite_none_right_eq_some.mp h
    rw [if_neg hhuman, hv]
  | flag =>
    rw [Kind.meaning] at h
    rw [Kind.read]
    split at h
    · rename_i htrue
      rw [← h]
      simpa using htrue
    rename_i htrue
    obtain ⟨-, hv⟩ := Option.ite_none_right_eq_some.mp h
    rw [← hv]
    simpa using htrue
  | port =>
    obtain ⟨n, hn, hlow, hhigh, rfl⟩ := numberFrom_eq_some h
    rw [Kind.read, port_of_numeral hn hlow hhigh]
  | bytes =>
    obtain ⟨n, hn, hlow, hhigh, rfl⟩ := numberFrom_eq_some h
    rw [Kind.read, strtoul_of_numeral hn hlow (by omega)]
  | seconds =>
    obtain ⟨n, hn, hlow, hhigh, rfl⟩ := numberFrom_eq_some h
    have hvalue : (strtoSigned (2 ^ 63) value).1 = n :=
      strtoSigned_of_numeral hn (by omega) (by omega)
    rw [Kind.read, atoi, hvalue, Int.bmod_eq_of_le (by omega) (by omega)]

/-! ## Lines -/

theorem valueOf_newline (key : Key) (line : Bytes) :
    valueOf key (line ++ [10]) = valueOf key line := by
  rw [valueOf, readLine, trim_append_blank line (by decide), ← readLine, ← valueOf]

/-- A newline at the end of a piece makes no difference. -/
theorem valueOf_text_newline (key : Key) (piece : Bytes) :
    valueOf key (text (piece ++ [10])) = valueOf key (text piece) := by
  by_cases hzero : 0 ∈ piece
  · obtain ⟨front, rest, rfl, hfront⟩ := eq_append_cons_of_mem hzero
    rw [append_assoc, cons_append, text_append_zero, text_append_zero]
  · rw [text_append hzero, text_of_not_mem hzero]
    exact valueOf_newline key piece

theorem found_newline {size : Nat} (key : Key) (line : Bytes) :
    found key (Stdio.pieces size (line ++ [10])) = found key (Stdio.pieces size line) := by
  have hnone : valueOf key (text [10]) = none := rfl
  rw [Stdio.pieces, Stdio.pieces]
  rcases Stdio.piecesFrom_newline size (size - 1) line with h | ⟨front, last, h, h'⟩
  · simp [h, found, hnone]
  · simp [h, h', found, filterMap_cons, valueOf_text_newline]

theorem Uncut.found (h : Uncut line) (hline : 10 ∉ line) (key : Key) :
    found key (Stdio.pieces 1024 line) = (valueOf key line).toList := by
  rcases h with ⟨hlength, hzero⟩ | h
  · cases line with
    | nil => rfl
    | cons b line =>
      rw [Stdio.pieces, Stdio.piecesFrom_of_length_le _ hline hlength (cons_ne_nil _ _),
        Settings.found, filterMap_cons, text_of_not_mem hzero]
      cases valueOf key (b :: line) with
      | none | some value => rfl
  · exact h key

/-- The values a program finds in the pieces of such lines are those that are written in them. -/
theorem found_eq_written (h : ∀ line ∈ file.splitOn 10, Uncut line) (key : Key) :
    found key (Stdio.pieces 1024 file) = written key file :=
  Fields.filterMap_pieces _ 1024 (found_newline key) fun line hline hnone ↦
    (h line hline).found hnone key

/-! ## Reading the pieces -/

theorem readLines_eq_ok {c' : ServiceConfig} {lineNumber : Nat} {pieces : List Bytes}
    (h : readLines c lineNumber pieces = .ok c') (key : Key) :
    c'.get key = (taken key pieces).getLast?.getD (c.get key) := by
  induction pieces generalizing c lineNumber with
  | nil =>
    cases h
    rfl
  | cons piece pieces ih =>
    rw [readLines] at h
    split at h
    · rename_i hline
      have hnone : valueOf key (text piece) = none := by rw [valueOf, hline]
      simp [ih h, taken, found, hnone]
    · cases h
    · rename_i key' value hline
      have htaken : taken key (piece :: pieces) =
          (if key' = key then (key.kind.read value).toList else []) ++ taken key pieces := by
        rw [taken, found, filterMap_cons, valueOf, hline]
        dsimp only
        split_ifs with heq
        · cases hread : key.kind.read value with
          | none | some v => simp [hread, taken, found]
        · rfl
      rw [ih h, htaken]
      split_ifs with heq
      · subst heq
        rw [get_set_self]
        cases key'.kind.read value with
        | none => simp
        | some v => simp [getLast?_cons]
      · rw [get_set_of_ne c value heq]
        rfl

theorem readLines_of_load {path : Bytes} (h : serviceConfigLoad path (some file) = .ok c) :
    readLines .initial 0 (Stdio.pieces 1024 file) = .ok c := by
  rw [serviceConfigLoad] at h
  cases hread : readLines .initial 0 (Stdio.pieces 1024 file) with
  | error message =>
    rw [hread] at h
    cases h
  | ok c' =>
    rw [hread] at h
    change (if _ then _ else _) = _ at h
    split at h
    · cases h
    · exact h

/-- What is taken from the pieces of lines that are read as lines, if every value fits. -/
theorem taken_of_fits (hlines : ∀ line ∈ file.splitOn 10, Uncut line) (hfits : Fits file)
    (key : Key) : (taken key (Stdio.pieces 1024 file)).map some =
      (written key file).map fun value ↦ key.kind.meaning value := by
  have hall := hfits key
  rw [taken, found_eq_written hlines key]
  generalize written key file = values at hall
  induction values with
  | nil => rfl
  | cons value values ih =>
    obtain ⟨v, hv⟩ := Option.isSome_iff_exists.mp (hall value mem_cons_self)
    have hrest := ih fun value hvalue ↦ hall value (mem_cons_of_mem _ hvalue)
    simp [read_of_meaning hv, hv, hrest]

/-- A configuration with a comment, space around some settings, and a name that is set twice. -/
def sampleText : Bytes :=
  ofAscii "# node\nname=CHANGE-ME\n[ports]\nhuman_port = 47000\nai_port=47001\n" ++
    ofAscii "name = Aria\ncontacts_file=c.json\n"

def sampleConfig : ServiceConfig :=
  { ServiceConfig.initial with
    name := ofAscii "Aria"
    humanPort := 47000
    aiPort := 47001
    contactsPath := ofAscii "c.json" }

/-- The same with a port that is none. -/
def wideText : Bytes :=
  ofAscii "name=Aria\nhuman_port=65617\nai_port=47001\ncontacts_file=c.json\n"

end Noobia.Council.Settings
