import Noobia.Council.Digest
import Noobia.Lib.Crash
import Noobia.Lib.Socket

/-!
# Receiving a file

A file comes with its name, its size and its SHA-256, and behind them so many bytes.  They are
written, as they arrive, to a file whose name ends in `.part`, in pieces of 16 KiB; only when the
digest of all of them is the one that was announced does that file get the name it is stored under.
On every other way out it is removed.

Everything around the function can fail: the source of random bytes, opening the file, a write,
which then is a short one, closing the file and renaming it.  `Attempt` is how all that turns out.
`receive_verified` says that the function returns success if none of it fails and the file is what
was announced, that the file is then there as it was sent, and that otherwise it is as if nothing
had been received.
-/

namespace Noobia.Council

open List Function

/-! ## The program -/

def isAlnum (c : UInt8) : Bool :=
  Bytes.isDigit c || (65 ≤ c && c ≤ 90) || (97 ≤ c && c ≤ 122)

/-- `file_transfer_name_is_safe`. -/
def nameIsSafe (name : Bytes) : Bool :=
  !(name.isEmpty || 128 ≤ name.length || name = Bytes.ofAscii "." || name = Bytes.ofAscii "..") &&
    name.all fun c ↦ isAlnum c || c = 46 || c = 95 || c = 45

/-- How the operations of one call turn out. -/
structure Attempt where
  /-- The random bytes of the nonce, if there are any to be had. -/
  random : Option Bytes
  /-- `fopen` works. -/
  opens : Bool
  /-- How much the disk takes at each `fwrite`. -/
  room : Nat → Nat
  /-- The last `fclose` works. -/
  closes : Bool
  /-- `rename` works. -/
  renames : Bool

/-- What `file_transfer_receive_stream` returns; with success, what it leaves in `stored`. -/
inductive Received
  | stored (path : Bytes)
  | failed
  | mismatch
  deriving DecidableEq

/-- The number returned. -/
def Received.code : Received → Int
  | stored _ => 0
  | failed => -1
  | mismatch => -2

/-- `sizeof(buffer)`. -/
def chunkSize : Nat := 16384

/-- `"%s/%s-%s"`. -/
def storedPath (directory random name : Bytes) : Bytes :=
  directory ++ [47] ++ hex random ++ [45] ++ name

/-- The loop of `file_transfer_receive_stream`, at its `k`th `fwrite`.  It fails when the bytes do
not arrive or a write is short. -/
def receiveLoop (room : Nat → Nat) (temporary : Bytes) (k remaining : Nat) (hash : Sha256Ctx)
    (segments : List Bytes) (files : Files Bytes UInt8) : Option Sha256Ctx × Files Bytes UInt8 :=
  if _hremaining : remaining = 0 then (some hash, files)
  else
    let wanted := min remaining chunkSize
    match Socket.readBytes wanted segments with
    | none => (none, files)
    | some (buffer, segments) =>
      let (written, files) := Files.write temporary (buffer.take (room k)) files
      if written ≠ wanted then (none, files)
      else
        receiveLoop room temporary (k + 1) (remaining - wanted) (hash.sha256Update buffer) segments
          files
  termination_by remaining
  decreasing_by
    simp only [chunkSize]
    omega

/-- `rename`, which replaces a file that has the new name. -/
def replaceFile (path path' : Bytes) (files : Files Bytes UInt8) : Files Bytes UInt8 :=
  Function.update (Function.update files path none) path' (files path)

/-- `file_transfer_receive_stream`. -/
def receiveStream (attempt : Attempt) (directory name : Bytes) (size : Nat) (digest : Bytes)
    (storedSize : Nat) (segments : List Bytes) (files : Files Bytes UInt8) :
    Received × Files Bytes UInt8 :=
  if !nameIsSafe name then (.failed, files)
  else
    match attempt.random with
    | none => (.failed, files)
    | some random =>
      let final := (storedPath directory random name).take 1023
      if 1024 ≤ final.length + 5 || storedSize ≤ final.length then (.failed, files)
      else
        let temporary := final ++ Bytes.ofAscii ".part"
        if !attempt.opens then (.failed, files)
        else
          match receiveLoop attempt.room temporary 0 size .init segments
            (Files.create temporary files).2 with
          | (none, files) => (.failed, (Files.remove temporary files).2)
          | (some hash, files) =>
            if !attempt.closes then (.failed, (Files.remove temporary files).2)
            else if hex hash.final ≠ digest then (.mismatch, (Files.remove temporary files).2)
            else if !attempt.renames then (.failed, (Files.remove temporary files).2)
            else (.stored final, replaceFile temporary final files)

/-! ## The loop -/

/-- No write of so many bytes, from the `k`th on, is a short one. -/
def WritesWhole (room : Nat → Nat) (k remaining : Nat) : Prop :=
  ∀ j, min (remaining - chunkSize * j) chunkSize ≤ room (k + j)

theorem writesWhole_zero (room : Nat → Nat) (k : Nat) : WritesWhole room k 0 := by
  intro j
  omega

theorem writesWhole_iff (room : Nat → Nat) (k remaining : Nat) :
    WritesWhole room k remaining ↔ min remaining chunkSize ≤ room k ∧
      WritesWhole room (k + 1) (remaining - min remaining chunkSize) := by
  have hshift (j : Nat) : remaining - min remaining chunkSize - chunkSize * j =
      remaining - chunkSize * (j + 1) := by
    rw [Nat.mul_add]
    omega
  constructor
  · intro h
    refine ⟨h 0, fun j ↦ ?_⟩
    rw [hshift, Nat.add_assoc, Nat.add_comm 1 j]
    exact h (j + 1)
  · rintro ⟨hfirst, hrest⟩ (_ | j)
    · exact hfirst
    · have hj := hrest j
      rwa [hshift, Nat.add_assoc, Nat.add_comm 1 j] at hj

variable {room : Nat → Nat} {temporary : Bytes}

theorem receiveLoop_zero (k : Nat) (hash : Sha256Ctx) (segments : List Bytes)
    (files : Files Bytes UInt8) :
    receiveLoop room temporary k 0 hash segments files = (some hash, files) := by
  rw [receiveLoop, dif_pos rfl]

variable {segments : List Bytes} {remaining : Nat}

theorem receiveLoop_ended {k : Nat} (hash : Sha256Ctx)
    (files : Files Bytes UInt8) (hremaining : remaining ≠ 0)
    (h : (Socket.arrived segments).length < min remaining chunkSize) :
    receiveLoop room temporary k remaining hash segments files = (none, files) := by
  rw [receiveLoop, dif_neg hremaining]
  simp only [Socket.readBytes_of_lt h]

theorem receiveLoop_arrived (room : Nat → Nat) (temporary : Bytes) (k : Nat)
    (hash : Sha256Ctx) (files : Files Bytes UInt8) (hremaining : remaining ≠ 0)
    (h : min remaining chunkSize ≤ (Socket.arrived segments).length) :
    ∃ rest, Socket.arrived rest = (Socket.arrived segments).drop (min remaining chunkSize) ∧
      receiveLoop room temporary k remaining hash segments files =
        let buffer := (Socket.arrived segments).take (min remaining chunkSize)
        let files := (Files.write temporary (buffer.take (room k)) files).2
        if room k < min remaining chunkSize then (none, files)
        else receiveLoop room temporary (k + 1) (remaining - min remaining chunkSize)
          (hash.sha256Update buffer) rest files := by
  obtain ⟨rest, hread, hrest⟩ := Socket.readBytes_of_le h
  refine ⟨rest, hrest, ?_⟩
  rw [receiveLoop, dif_neg hremaining]
  simp only [hread]
  have hwritten : (Files.write temporary (((Socket.arrived segments).take
      (min remaining chunkSize)).take (room k)) files).1 ≠ min remaining chunkSize ↔
      room k < min remaining chunkSize := by
    simp only [Files.write, length_take]
    omega
  exact if_congr hwritten rfl rfl

/-- What the loop should come to, `whole` saying whether it can get the bytes `sent` into the file,
which holds `data` at first.  It touches no other file.  If it gets the bytes into the file then the
digest is that of all of them; otherwise it fails. -/
structure Copied (temporary : Bytes) (whole : Prop) (sent data : Bytes) (hash : Sha256Ctx)
    (files : Files Bytes UInt8) (result : Option Sha256Ctx × Files Bytes UInt8) : Prop where
  others : ∃ data', result.2 = Function.update files temporary (some data')
  copied : whole → ∃ pieces : List Bytes, pieces.flatten = sent ∧
    result = (some (pieces.foldl Sha256Ctx.sha256Update hash),
      Function.update files temporary (some (data ++ sent)))
  failed : ¬ whole → result.1 = none

variable {hash : Sha256Ctx}

theorem Copied.cons {whole whole' : Prop} {sent data buffer : Bytes}
    {files : Files Bytes UInt8} {result : Option Sha256Ctx × Files Bytes UInt8}
    (h : Copied temporary whole sent (data ++ buffer) (hash.sha256Update buffer)
      (Function.update files temporary (some (data ++ buffer))) result)
    (hwhole : whole' ↔ whole) :
    Copied temporary whole' (buffer ++ sent) data hash files result := by
  refine ⟨?_, fun hw ↦ ?_, fun hw ↦ h.failed fun hw' ↦ hw (hwhole.mpr hw')⟩
  · obtain ⟨data', hdata'⟩ := h.others
    exact ⟨data', by rw [hdata', update_idem]⟩
  obtain ⟨pieces, rfl, hresult⟩ := h.copied (hwhole.mp hw)
  refine ⟨buffer :: pieces, flatten_cons, ?_⟩
  rw [hresult, update_idem, append_assoc, foldl_cons]

/-- **The loop gets the bytes into the file if all of them arrive and no write is short.** -/
theorem receiveLoop_copied {k : Nat}
    {files : Files Bytes UInt8} {data : Bytes} (hdata : files temporary = some data) :
    Copied temporary (WritesWhole room k remaining ∧ remaining ≤ (Socket.arrived segments).length)
      ((Socket.arrived segments).take remaining) data hash files
      (receiveLoop room temporary k remaining hash segments files) := by
  induction remaining using Nat.strong_induction_on generalizing k hash segments files data with
  | _ remaining ih =>
    have hsame : files = Function.update files temporary (some data) :=
      (update_eq_self_iff.mpr hdata.symm).symm
    by_cases hremaining : remaining = 0
    · subst hremaining
      rw [receiveLoop_zero]
      refine ⟨⟨data, hsame⟩, fun _ ↦ ⟨[], rfl, ?_⟩, fun h ↦ ?_⟩
      · rw [take_zero, append_nil, ← hsame]
        rfl
      · exact absurd ⟨writesWhole_zero room k, Nat.zero_le _⟩ h
    by_cases harrived : (Socket.arrived segments).length < min remaining chunkSize
    · rw [receiveLoop_ended hash files hremaining harrived]
      refine ⟨⟨data, hsame⟩, fun h ↦ ?_, fun _ ↦ rfl⟩
      omega
    obtain ⟨rest, hrest, hloop⟩ :=
      receiveLoop_arrived room temporary k hash files hremaining (Nat.not_lt.mp harrived)
    have hfiles (more : Bytes) : (Files.write temporary more files).2 =
        Function.update files temporary (some (data ++ more)) := by
      rw [Files.write, hdata, Option.map_some]
    have hwhole := writesWhole_iff room k remaining
    rw [hloop]
    simp only [hfiles]
    split
    · rename_i hshort
      refine ⟨⟨_, rfl⟩, fun h ↦ ?_, fun _ ↦ rfl⟩
      have hroom := (hwhole.mp h.1).1
      omega
    · rename_i hroom
      have hpos : 0 < min remaining chunkSize := by
        simp only [chunkSize]
        omega
      have hall : (Socket.arrived segments).take remaining =
          (Socket.arrived segments).take (min remaining chunkSize) ++
            (Socket.arrived rest).take (remaining - min remaining chunkSize) := by
        rw [hrest, ← take_add]
        congr 1
        omega
      have hbuffer : ((Socket.arrived segments).take (min remaining chunkSize)).take (room k) =
          (Socket.arrived segments).take (min remaining chunkSize) := by
        refine take_of_length_le ?_
        rw [length_take]
        omega
      rw [hall, hbuffer]
      refine (ih (remaining - min remaining chunkSize) (by omega) (update_self ..)).cons ?_
      rw [hwhole, hrest, length_drop]
      constructor
      · rintro ⟨⟨-, hw⟩, hle⟩
        exact ⟨hw, by omega⟩
      · rintro ⟨hw, hle⟩
        exact ⟨⟨by omega, hw⟩, by omega⟩

/-! ## The result -/

/-- A call that is successful if and only if `announced`: then there is one file more, at the path
it returns and with that content; otherwise the files are as they were. -/
structure Verified (announced : Prop) (content : Bytes) (files : Files Bytes UInt8)
    (result : Received × Files Bytes UInt8) : Prop where
  success_iff : result.1.code = 0 ↔ announced
  kept : ∀ path, result.1 = .stored path →
    files path = none ∧ result.2 = Function.update files path (some content)
  unchanged : result.1.code ≠ 0 → result.2 = files

variable {files : Files Bytes UInt8} {announced : Prop} {content : Bytes}

theorem verified_of_not {result : Received × Files Bytes UInt8} (hresult : result.1.code ≠ 0)
    (hfiles : result.2 = files) (h : ¬ announced) : Verified announced content files result where
  success_iff := ⟨fun hcode ↦ absurd hcode hresult, fun ha ↦ absurd ha h⟩
  kept path hpath := by
    rw [hpath] at hresult
    exact absurd rfl hresult
  unchanged _ := hfiles

theorem verified_stored {path : Bytes} {result : Files Bytes UInt8} (hpath : files path = none)
    (hresult : result = Function.update files path (some content)) (h : announced) :
    Verified announced content files (.stored path, result) where
  success_iff := ⟨fun _ ↦ h, fun _ ↦ rfl⟩
  kept path' hpath' := by
    obtain rfl := Received.stored.inj hpath'
    exact ⟨hpath, hresult⟩
  unchanged hcode := absurd rfl hcode

/-- Removing the unfinished file leaves no trace of it. -/
theorem remove_unfinished (hfresh : files temporary = none) (data : Option Bytes) :
    (Files.remove temporary (Function.update files temporary data)).2 = files := by
  rw [Files.remove, update_idem]
  exact update_eq_self_iff.mpr hfresh.symm

/-- The loop as it is called: how it can end, and what that says. -/
theorem receiveLoop_create (room : Nat → Nat) (temporary : Bytes) (size : Nat)
    (segments : List Bytes) (files : Files Bytes UInt8) (hash : Option Sha256Ctx)
    (files' : Files Bytes UInt8) (h : receiveLoop room temporary 0 size .init segments
      (Files.create temporary files).2 = (hash, files')) :
    (∃ data, files' = Function.update files temporary data) ∧
    match hash with
    | none => ¬ (WritesWhole room 0 size ∧ size ≤ (Socket.arrived segments).length)
    | some hash => (WritesWhole room 0 size ∧ size ≤ (Socket.arrived segments).length) ∧
        hash.final = Fips180.sha256 ((Socket.arrived segments).take size) ∧
        files' = Function.update files temporary (some ((Socket.arrived segments).take size)) := by
  have hdata : (Files.create temporary files).2 temporary = some [] := update_self ..
  have hcopied : Copied temporary _ _ [] .init (Files.create temporary files).2 (hash, files') :=
    h ▸ receiveLoop_copied hdata
  obtain ⟨⟨data, hothers⟩, hsuccess, hfailure⟩ := hcopied
  dsimp only at hothers hfailure
  rw [Files.create, update_idem] at hothers
  refine ⟨⟨some data, hothers⟩, ?_⟩
  cases hash with
  | none =>
    intro hwhole
    obtain ⟨pieces, -, hresult⟩ := hsuccess hwhole
    exact nomatch (Prod.mk.inj hresult).1
  | some hash =>
    by_cases hwhole : WritesWhole room 0 size ∧ size ≤ (Socket.arrived segments).length
    · obtain ⟨pieces, hpieces, hresult⟩ := hsuccess hwhole
      obtain ⟨hhash, hfiles⟩ := Prod.mk.inj hresult
      refine ⟨hwhole, ?_, ?_⟩
      · rw [Option.some.inj hhash, foldl_sha256Update_final, hpieces]
      · rw [hfiles, Files.create, update_idem, nil_append]
    · exact nomatch hfailure hwhole

theorem take_storedPath {path : Bytes} {storedSize : Nat}
    (h : ¬ (1024 ≤ (path.take 1023).length + 5 || storedSize ≤ (path.take 1023).length) = true) :
    path.take 1023 = path ∧ path.length + 5 < 1024 ∧ path.length < storedSize := by
  simp only [Bool.or_eq_true, decide_eq_true_eq, length_take] at h
  exact ⟨take_of_length_le (by omega), by omega, by omega⟩

/-- Nothing is in the way of a file of that name and size: the name is safe, there is room for the
path and every operation works. -/
def Attempt.Suffices (attempt : Attempt) (directory name : Bytes) (size storedSize : Nat) : Prop :=
  nameIsSafe name = true ∧
    (∃ random, attempt.random = some random ∧
      (storedPath directory random name).length + 5 < 1024 ∧
      (storedPath directory random name).length < storedSize) ∧
    attempt.opens = true ∧ WritesWhole attempt.room 0 size ∧ attempt.closes = true ∧
      attempt.renames = true

/-- Neither the name under which the file is to be stored nor that of the unfinished file is taken.
-/
def Attempt.Fresh (attempt : Attempt) (directory name : Bytes) (files : Files Bytes UInt8) : Prop :=
  ∀ random, attempt.random = some random →
    files (storedPath directory random name) = none ∧
    files (storedPath directory random name ++ Bytes.ofAscii ".part") = none

theorem receiveStream_verified (attempt : Attempt) (directory name : Bytes) (size : Nat)
    (digest : Bytes) (storedSize : Nat) (segments : List Bytes) {files : Files Bytes UInt8}
    (hfresh : attempt.Fresh directory name files) :
    Verified
      (attempt.Suffices directory name size storedSize ∧
        size ≤ (Socket.arrived segments).length ∧
        hex (Fips180.sha256 ((Socket.arrived segments).take size)) = digest)
      ((Socket.arrived segments).take size) files
      (receiveStream attempt directory name size digest storedSize segments files) := by
  rw [receiveStream]
  split
  · rename_i hunsafe
    exact verified_of_not nofun rfl fun h ↦ by simp [h.1.1] at hunsafe
  rename_i hsafe
  split
  · rename_i hrandom
    refine verified_of_not nofun rfl fun h ↦ ?_
    obtain ⟨random, hsome, -⟩ := h.1.2.1
    rw [hrandom] at hsome
    cases hsome
  rename_i random hrandom
  obtain ⟨hfinal, hpart⟩ := hfresh random hrandom
  dsimp only
  split
  · rename_i hlong
    refine verified_of_not nofun rfl fun h ↦ ?_
    obtain ⟨random', hsome, hfits, hstored⟩ := h.1.2.1
    obtain rfl : random = random' := Option.some.inj (hrandom.symm.trans hsome)
    simp only [Bool.or_eq_true, decide_eq_true_eq, length_take] at hlong
    omega
  rename_i hfits
  obtain ⟨htake, hfits, hstored⟩ := take_storedPath hfits
  rw [htake]
  have hloop := receiveLoop_create attempt.room
    (storedPath directory random name ++ Bytes.ofAscii ".part") size segments files
  split
  · rename_i hopens
    exact verified_of_not nofun rfl fun h ↦ by simp [h.1.2.2.1] at hopens
  rename_i hopens
  split
  · rename_i files' hresult
    obtain ⟨⟨data, rfl⟩, hnot⟩ := hloop none files' hresult
    refine verified_of_not nofun (remove_unfinished hpart data) fun h ↦ ?_
    exact hnot ⟨h.1.2.2.2.1, h.2.1⟩
  rename_i hash files' hresult
  obtain ⟨-, ⟨hwrites, harrived⟩, hdigest, rfl⟩ := hloop (some hash) files' hresult
  have hremoved := remove_unfinished hpart (some ((Socket.arrived segments).take size))
  split
  · rename_i hcloses
    exact verified_of_not nofun hremoved fun h ↦ by simp [h.1.2.2.2.2.1] at hcloses
  rename_i hcloses
  split
  · rename_i hmismatch
    rw [hdigest] at hmismatch
    exact verified_of_not nofun hremoved fun h ↦ hmismatch h.2.2
  rename_i hmatch
  split
  · rename_i hrenames
    exact verified_of_not nofun hremoved fun h ↦ by simp [h.1.2.2.2.2.2] at hrenames
  rename_i hrenames
  refine verified_stored hfinal ?_ ⟨⟨by simpa using hsafe, ⟨random, hrandom, hfits, hstored⟩,
    by simpa using hopens, hwrites, by simpa using hcloses, by simpa using hrenames⟩, harrived, ?_⟩
  · have hgone : Function.update files (storedPath directory random name ++
        Bytes.ofAscii ".part") none = files := update_eq_self_iff.mpr hpart.symm
    rw [replaceFile, update_self, update_idem, hgone]
  · rw [hdigest] at hmatch
    exact not_ne_iff.mp hmatch

/-- **A file is stored if and only if it is what was announced and nothing goes wrong; and if it is
not stored it is as if nothing had been received.**  The nonce has not been used before: there is no
file of the name it makes, nor of that of the unfinished file. -/
theorem receive_verified (attempt : Attempt) (directory name : Bytes) (size : Nat) (digest : Bytes)
    (storedSize : Nat) (segments : List Bytes) (files : Files Bytes UInt8)
    (hfresh : ∀ random, attempt.random = some random →
      files (storedPath directory random name) = none ∧
      files (storedPath directory random name ++ Bytes.ofAscii ".part") = none) :
    Verified
      (nameIsSafe name = true ∧
        (∃ random, attempt.random = some random ∧
          (storedPath directory random name).length + 5 < 1024 ∧
          (storedPath directory random name).length < storedSize) ∧
        (attempt.opens = true ∧ WritesWhole attempt.room 0 size ∧ attempt.closes = true ∧
          attempt.renames = true) ∧
        size ≤ (Socket.arrived segments).length ∧
        hex (Fips180.sha256 ((Socket.arrived segments).take size)) = digest)
      ((Socket.arrived segments).take size) files
      (receiveStream attempt directory name size digest storedSize segments files) := by
  have h := receiveStream_verified attempt directory name size digest storedSize segments hfresh
  rw [Attempt.Suffices] at h
  refine ⟨h.success_iff.trans ?_, h.kept, h.unchanged⟩
  simp only [and_assoc]

/-- Nothing goes wrong. -/
def Attempt.smooth : Attempt := ⟨some (List.replicate 16 7), true, fun _ ↦ chunkSize, true, true⟩

/-- Two bytes arrive, one after the other and the second with something else behind it. -/
theorem receive_verified_greeting :
    (receiveStream .smooth (Bytes.ofAscii "files") (Bytes.ofAscii "hi.txt") 2
      (hex (Fips180.sha256 [104, 105])) 512 [[104], [105, 33]] fun _ ↦ none).1.code = 0 := by
  have hsent : (Socket.arrived [[104], [105, 33]]).take 2 = [104, 105] := by decide
  refine (receive_verified .smooth _ _ 2 _ 512 _ _ fun _ _ ↦ ⟨rfl, rfl⟩).success_iff.mpr ?_
  rw [hsent]
  exact ⟨by decide, ⟨_, rfl, by decide, by decide⟩, ⟨rfl, fun j ↦ Nat.min_le_right _ _, rfl, rfl⟩,
    by decide, rfl⟩

end Noobia.Council
