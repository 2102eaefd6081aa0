import Noobia.Lib.CString
import Noobia.Lib.Proc

/-!
# Reading a string out of a JSON body

`json_string` looks for a key in a request body and copies the string that follows it, escapes
resolved, to a buffer it allocates.  It walks the body with a bare pointer.  The model keeps the
pointer as a `Cursor`, an index into the body with the memory from there to the end of the
allocation, and records every index that is read and every byte that is written.  Giving up, in the
sense of `Proc`, is returning `NULL`, or reading outside the allocation, where the C program has no
meaning; the index of such a read is on record.

The buffer is sized once, for the text up to the terminator, and the loop that fills it stops at a
zero byte or a quote.  It tests every byte it passes but for those after a backslash: the byte
behind a `\` may be the terminator, and the four behind a `\u` are stepped over unseen.  The main
result is that these are the only two ways to leave the text (`jsonString_within_iff`).
-/

open Bytes

namespace Noobia.Wisp

open List CString

open Proc

/-- A pointer into the body. -/
structure Cursor where
  /-- Where it points, counted from the beginning of the body. -/
  index : Nat
  /-- Memory from there to the end of the allocation. -/
  rest : Bytes

/-- What `json_string` has done so far. -/
structure JsonTrace where
  /-- The indices of the body it has read. -/
  reads : List Nat := []
  /-- The bytes it has written to `out`. -/
  out : Bytes := []
  /-- `cap`, the size of `out`. -/
  cap : Nat := 0
  deriving DecidableEq

/-- A piece of `json_string`. -/
abbrev JsonProc := Proc JsonTrace

namespace JsonProc

/-- The byte at an index of the body is read. -/
def touch (index : Nat) : JsonProc Unit := change fun t ↦ { t with reads := index :: t.reads }

/-- `out[len++] = c`. -/
def put (c : UInt8) : JsonProc Unit := change fun t ↦ { t with out := t.out ++ [c] }

/-- `while (isspace(*p)) p++`. -/
def skipSpaces (p : Nat) : Bytes → JsonProc Cursor
  | [] => do touch p; exit
  | c :: rest => do
    touch p
    if Bytes.isSpace c then skipSpaces (p + 1) rest else pure ⟨p, c :: rest⟩

/-- `if (*p != c) return NULL`. -/
def expect (c : UInt8) (q : Cursor) : JsonProc Unit :=
  match q.rest with
  | [] => do touch q.index; exit
  | d :: _ => do
    touch q.index
    if d = c then pure () else exit

/-- `while (isspace(*p)) p++; if (*p++ != c) return NULL`. -/
def punctuation (c : UInt8) (q : Cursor) : JsonProc Cursor := do
  let q ← skipSpaces q.index q.rest
  expect c q
  pure ⟨q.index + 1, q.rest.drop 1⟩

/-- The value of a hexadecimal digit. -/
def hexDigit (c : UInt8) : Nat :=
  if Bytes.isDigit c then c.toNat - 48 else 10 + (Bytes.toLower c).toNat - 97

/-- The loop over the digits of `\u`, with `n` of them to go: it stops at the first that is none. -/
def hexDigits (n : Nat) (p : Nat) (rest : Bytes) (v : Nat) : JsonProc Nat :=
  match n, rest with
  | 0, _ => pure v
  | _ + 1, [] => do touch p; exit
  | n + 1, c :: rest => do
    touch p
    if Bytes.isHexDigit c then hexDigits n (p + 1) rest (v * 16 + hexDigit c) else pure v

/-- What a backslash and another byte than `u` stand for. -/
def unescape (c : UInt8) : UInt8 :=
  if c = 110 then 10 else if c = 114 then 13 else if c = 116 then 9
  else if c = 98 then 8 else if c = 102 then 12 else c

/-- The loop that copies the string. -/
def decode (p : Nat) : Bytes → JsonProc Cursor
  | [] => do touch p; exit
  | c :: rest => do
    touch p
    if c = 0 ∨ c = 34 then pure ⟨p, c :: rest⟩
    else if c ≠ 92 then do
      put c
      decode (p + 1) rest
    else match rest with
      | [] => do touch (p + 1); exit
      | e :: rest => do
        touch (p + 1)
        if e = 0 then pure ⟨p + 2, rest⟩
        else if e ≠ 117 then do
          put (unescape e)
          decode (p + 2) rest
        else do
          let v ← hexDigits 4 (p + 2) rest 0
          put (if v < 128 then UInt8.ofNat v else 63)
          match rest with
          | _ :: _ :: _ :: _ :: rest => decode (p + 6) rest
          | _ => do touch (p + 6); exit

end JsonProc

open JsonProc

/-- `json_string`, on memory from the body to the end of the allocation. -/
def jsonString (body key : Bytes) : JsonProc Bytes :=
  let needle := 34 :: key ++ [34]
  if 128 ≤ needle.length then exit else do
  -- `strstr` looks at the string and at nothing beyond its terminator.
  touch (CString.strlen body)
  match CString.strstr needle (CString.text body) with
  | none => exit
  | some i => do
  let q ← punctuation 58 ⟨i + needle.length, body.drop (i + needle.length)⟩
  let q ← punctuation 34 q
  touch (q.index + CString.strlen q.rest)
  change fun t ↦ { t with cap := CString.strlen q.rest + 1 }
  let q ← decode q.index q.rest
  expect 34 q
  let out ← read fun t ↦ t.out
  put 0
  pure out

/-! ## The condition -/

/-- Every escape in the text, as far as the closing quote, is complete: there is a byte behind each
backslash, and four more if that is a `u`. -/
def Complete : Bytes → Bool
  | [] => true
  | c :: rest =>
    if c = 34 then true
    else if c ≠ 92 then Complete rest
    else match rest with
      | [] => false
      | e :: rest =>
        if e ≠ 117 then Complete rest
        else match rest with
          | _ :: _ :: _ :: _ :: rest => Complete rest
          | _ => false

/-- The escapes of a text, one by one, and whether they are complete. -/
inductive Escapes : Bytes → Bool → Prop
  | nil : Escapes [] true
  | quote (rest : Bytes) : Escapes (34 :: rest) true
  | plain {c : UInt8} {rest : Bytes} {b : Bool} (hquote : c ≠ 34) (hslash : c ≠ 92)
      (h : Escapes rest b) : Escapes (c :: rest) b
  | lone : Escapes [92] false
  | escape {e : UInt8} {rest : Bytes} {b : Bool} (hu : e ≠ 117) (h : Escapes rest b) :
      Escapes (92 :: e :: rest) b
  | unicode (w x y z : UInt8) {rest : Bytes} {b : Bool} (h : Escapes rest b) :
      Escapes (92 :: 117 :: w :: x :: y :: z :: rest) b
  | short {rest : Bytes} (h : rest.length < 4) : Escapes (92 :: 117 :: rest) false

theorem escapes_complete (string : Bytes) : Escapes string (Complete string) := by
  match string with
  | [] => exact .nil
  | c :: rest =>
    rw [Complete.eq_def]
    dsimp only
    by_cases hquote : c = 34
    · rw [if_pos hquote, hquote]
      exact .quote rest
    rw [if_neg hquote]
    by_cases hslash : c = 92
    · rw [if_neg (not_not_intro hslash), hslash]
      match rest with
      | [] => exact .lone
      | e :: rest =>
        dsimp only
        by_cases hu : e = 117
        · rw [if_neg (not_not_intro hu), hu]
          match rest with
          | w :: x :: y :: z :: rest => exact .unicode w x y z (escapes_complete rest)
          | [] | [_] | [_, _] | [_, _, _] => exact .short (by simp)
        · rw [if_pos hu]
          exact .escape hu (escapes_complete rest)
    · rw [if_pos hslash]
      exact .plain hquote hslash (escapes_complete rest)
termination_by string.length

/-- What follows a punctuation mark and the space before it. -/
def after (c : UInt8) (string : Bytes) : Option Bytes :=
  match string.dropWhile Bytes.isSpace with
  | [] => none
  | d :: rest => if d = c then some rest else none

/-- The text behind the opening quote of the value of a key, if there is one. -/
def valueText (key string : Bytes) : Option Bytes :=
  let needle := 34 :: key ++ [34]
  if 128 ≤ needle.length then none
  else (CString.strstr needle string).bind fun i ↦
    (after 58 (string.drop (i + needle.length))).bind (after 34)

/-! ## Staying within the text -/

/-- Nothing has been read past the terminator or written past the end of the buffer. -/
structure JsonTrace.Within (terminator : Nat) (t : JsonTrace) : Prop where
  reads_le : ∀ i ∈ t.reads, i ≤ terminator
  out_le : t.out.length ≤ t.cap

namespace JsonProc

variable {T : Nat} {t : JsonTrace} {string tail : Bytes}

theorem Within.touch (h : t.Within T) {i : Nat} (hi : i ≤ T) :
    JsonTrace.Within T { t with reads := i :: t.reads } :=
  ⟨forall_mem_cons.mpr ⟨hi, h.reads_le⟩, h.out_le⟩

/-- Reading up to a byte that is not a space finds one before the terminator, if only the terminator
itself. -/
theorem skipSpaces_wp (hstring : ∀ c ∈ string, c ≠ 0) {p : Nat} (hp : p + string.length = T)
    (h : t.Within T) :
    Wp (skipSpaces p (string ++ 0 :: tail))
      (fun q t' ↦ q.rest = string.dropWhile isSpace ++ 0 :: tail ∧
        q.index + (string.dropWhile isSpace).length = T ∧ t'.Within T ∧ t'.out = t.out)
      (fun _ ↦ False) t := by
  induction string generalizing p t with
  | nil =>
    refine wp_bind (wp_change ?_)
    exact ⟨rfl, hp, Within.touch h (by simp at hp; omega), rfl⟩
  | cons c string ih =>
    obtain ⟨hc, hstring⟩ := forall_mem_cons.mp hstring
    rw [length_cons] at hp
    refine wp_bind (wp_change ?_)
    have h := Within.touch h (i := p) (by omega)
    by_cases hspace : isSpace c = true
    · rw [if_pos hspace, dropWhile_cons_of_pos hspace]
      exact ih hstring (by omega) h
    · rw [if_neg hspace, dropWhile_cons_of_neg hspace]
      exact wp_pure ⟨rfl, by rw [length_cons]; omega, h, rfl⟩

variable {c : UInt8} (p : Nat)

theorem punctuation_wp (hstring : ∀ c ∈ string, c ≠ 0) {q : Cursor}
    (hrest : q.rest = string ++ 0 :: tail) (hq : q.index + string.length = T) (h : t.Within T)
    (hc : c ≠ 0) :
    Wp (punctuation c q)
      (fun q' t' ↦ ∃ string', after c string = some string' ∧ q'.rest = string' ++ 0 :: tail ∧
        q'.index + string'.length = T ∧ t'.Within T ∧ t'.out = t.out)
      (fun t' ↦ after c string = none ∧ t'.Within T) t := by
  refine wp_bind ?_
  rw [hrest]
  refine (skipSpaces_wp hstring hq h).mono (fun q' t' hq' ↦ ?_) fun _ ↦ False.elim
  obtain ⟨hrest', hindex, h', hout⟩ := hq'
  have h'' := Within.touch h' (i := q'.index) (by omega)
  refine wp_bind ?_
  rw [expect, hrest', after]
  cases hdrop : string.dropWhile isSpace with
  | nil =>
    refine wp_bind (wp_change ?_)
    rw [if_neg hc.symm]
    exact wp_exit ⟨rfl, h''⟩
  | cons d rest =>
    rw [hdrop, length_cons] at hindex
    refine wp_bind (wp_change ?_)
    by_cases hd : d = c
    · rw [if_pos hd]
      refine wp_pure (wp_pure ⟨rest, if_pos hd, rfl, ?_, h'', hout⟩)
      show q'.index + 1 + rest.length = T
      omega
    · rw [if_neg hd]
      exact wp_exit ⟨if_neg hd, h''⟩

/-- The digits of a `\u` end before the terminator or at it. -/
theorem hexDigits_wp (hstring : ∀ c ∈ string, c ≠ 0) (n : Nat) {p : Nat}
    (hp : p + string.length = T) (v : Nat) :
    Wp (hexDigits n p (string ++ 0 :: tail) v)
      (fun _ t' ↦ (∀ i ∈ t'.reads, i ∈ t.reads ∨ i ≤ T) ∧ t'.out = t.out ∧ t'.cap = t.cap)
      (fun _ ↦ False) t := by
  induction n generalizing string p v t with
  | zero => exact wp_pure ⟨fun i hi ↦ .inl hi, rfl, rfl⟩
  | succ n ih =>
    have hread (hpT : p ≤ T) : ∀ i ∈ p :: t.reads, i ∈ t.reads ∨ i ≤ T := by
      intro i hi
      rcases mem_cons.mp hi with rfl | hi
      · exact .inr hpT
      · exact .inl hi
    cases string with
    | nil => exact wp_bind (wp_change ⟨hread (by simp at hp; omega), rfl, rfl⟩)
    | cons c string =>
      obtain ⟨hc, hstring⟩ := forall_mem_cons.mp hstring
      rw [length_cons] at hp
      refine wp_bind (wp_change ?_)
      by_cases hhex : isHexDigit c = true
      · rw [if_pos hhex]
        refine (ih hstring (by omega) _).mono (fun v' t' ht' ↦ ⟨fun i hi ↦ ?_, ht'.2⟩) fun _ ↦ id
        exact (ht'.1 i hi).elim (hread (by omega) i) .inr
      · rw [if_neg hhex]
        exact wp_pure ⟨hread (by omega), rfl, rfl⟩

/-- A byte is put, and there is room for it and for those that may follow. -/
theorem put_wp {α : Type} {k : JsonProc α} {Q : α → JsonTrace → Prop} {E : JsonTrace → Prop}
    {n : Nat} (h : t.Within T) (hroom : t.out.length + (n + 1) + 1 ≤ t.cap)
    (hk : ∀ t' : JsonTrace, t'.Within T → t'.out.length + n + 1 ≤ t'.cap → Wp k Q E t') :
    Wp (do put c; k) Q E t := by
  refine wp_bind (wp_change (hk _ ⟨h.reads_le, ?_⟩ ?_))
  · show (t.out ++ [c]).length ≤ t.cap
    rw [length_append, length_singleton]
    omega
  · show (t.out ++ [c]).length + n + 1 ≤ t.cap
    rw [length_append, length_singleton]
    omega

/-! ### The loop, case by case -/

theorem decode_nil : decode p [] = (do touch p; exit) := by
  rw [decode.eq_def]

theorem decode_stop (hc : c = 0 ∨ c = 34) (rest : Bytes) :
    decode p (c :: rest) = (do touch p; pure ⟨p, c :: rest⟩) := by
  rw [decode.eq_def]
  simp only [if_pos hc]

theorem decode_plain (hc : ¬(c = 0 ∨ c = 34)) (hslash : c ≠ 92) (rest : Bytes) :
    decode p (c :: rest) = (do touch p; put c; decode (p + 1) rest) := by
  rw [decode.eq_def]
  simp only [if_neg hc, if_pos hslash]

theorem decode_end : decode p [92] = (do touch p; touch (p + 1); exit) := by
  rw [decode.eq_def]
  simp

theorem decode_break (rest : Bytes) :
    decode p (92 :: 0 :: rest) = (do touch p; touch (p + 1); pure ⟨p + 2, rest⟩) := by
  rw [decode.eq_def]
  simp

theorem decode_escape {e : UInt8} (he : e ≠ 0) (hu : e ≠ 117) (rest : Bytes) :
    decode p (92 :: e :: rest) =
      (do touch p; touch (p + 1); put (unescape e); decode (p + 2) rest) := by
  rw [decode.eq_def]
  simp [he, hu]

/-- What follows a `\u` and its digits. -/
def afterUnicode (p v : Nat) (rest : Bytes) : JsonProc Cursor := do
  put (if v < 128 then UInt8.ofNat v else 63)
  match rest with
  | _ :: _ :: _ :: _ :: rest => decode (p + 6) rest
  | _ => do touch (p + 6); exit

theorem decode_unicode (rest : Bytes) :
    decode p (92 :: 117 :: rest) = (do
      touch p
      touch (p + 1)
      let v ← hexDigits 4 (p + 2) rest 0
      afterUnicode p v rest) := by
  rw [decode.eq_def]
  simp only [afterUnicode]
  rfl

/-- **Complete escapes keep the loop within the text.** -/
theorem decode_wp (hstring : ∀ c ∈ string, c ≠ 0) (hcomplete : Complete string = true) {p : Nat}
    (hp : p + string.length = T) (h : t.Within T)
    (hroom : t.out.length + string.length + 1 ≤ t.cap) :
    Wp (decode p (string ++ 0 :: tail))
      (fun q t' ↦ t'.Within T ∧ q.index ≤ T ∧ t'.out.length + 1 ≤ t'.cap) (fun _ ↦ False) t := by
  have hescapes := escapes_complete string
  generalize Complete string = b at hescapes hcomplete
  induction hescapes generalizing p t with
  | nil =>
    rw [nil_append, decode_stop p (.inl rfl)]
    simp only [length_nil, Nat.add_zero] at hp hroom
    exact wp_bind (wp_change (wp_pure ⟨Within.touch h (by omega), by show p ≤ T; omega, hroom⟩))
  | quote rest =>
    rw [cons_append, decode_stop p (.inr rfl)]
    rw [length_cons] at hp hroom
    exact wp_bind (wp_change (wp_pure
      ⟨Within.touch h (by omega), by show p ≤ T; omega, by show t.out.length + 1 ≤ t.cap; omega⟩))
  | plain hquote hslash _ ih =>
    obtain ⟨hc, hrest⟩ := forall_mem_cons.mp hstring
    rw [length_cons] at hp hroom
    rw [cons_append, decode_plain p (by simp [hc, hquote]) hslash]
    refine wp_bind (wp_change (put_wp (Within.touch h (by omega)) hroom fun t' h' hroom' ↦ ?_))
    exact ih hrest (by omega) h' hroom' hcomplete
  | lone | short hshort => cases hcomplete
  | @escape e rest _ hu _ ih =>
    obtain ⟨-, he, hrest⟩ := forall_mem_cons.mp hstring |>.imp_right forall_mem_cons.mp
    simp only [length_cons] at hp hroom
    rw [cons_append, cons_append, decode_escape p he hu]
    refine wp_bind (wp_change (wp_bind (wp_change ?_)))
    have h := Within.touch (Within.touch h (i := p) (by omega)) (i := p + 1) (by omega)
    refine put_wp h (n := rest.length) (by show t.out.length + _ + 1 ≤ t.cap; omega)
      fun t' h' hroom' ↦ ?_
    exact ih hrest (by omega) h' hroom' hcomplete
  | @unicode w x y z rest _ _ ih =>
    have hrest : ∀ c ∈ w :: x :: y :: z :: rest, c ≠ 0 := fun c hc ↦ hstring c (by simp [hc])
    simp only [length_cons] at hp hroom
    rw [cons_append, cons_append, decode_unicode]
    refine wp_bind (wp_change (wp_bind (wp_change (wp_bind ?_))))
    have h := Within.touch (Within.touch h (i := p) (by omega)) (i := p + 1) (by omega)
    refine (hexDigits_wp (T := T) hrest 4 (by simp only [length_cons]; omega) 0).mono
      (fun v t' ht' ↦ ?_) fun _ ↦ False.elim
    obtain ⟨hreads, hout, hcap⟩ := ht'
    have h' : t'.Within T :=
      ⟨fun i hi ↦ (hreads i hi).elim (h.reads_le i) id, by rw [hout, hcap]; exact h.out_le⟩
    refine put_wp h' (n := rest.length)
      (by rw [hout, hcap]; show t.out.length + _ + 1 ≤ t.cap; omega)
      fun t'' h'' hroom'' ↦ ?_
    exact ih (fun c hc ↦ hrest c (by simp [hc])) (by omega) h'' hroom'' hcomplete

/-! ### Leaving the text -/

/-- What has been read stays on record. -/
def Keeps {α : Type} (m : JsonProc α) : Prop :=
  ∀ t i, i ∈ t.reads → Wp m (fun _ t' ↦ i ∈ t'.reads) (fun t' ↦ i ∈ t'.reads) t

section Keeps

variable {α β : Type} {m : JsonProc α} {k : α → JsonProc β}

theorem keeps_pure (a : α) : Keeps (pure a) := fun _ _ hi ↦ wp_pure hi

theorem keeps_exit : Keeps (exit : JsonProc α) := fun _ _ hi ↦ wp_exit hi

theorem Keeps.bind (hm : Keeps m) (hk : ∀ a, Keeps (k a)) : Keeps (m >>= k) :=
  fun t i hi ↦ wp_bind ((hm t i hi).mono (fun a t' hi' ↦ hk a t' i hi') fun _ ↦ id)

theorem Keeps.touch {k : Unit → JsonProc β} (p : Nat) (hk : Keeps (k ())) :
    Keeps (JsonProc.touch p >>= k) :=
  Keeps.bind (fun _ _ hi ↦ wp_change (mem_cons_of_mem p hi)) fun _ ↦ hk

theorem Keeps.put {k : Unit → JsonProc β} (c : UInt8) (hk : Keeps (k ())) :
    Keeps (JsonProc.put c >>= k) :=
  Keeps.bind (fun _ _ hi ↦ wp_change hi) fun _ ↦ hk

end Keeps

theorem keeps_hexDigits (n p : Nat) (rest : Bytes) (v : Nat) : Keeps (hexDigits n p rest v) := by
  induction n generalizing p rest v with
  | zero => exact keeps_pure v
  | succ n ih =>
    cases rest with
    | nil => exact Keeps.touch p keeps_exit
    | cons c rest =>
      refine Keeps.touch p ?_
      split
      · exact ih _ _ _
      · exact keeps_pure v

theorem keeps_afterUnicode (p v : Nat) (rest : Bytes)
    (h : ∀ rest', rest'.length < rest.length → Keeps (decode (p + 6) rest')) :
    Keeps (afterUnicode p v rest) := by
  refine Keeps.put _ ?_
  split
  · exact h _ (by simp only [length_cons]; omega)
  · exact Keeps.touch _ keeps_exit

/-- The loop begins by reading the byte it is at, and keeps that on record. -/
theorem exists_decode_eq (p : Nat) (rest : Bytes) :
    ∃ k : JsonProc Cursor, Keeps k ∧ decode p rest = (do touch p; k) := by
  induction hn : rest.length using Nat.strong_induction_on generalizing p rest with
  | _ n ih =>
    subst hn
    have keeps (p' : Nat) (rest' : Bytes) (h : rest'.length < rest.length) :
        Keeps (decode p' rest') := by
      obtain ⟨k, hk, heq⟩ := ih rest'.length h p' rest' rfl
      rw [heq]
      exact Keeps.touch p' hk
    cases rest with
    | nil => exact ⟨exit, keeps_exit, decode_nil p⟩
    | cons c rest =>
      by_cases hc : c = 0 ∨ c = 34
      · exact ⟨_, keeps_pure _, decode_stop p hc rest⟩
      by_cases hslash : c = 92
      swap
      · exact ⟨_, Keeps.put c (keeps _ _ (by simp)), decode_plain p hc hslash rest⟩
      subst hslash
      cases rest with
      | nil => exact ⟨_, Keeps.touch _ keeps_exit, decode_end p⟩
      | cons e rest =>
        by_cases he : e = 0
        · exact ⟨_, Keeps.touch _ (keeps_pure _), he ▸ decode_break p rest⟩
        by_cases hu : e = 117
        · refine ⟨_, Keeps.touch _ ((keeps_hexDigits 4 (p + 2) rest 0).bind fun v ↦ ?_),
            hu ▸ decode_unicode p rest⟩
          exact keeps_afterUnicode p v rest fun rest' h ↦
            keeps _ rest' (by simp only [length_cons]; omega)
        · exact ⟨_,
            Keeps.touch _ (Keeps.put _ (keeps _ _ (by simp only [length_cons]; omega))),
            decode_escape p he hu rest⟩

theorem decode_touches (p : Nat) (rest : Bytes) (t : JsonTrace) :
    Wp (decode p rest) (fun _ t' ↦ p ∈ t'.reads) (fun t' ↦ p ∈ t'.reads) t := by
  obtain ⟨k, hk, heq⟩ := exists_decode_eq p rest
  rw [heq]
  exact wp_bind (wp_change (hk _ p mem_cons_self))

/-- **An escape the text ends in leads out of it.** -/
theorem decode_leaves (hstring : ∀ c ∈ string, c ≠ 0) (hcomplete : Complete string = false)
    {p : Nat} (hp : p + string.length = T) :
    Wp (decode p (string ++ 0 :: tail)) (fun q t' ↦ T < q.index ∨ ∃ i ∈ t'.reads, T < i)
      (fun t' ↦ ∃ i ∈ t'.reads, T < i) t := by
  have hescapes := escapes_complete string
  generalize Complete string = b at hescapes hcomplete
  induction hescapes generalizing p t with
  | nil | quote rest => cases hcomplete
  | plain hquote hslash _ ih =>
    obtain ⟨hc, hrest⟩ := forall_mem_cons.mp hstring
    rw [length_cons] at hp
    rw [cons_append, decode_plain p (by simp [hc, hquote]) hslash]
    exact wp_bind (wp_change (wp_bind (wp_change (ih hrest (by omega) hcomplete))))
  | lone =>
    rw [length_singleton] at hp
    rw [singleton_append, decode_break]
    exact wp_bind (wp_change (wp_bind (wp_change (wp_pure (.inl (by show T < p + 2; omega))))))
  | @escape e rest _ hu _ ih =>
    obtain ⟨-, he, hrest⟩ := forall_mem_cons.mp hstring |>.imp_right forall_mem_cons.mp
    simp only [length_cons] at hp
    rw [cons_append, cons_append, decode_escape p he hu]
    exact wp_bind (wp_change (wp_bind (wp_change (wp_bind (wp_change
      (ih hrest (by omega) hcomplete))))))
  | @unicode w x y z rest _ _ ih =>
    have hrest : ∀ c ∈ w :: x :: y :: z :: rest, c ≠ 0 := fun c hc ↦ hstring c (by simp [hc])
    simp only [length_cons] at hp
    rw [cons_append, cons_append, decode_unicode]
    refine wp_bind (wp_change (wp_bind (wp_change (wp_bind ?_))))
    refine (hexDigits_wp hrest 4 rfl 0).mono (fun v t' _ ↦ ?_) fun _ ↦ False.elim
    exact wp_bind (wp_change (ih (fun c hc ↦ hrest c (by simp [hc])) (by omega) hcomplete))
  | @short rest hlen =>
    have hrest : ∀ c ∈ rest, c ≠ 0 := fun c hc ↦ hstring c (by simp [hc])
    simp only [length_cons] at hp
    rw [cons_append, cons_append, decode_unicode]
    refine wp_bind (wp_change (wp_bind (wp_change (wp_bind ?_))))
    refine (hexDigits_wp hrest 4 rfl 0).mono (fun v t' _ ↦ ?_) fun _ ↦ False.elim
    -- Stepping over four bytes steps over the terminator, and the loop reads what it finds there.
    have hout : T < p + 6 := by omega
    refine wp_bind (wp_change ?_)
    split
    · exact (decode_touches (p + 6) _ _).mono (fun _ _ h ↦ .inr ⟨_, h, hout⟩) fun _ h ↦ ⟨_, h, hout⟩
    · exact wp_bind (wp_change (wp_exit ⟨p + 6, mem_cons_self, hout⟩))

end JsonProc

/-! ## The whole of `json_string` -/

theorem after_ne_zero {c : UInt8} {string string' : Bytes} (h : after c string = some string')
    (hstring : ∀ c ∈ string, c ≠ 0) : ∀ c ∈ string', c ≠ 0 := by
  rw [after] at h
  split at h
  · cases h
  rename_i d rest hdrop
  split at h
  · obtain rfl := Option.some.inj h
    intro c hc
    exact hstring c ((dropWhile_sublist _).subset (hdrop ▸ mem_cons_of_mem d hc))
  · cases h

/-- The copy is made and closed within the text, or not, as the escapes are complete or not. -/
theorem copy_wp {T : Nat} {t : JsonTrace} {string tail : Bytes} (hstring : ∀ c ∈ string, c ≠ 0)
    {q : Cursor} (hrest : q.rest = string ++ 0 :: tail) (hq : q.index + string.length = T)
    (h : t.Within T) (hout : t.out = []) (hcap : t.cap = string.length + 1) :
    Wp (do
        let q ← decode q.index q.rest
        expect 34 q
        let out ← read fun t ↦ t.out
        put 0
        pure out)
      (fun _ t' ↦ t'.Within T ↔ Complete string = true)
      (fun t' ↦ t'.Within T ↔ Complete string = true) t := by
  rw [hrest]
  cases hcomplete : Complete string with
  | true =>
    refine wp_bind ((decode_wp hstring hcomplete hq h (by rw [hout, hcap]; simp)).mono
      (fun q' t' ht' ↦ ?_) fun _ ↦ False.elim)
    obtain ⟨h', hindex, hroom⟩ := ht'
    have h'' := Within.touch h' hindex
    refine wp_bind ?_
    rw [expect]
    split
    · exact wp_bind (wp_change (wp_exit (iff_of_true h'' rfl)))
    refine wp_bind (wp_change ?_)
    split
    · refine wp_pure (wp_bind (wp_read (wp_bind (wp_change (wp_pure ?_)))))
      refine iff_of_true ⟨h''.reads_le, ?_⟩ rfl
      show (t'.out ++ [0]).length ≤ t'.cap
      rw [length_append, length_singleton]
      exact hroom
    · exact wp_exit (iff_of_true h'' rfl)
  | false =>
    have hleft {t' : JsonTrace} (ht' : ∃ i ∈ t'.reads, T < i) : t'.Within T ↔ false = true := by
      obtain ⟨i, hi, hlt⟩ := ht'
      exact iff_of_false (fun h ↦ absurd (h.reads_le i hi) (by omega)) Bool.false_ne_true
    refine wp_bind ((decode_leaves hstring hcomplete hq).mono (fun q' t' ht' ↦ ?_) fun _ ↦ hleft)
    have hread : ∃ i ∈ q'.index :: t'.reads, T < i := by
      rcases ht' with hlt | ⟨i, hi, hlt⟩
      · exact ⟨_, mem_cons_self, hlt⟩
      · exact ⟨i, mem_cons_of_mem _ hi, hlt⟩
    refine wp_bind ?_
    rw [expect]
    split
    · exact wp_bind (wp_change (wp_exit (hleft hread)))
    refine wp_bind (wp_change ?_)
    split
    · exact wp_pure (wp_bind (wp_read (wp_bind (wp_change (wp_pure (hleft hread))))))
    · exact wp_exit (hleft hread)

/-- **When `json_string` stays within the text.**  On a terminated body it reads nothing past the
terminator and writes no more than it allocated exactly when every escape in the value of the key is
complete. -/
theorem jsonString_within_iff {body : Bytes} (hbody : 0 ∈ body) (key : Bytes) :
    ((jsonString body key).final {}).Within (strlen body) ↔
      ∀ string, valueText key (text body) = some string → Complete string = true := by
  obtain ⟨tail, htail⟩ := exists_eq_append hbody
  have hne : ∀ c ∈ text body, c ≠ 0 := fun c ↦ ne_zero_of_mem_text
  refine Wp.final (R := fun t : JsonTrace ↦ t.Within (strlen body) ↔ _) ?_
  have hnone {t : JsonTrace} (h : t.Within (strlen body))
      (hvalue : valueText key (text body) = none) :
      t.Within (strlen body) ↔ ∀ string, valueText key (text body) = some string →
        Complete string = true :=
    iff_of_true h fun string hstring ↦ absurd (hvalue.symm.trans hstring) nofun
  simp only [jsonString]
  by_cases hlong : 128 ≤ (34 :: key ++ [34]).length
  · rw [if_pos hlong]
    exact wp_exit (hnone ⟨nofun, Nat.le_refl _⟩ (by simp only [valueText, if_pos hlong]))
  rw [if_neg hlong]
  refine wp_bind (wp_change ?_)
  have h : JsonTrace.Within (strlen body) { reads := [strlen body] } :=
    ⟨by simp, Nat.le_refl _⟩
  cases hfind : strstr (34 :: key ++ [34]) (text body) with
  | none =>
    exact wp_exit (hnone h (by simp only [valueText, if_neg hlong, hfind, Option.bind_none]))
  | some i =>
    simp only [valueText, if_neg hlong, hfind, Option.bind_some] at hnone ⊢
    have hle := strstr_le hfind
    set j := i + (34 :: key ++ [34]).length with hj
    have hdrop : body.drop j = (text body).drop j ++ 0 :: tail := by
      conv_lhs => rw [htail]
      exact drop_append_of_le_length hle
    have hne₁ : ∀ c ∈ (text body).drop j, c ≠ 0 :=
      fun c hc ↦ hne c (mem_of_mem_drop hc)
    refine wp_bind ((punctuation_wp hne₁ hdrop (T := strlen body) ?_ h (by decide)).mono
      (fun q₁ t₁ ht₁ ↦ ?_) fun t₁ ht₁ ↦ hnone ht₁.2 (by rw [ht₁.1, Option.bind_none]))
    · show j + _ = strlen body
      rw [length_drop, strlen]
      omega
    obtain ⟨string₁, hafter₁, hrest₁, hindex₁, hwithin₁, hout₁⟩ := ht₁
    have hne₂ := after_ne_zero hafter₁ hne₁
    rw [hafter₁, Option.bind_some] at hnone ⊢
    refine wp_bind ((punctuation_wp hne₂ hrest₁ hindex₁ hwithin₁ (by decide)).mono
      (fun q₂ t₂ ht₂ ↦ ?_) fun t₂ ht₂ ↦ hnone ht₂.2 ht₂.1)
    obtain ⟨string₂, hafter₂, hrest₂, hindex₂, hwithin₂, hout₂⟩ := ht₂
    have hne₃ := after_ne_zero hafter₂ hne₂
    have hlen : strlen q₂.rest = string₂.length := by
      rw [strlen, hrest₂, text_append_zero, text_of_ne_zero hne₃]
    refine wp_bind (wp_change (wp_bind (wp_change ?_)))
    have hiff (t : JsonTrace) : (t.Within (strlen body) ↔ Complete string₂ = true) →
        (t.Within (strlen body) ↔
          ∀ string, after 34 string₁ = some string → Complete string = true) := by
      simp [hafter₂]
    refine (copy_wp hne₃ hrest₂ hindex₂ ⟨?_, ?_⟩ ?_ ?_).mono (fun _ t ↦ hiff t) hiff
    · exact (Within.touch hwithin₂ (by omega)).reads_le
    · show t₂.out.length ≤ _
      rw [hout₂, hout₁]
      exact Nat.zero_le _
    · exact hout₂.trans hout₁
    · rw [← hlen]

end Noobia.Wisp
