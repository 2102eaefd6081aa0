import Noobia.Iris.Bridge
import Noobia.Neo.Daemon

/-!
# Texts on their way to Neo

To call one of Neo's functions with a text, Iris puts the text in quotes, with a backslash before
every quote and backslash in it, and sends it as a `CALL_MIXED` (`nativeTextCall`).
`text_call_reaches` follows a request to the function: it fits the buffers at both ends, and Neo
reads the text as it was.  A function that takes a number besides the text is not called this way,
and Neo refuses the request.
-/

namespace Noobia

open List

open Bytes (ofAscii)

/-! ## The text -/

variable {text : Bytes}

namespace Iris

/-- A byte of the text, as it is sent. -/
def escapeByte (c : UInt8) : Bytes := if c = 92 then [92, 92] else if c = 34 then [92, 34] else [c]

theorem replaceByte_replaceByte (text : Bytes) :
    replaceByte 34 [92, 34] (replaceByte 92 [92, 92] text) = text.flatMap escapeByte := by
  induction text with
  | nil => rfl
  | cons c text ih =>
    by_cases hbackslash : c = 92
    · simpa [replaceByte, escapeByte, hbackslash] using ih
    by_cases hquote : c = 34
    · simpa [replaceByte, escapeByte, hquote] using ih
    · simpa [replaceByte, escapeByte, hbackslash, hquote] using ih

theorem length_escaped_le (text : Bytes) : (text.flatMap escapeByte).length ≤ 2 * text.length := by
  induction text with
  | nil => exact Nat.le_refl _
  | cons c text ih =>
    have hone : (escapeByte c).length ≤ 2 := by
      rw [escapeByte]
      split
      · exact Nat.le_refl _
      split
      · exact Nat.le_refl _
      · exact Nat.le_succ _
    rw [flatMap_cons, length_append, length_cons]
    omega

theorem isPrintable_of_mem_escaped (htext : ∀ b ∈ text, Bytes.isPrintable b = true)
    {c : UInt8} (hc : c ∈ text.flatMap escapeByte) : Bytes.isPrintable c = true := by
  obtain ⟨b, hb, hc⟩ := mem_flatMap.mp hc
  rw [escapeByte] at hc
  split at hc
  · simp only [mem_cons, not_mem_nil, or_false, or_self] at hc
    rw [hc]
    rfl
  split at hc
  · simp only [mem_cons, not_mem_nil, or_false] at hc
    rcases hc with rfl | rfl <;> rfl
  · rw [mem_singleton.mp hc]
    exact htext b hb

theorem nativeTextCall_eq (name : String) (text : Bytes) :
    nativeTextCall name text = ofAscii "CALL_MIXED" ++ 32 :: (ofAscii name ++ 32 ::
      (34 :: (text.flatMap escapeByte ++ [34]))) := by
  rw [nativeTextCall, replaceByte_replaceByte]
  simp [ofAscii]

end Iris

/-! ## Neo's end -/

namespace Neo

theorem nativeAscii_escaped (htext : ∀ b ∈ text, Bytes.isPrintable b = true)
    {ascii : Bytes} (hlength : ascii.length + text.length ≤ 191) (rest : Bytes) :
    nativeAscii ascii (text.flatMap Iris.escapeByte ++ 34 :: rest) =
      some (ascii ++ text, 34 :: rest) := by
  induction text generalizing ascii with
  | nil => simp [nativeAscii]
  | cons c text ih =>
    obtain ⟨hc, htext⟩ := forall_mem_cons.mp htext
    rw [length_cons] at hlength
    have hpush : (decide (c < 32) || decide (c > 126) || decide (192 ≤ ascii.length + 1)) =
        false := by
      have hrange : (decide (c < 32) || decide (c > 126)) = false := by
        simpa [Bytes.isPrintable] using hc
      rw [hrange, Bool.false_or, decide_eq_false_iff_not]
      omega
    have hrest : nativeAscii (ascii ++ [c]) (text.flatMap Iris.escapeByte ++ 34 :: rest) =
        some (ascii ++ c :: text, 34 :: rest) := by
      rw [ih htext (by rw [length_append, length_singleton]; omega), append_assoc]
      rfl
    rw [flatMap_cons, append_assoc, Iris.escapeByte]
    split
    · rename_i hbackslash
      obtain rfl := hbackslash
      rw [cons_append, cons_append, nil_append, nativeAscii, if_neg (by decide),
        hpush]
      exact hrest
    · split
      · rename_i hquote
        obtain rfl := hquote
        rw [cons_append, cons_append, nil_append, nativeAscii, if_neg (by decide),
          hpush]
        exact hrest
      · rename_i hbackslash hquote
        rw [cons_append, nil_append, nativeAscii, hpush]
        · exact hrest
        · exact hquote
        · exact fun h ↦ absurd h hbackslash
        · exact fun _ _ h ↦ absurd h hbackslash

/-- **The arguments are the text and nothing else.** -/
theorem noobNativeParse_escaped (htext : ∀ b ∈ text, Bytes.isPrintable b = true)
    (hlength : text.length ≤ 191) (long : Nat) :
    noobNativeParse long (34 :: (text.flatMap Iris.escapeByte ++ [34])) true = some ⟨[], text⟩ := by
  rw [noobNativeParse_mixed]
  refine ⟨text.flatMap Iris.escapeByte ++ [34], [], ?_, ?_, rfl⟩
  · rw [dropWhile_cons_of_neg (by decide), nativeNumbers]
    rfl
  · exact nativeAscii_escaped htext (by simpa using hlength) []

theorem dispatch_callMixed (long id : Nat) (arguments : Bytes) :
    dispatch long id (ofAscii "CALL_MIXED") arguments = callNative long id true arguments := by
  have hping : ofAscii "CALL_MIXED" ≠ ofAscii "PING" := by decide
  have hcaps : ofAscii "CALL_MIXED" ≠ ofAscii "CAPS" := by decide
  simp [dispatch, hping, hcaps]

/-- **A call with a text**, as the daemon sees it. -/
theorem callNative_escaped {entry : NoobNativeEntry} (hentry : entry ∈ natives)
    (hkind : entry.text = true) (hne : text ≠ [])
    (htext : ∀ b ∈ text, Bytes.isPrintable b = true) (hlength : text.length ≤ 191) (long id : Nat) :
    callNative long id true (ofAscii entry.name ++ 32 ::
        (34 :: (text.flatMap Iris.escapeByte ++ [34]))) =
      if entry.numbers = 0 then .call entry id ⟨[], text⟩
      else .respond id (ofAscii "ERR BAD_ARGUMENTS") (ofAscii "wrong numeric/ASCII arguments") := by
  obtain ⟨hfind, hname, hshort, hword⟩ := natives_spec hentry
  have hskip : (32 :: 34 :: (text.flatMap Iris.escapeByte ++ [34])).dropWhile Bytes.isSpace =
      34 :: (text.flatMap Iris.escapeByte ++ [34]) := rfl
  rw [callNative, CString.scanWord_word hname (fun b hb ↦ (hword b hb).1) (by omega) rfl]
  dsimp only
  rw [hfind, hskip]
  dsimp only
  rw [noobNativeParse_escaped htext hlength]
  by_cases hnumbers : entry.numbers = 0
  · simp [hkind, hne, hnumbers]
  · simp [hnumbers, Ne.symm hnumbers]

end Neo

/-! ## The result -/

open Iris in
/-- **A text reaches the function.**  For every function of Neo that takes a text, the request that
Iris makes for a printable text fits the buffers of both, and Neo reads no numbers and that text.
It calls the function with them, once, if the function takes no numbers, and refuses the request
otherwise. -/
theorem text_call_reaches {entry : Neo.NoobNativeEntry} (hentry : entry ∈ Neo.natives)
    (hkind : entry.text = true) {text : Bytes} (hne : text ≠ [])
    (htext : ∀ b ∈ text, Bytes.isPrintable b = true) (hlength : text.length ≤ 191) {long : Nat}
    (hlong : 1 ≤ long) :
    ∃ request, requestText (nativeTextCall entry.name text) = some request ∧
      request.length < 512 ∧
      Neo.handle long request =
        [if entry.numbers = 0 then .call entry 1 ⟨[], text⟩
         else .respond 1 (ofAscii "ERR BAD_ARGUMENTS")
          (ofAscii "wrong numeric/ASCII arguments")] := by
  obtain ⟨-, hname, hshort, hword⟩ := Neo.natives_spec hentry
  have hescaped := length_escaped_le text
  have hbytes (b : UInt8) (hb : b ∈ nativeTextCall entry.name text) : b ≠ 0 ∧ b ≠ 10 := by
    rw [nativeTextCall_eq] at hb
    simp only [mem_append, mem_cons, not_mem_nil, or_false] at hb
    rcases hb with hb | rfl | hb | rfl | rfl | hb | rfl
    · exact (by decide : ∀ b ∈ ofAscii "CALL_MIXED", b ≠ 0 ∧ b ≠ 10) b hb
    · decide
    · exact (hword b hb).2
    · decide
    · decide
    · have hprintable := isPrintable_of_mem_escaped htext hb
      constructor <;> rintro rfl <;> exact absurd hprintable (by decide)
    · decide
  have hlength' : (nativeTextCall entry.name text).length ≤ 410 := by
    have hcommand : (ofAscii "CALL_MIXED").length = 10 := rfl
    rw [nativeTextCall_eq]
    simp only [length_append, length_cons, length_nil, hcommand]
    omega
  have hstart : (ofAscii "NRP/1 1 ").length = 8 := rfl
  have hrequest : requestText (nativeTextCall entry.name text) =
      some (ofAscii "NRP/1 1 " ++ nativeTextCall entry.name text ++ [10]) := by
    rw [requestText, CString.text_of_ne_zero fun b hb ↦ (hbytes b hb).1, if_pos]
    simp only [length_append, length_cons, length_nil, hstart]
    omega
  have hreceive : Neo.receiveLine 511 [] (ofAscii "NRP/1 1 " ++ nativeTextCall entry.name text ++
      [10]) = .line (ofAscii "NRP/1 1 " ++ nativeTextCall entry.name text) := by
    refine Neo.receiveLine_line (fun c hc ↦ ?_) ?_ [] []
    · rcases mem_append.mp hc with hc | hc
      · exact (by decide : ∀ b ∈ ofAscii "NRP/1 1 ", b ≠ 0 ∧ b ≠ 10) c hc
      · exact hbytes c hc
    · rw [length_append, hstart]
      omega
  have hscan : Neo.scanRequest (2 * long) (ofAscii "NRP/1 1 " ++ nativeTextCall entry.name text) =
      (1, some (ofAscii "CALL_MIXED", ofAscii entry.name ++ 32 ::
        (34 :: (text.flatMap escapeByte ++ [34])))) := by
    rw [nativeTextCall_eq, ← append_assoc]
    refine Neo.scanRequest_words hlong (by decide) (by decide) (by decide) ?_
    obtain ⟨b, rest, hb⟩ := exists_cons_of_ne_nil hname
    have hspace := (hword b (hb ▸ mem_cons_self)).1
    rw [hb]
    simpa using hspace
  refine ⟨_, hrequest, ?_, ?_⟩
  · simp only [length_append, length_cons, length_nil, hstart]
    omega
  rw [Neo.handle, hreceive]
  dsimp only
  rw [hscan]
  dsimp only
  rw [Neo.dispatch_callMixed, Neo.callNative_escaped hentry hkind hne htext hlength long 1]

/-- A text with a quote and a backslash in it. -/
theorem text_call_reaches_oled : ∃ request,
    Iris.requestText (Iris.nativeTextCall "OLED_TEXT" (ofAscii "a\"b\\")) = some request ∧
      request.length < 512 ∧ Neo.handle (2 ^ 31) request =
        [.call ⟨"OLED_TEXT", 0, true⟩ 1 ⟨[], ofAscii "a\"b\\"⟩] :=
  text_call_reaches (show (⟨"OLED_TEXT", 0, true⟩ : Neo.NoobNativeEntry) ∈ Neo.natives by decide)
    rfl (by decide) (by decide) (by decide) (by decide)

/-- **`DISPLAY_START` is not called this way.**  It takes a number, and without one the request is
refused. -/
theorem display_start_refused : ∃ request,
    Iris.requestText (Iris.nativeTextCall "DISPLAY_START" (ofAscii "cat.gif")) = some request ∧
      Neo.handle (2 ^ 31) request = [.respond 1 (ofAscii "ERR BAD_ARGUMENTS")
        (ofAscii "wrong numeric/ASCII arguments")] :=
  ⟨ofAscii "NRP/1 1 CALL_MIXED DISPLAY_START \"cat.gif\"\n", by decide +kernel, by decide +kernel⟩

end Noobia
