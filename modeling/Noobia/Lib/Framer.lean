import Mathlib

/-!
# Cutting a stream into frames

A framer is fed the items of a stream one at a time, and now and then it has a frame ready.  What it
makes of a stream depends on the stream alone (`Framer.feed`).  A program, however, reads in calls:
a call takes items as long as there are any, but not more than so many, and comes back as soon as it
has a frame (`Framer.take`).

`Framer.feed_take` says that such calls lose nothing: what a call returns and what is made of the
rest are together what is made of the whole.  `Framer.length_take_lt` says that they come to an end.

A stream may also go on while it is read.  `Framer.call` is a call that items come in during, and
`Framer.exists_ended_call_iff` says when it comes back of itself.

A framer of lines makes at most one frame of each line, and starts afresh with the next.  What it
makes of a stream is then what it makes of its lines (`Framer.feed_lines`).
-/

/-- Something that is fed a stream of `β`s and has a frame ready now and then. -/
structure Framer (σ β α : Type) where
  /-- The state after an item, and the frame that is complete with it. -/
  step : σ → β → σ × Option α

namespace Framer

open List

variable {σ β α : Type} (f : Framer σ β α)

/-- The frames in a stream, and the state in the end. -/
def feed : σ → List β → σ × List α
  | s, [] => (s, [])
  | s, b :: items =>
    ((feed (f.step s b).1 items).1, (f.step s b).2.toList ++ (feed (f.step s b).1 items).2)

/-- One call: at most so many items are taken, and none after a frame is complete. -/
def take : Nat → σ → List β → Option α × σ × List β
  | 0, s, items => (none, s, items)
  | _ + 1, s, [] => (none, s, [])
  | n + 1, s, b :: items =>
    match f.step s b with
    | (s', some frame) => (some frame, s', items)
    | (s', none) => take n s' items

theorem feed_cons_of_none {s s' : σ} {b : β} (h : f.step s b = (s', none)) (items : List β) :
    f.feed s (b :: items) = f.feed s' items := by
  rw [feed, h]
  rfl

theorem feed_cons_of_some {s s' : σ} {b : β} {frame : α} (h : f.step s b = (s', some frame))
    (items : List β) :
    f.feed s (b :: items) = ((f.feed s' items).1, frame :: (f.feed s' items).2) := by
  rw [feed, h]
  rfl

/-- **A call loses nothing.** -/
theorem feed_take (n : Nat) (s : σ) (items more : List β) :
    (f.feed s (items ++ more)).2 = (f.take n s items).1.toList ++
      (f.feed (f.take n s items).2.1 ((f.take n s items).2.2 ++ more)).2 := by
  induction n generalizing s items with
  | zero => rfl
  | succ n ih =>
    cases items with
    | nil => rfl
    | cons b items =>
      rw [cons_append, take]
      rcases h : f.step s b with ⟨s', _ | frame⟩
      · rw [feed_cons_of_none f h]
        exact ih s' items
      · rw [feed_cons_of_some f h]
        rfl

theorem length_take_le (n : Nat) (s : σ) (items : List β) :
    (f.take n s items).2.2.length ≤ items.length := by
  induction n generalizing s items with
  | zero => exact Nat.le_refl _
  | succ n ih =>
    cases items with
    | nil => exact Nat.le_refl _
    | cons b items =>
      rw [take, length_cons]
      rcases f.step s b with ⟨s', _ | frame⟩
      · exact Nat.le_succ_of_le (ih s' items)
      · exact Nat.le_succ _

/-- **A call gets on**, if there is anything to take. -/
theorem length_take_lt {n : Nat} (hn : 0 < n) (s : σ) {items : List β} (hitems : items ≠ []) :
    (f.take n s items).2.2.length < items.length := by
  obtain ⟨n, rfl⟩ := Nat.exists_eq_add_one_of_ne_zero (Nat.ne_of_gt hn)
  obtain ⟨b, items, rfl⟩ := exists_cons_of_ne_nil hitems
  rw [take, length_cons]
  rcases f.step s b with ⟨s', _ | frame⟩
  · exact Nat.lt_succ_of_le (f.length_take_le n s' items)
  · exact Nat.lt_succ_self _

/-! ## A stream that goes on -/

/-- What becomes of a call. -/
structure Call (σ β α : Type) where
  frame : Option α
  state : σ
  /-- What has come in and has not been taken. -/
  rest : List β
  /-- How many items have been taken. -/
  taken : Nat
  /-- It came back of itself, because a frame was complete or nothing was left to take. -/
  ended : Bool

/-- A call that looks for items at most so many times, when `arrivals k` comes in before it looks
for the `k`-th time. -/
def call : Nat → (Nat → List β) → σ → List β → Call σ β α
  | 0, _, s, items => ⟨none, s, items, 0, false⟩
  | n + 1, arrivals, s, items =>
    match items ++ arrivals 0 with
    | [] => ⟨none, s, [], 0, true⟩
    | b :: rest =>
      match f.step s b with
      | (s', some frame) => ⟨some frame, s', rest, 1, true⟩
      | (s', none) =>
        let c := call n (fun k ↦ arrivals (k + 1)) s' rest
        { c with taken := c.taken + 1 }

/-- All that has come in by the `k`-th look, whether it has been taken or not. -/
def came (arrivals : Nat → List β) (items : List β) : Nat → List β
  | 0 => items ++ arrivals 0
  | k + 1 => came arrivals items k ++ arrivals (k + 1)

/-- Before more than so many items have been taken, there is a moment when nothing is left to take,
or a frame is complete. -/
def Pauses (bound : Nat) (arrivals : Nat → List β) (s : σ) (items : List β) : Prop :=
  ∃ k ≤ bound, (came arrivals items k).length ≤ k ∨
    (f.feed s ((came arrivals items k).take k)).2 ≠ []

section

variable {n : Nat} {arrivals : Nat → List β} {s s' : σ} {items rest : List β} {b : β} {frame : α}

theorem call_of_nil (h : items ++ arrivals 0 = []) :
    f.call (n + 1) arrivals s items = ⟨none, s, [], 0, true⟩ := by
  rw [call, h]

theorem call_of_some (h : items ++ arrivals 0 = b :: rest) (hstep : f.step s b = (s', some frame)) :
    f.call (n + 1) arrivals s items = ⟨some frame, s', rest, 1, true⟩ := by
  rw [call, h]
  dsimp only
  rw [hstep]

theorem call_of_none (h : items ++ arrivals 0 = b :: rest) (hstep : f.step s b = (s', none)) :
    f.call (n + 1) arrivals s items =
      { f.call n (fun k ↦ arrivals (k + 1)) s' rest with
        taken := (f.call n (fun k ↦ arrivals (k + 1)) s' rest).taken + 1 } := by
  rw [call, h]
  dsimp only
  rw [hstep]

end

theorem taken_call_le (n : Nat) (arrivals : Nat → List β) (s : σ) (items : List β) :
    (f.call n arrivals s items).taken ≤ n := by
  induction n generalizing arrivals s items with
  | zero => exact Nat.le_refl _
  | succ n ih =>
    cases h : items ++ arrivals 0 with
    | nil =>
      rw [call_of_nil f h]
      exact Nat.zero_le _
    | cons b rest =>
      rcases hstep : f.step s b with ⟨s', _ | frame⟩
      · rw [call_of_none f h hstep]
        exact Nat.succ_le_succ (ih _ s' rest)
      · rw [call_of_some f h hstep]
        exact Nat.succ_le_succ (Nat.zero_le n)

variable {n bound : Nat} {arrivals : Nat → List β} {s : σ} {items rest line : List β}

/-- A call that comes back of itself does so however long it might go on. -/
theorem call_of_ended {m : Nat} (hle : n ≤ m) (hended : (f.call n arrivals s items).ended = true) :
    f.call m arrivals s items = f.call n arrivals s items := by
  induction n generalizing m arrivals s items with
  | zero => cases hended
  | succ n ih =>
    obtain ⟨m, rfl⟩ : ∃ m', m = m' + 1 := ⟨m - 1, by omega⟩
    cases h : items ++ arrivals 0 with
    | nil => rw [call_of_nil f h, call_of_nil f h]
    | cons b rest =>
      rcases hstep : f.step s b with ⟨s', _ | frame⟩
      · rw [call_of_none f h hstep] at hended
        rw [call_of_none f h hstep, call_of_none f h hstep, ih (Nat.le_of_succ_le_succ hle) hended]
      · rw [call_of_some f h hstep, call_of_some f h hstep]

theorem came_succ {b : β} (h : items ++ arrivals 0 = b :: rest) (k : Nat) :
    came arrivals items (k + 1) = b :: came (fun k ↦ arrivals (k + 1)) rest k := by
  induction k with
  | zero => rw [came, came, came, h, cons_append]
  | succ k ih => rw [came, ih, came, cons_append]

/-- After an item that completes no frame there is one item less to go. -/
theorem pauses_succ_iff {s' : σ} {b : β} (h : items ++ arrivals 0 = b :: rest)
    (hstep : f.step s b = (s', none)) :
    f.Pauses (bound + 1) arrivals s items ↔ f.Pauses bound (fun k ↦ arrivals (k + 1)) s' rest := by
  constructor
  · rintro ⟨k, hk, hpause⟩
    cases k with
    | zero =>
      rcases hpause with hlength | hframe
      · rw [came, h] at hlength
        cases hlength
      · exact absurd rfl hframe
    | succ k =>
      rw [came_succ h, length_cons, take_succ_cons, feed_cons_of_none f hstep] at hpause
      exact ⟨k, Nat.le_of_succ_le_succ hk, hpause.imp Nat.le_of_succ_le_succ id⟩
  · rintro ⟨k, hk, hpause⟩
    refine ⟨k + 1, Nat.succ_le_succ hk, ?_⟩
    rw [came_succ h, length_cons, take_succ_cons, feed_cons_of_none f hstep]
    exact hpause.imp Nat.succ_le_succ id

/-- If there is nothing to take, a call comes back at once. -/
theorem exists_ended_call_iff_of_nil (h : items ++ arrivals 0 = []) :
    (∃ n, (f.call n arrivals s items).ended = true ∧ (f.call n arrivals s items).taken ≤ bound) ↔
      f.Pauses bound arrivals s items := by
  refine ⟨fun _ ↦ ⟨0, Nat.zero_le _, .inl ?_⟩, fun _ ↦ ⟨1, ?_⟩⟩
  · rw [came, h]
    exact Nat.le_refl _
  · rw [call_of_nil f h]
    exact ⟨rfl, Nat.zero_le _⟩

/-- **A call comes back of itself after at most so many items, just if the stream pauses.** -/
theorem exists_ended_call_iff (bound : Nat) (arrivals : Nat → List β) (s : σ) (items : List β) :
    (∃ n, (f.call n arrivals s items).ended = true ∧ (f.call n arrivals s items).taken ≤ bound) ↔
      f.Pauses bound arrivals s items := by
  induction bound generalizing arrivals s items with
  | zero =>
    cases h : items ++ arrivals 0 with
    | nil => exact exists_ended_call_iff_of_nil f h
    | cons b rest =>
      constructor
      · rintro ⟨_ | n, hended, htaken⟩
        · cases hended
        · rcases hstep : f.step s b with ⟨s', _ | frame⟩
          · rw [call_of_none f h hstep] at htaken
            cases htaken
          · rw [call_of_some f h hstep] at htaken
            cases htaken
      · rintro ⟨k, hk, hlength | hframe⟩
        · rw [Nat.le_zero.mp hk, came, h] at hlength
          cases hlength
        · rw [Nat.le_zero.mp hk] at hframe
          exact absurd rfl hframe
  | succ bound ih =>
    cases h : items ++ arrivals 0 with
    | nil => exact exists_ended_call_iff_of_nil f h
    | cons b rest =>
      rcases hstep : f.step s b with ⟨s', _ | frame⟩
      · rw [pauses_succ_iff f h hstep, ← ih]
        constructor
        · rintro ⟨_ | n, hended, htaken⟩
          · cases hended
          · rw [call_of_none f h hstep] at hended htaken
            exact ⟨n, hended, Nat.le_of_succ_le_succ htaken⟩
        · rintro ⟨n, hended, htaken⟩
          refine ⟨n + 1, ?_⟩
          rw [call_of_none f h hstep]
          exact ⟨hended, Nat.succ_le_succ htaken⟩
      · refine ⟨fun _ ↦ ⟨1, by omega, .inr ?_⟩, fun _ ↦ ⟨1, ?_⟩⟩
        · rw [came_succ h, take_succ_cons, feed_cons_of_some f hstep]
          exact cons_ne_nil _ _
        · rw [call_of_some f h hstep]
          exact ⟨rfl, Nat.succ_le_succ (Nat.zero_le bound)⟩

section

variable (n : Nat) (s : σ) (items : List β)

/-- To look once more when there is nothing left makes no difference. -/
theorem take_length_succ : f.take (items.length + 1) s items = f.take items.length s items := by
  induction items generalizing s with
  | nil => rfl
  | cons b items ih =>
    rw [length_cons, take, take]
    split
    · rfl
    · exact ih _

/-- If nothing comes in, a call takes what there is. -/
theorem call_quiet :
    ((f.call n (fun _ ↦ []) s items).frame, (f.call n (fun _ ↦ []) s items).state,
      (f.call n (fun _ ↦ []) s items).rest) = f.take n s items := by
  induction n generalizing s items with
  | zero => rfl
  | succ n ih =>
    cases items with
    | nil => rfl
    | cons b rest =>
      have h : (b :: rest) ++ [] = b :: rest := append_nil _
      rw [take]
      rcases hstep : f.step s b with ⟨s', _ | frame⟩
      · rw [call_of_none f h hstep]
        exact ih s' rest
      · rw [call_of_some f h hstep]

theorem ended_call_quiet : (f.call (items.length + 1) (fun _ ↦ []) s items).ended = true := by
  induction items generalizing s with
  | nil => rfl
  | cons b rest ih =>
    have h : (b :: rest) ++ [] = b :: rest := append_nil _
    rcases hstep : f.step s b with ⟨s', _ | frame⟩
    · rw [call_of_none f h hstep]
      exact ih s'
    · rw [call_of_some f h hstep]

end

/-! ## Lines -/

/-- The lines of a stream that have been ended. -/
def lines (isBreak : β → Bool) (items : List β) : List (List β) := (items.splitOnP isBreak).dropLast

variable {isBreak : β → Bool}

theorem lines_of_no_break (hline : ∀ b ∈ line, isBreak b = false) : lines isBreak line = [] := by
  rw [lines, splitOnP_eq_singleton hline]
  rfl

theorem lines_append_cons (hline : ∀ b ∈ line, isBreak b = false) {b : β} (hb : isBreak b = true)
    (items : List β) : lines isBreak (line ++ b :: items) = line :: lines isBreak items := by
  rw [lines, splitOnP_append_cons_of_forall_mem hline b hb,
    dropLast_cons_of_ne_nil (splitOnP_ne_nil isBreak items), lines]

/-- **What is made of a stream is what is made of its lines.**  The state is to depend on the line
so far (`after`), and the frame at the end on the line (`out`). -/
theorem feed_lines {after : List β → σ} {out : List β → Option α}
    (hitem : ∀ line b, isBreak b = false → f.step (after line) b = (after (line ++ [b]), none))
    (hbreak : ∀ line b, isBreak b = true → f.step (after line) b = (after [], out line))
    (items : List β) : (f.feed (after []) items).2 = (lines isBreak items).filterMap out := by
  have hfeed (line : List β) (hline : ∀ b ∈ line, isBreak b = false) :
      (f.feed (after line) items).2 = (lines isBreak (line ++ items)).filterMap out := by
    induction items generalizing line with
    | nil =>
      rw [append_nil, lines_of_no_break hline]
      rfl
    | cons b items ih =>
      cases hb : isBreak b with
      | false =>
        rw [feed_cons_of_none f (hitem line b hb), ih, append_assoc, singleton_append]
        intro c hc
        rcases mem_append.mp hc with hc | hc
        · exact hline c hc
        · rw [mem_singleton.mp hc, hb]
      | true =>
        rw [feed, hbreak line b hb, lines_append_cons hline hb, filterMap_cons,
          ih [] (by simp), nil_append]
        cases out line <;> rfl
  exact hfeed [] (by simp)

end Framer
