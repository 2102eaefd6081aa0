import Noobia.Lib.Trace
import Noobia.Sequence.History

/-!
# Stale records

`SEQUENCE_POP` takes the oldest result of a channel out of its queue and keeps a copy of it, and
`SEQUENCE_FIELD` reads the fields of that copy.  The copy belongs to the slot and not to the track
in it: giving the slot a new track, or none, does not throw it away, and until something is popped
from the new track the fields of the old one's record can still be read.

`latest` is the record `SEQUENCE_FIELD` ought to read, computed from the history, and
`field_fresh_iff` says when it reads no other: along any history, if and only if no slot is ever
given a new track, or emptied, while the copy of a record with fields is kept for it.
`SEQUENCE_QUEUE_CLEAR` is what throws it away.
-/

namespace Noobia

open List

namespace SeqOp

/-- The record the operation pops from the channel in a slot. -/
def popped (s : Sequencer) (slot : Slot) : SeqOp → Option NoobRecord
  | .pop arguments =>
    if Sequencer.slotArgument arguments = some slot then
      (s.tracks slot).channel.results.pop.map Prod.fst
    else none
  | _ => none

/-- The operation gives the slot a new track, or empties it. -/
def replaces (s : Sequencer) (slot : Slot) : SeqOp → Bool
  | .set arguments => (s.set arguments).1.ok && (s.set arguments).1.value = slot.val
  | .setMixed arguments ascii =>
    (s.setMixed arguments ascii).1.ok && (s.setMixed arguments ascii).1.value = slot.val
  | .setNumeric arguments ascii appendInput =>
    (s.setNumeric arguments ascii appendInput).1.ok &&
      (s.setNumeric arguments ascii appendInput).1.value = slot.val
  | .load channels => (s.load channels).1.ok
  | .clear arguments =>
    (s.clear arguments).1.ok && (arguments = [] || arguments = [(slot.val : Int)])
  | _ => false

end SeqOp

/-- The record popped last from the track now in the slot, since it was put there. -/
def latest (history : History) (slot : Slot) : Option NoobRecord :=
  history.foldl (fun last entry ↦
    if entry.1.replaces entry.2 slot then none else (entry.1.popped entry.2 slot).or last) none

theorem latest_append (history : History) (op : SeqOp) (s : Sequencer) (slot : Slot) :
    latest (history ++ [(op, s)]) slot =
      if op.replaces s slot then none else (op.popped s slot).or (latest history slot) := by
  rw [latest, foldl_append, foldl_cons, foldl_nil, ← latest]

/-- Every field that can be read is one of the record popped last. -/
def Fresh (history : History) (s : Sequencer) : Prop :=
  ∀ (slot : Slot) (index : Int), (s.field [slot.val, index]).ok = true →
    ∃ record f, latest history slot = some record ∧ record.get? index.toNat = some f ∧
      (s.field [slot.val, index]).value = f.value

/-- Where a new track is put, no record is kept that has fields. -/
def Mindful (entry : SeqOp × Sequencer) : Prop :=
  ∀ slot, entry.1.replaces entry.2 slot = true → entry.2.haveLastPopped slot = true →
    (entry.2.lastPopped slot).fields = []
  deriving Decidable

namespace Sequencer

variable {s : Sequencer}

theorem slot?_val (slot : Slot) : slot? slot.val = some slot := by
  rw [slot?, dif_pos ⟨by omega, by omega⟩]
  simp

theorem field_ok {slot : Slot} {index : Int} (h : (s.field [slot.val, index]).ok = true) :
    s.haveLastPopped slot = true ∧ ∃ f, (s.lastPopped slot).get? index.toNat = some f ∧
      (s.field [slot.val, index]).value = f.value := by
  rw [field, slot?_val] at h ⊢
  dsimp only at h ⊢
  split at h
  · cases h
  rename_i hindex
  split at h
  · cases h
  rename_i hhave
  rw [if_neg hindex, if_neg hhave]
  split at h
  · cases h
  · rename_i f hf
    exact ⟨by simpa using hhave, f, hf, rfl⟩

/-- A kept record that has a field has a first one. -/
theorem field_zero {slot : Slot} (hhave : s.haveLastPopped slot = true)
    (hfields : (s.lastPopped slot).fields ≠ []) : (s.field [slot.val, 0]).ok = true := by
  obtain ⟨f, rest, hcons⟩ := exists_cons_of_ne_nil hfields
  have hget : (s.lastPopped slot).get? 0 = some f := by
    rw [NoobRecord.get?, hcons]
    rfl
  rw [field, slot?_val]
  simp [hhave, hget, NoobRecord.maxFields]

end Sequencer

/-! ## What an operation does to the copies -/

/-- An operation pops a record and keeps a copy, or throws the copy away, or leaves it alone. -/
theorem SeqOp.effect_last (op : SeqOp) (s : Sequencer) (slot : Slot) :
    (∃ record, op.popped s slot = some record ∧ op.replaces s slot = false ∧
        (op.effect s).haveLastPopped slot = true ∧ (op.effect s).lastPopped slot = record) ∨
      (op.replaces s slot = false ∧ (op.effect s).haveLastPopped slot = false) ∨
      op.popped s slot = none ∧ (op.effect s).haveLastPopped slot = s.haveLastPopped slot ∧
        (op.effect s).lastPopped slot = s.lastPopped slot := by
  have hedited : ∀ r : NativeResult × Sequencer, s.Edited r →
      r.2.haveLastPopped slot = s.haveLastPopped slot ∧
        r.2.lastPopped slot = s.lastPopped slot := by
    rintro r (⟨-, h⟩ | ⟨-, -, i, -, track, -, -, h⟩) <;> rw [h] <;> exact ⟨rfl, rfl⟩
  cases op with
  | set arguments => exact .inr (.inr ⟨rfl, hedited _ (Sequencer.edited_set arguments)⟩)
  | setMixed arguments ascii =>
    exact .inr (.inr ⟨rfl, hedited _ (Sequencer.edited_setMixed arguments ascii)⟩)
  | setNumeric arguments ascii appendInput =>
    exact .inr (.inr ⟨rfl, hedited _ (Sequencer.edited_setNumeric arguments ascii appendInput)⟩)
  | load channels =>
    refine .inr (.inr ⟨rfl, ?_⟩)
    obtain ⟨-, h⟩ | ⟨-, -, -, -, loaded, -, h⟩ := s.load_cases channels <;> rw [effect, h] <;>
      exact ⟨rfl, rfl⟩
  | start arguments now =>
    refine .inr (.inr ⟨rfl, ?_⟩)
    obtain ⟨-, h⟩ | ⟨-, -, -, h⟩ := s.start_cases arguments (Clock.millis now) <;>
      rw [effect, h] <;>
      exact ⟨rfl, rfl⟩
  | stop arguments =>
    refine .inr (.inr ⟨rfl, ?_⟩)
    rw [effect, Sequencer.stop]
    split <;> exact ⟨rfl, rfl⟩
  | clear arguments =>
    refine .inr (.inr ⟨rfl, ?_⟩)
    obtain ⟨-, h⟩ | ⟨-, -, ⟨-, h⟩ | ⟨i, -, h⟩⟩ := s.clear_cases arguments <;> rw [effect, h] <;>
      exact ⟨rfl, rfl⟩
  | pop arguments =>
    rw [effect, Sequencer.pop, popped]
    cases hslot : Sequencer.slotArgument arguments with
    | none => exact .inr (.inr ⟨by simp, rfl, rfl⟩)
    | some i =>
      dsimp only
      cases hpop : (s.tracks i).channel.results.pop with
      | none =>
        refine .inr (.inr ⟨?_, rfl, rfl⟩)
        split
        · rename_i hi
          obtain rfl := Option.some.inj hi
          rw [hpop]
          rfl
        · rfl
      | some r =>
        by_cases hi : i = slot
        · subst hi
          exact .inl ⟨r.1, by simp [hpop], rfl, by simp, by simp⟩
        · have hi' : slot ≠ i := fun h ↦ hi h.symm
          exact .inr (.inr ⟨by simp [hi], by simp [hi'], by simp [hi']⟩)
  | clearQueue arguments =>
    rw [effect, Sequencer.clearQueue]
    cases Sequencer.slotArgument arguments with
    | none => exact .inr (.inr ⟨rfl, rfl, rfl⟩)
    | some i =>
      by_cases hi : slot = i
      · subst hi
        exact .inr (.inl ⟨rfl, by simp⟩)
      · exact .inr (.inr ⟨rfl, by simp [hi], rfl⟩)
  | tick now => exact .inr (.inr ⟨rfl, rfl, rfl⟩)

theorem Turn.last {s s' : Sequencer} (h : Turn s s') :
    s'.haveLastPopped = s.haveLastPopped ∧ s'.lastPopped = s.lastPopped := by
  cases h <;> exact ⟨rfl, rfl⟩

/-! ## Whole histories -/

/-- Every copy is of the record popped last, or has no fields. -/
def Current (history : History) (s : Sequencer) : Prop :=
  ∀ slot, s.haveLastPopped slot = true →
    latest history slot = some (s.lastPopped slot) ∨ (s.lastPopped slot).fields = []

theorem Current.fresh (history : History) (s : Sequencer) (h : Current history s) :
    Fresh history s := by
  intro slot index hok
  obtain ⟨hhave, f, hf, hvalue⟩ := Sequencer.field_ok hok
  rcases h slot hhave with hlatest | hempty
  · exact ⟨_, f, hlatest, hf, hvalue⟩
  · rw [NoobRecord.get?, hempty] at hf
    cases hf

variable {history : History}

theorem Current.effect {s : Sequencer} (h : Current history s) {op : SeqOp}
    (hop : Mindful (op, s)) : Current (history ++ [(op, s)]) (op.effect s) := by
  intro slot hhave
  rw [latest_append]
  obtain ⟨record, hpopped, hreplaces, -, hlast⟩ | ⟨-, hnone⟩ | ⟨hpopped, hsame, hlast⟩ :=
    op.effect_last s slot
  · rw [hreplaces, hpopped, hlast]
    exact .inl rfl
  · exact absurd (hnone.symm.trans hhave) (by decide)
  rw [hsame] at hhave
  rw [hlast, hpopped, Option.none_or]
  split
  · rename_i hreplaces
    exact .inr (hop slot hreplaces hhave)
  · exact h slot hhave

/-- A slot given a new track while a record is kept for it: the record can still be read. -/
theorem not_fresh_of_not_mindful {s : Sequencer} {op : SeqOp}
    (hop : ¬ Mindful (op, s)) : ¬ Fresh (history ++ [(op, s)]) (op.effect s) := by
  intro hfresh
  refine hop fun slot hreplaces hhave ↦ ?_
  by_contra hfields
  obtain ⟨-, -, hno, -⟩ | ⟨hno, -⟩ | ⟨-, hsame, hlast⟩ := op.effect_last s slot
  · exact absurd (hno.symm.trans hreplaces) (by decide)
  · exact absurd (hno.symm.trans hreplaces) (by decide)
  have hok := Sequencer.field_zero (hsame.trans hhave) (by rwa [hlast])
  obtain ⟨record, -, hlatest, -⟩ := hfresh slot 0 hok
  rw [latest_append, if_pos (show op.replaces s slot = true from hreplaces)] at hlatest
  cases hlatest

/-- **`SEQUENCE_FIELD` reads the record popped last from the track in the slot, all along a history,
if and only if no slot is given a new track while a record is kept for it.**  The history is that of
any operations and ticks, from the start of the sequencer on, with native functions that use any of
these operations while a tick is calling them. -/
theorem field_fresh_iff {W : Type} (natives : SeqNatives W) (depth : Nat) (ops : List SeqOp)
    (world : W) (s : Sequencer) (directory : List NativeRegistry.Signature) :
    let r := SeqOp.recordOps natives depth ops ((world, []), s.begin directory)
    Script.forget r = SeqOp.runOps natives depth ops (world, s.begin directory) ∧
      (Trace.Along Fresh r.1.2 r.2 ↔ ∀ entry ∈ r.1.2, Mindful entry) := by
  refine ⟨SeqOp.recordOps_forget natives depth ops _, ?_⟩
  have hbegin : Current [] (s.begin directory) := fun _ h ↦ nomatch h
  refine (history_induction (I := Trace.Exactly Fresh Current Mindful) (fun log s op h ↦ ?_)
    (fun log s s' hturn h ↦ ?_) depth ops (Trace.exactly_nil hbegin (hbegin.fresh _ _))).along_iff
  · exact h.action op Current.fresh (fun hcurrent hop ↦ hcurrent.effect hop)
      fun _ hop ↦ not_fresh_of_not_mindful hop
  obtain ⟨hhave, hlast⟩ := hturn.last
  have hfield : ∀ arguments, s'.field arguments = s.field arguments := by
    intro arguments
    simp only [Sequencer.field, hhave, hlast]
  refine h.move (fun hcurrent ↦ ?_) ?_
  · rwa [Current, hhave, hlast]
  · simp only [Fresh, hfield]

/-! ## A record that outlives its track -/

/-- A native function that answers with a record of one field. -/
def reading : SeqNatives Unit :=
  ⟨[⟨7, Bytes.ofAscii "READ", .numericAdapter fun _ ↦ pure ⟨true, 42, "", .empty⟩⟩]⟩

/-- The function is played once, its result popped, and the slot emptied. -/
def emptied : List SeqOp :=
  [.setNumeric [0, 1, 7, 1, 1] [] true, .start [0] 0, .tick 0, .pop [0], .clear [0]]

/-- **A slot that has been emptied still shows a field of the record popped before.** -/
theorem field_of_emptied :
    let s := (SeqOp.runOps reading 1 emptied ((), Sequencer.begin {} reading.directory)).2
    (s.tracks 0).configured = false ∧ (s.field [0, 0]).ok = true ∧ (s.field [0, 0]).value = 42 := by
  decide +kernel

end Noobia
