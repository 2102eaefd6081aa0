import Noobia.Lib.Metronome
import Noobia.Sequence.Invariant

/-!
# What a sequence plays

With native functions that do their work and leave the sequencer alone, a track is a metronome: each
of its beats is a call with the next bit, and a finite sequence is silent once its bits are through.
`Follows` says so of one track, `Performs` of all four, and `Performs.play` that every tick keeps it
that way, for ticks as late as they like and a clock that wraps in between.

What a whole run does can then be read off the metronomes.  A finite sequence plays every bit of
every track once and ends with a single event; a repeating one goes round for ever.
-/

namespace Noobia

open List

/-! ## Tracks -/

namespace Track

/-- The call a track should make for the bit at `position`: its function, with the fixed arguments
and, where the function is given the bit, a 1 or a 0 after them as the bit is `1` or not. -/
def callAt (track : Track) (slot : Slot) (position : Nat) : Invocation :=
  let bit : Int := if track.bits[position]? = some 49 then 1 else 0
  ⟨slot, track.channel.functionId,
    track.channel.arguments ++ (if track.appendInput then [bit] else []), track.channel.ascii⟩

theorem callAt_position (track : Track) (slot : Slot) : track.callAt slot track.position =
    ⟨slot, track.channel.functionId,
      track.channel.callArguments track.input track.appendInput, track.channel.ascii⟩ := rfl

/-- Two tracks with the same pattern for the same function; where they are in it and what the
function last returned may differ. -/
structure SameProgram (a b : Track) : Prop where
  configured : a.configured = b.configured
  intervalMs : a.intervalMs = b.intervalMs
  bits : a.bits = b.bits
  bitCount : a.bitCount = b.bitCount
  appendInput : a.appendInput = b.appendInput
  functionId : a.channel.functionId = b.channel.functionId
  arguments : a.channel.arguments = b.channel.arguments
  ascii : a.channel.ascii = b.channel.ascii

theorem SameProgram.refl (a : Track) : a.SameProgram a := ⟨rfl, rfl, rfl, rfl, rfl, rfl, rfl, rfl⟩

theorem SameProgram.trans {a b c : Track} (h : a.SameProgram b) (h' : b.SameProgram c) :
    a.SameProgram c :=
  ⟨h.1.trans h'.1, h.2.trans h'.2, h.3.trans h'.3, h.4.trans h'.4, h.5.trans h'.5,
    h.6.trans h'.6, h.7.trans h'.7, h.8.trans h'.8⟩

theorem SameProgram.callAt {a b : Track} (h : a.SameProgram b) (slot : Slot) (position : Nat) :
    b.callAt slot position = a.callAt slot position := by
  simp only [Track.callAt, h.bits, h.appendInput, h.functionId, h.arguments, h.ascii]

theorem sameProgram_advance (track : Track) (now : Nat) (repeating : Bool) :
    track.SameProgram (track.advance now repeating) := by
  simp only [advance]
  split
  · exact ⟨rfl, rfl, rfl, rfl, rfl, rfl, rfl, rfl⟩
  · split <;> exact ⟨rfl, rfl, rfl, rfl, rfl, rfl, rfl, rfl⟩

/-- The next bit is due an interval after the tick. -/
theorem advance_nextAt (track : Track) (now : Nat) (repeating : Bool) :
    (track.advance now repeating).nextAt = (now + track.intervalMs) % 2 ^ 32 := by
  simp only [advance]
  split
  · rfl
  · split <;> rfl

/-- `tick` serves the track at the clock reading `now`. -/
def due (now : Nat) (track : Track) : Bool := track.active && !Clock.before now track.nextAt

/-- What an iteration of `tick` does to its track when the call goes well. -/
def Stepped (now : Nat) (repeating : Bool) (a b : Track) : Prop :=
  if a.due now = true then
    a.SameProgram b ∧ b.active = (a.advance now repeating).active ∧
      b.position = (a.advance now repeating).position ∧
      b.nextAt = (a.advance now repeating).nextAt
  else b = a

end Track

/-! ## One tick with obliging functions -/

/-- The track's function is registered, succeeds on every bit, and does not use the sequencer. -/
def Obliges {W : Type} (natives : SeqNatives W) (track : Track) : Prop :=
  ∃ entry, natives.find track.channel.functionId = some entry ∧ ∀ input world s,
    let script := NativeRegistry.callMixed entry
      (track.channel.callArguments input track.appendInput) track.channel.ascii
    (script.answer world s).ok = true ∧ script.calls world s = []

theorem Obliges.congr {W : Type} {natives : SeqNatives W} {a b : Track} (h : a.SameProgram b)
    (ha : Obliges natives a) : Obliges natives b := by
  simp only [Obliges, NoobProgramChannel.callArguments, ← h.functionId, ← h.arguments, ← h.ascii,
    ← h.appendInput] at ha ⊢
  exact ha

namespace SequenceRunner

open Proc

variable {W : Type} {natives : SeqNatives W} {perform : SeqOp → W × Sequencer → W × Sequencer}
  {now : Nat}

/-- The loop of a tick has served `slots` and been called back by no one. -/
structure Served (now : Nat) (slots : List Slot) (t t' : Tick W) : Prop where
  stepped : ∀ slot ∈ slots,
    Track.Stepped now t.seq.repeating (t.seq.tracks slot) (t'.seq.tracks slot)
  other : ∀ slot, slot ∉ slots → t'.seq.tracks slot = t.seq.tracks slot
  repeating : t'.seq.repeating = t.seq.repeating
  running : t'.seq.running = t.seq.running
  calls : t'.calls = t.calls ++ (slots.filter fun slot ↦ (t.seq.tracks slot).due now).map
    fun slot ↦ (t.seq.tracks slot).callAt slot (t.seq.tracks slot).position
  invoked : t'.invoked = true ↔
    t.invoked = true ∨ ∃ slot ∈ slots, (t.seq.tracks slot).due now = true
  event : t'.event = t.event

theorem Served.refl (t : Tick W) : Served now [] t t :=
  ⟨nofun, fun _ _ ↦ rfl, rfl, rfl, (append_nil _).symm, by simp, rfl⟩

variable {slot : Slot} {slots : List Slot} {t : Tick W}

theorem Served.cons {t' t'' : Tick W} (h : Served now [slot] t t') (h' : Served now slots t' t'')
    (hslot : slot ∉ slots) : Served now (slot :: slots) t t'' := by
  have hsame : ∀ i ∈ slots, t'.seq.tracks i = t.seq.tracks i := fun i hi ↦
    h.other i fun hmem ↦ hslot (mem_singleton.mp hmem ▸ hi)
  refine ⟨fun i hi ↦ ?_, fun i hi ↦ ?_, h'.repeating.trans h.repeating,
    h'.running.trans h.running, ?_, ?_, h'.event.trans h.event⟩
  · rcases mem_cons.mp hi with rfl | hi
    · rw [h'.other i hslot]
      exact h.stepped i (mem_singleton_self i)
    · rw [← hsame i hi, ← h.repeating]
      exact h'.stepped i hi
  · rw [mem_cons, not_or] at hi
    rw [h'.other i hi.2, h.other i fun hmem ↦ hi.1 (mem_singleton.mp hmem)]
  · have hfilter : (slots.filter fun i ↦ (t'.seq.tracks i).due now) =
        slots.filter fun i ↦ (t.seq.tracks i).due now :=
      filter_congr fun i hi ↦ by rw [hsame i hi]
    rw [h'.calls, h.calls, hfilter, append_assoc, append_cancel_left_eq]
    have hmap : ((slots.filter fun i ↦ (t.seq.tracks i).due now).map
        fun i ↦ (t'.seq.tracks i).callAt i (t'.seq.tracks i).position) =
        (slots.filter fun i ↦ (t.seq.tracks i).due now).map
          fun i ↦ (t.seq.tracks i).callAt i (t.seq.tracks i).position :=
      map_congr_left fun i hi ↦ by rw [hsame i (mem_filter.mp hi).1]
    rw [hmap, ← map_append, ← filter_append, singleton_append]
  · have hany : (∃ i ∈ slots, (t'.seq.tracks i).due now = true) ↔
        ∃ i ∈ slots, (t.seq.tracks i).due now = true :=
      exists_congr fun i ↦ and_congr_right fun hi ↦ by rw [hsame i hi]
    rw [h'.invoked, h.invoked, hany]
    simp [or_assoc]

theorem updateChannel_updateChannel (s : Sequencer) (slot : Slot)
    (f g : NoobProgramChannel → NoobProgramChannel) :
    (s.updateChannel slot f).updateChannel slot g =
      s.setTrack slot { s.tracks slot with channel := g (f (s.tracks slot).channel) } := by
  simp [Sequencer.updateChannel, Sequencer.setTrack]

/-- An obliging call: the function's answer is noted on the channel, and that is all. -/
theorem invoke_obliges (hob : Obliges natives (t.seq.tracks slot)) :
    ∃ channel : NoobProgramChannel, channel.lastOk = true ∧
      (t.seq.tracks slot).SameProgram { t.seq.tracks slot with channel } ∧
      ∃ world, invoke natives perform slot t =
        { t with
          world
          seq := t.seq.setTrack slot { t.seq.tracks slot with channel }
          invoked := true
          calls := t.calls ++ [(t.seq.tracks slot).callAt slot (t.seq.tracks slot).position] } := by
  obtain ⟨entry, hfind, hcall⟩ := hob
  obtain ⟨hok, hcalls⟩ := hcall (t.seq.tracks slot).input t.world
    (t.seq.updateChannel slot fun c ↦ { c with busy := true })
  rw [invoke]
  dsimp only
  rw [hfind]
  dsimp only
  rw [Script.exec_of_no_calls hcalls, updateChannel_updateChannel]
  exact ⟨NoobProgramChannel.finished { (t.seq.tracks slot).channel with busy := true } _, hok,
    ⟨rfl, rfl, rfl, rfl, rfl, rfl, rfl, rfl⟩, _, rfl⟩

/-- The bookkeeping after such a call takes the track one step on. -/
theorem stepped_advance {a : Track} {repeating : Bool} (hdue : a.due now = true)
    {channel : NoobProgramChannel} (hsame : a.SameProgram { a with channel }) :
    a.Stepped now repeating ({ a with channel : Track }.advance now repeating) := by
  rw [Track.Stepped, if_pos hdue]
  refine ⟨hsame.trans (Track.sameProgram_advance _ now repeating), ?_⟩
  simp only [Track.advance]
  split
  · exact ⟨rfl, rfl, rfl⟩
  · split <;> exact ⟨rfl, rfl, rfl⟩

theorem service_served
    (hob : (t.seq.tracks slot).active = true → Obliges natives (t.seq.tracks slot)) :
    Wp (service natives perform now slot) (fun _ t' ↦ Served now [slot] t t') (fun _ ↦ False)
      t := by
  refine wp_bind (wp_read (wp_ite (fun hidle ↦ wp_pure ?_) fun hdue ↦ ?_))
  · have hnot : (t.seq.tracks slot).due now = false := by
      rcases hidle with h | h <;> simp [Track.due, h]
    refine ⟨fun i hi ↦ ?_, fun _ _ ↦ rfl, rfl, rfl, ?_, ?_, rfl⟩
    · obtain rfl := mem_singleton.mp hi
      rw [Track.Stepped, if_neg (by simp [hnot])]
    · simp [hnot]
    · simp [hnot]
  · rw [not_or, Bool.not_eq_false, Bool.not_eq_true] at hdue
    have hdue' : (t.seq.tracks slot).due now = true := by simp [Track.due, hdue]
    obtain ⟨channel, hok, hsame, world, hinvoke⟩ :=
      invoke_obliges (hob hdue.1)
    refine wp_bind (wp_change (wp_bind (wp_read (wp_ite (fun hfail ↦ ?_) fun _ ↦ wp_change ?_))))
    · rw [hinvoke] at hfail
      simp [hok] at hfail
    rw [hinvoke]
    refine ⟨fun i hi ↦ ?_, fun i hi ↦ ?_, rfl, rfl, ?_, ?_, rfl⟩
    · obtain rfl := mem_singleton.mp hi
      simpa using stepped_advance hdue' hsame
    · have hne : i ≠ slot := fun h ↦ hi (mem_singleton.mpr h)
      simp [hne]
    · simp [hdue']
    · simp [hdue']

theorem services_served {slots : List Slot} (hnodup : slots.Nodup) {t : Tick W}
    (hob : ∀ slot ∈ slots, (t.seq.tracks slot).active = true →
      Obliges natives (t.seq.tracks slot)) :
    Wp (services natives perform now slots) (fun _ t' ↦ Served now slots t t') (fun _ ↦ False)
      t := by
  induction slots generalizing t with
  | nil => exact wp_pure (Served.refl t)
  | cons slot slots ih =>
    obtain ⟨hslot, hnodup⟩ := nodup_cons.mp hnodup
    refine wp_bind ((service_served (hob slot (mem_cons_self ..))).mono (fun _ t' h ↦ ?_)
      fun _ h ↦ h)
    refine (ih hnodup fun i hi ↦ ?_).mono (fun _ t'' h' ↦ h.cons h' hslot) fun _ h ↦ h
    rw [h.other i fun hmem ↦ hslot (mem_singleton.mp hmem ▸ hi)]
    exact hob i (mem_cons_of_mem _ hi)

/-- **A tick of a running sequence** whose functions all oblige: every track that is due takes one
step and no other changes, and the sequence is over when a call was made and no track is left. -/
structure Ticked (now : Nat) (s : Sequencer) (t : Tick W) : Prop where
  stepped : ∀ slot, Track.Stepped now s.repeating (s.tracks slot) (t.seq.tracks slot)
  repeating : t.seq.repeating = s.repeating
  calls : t.calls = ((List.finRange 4).filter fun slot ↦ (s.tracks slot).due now).map
    fun slot ↦ (s.tracks slot).callAt slot (s.tracks slot).position
  event : t.event =
    if (∃ slot, (s.tracks slot).due now = true) ∧ ¬ t.seq.Playing then some completeEvent else none

theorem ticked (perform : SeqOp → W × Sequencer → W × Sequencer) (now : Nat)
    {p : W × Sequencer} (hrun : p.2.running = true)
    (hob : ∀ slot, (p.2.tracks slot).active = true → Obliges natives (p.2.tracks slot)) :
    Ticked now p.2 (tick natives perform now p) := by
  rw [tick, if_neg (by simp [hrun])]
  refine Wp.final (R := fun t ↦ Ticked now p.2 t) (wp_bind ?_)
  refine (services_served (nodup_finRange 4) fun slot _ ↦ hob slot).mono (fun _ t h ↦ ?_)
    fun _ h ↦ h.elim
  refine wp_change ?_
  have hstep : ∀ slot, Track.Stepped now p.2.repeating (p.2.tracks slot) (t.seq.tracks slot) :=
    fun slot ↦ h.stepped slot (mem_finRange slot)
  have hinvoked : t.invoked = true ↔ ∃ slot, (p.2.tracks slot).due now = true := by
    simpa using h.invoked
  have hcond : (t.invoked = true ∧ t.seq.activeCount = 0) ↔
      (∃ slot, (p.2.tracks slot).due now = true) ∧ ¬ t.seq.Playing := by
    rw [hinvoked, Sequencer.activeCount_eq_zero]
  rw [finish]
  by_cases hend : t.invoked = true ∧ t.seq.activeCount = 0
  · rw [if_pos hend]
    exact ⟨hstep, h.repeating, h.calls, (if_pos (hcond.mp hend)).symm⟩
  · rw [if_neg hend]
    exact ⟨hstep, h.repeating, h.calls, h.event.trans (if_neg fun h' ↦ hend (hcond.mpr h')).symm⟩

/-- The calls made for one slot while serving some: one, if it is among them and due. -/
theorem filter_calls (hnodup : slots.Nodup) (s : Sequencer) (slot : Slot) :
    ((slots.filter fun i ↦ (s.tracks i).due now).map
      fun i ↦ (s.tracks i).callAt i (s.tracks i).position).filter (fun call ↦ call.slot = slot) =
      if slot ∈ slots ∧ (s.tracks slot).due now = true then
        [(s.tracks slot).callAt slot (s.tracks slot).position] else [] := by
  induction slots with
  | nil => simp
  | cons i slots ih =>
    obtain ⟨hi, hnodup⟩ := nodup_cons.mp hnodup
    have hslot : ((s.tracks i).callAt i (s.tracks i).position).slot = i := rfl
    by_cases heq : i = slot
    · subst heq
      have hrest := ih hnodup
      rw [if_neg fun h ↦ hi h.1] at hrest
      cases hdue : (s.tracks i).due now with
      | false => simp [hdue, hrest]
      | true => simp [hdue, hrest, hslot]
    · cases hdue : (s.tracks i).due now with
      | false => simp [hdue, ih hnodup, Ne.symm heq]
      | true => simp [hdue, ih hnodup, hslot, heq, Ne.symm heq]

theorem Ticked.filter_calls {s : Sequencer} (h : Ticked now s t) (slot : Slot) :
    t.calls.filter (fun call ↦ call.slot = slot) =
      if (s.tracks slot).due now = true then [(s.tracks slot).callAt slot (s.tracks slot).position]
      else [] := by
  rw [h.calls, SequenceRunner.filter_calls (nodup_finRange 4)]
  simp

end SequenceRunner

/-! ## Runs -/

/-- A run of the sequencer: where it is, and what it has done so far. -/
structure Playback (W : Type) where
  world : W
  seq : Sequencer
  /-- The calls made so far and when, oldest first. -/
  log : List (Nat × Invocation) := []
  events : List String := []

namespace Playback

variable {W : Type}

/-- The calls made for one slot. -/
def callsOf (q : Playback W) (slot : Slot) : List (Nat × Invocation) :=
  q.log.filter fun call ↦ call.2.slot = slot

/-- The runtime ticks the sequencer at the true time `time`. -/
def tick (natives : SeqNatives W) (perform : SeqOp → W × Sequencer → W × Sequencer) (time : Nat)
    (q : Playback W) : Playback W :=
  let t := SequenceRunner.tick natives perform (Clock.millis time) (q.world, q.seq)
  { world := t.world
    seq := t.seq
    log := q.log ++ t.calls.map fun call ↦ (time, call)
    events := q.events ++ t.event.toList }

/-- The run after `n` ticks, at the true times `T 0, T 1, …`. -/
def play (natives : SeqNatives W) (perform : SeqOp → W × Sequencer → W × Sequencer)
    (T : Nat → Nat) (q : Playback W) : Nat → Playback W
  | 0 => q
  | n + 1 => (play natives perform T q n).tick natives perform (T n)

end Playback

/-! ## A track is a metronome -/

namespace Track

/-- The calls made by a track that beats at `times`.  The bits go round, and unless the sequence is
repeating they stop at the end of the pattern. -/
def score (track : Track) (repeating : Bool) (slot : Slot) (times : List Nat) :
    List (Nat × Invocation) :=
  (if repeating then times else times.take (track.bitCount - track.position)).mapIdx
    fun j time ↦ (time, track.callAt slot ((track.position + j) % track.bitCount))

/-- The track still has a bit to play after `k` of them. -/
def Plays (track : Track) (repeating : Bool) (k : Nat) : Prop :=
  repeating = true ∨ track.position + k < track.bitCount

variable {track : Track} {repeating : Bool} {slot : Slot} {times : List Nat}

theorem score_nil (track : Track) (repeating : Bool) (slot : Slot) :
    track.score repeating slot [] = [] := by
  simp [score]

theorem score_append (h : track.Plays repeating times.length) (time : Nat) :
    track.score repeating slot (times ++ [time]) = track.score repeating slot times ++
      [(time, track.callAt slot ((track.position + times.length) % track.bitCount))] := by
  cases repeating with
  | true => simp [score]
  | false =>
    have hlen : times.length < track.bitCount - track.position := by
      rcases h with h | h
      · cases h
      · omega
    rw [score, score, if_neg Bool.false_ne_true, if_neg Bool.false_ne_true,
      take_of_length_le (by rw [length_append, length_singleton]; omega),
      take_of_length_le (by omega), mapIdx_concat]

theorem score_append_of_ended (h : ¬ track.Plays repeating times.length) (time : Nat) :
    track.score repeating slot (times ++ [time]) = track.score repeating slot times := by
  rw [Plays, not_or, Bool.not_eq_true, Nat.not_lt] at h
  rw [score, score, h.1, if_neg Bool.false_ne_true, if_neg Bool.false_ne_true,
    take_append_of_le_length (by omega)]

/-- How far a track is after `k` bits, and what one more does. -/
theorem advance_spec (now : Nat) {k : Nat} (hwf : track.Wf) (hplays : track.Plays repeating k)
    {a : Track} (hcount : a.bitCount = track.bitCount) (hactive : a.active = true)
    (hpos : a.position = (track.position + k) % track.bitCount) :
    (track.Plays repeating (k + 1) → (a.advance now repeating).active = true ∧
      (a.advance now repeating).position = (track.position + (k + 1)) % track.bitCount) ∧
    (¬ track.Plays repeating (k + 1) → (a.advance now repeating).active = false) := by
  have hlt : a.position < track.bitCount := hpos ▸ Nat.mod_lt _ hwf.bitCount_pos
  have hsmall : (a.position + 1) % 256 = a.position + 1 :=
    Nat.mod_eq_of_lt (by have := hwf.bitCount_le; omega)
  have hnext : (track.position + (k + 1)) % track.bitCount =
      (a.position + 1) % track.bitCount := by
    rw [hpos, Nat.mod_add_mod, Nat.add_assoc]
  simp only [advance, hsmall, hcount, hnext]
  by_cases hin : a.position + 1 < track.bitCount
  · rw [if_pos hin, Nat.mod_eq_of_lt hin]
    refine ⟨fun _ ↦ ⟨hactive, rfl⟩, fun hend ↦ absurd ?_ hend⟩
    rcases hplays with h | h
    · exact .inl h
    · rw [Nat.mod_eq_of_lt h] at hpos
      exact .inr (by omega)
  · have hround : a.position + 1 = track.bitCount := by omega
    rw [if_neg hin, hround, Nat.mod_self]
    cases repeating with
    | true => exact ⟨fun _ ↦ ⟨hactive, rfl⟩, fun hend ↦ absurd (.inl rfl) hend⟩
    | false =>
      refine ⟨fun h ↦ ?_, fun _ ↦ rfl⟩
      have hk : track.position + k < track.bitCount := hplays.resolve_left Bool.false_ne_true
      have hk' : track.position + (k + 1) < track.bitCount := h.resolve_left Bool.false_ne_true
      rw [Nat.mod_eq_of_lt hk] at hpos
      omega

end Track

/-- A track that started as `start` has so far followed the metronome `m`, and `log` are its
calls. -/
structure Follows (start : Track) (repeating : Bool) (slot : Slot) (m : Metronome) (track : Track)
    (log : List (Nat × Invocation)) : Prop where
  same : start.SameProgram track
  /-- It called its function at every beat. -/
  calls : log = start.score repeating slot m.beats
  /-- While it plays, the next bit is due with the next beat. -/
  playing : start.Plays repeating m.beats.length → track.active = true ∧
    track.position = (start.position + m.beats.length) % start.bitCount ∧
    track.nextAt = Clock.millis m.due
  /-- After the last bit it is silent. -/
  ended : ¬ start.Plays repeating m.beats.length → track.active = false

/-- **One tick is one poll of the metronome**, if the deadline is within reach of the clock. -/
theorem Follows.step {start track track' : Track} {repeating : Bool} {slot : Slot} {m : Metronome}
    {log : List (Nat × Invocation)} {time : Nat} (hwf : start.Wf)
    (h : Follows start repeating slot m track log) (hlate : time < m.due + 2 ^ 31)
    (hearly : m.due ≤ time + 2 ^ 31) (hstep : track.Stepped (Clock.millis time) repeating track') :
    Follows start repeating slot (m.poll start.intervalMs time) track'
      (log ++ if track.due (Clock.millis time) = true then
        [(time, track.callAt slot track.position)] else []) := by
  by_cases hplays : start.Plays repeating m.beats.length
  · obtain ⟨hactive, hpos, hnext⟩ := h.playing hplays
    have hdue : track.due (Clock.millis time) = !decide (time < m.due) := by
      rw [Track.due, hactive, hnext, Clock.before_millis hlate hearly, Bool.true_and]
    rcases Nat.lt_or_ge time m.due with hlt | hle
    · rw [decide_eq_true hlt, Bool.not_true] at hdue
      rw [Track.Stepped, if_neg (by simp [hdue])] at hstep
      rw [Metronome.poll_of_lt hlt, if_neg (by simp [hdue]), append_nil, hstep]
      exact h
    · rw [decide_eq_false (Nat.not_lt.mpr hle), Bool.not_false] at hdue
      rw [Track.Stepped, if_pos hdue] at hstep
      obtain ⟨hsame, hactive', hpos', hnext'⟩ := hstep
      obtain ⟨hplay, hend⟩ := Track.advance_spec (Clock.millis time) hwf hplays
        h.same.bitCount.symm hactive hpos
      rw [Metronome.poll_of_le hle, if_pos hdue]
      refine ⟨h.same.trans hsame, ?_, fun hp ↦ ?_, fun hp ↦ ?_⟩
      · rw [h.calls, Track.score_append hplays, h.same.callAt, hpos]
      · rw [length_append, length_singleton] at hp ⊢
        obtain ⟨ha, hp'⟩ := hplay hp
        refine ⟨hactive'.trans ha, hpos'.trans hp', ?_⟩
        rw [hnext', Track.advance_nextAt, ← h.same.intervalMs, Clock.millis_add]
      · rw [length_append, length_singleton] at hp
        exact hactive'.trans (hend hp)
  · have hidle := h.ended hplays
    have hdue : track.due (Clock.millis time) = false := by rw [Track.due, hidle, Bool.false_and]
    rw [Track.Stepped, if_neg (by simp [hdue])] at hstep
    rw [if_neg (by simp [hdue]), append_nil, hstep]
    rcases Nat.lt_or_ge time m.due with hlt | hle
    · rw [Metronome.poll_of_lt hlt]
      exact h
    have hended : ¬ start.Plays repeating (m.beats ++ [time]).length := by
      rw [length_append, length_singleton]
      exact fun hp ↦ hplays (hp.imp_right fun hlt ↦ by omega)
    rw [Metronome.poll_of_le hle]
    exact ⟨h.same, h.calls.trans (Track.score_append_of_ended hplays time).symm,
      fun hp ↦ absurd hp hended, fun _ ↦ hidle⟩

/-! ## All tracks together -/

namespace Playback

variable {W : Type} {natives : SeqNatives W} {perform : SeqOp → W × Sequencer → W × Sequencer}

theorem filter_timed (calls : List Invocation) (time : Nat) (slot : Slot) :
    (calls.map fun call ↦ (time, call)).filter (fun call ↦ call.2.slot = slot) =
      (calls.filter fun call ↦ call.slot = slot).map fun call ↦ (time, call) := by
  rw [filter_map]
  rfl

theorem callsOf_tick (q : Playback W) (time : Nat) (slot : Slot) :
    (q.tick natives perform time).callsOf slot = q.callsOf slot ++
      ((SequenceRunner.tick natives perform (Clock.millis time) (q.world, q.seq)).calls.filter
        fun call ↦ call.slot = slot).map fun call ↦ (time, call) := by
  rw [callsOf, callsOf, ← filter_timed, ← filter_append]
  rfl

/-- What a tick does when the functions of all active tracks oblige. -/
theorem tick_spec (perform : SeqOp → W × Sequencer → W × Sequencer) {q : Playback W}
    (hok : q.seq.Ok)
    (hob : ∀ slot, (q.seq.tracks slot).active = true → Obliges natives (q.seq.tracks slot))
    (time : Nat) :
    (∀ slot, Track.Stepped (Clock.millis time) q.seq.repeating (q.seq.tracks slot)
        ((q.tick natives perform time).seq.tracks slot) ∧
      (q.tick natives perform time).callsOf slot = q.callsOf slot ++
        if (q.seq.tracks slot).due (Clock.millis time) = true then
          [(time, (q.seq.tracks slot).callAt slot (q.seq.tracks slot).position)] else []) ∧
    (q.tick natives perform time).seq.repeating = q.seq.repeating ∧
    (q.tick natives perform time).events = q.events ++
      if q.seq.Playing ∧ ¬ (q.tick natives perform time).seq.Playing then
        [SequenceRunner.completeEvent] else [] := by
  cases hrun : q.seq.running with
  | false =>
    have hplay : ¬ q.seq.Playing := fun h ↦
      absurd (hrun.symm.trans (hok.running.mpr h)) Bool.false_ne_true
    have hidle : SequenceRunner.tick natives perform (Clock.millis time) (q.world, q.seq) =
        { world := q.world, seq := q.seq } := if_pos hrun
    refine ⟨fun slot ↦ ?_, ?_, ?_⟩
    · have hdue : (q.seq.tracks slot).due (Clock.millis time) = false := by
        rw [Track.due, hok.idle hrun slot, Bool.false_and]
      rw [callsOf_tick, Track.Stepped, tick, hidle, hdue]
      simp
    · rw [tick, hidle]
    · rw [if_neg fun h ↦ hplay h.1, tick, hidle]
      simp
  | true =>
    have ht := SequenceRunner.ticked perform (Clock.millis time) (p := (q.world, q.seq)) hrun hob
    refine ⟨fun slot ↦ ⟨ht.stepped slot, ?_⟩, ht.repeating, ?_⟩
    · rw [callsOf_tick, ht.filter_calls]
      split <;> rfl
    have hevent : (q.tick natives perform time).events = q.events ++
        (SequenceRunner.tick natives perform (Clock.millis time) (q.world, q.seq)).event.toList :=
      rfl
    rw [hevent, ht.event]
    have hplay := hok.running.mp hrun
    by_cases hplay' : (q.tick natives perform time).seq.Playing
    · rw [if_neg fun h ↦ h.2 hplay', if_neg fun h ↦ h.2 hplay']
      rfl
    -- some track has stopped, so it was served
    have hdue : ∃ slot, (q.seq.tracks slot).due (Clock.millis time) = true := by
      by_contra hnone
      obtain ⟨slot, hslot⟩ := hplay
      have hstep := ht.stepped slot
      rw [Track.Stepped, if_neg fun h ↦ hnone ⟨slot, h⟩] at hstep
      exact hplay' ⟨slot, by rw [← hslot]; exact congrArg Track.active hstep⟩
    rw [if_pos ⟨hdue, hplay'⟩, if_pos ⟨hplay, hplay'⟩]
    rfl

end Playback

/-- The whole sequencer, started as `start`, has so far followed the metronomes `m`. -/
structure Performs {W : Type} (start : Sequencer) (m : Slot → Metronome) (q : Playback W) :
    Prop where
  ok : q.seq.Ok
  repeating : q.seq.repeating = start.repeating
  /-- Every track that was started follows its metronome. -/
  follows : ∀ slot, (start.tracks slot).active = true →
    Follows (start.tracks slot) start.repeating slot (m slot) (q.seq.tracks slot) (q.callsOf slot)
  /-- The others are silent. -/
  silent : ∀ slot, (start.tracks slot).active = false →
    (q.seq.tracks slot).active = false ∧ q.callsOf slot = []

namespace Performs

variable {W : Type} {natives : SeqNatives W} {perform : SeqOp → W × Sequencer → W × Sequencer}
  {start : Sequencer} {m : Slot → Metronome} {q : Playback W}

/-- Something is being played as long as some track has a bit left. -/
theorem playing_iff (h : Performs start m q) : q.seq.Playing ↔
    ∃ slot, (start.tracks slot).active = true ∧
      (start.tracks slot).Plays start.repeating (m slot).beats.length := by
  constructor
  · rintro ⟨slot, hslot⟩
    cases hactive : (start.tracks slot).active with
    | false => exact absurd ((h.silent slot hactive).1.symm.trans hslot) Bool.false_ne_true
    | true =>
      refine ⟨slot, hactive, ?_⟩
      by_contra hend
      exact absurd (((h.follows slot hactive).ended hend).symm.trans hslot) Bool.false_ne_true
  · rintro ⟨slot, hactive, hplays⟩
    exact ⟨slot, ((h.follows slot hactive).playing hplays).1⟩

/-- The functions of the tracks in the starting state oblige. -/
theorem obliges (h : Performs start m q)
    (hob : ∀ slot, (start.tracks slot).active = true → Obliges natives (start.tracks slot))
    (slot : Slot) (hslot : (q.seq.tracks slot).active = true) :
    Obliges natives (q.seq.tracks slot) := by
  cases hactive : (start.tracks slot).active with
  | false => exact absurd ((h.silent slot hactive).1.symm.trans hslot) Bool.false_ne_true
  | true => exact (hob slot hactive).congr (h.follows slot hactive).same

theorem tick (hperform : ∀ op q, q.2.Ok → (perform op q).2.Ok)
    (hwf : ∀ slot, (start.tracks slot).active = true → (start.tracks slot).Wf)
    (hob : ∀ slot, (start.tracks slot).active = true → Obliges natives (start.tracks slot))
    (h : Performs start m q) {time : Nat}
    (hnear : ∀ slot, (start.tracks slot).active = true →
      time < (m slot).due + 2 ^ 31 ∧ (m slot).due ≤ time + 2 ^ 31) :
    Performs start (fun slot ↦ (m slot).poll (start.tracks slot).intervalMs time)
      (q.tick natives perform time) := by
  obtain ⟨hslots, hrepeating, -⟩ := Playback.tick_spec perform h.ok (h.obliges hob) time
  refine ⟨SequenceRunner.tick_ok hperform h.ok _, hrepeating.trans h.repeating,
    fun slot hactive ↦ ?_, fun slot hactive ↦ ?_⟩
  · obtain ⟨hstep, hcalls⟩ := hslots slot
    rw [h.repeating] at hstep
    rw [hcalls]
    exact (h.follows slot hactive).step (hwf slot hactive) (hnear slot hactive).1
      (hnear slot hactive).2 hstep
  · obtain ⟨hstep, hcalls⟩ := hslots slot
    obtain ⟨hidle, hnone⟩ := h.silent slot hactive
    have hdue : (q.seq.tracks slot).due (Clock.millis time) = false := by
      rw [Track.due, hidle, Bool.false_and]
    rw [Track.Stepped, if_neg (by simp [hdue])] at hstep
    rw [hcalls, hnone, hstep, if_neg (by simp [hdue])]
    exact ⟨hidle, rfl⟩

end Performs

/-- Tick times that go on for ever, never turn back and never leave a gap of `2 ^ 30` milliseconds;
the first follows a moment `since` in the same way. -/
structure Schedule (since : Nat) (T : Nat → Nat) : Prop where
  since_le : since ≤ T 0
  since_gap : T 0 < since + 2 ^ 30
  mono : Monotone T
  gap : ∀ n, T (n + 1) < T n + 2 ^ 30
  unbounded : ∀ t, ∃ n, t ≤ T n

section Run

variable {W : Type} {natives : SeqNatives W} {perform : SeqOp → W × Sequencer → W × Sequencer}
  {start : Sequencer} {m : Slot → Metronome} {q : Playback W} {since : Nat} {T : Nat → Nat}

/-- What is assumed of a run: its functions oblige, and its metronomes are near the first tick. -/
structure Prepared (natives : SeqNatives W) (perform : SeqOp → W × Sequencer → W × Sequencer)
    (start : Sequencer) (m : Slot → Metronome) (since : Nat) (q : Playback W) : Prop where
  perform_ok : ∀ op q, q.2.Ok → (perform op q).2.Ok
  wf : ∀ slot, (start.tracks slot).active = true → (start.tracks slot).Wf
  obliges : ∀ slot, (start.tracks slot).active = true → Obliges natives (start.tracks slot)
  since_le : ∀ slot, (start.tracks slot).active = true → since ≤ (m slot).due
  le_since : ∀ slot, (start.tracks slot).active = true → (m slot).due ≤ since + 2 ^ 30
  steady : ∀ slot, (start.tracks slot).active = true →
    (m slot).Steady (start.tracks slot).intervalMs
  performs : Performs start m q

/-- The metronomes after `n` ticks. -/
def metronomes (start : Sequencer) (T : Nat → Nat) (m : Slot → Metronome) (n : Nat) (slot : Slot) :
    Metronome :=
  (m slot).run (start.tracks slot).intervalMs T n

theorem Track.Plays.mono {track : Track} {repeating : Bool} {k l : Nat} (h : k ≤ l)
    (hl : track.Plays repeating l) : track.Plays repeating k :=
  hl.imp_right fun hlt ↦ by omega

theorem Prepared.spaced (h : Prepared natives perform start m since q) {slot : Slot}
    (hslot : (start.tracks slot).active = true) (T : Nat → Nat) (n : Nat) :
    Metronome.Spaced (start.tracks slot).intervalMs (metronomes start T m n slot).beats :=
  ((h.steady slot hslot).run T n).spaced

variable (h : Prepared natives perform start m since q) (hT : Schedule since T)

include h hT

/-- **A run follows its metronomes from beginning to end.** -/
theorem Prepared.play (n : Nat) :
    Performs start (metronomes start T m n) (q.play natives perform T n) := by
  induction n with
  | zero => exact h.performs
  | succ n ih =>
    refine ih.tick h.perform_ok h.wf h.obliges fun slot hactive ↦ ?_
    have hwf := h.wf slot hactive
    have h1 := h.since_le slot hactive
    have h2 := h.le_since slot hactive
    have h3 := hT.since_le
    have h4 := hT.since_gap
    have hlate := Metronome.lt_run_due (d := (start.tracks slot).intervalMs) (m := m slot) hT.gap
      (by omega) n
    have hearly := Metronome.due_le_run (d := (start.tracks slot).intervalMs) (m := m slot) (2 ^ 30)
      hT.mono (by have := hwf.interval_le; omega) (by omega) n
    exact ⟨by rw [metronomes]; omega, by rw [metronomes]; omega⟩

theorem Prepared.playing_mono {n k : Nat} (hle : n ≤ k)
    (hplay : (q.play natives perform T k).seq.Playing) :
    (q.play natives perform T n).seq.Playing := by
  obtain ⟨slot, hactive, hplays⟩ := (h.play hT k).playing_iff.mp hplay
  exact (h.play hT n).playing_iff.mpr
    ⟨slot, hactive, hplays.mono (Metronome.length_beats_mono hle)⟩

/-- The one event of a run comes when the last track falls silent. -/
theorem Prepared.events (n : Nat) :
    (q.play natives perform T n).events = q.events ++
      if q.seq.Playing ∧ ¬ (q.play natives perform T n).seq.Playing then
        [SequenceRunner.completeEvent] else [] := by
  induction n with
  | zero =>
    rw [if_neg fun hboth ↦ hboth.2 hboth.1, append_nil]
    rfl
  | succ n ih =>
    have hn := h.play hT n
    have hstep := (Playback.tick_spec perform hn.ok (hn.obliges h.obliges) (T n)).2.2
    rw [Playback.play, hstep, ih, append_assoc, append_cancel_left_eq]
    by_cases hplay : (q.play natives perform T n).seq.Playing
    · have hplay0 : q.seq.Playing := h.playing_mono hT (Nat.zero_le n) hplay
      rw [if_neg fun hboth ↦ hboth.2 hplay, nil_append]
      simp only [hplay, hplay0, true_and]
    · have hplay' : ¬ ((q.play natives perform T n).tick natives perform (T n)).seq.Playing :=
        fun h' ↦ hplay (h.playing_mono hT (Nat.le_succ n) h')
      simp only [hplay, hplay', false_and, if_false, append_nil]

theorem Prepared.playing_of_repeating (hrepeating : start.repeating = true) (hplay : q.seq.Playing)
    (n : Nat) : (q.play natives perform T n).seq.Playing := by
  obtain ⟨slot, hactive, -⟩ := h.performs.playing_iff.mp hplay
  exact (h.play hT n).playing_iff.mpr ⟨slot, hactive, .inl hrepeating⟩

theorem Prepared.exists_not_playing (hrepeating : start.repeating = false) :
    ∃ n, ¬ (q.play natives perform T n).seq.Playing := by
  -- every metronome has beaten often enough after some tick, and there are only four of them
  have hslot : ∀ slot, ∃ n, (start.tracks slot).bitCount ≤
      (metronomes start T m n slot).beats.length := fun slot ↦
    Metronome.exists_le_length_beats hT.mono hT.unbounded _
  choose last hlast using hslot
  refine ⟨Finset.univ.sup last, fun hplay ↦ ?_⟩
  obtain ⟨slot, -, hplays⟩ := (h.play hT _).playing_iff.mp hplay
  have hle : last slot ≤ Finset.univ.sup last := Finset.le_sup (Finset.mem_univ slot)
  have hmono := Metronome.length_beats_mono (d := (start.tracks slot).intervalMs) (T := T)
    (m := m slot) hle
  have hbits := hlast slot
  have hlt := (hplays.mono hmono).resolve_left (by simp [hrepeating])
  rw [metronomes] at hbits
  omega

/-- **A finite sequence ends once**, with a single event. -/
theorem Prepared.ends (hrepeating : start.repeating = false) (hplay : q.seq.Playing) :
    ∃ N, (∀ n ≤ N, (q.play natives perform T n).events = q.events) ∧ ∀ n, N < n →
      (q.play natives perform T n).events = q.events ++ [SequenceRunner.completeEvent] ∧
      ¬ (q.play natives perform T n).seq.Playing := by
  classical
  have hex := h.exists_not_playing hT hrepeating
  have hpos : Nat.find hex ≠ 0 := fun h0 ↦ Nat.find_spec hex (h0 ▸ hplay)
  refine ⟨Nat.find hex - 1, fun n hn ↦ ?_, fun n hn ↦ ?_⟩
  · have hplay' : (q.play natives perform T n).seq.Playing := by
      by_contra hnot
      have := Nat.find_min' hex hnot
      omega
    rw [h.events hT, if_neg fun hboth ↦ hboth.2 hplay', append_nil]
  · have hnot : ¬ (q.play natives perform T n).seq.Playing := fun hplay' ↦
      Nat.find_spec hex (h.playing_mono hT (by omega) hplay')
    exact ⟨by rw [h.events hT, if_pos ⟨hplay, hnot⟩], hnot⟩

end Run

/-! ## Whole sequences -/

/-- The calls are the first `k` of the track: its bits from the first one on, round and round, and
every call at least an interval after the one before. -/
structure Track.Played (track : Track) (slot : Slot) (k : Nat) (calls : List (Nat × Invocation)) :
    Prop where
  in_order : calls.map Prod.snd =
    (List.range k).map fun j ↦ track.callAt slot (j % track.bitCount)
  spaced : Metronome.Spaced track.intervalMs (calls.map Prod.fst)

/-- A run that plays every configured track through once, and no other, and then ends with a single
event and nothing busy. -/
def PlaysOnce {W : Type} (tracks : Slot → Track) (run : Nat → Playback W) : Prop :=
  ∃ N, (∀ n ≤ N, (run n).events = []) ∧ ∀ n, N < n →
    (run n).events = [SequenceRunner.completeEvent] ∧
    (∀ slot, (run n).seq.channelBusy slot = false) ∧
    ∀ slot, if (tracks slot).configured = true then
        (tracks slot).Played slot (tracks slot).bitCount ((run n).callsOf slot)
      else (run n).callsOf slot = []

/-- A run that plays every configured track for ever, and no other, without an event. -/
def PlaysForever {W : Type} (tracks : Slot → Track) (run : Nat → Playback W) : Prop :=
  (∀ n, (run n).events = []) ∧
  ∀ slot, if (tracks slot).configured = true then
      (∀ n, ∃ k, (tracks slot).Played slot k ((run n).callsOf slot)) ∧
        ∀ k, ∃ n, k ≤ ((run n).callsOf slot).length
    else ∀ n, (run n).callsOf slot = []

theorem Track.fst_score (track : Track) (slot : Slot) (times : List Nat) :
    (track.score true slot times).map Prod.fst = times :=
  ext_getElem (by simp [score]) fun i h1 h2 ↦ by simp [score]

/-- The calls of a track that starts at its first bit. -/
theorem Track.played_score {track : Track} (hpos : track.position = 0) (repeating : Bool)
    (slot : Slot) {times : List Nat} (htimes : Metronome.Spaced track.intervalMs times) :
    track.Played slot (if repeating then times.length else min track.bitCount times.length)
      (track.score repeating slot times) := by
  cases repeating with
  | true =>
    refine ⟨ext_getElem (by simp [score]) fun i h1 h2 ↦ by simp [score, hpos], ?_⟩
    rwa [fst_score]
  | false =>
    refine ⟨ext_getElem (by simp [score, hpos]) fun i h1 h2 ↦ by simp [score, hpos], ?_⟩
    have hfst : (track.score false slot times).map Prod.fst = times.take track.bitCount :=
      ext_getElem (by simp [score, hpos]) fun i h1 h2 ↦ by simp [score]
    rw [hfst]
    exact htimes.take _

section Whole

variable {W : Type} {natives : SeqNatives W} {perform : SeqOp → W × Sequencer → W × Sequencer}
  {start : Sequencer} {m : Slot → Metronome} {q : Playback W} {since : Nat} {T : Nat → Nat}

theorem Prepared.playsOnce (h : Prepared natives perform start m since q) (hT : Schedule since T)
    (hrepeating : start.repeating = false) (hplay : q.seq.Playing) (hevents : q.events = [])
    (hactive : ∀ slot, (start.tracks slot).active = (start.tracks slot).configured)
    (hpos : ∀ slot, (start.tracks slot).active = true → (start.tracks slot).position = 0) :
    PlaysOnce start.tracks (q.play natives perform T) := by
  obtain ⟨N, hbefore, hafter⟩ := h.ends hT hrepeating hplay
  rw [hevents] at hbefore hafter
  refine ⟨N, hbefore, fun n hn ↦ ?_⟩
  obtain ⟨hend, hsilent⟩ := hafter n hn
  have hrun := h.play hT n
  refine ⟨hend, fun slot ↦ ?_, fun slot ↦ ?_⟩
  · rw [hrun.ok.busy, ← Bool.not_eq_true]
    exact fun hslot ↦ hsilent ⟨slot, hslot⟩
  split
  · rename_i hconf
    have hslot : (start.tracks slot).active = true := (hactive slot).trans hconf
    have hplayed := Track.played_score (hpos slot hslot) false slot (h.spaced hslot T n)
    have hbits : ¬ (start.tracks slot).Plays false (metronomes start T m n slot).beats.length :=
      fun hplays ↦ hsilent (hrun.playing_iff.mpr ⟨slot, hslot, by rwa [hrepeating]⟩)
    rw [Track.Plays, hpos slot hslot, Nat.zero_add, not_or, Nat.not_lt] at hbits
    rw [(hrun.follows slot hslot).calls, hrepeating]
    rw [if_neg Bool.false_ne_true, Nat.min_eq_left hbits.2] at hplayed
    exact hplayed
  · rename_i hconf
    exact (hrun.silent slot ((hactive slot).trans (Bool.not_eq_true _ ▸ hconf))).2

theorem Prepared.playsForever (h : Prepared natives perform start m since q)
    (hT : Schedule since T) (hrepeating : start.repeating = true) (hplay : q.seq.Playing)
    (hevents : q.events = [])
    (hactive : ∀ slot, (start.tracks slot).active = (start.tracks slot).configured)
    (hplayed : ∀ slot times, (start.tracks slot).active = true →
      Metronome.Spaced (start.tracks slot).intervalMs times →
      (start.tracks slot).Played slot times.length ((start.tracks slot).score true slot times)) :
    PlaysForever start.tracks (q.play natives perform T) := by
  refine ⟨fun n ↦ ?_, fun slot ↦ ?_⟩
  · rw [h.events hT, hevents,
      if_neg fun hboth ↦ hboth.2 (h.playing_of_repeating hT hrepeating hplay n)]
    rfl
  split
  · rename_i hconf
    have hslot : (start.tracks slot).active = true := (hactive slot).trans hconf
    have hcalls : ∀ n, (q.play natives perform T n).callsOf slot =
        (start.tracks slot).score true slot (metronomes start T m n slot).beats := by
      intro n
      rw [((h.play hT n).follows slot hslot).calls, hrepeating]
    refine ⟨fun n ↦ ⟨(metronomes start T m n slot).beats.length, ?_⟩, fun k ↦ ?_⟩
    · rw [hcalls]
      exact hplayed slot _ hslot (h.spaced hslot T n)
    obtain ⟨n, hn⟩ := Metronome.exists_le_length_beats (d := (start.tracks slot).intervalMs)
      (m := m slot) hT.mono hT.unbounded k
    refine ⟨n, ?_⟩
    rw [hcalls, Track.score, if_pos rfl, length_mapIdx]
    exact hn
  · rename_i hconf
    have hsilent := (hactive slot).trans (Bool.not_eq_true _ ▸ hconf)
    exact fun n ↦ ((h.play hT n).silent slot hsilent).2

/-- A sequence that has just been started is ready to be played. -/
theorem prepared_started {s : Sequencer} (hs : s.Ok)
    (hconf : ∃ slot, (s.tracks slot).configured = true)
    (hob : ∀ slot, (s.tracks slot).configured = true → Obliges natives (s.tracks slot))
    (depth : Nat) (repeating : Bool) (since : Nat) (world : W) :
    Prepared natives (SeqOp.perform natives depth) (s.started repeating (Clock.millis since))
      (fun _ ↦ ⟨since, []⟩) since ⟨world, s.started repeating (Clock.millis since), [], []⟩ where
  perform_ok := fun op _ ↦ SeqOp.perform_ok natives depth op
  wf := fun slot hslot ↦ ((hs.tracks slot).wf hslot).congr
  obliges := fun slot hslot ↦ (hob slot hslot).congr ⟨rfl, rfl, rfl, rfl, rfl, rfl, rfl, rfl⟩
  since_le := fun _ _ ↦ Nat.le_refl _
  le_since := fun _ _ ↦ Nat.le_add_right _ _
  steady := fun _ _ ↦ Metronome.steady_new since
  performs :=
    { ok := hs.started hconf repeating _
      repeating := rfl
      follows := fun slot hslot ↦
        { same := Track.SameProgram.refl _
          calls := (Track.score_nil ..).symm
          playing := fun _ ↦ ⟨hslot, (Nat.zero_mod _).symm, rfl⟩
          ended := fun hend ↦
            absurd (Or.inr ((hs.tracks slot).wf hslot).bitCount_pos) hend }
      silent := fun _ hslot ↦ ⟨hslot, rfl⟩ }

end Whole

/-- **A sequence plays exactly what it was given.**  Take any sequencer between operations with some
track configured, functions that succeed and leave the sequencer alone, and a clock that is ticked
for ever without gaps of `2 ^ 30` milliseconds, wherever it wraps.  A finite start makes every
configured track call its function once for each bit, in order and at least an interval apart, and
then emits one event, with nothing busy.  A repeating start makes the calls go round for ever, and
emits nothing. -/
theorem playback_exact {W : Type} (natives : SeqNatives W) (depth : Nat) {s : Sequencer}
    (hs : s.Ok) (hrun : s.running = false) (hconf : ∃ slot, (s.tracks slot).configured = true)
    (hob : ∀ slot, (s.tracks slot).configured = true → Obliges natives (s.tracks slot))
    {since : Nat} {T : Nat → Nat} (hT : Schedule since T) (world : W) (arguments : List Int)
    (harguments : arguments = [] ∨ arguments = [0] ∨ arguments = [1]) :
    let started := s.start arguments (Clock.millis since)
    let run := Playback.play natives (SeqOp.perform natives depth) T ⟨world, started.2, [], []⟩
    started.1.ok = true ∧
      if arguments = [1] then PlaysForever started.2.tracks run
      else PlaysOnce started.2.tracks run := by
  obtain ⟨hok, hstarted⟩ := Sequencer.start_eq harguments hrun hconf (Clock.millis since)
  have hready := prepared_started hs hconf hob depth (arguments = [1]) since world
  refine ⟨hok, ?_⟩
  rw [hstarted]
  by_cases hrepeat : arguments = [1]
  · rw [if_pos hrepeat]
    exact hready.playsForever hT (decide_eq_true hrepeat) hconf rfl (fun _ ↦ rfl)
      fun slot _ _ ↦ Track.played_score rfl true slot
  · rw [if_neg hrepeat]
    exact hready.playsOnce hT (decide_eq_false hrepeat) hconf rfl (fun _ ↦ rfl) fun _ _ ↦ rfl

/-- A registry with a single function on numbers, which always succeeds. -/
def pinNatives : SeqNatives Unit :=
  ⟨[⟨1, Bytes.ofAscii "PIN_WRITE", .numericAdapter fun _ ↦ pure ⟨true, 0, "", .empty⟩⟩]⟩

/-- Pin 13 blinks `1010`, a quarter of a second for each bit. -/
def blinking : Sequencer :=
  ((Sequencer.begin {} pinNatives.directory).setNumeric [0, 250, 1, 4, 10, 13] [] true).2

theorem blinking_ok : blinking.Ok :=
  (Sequencer.edited_setNumeric _ _ _).ok (Sequencer.ok_begin _ _)

theorem blinking_obliges (slot : Slot) (h : (blinking.tracks slot).configured = true) :
    Obliges pinNatives (blinking.tracks slot) := by
  have hslot : slot = 0 := by
    revert slot
    decide
  subst hslot
  exact ⟨_, rfl, fun _ _ _ ↦ ⟨rfl, rfl⟩⟩

/-- Started 30 ms before the clock wraps and ticked every 60 ms, it blinks once through. -/
theorem playback_exact_blinking :
    let started := (blinking.start [0] (Clock.millis (2 ^ 32 - 30))).2
    PlaysOnce started.tracks (Playback.play pinNatives (SeqOp.perform pinNatives 0)
      (fun n ↦ 2 ^ 32 - 20 + 60 * n) ⟨(), started, [], []⟩) := by
  have hT : Schedule (2 ^ 32 - 30) fun n ↦ 2 ^ 32 - 20 + 60 * n :=
    { since_le := by omega
      since_gap := by omega
      mono := fun a b h ↦ by dsimp only; omega
      gap := fun n ↦ by omega
      unbounded := fun t ↦ ⟨t, by omega⟩ }
  exact (playback_exact pinNatives 0 blinking_ok rfl ⟨0, rfl⟩ blinking_obliges hT () [0]
    (by decide)).2

end Noobia
