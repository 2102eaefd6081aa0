import Noobia.Sequence.Playback

/-!
# Starting a sequence from within a sequence

A compiled sequence is itself a native function, `NoobSequenceProgram`: calling it stops whatever is
playing, loads its own channels and starts them.  Called by a track of a running sequence it does so
in the middle of that track's iteration of `tick`, and when it returns the tick finishes the
iteration: it moves the track in that slot on to its next bit.  But that track is by then a track of
the *new* sequence, at its first bit.

So the new sequence is played as it should be when it has no track in the calling slot.  When it has
one, the first bit of that track is skipped, and this goes unnoticed only in a repeating sequence
whose calls on that track are all alike.
-/

namespace Noobia

open List Function

/-- `NoobSequenceProgram`. -/
structure NoobSequenceProgram where
  /-- `channels_[0 .. channelCount_)`. -/
  channels : List ChannelDefinition

namespace NoobSequenceProgram

variable {W : Type} (program : NoobSequenceProgram)

/-- `call`.  The outcome of each step decides whether the next is taken; `millis` is the clock. -/
def call (millis : W → Nat) (arguments : List Int) : Script W Sequencer SeqOp NativeResult :=
  fun world s ↦
    if ¬(arguments = [] ∨ arguments = [0] ∨ arguments = [1]) then
      (.fail "usage: [repeat(0|1)]", [], world)
    else
      let (loaded, s) := (s.stop []).2.load program.channels
      if loaded.ok = false then (loaded, [.stop [], .load program.channels], world)
      else
        ((s.start arguments (Clock.millis (millis world))).1,
          [.stop [], .load program.channels, .start arguments (millis world)], world)

/-- The program as a native function. -/
def function (millis : W → Nat) : NoobFunction (Script W Sequencer SeqOp) :=
  .ofNumbers (program.call millis)

/-- The sequencer after the program has been started from outside, at the true time `time`. -/
def startedFrom (s : Sequencer) (arguments : List Int) (time : Nat) : Sequencer :=
  [SeqOp.stop [], .load program.channels, .start arguments time].foldl (fun s op ↦ op.effect s) s

end NoobSequenceProgram

/-! ## Loading -/

variable {source : ChannelDefinition}

namespace Sequencer

variable {s : Sequencer}

/-- Loading looks at the registered functions and nothing else. -/
theorem loadChannels_congr (s s' : Sequencer) (h : s'.nativeRegistry = s.nativeRegistry)
    (slot : Nat) (channels : List ChannelDefinition) :
    s'.loadChannels slot channels = s.loadChannels slot channels := by
  induction channels generalizing slot with
  | nil => rfl
  | cons source channels ih => simp only [loadChannels, loadChannel, find, h, ih]

theorem loadChannels_stopAll (slot : Nat) (channels : List ChannelDefinition) :
    s.stopAll.loadChannels slot channels = s.loadChannels slot channels :=
  loadChannels_congr s s.stopAll rfl slot channels

theorem loadChannels_updateChannel (i : Slot) (f : NoobProgramChannel → NoobProgramChannel)
    (slot : Nat) (channels : List ChannelDefinition) :
    (s.updateChannel i f).loadChannels slot channels = s.loadChannels slot channels :=
  loadChannels_congr s (s.updateChannel i f) rfl slot channels

variable {channels : List ChannelDefinition}

/-- A successful `load`. -/
theorem load_ok (h : (s.load channels).1.ok = true) :
    0 < channels.length ∧ channels.length ≤ 4 ∧ ∃ loaded, s.loadChannels 0 channels = .ok loaded ∧
      s.load channels = (⟨true, channels.length, "channels=" ++ toString channels.length, .empty⟩,
        s.holding loaded) := by
  obtain ⟨hfail, -⟩ | ⟨-, -, h'⟩ := s.load_cases channels
  · exact absurd (hfail.symm.trans h) (by decide)
  · exact h'

end Sequencer

/-! ## The call -/

namespace NoobSequenceProgram

variable {W : Type} {program : NoobSequenceProgram} {s : Sequencer} {arguments : List Int}

theorem startedFrom_ok (hs : s.Ok) (time : Nat) : (program.startedFrom s arguments time).Ok :=
  ((hs.effect (.stop [])).effect (.load program.channels)).effect (.start arguments time)

variable (harguments : arguments = [] ∨ arguments = [0] ∨ arguments = [1])
  (hload : (s.stopAll.load program.channels).1.ok = true)

include harguments hload

/-- Loading and starting, once the channels have passed their checks. -/
theorem startedFrom_eq :
    ∃ loaded, s.loadChannels 0 program.channels = .ok loaded ∧ ∀ time,
      ((s.stopAll.holding loaded).start arguments (Clock.millis time)).1.ok = true ∧
      program.startedFrom s arguments time =
        (s.stopAll.holding loaded).started (arguments = [1]) (Clock.millis time) := by
  obtain ⟨hpos, hle, loaded, hloaded, heq⟩ := Sequencer.load_ok hload
  have hconf : ∃ slot, ((s.stopAll.holding loaded).tracks slot).configured = true := by
    have hzero := Sequencer.getElem?_loadChannels hloaded 0
    rw [getElem?_eq_getElem hpos] at hzero
    obtain ⟨track, htrack, hchannel⟩ := hzero
    refine ⟨0, ?_⟩
    have htrack' : (s.stopAll.holding loaded).tracks 0 = track := by
      simp [Sequencer.holding, htrack]
    rw [htrack']
    exact (Sequencer.of_loadChannel hchannel).2.1
  rw [Sequencer.loadChannels_stopAll] at hloaded
  refine ⟨loaded, hloaded, fun time ↦ ?_⟩
  obtain ⟨hok, hstarted⟩ := Sequencer.start_eq harguments rfl hconf (Clock.millis time)
  refine ⟨hok, ?_⟩
  simp only [startedFrom, foldl_cons, foldl_nil, SeqOp.effect, Sequencer.stop, ne_eq,
    not_true_eq_false, if_false, heq, hstarted]

/-- The channel that makes the call may be written to before it. -/
theorem startedFrom_updateChannel (slot : Slot) (f : NoobProgramChannel → NoobProgramChannel)
    (time : Nat) :
    ((s.updateChannel slot f).stopAll.load program.channels).1.ok = true ∧
      program.startedFrom (s.updateChannel slot f) arguments time =
        program.startedFrom s arguments time := by
  have hload' : ((s.updateChannel slot f).stopAll.load program.channels).1.ok = true := by
    obtain ⟨hpos, hle, loaded, hloaded, heq⟩ := Sequencer.load_ok hload
    have hlen : ¬(program.channels.isEmpty = true ∨ maxTracks < program.channels.length) := by
      simp only [List.isEmpty_iff, maxTracks, not_or, Nat.not_lt]
      exact ⟨length_pos_iff.mp hpos, hle⟩
    rw [Sequencer.loadChannels_stopAll] at hloaded
    rw [Sequencer.load, if_neg (by simp [Sequencer.stopAll]), if_neg hlen,
      Sequencer.loadChannels_stopAll, Sequencer.loadChannels_updateChannel, hloaded]
  refine ⟨hload', ?_⟩
  obtain ⟨loaded, hloaded, heq⟩ := startedFrom_eq harguments hload
  obtain ⟨loaded', hloaded', heq'⟩ := startedFrom_eq harguments hload'
  rw [Sequencer.loadChannels_updateChannel, hloaded] at hloaded'
  obtain rfl := Except.ok.inj hloaded'
  rw [(heq time).2, (heq' time).2]
  rfl

/-- **A call of the program starts it**, just as the three operations do from outside. -/
theorem exec_call (natives : SeqNatives W) (depth : Nat) {millis : W → Nat}
    {entry : NativeEntry (Script W Sequencer SeqOp)}
    (himpl : entry.implementation = program.function millis) (world : W) :
    ∃ result : NativeResult, result.ok = true ∧
      Script.exec (SeqOp.perform natives depth) (NativeRegistry.callMixed entry arguments [])
        (world, s) = (result, (world, program.startedFrom s arguments (millis world))) := by
  obtain ⟨loaded, hloaded, heq⟩ := startedFrom_eq harguments hload
  obtain ⟨-, -, loaded', hloaded', hload'⟩ := Sequencer.load_ok hload
  rw [Sequencer.loadChannels_stopAll, hloaded] at hloaded'
  obtain rfl := Except.ok.inj hloaded'
  have hcall : program.call millis arguments world s =
      (((s.stopAll.holding loaded).start arguments (Clock.millis (millis world))).1,
        [.stop [], .load program.channels, .start arguments (millis world)], world) := by
    rw [call, if_neg (not_not.mpr harguments)]
    simp only [Sequencer.stop, ne_eq, not_true_eq_false, if_false, hload', Bool.true_eq_false]
  have hscript : NativeRegistry.callMixed entry arguments [] = program.call millis arguments := by
    rw [NativeRegistry.callMixed_nil, himpl]
    rfl
  refine ⟨_, (heq (millis world)).1, ?_⟩
  rw [hscript, Script.exec, Script.answer, Script.calls, Script.world, hcall]
  simp only [foldl_cons, foldl_nil, startedFrom]
  rw [SeqOp.perform_eq natives (.stop []) (by simp), SeqOp.perform_eq natives (.load _) (by simp),
    SeqOp.perform_eq natives (.start ..) (by simp)]

/-- Every track of the started sequence is at its first bit, and due. -/
theorem startedFrom_tracks (time : Nat) :
    (program.startedFrom s arguments time).repeating = decide (arguments = [1]) ∧
    ∀ slot, ((program.startedFrom s arguments time).tracks slot).active =
        ((program.startedFrom s arguments time).tracks slot).configured ∧
      ((program.startedFrom s arguments time).tracks slot).position = 0 ∧
      ((program.startedFrom s arguments time).tracks slot).nextAt = Clock.millis time := by
  obtain ⟨loaded, -, heq⟩ := startedFrom_eq harguments hload
  rw [(heq time).2]
  exact ⟨rfl, fun _ ↦ ⟨rfl, rfl, rfl⟩⟩

theorem startedFrom_track (time : Nat) (slot : Slot) :
    match program.channels[slot.val]? with
    | none => ((program.startedFrom s arguments time).tracks slot).configured = false
    | some source => ∃ track, s.loadChannel source = .ok track ∧
        track.SameProgram ((program.startedFrom s arguments time).tracks slot) := by
  obtain ⟨loaded, hloaded, heq⟩ := startedFrom_eq harguments hload
  have hslot := Sequencer.getElem?_loadChannels hloaded slot.val
  rw [(heq time).2]
  split
  · rename_i hnone
    rw [hnone] at hslot
    simp only [Sequencer.started, Sequencer.holding]
    rw [hslot]
    rfl
  · rename_i source hsome
    rw [hsome] at hslot
    obtain ⟨track, htrack, hchannel⟩ := hslot
    refine ⟨track, hchannel, ?_⟩
    simp only [Sequencer.started, Sequencer.holding]
    rw [htrack]
    exact ⟨rfl, rfl, rfl, rfl, rfl, rfl, rfl, rfl⟩

end NoobSequenceProgram

/-! ## The rest of the tick -/

/-- The slots `tick` comes to after this one. -/
def later (slot : Slot) : List Slot := (List.finRange 4).filter fun i ↦ slot < i

/-- The slots it has been to before. -/
def earlier (slot : Slot) : List Slot := (List.finRange 4).filter fun i ↦ i < slot

theorem finRange_eq (slot : Slot) : List.finRange 4 = earlier slot ++ slot :: later slot := by
  revert slot
  decide

namespace Sequencer

/-- What an iteration of `tick` does after a call that went well, to the sequencer it then finds. -/
def settled (s : Sequencer) (slot : Slot) (now : Nat) (result : NativeResult) : Sequencer :=
  (s.updateChannel slot fun c ↦ c.finished result).advance now slot

variable (s : Sequencer) (slot : Slot) (now : Nat) (result : NativeResult)

theorem settled_other {i : Slot} (hi : i ≠ slot) :
    (s.settled slot now result).tracks i = s.tracks i := by
  rw [settled, advance_tracks, update_of_ne hi, updateChannel, setTrack_tracks,
    update_of_ne hi]

/-- The track in the slot is moved on, whichever it is. -/
theorem settled_self :
    (s.settled slot now result).tracks slot =
      { s.tracks slot with channel := (s.tracks slot).channel.finished result }.advance now
        s.repeating := by
  rw [settled, advance_tracks, update_self, updateChannel, setTrack_tracks,
    update_self, setTrack_repeating]

theorem settled_same (i : Slot) :
    (s.tracks i).SameProgram ((s.settled slot now result).tracks i) := by
  by_cases hi : i = slot
  · subst hi
    rw [settled_self]
    refine Track.SameProgram.trans ?_ (Track.sameProgram_advance _ now s.repeating)
    exact ⟨rfl, rfl, rfl, rfl, rfl, rfl, rfl, rfl⟩
  · rw [settled_other s slot now result hi]
    exact Track.SameProgram.refl _

variable {s} in
theorem Sound.settled (h : s.Sound) : (s.settled slot now result).Sound :=
  (h.updateChannel slot fun _ hc ↦ hc.finished result).advance now slot

end Sequencer

namespace SequenceRunner

open Proc NoobSequenceProgram

variable {W : Type} {natives : SeqNatives W} {perform : SeqOp → W × Sequencer → W × Sequencer}
  {now : Nat}

/-- A loop that has served some slots goes on with the others. -/
theorem services_append {slots : List Slot} (slots' : List Slot) {t t' : Tick W}
    (h : services natives perform now slots t = (some (), t')) :
    services natives perform now (slots ++ slots') t = services natives perform now slots' t' := by
  induction slots generalizing t with
  | nil =>
    cases h
    rfl
  | cons slot slots ih =>
    rw [cons_append, services]
    rw [services] at h
    cases hs : service natives perform now slot t with
    | mk r t₁ =>
      cases r with
      | none =>
        rw [bind_of_none hs] at h
        cases h
      | some _ =>
        rw [bind_of_some hs] at h ⊢
        exact ih h

/-- **A tick that has come as far as `slot` goes on from there.** -/
theorem tick_from {p : W × Sequencer} (hrun : p.2.running = true) {slot : Slot} {t : Tick W}
    (h : services natives perform now (earlier slot) { world := p.1, seq := p.2 } = (some (), t)) :
    tick natives perform now p = (tickFrom natives perform now (slot :: later slot)).final t := by
  rw [tick, if_neg (by simp [hrun]), Proc.final, Proc.final, tickFrom, tickFrom, finRange_eq slot]
  have happend := services_append (slot :: later slot) h
  cases hs : services natives perform now (slot :: later slot) t with
  | mk r t' =>
    cases r with
    | none => rw [bind_of_none hs, bind_of_none (happend.trans hs)]
    | some _ => rw [bind_of_some hs, bind_of_some (happend.trans hs)]

theorem services_event (natives : SeqNatives W) (perform : SeqOp → W × Sequencer → W × Sequencer)
    (now : Nat) (slots : List Slot) (t : Tick W) :
    Wp (services natives perform now slots) (fun _ t' ↦ t'.event = t.event) (fun _ ↦ True) t := by
  induction slots generalizing t with
  | nil => exact wp_pure rfl
  | cons slot slots ih =>
    refine wp_bind (Wp.mono (Q := fun _ t' ↦ t'.event = t.event) ?_
      (fun _ t' h ↦ (ih t').mono (fun _ _ h' ↦ h'.trans h) fun _ _ ↦ trivial) fun _ h ↦ h)
    refine wp_bind (wp_read (wp_ite (fun _ ↦ wp_pure rfl) fun _ ↦ ?_))
    refine wp_bind (wp_change (wp_bind (wp_read (wp_ite (fun _ ↦ ?_) fun _ ↦ wp_change ?_))))
    · exact wp_bind (wp_change (wp_exit trivial))
    show (invoke natives perform slot t).event = t.event
    rw [invoke]
    split <;> rfl

variable {depth : Nat} {program : NoobSequenceProgram} {arguments : List Int} {millis : W → Nat}
  {slot : Slot} {tau : Nat} {t : Tick W}

variable (natives program arguments millis slot tau t) in
/-- A tick at the time `tau` has come to `slot`, whose track is due.  The track's function is the
program and is called with arguments it takes, the program can be loaded, and its own functions
oblige.  The program reads its clock no earlier than the tick and before the next tick can come. -/
structure Calls : Prop where
  due : (t.seq.tracks slot).due (Clock.millis tau) = true
  entry : ∃ entry, natives.find (t.seq.tracks slot).channel.functionId = some entry ∧
    entry.implementation = program.function millis
  ascii : (t.seq.tracks slot).channel.ascii = []
  calls : (t.seq.tracks slot).channel.callArguments (t.seq.tracks slot).input
    (t.seq.tracks slot).appendInput = arguments
  accepted : arguments = [] ∨ arguments = [0] ∨ arguments = [1]
  load : (t.seq.stopAll.load program.channels).1.ok = true
  obliges : ∀ i,
    ((program.startedFrom t.seq arguments (millis t.world)).tracks i).configured = true →
      Obliges natives ((program.startedFrom t.seq arguments (millis t.world)).tracks i)
  le_clock : tau ≤ millis t.world
  clock_lt : millis t.world < tau + 2 ^ 30

variable (program arguments millis slot tau t) in
/-- The tick after the call, once it has returned. -/
def called (result : NativeResult) : Tick W :=
  { t with
    seq := (program.startedFrom t.seq arguments (millis t.world)).settled slot (Clock.millis tau)
      result
    invoked := true
    calls := t.calls ++ [(t.seq.tracks slot).callAt slot (t.seq.tracks slot).position] }

theorem service_replaces (h : Calls natives program arguments millis slot tau t) :
    Wp (service natives (SeqOp.perform natives depth) (Clock.millis tau) slot)
      (fun _ t' ↦ ∃ result, t' = called program arguments millis slot tau t result)
      (fun _ ↦ False) t := by
  have hdue := h.due
  rw [Track.due, Bool.and_eq_true, Bool.not_eq_true'] at hdue
  obtain ⟨entry, hfind, himpl⟩ := h.entry
  obtain ⟨hload, hstarted⟩ := startedFrom_updateChannel h.accepted h.load slot
    (fun c ↦ { c with busy := true }) (millis t.world)
  obtain ⟨result, hok, hexec⟩ := exec_call h.accepted hload natives depth himpl t.world
  have hinvoke : invoke natives (SeqOp.perform natives depth) slot t =
      { t with
        seq := (program.startedFrom t.seq arguments (millis t.world)).updateChannel slot
          fun c ↦ c.finished result
        invoked := true
        calls := t.calls ++ [(t.seq.tracks slot).callAt slot (t.seq.tracks slot).position] } := by
    rw [invoke]
    rw [hfind]
    dsimp only
    rw [h.calls, h.ascii, hexec, hstarted]
    simp only [Track.callAt_position, h.calls, h.ascii]
  refine wp_bind (wp_read (wp_ite (fun hidle ↦ ?_) fun _ ↦ ?_))
  · rcases hidle with hidle | hidle
    · exact absurd (hidle.symm.trans hdue.1) Bool.false_ne_true
    · exact absurd (hdue.2.symm.trans hidle) Bool.false_ne_true
  refine wp_bind (wp_change (wp_bind (wp_read (wp_ite (fun hfail ↦ ?_) fun _ ↦ wp_change ?_))))
  · rw [hinvoke] at hfail
    simp [Sequencer.updateChannel, NoobProgramChannel.finished, hok] at hfail
  · rw [hinvoke]
    exact ⟨result, rfl⟩

variable (natives depth slot tau t) in
/-- The run of the new sequence up to the end of the tick that started it.  The call that did is the
old sequence's; all calls after it are the new one's. -/
def replacing : Playback W :=
  let t' := (tickFrom natives (SeqOp.perform natives depth) (Clock.millis tau)
    (slot :: later slot)).final t
  { world := t'.world
    seq := t'.seq
    log := (t'.calls.drop (t.calls.length + 1)).map fun call ↦ (tau, call)
    events := t'.event.toList }

theorem later_nodup (slot : Slot) : (later slot).Nodup := (nodup_finRange 4).filter _

theorem mem_later {slot i : Slot} : i ∈ later slot ↔ slot < i := by simp [later]

theorem replacing_eq (depth : Nat) (h : Calls natives program arguments millis slot tau t) :
    ∃ (result : NativeResult) (t' : Tick W),
      Served (Clock.millis tau) (later slot) (called program arguments millis slot tau t result)
        t' ∧
      replacing natives depth slot tau t =
        { world := (finish t').world
          seq := (finish t').seq
          log := ((finish t').calls.drop (t.calls.length + 1)).map fun call ↦ (tau, call)
          events := (finish t').event.toList } := by
  have hwp : Wp (tickFrom natives (SeqOp.perform natives depth) (Clock.millis tau)
      (slot :: later slot)) (fun _ t₁ ↦ ∃ (result : NativeResult) (t' : Tick W),
        Served (Clock.millis tau) (later slot) (called program arguments millis slot tau t result)
          t' ∧ t₁ = finish t') (fun _ ↦ False) t := by
    refine wp_bind (wp_bind ((service_replaces h).mono ?_ fun _ hfalse ↦ hfalse))
    rintro - t₁ ⟨result, rfl⟩
    refine (services_served (later_nodup slot) fun i hi hactive ↦ ?_).mono
      (fun _ t' hserved ↦ wp_change ⟨result, t', hserved, rfl⟩) fun _ hfalse ↦ hfalse
    rw [called] at hactive ⊢
    have hne : i ≠ slot := (mem_later.mp hi).ne'
    rw [Sequencer.settled_other _ _ _ _ hne] at hactive ⊢
    rw [((startedFrom_tracks h.accepted h.load _).2 i).1] at hactive
    exact h.obliges i hactive
  obtain ⟨result, t', hserved, heq⟩ := Wp.final (hwp.mono (fun _ _ h' ↦ h') fun _ h' ↦ h'.elim)
  exact ⟨result, t', hserved, by rw [replacing, heq]⟩

theorem finish_spec (t : Tick W) : (finish t).seq.tracks = t.seq.tracks ∧
    (finish t).seq.repeating = t.seq.repeating ∧ (finish t).calls = t.calls := by
  rw [finish]
  split <;> exact ⟨rfl, rfl, rfl⟩

/-- The calls of the new sequence in the rest of the tick. -/
theorem callsOf_rest {s : Sequencer} {call : Invocation} {t' : Tick W}
    (hserved : Served (Clock.millis tau) (later slot)
      { t with seq := s, invoked := true, calls := t.calls ++ [call] } t') (world : W)
    (seq : Sequencer) (events : List String) (i : Slot) :
    Playback.callsOf ⟨world, seq, ((finish t').calls.drop (t.calls.length + 1)).map
        fun call ↦ (tau, call), events⟩ i =
      if slot < i ∧ (s.tracks i).due (Clock.millis tau) = true then
        [(tau, (s.tracks i).callAt i (s.tracks i).position)] else [] := by
  have hdrop : (finish t').calls.drop (t.calls.length + 1) = ((later slot).filter
      fun i ↦ (s.tracks i).due (Clock.millis tau)).map
        fun i ↦ (s.tracks i).callAt i (s.tracks i).position := by
    rw [(finish_spec t').2.2, hserved.calls]
    exact drop_left' (by simp)
  rw [Playback.callsOf, hdrop, Playback.filter_timed, filter_calls (later_nodup slot)]
  simp only [mem_later]
  split <;> rfl

/-- The event the tick ends with, if it had none before. -/
theorem replacing_events (depth : Nat) (h : Calls natives program arguments millis slot tau t)
    (hnone : t.event = none) :
    (replacing natives depth slot tau t).events =
      if (replacing natives depth slot tau t).seq.Playing then [] else [completeEvent] := by
  obtain ⟨result, t', hserved, heq⟩ := replacing_eq depth h
  have hinvoked : t'.invoked = true := hserved.invoked.mpr (.inl rfl)
  have hevent : t'.event = none := hserved.event.trans hnone
  rw [heq, finish]
  by_cases hplay : t'.seq.Playing
  · rw [if_neg fun hend ↦ Sequencer.activeCount_eq_zero.mp hend.2 hplay, if_pos hplay, hevent]
    rfl
  · rw [if_pos ⟨hinvoked, Sequencer.activeCount_eq_zero.mpr hplay⟩, if_neg (by exact hplay)]
    rfl

/-- Where the metronomes of the new sequence stand at the end of that tick.  The track in the
calling slot is put off by an interval without having beaten; the tracks after it have been polled.
-/
def metronomesAfter (s : Sequencer) (slot : Slot) (tau clock : Nat) (i : Slot) : Metronome :=
  if i = slot then ⟨tau + (s.tracks i).intervalMs, []⟩
  else if slot < i then Metronome.poll (s.tracks i).intervalMs tau ⟨clock, []⟩
  else ⟨clock, []⟩

theorem metronomesAfter_spec (slot : Slot) {s : Sequencer} {clock : Nat} (hle : tau ≤ clock)
    (hlt : clock < tau + 2 ^ 30) {i : Slot} (hinterval : (s.tracks i).intervalMs ≤ 60000) :
    tau ≤ (metronomesAfter s slot tau clock i).due ∧
      (metronomesAfter s slot tau clock i).due ≤ tau + 2 ^ 30 ∧
      (metronomesAfter s slot tau clock i).Steady (s.tracks i).intervalMs := by
  rw [metronomesAfter]
  split
  · exact ⟨Nat.le_add_right _ _, by dsimp only; omega, Metronome.steady_new _⟩
  split
  · refine ⟨?_, ?_, (Metronome.steady_new clock).poll tau⟩
    · rw [Metronome.poll]
      split
      · exact Nat.le_add_right _ _
      · exact hle
    · rw [Metronome.poll]
      split
      · dsimp only
        omega
      · dsimp only
        omega
  · exact ⟨hle, by dsimp only; omega, Metronome.steady_new _⟩

/-- A sequence that was started at the time `clock` and not yet ticked. -/
structure JustStarted (s : Sequencer) (clock : Nat) : Prop where
  ok : s.Ok
  active : ∀ i, (s.tracks i).active = (s.tracks i).configured
  position : ∀ i, (s.tracks i).position = 0
  nextAt : ∀ i, (s.tracks i).nextAt = Clock.millis clock

theorem Calls.justStarted (h : Calls natives program arguments millis slot tau t) (hok : t.seq.Ok) :
    JustStarted (program.startedFrom t.seq arguments (millis t.world)) (millis t.world) := by
  obtain ⟨-, htracks⟩ := startedFrom_tracks h.accepted h.load (millis t.world)
  exact ⟨startedFrom_ok hok _, fun i ↦ (htracks i).1, fun i ↦ (htracks i).2.1,
    fun i ↦ (htracks i).2.2⟩

section JustStarted

variable {s : Sequencer} {clock : Nat} {i : Slot} {result : NativeResult}

theorem JustStarted.wf (hs : JustStarted s clock)
    (hi : ((s.settled slot now result).tracks i).active = true) :
    ((s.settled slot now result).tracks i).Wf :=
  have htrack := (hs.ok.toSound.settled slot now result).tracks i
  htrack.wf (htrack.active hi).1

/-- The tracks in the other slots are as they were started. -/
theorem JustStarted.follows_other (hs : JustStarted s clock) (hne : i ≠ slot)
    (hi : ((s.settled slot now result).tracks i).active = true) :
    Follows ((s.settled slot now result).tracks i) s.repeating i ⟨clock, []⟩
      ((s.settled slot now result).tracks i) [] := by
  have hwf := hs.wf hi
  rw [s.settled_other slot now result hne] at hi hwf ⊢
  refine ⟨Track.SameProgram.refl _, (Track.score_nil ..).symm, fun _ ↦ ⟨hi, ?_, hs.nextAt i⟩,
    fun hend ↦ absurd (.inr ?_) hend⟩
  · rw [hs.position i]
    exact (Nat.zero_mod _).symm
  · rw [hs.position i]
    exact hwf.bitCount_pos

/-- The track in the calling slot stands at a later bit, and waits an interval to play it. -/
theorem JustStarted.follows_self (hs : JustStarted s clock)
    (hi : ((s.settled slot (Clock.millis tau) result).tracks slot).active = true) :
    Follows ((s.settled slot (Clock.millis tau) result).tracks slot) s.repeating slot
      ⟨tau + ((s.settled slot (Clock.millis tau) result).tracks slot).intervalMs, []⟩
      ((s.settled slot (Clock.millis tau) result).tracks slot) [] := by
  have hpos := ((hs.ok.toSound.settled slot (Clock.millis tau) result).tracks slot).active hi
  refine ⟨Track.SameProgram.refl _, (Track.score_nil ..).symm,
    fun _ ↦ ⟨hi, (Nat.mod_eq_of_lt hpos.2).symm, ?_⟩, fun hend ↦ absurd (.inr hpos.2) hend⟩
  have hinterval := (s.settled_same slot (Clock.millis tau) result slot).intervalMs
  rw [← hinterval, ← Clock.millis_add, s.settled_self, Track.advance_nextAt]

end JustStarted

/-- **The new sequence plays on from where the tick that started it has left it.** -/
theorem prepared_replacing (depth : Nat) (h : Calls natives program arguments millis slot tau t)
    (hok : t.seq.Ok) :
    ∃ result : NativeResult,
      let s := (program.startedFrom t.seq arguments (millis t.world)).settled slot
        (Clock.millis tau) result
      Prepared natives (SeqOp.perform natives depth) s (metronomesAfter s slot tau (millis t.world))
        tau (replacing natives depth slot tau t) := by
  obtain ⟨result, t', hserved, heq⟩ := replacing_eq depth h
  rw [called] at hserved
  have hstarted := h.justStarted hok
  have hob := h.obliges
  generalize program.startedFrom t.seq arguments (millis t.world) = s at *
  refine ⟨result, ?_⟩
  intro s'
  have hsame := s.settled_same slot (Clock.millis tau) result
  have hconf : ∀ i, (s'.tracks i).active = true → (s.tracks i).configured = true := fun i hi ↦
    (hsame i).configured.trans ((hstarted.ok.toSound.settled _ _ _).tracks i |>.active hi).1
  have hnear : ∀ i, (s'.tracks i).active = true → _ := fun i hi ↦
    metronomesAfter_spec slot h.le_clock h.clock_lt (hstarted.wf hi).interval_le
  obtain ⟨hseq, hrep, -⟩ := finish_spec t'
  refine
    { perform_ok := fun op _ ↦ SeqOp.perform_ok natives depth op
      wf := fun i hi ↦ hstarted.wf hi
      obliges := fun i hi ↦ (hob i (hconf i hi)).congr (hsame i)
      since_le := fun i hi ↦ (hnear i hi).1
      le_since := fun i hi ↦ (hnear i hi).2.1
      steady := fun i hi ↦ (hnear i hi).2.2
      performs :=
        { ok := tickFrom_ok (fun op _ ↦ SeqOp.perform_ok natives depth op) (hok.between _) _ _
          repeating := by rw [heq]; exact hrep.trans hserved.repeating
          follows := fun i hi ↦ ?_
          silent := fun i hi ↦ ?_ } }
  · rw [heq, callsOf_rest hserved]
    rw [hseq]
    -- the slots before the calling one, that slot itself, and those the tick still served
    rcases lt_trichotomy i slot with hlt | rfl | hgt
    · have hnot : ¬ slot < i := hlt.asymm
      rw [metronomesAfter, if_neg hlt.ne, if_neg hnot, if_neg fun hboth ↦ hnot hboth.1,
        hserved.other i fun hmem ↦ hnot (mem_later.mp hmem)]
      exact hstarted.follows_other hlt.ne hi
    · have hnot : ¬ i < i := lt_irrefl i
      rw [metronomesAfter, if_pos rfl, if_neg fun hboth ↦ hnot hboth.1,
        hserved.other i fun hmem ↦ hnot (mem_later.mp hmem)]
      exact hstarted.follows_self hi
    · rw [metronomesAfter, if_neg hgt.ne', if_pos hgt]
      have hle := h.le_clock
      have hlt := h.clock_lt
      have hnext := (hstarted.follows_other hgt.ne' hi).step (hstarted.wf hi) (by dsimp only; omega)
        (by dsimp only; omega) (hserved.stepped i (mem_later.mpr hgt))
      simp only [hgt, true_and]
      exact hnext
  · rw [heq, callsOf_rest hserved]
    rw [hseq]
    have hdue : (s'.tracks i).due (Clock.millis tau) = false := by
      rw [Track.due, hi, Bool.false_and]
    refine ⟨?_, if_neg fun hboth ↦ absurd (hdue.symm.trans hboth.2) Bool.false_ne_true⟩
    by_cases hmem : i ∈ later slot
    · have hstep := hserved.stepped i hmem
      rw [Track.Stepped, if_neg (by simp [s', hdue])] at hstep
      rw [hstep]
      exact hi
    · rw [hserved.other i hmem]
      exact hi

end SequenceRunner

/-! ## When the replacement is played as it should be -/

namespace Track

/-- All calls of the track are alike. -/
def Alike (track : Track) (slot : Slot) : Prop :=
  ∀ j < track.bitCount, track.callAt slot j = track.callAt slot 0

/-- It is enough that each call, going round, is like the one before it. -/
theorem alike_of_next {track : Track} {slot : Slot}
    (h : ∀ j < track.bitCount, track.callAt slot ((1 + j) % track.bitCount) =
      track.callAt slot (j % track.bitCount)) : track.Alike slot := by
  intro j hj
  induction j with
  | zero => rfl
  | succ j ih =>
    have hnext := h j (by omega)
    rw [Nat.mod_eq_of_lt (by omega), Nat.mod_eq_of_lt (by omega), Nat.add_comm] at hnext
    exact hnext.trans (ih (by omega))

variable {track a b : Track} {slot : Slot}

theorem SameProgram.played (h : a.SameProgram b) {k : Nat} {calls : List (Nat × Invocation)} :
    b.Played slot k calls ↔ a.Played slot k calls := by
  constructor
  · rintro ⟨h1, h2⟩
    simp only [h.callAt, ← h.bitCount, ← h.intervalMs] at h1 h2
    exact ⟨h1, h2⟩
  · rintro ⟨h1, h2⟩
    refine ⟨?_, ?_⟩
    · simpa only [h.callAt, ← h.bitCount] using h1
    · simpa only [← h.intervalMs] using h2

theorem SameProgram.symm (h : a.SameProgram b) : b.SameProgram a :=
  ⟨h.1.symm, h.2.symm, h.3.symm, h.4.symm, h.5.symm, h.6.symm, h.7.symm, h.8.symm⟩

theorem Alike.congr (ha : a.Alike slot) (h : a.SameProgram b) : b.Alike slot := by
  intro j hj
  rw [h.callAt, h.callAt]
  exact ha j (hj.trans_eq h.bitCount.symm)

/-- Where such a track starts in its pattern makes no difference. -/
theorem Alike.played_score (h : track.Alike slot) (hwf : track.Wf) {times : List Nat}
    (htimes : Metronome.Spaced track.intervalMs times) :
    track.Played slot times.length (track.score true slot times) := by
  have hcall : ∀ j, track.callAt slot (j % track.bitCount) = track.callAt slot 0 := fun j ↦
    h _ (Nat.mod_lt _ hwf.bitCount_pos)
  refine ⟨ext_getElem (by simp [score]) fun i h1 h2 ↦ by simp [score, hcall], ?_⟩
  rwa [fst_score]

theorem callAt_eq_iff {i j : Nat} :
    track.callAt slot i = track.callAt slot j ↔ track.appendInput = false ∨
      ({ track with position := i } : Track).input = { track with position := j }.input := by
  cases happend : track.appendInput with
  | false | true => simp [callAt, Track.input, happend]

/-- The calls of a loaded channel are alike when it is not given the bit, or all bits are equal. -/
theorem alike_iff {s : Sequencer} (h : s.loadChannel source = .ok track) (slot : Slot) :
    track.Alike slot ↔
      source.appendInput = false ∨ ∀ x ∈ source.bits, ∀ y ∈ source.bits, x = y := by
  obtain ⟨hwf, -, -, hcount, hbits, hsmall, happend⟩ := Sequencer.of_loadChannel h
  have hpos := hwf.bitCount_pos
  have hlen : 0 < source.bits.length := hpos.trans_eq hcount
  have hinput : ∀ j (hj : j < source.bits.length),
      ({ track with position := j } : Track).input = source.bits[j].toNat := by
    intro j hj
    have hle : source.bits[j] ≤ 1 := hsmall _ (getElem_mem hj)
    rcases (by grind : source.bits[j] = 0 ∨ source.bits[j] = 1) with h0 | h0
    · simp [input, hbits, hj, h0, bitChar]
    · simp [input, hbits, hj, h0, bitChar]
  rw [← happend]
  constructor
  · intro hall
    by_cases hflag : track.appendInput = false
    · exact .inl hflag
    have hzero : ∀ x ∈ source.bits, x = source.bits[0] := by
      intro x hx
      obtain ⟨j, hj, rfl⟩ := getElem_of_mem hx
      have heq := (callAt_eq_iff.mp (hall j (hj.trans_eq hcount.symm))).resolve_left hflag
      rw [hinput j hj, hinput 0 hlen] at heq
      exact UInt8.toNat_inj.mp (by omega)
    exact .inr fun x hx y hy ↦ (hzero x hx).trans (hzero y hy).symm
  · rintro (hflag | hequal) j hj
    · exact callAt_eq_iff.mpr (.inl hflag)
    · refine callAt_eq_iff.mpr (.inr ?_)
      rw [hcount] at hj
      rw [hinput j hj, hinput 0 hlen, hequal _ (getElem_mem hj) _ (getElem_mem hlen)]

end Track

theorem PlaysOnce.congr {W : Type} {a b : Slot → Track} (h : ∀ i, (a i).SameProgram (b i))
    {run : Nat → Playback W} (hb : PlaysOnce b run) : PlaysOnce a run := by
  obtain ⟨N, hbefore, hafter⟩ := hb
  refine ⟨N, hbefore, fun n hn ↦ ?_⟩
  obtain ⟨hevents, hbusy, hcalls⟩ := hafter n hn
  refine ⟨hevents, hbusy, fun i ↦ ?_⟩
  have hi := hcalls i
  rw [← (h i).configured, ← (h i).bitCount, (h i).played] at hi
  exact hi

theorem PlaysForever.congr {W : Type} {a b : Slot → Track} (h : ∀ i, (a i).SameProgram (b i))
    {run : Nat → Playback W} (hb : PlaysForever b run) : PlaysForever a run := by
  refine ⟨hb.1, fun i ↦ ?_⟩
  have hi := hb.2 i
  simp only [← (h i).configured, (h i).played] at hi
  exact hi

namespace SequenceRunner

open NoobSequenceProgram

section Started

variable {s : Sequencer} {clock : Nat} {slot : Slot}

/-- The track in the calling slot, if the new sequence has one, has lost its first bit. -/
theorem JustStarted.settled_self (tau : Nat) (result : NativeResult) (hs : JustStarted s clock)
    (hconf : (s.tracks slot).configured = true) :
    ((s.tracks slot).Plays s.repeating 1 →
      ((s.settled slot (Clock.millis tau) result).tracks slot).active = true ∧
      ((s.settled slot (Clock.millis tau) result).tracks slot).position =
        1 % (s.tracks slot).bitCount) ∧
    (¬ (s.tracks slot).Plays s.repeating 1 →
      ((s.settled slot (Clock.millis tau) result).tracks slot).active = false) := by
  have hwf := (hs.ok.tracks slot).wf hconf
  have hactive : (s.tracks slot).active = true := (hs.active slot).trans hconf
  have hplays : (s.tracks slot).Plays s.repeating 0 :=
    .inr (by rw [hs.position slot]; exact hwf.bitCount_pos)
  have hspec := Track.advance_spec (Clock.millis tau) hwf hplays
    (a := { s.tracks slot with channel := (s.tracks slot).channel.finished result }) rfl hactive
    (by rw [hs.position slot]; exact (Nat.zero_mod _).symm)
  rw [hs.position slot, Nat.zero_add] at hspec
  rw [Sequencer.settled_self]
  exact hspec

end Started

variable {W : Type} {natives : SeqNatives W} {program : NoobSequenceProgram} {arguments : List Int}
  {millis : W → Nat} {slot : Slot} {tau : Nat} {t : Tick W} {T : Nat → Nat}

theorem Calls.configured_iff (h : Calls natives program arguments millis slot tau t) (i : Slot) :
    ((program.startedFrom t.seq arguments (millis t.world)).tracks i).configured = true ↔
      i.val < program.channels.length := by
  have htrack := startedFrom_track h.accepted h.load (millis t.world) i
  split at htrack
  · rename_i hnone
    rw [htrack]
    simpa using hnone
  rename_i source hsome
  obtain ⟨track, hchannel, hsame⟩ := htrack
  rw [← hsame.configured, (Sequencer.of_loadChannel hchannel).2.1]
  simpa using (List.getElem?_eq_some_iff.mp hsome).1

theorem Calls.repeating (h : Calls natives program arguments millis slot tau t) :
    (program.startedFrom t.seq arguments (millis t.world)).repeating = decide (arguments = [1]) :=
  (startedFrom_tracks h.accepted h.load (millis t.world)).1

section Replaced

variable {depth clock : Nat} {s : Sequencer} {result : NativeResult} {q : Playback W}

variable (natives depth s slot tau clock result q) in
/-- `s` has been started from `slot`, in the tick at `tau`; after that tick, `q` goes on with it. -/
structure Replaced : Prop where
  started : JustStarted s clock
  ready : Prepared natives (SeqOp.perform natives depth) (s.settled slot (Clock.millis tau) result)
    (metronomesAfter (s.settled slot (Clock.millis tau) result) slot tau clock) tau q
  events : q.events = if q.seq.Playing then [] else [completeEvent]

theorem Calls.replaced (depth : Nat) (h : Calls natives program arguments millis slot tau t)
    (hok : t.seq.Ok) (hnone : t.event = none) :
    ∃ result, Replaced natives slot tau depth (millis t.world)
      (program.startedFrom t.seq arguments (millis t.world)) result
      (replacing natives depth slot tau t) := by
  obtain ⟨result, hready⟩ := prepared_replacing depth h hok
  exact ⟨result, h.justStarted hok, hready, replacing_events depth h hnone⟩

variable (h : Replaced natives slot tau depth clock s result q) (hT : Schedule tau T)

include h hT

/-- A new sequence without a track in the calling slot is played as it should be. -/
theorem Replaced.plays_of_free (hfree : (s.tracks slot).configured = false)
    (hzero : (s.tracks 0).configured = true) :
    if s.repeating then PlaysForever s.tracks (q.play natives (SeqOp.perform natives depth) T)
    else PlaysOnce s.tracks (q.play natives (SeqOp.perform natives depth) T) := by
  have hsame := s.settled_same slot (Clock.millis tau) result
  have hsound := h.started.ok.toSound.settled slot (Clock.millis tau) result
  have hother : ∀ i, (s.tracks i).configured = true → i ≠ slot := by
    rintro i hi rfl
    exact Bool.false_ne_true (hfree.symm.trans hi)
  have hactive : ∀ i, ((s.settled slot (Clock.millis tau) result).tracks i).active =
      ((s.settled slot (Clock.millis tau) result).tracks i).configured := by
    intro i
    cases hi : (s.tracks i).configured with
    | true => rw [s.settled_other _ _ _ (hother i hi), h.started.active i]
    | false =>
      rw [← (hsame i).configured, hi, ← Bool.not_eq_true]
      intro hactive
      have := ((hsound.tracks i).active hactive).1
      rw [← (hsame i).configured, hi] at this
      exact Bool.false_ne_true this
  have hfirst : ∀ i, ((s.settled slot (Clock.millis tau) result).tracks i).active = true →
      ((s.settled slot (Clock.millis tau) result).tracks i).position = 0 := by
    intro i hi
    rw [hactive i, ← (hsame i).configured] at hi
    rw [s.settled_other _ _ _ (hother i hi)]
    exact h.started.position i
  have hplay : q.seq.Playing := by
    have hzero' : ((s.settled slot (Clock.millis tau) result).tracks 0).active = true := by
      rw [hactive 0, ← (hsame 0).configured, hzero]
    refine h.ready.performs.playing_iff.mpr ⟨0, hzero', .inr ?_⟩
    rw [metronomesAfter, if_neg (hother 0 hzero), if_neg (Fin.not_lt_zero slot), hfirst 0 hzero']
    exact (h.ready.wf 0 hzero').bitCount_pos
  have hevents := h.events
  rw [if_pos hplay] at hevents
  split
  · rename_i hone
    refine PlaysForever.congr hsame (h.ready.playsForever hT hone hplay hevents hactive ?_)
    exact fun i times hi htimes ↦ Track.played_score (hfirst i hi) true i htimes
  · rename_i hone
    exact PlaysOnce.congr hsame (h.ready.playsOnce hT (Bool.eq_false_of_not_eq_true hone) hplay
      hevents hactive hfirst)

variable (hconf : (s.tracks slot).configured = true)

include hconf

/-- A repeating sequence does not show the loss where all calls are alike. -/
theorem Replaced.plays_of_alike (hrepeating : s.repeating = true)
    (halike : (s.tracks slot).Alike slot) :
    PlaysForever s.tracks (q.play natives (SeqOp.perform natives depth) T) := by
  have hsame := s.settled_same slot (Clock.millis tau) result
  obtain ⟨hself, -⟩ := (h.started.settled_self tau result hconf).1 (.inl hrepeating)
  have hactive : ∀ i, ((s.settled slot (Clock.millis tau) result).tracks i).active =
      ((s.settled slot (Clock.millis tau) result).tracks i).configured := by
    intro i
    by_cases hi : i = slot
    · subst hi
      rw [hself, ← (hsame i).configured, hconf]
    · rw [s.settled_other _ _ _ hi, h.started.active i]
  have hplay : q.seq.Playing :=
    h.ready.performs.playing_iff.mpr ⟨slot, hself, .inl hrepeating⟩
  have hevents := h.events
  rw [if_pos hplay] at hevents
  refine PlaysForever.congr hsame (h.ready.playsForever hT hrepeating hplay hevents hactive ?_)
  intro i times hi htimes
  by_cases hslot : i = slot
  · subst hslot
    exact (halike.congr (hsame i)).played_score (h.ready.wf i hi) htimes
  refine Track.played_score ?_ true i htimes
  rw [s.settled_other _ _ _ hslot]
  exact h.started.position i

/-- A finite sequence shows it: the track in the calling slot makes one call too few. -/
theorem Replaced.not_playsOnce (hrepeating : s.repeating = false) :
    ¬ PlaysOnce s.tracks (q.play natives (SeqOp.perform natives depth) T) := by
  have hpos := ((h.started.ok.tracks slot).wf hconf).bitCount_pos
  obtain ⟨hplays, hends⟩ := h.started.settled_self tau result hconf
  rintro ⟨N, -, hafter⟩
  have hplayed := (hafter (N + 1) (Nat.lt_succ_self N)).2.2 slot
  rw [if_pos hconf] at hplayed
  have hlength := congrArg List.length hplayed.in_order
  rw [length_map, length_map, length_range] at hlength
  have hrun := h.ready.play hT (N + 1)
  by_cases hplay : (s.tracks slot).Plays s.repeating 1
  · obtain ⟨hactive, hposition⟩ := hplays hplay
    have hone : 1 < (s.tracks slot).bitCount := by
      have := hplay.resolve_left (by simp [hrepeating])
      rwa [h.started.position slot, Nat.zero_add] at this
    rw [(hrun.follows slot hactive).calls, Track.score, length_mapIdx] at hlength
    have hrepeating' : (s.settled slot (Clock.millis tau) result).repeating = false := hrepeating
    rw [hrepeating', if_neg Bool.false_ne_true, length_take, hposition, Nat.mod_eq_of_lt hone,
      ← (s.settled_same slot (Clock.millis tau) result slot).bitCount] at hlength
    omega
  · rw [(hrun.silent slot (hends hplay)).2, length_nil] at hlength
    omega

/-- A repeating sequence shows it unless all calls of that track are alike. -/
theorem Replaced.alike_of_playsForever (hrepeating : s.repeating = true)
    (hplays : PlaysForever s.tracks (q.play natives (SeqOp.perform natives depth) T)) :
    (s.tracks slot).Alike slot := by
  obtain ⟨hactive, hposition⟩ := (h.started.settled_self tau result hconf).1 (.inl hrepeating)
  have hsame := s.settled_same slot (Clock.millis tau) result slot
  have hrepeating' : (s.settled slot (Clock.millis tau) result).repeating = true := hrepeating
  have hcalls := hplays.2 slot
  rw [if_pos hconf] at hcalls
  -- a tick after which the track has gone round once
  obtain ⟨n, hn⟩ := hcalls.2 (s.tracks slot).bitCount
  obtain ⟨k, hplayed⟩ := hcalls.1 n
  have hscore := ((h.ready.play hT n).follows slot hactive).calls
  rw [hrepeating'] at hscore
  refine Track.alike_of_next fun j hj ↦ ?_
  have hlength := congrArg List.length hplayed.in_order
  rw [length_map, length_map, length_range] at hlength
  have hbeats := congrArg List.length hscore
  rw [Track.score, if_pos rfl, length_mapIdx] at hbeats
  have hexpected : (((q.play natives (SeqOp.perform natives depth) T n).callsOf slot).map
      Prod.snd)[j]? = some ((s.tracks slot).callAt slot (j % (s.tracks slot).bitCount)) := by
    rw [hplayed.in_order, getElem?_map, getElem?_range (by omega)]
    rfl
  rw [hscore, Track.score, if_pos rfl, getElem?_map, getElem?_mapIdx,
    getElem?_eq_getElem (by omega)] at hexpected
  have hcall := Option.some.inj hexpected
  rw [hsame.callAt, hposition, ← hsame.bitCount, Nat.mod_add_mod] at hcall
  exact hcall

end Replaced

/-- A tick that has come to the calling slot has emitted nothing, and left the sequence in order. -/
theorem Calls.reached (depth : Nat) (h : Calls natives program arguments millis slot tau t)
    {p : W × Sequencer} (hok : p.2.Ok)
    (hreach : services natives (SeqOp.perform natives depth) (Clock.millis tau) (earlier slot)
      { world := p.1, seq := p.2 } = (some (), t)) : t.event = none ∧ t.seq.Ok := by
  have hevent := services_event natives (SeqOp.perform natives depth) (Clock.millis tau)
    (earlier slot) { world := p.1, seq := p.2 }
  have hbetween : Proc.Wp (services natives (SeqOp.perform natives depth) (Clock.millis tau)
      (earlier slot)) (fun _ t ↦ t.seq.Between t.invoked) (fun t ↦ t.seq.Ok)
      { world := p.1, seq := p.2 } :=
    services_wp (fun op _ ↦ SeqOp.perform_ok natives depth op) _ _ (hok.between _)
  rw [Proc.Wp, hreach] at hevent hbetween
  have hdue := h.due
  rw [Track.due, Bool.and_eq_true] at hdue
  exact ⟨hevent, hbetween.ok ⟨slot, hdue.1⟩⟩

/-- Ticks at every millisecond from the moment of the call on. -/
theorem Calls.schedule (h : Calls natives program arguments millis slot tau t) :
    Schedule tau fun n ↦ millis t.world + n where
  since_le := h.le_clock
  since_gap := h.clock_lt
  mono _ _ hab := Nat.add_le_add_left hab _
  gap n := by omega
  unbounded x := ⟨x, Nat.le_add_left _ _⟩

end SequenceRunner

/-- **A sequence started from within a sequence is played as from outside exactly when it has no
track in the slot that started it**, or repeats and makes the same call for every bit of that track.

A tick of a running sequence comes to `slot` in the state `t`, and calls the program there.  `run`
is the new sequence from then on: the calls of the rest of that tick, and later ticks at any times.
Started from outside, the new sequence plays every bit of every track, by `playback_exact`. -/
theorem replace_exact_iff {W : Type} (natives : SeqNatives W) (depth : Nat)
    (program : NoobSequenceProgram) (millis : W → Nat) {p : W × Sequencer} (hok : p.2.Ok)
    (hrun : p.2.running = true) {tau : Nat} {slot : Slot} {t : Tick W}
    (hreach : SequenceRunner.services natives (SeqOp.perform natives depth) (Clock.millis tau)
      (earlier slot) { world := p.1, seq := p.2 } = (some (), t)) {arguments : List Int}
    (h : SequenceRunner.Calls natives program arguments millis slot tau t) :
    let tracks := (program.startedFrom t.seq arguments (millis t.world)).tracks
    let t' := SequenceRunner.tick natives (SeqOp.perform natives depth) (Clock.millis tau) p
    let run := Playback.play natives (SeqOp.perform natives depth)
    let q : Playback W := ⟨t'.world, t'.seq, (t'.calls.drop (t.calls.length + 1)).map
      fun call ↦ (tau, call), t'.event.toList⟩
    (∀ T, Schedule tau T → millis t.world ≤ T 0 →
      if arguments = [1] then PlaysForever tracks (run T q) else PlaysOnce tracks (run T q)) ↔
    program.channels.length ≤ slot.val ∨ arguments = [1] ∧ ∀ c ∈ program.channels[slot.val]?,
      c.appendInput = false ∨ ∀ x ∈ c.bits, ∀ y ∈ c.bits, x = y := by
  intro tracks t' run q
  have hq : q = SequenceRunner.replacing natives depth slot tau t := by
    simp only [q, t', SequenceRunner.tick_from hrun hreach, SequenceRunner.replacing]
  obtain ⟨hnone, hok'⟩ := h.reached depth hok hreach
  obtain ⟨result, hreplaced⟩ := h.replaced depth hok' hnone
  have htrack := NoobSequenceProgram.startedFrom_track h.accepted h.load (millis t.world) slot
  rw [hq]
  rcases Nat.lt_or_ge slot.val program.channels.length with hslot | hslot
  · have hconf := (h.configured_iff slot).mpr hslot
    rw [getElem?_eq_getElem hslot] at htrack ⊢
    obtain ⟨track, hload, hsame⟩ := htrack
    have halike := Track.alike_iff hload slot
    constructor
    · intro hplays
      have hrun' := hplays _ h.schedule (Nat.le_refl _)
      by_cases hone : arguments = [1]
      · rw [if_pos hone] at hrun'
        have halike' := hreplaced.alike_of_playsForever h.schedule hconf
          (h.repeating.trans (decide_eq_true hone)) hrun'
        exact .inr ⟨hone, by simpa using halike.mp (halike'.congr hsame.symm)⟩
      · rw [if_neg hone] at hrun'
        exact absurd hrun' (hreplaced.not_playsOnce h.schedule hconf
          (h.repeating.trans (decide_eq_false hone)))
    · rintro hcond T hT -
      obtain ⟨hone, hchannel⟩ := hcond.resolve_left (Nat.not_le.mpr hslot)
      rw [if_pos hone]
      exact hreplaced.plays_of_alike hT hconf (h.repeating.trans (decide_eq_true hone))
        ((halike.mpr (hchannel _ rfl)).congr hsame)
  · refine iff_of_true (fun T hT _ ↦ ?_) (.inl hslot)
    have hplays := hreplaced.plays_of_free hT
      (Bool.eq_false_of_not_eq_true fun hconf ↦
        absurd ((h.configured_iff slot).mp hconf) (by omega))
      ((h.configured_iff 0).mpr (Sequencer.load_ok h.load).1)
    simpa only [h.repeating, decide_eq_true_eq] using hplays

/-- A compiled sequence that lights pin 13 for a tenth of a second. -/
def flash : NoobSequenceProgram := ⟨[⟨1, 100, [1, 0], [13], some [], true⟩]⟩

/-- The pin function and the compiled sequence. -/
def flashNatives : SeqNatives Unit :=
  ⟨pinNatives.entries ++ [⟨2, Bytes.ofAscii "FLASH", flash.function fun _ ↦ 0⟩]⟩

/-- A running sequence whose one track calls the compiled sequence, once. -/
def flashing : Sequencer :=
  (((Sequencer.begin {} flashNatives.directory).setNumeric [0, 100, 2, 1, 0] [] true).2.start []
    0).2

theorem flash_loses_first_bit :
    let perform := SeqOp.perform flashNatives 0
    let t := SequenceRunner.tick flashNatives perform 0 ((), flashing)
    let within : Playback Unit := ⟨t.world, t.seq, (t.calls.drop 1).map fun call ↦ (0, call),
      t.event.toList⟩
    let outside : Playback Unit := ⟨(), flash.startedFrom flashing [0] 0, [], []⟩
    let T := fun n ↦ 100 * n
    (((within.play flashNatives perform T 9).callsOf 0).map fun call ↦ call.2.arguments) =
        [[13, 0]] ∧
      (((outside.play flashNatives perform T 9).callsOf 0).map fun call ↦ call.2.arguments) =
        [[13, 1], [13, 0]] := by
  decide

theorem flashing_ok : flashing.Ok :=
  ((Sequencer.edited_setNumeric _ _ _).ok (Sequencer.ok_begin _ _)).start _ _

theorem flash_calls :
    SequenceRunner.Calls flashNatives flash [0] (fun _ ↦ 0) 0 0
      { world := (), seq := flashing } where
  due := by decide
  entry := ⟨_, rfl, rfl⟩
  ascii := rfl
  calls := rfl
  accepted := by decide
  load := by decide
  obliges := by
    intro i hi
    have hzero : i = 0 := by
      revert i
      decide
    subst hzero
    exact ⟨_, rfl, fun _ _ _ ↦ ⟨rfl, rfl⟩⟩
  le_clock := by decide
  clock_lt := by decide

/-- The compiled sequence is not played as it should be, since it has a track in the slot that
starts it. -/
theorem replace_exact_iff_flash :
    let perform := SeqOp.perform flashNatives 0
    let t := SequenceRunner.tick flashNatives perform (Clock.millis 0) ((), flashing)
    ¬ ∀ T, Schedule 0 T → 0 ≤ T 0 → PlaysOnce (flash.startedFrom flashing [0] 0).tracks
      (Playback.play flashNatives perform T ⟨t.world, t.seq, (t.calls.drop 1).map
        fun call ↦ (0, call), t.event.toList⟩) := by
  intro perform t hplays
  have hcond := (replace_exact_iff flashNatives 0 flash (fun _ ↦ 0) (p := ((), flashing))
    flashing_ok rfl rfl flash_calls).mp hplays
  exact absurd hcond (by decide)

end Noobia
