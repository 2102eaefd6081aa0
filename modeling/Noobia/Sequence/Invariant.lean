import Noobia.Sequence.Service

/-!
# What holds of the sequencer between operations

`Sequencer.Ok` is the state invariant: a channel is flagged busy exactly while its track is active,
the sequencer is running exactly while some track is, and an active track has a bit to play next.

The operations keep it because they refuse to edit a running sequence.  `tick` is the difficult one.
It holds on to a track while that track's native function stops, clears, reloads or ticks the
sequencer, and the bookkeeping it then does may be on a track it has never seen.  What makes it work
is that the tick only ever calls a function for an *active* track.  Half way through the loop the
sequencer may be running with no track left, `Sequencer.Between`, but never at a call, so a native
function finds the invariant in place and by `Script.exec_invariant` leaves it in place.
-/

namespace Noobia

open List Function

/-! ## The invariant -/

/-- A track that has been given a pattern. -/
structure Track.Wf (track : Track) : Prop where
  bitCount_pos : 0 < track.bitCount
  bitCount_le : track.bitCount ≤ 64
  bits_length : track.bits.length = track.bitCount
  interval_pos : 1 ≤ track.intervalMs
  interval_le : track.intervalMs ≤ 60000
  channel : track.channel.Wf

/-- Where a track is in its pattern is not part of its form. -/
theorem Track.Wf.congr {track : Track} (h : track.Wf) {active : Bool} {nextAt position : Nat} :
    Track.Wf { track with active, nextAt, position } :=
  ⟨h.bitCount_pos, h.bitCount_le, h.bits_length, h.interval_pos, h.interval_le, h.channel⟩

/-- What holds of every track. -/
structure Track.Ok (track : Track) : Prop where
  wf : track.configured = true → track.Wf
  /-- An active track is configured and has a bit to play. -/
  active : track.active = true → track.configured = true ∧ track.position < track.bitCount

theorem Track.ok_default : Track.Ok {} := ⟨nofun, nofun⟩

/-- A track that was just configured is not yet active. -/
theorem Track.Wf.ok {track : Track} (h : track.Wf) (hactive : track.active = false) : track.Ok :=
  ⟨fun _ ↦ h, fun h' ↦ absurd (hactive.symm.trans h') (by decide)⟩

namespace Sequencer

/-- Some track is active. -/
def Playing (s : Sequencer) : Prop := ∃ slot, (s.tracks slot).active = true
  deriving Decidable

/-- The tracks are in order and the busy flags are theirs. -/
structure Sound (s : Sequencer) : Prop where
  tracks : ∀ slot, (s.tracks slot).Ok
  busy : ∀ slot, s.channelBusy slot = (s.tracks slot).active

/-- **The state invariant.** -/
structure Ok (s : Sequencer) : Prop extends s.Sound where
  /-- The sequencer runs while some track is active. -/
  running : s.running = true ↔ s.Playing

/-- What holds between two iterations of `tick`: having made a call, it may still be running after
the last track has ended. -/
structure Between (s : Sequencer) (invoked : Bool) : Prop extends s.Sound where
  /-- Nothing plays while the sequencer is stopped. -/
  running : s.Playing → s.running = true
  /-- The sequencer runs on without a track only after a call. -/
  invoked : s.running = true → s.Playing ∨ invoked = true

theorem Ok.between {s : Sequencer} (h : s.Ok) (invoked : Bool) : s.Between invoked :=
  ⟨h.toSound, h.running.mpr, fun hrun ↦ .inl (h.running.mp hrun)⟩

/-- **Wherever a track is active, the invariant is whole.** -/
theorem Between.ok {s : Sequencer} {invoked : Bool} (h : s.Between invoked) (hplay : s.Playing) :
    s.Ok :=
  ⟨h.toSound, fun _ ↦ hplay, h.running⟩

theorem ok_begin (s : Sequencer) (directory : List NativeRegistry.Signature) :
    (s.begin directory).Ok :=
  ⟨⟨fun _ ↦ Track.ok_default, fun _ ↦ rfl⟩, nofun, fun ⟨_, h⟩ ↦ nomatch h⟩

/-! ## Writes -/

section Writes

variable {s : Sequencer}

theorem Ok.idle (h : s.Ok) (hrun : s.running = false) (slot : Slot) :
    (s.tracks slot).active = false := by
  cases hactive : (s.tracks slot).active with
  | false => rfl
  | true => exact absurd (hrun.symm.trans (h.running.mpr ⟨slot, hactive⟩)) (by decide)

/-- Replacing the tracks of a stopped sequencer by others that are not active. -/
theorem Ok.replaceTracks (h : s.Ok) (hrun : s.running = false) {tracks : Slot → Track}
    (hok : ∀ slot, (tracks slot).Ok) (hidle : ∀ slot, (tracks slot).active = false) :
    Ok { s with tracks := tracks } := by
  refine ⟨⟨hok, fun slot ↦ ?_⟩, fun h' ↦ ?_, ?_⟩
  · exact (h.busy slot).trans ((h.idle hrun slot).trans (hidle slot).symm)
  · exact absurd (hrun.symm.trans h') (by decide)
  · rintro ⟨slot, hactive⟩
    exact absurd ((hidle slot).symm.trans hactive) (by decide)

variable {track : Track} {slot : Slot} {f : NoobProgramChannel → NoobProgramChannel}

/-- A track and its busy flag are written together. -/
theorem Sound.update (h : s.Sound) (slot : Slot) (hok : track.Ok) :
    Sound
      { s with
        tracks := Function.update s.tracks slot track
        channelBusy := Function.update s.channelBusy slot track.active } := by
  refine ⟨fun i ↦ ?_, fun i ↦ ?_⟩
  · by_cases hi : i = slot
    · subst hi
      simpa using hok
    · simpa [hi] using h.tracks i
  · by_cases hi : i = slot
    · subst hi
      simp
    · simpa [hi] using h.busy i

/-- A track written alone must agree with its busy flag. -/
theorem Sound.setTrack (h : s.Sound) (hok : track.Ok)
    (hactive : track.active = (s.tracks slot).active) : (s.setTrack slot track).Sound := by
  have hbusy := h.update slot hok
  rwa [hactive, ← h.busy slot, update_eq_self] at hbusy

theorem Ok.setTrack (h : s.Ok) (hrun : s.running = false) (hok : track.Ok)
    (hidle : track.active = false) : (s.setTrack slot track).Ok := by
  refine ⟨h.toSound.setTrack hok (hidle.trans (h.idle hrun slot).symm), fun h' ↦ ?_, ?_⟩
  · exact absurd (hrun.symm.trans h') (by decide)
  rintro ⟨i, hactive⟩
  rw [setTrack_tracks] at hactive
  by_cases hi : i = slot
  · subst hi
    simp [hidle] at hactive
  · simp [hi, h.idle hrun i] at hactive

/-- Writing to a channel does not touch what `active` and `running` are about. -/
theorem updateChannel_active (slot : Slot) (f : NoobProgramChannel → NoobProgramChannel)
    (i : Slot) : ((s.updateChannel slot f).tracks i).active = (s.tracks i).active := by
  rw [updateChannel, setTrack_tracks]
  by_cases hi : i = slot
  · subst hi
    simp only [update_self]
  · simp only [update_of_ne hi]

theorem Sound.updateChannel (h : s.Sound) (slot : Slot) (hf : ∀ c, c.Wf → (f c).Wf) :
    (s.updateChannel slot f).Sound := by
  refine h.setTrack ⟨fun hconf ↦ ?_, (h.tracks slot).active⟩ rfl
  obtain ⟨h1, h2, h3, h4, h5, h6⟩ := (h.tracks slot).wf hconf
  exact ⟨h1, h2, h3, h4, h5, hf _ h6⟩

theorem playing_updateChannel (slot : Slot) (f : NoobProgramChannel → NoobProgramChannel) :
    (s.updateChannel slot f).Playing ↔ s.Playing := by
  simp only [Playing, updateChannel_active]

theorem Ok.updateChannel (h : s.Ok) (slot : Slot) (hf : ∀ c, c.Wf → (f c).Wf) :
    (s.updateChannel slot f).Ok :=
  ⟨h.toSound.updateChannel slot hf, h.running.trans (playing_updateChannel slot f).symm⟩

theorem Ok.setResults (h : s.Ok) (slot : Slot) (f : NoobProgramChannel → NoobRecordQueue) :
    (s.updateChannel slot fun c ↦ { c with results := f c }).Ok :=
  h.updateChannel slot fun _ hc ↦ ⟨hc.arguments_le, hc.ascii_le, hc.ascii_printable⟩

/-- What was popped last is not part of the invariant. -/
theorem Ok.congr {s' : Sequencer} (h : s.Ok) (htracks : s'.tracks = s.tracks)
    (hbusy : s'.channelBusy = s.channelBusy) (hrun : s'.running = s.running) : s'.Ok := by
  obtain ⟨⟨h1, h2⟩, h3⟩ := h
  refine ⟨⟨?_, ?_⟩, ?_⟩
  · rwa [htracks]
  · rwa [htracks, hbusy]
  · rwa [Playing, htracks, hrun]

theorem Sound.stopAll (h : s.Sound) : s.stopAll.Ok := by
  refine ⟨⟨fun slot ↦ ⟨fun hconf ↦ ?_, nofun⟩, fun _ ↦ rfl⟩, nofun, fun ⟨_, h⟩ ↦ nomatch h⟩
  exact ((h.tracks slot).wf hconf).congr

end Writes

/-! ## Operations -/

section Operations

variable {s : Sequencer}

/-- The operation fails and changes nothing, or it succeeds, names a slot, and gives that slot of a
stopped sequencer a new pattern. -/
def Edited (s : Sequencer) (r : NativeResult × Sequencer) : Prop :=
  (r.1.ok = false ∧ r.2 = s) ∨
    r.1.ok = true ∧ s.running = false ∧ ∃ slot : Slot, r.1.value = slot.val ∧
      ∃ track : Track, track.Wf ∧ track.active = false ∧ r.2 = s.setTrack slot track

theorem edited_fail (detail : String) : Edited s (.fail detail, s) := .inl ⟨rfl, rfl⟩

theorem Edited.ok {r : NativeResult × Sequencer} (he : Edited s r) (h : s.Ok) : r.2.Ok := by
  rcases he with ⟨-, hr⟩ | ⟨-, hrun, slot, -, track, hwf, hidle, hr⟩
  · rw [hr]
    exact h
  · rw [hr]
    exact h.setTrack hrun (hwf.ok hidle) hidle

theorem edited_set (arguments : Bytes) : Edited s (s.set arguments) := by
  rw [set]
  split
  · exact edited_fail _
  rename_i hrun
  dsimp only
  split
  · exact edited_fail _
  split
  · exact edited_fail _
  rename_i hinterval
  split
  · exact edited_fail _
  rename_i hbits
  split
  · exact edited_fail _
  split
  · exact edited_fail _
  split
  · exact edited_fail _
  simp only [not_or, Int.not_lt, Nat.not_lt, List.isEmpty_iff, maxIntervalMs,
    maxBits] at hinterval hbits
  refine .inr ⟨rfl, by simpa using hrun, _, rfl, _,
    ⟨?_, hbits.2.2, rfl, ?_, ?_, ?_⟩, rfl, rfl⟩
  · exact length_pos_iff.mpr hbits.2.1
  · show 1 ≤ Int.toNat _
    omega
  · show Int.toNat _ ≤ 60000
    omega
  · exact (NoobProgramChannel.wf_default.configure _ _ _).configure _ _ _

theorem edited_setPacked (hrun : s.running = false) {interval bitCount : Int}
    (hinterval : 1 ≤ interval ∧ interval ≤ 60000) (hcount : 1 ≤ bitCount ∧ bitCount ≤ 32)
    (slot : Slot) (functionId packed : Int) (fixedArguments : List Int) (ascii : Bytes)
    (appendInput : Bool) :
    Edited s
      (s.setPacked slot interval functionId bitCount packed fixedArguments ascii appendInput) := by
  rw [setPacked]
  split
  · exact edited_fail _
  split
  · exact edited_fail _
  split
  · exact edited_fail _
  split
  · exact edited_fail _
  rename_i channel hchannel
  refine .inr ⟨rfl, hrun, slot, rfl, _, ⟨?_, ?_, ?_, ?_, ?_, ?_⟩, rfl, rfl⟩
  · show 0 < Int.toNat _
    omega
  · show Int.toNat _ ≤ 64
    omega
  · simp only [unpackBits, length_map, length_range]
  · show 1 ≤ Int.toNat _
    omega
  · show Int.toNat _ ≤ 60000
    omega
  · exact (NoobProgramChannel.configure_eq_some hchannel).1

variable (arguments : List Int) {track : Track} {channels : List ChannelDefinition}
  {loaded : List Track}

theorem edited_setNumeric (ascii : Bytes) (appendInput : Bool) :
    Edited s (s.setNumeric arguments ascii appendInput) := by
  unfold setNumeric
  split
  · exact edited_fail _
  rename_i hrun
  split
  · split
    · exact edited_fail _
    split
    · exact edited_fail _
    rename_i hinterval
    split
    · exact edited_fail _
    split
    · exact edited_fail _
    rename_i hcount
    simp only [not_or, Int.not_lt, maxIntervalMs] at hinterval hcount
    exact edited_setPacked (by simpa using hrun) hinterval hcount ..
  · exact edited_fail _

theorem edited_setMixed (ascii : Bytes) : Edited s (s.setMixed arguments ascii) := by
  rw [setMixed]
  split
  · exact edited_fail _
  · exact edited_setNumeric ..

/-- A channel that passes the checks of `load` makes a well-formed track with its pattern. -/
theorem of_loadChannel {source : ChannelDefinition} (h : s.loadChannel source = .ok track) :
    track.Wf ∧ track.configured = true ∧ track.active = false ∧
      track.bitCount = source.bits.length ∧
      track.bits = source.bits.map (fun bit ↦ bitChar (bit ≠ 0)) ∧
      (∀ bit ∈ source.bits, bit ≤ 1) ∧ track.appendInput = source.appendInput := by
  rw [loadChannel] at h
  split at h
  · cases h
  rename_i hdef
  simp only [not_or, List.isEmpty_iff, Nat.not_lt, maxBits, maxIntervalMs] at hdef
  obtain ⟨hne, hlen, hzero, hinterval, -⟩ := hdef
  split at h
  · cases h
  split at h
  · cases h
  split at h
  · cases h
  rename_i hbits
  split at h
  · cases h
  rename_i channel hchannel
  obtain rfl := Except.ok.inj h
  obtain ⟨ascii, -, hconf⟩ := Option.bind_eq_some_iff.mp hchannel
  refine ⟨⟨length_pos_iff.mpr hne, hlen, length_map .., ?_, hinterval, ?_⟩, rfl, rfl, rfl, rfl,
    fun bit hbit ↦ ?_, rfl⟩
  · exact Nat.one_le_iff_ne_zero.mpr hzero
  · exact (NoobProgramChannel.configure_eq_some hconf).1
  · simp only [any_eq_true, decide_eq_true_eq, not_exists, not_and] at hbits
    exact UInt8.not_lt.mp (hbits bit hbit)

theorem getElem?_loadChannels {slot : Nat} (h : s.loadChannels slot channels = .ok loaded)
    (i : Nat) :
    match channels[i]? with
    | none => loaded[i]? = none
    | some source => ∃ track, loaded[i]? = some track ∧ s.loadChannel source = .ok track := by
  induction channels generalizing slot loaded i with
  | nil =>
    obtain rfl := Except.ok.inj h
    rfl
  | cons source channels ih =>
    rw [loadChannels] at h
    split at h
    · cases h
    rename_i track htrack
    cases hrest : s.loadChannels (slot + 1) channels with
    | error e =>
      rw [hrest] at h
      cases h
    | ok rest =>
      rw [hrest] at h
      obtain rfl := Except.ok.inj h
      cases i with
      | zero => exact ⟨track, rfl, htrack⟩
      | succ i => exact ih hrest i

/-- Nothing that `load` stores is playing. -/
theorem holding_tracks {slot : Nat} (h : s.loadChannels slot channels = .ok loaded) (i : Slot) :
    ((s.holding loaded).tracks i).Ok ∧ ((s.holding loaded).tracks i).active = false := by
  have hslot := getElem?_loadChannels h i.val
  rw [holding]
  dsimp only
  split at hslot
  · rw [hslot]
    exact ⟨Track.ok_default, rfl⟩
  · obtain ⟨track, htrack, hsource⟩ := hslot
    obtain ⟨hwf, -, hidle, -⟩ := of_loadChannel hsource
    rw [htrack]
    exact ⟨hwf.ok hidle, hidle⟩

/-- `load` fails and changes nothing, or gives every slot of a stopped sequencer a new track. -/
theorem load_cases (channels : List ChannelDefinition) :
    ((s.load channels).1.ok = false ∧ (s.load channels).2 = s) ∨
      (s.load channels).1.ok = true ∧ s.running = false ∧ 0 < channels.length ∧
        channels.length ≤ 4 ∧ ∃ loaded, s.loadChannels 0 channels = .ok loaded ∧
          s.load channels = (⟨true, channels.length, "channels=" ++ toString channels.length,
            .empty⟩, s.holding loaded) := by
  rw [load]
  split
  · exact .inl ⟨rfl, rfl⟩
  rename_i hrun
  split
  · exact .inl ⟨rfl, rfl⟩
  rename_i hlen
  split
  · exact .inl ⟨rfl, rfl⟩
  rename_i loaded hloaded
  simp only [List.isEmpty_iff, maxTracks, not_or, Nat.not_lt] at hlen
  exact .inr ⟨rfl, by simpa using hrun, length_pos_iff.mpr hlen.1, hlen.2, loaded,
    hloaded, rfl⟩

theorem Ok.load (h : s.Ok) (channels : List ChannelDefinition) : (s.load channels).2.Ok := by
  obtain ⟨-, h'⟩ | ⟨-, hrun, -, -, loaded, hloaded, h'⟩ := s.load_cases channels
  · rw [h']
    exact h
  rw [h']
  exact h.replaceTracks hrun (fun slot ↦ (holding_tracks hloaded slot).1)
    fun slot ↦ (holding_tracks hloaded slot).2

theorem configuredCount_ne_zero :
    s.configuredCount ≠ 0 ↔ ∃ slot, (s.tracks slot).configured = true := by
  rw [configuredCount, ← Nat.pos_iff_ne_zero, countP_pos_iff]
  exact ⟨fun ⟨slot, _, h⟩ ↦ ⟨slot, h⟩, fun ⟨slot, h⟩ ↦ ⟨slot, mem_finRange slot, h⟩⟩

/-- When `start` accepts. -/
theorem start_eq {arguments : List Int}
    (harguments : arguments = [] ∨ arguments = [0] ∨ arguments = [1]) (hrun : s.running = false)
    (hconf : ∃ slot, (s.tracks slot).configured = true) (now : Nat) :
    (s.start arguments now).1.ok = true ∧
      (s.start arguments now).2 = s.started (arguments = [1]) now := by
  rw [Sequencer.start, if_neg (not_not.mpr harguments), if_neg (by simp [hrun]),
    if_neg (configuredCount_ne_zero.mpr hconf)]
  exact ⟨rfl, rfl⟩

theorem Ok.started (h : s.Ok) (hconf : ∃ slot, (s.tracks slot).configured = true)
    (repeating : Bool) (now : Nat) : (s.started repeating now).Ok := by
  refine ⟨⟨fun i ↦ ⟨fun hconf ↦ ((h.tracks i).wf hconf).congr, fun hactive ↦ ⟨hactive, ?_⟩⟩,
    fun _ ↦ rfl⟩, fun _ ↦ hconf, fun _ ↦ rfl⟩
  exact ((h.tracks i).wf hactive).bitCount_pos

/-- `start` fails and changes nothing, or starts a stopped sequencer. -/
theorem start_cases (now : Nat) :
    ((s.start arguments now).1.ok = false ∧ (s.start arguments now).2 = s) ∨
      (s.start arguments now).1.ok = true ∧ s.running = false ∧
        (∃ slot, (s.tracks slot).configured = true) ∧
        (s.start arguments now).2 = s.started (arguments = [1]) now := by
  rw [start]
  split
  · exact .inl ⟨rfl, rfl⟩
  split
  · exact .inl ⟨rfl, rfl⟩
  rename_i hrun
  split
  · exact .inl ⟨rfl, rfl⟩
  · rename_i hcount
    exact .inr ⟨rfl, by simpa using hrun, configuredCount_ne_zero.mp hcount, rfl⟩

theorem Ok.start (h : s.Ok) (arguments : List Int) (now : Nat) : (s.start arguments now).2.Ok := by
  obtain ⟨-, h'⟩ | ⟨-, -, hconf, h'⟩ := s.start_cases arguments now
  · rw [h']
    exact h
  · rw [h']
    exact h.started hconf _ _

theorem Ok.stop (h : s.Ok) (arguments : List Int) : (s.stop arguments).2.Ok := by
  rw [Sequencer.stop]
  split
  · exact h
  · exact h.toSound.stopAll

/-- `clear` fails and changes nothing, or empties every slot or the one it names. -/
theorem clear_cases :
    ((s.clear arguments).1.ok = false ∧ (s.clear arguments).2 = s) ∨
      (s.clear arguments).1.ok = true ∧ s.running = false ∧
        (arguments = [] ∧ (s.clear arguments).2 = { s with tracks := fun _ ↦ {} } ∨
          ∃ slot : Slot, arguments = [(slot.val : Int)] ∧
            (s.clear arguments).2 = s.setTrack slot {}) := by
  unfold clear
  split
  · exact .inl ⟨rfl, rfl⟩
  rename_i hrun
  have hrun : s.running = false := by simpa using hrun
  split
  · exact .inr ⟨rfl, hrun, .inl ⟨rfl, rfl⟩⟩
  · rename_i value
    split
    · exact .inl ⟨rfl, rfl⟩
    rename_i slot hslot
    refine .inr ⟨rfl, hrun, .inr ⟨slot, ?_, rfl⟩⟩
    rw [slot?] at hslot
    split at hslot
    · rename_i hvalue
      obtain rfl := Option.some.inj hslot
      rw [Int.toNat_of_nonneg hvalue.1]
    · cases hslot
  · exact .inl ⟨rfl, rfl⟩

theorem Ok.clear (h : s.Ok) (arguments : List Int) : (s.clear arguments).2.Ok := by
  obtain ⟨-, h'⟩ | ⟨-, hrun, ⟨-, h'⟩ | ⟨slot, -, h'⟩⟩ := s.clear_cases arguments
  · rw [h']
    exact h
  · rw [h']
    exact h.replaceTracks hrun (fun _ ↦ Track.ok_default) fun _ ↦ rfl
  · rw [h']
    exact h.setTrack hrun Track.ok_default rfl

theorem Ok.pop (h : s.Ok) (arguments : List Int) : (s.pop arguments).2.Ok := by
  rw [Sequencer.pop]
  split
  · exact h
  split
  · exact h
  · rename_i slot _ _ record queue _
    exact (h.setResults slot fun _ ↦ queue).congr rfl rfl rfl

theorem Ok.clearQueue (h : s.Ok) (arguments : List Int) : (s.clearQueue arguments).2.Ok := by
  rw [Sequencer.clearQueue]
  split
  · exact h
  · rename_i slot _
    exact (h.setResults slot fun c ↦ c.results.clear).congr rfl rfl rfl

theorem Ok.effect (h : s.Ok) (op : SeqOp) : (op.effect s).Ok := by
  cases op with
  | set arguments => exact (edited_set arguments).ok h
  | setMixed arguments ascii => exact (edited_setMixed arguments ascii).ok h
  | setNumeric arguments ascii appendInput =>
    exact (edited_setNumeric arguments ascii appendInput).ok h
  | load channels => exact h.load channels
  | start arguments now => exact h.start arguments _
  | stop arguments => exact h.stop arguments
  | clear arguments => exact h.clear arguments
  | pop arguments => exact h.pop arguments
  | clearQueue arguments => exact h.clearQueue arguments
  | tick now => exact h

end Operations

theorem advance_active {s : Sequencer} (now : Nat) (slot : Slot) :
    ((s.tracks slot).advance now s.repeating).active =
      ((s.tracks slot).active && !(s.tracks slot).ends s.repeating) := by
  simp only [Track.advance, Track.ends]
  split
  · rename_i hpos
    simp [hpos]
  · rename_i hpos
    cases s.repeating <;> simp [hpos]

/-- The bookkeeping after a call is harmless, whatever track it happens to find. -/
theorem Sound.advance {s : Sequencer} (h : s.Sound) (now : Nat) (slot : Slot) :
    (s.advance now slot).Sound := by
  have htrack := h.tracks slot
  have hok : ((s.tracks slot).advance now s.repeating).Ok := by
    rw [Track.advance]
    dsimp only
    split
    · rename_i hpos
      exact ⟨fun hconf ↦ (htrack.wf hconf).congr, fun hactive ↦ ⟨(htrack.active hactive).1, hpos⟩⟩
    split
    · refine ⟨fun hconf ↦ (htrack.wf hconf).congr, fun hactive ↦ ⟨(htrack.active hactive).1, ?_⟩⟩
      exact (htrack.wf (htrack.active hactive).1).bitCount_pos
    · exact ⟨fun hconf ↦ (htrack.wf hconf).congr, nofun⟩
  have hactive := advance_active (s := s) now slot
  rw [Sequencer.advance]
  cases hends : (s.tracks slot).ends s.repeating with
  | false =>
    rw [hends, Bool.not_false, Bool.and_true] at hactive
    exact h.setTrack hok hactive
  | true =>
    rw [hends, Bool.not_true, Bool.and_false] at hactive
    have hboth := h.update slot hok
    rwa [hactive] at hboth

theorem active_of_advance {s : Sequencer} {now : Nat} {slot i : Slot}
    (h : ((s.advance now slot).tracks i).active = true) : (s.tracks i).active = true := by
  rw [advance_tracks] at h
  by_cases hi : i = slot
  · subst hi
    rw [update_self, advance_active, Bool.and_eq_true] at h
    exact h.1
  · rwa [update_of_ne hi] at h

theorem activeCount_eq_zero {s : Sequencer} : s.activeCount = 0 ↔ ¬ s.Playing := by
  simp [activeCount, Playing, countP_eq_zero]

end Sequencer

/-! ## Ticks -/

namespace SequenceRunner

open Proc Sequencer

variable {W : Type} {natives : SeqNatives W} {perform : SeqOp → W × Sequencer → W × Sequencer}

section

variable (hperform : ∀ op q, q.2.Ok → (perform op q).2.Ok)

include hperform

variable {t : Tick W}

/-- A call finds the invariant and leaves it, whatever the function does to the sequencer. -/
theorem invoke_ok (h : t.seq.Ok) (slot : Slot) : (invoke natives perform slot t).seq.Ok := by
  have hbusy : (t.seq.updateChannel slot fun c ↦ { c with busy := true }).Ok :=
    h.updateChannel slot fun _ hc ↦ ⟨hc.arguments_le, hc.ascii_le, hc.ascii_printable⟩
  rw [invoke]
  dsimp only
  split
  · exact hbusy.updateChannel slot fun _ hc ↦ hc.missing
  refine Ok.updateChannel ?_ slot fun _ hc ↦ hc.finished _
  exact Script.exec_invariant perform (Script.issues_true _) (fun op q _ hq ↦ hperform op q hq)
    hbusy

omit hperform in
theorem invoke_invoked (slot : Slot) (t : Tick W) :
    (invoke natives perform slot t).invoked = true := by
  rw [invoke]
  dsimp only
  split <;> rfl

theorem service_wp (h : t.seq.Between t.invoked) (now : Nat) (slot : Slot) :
    Wp (service natives perform now slot) (fun _ t ↦ t.seq.Between t.invoked) (fun t ↦ t.seq.Ok)
      t := by
  refine wp_bind (wp_read (wp_ite (fun _ ↦ wp_pure h) fun hdue ↦ ?_))
  rw [not_or, Bool.not_eq_false] at hdue
  have hok : t.seq.Ok := h.ok ⟨slot, hdue.1⟩
  refine wp_bind (wp_change (wp_bind (wp_read (wp_ite (fun _ ↦ ?_) fun _ ↦ wp_change ?_))))
  · exact wp_bind (wp_change (wp_exit (invoke_ok hperform hok slot).toSound.stopAll))
  have hnext : (invoke natives perform slot t).seq.Ok := invoke_ok hperform hok slot
  refine ⟨hnext.toSound.advance now slot, ?_, fun _ ↦ .inr (invoke_invoked slot t)⟩
  rintro ⟨i, hi⟩
  exact hnext.running.mpr ⟨i, active_of_advance hi⟩

theorem services_wp (now : Nat) (slots : List Slot) (h : t.seq.Between t.invoked) :
    Wp (services natives perform now slots) (fun _ t ↦ t.seq.Between t.invoked)
      (fun t ↦ t.seq.Ok) t := by
  induction slots generalizing t with
  | nil => exact wp_pure h
  | cons slot slots ih =>
    exact wp_bind ((service_wp hperform h now slot).mono (fun _ _ h' ↦ ih h') fun _ h' ↦ h')

omit hperform in
/-- The last lines of the tick make good what the loop left open. -/
theorem finish_ok (h : t.seq.Between t.invoked) : (finish t).seq.Ok := by
  rw [finish]
  split
  · rename_i hend
    have hplay := activeCount_eq_zero.mp hend.2
    exact ⟨⟨h.tracks, h.busy⟩, nofun, fun h' ↦ absurd h' hplay⟩
  rename_i hend
  by_cases hplay : t.seq.Playing
  · exact h.ok hplay
  refine ⟨h.toSound, fun hrun ↦ ?_, fun h' ↦ absurd h' hplay⟩
  rcases h.invoked hrun with h' | h'
  · exact h'
  · exact absurd ⟨h', activeCount_eq_zero.mpr hplay⟩ hend

theorem tickFrom_ok (h : t.seq.Between t.invoked) (now : Nat) (slots : List Slot) :
    ((tickFrom natives perform now slots).final t).seq.Ok := by
  refine Wp.final (R := fun t : Tick W ↦ t.seq.Ok) (wp_bind ?_)
  exact (services_wp hperform now slots h).mono (fun _ _ h' ↦ wp_change (finish_ok h'))
    fun _ h' ↦ h'

theorem tick_ok {p : W × Sequencer} (h : p.2.Ok) (now : Nat) :
    (tick natives perform now p).seq.Ok := by
  rw [tick]
  split
  · exact h
  · exact tickFrom_ok hperform (h.between _) now _

end

end SequenceRunner

namespace SeqOp

variable {W : Type} (natives : SeqNatives W)

theorem perform_ok (depth : Nat) (op : SeqOp) {p : W × Sequencer} (h : p.2.Ok) :
    (op.perform natives depth p).2.Ok := by
  induction depth generalizing op p with
  | zero => exact h.effect op
  | succ depth ih =>
    cases op with
    | tick now => exact SequenceRunner.tick_ok (fun op q hq ↦ ih op hq) h _
    | _ =>
      simp only [perform]
      exact h.effect _

theorem runOps_ok (depth : Nat) (ops : List SeqOp) {p : W × Sequencer} (h : p.2.Ok) :
    (runOps natives depth ops p).2.Ok := by
  induction ops generalizing p with
  | nil => exact h
  | cons op ops ih => exact ih (perform_ok natives depth op h)

end SeqOp

/-- **The sequencer's state invariant.**  After any history of operations and ticks, with native
functions that use any of these operations while a tick is calling them, ticks included and to any
depth, a channel is busy exactly while its track is active, the sequencer is running exactly while
some track is, and every active track is configured with a bit to play and a sane interval. -/
theorem Sequencer.state_invariant {W : Type} (natives : SeqNatives W) (depth : Nat)
    (ops : List SeqOp) (world : W) (s : Sequencer) (directory : List NativeRegistry.Signature) :
    let s' := (SeqOp.runOps natives depth ops (world, s.begin directory)).2
    (∀ slot, s'.channelBusy slot = (s'.tracks slot).active) ∧
    (s'.running = true ↔ ∃ slot, (s'.tracks slot).active = true) ∧
    ∀ slot, (s'.tracks slot).active = true →
      (s'.tracks slot).configured = true ∧ (s'.tracks slot).position < (s'.tracks slot).bitCount ∧
        (s'.tracks slot).bitCount ≤ 64 ∧ 1 ≤ (s'.tracks slot).intervalMs ∧
        (s'.tracks slot).intervalMs ≤ 60000 := by
  intro s'
  have h : s'.Ok := SeqOp.runOps_ok natives depth ops (ok_begin s directory)
  refine ⟨h.busy, h.running, fun slot hactive ↦ ?_⟩
  obtain ⟨hconf, hpos⟩ := (h.tracks slot).active hactive
  have hwf := (h.tracks slot).wf hconf
  exact ⟨hconf, hpos, hwf.bitCount_le, hwf.interval_pos, hwf.interval_le⟩

end Noobia
