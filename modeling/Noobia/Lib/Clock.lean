import Mathlib

/-!
# A wrapping millisecond clock

`millis()` counts milliseconds modulo `2 ^ 32`, and a deadline is kept as one of its readings.
Whether a deadline has passed is then asked of the *signed* difference of two readings, which is
the true difference as long as the two instants lie less than `2 ^ 31` milliseconds apart, wherever
the clock wrapped in between.

An `Alarm` is what such a deadline stands for: the true time at which it was set, and how long it
is to run.  A `Watch` keeps the alarms of a program and a list of all the times it looked whether
one of them was over, each with what it found.  `Watch.Holds.check` is the rule: if the program's
deadline is the alarm's, then what it finds is right.
-/

namespace Clock

/-- `static_cast<int32_t>(now - at)` for two `uint32_t` readings. -/
def since (now at' : Nat) : Int := Int.bmod ((now : Int) - at') (2 ^ 32)

/-- The deadline `at'` still lies ahead of `now`. -/
def before (now at' : Nat) : Bool := since now at' < 0

/-- What a clock shows at the true time `t`. -/
def millis (t : Nat) : Nat := t % 2 ^ 32

/-- **Deadlines survive the wrap**: as long as the two instants are less than half a turn apart. -/
theorem before_millis {now at' : Nat} (h1 : now < at' + 2 ^ 31) (h2 : at' ≤ now + 2 ^ 31) :
    before (millis now) (millis at') = decide (now < at') := by
  have hsince : since (millis now) (millis at') = (now : Int) - at' := by
    have hmod : ((millis now : Int) - millis at') % (2 ^ 32 : Nat) =
        ((now : Int) - at') % (2 ^ 32 : Nat) := by
      rw [millis, millis]
      omega
    rw [since, ← Int.emod_bmod, hmod, Int.emod_bmod]
    exact Int.bmod_eq_of_le (by omega) (by omega)
  rw [before, hsince]
  exact decide_eq_decide.mpr (by omega)

/-- Adding an interval to a reading is reading later. -/
theorem millis_add (t d : Nat) : (millis t + d) % 2 ^ 32 = millis (t + d) := by
  rw [millis, millis, Nat.mod_add_mod]

/-! ## Alarms -/

/-- An alarm, in true time. -/
structure Alarm where
  armedAt : Nat
  interval : Nat
  deriving DecidableEq

/-- When it is over. -/
def Alarm.deadline (a : Alarm) : Nat := a.armedAt + a.interval

/-- A look at an alarm. -/
structure Check where
  alarm : Alarm
  /-- The true time. -/
  time : Nat
  /-- It was found to be over. -/
  fired : Bool
  deriving DecidableEq

/-- The alarm runs for less than half a turn of the clock, and the look at it comes less than half a
turn after it is over. -/
def Check.Timely (c : Check) : Prop :=
  c.alarm.interval < 2 ^ 31 ∧ c.alarm.armedAt ≤ c.time ∧ c.time < c.alarm.deadline + 2 ^ 31
  deriving Decidable

/-- The alarm is found to be over when its time has passed, and only then. -/
def Check.Exact (c : Check) : Prop :=
  c.fired = true ↔ c.alarm.interval ≤ c.time - c.alarm.armedAt
  deriving Decidable

variable {a : Alarm}

/-- **A deadline kept as a reading tells the true time.** -/
theorem exact_of_timely {time : Nat} {fired : Bool}
    (hfired : fired = !before (millis time) (millis a.deadline))
    (h : (⟨a, time, fired⟩ : Check).Timely) : (⟨a, time, fired⟩ : Check).Exact := by
  obtain ⟨hinterval, harmed, htime⟩ := h
  dsimp only at hinterval harmed htime
  have hdeadline : a.deadline = a.armedAt + a.interval := rfl
  rw [before_millis (by omega) (by omega)] at hfired
  rw [Check.Exact, hfired, Bool.not_eq_true', decide_eq_false_iff_not]
  dsimp only
  omega

/-- The alarms of a program, one for each place, and the looks at them so far. -/
structure Watch (ι : Type) where
  /-- The alarm set last. -/
  alarms : ι → Alarm
  checks : List Check

namespace Watch

variable {ι : Type}

/-- Nothing has been set, and nothing looked at. -/
def start : Watch ι := ⟨fun _ ↦ ⟨0, 0⟩, []⟩

/-- A look at an alarm. -/
def check (i : ι) (time : Nat) (fired : Bool) (w : Watch ι) : Watch ι :=
  { w with checks := w.checks ++ [⟨w.alarms i, time, fired⟩] }

/-- Every alarm is set anew. -/
def armAll (a : Alarm) (w : Watch ι) : Watch ι := { w with alarms := fun _ ↦ a }

/-- An alarm is set anew. -/
def arm [DecidableEq ι] (i : ι) (a : Alarm) (w : Watch ι) : Watch ι :=
  { w with alarms := Function.update w.alarms i a }

theorem arm_alarms [DecidableEq ι] (i : ι) (a : Alarm) (w : Watch ι) :
    (w.arm i a).alarms = Function.update w.alarms i a := rfl

/-- Every look in time was right. -/
def Sound (w : Watch ι) : Prop := ∀ c ∈ w.checks, c.Timely → c.Exact

/-- The deadlines a program keeps, where it keeps one, are those of the alarms; and every look in
time was right. -/
structure Holds (deadline : ι → Option Nat) (w : Watch ι) : Prop where
  kept : ∀ i reading, deadline i = some reading → reading = millis (w.alarms i).deadline
  sound : w.Sound

variable {deadline deadline' : ι → Option Nat} {w : Watch ι}

theorem holds_start : Holds (fun _ ↦ none) (start : Watch ι) := ⟨nofun, nofun⟩

theorem Holds.congr (h : Holds deadline w)
    (hkept : ∀ i reading, deadline' i = some reading → deadline i = some reading) :
    Holds deadline' w :=
  ⟨fun i reading hi ↦ h.kept i reading (hkept i reading hi), h.sound⟩

theorem Holds.check (h : Holds deadline w) {i : ι} {reading : Nat}
    (hi : deadline i = some reading) {time : Nat} {fired : Bool}
    (hfired : fired = !before (millis time) reading) : Holds deadline (w.check i time fired) := by
  refine ⟨h.kept, fun c hc ↦ ?_⟩
  rcases List.mem_append.mp hc with hold | hnew
  · exact h.sound c hold
  obtain rfl := List.mem_singleton.mp hnew
  rw [h.kept i reading hi] at hfired
  exact exact_of_timely hfired

/-- An alarm is set where the program writes a deadline. -/
theorem Holds.arm [DecidableEq ι] (h : Holds deadline w) {i : ι}
    (hi : ∀ reading, deadline' i = some reading → reading = millis a.deadline)
    (hother : ∀ j reading, j ≠ i → deadline' j = some reading → deadline j = some reading) :
    Holds deadline' (w.arm i a) := by
  refine ⟨fun j reading hj ↦ ?_, h.sound⟩
  by_cases hij : j = i
  · obtain rfl := hij
    rw [arm_alarms, Function.update_self]
    exact hi reading hj
  · rw [arm_alarms, Function.update_of_ne hij]
    exact h.kept j reading (hother j reading hij hj)

theorem Holds.armAll (h : Holds deadline w)
    (hall : ∀ i reading, deadline' i = some reading → reading = millis a.deadline) :
    Holds deadline' (w.armAll a) :=
  ⟨hall, h.sound⟩

end Watch

end Clock
