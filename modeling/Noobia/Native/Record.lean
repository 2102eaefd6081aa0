import Noobia.Lib.Ring

/-!
# Records and the queue that holds them

A native function answers with a number and, when it has more to say, with a `NoobRecord`: at most
six named integers.  The records a channel or a thread produces wait in a `NoobRecordQueue`, a ring
of eight cells that forgets its oldest record when a ninth arrives.
-/

namespace Noobia

/-- `NoobRecord::Field`. -/
structure RecordField where
  /-- The name, at most fifteen bytes. -/
  name : String
  /-- The value, an `int32_t`. -/
  value : Int
  deriving DecidableEq, Repr

/-- `NoobRecord`.  The unused tail of the six cells is never read, so only the used ones are kept;
`count_` is their number. -/
structure NoobRecord where
  /-- The fields, in the order they were added. -/
  fields : List RecordField := []
  /-- There are six cells. -/
  fields_le : fields.length ≤ 6 := by simp
  deriving DecidableEq

namespace NoobRecord

def maxFields : Nat := 6

def nameBytes : Nat := 16

/-- The record with nothing in it. -/
def empty : NoobRecord := {}

/-- `add`: a nonempty name that fits, while there is a free cell. -/
def add (r : NoobRecord) (name : String) (value : Int) : NoobRecord :=
  if h : name = "" ∨ nameBytes ≤ name.utf8ByteSize ∨ maxFields ≤ r.fields.length then r
  else
    { fields := r.fields ++ [⟨name, value⟩]
      fields_le := by
        simp only [not_or, Nat.not_le, maxFields] at h
        rw [List.length_append, List.length_singleton]
        exact h.2.2 }

def get? (r : NoobRecord) (index : Nat) : Option RecordField := r.fields[index]?

/-- `get(name)`: the first field of that name. -/
def find? (r : NoobRecord) (name : String) : Option Int :=
  (r.fields.find? fun f ↦ f.name = name).map RecordField.value

/-- `primary`: the field called `value`, failing that the first one. -/
def primary (r : NoobRecord) : Option Int :=
  (r.find? "value").orElse fun _ ↦ r.fields.head?.map RecordField.value

/-- `empty()`. -/
def isEmpty (r : NoobRecord) : Bool := r.fields.isEmpty

/-- The record a plain number is queued as. -/
def ofValue (value : Int) : NoobRecord := empty.add "value" value

end NoobRecord

/-- `NoobRecordQueue`. -/
structure NoobRecordQueue where
  records : Fin 8 → NoobRecord := fun _ ↦ .empty
  /-- `head_`, the cell of the oldest record. -/
  head : Nat := 0
  /-- `tail_`, the cell the next record goes to. -/
  tail : Nat := 0
  count : Nat := 0
  /-- `dropped_`, a `uint32_t`. -/
  dropped : Nat := 0
  deriving DecidableEq

namespace NoobRecordQueue

def capacity : Nat := 8

/-- `push(record)`: a full queue loses its oldest record first. -/
def push (q : NoobRecordQueue) (record : NoobRecord) : NoobRecordQueue :=
  let q := if q.count = capacity then
      { q with
        head := (q.head + 1) % capacity
        count := q.count - 1
        dropped := (q.dropped + 1) % 2 ^ 32 }
    else q
  { q with
    records := Function.update q.records (Fin.ofNat 8 q.tail) record
    tail := (q.tail + 1) % capacity
    count := q.count + 1 }

/-- `push(value)`. -/
def pushValue (q : NoobRecordQueue) (value : Int) : NoobRecordQueue := q.push (.ofValue value)

/-- `pop`: the oldest record, if there is one. -/
def pop (q : NoobRecordQueue) : Option (NoobRecord × NoobRecordQueue) :=
  if q.count = 0 then none
  else some (q.records (Fin.ofNat 8 q.head),
    { q with head := (q.head + 1) % capacity, count := q.count - 1 })

def clear (q : NoobRecordQueue) : NoobRecordQueue :=
  { q with head := 0, tail := 0, count := 0, dropped := 0 }

def size (q : NoobRecordQueue) : Nat := q.count

/-! ## What the ring is for -/

/-- The records in the queue, from the oldest on. -/
def contents (q : NoobRecordQueue) : List NoobRecord := Ring.contents q.records q.head q.count

/-- What can be done to a queue. -/
inductive Op
  | push (record : NoobRecord)
  | pushValue (value : Int)
  | pop
  | clear

/-- What an operation returns, and the queue after it. -/
def perform (q : NoobRecordQueue) : Op → Option NoobRecord × NoobRecordQueue
  | .push record => (none, q.push record)
  | .pushValue value => (none, q.pushValue value)
  | .pop =>
    match q.pop with
    | none => (none, q)
    | some (record, q) => (some record, q)
  | .clear => (none, q.clear)

/-- A list that keeps the newest eight of the records that have not been taken from it, and how many
were put in and taken out since it was cleared. -/
structure Fifo where
  kept : List NoobRecord := []
  pushed : Nat := 0
  popped : Nat := 0

def Fifo.add (f : Fifo) (record : NoobRecord) : Fifo :=
  { f with
    kept := (f.kept ++ [record]).drop (f.kept.length + 1 - 8)
    pushed := f.pushed + 1 }

def Fifo.perform (f : Fifo) : Op → Option NoobRecord × Fifo
  | .push record => (none, f.add record)
  | .pushValue value => (none, f.add (.ofValue value))
  | .pop =>
    match f.kept with
    | [] => (none, f)
    | record :: kept => (some record, { f with kept, popped := f.popped + 1 })
  | .clear => (none, {})

/-- What a sequence of operations returns, and what is left in the end. -/
def trace {σ : Type} (perform : σ → Op → Option NoobRecord × σ) :
    σ → List Op → List (Option NoobRecord) × σ
  | s, [] => ([], s)
  | s, op :: ops =>
    let (record, s) := perform s op
    let (records, s) := trace perform s ops
    (record :: records, s)

/-- The ring holds what the list does, and no record is unaccounted for. -/
structure Represents (q : NoobRecordQueue) (f : Fifo) : Prop where
  contents : q.contents = f.kept
  size_le : q.size ≤ 8
  tail : q.tail = (q.head + q.size) % 8
  conserved : f.pushed % 2 ^ 32 = (f.popped + q.size + q.dropped) % 2 ^ 32

variable {q : NoobRecordQueue} {f : Fifo}

theorem contents_eq_cons (hcount : q.count ≠ 0) : q.contents = q.records (Fin.ofNat 8 q.head) ::
    Ring.contents q.records ((q.head + 1) % capacity) (q.count - 1) := by
  obtain ⟨n, hn⟩ := Nat.exists_eq_succ_of_ne_zero hcount
  rw [contents, hn, Ring.contents_succ, capacity, Ring.contents_mod]
  rfl

theorem Represents.put (h : Represents q f) (hcount : q.count < 8) (record : NoobRecord) :
    Represents
      { q with
        records := Function.update q.records (Fin.ofNat 8 q.tail) record
        tail := (q.tail + 1) % capacity
        count := q.count + 1 }
      { f with kept := f.kept ++ [record], pushed := f.pushed + 1 } := by
  obtain ⟨hcontents, -, htail, hconserved⟩ := h
  have hplace : Fin.ofNat 8 q.tail = Fin.ofNat 8 (q.head + q.count) := by
    simp [htail, Fin.ofNat, size]
  refine ⟨?_, hcount, ?_, ?_⟩
  · rw [NoobRecordQueue.contents, hplace, Ring.contents_update _ _ hcount, ← hcontents]
    rfl
  · simp only [htail, size, capacity]
    omega
  · simp only [size] at hconserved ⊢
    omega

theorem Represents.drop (h : Represents q f) (hfull : q.count = capacity) :
    Represents
      { q with
        head := (q.head + 1) % capacity
        count := q.count - 1
        dropped := (q.dropped + 1) % 2 ^ 32 }
      { f with kept := f.kept.tail } := by
  obtain ⟨hcontents, -, htail, hconserved⟩ := h
  rw [contents_eq_cons (by rw [hfull]; decide)] at hcontents
  simp only [size, hfull, capacity] at htail hconserved
  refine ⟨by rw [← hcontents]; rfl, ?_, ?_, ?_⟩ <;> simp only [size, hfull, capacity] <;> omega

theorem Represents.push (h : Represents q f) (record : NoobRecord) :
    Represents (q.push record) (f.add record) := by
  have hlength : f.kept.length = q.count := by
    simp [← h.contents, NoobRecordQueue.contents, Ring.contents]
  have hle : q.count ≤ 8 := h.size_le
  rw [NoobRecordQueue.push, Fifo.add, hlength]
  split
  · rename_i hfull
    have hput := (h.drop hfull).put (by simp [hfull, capacity]) record
    rw [capacity] at hfull
    have hkept : (f.kept ++ [record]).tail = f.kept.tail ++ [record] :=
      List.tail_append_of_ne_nil (List.ne_nil_of_length_pos (by omega))
    simpa [hfull, capacity, hkept] using hput
  · rename_i hfull
    rw [capacity] at hfull
    rw [Nat.sub_eq_zero_of_le (by omega)]
    exact h.put (by omega) record

/-- **The queue is a list that keeps the newest eight records**: they are returned in the order in
which they were put in, and each of them has been returned, is still there or was dropped. -/
theorem queue_refines (ops : List Op) :
    (trace perform {} ops).1 = (trace Fifo.perform {} ops).1 ∧
      Represents (trace perform {} ops).2 (trace Fifo.perform {} ops).2 := by
  have hstep (q : NoobRecordQueue) (f : Fifo) (h : Represents q f) (op : Op) :
      (q.perform op).1 = (f.perform op).1 ∧ Represents (q.perform op).2 (f.perform op).2 := by
    cases op with
    | push record => exact ⟨rfl, h.push record⟩
    | pushValue value => exact ⟨rfl, h.push _⟩
    | clear => exact ⟨rfl, rfl, Nat.zero_le _, rfl, rfl⟩
    | pop =>
      obtain ⟨hcontents, hle, htail, hconserved⟩ := h
      rw [perform, pop, Fifo.perform, ← hcontents]
      by_cases hcount : q.count = 0
      · rw [if_pos hcount, contents, hcount]
        exact ⟨rfl, hcontents, hle, htail, hconserved⟩
      rw [if_neg hcount, contents_eq_cons hcount]
      simp only [size] at hle htail hconserved
      refine ⟨rfl, rfl, ?_, ?_, ?_⟩ <;> simp only [size, capacity] <;> omega
  have hruns (q : NoobRecordQueue) (f : Fifo) (h : Represents q f) :
      (trace perform q ops).1 = (trace Fifo.perform f ops).1 ∧
        Represents (trace perform q ops).2 (trace Fifo.perform f ops).2 := by
    induction ops generalizing q f with
    | nil => exact ⟨rfl, h⟩
    | cons op ops ih =>
      obtain ⟨hrecord, h⟩ := hstep q f h op
      obtain ⟨hrecords, h⟩ := ih _ _ h
      exact ⟨congrArg₂ List.cons hrecord hrecords, h⟩
  exact hruns _ _ ⟨rfl, by decide, rfl, rfl⟩

end NoobRecordQueue

end Noobia
