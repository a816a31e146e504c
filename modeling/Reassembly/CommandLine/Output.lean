import Reassembly.CommandLine.Disk

/-! Where a stream goes. Data is gathered in a buffer and written when that is full and at the
end, so that a device without room is noticed late; after the first refusal nothing is taken. -/
namespace Reassembly

inductive Target
  | standard
  | place (here : Place)
  deriving DecidableEq, Repr

/-- The data taken so far: how much of it, how much of that waits, and whether a write failed. -/
structure Buffer where
  taken : Nat := 0
  waiting : Nat := 0
  failed : Bool := false
  deriving DecidableEq, Repr

namespace Buffer

def capacity : Nat := 8192

/-- Takes a chunk for a destination that may be full. What does not fit beside the waiting data
makes that be written first; a chunk as large as the buffer passes it by. -/
def put (full : Bool) (b : Buffer) (len : Nat) : Buffer :=
  if b.failed then b
  else if b.waiting+len < capacity then {b with taken := b.taken+len, waiting := b.waiting+len}
  else
    let flushes := capacity < b.waiting+len
    let waiting := if flushes then 0 else b.waiting
    if full && ((flushes && b.waiting ≠ 0) || capacity ≤ len) then {b with failed := true}
    else if capacity ≤ len then {b with taken := b.taken+len, waiting}
    else {b with taken := b.taken+len, waiting := waiting+len}

/-- The size of a stream written to the end, or what the run was doing when a write failed. -/
def finish (full : Bool) (b : Buffer) : Except String Nat :=
  if b.failed then .error "Failed to write reassembled stream"
  else if full && b.waiting ≠ 0 then .error "Failed to flush reassembled stream"
  else .ok b.taken

def ofChunks (full : Bool) (chunks : List Bytes) : Buffer :=
  chunks.foldl (fun b chunk => b.put full chunk.length) {}

theorem put_failed (b : Buffer) (len : Nat) : (b.put false len).failed = b.failed := by
  unfold put
  split
  · rfl
  · split
    · rfl
    · simp only [Bool.false_and, Bool.false_eq_true, if_false]
      split <;> rfl

theorem put_taken {b : Buffer} (len : Nat) (h : b.failed = false) :
    (b.put false len).taken = b.taken+len := by
  unfold put
  simp only [h, Bool.false_and, Bool.false_eq_true, if_false]
  split
  · rfl
  · split <;> rfl

theorem foldl_put {b : Buffer} (chunks : List Bytes) (h : b.failed = false) :
    (chunks.foldl (fun b chunk => b.put false chunk.length) b).failed = false ∧
      (chunks.foldl (fun b chunk => b.put false chunk.length) b).taken =
        b.taken+chunks.flatten.length := by
  induction chunks generalizing b with
  | nil => exact ⟨h,rfl⟩
  | cons chunk chunks ih =>
    have := ih ((put_failed b chunk.length).trans h)
    rw [put_taken chunk.length h] at this
    simpa [Nat.add_assoc] using this

theorem finish_ofChunks (chunks : List Bytes) :
    (ofChunks false chunks).finish false = .ok chunks.flatten.length := by
  have h := foldl_put (b := {}) chunks rfl
  unfold finish
  rw [show (ofChunks false chunks).failed = false from h.1,
    show (ofChunks false chunks).taken = 0+chunks.flatten.length from h.2]
  simp

end Buffer

namespace Target

/-- Makes the destination ready; a file is emptied. -/
def create (d : Disk) : Option String → Except FileFault (Target × Disk)
  | none => .ok (.standard,d)
  | some path =>
    match d.locateFile path with
    | .error fault => .error fault
    | .ok here => .ok (.place here,d.write here [])

def isFull (d : Disk) : Target → Bool
  | .standard => false
  | .place here => d.isFull here

def printed (content : Bytes) : Target → Bytes
  | .standard => content
  | .place _ => []

def store (d : Disk) (content : Bytes) : Target → Disk
  | .standard => d
  | .place here => d.write here content

end Target
end Reassembly
