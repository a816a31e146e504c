/-! Sequence numbers: positions of a byte stream counted modulo 2³², compared by the
shorter way around the circle. -/
namespace Reassembly

abbrev Bytes := List UInt8

abbrev SeqNum := UInt32

inductive Position
  | equal
  | before
  | after
  deriving DecidableEq, Repr

namespace SeqNum

/-- Half of the circle. -/
def halfSpace : UInt32 := 0x80000000

/-- Two positions exactly half the circle apart are each after the other. -/
def compare (a b : SeqNum) : Position :=
  if a = b then .equal else if b - a < halfSpace then .before else .after

/-- The position `len` bytes on; any number of whole turns is the same position. -/
def advance (s : SeqNum) (len : Nat) : SeqNum := s + UInt32.ofNat len

/-- The number of bytes going forward from `a` to `b`. -/
def distance (a b : SeqNum) : Nat := (b - a).toNat

@[simp] theorem compare_self (a : SeqNum) : compare a a = .equal := by simp [compare]

@[simp] theorem compare_eq_equal {a b : SeqNum} : compare a b = .equal ↔ a = b := by
  unfold compare
  split <;> simp_all
  split <;> simp

@[simp] theorem advance_zero (s : SeqNum) : advance s 0 = s := by simp [advance]

theorem advance_advance (s : SeqNum) (m n : Nat) : advance (advance s m) n = advance s (m+n) := by
  simp [advance,UInt32.ofNat_add,UInt32.add_assoc]

@[simp] theorem distance_self (a : SeqNum) : distance a a = 0 := by simp [distance]

end SeqNum
end Reassembly
