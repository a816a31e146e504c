/-! Caps on what may wait, and what happens when they are reached. -/
namespace Reassembly

/-- Which data gives way when a cap is reached: the newcomer, or what waits furthest ahead. -/
inductive Overflow
  | dropNew
  | evictFurthest
  deriving DecidableEq, Repr

namespace Overflow

def name : Overflow → String
  | .dropNew => "drop-new"
  | .evictFurthest => "evict-furthest"

def ofName? : String → Option Overflow
  | "drop-new" => some .dropNew
  | "evict-furthest" => some .evictFurthest
  | _ => none

def title : Overflow → String
  | .dropNew => "DropNew"
  | .evictFurthest => "EvictFurthest"

@[simp] theorem ofName?_name (o : Overflow) : ofName? o.name = some o := by cases o <;> rfl

end Overflow

/-- Absent caps are no caps; a cap of zero lets nothing wait. -/
structure Limits where
  maxSegments : Option Nat := none
  maxBytes : Option Nat := none
  overflow : Overflow := .dropNew
  deriving DecidableEq, Repr, Inhabited

namespace Limits

def isBounded (l : Limits) : Bool := l.maxSegments.isSome || l.maxBytes.isSome

def capText : Option Nat → String
  | none => "None"
  | some n => "Some(" ++ toString n ++ ")"

def describe (l : Limits) : String :=
  "ReassemblerLimits \x7b max_segments: " ++ capText l.maxSegments ++ ", max_bytes: " ++
    capText l.maxBytes ++ ", overflow: " ++ l.overflow.title ++ " \x7d"

end Limits
end Reassembly
