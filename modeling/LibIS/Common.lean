import Mathlib.Tactic.Common

set_option autoImplicit false

/-! # Shared enumerations and boxes (`is_common.h`, `is_command.h`) -/

namespace LibIS

/-- `libISVec3f`, over the type of its coordinates. -/
structure Vec3 (α : Type) where
  x : α
  y : α
  z : α
deriving DecidableEq, Repr

/-- `libISBox3f`. -/
structure Box3 (α : Type) where
  min : Vec3 α
  max : Vec3 α
deriving DecidableEq, Repr

/-- A `float` as it is transported: its 32 bits. -/
abbrev FloatBits := UInt32

/-- `libISDType`. -/
inductive DType where
  | uint8
  | float
  | double
  | invalid
deriving DecidableEq, Repr

/-- The value of an enumerator as a `uint32_t`. -/
def DType.toUInt32 : DType → UInt32
  | .uint8 => 0
  | .float => 1
  | .double => 2
  | .invalid => 3

/-- The cast back from `uint32_t`. The result for a number that no enumerator has is unspecified. -/
def DType.ofUInt32 (v : UInt32) : DType :=
  if v = 0 then .uint8 else if v = 1 then .float else if v = 2 then .double else .invalid

@[simp] theorem DType.ofUInt32_toUInt32 (t : DType) : DType.ofUInt32 t.toUInt32 = t := by
  cases t <;> decide

/-- The command flags sent from client to simulation, `is::COMMAND`. -/
inductive Command where
  | invalid
  | connect
  | query
  | disconnect
deriving DecidableEq, Repr

/-- The `int` a command is sent as. -/
def Command.toInt32 : Command → Int32
  | .invalid => 0
  | .connect => 1
  | .query => 2
  | .disconnect => 3

end LibIS
