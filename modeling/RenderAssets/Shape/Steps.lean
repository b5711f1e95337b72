import RenderAssets.Vector3

/-!
# Equal steps around an axis

Round shapes are sampled at equal steps of a full turn, and from pole to pole at
equal steps of half a turn. Steps are counted in 32-bit words, the way vertices
are; a count becomes a scalar before any arithmetic on angles. Zero steps divide
zero by zero, and the angle is then whatever that quotient is.
-/

namespace RenderAssets.Shape

/-- The steps zero, one, and so on, as many as asked for. -/
def steps (count : Nat) : List UInt32 := (List.range count).map Nat.toUInt32

/-- There are as many steps as asked for. -/
theorem length_steps (count : Nat) : (steps count).length = count := by
  simp [steps]

variable {α : Type} [Trigonometric α]

/-- The angle of a step when a full turn has the given number of steps. The turn
is taken before the division. -/
def turnAngle (step count : UInt32) : α :=
  Trigonometric.ofCount step * Trigonometric.ofCount 2 * Trigonometric.pi /
    Trigonometric.ofCount count

/-- The angle of a step when half a turn has the given number of steps. -/
def halfTurnAngle (step count : UInt32) : α :=
  Trigonometric.ofCount step * Trigonometric.pi / Trigonometric.ofCount count

end RenderAssets.Shape
