import RenderAssets.Scalar

/-!
# Binary32 values as the words that store them

Many words store a NaN. As values those are all the same, but as words they stay
different from one another. Which of them a computation gives is left open for
rounded arithmetic in general, and here it is done as on x86-64: a NaN among the
operands goes on into the result with its quiet bit set, the left one before the
right one, and an operation without a result, as zero divided by zero, gives one
pattern of its own.

On all other words, an operation stores what it gives for the values. Signs are
changed in the word, whether it stores a NaN or not.
-/

namespace RenderAssets

/-- A stored binary32 value. -/
structure FloatWord where
  pattern : UInt32
  deriving DecidableEq, Repr

namespace FloatWord

/-- The value of a word. All NaNs have one value. -/
def value (word : FloatWord) : Float32 := Float32.ofBits word.pattern

/-- The NaN of an operation without a result. -/
def invalid : FloatWord := ⟨0xffc00000⟩

/-- The word for the result of an operation on values that are no NaNs. -/
def ofResult (result : Float32) : FloatWord :=
  if result.isNaN then invalid else ⟨result.toBits⟩

/-- A NaN as it goes on into a result, with the highest bit of its payload set. -/
def quieted (word : FloatWord) : FloatWord := ⟨word.pattern ||| 0x00400000⟩

/-- An operation on one stored value. -/
def unary (operation : Float32 → Float32) (word : FloatWord) : FloatWord :=
  if word.value.isNaN then word.quieted else ofResult (operation word.value)

/-- An operation on two stored values. -/
def binary (operation : Float32 → Float32 → Float32) (left right : FloatWord) : FloatWord :=
  if left.value.isNaN then left.quieted
  else if right.value.isNaN then right.quieted
  else ofResult (operation left.value right.value)

instance : Scalar FloatWord where
  zero := ⟨0⟩
  one := ⟨0x3f800000⟩
  add := binary (· + ·)
  sub := binary (· - ·)
  mul := binary (· * ·)
  div := binary (· / ·)
  neg word := ⟨word.pattern ^^^ 0x80000000⟩
  sqrt := unary Float32.sqrt
  abs word := ⟨word.pattern &&& 0x7fffffff⟩
  atMost left right := decide (left.value ≤ right.value)
  bits := pattern

instance : Trigonometric FloatWord where
  pi := ⟨0x40490fdb⟩
  sin := unary Float32.sin
  cos := unary Float32.cos
  ofCount count := ⟨count.toFloat32.toBits⟩

end FloatWord

end RenderAssets
