import RenderAssets.Shape.Steps
import RenderAssets.Mesh.Triangle

/-!
# Vertex numbers that do not wrap

Vertices are numbered in 32-bit words, whose sums and products wrap. Arithmetic that
refuses to wrap has a result only where the numbers meant fit into words. Numbering is
exact if this arithmetic goes through from one end to the other: then it arrives at the
words that are really computed, and these words have the values that unbounded arithmetic
gives.

Exactness is carried from sums and products to triangles, and from triangles to lists of
them that are made step by step.
-/

namespace RenderAssets.Shape

/-- The word of a number, unless the number needs more than 32 bits. -/
def word? (number : Nat) : Option UInt32 :=
  if number < UInt32.size then some number.toUInt32 else none

/-- The sum of two words, unless it wraps. -/
def sum? (left right : Option UInt32) : Option UInt32 := do
  word? ((← left).toNat + (← right).toNat)

/-- The product of two words, unless it wraps. -/
def product? (left right : Option UInt32) : Option UInt32 := do
  word? ((← left).toNat * (← right).toNat)

/-- The remainder of two words, which never wraps. -/
def remainder? (left right : Option UInt32) : Option UInt32 := do
  return (← left) % (← right)

/-- The triangle of three vertices that are numbered without wrapping. -/
def triangle? (first second third : Option UInt32) : Option (Triangle UInt32) := do
  return ⟨← first, ← second, ← third⟩

/-- Two entries that are made without wrapping, as a list. -/
def pair? {ω : Type} (first second : Option ω) : Option (List ω) := do
  return [← first, ← second]

/-- Two lists that are made without wrapping, one after the other. -/
def joined? {ω : Type} (front back : Option (List ω)) : Option (List ω) := do
  return (← front) ++ (← back)

/-- What is computed is what arithmetic without wrapping arrives at, and stands for what
unbounded arithmetic gives. -/
structure Exact {ω ν : Type} (view : ω → ν) (checked : Option ω) (computed : ω) (meant : ν) :
    Prop where
  checked_eq : checked = some computed
  view_eq : view computed = meant

namespace Exact

section Words

variable {left right : Option UInt32} {word other : UInt32} {number otherNumber : Nat}

/-- A word that is given is exact. -/
theorem given (word : UInt32) : Exact UInt32.toNat (some word) word word.toNat :=
  ⟨rfl, rfl⟩

/-- The word one stands for the number one. -/
theorem one : Exact UInt32.toNat (some 1) 1 1 :=
  ⟨rfl, rfl⟩

/-- A sum is exact if it fits into a word. -/
theorem sum (first : Exact UInt32.toNat left word number)
    (second : Exact UInt32.toNat right other otherNumber)
    (fits : number + otherNumber < UInt32.size) :
    Exact UInt32.toNat (sum? left right) (word + other) (number + otherNumber) := by
  obtain ⟨rfl, rfl⟩ := first
  obtain ⟨rfl, rfl⟩ := second
  constructor
  · change word? (word.toNat + other.toNat) = some (word + other)
    rw [word?, if_pos fits, Nat.toUInt32_eq, UInt32.ofNat_add, UInt32.ofNat_toNat,
      UInt32.ofNat_toNat]
  · rw [UInt32.toNat_add]
    exact Nat.mod_eq_of_lt fits

/-- A product is exact if it fits into a word. -/
theorem product (first : Exact UInt32.toNat left word number)
    (second : Exact UInt32.toNat right other otherNumber)
    (fits : number * otherNumber < UInt32.size) :
    Exact UInt32.toNat (product? left right) (word * other) (number * otherNumber) := by
  obtain ⟨rfl, rfl⟩ := first
  obtain ⟨rfl, rfl⟩ := second
  constructor
  · change word? (word.toNat * other.toNat) = some (word * other)
    rw [word?, if_pos fits, Nat.toUInt32_eq, UInt32.ofNat_mul, UInt32.ofNat_toNat,
      UInt32.ofNat_toNat]
  · rw [UInt32.toNat_mul]
    exact Nat.mod_eq_of_lt fits

/-- A remainder of exact words is exact. -/
theorem remainder (first : Exact UInt32.toNat left word number)
    (second : Exact UInt32.toNat right other otherNumber) :
    Exact UInt32.toNat (remainder? left right) (word % other) (number % otherNumber) := by
  obtain ⟨rfl, rfl⟩ := first
  obtain ⟨rfl, rfl⟩ := second
  exact ⟨rfl, UInt32.toNat_mod _ _⟩

end Words

/-- A triangle of exact vertices is exact. -/
theorem triangle {first? second? third? : Option UInt32} {corners : Triangle UInt32}
    {numbers : Triangle Nat} (first : Exact UInt32.toNat first? corners.first numbers.first)
    (second : Exact UInt32.toNat second? corners.second numbers.second)
    (third : Exact UInt32.toNat third? corners.third numbers.third) :
    Exact (Triangle.map UInt32.toNat) (triangle? first? second? third?) corners numbers := by
  obtain ⟨rfl, firstNumber⟩ := first
  obtain ⟨rfl, secondNumber⟩ := second
  obtain ⟨rfl, thirdNumber⟩ := third
  exact ⟨rfl, Triangle.ext firstNumber secondNumber thirdNumber⟩

section Lists

variable {β ω ν : Type} {view : ω → ν}

/-- A list of exact entries is exact. -/
theorem mapM {items : List β} {checked : β → Option ω} {computed : β → ω} {meant : β → ν}
    (each : ∀ item ∈ items, Exact view (checked item) (computed item) (meant item)) :
    Exact (List.map view) (items.mapM checked) (items.map computed) (items.map meant) := by
  induction items with
  | nil => exact ⟨rfl, rfl⟩
  | cons item rest inductionHypothesis =>
    obtain ⟨first, later⟩ := List.forall_mem_cons.mp each
    obtain ⟨restChecked, restMeant⟩ := inductionHypothesis later
    constructor
    · rw [List.mapM_cons, first.checked_eq, restChecked]
      rfl
    · rw [List.map_cons, List.map_cons, List.map_cons, first.view_eq, restMeant]

/-- Two exact entries are an exact list. -/
theorem pair {first? second? : Option ω} {computed other : ω} {meant otherMeant : ν}
    (first : Exact view first? computed meant) (second : Exact view second? other otherMeant) :
    Exact (List.map view) (pair? first? second?) [computed, other] [meant, otherMeant] := by
  obtain ⟨rfl, rfl⟩ := first
  obtain ⟨rfl, rfl⟩ := second
  exact ⟨rfl, rfl⟩

/-- Two exact lists are exact one after the other. -/
theorem joined {front back : Option (List ω)} {computed rest : List ω} {meant restMeant : List ν}
    (first : Exact (List.map view) front computed meant)
    (second : Exact (List.map view) back rest restMeant) :
    Exact (List.map view) (joined? front back) (computed ++ rest) (meant ++ restMeant) := by
  obtain ⟨rfl, rfl⟩ := first
  obtain ⟨rfl, rfl⟩ := second
  exact ⟨rfl, List.map_append⟩

/-- Exact lists are exact when they are joined. -/
theorem flatten {lists : Option (List (List ω))} {computed : List (List ω)}
    {meant : List (List ν)} (each : Exact (List.map (List.map view)) lists computed meant) :
    Exact (List.map view) (lists.map List.flatten) computed.flatten meant.flatten := by
  obtain ⟨rfl, rfl⟩ := each
  exact ⟨rfl, List.map_flatten⟩

end Lists

end Exact

/-- As long as words suffice, the steps have the values zero, one, and so on. -/
theorem map_toNat_steps {count : Nat} (small : count ≤ UInt32.size) :
    (steps count).map UInt32.toNat = List.range count := by
  have kept : ∀ step ∈ List.range count, (UInt32.toNat ∘ Nat.toUInt32) step = id step := by
    intro step listed
    have inside : step < UInt32.size := Nat.lt_of_lt_of_le (List.mem_range.mp listed) small
    exact UInt32.toNat_ofNat_of_lt' inside
  rw [steps, List.map_map, List.map_congr_left kept, List.map_id]

/-- A step comes before the number of steps. -/
theorem toNat_lt_of_mem_steps {count : Nat} (small : count ≤ UInt32.size) {step : UInt32}
    (listed : step ∈ steps count) : step.toNat < count := by
  have value : step.toNat ∈ (steps count).map UInt32.toNat := List.mem_map_of_mem listed
  rwa [map_toNat_steps small, List.mem_range] at value

namespace Exact

variable {ω ν : Type} {view : ω → ν} {count : Nat}

/-- What is made step by step is exact if every step is. -/
theorem overSteps (small : count ≤ UInt32.size) {checked : UInt32 → Option ω}
    {computed : UInt32 → ω} {meant : Nat → ν}
    (each : ∀ step : UInt32, step.toNat < count →
      Exact view (checked step) (computed step) (meant step.toNat)) :
    Exact (List.map view) ((steps count).mapM checked) ((steps count).map computed)
      ((List.range count).map meant) := by
  rw [← map_toNat_steps small, List.map_map]
  exact mapM fun step listed => each step (toNat_lt_of_mem_steps small listed)

/-- So are lists that are made step by step and joined. -/
theorem joinedOverSteps (small : count ≤ UInt32.size) {checked : UInt32 → Option (List ω)}
    {computed : UInt32 → List ω} {meant : Nat → List ν}
    (each : ∀ step : UInt32, step.toNat < count →
      Exact (List.map view) (checked step) (computed step) (meant step.toNat)) :
    Exact (List.map view) (((steps count).mapM checked).map List.flatten)
      ((steps count).flatMap computed) ((List.range count).flatMap meant) := by
  rw [List.flatMap_def, List.flatMap_def]
  exact (overSteps small each).flatten

end Exact

end RenderAssets.Shape
