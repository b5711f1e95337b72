/-!
# Triangles and the corner lists that hold them

A triangle is three corners in winding order. Index lists and unshared position
lists hold triangles without separators, three corners after three corners; the
cut and the concatenation are inverse to each other on lists of whole triangles.
-/

namespace RenderAssets

/-- Three corners in winding order. -/
@[ext] structure Triangle (κ : Type) where
  first : κ
  second : κ
  third : κ
  deriving DecidableEq, Repr

namespace Triangle

variable {κ : Type}

/-- The corners in order. -/
def corners (triangle : Triangle κ) : List κ := [triangle.first, triangle.second, triangle.third]

/-- The triangle of the images of the corners. -/
def map {ν : Type} (image : κ → ν) (triangle : Triangle κ) : Triangle ν :=
  ⟨image triangle.first, image triangle.second, image triangle.third⟩

/-- The corners of all triangles, one triangle after the other. -/
def flatten (triangles : List (Triangle κ)) : List κ := triangles.flatMap corners

/-- The whole triangles that a corner list begins with. One or two corners left
at the end form no triangle. -/
def cut : List κ → List (Triangle κ)
  | first :: second :: third :: rest => ⟨first, second, third⟩ :: cut rest
  | _ => []

/-- Cutting the concatenated corners gives the triangles back. -/
theorem cut_flatten (triangles : List (Triangle κ)) : cut (flatten triangles) = triangles := by
  induction triangles with
  | nil => rfl
  | cons triangle rest inductionHypothesis =>
    simp only [flatten, List.flatMap_cons, corners, List.cons_append, List.nil_append, cut] at *
    rw [inductionHypothesis]

/-- A list of whole triangles is the concatenation of what it is cut into. The
corners go three at a time, so the divisibility passes to what is left. -/
theorem flatten_cut (cornerList : List κ) (whole : cornerList.length % 3 = 0) :
    flatten (cut cornerList) = cornerList := by
  fun_induction cut cornerList with
  | case1 first second third rest inductionHypothesis =>
    have restWhole : rest.length % 3 = 0 := by
      simp only [List.length_cons] at whole
      omega
    simpa [flatten, corners] using inductionHypothesis restWhole
  | case2 rest short =>
    match rest, short, whole with
    | [], _, _ => rfl
    | [_], _, whole => simp at whole
    | [_, _], _, whole => simp at whole
    | first :: second :: third :: rest, short, _ =>
      exact absurd rfl (short first second third rest)

/-- Three corners go into each triangle. -/
theorem length_flatten (triangles : List (Triangle κ)) :
    (flatten triangles).length = 3 * triangles.length := by
  induction triangles with
  | nil => rfl
  | cons triangle rest inductionHypothesis =>
    simp only [flatten, List.flatMap_cons, corners, List.length_append, List.length_cons,
      List.length_nil] at *
    omega

end Triangle

end RenderAssets
