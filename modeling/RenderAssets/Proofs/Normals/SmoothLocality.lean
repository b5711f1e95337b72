import Mathlib.Data.Set.Function
import Mathlib.Tactic.SplitIfs
import RenderAssets.Proofs.Normals.VertexSums

/-!
# Smooth normals are local

A vertex sees of a mesh the triangles that mention it: where their corners stand, and how
many of the corners it is itself. Two vertices that see the same, in one mesh or in two,
have the same normal. This is an equation between values and not up to rounding, since the
addends are the same ones in the same order.

So a mesh may be taken apart and put together in many ways without a trace in its smooth
normals. Triangles without a common vertex may change places, triangles may be added where
they do not touch a vertex, vertices may be renumbered, indices may be stored in another
width, and meshes may be joined.
-/

namespace RenderAssets.SmoothNormals

variable {α : Type} [Scalar α]

/-- A triangle as a vertex sees it: where its corners stand, in corner order, and how many
of them are the vertex. -/
structure Mention (α : Type) where
  corners : Triangle (Vector3 α)
  multiplicity : Nat
  deriving DecidableEq, Repr

/-- How a vertex sees a triangle. -/
def Mention.of (positions : Array (Vector3 α)) (vertex : Nat) (triangle : Triangle Nat) :
    Mention α where
  corners := triangle.map (cornerPosition positions)
  multiplicity := triangle.corners.count vertex

/-- The triangles that mention a vertex, in order. -/
def mentions (positions : Array (Vector3 α)) (triangles : List (Triangle Nat)) (vertex : Nat) :
    List (Mention α) :=
  (triangles.filter fun triangle => decide (vertex ∈ triangle.corners)).map
    (Mention.of positions vertex)

/-- A triangle in front is seen if the vertex is one of its corners. -/
theorem mentions_cons (positions : Array (Vector3 α)) (triangle : Triangle Nat)
    (rest : List (Triangle Nat)) (vertex : Nat) :
    mentions positions (triangle :: rest) vertex =
      if vertex ∈ triangle.corners then
        Mention.of positions vertex triangle :: mentions positions rest vertex
      else mentions positions rest vertex := by
  by_cases seen : vertex ∈ triangle.corners <;> simp [mentions, seen]

/-- What is seen of one list and then another. -/
theorem mentions_append (positions : Array (Vector3 α)) (first second : List (Triangle Nat))
    (vertex : Nat) :
    mentions positions (first ++ second) vertex =
      mentions positions first vertex ++ mentions positions second vertex := by
  simp [mentions]

/-- Nothing is seen of triangles with other corners. -/
theorem mentions_eq_nil {positions : Array (Vector3 α)} {triangles : List (Triangle Nat)}
    {vertex : Nat} (apart : vertex ∉ Triangle.flatten triangles) :
    mentions positions triangles vertex = [] := by
  rw [Triangle.mem_flatten] at apart
  have unseen (triangle : Triangle Nat) (listed : triangle ∈ triangles) :
      ¬ decide (vertex ∈ triangle.corners) = true := by
    rw [decide_eq_true_iff]
    exact fun seen => apart ⟨triangle, listed, seen⟩
  rw [mentions, List.filter_eq_nil_iff.mpr unseen, List.map_nil]

/-- The addends of a vertex are the normals of what it sees. -/
theorem addends_eq_flatMap_mentions (positions : Array (Vector3 α))
    (triangles : List (Triangle Nat)) (vertex : Nat) :
    addends positions triangles vertex =
      (mentions positions triangles vertex).flatMap fun mention =>
        List.replicate mention.multiplicity (weightedNormal mention.corners) := by
  induction triangles with
  | nil => rfl
  | cons triangle rest inductionHypothesis =>
    rw [addends, List.flatMap_cons, ← addends, inductionHypothesis, mentions_cons]
    split_ifs with seen
    · rfl
    · rw [List.count_eq_zero_of_not_mem seen, List.replicate_zero, List.nil_append]

/-- Vertices that see the same have the same normal. -/
theorem vertexNormal_congr {first second : Array (Vector3 α)}
    {triangles others : List (Triangle Nat)} {vertex other : Nat}
    (same : mentions first triangles vertex = mentions second others other) :
    vertexNormal first triangles vertex = vertexNormal second others other := by
  rw [vertexNormal, vertexNormal, addends_eq_flatMap_mentions, addends_eq_flatMap_mentions, same]

section Renumbered

variable {positions moved : Array (Vector3 α)} {number : Nat → Nat} {vertex : Nat}

/-- A vertex sees a triangle the same under another number, if its own number and the
places of the corners carry over. -/
theorem mention_map {triangle : Triangle Nat}
    (placed : ∀ corner ∈ triangle.corners,
      cornerPosition moved (number corner) = cornerPosition positions corner)
    (told : ∀ corner ∈ triangle.corners, number corner = number vertex → corner = vertex) :
    (number vertex ∈ (triangle.map number).corners ↔ vertex ∈ triangle.corners) ∧
      Mention.of moved (number vertex) (triangle.map number) =
        Mention.of positions vertex triangle := by
  have member : number vertex ∈ (triangle.map number).corners ↔ vertex ∈ triangle.corners := by
    rw [Triangle.corners_map, List.mem_map]
    constructor
    · rintro ⟨corner, listed, same⟩
      exact told corner listed same ▸ listed
    · exact fun listed => ⟨vertex, listed, rfl⟩
  have multiplicity : (triangle.map number).corners.count (number vertex) =
      triangle.corners.count vertex := by
    rw [Triangle.corners_map, List.count, List.count, List.countP_map]
    apply List.countP_congr
    intro corner listed
    simp only [Function.comp_apply, beq_iff_eq]
    exact ⟨told corner listed, congrArg number⟩
  have corners : (triangle.map number).map (cornerPosition moved) =
      triangle.map (cornerPosition positions) := by
    simp only [Triangle.corners, List.forall_mem_cons] at placed
    obtain ⟨first, second, third, _⟩ := placed
    simp only [Triangle.map, first, second, third]
  exact ⟨member, by rw [Mention.of, Mention.of, multiplicity, corners]⟩

/-- So it sees the same triangles. -/
theorem mentions_map {triangles : List (Triangle Nat)}
    (placed : ∀ corner ∈ Triangle.flatten triangles,
      cornerPosition moved (number corner) = cornerPosition positions corner)
    (told : ∀ corner ∈ Triangle.flatten triangles,
      number corner = number vertex → corner = vertex) :
    mentions moved (triangles.map (Triangle.map number)) (number vertex) =
      mentions positions triangles vertex := by
  induction triangles with
  | nil => rfl
  | cons triangle rest inductionHypothesis =>
    simp only [Triangle.flatten, List.flatMap_cons, List.forall_mem_append] at placed told
    obtain ⟨member, same⟩ := mention_map placed.1 told.1
    rw [List.map_cons, mentions_cons, mentions_cons, same,
      inductionHypothesis placed.2 told.2]
    exact if_congr member rfl rfl

end Renumbered

/-- Positions that agree at the corners show the same. -/
theorem mentions_congr {positions moved : Array (Vector3 α)} {triangles : List (Triangle Nat)}
    (placed : ∀ corner ∈ Triangle.flatten triangles,
      cornerPosition moved corner = cornerPosition positions corner) (vertex : Nat) :
    mentions moved triangles vertex = mentions positions triangles vertex := by
  have kept : triangles.map (Triangle.map id) = triangles := List.map_id triangles
  have same : mentions moved (triangles.map (Triangle.map id)) (id vertex) =
      mentions positions triangles vertex := mentions_map placed fun _ _ same => same
  rwa [kept] at same

/-- Lists of triangles that differ by exchanges of neighbours without a common vertex. -/
inductive Reordered : List (Triangle Nat) → List (Triangle Nat) → Prop
  /-- Nothing is exchanged. -/
  | refl (triangles : List (Triangle Nat)) : Reordered triangles triangles
  /-- Two neighbours are exchanged. -/
  | exchange (before after : List (Triangle Nat)) (first second : Triangle Nat)
      (apart : ∀ vertex ∈ first.corners, vertex ∉ second.corners) :
      Reordered (before ++ first :: second :: after) (before ++ second :: first :: after)
  /-- One exchange follows another. -/
  | trans {first second third : List (Triangle Nat)} (left : Reordered first second)
      (right : Reordered second third) : Reordered first third

/-- Exchanging triangles keeps what there is of them. -/
theorem Reordered.perm {first second : List (Triangle Nat)} (reordered : Reordered first second) :
    first.Perm second := by
  induction reordered with
  | refl triangles => exact .refl _
  | exchange before after first second apart =>
    exact (List.Perm.swap second first after).append_left before
  | trans left right first second => exact first.trans second

/-- No vertex sees an exchange, since it sees at most one of the two. -/
theorem Reordered.mentions_eq {first second : List (Triangle Nat)}
    (reordered : Reordered first second) (positions : Array (Vector3 α)) (vertex : Nat) :
    mentions positions first vertex = mentions positions second vertex := by
  induction reordered with
  | refl triangles => rfl
  | exchange before after first second apart =>
    simp only [mentions_append, mentions_cons]
    by_cases seen : vertex ∈ first.corners
    · rw [if_neg (apart vertex seen), if_neg (apart vertex seen)]
    · rw [if_neg seen, if_neg seen]
  | trans left right first second => exact first.trans second

/-- Lists of triangles that differ by additional ones which do not touch a vertex. -/
inductive AddedAwayFrom (vertex : Nat) : List (Triangle Nat) → List (Triangle Nat) → Prop
  /-- Nothing is added to nothing. -/
  | nil : AddedAwayFrom vertex [] []
  /-- A triangle is kept. -/
  | keep (triangle : Triangle Nat) {fewer more : List (Triangle Nat)}
      (rest : AddedAwayFrom vertex fewer more) :
      AddedAwayFrom vertex (triangle :: fewer) (triangle :: more)
  /-- A triangle is added. -/
  | add (triangle : Triangle Nat) (apart : vertex ∉ triangle.corners)
      {fewer more : List (Triangle Nat)} (rest : AddedAwayFrom vertex fewer more) :
      AddedAwayFrom vertex fewer (triangle :: more)

/-- A vertex does not see what is added away from it. -/
theorem AddedAwayFrom.mentions_eq {vertex : Nat} {fewer more : List (Triangle Nat)}
    (added : AddedAwayFrom vertex fewer more) (positions : Array (Vector3 α)) :
    mentions positions more vertex = mentions positions fewer vertex := by
  induction added with
  | nil => rfl
  | keep triangle rest inductionHypothesis =>
    rw [mentions_cons, mentions_cons, inductionHypothesis]
  | add triangle apart rest inductionHypothesis =>
    rw [mentions_cons, if_neg apart, inductionHypothesis]

/-- Places that hold the same in two lists of positions are the same corner. -/
theorem cornerPosition_congr {positions moved : Array (Vector3 α)} {vertex place : Nat}
    (same : moved[place]? = positions[vertex]?) :
    cornerPosition moved place = cornerPosition positions vertex := by
  simp only [cornerPosition, Array.getD_eq_getD_getElem?, same]

section Accepted

variable {indices : IndexBuffer} {positions normals : Array (Vector3 α)}
  (accepted : ofIndices indices positions = .ok normals)
include accepted

/-- Triangles without a common vertex may change places. -/
theorem ofIndices_reordered {other : IndexBuffer} (whole : other.length % 3 = 0)
    (reordered : Reordered (Triangle.cut indices.vertices) (Triangle.cut other.vertices)) :
    ofIndices other positions = .ok normals := by
  have corners := flatten_cut_of_accepted accepted
  obtain ⟨_, inRange, rfl⟩ := ofIndices_eq_ok_iff.mp accepted
  refine ofIndices_eq_ok_iff.mpr ⟨whole, ?_, ?_⟩
  · intro vertex named
    apply inRange
    rw [← IndexBuffer.flatten_cut_vertices whole, Triangle.mem_flatten] at named
    rw [← corners, Triangle.mem_flatten]
    simpa only [reordered.perm.mem_iff] using named
  · have same : vertexNormal positions (Triangle.cut other.vertices) =
        vertexNormal positions (Triangle.cut indices.vertices) := funext fun vertex =>
      vertexNormal_congr (reordered.mentions_eq positions vertex).symm
    rw [same]

/-- Triangles and positions may be added where they do not touch a vertex. -/
theorem getElem?_of_added {other : IndexBuffer} {more normals' : Array (Vector3 α)}
    (extended : ofIndices other (positions ++ more) = .ok normals') {vertex : Nat}
    (inside : vertex < positions.size)
    (added : AddedAwayFrom vertex (Triangle.cut indices.vertices) (Triangle.cut other.vertices)) :
    normals'[vertex]? = normals[vertex]? := by
  have insideBoth : vertex < (positions ++ more).size := by
    rw [Array.size_append]
    omega
  rw [getElem?_of_accepted accepted inside, getElem?_of_accepted extended insideBoth]
  refine congrArg some (vertexNormal_congr ((added.mentions_eq _).trans ?_))
  refine mentions_congr (fun corner listed => cornerPosition_congr ?_) vertex
  rw [flatten_cut_of_accepted accepted] at listed
  exact Array.getElem?_append_left ((ofIndices_eq_ok_iff.mp accepted).2.1 corner listed)

/-- Vertices may be renumbered, and the normals move along. -/
theorem ofIndices_renumbered {other : IndexBuffer} {moved : Array (Vector3 α)}
    {number : Nat → Nat} (told : Set.InjOn number {vertex | vertex < positions.size})
    (placed : ∀ vertex < positions.size, moved[number vertex]? = positions[vertex]?)
    (renumbered : other.vertices = indices.vertices.map number) :
    ∃ normals', ofIndices other moved = .ok normals' ∧
      ∀ vertex < positions.size, normals'[number vertex]? = normals[vertex]? := by
  have corners := flatten_cut_of_accepted accepted
  obtain ⟨whole, inRange, _⟩ := ofIndices_eq_ok_iff.mp accepted
  have carried (vertex : Nat) (inside : vertex < positions.size) : number vertex < moved.size := by
    have there := placed vertex inside
    rw [getElem?_eq_cornerPosition inside] at there
    exact (Array.getElem?_eq_some_iff.mp there).1
  have movedRange : ∀ vertex ∈ other.vertices, vertex < moved.size := by
    rw [renumbered, List.forall_mem_map]
    exact fun vertex named => carried vertex (inRange vertex named)
  have movedWhole : other.length % 3 = 0 := by
    rw [← IndexBuffer.length_vertices, renumbered, List.length_map, IndexBuffer.length_vertices,
      whole]
  have movedAccepted := ofIndices_eq_ok_iff.mpr ⟨movedWhole, movedRange, rfl⟩
  refine ⟨_, movedAccepted, fun vertex inside => ?_⟩
  rw [getElem?_of_accepted movedAccepted (carried vertex inside),
    getElem?_of_accepted accepted inside, renumbered, Triangle.cut_map]
  rw [← corners] at inRange
  exact congrArg some (vertexNormal_congr (mentions_map
    (fun corner listed => cornerPosition_congr (placed corner (inRange corner listed)))
    (fun corner listed same => told (inRange corner listed) inside same)))

end Accepted

/-- Only the vertices that indices name matter, not the width they are stored in. -/
theorem ofIndices_congr {indices other : IndexBuffer} (same : other.vertices = indices.vertices)
    (positions : Array (Vector3 α)) : ofIndices other positions = ofIndices indices positions := by
  have lengths : other.length = indices.length := by
    rw [← IndexBuffer.length_vertices, same, IndexBuffer.length_vertices]
  rw [ofIndices, ofIndices, fill, fill, lengths, same]

section Joined

variable {first second joint : IndexBuffer} {firstPositions secondPositions : Array (Vector3 α)}
  {firstNormals secondNormals : Array (Vector3 α)}
  (firstAccepted : ofIndices first firstPositions = .ok firstNormals)
  (secondAccepted : ofIndices second secondPositions = .ok secondNormals)
  (joined : joint.vertices =
    first.vertices ++ second.vertices.map (firstPositions.size + ·))
include firstAccepted secondAccepted joined

/-- The triangles of joined meshes are those of the first and then those of the second,
with shifted corners. -/
theorem cut_joined : Triangle.cut joint.vertices = Triangle.cut first.vertices ++
    (Triangle.cut second.vertices).map (Triangle.map (firstPositions.size + ·)) := by
  have corners : joint.vertices = Triangle.flatten (Triangle.cut first.vertices ++
      (Triangle.cut second.vertices).map (Triangle.map (firstPositions.size + ·))) := by
    rw [Triangle.flatten, List.flatMap_append, ← Triangle.flatten, ← Triangle.flatten,
      Triangle.flatten_map, flatten_cut_of_accepted firstAccepted,
      flatten_cut_of_accepted secondAccepted, joined]
  rw [corners, Triangle.cut_flatten]

/-- A vertex of the first mesh sees the first mesh. -/
theorem mentions_joined_first {vertex : Nat} (inside : vertex < firstPositions.size) :
    mentions (firstPositions ++ secondPositions) (Triangle.cut joint.vertices) vertex =
      mentions firstPositions (Triangle.cut first.vertices) vertex := by
  have unseen : vertex ∉ Triangle.flatten
      ((Triangle.cut second.vertices).map (Triangle.map (firstPositions.size + ·))) := by
    rw [Triangle.flatten_map, List.mem_map]
    rintro ⟨corner, _, same⟩
    omega
  rw [cut_joined firstAccepted secondAccepted joined, mentions_append, mentions_eq_nil unseen,
    List.append_nil]
  refine mentions_congr (fun corner listed => cornerPosition_congr ?_) vertex
  rw [flatten_cut_of_accepted firstAccepted] at listed
  exact Array.getElem?_append_left ((ofIndices_eq_ok_iff.mp firstAccepted).2.1 corner listed)

/-- A shifted vertex of the second mesh sees the second mesh. -/
theorem mentions_joined_second (vertex : Nat) :
    mentions (firstPositions ++ secondPositions) (Triangle.cut joint.vertices)
        (firstPositions.size + vertex) =
      mentions secondPositions (Triangle.cut second.vertices) vertex := by
  have unseen : firstPositions.size + vertex ∉ Triangle.flatten (Triangle.cut first.vertices) := by
    rw [flatten_cut_of_accepted firstAccepted]
    intro named
    have inside := (ofIndices_eq_ok_iff.mp firstAccepted).2.1 _ named
    omega
  rw [cut_joined firstAccepted secondAccepted joined, mentions_append, mentions_eq_nil unseen,
    List.nil_append]
  refine mentions_map (fun corner _ => cornerPosition_congr ?_) fun corner _ => Nat.add_left_cancel
  rw [Array.getElem?_append_right (by omega), Nat.add_sub_cancel_left]

/-- Meshes may be joined, and their normals with them. -/
theorem ofIndices_joined :
    ofIndices joint (firstPositions ++ secondPositions) = .ok (firstNormals ++ secondNormals) := by
  obtain ⟨firstWhole, firstRange, firstSame⟩ := ofIndices_eq_ok_iff.mp firstAccepted
  obtain ⟨secondWhole, secondRange, secondSame⟩ := ofIndices_eq_ok_iff.mp secondAccepted
  refine ofIndices_eq_ok_iff.mpr ⟨?_, ?_, ?_⟩
  · rw [← IndexBuffer.length_vertices, joined, List.length_append, List.length_map,
      IndexBuffer.length_vertices, IndexBuffer.length_vertices, Nat.add_mod, firstWhole, secondWhole]
  · rw [joined, List.forall_mem_append, List.forall_mem_map, Array.size_append]
    exact ⟨fun vertex named => Nat.lt_add_right _ (firstRange vertex named),
      fun vertex named => Nat.add_lt_add_left (secondRange vertex named) _⟩
  · rw [Array.size_append, Array.range_add, Array.map_append, Array.map_map, ← firstSame,
      ← secondSame]
    refine congrArg₂ (· ++ ·) (Array.map_congr_left fun vertex listed => ?_)
      (Array.map_congr_left fun vertex _ => ?_)
    · exact vertexNormal_congr
        (mentions_joined_first firstAccepted secondAccepted joined (Array.mem_range.mp listed))
    · exact vertexNormal_congr (mentions_joined_second firstAccepted secondAccepted joined vertex)

end Joined

/-- What can be done to an accepted mesh without a trace in its smooth normals. -/
structure Undisturbed (indices : IndexBuffer) (positions normals : Array (Vector3 α)) : Prop where
  /-- Triangles without a common vertex change places. -/
  reordered (other : IndexBuffer) : other.length % 3 = 0 →
    Reordered (Triangle.cut indices.vertices) (Triangle.cut other.vertices) →
    ofIndices other positions = .ok normals
  /-- Triangles are added that do not touch a vertex, and positions at the end. -/
  extended (other : IndexBuffer) (more normals' : Array (Vector3 α)) (vertex : Nat) :
    ofIndices other (positions ++ more) = .ok normals' → vertex < positions.size →
    AddedAwayFrom vertex (Triangle.cut indices.vertices) (Triangle.cut other.vertices) →
    normals'[vertex]? = normals[vertex]?
  /-- Vertices are renumbered, each keeping its place in space. -/
  renumbered (other : IndexBuffer) (moved : Array (Vector3 α)) (number : Nat → Nat) :
    Set.InjOn number {vertex | vertex < positions.size} →
    (∀ vertex < positions.size, moved[number vertex]? = positions[vertex]?) →
    other.vertices = indices.vertices.map number →
    ∃ normals', ofIndices other moved = .ok normals' ∧
      ∀ vertex < positions.size, normals'[number vertex]? = normals[vertex]?
  /-- Indices are stored in another width. -/
  widened (other : IndexBuffer) : other.vertices = indices.vertices →
    ofIndices other positions = .ok normals
  /-- Another mesh is joined to it, with its indices shifted. -/
  joined (other joint : IndexBuffer) (otherPositions otherNormals : Array (Vector3 α)) :
    ofIndices other otherPositions = .ok otherNormals →
    joint.vertices = indices.vertices ++ other.vertices.map (positions.size + ·) →
    ofIndices joint (positions ++ otherPositions) = .ok (normals ++ otherNormals)

/-- Smooth normals are local. Vertices that see the same triangles in the same order have
the same normal, whatever else the two meshes hold and however they number and store it.
So meshes can be rearranged, extended, renumbered, stored in another width and joined, and
every vertex keeps its normal. -/
theorem smooth_normals_are_local {indices : IndexBuffer} {positions normals : Array (Vector3 α)}
    (accepted : ofIndices indices positions = .ok normals) :
    (∀ (other : IndexBuffer) (otherPositions otherNormals : Array (Vector3 α)),
        ofIndices other otherPositions = .ok otherNormals →
        ∀ vertex < positions.size, ∀ otherVertex < otherPositions.size,
          mentions positions (Triangle.cut indices.vertices) vertex =
            mentions otherPositions (Triangle.cut other.vertices) otherVertex →
          ∃ normal, normals[vertex]? = some normal ∧ otherNormals[otherVertex]? = some normal) ∧
      Undisturbed indices positions normals := by
  constructor
  · intro other otherPositions otherNormals otherAccepted vertex inside otherVertex otherInside same
    refine ⟨_, getElem?_of_accepted accepted inside, ?_⟩
    rw [getElem?_of_accepted otherAccepted otherInside, vertexNormal_congr same]
  · constructor
    case reordered => exact fun other => ofIndices_reordered accepted
    case extended =>
      exact fun other more normals' vertex extended inside added =>
        getElem?_of_added accepted extended inside added
    case renumbered => exact fun other moved number => ofIndices_renumbered accepted
    case widened => exact fun other same => (ofIndices_congr same positions).trans accepted
    case joined => exact fun other joint otherPositions otherNormals => ofIndices_joined accepted

/-- Two slopes that meet at a ridge. -/
def roofPositions : Array (Vector3 Float32) :=
  #[⟨0, 1, 0⟩, ⟨1, 1, 0⟩, ⟨0, 0, 1⟩, ⟨1, 0, 1⟩, ⟨0, 0, -1⟩, ⟨1, 0, -1⟩]

/-- The four triangles of the roof. -/
def roof : IndexBuffer := .uint16 [0, 2, 3, 0, 3, 1, 0, 1, 5, 0, 5, 4]

/-- The places of the roof in another order, and one more. -/
def turnedRoofPositions : Array (Vector3 Float32) :=
  #[⟨1, 0, -1⟩, ⟨0, 0, -1⟩, ⟨0, 1, 0⟩, ⟨1, 0, 1⟩, ⟨0, 0, 1⟩, ⟨1, 1, 0⟩, ⟨5, 5, 5⟩]

/-- The roof under other numbers, with a triangle in between that does not touch the end of
the ridge. -/
def turnedRoof : IndexBuffer := .uint8 [2, 4, 3, 2, 3, 5, 6, 5, 6, 2, 5, 0, 2, 0, 1]

/-- The end of the ridge has the same normal in both. -/
theorem roof_ridge_is_local :
    ∃ normals turnedNormals normal, ofIndices roof roofPositions = .ok normals ∧
      ofIndices turnedRoof turnedRoofPositions = .ok turnedNormals ∧
      mentions roofPositions (Triangle.cut roof.vertices) 0 =
        mentions turnedRoofPositions (Triangle.cut turnedRoof.vertices) 2 ∧
      normals[0]? = some normal ∧ turnedNormals[2]? = some normal := by
  have accepted := ofIndices_eq_ok_iff.mpr
    ⟨show roof.length % 3 = 0 by decide,
      show ∀ vertex ∈ roof.vertices, vertex < roofPositions.size by decide, rfl⟩
  have turnedAccepted := ofIndices_eq_ok_iff.mpr
    ⟨show turnedRoof.length % 3 = 0 by decide,
      show ∀ vertex ∈ turnedRoof.vertices, vertex < turnedRoofPositions.size by decide, rfl⟩
  have same : mentions roofPositions (Triangle.cut roof.vertices) 0 =
      mentions turnedRoofPositions (Triangle.cut turnedRoof.vertices) 2 := by decide +kernel
  obtain ⟨normal, here, there⟩ := (smooth_normals_are_local accepted).1 _ _ _ turnedAccepted
    0 (by decide) 2 (by decide) same
  exact ⟨_, _, normal, accepted, turnedAccepted, same, here, there⟩

end RenderAssets.SmoothNormals
