import RenderAssets.Proofs.Shape.CylinderLayout
import RenderAssets.Proofs.Shape.SphereLayout

/-!
# Round shapes at every size

Cylinders and spheres have meshes that are sound at every size that words can number. Up
to the last such size no vertex number wraps; what is asked for beyond it is not looked
at. Soundness is read off the layouts of the two shapes.
-/

namespace RenderAssets.Shape

/-- Cylinders and spheres of every size are sound, as long as their vertices can be numbered
in words. Their triangles are computed without wrapping, name three different vertices
each, and together name every vertex; so smooth normals can be computed for them, and none
of these is normalised from an empty sum. A cylinder has at least four segments, and an even
number of them. -/
theorem generated_meshes_are_sound (α : Type) [Trigonometric α] :
    (∀ (radius halfLength : α) (requested : UInt32),
      4 * Cylinder.evenCount requested.toNat + 2 ≤ UInt32.size →
        ∃ triangles,
          (Cylinder.segmentCount? requested).bind Cylinder.triangles? = some triangles ∧
            (Cylinder.mesh radius halfLength requested).IndexSound
              (.uint32 (Triangle.flatten triangles))
              (4 * Cylinder.evenCount requested.toNat + 2)
              (12 * Cylinder.evenCount requested.toNat)) ∧
      ∀ (radius : α) (segments rings : UInt32), 1 ≤ segments → 1 ≤ rings →
        (segments.toNat + 1) * (rings.toNat + 1) ≤ UInt32.size →
          ∃ triangles, Sphere.triangles? segments rings = some triangles ∧
            (Sphere.mesh radius segments rings).IndexSound (.uint32 (Triangle.flatten triangles))
              ((segments.toNat + 1) * (rings.toNat + 1)) (6 * segments.toNat * rings.toNat) :=
  ⟨fun radius halfLength _ room => Cylinder.mesh_indexSound radius halfLength room,
    fun radius _ _ columns rows room => Sphere.mesh_indexSound radius columns rows room⟩

/-- Five segments are raised to six, for a cylinder of twenty-six vertices. A sphere of eight
segments and four rings has forty-five. -/
theorem small_meshes_are_sound :
    (∃ triangles, (Cylinder.segmentCount? 5).bind Cylinder.triangles? = some triangles ∧
      (Cylinder.mesh (1 : Float32) 1 5).IndexSound (.uint32 (Triangle.flatten triangles)) 26 72) ∧
      ∃ triangles, Sphere.triangles? 8 4 = some triangles ∧
        (Sphere.mesh (1 : Float32) 8 4).IndexSound
          (.uint32 (Triangle.flatten triangles)) 45 192 := by
  obtain ⟨cylinders, spheres⟩ := generated_meshes_are_sound Float32
  exact ⟨cylinders 1 1 5 (by decide), spheres 1 8 4 (by decide) (by decide) (by decide)⟩

end RenderAssets.Shape
