/-!
# Versions

Meshes and shaders are versioned apart, and both are at their first release.
-/

namespace RenderAssets.Version

/-- The version of everything about meshes. -/
def mesh : String := "0.1.0"

/-- The version of everything about shaders. -/
def shader : String := "0.1.0"

end RenderAssets.Version
