import RenderAssets.Version
import RenderAssets.FloatWord
import RenderAssets.Normals.Shared
import RenderAssets.Mesh.Summary
import RenderAssets.Mesh.Edit
import RenderAssets.Spirv.Listing
import RenderAssets.Spirv.Session
import RenderAssets.Shader.Edit
import RenderAssets.Proofs.Spirv.CursorSearch
import RenderAssets.Proofs.Spirv.InstructionWords
import RenderAssets.Proofs.Spirv.ScannedInterfaces
import RenderAssets.Proofs.Spirv.ScanAcceptance
import RenderAssets.Proofs.Spirv.LocatedSlots
import RenderAssets.Proofs.Spirv.OutputSeparation
import RenderAssets.Proofs.Spirv.SeparationFrame
import RenderAssets.Proofs.Spirv.MovedOutputs
import RenderAssets.Proofs.Spirv.PreservedStructure
import RenderAssets.Proofs.Spirv.SettledModules
import RenderAssets.Proofs.Spirv.CheckedCursor
import RenderAssets.Proofs.Spirv.CheckedScan
import RenderAssets.Proofs.Spirv.CheckedSeparation
import RenderAssets.Proofs.Spirv.ModulePartition
import RenderAssets.Proofs.Spirv.EncodedRecords
import RenderAssets.Proofs.Spirv.SessionRuns
import RenderAssets.Proofs.Spirv.SearchOutcomes
import RenderAssets.Proofs.Spirv.InterfaceFacts
import RenderAssets.Proofs.Spirv.SharedFacts
import RenderAssets.Proofs.Shader.StoredModules
import RenderAssets.Proofs.Shader.ByteForms
import RenderAssets.Proofs.Shader.EditRuns
import RenderAssets.Proofs.Scalar.BitPatterns
import RenderAssets.Proofs.Scalar.SignedZeros
import RenderAssets.Proofs.Scalar.StoredValues
import RenderAssets.Proofs.Normals.TriangleRuns
import RenderAssets.Proofs.Normals.UnrolledCorners
import RenderAssets.Proofs.Normals.VertexSums
import RenderAssets.Proofs.Normals.SmoothLocality
import RenderAssets.Proofs.Normals.UnsharedVertices
import RenderAssets.Proofs.Normals.NumberedNormals
import RenderAssets.Proofs.Normals.CanonicalNumbers
import RenderAssets.Proofs.Normals.FilledBuffers
import RenderAssets.Proofs.Normals.VertexFolds
import RenderAssets.Proofs.Normals.MissingVertices
import RenderAssets.Proofs.Shape.ExactNumbers
import RenderAssets.Proofs.Shape.SoundLayouts
import RenderAssets.Proofs.Shape.CylinderLayout
import RenderAssets.Proofs.Shape.SphereLayout
import RenderAssets.Proofs.Shape.GeneratedMeshes
import RenderAssets.Proofs.Shape.CyclicSegments
import RenderAssets.Proofs.Shape.OrientedSurfaces
import RenderAssets.Proofs.Shape.ClosedCylinder
import RenderAssets.Proofs.Shape.BalancedFans
import RenderAssets.Proofs.Shape.OrientedSphere
import RenderAssets.Proofs.Mesh.BuiltMeshes
import RenderAssets.Proofs.Spirv.NumberedOutputs
import RenderAssets.Proofs.Spirv.ScanMeaning
import RenderAssets.Proofs.Spirv.LiteralNames
