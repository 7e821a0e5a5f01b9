/-!
# Build options

Options choose how an index is laid out. They do not choose the relation that it realizes.
-/

namespace MeshPath

/-- How indices are laid out. -/
structure BuildOptions where
  /-- Read homogeneous edge sets as endpoint views instead of copying their endpoints. -/
  shareEndpoints : Bool
  /-- Sort the rows of links from vertices to edges. -/
  sortRows : Bool
deriving DecidableEq, Repr

namespace BuildOptions

/-- Endpoints are shared and rows are sorted. -/
def standard : BuildOptions := ⟨true, true⟩

end BuildOptions

end MeshPath
