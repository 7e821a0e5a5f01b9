import MeshPath.Mesh.Identity
import MeshPath.Text.Bracketed

/-!
# Errors of mesh construction

`MeshError` lists the causes for which a set refuses a new element, a lattice its extents or a
coordinate; `MeshError.message` is the text of each.
-/

namespace MeshPath

/-- The causes for which a step of mesh construction fails. -/
inductive MeshError where
  /-- An edge of `set` was given `found` ends instead of `expected`. -/
  | endpointCount (set : String) (expected found : Nat)
  /-- The end at `position` of an edge of `set` belongs to the set `found`. -/
  | endpointSetMismatch (set : String) (position : Nat) (expected found : SetId)
  /-- A vertex was added to an edge set. -/
  | notAVertexSet (set : String)
  /-- An edge was added to a set without endpoints. -/
  | notAnEdgeSet (set : String)
  /-- An element was added to a lattice. -/
  | fixedLattice (set : String)
  /-- A coordinate was looked up in a set that is no lattice. -/
  | notALattice (set : String)
  /-- A lattice was asked for without dimensions or with a zero extent. -/
  | invalidDimensions (dims : List Nat)
  /-- The coordinate `coords` lies outside the extents `dims`. -/
  | coordinateOutOfRange (coords dims : List Nat)
deriving DecidableEq, Repr

namespace MeshError

/-- The text of an error. -/
def message : MeshError → String
  | endpointCount set expected found =>
    s!"set `{set}` expects {expected} endpoints per element, got {found}"
  | endpointSetMismatch set position expected found =>
    s!"endpoint {position} of an element of `{set}` belongs to set #{found.number}, " ++
      s!"expected set #{expected.number}"
  | notAVertexSet set => s!"`{set}` is an edge set; use `add_edge`"
  | notAnEdgeSet set => s!"`{set}` is not an edge set"
  | fixedLattice set => s!"`{set}` is a lattice; its elements are fixed by its dimensions"
  | notALattice set => s!"`{set}` is not a lattice"
  | invalidDimensions dims =>
    s!"invalid lattice dimensions {Text.natList dims}: every dimension must be non-zero"
  | coordinateOutOfRange coords dims =>
    s!"lattice coordinate {Text.natList coords} does not fit dimensions {Text.natList dims}"

end MeshError

end MeshPath
