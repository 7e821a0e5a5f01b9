import MeshPath.Build.Builder
import MeshPath.Build.OptionsJson
import MeshPath.Expr.Rename
import MeshPath.Mesh.Store
import MeshPath.Proofs.Expr.WellFormed
import MeshPath.Proofs.Expr.Binder
import MeshPath.Proofs.Expr.Renaming
import MeshPath.Proofs.Expr.Coherent
import MeshPath.Proofs.Build.Eval
import MeshPath.Proofs.Build.Growth
import MeshPath.Proofs.Build.Run
import MeshPath.Proofs.Build.Renamed
import MeshPath.Proofs.Build.Alike
import MeshPath.Proofs.Build.Transparent
import MeshPath.Proofs.Index.Rows
import MeshPath.Proofs.Lattice
import MeshPath.Proofs.Mesh.Filled
import MeshPath.Proofs.Mesh.Reached
import MeshPath.Proofs.Build.Relation
import MeshPath.Proofs.Build.Links
import MeshPath.Proofs.Build.Correct
import MeshPath.Proofs.Build.Faults
import MeshPath.Proofs.Build.Outcome
import MeshPath.Proofs.Build.Converse
import MeshPath.Proofs.Build.Rearranged
import MeshPath.Proofs.Build.Identity
import MeshPath.Proofs.Build.RenamedUnbound
import MeshPath.Proofs.Build.Options
import MeshPath.Proofs.Mesh.History
import MeshPath.Proofs.Lattice.Action
import MeshPath.Proofs.Build.Stencils
import MeshPath.Proofs.Expr.Capture
import MeshPath.Proofs.Expr.Callback
import MeshPath.Proofs.Mesh.Appended
import MeshPath.Proofs.Build.Monotone
import MeshPath.Proofs.Lattice.Coordinates
import MeshPath.Proofs.Build.Chain
import MeshPath.Proofs.Build.StencilSum
import MeshPath.Proofs.Build.Incidences
import MeshPath.Proofs.Build.SharedEdges
import MeshPath.Proofs.Lattice.Moves
import MeshPath.Proofs.Mesh.Boxes
import MeshPath.Proofs.Index.Packing
import MeshPath.Proofs.Lattice.Numbering
import MeshPath.Proofs.Build.BoxStar
import MeshPath.Proofs.Build.Accounting
import MeshPath.Proofs.Expr.Parts
import MeshPath.Proofs.Expr.Unbound
import MeshPath.Proofs.Expr.FreshName
import MeshPath.Proofs.Expr.Reading
import MeshPath.Proofs.Expr.Slots
import MeshPath.Proofs.Expr.Order
import MeshPath.Proofs.Build.Failed
import MeshPath.Proofs.Build.Widths
