/-!
# Bracketed lists

The text of a list inside a message: its items between square brackets, a comma and a blank
between neighbours, `[1, -2]`.
-/

namespace MeshPath.Text

/-- The texts `items` between square brackets, separated by a comma and a blank. -/
def bracketed (items : List String) : String :=
  "[" ++ ", ".intercalate items ++ "]"

/-- The text of a list of naturals. -/
def natList (ns : List Nat) : String := bracketed (ns.map toString)

/-- The text of a list of integers. -/
def intList (zs : List Int) : String := bracketed (zs.map toString)

end MeshPath.Text
