import MeshPath.Error
import MeshPath.Mesh.SetView

/-!
# Path variables

A variable is a name together with what is known of its set. An *open* variable may have a set or
not, a *bound* one has. Inside one expression variables are told apart by name alone.

Sets of any kind will do that has identities and names; `SetView` is meant where none is given.
-/

namespace MeshPath

/-- A named variable with the data `set` on its set. -/
structure Var (S : Type) where
  /-- The name. -/
  name : String
  /-- What is known of the set that the variable ranges over. -/
  set : S
deriving DecidableEq

/-- A variable that may or may not have a set. -/
abbrev OpenVar (S : Type := SetView) := Var (Option S)

/-- A variable with a set. -/
abbrev BoundVar (S : Type := SetView) := Var S

namespace Var

variable {S : Type}

/-- The variable `name` without a set. -/
def unbound (name : String) : OpenVar S := ⟨name, none⟩

/-- The variable `name` over the set `set`. -/
def bound (name : String) (set : S) : OpenVar S := ⟨name, some set⟩

/-- Whether the variable has a set. -/
def isBound (v : OpenVar S) : Bool := v.set.isSome

/-- The same name over the set `set`. -/
def rebind (v : OpenVar S) (set : S) : OpenVar S := bound v.name set

/-- The same data under another name. -/
def rename (v : Var S) (name : String) : Var S := { v with name := name }

/-- The set of a variable. -/
def binding (v : OpenVar S) : Except PathError S :=
  match v.set with
  | some set => .ok set
  | none => .error (.unboundVar v.name)

/-- The variable as a bound one. -/
def close (v : OpenVar S) : Except PathError (BoundVar S) :=
  v.binding.map fun set => ⟨v.name, set⟩

variable [Identified S]

/-- The identity of the set of a variable. -/
def setId? (v : OpenVar S) : Option SetId := v.set.map Identified.id

/-- Whether two variables stand for the same thing: the same set if both have one, and the same
name otherwise. This relation is not transitive. -/
def agrees (v w : OpenVar S) : Bool :=
  match v.setId?, w.setId? with
  | some a, some b => a = b
  | _, _ => v.name = w.name

/-- The text of a variable: its name, and the name of its set unless that is empty. -/
def text (v : OpenVar S) : String :=
  match v.set with
  | some set =>
    if (Identified.name set).isEmpty then v.name else s!"({v.name} in {Identified.name set})"
  | none => v.name

/-- The text of a variable under an existential quantifier. -/
def quantifiedText (v : OpenVar S) : String := s!"exist {v.text}"

end Var

end MeshPath
