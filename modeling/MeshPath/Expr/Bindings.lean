import MeshPath.Mesh.SetView
import MeshPath.Text.Quoted

/-!
# Tables of bindings

A `Bindings` assigns sets to variable names. `insert` replaces, so that `get?` answers with the
set that was inserted last.
-/

namespace MeshPath

/-- A finite map from variable names to sets. -/
structure Bindings (S : Type := SetView) where
  /-- The bindings, each name at most once. -/
  entries : List (String × S)

namespace Bindings

variable {S : Type}

/-- The table without bindings. -/
def empty : Bindings S := ⟨[]⟩

/-- The set of the variable `name`. -/
def get? (b : Bindings S) (name : String) : Option S := b.entries.lookup name

/-- Binds `name` to `set` in place of what it was bound to before. -/
def insert (b : Bindings S) (name : String) (set : S) : Bindings S :=
  ⟨(name, set) :: b.entries.filter (·.1 ≠ name)⟩

/-- The table with the given bindings; of several for one name the last one holds. -/
def ofList (entries : List (String × S)) : Bindings S :=
  entries.foldl (fun b e => b.insert e.1 e.2) empty

/-- The number of bound names. -/
def size (b : Bindings S) : Nat := b.entries.length

/-- Whether no name is bound. -/
def isEmpty (b : Bindings S) : Bool := b.entries.isEmpty

/-- Puts the text `entry` of the name `name` before the first entry with a greater name. -/
def insertByName (entry : String × S) : List (String × S) → List (String × S)
  | [] => [entry]
  | e :: es => if e.1 < entry.1 then e :: insertByName entry es else entry :: e :: es

/-- The text of a table: the names in ascending order, each with the name of its set. -/
def text [Identified S] (b : Bindings S) : String :=
  let sorted := b.entries.foldr insertByName []
  let entries := sorted.map fun e => s!"{Text.quoted e.1}: {Text.quoted (Identified.name e.2)}"
  "\x7b" ++ ", ".intercalate entries ++ "\x7d"

/-- A name that is bound has the set that it was bound to. -/
theorem get?_insert_self (b : Bindings S) (name : String) (set : S) :
    (b.insert name set).get? name = some set := by
  simp [get?, insert]

/-- Entries for one name do not matter to the lookup of another one. -/
theorem lookup_filter_ne {α : Type} (entries : List (String × α)) {name other : String}
    (h : other ≠ name) : (entries.filter (·.1 ≠ name)).lookup other = entries.lookup other := by
  induction entries with
  | nil => rfl
  | cons e es ih =>
    obtain ⟨n, s⟩ := e
    by_cases hn : n = name
    · have hon : (other == n) = false := beq_false_of_ne (hn ▸ h)
      rw [List.filter_cons_of_neg (by simpa using hn), ih, List.lookup_cons, hon]
    · rw [List.filter_cons_of_pos (by simpa using hn), List.lookup_cons, List.lookup_cons, ih]

/-- Binding a name leaves the other names as they were. -/
theorem get?_insert_of_ne (b : Bindings S) {name other : String} (set : S)
    (h : other ≠ name) : (b.insert name set).get? other = b.get? other := by
  rw [get?, insert, List.lookup_cons, beq_false_of_ne h]
  exact lookup_filter_ne b.entries h

end Bindings

end MeshPath
