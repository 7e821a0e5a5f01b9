import MeshPath.Build.Options
import MeshPath.Json.Value

/-!
# Build options as JSON

Options are written as an object with two fields. They are read from an object, in which a missing
field has its standard value, a field of another name is skipped and a field that is given twice is
refused; or from an array, which gives the values in the order of the fields.
-/

namespace MeshPath.BuildOptions

/-- The name of the field for `shareEndpoints`. -/
def shareEndpointsName : String := "zero_copy_endpoints"

/-- The name of the field for `sortRows`. -/
def sortRowsName : String := "sort_rows"

/-- The fields of an object that have been read. -/
structure Seen where
  /-- The value of `shareEndpoints`, if it has been read. -/
  shareEndpoints : Option Bool
  /-- The value of `sortRows`, if it has been read. -/
  sortRows : Option Bool

/-- The value of a field that has not been read before. -/
def once? (seen : Option Bool) (v : Json.Value) : Option Bool :=
  match seen, v with
  | none, .bool b => some b
  | _, _ => none

/-- One more field. -/
def readField? (p : Seen) (field : List Nat × Json.Value) : Option Seen :=
  (Json.Token.chars? field.1).bind fun name =>
    if name = shareEndpointsName.toList then
      (once? p.shareEndpoints field.2).map fun b => { p with shareEndpoints := some b }
    else if name = sortRowsName.toList then
      (once? p.sortRows field.2).map fun b => { p with sortRows := some b }
    else some p

/-- All fields of an object, one after another. -/
def readFields? : Seen → List (List Nat × Json.Value) → Option Seen
  | p, [] => some p
  | p, field :: fields => (readField? p field).bind (readFields? · fields)

/-- The options that a JSON value stands for. -/
def ofValue? : Json.Value → Option BuildOptions
  | .array [] => some standard
  | .array [.bool share] => some { standard with shareEndpoints := share }
  | .array [.bool share, .bool sort] => some ⟨share, sort⟩
  | .object fields =>
    (readFields? ⟨none, none⟩ fields).map fun p =>
      ⟨p.shareEndpoints.getD standard.shareEndpoints, p.sortRows.getD standard.sortRows⟩
  | _ => none

/-- The options that a JSON text stands for. -/
def ofJson? (text : String) : Option BuildOptions := (Json.Value.ofString? text).bind ofValue?

/-- Options as a JSON text, a line for each field. -/
def toJson (o : BuildOptions) : String :=
  "\x7b\n  \"" ++ shareEndpointsName ++ "\": " ++ toString o.shareEndpoints ++ ",\n  \"" ++
    sortRowsName ++ "\": " ++ toString o.sortRows ++ "\n\x7d"

end MeshPath.BuildOptions
