import MeshPath.Json.Token

/-!
# JSON values

A JSON text is read in two steps, tokens first and then values. The second step is a machine that
takes one token at a time and keeps a stack of the arrays and objects that are still open.

* `Value`: JSON values. Numbers are opaque, strings are lists of units, and objects keep all their
  fields in order, repeated names included.
* `Value.ofString?`: the value of a text that holds exactly one value.
-/

namespace MeshPath.Json

/-- A JSON value. -/
inductive Value where
  /-- No value. -/
  | null
  /-- A truth value. -/
  | bool (value : Bool)
  /-- A number. -/
  | number
  /-- A string with its units. -/
  | text (units : List Nat)
  /-- An array. -/
  | array (items : List Value)
  /-- An object with its fields. -/
  | object (fields : List (List Nat × Value))

/-- An array or object that is still open. -/
inductive Frame where
  /-- An array that waits for an item, with the items before it, the last one first. -/
  | array (items : List Value)
  /-- An object that waits for the value of `key`, with the fields before it, the last one
  first. -/
  | object (fields : List (List Nat × Value)) (key : List Nat)

/-- What may follow, above a stack of open arrays and objects. -/
inductive Machine where
  /-- A value. -/
  | value (stack : List Frame)
  /-- The first item of an array, or its end. -/
  | firstItem (stack : List Frame)
  /-- A comma or the end of an array. -/
  | itemEnd (items : List Value) (stack : List Frame)
  /-- The first name of an object, or its end. -/
  | firstKey (stack : List Frame)
  /-- A name of an object. -/
  | key (fields : List (List Nat × Value)) (stack : List Frame)
  /-- A colon after a name. -/
  | colon (fields : List (List Nat × Value)) (key : List Nat) (stack : List Frame)
  /-- A comma or the end of an object. -/
  | fieldEnd (fields : List (List Nat × Value)) (stack : List Frame)
  /-- Nothing. -/
  | done (value : Value)

namespace Machine

/-- A complete value goes into the innermost open array or object. -/
def complete (v : Value) : List Frame → Machine
  | [] => done v
  | .array items :: stack => itemEnd (v :: items) stack
  | .object fields name :: stack => fieldEnd ((name, v) :: fields) stack

/-- The first token of a value. -/
def begin? (token : Token) (stack : List Frame) : Option Machine :=
  match token with
  | .null => some (complete .null stack)
  | .bool b => some (complete (.bool b) stack)
  | .number => some (complete .number stack)
  | .text units => some (complete (.text units) stack)
  | .openBracket => some (firstItem stack)
  | .openBrace => some (firstKey stack)
  | _ => none

/-- One more token. -/
def step? (m : Machine) (token : Token) : Option Machine :=
  match m, token with
  | value stack, token => begin? token stack
  | firstItem stack, .closeBracket => some (complete (.array []) stack)
  | firstItem stack, token => begin? token (.array [] :: stack)
  | itemEnd items stack, .comma => some (value (.array items :: stack))
  | itemEnd items stack, .closeBracket => some (complete (.array items.reverse) stack)
  | firstKey stack, .closeBrace => some (complete (.object []) stack)
  | firstKey stack, .text name => some (colon [] name stack)
  | key fields stack, .text name => some (colon fields name stack)
  | colon fields name stack, .colon => some (value (.object fields name :: stack))
  | fieldEnd fields stack, .comma => some (key fields stack)
  | fieldEnd fields stack, .closeBrace => some (complete (.object fields.reverse) stack)
  | _, _ => none

/-- The value that the tokens spell out from here. -/
def run? : Machine → List Token → Option Value
  | done v, [] => some v
  | _, [] => none
  | m, token :: tokens =>
    match m.step? token with
    | some m => m.run? tokens
    | none => none

end Machine

/-- The value of a text that holds one value and blanks around it. -/
def Value.ofString? (s : String) : Option Value :=
  (Token.ofChars? s.toList).bind (Machine.value []).run?

end MeshPath.Json
