import MeshPath.Text.Visible

/-!
# Quoted text

The text of a string inside a printed value: double quotes around it, a backslash before a quote
or a backslash, short forms for the usual controls, and the code point in hexadecimal for every
other character without a shape of its own.
-/

namespace MeshPath.Text

/-- The form of one character inside quotes. -/
def quotedChar (c : Char) : List Char :=
  match c with
  | '\x00' => ['\\', '0']
  | '\t' => ['\\', 't']
  | '\n' => ['\\', 'n']
  | '\r' => ['\\', 'r']
  | '"' => ['\\', '"']
  | '\\' => ['\\', '\\']
  | c =>
    if isVisible c then [c]
    else ['\\', 'u', '\x7b'] ++ Nat.toDigits 16 c.toNat ++ ['\x7d']

/-- A string between double quotes. -/
def quoted (s : String) : String :=
  String.ofList ('"' :: s.toList.flatMap quotedChar ++ ['"'])

end MeshPath.Text
