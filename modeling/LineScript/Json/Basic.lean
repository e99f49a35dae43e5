import LineScript.Decimal.Text

/-!
JSON values and their written form.

Whole numbers and numbers with a fraction are different values.  An object keeps its fields in the
order written, a repeated name included.  Braces of a text are written by their codes, as in
`Token.Basic`.
-/

set_option autoImplicit false

namespace LineScript

inductive Json where
  | null
  | boolean (truth : Bool)
  | integer (number : Int)
  | decimal (number : Decimal)
  | string (text : String)
  | array (elements : List Json)
  | object (fields : List (String × Json))
deriving Repr

namespace Json

def hexDigit (value : Nat) : Char :=
  if value < 10 then Char.ofNat (48 + value) else Char.ofNat (87 + value)

/-- A character between quotes.  Quotes, backslashes and control characters are escaped, five of
these by a letter; everything else stands for itself. -/
def escape (character : Char) : List Char :=
  match character with
  | '"' => ['\\', '"']
  | '\\' => ['\\', '\\']
  | '\n' => ['\\', 'n']
  | '\r' => ['\\', 'r']
  | '\t' => ['\\', 't']
  | '\x08' => ['\\', 'b']
  | '\x0c' => ['\\', 'f']
  | other =>
    if other.toNat < 32 then
      ['\\', 'u', '0', '0', hexDigit (other.toNat / 16), hexDigit (other.toNat % 16)]
    else [other]

def quote (text : String) : List Char :=
  '"' :: (text.toList.flatMap escape ++ ['"'])

def newLine (indent : Nat) : List Char :=
  '\n' :: List.replicate (2 * indent) ' '

mutual

/-- The written form: every element and field on a line of its own, two blanks further in than the
value it belongs to, and no blanks inside an empty array or object. -/
def write (indent : Nat) : Json → List Char
  | .null => ['n', 'u', 'l', 'l']
  | .boolean true => ['t', 'r', 'u', 'e']
  | .boolean false => ['f', 'a', 'l', 's', 'e']
  | .integer number => (Int.repr number).toList
  | .decimal number => number.toSavedText.toList
  | .string text => quote text
  | .array [] => ['[', ']']
  | .array (first :: others) =>
    '[' :: (newLine (indent + 1) ++ write (indent + 1) first ++
      writeElements (indent + 1) others ++ newLine indent ++ [']'])
  | .object [] => ['\x7b', '\x7d']
  | .object ((name, first) :: others) =>
    '\x7b' :: (newLine (indent + 1) ++ quote name ++ ':' :: ' ' :: write (indent + 1) first ++
      writeFields (indent + 1) others ++ newLine indent ++ ['\x7d'])

/-- The elements behind the first. -/
def writeElements (indent : Nat) : List Json → List Char
  | [] => []
  | element :: others =>
    ',' :: (newLine indent ++ write indent element ++ writeElements indent others)

/-- The fields behind the first. -/
def writeFields (indent : Nat) : List (String × Json) → List Char
  | [] => []
  | (name, value) :: others =>
    ',' :: (newLine indent ++ quote name ++ ':' :: ' ' :: write indent value ++
      writeFields indent others)

end

def toText (json : Json) : String :=
  String.ofList (json.write 0)

end Json

end LineScript
