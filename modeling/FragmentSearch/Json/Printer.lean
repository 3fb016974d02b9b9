import FragmentSearch.Decimal.Written
import FragmentSearch.Json.Value

namespace FragmentSearch.Json

def Value.ofFloat (x : Float) : Value :=
  match Decimal.marked? x with
  | some lexeme => .number lexeme.toList
  | none => .null

def quoted (raw : List Char) : List Char := '"' :: raw ++ ['"']

def separated (separator : List Char) (pieces : List (List Char)) : List Char :=
  (pieces.intersperse separator).flatten

mutual

def compact : Value → List Char
  | .null => "null".toList
  | .bool value => (if value then "true" else "false").toList
  | .number lexeme => lexeme
  | .text raw => quoted raw
  | .list items => '[' :: separated [','] (compactItems items) ++ [']']
  | .object members => '\x7b' :: separated [','] (compactMembers members) ++ ['\x7d']

def compactItems : List Value → List (List Char)
  | [] => []
  | item :: items => compact item :: compactItems items

def compactMembers : List (List Char × Value) → List (List Char)
  | [] => []
  | (name, value) :: members => (quoted name ++ ':' :: compact value) :: compactMembers members

end

def newLine (depth : Nat) : List Char := '\n' :: List.replicate (2 * depth) ' '

def block (depth : Nat) (first last : Char) (pieces : List (List Char)) : List Char :=
  if pieces.isEmpty then [first, last]
  else first :: newLine (depth + 1) ++ separated (',' :: newLine (depth + 1)) pieces ++ newLine depth ++ [last]

mutual

def indented (depth : Nat) : Value → List Char
  | .null => "null".toList
  | .bool value => (if value then "true" else "false").toList
  | .number lexeme => lexeme
  | .text raw => quoted raw
  | .list items => block depth '[' ']' (indentedItems (depth + 1) items)
  | .object members => block depth '\x7b' '\x7d' (indentedMembers (depth + 1) members)

def indentedItems (depth : Nat) : List Value → List (List Char)
  | [] => []
  | item :: items => indented depth item :: indentedItems depth items

def indentedMembers (depth : Nat) : List (List Char × Value) → List (List Char)
  | [] => []
  | (name, value) :: members =>
    (quoted name ++ ": ".toList ++ indented depth value) :: indentedMembers depth members

end

end FragmentSearch.Json
