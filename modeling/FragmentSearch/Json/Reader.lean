import FragmentSearch.Json.Value

/-!
The tokens of a JSON text, found in one pass from left to right. Marks stand alone, a string runs to
its closing quote, and any other characters up to the next space, mark or quote form one word, which
has to be a literal or a number.
-/

namespace FragmentSearch.Json

inductive Mark where
  | openList
  | closeList
  | openObject
  | closeObject
  | comma
  | colon
deriving DecidableEq

inductive Token where
  | mark (mark : Mark)
  | text (raw : List Char)
  | null
  | bool (value : Bool)
  | number (lexeme : List Char)

def mark? (c : Char) : Option Mark :=
  match c with
  | '[' => some .openList
  | ']' => some .closeList
  | '{' => some .openObject
  | '}' => some .closeObject
  | ',' => some .comma
  | ':' => some .colon
  | _ => none

def wordToken? (word : List Char) : Option Token :=
  if word = "null".toList then some .null
  else if word = "true".toList then some (.bool true)
  else if word = "false".toList then some (.bool false)
  else if isNumber word then some (.number word)
  else none

inductive Place where
  | between
  | word (taken : List Char)
  | text (taken : List Char)
  | escape (taken : List Char)
  | hex (taken : List Char) (left : Nat)

structure Scan where
  found : List Token
  place : Place

def Scan.start (found : List Token) (c : Char) : Scan :=
  if isSpace c then ⟨found, .between⟩
  else if c = '"' then ⟨found, .text []⟩
  else match mark? c with
    | some mark => ⟨.mark mark :: found, .between⟩
    | none => ⟨found, .word [c]⟩

def endsWord (c : Char) : Bool := isSpace c || c = '"' || (mark? c).isSome

def Scan.step (scan : Scan) (c : Char) : Option Scan :=
  match scan.place with
  | .between => some (start scan.found c)
  | .word taken =>
    if endsWord c then (wordToken? taken.reverse).map fun token => start (token :: scan.found) c
    else some { scan with place := .word (c :: taken) }
  | .text taken =>
    if c = '"' then some ⟨.text taken.reverse :: scan.found, .between⟩
    else if c = '\\' then some { scan with place := .escape (c :: taken) }
    else if c < ' ' then none
    else some { scan with place := .text (c :: taken) }
  | .escape taken =>
    if c = 'u' then some { scan with place := .hex (c :: taken) 4 }
    else if "\"\\/bfnrt".toList.contains c then some { scan with place := .text (c :: taken) }
    else none
  | .hex taken left =>
    if c.isDigit || ('a' ≤ c && c ≤ 'f') || ('A' ≤ c && c ≤ 'F') then
      some { scan with place := if left ≤ 1 then .text (c :: taken) else .hex (c :: taken) (left - 1) }
    else none

def Scan.tokens? (scan : Scan) : Option (List Token) :=
  match scan.place with
  | .between => some scan.found.reverse
  | .word taken => (wordToken? taken.reverse).map fun token => (token :: scan.found).reverse
  | _ => none

def tokens? (text : List Char) : Option (List Token) := do
  let scan ← text.foldlM Scan.step ⟨[], .between⟩
  scan.tokens?

inductive Frame where
  | list (items : List Value)
  | object (members : List (List Char × Value)) (name : List Char)

inductive Demand where
  | value
  | itemOrClose
  | nameOrClose
  | name (members : List (List Char × Value))
  | colon (members : List (List Char × Value)) (name : List Char)
  | more (last : Value)

structure Parse where
  demand : Demand
  frames : List Frame

def close? (mark : Mark) (last : Value) : Frame → Option Value
  | .list items => if mark = .closeList then some (.list (last :: items).reverse) else none
  | .object members name => if mark = .closeObject then some (.object ((name, last) :: members).reverse) else none

def Parse.begin (frames : List Frame) : Token → Option Parse
  | .null => some ⟨.more .null, frames⟩
  | .bool value => some ⟨.more (.bool value), frames⟩
  | .number lexeme => some ⟨.more (.number lexeme), frames⟩
  | .text raw => some ⟨.more (.text raw), frames⟩
  | .mark .openList => some ⟨.itemOrClose, .list [] :: frames⟩
  | .mark .openObject => some ⟨.nameOrClose, frames⟩
  | .mark _ => none

def Parse.step (parse : Parse) (token : Token) : Option Parse :=
  match parse.demand, parse.frames, token with
  | .value, frames, token => begin frames token
  | .itemOrClose, _ :: frames, .mark .closeList => some ⟨.more (.list []), frames⟩
  | .itemOrClose, frames, token => begin frames token
  | .nameOrClose, frames, .mark .closeObject => some ⟨.more (.object []), frames⟩
  | .nameOrClose, frames, .text name => some ⟨.colon [] name, frames⟩
  | .name members, frames, .text name => some ⟨.colon members name, frames⟩
  | .colon members name, frames, .mark .colon => some ⟨.value, .object members name :: frames⟩
  | .more last, .list items :: frames, .mark .comma => some ⟨.value, .list (last :: items) :: frames⟩
  | .more last, .object members name :: frames, .mark .comma => some ⟨.name ((name, last) :: members), frames⟩
  | .more last, frame :: frames, .mark mark => (close? mark last frame).map fun value => ⟨.more value, frames⟩
  | _, _, _ => none

def Parse.value? (parse : Parse) : Option Value :=
  match parse.demand, parse.frames with
  | .more value, [] => some value
  | _, _ => none

def read? (text : List Char) : Option Value := do
  let tokens ← tokens? text
  let parse ← tokens.foldlM Parse.step ⟨.value, []⟩
  parse.value?

end FragmentSearch.Json
