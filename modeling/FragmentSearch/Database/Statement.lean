import FragmentSearch.Database.Cell

namespace FragmentSearch.Database

inductive Token where
  | word (text : List Char)
  | quoted (text : List Char)
  | string (text : List Char)
  | blob (text : List Char)
  | number (text : List Char)
  | mark (c : Char)
deriving DecidableEq

inductive Quote where
  | name (closing : Char)
  | string
  | blob
deriving DecidableEq

namespace Quote

def closing : Quote → Char
  | .name closing => closing
  | _ => '\''

def token (quote : Quote) (text : List Char) : Token :=
  match quote with
  | .name _ => .quoted text
  | .string => .string text
  | .blob => .blob text

def ofOpening? (c : Char) : Option Quote :=
  match c with
  | '"' => some (.name '"')
  | '[' => some (.name ']')
  | '\x60' => some (.name '\x60')
  | '\'' => some .string
  | _ => none

end Quote

/-- Where the scan of a statement stands; the characters already taken are in reverse. A closing quote
may turn out to be one of two that stand for one in the text. -/
inductive Place where
  | between
  | word (taken : List Char)
  | number (taken : List Char)
  | quote (quote : Quote) (taken : List Char)
  | quoteEnd (quote : Quote) (taken : List Char)
  | dash
  | slash
  | lineComment
  | blockComment (afterStar : Bool)

structure Scan where
  found : List Token
  place : Place

def isNameChar (c : Char) : Bool := c.isAlphanum || c = '_' || c = '$' || '\x7f' < c

def Scan.start (found : List Token) (c : Char) : Scan :=
  if isSpace c then ⟨found, .between⟩
  else if c.isDigit || c = '.' then ⟨found, .number [c]⟩
  else if isNameChar c then ⟨found, .word [c]⟩
  else if c = '-' then ⟨found, .dash⟩
  else if c = '/' then ⟨found, .slash⟩
  else match Quote.ofOpening? c with
    | some quote => ⟨found, .quote quote []⟩
    | none => ⟨.mark c :: found, .between⟩

def isExponentMark (taken : List Char) : Bool :=
  match taken with
  | c :: _ => (c = 'e' || c = 'E') && !taken.contains 'x' && !taken.contains 'X'
  | [] => false

def Scan.tokens (scan : Scan) : List Token :=
  match scan.place with
  | .word taken => .word taken.reverse :: scan.found
  | .number taken => .number taken.reverse :: scan.found
  | .quote quote taken => quote.token taken.reverse :: scan.found
  | .quoteEnd quote taken => quote.token taken.reverse :: scan.found
  | .dash => .mark '-' :: scan.found
  | .slash => .mark '/' :: scan.found
  | _ => scan.found

def Scan.step (scan : Scan) (c : Char) : Scan :=
  match scan.place with
  | .between => start scan.found c
  | .word taken =>
    if isNameChar c then ⟨scan.found, .word (c :: taken)⟩
    else if c = '\'' && (taken = ['x'] || taken = ['X']) then ⟨scan.found, .quote .blob []⟩
    else start scan.tokens c
  | .number taken =>
    if isNameChar c || c = '.' || ((c = '+' || c = '-') && isExponentMark taken) then
      ⟨scan.found, .number (c :: taken)⟩
    else start scan.tokens c
  | .quote quote taken =>
    if c = quote.closing then ⟨scan.found, .quoteEnd quote taken⟩ else ⟨scan.found, .quote quote (c :: taken)⟩
  | .quoteEnd quote taken =>
    if c = quote.closing && c ≠ ']' then ⟨scan.found, .quote quote (c :: taken)⟩ else start scan.tokens c
  | .dash => if c = '-' then ⟨scan.found, .lineComment⟩ else start scan.tokens c
  | .slash => if c = '*' then ⟨scan.found, .blockComment false⟩ else start scan.tokens c
  | .lineComment => if c = '\n' then ⟨scan.found, .between⟩ else scan
  | .blockComment afterStar =>
    if afterStar && c = '/' then ⟨scan.found, .between⟩ else ⟨scan.found, .blockComment (c = '*')⟩

def tokens (text : List Char) : List Token := (text.foldl Scan.step ⟨[], .between⟩).tokens.reverse

def lowered (text : List Char) : List Char := text.map Char.toLower

def Token.isWord (token : Token) (word : String) : Bool :=
  match token with
  | .word text => lowered text = word.toList
  | _ => false

def Token.name? : Token → Option (List Char)
  | .word text => some (lowered text)
  | .quoted text => some (lowered text)
  | .string text => some (lowered text)
  | _ => none

def partsFrom (depth : Nat) (part : List Token) (parts : List (List Token)) :
    List Token → List (List Token) × List Token
  | [] => ((part.reverse :: parts).reverse, [])
  | token :: rest =>
    match depth, token with
    | 0, .mark ')' => ((part.reverse :: parts).reverse, rest)
    | 0, .mark ',' => partsFrom 0 [] (part.reverse :: parts) rest
    | depth, .mark '(' => partsFrom (depth + 1) (token :: part) parts rest
    | depth + 1, .mark ')' => partsFrom depth (token :: part) parts rest
    | depth, token => partsFrom depth (token :: part) parts rest

def definitions (statement : List Char) : List (List Token) × List Token :=
  partsFrom 0 [] [] (((tokens statement).dropWhile (· ≠ .mark '(')).drop 1)

def constraintWords : List String :=
  ["constraint", "primary", "not", "null", "unique", "check", "default", "collate", "references", "generated", "as",
    "on", "foreign"]

def Token.beginsConstraint (token : Token) : Bool := constraintWords.any token.isWord

def outside (depth : Nat) : List Token → List Token
  | [] => []
  | .mark '(' :: rest => outside (depth + 1) rest
  | .mark ')' :: rest => outside (depth - 1) rest
  | token :: rest => if depth = 0 then token :: outside depth rest else outside depth rest

def hasWords (words : List String) : List Token → Bool
  | [] => false
  | token :: rest =>
    (words.length ≤ rest.length + 1 && (words.zip (token :: rest)).all fun (word, token) => token.isWord word) ||
      hasWords words rest

def contains (part : List Char) : List Char → Bool
  | [] => part.isEmpty
  | c :: text => part.isPrefixOf (c :: text) || contains part text

def Affinity.ofType (strict : Bool) (type : List Token) : Affinity :=
  let text := type.flatMap fun token => ' ' :: (token.name?).getD []
  let has (part : String) : Bool := contains part.toList text
  if type.isEmpty || (strict && has "any") then .blob
  else if has "int" then .numeric
  else if has "char" || has "clob" || has "text" then .text
  else if has "blob" then .blob
  else if has "real" || has "floa" || has "doub" then .real
  else .numeric

def bytesOf (text : List Char) : List UInt8 := text.map fun c => UInt8.ofNat c.toNat

def hexNumber (text : List Char) : Nat := text.foldl (fun value c => 16 * value + hexValue c) 0
where
  hexValue (c : Char) : Nat :=
    if c.isDigit then c.toNat - '0'.toNat else c.toLower.toNat - 'a'.toNat + 10

def hexBytes : List Char → List UInt8
  | a :: b :: rest => UInt8.ofNat (hexNumber [a, b]) :: hexBytes rest
  | _ => []

def numberCell (affinity : Affinity) (negative : Bool) (text : List Char) : Cell :=
  let sign := if negative then ['-'] else []
  let affinity := if affinity = .blob then .numeric else affinity
  let small (n : Nat) : Cell := (Cell.integer (if negative then -n else n)).inColumn affinity
  match text with
  | '0' :: x :: digits =>
    if x = 'x' || x = 'X' then small (hexNumber digits)
    else if (x :: digits).all Char.isDigit then small (Nat.ofDigitChars 10 (x :: digits) 0)
    else (Cell.text (bytesOf (sign ++ text))).inColumn affinity
  | _ =>
    if text.all Char.isDigit && Nat.ofDigitChars 10 text 0 < 0x80000000 then small (Nat.ofDigitChars 10 text 0)
    else (Cell.text (bytesOf (sign ++ text))).inColumn affinity

def defaultCell (affinity : Affinity) : List Token → Cell
  | .mark '(' :: rest => defaultCell affinity rest
  | .mark '+' :: rest => defaultCell affinity rest
  | .mark '-' :: .number text :: _ => numberCell affinity true text
  | .number text :: _ => numberCell affinity false text
  | .string text :: _ => (Cell.text (bytesOf text)).inColumn affinity
  | .quoted text :: _ => (Cell.text (bytesOf text)).inColumn affinity
  | .blob text :: _ => .blob (hexBytes text)
  | .word text :: _ =>
    if lowered text = "null".toList then .null
    else if lowered text = "true".toList then (Cell.integer 1).inColumn affinity
    else if lowered text = "false".toList then (Cell.integer 0).inColumn affinity
    else (Cell.text (bytesOf text)).inColumn affinity
  | _ => .null

structure Column where
  name : List Char
  affinity : Affinity
  isInteger : Bool
  isKey : Bool
  isDescending : Bool
  isUnique : Bool
  isVirtual : Bool
  default : Cell

def column? (strict : Bool) : List Token → Option Column
  | [] => none
  | first :: rest =>
    if ["constraint", "primary", "unique", "check", "foreign"].any first.isWord then none
    else
      first.name?.map fun name =>
        let type := rest.takeWhile fun token => token.name?.isSome && !token.beginsConstraint
        let behind := rest.dropWhile fun token => token.name?.isSome && !token.beginsConstraint
        let constraints := outside 0 behind
        let affinity := Affinity.ofType strict type
        { name
          affinity
          isInteger := type.map Token.name? = [some "integer".toList] &&
            behind.head? ≠ some (.mark '(')
          isKey := hasWords ["primary", "key"] constraints
          isDescending := hasWords ["primary", "key", "desc"] constraints
          isUnique := hasWords ["unique"] constraints
          isVirtual := hasWords ["as"] constraints && !hasWords ["stored"] constraints
          default := match behind.dropWhile fun token => !token.isWord "default" with
            | _ :: value => defaultCell affinity value
            | [] => .null }

def constrainedNames (definition : List Token) : List (List Char) :=
  let inside := (definition.dropWhile (· ≠ .mark '(')).drop 1
  (partsFrom 0 [] [] inside).1.filterMap fun part => part.head?.bind Token.name?

structure Description where
  columns : List Column
  key : List (List Char)
  unique : List (List (List Char))
  isKeyed : Bool

namespace Description

def ofStatement (statement : List Char) : Description :=
  let (definitions, behind) := definitions statement
  let columns := definitions.filterMap (column? (behind.any (·.isWord "strict")))
  let constraints := definitions.filter fun definition => (column? false definition).isNone
  let constrained (word : String) : List (List (List Char)) :=
    (constraints.filter fun definition => hasWords [word] (outside 0 definition)).map constrainedNames
  let own (holds : Column → Bool) : List (List (List Char)) := (columns.filter holds).map fun column => [column.name]
  let keys := own (·.isKey) ++ constrained "primary"
  { columns
    key := ((keys.head?).getD []).eraseDups
    unique := keys ++ own (·.isUnique) ++ constrained "unique"
    isKeyed := hasWords ["without", "rowid"] behind }

def isRowNumber (table : Description) (column : Column) : Bool :=
  !table.isKeyed && column.isInteger && table.key = [column.name] && !(column.isKey && column.isDescending)

def kept (table : Description) : List Column :=
  let kept := table.columns.filter (!·.isVirtual)
  if table.isKeyed then
    table.key.filterMap (fun name => kept.find? (·.name = name)) ++ kept.filter (!table.key.contains ·.name)
  else kept

def column? (table : Description) (name : String) : Option Column := table.columns.find? (·.name = name.toList)

def isIndexed (table : Description) (name : String) : Bool :=
  table.unique.any fun names => names.head? = some name.toList

def isUnique (table : Description) (name : String) : Bool := table.unique.contains [name.toList]

end Description

end FragmentSearch.Database
