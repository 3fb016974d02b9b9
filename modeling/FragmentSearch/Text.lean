namespace FragmentSearch

/-- Offsets, identifiers and counts fit in sixty-four bits wherever they are read from a stream. -/
def wordLimit : Nat := 0x10000000000000000

namespace Text

def blanks : List Nat :=
  [0x09, 0x0A, 0x0B, 0x0C, 0x0D, 0x20, 0x85, 0xA0, 0x1680, 0x2000, 0x2001, 0x2002, 0x2003, 0x2004,
    0x2005, 0x2006, 0x2007, 0x2008, 0x2009, 0x200A, 0x2028, 0x2029, 0x202F, 0x205F, 0x3000]

def isBlank (c : Char) : Bool := blanks.contains c.toNat

def dropEndWhile (p : Char → Bool) (text : List Char) : List Char :=
  (text.reverse.dropWhile p).reverse

def trim (text : List Char) : List Char := dropEndWhile isBlank (text.dropWhile isBlank)

theorem dropEndWhile_eq_iff {p : Char → Bool} {text kept : List Char} :
    dropEndWhile p text = kept ↔
      (∃ dropped, (∀ c ∈ dropped, p c) ∧ text = kept ++ dropped) ∧ ∀ c ∈ kept.getLast?, ¬p c := by
  constructor
  · rintro rfl
    refine ⟨⟨(text.reverse.takeWhile p).reverse, ?_, ?_⟩, ?_⟩
    · intro c member
      exact List.all_eq_true.mp List.all_takeWhile c (List.mem_reverse.mp member)
    · rw [dropEndWhile, ← List.reverse_append, List.takeWhile_append_dropWhile, List.reverse_reverse]
    · intro c last
      rw [dropEndWhile, List.getLast?_reverse] at last
      have := List.head?_dropWhile_not p text.reverse
      rw [last] at this
      simpa using this
  · rintro ⟨⟨dropped, all, rfl⟩, last⟩
    have all : ∀ c ∈ dropped.reverse, p c := fun c member => all c (List.mem_reverse.mp member)
    rw [dropEndWhile, List.reverse_append, List.dropWhile_append_of_pos all, List.reverse_eq_iff]
    cases reversed : kept.reverse with
    | nil => rfl
    | cons c rest =>
      have : kept.getLast? = some c := by rw [← List.head?_reverse, reversed]; rfl
      exact List.dropWhile_cons_of_neg (last c this)

theorem dropEndWhile_eq_self {p : Char → Bool} {text : List Char} (last : ∀ c ∈ text.getLast?, ¬p c) :
    dropEndWhile p text = text :=
  dropEndWhile_eq_iff.mpr ⟨⟨[], by simp, by simp⟩, last⟩

theorem trim_eq_self {text : List Char} (first : ∀ c ∈ text.head?, ¬isBlank c)
    (last : ∀ c ∈ text.getLast?, ¬isBlank c) : trim text = text := by
  cases text with
  | nil => rfl
  | cons c rest => rw [trim, List.dropWhile_cons_of_neg (first c rfl), dropEndWhile_eq_self last]

def lineFeed : UInt8 := 10

def prependByte (byte : UInt8) (lines : List (List UInt8)) : List (List UInt8) :=
  if byte = lineFeed then [byte] :: lines
  else match lines with
    | [] => [[byte]]
    | line :: rest => (byte :: line) :: rest

def cutLines (bytes : List UInt8) : List (List UInt8) := bytes.foldr prependByte []

def isLineEnd (c : Char) : Bool := c = '\n' || c = '\r'

def lineText? (line : List UInt8) : Option String :=
  (String.fromUTF8? line.toByteArray).map fun text => String.ofList (dropEndWhile isLineEnd text.toList)

def digits? (text : List Char) : Option Nat :=
  if text.isEmpty || !text.all Char.isDigit then none else some (Nat.ofDigitChars 10 text 0)

def word? (text : List Char) : Option Nat := (digits? text).filter (· < wordLimit)

def natural? : List Char → Option Nat
  | '+' :: text => word? text
  | text => word? text

structure IllFormed where
  place : Nat
  wrong : Option Nat
deriving DecidableEq

def IllFormed.message (fault : IllFormed) : String :=
  match fault.wrong with
  | some count =>
    "invalid utf-8 sequence of " ++ toString count ++ " bytes from index " ++ toString fault.place
  | none => "incomplete utf-8 byte sequence from index " ++ toString fault.place

def continuations? (first : UInt8) : Option (List (UInt8 × UInt8)) :=
  if first < 0x80 then some []
  else if first < 0xC2 then none
  else if first < 0xE0 then some [(0x80, 0xBF)]
  else if first < 0xF0 then
    some [(if first = 0xE0 then 0xA0 else 0x80, if first = 0xED then 0x9F else 0xBF), (0x80, 0xBF)]
  else if first < 0xF5 then
    some [(if first = 0xF0 then 0x90 else 0x80, if first = 0xF4 then 0x8F else 0xBF), (0x80, 0xBF), (0x80, 0xBF)]
  else none

def wrongIn (right : Nat) : List (UInt8 × UInt8) → List UInt8 → Option (Option Nat)
  | [], _ => none
  | _ :: _, [] => some none
  | (low, high) :: ranges, byte :: bytes =>
    if low ≤ byte && byte ≤ high then wrongIn (right + 1) ranges bytes else some (some right)

/-- Looks for the first fault behind a place; `left` bytes belong to the character before it. -/
def illFormedFrom (place left : Nat) : List UInt8 → Option IllFormed
  | [] => none
  | byte :: bytes =>
    match left with
    | left + 1 => illFormedFrom (place + 1) left bytes
    | 0 =>
      match continuations? byte with
      | none => some ⟨place, some 1⟩
      | some ranges =>
        match wrongIn 1 ranges bytes with
        | some wrong => some ⟨place, wrong⟩
        | none => illFormedFrom (place + 1) ranges.length bytes

def decode (bytes : List UInt8) : Except IllFormed String :=
  match illFormedFrom 0 0 bytes with
  | some fault => .error fault
  | none => .ok ((String.fromUTF8? bytes.toByteArray).getD "")

end Text

end FragmentSearch
