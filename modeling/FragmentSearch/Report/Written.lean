import FragmentSearch.Decimal.Written
import FragmentSearch.Json.Printer
import FragmentSearch.Report.Row

namespace FragmentSearch.Delimited

def needsQuotes (c : Char) : Bool := c = ',' || c = '"' || c = '\n' || c = '\r'

def doubleQuotes (field : List Char) : List Char :=
  field.flatMap fun c => if c = '"' then ['"', '"'] else [c]

def csvChars (field : List Char) : List Char :=
  if field.any needsQuotes then '"' :: doubleQuotes field ++ ['"'] else field

def csvField (field : String) : String := String.ofList (csvChars field.toList)

def flatten (field : String) : String :=
  String.ofList (field.toList.map fun c => if c = '\t' || c = '\n' then ' ' else c)

def lines (separator : String) (records : List (List String)) : String :=
  String.join (records.map fun fields => separator.intercalate fields ++ "\n")

def csv (records : List (List String)) : String := lines "," (records.map (·.map csvField))

def tsv (records : List (List String)) : String := lines "\t" records

end FragmentSearch.Delimited

namespace FragmentSearch

inductive Format where
  | text
  | json
  | tsv
  | csv
deriving DecidableEq

open Json (Value)

def Policy.json (policy : Policy) : Value :=
  Value.ofMembers
    [("allow_flagged", .bool policy.allowFlagged),
      ("include_all", .bool policy.includeAll),
      ("max_count", .ofNat policy.maxCount)]

def Settings.json (settings : Settings) : Value :=
  Value.ofMembers
    [("max_count", .ofNat settings.maxCount),
      ("max_gap_blocks", .ofNat settings.maxGapBlocks),
      ("min_run", .ofNat settings.minRun),
      ("null_gap_weight", Value.ofFloat settings.nullGapWeight)]

def document (members : List (String × Value)) : String :=
  String.ofList (Json.indented 0 (Value.ofMembers members)) ++ "\n"

def percentText (places : Nat) : Option Float → String
  | some percent => Decimal.fixed places percent
  | none => ""

def sizeText : Option Nat → String
  | some size => toString size
  | none => ""

namespace Row

def columns : List String :=
  ["Identified File", "Score", "Physical Block Start", "Logical Block Start", "Logical Block End", "(mod 8)",
    "Percent Complete", "Source File", "Source Size"]

def fields (file score : String) (row : Row) : List String :=
  [file, score, toString row.physicalStart, toString row.logicalStart, toString row.logicalEnd,
    toString row.alignment, percentText 2 row.percent, row.occupant.name.getD "", sizeText row.occupant.size]

def csv (rows : List Row) : String :=
  Delimited.csv (columns :: rows.map fun row => row.fields row.file (Decimal.plain row.score))

def tsv (rows : List Row) : String :=
  Delimited.tsv (columns :: rows.map fun row => row.fields (Delimited.flatten row.file) (Decimal.fixed 4 row.score))

def json (row : Row) : Value :=
  Value.ofMembers
    [("blocks_found", .ofNat row.blocksFound),
      ("identified_file", .ofString row.file),
      ("logical_block_end", .ofNat row.logicalEnd),
      ("logical_block_start", .ofNat row.logicalStart),
      ("mod8", .ofNat row.alignment),
      ("null_gap_blocks", .ofNat row.gapBlocks),
      ("percent_complete", Value.ofOption Value.ofFloat row.percent),
      ("physical_block_start", .ofNat row.physicalStart),
      ("score", Value.ofFloat row.score),
      ("source_file", Value.ofOption .ofString row.occupant.name),
      ("source_id", .ofNat row.source),
      ("source_size", Value.ofOption .ofNat row.occupant.size)]

def rule : String := String.ofList (List.replicate 60 '─')

def textLines (number : Nat) (row : Row) : List String :=
  let percent := match row.percent with
    | some percent => Decimal.fixed 1 percent ++ "%"
    | none => "-"
  ["", "#" ++ toString number ++ " " ++ row.file,
    "   Score: " ++ Decimal.fixed 3 row.score ++ " (mod 8 = " ++ toString row.alignment ++ ")",
    "   Physical block start: " ++ toString row.physicalStart,
    "   Logical blocks: " ++ toString row.logicalStart ++ "..=" ++ toString row.logicalEnd ++ " (" ++
      toString row.blocksFound ++ " found, " ++ percent ++ " complete)"] ++
    (if row.gapBlocks = 0 then [] else ["   Null gap blocks merged: " ++ toString row.gapBlocks]) ++
    (match row.occupant.name, row.occupant.size with
      | some name, some size => ["   Allocated file: " ++ name ++ " (" ++ toString size ++ " bytes)"]
      | some name, none => ["   Allocated file: " ++ name]
      | none, _ => [])

def text (rows : List Row) : String :=
  let numbered := rows.mapIdx fun i row => (if i = 0 then [] else ["", rule]) ++ textLines (i + 1) row
  String.join (numbered.flatten.map (· ++ "\n"))

def written (format : Format) (time : String) (policy : Policy) (settings : Settings) (rows : List Row) : String :=
  match format with
  | .text => text rows
  | .csv => csv rows
  | .tsv => tsv rows
  | .json =>
    document
      [("candidate_policy", policy.json),
        ("generated_at", .ofString time),
        ("run_config", settings.json),
        ("runs", .list (rows.map json))]

end Row

namespace SetRow

def columns : List String := ["Source File", "Source ID", "Raw Score", "Normalized Score"]

def fields (file : String) (row : SetRow) : List String :=
  [file, toString row.source, Decimal.plain row.score, percentText 4 row.normalized]

def csv (rows : List SetRow) : String := Delimited.csv (columns :: rows.map fun row => row.fields row.file)

def tsv (rows : List SetRow) : String :=
  Delimited.tsv (columns :: rows.map fun row => row.fields (Delimited.flatten row.file))

def json (row : SetRow) : Value :=
  Value.ofMembers
    [("filename", .ofString row.file),
      ("normalized_score", Value.ofOption Value.ofFloat row.normalized),
      ("raw_score", Value.ofFloat row.score),
      ("source_id", .ofNat row.source)]

def alignRight (text : String) : String := String.ofList (List.replicate (10 - text.length) ' ') ++ text

def textLine (normalized score file : String) : String :=
  alignRight normalized ++ "  " ++ alignRight score ++ "  " ++ file ++ "\n"

def text (rows : List SetRow) : String :=
  let line (row : SetRow) : String :=
    let normalized := match row.normalized with
      | some normalized => Decimal.fixed 4 normalized
      | none => "-"
    textLine normalized (Decimal.fixed 3 row.score) row.file
  textLine "Normalized" "Raw" "File" ++ String.join (rows.map line)

def written (format : Format) (time : String) (policy : Policy) (rows : List SetRow) : String :=
  match format with
  | .text => text rows
  | .csv => csv rows
  | .tsv => tsv rows
  | .json =>
    document
      [("candidate_policy", policy.json),
        ("generated_at", .ofString time),
        ("sets", .list (rows.map json))]

end SetRow

end FragmentSearch
