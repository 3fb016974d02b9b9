import FragmentSearch.Proofs.JsonShapes
import FragmentSearch.Proofs.QuotedReports
import FragmentSearch.Proofs.TabbedReports

namespace FragmentSearch

open Json (IsObject IsText Value)

variable {format : Format} {time : String} {policy : Policy} {settings : Settings}

theorem Json.wellFormed_ofFloat (x : Float) : (Value.ofFloat x).WellFormed := by
  unfold Value.ofFloat
  split
  next text written => exact .number (isNumber_marked? written)
  · exact .null

theorem Json.wellFormed_ofOption {α : Type} {write : α → Value} (h : ∀ a, (write a).WellFormed) (a : Option α) :
    (Value.ofOption write a).WellFormed := by
  cases a with
  | none => exact .null
  | some a => exact h a

namespace Json

inductive IsOptionalText : Option String → Value → Prop
  | missing : IsOptionalText none .null
  | given {text : String} {value : Value} : IsText text value → IsOptionalText (some text) value

theorem IsOptionalText.wellFormed {text : Option String} {value : Value} (h : IsOptionalText text value) :
    value.WellFormed := by
  cases h with
  | missing => exact .null
  | given text => exact text.wellFormed

end Json

def Policy.IsJson (policy : Policy) : Value → Prop :=
  IsObject [("allow_flagged", .bool policy.allowFlagged), ("include_all", .bool policy.includeAll),
    ("max_count", .ofNat policy.maxCount)]

def Settings.IsJson (settings : Settings) : Value → Prop :=
  IsObject [("max_count", .ofNat settings.maxCount), ("max_gap_blocks", .ofNat settings.maxGapBlocks),
    ("min_run", .ofNat settings.minRun), ("null_gap_weight", .ofFloat settings.nullGapWeight)]

def Row.IsJson (row : Row) (value : Value) : Prop :=
  ∃ file occupant, IsText row.file file ∧ Json.IsOptionalText row.occupant.name occupant ∧
    IsObject [("blocks_found", .ofNat row.blocksFound), ("identified_file", file),
      ("logical_block_end", .ofNat row.logicalEnd), ("logical_block_start", .ofNat row.logicalStart),
      ("mod8", .ofNat row.alignment), ("null_gap_blocks", .ofNat row.gapBlocks),
      ("percent_complete", Value.ofOption .ofFloat row.percent), ("physical_block_start", .ofNat row.physicalStart),
      ("score", .ofFloat row.score), ("source_file", occupant), ("source_id", .ofNat row.source),
      ("source_size", Value.ofOption .ofNat row.occupant.size)] value

def SetRow.IsJson (row : SetRow) (value : Value) : Prop :=
  ∃ file, IsText row.file file ∧
    IsObject [("filename", file), ("normalized_score", Value.ofOption .ofFloat row.normalized),
      ("raw_score", .ofFloat row.score), ("source_id", .ofNat row.source)] value

section Members

variable {value : Value}

theorem Policy.IsJson.wellFormed (h : policy.IsJson value) : value.WellFormed := by
  refine Json.IsObject.wellFormed h ?_
  simp only [List.forall_mem_cons, List.not_mem_nil, false_implies, implies_true, and_true]
  exact ⟨.bool _, .bool _, Json.wellFormed_ofNat _⟩

theorem Settings.IsJson.wellFormed (h : settings.IsJson value) : value.WellFormed := by
  refine Json.IsObject.wellFormed h ?_
  simp only [List.forall_mem_cons, List.not_mem_nil, false_implies, implies_true, and_true]
  exact ⟨Json.wellFormed_ofNat _, Json.wellFormed_ofNat _, Json.wellFormed_ofNat _, Json.wellFormed_ofFloat _⟩

theorem Row.IsJson.wellFormed {row : Row} (h : row.IsJson value) : value.WellFormed := by
  obtain ⟨file, occupant, named, occupied, object⟩ := h
  refine object.wellFormed ?_
  simp only [List.forall_mem_cons, List.not_mem_nil, false_implies, implies_true, and_true, Json.wellFormed_ofNat,
    Json.wellFormed_ofFloat, Json.wellFormed_ofOption Json.wellFormed_ofNat,
    Json.wellFormed_ofOption Json.wellFormed_ofFloat, true_and]
  exact ⟨named.wellFormed, occupied.wellFormed⟩

theorem SetRow.IsJson.wellFormed {row : SetRow} (h : row.IsJson value) : value.WellFormed := by
  obtain ⟨file, named, object⟩ := h
  refine object.wellFormed ?_
  simp only [List.forall_mem_cons, List.not_mem_nil, false_implies, implies_true, and_true, Json.wellFormed_ofNat,
    Json.wellFormed_ofFloat, Json.wellFormed_ofOption Json.wellFormed_ofFloat]
  exact named.wellFormed

end Members

namespace Row

end Row

namespace SetRow

def tsvFields (row : SetRow) : List String := row.fields (Delimited.flatten row.file)

end SetRow

end FragmentSearch
