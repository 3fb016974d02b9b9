import FragmentSearch.Stream
import FragmentSearch.Proofs.StreamLines
import FragmentSearch.Proofs.TextBytes

namespace FragmentSearch

namespace Text

def lineEnd (carriageReturn : Bool) : String := if carriageReturn then "\r\n" else "\n"

structure IsLineText (text : String) : Prop where
  plain : '\n' ∉ text.toList
  stripped : ∀ c ∈ text.toList.getLast?, ¬isLineEnd c

theorem toUTF8_lineEnd (carriageReturn : Bool) :
    ∃ before, (lineEnd carriageReturn).toUTF8.toList = before ++ [lineFeed] ∧ lineFeed ∉ before := by
  cases carriageReturn with
  | false => exact ⟨[], by decide +kernel, by decide⟩
  | true => exact ⟨[13], by decide +kernel, by decide⟩

theorem lineText?_written {text : String} (h : IsLineText text) (carriageReturn : Bool) :
    lineText? (text ++ lineEnd carriageReturn).toUTF8.toList = some text := by
  refine lineText?_eq_some_iff.mpr ⟨⟨(lineEnd carriageReturn).toList, ?_, ?_⟩, h.stripped⟩
  · cases carriageReturn <;> exact List.all_eq_true.mp (by decide)
  · rw [← String.toList_append, String.ofList_toList]

theorem cutLines_written {α : Type} {written : List α} {text : α → String} (carriageReturn : α → Bool)
    (plain : ∀ line ∈ written, '\n' ∉ (text line).toList) :
    cutLines (String.join (written.map fun line => text line ++ lineEnd (carriageReturn line))).toUTF8.toList =
      written.map fun line => (text line ++ lineEnd (carriageReturn line)).toUTF8.toList := by
  induction written with
  | nil =>
    rw [List.map_nil, List.map_nil]
    decide +kernel
  | cons line rest ih =>
    obtain ⟨before, ending, plainBefore⟩ := toUTF8_lineEnd (carriageReturn line)
    have body : lineFeed ∉ (text line).toUTF8.toList ++ before := by
      rw [List.mem_append, not_or]
      exact ⟨lineFeed_not_mem_toUTF8 (plain line List.mem_cons_self), plainBefore⟩
    rw [List.map_cons, List.map_cons, String.join_cons, toUTF8_append, toUTF8_append, ending, ← List.append_assoc,
      List.append_assoc _ [lineFeed], List.singleton_append, cutLines_line body,
      ih fun other member => plain other (List.mem_cons_of_mem _ member)]

end Text

variable {α β : Type}

theorem Reading.of_items (values : List α) :
    let reading : Reading α := ⟨values.map .item, none⟩
    reading.items? = .ok values ∧ reading.skipped = 0 ∧ reading.lines = values.length := by
  intro reading
  have items : reading.items = values := by
    rw [Reading.items, List.filterMap_map]
    exact List.filterMap_some
  have skipped : reading.skipped = 0 := by
    rw [Reading.skipped, List.countP_map]
    exact List.countP_eq_zero.mpr fun value _ => Bool.false_ne_true
  exact ⟨congrArg Except.ok items, skipped, List.length_map _⟩

theorem Feed.read_written (decode : String → Except LineFault (Option α)) (written : List β) (text : β → String)
    (carriageReturn : β → Bool) (value : β → α) (isLine : ∀ line ∈ written, Text.IsLineText (text line))
    (decoded : ∀ line ∈ written, decode (text line) = .ok (some (value line))) :
    let bytes := (String.join (written.map fun line => text line ++ Text.lineEnd (carriageReturn line))).toUTF8.toList
    let reading := Feed.read decode ⟨bytes, none⟩
    reading.items? = .ok (written.map value) ∧ reading.skipped = 0 ∧ reading.lines = written.length := by
  intro bytes reading
  have lines : Text.cutLines bytes =
      written.map fun line => (text line ++ Text.lineEnd (carriageReturn line)).toUTF8.toList :=
    Text.cutLines_written carriageReturn fun line member => (isLine line member).plain
  have entry (line : β) (member : line ∈ written) :
      Entry.ofLine decode (text line ++ Text.lineEnd (carriageReturn line)).toUTF8.toList = .item (value line) := by
    rw [Entry.ofLine, Text.lineText?_written (isLine line member)]
    simp only [decoded line member]
  have entries : (Text.cutLines bytes).map (Entry.ofLine decode) = (written.map value).map .item := by
    rw [lines, List.map_map, List.map_map]
    exact List.map_congr_left entry
  have same : reading = ⟨(written.map value).map .item, none⟩ := congrArg (Reading.mk · none) entries
  rw [same, ← List.length_map value]
  exact Reading.of_items (written.map value)

end FragmentSearch
