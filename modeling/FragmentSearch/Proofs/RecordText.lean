import FragmentSearch.Proofs.JsonShapes
import FragmentSearch.Proofs.WordAddresses
import FragmentSearch.Proofs.WrittenLines

namespace FragmentSearch

namespace Json

variable {fields : List (String × Value)} {value : Value}

theorem member?_perm {members others : List (List Char × Value)} (h : members.Perm others) (name : String) :
    Record.member? members name = Record.member? others name := by
  have kept := h.filter fun member => member.1 = name.toList
  simp only [Record.member?]
  generalize members.filter (fun member => member.1 = name.toList) = found at kept ⊢
  generalize others.filter (fun member => member.1 = name.toList) = found' at kept ⊢
  cases found with
  | nil => rw [List.nil_perm.mp kept]
  | cons first rest =>
    cases rest with
    | nil => rw [List.singleton_perm.mp kept]
    | cons second rest =>
      have long := kept.length_eq
      match found' with
      | [] => cases long
      | [_] => simp at long
      | _ :: _ :: _ => rfl

theorem IsObject.exists_members (h : IsObject fields value) :
    ∃ members named, value = .object members ∧ Record.named? members = some named ∧
      ∀ name, Record.member? named name = Record.member? (fields.map fun field => (field.1.toList, field.2)) name := by
  obtain @⟨spelled, names, perm⟩ := h
  refine ⟨spelled.map (·.2), spelled.map fun member => (member.1.toList, member.2.2), rfl, ?_, fun name => ?_⟩
  · rw [Record.named?, List.mapM_map]
    apply mapM_eq_some
    intro member listed
    simp only [Function.comp_apply, unescape_of_spells (names member listed), Option.map_some]
  · apply member?_perm
    have renamed := perm.map fun field : String × Value => (field.1.toList, field.2)
    rwa [List.map_map] at renamed

inductive IsOptional {α : Type} (writes : α → Value → Prop) (name : String) : Option α → List (String × Value) → Prop
  | absent : IsOptional writes name none []
  | null : IsOptional writes name none [(name, .null)]
  | present {a : α} {value : Value} : writes a value → IsOptional writes name (some a) [(name, value)]

end Json

namespace Record

open Json

def WritesProvenance (provenance : Provenance) (value : Value) : Prop :=
  ∃ flags, IsOptional IsText "flags" provenance.flagText flags ∧
    IsObject (("count", .ofNat provenance.count) :: flags) value

def WritesOccurrence (occurrence : Occurrence) : Value → Prop :=
  IsObject [("source_id", .ofNat occurrence.source), ("file_offset", .ofNat occurrence.offset)]

inductive WritesAssociation : Association → Value → Prop
  | list {hash : String} {provenance : Provenance} {first second : Value} {occurrences : List (Occurrence × Value)} :
      IsText hash first → WritesProvenance provenance second →
      (∀ occurrence ∈ occurrences, WritesOccurrence occurrence.1 occurrence.2) →
      WritesAssociation ⟨hash, provenance, occurrences.map (·.1)⟩ (.list [first, second, .list (occurrences.map (·.2))])

def WritesDescription (description : Description) (value : Value) : Prop :=
  ∃ name size, IsText description.name name ∧ IsOptional IsNatural "filesize" description.size size ∧
    IsObject (("source_id", .ofNat description.source) :: ("filename", name) :: size) value

def Writes : Record → Value → Prop
  | .association a => WritesAssociation a
  | .description d => WritesDescription d

def Words : Record → Prop
  | .association a =>
    a.provenance.count < wordLimit ∧ ∀ o ∈ a.occurrences, o.source < wordLimit ∧ o.offset < wordLimit
  | .description d => d.source < wordLimit ∧ ∀ size ∈ d.size, size < wordLimit

variable {value : Value}

theorem provenance?_written {provenance : Provenance} (h : WritesProvenance provenance value)
    (word : provenance.count < wordLimit) : provenance? value = some provenance := by
  obtain ⟨flags, written, object⟩ := h
  obtain ⟨members, named, rfl, found, same⟩ := object.exists_members
  simp only [provenance?, found, Option.bind_eq_bind, Option.bind_some, same]
  obtain ⟨count, flagText⟩ := provenance
  cases written with
  | absent => simp [member?, count?, natural?_ofNat word, optional?]
  | null => simp [member?, count?, natural?_ofNat word, optional?]
  | present spelled =>
    obtain ⟨spelled⟩ := spelled
    simp [member?, count?, natural?_ofNat word, optional?, (IsText.spelled spelled).string?]

theorem occurrence?_written {o : Occurrence} (h : WritesOccurrence o value) (source : o.source < wordLimit)
    (offset : o.offset < wordLimit) : occurrence? value = some o := by
  obtain ⟨members, named, rfl, found, same⟩ := h.exists_members
  simp only [occurrence?, found, Option.bind_eq_bind, Option.bind_some, same]
  simp [member?, natural?_ofNat source, natural?_ofNat offset]

theorem association?_written {a : Association} (h : WritesAssociation a value) (words : (Record.association a).Words) :
    association? value = some a := by
  obtain @⟨hash, provenance, first, second, occurrences, named, provided, listed⟩ := h
  obtain ⟨count, places⟩ := words
  have read : (occurrences.map (·.2)).mapM occurrence? = some (occurrences.map (·.1)) := by
    rw [List.mapM_map]
    apply mapM_eq_some
    intro o member
    obtain ⟨source, offset⟩ := places o.1 (List.mem_map_of_mem member)
    exact occurrence?_written (listed o member) source offset
  simp only [association?, named.string?, provenance?_written provided count, read, Option.bind_eq_bind,
    Option.bind_some]

theorem optional?_ofNat {n : Nat} (word : n < wordLimit) :
    optional? Value.natural? (some (.ofNat n)) = some (some n) :=
  congrArg (Option.map some) (natural?_ofNat word)

def undelimited (d : Description) : Description :=
  { d with name := String.ofList (d.name.toList.filter fun c => c.toNat ≠ 0x10001C) }

theorem cleanName_eq (name : String) :
    cleanName name = String.ofList (name.toList.filter fun c => c.toNat ≠ 0x10001C) := by
  have same (c : Char) : c ≠ nameDelimiter ↔ c.toNat ≠ 0x10001C := by
    rw [not_iff_not, ← Char.toNat_inj]
    rfl
  simp only [cleanName, same]

theorem description?_written {d : Description} (h : WritesDescription d value) (words : (Record.description d).Words) :
    description? value = some (undelimited d) := by
  obtain ⟨name, size, named, written, object⟩ := h
  obtain ⟨members, known, rfl, found, same⟩ := object.exists_members
  obtain ⟨source, sized⟩ := words
  simp only [description?, found, Option.bind_eq_bind, Option.bind_some, same]
  obtain ⟨id, text, length⟩ := d
  cases written with
  | absent => simp [member?, natural?_ofNat source, optional?, named.string?, undelimited, cleanName_eq]
  | null => simp [member?, natural?_ofNat source, optional?, named.string?, undelimited, cleanName_eq]
  | present natural =>
    cases natural
    simp [member?, natural?_ofNat source, optional?_ofNat (sized _ rfl), named.string?, undelimited, cleanName_eq]

def kept : Record → Record
  | .association a => .association a
  | .description d => .description (undelimited d)

theorem wellFormed_optional {α : Type} {writes : α → Value → Prop} {name : String} {a : Option α}
    {fields : List (String × Value)} (h : IsOptional writes name a fields)
    (inner : ∀ a value, writes a value → value.WellFormed) : ∀ field ∈ fields, field.2.WellFormed := by
  cases h with
  | absent => exact List.forall_mem_nil _
  | null => exact List.forall_mem_singleton.mpr .null
  | present written => exact List.forall_mem_singleton.mpr (inner _ _ written)

theorem wellFormed_association {a : Association} (h : WritesAssociation a value) : value.WellFormed := by
  obtain @⟨hash, provenance, first, second, occurrences, named, ⟨flags, written, object⟩, listed⟩ := h
  have text (text : String) (value : Value) (h : IsText text value) := h.wellFormed
  have provided := object.wellFormed (List.forall_mem_cons.mpr ⟨wellFormed_ofNat _, wellFormed_optional written text⟩)
  have places : (Value.list (occurrences.map (·.2))).WellFormed := by
    refine .list (List.forall_mem_map.mpr fun o member => (listed o member).wellFormed ?_)
    exact List.forall_mem_cons.mpr ⟨wellFormed_ofNat _, List.forall_mem_singleton.mpr (wellFormed_ofNat _)⟩
  refine .list (List.forall_mem_cons.mpr ⟨named.wellFormed, ?_⟩)
  exact List.forall_mem_cons.mpr ⟨provided, List.forall_mem_singleton.mpr places⟩

theorem wellFormed_description {d : Description} (h : WritesDescription d value) : value.WellFormed := by
  obtain ⟨name, size, named, written, object⟩ := h
  have natural (n : Nat) (value : Value) (h : IsNatural n value) : value.WellFormed := h ▸ wellFormed_ofNat n
  apply object.wellFormed
  exact List.forall_mem_cons.mpr ⟨wellFormed_ofNat _, List.forall_mem_cons.mpr ⟨named.wellFormed,
    wellFormed_optional written natural⟩⟩

theorem wellFormed_written {record : Record} (h : record.Writes value) : value.WellFormed := by
  cases record with
  | association a => exact wellFormed_association h
  | description d => exact wellFormed_description h

theorem compact_association {a : Association} (h : WritesAssociation a value) :
    ∃ inner, compact value = '[' :: inner ++ [']'] := by
  cases h
  exact ⟨_, by rw [compact]⟩

theorem compact_description {d : Description} (h : WritesDescription d value) :
    ∃ inner, compact value = '\x7b' :: inner ++ ['\x7d'] := by
  obtain ⟨name, size, -, -, object⟩ := h
  cases object
  exact ⟨_, by rw [compact]⟩

theorem compact_ends {record : Record} (h : record.Writes value) :
    (∀ c ∈ (compact value).head?, c ∈ ['[', '\x7b']) ∧ ∀ c ∈ (compact value).getLast?, c ∈ [']', '\x7d'] := by
  cases record with
  | association a =>
    obtain ⟨inner, shape⟩ := compact_association h
    rw [shape, List.getLast?_concat]
    exact ⟨by rintro _ ⟨⟩; decide, by rintro _ ⟨⟩; decide⟩
  | description d =>
    obtain ⟨inner, shape⟩ := compact_description h
    rw [shape, List.getLast?_concat]
    exact ⟨by rintro _ ⟨⟩; decide, by rintro _ ⟨⟩; decide⟩

theorem trim_written {record : Record} (h : record.Writes value) : Text.trim (compact value) = compact value := by
  have opening : ∀ c ∈ ['[', '\x7b'], ¬Text.isBlank c := List.all_iff_forall_prop.mp (by decide)
  have closing : ∀ c ∈ [']', '\x7d'], ¬Text.isBlank c := List.all_iff_forall_prop.mp (by decide)
  obtain ⟨first, last⟩ := compact_ends h
  exact Text.trim_eq_self (fun c here => opening c (first c here)) fun c here => closing c (last c here)

theorem isLineText_written {record : Record} (h : record.Writes value) :
    Text.IsLineText (String.ofList (compact value)) := by
  have closing : ∀ c ∈ [']', '\x7d'], ¬Text.isLineEnd c := List.all_iff_forall_prop.mp (by decide)
  constructor
  · rw [String.toList_ofList]
    intro feed
    exact absurd ((wellFormed_written h).printable _ feed) (by decide)
  · rw [String.toList_ofList]
    exact fun c here => closing c ((compact_ends h).2 c here)

theorem read?_written {record : Record} (h : record.Writes value) (words : record.Words) :
    read? (String.ofList (compact value)) = .ok (some record.kept) := by
  have trimmed := trim_written h
  have parsed := read?_compact (wellFormed_written h)
  cases record with
  | association a =>
    obtain ⟨inner, shape⟩ := compact_association h
    rw [shape, List.cons_append] at trimmed parsed ⊢
    simp only [read?, String.toList_ofList, trimmed, parsed, Option.bind_some, association?_written h words, kept]
  | description d =>
    obtain ⟨inner, shape⟩ := compact_description h
    rw [shape, List.cons_append] at trimmed parsed ⊢
    simp only [read?, String.toList_ofList, trimmed, parsed, Option.bind_some, description?_written h words, kept]

/-- Records that are written a line each, in any spelling and with any order of the members, are read back. -/
theorem read_back_records (written : List (Record × Value × Bool)) (shaped : ∀ line ∈ written, line.1.Writes line.2.1)
    (words : ∀ line ∈ written, line.1.Words) :
    let text := String.join (written.map fun (_, value, carriageReturn) =>
      String.ofList (compact value) ++ Text.lineEnd carriageReturn)
    let reading := Feed.records ⟨text.toUTF8.toList, none⟩
    reading.items? = .ok (written.map (·.1.kept)) ∧ reading.skipped = 0 ∧ reading.lines = written.length := by
  apply Feed.read_written read? written (fun line => String.ofList (compact line.2.1)) (·.2.2) (·.1.kept)
  · exact fun line member => isLineText_written (shaped line member)
  · exact fun line member => read?_written (shaped line member) (words line member)

def reordered : List (Record × Value × Bool) :=
  [(.description ⟨7, String.ofList ['a', Char.ofNat 0x10001C, '.', 'j'], none⟩,
      .ofMembers [("filesize", .null), ("filename", .text "a\\udbc0\\udc1c.j".toList), ("source_id", .ofNat 7)], true),
    (.association ⟨"h", ⟨18446744073709551615, some "H"⟩, [⟨1, 8192⟩]⟩,
      .list [.ofString "h", .ofMembers [("flags", .ofString "H"), ("count", .ofNat 18446744073709551615)],
        .list [.ofMembers [("file_offset", .ofNat 8192), ("source_id", .ofNat 1)]]], false)]

theorem writes_reordered : ∀ line ∈ reordered, line.1.Writes line.2.1 := by
  have units : highUnit (Char.ofNat 0x10001C) = 0xDBC0 ∧ lowUnit (Char.ofNat 0x10001C) = 0xDC1C := by decide
  have high : SpellsUnit (highUnit (Char.ofNat 0x10001C)) ['d', 'b', 'c', '0'] := by
    rw [units.1]
    exact @SpellsUnit.digits 13 11 12 0 _ _ _ _ (.lower (by decide)) (.lower (by decide)) (.lower (by decide))
      (.lower (by decide))
  have low : SpellsUnit (lowUnit (Char.ofNat 0x10001C)) ['d', 'c', '1', 'c'] := by
    rw [units.2]
    exact @SpellsUnit.digits 13 12 1 12 _ _ _ _ (.lower (by decide)) (.lower (by decide)) (.lower (by decide))
      (.lower (by decide))
  have delimiter := SpellsChar.pair (by decide) high low
  have name : Spells ['a', Char.ofNat 0x10001C, '.', 'j'] "a\\udbc0\\udc1c.j".toList :=
    .cons (spellsChar_escapeChar 'a') (.cons delimiter (spells_escape ['.', 'j']))
  have flags : IsOptional IsText "flags" (some "H") [("flags", .ofString "H")] := .present (isText_ofString "H")
  refine List.forall_mem_cons.mpr ⟨?_, List.forall_mem_singleton.mpr ?_⟩
  · refine ⟨_, _, .spelled name, .null, isObject_ofMembers ?_⟩
    exact List.reverse_perm [("source_id", Value.ofNat 7), ("filename", .text _), ("filesize", .null)]
  · have place : WritesOccurrence ⟨1, 8192⟩ (.ofMembers [("file_offset", .ofNat 8192), ("source_id", .ofNat 1)]) :=
      isObject_ofMembers (.swap _ _ _)
    exact @WritesAssociation.list "h" ⟨18446744073709551615, some "H"⟩ _ _ [(_, _)] (isText_ofString "h")
      ⟨_, flags, isObject_ofMembers (.swap _ _ _)⟩ (List.forall_mem_singleton.mpr place)

theorem read_back_reordered :
    let text := "\x7b\"filesize\":null,\"filename\":\"a\\udbc0\\udc1c.j\",\"source_id\":7\x7d\r\n" ++
      "[\"h\",\x7b\"flags\":\"H\",\"count\":18446744073709551615\x7d,[\x7b\"file_offset\":8192,\"source_id\":1\x7d]]\n"
    let reading := Feed.records ⟨text.toUTF8.toList, none⟩
    reading.items? = .ok [.description ⟨7, "a.j", none⟩,
      .association ⟨"h", ⟨18446744073709551615, some "H"⟩, [⟨1, 8192⟩]⟩] ∧ reading.skipped = 0 ∧ reading.lines = 2 := by
  intro text reading
  have words : ∀ line ∈ reordered, line.1.Words := by simp [reordered, Words, wordLimit]
  have written : String.join (reordered.map fun (_, value, carriageReturn) =>
      String.ofList (compact value) ++ Text.lineEnd carriageReturn) = text := by
    decide +kernel
  have read := read_back_records reordered writes_reordered words
  rw [written] at read
  exact read

end Record

end FragmentSearch
