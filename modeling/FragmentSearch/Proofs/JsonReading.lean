import Mathlib.Data.Bool.AllAny
import FragmentSearch.Json.Printer
import FragmentSearch.Json.Reader
import FragmentSearch.Proofs.DelimitedText
import FragmentSearch.Proofs.JsonStrings
import FragmentSearch.Proofs.WrittenNumbers

namespace FragmentSearch.Json

inductive Value.WellFormed : Value → Prop
  | null : WellFormed .null
  | bool (value : Bool) : WellFormed (.bool value)
  | number {lexeme : List Char} : isNumber lexeme → WellFormed (.number lexeme)
  | text {raw text : List Char} : Spells text raw → WellFormed (.text raw)
  | list {items : List Value} : (∀ item ∈ items, item.WellFormed) → WellFormed (.list items)
  | object {members : List (List Char × Value)} : (∀ member ∈ members, ∃ text, Spells text member.1) →
      (∀ member ∈ members, member.2.WellFormed) → WellFormed (.object members)

variable {c : Char} {text word : List Char} {found tokens : List Token} {scan : Scan}

/-- The scan has found these tokens, though the last of them may be a word that has not ended. -/
inductive Scan.Reached : Scan → List Token → Prop
  | between (found : List Token) : Reached ⟨found, .between⟩ found
  | word {found : List Token} {taken : List Char} {token : Token} : wordToken? taken.reverse = some token →
      Reached ⟨found, .word taken⟩ (token :: found)

theorem Scan.Reached.step (h : scan.Reached found) (ends : endsWord c) : scan.step c = some (.start found c) := by
  cases h with
  | between => rfl
  | word spelled => simp only [Scan.step, ends, if_true, spelled, Option.map_some]

theorem Scan.Reached.tokens? (h : scan.Reached found) : scan.tokens? = some found.reverse := by
  cases h with
  | between => rfl
  | word spelled => simp only [Scan.tokens?, spelled, Option.map_some]

def Scans (text : List Char) (tokens : List Token) : Prop :=
  ∀ found, ∃ scan, text.foldlM Scan.step ⟨found, .between⟩ = some scan ∧ scan.Reached (tokens.reverse ++ found)

theorem scans_nil : Scans [] [] := fun found => ⟨⟨found, .between⟩, rfl, .between found⟩

theorem start_mark {mark : Mark} (h : mark? c = some mark) (found : List Token) :
    endsWord c ∧ Scan.start found c = ⟨.mark mark :: found, .between⟩ := by
  unfold mark? at h
  split at h <;> cases h <;> exact ⟨by decide, rfl⟩

theorem Scans.mark {before after : List Char} {earlier later : List Token} (first : Scans before earlier) {mark : Mark}
    (h : mark? c = some mark) (second : Scans after later) :
    Scans (before ++ c :: after) (earlier ++ .mark mark :: later) := by
  intro found
  obtain ⟨scan, scanned, reached⟩ := first found
  obtain ⟨ends, begins⟩ := start_mark h (earlier.reverse ++ found)
  obtain ⟨last, scanned', reached'⟩ := second (.mark mark :: (earlier.reverse ++ found))
  refine ⟨last, ?_, ?_⟩
  · rw [List.foldlM_append, scanned]
    simp only [Option.bind_eq_bind, Option.bind_some, List.foldlM_cons, reached.step ends, begins]
    exact scanned'
  · rwa [List.reverse_append, List.reverse_cons, List.append_assoc, List.append_assoc]

theorem scans_quoted {raw : List Char} (h : Spells text raw) : Scans (quoted raw) [.text raw] := by
  intro found
  refine ⟨⟨.text raw :: found, .between⟩, ?_, .between _⟩
  have opened : Scan.step ⟨found, .between⟩ '"' = some ⟨found, .text []⟩ := rfl
  rw [quoted, List.cons_append, List.foldlM_cons, opened]
  simp only [Option.bind_eq_bind, Option.bind_some]
  rw [List.foldlM_append, foldlM_spelled h, List.append_nil]
  have closed : Scan.step ⟨found, .text raw.reverse⟩ '"' = some ⟨.text raw.reverse.reverse :: found, .between⟩ := rfl
  simp only [Option.bind_eq_bind, Option.bind_some, List.foldlM_cons, List.foldlM_nil, closed, List.reverse_reverse]
  rfl

theorem foldlM_word {taken : List Char} (plain : ∀ c ∈ word, ¬endsWord c) :
    word.foldlM Scan.step ⟨found, .word taken⟩ = some ⟨found, .word (word.reverse ++ taken)⟩ := by
  induction word generalizing taken with
  | nil => rfl
  | cons c word ih =>
    obtain ⟨inside, rest⟩ := List.forall_mem_cons.mp plain
    have step : Scan.step ⟨found, .word taken⟩ c = some ⟨found, .word (c :: taken)⟩ := if_neg inside
    rw [List.foldlM_cons, step]
    exact (ih rest).trans (by rw [List.reverse_cons, List.append_assoc, List.singleton_append])

theorem start_word (h : ¬endsWord c) (found : List Token) : Scan.start found c = ⟨found, .word [c]⟩ := by
  simp only [endsWord, Bool.or_eq_true, decide_eq_true_eq, not_or, Bool.not_eq_true, Option.isSome_eq_false_iff,
    Option.isNone_iff_eq_none] at h
  obtain ⟨⟨space, quote⟩, mark⟩ := h
  simp only [Scan.start, space, quote, mark, Bool.false_eq_true, if_false]

theorem scans_word {token : Token} (spelled : wordToken? word = some token) (filled : word ≠ [])
    (plain : ∀ c ∈ word, ¬endsWord c) : Scans word [token] := by
  intro found
  cases word with
  | nil => exact absurd rfl filled
  | cons c word =>
    obtain ⟨inside, rest⟩ := List.forall_mem_cons.mp plain
    have step : Scan.step ⟨found, .between⟩ c = some ⟨found, .word [c]⟩ := congrArg some (start_word inside found)
    refine ⟨⟨found, .word (word.reverse ++ [c])⟩, ?_, .word ?_⟩
    · rw [List.foldlM_cons, step]
      exact foldlM_word rest
    · rwa [List.reverse_append, List.reverse_reverse]

def isNumeric (c : Char) : Bool := c.isDigit || "+-.eE".toList.contains c

theorem inside_of_isNumeric (h : isNumeric c) : ¬endsWord c ∧ ' ' ≤ c := by
  have others : ∀ c ∈ "+-.eE".toList, ¬endsWord c ∧ ' ' ≤ c := List.all_iff_forall_prop.mp (by decide)
  rcases Bool.or_eq_true_iff.mp h with digit | other
  · exact Text.of_isDigit (fun c => ¬endsWord c ∧ ' ' ≤ c) (by decide) digit
  · exact others c (List.contains_iff_mem.mp other)

theorem isNumeric_of_dropWhile (h : ∀ c ∈ text.dropWhile Char.isDigit, isNumeric c) : ∀ c ∈ text, isNumeric c := by
  rw [← @List.takeWhile_append_dropWhile _ Char.isDigit text]
  refine List.forall_mem_append.mpr ⟨fun c member => ?_, h⟩
  rw [isNumeric, List.all_eq_true.mp List.all_takeWhile c member, Bool.true_or]

theorem isNumeric_of_isDigit (h : c.isDigit) : isNumeric c := by
  rw [isNumeric, h, Bool.true_or]

theorem isNumeric_of_isFractionAndExponent (h : isFractionAndExponent text) : ∀ c ∈ text, isNumeric c := by
  unfold isFractionAndExponent at h
  extract_lets tail at h
  -- what is left behind the fraction is an exponent or nothing
  have exponent : ∀ c ∈ tail, isNumeric c := by
    clear_value tail
    split at h
    · exact List.forall_mem_nil _
    next mark rest =>
      simp only [Bool.and_eq_true, Bool.or_eq_true, decide_eq_true_eq, List.all_eq_true] at h
      obtain ⟨⟨letter, -⟩, digits⟩ := h
      refine List.forall_mem_cons.mpr ⟨by rcases letter with rfl | rfl <;> rfl, ?_⟩
      split at digits
      · exact List.forall_mem_cons.mpr ⟨rfl, fun c member => isNumeric_of_isDigit (digits c member)⟩
      · exact List.forall_mem_cons.mpr ⟨rfl, fun c member => isNumeric_of_isDigit (digits c member)⟩
      · exact fun c member => isNumeric_of_isDigit (digits c member)
  simp only [tail] at exponent
  split at exponent
  next d rest =>
    split at exponent
    next digit =>
      have fraction := isNumeric_of_dropWhile exponent
      exact List.forall_mem_cons.mpr ⟨rfl, List.forall_mem_cons.mpr ⟨isNumeric_of_isDigit digit, fraction⟩⟩
    · exact exponent
  · exact exponent

theorem isNumeric_of_isUnsigned (h : isUnsigned text) : ∀ c ∈ text, isNumeric c := by
  unfold isUnsigned at h
  split at h
  · exact List.forall_mem_cons.mpr ⟨rfl, isNumeric_of_isFractionAndExponent h⟩
  · obtain ⟨digit, rest⟩ := Bool.and_eq_true_iff.mp h
    have whole := isNumeric_of_dropWhile (isNumeric_of_isFractionAndExponent rest)
    exact List.forall_mem_cons.mpr ⟨isNumeric_of_isDigit digit, whole⟩
  · cases h

theorem isNumeric_of_isNumber (h : isNumber text) : ∀ c ∈ text, isNumeric c := by
  have signless := isNumeric_of_isUnsigned h
  split at signless
  · exact List.forall_mem_cons.mpr ⟨rfl, signless⟩
  · exact signless

theorem wordToken?_of_isNumber (h : isNumber text) : wordToken? text = some (.number text) := by
  have other (literal : List Char) (word : isNumber literal = false) : text ≠ literal := by
    rintro rfl
    exact Bool.false_ne_true (word.symm.trans h)
  simp only [wordToken?, other _ (by decide : isNumber "null".toList = false),
    other _ (by decide : isNumber "true".toList = false), other _ (by decide : isNumber "false".toList = false), h,
    if_false, if_true]

theorem scans_number (h : isNumber text) : Scans text [.number text] := by
  have plain : ∀ c ∈ text, ¬endsWord c := fun c member => (inside_of_isNumeric (isNumeric_of_isNumber h c member)).1
  refine scans_word (wordToken?_of_isNumber h) ?_ plain
  rintro rfl
  cases h

theorem separated_cons_cons (separator first second : List Char) (rest : List (List Char)) :
    separated separator (first :: second :: rest) = first ++ separator ++ separated separator (second :: rest) :=
  List.intercalate_cons_cons

def IsGap (gap : List Char) : Prop := ∀ c ∈ gap, isSpace c = true

theorem isGap_nil : IsGap [] := List.forall_mem_nil _

section Gaps

variable {gap : List Char} (blank : IsGap gap)
include blank

theorem foldlM_gap (found : List Token) : gap.foldlM Scan.step ⟨found, .between⟩ = some ⟨found, .between⟩ := by
  induction gap with
  | nil => rfl
  | cons c gap ih =>
    obtain ⟨space, blank⟩ := List.forall_mem_cons.mp blank
    have step : Scan.step ⟨found, .between⟩ c = some ⟨found, .between⟩ := by
      simp only [Scan.step, Scan.start, space, if_true]
    rw [List.foldlM_cons, step]
    exact ih blank

theorem Scans.behind_gap (h : Scans text tokens) : Scans (gap ++ text) tokens := by
  intro found
  obtain ⟨scan, scanned, reached⟩ := h found
  refine ⟨scan, ?_, reached⟩
  rw [List.foldlM_append, foldlM_gap blank]
  exact scanned

theorem Scans.before_gap (h : Scans text tokens) : Scans (text ++ gap) tokens := by
  intro found
  obtain ⟨scan, scanned, reached⟩ := h found
  cases gap with
  | nil => exact ⟨scan, by rwa [List.append_nil], reached⟩
  | cons c gap =>
    obtain ⟨space, blank⟩ := List.forall_mem_cons.mp blank
    have ends : endsWord c := by simp only [endsWord, space, Bool.true_or]
    have begins : Scan.start (tokens.reverse ++ found) c = ⟨tokens.reverse ++ found, .between⟩ := if_pos space
    refine ⟨⟨tokens.reverse ++ found, .between⟩, ?_, .between _⟩
    rw [List.foldlM_append, scanned]
    simp only [Option.bind_eq_bind, Option.bind_some, List.foldlM_cons, reached.step ends, begins]
    exact foldlM_gap blank _

end Gaps

theorem compactItems_eq_map (items : List Value) : compactItems items = items.map compact := by
  induction items with
  | nil => rw [compactItems, List.map_nil]
  | cons item items ih => rw [compactItems, List.map_cons, ih]

theorem compactMembers_eq_map (members : List (List Char × Value)) :
    compactMembers members = members.map fun member => quoted member.1 ++ ':' :: compact member.2 := by
  induction members with
  | nil => rw [compactMembers, List.map_nil]
  | cons member members ih => rw [compactMembers, List.map_cons, ih]

variable {value : Value} {items : List Value} {members : List (List Char × Value)}
variable {demand : Demand} {frames : List Frame}

theorem step_begin {token : Token} {next : Parse} (h : Parse.begin frames token = some next)
    (asked : demand = .value ∨ demand = .itemOrClose) : Parse.step ⟨demand, frames⟩ token = some next := by
  rcases asked with rfl | rfl
  · exact h
  · cases frames with
    | nil => exact h
    | cons frame frames =>
      -- no value begins with the mark that closes a list
      cases token with
      | mark mark =>
        cases mark with
        | closeList => cases h
        | _ => exact h
      | _ => exact h

def Parses (tokens : List Token) (value : Value) : Prop :=
  ∀ demand frames, demand = .value ∨ demand = .itemOrClose →
    tokens.foldlM Parse.step ⟨demand, frames⟩ = some ⟨.more value, frames⟩

theorem parses_token {token : Token} (h : ∀ frames, Parse.begin frames token = some ⟨.more value, frames⟩) :
    Parses [token] value := by
  intro demand frames asked
  rw [List.foldlM_cons, step_begin (h frames) asked]
  rfl

/-- A kind of brackets, with the parse where the first element is asked for, where one is asked for behind others, and
where an element has just been taken. The elements before are in reverse. -/
structure Container (α : Type) where
  opening : Mark
  closing : Mark
  value : List α → Value
  empty : List Frame → Parse
  next : List α → List Frame → Parse
  taken : α → List α → List Frame → Parse
  opens : ∀ frames, Parse.begin frames (.mark opening) = some (empty frames)
  goesOn : ∀ last seen frames, Parse.step (taken last seen frames) (.mark .comma) = some (next (last :: seen) frames)
  closes : ∀ last seen frames,
    Parse.step (taken last seen frames) (.mark closing) = some ⟨.more (value (last :: seen).reverse), frames⟩
  closesEmpty : ∀ frames, Parse.step (empty frames) (.mark closing) = some ⟨.more (value []), frames⟩

namespace Container

def list : Container Value where
  opening := .openList
  closing := .closeList
  value := .list
  empty frames := ⟨.itemOrClose, .list [] :: frames⟩
  next seen frames := ⟨.value, .list seen :: frames⟩
  taken last seen frames := ⟨.more last, .list seen :: frames⟩
  opens _ := rfl
  goesOn _ _ _ := rfl
  closes _ _ _ := rfl
  closesEmpty _ := rfl

def object : Container (List Char × Value) where
  opening := .openObject
  closing := .closeObject
  value := .object
  empty frames := ⟨.nameOrClose, frames⟩
  next seen frames := ⟨.name seen, frames⟩
  taken last seen frames := ⟨.more last.2, .object seen last.1 :: frames⟩
  opens _ := rfl
  goesOn _ _ _ := rfl
  closes _ _ _ := rfl
  closesEmpty _ := rfl

variable {α : Type} {container : Container α} {element : α} {elements : List α} {later : List Token}

inductive Asks (container : Container α) (frames : List Frame) : List α → Parse → Prop
  | first : Asks container frames [] (container.empty frames)
  | later (seen : List α) : Asks container frames seen (container.next seen frames)

def Takes (container : Container α) (tokens : List Token) (element : α) : Prop :=
  ∀ {frames seen parse}, container.Asks frames seen parse →
    tokens.foldlM Parse.step parse = some (container.taken element seen frames)

def TakesRow (container : Container α) (tokens : List Token) (elements : List α) : Prop :=
  ∀ {frames seen parse}, container.Asks frames seen parse →
    ∃ last front, tokens.foldlM Parse.step parse = some (container.taken last front frames) ∧
      last :: front = elements.reverse ++ seen

theorem Takes.row (h : container.Takes tokens element) : container.TakesRow tokens [element] :=
  fun asks => ⟨element, _, h asks, rfl⟩

theorem TakesRow.cons (first : container.Takes tokens element) (rest : container.TakesRow later elements) :
    container.TakesRow (tokens ++ .mark .comma :: later) (element :: elements) := by
  intro frames seen parse asks
  obtain ⟨last, front, parsed, held⟩ := rest (Asks.later (element :: seen) : container.Asks frames _ _)
  refine ⟨last, front, ?_, ?_⟩
  · rw [List.foldlM_append, first asks, Option.bind_eq_bind, Option.bind_some, List.foldlM_cons, container.goesOn]
    exact parsed
  · rw [held, List.reverse_cons, List.append_assoc, List.singleton_append]

theorem TakesRow.parses (h : container.TakesRow tokens elements) :
    Parses (.mark container.opening :: tokens ++ [.mark container.closing]) (container.value elements) := by
  intro demand frames asked
  obtain ⟨last, front, parsed, held⟩ := h (Asks.first : container.Asks frames _ _)
  rw [List.cons_append, List.foldlM_cons, step_begin (container.opens frames) asked]
  rw [Option.bind_eq_bind, Option.bind_some, List.foldlM_append, parsed]
  rw [Option.bind_eq_bind, Option.bind_some, List.foldlM_cons, container.closes, held, List.append_nil,
    List.reverse_reverse]
  rfl

theorem parses_empty (container : Container α) :
    Parses [.mark container.opening, .mark container.closing] (container.value []) := by
  intro demand frames asked
  rw [List.foldlM_cons, step_begin (container.opens frames) asked]
  simp only [Option.bind_eq_bind, Option.bind_some, List.foldlM_cons, container.closesEmpty]
  rfl

end Container

def Reads (text : List Char) (value : Value) : Prop := ∃ tokens, Scans text tokens ∧ Parses tokens value

namespace Container

variable {α : Type} {container : Container α} {elements : List α} {write : α → List Char} {inner outer : List Char}
  {first last : Char}

theorem exists_row (blank : IsGap inner) {element : α}
    (h : ∀ a ∈ element :: elements, ∃ tokens, Scans (write a) tokens ∧ container.Takes tokens a) :
    ∃ tokens, Scans (separated (',' :: inner) ((element :: elements).map write)) tokens ∧
      container.TakesRow tokens (element :: elements) := by
  induction elements generalizing element with
  | nil =>
    obtain ⟨tokens, scanned, taken⟩ := h element List.mem_cons_self
    exact ⟨tokens, by simpa [separated] using scanned, taken.row⟩
  | cons second rest ih =>
    obtain ⟨tokens, scanned, taken⟩ := h element List.mem_cons_self
    obtain ⟨later, scanned', taken'⟩ := ih (List.forall_mem_cons.mp h).2
    refine ⟨tokens ++ .mark .comma :: later, ?_, TakesRow.cons taken taken'⟩
    rw [List.map_cons] at scanned'
    rw [List.map_cons, List.map_cons, separated_cons_cons, List.append_assoc, List.cons_append]
    exact scanned.mark rfl (scanned'.behind_gap blank)

theorem reads (container : Container α) (opening : mark? first = some container.opening)
    (closing : mark? last = some container.closing) (inside : IsGap inner) (behind : IsGap outer)
    (h : ∀ a ∈ elements, ∃ tokens, Scans (write a) tokens ∧ container.Takes tokens a) :
    Reads (first :: inner ++ separated (',' :: inner) (elements.map write) ++ outer ++ [last])
      (container.value elements) := by
  have bracketed {text : List Char} {tokens : List Token} (scanned : Scans text tokens) :
      Scans (first :: inner ++ text ++ outer ++ [last])
        ([] ++ .mark container.opening :: (tokens ++ .mark container.closing :: [])) := by
    rw [List.append_assoc (first :: inner ++ text), List.append_assoc, List.cons_append,
      ← List.append_assoc text, ← List.append_assoc inner]
    exact scans_nil.mark opening (((scanned.before_gap behind).behind_gap inside).mark closing scans_nil)
  cases elements with
  | nil => exact ⟨_, bracketed scans_nil, container.parses_empty⟩
  | cons element rest =>
    obtain ⟨tokens, scanned, taken⟩ := exists_row inside h
    exact ⟨_, bracketed scanned, taken.parses⟩

theorem takes_item {text : List Char} (h : Reads text value) :
    ∃ tokens, Scans text tokens ∧ list.Takes tokens value := by
  obtain ⟨tokens, scanned, parsed⟩ := h
  refine ⟨tokens, scanned, fun asks => ?_⟩
  cases asks with
  | first => exact parsed _ _ (.inr rfl)
  | later seen => exact parsed _ _ (.inl rfl)

theorem takes_member {name text gap : List Char} (spelled : ∃ spelling, Spells spelling name) (blank : IsGap gap)
    (h : Reads text value) :
    ∃ tokens, Scans (quoted name ++ ':' :: (gap ++ text)) tokens ∧ object.Takes tokens (name, value) := by
  obtain ⟨spelling, spelled⟩ := spelled
  obtain ⟨tokens, scanned, parsed⟩ := h
  refine ⟨_, (scans_quoted spelled).mark rfl (scanned.behind_gap blank), fun {frames seen parse} asks => ?_⟩
  have named : Parse.step parse (.text name) = some ⟨.colon seen name, frames⟩ := by cases asks <;> rfl
  rw [List.cons_append, List.nil_append, List.foldlM_cons, named]
  exact parsed .value (.object seen name :: frames) (.inl rfl)

end Container

theorem block_eq (depth : Nat) (first last : Char) {pieces : List (List Char)} (filled : pieces ≠ []) :
    block depth first last pieces =
      first :: newLine (depth + 1) ++ separated (',' :: newLine (depth + 1)) pieces ++ newLine depth ++ [last] := by
  rw [block, List.isEmpty_eq_false_iff.mpr filled]
  rfl

theorem reads_literal {token : Token} (spelled : wordToken? word = some token) (filled : word ≠ [])
    (plain : word.all (!endsWord ·)) (h : ∀ frames, Parse.begin frames token = some ⟨.more value, frames⟩) :
    Reads word value := by
  refine ⟨[token], scans_word spelled filled fun c member => ?_, parses_token h⟩
  rw [Bool.not_eq_true, ← Bool.not_eq_true']
  exact List.all_eq_true.mp plain c member

theorem reads_null : Reads "null".toList .null := reads_literal rfl (by decide) (by decide) fun _ => rfl

theorem reads_bool (flag : Bool) : Reads (if flag then "true" else "false").toList (.bool flag) := by
  cases flag <;> exact reads_literal rfl (by decide) (by decide) fun _ => rfl

theorem Value.WellFormed.reads_compact (h : value.WellFormed) : Reads (compact value) value := by
  induction h with
  | null => exact reads_null
  | bool flag => exact reads_bool flag
  | number number => exact ⟨_, scans_number number, parses_token fun _ => rfl⟩
  | text spelled => exact ⟨_, scans_quoted spelled, parses_token fun _ => rfl⟩
  | @list items _ ih =>
    rw [compact, compactItems_eq_map, ← List.append_nil ('[' :: _)]
    exact Container.list.reads rfl rfl isGap_nil isGap_nil fun item member => Container.takes_item (ih item member)
  | @object members names _ ih =>
    rw [compact, compactMembers_eq_map, ← List.append_nil ('\x7b' :: _)]
    exact Container.object.reads rfl rfl isGap_nil isGap_nil fun member listed =>
      Container.takes_member (names member listed) isGap_nil (ih member listed)

theorem Reads.read?_eq (h : Reads text value) : read? text = some value := by
  obtain ⟨tokens, scanned, parsed⟩ := h
  obtain ⟨scan, scans, reached⟩ := scanned []
  have found : tokens? text = some tokens := by
    rw [tokens?, scans]
    exact reached.tokens?.trans (by rw [List.append_nil, List.reverse_reverse])
  rw [read?, found]
  simp only [Option.bind_eq_bind, Option.bind_some, parsed .value [] (.inl rfl)]
  rfl

theorem read?_compact (h : value.WellFormed) : read? (compact value) = some value := h.reads_compact.read?_eq

theorem printable_separated {pieces : List (List Char)} (h : ∀ piece ∈ pieces, ∀ c ∈ piece, ' ' ≤ c) :
    ∀ c ∈ separated [','] pieces, ' ' ≤ c := by
  intro c member
  rcases Delimited.mem_intercalate.mp member with ⟨rfl, -⟩ | ⟨piece, listed, inside⟩
  · decide
  · exact h piece listed c inside

theorem printable_bracketed {first last : Char} (opening : ' ' ≤ first) (inside : ∀ c ∈ text, ' ' ≤ c)
    (closing : ' ' ≤ last) : ∀ c ∈ first :: text ++ [last], ' ' ≤ c :=
  List.forall_mem_append.mpr ⟨List.forall_mem_cons.mpr ⟨opening, inside⟩, List.forall_mem_singleton.mpr closing⟩

theorem printable_quoted {raw : List Char} (h : Spells text raw) : ∀ c ∈ quoted raw, ' ' ≤ c :=
  printable_bracketed (by decide) h.printable (by decide)

theorem Value.WellFormed.printable (h : value.WellFormed) : ∀ c ∈ compact value, ' ' ≤ c := by
  induction h with
  | null => exact List.all_iff_forall_prop.mp (by decide)
  | bool flag => cases flag <;> exact List.all_iff_forall_prop.mp (by decide)
  | number number => exact fun c member => (inside_of_isNumeric (isNumeric_of_isNumber number c member)).2
  | text spelled => exact printable_quoted spelled
  | list _ ih =>
    rw [compact, compactItems_eq_map]
    have inside := printable_separated (List.forall_mem_map.mpr ih)
    exact printable_bracketed (by decide) inside (by decide)
  | @object members names _ ih =>
    rw [compact, compactMembers_eq_map]
    have pieces : ∀ member ∈ members, ∀ c ∈ quoted member.1 ++ ':' :: compact member.2, ' ' ≤ c := by
      intro member listed
      obtain ⟨text, spelled⟩ := names member listed
      have rest := List.forall_mem_cons.mpr ⟨(by decide : ' ' ≤ ':'), ih member listed⟩
      exact List.forall_mem_append.mpr ⟨printable_quoted spelled, rest⟩
    have inside := printable_separated (List.forall_mem_map.mpr pieces)
    exact printable_bracketed (by decide) inside (by decide)

end FragmentSearch.Json
