import Mathlib.Data.List.Sort
import FragmentSearch.Proofs.WrittenLines
import FragmentSearch.Proofs.WrittenNumbers

namespace FragmentSearch

namespace Text

theorem isAlpha_of_isDigit {c : Char} (h : c.isDigit) : c.isAlpha = false :=
  of_isDigit (fun c => c.isAlpha = false) (by decide) h

theorem not_isBlank_of_isAlphanum {c : Char} (h : c.isAlphanum) : ¬isBlank c := by
  have others : ∀ value ∈ blanks, ¬(Char.ofNat value).isAlphanum := by decide
  intro blank
  have member : c.toNat ∈ blanks := by simpa [isBlank] using blank
  exact others c.toNat member (by rwa [Char.ofNat_toNat])

theorem isAlphanum_of_mem_toString {n : Nat} {c : Char} (h : c ∈ (toString n).toList) : c.isAlphanum := by
  rw [Char.isAlphanum, isDigit_of_mem_toString h, Bool.or_true]

theorem trim_of_isAlphanum {text : List Char} (h : ∀ c ∈ text, c.isAlphanum) : trim text = text :=
  trim_eq_self (fun c first => not_isBlank_of_isAlphanum (h c (List.mem_of_head? first)))
    (fun c last => not_isBlank_of_isAlphanum (h c (List.mem_of_getLast? last)))

theorem trim_ne_nil {c : Char} {text : List Char} (h : ¬isBlank c) : trim (c :: text) ≠ [] := by
  intro empty
  rw [trim, List.dropWhile_cons_of_neg h, dropEndWhile_eq_iff] at empty
  obtain ⟨⟨dropped, blank, rfl⟩, -⟩ := empty
  exact h (blank c List.mem_cons_self)

end Text

structure Flags.SpelledBy (flags : Flags) (letters : List Char) : Prop where
  ascending : flags.letters.Pairwise (· < ·)
  alpha : ∀ c ∈ letters, c.isAlpha
  mem_iff : ∀ c, c ∈ flags.letters ↔ c ∈ letters

theorem Flags.SpelledBy.ofText {flags : Flags} {letters : List Char} (h : flags.SpelledBy letters) :
    Flags.ofText letters = flags := by
  have same : FragmentSearch.ascending (letters.filter Char.isAlpha) = flags.letters := by
    apply (pairwise_ascending _).eq_of_mem_iff h.ascending
    intro c
    rw [mem_ascending, List.filter_eq_self.mpr h.alpha, h.mem_iff]
  rw [Flags.ofText, same]

namespace Observation

/-- An observation that a line can carry: the offset and a positive count are words, and the hash ends neither its field
nor its line and has nothing to trim. -/
structure Writable (observation : Observation) : Prop where
  offset : observation.offset < wordLimit
  count : ∃ count, observation.count = some count ∧ 0 < count ∧ count < wordLimit
  filled : observation.hash ≠ ""
  plain : ∀ c ∈ observation.hash.toList, c ≠ '\t' ∧ c ≠ '\n'
  first : ∀ c ∈ observation.hash.toList.head?, ¬Text.isBlank c
  last : ∀ c ∈ observation.hash.toList.getLast?, ¬Text.isBlank c

structure Style where
  letters : List Char
  carriageReturn : Bool

def text (observation : Observation) (letters : List Char) : String :=
  toString observation.offset ++ "\t" ++ observation.hash ++ "\t" ++ observation.count.elim "" toString ++
    String.ofList letters

variable {observation : Observation} {letters : List Char} {n : Nat}

theorem isAlphanum_of_mem_field (alpha : ∀ c ∈ letters, c.isAlpha) :
    ∀ c ∈ (toString n).toList ++ letters, c.isAlphanum := by
  intro c member
  rcases List.mem_append.mp member with digit | letter
  · exact Text.isAlphanum_of_mem_toString digit
  · rw [Char.isAlphanum, alpha c letter, Bool.true_or]

theorem annotatedCount_written (limit : n < wordLimit) (positive : 0 < n) (alpha : ∀ c ∈ letters, c.isAlpha) :
    annotatedCount ((toString n).toList ++ letters) = (some n, Flags.ofText letters) := by
  have digit (c : Char) (h : c ∈ (toString n).toList) : c.isAlpha = false ∧ ¬Text.isBlank c :=
    ⟨Text.isAlpha_of_isDigit (Text.isDigit_of_mem_toString h),
      Text.not_isBlank_of_isAlphanum (Text.isAlphanum_of_mem_toString h)⟩
  have flags : ((toString n).toList ++ letters).filter Char.isAlpha = letters.filter Char.isAlpha := by
    rw [List.filter_append, List.filter_eq_nil_iff.mpr (by simpa using fun c h => (digit c h).1), List.nil_append]
  have digits :
      ((toString n).toList ++ letters).filter (fun c => !c.isAlpha && !Text.isBlank c) = (toString n).toList := by
    rw [List.filter_append, List.filter_eq_self.mpr (fun c h => by simp [digit c h]),
      List.filter_eq_nil_iff.mpr (fun c h => by simp [alpha c h]), List.append_nil]
  rw [annotatedCount, digits, Text.natural?_toString limit, Flags.ofText, flags, Option.filter_some,
    decide_eq_true positive]
  rfl

theorem countAndFlags_written (limit : n < wordLimit) (positive : 0 < n) (alpha : ∀ c ∈ letters, c.isAlpha) :
    countAndFlags ((toString n).toList ++ letters) = (some n, Flags.ofText letters) := by
  rw [countAndFlags, Text.trim_of_isAlphanum (isAlphanum_of_mem_field alpha)]
  split
  case h_1 rest brace =>
    -- a field that begins with a digit is no object
    cases isAlphanum_of_mem_field alpha '\x7b' (brace ▸ List.mem_cons_self)
  case h_2 => exact annotatedCount_written limit positive alpha

theorem toList_text (count : observation.count = some n) :
    (observation.text letters).toList = (toString observation.offset).toList ++
      '\t' :: (observation.hash.toList ++ '\t' :: ((toString n).toList ++ letters)) := by
  simp [text, count]

theorem splitOn_text (writable : observation.Writable) (count : observation.count = some n)
    (alpha : ∀ c ∈ letters, c.isAlpha) :
    (observation.text letters).toList.splitOn '\t' =
      [(toString observation.offset).toList, observation.hash.toList, (toString n).toList ++ letters] := by
  have first : '\t' ∉ (toString observation.offset).toList := by
    intro tab
    cases Text.isAlphanum_of_mem_toString tab
  have second : '\t' ∉ observation.hash.toList := fun tab => (writable.plain '\t' tab).1 rfl
  have third : '\t' ∉ (toString n).toList ++ letters := by
    intro tab
    cases isAlphanum_of_mem_field alpha '\t' tab
  rw [toList_text count, List.splitOn_append_cons_self_of_not_mem first,
    List.splitOn_append_cons_self_of_not_mem second, List.splitOn_eq_singleton third]

theorem text_carries (count : observation.count = some n) :
    ((Text.trim (observation.text letters).toList).isEmpty ||
      (observation.text letters).toList.head? = some '#') = false := by
  rw [toList_text count]
  cases offset : (toString observation.offset).toList with
  | nil => exact absurd offset (Text.toString_ne_nil _)
  | cons c rest =>
    have alphanum : c.isAlphanum := Text.isAlphanum_of_mem_toString (offset ▸ List.mem_cons_self)
    have other : c ≠ '#' := by
      rintro rfl
      cases alphanum
    simp [Text.trim_ne_nil (Text.not_isBlank_of_isAlphanum alphanum), other]

theorem read?_text (writable : observation.Writable) (spelled : observation.flags.SpelledBy letters) :
    read? (observation.text letters) = .ok (some observation) := by
  obtain ⟨n, count, positive, limit⟩ := writable.count
  have number : Text.natural? (Text.trim (toString observation.offset).toList) = some observation.offset := by
    rw [Text.trim_of_isAlphanum fun c => Text.isAlphanum_of_mem_toString, Text.natural?_toString writable.offset]
  have hash : Text.trim observation.hash.toList = observation.hash.toList :=
    Text.trim_eq_self writable.first writable.last
  have named : observation.hash.toList.isEmpty = false := by simpa using writable.filled
  rw [read?]
  simp only [text_carries count, splitOn_text writable count spelled.alpha, number, hash, named, String.ofList_toList,
    countAndFlags_written limit positive spelled.alpha, spelled.ofText]
  simp [← count]

theorem isLineText_text (writable : observation.Writable) (alpha : ∀ c ∈ letters, c.isAlpha) :
    Text.IsLineText (observation.text letters) := by
  obtain ⟨n, count, -, -⟩ := writable.count
  have field := isAlphanum_of_mem_field (n := n) alpha
  constructor
  · rw [toList_text count]
    intro feed
    rcases List.mem_append.mp feed with offset | behind
    · cases Text.isAlphanum_of_mem_toString offset
    rcases List.mem_append.mp (List.mem_of_ne_of_mem (by decide) behind) with hash | last
    · exact (writable.plain '\n' hash).2 rfl
    · cases field '\n' (List.mem_of_ne_of_mem (by decide) last)
  · intro c last ends
    have inField : c ∈ (toString n).toList ++ letters := by
      have filled : (toString n).toList ++ letters ≠ [] :=
        List.append_ne_nil_of_left_ne_nil (Text.toString_ne_nil n) _
      rw [toList_text count, List.getLast?_append_cons, List.getLast?_cons_of_ne_nil (by simp),
        List.getLast?_append_cons, List.getLast?_cons_of_ne_nil filled] at last
      exact List.mem_of_getLast? last
    have alphanum := field c inField
    rcases (by simpa [Text.isLineEnd] using ends : c = '\n' ∨ c = '\r') with rfl | rfl <;> cases alphanum

theorem read_back (written : List (Observation × Style)) (writable : ∀ line ∈ written, line.1.Writable)
    (spelled : ∀ line ∈ written, line.1.flags.SpelledBy line.2.letters) :
    let stream := String.join (written.map fun line => line.1.text line.2.letters ++ Text.lineEnd line.2.carriageReturn)
    let reading := (Feed.mk stream.toUTF8.toList none).observations
    reading.items? = .ok (written.map Prod.fst) ∧ reading.skipped = 0 ∧ reading.lines = written.length :=
  Feed.read_written read? written (fun line => line.1.text line.2.letters) (·.2.carriageReturn) Prod.fst
    (fun line member => isLineText_text (writable line member) (spelled line member).alpha)
    (fun line member => read?_text (writable line member) (spelled line member))

theorem read_back_words :
    let largest : Observation :=
      ⟨18446744073709551615, "a \rλ\u3000# b", some 18446744073709551615, ⟨['H', 'W', 'h']⟩⟩
    let smallest : Observation := ⟨0, "\x7b", some 1, .none⟩
    let written : List (Observation × Style) := [(largest, ⟨['W', 'h', 'H', 'W'], true⟩), (smallest, ⟨[], false⟩)]
    let stream := "18446744073709551615\ta \rλ\u3000# b\t18446744073709551615WhHW\r\n0\t\x7b\t1\n"
    (∀ line ∈ written, line.1.Writable) ∧ (∀ line ∈ written, line.1.flags.SpelledBy line.2.letters) ∧
      (Feed.mk stream.toUTF8.toList none).observations.items? = .ok [largest, smallest] := by
  intro largest smallest written stream
  have writable : ∀ line ∈ written, line.1.Writable := by
    simp only [written, List.forall_mem_cons, List.not_mem_nil, false_implies, implies_true, and_true]
    constructor
    · have ends : Text.isBlank 'a' = false ∧ Text.isBlank 'b' = false := by decide
      exact ⟨by decide, ⟨_, rfl, by decide, by decide⟩, by decide, by simp [largest], by simp [largest, ends],
        by simp [largest, ends]⟩
    · have brace : Text.isBlank '\x7b' = false := by decide
      exact ⟨by decide, ⟨_, rfl, by decide, by decide⟩, by decide, by simp [smallest], by simp [smallest, brace],
        by simp [smallest, brace]⟩
  have spelled : ∀ line ∈ written, line.1.flags.SpelledBy line.2.letters := by
    simp only [written, List.forall_mem_cons, List.not_mem_nil, false_implies, implies_true, and_true]
    constructor
    · exact ⟨by simp [largest], by simp, fun c => by simp only [largest, List.mem_cons]; grind⟩
    · exact ⟨.nil, by simp, fun c => Iff.rfl⟩
  have lines : String.join (written.map fun line =>
      line.1.text line.2.letters ++ Text.lineEnd line.2.carriageReturn) = stream := by decide +kernel
  have reading := (read_back written writable spelled).1
  rw [lines] at reading
  exact ⟨writable, spelled, reading⟩

end Observation

end FragmentSearch
