import FragmentSearch.Text

namespace FragmentSearch.Text

structure LinesOf (bytes : List UInt8) (lines : List (List UInt8)) : Prop where
  whole : lines.flatten = bytes
  filled : ∀ line ∈ lines, line ≠ []
  inner : ∀ line ∈ lines, lineFeed ∉ line.dropLast
  ended : ∀ line ∈ lines.dropLast, line.getLast? = some lineFeed

variable {bytes body rest before after : List UInt8} {line : List UInt8} {lines : List (List UInt8)}

theorem cutLines_cons (byte : UInt8) (bytes : List UInt8) :
    cutLines (byte :: bytes) = prependByte byte (cutLines bytes) := rfl

theorem prependByte_of_ne {byte : UInt8} (h : byte ≠ lineFeed) (line : List UInt8) (lines : List (List UInt8)) :
    prependByte byte (line :: lines) = (byte :: line) :: lines := by
  rw [prependByte, if_neg h]

theorem cutLines_line (plain : lineFeed ∉ body) (rest : List UInt8) :
    cutLines (body ++ lineFeed :: rest) = (body ++ [lineFeed]) :: cutLines rest := by
  induction body with
  | nil => rfl
  | cons byte body ih =>
    have other : byte ≠ lineFeed := Ne.symm (List.ne_of_not_mem_cons plain)
    rw [List.cons_append, cutLines_cons, ih (List.not_mem_of_not_mem_cons plain), prependByte_of_ne other,
      List.cons_append]

theorem cutLines_unended (plain : lineFeed ∉ body) (filled : body ≠ []) : cutLines body = [body] := by
  induction body with
  | nil => exact absurd rfl filled
  | cons byte body ih =>
    have other : byte ≠ lineFeed := Ne.symm (List.ne_of_not_mem_cons plain)
    rw [cutLines_cons]
    cases body with
    | nil => rw [cutLines, List.foldr_nil, prependByte, if_neg other]
    | cons next body =>
      rw [ih (List.not_mem_of_not_mem_cons plain) (List.cons_ne_nil _ _), prependByte_of_ne other]

theorem stream_induction {motive : List UInt8 → Prop} (nil : motive [])
    (unended : ∀ body, body ≠ [] → lineFeed ∉ body → motive body)
    (line : ∀ body rest, lineFeed ∉ body → motive rest → motive (body ++ lineFeed :: rest)) (bytes : List UInt8) :
    motive bytes := by
  induction h : bytes.length using Nat.strongRecOn generalizing bytes with
  | ind length ih =>
    by_cases ended : lineFeed ∈ bytes
    · obtain ⟨body, rest, rfl, plain⟩ := List.eq_append_cons_of_mem ended
      have shorter : rest.length < length := by
        rw [← h, List.length_append, List.length_cons]
        omega
      exact line body rest plain (ih rest.length shorter rest rfl)
    · by_cases empty : bytes = []
      · exact empty ▸ nil
      · exact unended bytes empty ended

theorem linesOf_cutLines (bytes : List UInt8) : LinesOf bytes (cutLines bytes) := by
  induction bytes using stream_induction with
  | nil => exact ⟨rfl, by simp [cutLines], by simp [cutLines], by simp [cutLines]⟩
  | unended body filled plain =>
    rw [cutLines_unended plain filled]
    refine ⟨List.flatten_singleton, ?_, ?_, by simp⟩
    · simpa using filled
    · simpa using fun inside => plain (List.dropLast_subset body inside)
  | line body rest plain ih =>
    rw [cutLines_line plain]
    refine ⟨by rw [List.flatten_cons, ih.whole, List.append_assoc, List.singleton_append], ?_, ?_, ?_⟩
    · simpa using ih.filled
    · simpa [plain] using ih.inner
    · intro line member
      by_cases last : cutLines rest = []
      · simp [last] at member
      · rw [List.dropLast_cons_of_ne_nil last, List.mem_cons] at member
        rcases member with rfl | member
        · exact List.getLast?_concat
        · exact ih.ended line member

theorem LinesOf.tail (h : LinesOf bytes (line :: lines)) : LinesOf lines.flatten lines := by
  refine ⟨rfl, fun other member => h.filled other (List.mem_cons_of_mem _ member),
    fun other member => h.inner other (List.mem_cons_of_mem _ member), fun other member => h.ended other ?_⟩
  have filled : lines ≠ [] := List.ne_nil_of_mem (List.dropLast_subset lines member)
  rw [List.dropLast_cons_of_ne_nil filled]
  exact List.mem_cons_of_mem _ member

theorem LinesOf.eq_cutLines (h : LinesOf bytes lines) : lines = cutLines bytes := by
  induction lines generalizing bytes with
  | nil => rw [← h.whole]; rfl
  | cons line lines ih =>
    have filled := h.filled line List.mem_cons_self
    have inner := h.inner line List.mem_cons_self
    rw [← h.whole, List.flatten_cons]
    by_cases ended : line.getLast? = some lineFeed
    · obtain ⟨body, rfl⟩ := List.getLast?_eq_some_iff.mp ended
      rw [List.dropLast_concat] at inner
      rw [List.append_assoc, List.singleton_append, cutLines_line inner, ← ih h.tail]
    · -- only the last line is without an end
      have last : lines = [] := by
        cases lines with
        | nil => rfl
        | cons next lines => exact absurd (h.ended line (by simp)) ended
      have plain : lineFeed ∉ line := by
        intro inside
        rw [← List.dropLast_concat_getLast filled, List.mem_append, List.mem_singleton] at inside
        rcases inside with inside | inside
        · exact inner inside
        · exact ended (by rw [List.getLast?_eq_some_getLast filled, ← inside])
      rw [last, List.flatten_nil, List.append_nil, cutLines_unended plain filled]

theorem linesOf_iff : LinesOf bytes lines ↔ lines = cutLines bytes :=
  ⟨LinesOf.eq_cutLines, fun h => h ▸ linesOf_cutLines bytes⟩

def AtLineEnd (before after : List UInt8) : Prop :=
  before = [] ∨ before.getLast? = some lineFeed ∨ after = []

theorem AtLineEnd.of_append {more : List UInt8} (h : AtLineEnd before (more ++ after)) (filled : more ≠ []) :
    AtLineEnd before after := by
  rcases h with empty | ended | nothing
  · exact .inl empty
  · exact .inr (.inl ended)
  · exact absurd (List.append_eq_nil_iff.mp nothing).1 filled

theorem cutLines_append (h : AtLineEnd before after) :
    cutLines (before ++ after) = cutLines before ++ cutLines after := by
  induction before using stream_induction with
  | nil => rfl
  | unended body filled plain =>
    rcases h with h | h | rfl
    · exact absurd h filled
    · exact absurd (List.mem_of_getLast? h) plain
    · rw [List.append_nil]
      exact (List.append_nil _).symm
  | line body rest plain ih =>
    have h : AtLineEnd rest after := by
      cases rest with
      | nil => exact .inl rfl
      | cons byte rest => simpa [AtLineEnd] using h
    rw [List.append_assoc, List.cons_append, cutLines_line plain, cutLines_line plain, ih h, List.cons_append]

end FragmentSearch.Text
