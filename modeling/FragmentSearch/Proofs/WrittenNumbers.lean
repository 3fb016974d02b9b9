import FragmentSearch.Report.Written
import FragmentSearch.Text

namespace FragmentSearch

namespace Text

theorem toList_toString (n : Nat) : (toString n).toList = Nat.toDigits 10 n := by
  rw [Nat.toString_eq_repr, Nat.toList_repr]

theorem isDigit_of_mem_toString {n : Nat} {c : Char} (h : c ∈ (toString n).toList) : c.isDigit = true := by
  rw [toList_toString] at h
  exact Nat.isDigit_of_mem_toDigits (by decide) (by decide) h

theorem of_isDigit (p : Char → Prop) (h : ∀ value ∈ List.range' 48 10, p (Char.ofNat value)) {c : Char}
    (digit : c.isDigit) : p c := by
  obtain ⟨low, high⟩ := Char.isDigit_iff_toNat.mp digit
  have member : c.toNat ∈ List.range' 48 10 := List.mem_range'_1.mpr ⟨low, Nat.lt_succ_of_le high⟩
  exact c.ofNat_toNat ▸ h c.toNat member

theorem toString_ne_nil (n : Nat) : (toString n).toList ≠ [] := by
  rw [toList_toString]
  exact Nat.toDigits_ne_nil

theorem digits?_toString (n : Nat) : digits? (toString n).toList = some n := by
  have filled : (toString n).toList.isEmpty = false := List.isEmpty_eq_false_iff.mpr (toString_ne_nil n)
  have digits : (toString n).toList.all Char.isDigit = true :=
    List.all_eq_true.mpr fun _ member => isDigit_of_mem_toString member
  rw [digits?, filled, digits, toList_toString, Nat.ofDigitChars_ten_toDigits]
  rfl

theorem natural?_of_ne_plus {c : Char} {text : List Char} (h : c ≠ '+') : natural? (c :: text) = word? (c :: text) := by
  rw [natural?]
  simpa using h

theorem word?_toString {n : Nat} (h : n < wordLimit) : word? (toString n).toList = some n := by
  rw [word?, digits?_toString]
  simp [h]

theorem natural?_toString {n : Nat} (h : n < wordLimit) : natural? (toString n).toList = some n := by
  cases text : (toString n).toList with
  | nil => exact absurd text (toString_ne_nil n)
  | cons c rest =>
    have digit : c.isDigit = true := isDigit_of_mem_toString (text ▸ List.mem_cons_self)
    have unsigned : c ≠ '+' := by
      rintro rfl
      cases digit
    rw [natural?_of_ne_plus unsigned, ← text, word?_toString h]

end Text

namespace Decimal

def isNumeralChar (c : Char) : Bool := c.isAlphanum || c = '.' || c = '-'

def IsNumeral (text : String) : Prop := ∀ c ∈ text.toList, isNumeralChar c = true

instance (text : String) : Decidable (IsNumeral text) :=
  decidable_of_iff (text.toList.all isNumeralChar = true) List.all_eq_true

theorem isNumeral_empty : IsNumeral "" := by decide

theorem IsNumeral.append {a b : String} (ha : IsNumeral a) (hb : IsNumeral b) : IsNumeral (a ++ b) := by
  intro c member
  rw [String.toList_append] at member
  rcases List.mem_append.mp member with left | right
  · exact ha c left
  · exact hb c right

theorem IsNumeral.ofList_of_subset {a : String} (h : IsNumeral a) {chars : List Char}
    (subset : ∀ c ∈ chars, c ∈ a.toList) : IsNumeral (String.ofList chars) := by
  intro c member
  rw [String.toList_ofList] at member
  exact h c (subset c member)

theorem isNumeral_toString (n : Nat) : IsNumeral (toString n) := by
  intro c member
  simp [isNumeralChar, Char.isAlphanum, Text.isDigit_of_mem_toString member]

theorem isNumeral_zeros (n : Nat) : IsNumeral (zeros n) := by
  intro c member
  rw [zeros, String.toList_ofList] at member
  cases List.eq_of_mem_replicate member
  decide

theorem isNumeral_signText (negative : Bool) : IsNumeral (signText negative) := by
  cases negative <;> decide

theorem isNumeral_positional (d : Decimal) : IsNumeral d.positional.1 ∧ IsNumeral d.positional.2 := by
  have digits : IsNumeral (toString d.digits) := isNumeral_toString _
  simp only [positional]
  split
  · exact ⟨(digits.ofList_of_subset fun _ h => h).append (isNumeral_zeros _), isNumeral_empty⟩
  · split
    · exact ⟨digits.ofList_of_subset fun _ h => List.mem_of_mem_take h,
        digits.ofList_of_subset fun _ h => List.mem_of_mem_drop h⟩
    · have zero : IsNumeral "0" := by decide
      exact ⟨zero, (isNumeral_zeros _).append (digits.ofList_of_subset fun _ h => h)⟩

theorem isNumeral_plain (x : Float) : IsNumeral (plain x) := by
  unfold plain
  split
  · decide
  · exact (isNumeral_signText _).append (by decide)
  · exact (isNumeral_signText _).append (by decide)
  · obtain ⟨whole, places⟩ := isNumeral_positional (shortest .up _ _)
    apply IsNumeral.append ((isNumeral_signText _).append whole)
    split
    · decide
    · exact IsNumeral.append (by decide) places

theorem isNumeral_pointed (places units : Nat) : IsNumeral (pointed places units) := by
  simp only [pointed]
  split
  · exact isNumeral_toString _
  · exact (((isNumeral_toString _).append (by decide)).append (isNumeral_zeros _)).append (isNumeral_toString _)

theorem isNumeral_fixed (places : Nat) (x : Float) : IsNumeral (fixed places x) := by
  unfold fixed
  split
  · decide
  · exact (isNumeral_signText _).append (by decide)
  · exact (isNumeral_signText _).append (isNumeral_pointed _ _)

theorem isNumeral_percentText (places : Nat) (percent : Option Float) : IsNumeral (percentText places percent) := by
  cases percent with
  | none => exact isNumeral_empty
  | some percent => exact isNumeral_fixed places percent

theorem isNumeral_sizeText (size : Option Nat) : IsNumeral (sizeText size) := by
  cases size with
  | none => exact isNumeral_empty
  | some size => exact isNumeral_toString size

end Decimal

open Decimal (IsNumeral)

def Row.occupantName (row : Row) : String := row.occupant.name.getD ""

theorem Row.mem_fields {file score field : String} {row : Row} (numeral : IsNumeral score)
    (h : field ∈ row.fields file score) : field = file ∨ field = row.occupantName ∨ IsNumeral field := by
  simp only [fields, List.mem_cons, List.not_mem_nil, or_false] at h
  rcases h with rfl | rfl | rfl | rfl | rfl | rfl | rfl | rfl | rfl
  · exact .inl rfl
  · exact .inr (.inr numeral)
  · exact .inr (.inr (Decimal.isNumeral_toString _))
  · exact .inr (.inr (Decimal.isNumeral_toString _))
  · exact .inr (.inr (Decimal.isNumeral_toString _))
  · exact .inr (.inr (Decimal.isNumeral_toString _))
  · exact .inr (.inr (Decimal.isNumeral_percentText _ _))
  · exact .inr (.inl rfl)
  · exact .inr (.inr (Decimal.isNumeral_sizeText _))

end FragmentSearch
