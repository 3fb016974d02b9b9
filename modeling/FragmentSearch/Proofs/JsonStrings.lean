import FragmentSearch.Json.Value
import FragmentSearch.Json.Reader

namespace FragmentSearch.Json

def letters : List (Char × Char) :=
  [('"', '"'), ('\\', '\\'), ('/', '/'), ('b', '\x08'), ('f', '\x0c'), ('n', '\n'), ('r', '\r'), ('t', '\t')]

inductive SpellsDigit (n : Nat) : Char → Prop
  | lower : n < 16 → SpellsDigit n n.digitChar
  | upper : n < 16 → SpellsDigit n n.digitChar.toUpper

inductive SpellsUnit : Nat → List Char → Prop
  | digits {p q r s : Nat} {a b c d : Char} : SpellsDigit p a → SpellsDigit q b → SpellsDigit r c → SpellsDigit s d →
      SpellsUnit (4096 * p + 256 * q + 16 * r + s) [a, b, c, d]

def highUnit (c : Char) : Nat := 0xD800 + (c.toNat - 0x10000) / 1024

def lowUnit (c : Char) : Nat := 0xDC00 + (c.toNat - 0x10000) % 1024

inductive SpellsChar (c : Char) : List Char → Prop
  | plain : ' ' ≤ c → c ≠ '"' → c ≠ '\\' → SpellsChar c [c]
  | letter {letter : Char} : (letter, c) ∈ letters → SpellsChar c ['\\', letter]
  | unit {digits : List Char} : SpellsUnit c.toNat digits → SpellsChar c ('\\' :: 'u' :: digits)
  | pair {high low : List Char} : 0x10000 ≤ c.toNat → SpellsUnit (highUnit c) high → SpellsUnit (lowUnit c) low →
      SpellsChar c ('\\' :: 'u' :: high ++ '\\' :: 'u' :: low)

inductive Spells : List Char → List Char → Prop
  | nil : Spells [] []
  | cons {c : Char} {text piece raw : List Char} : SpellsChar c piece → Spells text raw →
      Spells (c :: text) (piece ++ raw)

variable {n : Nat} {c : Char} {text raw piece digits read rest taken : List Char} {found : List Token}

theorem SpellsDigit.hexDigit? (h : SpellsDigit n c) : hexDigit? c = some n := by
  have lower : ∀ n < 16, Json.hexDigit? n.digitChar = some n := by decide
  have upper : ∀ n < 16, Json.hexDigit? n.digitChar.toUpper = some n := by decide
  cases h with
  | lower small => exact lower n small
  | upper small => exact upper n small

theorem SpellsUnit.unescape (h : SpellsUnit n digits) :
    ∃ a b c d, digits = [a, b, c, d] ∧ unit? a b c d = some n := by
  obtain ⟨first, second, third, fourth⟩ := h
  refine ⟨_, _, _, _, rfl, ?_⟩
  simp only [unit?, first.hexDigit?, second.hexDigit?, third.hexDigit?, fourth.hexDigit?]

theorem toNat_cases (c : Char) : c.toNat < 0xD800 ∨ 0xDFFF < c.toNat ∧ c.toNat < 0x110000 := c.valid

theorem isHighSurrogate_iff : isHighSurrogate n ↔ 0xD800 ≤ n ∧ n < 0xDC00 := by
  simp [isHighSurrogate]

theorem isLowSurrogate_iff : isLowSurrogate n ↔ 0xDC00 ≤ n ∧ n < 0xE000 := by
  simp [isLowSurrogate]

theorem highUnit_bounds (astral : 0x10000 ≤ c.toNat) : 0xD800 ≤ highUnit c ∧ highUnit c < 0xDC00 := by
  have scalar := toNat_cases c
  rw [highUnit]
  omega

theorem lowUnit_bounds (c : Char) : 0xDC00 ≤ lowUnit c ∧ lowUnit c < 0xE000 := by
  rw [lowUnit]
  omega

theorem joinSurrogates_units (astral : 0x10000 ≤ c.toNat) : joinSurrogates (highUnit c) (lowUnit c) = c := by
  have value : 0x10000 + 1024 * (highUnit c - 0xD800) + (lowUnit c - 0xDC00) = c.toNat := by
    simp only [highUnit, lowUnit]
    omega
  rw [joinSurrogates, value, Char.ofNat_toNat]

theorem unescapeFrom_append (h : SpellsChar c piece) :
    unescapeFrom read (piece ++ rest) = unescapeFrom (c :: read) rest := by
  have scalar := toNat_cases c
  cases h with
  | plain printable quote solidus =>
    rw [List.singleton_append, unescapeFrom]
    · exact fun _ _ _ _ _ same => absurd same solidus
    · exact fun _ _ same => absurd same solidus
    · exact fun same => absurd same solidus
  | @letter letter listed =>
    have known : ∀ entry ∈ letters, named? entry.1 = some entry.2 ∧ entry.1 ≠ 'u' := by decide
    obtain ⟨named, other⟩ := known _ listed
    rw [List.cons_append, List.singleton_append, unescapeFrom]
    · simp only [named]
    · exact fun _ _ _ _ _ same => absurd same other
  | unit spelled =>
    obtain ⟨a, b, c', d, rfl, unit⟩ := spelled.unescape
    have low : ¬isLowSurrogate c.toNat := by rw [isLowSurrogate_iff]; omega
    have high : ¬isHighSurrogate c.toNat := by rw [isHighSurrogate_iff]; omega
    simp only [List.cons_append, List.nil_append, unescapeFrom, unit, low, high, Char.ofNat_toNat, Bool.false_eq_true,
      if_false]
  | pair astral high low =>
    obtain ⟨a, b, c', d, rfl, unit⟩ := high.unescape
    obtain ⟨e, f, g, h, rfl, unit'⟩ := low.unescape
    have bounds := highUnit_bounds astral
    have first : ¬isLowSurrogate (highUnit c) := by rw [isLowSurrogate_iff]; omega
    have first' : isHighSurrogate (highUnit c) := isHighSurrogate_iff.mpr bounds
    have second : isLowSurrogate (lowUnit c) := isLowSurrogate_iff.mpr (lowUnit_bounds c)
    simp only [List.cons_append, List.nil_append, unescapeFrom, unit, unit', first, first', second,
      joinSurrogates_units astral, Bool.false_eq_true, if_false, if_true]

theorem unescapeFrom_of_spells (h : Spells text raw) : unescapeFrom read raw = some (read.reverse ++ text) := by
  induction h generalizing read with
  | nil => rw [unescapeFrom, List.append_nil]
  | cons spelled _ ih =>
    rw [unescapeFrom_append spelled, ih, List.reverse_cons, List.append_assoc, List.singleton_append]

theorem unescape_of_spells (h : Spells text raw) : unescape raw = some text := unescapeFrom_of_spells h

theorem SpellsDigit.isHexadecimal (h : SpellsDigit n c) :
    c.isDigit || ('a' ≤ c && c ≤ 'f') || ('A' ≤ c && c ≤ 'F') := by
  have lower : ∀ n < 16, n.digitChar.isDigit || ('a' ≤ n.digitChar && n.digitChar ≤ 'f') ||
      ('A' ≤ n.digitChar && n.digitChar ≤ 'F') := by decide
  have upper : ∀ n < 16, n.digitChar.toUpper.isDigit || ('a' ≤ n.digitChar.toUpper && n.digitChar.toUpper ≤ 'f') ||
      ('A' ≤ n.digitChar.toUpper && n.digitChar.toUpper ≤ 'F') := by decide
  cases h with
  | lower small => exact lower n small
  | upper small => exact upper n small

theorem foldlM_unit (h : SpellsUnit n digits) :
    ('\\' :: 'u' :: digits).foldlM Scan.step ⟨found, .text taken⟩ =
      some ⟨found, .text (('\\' :: 'u' :: digits).reverse ++ taken)⟩ := by
  obtain ⟨first, second, third, fourth⟩ := h
  have opened (rest : List Char) : ('\\' :: 'u' :: rest).foldlM Scan.step ⟨found, .text taken⟩ =
      rest.foldlM Scan.step ⟨found, .hex ('u' :: '\\' :: taken) 4⟩ := rfl
  rw [opened]
  simp only [List.foldlM_cons, Scan.step, first.isHexadecimal, second.isHexadecimal, third.isHexadecimal,
    fourth.isHexadecimal]
  rfl

theorem foldlM_piece (h : SpellsChar c piece) :
    piece.foldlM Scan.step ⟨found, .text taken⟩ = some ⟨found, .text (piece.reverse ++ taken)⟩ := by
  cases h with
  | plain printable quote solidus =>
    have step : Scan.step ⟨found, .text taken⟩ c = some ⟨found, .text (c :: taken)⟩ := by
      simp only [Scan.step, quote, solidus, Char.not_lt.mpr printable, if_false]
    rw [List.foldlM_cons, step]
    rfl
  | @letter letter listed =>
    have known : ∀ entry ∈ letters, entry.1 ≠ 'u' ∧ "\"\\/bfnrt".toList.contains entry.1 := by decide
    obtain ⟨other, allowed⟩ := known _ listed
    have opened : ['\\', letter].foldlM Scan.step ⟨found, .text taken⟩ =
        [letter].foldlM Scan.step ⟨found, .escape ('\\' :: taken)⟩ := rfl
    rw [opened]
    simp only [List.foldlM_cons, Scan.step, other, allowed, if_false, if_true]
    rfl
  | unit spelled => exact foldlM_unit spelled
  | pair astral high low =>
    rw [List.foldlM_append, foldlM_unit high]
    exact (foldlM_unit low).trans (by simp)

theorem foldlM_spelled (h : Spells text raw) :
    raw.foldlM Scan.step ⟨found, .text taken⟩ = some ⟨found, .text (raw.reverse ++ taken)⟩ := by
  induction h generalizing taken with
  | nil => rfl
  | cons spelled _ ih =>
    rw [List.foldlM_append, foldlM_piece spelled]
    exact ih.trans (by rw [List.reverse_append, List.append_assoc])

theorem SpellsDigit.printable (h : SpellsDigit n c) : ' ' ≤ c := by
  have lower : ∀ n < 16, ' ' ≤ n.digitChar := by decide
  have upper : ∀ n < 16, ' ' ≤ n.digitChar.toUpper := by decide
  cases h with
  | lower small => exact lower n small
  | upper small => exact upper n small

theorem SpellsUnit.printable (h : SpellsUnit n digits) : ∀ d ∈ digits, ' ' ≤ d := by
  obtain ⟨first, second, third, fourth⟩ := h
  simp only [List.forall_mem_cons]
  exact ⟨first.printable, second.printable, third.printable, fourth.printable, List.forall_mem_nil _⟩

theorem SpellsChar.printable (h : SpellsChar c piece) : ∀ d ∈ piece, ' ' ≤ d := by
  have solidus : ' ' ≤ '\\' := by decide
  have mark : ' ' ≤ 'u' := by decide
  cases h with
  | plain printable => exact List.forall_mem_singleton.mpr printable
  | letter listed =>
    have known : ∀ entry ∈ letters, ' ' ≤ entry.1 := by decide
    exact List.forall_mem_cons.mpr ⟨solidus, List.forall_mem_singleton.mpr (known _ listed)⟩
  | unit spelled => exact List.forall_mem_cons.mpr ⟨solidus, List.forall_mem_cons.mpr ⟨mark, spelled.printable⟩⟩
  | pair astral high low =>
    simp only [List.forall_mem_append, List.forall_mem_cons]
    exact ⟨⟨solidus, mark, high.printable⟩, solidus, mark, low.printable⟩

theorem Spells.printable (h : Spells text raw) : ∀ d ∈ raw, ' ' ≤ d := by
  induction h with
  | nil => exact List.forall_mem_nil _
  | cons spelled _ ih => exact List.forall_mem_append.mpr ⟨spelled.printable, ih⟩

theorem spellsChar_escapeChar (c : Char) : SpellsChar c (escapeChar c) := by
  unfold escapeChar
  split
  case h_8 quote solidus _ _ _ _ _ =>
    split
    -- control characters without a letter have two digits that are not zero at most
    next control =>
      have small : c.toNat < 32 := control
      have spelled : SpellsUnit (4096 * 0 + 256 * 0 + 16 * (c.toNat / 16) + c.toNat % 16)
          ['0', '0', (c.toNat / 16).digitChar, (c.toNat % 16).digitChar] :=
        .digits (.lower (by decide)) (.lower (by decide)) (.lower (by omega)) (.lower (by omega))
      have value : 4096 * 0 + 256 * 0 + 16 * (c.toNat / 16) + c.toNat % 16 = c.toNat := by omega
      rw [value] at spelled
      exact .unit spelled
    · exact .plain (Char.not_lt.mp ‹_›) quote solidus
  all_goals exact .letter (by decide)

theorem spells_escape (text : List Char) : Spells text (escape text) := by
  induction text with
  | nil => exact .nil
  | cons c text ih => exact .cons (spellsChar_escapeChar c) ih

end FragmentSearch.Json
