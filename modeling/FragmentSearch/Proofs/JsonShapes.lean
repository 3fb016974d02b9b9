import FragmentSearch.Proofs.JsonReading

namespace FragmentSearch

namespace Decimal

theorem Interval.low_pos {significand : Nat} (positive : 0 < significand) (exponent : Int) :
    0 < (Interval.around significand exponent).low := by
  simp only [Interval.around]
  split <;> omega

theorem Interval.nearestOn_pos {i : Interval} (low : 0 < i.low) {tie : Tie} {grid : Int} {k : Nat}
    (found : i.nearestOn tie grid = some k) : 0 < k := by
  unfold Interval.nearestOn at found
  extract_lets scale unit inside below nearest at found
  have above : 0 < i.low * scale := Nat.mul_pos low (Nat.mul_pos (Nat.pow_pos (by decide)) (Nat.pow_pos (by decide)))
  -- zero is below the interval
  have positive {m : Nat} (h : inside m = true) : 0 < m := by
    rcases Nat.eq_zero_or_pos m with rfl | positive
    · simp only [inside, Nat.zero_mul] at h
      split at h <;> simp only [Bool.and_eq_true, decide_eq_true_eq] at h <;> omega
    · exact positive
  split at found
  next h => exact Option.some.inj found ▸ positive h
  · split at found
    next h => exact Option.some.inj found ▸ positive h
    · split at found
      next h => exact Option.some.inj found ▸ positive h
      · cases found

theorem shortest_digits {significand : Nat} (positive : 0 < significand) (tie : Tie) (exponent : Int) :
    0 < (shortest tie significand exponent).digits ∨ shortest tie significand exponent = ⟨0, 0⟩ := by
  simp only [shortest]
  generalize listed : List.range 22 = grids
  clear listed
  induction grids with
  | nil => exact .inr rfl
  | cons grid grids ih =>
    rw [List.findSome?_cons]
    split
    next d found =>
      obtain ⟨k, near, rfl⟩ := Option.map_eq_some_iff.mp found
      exact .inl (Interval.nearestOn_pos (Interval.low_pos positive exponent) near)
    · exact ih

end Decimal

namespace Text

theorem toString_head {n : Nat} (positive : 0 < n) : ∃ d rest, (toString n).toList = d :: rest ∧ d ≠ '0' := by
  rw [toList_toString]
  induction n using Nat.strongRecOn with
  | ind n ih =>
    rw [Nat.toDigits_eq_if (by decide)]
    split
    next small =>
      have digits : ∀ n < 10, 0 < n → n.digitChar ≠ '0' := by decide
      exact ⟨n.digitChar, [], rfl, digits n small positive⟩
    next large =>
      obtain ⟨d, rest, shape, other⟩ := ih (n / 10) (by omega) (by omega)
      exact ⟨d, rest ++ [(n % 10).digitChar], by rw [shape, List.cons_append], other⟩

end Text

namespace Json

def AreDigits (text : List Char) : Prop := ∀ c ∈ text, c.isDigit = true

theorem areDigits_toString (n : Nat) : AreDigits (toString n).toList := fun _ => Text.isDigit_of_mem_toString

theorem areDigits_zeros (n : Nat) : AreDigits (Decimal.zeros n).toList := by
  intro c member
  rw [Decimal.zeros, String.toList_ofList] at member
  rw [List.eq_of_mem_replicate member]
  rfl

theorem AreDigits.append {first second : List Char} (h : AreDigits first) (h' : AreDigits second) :
    AreDigits (first ++ second) := List.forall_mem_append.mpr ⟨h, h'⟩

theorem AreDigits.of_subset {text part : List Char} (h : AreDigits text) (inside : part ⊆ text) : AreDigits part :=
  fun c member => h c (inside member)

theorem AreDigits.dropWhile_append {text tail : List Char} (h : AreDigits text)
    (ends : ∀ c ∈ tail.head?, c.isDigit = false) : (text ++ tail).dropWhile Char.isDigit = tail := by
  rw [List.dropWhile_append_of_pos h]
  cases tail with
  | nil => rfl
  | cons c tail => exact List.dropWhile_cons_of_neg (by rw [ends c rfl]; decide)

inductive IsWhole : List Char → Prop
  | zero : IsWhole ['0']
  | digits {d : Char} {rest : List Char} : AreDigits (d :: rest) → d ≠ '0' → IsWhole (d :: rest)

structure IsTail (tail : List Char) : Prop where
  spelled : isFractionAndExponent tail = true
  ends : ∀ c ∈ tail.head?, c.isDigit = false

theorem isTail_nil : IsTail [] := ⟨rfl, nofun⟩

theorem isTail_exponent {sign : Char} (signed : sign = '+' ∨ sign = '-') {digits : List Char} (h : AreDigits digits)
    (filled : digits ≠ []) : IsTail ('e' :: sign :: digits) := by
  refine ⟨?_, fun c head => by cases head; rfl⟩
  have all : digits.all Char.isDigit = true := List.all_eq_true.mpr h
  rcases signed with rfl | rfl <;>
    simp [isFractionAndExponent, all, List.isEmpty_eq_false_iff.mpr filled]

theorem IsTail.fraction {places tail : List Char} (h : AreDigits places) (filled : places ≠ [])
    (behind : tail = [] ∨ ∃ rest, tail = 'e' :: rest) (spelled : IsTail tail) : IsTail ('.' :: places ++ tail) := by
  refine ⟨?_, fun c head => by cases head; rfl⟩
  cases places with
  | nil => exact absurd rfl filled
  | cons d places =>
    obtain ⟨digit, rest⟩ := List.forall_mem_cons.mp h
    have whole := spelled.spelled
    rcases behind with rfl | ⟨exponent, rfl⟩
    · have none := AreDigits.dropWhile_append rest spelled.ends
      simp only [isFractionAndExponent, List.cons_append, digit, if_true, none]
    · have left := AreDigits.dropWhile_append rest spelled.ends
      simp only [isFractionAndExponent, List.cons_append, digit, if_true, left]
      simpa [isFractionAndExponent] using whole

theorem IsWhole.isUnsigned {whole tail : List Char} (h : IsWhole whole) (behind : IsTail tail) :
    isUnsigned (whole ++ tail) = true := by
  cases h with
  | zero => exact behind.spelled
  | @digits d rest digits other =>
    obtain ⟨digit, rest⟩ := List.forall_mem_cons.mp digits
    have left := AreDigits.dropWhile_append rest behind.ends
    rw [List.cons_append, Json.isUnsigned]
    · simp only [digit, left, behind.spelled, Bool.and_self]
    · exact other

theorem IsWhole.isNumber {whole tail : List Char} (h : IsWhole whole) (behind : IsTail tail) (negative : Bool) :
    isNumber ((Decimal.signText negative).toList ++ (whole ++ tail)) = true := by
  have unsigned := h.isUnsigned behind
  cases negative with
  | true => exact unsigned
  | false =>
    have begins : ∃ d rest, whole ++ tail = d :: rest ∧ d ≠ '-' := by
      cases h with
      | zero => exact ⟨_, _, rfl, by decide⟩
      | digits digits other =>
        refine ⟨_, _, rfl, ?_⟩
        rintro rfl
        cases digits _ List.mem_cons_self
    obtain ⟨d, rest, shape, other⟩ := begins
    have bare : (Decimal.signText false).toList ++ (whole ++ tail) = d :: rest := shape
    rw [bare, Json.isNumber, ← shape]
    · exact unsigned
    · exact fun _ minus => other (List.cons.inj minus).1

theorem isWhole_toString (n : Nat) : IsWhole (toString n).toList := by
  rcases Nat.eq_zero_or_pos n with rfl | positive
  · exact .zero
  · obtain ⟨d, rest, shape, other⟩ := Text.toString_head positive
    rw [shape]
    exact .digits (shape ▸ areDigits_toString n) other

theorem isNumber_toString (n : Nat) : isNumber (toString n).toList := by
  have whole := (isWhole_toString n).isNumber isTail_nil false
  rwa [List.append_nil] at whole

theorem isWhole_positional {d : Decimal} (positive : 0 < d.digits) : IsWhole d.positional.1.toList ∧
    AreDigits d.positional.2.toList := by
  obtain ⟨c, rest, shape, other⟩ := Text.toString_head positive
  have digits := areDigits_toString d.digits
  simp only [Decimal.positional]
  split
  · rw [String.toList_append, String.toList_ofList, shape]
    exact ⟨.digits ((shape ▸ digits).append (areDigits_zeros _)) other, List.forall_mem_nil _⟩
  · split
    next inside =>
      simp only [String.toList_ofList]
      obtain ⟨k, count⟩ : ∃ k, (toString d.digits).toList.length - (-d.exponent).toNat = k + 1 :=
        ⟨_, (Nat.succ_pred_eq_of_pos (by omega)).symm⟩
      refine ⟨?_, digits.of_subset (List.drop_subset _ _)⟩
      have first : AreDigits (c :: rest.take k) := by
        rw [← List.take_succ_cons, ← shape]
        exact digits.of_subset (List.take_subset _ _)
      rw [count, shape, List.take_succ_cons]
      exact .digits first other
    · have only : IsWhole "0".toList := .zero
      refine ⟨only, ?_⟩
      rw [String.toList_append, String.toList_ofList]
      exact (areDigits_zeros _).append digits

theorem isNumber_marked {d : Decimal} (positive : 0 < d.digits) (negative : Bool) :
    isNumber (Decimal.signText negative ++ d.marked).toList := by
  rw [String.toList_append]
  simp only [Decimal.marked]
  split
  · obtain ⟨whole, places⟩ := isWhole_positional positive
    have shown : IsTail ('.' :: (if d.positional.2.isEmpty then "0" else d.positional.2).toList ++ []) := by
      apply IsTail.fraction _ _ (.inl rfl) isTail_nil
      · split
        · exact List.forall_mem_singleton.mpr rfl
        · exact places
      · split
        · decide
        next filled => simpa using filled
    rw [List.append_nil] at shown
    simpa [String.toList_append] using whole.isNumber shown negative
  · obtain ⟨c, rest, shape, other⟩ := Text.toString_head positive
    have digits := areDigits_toString d.digits
    rw [shape] at digits
    obtain ⟨digit, places⟩ := List.forall_mem_cons.mp digits
    have first : IsWhole [c] := .digits (List.forall_mem_singleton.mpr digit) other
    simp only [Decimal.scientific, shape, List.take_succ_cons, List.take_zero, List.drop_succ_cons, List.drop_zero]
    generalize d.exponent + _ - 1 = exponent
    have power : IsTail ('e' :: (if exponent < 0 then '-' else '+') :: (toString exponent.natAbs).toList) := by
      refine isTail_exponent ?_ (areDigits_toString _) (Text.toString_ne_nil _)
      split
      · exact .inr rfl
      · exact .inl rfl
    have sign : (if exponent < 0 then "-" else "+").toList = [if exponent < 0 then '-' else '+'] := by split <;> rfl
    cases rest with
    | nil => simpa [String.toList_append, sign] using first.isNumber power negative
    | cons next rest =>
      have behind := IsTail.fraction places (List.cons_ne_nil _ _) (.inr ⟨_, rfl⟩) power
      simpa [String.toList_append, sign] using first.isNumber behind negative

theorem isNumber_marked? {x : Float} {text : String} (h : Decimal.marked? x = some text) : isNumber text.toList := by
  unfold Decimal.marked? at h
  split at h
  next negative _ _ =>
    cases h
    cases negative <;> decide
  next negative significand exponent nonzero shape =>
    cases h
    have positive : 0 < significand := Nat.pos_of_ne_zero nonzero
    rcases Decimal.shortest_digits positive .even exponent with digits | zero
    · exact isNumber_marked digits negative
    · rw [zero]
      cases negative <;> decide +kernel
  · cases h

theorem natural?_ofNat {n : Nat} (h : n < wordLimit) : (Value.ofNat n).natural? = some n := Text.word?_toString h

theorem wellFormed_ofNat (n : Nat) : (Value.ofNat n).WellFormed := .number (isNumber_toString n)

inductive IsText (text : String) : Value → Prop
  | spelled {raw : List Char} : Spells text.toList raw → IsText text (.text raw)

theorem IsText.string? {text : String} {value : Value} (h : IsText text value) : value.string? = some text := by
  obtain ⟨spelled⟩ := h
  rw [Value.string?, unescape_of_spells spelled, Option.map_some, String.ofList_toList]

theorem IsText.wellFormed {text : String} {value : Value} (h : IsText text value) : value.WellFormed := by
  obtain ⟨spelled⟩ := h
  exact .text spelled

/-- An object with these members in any order, each under a string that spells its name. -/
inductive IsObject (fields : List (String × Value)) : Value → Prop
  | members {spelled : List (String × List Char × Value)} : (∀ member ∈ spelled, Spells member.1.toList member.2.1) →
      (spelled.map fun member => (member.1, member.2.2)).Perm fields → IsObject fields (.object (spelled.map (·.2)))

def IsNatural (n : Nat) (value : Value) : Prop := value = .ofNat n

variable {fields : List (String × Value)} {value : Value}

theorem IsObject.wellFormed (h : IsObject fields value) (inner : ∀ field ∈ fields, field.2.WellFormed) :
    value.WellFormed := by
  obtain ⟨names, perm⟩ := h
  have values := List.forall_mem_map.mp fun field listed => inner field (perm.mem_iff.mp listed)
  exact .object (List.forall_mem_map.mpr fun member listed => ⟨_, names member listed⟩) (List.forall_mem_map.mpr values)

theorem isText_ofString (text : String) : IsText text (.ofString text) := .spelled (spells_escape text.toList)

theorem isObject_ofMembers {ordered : List (String × Value)} (perm : ordered.Perm fields) :
    IsObject fields (.ofMembers ordered) := by
  have object := @IsObject.members fields (ordered.map fun field => (field.1, escape field.1.toList, field.2))
    (List.forall_mem_map.mpr fun field _ => spells_escape field.1.toList)
    (by simpa [Function.comp_def] using perm)
  rwa [List.map_map] at object

end Json

end FragmentSearch
