import FragmentSearch.Text

namespace FragmentSearch.Text

theorem toList_loop (bytes : ByteArray) (place : Nat) (seen : List UInt8) :
    ByteArray.toList.loop bytes place seen = seen.reverse ++ bytes.data.toList.drop place := by
  fun_induction ByteArray.toList.loop bytes place seen with
  | case1 place seen h ih =>
    have inside : place < bytes.data.toList.length := h
    rw [ih, List.drop_eq_getElem_cons inside, List.reverse_cons, List.append_assoc, List.singleton_append,
      Array.getElem_toList, ByteArray.get!, getElem!_pos bytes.data place h]
  | case2 place seen h =>
    rw [List.drop_eq_nil_of_le (Nat.le_of_not_lt h), List.append_nil]

theorem toList_bytes (bytes : ByteArray) : bytes.toList = bytes.data.toList := by
  rw [ByteArray.toList, toList_loop, List.reverse_nil, List.nil_append, List.drop_zero]

theorem toList_toByteArray (bytes : List UInt8) : bytes.toByteArray.toList = bytes := by
  rw [toList_bytes, List.toList_data_toByteArray]

theorem toByteArray_toList (bytes : ByteArray) : bytes.toList.toByteArray = bytes := by
  apply ByteArray.ext
  rw [toList_bytes, List.data_toByteArray]

theorem toList_toUTF8 (text : List Char) :
    (String.ofList text).toUTF8.toList = text.flatMap String.utf8EncodeChar := by
  rw [toList_bytes, String.toUTF8, String.toByteArray_ofList, List.utf8Encode, List.toList_data_toByteArray]

theorem toUTF8_append (first second : String) :
    (first ++ second).toUTF8.toList = first.toUTF8.toList ++ second.toUTF8.toList := by
  simp only [toList_bytes, String.toUTF8, String.toByteArray_append, ByteArray.data_append, Array.toList_append]

theorem fromUTF8?_eq_some_iff {bytes : List UInt8} {text : String} :
    String.fromUTF8? bytes.toByteArray = some text ↔ bytes = text.toUTF8.toList := by
  rw [String.fromUTF8?]
  constructor
  · intro h
    split at h
    · cases h
      exact (toList_toByteArray bytes).symm
    · cases h
  · rintro rfl
    rw [toByteArray_toList]
    exact dif_pos text.isValidUTF8

theorem fromUTF8?_eq_none_iff {bytes : List UInt8} :
    String.fromUTF8? bytes.toByteArray = none ↔ ∀ text : String, bytes ≠ text.toUTF8.toList := by
  simp only [Option.eq_none_iff_forall_ne_some, ne_eq, fromUTF8?_eq_some_iff]

theorem toNat_of_mem_utf8EncodeChar {c : Char} {byte : UInt8} (h : byte ∈ String.utf8EncodeChar c)
    (ascii : byte.toNat < 128) : byte.toNat = c.toNat := by
  have value : c.toNat = c.val.toNat := rfl
  revert h
  fun_cases String.utf8EncodeChar c <;> simp only [List.mem_cons, List.not_mem_nil, or_false]
  · rintro rfl
    simp only [UInt8.toNat_ofNat']
    omega
  all_goals
    rintro h
    simp only [← UInt8.toNat_inj, UInt8.toNat_ofNat'] at h
    omega

theorem lineFeed_mem_utf8EncodeChar {c : Char} : lineFeed ∈ String.utf8EncodeChar c ↔ c = '\n' := by
  constructor
  · intro h
    have same := toNat_of_mem_utf8EncodeChar h (by decide)
    exact Char.toNat_inj.mp same.symm
  · rintro rfl
    decide

theorem lineFeed_not_mem_toUTF8 {text : String} (plain : '\n' ∉ text.toList) : lineFeed ∉ text.toUTF8.toList := by
  rw [← text.ofList_toList, toList_toUTF8, List.mem_flatMap]
  rintro ⟨c, member, byte⟩
  exact plain (lineFeed_mem_utf8EncodeChar.mp byte ▸ member)

structure TextOf (line : List UInt8) (text : String) : Prop where
  bytes : ∃ ends, (∀ c ∈ ends, isLineEnd c) ∧ line = (String.ofList (text.toList ++ ends)).toUTF8.toList
  stripped : ∀ c ∈ text.toList.getLast?, ¬isLineEnd c

theorem lineText?_eq_some_iff {line : List UInt8} {text : String} : lineText? line = some text ↔ TextOf line text := by
  simp only [lineText?, Option.map_eq_some_iff, fromUTF8?_eq_some_iff]
  constructor
  · rintro ⟨whole, rfl, rfl⟩
    obtain ⟨⟨ends, allEnds, split⟩, last⟩ := dropEndWhile_eq_iff.mp (rfl : dropEndWhile isLineEnd whole.toList = _)
    refine ⟨⟨ends, allEnds, ?_⟩, ?_⟩
    · rw [String.toList_ofList, ← split, String.ofList_toList]
    · rwa [String.toList_ofList]
  · rintro ⟨⟨ends, allEnds, rfl⟩, last⟩
    refine ⟨_, rfl, ?_⟩
    rw [String.toList_ofList, dropEndWhile_eq_iff.mpr ⟨⟨ends, allEnds, rfl⟩, last⟩, String.ofList_toList]

theorem lineText?_eq_none_iff {line : List UInt8} :
    lineText? line = none ↔ ∀ text : String, line ≠ text.toUTF8.toList := by
  rw [lineText?, Option.map_eq_none_iff, fromUTF8?_eq_none_iff]

end FragmentSearch.Text
