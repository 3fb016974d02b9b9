import FragmentSearch.Stream
import FragmentSearch.Proofs.StreamLines
import FragmentSearch.Proofs.TextBytes

namespace FragmentSearch

def Text.readLine? : List UInt8 → Option (List UInt8 × List UInt8)
  | [] => none
  | byte :: bytes =>
    if byte = lineFeed then some ([byte], bytes)
    else match readLine? bytes with
      | none => some ([byte], [])
      | some (line, ahead) => some (byte :: line, ahead)

theorem Text.readLine?_eq_none {bytes : List UInt8} (h : readLine? bytes = none) : bytes = [] := by
  cases bytes with
  | nil => rfl
  | cons byte bytes => grind [readLine?]

theorem Text.length_lt_of_readLine? {bytes line ahead : List UInt8} (h : readLine? bytes = some (line, ahead)) :
    ahead.length < bytes.length := by
  fun_induction readLine? bytes generalizing line with grind

theorem Text.cutLines_of_readLine? {bytes line ahead : List UInt8} (h : readLine? bytes = some (line, ahead)) :
    cutLines bytes = line :: cutLines ahead := by
  fun_induction readLine? bytes generalizing line with
  | case1 => cases h
  | case2 bytes => cases h; rfl
  | case3 byte bytes other last =>
    cases h
    rw [readLine?_eq_none last, cutLines_unended (by simpa using Ne.symm other) (List.cons_ne_nil _ _)]
    rfl
  | case4 byte bytes other line rest found ih =>
    cases h
    rw [cutLines_cons, ih found, prependByte_of_ne other]

/-- A reader in a stream: the bytes that are still ahead, and what it has counted in those behind it. -/
structure LineReader where
  ahead : List UInt8
  lines : Nat
  skipped : Nat
deriving DecidableEq

namespace LineReader

variable {α : Type} (decode : String → Except LineFault (Option α)) (reader : LineReader)

def next (reader : LineReader) : Option α × LineReader :=
  match h : Text.readLine? reader.ahead with
  | none => (none, reader)
  | some (line, ahead) =>
    have := Text.length_lt_of_readLine? h
    match Text.lineText? line with
    | none => next ⟨ahead, reader.lines + 1, reader.skipped + 1⟩
    | some text =>
      match decode text with
      | .ok (some value) => (some value, ⟨ahead, reader.lines + 1, reader.skipped⟩)
      | .ok none => next ⟨ahead, reader.lines + 1, reader.skipped⟩
      | .error _ => next ⟨ahead, reader.lines + 1, reader.skipped + 1⟩
termination_by reader.ahead.length

theorem length_lt_of_next {after : LineReader} {value : α} (h : next decode reader = (some value, after)) :
    after.ahead.length < reader.ahead.length := by
  fun_induction next decode reader with
  | case1 => cases h
  | case2 reader line ahead read shorter _ ih => exact Nat.lt_trans (ih h) shorter
  | case3 reader line ahead read shorter => cases h; exact shorter
  | case4 reader line ahead read shorter _ _ _ ih => exact Nat.lt_trans (ih h) shorter
  | case5 reader line ahead read shorter _ _ _ _ ih => exact Nat.lt_trans (ih h) shorter

def drain (reader : LineReader) : List (Nat × Nat × α) × LineReader :=
  match h : next decode reader with
  | (none, last) => ([], last)
  | (some value, after) =>
    have := length_lt_of_next decode reader h
    let (found, last) := drain after
    ((after.lines, after.skipped, value) :: found, last)
termination_by reader.ahead.length

variable {decode} {reader} {line ahead : List UInt8}

def pass (reader : LineReader) (ahead : List UInt8) (entry : Entry α) : LineReader :=
  ⟨ahead, reader.lines + 1, reader.skipped + (if entry.isMalformed then 1 else 0)⟩

theorem lines_pass (reader : LineReader) (ahead : List UInt8) (entry : Entry α) (entries : List (Entry α)) :
    (reader.pass ahead entry).lines + entries.length = reader.lines + (entry :: entries).length := by
  simp only [pass, List.length_cons]
  omega

theorem skipped_pass (reader : LineReader) (ahead : List UInt8) (entry : Entry α) (entries : List (Entry α)) :
    (reader.pass ahead entry).skipped + entries.countP Entry.isMalformed =
      reader.skipped + (entry :: entries).countP Entry.isMalformed := by
  simp only [pass, List.countP_cons]
  omega

theorem next_end (h : Text.readLine? reader.ahead = none) : next decode reader = (none, reader) := by
  rw [next]
  split
  case h_1 => rfl
  case h_2 line ahead read => cases h.symm.trans read

theorem next_line (h : Text.readLine? reader.ahead = some (line, ahead)) :
    next decode reader =
      match Entry.ofLine decode line with
      | .item value => (some value, reader.pass ahead (.item value))
      | entry => next decode (reader.pass ahead entry) := by
  rw [next]
  split
  case h_1 ended => cases h.symm.trans ended
  case h_2 line ahead read =>
    cases h.symm.trans read
    rw [Entry.ofLine]
    cases Text.lineText? line with
    | none => rfl
    | some text =>
      dsimp only
      cases decode text with
      | error fault => rfl
      | ok value? => cases value? <;> rfl

theorem drain_eq (reader : LineReader) :
    drain decode reader =
      match next decode reader with
      | (none, last) => ([], last)
      | (some value, after) =>
        ((after.lines, after.skipped, value) :: (drain decode after).1, (drain decode after).2) := by
  rw [drain]
  split
  case h_1 last ended => rw [ended]
  case h_2 value after found => simp only [found]

theorem drain_end (h : Text.readLine? reader.ahead = none) : drain decode reader = ([], reader) := by
  rw [drain_eq, next_end h]

theorem drain_line (h : Text.readLine? reader.ahead = some (line, ahead)) :
    drain decode reader =
      match Entry.ofLine decode line with
      | .item value =>
        let after := reader.pass ahead (.item value)
        ((after.lines, after.skipped, value) :: (drain decode after).1, (drain decode after).2)
      | entry => drain decode (reader.pass ahead entry) := by
  rw [drain_eq, next_line h]
  cases Entry.ofLine decode line with
  | item value => rfl
  | blank => exact (drain_eq _).symm
  | malformed fault => exact (drain_eq _).symm

end LineReader

namespace Reading

variable {α : Type}

def progressFrom (lines skipped : Nat) : List (Entry α) → List (Nat × Nat × α)
  | [] => []
  | .item value :: rest => (lines + 1, skipped, value) :: progressFrom (lines + 1) skipped rest
  | .blank :: rest => progressFrom (lines + 1) skipped rest
  | .malformed _ :: rest => progressFrom (lines + 1) (skipped + 1) rest

theorem progress_eq (reading : Reading α) : reading.progress = progressFrom 0 0 reading.entries := by
  unfold progress
  extract_lets visit
  have run (entries : List (Entry α)) (lines skipped : Nat) (found : List (Nat × Nat × α)) :
      (entries.foldl visit (lines, skipped, found)).2.2.reverse =
        found.reverse ++ progressFrom lines skipped entries := by
    induction entries generalizing lines skipped found with
    | nil => rw [List.foldl_nil, progressFrom, List.append_nil]
    | cons entry entries ih =>
      cases entry with
      | item value => simp [visit, ih, progressFrom]
      | blank => exact ih (lines + 1) skipped found
      | malformed fault => exact ih (lines + 1) (skipped + 1) found
  exact run reading.entries 0 0 []

theorem values_progressFrom (lines skipped : Nat) (entries : List (Entry α)) :
    (progressFrom lines skipped entries).map (·.2.2) = entries.filterMap Entry.item? := by
  fun_induction progressFrom lines skipped entries with
  | case1 => rfl
  | case2 lines skipped value rest ih => exact congrArg (value :: ·) ih
  | case3 lines skipped rest ih => rw [ih, List.filterMap_cons_none rfl]
  | case4 lines skipped fault rest ih => rw [ih, List.filterMap_cons_none rfl]

theorem values_progress (reading : Reading α) : reading.progress.map (·.2.2) = reading.items := by
  rw [progress_eq, values_progressFrom, items]

end Reading

namespace LineReader

variable {α : Type} {decode : String → Except LineFault (Option α)}

theorem drain_entries (reader : LineReader) {entries : List (Entry α)}
    (h : (Text.cutLines reader.ahead).map (Entry.ofLine decode) = entries) :
    drain decode reader = (Reading.progressFrom reader.lines reader.skipped entries,
      ⟨[], reader.lines + entries.length, reader.skipped + entries.countP Entry.isMalformed⟩) := by
  induction entries generalizing reader with
  | nil =>
    have ended := List.map_eq_nil_iff.mp h
    cases read : Text.readLine? reader.ahead with
    | none => rw [drain_end read, Reading.progressFrom, ← Text.readLine?_eq_none read]; rfl
    | some read' => simp [Text.cutLines_of_readLine? read] at ended
  | cons entry entries ih =>
    cases read : Text.readLine? reader.ahead with
    | none => simp [Text.readLine?_eq_none read, Text.cutLines] at h
    | some read' =>
      obtain ⟨line, ahead⟩ := read'
      rw [Text.cutLines_of_readLine? read, List.map_cons, List.cons.injEq] at h
      obtain ⟨rfl, rest⟩ := h
      have step := ih (reader.pass ahead (Entry.ofLine decode line)) rest
      rw [lines_pass, skipped_pass] at step
      rw [drain_line read]
      cases entry : Entry.ofLine decode line with
      | item value =>
        rw [entry] at step
        simp only [step]
        rfl
      | blank => rw [entry] at step; exact step
      | malformed fault => rw [entry] at step; exact step

end LineReader

namespace Entry

variable {α : Type} {decode : String → Except LineFault (Option α)} {line : List UInt8}

inductive Belongs (decode : String → Except LineFault (Option α)) (line : List UInt8) : Entry α → Prop where
  | item {text : String} {value : α} :
      Text.TextOf line text → decode text = .ok (some value) → Belongs decode line (.item value)
  | blank {text : String} : Text.TextOf line text → decode text = .ok none → Belongs decode line .blank
  | undecoded {text : String} {fault : LineFault} :
      Text.TextOf line text → decode text = .error fault → Belongs decode line (.malformed fault)
  | notUtf8 : (∀ text : String, line ≠ text.toUTF8.toList) → Belongs decode line (.malformed .notUtf8)

theorem belongs_ofLine (decode : String → Except LineFault (Option α)) (line : List UInt8) :
    Belongs decode line (ofLine decode line) := by
  rw [ofLine]
  cases read : Text.lineText? line with
  | none => exact .notUtf8 (Text.lineText?_eq_none_iff.mp read)
  | some text =>
    have written := Text.lineText?_eq_some_iff.mp read
    dsimp only
    cases decoded : decode text with
    | error fault => exact .undecoded written decoded
    | ok value? =>
      cases value? with
      | none => exact .blank written decoded
      | some value => exact .item written decoded

theorem belongs_iff {entry : Entry α} : Belongs decode line entry ↔ ofLine decode line = entry := by
  constructor
  · intro h
    cases h with
    | item written decoded => simp only [ofLine, Text.lineText?_eq_some_iff.mpr written, decoded]
    | blank written decoded => simp only [ofLine, Text.lineText?_eq_some_iff.mpr written, decoded]
    | undecoded written decoded => simp only [ofLine, Text.lineText?_eq_some_iff.mpr written, decoded]
    | notUtf8 other => simp only [ofLine, Text.lineText?_eq_none_iff.mpr other]
  · rintro rfl
    exact belongs_ofLine decode line

def isBlank : Entry α → Bool
  | .blank => true
  | _ => false

theorem length_eq (entries : List (Entry α)) :
    entries.length = (entries.filterMap item?).length + entries.countP isMalformed + entries.countP isBlank := by
  induction entries with
  | nil => rfl
  | cons entry entries ih =>
    rw [List.length_cons, ih]
    cases entry with
    | item value =>
      rw [List.filterMap_cons_some (show item? (.item value) = some value from rfl), List.length_cons,
        List.countP_cons_of_neg (by simp [isMalformed]), List.countP_cons_of_neg (by simp [isBlank])]
      omega
    | blank =>
      rw [List.filterMap_cons_none rfl, List.countP_cons_of_neg (by simp [isMalformed]),
        List.countP_cons_of_pos rfl]
      omega
    | malformed fault =>
      rw [List.filterMap_cons_none rfl, List.countP_cons_of_pos rfl,
        List.countP_cons_of_neg (by simp [isBlank])]
      omega

def ofStream (decode : String → Except LineFault (Option α)) (bytes : List UInt8) : List (Entry α) :=
  (Text.cutLines bytes).map (ofLine decode)

variable {before bad after : List UInt8} {fault : LineFault}

theorem ofStream_append (h : Text.AtLineEnd before after) :
    ofStream decode (before ++ after) = ofStream decode before ++ ofStream decode after := by
  rw [ofStream, Text.cutLines_append h, List.map_append]
  rfl

theorem ofStream_insert (first : Text.AtLineEnd before (bad ++ after)) (second : Text.AtLineEnd bad after)
    (single : Text.LinesOf bad [bad]) (malformed : Belongs decode bad (.malformed fault)) :
    ofStream decode (before ++ (bad ++ after)) =
      ofStream decode before ++ .malformed fault :: ofStream decode after := by
  have alone : ofStream decode bad = [.malformed fault] := by
    rw [ofStream, ← single.eq_cutLines, List.map_singleton, belongs_iff.mp malformed]
  rw [ofStream_append first, ofStream_append second, alone, List.singleton_append]

end Entry

namespace LineReader

variable {α : Type}

theorem drain_feed (decode : String → Except LineFault (Option α)) (bytes : List UInt8) :
    let reading := Feed.read decode ⟨bytes, none⟩
    drain decode ⟨bytes, 0, 0⟩ = (reading.progress, ⟨[], reading.lines, reading.skipped⟩) := by
  intro reading
  have entries : Entry.ofStream decode bytes = reading.entries := rfl
  rw [drain_entries ⟨bytes, 0, 0⟩ entries, Reading.progress_eq, Reading.lines, Reading.skipped, Nat.zero_add,
    Nat.zero_add]

theorem values_drain (decode : String → Except LineFault (Option α)) (bytes : List UInt8) :
    (drain decode ⟨bytes, 0, 0⟩).1.map (·.2.2) = (Entry.ofStream decode bytes).filterMap Entry.item? := by
  rw [drain_feed]
  exact Reading.values_progress _

theorem last_drain (decode : String → Except LineFault (Option α)) (bytes : List UInt8) :
    (drain decode ⟨bytes, 0, 0⟩).2 =
      ⟨[], (Entry.ofStream decode bytes).length, (Entry.ofStream decode bytes).countP Entry.isMalformed⟩ := by
  rw [drain_feed]
  rfl

/-- A reader at the start of a stream finds the items that belong to its lines, in their order, and counts all lines and
the malformed ones; every other line is blank or a comment. One more malformed line between two lines changes the
counts only. -/
theorem drain_stream (decode : String → Except LineFault (Option α)) :
    (∀ bytes lines, Text.LinesOf bytes lines ↔ lines = Text.cutLines bytes) ∧
    (∀ line entry, Entry.Belongs decode line entry ↔ Entry.ofLine decode line = entry) ∧
    (∀ bytes : List UInt8,
      let entries := (Text.cutLines bytes).map (Entry.ofLine decode)
      let reading := Feed.read decode ⟨bytes, none⟩
      let drained := drain decode ⟨bytes, 0, 0⟩
      drained = (reading.progress, ⟨[], reading.lines, reading.skipped⟩) ∧
        drained.1.map (·.2.2) = entries.filterMap Entry.item? ∧ reading.items = entries.filterMap Entry.item? ∧
        reading.lines = entries.length ∧ reading.skipped = entries.countP Entry.isMalformed ∧
        reading.lines = reading.items.length + reading.skipped + entries.countP Entry.isBlank) ∧
    ∀ (before bad after : List UInt8) (fault : LineFault), Text.AtLineEnd before (bad ++ after) →
      Text.AtLineEnd bad after → Text.LinesOf bad [bad] → Entry.Belongs decode bad (.malformed fault) →
      let drained := drain decode ⟨before ++ after, 0, 0⟩
      let noisy := drain decode ⟨before ++ (bad ++ after), 0, 0⟩
      noisy.1.map (·.2.2) = drained.1.map (·.2.2) ∧
        noisy.2 = ⟨[], drained.2.lines + 1, drained.2.skipped + 1⟩ := by
  refine ⟨fun _ _ => Text.linesOf_iff, fun _ _ => Entry.belongs_iff, ?_, ?_⟩
  · intro bytes entries reading drained
    exact ⟨drain_feed decode bytes, values_drain decode bytes, rfl, rfl, rfl, Entry.length_eq entries⟩
  · intro before bad after fault first second single malformed drained noisy
    have between : Text.AtLineEnd before after := first.of_append (single.filled bad List.mem_cons_self)
    have without : Entry.ofStream decode (before ++ after) = _ := Entry.ofStream_append between
    have within := Entry.ofStream_insert first second single malformed
    constructor
    · rw [values_drain, values_drain, without, within, List.filterMap_append, List.filterMap_append,
        List.filterMap_cons_none rfl]
    · have counted : Entry.isMalformed (.malformed fault : Entry α) = true := rfl
      rw [last_drain, last_drain, without, within]
      simp only [List.length_append, List.length_cons, List.countP_append, List.countP_cons_of_pos counted]
      rfl

theorem drain_noise :
    let before := "512\ta\t1\n".toUTF8.toList
    let bad : List UInt8 := [0x38, 0xFF, 0x0D, 0x0A]
    let after := "4700\tb\t3W\r\r\n# end".toUTF8.toList
    Text.AtLineEnd before (bad ++ after) ∧ Text.AtLineEnd bad after ∧ Text.LinesOf bad [bad] ∧
      Entry.Belongs Observation.read? bad (.malformed .notUtf8) ∧
      ((drain Observation.read? ⟨before ++ (bad ++ after), 0, 0⟩).1.map (·.2.2)).map (·.hash) = ["a", "b"] ∧
      (drain Observation.read? ⟨before ++ (bad ++ after), 0, 0⟩).2 = ⟨[], 4, 1⟩ := by
  intro before bad after
  have first : Text.AtLineEnd before (bad ++ after) := .inr (.inl (by decide +kernel))
  have second : Text.AtLineEnd bad after := .inr (.inl (by decide +kernel))
  have single : Text.LinesOf bad [bad] := Text.linesOf_iff.mpr (by decide +kernel)
  have malformed : Entry.Belongs Observation.read? bad (.malformed .notUtf8) :=
    .notUtf8 (Text.lineText?_eq_none_iff.mp (by decide +kernel))
  obtain ⟨-, -, clean, noisy⟩ := drain_stream Observation.read?
  obtain ⟨drained, values, -⟩ := clean (before ++ after)
  obtain ⟨sameValues, counts⟩ := noisy before bad after .notUtf8 first second single malformed
  refine ⟨first, second, single, malformed, ?_, ?_⟩
  · rw [sameValues, values]
    decide +kernel
  · rw [counts, drained]
    decide +kernel

end LineReader

end FragmentSearch
