import LogicNet.Cube.Reader
import LogicNet.Proofs.Computation
import LogicNet.Proofs.LinesAndFields
import Mathlib.Data.List.ReduceOption

/-! # The format of cube lists

The format is said line by line here: which rows are blank or hold a cube, and what is wrong with any other
line.  A list is read exactly if nothing is wrong with its lines and some row holds a cube.  Otherwise the
first line with which something is wrong says why not.  What comes after the end of the list never counts.
-/

namespace LogicNet.Cube

open Text (HasFields HasLines newline withoutReturn)

/-- The bytes of a line are the characters of a row in UTF-8. -/
def Encodes (row : List Char) (line : List UInt8) : Prop := row.flatMap String.utf8EncodeChar = line

instance (row : List Char) (line : List UInt8) : Decidable (Encodes row line) :=
  inferInstanceAs (Decidable (_ = _))

/-- What a character of a cube says about the literal of its input. -/
inductive Denotes : Char → Option Bool → Prop
  | negative : Denotes '0' (some false)
  | positive : Denotes '1' (some true)
  | absent {c : Char} (notZero : c ≠ '0') (notOne : c ≠ '1') : Denotes c none

/-- A row is blank, or its two fields are a cube with one character per input and the output `0`. -/
inductive Row (numInputs : Nat) : List Char → Option Cube → Prop
  | blank {row : List Char} (fields : HasFields row []) : Row numInputs row none
  | cube {row word : List Char} {cube : Cube} (fields : HasFields row [word, ['0']])
    (width : word.length = numInputs) (literals : List.Forall₂ Denotes word cube) :
    Row numInputs row (some cube)

/-- What is wrong with a row.  The number of fields is looked at first, then the cube, then the output. -/
inductive BadRow (numInputs : Nat) : List Char → CubeError → Prop
  | missingOutput {row word : List Char} (fields : HasFields row [word]) :
    BadRow numInputs row .missingOutput
  | unexpectedField {row word output extra : List Char} {rest : List (List Char)}
    (fields : HasFields row (word :: output :: extra :: rest)) :
    BadRow numInputs row (.unexpectedField extra)
  | wrongWidth {row word output : List Char} (fields : HasFields row [word, output])
    (width : word.length ≠ numInputs) : BadRow numInputs row (.wrongWidth word numInputs)
  | outputNotOffset {row word output : List Char} (fields : HasFields row [word, output])
    (width : word.length = numInputs) (value : output ≠ ['0']) :
    BadRow numInputs row (.outputNotOffset output)

/-- A line that holds a row of the format. -/
def Entry (numInputs : Nat) (line : List UInt8) (entry : Option Cube) : Prop :=
  ∃ row, Encodes row line ∧ Row numInputs row entry

/-- What is wrong with the line of a given number: it is no text, or it is past the header and holds no row
of the format. -/
inductive Offends (numInputs : Nat) : Nat → List UInt8 → NetworkError → Prop
  | invalidText {number : Nat} {line : List UInt8} (invalid : ∀ row, ¬ Encodes row line) :
    Offends numInputs number line (.input .invalidText)
  | badRow {number : Nat} {line : List UInt8} {row : List Char} {cause : CubeError}
    (data : headerLines < number) (text : Encodes row line) (bad : BadRow numInputs row cause) :
    Offends numInputs number line (.parse number cause)

/-- Nothing is wrong with any line. -/
def Faultless (numInputs : Nat) (lines : List (List UInt8)) : Prop :=
  ∀ i line, lines[i]? = some line → ∀ e, ¬ Offends numInputs (i + 1) line e

/-- What is wrong with the first line with which something is wrong. -/
def FirstOffence (numInputs : Nat) (lines : List (List UInt8)) (e : NetworkError) : Prop :=
  ∃ i line, lines[i]? = some line ∧ Offends numInputs (i + 1) line e ∧ Faultless numInputs (lines.take i)

/-- The line is text that begins with `.end`. -/
def EndsList (line : List UInt8) : Prop := ∃ row, Encodes row line ∧ endMarker <+: row

/-- The lines that count: the header lines, and the lines after them up to the first that ends the list. -/
structure Parts (lines header data : List (List UInt8)) : Prop where
  header : header = lines.take headerLines
  data : ∃ rest, lines.drop headerLines = data ++ rest ∧ (∀ line ∈ data, ¬ EndsList line) ∧
    ∀ line ∈ rest.head?, EndsList line

variable {numInputs number : Nat} {row : List Char} {line : List UInt8} {entry : Option Cube}
  {cause : CubeError} {e : NetworkError} {lines header data front rest rest' : List (List UInt8)}
  {entries : List (Option Cube)}

section rows

theorem decodeLine_eq_ok : decodeLine line = .ok row ↔ Encodes row line := by
  have encode (row : List Char) : row.utf8Encode = ⟨line.toArray⟩ ↔ Encodes row line := by
    rw [List.utf8Encode, ByteArray.ext_iff, List.data_toByteArray, Array.mk.injEq, Encodes]
  unfold decodeLine String.fromUTF8?
  by_cases valid : ByteArray.IsValidUTF8 ⟨line.toArray⟩
  · rw [dif_pos valid, ← encode, ← String.toByteArray_ofList]
    constructor
    · rintro ⟨⟩
      rw [String.ofList_toList]
      rfl
    · intro h
      have same : String.ofList row = String.fromUTF8 ⟨line.toArray⟩ valid := String.toByteArray_inj.1 h
      simp [← same]
  · rw [dif_neg valid]
    refine iff_of_false (fun h => by cases h) fun h => valid ?_
    rw [← (encode row).2 h]
    exact ByteArray.isValidUTF8_utf8Encode

theorem decodeLine_eq_error : decodeLine line = .error e ↔
    e = .input .invalidText ∧ ∀ row, ¬ Encodes row line := by
  simp only [← decodeLine_eq_ok]
  unfold decodeLine
  cases String.fromUTF8? ⟨line.toArray⟩ with
  | none => simp [eq_comm]
  | some s => simp

theorem Encodes.unique {row' : List Char} (h : Encodes row line) (h' : Encodes row' line) : row = row' :=
  Except.ok.inj ((decodeLine_eq_ok.2 h).symm.trans (decodeLine_eq_ok.2 h'))

theorem denotes_iff {c : Char} {l : Option Bool} : Denotes c l ↔ literalOfChar c = l := by
  constructor
  · rintro (_ | _ | ⟨notZero, notOne⟩)
    · rfl
    · rfl
    · unfold literalOfChar
      split
      · exact absurd rfl notZero
      · exact absurd rfl notOne
      · rfl
  · rintro rfl
    unfold literalOfChar
    split
    · exact .negative
    · exact .positive
    · next notZero notOne => exact .absent notZero notOne

theorem ofChars_eq_iff {word : List Char} {cube : Cube} :
    ofChars word = cube ↔ List.Forall₂ Denotes word cube := by
  have each : ofChars word = cube ↔ List.Forall₂ (· = ·) (ofChars word) cube := by
    rw [List.forall₂_eq_eq_eq]
  rw [each, ofChars, List.forall₂_map_left_iff]
  exact ⟨.imp fun _ _ => denotes_iff.2, .imp fun _ _ => denotes_iff.1⟩

/-- A row holds what is read from it, or what is reported is wrong with it. -/
theorem ofRow?_spec (numInputs : Nat) (row : List Char) :
    (∃ entry, ofRow? numInputs row = .ok entry ∧ Row numInputs row entry) ∨
      ∃ cause, ofRow? numInputs row = .error cause ∧ BadRow numInputs row cause := by
  obtain ⟨found, fields⟩ := Text.exists_hasFields row
  rcases found with _ | ⟨word, _ | ⟨output, _ | ⟨extra, rest⟩⟩⟩
  · exact .inl ⟨none, by rw [ofRow?, fields.fields_eq], .blank fields⟩
  · exact .inr ⟨.missingOutput, by rw [ofRow?, fields.fields_eq], .missingOutput fields⟩
  · by_cases width : word.length = numInputs
    · by_cases value : output = ['0']
      · subst value
        refine .inl ⟨some (ofChars word), ?_, .cube fields width (ofChars_eq_iff.1 rfl)⟩
        simp [ofRow?, fields.fields_eq, width]
      · refine .inr ⟨.outputNotOffset output, ?_, .outputNotOffset fields width value⟩
        simp [ofRow?, fields.fields_eq, width, value]
    · refine .inr ⟨.wrongWidth word numInputs, ?_, .wrongWidth fields width⟩
      simp [ofRow?, fields.fields_eq, width]
  · exact .inr ⟨.unexpectedField extra, by rw [ofRow?, fields.fields_eq], .unexpectedField fields⟩

theorem ofRow?_eq_ok_iff : ofRow? numInputs row = .ok entry ↔ Row numInputs row entry := by
  constructor
  · intro h
    rcases ofRow?_spec numInputs row with ⟨entry', h', holds⟩ | ⟨cause, h', _⟩
    · cases h.symm.trans h'
      exact holds
    · cases h.symm.trans h'
  · rintro (fields | ⟨fields, width, literals⟩)
    · rw [ofRow?, fields.fields_eq]
    · simp [ofRow?, fields.fields_eq, width, ofChars_eq_iff.2 literals]

theorem ofRow?_eq_error_iff : ofRow? numInputs row = .error cause ↔ BadRow numInputs row cause := by
  constructor
  · intro h
    rcases ofRow?_spec numInputs row with ⟨entry, h', _⟩ | ⟨cause', h', bad⟩
    · cases h.symm.trans h'
    · cases h.symm.trans h'
      exact bad
  · rintro (fields | fields | ⟨fields, width⟩ | ⟨fields, width, value⟩)
    · rw [ofRow?, fields.fields_eq]
    · rw [ofRow?, fields.fields_eq]
    · simp [ofRow?, fields.fields_eq, width]
    · simp [ofRow?, fields.fields_eq, width, value]

end rows

section judging

/-- What a numbered line holds: nothing if it belongs to the header, otherwise what its row holds. -/
def judge (numInputs : Nat) (numbered : List UInt8 × Nat) : Except NetworkError (Option Cube) := do
  let row ← decodeLine numbered.1
  if numbered.2 ≤ headerLines then .ok none
  else (ofRow? numInputs row).mapError (.parse numbered.2)

theorem judge_header (h : number ≤ headerLines) :
    judge numInputs (line, number) = .ok entry ↔ (∃ row, Encodes row line) ∧ entry = none := by
  simp only [judge, h, if_true, bind_eq_ok, decodeLine_eq_ok, Except.ok.injEq, exists_and_right,
    eq_comm (a := none)]

theorem judge_data (h : headerLines < number) :
    judge numInputs (line, number) = .ok entry ↔ Entry numInputs line entry := by
  simp only [judge, Nat.not_le.2 h, if_false, bind_eq_ok, decodeLine_eq_ok, Entry]
  refine exists_congr fun row => and_congr_right fun _ => ?_
  rw [← ofRow?_eq_ok_iff]
  cases ofRow? numInputs row <;> simp [Except.mapError]

theorem judge_eq_error_iff :
    judge numInputs (line, number) = .error e ↔ Offends numInputs number line e := by
  constructor
  · intro h
    cases text : decodeLine line with
    | error e' =>
      rw [judge, text] at h
      cases h
      obtain ⟨rfl, invalid⟩ := decodeLine_eq_error.1 text
      exact .invalidText invalid
    | ok row =>
      rw [judge, text, ok_bind] at h
      split at h
      · cases h
      · next data =>
        cases holds : ofRow? numInputs row with
        | ok entry => rw [holds] at h; cases h
        | error cause =>
          rw [holds] at h
          cases h
          exact .badRow (Nat.not_le.1 data) (decodeLine_eq_ok.1 text) (ofRow?_eq_error_iff.1 holds)
  · rintro (invalid | ⟨data, text, bad⟩)
    · rw [judge, decodeLine_eq_error.2 ⟨rfl, invalid⟩]
      rfl
    · rw [judge, decodeLine_eq_ok.2 text, ok_bind, if_neg (Nat.not_le.2 data), ofRow?_eq_error_iff.2 bad]
      rfl

theorem not_offends_iff : (∀ e, ¬ Offends numInputs number line e) ↔
    ∃ entry, judge numInputs (line, number) = .ok entry := by
  simp only [← judge_eq_error_iff]
  cases judge numInputs (line, number) <;> simp

/-- What the lines of a list hold, each judged with its number. -/
def judgeAll (numInputs : Nat) (lines : List (List UInt8)) : Except NetworkError (List (Option Cube)) :=
  (lines.zipIdx 1).mapM (judge numInputs)

theorem judgeAll_eq_error_iff : judgeAll numInputs lines = .error e ↔ FirstOffence numInputs lines e := by
  have taken (i j : Nat) (line : List UInt8) :
      (lines.take i)[j]? = some line ↔ j < i ∧ lines[j]? = some line := by
    rw [List.getElem?_take, Option.ite_none_right_eq_some]
  simp only [judgeAll, mapM_eq_error_iff, List.getElem?_zipIdx, Option.map_eq_some_iff, FirstOffence]
  constructor
  · rintro ⟨i, _, ⟨line, found, rfl⟩, offends, earlier⟩
    rw [Nat.add_comm, judge_eq_error_iff] at offends
    refine ⟨i, line, found, offends, fun j other hj => not_offends_iff.2 ?_⟩
    obtain ⟨before, hj⟩ := (taken i j other).1 hj
    have judged := earlier j before _ ⟨other, hj, rfl⟩
    rwa [Nat.add_comm] at judged
  · rintro ⟨i, line, found, offends, earlier⟩
    refine ⟨i, _, ⟨line, found, rfl⟩, ?_, ?_⟩
    · rwa [Nat.add_comm, judge_eq_error_iff]
    · rintro j before _ ⟨other, hj, rfl⟩
      rw [Nat.add_comm]
      exact not_offends_iff.1 (earlier j other ((taken i j other).2 ⟨before, hj⟩))

theorem faultless_iff : Faultless numInputs lines ↔ ∃ entries, judgeAll numInputs lines = .ok entries := by
  constructor
  · intro faultless
    cases judged : judgeAll numInputs lines with
    | ok entries => exact ⟨entries, rfl⟩
    | error e =>
      obtain ⟨i, line, found, offends, _⟩ := judgeAll_eq_error_iff.1 judged
      exact absurd offends (faultless i line found e)
  · rintro ⟨entries, judged⟩ i line found
    obtain ⟨sameLength, each⟩ := List.forall₂_iff_get.1 (mapM_eq_ok_iff.1 judged)
    obtain ⟨inside, rfl⟩ := List.getElem?_eq_some_iff.1 found
    have here := each i (by rwa [List.length_zipIdx]) (by rwa [← sameLength, List.length_zipIdx])
    rw [List.get_eq_getElem, List.getElem_zipIdx, Nat.add_comm] at here
    exact not_offends_iff.2 ⟨_, here⟩

theorem mapM_judge_header (h : number + header.length ≤ headerLines + 1) :
    (header.zipIdx number).mapM (judge numInputs) = .ok entries ↔
      (∀ line ∈ header, ∃ row, Encodes row line) ∧ entries = List.replicate header.length none := by
  rw [mapM_eq_ok_iff]
  induction header generalizing number entries with
  | nil => simp
  | cons line header ih =>
    rw [List.length_cons] at h
    have first : number ≤ headerLines := by omega
    have others : number + 1 + header.length ≤ headerLines + 1 := by omega
    simp only [List.zipIdx_cons, List.forall₂_cons_left_iff, judge_header first, ih others,
      List.forall_mem_cons, List.length_cons, List.replicate_succ]
    constructor
    · rintro ⟨_, _, ⟨text, rfl⟩, ⟨texts, rfl⟩, rfl⟩
      exact ⟨⟨text, texts⟩, rfl⟩
    · rintro ⟨⟨text, texts⟩, rfl⟩
      exact ⟨_, _, ⟨text, rfl⟩, ⟨texts, rfl⟩, rfl⟩

theorem mapM_judge_data (h : headerLines < number) :
    (data.zipIdx number).mapM (judge numInputs) = .ok entries ↔
      List.Forall₂ (Entry numInputs) data entries := by
  rw [mapM_eq_ok_iff]
  induction data generalizing number entries with
  | nil => simp
  | cons line data ih =>
    simp only [List.zipIdx_cons, List.forall₂_cons_left_iff, judge_data h, ih (Nat.lt_succ_of_lt h)]

/-- The lines of the header hold nothing, and each line after them its entry. -/
theorem judgeAll_eq_ok_iff (short : header.length ≤ headerLines)
    (full : data ≠ [] → header.length = headerLines) :
    judgeAll numInputs (header ++ data) = .ok entries ↔ (∀ line ∈ header, ∃ row, Encodes row line) ∧
      ∃ found, List.Forall₂ (Entry numInputs) data found ∧
        entries = List.replicate header.length none ++ found := by
  have judged (found : List (Option Cube)) :
      (data.zipIdx (1 + header.length)).mapM (judge numInputs) = .ok found ↔
        List.Forall₂ (Entry numInputs) data found := by
    by_cases some : data = []
    · subst some
      cases found <;> simp
    · exact mapM_judge_data (by rw [full some]; omega)
  rw [judgeAll, List.zipIdx_append, List.mapM_append, bind_eq_ok]
  simp only [mapM_judge_header (show 1 + header.length ≤ headerLines + 1 by omega), bind_eq_ok, judged]
  constructor
  · rintro ⟨_, ⟨texts, rfl⟩, found, holds, ⟨⟩⟩
    exact ⟨texts, found, holds, rfl⟩
  · rintro ⟨texts, found, holds, rfl⟩
    exact ⟨_, ⟨texts, rfl⟩, found, holds, rfl⟩

end judging

section reading

theorem endsList_iff (text : decodeLine line = .ok row) :
    EndsList line ↔ endMarker.isPrefixOf row = true := by
  rw [List.isPrefixOf_iff_prefix]
  constructor
  · rintro ⟨row', text', ends⟩
    rwa [(decodeLine_eq_ok.1 text).unique text']
  · exact fun ends => ⟨row, decodeLine_eq_ok.1 text, ends⟩

theorem ofLines_of_endsList (past : headerLines < number) (ends : EndsList line)
    (rest : List (List UInt8)) : ofLines numInputs number (line :: rest) = .ok [] := by
  obtain ⟨row, text, marker⟩ := ends
  rw [ofLines, decodeLine_eq_ok.2 text, ok_bind, if_neg (Nat.not_le.2 past),
    if_pos (List.isPrefixOf_iff_prefix.2 marker)]

/-- The lines up to the end of the list are judged one by one, and their cubes are read. -/
theorem ofLines_append
    (inside : ∀ i line, front[i]? = some line → headerLines < number + i → ¬ EndsList line)
    (ends : ∀ line ∈ rest.head?, headerLines < number + front.length ∧ EndsList line) :
    ofLines numInputs number (front ++ rest) =
      List.reduceOption <$> (front.zipIdx number).mapM (judge numInputs) := by
  induction front generalizing number with
  | nil =>
    cases rest with
    | nil => rfl
    | cons line rest =>
      obtain ⟨past, marker⟩ := ends line rfl
      exact ofLines_of_endsList past marker rest
  | cons line front ih =>
    have others : ofLines numInputs (number + 1) (front ++ rest) =
        List.reduceOption <$> (front.zipIdx (number + 1)).mapM (judge numInputs) := by
      refine ih (fun i line hi hn => inside (i + 1) line hi (by omega)) fun line hline => ?_
      obtain ⟨past, marker⟩ := ends line hline
      rw [List.length_cons] at past
      exact ⟨by omega, marker⟩
    rw [List.cons_append, List.zipIdx_cons, List.mapM_cons, ofLines, judge]
    cases text : decodeLine line with
    | error e => rfl
    | ok row =>
      rw [ok_bind, ok_bind]
      by_cases data : number ≤ headerLines
      · rw [if_pos data, if_pos data, others, ok_bind]
        cases (front.zipIdx (number + 1)).mapM (judge numInputs) <;> rfl
      · have going : endMarker.isPrefixOf row ≠ true := fun marker =>
          inside 0 line rfl (Nat.not_le.1 data) ((endsList_iff text).2 marker)
        rw [if_neg data, if_neg data, if_neg going, others]
        cases ofRow? numInputs row with
        | error cause => rfl
        | ok entry =>
          cases entry <;> cases (front.zipIdx (number + 1)).mapM (judge numInputs) <;> rfl

/-- Nothing after the end of the list is read. -/
theorem ofLines_append_cons (past : headerLines < number + front.length) (ends : EndsList line)
    (rest rest' : List (List UInt8)) : ofLines numInputs number (front ++ line :: rest) =
      ofLines numInputs number (front ++ line :: rest') := by
  induction front generalizing number with
  | nil =>
    exact (ofLines_of_endsList past ends rest).trans (ofLines_of_endsList past ends rest').symm
  | cons other front ih =>
    rw [List.length_cons] at past
    simp only [List.cons_append, ofLines, ih (show headerLines < number + 1 + front.length by omega)]

theorem exists_parts (lines : List (List UInt8)) : ∃ header data, Parts lines header data := by
  classical
  let inside := fun line => !decide (EndsList line)
  refine ⟨_, (lines.drop headerLines).takeWhile inside, rfl, (lines.drop headerLines).dropWhile inside, ?_⟩
  refine ⟨List.takeWhile_append_dropWhile.symm, fun line h => ?_, fun line h => ?_⟩
  · simpa [inside] using List.mem_takeWhile_imp h
  · have stop := List.head?_dropWhile_not inside (lines.drop headerLines)
    rw [h] at stop
    simpa [inside] using stop

theorem Parts.length_le (h : Parts lines header data) : header.length ≤ headerLines := by
  rw [h.header, List.length_take]
  exact Nat.min_le_left _ _

/-- Lines past the header are there only if the header is full. -/
theorem Parts.header_full (h : Parts lines header data) (more : lines.drop headerLines ≠ []) :
    header.length = headerLines := by
  rw [h.header, List.length_take]
  rw [Ne, List.drop_eq_nil_iff] at more
  omega

theorem Parts.data_full (h : Parts lines header data) (some : data ≠ []) : header.length = headerLines := by
  obtain ⟨rest, split, _⟩ := h.data
  refine h.header_full ?_
  rw [split]
  exact List.append_ne_nil_of_left_ne_nil some rest

theorem ofLines_eq (h : Parts lines header data) :
    ofLines numInputs 1 lines = List.reduceOption <$> judgeAll numInputs (header ++ data) := by
  obtain ⟨rest, split, inside, ends⟩ := h.data
  have whole : lines = (header ++ data) ++ rest := by
    rw [List.append_assoc, ← split, h.header, List.take_append_drop]
  have short := h.length_le
  conv_lhs => rw [whole]
  refine ofLines_append (fun i line found past => ?_) fun line first => ⟨?_, ends line first⟩
  · rw [List.getElem?_append_right (by omega)] at found
    exact inside line (List.mem_of_getElem? found)
  · have full : header.length = headerLines := by
      refine h.header_full fun none => ?_
      rw [split, List.append_eq_nil_iff] at none
      rw [none.2] at first
      cases first
    rw [List.length_append]
    omega

theorem readList_eq_ok_iff {bytes : List UInt8} {cubes : List Cube} (split : HasLines bytes lines)
    (h : Parts lines header data) : readList numInputs bytes = .ok cubes ↔ ∃ entries,
      judgeAll numInputs (header ++ data) = .ok entries ∧ entries.reduceOption = cubes ∧ cubes ≠ [] := by
  rw [readList, split.lines_eq, ofLines_eq h]
  cases judgeAll numInputs (header ++ data) with
  | error e => simp
  | ok entries => cases found : entries.reduceOption <;> aesop

theorem readList_eq_error_iff {bytes : List UInt8} (split : HasLines bytes lines)
    (h : Parts lines header data) : readList numInputs bytes = .error e ↔
      judgeAll numInputs (header ++ data) = .error e ∨ (e = .emptyCover ∧
        ∃ entries, judgeAll numInputs (header ++ data) = .ok entries ∧ entries.reduceOption = []) := by
  rw [readList, split.lines_eq, ofLines_eq h]
  cases judgeAll numInputs (header ++ data) with
  | error e' => simp
  | ok entries => cases found : entries.reduceOption <;> aesop

theorem reduceOption_eq_nil_iff : entries.reduceOption = [] ↔ ∀ entry ∈ entries, entry = none := by
  rw [List.reduceOption_eq_nil_iff]
  constructor
  · rintro ⟨n, rfl⟩ entry h
    exact List.eq_of_mem_replicate h
  · exact fun h => ⟨entries.length, List.eq_replicate_of_mem h⟩

theorem forall₂_entry_none : (∃ entries, List.Forall₂ (Entry numInputs) data entries ∧
    ∀ entry ∈ entries, entry = none) ↔ ∀ line ∈ data, Entry numInputs line none := by
  induction data with
  | nil => simp
  | cons line data ih =>
    rw [List.forall_mem_cons, ← ih]
    constructor
    · rintro ⟨_, (_ | ⟨first, others⟩), none⟩
      obtain ⟨rfl, nones⟩ := List.forall_mem_cons.1 none
      exact ⟨first, _, others, nones⟩
    · rintro ⟨first, entries, others, nones⟩
      exact ⟨none :: entries, .cons first others, List.forall_mem_cons.2 ⟨rfl, nones⟩⟩

theorem judgeAll_blank_iff (parts : Parts lines header data) :
    (∃ entries, judgeAll numInputs (header ++ data) = .ok entries ∧ entries.reduceOption = []) ↔
      Faultless numInputs (header ++ data) ∧ ∀ line ∈ data, Entry numInputs line none := by
  rw [faultless_iff]
  simp only [judgeAll_eq_ok_iff parts.length_le parts.data_full, reduceOption_eq_nil_iff]
  constructor
  · rintro ⟨_, ⟨texts, found, holds, rfl⟩, nones⟩
    exact ⟨⟨_, texts, found, holds, rfl⟩,
      forall₂_entry_none.1 ⟨found, holds, fun entry h => nones entry (List.mem_append_right _ h)⟩⟩
  · rintro ⟨⟨_, texts, -⟩, blank⟩
    obtain ⟨found, holds, nones⟩ := forall₂_entry_none.2 blank
    refine ⟨_, ⟨texts, found, holds, rfl⟩, fun entry h => ?_⟩
    rcases List.mem_append.1 h with h | h
    · exact List.eq_of_mem_replicate h
    · exact nones entry h

/-- Bytes after the line that ends the list are not read. -/
theorem readList_append {front line : List UInt8} (starts : front.getLast? = some newline)
    (past : headerLines ≤ front.count newline) (whole : newline ∉ line)
    (ends : EndsList (withoutReturn line)) (after after' : List UInt8) :
    readList numInputs (front ++ (line ++ newline :: after)) =
      readList numInputs (front ++ (line ++ newline :: after')) := by
  have split (after : List UInt8) : Text.lines (front ++ (line ++ newline :: after)) =
      Text.lines front ++ withoutReturn line :: Text.lines after := by
    rw [(Text.lines_append starts _).1, Text.lines_append_newline whole, Text.endLine_reverse]
  have count : (Text.lines front).length = front.count newline := (Text.lines_append starts []).2
  have same : ofLines numInputs 1 (Text.lines front ++ withoutReturn line :: Text.lines after) =
      ofLines numInputs 1 (Text.lines front ++ withoutReturn line :: Text.lines after') :=
    ofLines_append_cons (by omega) ends _ _
  rw [readList, readList, split, split, same]

end reading

/-- A byte stream has lines, of which some count.  It is read if its header lines are text, each data line
holds its entry and one of the entries is a cube, and the cubes are what the data lines hold.  Otherwise what
is wrong with the first offending line is reported, or that no line offends but all data lines are blank.
Bytes after the line that ends the list never count. -/
theorem readList_exact (numInputs : Nat) (bytes : List UInt8) :
    (∃ lines header data, HasLines bytes lines ∧ Parts lines header data) ∧
    (∀ lines header data, HasLines bytes lines → Parts lines header data →
      (∀ cubes, readList numInputs bytes = .ok cubes ↔ (∀ line ∈ header, ∃ row, Encodes row line) ∧
        ∃ entries, List.Forall₂ (Entry numInputs) data entries ∧ entries.reduceOption = cubes ∧
          cubes ≠ []) ∧
      ∀ e, readList numInputs bytes = .error e ↔ FirstOffence numInputs (header ++ data) e ∨
        (Faultless numInputs (header ++ data) ∧ (∀ line ∈ data, Entry numInputs line none) ∧
          e = .emptyCover)) ∧
    ∀ front line after, bytes = front ++ (line ++ newline :: after) → front.getLast? = some newline →
      headerLines ≤ front.count newline → newline ∉ line → EndsList (withoutReturn line) →
      ∀ after', readList numInputs (front ++ (line ++ newline :: after')) = readList numInputs bytes := by
  refine ⟨?_, fun lines header data split parts => ⟨fun cubes => ?_, fun e => ?_⟩, ?_⟩
  · obtain ⟨header, data, parts⟩ := exists_parts (Text.lines bytes)
    exact ⟨_, header, data, Text.hasLines_lines bytes, parts⟩
  · rw [readList_eq_ok_iff split parts]
    simp only [judgeAll_eq_ok_iff parts.length_le parts.data_full]
    constructor
    · rintro ⟨_, ⟨texts, found, holds, rfl⟩, rest⟩
      rw [List.reduceOption_append, List.reduceOption_replicate_none, List.nil_append] at rest
      exact ⟨texts, found, holds, rest⟩
    · rintro ⟨texts, found, holds, rest⟩
      refine ⟨_, ⟨texts, found, holds, rfl⟩, ?_⟩
      rwa [List.reduceOption_append, List.reduceOption_replicate_none, List.nil_append]
  · rw [readList_eq_error_iff split parts, judgeAll_eq_error_iff, judgeAll_blank_iff parts, and_comm,
      and_assoc]
  · rintro front line after rfl starts past whole ends after'
    exact readList_append starts past whole ends after' after

/-- One cube after an empty header; what follows the end of the list is no text. -/
def sampleList : List UInt8 := [10, 10, 10, 10, 49, 45, 32, 48, 13, 10, 46, 101, 110, 100, 10, 255]

def sampleHeader : List (List UInt8) := [[], [], [], []]

def sampleData : List (List UInt8) := [[49, 45, 32, 48]]

def sampleLines : List (List UInt8) := sampleHeader ++ (sampleData ++ [[46, 101, 110, 100], [255]])

theorem hasLines_sampleList : HasLines sampleList sampleLines := Text.hasLines_iff.2 (by decide)

theorem parts_sampleLines : Parts sampleLines sampleHeader sampleData := by
  refine ⟨rfl, [[46, 101, 110, 100], [255]], rfl, fun line h => ?_, fun line h => ?_⟩
  · rw [List.mem_singleton.1 h]
    rintro ⟨row, text, ends⟩
    rw [text.unique (show Encodes ['1', '-', ' ', '0'] _ by decide)] at ends
    exact absurd ends (by decide)
  · cases h
    exact ⟨['.', 'e', 'n', 'd'], by decide, List.prefix_rfl⟩

/-- The list is read over two inputs, and its cube is too short for three. -/
theorem sampleList_read : HasLines sampleList sampleLines ∧ Parts sampleLines sampleHeader sampleData ∧
    readList 2 sampleList = .ok [[some true, none]] ∧
    readList 3 sampleList = .error (.parse 5 (.wrongWidth ['1', '-'] 3)) := by
  have text : Encodes ['1', '-', ' ', '0'] [49, 45, 32, 48] := by decide
  have fields : HasFields ['1', '-', ' ', '0'] [['1', '-'], ['0']] := Text.hasFields_iff.2 (by decide)
  have header : ∀ line ∈ sampleHeader, ∃ row, Encodes row line := by
    intro line h
    rw [List.eq_of_mem_replicate (n := 4) h]
    exact ⟨[], rfl⟩
  refine ⟨hasLines_sampleList, parts_sampleLines, ?_, ?_⟩
  · obtain ⟨-, decided, -⟩ := readList_exact 2 sampleList
    refine ((decided _ _ _ hasLines_sampleList parts_sampleLines).1 _).2 ⟨header, ?_⟩
    have row : Row 2 ['1', '-', ' ', '0'] (some [some true, none]) :=
      .cube fields rfl (.cons .positive (.cons (.absent (by decide) (by decide)) .nil))
    exact ⟨[some [some true, none]], .cons ⟨_, text, row⟩ .nil, rfl, by decide⟩
  · obtain ⟨-, decided, -⟩ := readList_exact 3 sampleList
    refine ((decided _ _ _ hasLines_sampleList parts_sampleLines).2 _).2 (.inl ?_)
    refine ⟨4, [49, 45, 32, 48], rfl, .badRow (by decide) text (.wrongWidth fields (by decide)), ?_⟩
    intro i line found cause offends
    obtain ⟨row, empty⟩ := header line (List.mem_of_getElem? found)
    have inside : i < 4 := (List.getElem?_eq_some_iff.1 found).1
    rcases offends with ⟨invalid⟩ | ⟨data, -, -⟩
    · exact invalid row empty
    · exact absurd data (by rw [headerLines]; omega)

end LogicNet.Cube
