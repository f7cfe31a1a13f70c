import Wayfarer.Library.Outline
import Wayfarer.Library.Text

/-!
# The data file of a run

`parseCsv` reads a CSV text as its records: a state machine over its characters, in which an empty
field is the same state as the start of a field. `CsvText` says what a CSV text of some records is:
each field in quotes, or bare where nothing in it could be taken for something else.

`parseCsv_reads` is that the records come back.
-/

set_option autoImplicit false

namespace Wayfarer

open Library

/-! ## Reading -/

/-- A data file that is not one. -/
structure DataFileError where
  message : Text

/-- The error of a text that ends in quotes. -/
def unclosedField : DataFileError where
  message := units "The CSV file ends inside a quoted field."

/-- The records of what is left of a text, after some records, the fields of one and a part of a
field. -/
def csvFrom (quoted : Bool) (field : Text) (record : List Text) (records : List (List Text)) :
    Text → Except DataFileError (List (List Text))
  | [] =>
      if quoted then .error unclosedField
      -- What follows the last line break is a record only when something is there.
      else if field ≠ [] ∨ record ≠ [] then .ok (records ++ [record ++ [field]])
      else .ok records
  | c :: rest =>
      if quoted then
        if c ≠ 0x22 then csvFrom true (field ++ [c]) record records rest
        else
          match rest with
          | 0x22 :: rest => csvFrom true (field ++ [0x22]) record records rest
          | rest => csvFrom false field record records rest
      else if c = 0x22 ∧ field = [] then csvFrom true field record records rest
      else if c = 0x2C then csvFrom false [] (record ++ [field]) records rest
      else if c = 0x0A then csvFrom false [] [] (records ++ [record ++ [field]]) rest
      else
        match c, rest with
        | 0x0D, 0x0A :: rest => csvFrom false [] [] (records ++ [record ++ [field]]) rest
        | c, rest => csvFrom false (field ++ [c]) record records rest

/-- The records of a CSV text. A byte order mark is no data. -/
def parseCsv (text : Text) : Except DataFileError (List (List Text)) :=
  csvFrom false [] [] [] (if text.head? = some 0xFEFF then text.tail else text)

/-! ## Writing -/

/-- A field in quotes. -/
def csvQuote (field : Text) : Text :=
  0x22 :: field.flatMap (fun c => if c = 0x22 then [0x22, 0x22] else [c]) ++ [0x22]

/-- A field that may stand bare: not empty, and with no comma, quote, line break
or byte order mark. -/
def IsBareField (field : Text) : Prop :=
  field ≠ [] ∧ ∀ c ∈ field, c ∉ ([0x2C, 0x22, 0x0D, 0x0A, 0xFEFF] : Text)

/-- What a field is written as. -/
def FieldText (field text : Text) : Prop :=
  text = csvQuote field ∨ IsBareField field ∧ text = field

/-- What the fields of a record are written as. -/
def RecordText (record : List Text) (text : Text) : Prop :=
  ∃ fields, List.Forall₂ FieldText record fields ∧ text = joinWith (units ",") fields

/-- A line end. -/
def IsLineEnd (text : Text) : Prop :=
  text = [0x0A] ∨ text = [0x0D, 0x0A]

/-- A CSV text of records: each is ended by a line end, which the last one may be without unless it
is one empty field. -/
inductive CsvText : List (List Text) → Text → Prop where
  | none : CsvText [] []
  | record {record : List Text} {records : List (List Text)} {line lineEnd text : Text} :
      record ≠ [] → RecordText record line → IsLineEnd lineEnd → CsvText records text →
        CsvText (record :: records) (line ++ lineEnd ++ text)
  | last {record : List Text} {line : Text} :
      record ≠ [] → record ≠ [[]] → RecordText record line → CsvText [record] line

/-! ## One field -/

/-- What the next character makes of a text that is read. -/
theorem csvFrom_cons (quoted : Bool) (field : Text) (record : List Text)
    (records : List (List Text)) (c : CodeUnit) (rest : Text) :
    csvFrom quoted field record records (c :: rest) =
      if quoted then
        if c ≠ 0x22 then csvFrom true (field ++ [c]) record records rest
        else
          match rest with
          | 0x22 :: rest => csvFrom true (field ++ [0x22]) record records rest
          | rest => csvFrom false field record records rest
      else if c = 0x22 ∧ field = [] then csvFrom true field record records rest
      else if c = 0x2C then csvFrom false [] (record ++ [field]) records rest
      else if c = 0x0A then csvFrom false [] [] (records ++ [record ++ [field]]) rest
      else
        match c, rest with
        | 0x0D, 0x0A :: rest => csvFrom false [] [] (records ++ [record ++ [field]]) rest
        | c, rest => csvFrom false (field ++ [c]) record records rest := by
  rw [csvFrom.eq_def]
  rfl

theorem csvFrom_open (record : List Text) (records : List (List Text)) (rest : Text) :
    csvFrom false [] record records (0x22 :: rest) = csvFrom true [] record records rest := by
  rw [csvFrom_cons]
  rfl

theorem csvFrom_inQuotes {c : CodeUnit} (hc : c ≠ 0x22) (field : Text) (record : List Text)
    (records : List (List Text)) (rest : Text) :
    csvFrom true field record records (c :: rest) =
      csvFrom true (field ++ [c]) record records rest := by
  rw [csvFrom_cons]
  exact if_pos hc

theorem csvFrom_doubledQuote (field : Text) (record : List Text) (records : List (List Text))
    (rest : Text) :
    csvFrom true field record records (0x22 :: 0x22 :: rest) =
      csvFrom true (field ++ [0x22]) record records rest := by
  rw [csvFrom_cons]
  rfl

theorem csvFrom_close {rest : Text} (h : rest.head? ≠ some 0x22) (field : Text) (record : List Text)
    (records : List (List Text)) :
    csvFrom true field record records (0x22 :: rest) = csvFrom false field record records rest := by
  rw [csvFrom_cons, if_pos rfl, if_neg (fun hne => hne rfl)]
  cases rest with
  | nil => rfl
  | cons c rest =>
      split
      · next heq =>
          obtain ⟨rfl, -⟩ := List.cons.inj heq
          exact absurd rfl h
      · rfl

/-- A field in quotes is read to its closing quote. -/
theorem csvFrom_quoted {rest : Text} (hrest : rest.head? ≠ some 0x22) (value field : Text)
    (record : List Text) (records : List (List Text)) :
    csvFrom true field record records
        (value.flatMap (fun c => if c = 0x22 then [0x22, 0x22] else [c]) ++ 0x22 :: rest) =
      csvFrom false (field ++ value) record records rest := by
  induction value generalizing field with
  | nil => rw [List.flatMap_nil, List.nil_append, csvFrom_close hrest, List.append_nil]
  | cons c value ih =>
      rw [List.flatMap_cons, List.append_assoc]
      by_cases hc : c = 0x22
      · rw [if_pos hc]
        change csvFrom true field record records (0x22 :: 0x22 ::
          (value.flatMap (fun c => if c = 0x22 then [0x22, 0x22] else [c]) ++ 0x22 :: rest)) = _
        rw [csvFrom_doubledQuote, ih, List.append_assoc, hc]
        rfl
      · rw [if_neg hc, List.singleton_append, csvFrom_inQuotes hc, ih, List.append_assoc]
        rfl

/-- A character that is no mark of the format is one of the field. -/
theorem csvFrom_bareUnit {c : CodeUnit} (hc : c ∉ ([0x2C, 0x22, 0x0D, 0x0A, 0xFEFF] : Text))
    (field : Text) (record : List Text) (records : List (List Text)) (rest : Text) :
    csvFrom false field record records (c :: rest) =
      csvFrom false (field ++ [c]) record records rest := by
  simp only [List.mem_cons, List.not_mem_nil, or_false, not_or] at hc
  obtain ⟨hcomma, hquote, hreturn, hfeed, -⟩ := hc
  rw [csvFrom_cons, if_neg Bool.false_ne_true, if_neg fun h => hquote h.1,
    if_neg hcomma, if_neg hfeed]
  split
  · next heq => exact absurd rfl hreturn
  · rfl

theorem csvFrom_bare {value : Text}
    (h : ∀ c ∈ value, c ∉ ([0x2C, 0x22, 0x0D, 0x0A, 0xFEFF] : Text)) (field : Text)
    (record : List Text) (records : List (List Text)) (rest : Text) :
    csvFrom false field record records (value ++ rest) =
      csvFrom false (field ++ value) record records rest := by
  induction value generalizing field with
  | nil => rw [List.nil_append, List.append_nil]
  | cons c value ih =>
      rw [List.cons_append, csvFrom_bareUnit (h c List.mem_cons_self),
        ih fun d hd => h d (List.mem_cons_of_mem _ hd), List.append_assoc]
      rfl

/-- A field, however it is written, is read as it is. -/
theorem csvFrom_field {value text rest : Text} (h : FieldText value text)
    (hrest : rest.head? ≠ some 0x22) (record : List Text) (records : List (List Text)) :
    csvFrom false [] record records (text ++ rest) = csvFrom false value record records rest := by
  rcases h with rfl | ⟨hbare, rfl⟩
  · rw [csvQuote, List.append_assoc, List.singleton_append, List.cons_append, csvFrom_open,
      csvFrom_quoted hrest, List.nil_append]
  · rw [csvFrom_bare hbare.2, List.nil_append]

/-! ## Records -/

theorem csvFrom_comma (field : Text) (record : List Text) (records : List (List Text))
    (rest : Text) :
    csvFrom false field record records (0x2C :: rest) =
      csvFrom false [] (record ++ [field]) records rest := by
  rw [csvFrom_cons]
  rfl

/-- A line end ends a record. -/
theorem csvFrom_lineEnd {lineEnd : Text} (h : IsLineEnd lineEnd) (field : Text) (record : List Text)
    (records : List (List Text)) (rest : Text) :
    csvFrom false field record records (lineEnd ++ rest) =
      csvFrom false [] [] (records ++ [record ++ [field]]) rest := by
  rcases h with rfl | rfl
  · change csvFrom false field record records (0x0A :: rest) = _
    rw [csvFrom_cons]
    rfl
  · change csvFrom false field record records (0x0D :: 0x0A :: rest) = _
    rw [csvFrom_cons]
    rfl

/-- The fields of a record are read up to the last of them. -/
theorem csvFrom_record {fields texts : List Text} (h : List.Forall₂ FieldText fields texts)
    (rest : Text) (hrest : rest.head? ≠ some 0x22) (hne : fields ≠ []) (record : List Text)
    (records : List (List Text)) :
    ∃ before last, fields = before ++ [last] ∧
      csvFrom false [] record records (joinWith (units ",") texts ++ rest) =
        csvFrom false last (record ++ before) records rest := by
  induction h generalizing record with
  | nil => exact absurd rfl hne
  | @cons field text fields texts hfield hfields ih =>
      cases hfields with
      | nil =>
          refine ⟨[], field, rfl, ?_⟩
          rw [List.append_nil]
          change csvFrom false [] record records ((text ++ []) ++ rest) = _
          rw [List.append_nil, csvFrom_field hfield hrest]
      | @cons next nextText fields texts hnext hrestFields =>
          obtain ⟨before, last, heq, hread⟩ := ih (by simp) (record ++ [field])
          refine ⟨field :: before, last, by rw [heq]; rfl, ?_⟩
          have hjoin : joinWith (units ",") (text :: nextText :: texts) ++ rest =
              text ++ (0x2C :: (joinWith (units ",") (nextText :: texts) ++ rest)) := by
            have hunits : units "," = [0x2C] := by decide
            simp [joinWith, List.intercalate_cons_cons, hunits]
          have hcomma (tail : Text) : (0x2C :: tail : Text).head? ≠ some 0x22 :=
            fun h => absurd (Option.some.inj h) (by decide)
          rw [hjoin, csvFrom_field hfield (hcomma _), csvFrom_comma, hread, List.append_assoc]
          rfl

/-- A CSV text of records is read as those records. -/
theorem csvFrom_csvText {written : List (List Text)} {text : Text} (h : CsvText written text)
    (records : List (List Text)) :
    csvFrom false [] [] records text = .ok (records ++ written) := by
  induction h generalizing records with
  | none =>
      rw [List.append_nil]
      rfl
  | @record record later line lineEnd text hne hline hend hlater ih =>
      obtain ⟨fields, hfields, rfl⟩ := hline
      have hhead : (lineEnd ++ text).head? ≠ some 0x22 := by
        rcases hend with rfl | rfl
        · exact fun h => absurd (Option.some.inj h) (by decide)
        · exact fun h => absurd (Option.some.inj h) (by decide)
      obtain ⟨before, last, rfl, hread⟩ := csvFrom_record hfields _ hhead hne [] records
      rw [List.append_assoc, hread, csvFrom_lineEnd hend, ih, List.append_assoc]
      rfl
  | @last record line hne hempty hline =>
      obtain ⟨fields, hfields, rfl⟩ := hline
      obtain ⟨before, last, rfl, hread⟩ :=
        csvFrom_record hfields [] (fun h => nomatch h) hne [] records
      rw [List.append_nil] at hread
      have hsome : last ≠ [] ∨ before ≠ [] := by
        by_contra hnone
        obtain ⟨hlast, hbefore⟩ := not_or.mp hnone
        rw [not_not.mp hlast, not_not.mp hbefore] at hempty
        exact hempty rfl
      rw [hread, csvFrom.eq_def]
      dsimp only
      rw [if_neg Bool.false_ne_true, List.nil_append, if_pos hsome]

/-! ## Files -/

theorem head?_fieldText {value text : Text} (h : FieldText value text) (rest : Text) :
    (text ++ rest).head? ≠ some 0xFEFF := by
  rcases h with rfl | ⟨⟨hne, hplain⟩, rfl⟩
  · exact fun h => absurd (Option.some.inj h) (by decide)
  · obtain ⟨c, tail, rfl⟩ := List.exists_cons_of_ne_nil hne
    intro hhead
    obtain rfl : c = 0xFEFF := Option.some.inj hhead
    exact absurd (hplain _ List.mem_cons_self) (by decide)

theorem head?_recordText {record : List Text} {line : Text} (h : RecordText record line)
    (hne : record ≠ []) (rest : Text) : (line ++ rest).head? ≠ some 0xFEFF := by
  obtain ⟨fields, hfields, rfl⟩ := h
  cases hfields with
  | nil => exact absurd rfl hne
  | @cons value text record fields hvalue hfields =>
      have hjoin : ∃ tail, joinWith (units ",") (text :: fields) ++ rest = text ++ tail := by
        cases fields with
        | nil => exact ⟨rest, by simp [joinWith]⟩
        | cons next fields =>
            exact ⟨units "," ++ joinWith (units ",") (next :: fields) ++ rest,
              by simp [joinWith, List.intercalate_cons_cons]⟩
      obtain ⟨tail, htail⟩ := hjoin
      rw [htail]
      exact head?_fieldText hvalue tail

/-- No CSV text starts with a byte order mark. -/
theorem head?_csvText {written : List (List Text)} {text : Text} (h : CsvText written text) :
    text.head? ≠ some 0xFEFF := by
  cases h with
  | none => exact fun h => nomatch h
  | @record record later line lineEnd text hne hline hend hlater =>
      rw [List.append_assoc]
      exact head?_recordText hline hne _
  | last hne hempty hline =>
      have hhead := head?_recordText hline hne []
      rwa [List.append_nil] at hhead

/-- The only error of a text is that it ends in quotes. -/
theorem csvFrom_error {quoted : Bool} {field : Text} {record : List Text}
    {records : List (List Text)}
    {text : Text} {e : DataFileError} (h : csvFrom quoted field record records text = .error e) :
    e = unclosedField := by
  fun_induction csvFrom quoted field record records text with
  | case1 =>
      cases h
      rfl
  | case2 | case3 => cases h
  | _ => exact ‹_ → e = unclosedField› h

/-- A CSV text of records is read as those records; and any text is read as records,
or ends in quotes. -/
theorem parseCsv_reads :
    (∀ records text, CsvText records text → parseCsv text = .ok records) ∧
      ∀ text, (∃ records, parseCsv text = .ok records) ∨ parseCsv text = .error unclosedField := by
  constructor
  · intro records text h
    rw [parseCsv, if_neg (head?_csvText h), csvFrom_csvText h, List.nil_append]
  · intro text
    cases hread : parseCsv text with
    | ok records => exact Or.inl ⟨records, rfl⟩
    | error e => exact Or.inr (by rw [csvFrom_error hread])

/-- A text of a bare field, an empty one and one that holds all marks, and of a record that is one
empty field. -/
theorem fourFields_read :
    parseCsv (units "a,\"\",\"b,\"\"\r\nc\"\r\n\"\"\n") =
      .ok [[units "a", [], units "b,\"\r\nc"], [[]]] := by
  have hfirst : RecordText [units "a", [], units "b,\"\r\nc"]
      (units "a,\"\",\"b,\"\"\r\nc\"") :=
    ⟨[units "a", csvQuote [], csvQuote (units "b,\"\r\nc")],
      .cons (Or.inr ⟨⟨by decide, by decide⟩, rfl⟩) (.cons (Or.inl rfl) (.cons (Or.inl rfl) .nil)),
      by decide⟩
  have hsecond : RecordText [[]] (units "\"\"") :=
    ⟨[csvQuote []], .cons (Or.inl rfl) .nil, by decide⟩
  have hboth := CsvText.record (by decide) hfirst (Or.inr rfl)
    (CsvText.record (by decide) hsecond (Or.inl rfl) CsvText.none)
  have htext : units "a,\"\",\"b,\"\"\r\nc\"\r\n\"\"\n" =
      units "a,\"\",\"b,\"\"\r\nc\"" ++ [0x0D, 0x0A] ++ (units "\"\"" ++ [0x0A] ++ []) := by
    decide
  rw [htext]
  exact parseCsv_reads.1 _ _ hboth

end Wayfarer
