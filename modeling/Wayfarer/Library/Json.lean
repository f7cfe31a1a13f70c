import Wayfarer.Library.CodePoints

/-!
# JSON text

A JSON value and the text a compact writer makes of it. What is written is a list
of pieces: marks (brackets, commas, colons, numbers and the three words) and quoted
strings. A word that holds a letter no mark has, and no quotation mark, can only
occur inside one of the strings: `infix_stringify_iff`.

Inside a string a writer escapes quotation marks, backslashes, control characters
and lone surrogates. `infix_jsonEscape_iff` says which words survive that.
-/

set_option autoImplicit false

namespace Library

/-! ## Values -/

/-- The characters a number is written with. -/
def numberMarks : Text := units "0123456789+-.e"

/-- A number, as the text it is written as. -/
structure JsonNumber where
  /-- The digits, sign and exponent. -/
  text : Text
  /-- Nothing else is in a number. -/
  marks : ∀ c ∈ text, c ∈ numberMarks

namespace JsonNumber

theorem marks_zero : ∀ c ∈ units "0", c ∈ numberMarks := by
  decide

theorem marks_one : ∀ c ∈ units "1", c ∈ numberMarks := by
  decide

end JsonNumber

/-- A JSON value. -/
inductive Json where
  /-- `null`. -/
  | null
  /-- `true` or `false`. -/
  | bool (b : Bool)
  /-- A number. -/
  | number (n : JsonNumber)
  /-- A number too large for the language: it is read as an infinity, and written as `null`. -/
  | infinite (negative : Bool)
  /-- A string. -/
  | string (t : Text)
  /-- A list. -/
  | array (items : List Json)
  /-- An object, as its members in the order they are written in. -/
  | object (members : List (Text × Json))

/-! ## The value of a number -/

/-- Decimal digits as a number. -/
def digitsValue (t : Text) : Nat :=
  t.foldl (fun n c => 10 * n + (c.toNat - 0x30)) 0

/-- Digits with a sign in front, where there is one. -/
def signedValue (t : Text) : Int :=
  match t with
  | 0x2D :: digits => -digitsValue digits
  | 0x2B :: digits => digitsValue digits
  | digits => digitsValue digits

/-- A number as an integer and the power of ten it is multiplied by. -/
def JsonNumber.decimal (n : JsonNumber) : Int × Int :=
  let (mantissa, exponent) := cutAt 0x65 n.text
  let (whole, fraction) := cutAt 0x2E mantissa
  (signedValue (whole ++ fraction.getD []),
    (exponent.map signedValue).getD 0 - (fraction.getD []).length)

/-- How two numbers compare. -/
def JsonNumber.compare (a b : JsonNumber) : Ordering :=
  let least := min a.decimal.2 b.decimal.2
  compareOfLessAndEq (a.decimal.1 * 10 ^ (a.decimal.2 - least).toNat)
    (b.decimal.1 * 10 ^ (b.decimal.2 - least).toNat)

example :
    JsonNumber.compare ⟨units "-1.5e-7", by decide⟩ ⟨units "0", by decide⟩ = .lt := by
  decide +kernel

/-! ## Strings -/

/-- The quotation mark. -/
def quotationMark : CodeUnit := 0x22

/-- The backslash, which starts every escape. -/
def backslash : CodeUnit := 0x5C

/-- A lower-case hexadecimal digit. -/
def lowerHexDigit (n : Nat) : CodeUnit :=
  (if n < 10 then 0x30 + n else 0x57 + n).toUInt16

/-- The `\u` escape of a code unit. -/
def unicodeEscape (n : Nat) : Text :=
  [backslash, 0x75, lowerHexDigit (n / 0x1000 % 16), lowerHexDigit (n / 0x100 % 16),
    lowerHexDigit (n / 0x10 % 16), lowerHexDigit (n % 16)]

/-- A character as a JSON string holds it. -/
def jsonPoint (p : Nat) : Text :=
  if p = 0x22 then [backslash, 0x22]
  else if p = 0x5C then [backslash, 0x5C]
  else if p = 0x08 then [backslash, 0x62]
  else if p = 0x09 then [backslash, 0x74]
  else if p = 0x0A then [backslash, 0x6E]
  else if p = 0x0C then [backslash, 0x66]
  else if p = 0x0D then [backslash, 0x72]
  else if p < 0x20 ∨ isSurrogate p then unicodeEscape p
  else unitsOf p

/-- A text as a JSON string holds it, the quotation marks left out. -/
def jsonEscape (t : Text) : Text :=
  (codePoints t).flatMap jsonPoint

/-- A text as a JSON string. -/
def jsonString (t : Text) : Text :=
  quotationMark :: jsonEscape t ++ [quotationMark]

/-! ## Written values -/

/-- A part of a written value. -/
inductive JsonPiece where
  /-- Brackets, separators, a number or a word. -/
  | mark (t : Text)
  /-- A string. -/
  | quoted (t : Text)

/-- A part as it is written. -/
def JsonPiece.text : JsonPiece → Text
  | .mark t => t
  | .quoted t => jsonString t

mutual

/-- The parts a value is written as. -/
def Json.pieces : Json → List JsonPiece
  | .null => [.mark (units "null")]
  | .bool true => [.mark (units "true")]
  | .bool false => [.mark (units "false")]
  | .number n => [.mark n.text]
  | .infinite _ => [.mark (units "null")]
  | .string t => [.quoted t]
  | .array items => .mark (units "[") :: Json.itemPieces items ++ [.mark (units "]")]
  | .object members => .mark (units "\x7b") :: Json.memberPieces members ++ [.mark (units "\x7d")]

/-- The parts of a list's items, a comma between each two. -/
def Json.itemPieces : List Json → List JsonPiece
  | [] => []
  | [item] => item.pieces
  | item :: next :: rest => item.pieces ++ .mark (units ",") :: Json.itemPieces (next :: rest)

/-- The parts of an object's members, a comma between each two. -/
def Json.memberPieces : List (Text × Json) → List JsonPiece
  | [] => []
  | [(name, value)] => .quoted name :: .mark (units ":") :: value.pieces
  | (name, value) :: next :: rest =>
      .quoted name :: .mark (units ":") :: value.pieces ++
        .mark (units ",") :: Json.memberPieces (next :: rest)

end

/-- The value as compact JSON text. -/
def Json.stringify (v : Json) : Text :=
  v.pieces.flatMap JsonPiece.text

/-- Every string of a value: its texts and the names of its members. -/
def Json.strings (v : Json) : List Text :=
  v.pieces.filterMap fun
    | .mark _ => none
    | .quoted t => some t

/-- The characters that stand outside of strings. -/
def jsonMarks : Text := units "[]\x7b\x7d,:truefalsn0123456789+-.e"

/-- A part that is a string, or made of marks only. -/
def JsonPiece.WellFormed : JsonPiece → Prop
  | .mark t => ∀ c ∈ t, c ∈ jsonMarks
  | .quoted _ => True

mutual

theorem Json.pieces_wellFormed : ∀ (v : Json), ∀ piece ∈ v.pieces, piece.WellFormed
  | .null => by simp [Json.pieces, JsonPiece.WellFormed]; decide
  | .bool true => by simp [Json.pieces, JsonPiece.WellFormed]; decide
  | .bool false => by simp [Json.pieces, JsonPiece.WellFormed]; decide
  | .number n => by
      have hsub : ∀ c ∈ numberMarks, c ∈ jsonMarks := by decide
      simpa [Json.pieces, JsonPiece.WellFormed] using fun c hc => hsub c (n.marks c hc)
  | .infinite _ => by simp [Json.pieces, JsonPiece.WellFormed]; decide
  | .string t => by simp [Json.pieces, JsonPiece.WellFormed]
  | .array items => by
      have hopen : ∀ c ∈ units "[", c ∈ jsonMarks := by decide
      have hclose : ∀ c ∈ units "]", c ∈ jsonMarks := by decide
      intro piece hpiece
      simp only [Json.pieces, List.cons_append, List.mem_cons, List.mem_append, List.not_mem_nil,
        or_false] at hpiece
      rcases hpiece with rfl | hpiece | rfl
      · exact hopen
      · exact Json.itemPieces_wellFormed items piece hpiece
      · exact hclose
  | .object members => by
      have hopen : ∀ c ∈ units "\x7b", c ∈ jsonMarks := by decide
      have hclose : ∀ c ∈ units "\x7d", c ∈ jsonMarks := by decide
      intro piece hpiece
      simp only [Json.pieces, List.cons_append, List.mem_cons, List.mem_append, List.not_mem_nil,
        or_false] at hpiece
      rcases hpiece with rfl | hpiece | rfl
      · exact hopen
      · exact Json.memberPieces_wellFormed members piece hpiece
      · exact hclose

theorem Json.itemPieces_wellFormed :
    ∀ (items : List Json), ∀ piece ∈ Json.itemPieces items, piece.WellFormed
  | [] => by simp [Json.itemPieces]
  | [item] => Json.pieces_wellFormed item
  | item :: next :: rest => by
      have hcomma : ∀ c ∈ units ",", c ∈ jsonMarks := by decide
      intro piece hpiece
      simp only [Json.itemPieces, List.mem_append, List.mem_cons] at hpiece
      rcases hpiece with hpiece | rfl | hpiece
      · exact Json.pieces_wellFormed item piece hpiece
      · exact hcomma
      · exact Json.itemPieces_wellFormed (next :: rest) piece hpiece

theorem Json.memberPieces_wellFormed :
    ∀ (members : List (Text × Json)), ∀ piece ∈ Json.memberPieces members, piece.WellFormed
  | [] => by simp [Json.memberPieces]
  | [(name, value)] => by
      have hcolon : ∀ c ∈ units ":", c ∈ jsonMarks := by decide
      intro piece hpiece
      simp only [Json.memberPieces, List.mem_cons] at hpiece
      rcases hpiece with rfl | rfl | hpiece
      · trivial
      · exact hcolon
      · exact Json.pieces_wellFormed value piece hpiece
  | (name, value) :: next :: rest => by
      have hcolon : ∀ c ∈ units ":", c ∈ jsonMarks := by decide
      have hcomma : ∀ c ∈ units ",", c ∈ jsonMarks := by decide
      intro piece hpiece
      simp only [Json.memberPieces, List.cons_append, List.mem_append, List.mem_cons] at hpiece
      rcases hpiece with rfl | rfl | hpiece | rfl | hpiece
      · trivial
      · exact hcolon
      · exact Json.pieces_wellFormed value piece hpiece
      · exact hcomma
      · exact Json.memberPieces_wellFormed (next :: rest) piece hpiece

end

/-- The string of a part, where it is one. -/
def JsonPiece.string? : JsonPiece → Option Text
  | .mark _ => none
  | .quoted t => some t

theorem Json.strings_eq (v : Json) :
    v.strings = v.pieces.filterMap JsonPiece.string? := by
  refine List.filterMap_congr fun piece _ => ?_
  cases piece <;> rfl

@[simp]
theorem Json.strings_string (t : Text) :
    (Json.string t).strings = [t] := rfl

theorem Json.mem_strings_items {t : Text} (items : List Json) :
    t ∈ (Json.itemPieces items).filterMap JsonPiece.string? ↔ ∃ v ∈ items, t ∈ v.strings := by
  induction items with
  | nil => simp [Json.itemPieces]
  | cons item items ih =>
      cases items with
      | nil => simp [Json.itemPieces, Json.strings_eq]
      | cons next rest =>
          rw [Json.itemPieces, List.filterMap_append, List.filterMap_cons_none rfl,
            List.mem_append, ih, ← Json.strings_eq]
          simp

/-- The strings of a list are those of its items. -/
@[simp]
theorem Json.mem_strings_array {t : Text} {items : List Json} :
    t ∈ (Json.array items).strings ↔ ∃ v ∈ items, t ∈ v.strings := by
  rw [Json.strings_eq, Json.pieces, List.cons_append, List.filterMap_cons_none rfl,
    List.filterMap_append, ← Json.mem_strings_items]
  simp [JsonPiece.string?]

theorem Json.mem_strings_members {t : Text} (members : List (Text × Json)) :
    t ∈ (Json.memberPieces members).filterMap JsonPiece.string? ↔
      ∃ m ∈ members, t = m.1 ∨ t ∈ m.2.strings := by
  induction members with
  | nil => simp [Json.memberPieces]
  | cons member members ih =>
      obtain ⟨name, value⟩ := member
      cases members with
      | nil => simp [Json.memberPieces, Json.strings_eq, JsonPiece.string?]
      | cons next rest =>
          simp only [Json.memberPieces, List.cons_append, List.filterMap_cons, JsonPiece.string?,
            List.filterMap_append, List.mem_cons, List.mem_append, ih, ← Json.strings_eq]
          simp [or_assoc]

/-- The strings of an object are its names and those of its values. -/
@[simp]
theorem Json.mem_strings_object {t : Text} {members : List (Text × Json)} :
    t ∈ (Json.object members).strings ↔ ∃ m ∈ members, t = m.1 ∨ t ∈ m.2.strings := by
  rw [Json.strings_eq, Json.pieces, List.cons_append, List.filterMap_cons_none rfl,
    List.filterMap_append, ← Json.mem_strings_members]
  simp [JsonPiece.string?]

/-! ## Words in written values -/

/-- A text that starts a list of well-formed parts and holds no quotation mark is
made of marks only. -/
theorem marks_of_prefix_pieces {w : Text} (hw : quotationMark ∉ w) (pieces : List JsonPiece)
    (hpieces : ∀ piece ∈ pieces, piece.WellFormed) (h : w <+: pieces.flatMap JsonPiece.text) :
    ∀ c ∈ w, c ∈ jsonMarks := by
  induction pieces generalizing w with
  | nil =>
      have hnil : w = [] := by simpa using h
      simp [hnil]
  | cons piece pieces ih =>
      have hpiece := hpieces piece (by simp)
      have hrest : ∀ q ∈ pieces, q.WellFormed := fun q hq => hpieces q (by simp [hq])
      rw [List.flatMap_cons] at h
      cases piece with
      | mark t =>
          obtain ⟨u, hu⟩ := h
          rcases List.append_eq_append_iff.mp hu with ⟨m, hm, -⟩ | ⟨m, rfl, hm⟩
          · intro c hc
            exact hpiece c (by rw [JsonPiece.text] at hm; simp [hm, hc])
          · have hsub : quotationMark ∉ m := fun hmem => hw (by simp [hmem])
            have hmarks := ih hsub hrest ⟨u, hm.symm⟩
            intro c hc
            rcases List.mem_append.mp hc with hc | hc
            · exact hpiece c hc
            · exact hmarks c hc
      | quoted t =>
          cases w with
          | nil => simp
          | cons x w =>
              obtain ⟨u, hu⟩ := h
              have hx : x = quotationMark := by
                have := congrArg List.head? hu
                simpa [JsonPiece.text, jsonString] using this
              exact absurd (by simp [hx]) hw

/-- A word with a letter that is no mark, and without a quotation mark, occurs in a
written value only inside one of its strings. -/
theorem exists_infix_of_infix_pieces {w : Text} {x : CodeUnit} (hx : x ∈ w) (hmark : x ∉ jsonMarks)
    (hw : quotationMark ∉ w) (pieces : List JsonPiece)
    (hpieces : ∀ piece ∈ pieces, piece.WellFormed)
    (h : w <:+: pieces.flatMap JsonPiece.text) :
    ∃ t, JsonPiece.quoted t ∈ pieces ∧ w <:+: jsonEscape t := by
  have hne : w ≠ [] := List.ne_nil_of_mem hx
  induction pieces with
  | nil => simp_all
  | cons piece pieces ih =>
      have hrest : ∀ q ∈ pieces, q.WellFormed := fun q hq => hpieces q (by simp [hq])
      rw [List.flatMap_cons] at h
      cases piece with
      | mark m =>
          have hm : JsonPiece.WellFormed (.mark m) := hpieces _ (by simp)
          rcases infix_append_cases h with ⟨a₁, a₂, ha, -, hpre⟩ | hin
          · -- The word starts in the mark, so all it can reach is marks.
            have hmarks : ∀ c ∈ w, c ∈ jsonMarks :=
              marks_of_prefix_pieces hw (.mark a₂ :: pieces)
                (by
                  intro q hq
                  rcases List.mem_cons.mp hq with rfl | hq
                  · exact fun c hc => hm c (by rw [JsonPiece.text] at ha; simp [ha, hc])
                  · exact hrest q hq)
                (by simpa [JsonPiece.text] using hpre)
            exact absurd (hmarks x hx) hmark
          · obtain ⟨t, ht, hword⟩ := ih hrest hin
            exact ⟨t, by simp [ht], hword⟩
      | quoted t =>
          have hstart : quotationMark :: (jsonEscape t ++ quotationMark ::
              pieces.flatMap JsonPiece.text) =
                (JsonPiece.quoted t).text ++ pieces.flatMap JsonPiece.text := by
            simp [JsonPiece.text, jsonString]
          rw [← hstart] at h
          rcases infix_of_infix_append_cons (a := []) hw h with h | h
          · exact absurd (List.infix_nil.mp h) hne
          · rcases infix_of_infix_append_cons hw h with h | h
            · exact ⟨t, by simp, h⟩
            · obtain ⟨t', ht', hword⟩ := ih hrest h
              exact ⟨t', by simp [ht'], hword⟩

/-- A word that could only stand in a string occurs in a written value exactly when
it occurs in one of its strings as they are written. -/
theorem infix_stringify_iff {w : Text} {x : CodeUnit} (hx : x ∈ w) (hmark : x ∉ jsonMarks)
    (hw : quotationMark ∉ w) (v : Json) :
    w <:+: v.stringify ↔ ∃ t ∈ v.strings, w <:+: jsonEscape t := by
  constructor
  · intro h
    obtain ⟨t, ht, hword⟩ :=
      exists_infix_of_infix_pieces hx hmark hw v.pieces v.pieces_wellFormed h
    exact ⟨t, List.mem_filterMap.mpr ⟨_, ht, rfl⟩, hword⟩
  · rintro ⟨t, ht, hword⟩
    obtain ⟨piece, hpiece, hquoted⟩ := List.mem_filterMap.mp ht
    cases piece with
    | mark m => simp at hquoted
    | quoted u =>
        obtain rfl : u = t := by simpa using hquoted
        obtain ⟨before, after, hsplit⟩ := List.append_of_mem hpiece
        have hwritten : v.stringify = before.flatMap JsonPiece.text ++ [quotationMark] ++
            jsonEscape u ++ ([quotationMark] ++ after.flatMap JsonPiece.text) := by
          simp [Json.stringify, hsplit, JsonPiece.text, jsonString]
        rw [hwritten]
        exact hword.trans ⟨_, _, rfl⟩

/-! ## Words in strings -/

/-- The letters an escape is made of, after its backslash. -/
def jsonEscapeLetters : Text := units "btnfru\"\\0123456789abcdef"

/-- A character that a JSON string holds as it is. -/
def isJsonPlain (c : CodeUnit) : Bool :=
  c ≠ quotationMark && c ≠ backslash && decide (0x20 ≤ c.toNat) && isPlain c

theorem lowerHexDigit_mem (n : Nat) :
    lowerHexDigit (n % 16) ∈ jsonEscapeLetters := by
  have hall : ∀ n < 16, lowerHexDigit n ∈ jsonEscapeLetters := by decide
  exact hall _ (Nat.mod_lt _ (by decide))

theorem jsonEscapeLetters_eq : jsonEscapeLetters =
    [0x62, 0x74, 0x6E, 0x66, 0x72, 0x75, 0x22, 0x5C, 0x30, 0x31, 0x32, 0x33, 0x34, 0x35, 0x36, 0x37,
      0x38, 0x39, 0x61, 0x62, 0x63, 0x64, 0x65, 0x66] := by
  decide

/-- A character is written with a backslash and a letter, as a `\u` escape, or as itself where it is
no control character. -/
theorem jsonPoint_cases (p : Nat) :
    (∃ letter ∈ jsonEscapeLetters, jsonPoint p = [backslash, letter]) ∨
      jsonPoint p = unicodeEscape p ∨ 0x20 ≤ p ∧ jsonPoint p = unitsOf p := by
  have hmem : ∀ letter : CodeUnit, letter ∈ ([0x22, 0x5C, 0x62, 0x74, 0x6E, 0x66, 0x72] : Text) →
      letter ∈ jsonEscapeLetters := by
    rw [jsonEscapeLetters_eq]
    intro letter h
    simp only [List.mem_cons, List.not_mem_nil, or_false] at h ⊢
    tauto
  by_cases h1 : p = 0x22
  · exact .inl ⟨0x22, hmem _ (by simp), by rw [jsonPoint, if_pos h1]⟩
  by_cases h2 : p = 0x5C
  · exact .inl ⟨0x5C, hmem _ (by simp), by rw [jsonPoint, if_neg h1, if_pos h2]⟩
  by_cases h3 : p = 0x08
  · exact .inl ⟨0x62, hmem _ (by simp), by rw [jsonPoint, if_neg h1, if_neg h2, if_pos h3]⟩
  by_cases h4 : p = 0x09
  · exact .inl ⟨0x74, hmem _ (by simp),
      by rw [jsonPoint, if_neg h1, if_neg h2, if_neg h3, if_pos h4]⟩
  by_cases h5 : p = 0x0A
  · exact .inl ⟨0x6E, hmem _ (by simp),
      by rw [jsonPoint, if_neg h1, if_neg h2, if_neg h3, if_neg h4, if_pos h5]⟩
  by_cases h6 : p = 0x0C
  · exact .inl ⟨0x66, hmem _ (by simp),
      by rw [jsonPoint, if_neg h1, if_neg h2, if_neg h3, if_neg h4, if_neg h5, if_pos h6]⟩
  by_cases h7 : p = 0x0D
  · exact .inl ⟨0x72, hmem _ (by simp), by
      rw [jsonPoint, if_neg h1, if_neg h2, if_neg h3, if_neg h4, if_neg h5, if_neg h6, if_pos h7]⟩
  by_cases h8 : p < 0x20 ∨ isSurrogate p
  · exact .inr (.inl (by rw [jsonPoint, if_neg h1, if_neg h2, if_neg h3, if_neg h4, if_neg h5,
      if_neg h6, if_neg h7, if_pos h8]))
  · refine .inr (.inr ⟨?_, by rw [jsonPoint, if_neg h1, if_neg h2, if_neg h3, if_neg h4, if_neg h5,
      if_neg h6, if_neg h7, if_neg h8]⟩)
    by_contra hsmall
    exact h8 (.inl (Nat.lt_of_not_le hsmall))

theorem mem_unicodeEscape {n : Nat} {c : CodeUnit} (h : c ∈ unicodeEscape n) :
    c = backslash ∨ c ∈ jsonEscapeLetters := by
  rw [unicodeEscape] at h
  rcases List.mem_cons.mp h with rfl | h
  · exact .inl rfl
  · right
    rcases List.mem_cons.mp h with rfl | h
    · rw [jsonEscapeLetters_eq]
      simp
    · simp only [List.mem_cons, List.not_mem_nil, or_false] at h
      rcases h with rfl | rfl | rfl | rfl <;> exact lowerHexDigit_mem _

/-- A character is copied, or escaped with a backslash and letters of escapes. -/
theorem jsonPoint_escapes {first : CodeUnit} (hfirst : first ∉ jsonEscapeLetters) (p : Nat) :
    EscapesItem backslash first (unitsOf p) (jsonPoint p) := by
  have hletter : ∀ c ∈ jsonEscapeLetters, first ≠ c := fun c hc h => hfirst (h ▸ hc)
  refine ⟨?_⟩
  rcases jsonPoint_cases p with ⟨letter, hmem, hescape⟩ | hescape | ⟨-, hcopied⟩
  · rw [hescape]
    exact .inr ⟨_, rfl, by simpa using hletter letter hmem⟩
  · rw [hescape]
    refine .inr ⟨_, rfl, fun hmem => ?_⟩
    -- The backslash stands in front alone.
    have hu : (0x75 : CodeUnit) ∈ jsonEscapeLetters := by
      rw [jsonEscapeLetters_eq]
      simp
    simp only [List.mem_cons, List.not_mem_nil, or_false] at hmem
    rcases hmem with h | h | h | h | h
    · exact hletter _ hu h
    all_goals exact hletter _ (lowerHexDigit_mem _) h
  · exact .inl hcopied

/-- What a JSON string holds is never a control character. -/
theorem le_toNat_of_mem_jsonEscape {t : Text} {c : CodeUnit} (hc : c ∈ jsonEscape t) :
    0x20 ≤ c.toNat := by
  have hletters : ∀ c ∈ jsonEscapeLetters, 0x20 ≤ c.toNat := by
    rw [jsonEscapeLetters_eq]
    simp
  have hslash : 0x20 ≤ backslash.toNat := by decide
  obtain ⟨p, hp, hc⟩ := List.mem_flatMap.mp hc
  have hlt : p < 0x110000 := codePoints_lt t p hp
  rcases jsonPoint_cases p with ⟨letter, hmem, hescape⟩ | hescape | ⟨hbig, hcopied⟩
  · rw [hescape, List.mem_cons, List.mem_singleton] at hc
    rcases hc with rfl | rfl
    · exact hslash
    · exact hletters c hmem
  · rw [hescape] at hc
    rcases mem_unicodeEscape hc with rfl | hmem
    · exact hslash
    · exact hletters c hmem
  · rw [hcopied, unitsOf] at hc
    split_ifs at hc with h
    · rw [List.mem_singleton.mp hc, toNat_toUInt16 h]
      exact hbig
    · simp only [List.mem_cons, List.not_mem_nil, or_false] at hc
      rcases hc with rfl | rfl
      · rw [toNat_toUInt16 (by omega)]
        omega
      · rw [toNat_toUInt16 (by omega)]
        omega

/-- A character that is held as it is, is written as itself. -/
theorem jsonPoint_of_isJsonPlain {c : CodeUnit} (hc : isJsonPlain c = true) :
    jsonPoint c.toNat = [c] := by
  simp only [isJsonPlain, isPlain, isHigh, isLow, Bool.and_eq_true, decide_eq_true_eq, ne_eq,
    Bool.not_eq_true'] at hc
  obtain ⟨⟨⟨hquote, hback⟩, hbig⟩, hplain⟩ := hc
  have hquote' : c.toNat ≠ 0x22 := fun h => hquote (UInt16.toNat_inj.mp h)
  have hback' : c.toNat ≠ 0x5C := fun h => hback (UInt16.toNat_inj.mp h)
  have hsur : isSurrogate c.toNat = false := by
    simp only [isSurrogate, Bool.and_eq_false_iff, decide_eq_false_iff_not] at hplain ⊢
    omega
  unfold jsonPoint
  rw [if_neg hquote', if_neg hback', if_neg (by omega), if_neg (by omega), if_neg (by omega),
    if_neg (by omega), if_neg (by omega), if_neg (by simp [hsur]; omega), unitsOf_toNat]

/-- A word of characters that are held as they are, whose first letter no escape
has, occurs in a JSON string exactly when it occurs in the text. -/
theorem infix_jsonEscape_iff {first : CodeUnit} {w : Text} (hfirst : first ∉ jsonEscapeLetters)
    (hplain : ∀ c ∈ first :: w, isJsonPlain c = true) (t : Text) :
    first :: w <:+: jsonEscape t ↔ first :: w <:+: t := by
  constructor
  · intro h
    have hback : backslash ∉ first :: w := by
      intro hmem
      have := hplain _ hmem
      simp [isJsonPlain] at this
    have h := infix_of_escaped hback (codePoints t)
      (fun p _ => jsonPoint_escapes hfirst p) h
    rwa [show (codePoints t).flatMap unitsOf = t from ofCodePoints_codePoints t] at h
  · rintro ⟨s, u, rfl⟩
    have hunits : ∀ c ∈ first :: w, isPlain c = true := by
      intro c hc
      have := hplain c hc
      simp_all [isJsonPlain]
    have hword : ((first :: w).map UInt16.toNat).flatMap jsonPoint = first :: w := by
      rw [List.flatMap_map]
      have hall : ∀ v : Text, (∀ c ∈ v, isJsonPlain c = true) →
          (v.flatMap fun c => jsonPoint c.toNat) = v := by
        intro v hv
        induction v with
        | nil => rfl
        | cons c v ih =>
            rw [List.flatMap_cons, jsonPoint_of_isJsonPlain (hv c (by simp)),
              ih fun d hd => hv d (by simp [hd])]
            rfl
      exact hall _ hplain
    rw [jsonEscape, codePoints_append_plain hunits (by simp), List.flatMap_append,
      List.flatMap_append, hword]
    exact ⟨_, _, rfl⟩

end Library
