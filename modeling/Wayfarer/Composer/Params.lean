import Wayfarer.Composer.Tabs
import Wayfarer.Library.Query
import Wayfarer.Variables.References

/-!
# The rows of an address

`parseParamsFromUrl` reads the query of an address over the rows there were before, and
`buildUrlFromParams` writes one. Every pair of the query has one enabled row, every row that is
switched off and has a name is kept, and an address that is read again changes nothing
(`parseParamsFromUrl_mirrors`). An address that was written is read as the rows it was written of
(`parseParamsFromUrl_buildUrlFromParams`).
-/

set_option autoImplicit false

namespace Wayfarer

open Library

variable (pairsOf : Text → List (Text × Text))

/-- The rows of a query. -/
def entriesOf (url : Text) : List Row :=
  (pairsOf (queryOf url)).map fun (key, value) => { key, value, enabled := true }

/-- The rows that are in an address. -/
def enabledRows (rows : List Row) : List Row :=
  rows.filter fun row => row.enabled

/-- The rows that are switched off and have a name. -/
def heldRows (rows : List Row) : List Row :=
  rows.filter fun row => !row.enabled && row.key ≠ []

theorem enabled_of_mem_entriesOf {url : Text} {row : Row} (h : row ∈ entriesOf pairsOf url) :
    row.enabled = true := by
  obtain ⟨pair, -, rfl⟩ := List.mem_map.mp h
  rfl

/-! ## One row after the other -/

theorem enabledRows_mergeParams {entries : List Row} (h : ∀ row ∈ entries, row.enabled = true)
    (previous : List Row) : enabledRows (mergeParams previous entries) = entries := by
  induction previous generalizing entries with
  | nil => exact List.filter_eq_self.mpr h
  | cons row previous ih =>
      rw [mergeParams]
      split_ifs with henabled hkey
      · -- The row's place is that of the next pair.
        have hrest : ∀ row ∈ entries.drop 1, row.enabled = true := fun row hrow =>
          h row (List.mem_of_mem_drop hrow)
        have hfirst : enabledRows (entries.take 1) = entries.take 1 :=
          List.filter_eq_self.mpr fun row hrow => h row (List.mem_of_mem_take hrow)
        rw [enabledRows, List.filter_append]
        change enabledRows _ ++ enabledRows _ = _
        rw [hfirst, ih hrest, List.take_append_drop]
      · have hoff : row.enabled = false := by simpa using henabled
        rw [enabledRows, List.filter_cons, hoff]
        exact ih h
      · exact ih h

theorem heldRows_mergeParams {entries : List Row} (h : ∀ row ∈ entries, row.enabled = true)
    (previous : List Row) : heldRows (mergeParams previous entries) = heldRows previous := by
  have hnone : ∀ {rows : List Row}, (∀ row ∈ rows, row.enabled = true) → heldRows rows = [] := by
    intro rows hrows
    rw [heldRows, List.filter_eq_nil_iff]
    intro row hrow
    simp [hrows row hrow]
  induction previous generalizing entries with
  | nil => exact hnone h
  | cons row previous ih =>
      rw [mergeParams]
      split_ifs with henabled hkey
      · have hrest : ∀ row ∈ entries.drop 1, row.enabled = true := fun row hrow =>
          h row (List.mem_of_mem_drop hrow)
        have hfirst : heldRows (entries.take 1) = [] :=
          hnone fun row hrow => h row (List.mem_of_mem_take hrow)
        rw [heldRows, List.filter_append]
        change heldRows _ ++ heldRows _ = _
        rw [hfirst, ih hrest, List.nil_append, heldRows, heldRows, List.filter_cons, henabled]
        rfl
      · have hoff : row.enabled = false := by simpa using henabled
        have hheld := ih h
        rw [heldRows, heldRows] at hheld
        rw [heldRows, heldRows, List.filter_cons, List.filter_cons, hheld]
      · have hkey : row.key = [] := by simpa using hkey
        rw [ih h, heldRows, heldRows, List.filter_cons]
        simp [hkey]

/-- The rows that were just read take the same places again. -/
theorem mergeParams_again {entries : List Row} (h : ∀ row ∈ entries, row.enabled = true)
    (previous : List Row) :
    mergeParams (mergeParams previous entries) entries = mergeParams previous entries := by
  have hself : ∀ {entries : List Row}, (∀ row ∈ entries, row.enabled = true) →
      mergeParams entries entries = entries := by
    intro entries hall
    induction entries with
    | nil => rfl
    | cons entry entries ih =>
        rw [mergeParams, if_pos (hall entry (List.mem_cons_self ..))]
        exact congrArg (entry :: ·) (ih fun row hrow => hall row (List.mem_cons_of_mem entry hrow))
  induction previous generalizing entries with
  | nil => exact hself h
  | cons row previous ih =>
      rw [mergeParams]
      split_ifs with henabled hkey
      · cases entries with
        | nil => exact ih h
        | cons entry entries =>
            have hrest : ∀ row ∈ entries, row.enabled = true := fun row hrow =>
              h row (List.mem_cons_of_mem entry hrow)
            change mergeParams (entry :: mergeParams previous entries) (entry :: entries) =
              entry :: mergeParams previous entries
            rw [mergeParams, if_pos (h entry (List.mem_cons_self ..))]
            exact congrArg (entry :: ·) (ih hrest)
      · rw [mergeParams, if_neg henabled, if_pos hkey, ih h]
      · exact ih h

/-! ## The rows of an address -/

/-- The editor's blank row stands where there is no other. -/
theorem parseParamsFromUrl_eq (url : Text) (previous : List Row) :
    parseParamsFromUrl pairsOf url previous =
      if mergeParams previous (entriesOf pairsOf url) = [] then [blankRow]
      else mergeParams previous (entriesOf pairsOf url) := by
  unfold parseParamsFromUrl
  dsimp only
  split
  · next hnone => exact (if_pos hnone).symm
  · next hsome => exact (if_neg hsome).symm

/-- The rows of an address: a pair of its query each, in their order, and with them the rows that
were switched off, in theirs. Reading the address again changes none. -/
theorem parseParamsFromUrl_mirrors (url : Text) (previous : List Row) :
    enabledRows (parseParamsFromUrl pairsOf url previous) = entriesOf pairsOf url ∧
      heldRows (parseParamsFromUrl pairsOf url previous) = heldRows previous ∧
      parseParamsFromUrl pairsOf url (parseParamsFromUrl pairsOf url previous) =
        parseParamsFromUrl pairsOf url previous := by
  have hall : ∀ row ∈ entriesOf pairsOf url, row.enabled = true := fun row hrow =>
    enabled_of_mem_entriesOf pairsOf hrow
  have henabled := enabledRows_mergeParams hall previous
  have hheld := heldRows_mergeParams hall previous
  by_cases hnone : mergeParams previous (entriesOf pairsOf url) = []
  · rw [hnone] at henabled hheld
    have hread : parseParamsFromUrl pairsOf url previous = [blankRow] := by
      rw [parseParamsFromUrl_eq, if_pos hnone]
    rw [hread, ← henabled, ← hheld]
    refine ⟨rfl, rfl, ?_⟩
    rw [parseParamsFromUrl_eq, ← henabled]
    rfl
  · have hread : parseParamsFromUrl pairsOf url previous =
        mergeParams previous (entriesOf pairsOf url) := by
      rw [parseParamsFromUrl_eq, if_neg hnone]
    rw [hread]
    refine ⟨henabled, hheld, ?_⟩
    rw [parseParamsFromUrl_eq, mergeParams_again hall, if_neg hnone]

/-! ## An address from its rows -/

/-- An address as text: what stands in front of its query, the query, and the
fragment with its mark. -/
structure Endpoint where
  base : Text
  query : Text
  hash : Text

/-- An address, which may hold variables and need not be one to a parser. -/
def splitEndpoint (text : Text) : Endpoint :=
  let (beforeHash, fragment) := cutAt 0x23 text
  let (base, query) := cutAt 0x3F beforeHash
  { base
    query := query.getD []
    hash := (fragment.map fun rest => 0x23 :: rest).getD [] }

/-- The parts of a text behind `typed`, the variables as they are and what stands
between them encoded. -/
def encodeParts (typed : Text) : List (CodeUnit ⊕ Text) → Option Text
  | [] => encodeURIComponent typed
  | .inl c :: rest => encodeParts (typed ++ [c]) rest
  | .inr inside :: rest => do
      let before ← encodeURIComponent typed
      let after ← encodeParts [] rest
      return before ++ placeholderText inside ++ after

/-- A name or a value of a query, each variable left as typed; `none` where it throws. -/
def encodeQueryPart (text : Text) : Option Text :=
  encodeParts [] (parts placeholderAt text)

/-- A pair of a query. -/
def encodePair (param : Row) : Option Text := do
  let key ← encodeQueryPart param.key
  let value ← encodeQueryPart param.value
  return key ++ units "=" ++ value

/-- The rows that are written into an address. -/
def writtenRows (params : List Row) : List Row :=
  params.filter fun param => param.enabled && param.key ≠ []

/-- An address with the query of its rows, or none where there is no address;
`none` where it throws. -/
def buildUrlFromParams (endpoint : Text) (params : List Row) : Option (Option Text) :=
  if endpoint = [] then some none
  else do
    let pairs ← (writtenRows params).mapM encodePair
    let query := joinWith (units "&") pairs
    return some ((splitEndpoint endpoint).base ++ (if query ≠ [] then units "?" ++ query else []) ++
      (splitEndpoint endpoint).hash)

/-! ## Reading what was written -/

/-- A variable that a query leaves as it is: it is made of characters, and holds none that means
something in a query. -/
def IsKept (inside : Text) : Prop :=
  (∀ p ∈ codePoints (placeholderText inside), isSurrogate p = false) ∧
    ∀ c ∈ inside, c ∉ units "%+&=#"

/-- The variables of a row are left as they are. -/
def RowKept (row : Row) : Prop :=
  ∀ inside, .inr inside ∈ parts placeholderAt row.key ++ parts placeholderAt row.value →
    IsKept inside

theorem not_mem_placeholder {inside : Text} (h : IsKept inside) :
    ∀ c ∈ units "%+&=#", c ∉ placeholderText inside := by
  intro c hc hmem
  have hall : ∀ c ∈ units "%+&=#", c ≠ openBrace ∧ c ≠ closeBrace := by decide
  obtain ⟨hopen, hclose⟩ := hall c hc
  simp only [placeholderText, List.mem_cons, List.cons_append, List.mem_append, List.not_mem_nil,
    or_false, hopen, hclose, false_or] at hmem
  exact h.2 c hmem hc

/-- A variable that is left as it is, is read as it is. -/
theorem spells_placeholder {inside : Text} (h : IsKept inside) :
    Spells (placeholderText inside) (codePoints (placeholderText inside)) := by
  have hscalar : ∀ p ∈ codePoints (placeholderText inside), IsScalar p := fun p hp =>
    ⟨h.1 p hp, codePoints_lt _ p hp⟩
  have hother := not_mem_placeholder h
  have hpoints : ∀ rest, codePoints (placeholderText inside ++ rest) =
      codePoints (placeholderText inside) ++ codePoints rest := by
    intro rest
    have hsplit : ∀ t : Text, placeholderText inside ++ t =
        (openBrace :: openBrace :: inside ++ [closeBrace]) ++ closeBrace :: t := by
      intro t
      simp [placeholderText]
    have hclose : isPlain closeBrace = true := by decide
    have hend : ∀ t : Text, codePoints (placeholderText inside ++ t) =
        codePoints (openBrace :: openBrace :: inside ++ [closeBrace]) ++
          closeBrace.toNat :: codePoints t := by
      intro t
      rw [hsplit, codePoints_append_cons hclose _ t]
    have halone := hend []
    rw [List.append_nil] at halone
    rw [hend, halone, List.append_assoc]
    rfl
  intro rest
  rw [plusTo_append, plusTo_of_not_mem (hother plusSign (by decide)), utf8Bytes, hpoints,
    List.map_append, map_scalar_of_isScalar hscalar, List.flatMap_append]
  refine percentBytes_append (fun hmem => ?_) _
  obtain ⟨p, hp, hbyte⟩ := List.mem_flatMap.mp hmem
  obtain rfl := eq_of_mem_encodeUtf8 (by decide) hbyte
  have hunit : percentSign ∈ placeholderText inside := by
    rw [← ofCodePoints_codePoints (placeholderText inside)]
    exact List.mem_flatMap.mpr ⟨0x25, hp, by decide⟩
  exact hother percentSign (by decide) hunit

/-- What is written of a name or a value: it is read back as that, and joins with nothing. -/
structure Encoded (w t : Text) : Prop where
  decodes : ∃ points, (∀ p ∈ points, IsScalar p) ∧ ofCodePoints points = t ∧ Spells w points
  joins : ∀ c ∈ units "&=#", c ∉ w
  first : w.head? ≠ some 0x3F

theorem Encoded.formDecode_eq {w t : Text} (h : Encoded w t) : formDecode w = t := by
  obtain ⟨points, hscalar, hpoints, hspells⟩ := h.decodes
  rw [formDecode_of_spells hspells hscalar, hpoints]

theorem Encoded.append {w t v u : Text} (hw : Encoded w t) (hv : Encoded v u) :
    Encoded (w ++ v) (t ++ u) := by
  obtain ⟨points, hscalar, hpoints, hspells⟩ := hw.decodes
  obtain ⟨more, hmore, hmorePoints, hmoreSpells⟩ := hv.decodes
  refine ⟨⟨points ++ more, ?_, ?_, hspells.append hmoreSpells⟩, ?_, ?_⟩
  · exact List.forall_mem_append.mpr ⟨hscalar, hmore⟩
  · rw [ofCodePoints, List.flatMap_append]
    exact congrArg₂ (· ++ ·) hpoints hmorePoints
  · intro c hc hmem
    exact (List.mem_append.mp hmem).elim (hw.joins c hc) (hv.joins c hc)
  · cases w with
    | nil => exact hv.first
    | cons c w => exact hw.first

theorem encoded_component {t w : Text} (h : encodeURIComponent t = some w) : Encoded w t := by
  rw [encodeURIComponent] at h
  split_ifs at h with hlone
  cases h
  have hscalar : ∀ p ∈ codePoints t, IsScalar p := by
    intro p hp
    refine ⟨?_, codePoints_lt t p hp⟩
    by_contra hsurrogate
    exact hlone (List.any_eq_true.mpr ⟨p, hp, by simpa using hsurrogate⟩)
  have hunit : ∀ c ∈ (codePoints t).flatMap
      (fun p => (encodeUtf8 p).flatMap (escapeByte componentMarks)), isEncodedUnit c = true := by
    intro c hc
    obtain ⟨p, hp, hbytes⟩ := List.mem_flatMap.mp hc
    obtain ⟨b, hb, hbyte⟩ := List.mem_flatMap.mp hbytes
    exact isEncodedUnit_of_mem_escapeByte (encodeUtf8_lt (hscalar p hp).2 b hb) hbyte
  refine ⟨⟨codePoints t, hscalar, ofCodePoints_codePoints t, spells_points hscalar⟩, ?_, ?_⟩
  · intro c hc hmem
    have hother : ∀ c ∈ units "&=#", isEncodedUnit c = false := by decide
    have hencoded := hunit c hmem
    rw [hother c hc] at hencoded
    cases hencoded
  · intro hhead
    have hmem := List.mem_of_mem_head? (Option.mem_def.mpr hhead)
    exact absurd (hunit _ hmem) (by decide)

theorem encoded_placeholder {inside : Text} (h : IsKept inside) :
    Encoded (placeholderText inside) (placeholderText inside) where
  decodes := ⟨_, fun p hp => ⟨h.1 p hp, codePoints_lt _ p hp⟩, ofCodePoints_codePoints _,
    spells_placeholder h⟩
  joins := by
    intro c hc
    have hall : ∀ c ∈ units "&=#", c ∈ units "%+&=#" := by decide
    exact not_mem_placeholder h c (hall c hc)
  first := by
    show some openBrace ≠ some 0x3F
    decide

/-- What is written of the parts of a text. -/
theorem encoded_parts {read : List (CodeUnit ⊕ Text)}
    (hkept : ∀ inside, .inr inside ∈ read → IsKept inside) {typed w : Text}
    (h : encodeParts typed read = some w) : Encoded w (typed ++ ofParts placeholderText read) := by
  -- On the parts: `typed` is what stands in front of them since the last variable.
  induction read generalizing typed w with
  | nil =>
      have htyped : typed ++ ofParts placeholderText [] = typed := List.append_nil typed
      rw [htyped]
      exact encoded_component h
  | cons part read ih =>
      have hrest : ∀ inside, .inr inside ∈ read → IsKept inside := fun inside hmem =>
        hkept inside (List.mem_cons_of_mem part hmem)
      cases part with
      | inl c =>
          have hread := ih hrest h
          rw [List.append_assoc, List.singleton_append] at hread
          rw [ofParts_inl]
          exact hread
      | inr inside =>
          obtain ⟨before, hbefore, h⟩ := Option.bind_eq_some_iff.mp h
          obtain ⟨after, hafter, h⟩ := Option.bind_eq_some_iff.mp h
          cases h
          have hinside : IsKept inside := hkept inside (List.mem_cons_self ..)
          have hread := ((encoded_component hbefore).append (encoded_placeholder hinside)).append
            (ih hrest hafter)
          rw [List.nil_append] at hread
          rw [ofParts_inr, ← List.append_assoc]
          exact hread

theorem ofParts_placeholders (t : Text) : ofParts placeholderText (parts placeholderAt t) = t := by
  induction t using readsPlaceholders.induct with
  | nil => rfl
  | mark t inside after hat ih =>
      obtain ⟨written, hwritten, rfl⟩ := readsPlaceholders.read hat
      rw [readsPlaceholders.parts_of_mark hat, ofParts_inr, ih, hwritten.2]
  | plain c rest hat ih =>
      rw [parts_of_none hat, ofParts_inl, ih]

/-- A pair of a query that is read as one: it neither ends one nor the query, and is there. -/
def IsPiece (piece : Text) : Prop :=
  0x26 ∉ piece ∧ 0x23 ∉ piece ∧ piece ≠ [] ∧ piece.head? ≠ some 0x3F

/-- What is written of a row's pair is read as the pair. -/
theorem formPiece_encodePair {row : Row} (hkept : RowKept row) {piece : Text}
    (h : encodePair row = some piece) :
    formPiece piece = (row.key, row.value) ∧ IsPiece piece := by
  obtain ⟨key, hkey, h⟩ := Option.bind_eq_some_iff.mp h
  obtain ⟨value, hvalue, h⟩ := Option.bind_eq_some_iff.mp h
  cases h
  have hname := encoded_parts (fun inside hmem => hkept inside (List.mem_append_left _ hmem)) hkey
  have hsaid :=
    encoded_parts (fun inside hmem => hkept inside (List.mem_append_right _ hmem)) hvalue
  rw [List.nil_append, ofParts_placeholders] at hname hsaid
  have hequals : units "=" = [0x3D] := by decide
  have heq : (0x3D : CodeUnit) ∈ units "&=#" := by decide
  have hjoins : ∀ c ∈ units "&#", c ∉ key ++ 0x3D :: value := by
    intro c hc hmem
    have hall : ∀ c ∈ units "&#", c ∈ units "&=#" ∧ c ≠ 0x3D := by decide
    obtain ⟨hunit, hequal⟩ := hall c hc
    rcases List.mem_append.mp hmem with hmem | hmem
    · exact hname.joins c hunit hmem
    · rcases List.mem_cons.mp hmem with hmem | hmem
      · exact hequal hmem
      · exact hsaid.joins c hunit hmem
  rw [hequals, List.append_assoc, List.singleton_append]
  refine ⟨?_, hjoins _ (by decide), hjoins _ (by decide), by simp, ?_⟩
  · -- The first equals sign is the one between the two.
    rw [formPiece, cutAt_append_cons (hname.joins _ heq)]
    simp only [Option.getD_some, hname.formDecode_eq, hsaid.formDecode_eq]
  · cases key with
    | nil =>
        show some 0x3D ≠ some 0x3F
        decide
    | cons c key => exact hname.first

theorem formPiece_encodePairs {rows : List Row} (hkept : ∀ row ∈ rows, RowKept row)
    {pairs : List Text} (h : rows.mapM encodePair = some pairs) :
    pairs.map formPiece = rows.map (fun row => (row.key, row.value)) ∧
      ∀ piece ∈ pairs, IsPiece piece := by
  induction rows generalizing pairs with
  | nil =>
      cases h
      exact ⟨rfl, fun _ hpiece => absurd hpiece List.not_mem_nil⟩
  | cons row rows ih =>
      rw [List.mapM_cons] at h
      obtain ⟨piece, hpiece, h⟩ := Option.bind_eq_some_iff.mp h
      obtain ⟨rest, hrest, h⟩ := Option.bind_eq_some_iff.mp h
      cases h
      obtain ⟨hread, hone⟩ := formPiece_encodePair (hkept row (List.mem_cons_self ..)) hpiece
      obtain ⟨hmap, hpieces⟩ := ih (fun row hrow => hkept row (List.mem_cons_of_mem _ hrow)) hrest
      exact ⟨by rw [List.map_cons, List.map_cons, hread, hmap],
        List.forall_mem_cons.mpr ⟨hone, hpieces⟩⟩

/-- The pieces of a query, read as the pairs of a form. -/
theorem searchParams_pieces {pieces : List Text} (h : ∀ piece ∈ pieces, IsPiece piece) :
    searchParams (joinWith (units "&") pieces) = pieces.map formPiece ∧
      0x23 ∉ joinWith (units "&") pieces := by
  have hamp : units "&" = [0x26] := by decide
  have hmark : units "?" = [0x3F] := by decide
  have hsharp : 0x23 ∉ joinWith (units "&") pieces := by
    intro hmem
    rcases of_mem_joinWith hmem with hmem | ⟨piece, hpiece, hmem⟩
    · exact absurd hmem (by decide)
    · exact (h piece hpiece).2.1 hmem
  cases pieces with
  | nil => exact ⟨rfl, hsharp⟩
  | cons piece pieces =>
      obtain ⟨-, -, hne, hfirst⟩ := h piece (List.mem_cons_self ..)
      obtain ⟨c, tail, rfl⟩ := List.exists_cons_of_ne_nil hne
      obtain ⟨rest, hjoin⟩ : ∃ rest, joinWith (units "&") ((c :: tail) :: pieces) = c :: rest := by
        cases pieces with
        | nil => exact ⟨tail, by simp [joinWith]⟩
        | cons next pieces => exact ⟨_, by rw [joinWith, List.intercalate_cons_cons]; rfl⟩
      refine ⟨?_, hsharp⟩
      -- The query starts as its first piece does, so no question mark is taken off.
      have hstart :
          (units "?").isPrefixOf (joinWith (units "&") ((c :: tail) :: pieces)) = false := by
        rw [hjoin, hmark]
        have hc : ((0x3F : CodeUnit) == c) = false := beq_false_of_ne fun heq => hfirst (heq ▸ rfl)
        rw [List.isPrefixOf, hc]
        rfl
      have hfull : ∀ piece ∈ (c :: tail) :: pieces, decide (piece ≠ []) = true :=
        fun piece hpiece =>
        decide_eq_true (h piece hpiece).2.2.1
      rw [searchParams, hstart, if_neg (by decide), formParse, hamp,
        splitOn_joinWith (List.cons_ne_nil _ _) fun piece hpiece => (h piece hpiece).1,
        List.filter_eq_self.mpr hfull]

/-- The rows that an address was built of take their places again. -/
theorem mergeParams_written {rows : List Row}
    (hnamed : ∀ row ∈ rows, row.enabled = true → row.key ≠ []) :
    mergeParams rows (writtenRows rows) = rows.filter fun row => row.key ≠ [] := by
  induction rows with
  | nil => rfl
  | cons row rows ih =>
      have hrest := ih fun row hrow => hnamed row (List.mem_cons_of_mem _ hrow)
      rw [writtenRows] at hrest
      rw [mergeParams, writtenRows, List.filter_cons, List.filter_cons]
      by_cases henabled : row.enabled = true
      · have hkey : row.key ≠ [] := hnamed row (List.mem_cons_self ..) henabled
        simp only [henabled, hkey, ne_eq, not_false_eq_true, decide_true, Bool.and_self, if_true]
        exact congrArg (row :: ·) hrest
      · by_cases hkey : row.key = []
        · simp only [henabled, hkey, ne_eq, not_true_eq_false, decide_false,
            Bool.and_false, if_false, Bool.false_eq_true]
          exact hrest
        · simp only [henabled, hkey, ne_eq, not_false_eq_true, decide_true, if_true, if_false,
            Bool.false_eq_true, Bool.false_and]
          exact congrArg (row :: ·) hrest

/-- What is in front of a query and behind it stays there. -/
theorem splitEndpoint_rebuilt (endpoint : Text) {query : Text} (hsharp : 0x23 ∉ query) :
    splitEndpoint
      ((splitEndpoint endpoint).base ++ (if query ≠ [] then units "?" ++ query else []) ++
      (splitEndpoint endpoint).hash) = { splitEndpoint endpoint with query } := by
  have hmark : units "?" = [0x3F] := by decide
  have hbase : 0x3F ∉ (splitEndpoint endpoint).base := not_mem_cutAt 0x3F _
  have hfront :
      0x23 ∉ (splitEndpoint endpoint).base ++ (if query ≠ [] then units "?" ++ query else []) := by
    rw [List.mem_append, not_or]
    refine ⟨fun hmem => not_mem_cutAt 0x23 endpoint (mem_of_mem_cutAt (.inl hmem)), ?_⟩
    split_ifs
    · rw [hmark, List.singleton_append, List.mem_cons, not_or]
      exact ⟨by decide, hsharp⟩
    · exact List.not_mem_nil
  have hquery : cutAt 0x3F ((splitEndpoint endpoint).base ++
      (if query ≠ [] then units "?" ++ query else [])) =
      ((splitEndpoint endpoint).base, if query ≠ [] then some query else none) := by
    split_ifs
    · rw [hmark, List.singleton_append, cutAt_append_cons hbase]
    · rw [List.append_nil, cutAt_of_not_mem hbase]
  have hhash : cutAt 0x23 ((splitEndpoint endpoint).base ++
      (if query ≠ [] then units "?" ++ query else []) ++ (splitEndpoint endpoint).hash) =
      ((splitEndpoint endpoint).base ++ (if query ≠ [] then units "?" ++ query else []),
        (cutAt 0x23 endpoint).2) := by
    have hshown : (splitEndpoint endpoint).hash =
        ((cutAt 0x23 endpoint).2.map fun rest => 0x23 :: rest).getD [] := rfl
    rw [hshown]
    cases (cutAt 0x23 endpoint).2 with
    | none => rw [Option.map_none, Option.getD_none, List.append_nil, cutAt_of_not_mem hfront]
    | some rest => rw [Option.map_some, Option.getD_some, cutAt_append_cons hfront]
  have hread : (if query ≠ [] then some query else none).getD [] = query := by
    split_ifs with hne
    · rfl
    · exact (not_not.mp hne).symm
  rw [splitEndpoint, hhash]
  simp only [hquery, hread]
  rfl

/-- An address that was built of its rows has what it had in front of its query and behind, and is
read as the rows that have a name: names, values, switches and order. -/
theorem parseParamsFromUrl_buildUrlFromParams {endpoint url : Text} {rows : List Row}
    (hbuilt : buildUrlFromParams endpoint rows = some (some url))
    (htext : ∀ row ∈ rows, row.json = false)
    (hnamed : ∀ row ∈ rows, row.enabled = true → row.key ≠ [])
    (hkept : ∀ row ∈ writtenRows rows, RowKept row) :
    (splitEndpoint url).base = (splitEndpoint endpoint).base ∧
      (splitEndpoint url).hash = (splitEndpoint endpoint).hash ∧
      parseParamsFromUrl searchParams url rows =
        if (rows.filter fun row => row.key ≠ []) = [] then [blankRow]
        else rows.filter fun row => row.key ≠ [] := by
  rw [buildUrlFromParams] at hbuilt
  split_ifs at hbuilt
  · cases hbuilt
  obtain ⟨pairs, hpairs, hurl⟩ := Option.bind_eq_some_iff.mp hbuilt
  cases hurl
  obtain ⟨hmap, hpieces⟩ := formPiece_encodePairs hkept hpairs
  obtain ⟨hsearch, hsharp⟩ := searchParams_pieces hpieces
  have hsplit := splitEndpoint_rebuilt endpoint hsharp
  refine ⟨by rw [hsplit], by rw [hsplit], ?_⟩
  have hquery := congrArg Endpoint.query hsplit
  have hentries : entriesOf searchParams ((splitEndpoint endpoint).base ++
      (if joinWith (units "&") pairs ≠ [] then units "?" ++ joinWith (units "&") pairs else []) ++
      (splitEndpoint endpoint).hash) = writtenRows rows := by
    rw [entriesOf]
    change (searchParams (splitEndpoint _).query).map _ = _
    rw [hquery, hsearch, hmap, List.map_map]
    refine (List.map_congr_left fun row hrow => ?_).trans (List.map_id _)
    obtain ⟨hmem, hwritten⟩ := List.mem_filter.mp hrow
    have henabled : row.enabled = true := by
      rw [Bool.and_eq_true] at hwritten
      exact hwritten.1
    obtain ⟨key, value, enabled, json⟩ := row
    have hjson : json = false := htext _ hmem
    subst hjson
    cases henabled
    rfl
  rw [parseParamsFromUrl_eq, hentries, mergeParams_written hnamed]

/-- A row whose value holds a variable, and one that is switched off. -/
def tokenRows : List Row :=
  [{ key := units "a", value := units "\x7b\x7bb\x7d\x7d c", enabled := true },
    { key := units "d", value := [], enabled := false }]

theorem tokenRows_readBack :
    parseParamsFromUrl searchParams (units "http://h.test/?a=\x7b\x7bb\x7d\x7d%20c#top") tokenRows =
      tokenRows := by
  have hbuilt : buildUrlFromParams (units "http://h.test/#top") tokenRows =
      some (some (units "http://h.test/?a=\x7b\x7bb\x7d\x7d%20c#top")) := by decide
  have hkept : ∀ row ∈ writtenRows tokenRows, RowKept row := by
    have hrows : writtenRows tokenRows =
        [{ key := units "a", value := units "\x7b\x7bb\x7d\x7d c", enabled := true }] := by decide
    have hparts : parts placeholderAt (units "a") ++
        parts placeholderAt (units "\x7b\x7bb\x7d\x7d c") =
        [.inl 0x61, .inr (units "b"), .inl 0x20, .inl 0x63] := by decide
    intro row hrow inside hinside
    rw [hrows] at hrow
    cases List.mem_singleton.mp hrow
    have hb : inside = units "b" := by
      rw [hparts] at hinside
      simpa using hinside
    subst hb
    exact ⟨by decide, by decide⟩
  have hread := parseParamsFromUrl_buildUrlFromParams hbuilt (by decide) (by decide) hkept
  rw [hread.2.2]
  decide

end Wayfarer
