import Wayfarer.Library.CodePoints

/-!
# The front of an HTML document

How a parser of HTML reads the start of a document: the text is decoded, cut into tokens, and the
tokens build the tree.

Only what stands in front of a document is here: characters, a doctype, and start tags of elements
that have no content and belong in the head, with quoted values. A text that goes on with anything
else (a comment, an end tag, a character reference) is read no further (`none`).

`tokens_doctype` says what ends a doctype, whatever is written in it: the first `>`.
-/

set_option autoImplicit false

namespace Library.Html

/-! ## The characters of a document -/

/-- Line ends as a line feed each. -/
def normalizeNewlines : Text → Text
  | [] => []
  | 0x0D :: 0x0A :: rest => 0x0A :: normalizeNewlines rest
  | 0x0D :: rest => 0x0A :: normalizeNewlines rest
  | c :: rest => c :: normalizeNewlines rest

/-- A text without the byte order mark it starts with. -/
def withoutMark : Text → Text
  | 0xFEFF :: rest => rest
  | t => t

/-- A letter in lower case. -/
def lower (c : CodeUnit) : CodeUnit :=
  if 0x41 ≤ c && c ≤ 0x5A then c + 0x20 else c

/-- The characters that a parser is given for a document's text, written as UTF-8. -/
def decoded (t : Text) : Text :=
  normalizeNewlines (withoutMark (scrub t))

/-- A letter in lower case is no half of a pair and no line end, in either case. -/
theorem plain_of_lower {c : CodeUnit} (h : isPlain (lower c) = true ∧ lower c ≠ 0x0D) :
    isPlain c = true ∧ c ≠ 0x0D := by
  unfold lower at h
  split_ifs at h with hupper
  · rw [Bool.and_eq_true, decide_eq_true_iff, decide_eq_true_iff] at hupper
    have hlow : 0x41 ≤ c.toNat := UInt16.le_iff_toNat_le.mp hupper.1
    have hhigh : c.toNat ≤ 0x5A := UInt16.le_iff_toNat_le.mp hupper.2
    constructor
    · simp only [isPlain, isHigh, isLow, Bool.and_eq_true, Bool.not_eq_true', Bool.and_eq_false_iff,
        decide_eq_false_iff_not]
      omega
    · rintro rfl
      exact absurd hlow (by decide)
  · exact h

/-- A mark stands at the start of a text that goes on with another character. -/
theorem withoutMark_append_cons {c : CodeUnit} (hc : c ≠ 0xFEFF) (w t : Text) :
    withoutMark (w ++ c :: t) = withoutMark w ++ c :: t := by
  cases w with
  | nil =>
      rw [List.nil_append]
      unfold withoutMark
      split
      · next heq => exact absurd (List.cons.inj heq).1 hc
      · rfl
  | cons d rest =>
      rw [List.cons_append]
      unfold withoutMark
      split
      · next heq =>
          obtain ⟨rfl, rfl⟩ := List.cons.inj heq
          rfl
      · next hmark =>
          split
          · next heq =>
              obtain ⟨rfl, rfl⟩ := List.cons.inj heq
              exact absurd rfl (hmark (rest ++ c :: t))
          · rfl

/-- A unit that is no half of a pair is what it was, wherever it stands. -/
theorem scrub_append_cons {c : CodeUnit} (hc : isPlain c = true) (s t : Text) :
    scrub (s ++ c :: t) = scrub s ++ c :: scrub t := by
  have hscalar : scalar c.toNat = c.toNat := by
    unfold scalar isSurrogate
    rw [isPlain, Bool.and_eq_true, isHigh, isLow] at hc
    simp only [Bool.not_eq_true', Bool.and_eq_false_iff, decide_eq_false_iff_not] at hc
    rw [if_neg]
    simp only [Bool.and_eq_true, decide_eq_true_eq]
    omega
  unfold scrub ofCodePoints
  rw [codePoints_append_cons hc, List.map_append, List.map_cons, List.flatMap_append,
    List.flatMap_cons, hscalar, unitsOf_toNat, List.singleton_append]

/-- A word of such units is left as it is. -/
theorem scrub_append {w : Text} (hw : ∀ c ∈ w, isPlain c = true) (t : Text) :
    scrub (w ++ t) = w ++ scrub t := by
  induction w with
  | nil => rfl
  | cons c rest ih =>
      have hcons := scrub_append_cons (hw c List.mem_cons_self) [] (rest ++ t)
      rw [List.nil_append, ih fun d hd => hw d (List.mem_cons_of_mem c hd)] at hcons
      exact hcons

/-- A code point below the surrogates is a unit of the text. -/
theorem mem_of_mem_codePoints {c : CodeUnit} {t : Text} (h : c.toNat ∈ codePoints t) : c ∈ t := by
  fun_induction codePoints t with
  | case1 => cases h
  | case2 d =>
      rw [List.mem_singleton] at h ⊢
      exact UInt16.toNat_inj.mp h
  | case3 d e rest hpair ih =>
      rcases List.mem_cons.mp h with heq | hrest
      · have hlt := c.toNat_lt
        omega
      · exact List.mem_cons_of_mem d (List.mem_cons_of_mem e (ih hrest))
  | case4 d e rest hpair ih =>
      rcases List.mem_cons.mp h with heq | hrest
      · rw [UInt16.toNat_inj.mp heq]
        exact List.mem_cons_self
      · exact List.mem_cons_of_mem d (ih hrest)

/-- Scrubbing brings in the replacement character only. -/
theorem mem_of_mem_scrub {c : CodeUnit} (hc : c.toNat < 0xD800) {t : Text} (h : c ∈ scrub t) :
    c ∈ t := by
  obtain ⟨q, hq, hmem⟩ := List.mem_flatMap.mp h
  obtain ⟨p, hp, rfl⟩ := List.mem_map.mp hq
  have hlt := codePoints_lt t p hp
  have heq : c.toNat = p := by
    unfold unitsOf scalar replacement at hmem
    split_ifs at hmem with hsurrogate hbasic hbasic
    · rw [List.mem_singleton] at hmem
      rw [hmem] at hc
      exact absurd hc (by decide)
    · exact absurd (by decide) hbasic
    · rw [List.mem_singleton] at hmem
      rw [hmem, toNat_toUInt16 hbasic]
    · rcases List.mem_pair.mp hmem with heq | heq
      · rw [heq, toNat_toUInt16 (by omega)] at hc
        omega
      · rw [heq, toNat_toUInt16 (by omega)] at hc
        omega
  rw [← heq] at hp
  exact mem_of_mem_codePoints hp

theorem normalizeNewlines_cons {c : CodeUnit} (hc : c ≠ 0x0D) (t : Text) :
    normalizeNewlines (c :: t) = c :: normalizeNewlines t :=
  normalizeNewlines.eq_4 c t (fun _ h => absurd h hc) hc

/-- Line ends are those on either side of a character that is part of none. -/
theorem normalizeNewlines_append_cons {c : CodeUnit} (hcr : c ≠ 0x0D) (hlf : c ≠ 0x0A)
    (s t : Text) :
    normalizeNewlines (s ++ c :: t) = normalizeNewlines s ++ c :: normalizeNewlines t := by
  fun_induction normalizeNewlines s with
  | case1 => exact normalizeNewlines_cons hcr t
  | case2 rest ih =>
      rw [List.cons_append, List.cons_append, List.cons_append, ← ih]
      rfl
  | case3 rest hnot ih =>
      rw [List.cons_append, List.cons_append, ← ih]
      refine normalizeNewlines.eq_3 _ fun later hlater => ?_
      cases rest with
      | nil => exact hlf (List.cons.inj hlater).1
      | cons d rest => exact hnot rest (by rw [(List.cons.inj hlater).1])
  | case4 d rest hcrlf hd ih =>
      rw [List.cons_append, List.cons_append, ← ih]
      exact normalizeNewlines_cons hd _

theorem normalizeNewlines_append {w : Text} (hw : ∀ c ∈ w, c ≠ 0x0D) (t : Text) :
    normalizeNewlines (w ++ t) = w ++ normalizeNewlines t := by
  induction w with
  | nil => rfl
  | cons c rest ih =>
      rw [List.cons_append, normalizeNewlines_cons (hw c List.mem_cons_self),
        ih fun d hd => hw d (List.mem_cons_of_mem c hd)]
      rfl

/-- A character that is part of no line end is in the normalized text where it was in the text. -/
theorem mem_normalizeNewlines_iff {c : CodeUnit} (hcr : c ≠ 0x0D) (hlf : c ≠ 0x0A) (t : Text) :
    c ∈ normalizeNewlines t ↔ c ∈ t := by
  fun_induction normalizeNewlines t with
  | case1 => exact Iff.rfl
  | case2 rest ih => simp only [List.mem_cons, hcr, hlf, false_or, ih]
  | case3 rest hnot ih => simp only [List.mem_cons, hcr, hlf, false_or, ih]
  | case4 d rest hcrlf hd ih => simp only [List.mem_cons, ih]

theorem not_mem_normalizeNewlines (t : Text) : 0x0D ∉ normalizeNewlines t := by
  fun_induction normalizeNewlines t with
  | case1 => exact List.not_mem_nil
  | case2 rest ih => exact List.not_mem_cons_of_ne_of_not_mem (by decide) ih
  | case3 rest hnot ih => exact List.not_mem_cons_of_ne_of_not_mem (by decide) ih
  | case4 d rest hcrlf hd ih => exact List.not_mem_cons_of_ne_of_not_mem (Ne.symm hd) ih

/-! ## Tokens -/

/-- What the tokenizer gives. A doctype's name and identifiers decide on the quirks mode only. -/
inductive Token where
  | char (c : CodeUnit)
  | doctype
  | startTag (name : Text) (attributes : List (Text × Text))
  deriving DecidableEq

/-- White space, where line ends have been normalized. -/
def isSpace (c : CodeUnit) : Bool :=
  c = 0x09 || c = 0x0A || c = 0x0C || c = 0x20

/-- The character that ends a tag and a doctype. -/
def closing : CodeUnit := 0x3E

/-- The states inside a doctype. -/
inductive DoctypeState where
  | start
  | beforeName
  | name
  /-- After the name, with the letters of a keyword that have come. -/
  | afterName (seen : Text)
  | afterPublicKeyword
  | beforePublic
  | publicId (quote : CodeUnit)
  | afterPublic
  | between
  | afterSystemKeyword
  | beforeSystem
  | systemId (quote : CodeUnit)
  | afterSystem
  | bogus
  deriving DecidableEq

/-- A quotation mark. -/
def isQuote (c : CodeUnit) : Bool :=
  c = 0x22 || c = 0x27

namespace DoctypeState

/-- What is in no other place is skipped up to the end. -/
def inBogus (c : CodeUnit) : Option DoctypeState :=
  if c = closing then none else some .bogus

def inBeforeName (c : CodeUnit) : Option DoctypeState :=
  if isSpace c then some .beforeName
  else if c = closing then none
  else some .name

def inName (c : CodeUnit) : Option DoctypeState :=
  if isSpace c then some (.afterName [])
  else if c = closing then none
  else some .name

def inAfterName (seen : Text) (c : CodeUnit) : Option DoctypeState :=
  let word := seen ++ [lower c]
  if seen = [] && isSpace c then some (.afterName [])
  else if word = units "public" then some .afterPublicKeyword
  else if word = units "system" then some .afterSystemKeyword
  else if word.isPrefixOf (units "public") || word.isPrefixOf (units "system") then
    some (.afterName word)
  else inBogus c

/-- A place where an identifier may start: `spaced` follows white space,
`quoted` a quotation mark. -/
def inBeforeId (spaced : DoctypeState) (quoted : CodeUnit → DoctypeState) (c : CodeUnit) :
    Option DoctypeState :=
  if isSpace c then some spaced
  else if isQuote c then some (quoted c)
  else inBogus c

/-- Inside an identifier: the end of the doctype ends it too. -/
def inId (here ended : DoctypeState) (quote c : CodeUnit) : Option DoctypeState :=
  if c = closing then none
  else if c = quote then some ended
  else some here

def inAfterSystem (c : CodeUnit) : Option DoctypeState :=
  if isSpace c then some .afterSystem else inBogus c

/-- A character inside a doctype; `none` where it ends it. -/
def step : DoctypeState → CodeUnit → Option DoctypeState
  | .start, c => inBeforeName c
  | .beforeName, c => inBeforeName c
  | .name, c => inName c
  | .afterName seen, c => inAfterName seen c
  | .afterPublicKeyword, c => inBeforeId .beforePublic .publicId c
  | .beforePublic, c => inBeforeId .beforePublic .publicId c
  | .publicId quote, c => inId (.publicId quote) .afterPublic quote c
  | .afterPublic, c => inBeforeId .between .systemId c
  | .between, c => inBeforeId .between .systemId c
  | .afterSystemKeyword, c => inBeforeId .beforeSystem .systemId c
  | .beforeSystem, c => inBeforeId .beforeSystem .systemId c
  | .systemId quote, c => inId (.systemId quote) .afterSystem quote c
  | .afterSystem, c => inAfterSystem c
  | .bogus, c => inBogus c

end DoctypeState

/-- A start tag that is being read. -/
structure Tag where
  name : Text
  attributes : List (Text × Text) := []
  deriving DecidableEq

/-- The states of the tokenizer. -/
inductive State where
  | data
  | tagOpen
  /-- After `<!`, with the letters of the keyword that have come. -/
  | declaration (seen : Text)
  | doctype (state : DoctypeState)
  | tagName (name : Text)
  | beforeAttribute (tag : Tag)
  | attributeName (tag : Tag) (name : Text)
  | beforeValue (tag : Tag) (name : Text)
  | value (tag : Tag) (name value : Text)
  | afterValue (tag : Tag)
  deriving DecidableEq

/-- The tag has ended. -/
def Tag.ended (tag : Tag) : Option (State × List Token) :=
  some (.data, [.startTag tag.name tag.attributes])

/-- An ASCII letter. -/
def isLetter (c : CodeUnit) : Bool :=
  0x61 ≤ lower c && lower c ≤ 0x7A

/-- After `<`: the start of a tag's name, or of a declaration. -/
def inTagOpen (c : CodeUnit) : Option (State × List Token) :=
  if c = 0x21 then some (.declaration [], [])
  else if isLetter c then some (.tagName [lower c], [])
  else none

/-- After `<!`: a doctype. -/
def inDeclaration (seen : Text) (c : CodeUnit) : Option (State × List Token) :=
  let word := seen ++ [lower c]
  if word = units "doctype" then some (.doctype .start, [])
  else if word.isPrefixOf (units "doctype") then some (.declaration word, [])
  else none

/-- Where an attribute may start. -/
def inBeforeAttribute (tag : Tag) (c : CodeUnit) : Option (State × List Token) :=
  if isSpace c then some (.beforeAttribute tag, [])
  else if c = closing then tag.ended
  else if c = 0x2F || c = 0x3D then none
  else some (.attributeName tag [lower c], [])

/-- A character; `none` where the text goes on with what is not here. -/
def step : State → CodeUnit → Option (State × List Token)
  | .data, c =>
      if c = 0x26 then none
      else if c = 0x3C then some (.tagOpen, [])
      else some (.data, [.char c])
  | .tagOpen, c => inTagOpen c
  | .declaration seen, c => inDeclaration seen c
  | .doctype state, c =>
      match state.step c with
      | some state => some (.doctype state, [])
      | none => some (.data, [.doctype])
  | .tagName name, c =>
      if isSpace c then some (.beforeAttribute { name }, [])
      else if c = closing then Tag.ended { name }
      else if c = 0x2F then none
      else some (.tagName (name ++ [lower c]), [])
  | .beforeAttribute tag, c => inBeforeAttribute tag c
  | .attributeName tag name, c =>
      if c = 0x3D then some (.beforeValue tag name, [])
      else if isSpace c || c = closing || c = 0x2F then none
      else some (.attributeName tag (name ++ [lower c]), [])
  | .beforeValue tag name, c =>
      if isSpace c then some (.beforeValue tag name, [])
      else if c = 0x22 then some (.value tag name [], [])
      else none
  | .value tag name value, c =>
      if c = 0x22 then
        some (.afterValue { tag with attributes := tag.attributes ++ [(name, value)] }, [])
      else if c = 0x26 || c = 0 then none
      else some (.value tag name (value ++ [c]), [])
  | .afterValue tag, c =>
      if isSpace c || c = closing then inBeforeAttribute tag c
      else none

/-- The tokens of a text, and the state after it. -/
def tokens : State → Text → Option (State × List Token)
  | s, [] => some (s, [])
  | s, c :: rest =>
      (step s c).bind fun read =>
        (tokens read.1 rest).map fun later => (later.1, read.2 ++ later.2)

/-- Tokens of two pieces are those of the first, and those of the second in the state it leaves. -/
theorem tokens_append (s : State) (a b : Text) :
    tokens s (a ++ b) = (tokens s a).bind fun read =>
      (tokens read.1 b).map fun later => (later.1, read.2 ++ later.2) := by
  induction a generalizing s with
  | nil =>
      rw [List.nil_append, tokens, Option.bind_some]
      cases tokens s b with
      | none => rfl
      | some later => rfl
  | cons c rest ih =>
      rw [List.cons_append, tokens, tokens]
      cases step s c with
      | none => rfl
      | some read =>
          rw [Option.bind_some, Option.bind_some, ih]
          cases tokens read.1 rest with
          | none => rfl
          | some middle =>
              rw [Option.bind_some, Option.map_some, Option.bind_some]
              cases tokens middle.1 b with
              | none => rfl
              | some later => simp only [Option.map_some, List.append_assoc]

/-- Characters that start nothing are given as they are. -/
theorem tokens_data {w : Text} (hw : ∀ c ∈ w, c ≠ 0x26 ∧ c ≠ 0x3C) :
    tokens .data w = some (.data, w.map .char) := by
  induction w with
  | nil => rfl
  | cons c rest ih =>
      obtain ⟨hamp, hopen⟩ := hw c List.mem_cons_self
      rw [tokens, step, if_neg hamp, if_neg hopen, Option.bind_some,
        ih fun d hd => hw d (List.mem_cons_of_mem c hd)]
      rfl

namespace DoctypeState

/-- The closing character is in no keyword. -/
theorem inAfterName_closing (seen : Text) : inAfterName seen closing = none := by
  have hmem : closing ∈ seen ++ [lower closing] :=
    List.mem_append_right _ (List.mem_singleton.mpr rfl)
  have hpublic : ¬ (seen ++ [lower closing]) <+: units "public" :=
    fun h => absurd (h.subset hmem) (by decide)
  have hsystem : ¬ (seen ++ [lower closing]) <+: units "system" :=
    fun h => absurd (h.subset hmem) (by decide)
  have hspace : ¬ (seen = [] && isSpace closing) = true := by
    rw [Bool.and_eq_true]
    exact fun h => absurd h.2 (by decide)
  have hwords : ¬ ((seen ++ [lower closing]).isPrefixOf (units "public") ||
      (seen ++ [lower closing]).isPrefixOf (units "system")) = true := by
    rw [Bool.or_eq_true, List.isPrefixOf_iff_prefix, List.isPrefixOf_iff_prefix]
    exact not_or.mpr ⟨hpublic, hsystem⟩
  have hpublic' : seen ++ [lower closing] ≠ units "public" := fun h => hpublic (by rw [h])
  have hsystem' : seen ++ [lower closing] ≠ units "system" := fun h => hsystem (by rw [h])
  unfold inAfterName
  dsimp only
  rw [if_neg hspace, if_neg hpublic', if_neg hsystem', if_neg hwords]
  rfl

theorem inId_closing (here ended : DoctypeState) (quote : CodeUnit) :
    inId here ended quote closing = none :=
  if_pos rfl

/-- In every state, the closing character ends the doctype. -/
theorem step_closing (s : DoctypeState) : s.step closing = none := by
  cases s with
  | afterName seen => exact inAfterName_closing seen
  | publicId quote => exact inId_closing _ _ quote
  | systemId quote => exact inId_closing _ _ quote
  | _ => rfl

theorem exists_inBogus {c : CodeUnit} (h : c ≠ closing) : ∃ s, inBogus c = some s :=
  ⟨.bogus, if_neg h⟩

theorem exists_inBeforeName {c : CodeUnit} (h : c ≠ closing) : ∃ s, inBeforeName c = some s := by
  unfold inBeforeName
  rw [if_neg h]
  split_ifs
  · exact ⟨_, rfl⟩
  · exact ⟨_, rfl⟩

theorem exists_inName {c : CodeUnit} (h : c ≠ closing) : ∃ s, inName c = some s := by
  unfold inName
  rw [if_neg h]
  split_ifs
  · exact ⟨_, rfl⟩
  · exact ⟨_, rfl⟩

theorem exists_inAfterSystem {c : CodeUnit} (h : c ≠ closing) : ∃ s, inAfterSystem c = some s := by
  unfold inAfterSystem
  split_ifs
  · exact ⟨_, rfl⟩
  · exact exists_inBogus h

theorem exists_inAfterName {c : CodeUnit} (h : c ≠ closing) (seen : Text) :
    ∃ s, inAfterName seen c = some s := by
  unfold inAfterName
  dsimp only
  split_ifs
  · exact ⟨_, rfl⟩
  · exact ⟨_, rfl⟩
  · exact ⟨_, rfl⟩
  · exact ⟨_, rfl⟩
  · exact exists_inBogus h

theorem exists_inBeforeId {c : CodeUnit} (h : c ≠ closing) (spaced : DoctypeState)
    (quoted : CodeUnit → DoctypeState) : ∃ s, inBeforeId spaced quoted c = some s := by
  unfold inBeforeId
  split_ifs
  · exact ⟨_, rfl⟩
  · exact ⟨_, rfl⟩
  · exact exists_inBogus h

theorem exists_inId {c : CodeUnit} (h : c ≠ closing) (here ended : DoctypeState)
    (quote : CodeUnit) :
    ∃ s, inId here ended quote c = some s := by
  unfold inId
  rw [if_neg h]
  split_ifs
  · exact ⟨_, rfl⟩
  · exact ⟨_, rfl⟩

/-- In every state, any other character goes on with it. -/
theorem exists_step (s : DoctypeState) {c : CodeUnit} (h : c ≠ closing) :
    ∃ s', s.step c = some s' := by
  cases s with
  | start => exact exists_inBeforeName h
  | beforeName => exact exists_inBeforeName h
  | name => exact exists_inName h
  | afterName seen => exact exists_inAfterName h seen
  | afterPublicKeyword => exact exists_inBeforeId h _ _
  | beforePublic => exact exists_inBeforeId h _ _
  | publicId quote => exact exists_inId h _ _ quote
  | afterPublic => exact exists_inBeforeId h _ _
  | between => exact exists_inBeforeId h _ _
  | afterSystemKeyword => exact exists_inBeforeId h _ _
  | beforeSystem => exact exists_inBeforeId h _ _
  | systemId quote => exact exists_inId h _ _ quote
  | afterSystem => exact exists_inAfterSystem h
  | bogus => exact exists_inBogus h

end DoctypeState

/-- A doctype ends at the first closing character, whatever stands in it, and is one token. -/
theorem tokens_doctype (s : DoctypeState) {body : Text} (h : closing ∉ body) :
    tokens (.doctype s) (body ++ [closing]) = some (.data, [.doctype]) := by
  induction body generalizing s with
  | nil =>
      rw [List.nil_append, tokens, step, s.step_closing]
      rfl
  | cons c rest ih =>
      obtain ⟨hc, hrest⟩ := not_or.mp (fun hmem => h (List.mem_cons.mpr hmem))
      obtain ⟨s', hstep⟩ := s.exists_step (Ne.symm hc)
      rw [List.cons_append, tokens, step, hstep, Option.bind_some, ih s' hrest]
      rfl

/-- The keyword of a doctype, in any case: what is left of it after the letters `seen`. -/
theorem tokens_declaration {seen k : Text} (hne : k ≠ [])
    (hk : seen ++ k.map lower = units "doctype") :
    tokens (.declaration seen) k = some (.doctype .start, []) := by
  induction k generalizing seen with
  | nil => exact absurd rfl hne
  | cons c rest ih =>
      rw [List.map_cons] at hk
      rw [tokens, step]
      unfold inDeclaration
      dsimp only
      cases rest with
      | nil =>
          rw [List.map_nil] at hk
          rw [if_pos hk]
          rfl
      | cons d rest =>
          have hsplit : seen ++ [lower c] ++ (d :: rest).map lower = units "doctype" := by
            rw [List.append_assoc]
            exact hk
          have hword : seen ++ [lower c] ≠ units "doctype" := by
            intro h
            have hlen := congrArg List.length hsplit
            rw [h, List.length_append, List.map_cons, List.length_cons] at hlen
            omega
          have hprefix : (seen ++ [lower c]).isPrefixOf (units "doctype") = true := by
            rw [List.isPrefixOf_iff_prefix]
            exact ⟨_, hsplit⟩
          rw [if_neg hword, if_pos hprefix, Option.bind_some,
            ih (List.cons_ne_nil d rest) hsplit]
          rfl

theorem tokens_keyword {k : Text} (hk : k.map lower = units "doctype") :
    tokens .data (0x3C :: 0x21 :: k) = some (.doctype .start, []) := by
  have hne : k ≠ [] := by
    rintro rfl
    exact absurd hk (by decide)
  have hkeyword := @tokens_declaration [] k hne hk
  rw [tokens, step, if_neg (by decide), if_pos rfl, Option.bind_some, tokens, step, inTagOpen,
    if_pos rfl, Option.bind_some, hkeyword]
  rfl

/-! ## The tree -/

/-- The insertion modes up to the body. -/
inductive Mode where
  | initial
  | beforeHtml
  | beforeHead
  | inHead
  | afterHead
  | inBody

/-- An element of the tree, and the name of the one it is in. -/
structure Element where
  name : Text
  attributes : List (Text × Text)
  parent : Text

/-- A document that is being built: its elements in the order in which they were inserted. -/
structure Document where
  mode : Mode := .initial
  doctypes : Nat := 0
  elements : List Element := []

/-- The elements without content that belong in the head. -/
def headElements : List Text :=
  [units "base", units "basefont", units "bgsound", units "link", units "meta"]

namespace Document

variable (d : Document)

/-- An element is inserted. -/
def insert (name : Text) (attributes : List (Text × Text)) (parent : Text) : Document :=
  { d with elements := d.elements ++ [{ name, attributes, parent }] }

/-- An element without content that belongs in the head; nothing else is here. -/
def insertVoid (name : Text) (attributes : List (Text × Text)) (parent : Text) : Option Document :=
  if name ∈ headElements then some (d.insert name attributes parent) else none

/-- In the body: an element of the head is inserted where the parser stands. -/
def inBody : Token → Option Document
  | .char _ => some d
  | .doctype => some d
  | .startTag name attributes => d.insertVoid name attributes (units "body")

/-- After the head: one of its elements is put into it still; any other character opens the body. -/
def afterHead : Token → Option Document
  | .char c =>
      if isSpace c then some d
      else inBody { d.insert (units "body") [] (units "html") with mode := .inBody } (.char c)
  | .doctype => some d
  | .startTag name attributes => d.insertVoid name attributes (units "head")

def inHead : Token → Option Document
  | .char c =>
      if isSpace c then some d
      else afterHead { d with mode := .afterHead } (.char c)
  | .doctype => some d
  | .startTag name attributes => d.insertVoid name attributes (units "head")

def beforeHead : Token → Option Document
  | .char c =>
      if isSpace c then some d
      else inHead { d.insert (units "head") [] (units "html") with mode := .inHead } (.char c)
  | .doctype => some d
  | .startTag name attributes =>
      inHead { d.insert (units "head") [] (units "html") with mode := .inHead }
        (.startTag name attributes)

def beforeHtml : Token → Option Document
  | .char c =>
      if isSpace c then some d
      else beforeHead { d.insert (units "html") [] [] with mode := .beforeHead } (.char c)
  | .doctype => some d
  | .startTag name attributes =>
      beforeHead { d.insert (units "html") [] [] with mode := .beforeHead }
        (.startTag name attributes)

def initial : Token → Option Document
  | .char c =>
      if isSpace c then some d else beforeHtml { d with mode := .beforeHtml } (.char c)
  | .doctype => some { d with mode := .beforeHtml, doctypes := d.doctypes + 1 }
  | .startTag name attributes =>
      beforeHtml { d with mode := .beforeHtml } (.startTag name attributes)

/-- A token, as the mode has it. -/
def add (token : Token) : Option Document :=
  match d.mode with
  | .initial => d.initial token
  | .beforeHtml => d.beforeHtml token
  | .beforeHead => d.beforeHead token
  | .inHead => d.inHead token
  | .afterHead => d.afterHead token
  | .inBody => d.inBody token

end Document

/-- The document that tokens build. -/
def build (d : Document) (tokens : List Token) : Option Document :=
  tokens.foldlM Document.add d

theorem build_append (d : Document) (a b : List Token) :
    build d (a ++ b) = (build d a).bind fun d => build d b :=
  List.foldlM_append

/-- White space at the start of a document is ignored. -/
theorem build_spaces {d : Document} (hmode : d.mode = .initial) {w : Text}
    (hw : ∀ c ∈ w, isSpace c = true) : build d (w.map .char) = some d := by
  induction w with
  | nil => rfl
  | cons c rest ih =>
      have hadd : d.add (.char c) = some d := by
        unfold Document.add Document.initial
        rw [hmode]
        exact if_pos (hw c List.mem_cons_self)
      rw [List.map_cons, build, List.foldlM_cons, hadd]
      exact ih fun e he => hw e (List.mem_cons_of_mem c he)

/-- A character that is no white space opens the body. -/
theorem add_char_of_initial {d : Document} (hmode : d.mode = .initial) {c : CodeUnit}
    (hc : isSpace c = false) :
    d.add (.char c) = some (({ (((d.insert (units "html") [] []).insert (units "head") []
      (units "html")).insert (units "body") [] (units "html")) with mode := .inBody } :
      Document)) := by
  have hno : ¬ isSpace c = true := by
    rw [hc]
    exact Bool.false_ne_true
  unfold Document.add
  rw [hmode]
  simp only [Document.initial, Document.beforeHtml, Document.beforeHead, Document.inHead,
    Document.afterHead, Document.inBody, if_neg hno]
  rfl

/-- In the body, characters and doctypes insert no element. -/
theorem build_inBody {d : Document} (hmode : d.mode = .inBody) {ts : List Token}
    (hts : ∀ t ∈ ts, ∀ name attributes, t ≠ .startTag name attributes) : build d ts = some d := by
  induction ts with
  | nil => rfl
  | cons t rest ih =>
      have hadd : d.add t = some d := by
        unfold Document.add
        rw [hmode]
        cases t with
        | char c => rfl
        | doctype => rfl
        | startTag name attributes => exact absurd rfl (hts _ List.mem_cons_self name attributes)
      rw [build, List.foldlM_cons, hadd]
      exact ih fun u hu => hts u (List.mem_cons_of_mem t hu)

end Library.Html
