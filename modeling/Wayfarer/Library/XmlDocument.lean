import Wayfarer.Library.Form

/-!
# A document of XML 1.0

A reader of well-formed XML: it goes over the characters of a text one by one, keeps the elements
that are open, and gives the tree of the text, or nothing where the text is not well formed.

A document type declaration, a comment, a processing instruction, a CDATA section, and between tags
a reference, a `>` or a carriage return, are read no further: of the documents that have none of
these, those that are read are the well-formed ones.

The rules of the second half say how a text is read piece by piece: `Writes` for what stands in a
quoted value, `Tagged` for a start tag up to its end, `Holds` for what stands between two tags.
-/

set_option autoImplicit false

namespace Library.Xml

/-! ## Characters and names -/

/-- A text of the document: code points. -/
abbrev Word := List Nat

/-- A text of the basic plane, as the document has it. -/
def wordOf (t : Text) : Word :=
  t.map UInt16.toNat

/-- The code points of a literal. -/
def word (s : String) : Word :=
  wordOf (units s)

/-- `Char`: the characters that a document may hold, written out or as a reference. -/
def isChar (p : Nat) : Bool :=
  p = 0x9 || p = 0xA || p = 0xD || (0x20 ≤ p && p ≤ 0xD7FF) || (0xE000 ≤ p && p ≤ 0xFFFD) ||
    (0x10000 ≤ p && p ≤ 0x10FFFF)

/-- `S`: white space. -/
def isSpace (p : Nat) : Bool :=
  p = 0x20 || p = 0x9 || p = 0xD || p = 0xA

/-- One of the ranges holds a code point. -/
def inRanges (ranges : List (Nat × Nat)) (p : Nat) : Bool :=
  ranges.any fun range => range.1 ≤ p && p ≤ range.2

/-- `NameStartChar`. -/
def nameStartRanges : List (Nat × Nat) :=
  [(0x3A, 0x3A), (0x41, 0x5A), (0x5F, 0x5F), (0x61, 0x7A), (0xC0, 0xD6), (0xD8, 0xF6),
    (0xF8, 0x2FF), (0x370, 0x37D), (0x37F, 0x1FFF), (0x200C, 0x200D), (0x2070, 0x218F),
    (0x2C00, 0x2FEF), (0x3001, 0xD7FF), (0xF900, 0xFDCF), (0xFDF0, 0xFFFD), (0x10000, 0xEFFFF)]

/-- `NameChar`, besides those that may start a name. -/
def nameMoreRanges : List (Nat × Nat) :=
  [(0x2D, 0x2E), (0x30, 0x39), (0xB7, 0xB7), (0x300, 0x36F), (0x203F, 0x2040)]

def isNameStart (p : Nat) : Bool :=
  inRanges nameStartRanges p

def isNameChar (p : Nat) : Bool :=
  isNameStart p || inRanges nameMoreRanges p

/-! ## References -/

/-- The value of a digit in a base of 16 at most. -/
def digitValue (base p : Nat) : Option Nat :=
  let value :=
    if 0x30 ≤ p && p ≤ 0x39 then some (p - 0x30)
    else if 0x41 ≤ p && p ≤ 0x46 then some (p - 0x37)
    else if 0x61 ≤ p && p ≤ 0x66 then some (p - 0x57)
    else none
  value.filter (· < base)

/-- The value of one digit or more. -/
def numeral (base : Nat) (digits : Word) : Option Nat :=
  if digits = [] then none
  else digits.foldlM (fun value p => (digitValue base p).map (base * value + ·)) 0

/-- The entities that need no declaration. -/
def entities : List (Word × Nat) :=
  [(word "lt", 0x3C), (word "gt", 0x3E), (word "amp", 0x26), (word "quot", 0x22),
    (word "apos", 0x27)]

/-- The character that stands for a reference, by what is written between `&` and `;`. -/
def referred : Word → Option Nat
  | 0x23 :: 0x78 :: digits => (numeral 16 digits).filter isChar
  | 0x23 :: digits => (numeral 10 digits).filter isChar
  | name => (entities.find? fun entity => entity.1 = name).map Prod.snd

/-! ## The tree -/

/-- What an element holds. -/
inductive Node where
  | char (p : Nat)
  | element (name : Word) (attributes : List (Word × Word)) (content : List Node)

mutual

/-- How many elements of a name a node is and holds. -/
def Node.count (name : Word) : Node → Nat
  | .char _ => 0
  | .element n _ content => (if n = name then 1 else 0) + countAll name content

/-- How many elements of a name there are in a content, at any depth. -/
def countAll (name : Word) : List Node → Nat
  | [] => 0
  | node :: rest => node.count name + countAll name rest

end

/-- A node of a tree. -/
inductive Within (node : Node) : Node → Prop
  | self : Within node node
  | child {name : Word} {attributes : List (Word × Word)} {content : List Node} {m : Node}
      (hm : m ∈ content) (h : Within node m) : Within node (.element name attributes content)

theorem countAll_append (name : Word) (a b : List Node) :
    countAll name (a ++ b) = countAll name a + countAll name b := by
  induction a with
  | nil => rw [List.nil_append, countAll, Nat.zero_add]
  | cons node rest ih => rw [List.cons_append, countAll, countAll, ih, Nat.add_assoc]

theorem countAll_chars (name w : Word) : countAll name (w.map .char) = 0 := by
  induction w with
  | nil => rfl
  | cons p rest ih => rw [List.map_cons, countAll, Node.count, ih]

theorem within_char {node : Node} {p : Nat} (h : Within node (.char p)) : node = .char p := by
  cases h
  rfl

/-- A node of an element is the element, or a node of what it holds. -/
theorem within_element {node : Node} {name : Word} {attributes : List (Word × Word)}
    {content : List Node} (h : Within node (.element name attributes content)) :
    node = .element name attributes content ∨ ∃ m ∈ content, Within node m := by
  cases h with
  | self => exact Or.inl rfl
  | child hm h => exact Or.inr ⟨_, hm, h⟩

/-! ## The reader -/

/-- A start tag that is being read. -/
structure Tag where
  name : Word
  attributes : List (Word × Word) := []

def Tag.with (tag : Tag) (name value : Word) : Tag :=
  { tag with attributes := tag.attributes ++ [(name, value)] }

/-- An element that is open, with what it holds so far. -/
structure Opened extends Tag where
  content : List Node := []

/-- What is being read. -/
inductive Place where
  | content
  | tagOpen
  | startName (name : Word)
  /-- After a name or a value; `spaced`: and white space. -/
  | inTag (tag : Tag) (spaced : Bool)
  | attributeName (tag : Tag) (name : Word)
  | beforeEquals (tag : Tag) (name : Word)
  | beforeValue (tag : Tag) (name : Word)
  | value (tag : Tag) (name : Word) (quote : Nat) (value : Word)
  | reference (tag : Tag) (name : Word) (quote : Nat) (value seen : Word)
  /-- After the `/` of an empty element's tag. -/
  | emptyTag (tag : Tag)
  | endName (name : Word)
  | afterEndName (name : Word)

/-- The reader between two characters: the open elements, the innermost first, and what has been
read outside of any. -/
structure State where
  place : Place
  opened : List Opened
  roots : List Node

namespace State

variable (s : State)

def at' (place : Place) : State :=
  { s with place }

/-- A node is put where the reader stands. -/
def add (node : Node) : State :=
  match s.opened with
  | [] => { s with place := .content, roots := s.roots ++ [node] }
  | e :: rest =>
      { s with place := .content, opened := { e with content := e.content ++ [node] } :: rest }

/-- Between tags. Outside of any element there is white space only. -/
def inContent (p : Nat) : Option State :=
  if p = 0x3C then some (s.at' .tagOpen)
  else if p = 0x26 || p = 0x3E then none
  else if s.opened.isEmpty then (if isSpace p then some s else none)
  else some (s.add (.char p))

def inTagOpen (p : Nat) : Option State :=
  if p = 0x2F then some (s.at' (.endName []))
  else if isNameStart p then some (s.at' (.startName [p]))
  else none

/-- In a start tag, where a name or a value has ended. -/
def inTag (tag : Tag) (spaced : Bool) (p : Nat) : Option State :=
  if isSpace p then some (s.at' (.inTag tag true))
  else if p = 0x3E then
    some { s with place := .content, opened := { toTag := tag } :: s.opened }
  else if p = 0x2F then some (s.at' (.emptyTag tag))
  else if spaced && isNameStart p then some (s.at' (.attributeName tag [p]))
  else none

def inStartName (name : Word) (p : Nat) : Option State :=
  if isNameChar p then some (s.at' (.startName (name ++ [p]))) else s.inTag { name } false p

/-- An attribute's name has ended: no other of the tag has it. -/
def named (tag : Tag) (name : Word) : Option State :=
  if name ∈ tag.attributes.map Prod.fst then none else some (s.at' (.beforeValue tag name))

def inAttributeName (tag : Tag) (name : Word) (p : Nat) : Option State :=
  if isNameChar p then some (s.at' (.attributeName tag (name ++ [p])))
  else if isSpace p then some (s.at' (.beforeEquals tag name))
  else if p = 0x3D then s.named tag name
  else none

def inBeforeEquals (tag : Tag) (name : Word) (p : Nat) : Option State :=
  if isSpace p then some s
  else if p = 0x3D then s.named tag name
  else none

def inBeforeValue (tag : Tag) (name : Word) (p : Nat) : Option State :=
  if isSpace p then some s
  else if p = 0x22 || p = 0x27 then some (s.at' (.value tag name p []))
  else none

/-- In a quoted value. White space that is written out is a space. -/
def inValue (tag : Tag) (name : Word) (quote : Nat) (value : Word) (p : Nat) : Option State :=
  if p = quote then some (s.at' (.inTag (tag.with name value) false))
  else if p = 0x3C then none
  else if p = 0x26 then some (s.at' (.reference tag name quote value []))
  else some (s.at' (.value tag name quote (value ++ [if isSpace p then 0x20 else p])))

def inReference (tag : Tag) (name : Word) (quote : Nat) (value seen : Word) (p : Nat) :
    Option State :=
  if p = 0x3B then
    (referred seen).map fun q => s.at' (.value tag name quote (value ++ [q]))
  else some (s.at' (.reference tag name quote value (seen ++ [p])))

def inEmptyTag (tag : Tag) (p : Nat) : Option State :=
  if p = 0x3E then some (s.add (.element tag.name tag.attributes [])) else none

/-- An end tag has ended: it closes the element that was opened last, and has its name. -/
def closed (name : Word) : Option State :=
  match s.opened with
  | [] => none
  | e :: rest =>
      if e.name = name then
        some (({ s with opened := rest }).add (.element e.name e.attributes e.content))
      else none

def inEndName (name : Word) (p : Nat) : Option State :=
  if isNameChar p then some (s.at' (.endName (name ++ [p])))
  else if isSpace p then some (s.at' (.afterEndName name))
  else if p = 0x3E then s.closed name
  else none

def inAfterEndName (name : Word) (p : Nat) : Option State :=
  if isSpace p then some s
  else if p = 0x3E then s.closed name
  else none

/-- A character, in the place where it stands. -/
def follow (p : Nat) : Option State :=
  match s.place with
  | .content => s.inContent p
  | .tagOpen => s.inTagOpen p
  | .startName name => s.inStartName name p
  | .inTag tag spaced => s.inTag tag spaced p
  | .attributeName tag name => s.inAttributeName tag name p
  | .beforeEquals tag name => s.inBeforeEquals tag name p
  | .beforeValue tag name => s.inBeforeValue tag name p
  | .value tag name quote value => s.inValue tag name quote value p
  | .reference tag name quote value seen => s.inReference tag name quote value seen p
  | .emptyTag tag => s.inEmptyTag tag p
  | .endName name => s.inEndName name p
  | .afterEndName name => s.inAfterEndName name p

/-- One character; nothing where the document goes on with what is no character of XML. -/
def step (p : Nat) : Option State :=
  if isChar p && p != 0xD then s.follow p else none

/-- The reader after a text. -/
def run (w : Word) : Option State :=
  w.foldlM State.step s

end State

/-- The declaration of version 1.0, written as UTF-8. -/
def declaration : Text :=
  units "<?xml version=\"1.0\" encoding=\"UTF-8\"?>"

/-- The tree of a document, from its characters: with the declaration or without it. -/
def read (t : Text) : Option Node :=
  let body := if declaration.isPrefixOf t then t.drop declaration.length else t
  match State.run { place := .content, opened := [], roots := [] } (codePoints body) with
  | some { place := .content, opened := [], roots := [root] } => some root
  | _ => none

/-! ## A text read piece by piece -/

/-- From one state, a text leads to another, whatever follows it. -/
def Takes (s : State) (t : Text) (s' : State) : Prop :=
  ∀ rest, s.run (codePoints (t ++ rest)) = s'.run (codePoints rest)

section Takes

variable {s m s' : State} {t u : Text}

theorem takes_nil : Takes s [] s :=
  fun _ => rfl

theorem Takes.append (ht : Takes s t m) (hu : Takes m u s') : Takes s (t ++ u) s' := by
  intro rest
  rw [List.append_assoc, ht, hu]

/-- A character of the plane of every other, or beyond it. -/
theorem takes_char {p : Nat} (hp : IsScalar p) (h : s.step p = some m) : Takes s (unitsOf p) m := by
  intro rest
  rw [codePoints_unitsOf_append hp, State.run, List.foldlM_cons, h]
  rfl

theorem takes_unit {c : CodeUnit} (hc : isHigh c = false) (h : s.step c.toNat = some m) :
    Takes s [c] m := by
  intro rest
  rw [List.singleton_append, codePoints_cons hc, State.run, List.foldlM_cons, h]
  rfl

theorem takes_cons {c : CodeUnit} (hc : isHigh c = false) (h : s.step c.toNat = some m)
    (ht : Takes m t s') : Takes s (c :: t) s' :=
  Takes.append (takes_unit hc h) ht

/-- What is taken from the start and ends between tags is what was read. -/
theorem run_of_takes (h : Takes s t m) : s.run (codePoints t) = some m := by
  have hrun := h []
  rw [List.append_nil] at hrun
  exact hrun

end Takes

/-! ### Names -/

/-- A unit that is a name's. -/
def isNameUnit (c : CodeUnit) : Bool :=
  !isHigh c && isChar c.toNat && c.toNat != 0xD && isNameChar c.toNat

/-- A name, in the units of a text. -/
def IsName : Text → Prop
  | [] => False
  | c :: rest => isNameStart c.toNat = true ∧ ∀ d ∈ c :: rest, isNameUnit d = true

instance : DecidablePred IsName
  | [] => inferInstanceAs (Decidable False)
  | _ :: _ => inferInstanceAs (Decidable (_ ∧ _))

theorem isNameUnit_iff {c : CodeUnit} :
    isNameUnit c = true ↔ isHigh c = false ∧ (isChar c.toNat && c.toNat != 0xD) = true ∧
      isNameChar c.toNat = true := by
  rw [isNameUnit, Bool.and_eq_true, Bool.and_assoc, Bool.and_eq_true, Bool.not_eq_true', and_assoc]

/-- A name that is read on from a place that keeps what has come of it. -/
theorem takes_name (place : Word → Place) {s : State}
    (hplace : ∀ name p, isNameChar p = true →
      (s.at' (place name)).follow p = some (s.at' (place (name ++ [p]))))
    {w : Text} (hw : ∀ c ∈ w, isNameUnit c = true) (name : Word) :
    Takes (s.at' (place name)) w (s.at' (place (name ++ wordOf w))) := by
  induction w generalizing name with
  | nil =>
      rw [wordOf, List.map_nil, List.append_nil]
      exact takes_nil
  | cons c rest ih =>
      obtain ⟨hhigh, hchar, hname⟩ := isNameUnit_iff.mp (hw c List.mem_cons_self)
      have hstep :
          (s.at' (place name)).step c.toNat = some (s.at' (place (name ++ [c.toNat]))) := by
        rw [State.step, if_pos hchar, hplace name c.toNat hname]
      have hrest := ih (fun d hd => hw d (List.mem_cons_of_mem c hd)) (name ++ [c.toNat])
      rw [List.append_assoc] at hrest
      exact takes_cons hhigh hstep hrest

/-! ### Quoted values -/

/-- A text that a value between double quotes reads as `v`. -/
def Writes (t : Text) (v : Word) : Prop :=
  ∀ (s : State) tag name value,
    Takes (s.at' (.value tag name 0x22 value)) t (s.at' (.value tag name 0x22 (value ++ v)))

theorem writes_nil : Writes [] [] := by
  intro s tag name value
  rw [List.append_nil]
  exact takes_nil

theorem Writes.append {t u : Text} {v w : Word} (ht : Writes t v) (hu : Writes u w) :
    Writes (t ++ u) (v ++ w) := by
  intro s tag name value
  rw [← List.append_assoc]
  exact (ht s tag name value).append (hu s tag name (value ++ v))

/-- A character that a value holds as it is. -/
structure IsBare (p : Nat) : Prop where
  char : isChar p = true
  tab : p ≠ 0x9
  newline : p ≠ 0xA
  return' : p ≠ 0xD
  quote : p ≠ 0x22
  ampersand : p ≠ 0x26
  less : p ≠ 0x3C

instance (p : Nat) : Decidable (IsBare p) :=
  decidable_of_iff (isChar p = true ∧ p ≠ 0x9 ∧ p ≠ 0xA ∧ p ≠ 0xD ∧ p ≠ 0x22 ∧ p ≠ 0x26 ∧ p ≠ 0x3C)
    ⟨fun ⟨h₁, h₂, h₃, h₄, h₅, h₆, h₇⟩ => ⟨h₁, h₂, h₃, h₄, h₅, h₆, h₇⟩,
      fun h => ⟨h.char, h.tab, h.newline, h.return', h.quote, h.ampersand, h.less⟩⟩

theorem isScalar_of_isChar {p : Nat} (h : isChar p = true) : IsScalar p := by
  simp only [isChar, Bool.or_eq_true, Bool.and_eq_true, decide_eq_true_eq] at h
  constructor
  · simp only [isSurrogate, Bool.and_eq_false_iff, decide_eq_false_iff_not]
    omega
  · omega

theorem step_of_char {s : State} {p : Nat} (hchar : isChar p = true) (hreturn : p ≠ 0xD) :
    s.step p = s.follow p := by
  rw [State.step, hchar, Bool.true_and, if_pos (bne_iff_ne.mpr hreturn)]

theorem writes_char {p : Nat} (hp : IsBare p) : Writes (unitsOf p) [p] := by
  intro s tag name value
  apply takes_char (isScalar_of_isChar hp.char)
  rw [step_of_char hp.char hp.return']
  have hspace : (if isSpace p then 0x20 else p) = p := by
    split_ifs with h
    · simp only [isSpace, Bool.or_eq_true, decide_eq_true_eq] at h
      rcases h with ((h | h) | h) | h
      · exact h.symm
      · exact absurd h hp.tab
      · exact absurd h hp.return'
      · exact absurd h hp.newline
    · rfl
  show State.inValue _ tag name 0x22 value p = _
  rw [State.inValue, if_neg hp.quote, if_neg hp.less, if_neg hp.ampersand, hspace]
  rfl

/-- A unit of a reference, before its end. -/
def isReferenceUnit (c : CodeUnit) : Bool :=
  !isHigh c && isChar c.toNat && c.toNat != 0xD && c.toNat != 0x3B

/-- What stands between `&` and `;` is kept up to the end. -/
theorem takes_reference {s : State} {tag : Tag} {name value : Word} {t : Text}
    (ht : ∀ c ∈ t, isReferenceUnit c = true) (seen : Word) :
    Takes (s.at' (.reference tag name 0x22 value seen)) t
      (s.at' (.reference tag name 0x22 value (seen ++ wordOf t))) := by
  induction t generalizing seen with
  | nil =>
      rw [wordOf, List.map_nil, List.append_nil]
      exact takes_nil
  | cons c rest ih =>
      have hc := ht c List.mem_cons_self
      simp only [isReferenceUnit, Bool.and_eq_true, Bool.not_eq_true', bne_iff_ne] at hc
      obtain ⟨⟨⟨hhigh, hchar⟩, hreturn⟩, hend⟩ := hc
      have hstep : (s.at' (.reference tag name 0x22 value seen)).step c.toNat =
          some (s.at' (.reference tag name 0x22 value (seen ++ [c.toNat]))) := by
        rw [step_of_char hchar hreturn]
        exact if_neg hend
      have hrest := ih (fun d hd => ht d (List.mem_cons_of_mem c hd)) (seen ++ [c.toNat])
      rw [List.append_assoc] at hrest
      exact takes_cons hhigh hstep hrest

/-- A reference is read as the character that it stands for. -/
theorem writes_reference {t : Text} {q : Nat} (ht : ∀ c ∈ t, isReferenceUnit c = true)
    (hq : referred (wordOf t) = some q) : Writes (0x26 :: (t ++ [0x3B])) [q] := by
  intro s tag name value
  refine takes_cons rfl (m := s.at' (.reference tag name 0x22 value [])) rfl ?_
  refine (takes_reference ht []).append ?_
  refine takes_unit rfl ?_
  show (referred ([] ++ wordOf t)).map _ = _
  rw [List.nil_append, hq]
  rfl

/-- Letters and digits are read as they are. -/
theorem writes_bare {t : Text} (ht : ∀ c ∈ t, isHigh c = false ∧ IsBare c.toNat) :
    Writes t (wordOf t) := by
  induction t with
  | nil => exact writes_nil
  | cons c rest ih =>
      obtain ⟨-, hbare⟩ := ht c List.mem_cons_self
      have hhead := writes_char hbare
      rw [unitsOf_toNat] at hhead
      exact hhead.append (ih fun d hd => ht d (List.mem_cons_of_mem c hd))

/-! ### Tags -/

/-- An attribute, with the text of its value as it is written. -/
def attributeText (name value : Text) : Text :=
  0x20 :: (name ++ (0x3D :: 0x22 :: (value ++ [0x22])))

/-- A text that a start tag begins with, up to where it may end. -/
def Tagged (t : Text) (tag : Tag) : Prop :=
  ∀ s : State, Takes (s.at' .content) t (s.at' (.inTag tag false))

theorem ne_of_isNameStart {p q : Nat} (h : isNameStart p = true) (hq : isNameStart q = false) :
    p ≠ q := by
  rintro rfl
  rw [h] at hq
  exact Bool.noConfusion hq

theorem not_isSpace_of_isNameStart {p : Nat} (h : isNameStart p = true) : ¬ isSpace p = true := by
  intro hspace
  simp only [isSpace, Bool.or_eq_true, decide_eq_true_eq] at hspace
  rcases hspace with ((hp | hp) | hp) | hp
  · exact ne_of_isNameStart h rfl hp
  · exact ne_of_isNameStart h rfl hp
  · exact ne_of_isNameStart h rfl hp
  · exact ne_of_isNameStart h rfl hp

theorem takes_attribute {name value : Text} {v : Word} (hname : IsName name)
    (hvalue : Writes value v)
    {tag : Tag} (hfresh : wordOf name ∉ tag.attributes.map Prod.fst) (s : State) :
    Takes (s.at' (.inTag tag true)) (name ++ (0x3D :: 0x22 :: (value ++ [0x22])))
      (s.at' (.inTag (tag.with (wordOf name) v) false)) := by
  cases name with
  | nil => exact absurd hname id
  | cons c w =>
      obtain ⟨hstart, hunits⟩ := hname
      obtain ⟨hhigh, hchar, -⟩ := isNameUnit_iff.mp (hunits c List.mem_cons_self)
      have hfirst : (s.at' (.inTag tag true)).step c.toNat =
          some (s.at' (.attributeName tag [c.toNat])) := by
        rw [State.step, if_pos hchar]
        show State.inTag _ tag true c.toNat = _
        rw [State.inTag, if_neg (not_isSpace_of_isNameStart hstart),
          if_neg (ne_of_isNameStart hstart rfl), if_neg (ne_of_isNameStart hstart rfl), hstart]
        rfl
      have hrest : Takes (s.at' (.attributeName tag [c.toNat])) w
          (s.at' (.attributeName tag (wordOf (c :: w)))) :=
        takes_name (.attributeName tag) (fun name p hp => if_pos hp)
          (fun d hd => hunits d (List.mem_cons_of_mem c hd)) _
      have hequals : (s.at' (.attributeName tag (wordOf (c :: w)))).step 0x3D =
          some (s.at' (.beforeValue tag (wordOf (c :: w)))) :=
        if_neg hfresh
      refine takes_cons hhigh hfirst (hrest.append ?_)
      refine takes_cons rfl hequals (takes_cons rfl (m := s.at' (.value tag _ 0x22 [])) rfl ?_)
      exact (hvalue s tag _ []).append (takes_unit rfl rfl)

/-- A tag goes on with an attribute of another name. -/
theorem Tagged.attribute {t name value : Text} {tag : Tag} {v : Word} (ht : Tagged t tag)
    (hname : IsName name) (hvalue : Writes value v)
    (hfresh : wordOf name ∉ tag.attributes.map Prod.fst) :
    Tagged (t ++ attributeText name value) (tag.with (wordOf name) v) := by
  intro s
  refine (ht s).append (takes_cons rfl (m := s.at' (.inTag tag true)) rfl ?_)
  exact takes_attribute hname hvalue hfresh s

/-- The name of an element and its first attribute. -/
theorem tagged_attribute {name first value : Text} {v : Word} (hname : IsName name)
    (hfirst : IsName first) (hvalue : Writes value v) :
    Tagged (0x3C :: (name ++ attributeText first value))
      { name := wordOf name, attributes := [(wordOf first, v)] } := by
  intro s
  cases name with
  | nil => exact absurd hname id
  | cons c w =>
      obtain ⟨hstart, hunits⟩ := hname
      obtain ⟨hhigh, hchar, -⟩ := isNameUnit_iff.mp (hunits c List.mem_cons_self)
      have hbegin : (s.at' .tagOpen).step c.toNat = some (s.at' (.startName [c.toNat])) := by
        rw [State.step, if_pos hchar]
        show State.inTagOpen _ c.toNat = _
        rw [State.inTagOpen, if_neg (ne_of_isNameStart hstart rfl), if_pos hstart]
        rfl
      have hrest : Takes (s.at' (.startName [c.toNat])) w (s.at' (.startName (wordOf (c :: w)))) :=
        takes_name .startName (fun name p hp => if_pos hp)
          (fun d hd => hunits d (List.mem_cons_of_mem c hd)) _
      refine takes_cons rfl (m := s.at' .tagOpen) rfl (takes_cons hhigh hbegin (hrest.append ?_))
      refine takes_cons rfl (m := s.at' (.inTag { name := wordOf (c :: w) } true)) rfl ?_
      exact takes_attribute hfirst hvalue List.not_mem_nil s

/-- A tag goes on with attributes whose names are its own and each other's only once. -/
theorem Tagged.attributes {entries : List (Text × Text × Word)}
    (hnames : ∀ entry ∈ entries, IsName entry.1)
    (hvalues : ∀ entry ∈ entries, Writes entry.2.1 entry.2.2)
    {t : Text} {tag : Tag} (ht : Tagged t tag)
    (hfresh : (tag.attributes.map Prod.fst ++ entries.map fun entry => wordOf entry.1).Nodup) :
    Tagged (t ++ entries.flatMap fun entry => attributeText entry.1 entry.2.1)
      { tag with
        attributes := tag.attributes ++ entries.map fun entry => (wordOf entry.1, entry.2.2) } := by
  induction entries generalizing t tag with
  | nil =>
      rw [List.flatMap_nil, List.append_nil, List.map_nil, List.append_nil]
      exact ht
  | cons entry rest ih =>
      rw [List.map_cons, List.append_cons] at hfresh
      have hnew : wordOf entry.1 ∉ tag.attributes.map Prod.fst := by
        have hleft := (List.nodup_append.mp hfresh).1
        exact fun h => (List.nodup_append.mp hleft).2.2 _ h _ (List.mem_singleton.mpr rfl) rfl
      have htag :=
        ht.attribute (hnames entry List.mem_cons_self) (hvalues entry List.mem_cons_self) hnew
      have hrest := ih (fun e he => hnames e (List.mem_cons_of_mem entry he))
        (fun e he => hvalues e (List.mem_cons_of_mem entry he)) htag
        (by rwa [Tag.with, List.map_append])
      rw [List.flatMap_cons, ← List.append_assoc, List.map_cons, List.append_cons]
      exact hrest

/-! ### Elements -/

/-- An element without content. -/
theorem takes_empty {t : Text} {tag : Tag} (ht : Tagged t tag) (s : State) :
    Takes (s.at' .content) (t ++ units "/>") (s.add (.element tag.name tag.attributes [])) := by
  refine (ht s).append ?_
  exact takes_cons rfl (m := s.at' (.emptyTag tag)) rfl (takes_unit rfl rfl)

/-- A text that an element holds. -/
def Holds (t : Text) (nodes : List Node) : Prop :=
  ∀ (s : State) (e : Opened) (rest : List Opened),
    Takes { s with place := .content, opened := e :: rest } t
      { s with place := .content, opened := { e with content := e.content ++ nodes } :: rest }

theorem holds_nil : Holds [] [] := by
  intro s e rest
  rw [List.append_nil]
  exact takes_nil

theorem Holds.append {t u : Text} {a b : List Node} (ht : Holds t a) (hu : Holds u b) :
    Holds (t ++ u) (a ++ b) := by
  intro s e rest
  rw [← List.append_assoc]
  exact (ht s e rest).append (hu s { e with content := e.content ++ a } rest)

/-- An element with content. -/
theorem takes_element {name t inner : Text} {tag : Tag} {nodes : List Node} (ht : Tagged t tag)
    (hname : IsName name) (htag : tag.name = wordOf name) (hinner : Holds inner nodes) (s : State) :
    Takes (s.at' .content) (t ++ (0x3E :: (inner ++ (0x3C :: 0x2F :: (name ++ [0x3E])))))
      (s.add (.element tag.name tag.attributes nodes)) := by
  have hunits : ∀ c ∈ name, isNameUnit c = true := by
    cases name with
    | nil => exact absurd hname id
    | cons c w => exact hname.2
  refine (ht s).append ?_
  refine takes_cons rfl
    (m := { s with place := .content, opened := { toTag := tag } :: s.opened }) rfl ?_
  refine (hinner s { toTag := tag } s.opened).append ?_
  let inside : State :=
    { s with place := .content, opened := { toTag := tag, content := nodes } :: s.opened }
  have hend : Takes (inside.at' (.endName [])) name (inside.at' (.endName (wordOf name))) :=
    takes_name .endName (fun name p hp => if_pos hp) hunits []
  refine takes_cons rfl (m := inside.at' .tagOpen) rfl ?_
  refine takes_cons rfl (m := inside.at' (.endName [])) rfl (hend.append ?_)
  exact takes_unit rfl (if_pos htag)

theorem holds_of_takes {t : Text} {node : Node}
    (h : ∀ s : State, Takes (s.at' .content) t (s.add node)) : Holds t [node] :=
  fun s e rest => h { s with opened := e :: rest }

/-- White space between two tags. -/
theorem holds_space {t : Text} (ht : ∀ c ∈ t, c = 0x20 ∨ c = 0x0A) :
    Holds t ((wordOf t).map .char) := by
  induction t with
  | nil => exact holds_nil
  | cons c rest ih =>
      have hc : ∀ s : State, ∀ e opened,
          Takes { s with place := .content, opened := e :: opened } [c]
            (({ s with place := .content, opened := e :: opened } : State).add
              (.char c.toNat)) := by
        intro s e opened
        rcases ht c List.mem_cons_self with rfl | rfl
        · exact takes_unit rfl rfl
        · exact takes_unit rfl rfl
      have hhead : Holds [c] [.char c.toNat] := fun s e opened => hc s e opened
      exact hhead.append (ih fun d hd => ht d (List.mem_cons_of_mem c hd))

theorem holds_flatMap {ι : Type} {f : ι → Text} {g : ι → List Node} {items : List ι}
    (h : ∀ i ∈ items, Holds (f i) (g i)) : Holds (items.flatMap f) (items.flatMap g) := by
  induction items with
  | nil => exact holds_nil
  | cons i rest ih =>
      exact (h i List.mem_cons_self).append (ih fun j hj => h j (List.mem_cons_of_mem i hj))

/-! ### A document -/

/-- A declaration, a line end, an element and a line end are a document. -/
theorem read_of_takes {t : Text} {node : Node}
    (h : ∀ s : State, Takes (s.at' .content) t (s.add node)) :
    read (declaration ++ (0x0A :: (t ++ [0x0A]))) = some node := by
  have hprefix : declaration.isPrefixOf (declaration ++ (0x0A :: (t ++ [0x0A]))) = true := by
    rw [List.isPrefixOf_iff_prefix]
    exact List.prefix_append _ _
  have hrun : State.run { place := .content, opened := [], roots := [] }
      (codePoints (0x0A :: (t ++ [0x0A]))) =
        some { place := .content, opened := [], roots := [node] } := by
    refine run_of_takes
      (takes_cons rfl (m := { place := .content, opened := [], roots := [] }) rfl ?_)
    refine (h { place := .content, opened := [], roots := [] }).append ?_
    exact takes_unit rfl rfl
  rw [read, if_pos hprefix, List.drop_left]
  simp only [hrun]

end Library.Xml
