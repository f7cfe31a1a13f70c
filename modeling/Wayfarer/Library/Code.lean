import Mathlib.Data.List.Basic
import Wayfarer.Library.Json
import Wayfarer.Library.Percent
import Wayfarer.Library.Transducer

/-!
# The text of a program, as its tokens and brackets

A reader of program text in two steps. `lex` cuts a text into words, string literals and marks, by
the escapes of the language it is in; `grow` puts the tokens between two brackets into a group. What
stands in a literal is never more than its value: `lexes_literal` says that the JSON string of any
text is one token, whatever the text holds, in every language whose escapes are at least JSON's.
Literals side by side, and a literal right behind a word, stay tokens of their own: it is for a
grammar to refuse them.

`Lexes` and `Grows` say what a piece of text and a piece of a token list stand for wherever they are
written, so that the reading of a program is put together from the readings of its pieces.
-/

set_option autoImplicit false

namespace Library.Code

/-! ## Tokens -/

/-- A token of a program. -/
inductive Token where
  | word (w : Text)
  /-- A string literal, by its value. -/
  | text (value : Text)
  | mark (c : CodeUnit)
  /-- The end of a line, where the language reads it. -/
  | lineEnd
  deriving DecidableEq

/-- What a reader of tokens has to know of a language. -/
structure Language where
  /-- What a backslash and a character stand for, unless the character is a `u` or an `x`. -/
  escape : CodeUnit → Option Text
  /-- Whether the end of a line ends a statement. -/
  lineEnds : Bool

/-- Where a reader of tokens stands. -/
inductive LexState where
  | between
  | word (w : Text)
  | inside (quote : CodeUnit) (value : Text)
  | escape (quote : CodeUnit) (value : Text)
  /-- In an escape that gives a code unit, `left` digits before its end. -/
  | digits (quote : CodeUnit) (value : Text) (left n : Nat)

/-- A character of a word. -/
def isWordUnit (c : CodeUnit) : Bool :=
  isAlphanumeric c.toNat || c = 0x5F || c = 0x24

/-- A quote that opens a literal. -/
def isQuote (c : CodeUnit) : Bool :=
  c = 0x22 || c = 0x27

/-- A character that starts no word and no literal. -/
def lexMark (L : Language) (c : CodeUnit) : List Token :=
  if c = 0x0A then if L.lineEnds then [.lineEnd] else []
  else if c = 0x20 ∨ c = 0x09 ∨ c = 0x0D then []
  else [.mark c]

/-- One character: where the reader stands behind it, and the tokens that end with it. -/
def lexStep (L : Language) : LexState → CodeUnit → Option (LexState × List Token)
  | .between, c =>
      if isWordUnit c then some (.word [c], [])
      else if isQuote c then some (.inside c [], [])
      else some (.between, lexMark L c)
  | .word w, c =>
      if isWordUnit c then some (.word (w ++ [c]), [])
      else if isQuote c then some (.inside c [], [.word w])
      else some (.between, .word w :: lexMark L c)
  | .inside quote value, c =>
      if c = quote then some (.between, [.text value])
      else if c = backslash then some (.escape quote value, [])
      else if c = 0x0A ∨ c = 0x0D then none
      else some (.inside quote (value ++ [c]), [])
  | .escape quote value, c =>
      if c = 0x75 then some (.digits quote value 4 0, [])
      else if c = 0x78 then some (.digits quote value 2 0, [])
      else (L.escape c).map fun t => (.inside quote (value ++ t), [])
  | .digits quote value left n, c =>
      (hexValue c).map fun d =>
        if left ≤ 1 then (.inside quote (value ++ [(0x10 * n + d).toUInt16]), [])
        else (.digits quote value (left - 1) (0x10 * n + d), [])

/-- The tokens of a text, from where the reader stands. -/
def lexFrom (L : Language) (s : LexState) (t : Text) : Option (LexState × List Token) :=
  transduce (lexStep L) s t

/-- The tokens of a program. -/
def lex (L : Language) (t : Text) : Option (List Token) := do
  let (last, tokens) ← lexFrom L .between t
  match last with
  | .between => some tokens
  | .word w => some (tokens ++ [.word w])
  | _ => none

/-! ## Brackets -/

/-- The kinds of brackets. -/
inductive Bracket where
  | round
  | square
  | curly
  deriving DecidableEq

def Bracket.opens : Bracket → CodeUnit
  | .round => 0x28
  | .square => 0x5B
  | .curly => 0x7B

def Bracket.closes : Bracket → CodeUnit
  | .round => 0x29
  | .square => 0x5D
  | .curly => 0x7D

/-- The bracket that a character opens, and the one it closes. -/
def opened (c : CodeUnit) : Option Bracket :=
  [Bracket.round, .square, .curly].find? fun b => b.opens = c

def closed (c : CodeUnit) : Option Bracket :=
  [Bracket.round, .square, .curly].find? fun b => b.closes = c

/-- A token, or what stands between two brackets. -/
inductive Tree where
  | leaf (t : Token)
  | group (b : Bracket) (inner : List Tree)

/-- What is read so far where the reader stands, and around each bracket that is open there. -/
abbrev Nest := List Tree × List (Bracket × List Tree)

/-- A mark: a bracket that opens, one that closes the last that is open, or neither. -/
def growMark (nest : Nest) (c : CodeUnit) : Option Nest :=
  match opened c with
  | some b => some ([], (b, nest.1) :: nest.2)
  | none =>
      match closed c with
      | none => some (nest.1 ++ [.leaf (.mark c)], nest.2)
      | some b =>
          match nest.2 with
          | (b', around) :: outer =>
              if b = b' then some (around ++ [.group b nest.1], outer) else none
          | [] => none

/-- One token. Between brackets a line goes on. -/
def growStep (nest : Nest) (t : Token) : Option Nest :=
  match t with
  | .mark c => growMark nest c
  | .lineEnd =>
      some (if nest.2.isEmpty then (nest.1 ++ [.leaf .lineEnd], nest.2) else nest)
  | t => some (nest.1 ++ [.leaf t], nest.2)

/-- The tokens of a list in their brackets. -/
def grow (tokens : List Token) : Option (List Tree) := do
  match ← tokens.foldlM growStep ([], []) with
  | (trees, []) => some trees
  | _ => none

/-- A program in its brackets. -/
def read (L : Language) (t : Text) : Option (List Tree) :=
  lex L t >>= grow

mutual

/-- The tokens of what stands between brackets. -/
def Tree.tokens : Tree → List Token
  | .leaf t => [t]
  | .group b inner => .mark b.opens :: treesTokens inner ++ [.mark b.closes]

def treesTokens : List Tree → List Token
  | [] => []
  | tree :: rest => tree.tokens ++ treesTokens rest

end

/-! ## Lists between brackets -/

/-- A token that separates. -/
def isMark (c : CodeUnit) : Tree → Bool
  | .leaf (.mark d) => d = c
  | _ => false

/-- The comma. -/
def comma : Tree :=
  .leaf (.mark 0x2C)

/-- What stands between the commas of a list. A comma may stand behind the last one. -/
def items (trees : List Tree) : List (List Tree) :=
  match (trees.splitOnP (isMark 0x2C)).reverse with
  | [] :: pieces => pieces.reverse
  | pieces => pieces.reverse

/-- A call: the tokens in front of the last brackets, and what stands between these. -/
def callOf : List Tree → Option (List Token × List Tree)
  | [.group .round inner] => some ([], inner)
  | .leaf t :: rest => (callOf rest).map fun call => (t :: call.1, call.2)
  | _ => none

/-- A literal that stands alone. -/
def literalOf : List Tree → Option Text
  | [.leaf (.text t)] => some t
  | _ => none

/-- Two literals, with a comma between them. -/
def pairOf (inner : List Tree) : Option (Text × Text) :=
  match (items inner).map literalOf with
  | [some first, some second] => some (first, second)
  | _ => none

/-! ## What a piece of text is read as -/

section Lexing

variable {L : Language}

theorem lexFrom_append (s : LexState) (a b : Text) :
    lexFrom L s (a ++ b) =
      (lexFrom L s a).bind fun r => (lexFrom L r.1 b).map fun r' => (r'.1, r.2 ++ r'.2) :=
  transduce_append s a b

/-- A text that is read as tokens, whatever is read behind it. -/
def Lexes (L : Language) (t : Text) (tokens : List Token) : Prop :=
  lexFrom L .between t = some (.between, tokens)

theorem lexes_nil : Lexes L [] [] :=
  rfl

theorem Lexes.append {a b : Text} {as bs : List Token} (ha : Lexes L a as) (hb : Lexes L b bs) :
    Lexes L (a ++ b) (as ++ bs) := by
  rw [Lexes, lexFrom_append, ha, Option.bind_some, hb]
  rfl

theorem Lexes.lex {t : Text} {tokens : List Token} (h : Lexes L t tokens) :
    Code.lex L t = some tokens := by
  rw [Code.lex, h]
  rfl

/-- A language that reads the escapes of a JSON string as JSON does. -/
structure ReadsJson (L : Language) : Prop where
  quote : L.escape 0x22 = some [0x22]
  slash : L.escape 0x5C = some [0x5C]
  back : L.escape 0x62 = some [0x08]
  tab : L.escape 0x74 = some [0x09]
  line : L.escape 0x6E = some [0x0A]
  feed : L.escape 0x66 = some [0x0C]
  ret : L.escape 0x72 = some [0x0D]

theorem hexValue_lowerHexDigit {n : Nat} (h : n < 16) : hexValue (lowerHexDigit n) = some n := by
  have hall : ∀ n < 16, hexValue (lowerHexDigit n) = some n := by decide
  exact hall n h

/-- A character with which no token ends. -/
theorem lexFrom_silent {s s' : LexState} {c : CodeUnit} (h : lexStep L s c = some (s', []))
    (rest : Text) : lexFrom L s (c :: rest) = lexFrom L s' rest :=
  transduce_silent h rest

/-- A character that a literal holds as it is. -/
theorem lexStep_plain {c : CodeUnit} (hquote : c ≠ 0x22) (hslash : c ≠ backslash)
    (hc : 0x20 ≤ c.toNat) (value : Text) :
    lexStep L (.inside 0x22 value) c = some (.inside 0x22 (value ++ [c]), []) := by
  have hline : ¬ (c = 0x0A ∨ c = 0x0D) := by
    rintro (rfl | rfl) <;> exact absurd hc (by decide)
  rw [lexStep, if_neg hquote, if_neg hslash, if_neg hline]

theorem lexStep_backslash (value : Text) :
    lexStep L (.inside 0x22 value) backslash = some (.escape 0x22 value, []) := by
  have hquote : backslash ≠ 0x22 := by decide
  rw [lexStep, if_neg hquote, if_pos rfl]

/-- An escape of one character. -/
theorem lexFrom_escape {letter : CodeUnit} {held : Text} (hu : letter ≠ 0x75) (hx : letter ≠ 0x78)
    (h : L.escape letter = some held) (value : Text) :
    lexFrom L (.inside 0x22 value) [backslash, letter] =
      some (.inside 0x22 (value ++ held), []) := by
  have hletter :
      lexStep L (.escape 0x22 value) letter = some (.inside 0x22 (value ++ held), []) := by
    rw [lexStep, if_neg hu, if_neg hx, h]
    rfl
  rw [lexFrom_silent (lexStep_backslash value), lexFrom_silent hletter]
  rfl

/-- A digit that is not the last of its escape. -/
theorem lexStep_digit {d : Nat} (hd : d < 16) (value : Text) (left n : Nat) :
    lexStep L (.digits 0x22 value (left + 2) n) (lowerHexDigit d) =
      some (.digits 0x22 value (left + 1) (0x10 * n + d), []) := by
  rw [lexStep, hexValue_lowerHexDigit hd, Option.map_some, if_neg (by omega)]
  rfl

theorem lexStep_lastDigit {d : Nat} (hd : d < 16) (value : Text) (n : Nat) :
    lexStep L (.digits 0x22 value 1 n) (lowerHexDigit d) =
      some (.inside 0x22 (value ++ [(0x10 * n + d).toUInt16]), []) := by
  rw [lexStep, hexValue_lowerHexDigit hd, Option.map_some, if_pos le_rfl]

/-- An escape by the number of a code unit. -/
theorem lexFrom_unicodeEscape {n : Nat} (hn : n < 0x10000) (value : Text) :
    lexFrom L (.inside 0x22 value) (unicodeEscape n) =
      some (.inside 0x22 (value ++ [n.toUInt16]), []) := by
  have hsum : 0x10 * (0x10 * (0x10 * (0x10 * 0 + n / 0x1000 % 0x10) + n / 0x100 % 0x10) +
      n / 0x10 % 0x10) + n % 0x10 = n := by omega
  have hdigit : ∀ m : Nat, m % 0x10 < 16 := fun m => Nat.mod_lt m (by decide)
  have hletter : lexStep L (.escape 0x22 value) 0x75 = some (.digits 0x22 value 4 0, []) := by
    rw [lexStep, if_pos rfl]
  rw [unicodeEscape, lexFrom_silent (lexStep_backslash value), lexFrom_silent hletter,
    lexFrom_silent (lexStep_digit (hdigit _) value 2 _),
    lexFrom_silent (lexStep_digit (hdigit _) value 1 _),
    lexFrom_silent (lexStep_digit (hdigit _) value 0 _),
    lexFrom_silent (lexStep_lastDigit (hdigit _) value _), hsum]
  rfl

/-- A character as JSON writes it is read as that character. -/
theorem lexFrom_jsonPoint (hL : ReadsJson L) {p : Nat} (hp : p < 0x110000) (value : Text) :
    lexFrom L (.inside 0x22 value) (jsonPoint p) =
      some (.inside 0x22 (value ++ unitsOf p), []) := by
  rw [jsonPoint]
  by_cases h1 : p = 0x22
  · rw [if_pos h1, h1]
    exact lexFrom_escape (by decide) (by decide) hL.quote value
  by_cases h2 : p = 0x5C
  · rw [if_neg h1, if_pos h2, h2]
    exact lexFrom_escape (by decide) (by decide) hL.slash value
  by_cases h3 : p = 0x08
  · rw [if_neg h1, if_neg h2, if_pos h3, h3]
    exact lexFrom_escape (by decide) (by decide) hL.back value
  by_cases h4 : p = 0x09
  · rw [if_neg h1, if_neg h2, if_neg h3, if_pos h4, h4]
    exact lexFrom_escape (by decide) (by decide) hL.tab value
  by_cases h5 : p = 0x0A
  · rw [if_neg h1, if_neg h2, if_neg h3, if_neg h4, if_pos h5, h5]
    exact lexFrom_escape (by decide) (by decide) hL.line value
  by_cases h6 : p = 0x0C
  · rw [if_neg h1, if_neg h2, if_neg h3, if_neg h4, if_neg h5, if_pos h6, h6]
    exact lexFrom_escape (by decide) (by decide) hL.feed value
  by_cases h7 : p = 0x0D
  · rw [if_neg h1, if_neg h2, if_neg h3, if_neg h4, if_neg h5, if_neg h6, if_pos h7, h7]
    exact lexFrom_escape (by decide) (by decide) hL.ret value
  rw [if_neg h1, if_neg h2, if_neg h3, if_neg h4, if_neg h5, if_neg h6, if_neg h7]
  by_cases h8 : p < 0x20 ∨ isSurrogate p
  · -- A control character, or half of a pair.
    have hsmall : p < 0x10000 := by
      rcases h8 with h | h
      · omega
      · simp only [isSurrogate, Bool.and_eq_true, decide_eq_true_eq] at h
        omega
    rw [if_pos h8, lexFrom_unicodeEscape hsmall, unitsOf, if_pos hsmall]
  · -- A character that is written as itself, as one unit or as a pair.
    have hbig : 0x20 ≤ p := Nat.le_of_not_lt fun h => h8 (.inl h)
    rw [if_neg h8, unitsOf]
    by_cases hone : p < 0x10000
    · have hvalue : p.toUInt16.toNat = p := toNat_toUInt16 hone
      rw [if_pos hone, lexFrom_silent (lexStep_plain (fun h => h1 ?_) (fun h => h2 ?_)
        (by rw [hvalue]; exact hbig) value)]
      · rfl
      · rw [← hvalue, h]
        rfl
      · rw [← hvalue, h]
        rfl
    · have hhigh : (0xD800 + (p - 0x10000) / 0x400).toUInt16.toNat =
          0xD800 + (p - 0x10000) / 0x400 := toNat_toUInt16 (by omega)
      have hlow : (0xDC00 + (p - 0x10000) % 0x400).toUInt16.toNat =
          0xDC00 + (p - 0x10000) % 0x400 := toNat_toUInt16 (by omega)
      have hplain : ∀ {c : CodeUnit}, 0xD800 ≤ c.toNat → ∀ value : Text,
          lexStep L (.inside 0x22 value) c = some (.inside 0x22 (value ++ [c]), []) := by
        intro c hc value
        refine lexStep_plain ?_ ?_ (by omega) value <;>
        · rintro rfl
          exact absurd hc (by decide)
      rw [if_neg hone, lexFrom_silent (hplain (by omega) _), lexFrom_silent (hplain (by omega) _),
        List.append_assoc]
      rfl

/-- What a JSON string holds is read as the text that was written. -/
theorem lexFrom_jsonEscape (hL : ReadsJson L) (t : Text) :
    lexFrom L (.inside 0x22 []) (jsonEscape t) = some (.inside 0x22 t, []) := by
  have hpoints : ∀ (points : List Nat) (value : Text), (∀ p ∈ points, p < 0x110000) →
      lexFrom L (.inside 0x22 value) (points.flatMap jsonPoint) =
        some (.inside 0x22 (value ++ ofCodePoints points), []) := by
    intro points
    induction points with
    | nil =>
        intro value _
        rw [List.flatMap_nil, ofCodePoints, List.flatMap_nil, List.append_nil]
        rfl
    | cons p points ih =>
        intro value hall
        rw [List.flatMap_cons, lexFrom_append,
          lexFrom_jsonPoint hL (hall p (List.mem_cons_self ..)), Option.bind_some,
          ih _ fun q hq => hall q (List.mem_cons_of_mem p hq), List.append_assoc]
        rfl
  rw [jsonEscape, hpoints _ _ (codePoints_lt t), ofCodePoints_codePoints, List.nil_append]

/-- A text written as a JSON string is one literal, whatever it holds. -/
theorem lexes_literal (hL : ReadsJson L) (t : Text) : Lexes L (jsonString t) [.text t] := by
  have hopen : lexStep L .between quotationMark = some (.inside 0x22 [], []) := by
    have hword : isWordUnit quotationMark = false := by decide
    have hquote : isQuote quotationMark = true := by decide
    rw [lexStep, hword, hquote]
    rfl
  have hclose : lexFrom L (.inside 0x22 t) [quotationMark] = some (.between, [.text t]) := by
    have hquote : quotationMark = 0x22 := rfl
    have hstep : lexStep L (.inside 0x22 t) quotationMark = some (.between, [.text t]) := by
      rw [lexStep, if_pos hquote]
    rw [lexFrom, transduce, hstep]
    rfl
  rw [Lexes, jsonString, List.cons_append, lexFrom_silent hopen, lexFrom_append,
    lexFrom_jsonEscape hL, Option.bind_some, hclose]
  rfl

end Lexing

/-! ## What a piece of a token list is read as -/

section Growing

variable {outer : List (Bracket × List Tree)}

/-- Tokens that are read as trees, whatever stands in front of them between the same brackets. -/
def Grows (outer : List (Bracket × List Tree)) (tokens : List Token) (trees : List Tree) : Prop :=
  ∀ here, tokens.foldlM growStep (here, outer) = some (here ++ trees, outer)

theorem grows_nil : Grows outer [] [] := by
  intro here
  rw [List.append_nil]
  rfl

theorem Grows.append {as bs : List Token} {a b : List Tree} (ha : Grows outer as a)
    (hb : Grows outer bs b) : Grows outer (as ++ bs) (a ++ b) := by
  intro here
  rw [List.foldlM_append, ha here, Option.bind_eq_bind, Option.bind_some, hb, List.append_assoc]

/-- A token that is no bracket and ends no line. -/
def isLeaf : Token → Bool
  | .mark c => (opened c).isNone && (closed c).isNone
  | .lineEnd => false
  | _ => true

theorem growStep_leaf {t : Token} (ht : isLeaf t = true) (here : List Tree) :
    growStep (here, outer) t = some (here ++ [.leaf t], outer) := by
  cases t with
  | word w => rfl
  | text value => rfl
  | lineEnd => cases ht
  | mark c =>
      obtain ⟨hopen, hclose⟩ := Bool.and_eq_true_iff.mp ht
      change growMark (here, outer) c = _
      rw [growMark, Option.isNone_iff_eq_none.mp hopen]
      simp only [Option.isNone_iff_eq_none.mp hclose]

/-- Tokens without brackets and ends of lines. -/
theorem grows_leaves {tokens : List Token} (h : tokens.all isLeaf = true) :
    Grows outer tokens (tokens.map .leaf) := by
  induction tokens with
  | nil => exact grows_nil
  | cons t tokens ih =>
      obtain ⟨ht, hrest⟩ := Bool.and_eq_true_iff.mp (List.all_cons ▸ h)
      intro here
      rw [List.foldlM_cons, growStep_leaf ht, Option.bind_eq_bind, Option.bind_some, ih hrest,
        List.append_assoc]
      rfl

theorem opened_opens (b : Bracket) : opened b.opens = some b := by
  cases b <;> rfl

theorem opened_closes (b : Bracket) : opened b.closes = none := by
  cases b <;> rfl

theorem closed_closes (b : Bracket) : closed b.closes = some b := by
  cases b <;> rfl

/-- What stands between two brackets is one group. -/
theorem grows_group (b : Bracket) {tokens : List Token} {inner : List Tree}
    (h : ∀ here, Grows ((b, here) :: outer) tokens inner) :
    Grows outer (.mark b.opens :: tokens ++ [.mark b.closes]) [.group b inner] := by
  intro here
  have hopen : growStep (here, outer) (.mark b.opens) = some ([], (b, here) :: outer) := by
    change growMark (here, outer) b.opens = _
    rw [growMark, opened_opens]
  have hclose : growStep (inner, (b, here) :: outer) (.mark b.closes) =
      some (here ++ [.group b inner], outer) := by
    change growMark (inner, (b, here) :: outer) b.closes = _
    rw [growMark, opened_closes]
    simp only [closed_closes]
    exact if_pos trivial
  rw [List.cons_append, List.foldlM_cons, hopen, Option.bind_eq_bind, Option.bind_some,
    List.foldlM_append, h here [], Option.bind_eq_bind, Option.bind_some, List.nil_append,
    List.foldlM_cons, hclose]
  rfl

/-- The end of a line between brackets. -/
theorem grows_lineEnd (o : Bracket × List Tree) : Grows (o :: outer) [.lineEnd] [] := by
  intro here
  rw [List.append_nil]
  rfl

/-- The end of a line outside of all brackets. -/
theorem grows_statementEnd : Grows [] [.lineEnd] [.leaf .lineEnd] := by
  intro here
  rfl

theorem Grows.grow {tokens : List Token} {trees : List Tree} (h : Grows [] tokens trees) :
    Code.grow tokens = some trees := by
  rw [Code.grow, h []]
  rfl

end Growing

/-! ## What a piece of a program is read as -/

section Writing

variable {L : Language} {P : List (Bracket × List Tree) → Prop}

/-- A text that is read as trees wherever it stands between brackets of a kind. -/
def Writes (L : Language) (P : List (Bracket × List Tree) → Prop) (t : Text)
    (trees : List Tree) : Prop :=
  ∃ tokens, Lexes L t tokens ∧ ∀ outer, P outer → Grows outer tokens trees

theorem Writes.of_eq {s t : Text} {a b : List Tree} (h : Writes L P s a) (ht : s = t)
    (htrees : a = b) :
    Writes L P t b :=
  ht ▸ htrees ▸ h

theorem writes_nil : Writes L P [] [] :=
  ⟨[], lexes_nil, fun _ _ => grows_nil⟩

theorem Writes.append {s t : Text} {a b : List Tree} (ha : Writes L P s a) (hb : Writes L P t b) :
    Writes L P (s ++ t) (a ++ b) := by
  obtain ⟨as, hlexa, hgrowa⟩ := ha
  obtain ⟨bs, hlexb, hgrowb⟩ := hb
  exact ⟨as ++ bs, hlexa.append hlexb, fun outer ho => (hgrowa outer ho).append (hgrowb outer ho)⟩

theorem writes_flatMap {α : Type} {text : α → Text} {trees : α → List Tree} {xs : List α}
    (h : ∀ x ∈ xs, Writes L P (text x) (trees x)) :
    Writes L P (xs.flatMap text) (xs.flatMap trees) := by
  induction xs with
  | nil => exact writes_nil
  | cons x xs ih =>
      rw [List.flatMap_cons, List.flatMap_cons]
      exact (h x (List.mem_cons_self ..)).append (ih fun y hy => h y (List.mem_cons_of_mem x hy))

/-- A text of words and marks. -/
theorem Lexes.writes {t : Text} {tokens : List Token} (h : Lexes L t tokens)
    (hleaf : tokens.all isLeaf = true) : Writes L P t (tokens.map .leaf) :=
  ⟨tokens, h, fun _ _ => grows_leaves hleaf⟩

theorem writes_literal (hL : ReadsJson L) (t : Text) :
    Writes L P (jsonString t) [.leaf (.text t)] := by
  have hlex : Lexes L (jsonString t) [.text t] := lexes_literal hL t
  exact hlex.writes rfl

/-- A bracket with what stands in front of it, what it holds, and the other bracket with what stands
behind it. -/
theorem Writes.group {Q : List (Bracket × List Tree) → Prop} (hQ : ∀ o outer, Q (o :: outer))
    {b : Bracket} {w t w' : Text} {f g : List Token} {inner : List Tree}
    (h : Writes L Q t inner) (hopen : Lexes L w (f ++ [.mark b.opens]))
    (hclose : Lexes L w' (.mark b.closes :: g)) (hfront : f.all isLeaf = true)
    (hback : g.all isLeaf = true) :
    Writes L P (w ++ t ++ w') (f.map .leaf ++ [.group b inner] ++ g.map .leaf) := by
  obtain ⟨tokens, hlex, hgrow⟩ := h
  refine ⟨f ++ (.mark b.opens :: tokens ++ [.mark b.closes]) ++ g, ?_, fun outer _ => ?_⟩
  · simpa using (hopen.append hlex).append hclose
  · exact ((grows_leaves hfront).append (grows_group b fun here => hgrow _ (hQ _ _))).append
      (grows_leaves hback)

theorem Writes.read {t : Text} {trees : List Tree}
    (h : Writes L (fun outer => outer = []) t trees) :
    Code.read L t = some trees := by
  obtain ⟨tokens, hlex, hgrow⟩ := h
  rw [Code.read, hlex.lex]
  exact (hgrow [] rfl).grow

/-- The text of a literal of the language this is written in. -/
theorem lexes_units {s : String} {cs : List Char} {tokens : List Token} (hs : s = String.ofList cs)
    (h : lexFrom L .between (cs.map fun c => c.toNat.toUInt16) = some (.between, tokens)) :
    Lexes L (units s) tokens := by
  rw [Lexes, units_eq hs, h]

/-- Pieces with a separator between each two. -/
theorem writes_joinWith {sep : Text} {between : List Tree} (hsep : Writes L P sep between)
    {α : Type} {text : α → Text} {trees : α → List Tree} {xs : List α}
    (h : ∀ x ∈ xs, Writes L P (text x) (trees x)) :
    Writes L P (joinWith sep (xs.map text)) (between.intercalate (xs.map trees)) := by
  induction xs with
  | nil => exact writes_nil
  | cons x xs ih =>
      have hx := h x (List.mem_cons_self ..)
      have hrest := ih fun y hy => h y (List.mem_cons_of_mem x hy)
      cases xs with
      | nil => simpa [joinWith] using hx
      | cons y ys =>
          rw [joinWith, List.map_cons, List.map_cons, List.map_cons, List.map_cons,
            List.intercalate_cons_cons, List.intercalate_cons_cons]
          exact (hx.append hsep).append hrest

end Writing

/-! ## What a list between brackets holds -/

/-- What may stand between two commas. -/
def IsItem (trees : List Tree) : Prop :=
  trees ≠ [] ∧ ∀ tree ∈ trees, isMark 0x2C tree = false

theorem isMark_comma : isMark 0x2C comma = true := by
  decide

/-- Pieces with a separator behind each but the last, cut at the separators. -/
theorem splitOnP_flatMap {α : Type} {p : α → Bool} {s : α} (hsep : p s = true)
    {pieces : List (List α)} (h : ∀ piece ∈ pieces, ∀ x ∈ piece, p x = false) {l : List α}
    (hlast : ∀ x ∈ l, p x = false) :
    ((pieces.flatMap fun piece => piece ++ [s]) ++ l).splitOnP p = pieces ++ [l] := by
  induction pieces with
  | nil => exact List.splitOnP_eq_singleton hlast
  | cons piece pieces ih =>
      rw [List.flatMap_cons, List.append_assoc, List.append_assoc, List.singleton_append,
        List.splitOnP_append_cons_of_forall_mem (h piece (List.mem_cons_self ..)) s hsep,
        ih fun q hq => h q (List.mem_cons_of_mem piece hq)]
      rfl

/-- A list whose every item has a comma behind it. -/
theorem items_flatMap {pieces : List (List Tree)} (h : ∀ piece ∈ pieces, IsItem piece) :
    items (pieces.flatMap fun piece => piece ++ [comma]) = pieces := by
  have hsplit := splitOnP_flatMap isMark_comma (fun piece hpiece => (h piece hpiece).2)
    (l := []) (by simp)
  rw [List.append_nil] at hsplit
  rw [items, hsplit, List.reverse_append]
  exact List.reverse_reverse pieces

/-- A list with a comma between each two items. -/
theorem items_intercalate {pieces : List (List Tree)} (h : ∀ piece ∈ pieces, IsItem piece) :
    items ([comma].intercalate pieces) = pieces := by
  rcases pieces.eq_nil_or_concat' with rfl | ⟨before, last, rfl⟩
  · rfl
  have hlast : IsItem last := h last (by simp)
  have hsplit : ([comma].intercalate (before ++ [last])).splitOnP (isMark 0x2C) =
      before ++ [last] := by
    have hbefore : ∀ piece ∈ before, IsItem piece := fun piece hp => h piece (by simp [hp])
    clear h
    induction before with
    | nil =>
        simpa using List.splitOnP_eq_singleton hlast.2
    | cons piece before ih =>
        have hne : before ++ [last] ≠ [] := by simp
        obtain ⟨next, rest, hnext⟩ := List.exists_cons_of_ne_nil hne
        rw [List.cons_append, hnext, List.intercalate_cons_cons, ← hnext, List.append_assoc,
          List.singleton_append,
          List.splitOnP_append_cons_of_forall_mem (hbefore piece (List.mem_cons_self ..)).2 comma
            isMark_comma, ih fun q hq => hbefore q (List.mem_cons_of_mem piece hq)]
  rw [items, hsplit, List.reverse_append, List.reverse_singleton, List.singleton_append]
  cases hl : last with
  | nil => exact absurd hl hlast.1
  | cons tree trees => simp

/-! ## Rows of literals -/

/-- Two literals between brackets. -/
def pairTree (b : Bracket) (row : Text × Text) : Tree :=
  .group b [.leaf (.text row.1), comma, .leaf (.text row.2)]

theorem isItem_literal (t : Text) : IsItem [.leaf (.text t)] :=
  ⟨List.cons_ne_nil _ _, by simp [isMark]⟩

theorem isItem_group (b : Bracket) (inner : List Tree) : IsItem [.group b inner] :=
  ⟨List.cons_ne_nil _ _, by simp [isMark]⟩

/-- Two literals with a comma between them. -/
theorem items_pair (first second : Text) :
    items [.leaf (.text first), comma, .leaf (.text second)] =
      [[.leaf (.text first)], [.leaf (.text second)]] := by
  have hitem : ∀ piece ∈ [[Tree.leaf (.text first)], [.leaf (.text second)]], IsItem piece := by
    intro piece hpiece
    simp only [List.mem_cons, List.not_mem_nil, or_false] at hpiece
    rcases hpiece with rfl | rfl <;> exact isItem_literal _
  simpa [List.intercalate] using items_intercalate hitem

theorem pairOf_pair (row : Text × Text) :
    pairOf [.leaf (.text row.1), comma, .leaf (.text row.2)] = some row := by
  rw [pairOf, items_pair]
  rfl

/-- A call: the tokens in front of its brackets, and what stands between these. -/
def callTrees (head : List Token) (args : List Tree) : List Tree :=
  head.map .leaf ++ [.group .round args]

theorem callOf_callTrees (head : List Token) (args : List Tree) :
    callOf (callTrees head args) = some (head, args) := by
  induction head with
  | nil => rfl
  | cons t head ih =>
      have hcons : callOf (.leaf t :: callTrees head args) =
          (callOf (callTrees head args)).map fun call => (t :: call.1, call.2) := by
        cases head <;> rfl
      have hhead : callTrees (t :: head) args = .leaf t :: callTrees head args := rfl
      rw [hhead, hcons, ih]
      rfl

end Library.Code
