import Wayfarer.Ai.ModelCall
import Wayfarer.Library.Cut

/-!
# The script a model proposes

`scriptProposal` takes a script out of a model's answer and refuses one that names a vault secret:
as it is written, and as `readable` gives it, with the escapes of its string literals undone and its
literals joined. An escape of a number that is no code point is not undone but thrown over.

`Undone` is a script with any of its escapes undone, whichever of them a reader of the language
takes for one. `readsSafely_iff` says for which answers a script is given that names no secret
however it is undone: all but those with such a number.
-/

set_option autoImplicit false

namespace Wayfarer

open Library

/-! ## The answer -/

/-- The marks of a block of code. -/
def fence : Text :=
  units "```"

/-- `(?:js|javascript)?` taken off the start of a text. -/
def withoutLanguage (t : Text) : Text :=
  if (units "js").isPrefixOf t then t.drop 2
  else if (units "javascript").isPrefixOf t then t.drop 10
  else t

/-- What the group of the fence's pattern holds where it matches at the start of a text. -/
def fencedAt (t : Text) : Option Text :=
  if fence.isPrefixOf t then
    let opened := withoutLanguage (t.drop 3)
    -- `\s*\n` runs to the last line end of the white space
    (cutAtLast 0x0A (opened.takeWhile isWhite)).bind fun blank =>
      (cutAtWord fence (blank.2 ++ opened.dropWhile isWhite)).map (·.1)
  else none

/-- The first fenced block of an answer. -/
def fenced : Text → Option Text
  | [] => none
  | c :: rest => (fencedAt (c :: rest)).or (fenced rest)

/-- The script of an answer: the first fenced block, else the answer. -/
def scriptOf (answer : Text) : Text :=
  trim ((fenced answer).getD answer)

/-! ## Escapes -/

def isHexDigit (c : CodeUnit) : Bool :=
  (hexValue c).isSome

/-- The number that hexadecimal digits write. -/
def hexNumber (digits : Text) : Nat :=
  digits.foldl (fun n c => 16 * n + (hexValue c).getD 0) 0

/-- The greatest code point. -/
def lastCodePoint : Nat := 0x10FFFF

/-- So many digits at the start of a text: their number, and what follows. -/
def fixedDigits (count : Nat) (t : Text) : Option (Nat × Text) :=
  let digits := t.take count
  if digits.length = count ∧ digits.all isHexDigit then some (hexNumber digits, t.drop count)
  else none

/-- Digits in braces at the start of a text: their number, and what follows. -/
def bracedDigits : Text → Option (Nat × Text)
  | [] => none
  | c :: rest =>
      let digits := rest.takeWhile isHexDigit
      match rest.dropWhile isHexDigit with
      | close :: after =>
          if c = openBrace ∧ digits ≠ [] ∧ close = closeBrace then some (hexNumber digits, after)
          else none
      | [] => none

/-- An escape at the start of a text: the number it writes, and what follows. The letters may be
capitals. -/
def escapeAt : Text → Option (Nat × Text)
  | c :: letter :: rest =>
      if c ≠ backslash then none
      else if asciiLower letter = 0x75 then (bracedDigits rest).or (fixedDigits 4 rest)
      else if asciiLower letter = 0x78 then fixedDigits 2 rest
      else none
  | _ => none

/-- An escape and the number it writes. -/
inductive Escape : Text → Nat → Prop
  | braced {letter : CodeUnit} {digits : Text} (hletter : asciiLower letter = 0x75)
      (hne : digits ≠ []) (hdigits : ∀ c ∈ digits, isHexDigit c = true) :
      Escape (backslash :: letter :: openBrace :: (digits ++ [closeBrace])) (hexNumber digits)
  | four {letter : CodeUnit} {digits : Text} (hletter : asciiLower letter = 0x75)
      (hlength : digits.length = 4) (hdigits : ∀ c ∈ digits, isHexDigit c = true) :
      Escape (backslash :: letter :: digits) (hexNumber digits)
  | two {letter : CodeUnit} {digits : Text} (hletter : asciiLower letter = 0x78)
      (hlength : digits.length = 2) (hdigits : ∀ c ∈ digits, isHexDigit c = true) :
      Escape (backslash :: letter :: digits) (hexNumber digits)

theorem exists_escape_of_escapeAt {t rest : Text} {p : Nat} (h : escapeAt t = some (p, rest)) :
    ∃ e, Escape e p ∧ t = e ++ rest := by
  match t with
  | [] => cases h
  | [_] => cases h
  | c :: letter :: others =>
      -- The two kinds of escape with a fixed number of digits are read alike.
      have hfixed : ∀ {count}, fixedDigits count others = some (p, rest) →
          ∃ digits : Text, digits.length = count ∧ (∀ d ∈ digits, isHexDigit d = true) ∧
            p = hexNumber digits ∧ others = digits ++ rest := by
        intro count hdigits
        rw [fixedDigits] at hdigits
        split_ifs at hdigits with hall
        cases hdigits
        exact ⟨others.take count, hall.1, List.all_eq_true.mp hall.2, rfl,
          (List.take_append_drop count others).symm⟩
      rw [escapeAt] at h
      split_ifs at h with hslash hu hx
      · rw [not_not] at hslash
        subst hslash
        rcases Option.or_eq_some_iff.mp h with h | ⟨-, h⟩
        · -- Digits in braces: the empty ones, and a brace that is not closed, are no escape.
          match others with
          | [] => cases h
          | brace :: inner =>
              rw [bracedDigits] at h
              cases hafter : inner.dropWhile isHexDigit with
              | nil =>
                  simp only [hafter] at h
                  cases h
              | cons close after =>
                  simp only [hafter] at h
                  split_ifs at h with hbraces
                  obtain ⟨rfl, hne, rfl⟩ := hbraces
                  cases h
                  refine ⟨_, .braced hu hne fun d hd => List.mem_takeWhile_imp hd, ?_⟩
                  have hinner := List.takeWhile_append_dropWhile (p := isHexDigit) (l := inner)
                  rw [hafter] at hinner
                  simp only [List.cons_append, List.append_assoc, List.nil_append, hinner]
        · -- Four digits after `u`.
          obtain ⟨digits, hlength, hdigits, rfl, rfl⟩ := hfixed h
          exact ⟨_, .four hu hlength hdigits, rfl⟩
      · rw [not_not] at hslash
        subst hslash
        obtain ⟨digits, hlength, hdigits, rfl, rfl⟩ := hfixed h
        exact ⟨_, .two hx hlength hdigits, rfl⟩

theorem length_lt_of_escapeAt {t rest : Text} {p : Nat} (h : escapeAt t = some (p, rest)) :
    rest.length < t.length := by
  obtain ⟨e, hescape, rfl⟩ := exists_escape_of_escapeAt h
  have hpos : 0 < e.length := by
    cases hescape <;> exact Nat.succ_pos _
  rw [List.length_append]
  omega

/-! ## The check -/

/-- What reading a script can throw. -/
inductive ScriptError
  | invalidCodePoint (point : Nat)
  deriving DecidableEq

/-- The text of a code point, for the numbers that are one. -/
def fromCodePoint (point : Nat) : Except ScriptError Text :=
  if point ≤ lastCodePoint then .ok (unitsOf point) else .error (.invalidCodePoint point)

/-- A script with its escapes undone, from the first on. -/
def undoEscapes (script : Text) : Except ScriptError Text :=
  match _ : escapeAt script with
  | some (point, rest) => do
      let character ← fromCodePoint point
      let later ← undoEscapes rest
      return character ++ later
  | none =>
      match script with
      | [] => .ok []
      | c :: rest => do
          let later ← undoEscapes rest
          return c :: later
termination_by script.length
decreasing_by
  · exact length_lt_of_escapeAt ‹_›
  · exact Nat.lt_succ_self _

/-- A quote of a string literal. -/
def isLiteralQuote (c : CodeUnit) : Bool :=
  c = 0x22 || c = 0x27 || c = 0x60

/-- What follows ``/["'`]\s*\+\s*["'`]/`` where it matches at the start of a text. -/
def afterJoin : Text → Option Text
  | [] => none
  | c :: rest =>
      if isLiteralQuote c then
        match trimStart rest with
        | plus :: right =>
            match trimStart right with
            | quote :: after => if plus = 0x2B ∧ isLiteralQuote quote then some after else none
            | [] => none
        | [] => none
      else none

theorem exists_of_afterJoin {t after : Text} (h : afterJoin t = some after) :
    ∃ joint, t = joint ++ after ∧ joint ≠ [] ∧
      ∀ c ∈ joint, isLiteralQuote c = true ∨ isWhite c = true ∨ c = 0x2B := by
  cases t with
  | nil => cases h
  | cons c rest =>
      rw [afterJoin] at h
      split_ifs at h with hquote
      obtain ⟨white, hwhite, hrest⟩ := exists_white_append_trimStart rest
      cases hplus : trimStart rest with
      | nil =>
          rw [hplus] at h
          cases h
      | cons plus right =>
          rw [hplus] at h
          obtain ⟨white', hwhite', hright⟩ := exists_white_append_trimStart right
          cases hclose : trimStart right with
          | nil =>
              simp only [hclose] at h
              cases h
          | cons quote later =>
              simp only [hclose] at h
              split_ifs at h with hjoin
              cases h
              rw [hplus] at hrest
              rw [hclose] at hright
              -- The joint is the closing quote, the plus with the white space around it, and the
              -- next quote.
              refine ⟨c :: (white ++ plus :: (white' ++ [quote])), ?_, List.cons_ne_nil _ _, ?_⟩
              · rw [hrest, hright]
                simp only [List.cons_append, List.append_assoc, List.nil_append]
              · intro d hd
                rcases List.mem_cons.mp hd with rfl | hd
                · exact .inl hquote
                rcases List.mem_append.mp hd with hd | hd
                · exact .inr (.inl (hwhite d hd))
                rcases List.mem_cons.mp hd with rfl | hd
                · exact .inr (.inr hjoin.1)
                rcases List.mem_append.mp hd with hd | hd
                · exact .inr (.inl (hwhite' d hd))
                · rw [List.mem_singleton.mp hd]
                  exact .inl hjoin.2

/-- A script with its string literals joined across a `+`. -/
def joinLiterals (script : Text) : Text :=
  match _ : afterJoin script with
  | some after => joinLiterals after
  | none =>
      match script with
      | [] => []
      | c :: rest => c :: joinLiterals rest
termination_by script.length
decreasing_by
  · obtain ⟨joint, rfl, hne, -⟩ := exists_of_afterJoin ‹_›
    rw [List.length_append]
    have := List.length_pos_iff.mpr hne
    omega
  · exact Nat.lt_succ_self _

/-- A script's text as far as a reference in it can be found by reading. -/
def readable (script : Text) : Except ScriptError Text :=
  (undoEscapes script).map joinLiterals

/-- A proposed script, or why it is not shown. -/
inductive ScriptProposal
  | script (script : Text)
  | refused (refused : Text)
  deriving DecidableEq

/-- The script an answer proposes. -/
def scriptProposal (answer : Text) : Except ScriptError ScriptProposal :=
  let script := scriptOf answer
  if testSecretReference script then .ok (.refused namesVaultSecret)
  else do
    let text ← readable script
    if testSecretReference text then return .refused namesVaultSecret
    else return .script script

/-! ## References -/

/-- Two braces, white space, and the start of a secret's name. -/
def secretOpening (white name : Text) : Text :=
  openBrace :: openBrace :: (white ++ name)

/-- A text holds a reference to a vault secret. -/
def MentionsSecret (t : Text) : Prop :=
  ∃ white name, (∀ c ∈ white, isWhite c = true) ∧ name.map asciiLower = secretPrefix ∧
    secretOpening white name <:+: t

theorem referenceAt_iff (t : Text) :
    referenceAt t = true ↔ ∃ white name, (∀ c ∈ white, isWhite c = true) ∧
      name.map asciiLower = secretPrefix ∧ secretOpening white name <+: t := by
  constructor
  · intro h
    rw [referenceAt, Bool.and_eq_true, List.isPrefixOf_iff_prefix, List.isPrefixOf_iff_prefix] at h
    obtain ⟨⟨rest, rfl⟩, hname⟩ := h
    have hdrop : ([openBrace, openBrace] ++ rest).drop 2 = rest := rfl
    rw [hdrop] at hname
    obtain ⟨white, hwhite, hrest⟩ := exists_white_append_trimStart rest
    obtain ⟨after, hafter⟩ := hname
    obtain ⟨name, later, hsplit, hname, -⟩ := List.map_eq_append_iff.mp hafter.symm
    refine ⟨white, name, hwhite, hname, later, ?_⟩
    rw [secretOpening, hrest, hsplit]
    simp only [List.cons_append, List.nil_append, List.append_assoc]
  · rintro ⟨white, name, hwhite, hname, after, rfl⟩
    have hdollar : ∀ c ∈ whiteSpace, asciiLower c ≠ dollarSign := by decide
    obtain ⟨d, others, rfl, hd, hothers⟩ := List.map_eq_cons_iff.mp (hname.trans secretPrefix_eq)
    have hsolid : isWhite d = false := by
      rw [isWhite, Bool.eq_false_iff]
      intro hd'
      exact hdollar d (List.contains_iff_mem.mp hd') hd
    have htrim : trimStart (white ++ d :: (others ++ after)) = d :: (others ++ after) :=
      trimStart_append hwhite hsolid
    have hdrop : (secretOpening white (d :: others) ++ after).drop 2 =
        white ++ d :: (others ++ after) := by
      simp only [secretOpening, List.cons_append, List.append_assoc, List.drop_succ_cons,
        List.drop_zero]
    rw [referenceAt, Bool.and_eq_true, List.isPrefixOf_iff_prefix,
      List.isPrefixOf_iff_prefix, hdrop, htrim, ← hname, ← List.cons_append, List.map_append]
    exact ⟨List.prefix_append [openBrace, openBrace] _, List.prefix_append _ _⟩

/-- The check matches a text exactly when the text holds a reference. -/
theorem testSecretReference_iff (t : Text) : testSecretReference t = true ↔ MentionsSecret t := by
  induction t with
  | nil =>
      constructor
      · intro h
        cases h
      · rintro ⟨white, name, -, -, hin⟩
        cases List.infix_nil.mp hin
  | cons c rest ih =>
      rw [testSecretReference, Bool.or_eq_true, referenceAt_iff, ih]
      constructor
      · rintro (⟨white, name, hwhite, hname, hpre⟩ | ⟨white, name, hwhite, hname, hin⟩)
        · exact ⟨white, name, hwhite, hname, hpre.isInfix⟩
        · exact ⟨white, name, hwhite, hname, hin.trans (List.suffix_cons c rest).isInfix⟩
      · rintro ⟨white, name, hwhite, hname, hin⟩
        rcases List.infix_cons_iff.mp hin with hpre | hin
        · exact .inl ⟨white, name, hwhite, hname, hpre⟩
        · exact .inr ⟨white, name, hwhite, hname, hin⟩

/-- No character of a reference's opening starts an escape or ends a string literal. -/
theorem plain_of_mem_secretOpening {white name : Text} (hwhite : ∀ c ∈ white, isWhite c = true)
    (hname : name.map asciiLower = secretPrefix) {c : CodeUnit}
    (hc : c ∈ secretOpening white name) :
    c ≠ backslash ∧ isLiteralQuote c = false := by
  have hbrace : openBrace ≠ backslash ∧ isLiteralQuote openBrace = false := by decide
  have hspace : ∀ d ∈ whiteSpace, d ≠ backslash ∧ isLiteralQuote d = false := by decide
  have hletters : asciiLower backslash ∉ secretPrefix ∧ asciiLower 0x22 ∉ secretPrefix ∧
      asciiLower 0x27 ∉ secretPrefix ∧ asciiLower 0x60 ∉ secretPrefix := by decide
  rcases List.mem_cons.mp hc with rfl | hc
  · exact hbrace
  rcases List.mem_cons.mp hc with rfl | hc
  · exact hbrace
  rcases List.mem_append.mp hc with hc | hc
  · exact hspace c (List.contains_iff_mem.mp (hwhite c hc))
  · have hlower : asciiLower c ∈ secretPrefix := hname ▸ List.mem_map_of_mem hc
    constructor
    · rintro rfl
      exact hletters.1 hlower
    · rw [Bool.eq_false_iff, isLiteralQuote]
      intro hquote
      simp only [Bool.or_eq_true, decide_eq_true_eq] at hquote
      rcases hquote with (rfl | rfl) | rfl
      · exact hletters.2.1 hlower
      · exact hletters.2.2.1 hlower
      · exact hletters.2.2.2 hlower

/-! ## Escapes undone -/

/-- A script with some of its escapes undone. -/
inductive Undone : Text → Text → Prop
  | nil : Undone [] []
  | kept {s t : Text} (c : CodeUnit) (h : Undone s t) : Undone (c :: s) (c :: t)
  | escape {e s t : Text} {p : Nat} (hescape : Escape e p) (hp : p ≤ lastCodePoint)
      (h : Undone s t) : Undone (e ++ s) (unitsOf p ++ t)

theorem Undone.refl (script : Text) : Undone script script := by
  induction script with
  | nil => exact .nil
  | cons c rest ih => exact .kept c ih

/-- An escape starts with the only backslash that it holds, and nowhere in it do two braces open. -/
theorem Escape.shape {e : Text} {p : Nat} (h : Escape e p) :
    ∃ tail, e = backslash :: tail ∧ backslash ∉ tail ∧
      ∀ w x : Text, openBrace :: openBrace :: w <:+: tail ++ x →
        openBrace :: openBrace :: w <:+: x := by
  have hslash : isHexDigit backslash = false := by decide
  have hbrace : isHexDigit openBrace = false := by decide
  have hletter : ∀ {letter lower : CodeUnit}, asciiLower letter = lower →
      lower ≠ asciiLower backslash ∧ lower ≠ asciiLower openBrace →
      backslash ≠ letter ∧ openBrace ≠ letter := by
    rintro letter lower rfl ⟨hslash, hbrace⟩
    exact ⟨fun h => hslash (h ▸ rfl), fun h => hbrace (h ▸ rfl)⟩
  have hdigit : ∀ {digits : Text} {c : CodeUnit}, (∀ d ∈ digits, isHexDigit d = true) →
      isHexDigit c = false → c ∉ digits := by
    intro digits c hdigits hc hmem
    rw [hdigits c hmem] at hc
    cases hc
  have hfixed : ∀ {letter : CodeUnit} {digits : Text}, backslash ≠ letter ∧ openBrace ≠ letter →
      (∀ d ∈ digits, isHexDigit d = true) → backslash ∉ letter :: digits ∧
        ∀ w x : Text, openBrace :: openBrace :: w <:+: letter :: digits ++ x →
          openBrace :: openBrace :: w <:+: x := by
    intro letter digits hne hdigits
    constructor
    · exact List.not_mem_cons_of_ne_of_not_mem hne.1 (hdigit hdigits hslash)
    · intro w x
      apply infix_of_head_not_mem
      exact List.not_mem_cons_of_ne_of_not_mem hne.2 (hdigit hdigits hbrace)
  cases h with
  | four hu hlength hdigits => exact ⟨_, rfl, hfixed (hletter hu (by decide)) hdigits⟩
  | two hx hlength hdigits => exact ⟨_, rfl, hfixed (hletter hx (by decide)) hdigits⟩
  | @braced letter digits hu hne hdigits =>
      obtain ⟨hslashed, hopened⟩ := hletter hu (by decide)
      refine ⟨_, rfl, ?_, ?_⟩
      · rw [List.mem_cons, List.mem_cons, List.mem_append, List.mem_singleton]
        rintro (h | h | h | h)
        · exact hslashed h
        · exact absurd h (by decide)
        · exact hdigit hdigits hslash h
        · exact absurd h (by decide)
      · intro w x hin
        -- the brace of the escape stands before a digit
        obtain ⟨d, others, rfl⟩ := List.exists_cons_of_ne_nil hne
        rcases List.infix_cons_iff.mp hin with hpre | hin
        · exact absurd (List.cons_prefix_cons.mp hpre).1 hopened
        rcases List.infix_cons_iff.mp hin with hpre | hin
        · obtain ⟨-, hpre⟩ := List.cons_prefix_cons.mp hpre
          obtain ⟨rfl, -⟩ := List.cons_prefix_cons.mp hpre
          exact absurd List.mem_cons_self (hdigit hdigits hbrace)
        · refine infix_of_head_not_mem ?_ hin
          rw [List.mem_append, List.mem_singleton, not_or]
          exact ⟨hdigit hdigits hbrace, by decide⟩

/-- An escape is read whatever follows it. -/
theorem escapeAt_append {e : Text} {p : Nat} (h : Escape e p) (rest : Text) :
    escapeAt (e ++ rest) = some (p, rest) := by
  have hfixed : ∀ {count : Nat} {digits : Text}, digits.length = count →
      (∀ d ∈ digits, isHexDigit d = true) →
      fixedDigits count (digits ++ rest) = some (hexNumber digits, rest) := by
    rintro count digits rfl hdigits
    rw [fixedDigits, List.take_left, List.drop_left]
    exact if_pos ⟨rfl, List.all_eq_true.mpr hdigits⟩
  cases h with
  | @braced letter digits hu hne hdigits =>
      have htext : digits ++ [closeBrace] ++ rest = digits ++ closeBrace :: rest := by
        rw [List.append_assoc, List.singleton_append]
      have hclose : ¬ isHexDigit closeBrace = true := by decide
      have htake : (digits ++ closeBrace :: rest).takeWhile isHexDigit = digits := by
        rw [List.takeWhile_append_of_pos hdigits, List.takeWhile_cons_of_neg hclose,
          List.append_nil]
      have hdrop : (digits ++ closeBrace :: rest).dropWhile isHexDigit = closeBrace :: rest := by
        rw [List.dropWhile_append_of_pos hdigits, List.dropWhile_cons_of_neg hclose]
      rw [List.cons_append, List.cons_append, List.cons_append, escapeAt,
        if_neg (by simp), if_pos hu, bracedDigits, htext, hdrop, htake]
      simp only [hne, ne_eq, not_false_eq_true, and_self, if_true, Option.some_or]
  | @four letter digits hu hlength hdigits =>
      have hnone : bracedDigits (digits ++ rest) = none := by
        cases digits with
        | nil => cases hlength
        | cons d others =>
            have hd : d ≠ openBrace := by
              rintro rfl
              exact absurd (hdigits _ List.mem_cons_self) (by decide)
            rw [List.cons_append, bracedDigits]
            cases (others ++ rest).dropWhile isHexDigit with
            | nil => rfl
            | cons close after => exact if_neg fun h => hd h.1
      rw [List.cons_append, List.cons_append, escapeAt, if_neg (by simp), if_pos hu, hnone,
        Option.none_or, hfixed hlength hdigits]
  | @two letter digits hx hlength hdigits =>
      rw [List.cons_append, List.cons_append, escapeAt, if_neg (by simp),
        if_neg (by rw [hx]; decide), if_pos hx, hfixed hlength hdigits]

theorem undoEscapes_append {e : Text} {p : Nat} (h : Escape e p) (rest : Text) :
    undoEscapes (e ++ rest) = (do
      let character ← fromCodePoint p
      let later ← undoEscapes rest
      return character ++ later) := by
  rw [undoEscapes]
  split
  · next point rest' heq =>
      rw [escapeAt_append h] at heq
      cases heq
      rfl
  · next heq =>
      rw [escapeAt_append h] at heq
      cases heq

theorem undoEscapes_cons {c : CodeUnit} {rest : Text} (h : escapeAt (c :: rest) = none) :
    undoEscapes (c :: rest) = (do
      let later ← undoEscapes rest
      return c :: later) := by
  rw [undoEscapes]
  split
  · next heq =>
      rw [h] at heq
      cases heq
  · rfl

theorem escapeAt_eq_none {c : CodeUnit} (hc : c ≠ backslash) (rest : Text) :
    escapeAt (c :: rest) = none := by
  cases rest with
  | nil => rfl
  | cons letter rest =>
      rw [escapeAt]
      exact if_pos hc

/-- What holds no backslash is read as it stands. -/
theorem undoEscapes_plain {a rest : Text} (ha : backslash ∉ a) :
    undoEscapes (a ++ rest) = (do
      let later ← undoEscapes rest
      return a ++ later) := by
  induction a with
  | nil =>
      rw [List.nil_append]
      cases undoEscapes rest <;> rfl
  | cons c a ih =>
      have hc : c ≠ backslash := fun h => ha (h ▸ List.mem_cons_self)
      rw [List.cons_append, undoEscapes_cons (escapeAt_eq_none hc _),
        ih fun h => ha (List.mem_cons_of_mem c h)]
      cases undoEscapes rest <;> rfl

theorem exists_of_undoEscapes_append {e rest r : Text} {p : Nat} (h : Escape e p)
    (hr : undoEscapes (e ++ rest) = .ok r) :
    p ≤ lastCodePoint ∧ ∃ later, undoEscapes rest = .ok later ∧ r = unitsOf p ++ later := by
  rw [undoEscapes_append h] at hr
  obtain ⟨character, hcharacter, hr⟩ := bind_eq_ok.mp hr
  obtain ⟨later, hlater, hr⟩ := bind_eq_ok.mp hr
  rw [fromCodePoint] at hcharacter
  split_ifs at hcharacter with hp
  cases hcharacter
  cases hr
  exact ⟨hp, later, hlater, rfl⟩

theorem exists_of_undoEscapes_plain {a rest r : Text} (ha : backslash ∉ a)
    (hr : undoEscapes (a ++ rest) = .ok r) :
    ∃ later, undoEscapes rest = .ok later ∧ r = a ++ later := by
  rw [undoEscapes_plain ha] at hr
  obtain ⟨later, hlater, hr⟩ := bind_eq_ok.mp hr
  cases hr
  exact ⟨later, hlater, rfl⟩

/-- What follows the same characters may be changed, as far as a word's ends go. -/
theorem prefix_append_mono {w a t r : Text}
    (h : ∀ v, (∀ c ∈ v, c ∈ w) → v <+: t → v <+: r) (hw : w <+: a ++ t) : w <+: a ++ r := by
  induction a generalizing w with
  | nil => exact h w (fun c hc => hc) hw
  | cons c a ih =>
      cases w with
      | nil => exact List.nil_prefix
      | cons d w =>
          obtain ⟨rfl, hrest⟩ := List.cons_prefix_cons.mp hw
          apply List.cons_prefix_cons.mpr
          refine ⟨rfl, ih (fun v hv => h v fun c hc => ?_) hrest⟩
          exact List.mem_cons_of_mem d (hv c hc)

/-- A word without a backslash that some undoing brings to the start of a script is there when
every escape is undone. -/
theorem prefix_undoEscapes {s t r w : Text} (hundone : Undone s t) (hw : backslash ∉ w)
    (hr : undoEscapes s = .ok r) (h : w <+: t) : w <+: r := by
  induction hundone generalizing w r with
  | nil =>
      rw [List.prefix_nil.mp h]
      exact List.nil_prefix
  | @kept s t c hundone ih =>
      cases w with
      | nil => exact List.nil_prefix
      | cons d w =>
          obtain ⟨rfl, hrest⟩ := List.cons_prefix_cons.mp h
          have hd : backslash ∉ [d] := fun hmem =>
            hw (List.mem_cons.mpr (.inl (List.mem_singleton.mp hmem)))
          obtain ⟨later, hlater, rfl⟩ := exists_of_undoEscapes_plain hd hr
          exact List.cons_prefix_cons.mpr
            ⟨rfl, ih (fun hmem => hw (List.mem_cons_of_mem d hmem)) hlater hrest⟩
  | escape hescape hp hundone ih =>
      obtain ⟨-, later, hlater, rfl⟩ := exists_of_undoEscapes_append hescape hr
      exact prefix_append_mono (fun v hv => ih (fun hmem => hw (hv _ hmem)) hlater) h

/-- A word that opens two braces and holds no backslash stands in a script with every escape undone
wherever it stands with some of them undone. -/
theorem infix_undoEscapes {s t r w : Text} (hundone : Undone s t)
    (hw : backslash ∉ openBrace :: openBrace :: w) (hr : undoEscapes s = .ok r)
    (h : openBrace :: openBrace :: w <:+: t) : openBrace :: openBrace :: w <:+: r := by
  induction hundone generalizing r with
  | nil => cases List.infix_nil.mp h
  | @kept s t c hundone ih =>
      rcases List.infix_cons_iff.mp h with hpre | hin
      · exact (prefix_undoEscapes (.kept c hundone) hw hr hpre).isInfix
      cases hescape : escapeAt (c :: s) with
      | none =>
          rw [undoEscapes_cons hescape] at hr
          obtain ⟨later, hlater, hr⟩ := bind_eq_ok.mp hr
          cases hr
          exact (ih hlater hin).trans (List.suffix_cons c later).isInfix
      | some found =>
          -- the character is kept that starts an escape: what follows it is read
          -- from the middle of one
          obtain ⟨p, rest⟩ := found
          obtain ⟨e, he, hsplit⟩ := exists_escape_of_escapeAt hescape
          obtain ⟨tail, rfl, hplain, hopened⟩ := he.shape
          rw [hsplit] at hr
          obtain ⟨-, rfl⟩ := List.cons.inj hsplit
          obtain ⟨-, later, hlater, rfl⟩ := exists_of_undoEscapes_append he hr
          have htail : undoEscapes (tail ++ rest) = .ok (tail ++ later) := by
            rw [undoEscapes_plain hplain, hlater]
            rfl
          exact (hopened w later (ih htail hin)).trans (List.suffix_append _ later).isInfix
  | @escape e s t p hescape hp hundone ih =>
      obtain ⟨-, later, hlater, rfl⟩ := exists_of_undoEscapes_append hescape hr
      rcases infix_append_cases h with ⟨front, back, hsplit, -, hpre⟩ | hin
      · rw [hsplit, List.append_assoc]
        have hback : openBrace :: openBrace :: w <+: back ++ later :=
          prefix_append_mono
            (fun v hv => prefix_undoEscapes hundone (fun hmem => hw (hv _ hmem)) hlater) hpre
        exact hback.isInfix.trans (List.suffix_append front _).isInfix
      · exact (ih hlater hin).trans (List.suffix_append _ later).isInfix

/-! ## Literals joined -/

theorem joinLiterals_cons {c : CodeUnit} {rest : Text} (h : afterJoin (c :: rest) = none) :
    joinLiterals (c :: rest) = c :: joinLiterals rest := by
  rw [joinLiterals]
  split
  · next heq =>
      rw [h] at heq
      cases heq
  · rfl

theorem prefix_joinLiterals {w t : Text} (hw : ∀ c ∈ w, isLiteralQuote c = false)
    (h : w <+: t) : w <+: joinLiterals t := by
  induction w generalizing t with
  | nil => exact List.nil_prefix
  | cons d w ih =>
      obtain ⟨rest, rfl⟩ := h
      have hjoin : afterJoin (d :: (w ++ rest)) = none := by
        rw [afterJoin, hw d List.mem_cons_self]
        rfl
      rw [List.cons_append, joinLiterals_cons hjoin]
      apply List.cons_prefix_cons.mpr
      exact ⟨rfl, ih (fun c hc => hw c (List.mem_cons_of_mem d hc)) (List.prefix_append w rest)⟩

/-- Joining literals takes nothing away from what opens with a brace and holds no quote. -/
theorem infix_joinLiterals {w t : Text} (hw : ∀ c ∈ openBrace :: w, isLiteralQuote c = false)
    (h : openBrace :: w <:+: t) : openBrace :: w <:+: joinLiterals t := by
  fun_induction joinLiterals t with
  | case1 t after hjoin ih =>
      obtain ⟨joint, rfl, -, hjoint⟩ := exists_of_afterJoin hjoin
      apply ih
      refine infix_of_head_not_mem (fun hmem => ?_) h
      rcases hjoint _ hmem with hquote | hwhite | hplus
      · exact absurd hquote (by decide)
      · exact absurd hwhite (by decide)
      · exact absurd hplus (by decide)
  | case2 => cases List.infix_nil.mp h
  | case3 c rest hjoin ih =>
      rcases List.infix_cons_iff.mp h with hpre | h
      · rw [← joinLiterals_cons hjoin]
        exact (prefix_joinLiterals hw hpre).isInfix
      · exact (ih h).trans (List.suffix_cons c _).isInfix

/-! ## What is shown -/

theorem mentionsSecret_readable {script t text : Text} (hundone : Undone script t)
    (htext : readable script = .ok text) (h : MentionsSecret t) : MentionsSecret text := by
  obtain ⟨white, name, hwhite, hname, hin⟩ := h
  rw [readable] at htext
  cases hread : undoEscapes script with
  | error e =>
      rw [hread] at htext
      cases htext
  | ok read =>
      rw [hread] at htext
      cases htext
      have hplain := fun c => @plain_of_mem_secretOpening white name hwhite hname c
      refine ⟨white, name, hwhite, hname, ?_⟩
      apply infix_joinLiterals fun c hc => (hplain c hc).2
      exact infix_undoEscapes hundone (fun hmem => (hplain _ hmem).1 rfl) hread hin

/-- An escape of a script writes a number that is no code point. -/
def WritesNoCodePoint (script : Text) : Prop :=
  ∃ e p, Escape e p ∧ lastCodePoint < p ∧ e <:+: script

theorem writesNoCodePoint_append {e : Text} {p : Nat} (h : Escape e p) (rest : Text) :
    WritesNoCodePoint (e ++ rest) ↔ lastCodePoint < p ∨ WritesNoCodePoint rest := by
  constructor
  · rintro ⟨e', p', hescape, hp, hin⟩
    obtain ⟨tail', htail', -⟩ := hescape.shape
    obtain ⟨tail, htail, hplain, -⟩ := h.shape
    rw [htail, htail', List.cons_append] at hin
    rcases List.infix_cons_iff.mp hin with ⟨after, hafter⟩ | hin
    · -- the two escapes start at one place
      have hboth := escapeAt_append hescape after
      rw [htail', hafter, ← List.cons_append, ← htail, escapeAt_append h] at hboth
      cases hboth
      exact .inl hp
    · rw [← htail'] at hin
      refine .inr ⟨e', p', hescape, hp, ?_⟩
      rw [htail'] at hin ⊢
      exact infix_of_head_not_mem hplain hin
  · rintro (hp | ⟨e', p', hescape, hp, hin⟩)
    · exact ⟨e, p, h, hp, (List.prefix_append e rest).isInfix⟩
    · exact ⟨e', p', hescape, hp, hin.trans (List.suffix_append e rest).isInfix⟩

theorem writesNoCodePoint_cons {c : CodeUnit} {rest : Text} (h : escapeAt (c :: rest) = none) :
    WritesNoCodePoint (c :: rest) ↔ WritesNoCodePoint rest := by
  constructor
  · rintro ⟨e, p, hescape, hp, hin⟩
    rcases List.infix_cons_iff.mp hin with ⟨after, hafter⟩ | hin
    · rw [← hafter, escapeAt_append hescape] at h
      cases h
    · exact ⟨e, p, hescape, hp, hin⟩
  · rintro ⟨e, p, hescape, hp, hin⟩
    exact ⟨e, p, hescape, hp, hin.trans (List.suffix_cons c rest).isInfix⟩

/-- The escapes are undone exactly where each of them is of a code point. -/
theorem exists_undoEscapes_iff (script : Text) :
    (∃ text, undoEscapes script = .ok text) ↔ ¬ WritesNoCodePoint script := by
  fun_induction undoEscapes script with
  | case1 script point rest hescape ih =>
      obtain ⟨e, he, rfl⟩ := exists_escape_of_escapeAt hescape
      rw [writesNoCodePoint_append he, not_or, ← ih, fromCodePoint]
      by_cases hp : point ≤ lastCodePoint
      · rw [if_pos hp]
        constructor
        · rintro ⟨text, htext⟩
          obtain ⟨character, -, hrest⟩ := bind_eq_ok.mp htext
          obtain ⟨later, hlater, -⟩ := bind_eq_ok.mp hrest
          exact ⟨Nat.not_lt.mpr hp, later, hlater⟩
        · rintro ⟨-, later, hlater⟩
          exact ⟨unitsOf point ++ later, by rw [hlater]; rfl⟩
      · rw [if_neg hp]
        constructor
        · rintro ⟨text, htext⟩
          cases htext
        · rintro ⟨hlast, -⟩
          exact absurd (Nat.not_lt.mp hlast) hp
  | case2 =>
      refine ⟨fun _ => ?_, fun _ => ⟨[], rfl⟩⟩
      rintro ⟨e, p, hescape, -, hin⟩
      obtain ⟨tail, rfl, -⟩ := hescape.shape
      cases List.infix_nil.mp hin
  | case3 c rest hescape ih =>
      rw [writesNoCodePoint_cons hescape, ← ih]
      constructor
      · rintro ⟨text, htext⟩
        obtain ⟨later, hlater, -⟩ := bind_eq_ok.mp htext
        exact ⟨later, hlater⟩
      · rintro ⟨later, hlater⟩
        exact ⟨c :: later, by rw [hlater]; rfl⟩

theorem exists_readable_iff (script : Text) :
    (∃ text, readable script = .ok text) ↔ ¬ WritesNoCodePoint script := by
  rw [← exists_undoEscapes_iff, readable]
  cases undoEscapes script with
  | error e =>
      constructor
      · rintro ⟨text, htext⟩
        cases htext
      · rintro ⟨text, htext⟩
        cases htext
  | ok text => exact ⟨fun _ => ⟨text, rfl⟩, fun _ => ⟨joinLiterals text, rfl⟩⟩

/-- Reading an answer gives a script or a refusal, and a script names no secret, neither as it is
written nor however its escapes are undone. -/
def ReadsSafely (answer : Text) : Prop :=
  ∃ proposal, scriptProposal answer = .ok proposal ∧
    ∀ script, proposal = .script script →
      ¬ MentionsSecret script ∧ ∀ t, Undone script t → ¬ MentionsSecret t

/-- Each way an answer ends that is given back. -/
theorem scriptProposal_eq_ok {answer : Text} {proposal : ScriptProposal}
    (h : scriptProposal answer = .ok proposal) :
    proposal = .refused namesVaultSecret ∨ ∃ text, readable (scriptOf answer) = .ok text ∧
      ¬ MentionsSecret text ∧ proposal = .script (scriptOf answer) := by
  rw [scriptProposal] at h
  split_ifs at h with hwritten
  · exact .inl (Except.ok.inj h).symm
  · obtain ⟨text, htext, h⟩ := bind_eq_ok.mp h
    split_ifs at h with hread
    · exact .inl (Except.ok.inj h).symm
    · refine .inr ⟨text, htext, ?_, (Except.ok.inj h).symm⟩
      rwa [← testSecretReference_iff]

/-- An answer is read safely unless its script names no secret as it is written and an escape in it
is of a number past the last code point. -/
theorem readsSafely_iff (answer : Text) :
    ReadsSafely answer ↔
      (MentionsSecret (scriptOf answer) ∨ ¬ WritesNoCodePoint (scriptOf answer)) := by
  rw [← exists_readable_iff]
  constructor
  · rintro ⟨proposal, hproposal, -⟩
    rw [← testSecretReference_iff]
    by_cases hwritten : testSecretReference (scriptOf answer) = true
    · exact .inl hwritten
    · rw [scriptProposal, if_neg hwritten] at hproposal
      obtain ⟨text, htext, -⟩ := bind_eq_ok.mp hproposal
      exact .inr ⟨text, htext⟩
  · intro h
    have hgiven : ∃ proposal, scriptProposal answer = .ok proposal := by
      rw [← testSecretReference_iff] at h
      rw [scriptProposal]
      by_cases hwritten : testSecretReference (scriptOf answer) = true
      · exact ⟨_, if_pos hwritten⟩
      · obtain ⟨text, htext⟩ := h.resolve_left hwritten
        rw [if_neg hwritten, htext]
        by_cases hread : testSecretReference text = true
        · exact ⟨_, if_pos hread⟩
        · exact ⟨_, if_neg hread⟩
    obtain ⟨proposal, hproposal⟩ := hgiven
    refine ⟨proposal, hproposal, fun script hscript => ?_⟩
    rcases scriptProposal_eq_ok hproposal with hrefused | ⟨text, htext, hclean, hshown⟩
    · rw [hrefused] at hscript
      cases hscript
    · obtain rfl := ScriptProposal.script.inj (hscript.symm.trans hshown)
      have hundone : ∀ t, Undone (scriptOf answer) t → ¬ MentionsSecret t :=
        fun t ht hmentions => hclean (mentionsSecret_readable ht htext hmentions)
      exact ⟨hundone _ (.refl _), hundone⟩

/-- A script that writes an escape of a number past the last code point. -/
def pastLastScript : Text :=
  units "pm.test(\"\\u\x7b110000\x7d\", () => true);"

theorem pastLastScript_not_read : ¬ ReadsSafely pastLastScript := by
  rintro ⟨proposal, hproposal, -⟩
  have hthrown : scriptProposal pastLastScript = .error (.invalidCodePoint 0x110000) := by
    decide +kernel
  rw [hthrown] at hproposal
  cases hproposal

end Wayfarer
