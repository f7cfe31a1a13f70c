import Wayfarer.Import.CurlWords

/-!
# The words of a command for cmd

A browser's "Copy as cURL (cmd)" writes each word in double quotes, as Windows' programs read them,
with a caret before every quote and every character that cmd would act on (`windowsLine`). Reading
such a line undoes the carets, but not the doubled backslashes, and an apostrophe makes the line one
for bash.

`splitWords_windowsLine_iff` says which words come back.
-/

set_option autoImplicit false

namespace Wayfarer

open Library

/-! ## Writing -/

/-- The characters cmd acts on: the caret is one, a line break is none of a line. -/
structure CmdSpecials where
  special : CodeUnit → Bool
  caret : special 0x5E = true
  lineFeed : special 0x0A = false
  carriageReturn : special 0x0D = false

/-- Those of cmd. -/
def cmdSpecials : CmdSpecials where
  special c := (units "()%!^<>&|").contains c
  caret := by decide
  lineFeed := by decide
  carriageReturn := by decide

/-- A word between double quotes, after so many backslashes: they are doubled before a quote and at
the end, and a quote has one of its own. -/
def windowsEscape : Nat → Text → Text
  | n, [] => List.replicate (2 * n) 0x5C
  | n, c :: rest =>
      if c = 0x5C then windowsEscape (n + 1) rest
      else if c = 0x22 then List.replicate (2 * n + 1) 0x5C ++ 0x22 :: windowsEscape 0 rest
      else List.replicate n 0x5C ++ c :: windowsEscape 0 rest

/-- A word as a program of Windows is given it. -/
def windowsQuote (word : Text) : Text :=
  0x22 :: windowsEscape 0 word ++ [0x22]

/-- A text with a caret before each quote and each character cmd acts on. -/
def caretEscape (specials : CmdSpecials) (text : Text) : Text :=
  text.flatMap fun c => if c = 0x22 ∨ specials.special c = true then [0x5E, c] else [c]

/-- A command of words behind `curl`, on one line. -/
def windowsLine (specials : CmdSpecials) (words : List Text) : Text :=
  units "curl" ++ words.flatMap fun word => 0x20 :: caretEscape specials (windowsQuote word)

/-- The words of a line, as `parseCurl` reads them. -/
def splitWords (text : Text) : Except ImportError (List Text) :=
  if isCmd text then cmdWords text else bashWords text

/-! ## Carets -/

theorem withoutCarets_cons {c : CodeUnit} (h : c ≠ 0x5E) (rest : Text) :
    withoutCarets (c :: rest) = c :: withoutCarets rest := by
  rw [withoutCarets.eq_def]
  split
  · next heq => exact absurd (List.cons.inj heq).1 h
  · next heq => exact absurd (List.cons.inj heq).1 h
  · next heq => exact absurd (List.cons.inj heq).1 h
  · next heq =>
      obtain ⟨rfl, rfl⟩ := List.cons.inj heq
      rfl
  · next heq => cases heq

theorem withoutCarets_caret {c : CodeUnit} (hfeed : c ≠ 0x0A) (hreturn : c ≠ 0x0D) (rest : Text) :
    withoutCarets (0x5E :: c :: rest) = c :: withoutCarets rest := by
  rw [withoutCarets.eq_def]
  split
  · next heq => exact absurd (List.cons.inj (List.cons.inj heq).2).1 hfeed
  · next heq => exact absurd (List.cons.inj (List.cons.inj heq).2).1 hreturn
  · next heq =>
      obtain ⟨-, heq⟩ := List.cons.inj heq
      obtain ⟨rfl, rfl⟩ := List.cons.inj heq
      rfl
  · next hother heq =>
      obtain ⟨rfl, rfl⟩ := List.cons.inj heq
      exact absurd rfl (hother c rest rfl)
  · next heq => cases heq

/-- The carets of a text that was escaped are taken out again. -/
theorem withoutCarets_caretEscape (specials : CmdSpecials) (text rest : Text) :
    withoutCarets (caretEscape specials text ++ rest) = text ++ withoutCarets rest := by
  induction text with
  | nil => rfl
  | cons c text ih =>
      rw [caretEscape, List.flatMap_cons, ← caretEscape, List.append_assoc]
      by_cases hc : c = 0x22 ∨ specials.special c = true
      · have hfeed : c ≠ 0x0A := by
          rintro rfl
          rw [specials.lineFeed] at hc
          exact absurd hc (by decide)
        have hreturn : c ≠ 0x0D := by
          rintro rfl
          rw [specials.carriageReturn] at hc
          exact absurd hc (by decide)
        rw [if_pos hc]
        change withoutCarets (0x5E :: c :: (caretEscape specials text ++ rest)) = _
        rw [withoutCarets_caret hfeed hreturn, ih]
        rfl
      · have hcaret : c ≠ 0x5E := by
          rintro rfl
          exact hc (Or.inr specials.caret)
        rw [if_neg hc, List.singleton_append, withoutCarets_cons hcaret, ih]
        rfl

/-! ## Reading a quoted word -/

/-- The backslashes of a word that are doubled in quotes, after so many: those before a quote, and
those at the end. -/
def doubled : Nat → Text → Nat
  | n, [] => n
  | n, c :: rest =>
      if c = 0x5C then doubled (n + 1) rest
      else if c = 0x22 then n + doubled 0 rest
      else doubled 0 rest

theorem cmdFrom_escapedQuote (quoted : Bool) (word : Option Text) (words : List Text)
    (rest : Text) :
    cmdFrom quoted word words (0x5C :: 0x22 :: rest) =
      cmdFrom quoted (addPiece word [0x22]) words rest := by
  rw [cmdFrom.eq_def]
  rfl

theorem cmdFrom_open (word : Option Text) (words : List Text) (rest : Text) :
    cmdFrom false word words (0x22 :: rest) = cmdFrom true (addPiece word []) words rest := by
  rw [cmdFrom.eq_def]
  exact if_neg fun h => absurd h.1 Bool.false_ne_true

theorem cmdFrom_close {rest : Text} (h : rest.head? ≠ some 0x22) (word : Option Text)
    (words : List Text) :
    cmdFrom true word words (0x22 :: rest) = cmdFrom false (addPiece word []) words rest := by
  rw [cmdFrom.eq_def]
  exact if_neg fun hhead => h hhead.2

/-- A character that is no quote, and no backslash before one. -/
theorem cmdFrom_cons {c : CodeUnit} {rest : Text} (hc : c ≠ 0x22)
    (h : c = 0x5C → rest.head? ≠ some 0x22) (quoted : Bool) (word : Option Text)
    (words : List Text) :
    cmdFrom quoted word words (c :: rest) =
      if (!quoted && isWhite c) = true then cmdFrom quoted none (words ++ word.toList) rest
      else cmdFrom quoted (addPiece word [c]) words rest := by
  rw [cmdFrom.eq_def]
  split
  · next heq => cases heq
  · next heq =>
      obtain ⟨rfl, rfl⟩ := List.cons.inj heq
      exact absurd rfl (h rfl)
  · next heq => exact absurd (List.cons.inj heq).1 hc
  · next heq =>
      obtain ⟨rfl, rfl⟩ := List.cons.inj heq
      rfl

/-- Backslashes before a character that is neither one nor a quote are themselves. -/
theorem cmdFrom_backslashes {c : CodeUnit} (hquote : c ≠ 0x22) (hslash : c ≠ 0x5C) (n : Nat)
    (word : Option Text) (words : List Text) (rest : Text) :
    cmdFrom true word words (List.replicate n 0x5C ++ c :: rest) =
      cmdFrom true (addPiece word (List.replicate n 0x5C ++ [c])) words rest := by
  induction n generalizing word with
  | zero =>
      rw [List.replicate_zero, List.nil_append, List.nil_append,
        cmdFrom_cons hquote fun h => absurd h hslash]
      rfl
  | succ n ih =>
      have hhead : (List.replicate n 0x5C ++ c :: rest).head? ≠ some 0x22 := by
        cases n with
        | zero => exact fun h => hquote (Option.some.inj h)
        | succ n => exact fun h => absurd (Option.some.inj h) (by decide)
      rw [List.replicate_succ, List.cons_append, cmdFrom_cons (by decide) fun _ => hhead]
      change cmdFrom true (addPiece word [0x5C]) words _ = _
      rw [ih, addPiece_addPiece]
      rfl

/-- A word with no backslash before a quote or at its end is read as it is. -/
theorem cmdFrom_windowsEscape {n : Nat} {value : Text} (h : doubled n value = 0) {rest : Text}
    (hrest : rest.head? ≠ some 0x22) (word : Option Text) (words : List Text) :
    cmdFrom true word words (windowsEscape n value ++ 0x22 :: rest) =
      cmdFrom false (addPiece word (List.replicate n 0x5C ++ value)) words rest := by
  induction value generalizing n word with
  | nil =>
      have hn : n = 0 := h
      subst hn
      exact cmdFrom_close hrest word words
  | cons c value ih =>
      rw [doubled] at h
      rw [windowsEscape]
      split_ifs at h ⊢ with hslash hquote
      · rw [ih h, List.replicate_succ', List.append_assoc, hslash]
        rfl
      · obtain ⟨hn, hvalue⟩ := Nat.add_eq_zero_iff.mp h
        subst hn hquote
        change cmdFrom true word words (0x5C :: 0x22 :: (windowsEscape 0 value ++ 0x22 :: rest)) = _
        rw [cmdFrom_escapedQuote, ih hvalue, addPiece_addPiece]
        rfl
      · rw [List.append_assoc, List.cons_append, cmdFrom_backslashes hquote hslash, ih h,
          addPiece_addPiece, List.append_assoc]
        rfl

/-! ## What reading keeps -/

/-- The quotes of a text that stand after a backslash. -/
def escapedQuotes : Text → Nat
  | 0x5C :: 0x22 :: rest => escapedQuotes rest + 1
  | _ :: rest => escapedQuotes rest
  | [] => 0

/-- The characters that were read. -/
def readSoFar (words : List Text) (word : Option Text) : Text :=
  words.flatten ++ word.getD []

theorem count_addPiece (words : List Text) (word : Option Text) (piece : Text) (c : CodeUnit) :
    (readSoFar words (addPiece word piece)).count c =
      (readSoFar words word).count c + piece.count c := by
  rw [readSoFar, readSoFar, addPiece, Option.getD_some, List.count_append, List.count_append,
    List.count_append, Nat.add_assoc]

theorem readSoFar_toList (words : List Text) (word : Option Text) :
    (words ++ word.toList).flatten = readSoFar words word := by
  cases word with
  | none => simp [readSoFar]
  | some piece => simp [readSoFar]

theorem escapedQuotes_cons {c : CodeUnit} {rest : Text} (h : c = 0x5C → rest.head? ≠ some 0x22) :
    escapedQuotes (c :: rest) = escapedQuotes rest := by
  rw [escapedQuotes.eq_def]
  split
  · next heq =>
      obtain ⟨rfl, rfl⟩ := List.cons.inj heq
      exact absurd rfl (h rfl)
  · next heq =>
      obtain ⟨rfl, rfl⟩ := List.cons.inj heq
      rfl
  · next heq => cases heq

theorem head?_ne_of_pair {c : CodeUnit} {rest : Text}
    (h : ∀ tail, c = 0x5C → rest = 0x22 :: tail → False) (hc : c = 0x5C) :
    rest.head? ≠ some 0x22 := by
  intro hhead
  cases rest with
  | nil => cases hhead
  | cons d tail =>
      cases Option.some.inj hhead
      exact h tail hc rfl

/-- A backslash is read unless a quote follows it, and each such quote is read. -/
theorem cmdFrom_counts {quoted : Bool} {word : Option Text} {words result : List Text} {text : Text}
    (h : cmdFrom quoted word words text = .ok result) :
    result.flatten.count 0x5C + escapedQuotes text =
        (readSoFar words word).count 0x5C + text.count 0x5C ∧
      (readSoFar words word).count 0x22 + escapedQuotes text ≤ result.flatten.count 0x22 := by
  fun_induction cmdFrom quoted word words text with
  | case1 => cases h
  | case2 quoted word words hclosed =>
      cases h
      rw [readSoFar_toList]
      exact ⟨rfl, le_rfl⟩
  -- A backslash in front of a quote is gone, and the quote is of the word.
  | case3 quoted word words rest ih =>
      obtain ⟨hslashes, hquotes⟩ := ih h
      have hescaped : escapedQuotes (0x5C :: 0x22 :: rest) = escapedQuotes rest + 1 := rfl
      have hcount : (0x5C :: 0x22 :: rest : Text).count 0x5C = rest.count 0x5C + 1 := by
        rw [List.count_cons, List.count_cons]
        rfl
      rw [count_addPiece] at hslashes hquotes
      rw [hescaped, hcount]
      change _ = _ + 0 + _ at hslashes
      change _ + 1 + _ ≤ _ at hquotes
      omega
  | case4 quoted word words hpair ih => exact absurd hpair.2 (by decide)
  -- Two quotes inside quotes are one.
  | case5 quoted word words next rest hpair ih =>
      obtain ⟨hslashes, hquotes⟩ := ih h
      have hnext : next = 0x22 := Option.some.inj hpair.2
      subst hnext
      have hescaped : escapedQuotes (0x22 :: 0x22 :: rest) = escapedQuotes rest := rfl
      have hcount : (0x22 :: 0x22 :: rest : Text).count 0x5C = rest.count 0x5C := by
        rw [List.count_cons, List.count_cons]
        rfl
      rw [count_addPiece] at hslashes hquotes
      rw [hescaped, hcount]
      change _ = _ + 0 + _ at hslashes
      change _ + 1 + _ ≤ _ at hquotes
      omega
  -- A quote alone opens or closes, and is of no word.
  | case6 quoted word words rest hpair ih =>
      obtain ⟨hslashes, hquotes⟩ := ih h
      have hescaped : escapedQuotes (0x22 :: rest) = escapedQuotes rest :=
        escapedQuotes_cons fun heq => absurd heq (by decide)
      have hcount : (0x22 :: rest : Text).count 0x5C = rest.count 0x5C := by
        rw [List.count_cons]
        rfl
      rw [count_addPiece, List.count_nil] at hslashes hquotes
      rw [hescaped, hcount]
      exact ⟨hslashes, hquotes⟩
  -- White space ends the word.
  | case7 quoted word words c rest hslash hquote hwhite ih =>
      obtain ⟨hslashes, hquotes⟩ := ih h
      have hc : c ≠ 0x5C := by
        rintro rfl
        exact absurd hwhite (by cases quoted <;> decide)
      rw [escapedQuotes_cons fun heq => absurd heq hc, List.count_cons_of_ne hc]
      have hsame : readSoFar (words ++ word.toList) none = readSoFar words word := by
        rw [readSoFar, Option.getD_none, List.append_nil, readSoFar_toList]
      rw [hsame] at hslashes hquotes
      exact ⟨hslashes, hquotes⟩
  | case8 quoted word words c rest hslash hquote hwhite ih =>
      obtain ⟨hslashes, hquotes⟩ := ih h
      rw [count_addPiece, List.count_cons, List.count_nil] at hslashes hquotes
      rw [escapedQuotes_cons (head?_ne_of_pair hslash), List.count_cons]
      omega

/-! ## What writing adds -/

/-- The backslashes of a quoted word: its own, those that are doubled, and one for each quote. -/
theorem count_backslash_windowsEscape (n : Nat) (value : Text) :
    (windowsEscape n value).count 0x5C =
      n + value.count 0x5C + doubled n value + value.count 0x22 := by
  induction value generalizing n with
  | nil =>
      rw [windowsEscape, doubled, List.count_replicate_self, List.count_nil, List.count_nil]
      omega
  | cons c value ih =>
      rw [windowsEscape, doubled]
      split_ifs with hslash hquote
      · subst hslash
        rw [ih, List.count_cons_self, List.count_cons_of_ne (by decide)]
        omega
      · subst hquote
        rw [List.count_append, List.count_replicate_self, List.count_cons_of_ne (by decide), ih,
          List.count_cons_of_ne (by decide), List.count_cons_self]
        omega
      · rw [List.count_append, List.count_replicate_self, List.count_cons_of_ne hslash, ih,
          List.count_cons_of_ne hslash, List.count_cons_of_ne hquote]
        omega

/-- Any other character is there as often as in the word. -/
theorem count_windowsEscape {c : CodeUnit} (hc : c ≠ 0x5C) (n : Nat) (value : Text) :
    (windowsEscape n value).count c = value.count c := by
  have hreplicate (n : Nat) : (List.replicate n (0x5C : CodeUnit)).count c = 0 :=
    List.count_eq_zero.mpr fun hmem => hc (List.eq_of_mem_replicate hmem)
  induction value generalizing n with
  | nil => rw [windowsEscape, hreplicate, List.count_nil]
  | cons d value ih =>
      rw [windowsEscape]
      split_ifs with hslash hquote
      · rw [ih, List.count_cons_of_ne (hslash ▸ hc.symm)]
      · rw [List.count_append, hreplicate, hquote, List.count_cons, List.count_cons,
          ih, Nat.zero_add]
      · rw [List.count_append, hreplicate, List.count_cons, List.count_cons, ih, Nat.zero_add]

/-- A text that holds a quote has a caret more when it is escaped. -/
theorem count_caretEscape (specials : CmdSpecials) (text : Text) :
    (caretEscape specials text).count 0x5E =
      text.count 0x5E + text.countP fun c => c = 0x22 ∨ specials.special c = true := by
  induction text with
  | nil => rfl
  | cons c text ih =>
      rw [caretEscape, List.flatMap_cons, ← caretEscape, List.count_append, ih, List.count_cons,
        List.countP_cons]
      by_cases hc : c = 0x22 ∨ specials.special c = true
      · rw [if_pos hc, List.count_cons_self, List.count_cons, List.count_nil,
          if_pos (decide_eq_true hc)]
        omega
      · rw [if_neg hc, List.count_cons, List.count_nil, decide_eq_false hc,
          if_neg Bool.false_ne_true]
        omega

/-- No backslash is doubled where none stands before a quote or at the end. -/
theorem doubled_eq_zero_iff (n : Nat) (value : Text) :
    doubled n value = 0 ↔ (n = 0 ∨ value ≠ [] ∧ value.head? ≠ some 0x22) ∧
      ¬ [0x5C, 0x22] <:+: value ∧ value.getLast? ≠ some 0x5C := by
  induction value generalizing n with
  | nil => simp [doubled]
  | cons c value ih =>
      have hinfix : [0x5C, 0x22] <:+: c :: value ↔
          (c = 0x5C ∧ value.head? = some 0x22) ∨ [0x5C, 0x22] <:+: value := by
        rw [List.infix_cons_iff, List.cons_prefix_cons]
        apply or_congr_left
        cases value with
        | nil => simp
        | cons d value => simp [List.cons_prefix_cons, eq_comm]
      have hlast : (c :: value).getLast? = some (value.getLast?.getD c) := List.getLast?_cons
      rw [doubled, hinfix, hlast]
      split_ifs with hslash hquote
      · rw [ih]
        subst hslash
        cases value with
        | nil => simp
        | cons d value => simp [List.getLast?_cons, and_assoc]
      · rw [Nat.add_eq_zero_iff, ih]
        subst hquote
        cases value with
        | nil => simp
        | cons d value => simp [List.getLast?_cons]
      · rw [ih]
        cases value with
        | nil => simp [hslash, hquote]
        | cons d value => simp [List.getLast?_cons, hslash, hquote]

/-! ## A line that bash reads -/

/-- The part of a word that is between quotes. -/
def BashMode.piece : BashMode → Text
  | .bare => []
  | .single piece => piece
  | .ansi piece _ => piece
  | .double piece => piece

/-- How many characters of the text were taken already. -/
def BashMode.taken : BashMode → Nat
  | .ansi _ taken => taken
  | _ => 0

/-- An escape by number takes no carets. -/
theorem count_numberedEscape {rest : Text} {form : Text × Nat × Nat} {found : Text × Nat}
    (hletter : (0x5E : CodeUnit) ∉ form.1) (h : numberedEscape rest form = some found) :
    rest.count 0x5E = (rest.drop found.2).count 0x5E := by
  obtain ⟨letter, most, radix⟩ := form
  unfold numberedEscape at h
  dsimp only at h
  generalize hdigits : (List.takeWhile (fun c => (hexValue c).any fun value => value < radix)
    (rest.drop letter.length)).take most = digits at h
  have hstarts : letter.isPrefixOf rest = true := by
    by_contra hnot
    rw [if_neg hnot] at h
    cases h
  have hfound : found.2 = letter.length + digits.length := by
    rw [if_pos hstarts] at h
    split_ifs at h <;> cases h <;> rfl
  have hplain : ∀ c ∈ digits, c ≠ 0x5E := by
    rintro c hc rfl
    rw [← hdigits] at hc
    have hhex := List.mem_takeWhile_imp (List.mem_of_mem_take hc)
    have hnone : hexValue 0x5E = none := by decide
    rw [hnone] at hhex
    cases hhex
  have hprefix : digits <+: rest.drop letter.length := by
    rw [← hdigits]
    exact (List.take_prefix _ _).trans (List.takeWhile_prefix _)
  have htake : rest.take (letter.length + digits.length) = letter ++ digits := by
    rw [List.take_add, ← List.prefix_iff_eq_take.mp hprefix,
      ← List.prefix_iff_eq_take.mp (List.isPrefixOf_iff_prefix.mp hstarts)]
  have hzero : (rest.take (letter.length + digits.length)).count 0x5E = 0 := by
    rw [htake, List.count_eq_zero, List.mem_append]
    exact fun hmem => hmem.elim hletter fun hmem => hplain _ hmem rfl
  rw [hfound]
  conv_lhs => rw [← List.take_append_drop (letter.length + digits.length) rest, List.count_append,
    hzero, Nat.zero_add]

/-- An escape keeps the carets it takes. -/
theorem count_ansiEscape (rest : Text) :
    rest.count 0x5E ≤
      (ansiEscape rest).1.count 0x5E + (rest.drop (ansiEscape rest).2).count 0x5E := by
  unfold ansiEscape
  dsimp only
  split
  · next found hfound =>
      obtain ⟨form, hform, hescape⟩ := List.exists_of_findSome?_eq_some hfound
      have hletters : ∀ form ∈ [(units "x", 2, 16), (units "u", 4, 16), (units "U", 8, 16),
          (([] : Text), 3, 8)], (0x5E : CodeUnit) ∉ form.1 := by decide
      rw [count_numberedEscape (hletters form hform) hescape]
      exact Nat.le_add_left _ _
  · split
    · exact Nat.zero_le _
    · next c tail _ =>
        split
        · next entry hentry =>
            have hplain : ansiC.all (fun entry => decide (entry.1 ≠ 0x5E)) = true := by decide
            have hentry' := List.all_eq_true.mp hplain entry (List.mem_of_find?_eq_some hentry)
            have hc : entry.1 = c := by simpa using List.find?_some hentry
            rw [List.count_cons_of_ne (hc ▸ of_decide_eq_true hentry')]
            exact Nat.le_add_left _ _
        · rw [List.count_cons, List.count_cons, List.count_cons, List.count_nil]
          change _ ≤ _ + tail.count 0x5E
          omega

/-- The carets of a line: those of what was read, and those of what is left. -/
def caretsLeft (mode : BashMode) (word : Option Text) (words : List Text) (text : Text) : Nat :=
  (readSoFar words word).count 0x5E + mode.piece.count 0x5E + (text.drop mode.taken).count 0x5E

/-- A caret is read wherever it stands. -/
theorem bashFrom_carets {mode : BashMode} {word : Option Text} {words result : List Text}
    {text : Text} (h : bashFrom mode word words text = .ok result) :
    caretsLeft mode word words text ≤ result.flatten.count 0x5E := by
  have hslash : (backslash == (0x5E : CodeUnit)) = false := by decide
  have hread (words : List Text) (word : Option Text) :
      readSoFar (words ++ word.toList) none = readSoFar words word := by
    rw [readSoFar, Option.getD_none, List.append_nil, readSoFar_toList]
  -- A caret is read as itself wherever it stands: what is taken out are quotes, backslashes, dollar
  -- signs and white space.
  fun_induction bashFrom mode word words text with
  | case1 word words =>
      cases h
      rw [readSoFar_toList]
      exact le_rfl
  | case2 word words =>
      cases h
      rw [readSoFar_toList]
      exact le_rfl
  | case7 word words c hslash hsingle hansi => exact absurd hansi.2 (fun h => nomatch h)
  | case8 word words c hslash' hsingle quote rest hansi ih =>
      obtain ⟨rfl, hquote⟩ := hansi
      obtain rfl := Option.some.inj hquote
      exact ih h
  | case10 word words c rest _ _ _ _ hwhite ih =>
      have hc : c ≠ 0x5E := by
        rintro rfl
        exact absurd hwhite (by decide)
      have hkept := ih h
      simp only [caretsLeft, hread] at hkept
      simp only [caretsLeft, BashMode.taken, List.drop_zero, List.count_cons_of_ne hc]
      exact hkept
  | case12 => cases h
  | case15 => cases h
  -- An escape of an ANSI quote: what it stands for holds no fewer carets than it takes.
  | case19 piece word words c rest hclose hescape value taken heq ih =>
      have hkept := ih h
      have hc : c = backslash := not_not.mp hescape
      have hvalue := count_ansiEscape rest
      rw [heq] at hvalue
      dsimp only at hvalue
      simp only [caretsLeft, BashMode.piece, BashMode.taken, List.drop_zero, List.count_append]
        at hkept ⊢
      rw [hc, List.count_cons, hslash, if_neg Bool.false_ne_true]
      omega
  | case20 => cases h
  | case22 => cases h
  | case23 piece word words d rest hescaped _ ih =>
      have hd : d ≠ 0x5E := by
        rintro rfl
        exact absurd hescaped (by decide)
      have hkept := ih h
      simp only [caretsLeft, BashMode.piece, BashMode.taken, List.drop_zero] at hkept ⊢
      rw [List.count_cons, hslash, if_neg Bool.false_ne_true, List.count_cons_of_ne hd]
      split_ifs at hkept with hbreak
      · exact hkept
      · rw [List.count_append] at hkept
        omega
  | _ =>
      have hkept := ‹_ → caretsLeft _ _ _ _ ≤ _› h
      simp only [caretsLeft, BashMode.piece, BashMode.taken, List.drop_zero, count_addPiece,
        List.count_append] at hkept ⊢
      simp [List.count_cons, hslash] at hkept ⊢
      omega

/-! ## The words read so far -/

/-- What was read stays in front. -/
theorem cmdFrom_words {quoted : Bool} {word : Option Text} {words result : List Text} {text : Text}
    (h : cmdFrom quoted word words text = .ok result) : words <+: result := by
  fun_induction cmdFrom quoted word words text with
  | case1 => cases h
  | case2 =>
      cases h
      exact List.prefix_append _ _
  | case7 _ words _ _ _ _ _ _ ih => exact (List.prefix_append _ _).trans (ih h)
  | _ => exact ‹_ → _ <+: _› h

theorem bashFrom_words {mode : BashMode} {word : Option Text}
    {words result : List Text} {text : Text}
    (h : bashFrom mode word words text = .ok result) : words <+: result := by
  fun_induction bashFrom mode word words text with
  | case1 | case2 | case7 =>
      cases h
      exact List.prefix_append _ _
  | case10 _ words _ _ _ _ _ _ _ ih => exact (List.prefix_append _ _).trans (ih h)
  | case12 | case15 | case20 | case22 => cases h
  | _ => exact ‹_ → _ <+: _› h

/-! ## A line -/

/-- A line without its carets. -/
def plainLine (words : List Text) : Text :=
  units "curl" ++ words.flatMap fun word => 0x20 :: windowsQuote word

theorem withoutCarets_windowsLine (specials : CmdSpecials) (words : List Text) :
    withoutCarets (windowsLine specials words) = plainLine words := by
  have hwords :
      withoutCarets (words.flatMap fun word => 0x20 :: caretEscape specials (windowsQuote word)) =
      words.flatMap fun word => 0x20 :: windowsQuote word := by
    induction words with
    | nil => rfl
    | cons word words ih =>
        rw [List.flatMap_cons, List.flatMap_cons, List.cons_append, withoutCarets_cons (by decide),
          withoutCarets_caretEscape, ih]
        rfl
  have hunits : units "curl" = [0x63, 0x75, 0x72, 0x6C] := by decide
  rw [windowsLine, plainLine, hunits]
  simp only [List.cons_append, List.nil_append]
  rw [withoutCarets_cons (by decide), withoutCarets_cons (by decide),
    withoutCarets_cons (by decide), withoutCarets_cons (by decide), hwords]

/-- `curl` is the first word. -/
theorem cmdFrom_curl (rest : Text) :
    cmdFrom false none [] (units "curl" ++ rest) = cmdFrom false (some (units "curl")) [] rest := by
  have hunits : units "curl" = [0x63, 0x75, 0x72, 0x6C] := by decide
  rw [hunits]
  simp only [List.cons_append, List.nil_append]
  rw [cmdFrom_cons (by decide) (fun h => absurd h (by decide)),
    cmdFrom_cons (by decide) (fun h => absurd h (by decide)),
    cmdFrom_cons (by decide) (fun h => absurd h (by decide)),
    cmdFrom_cons (by decide) (fun h => absurd h (by decide))]
  rfl

/-- A space ends a word. -/
theorem cmdFrom_space (last : Text) (words : List Text) (rest : Text) :
    cmdFrom false (some last) words (0x20 :: rest) = cmdFrom false none (words ++ [last]) rest := by
  rw [cmdFrom_cons (by decide) fun h => absurd h (by decide)]
  rfl

/-- Words with no backslash before a quote or at their end are read back. -/
theorem cmdFrom_quotedWords {values : List Text} (h : ∀ value ∈ values, doubled 0 value = 0)
    (last : Text) (words : List Text) :
    cmdFrom false (some last) words (values.flatMap fun value => 0x20 :: windowsQuote value) =
      .ok (words ++ last :: values) := by
  induction values generalizing last words with
  | nil => rfl
  | cons value values ih =>
      have hnext : (values.flatMap fun value => 0x20 :: windowsQuote value).head? ≠ some 0x22 := by
        cases values with
        | nil => exact fun h => nomatch h
        | cons next values => exact fun h => absurd (Option.some.inj h) (by decide)
      rw [List.flatMap_cons, List.cons_append, cmdFrom_space, windowsQuote, List.append_assoc,
        List.singleton_append, List.cons_append, cmdFrom_open,
        cmdFrom_windowsEscape (h value List.mem_cons_self) hnext]
      change cmdFrom false (some value) (words ++ [last]) _ = _
      rw [ih fun other hother => h other (List.mem_cons_of_mem _ hother), List.append_assoc,
        List.singleton_append]

/-- The backslashes of words in quotes. -/
theorem count_quotedWords (values : List Text) :
    (values.flatMap fun value => 0x20 :: windowsQuote value).count 0x5C =
      values.flatten.count 0x5C + (values.map (doubled 0)).sum + values.flatten.count 0x22 := by
  induction values with
  | nil => rfl
  | cons value values ih =>
      have hquote : (windowsQuote value).count 0x5C = (windowsEscape 0 value).count 0x5C := by
        rw [windowsQuote, List.count_append, List.count_cons_of_ne (by decide)]
        rfl
      rw [List.flatMap_cons, List.count_append, List.count_cons_of_ne (by decide), hquote,
        count_backslash_windowsEscape, ih, List.flatten_cons, List.count_append, List.count_append,
        List.map_cons, List.sum_cons]
      omega

/-- Where they are read back, no backslash was doubled. -/
theorem doubled_of_cmdFrom {values : List Text}
    (h : cmdFrom false none [] (plainLine values) = .ok (units "curl" :: values)) :
    ∀ value ∈ values, doubled 0 value = 0 := by
  obtain ⟨hslashes, hquotes⟩ := cmdFrom_counts h
  have hcurl (c : CodeUnit) (hc : (units "curl").count c = 0) :
      (units "curl" :: values).flatten.count c = values.flatten.count c := by
    rw [List.flatten_cons, List.count_append, hc, Nat.zero_add]
  have hline : (plainLine values).count 0x5C =
      values.flatten.count 0x5C + (values.map (doubled 0)).sum + values.flatten.count 0x22 := by
    have hnone : (units "curl").count 0x5C = 0 := by decide
    rw [plainLine, List.count_append, hnone, count_quotedWords, Nat.zero_add]
  have hnothing (c : CodeUnit) : (readSoFar [] none).count c = 0 := rfl
  rw [hcurl _ (by decide), hline, hnothing] at hslashes
  rw [hcurl _ (by decide), hnothing] at hquotes
  have hsum : (values.map (doubled 0)).sum = 0 := by omega
  intro value hvalue
  exact List.sum_eq_zero_iff_forall_eq_nat.mp hsum _ (List.mem_map_of_mem hvalue)

/-- A line of quoted words has more carets than the words. -/
theorem count_windowsLine (specials : CmdSpecials) (values : List Text) :
    values.flatten.count 0x5E + values.length ≤ (windowsLine specials values).count 0x5E := by
  have hwords : values.flatten.count 0x5E + values.length ≤
      (values.flatMap fun value => 0x20 :: caretEscape specials (windowsQuote value)).count
        0x5E := by
    induction values with
    | nil => exact le_rfl
    | cons value values ih =>
        have hquote : (windowsQuote value).count 0x5E = value.count 0x5E := by
          rw [windowsQuote, List.count_append, List.count_cons_of_ne (by decide),
            count_windowsEscape (by decide)]
          rfl
        have hopens : 0 < (windowsQuote value).countP
            fun c => c = 0x22 ∨ specials.special c = true :=
          List.countP_pos_iff.mpr ⟨0x22, List.mem_cons_self, decide_eq_true (Or.inl rfl)⟩
        rw [List.flatten_cons, List.flatMap_cons, List.count_append, List.count_append,
          List.count_cons_of_ne (by decide), count_caretEscape, hquote, List.length_cons]
        omega
  rw [windowsLine, List.count_append]
  omega

/-- An apostrophe is in a line where it is in a word. -/
theorem apostrophe_mem_windowsLine (specials : CmdSpecials) (values : List Text) :
    0x27 ∈ windowsLine specials values ↔ ∃ value ∈ values, 0x27 ∈ value := by
  have hcaret (text : Text) : (0x27 : CodeUnit) ∈ caretEscape specials text ↔ 0x27 ∈ text := by
    rw [caretEscape, List.mem_flatMap]
    constructor
    · rintro ⟨c, hc, hmem⟩
      split_ifs at hmem with hspecial
      · rcases List.mem_pair.mp hmem with heq | rfl
        · exact absurd heq (by decide)
        · exact hc
      · rwa [List.mem_singleton.mp hmem]
    · intro hmem
      refine ⟨_, hmem, ?_⟩
      split_ifs
      · exact List.mem_pair.mpr (Or.inr rfl)
      · exact List.mem_singleton.mpr rfl
  have hquote (value : Text) : (0x27 : CodeUnit) ∈ windowsQuote value ↔ 0x27 ∈ value := by
    rw [← List.count_pos_iff, ← List.count_pos_iff, windowsQuote, List.count_append,
      List.count_cons_of_ne (by decide), count_windowsEscape (by decide)]
    exact Iff.rfl
  have hcurl : (0x27 : CodeUnit) ∉ units "curl" := by decide
  have hspace : (0x27 : CodeUnit) ≠ 0x20 := by decide
  rw [windowsLine, List.mem_append, List.mem_flatMap]
  simp only [List.mem_cons, hcaret, hquote, hcurl, hspace, false_or]

theorem isCmd_windowsLine (specials : CmdSpecials) {values : List Text} (h : values ≠ []) :
    isCmd (windowsLine specials values) = !decide (∃ value ∈ values, 0x27 ∈ value) := by
  have hopens : units "^\"" <:+: windowsLine specials values := by
    obtain ⟨value, values, rfl⟩ := List.exists_cons_of_ne_nil h
    have hquote : caretEscape specials (windowsQuote value) =
        units "^\"" ++ caretEscape specials (windowsEscape 0 value ++ [0x22]) := by
      have hunits : units "^\"" = [0x5E, 0x22] := by decide
      rw [windowsQuote, List.cons_append, caretEscape, List.flatMap_cons,
        if_pos (Or.inl rfl), hunits]
      rfl
    rw [windowsLine, List.flatMap_cons, hquote]
    refine ⟨units "curl" ++ [0x20], caretEscape specials (windowsEscape 0 value ++ [0x22]) ++
      values.flatMap fun value => 0x20 :: caretEscape specials (windowsQuote value), ?_⟩
    rw [List.append_assoc, List.append_assoc, List.singleton_append, List.cons_append,
      List.append_assoc]
  rw [isCmd, decide_eq_true hopens, Bool.or_true, Bool.true_and, List.contains_eq_mem]
  congr 1
  exact decide_eq_decide.mpr (apostrophe_mem_windowsLine specials values)

/-- The words behind `curl` on a line for cmd are read back exactly where no word holds an
apostrophe or a backslash before a quote, and none ends in a backslash. -/
theorem splitWords_windowsLine_iff (specials : CmdSpecials) (values : List Text) :
    (splitWords (windowsLine specials values)).map List.tail = .ok values ↔
      ∀ value ∈ values, 0x27 ∉ value ∧ ¬ [0x5C, 0x22] <:+: value ∧ value.getLast? ≠ some 0x5C := by
  have hdoubled (value : Text) : (¬ [0x5C, 0x22] <:+: value ∧ value.getLast? ≠ some 0x5C) ↔
      doubled 0 value = 0 :=
    ((doubled_eq_zero_iff 0 value).trans (and_iff_right (Or.inl rfl))).symm
  simp only [hdoubled]
  by_cases hempty : values = []
  · subst hempty
    exact iff_of_true rfl fun _ hmem => absurd hmem List.not_mem_nil
  rw [splitWords, isCmd_windowsLine specials hempty]
  by_cases hsingle : ∃ value ∈ values, 0x27 ∈ value
  · -- The line is read as bash's, where no caret is taken out.
    rw [decide_eq_true hsingle, Bool.not_true, if_neg Bool.false_ne_true]
    obtain ⟨value, hvalue, hmem⟩ := hsingle
    refine iff_of_false (fun h => ?_) fun h => (h value hvalue).1 hmem
    cases hread : bashWords (windowsLine specials values) with
    | error e =>
        rw [hread] at h
        cases h
    | ok result =>
        rw [hread] at h
        have htail : result.tail = values := Except.ok.inj h
        have hcarets := bashFrom_carets hread
        have hfirst : [units "curl"] <+: result := by
          obtain ⟨first, rest, rfl⟩ := List.exists_cons_of_ne_nil hempty
          rw [bashWords, windowsLine, List.flatMap_cons, List.cons_append,
            bashFrom_bare (by decide) (by decide)] at hread
          have hspace : (0x20 : CodeUnit) = space := by decide
          rw [hspace, bashFrom_space] at hread
          exact bashFrom_words hread
        obtain ⟨others, rfl⟩ := hfirst
        have hothers : others = values := htail
        have hcount := count_windowsLine specials values
        have hcurl : (units "curl").count 0x5E = 0 := by decide
        rw [hothers, List.flatten_append, List.flatten_singleton, List.count_append, hcurl]
          at hcarets
        have hline : caretsLeft .bare none [] (windowsLine specials values) =
            (windowsLine specials values).count 0x5E := Nat.zero_add _
        rw [hline] at hcarets
        have hlength := List.length_pos_iff.mpr hempty
        omega
  · rw [decide_eq_false hsingle, Bool.not_false, if_pos rfl, cmdWords, withoutCarets_windowsLine]
    have hnone : ∀ value ∈ values, 0x27 ∉ value := fun value hvalue hmem =>
      hsingle ⟨value, hvalue, hmem⟩
    constructor
    · intro h value hvalue
      refine ⟨hnone value hvalue, ?_⟩
      cases hread : cmdFrom false none [] (plainLine values) with
      | error e =>
          rw [hread] at h
          cases h
      | ok result =>
          rw [hread] at h
          have htail : result.tail = values := Except.ok.inj h
          have hfirst : [units "curl"] <+: result := by
            obtain ⟨first, rest, rfl⟩ := List.exists_cons_of_ne_nil hempty
            rw [plainLine, List.flatMap_cons, List.cons_append, cmdFrom_curl, cmdFrom_space]
              at hread
            exact cmdFrom_words hread
          obtain ⟨others, rfl⟩ := hfirst
          have hothers : others = values := htail
          rw [hothers] at hread
          exact doubled_of_cmdFrom hread value hvalue
    · intro h
      rw [plainLine, cmdFrom_curl, cmdFrom_quotedWords fun value hvalue => (h value hvalue).2]
      rfl

/-- A word that ends in a backslash, one with a backslash before a quote, and one with an apostrophe
are read as something else. -/
theorem backslashes_and_apostrophes_not_read :
    ¬ (splitWords (windowsLine cmdSpecials [units "C:\\"])).map List.tail = .ok [units "C:\\"] ∧
      ¬ (splitWords (windowsLine cmdSpecials [units "\\\""])).map List.tail = .ok [units "\\\""] ∧
      ¬ (splitWords (windowsLine cmdSpecials [units "it's"])).map List.tail =
        .ok [units "it's"] := by
  decide +kernel

end Wayfarer
