import Mathlib.Data.List.Forall2
import Wayfarer.Library.Percent
import Wayfarer.Library.Transducer

/-!
# The words of a command

How a POSIX shell reads one simple command: words between white space, single quotes around any
text, and a backslash in front of a character or of the end of a line. A character that means
something else to a shell, outside of quotes, is not read, nor is the character that no argument can
hold. What is read is a command and its arguments, and nothing that is run on the way.
-/

set_option autoImplicit false

namespace Library.Shell

/-- Where a reader of words stands. -/
inductive State where
  /-- Outside of quotes, in a word or between two. -/
  | bare (word : Option Text)
  | single (word : Text)
  | escaped (word : Option Text)

/-- A character that is read as itself outside of quotes. -/
def isBare (c : CodeUnit) : Bool :=
  isAlphanumeric c.toNat || (units "-_./").contains c

/-- A character added to a word. -/
def grown (word : Option Text) (c : CodeUnit) : Option Text :=
  some (word.getD [] ++ [c])

/-- One character, and the words that end with it. -/
def step : State → CodeUnit → Option (State × List Text)
  | .bare word, c =>
      if c = 0x27 then some (.single (word.getD []), [])
      else if c = 0x5C then some (.escaped word, [])
      else if c = 0x20 ∨ c = 0x09 then some (.bare none, word.toList)
      else if isBare c then some (.bare (grown word c), [])
      else none
  | .single word, c =>
      if c = 0x27 then some (.bare (some word), [])
      else if c = 0 then none
      else some (.single (word ++ [c]), [])
  | .escaped word, c =>
      -- A line that goes on.
      if c = 0x0A then some (.bare word, [])
      else if c = 0 then none
      else some (.bare (grown word c), [])

/-- The words at the end of a command, where no quote is open. -/
def finish : Option (State × List Text) → Option (List Text)
  | some (.bare word, before) => some (before ++ word.toList)
  | _ => none

/-- The words of a command. -/
def words (t : Text) : Option (List Text) :=
  finish (transduce step (.bare none) t)

/-! ## Quoting -/

/-- What a character is written as between single quotes: one of these is closed, escaped and opened
again. -/
def quotedUnit (c : CodeUnit) : Text :=
  if c = 0x27 then [0x27, 0x5C, 0x27, 0x27] else [c]

/-- A text between single quotes. -/
def quoted (t : Text) : Text :=
  0x27 :: t.flatMap quotedUnit ++ [0x27]

/-- A character between the quotes is added to the word. -/
theorem transduce_quotedUnit {c : CodeUnit} (hc : c ≠ 0) (word rest : Text) :
    transduce step (.single word) (quotedUnit c ++ rest) =
      transduce step (.single (word ++ [c])) rest := by
  rw [quotedUnit]
  by_cases hquote : c = 0x27
  · have hclose : step (.single word) 0x27 = some (.bare (some word), []) := rfl
    have hslash : step (.bare (some word)) 0x5C = some (.escaped (some word), []) := rfl
    have hescaped : step (.escaped (some word)) 0x27 = some (.bare (some (word ++ [0x27])), []) :=
      rfl
    have hopen : step (.bare (some (word ++ [0x27]))) 0x27 = some (.single (word ++ [0x27]), []) :=
      rfl
    rw [hquote, if_pos rfl]
    simp only [List.cons_append, List.nil_append]
    rw [transduce_silent hclose, transduce_silent hslash, transduce_silent hescaped,
      transduce_silent hopen]
  · have hstep : step (.single word) c = some (.single (word ++ [c]), []) := by
      rw [step, if_neg hquote, if_neg hc]
    rw [if_neg hquote, List.singleton_append, transduce_silent hstep]

/-- What stands between the quotes. -/
theorem transduce_inside {t : Text} (h : (0 : CodeUnit) ∉ t) (word rest : Text) :
    transduce step (.single word) (t.flatMap quotedUnit ++ rest) =
      transduce step (.single (word ++ t)) rest := by
  induction t generalizing word with
  | nil => rw [List.append_nil, List.flatMap_nil, List.nil_append]
  | cons c t ih =>
      rw [List.flatMap_cons, List.append_assoc,
        transduce_quotedUnit (fun heq => h (heq ▸ List.mem_cons_self ..)),
        ih (fun hmem => h (List.mem_cons_of_mem c hmem)), List.append_assoc, List.singleton_append]

/-- A quoted text is added to the word it stands in. -/
theorem transduce_quoted {t : Text} (h : (0 : CodeUnit) ∉ t) (word : Option Text) :
    transduce step (.bare word) (quoted t) = some (.bare (some (word.getD [] ++ t)), []) := by
  have hopen : step (.bare word) 0x27 = some (.single (word.getD []), []) := rfl
  have hclose : step (.single (word.getD [] ++ t)) 0x27 =
      some (.bare (some (word.getD [] ++ t)), []) := rfl
  rw [quoted, List.cons_append, transduce_silent hopen, transduce_inside h,
    transduce_silent hclose]
  rfl

/-- A quoted text is refused for the one character that no argument can hold. -/
theorem transduce_quoted_refused {t : Text} (h : (0 : CodeUnit) ∈ t) (word : Option Text) :
    transduce step (.bare word) (quoted t) = none := by
  obtain ⟨before, after, rfl, hbefore⟩ := List.eq_append_cons_of_mem h
  have hopen : step (.bare word) 0x27 = some (.single (word.getD []), []) := rfl
  have hzero : quotedUnit 0 = [0] := rfl
  have hrefused : step (.single (word.getD [] ++ before)) 0 = none := rfl
  rw [quoted, List.cons_append, transduce_silent hopen, List.flatMap_append, List.append_assoc,
    transduce_inside hbefore, List.flatMap_cons, hzero, List.append_assoc, List.singleton_append,
    transduce_refused hrefused]

/-! ## Arguments -/

/-- What the text of an argument is read as: the words that end in it and the one it ends with, or
nothing. -/
def Reads (t : Text) (r : Option (List Text × Text)) : Prop :=
  transduce step (.bare none) t = r.map fun found => (.bare (some found.2), found.1)

theorem reads_quoted (t : Text) :
    Reads (quoted t) (if (0 : CodeUnit) ∈ t then none else some ([], t)) := by
  rw [Reads]
  split_ifs with h
  · exact transduce_quoted_refused h none
  · exact transduce_quoted h none

/-- An argument of one word, and a quoted one behind a space. -/
theorem reads_option {w word : Text}
    (h : transduce step (.bare none) w = some (.bare none, [word])) (t : Text) :
    Reads (w ++ quoted t) (if (0 : CodeUnit) ∈ t then none else some ([word], t)) := by
  rw [Reads, transduce_append_of_eq h]
  split_ifs with hzero
  · rw [transduce_quoted_refused hzero]
    rfl
  · rw [transduce_quoted hzero]
    rfl

/-- What stands between two arguments: a line that goes on. -/
def lineGoesOn : Text :=
  [0x20, 0x5C, 0x0A, 0x20, 0x20]

theorem transduce_lineGoesOn (last : Text) :
    transduce step (.bare (some last)) lineGoesOn = some (.bare none, [last]) := by
  rfl

/-- Words that end before the rest is read. -/
theorem finish_map (before : List Text) (r : Option (State × List Text)) :
    finish (r.map fun r => (r.1, before ++ r.2)) = (finish r).map (before ++ ·) := by
  rcases r with _ | ⟨state, found⟩
  · rfl
  · cases state with
    | bare word => exact congrArg some (List.append_assoc ..)
    | single word => rfl
    | escaped word => rfl

/-- Arguments one to a line are read as their words, unless one of them is refused. -/
theorem words_joinWith {texts : List Text} {found : List (Option (List Text × Text))}
    (h : List.Forall₂ Reads texts found) (hne : texts ≠ []) :
    words (joinWith lineGoesOn texts) =
      (found.mapM id).map fun found => found.flatMap fun p => p.1 ++ [p.2] := by
  induction h with
  | nil => exact absurd rfl hne
  | @cons text r texts found hone hrest ih =>
      have hjoin : ∃ rest, joinWith lineGoesOn (text :: texts) = text ++ rest := by
        cases texts with
        | nil => exact ⟨[], by simp [joinWith]⟩
        | cons next texts =>
            exact ⟨_, by rw [joinWith, List.intercalate_cons_cons, List.append_assoc]⟩
      cases r with
      | none =>
          have hrefused : transduce step (.bare none) text = none := hone
          obtain ⟨rest, hjoin⟩ := hjoin
          rw [words, hjoin, transduce_append, hrefused]
          rfl
      | some p =>
          have hread : transduce step (.bare none) text = some (.bare (some p.2), p.1) := hone
          cases texts with
          | nil =>
              cases hrest
              have halone : joinWith lineGoesOn [text] = text := by simp [joinWith]
              rw [words, halone, hread]
              simp [finish]
          | cons next texts =>
              have hnext : joinWith lineGoesOn (text :: next :: texts) =
                  text ++ (lineGoesOn ++ joinWith lineGoesOn (next :: texts)) := by
                rw [joinWith, List.intercalate_cons_cons, List.append_assoc]
                rfl
              have ih := ih (by simp)
              rw [words] at ih
              rw [words, hnext, transduce_append_of_eq hread, finish_map,
                transduce_append_of_eq (transduce_lineGoesOn p.2), finish_map, ih, List.mapM_cons]
              cases found.mapM id with
              | none => rfl
              | some all => simp

/-- Arguments that are refused only for what they hold are all read, or none is. -/
theorem words_of_clean {texts : List Text} {said : List (List Text × Text)}
    (h :
      List.Forall₂ (fun t s => Reads t (if (0 : CodeUnit) ∈ s.2 then none else some s)) texts said)
    (hne : texts ≠ []) :
    words (joinWith lineGoesOn texts) =
      if ∀ s ∈ said, (0 : CodeUnit) ∉ s.2 then some (said.flatMap fun s => s.1 ++ [s.2])
      else none := by
  have hall : ∀ said : List (List Text × Text),
      (said.map fun s => if (0 : CodeUnit) ∈ s.2 then none else some s).mapM id =
        if ∀ s ∈ said, (0 : CodeUnit) ∉ s.2 then some said else none := by
    intro said
    induction said with
    | nil => rfl
    | cons s said ih =>
        rw [List.map_cons, List.mapM_cons, ih]
        by_cases hzero : (0 : CodeUnit) ∈ s.2
        · rw [if_pos hzero]
          exact (if_neg fun hclean => hclean s (List.mem_cons_self ..) hzero).symm
        · rw [if_neg hzero]
          by_cases hrest : ∀ s ∈ said, (0 : CodeUnit) ∉ s.2
          · have hclean : ∀ s' ∈ s :: said, (0 : CodeUnit) ∉ s'.2 := by
              intro s' hs'
              rcases List.mem_cons.mp hs' with rfl | hs'
              · exact hzero
              · exact hrest s' hs'
            rw [if_pos hrest]
            exact (if_pos hclean).symm
          · rw [if_neg hrest]
            exact (if_neg fun hclean =>
              hrest fun s' hs' => hclean s' (List.mem_cons_of_mem s hs')).symm
  rw [words_joinWith (List.forall₂_map_right_iff.mpr h) hne, hall]
  split_ifs <;> rfl

/-! ## Words -/

/-- Characters that are read as themselves. -/
theorem transduce_bare {t : Text} (h : ∀ c ∈ t, isBare c = true) (hne : t ≠ [])
    (word : Option Text) :
    transduce step (.bare word) t = some (.bare (some (word.getD [] ++ t)), []) := by
  induction t generalizing word with
  | nil => exact absurd rfl hne
  | cons c t ih =>
      have hc : isBare c = true := h c (List.mem_cons_self ..)
      have hquote : c ≠ 0x27 := by
        rintro rfl
        exact absurd hc (by decide)
      have hslash : c ≠ 0x5C := by
        rintro rfl
        exact absurd hc (by decide)
      have hblank : ¬ (c = 0x20 ∨ c = 0x09) := by
        rintro (rfl | rfl) <;> exact absurd hc (by decide)
      have hstep : step (.bare word) c = some (.bare (grown word c), []) := by
        rw [step, if_neg hquote, if_neg hslash, if_neg hblank, if_pos hc]
      rw [transduce_silent hstep]
      by_cases hlast : t = []
      · rw [hlast, transduce_nil, grown]
      · rw [ih (fun d hd => h d (List.mem_cons_of_mem c hd)) hlast, grown, Option.getD_some,
          List.append_assoc, List.singleton_append]

/-- An argument that is read as words, unless the last of them holds what no argument can hold. -/
def ReadsWords (t : Text) (found : List Text) : Prop :=
  ∃ before last, found = before ++ [last] ∧ (∀ word ∈ before, (0 : CodeUnit) ∉ word) ∧
    Reads t (if (0 : CodeUnit) ∈ last then none else some (before, last))

theorem readsWords_quoted (t : Text) : ReadsWords (quoted t) [t] :=
  ⟨[], t, rfl, fun _ hword => absurd hword List.not_mem_nil, reads_quoted t⟩

theorem isBare_zero : isBare 0 = false := by
  decide

theorem zero_not_mem_of_bare {t : Text} (h : ∀ c ∈ t, isBare c = true) : (0 : CodeUnit) ∉ t := by
  intro hmem
  have hzero := h 0 hmem
  rw [isBare_zero] at hzero
  cases hzero

theorem readsWords_bare {t : Text} (h : ∀ c ∈ t, isBare c = true) (hne : t ≠ []) :
    ReadsWords t [t] := by
  refine ⟨[], t, rfl, fun _ hword => absurd hword List.not_mem_nil, ?_⟩
  rw [if_neg (zero_not_mem_of_bare h)]
  exact transduce_bare h hne none

/-- An option, and what stands behind it. -/
theorem ReadsWords.behind {w word t last : Text}
    (hw : transduce step (.bare none) w = some (.bare none, [word])) (hword : (0 : CodeUnit) ∉ word)
    (h : ReadsWords t [last]) : ReadsWords (w ++ t) [word, last] := by
  obtain ⟨before, last', hfound, -, hreads⟩ := h
  obtain ⟨rfl, rfl⟩ : before = [] ∧ last' = last := by
    cases before with
    | nil => exact ⟨rfl, (List.cons.inj hfound).1.symm⟩
    | cons first before => simp at hfound
  refine ⟨[word], last', rfl, fun _ hmem => List.mem_singleton.mp hmem ▸ hword, ?_⟩
  rw [Reads] at hreads ⊢
  rw [transduce_append_of_eq hw, hreads]
  split_ifs <;> rfl

/-- The options and the last word of each argument. -/
theorem exists_said {texts : List Text} {found : List (List Text)}
    (h : List.Forall₂ ReadsWords texts found) :
    ∃ said : List (List Text × Text),
      List.Forall₂ (fun t s => Reads t (if (0 : CodeUnit) ∈ s.2 then none else some s)) texts said ∧
        found = said.map (fun s => s.1 ++ [s.2]) ∧
        ∀ s ∈ said, ∀ word ∈ s.1, (0 : CodeUnit) ∉ word := by
  induction h with
  | nil => exact ⟨[], .nil, rfl, fun _ hs => absurd hs List.not_mem_nil⟩
  | cons hone _ ih =>
      obtain ⟨before, last, rfl, hclean, hreads⟩ := hone
      obtain ⟨said, hsaid, rfl, hrest⟩ := ih
      refine ⟨(before, last) :: said, .cons hreads hsaid, rfl, fun s hs => ?_⟩
      rcases List.mem_cons.mp hs with rfl | hs
      · exact hclean
      · exact hrest s hs

/-- The arguments of a command are read as their words, or the command is refused for a character
that no argument can hold. -/
theorem words_arguments {texts : List Text} {found : List (List Text)}
    (h : List.Forall₂ ReadsWords texts found) (hne : texts ≠ []) :
    words (joinWith lineGoesOn texts) =
      if (0 : CodeUnit) ∈ found.flatten.flatten then none else some found.flatten := by
  obtain ⟨said, hsaid, rfl, hbefore⟩ := exists_said h
  have hzero : (∀ s ∈ said, (0 : CodeUnit) ∉ s.2) ↔
      (0 : CodeUnit) ∉ (said.map fun s => s.1 ++ [s.2]).flatten.flatten := by
    rw [← List.flatMap_def]
    constructor
    · intro hclean hmem
      obtain ⟨word, hword, hmem⟩ := List.mem_flatten.mp hmem
      obtain ⟨s, hs, hword⟩ := List.mem_flatMap.mp hword
      rcases List.mem_append.mp hword with hword | hword
      · exact hbefore s hs word hword hmem
      · rw [List.mem_singleton.mp hword] at hmem
        exact hclean s hs hmem
    · intro hclean s hs hmem
      refine hclean (List.mem_flatten.mpr ⟨s.2, List.mem_flatMap.mpr ⟨s, hs, ?_⟩, hmem⟩)
      exact List.mem_append_right _ (List.mem_singleton.mpr rfl)
  rw [words_of_clean hsaid hne, List.flatMap_def]
  by_cases hclean : ∀ s ∈ said, (0 : CodeUnit) ∉ s.2
  · rw [if_pos hclean, if_neg (hzero.mp hclean)]
  · rw [if_neg hclean, if_pos (by_contra fun hmem => hclean (hzero.mpr hmem))]

end Library.Shell
