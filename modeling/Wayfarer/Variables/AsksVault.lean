import Wayfarer.Send.Wire
import Wayfarer.Variables.ResolverOnce

/-!
# Texts that ask the vault for nothing

A resolver asks the vault for a secret when a placeholder of a text, or of the value of a variable
that the text leads to, names one. `AsksNothing` says that it never does: no secret stands behind
the text, and the text comes to the same with every vault. Where the values of the scopes name no
secret, a text that names none itself asks for nothing (`asksNothing_of_bare`).

A text that names a secret holds what the wire check looks for, two braces, white space and
`$secret.`, but not always as a JSON writer writes it: it escapes white space that is a control
character. `HidesSecret` is a placeholder with such white space in front of its name.
-/

set_option autoImplicit false

namespace Wayfarer

open Library

/-- One of the text's own placeholders names a secret. -/
def NamesSecret (t : Text) : Prop :=
  ∃ inside, .placeholder inside ∈ segments t ∧ secretPrefix.isPrefixOf (trim inside) = true

/-- One of the text's own placeholders names a secret after white space with a control character. -/
def HidesSecret (t : Text) : Prop :=
  ∃ inside, .placeholder inside ∈ segments t ∧ secretPrefix.isPrefixOf (trim inside) = true ∧
    ∃ c ∈ inside.takeWhile isWhite, isPrintable c = false

namespace Resolver

/-- The resolver over the same scopes, with another vault. -/
def withVault (r : Resolver) (secret : Text → Option Text) : Resolver :=
  { r with secret }

/-- No name has a value that names a secret. -/
def BareScopes (r : Resolver) : Prop :=
  ∀ name scope value, r.find name = some (scope, value) → ¬ NamesSecret value

/-- Resolving the text asks the vault for nothing. -/
structure AsksNothing (r : Resolver) (t : Text) : Prop where
  /-- No secret stands behind the text. -/
  refers : ∀ id, ¬ Refers r t id
  /-- The text comes to the same, and the same is noted down, whatever the vault holds. -/
  same : ∀ secret, (r.withVault secret).resolve t = r.resolve t

variable {r : Resolver}

@[simp] theorem find_withVault (secret : Text → Option Text) (name : Text) :
    (r.withVault secret).find name = r.find name := rfl

/-- Scopes with nothing in them give no name a value. -/
theorem find_new (name : Text) : (Resolver.new {}).find name = none := by
  simp only [find, List.findSome?_eq_none_iff, Resolver.new, List.mem_map]
  rintro entry ⟨scope, -, rfl⟩
  cases scope <;> rfl

theorem bareScopes_new : (Resolver.new {}).BareScopes := by
  intro name scope value hfind
  rw [find_new] at hfind
  cases hfind

/-- A text is replaced in the same way by two replacements that agree on its placeholders. -/
theorem replaceAll_congr {f g : Text → Resolve Text} {t : Text}
    (h : ∀ inside, .placeholder inside ∈ segments t → f inside = g inside) :
    replaceAll f t = replaceAll g t := by
  rw [replaceAll, replaceAll]
  congr 1
  apply mapM_congr_of_mem
  intro segment hsegment
  cases segment with
  | literal c => rfl
  | placeholder inside => exact h inside hsegment

/-- A placeholder that names no secret is replaced without the vault. -/
theorem replacement_withVault {chain : List Text} {f g : Text → Text → Resolve Text}
    {inside : Text} (secret : Text → Option Text)
    (hname : secretPrefix.isPrefixOf (trim inside) = false)
    (hfollow : ∀ scope value, r.find (trim inside) = some (scope, value) →
      f (trim inside) value = g (trim inside) value) :
    (r.withVault secret).replacement chain f inside = r.replacement chain g inside := by
  simp only [replacement, hname, Bool.false_eq_true, if_false, find_withVault]
  by_cases hdynamic : dynamicNames.contains (trim inside) = true
  · rw [if_pos hdynamic, if_pos hdynamic]
    rfl
  · rw [if_neg hdynamic, if_neg hdynamic]
    cases hfind : r.find (trim inside) with
    | none => rfl
    | some found => exact hfollow found.1 found.2 hfind

/-- The vault makes no difference to a text that names no secret, over bare scopes. -/
theorem expand_withVault (hr : r.BareScopes) (secret : Text → Option Text) {left : Nat}
    {chain : List Text} {t : Text} (ht : ¬ NamesSecret t) :
    (r.withVault secret).expand left chain t = r.expand left chain t := by
  have hname : ∀ {t inside}, ¬ NamesSecret t → .placeholder inside ∈ segments t →
      secretPrefix.isPrefixOf (trim inside) = false := by
    intro t inside ht hmem
    by_contra hsecret
    exact ht ⟨inside, hmem, by simpa using hsecret⟩
  induction left generalizing chain t with
  | zero =>
      apply replaceAll_congr
      intro inside hmem
      exact replacement_withVault secret (hname ht hmem) fun _ _ _ => rfl
  | succ left ih =>
      apply replaceAll_congr
      intro inside hmem
      apply replacement_withVault secret (hname ht hmem)
      intro scope value hfind
      split_ifs with hcircle
      · rfl
      · -- The value of the variable names no secret either.
        exact ih (hr _ _ _ hfind)

theorem not_refers_of_bare (hr : r.BareScopes) {t id : Text} (ht : ¬ NamesSecret t) :
    ¬ Refers r t id := by
  intro hrefers
  induction hrefers with
  | secret hmem hname => exact ht ⟨_, hmem, hname⟩
  | variable' hmem hname hdynamic hfind hvalue ih => exact ih (hr _ _ _ hfind)

/-- A text that names no secret asks for nothing, where the values of the scopes name none. -/
theorem asksNothing_of_bare (hr : r.BareScopes) {t : Text} (ht : ¬ NamesSecret t) :
    r.AsksNothing t where
  refers _ := not_refers_of_bare hr ht
  same secret := expand_withVault hr secret ht

/-- What asks for nothing names no secret. -/
theorem AsksNothing.bare {t : Text} (h : r.AsksNothing t) : ¬ NamesSecret t := by
  rintro ⟨inside, hmem, hname⟩
  exact h.refers _ (.secret hmem hname)

end Resolver

/-! ## What a check of the text sees -/

/-- What is written inside the braces stands in the text. -/
theorem placeholderText_within {t inside : Text} (h : .placeholder inside ∈ segments t) :
    placeholderText inside <:+: t := by
  have hinfix := List.infix_of_mem_flatten (List.mem_map_of_mem (f := Segment.written) h)
  rw [flatten_segments] at hinfix
  exact hinfix

/-- The white space that a name is trimmed of stands between the braces and the name. -/
theorem openingWord_starts {inside : Text} (h : secretPrefix.isPrefixOf (trim inside) = true) :
    openingWord (inside.takeWhile isWhite) <+: placeholderText inside := by
  obtain ⟨name, hname⟩ := List.isPrefixOf_iff_prefix.mp h
  obtain ⟨w, w', hw, hw', hinside⟩ := exists_white_append_trim inside
  have hdollar : isWhite dollarSign = false := by decide
  have htake : inside.takeWhile isWhite = w := by
    rw [hinside, ← hname, secretPrefix_eq, List.append_assoc]
    rw [List.takeWhile_append_of_pos hw]
    simp [hdollar]
  rw [htake, placeholderText, openingWord, hinside, ← hname]
  refine ⟨name ++ w' ++ [closeBrace, closeBrace], ?_⟩
  simp

/-- A text that names a secret opens a reference, and one with printable white space unless it
hides the secret. -/
theorem NamesSecret.opensWith_or {t : Text} (h : NamesSecret t) :
    OpensWith isPrintable t ∨ HidesSecret t := by
  obtain ⟨inside, hmem, hname⟩ := h
  by_cases hprint : ∀ c ∈ inside.takeWhile isWhite, isPrintable c = true
  · left
    refine ⟨inside.takeWhile isWhite, fun c hc => ⟨List.mem_takeWhile_imp hc, hprint c hc⟩, ?_⟩
    exact (openingWord_starts hname).isInfix.trans (placeholderText_within hmem)
  · right
    push Not at hprint
    obtain ⟨c, hc, hunprintable⟩ := hprint
    exact ⟨inside, hmem, hname, c, hc, by simpa using hunprintable⟩

theorem NamesSecret.opens {t : Text} (h : NamesSecret t) : Opens t := by
  obtain ⟨inside, hmem, hname⟩ := h
  refine ⟨inside.takeWhile isWhite, fun c hc => ⟨List.mem_takeWhile_imp hc, rfl⟩, ?_⟩
  exact (openingWord_starts hname).isInfix.trans (placeholderText_within hmem)

theorem HidesSecret.names {t : Text} (h : HidesSecret t) : NamesSecret t := by
  obtain ⟨inside, hmem, hname, -⟩ := h
  exact ⟨inside, hmem, hname⟩

end Wayfarer
