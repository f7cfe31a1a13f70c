import Wayfarer.Variables.ResolverRuns

/-!
# One resolution of a text

`ResolvesOnce` is what a template comes to when it is resolved once, from whatever was noted down
before. A vault secret that the template refers to, by itself or through the values of variables,
stands in the result as it is: its plaintext is no template (`expand_verbatim`).
-/

set_option autoImplicit false

namespace Wayfarer

open Library

/-- A text refers to a vault secret: it holds a placeholder of it, or one of a variable whose value
refers to it. -/
inductive Refers (r : Resolver) : Text → Text → Prop where
  | secret {t inside : Text} (hmem : .placeholder inside ∈ segments t)
      (hname : secretPrefix.isPrefixOf (trim inside) = true) :
      Refers r t ((trim inside).drop secretPrefix.length)
  | variable' {t inside value id : Text} {scope : VariableScope}
      (hmem : .placeholder inside ∈ segments t)
      (hname : secretPrefix.isPrefixOf (trim inside) = false)
      (hdynamic : dynamicNames.contains (trim inside) = false)
      (hfind : r.find (trim inside) = some (scope, value)) (hvalue : Refers r value id) :
      Refers r t id

/-! ## The parts of a text -/

/-- A part of a text as it is written. -/
def Segment.written : Segment → Text
  | .literal c => [c]
  | .placeholder inside => placeholderText inside

theorem eq_of_placeholderAt {t inside after : Text} (h : placeholderAt t = some (inside, after)) :
    t = placeholderText inside ++ after := by
  unfold placeholderAt at h
  split at h
  · next a b rest =>
      split_ifs at h with hopen
      split at h
      · next c d rest' hdrop =>
          split_ifs at h with hclose
          cases h
          obtain ⟨rfl, rfl⟩ := hopen
          obtain ⟨rfl, rfl⟩ := hclose
          conv_lhs => rw [← List.takeWhile_append_dropWhile (p := isNoBrace) (l := rest), hdrop]
          simp [placeholderText]
      · cases h
  · cases h

/-- The parts of a text, as they are written one after the other, are the text. -/
theorem flatten_segmentsIn {steps : Nat} {t : Text} (h : t.length ≤ steps) :
    ((segmentsIn steps t).map Segment.written).flatten = t := by
  induction steps generalizing t with
  | zero => simp [segmentsIn, List.length_eq_zero_iff.mp (Nat.le_zero.mp h)]
  | succ steps ih =>
      cases t with
      | nil => rfl
      | cons c rest =>
          rw [segmentsIn]
          cases hat : placeholderAt (c :: rest) with
          | none =>
              have hrest : rest.length ≤ steps := Nat.le_of_succ_le_succ h
              simp [Segment.written, ih hrest]
          | some found =>
              obtain ⟨inside, after⟩ := found
              have heq := eq_of_placeholderAt hat
              have hafter : after.length ≤ steps := by
                have hlength := congrArg List.length heq
                simp only [placeholderText, List.length_cons, List.length_append] at hlength h
                omega
              simp only [List.map_cons, List.flatten_cons, Segment.written, ih hafter]
              exact heq.symm

theorem flatten_segments (t : Text) : ((segments t).map Segment.written).flatten = t :=
  flatten_segmentsIn le_rfl

/-- A text with no opening brace holds no placeholder. -/
theorem openBrace_mem_of_placeholder {t inside : Text} (h : .placeholder inside ∈ segments t) :
    openBrace ∈ t := by
  rw [← flatten_segments t]
  refine List.mem_flatten.mpr ⟨placeholderText inside, List.mem_map.mpr ⟨_, h, rfl⟩, ?_⟩
  simp [placeholderText]

namespace Resolver

variable {r : Resolver}

/-- What stands for a placeholder stands in the text. -/
theorem infix_replaceAll {replace : Text → Resolve Text} {t t' piece inside : Text}
    {f f' : Findings} (hrun : (replaceAll replace t).run f = .ok (t', f'))
    (hmem : .placeholder inside ∈ segments t)
    (hpiece : ∀ g g' part, (replace inside).run g = .ok (part, g') → piece <:+: part) :
    piece <:+: t' := by
  obtain ⟨parts, g, hparts, hpure⟩ := run_bind_eq_ok.mp hrun
  cases hpure
  obtain ⟨part, hpart, g₁, g₂, hreplace⟩ := exists_run_of_mem_mapM hparts hmem
  exact (hpiece g₁ g₂ part hreplace).trans (List.infix_of_mem_flatten hpart)

/-- A placeholder of a secret that is given is replaced by its plaintext. -/
theorem run_replacement_secret {chain : List Text} {follow : Text → Text → Resolve Text}
    {inside plaintext part : Text} {g g' : Findings}
    (hname : secretPrefix.isPrefixOf (trim inside) = true)
    (hsecret : r.secret ((trim inside).drop secretPrefix.length) = some plaintext)
    (hrun : (r.replacement chain follow inside).run g = .ok (part, g')) : part = plaintext := by
  simp only [replacement, hname, hsecret, if_true] at hrun
  cases hrun
  rfl

/-- A placeholder of a variable is replaced by what its value comes to. -/
theorem run_replacement_variable {chain : List Text} {follow : Text → Text → Resolve Text}
    {inside value part : Text} {scope : VariableScope} {g g' : Findings}
    (hname : secretPrefix.isPrefixOf (trim inside) = false)
    (hdynamic : dynamicNames.contains (trim inside) = false)
    (hfind : r.find (trim inside) = some (scope, value))
    (hrun : (r.replacement chain follow inside).run g = .ok (part, g')) :
    (follow (trim inside) value).run g = .ok (part, g') := by
  simpa only [replacement, hname, hdynamic, hfind, Bool.false_eq_true, if_false] using hrun

/-- The plaintext of a secret that a template refers to stands in what the template comes to. -/
theorem expand_verbatim {left : Nat} {chain : List Text} {t t' id plaintext : Text}
    {f f' : Findings} (hrun : (r.expand left chain t).run f = .ok (t', f')) (h : Refers r t id)
    (hsecret : r.secret id = some plaintext) : plaintext <:+: t' := by
  induction h generalizing left chain t' f f' with
  | secret hmem hname =>
      cases left with
      | zero =>
          refine infix_replaceAll hrun hmem fun g g' part hpart => ?_
          rw [run_replacement_secret hname hsecret hpart]
      | succ left =>
          refine infix_replaceAll hrun hmem fun g g' part hpart => ?_
          rw [run_replacement_secret hname hsecret hpart]
  | variable' hmem hname hdynamic hfind hvalue ih =>
      cases left with
      | zero =>
          refine infix_replaceAll hrun hmem fun g g' part hpart => ?_
          cases run_replacement_variable hname hdynamic hfind hpart
      | succ left =>
          refine infix_replaceAll hrun hmem fun g g' part hpart => ?_
          have hfollow := run_replacement_variable hname hdynamic hfind hpart
          split at hfollow
          · cases hfollow
          · exact ih hfollow hsecret

/-! ## A text that stands for itself -/

/-- A placeholder that nothing stands for: a secret that is not given, or a name with no value. -/
def Valueless (r : Resolver) (inside : Text) : Prop :=
  if secretPrefix.isPrefixOf (trim inside) then
    r.secret ((trim inside).drop secretPrefix.length) = none
  else dynamicNames.contains (trim inside) = false ∧ r.find (trim inside) = none

end Resolver

/-- What a template comes to when it is resolved once: every secret it refers to stands there as it
is. -/
structure ResolvesOnce (r : Resolver) (template result : Text) : Prop where
  once : ∃ f f', (r.resolve template).run f = .ok (result, f')
  verbatim : ∀ id plaintext, Refers r template id → r.secret id = some plaintext →
    plaintext <:+: result

theorem ResolvesOnce.of_run {r : Resolver} {template result : Text} {f f' : Findings}
    (hrun : (r.resolve template).run f = .ok (result, f')) : ResolvesOnce r template result where
  once := ⟨f, f', hrun⟩
  verbatim _ _ hrefers hsecret := Resolver.expand_verbatim hrun hrefers hsecret

end Wayfarer
