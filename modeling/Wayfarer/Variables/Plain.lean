import Wayfarer.Variables.ResolverOnce

/-!
# Texts that stand for themselves

A text whose placeholders have no value is resolved to itself, whatever the resolver noted down
before (`Resolver.gives_resolve`).
-/

set_option autoImplicit false

namespace Wayfarer

open Library

namespace Resolver

variable {r : Resolver}

/-- No placeholder of a text has a value. -/
def Plain (r : Resolver) (t : Text) : Prop :=
  ∀ inside, .placeholder inside ∈ segments t → r.Valueless inside

/-- A text without an opening brace holds no placeholder. -/
theorem plain_of_not_mem {t : Text} (h : openBrace ∉ t) : r.Plain t := by
  intro inside hmem
  exact absurd (openBrace_mem_of_placeholder hmem) h

/-- A placeholder that nothing stands for is left as it is written. -/
theorem gives_replacement {chain : List Text} {follow : Text → Text → Resolve Text} {inside : Text}
    (h : r.Valueless inside) :
    Gives (r.replacement chain follow inside) (placeholderText inside) := by
  rw [Valueless] at h
  rw [replacement]
  split_ifs at h with hname
  · -- A secret that was not given.
    simp only [hname, if_true, h]
    exact gives_bind (gives_modify _) (gives_pure _)
  · simp only [hname, h.1, h.2, Bool.false_eq_true, if_false]
    split_ifs
    · exact gives_bind (gives_modify _) (gives_pure _)
    · exact gives_pure _

/-- A text comes to itself where each of its placeholders is left as it is written. -/
theorem gives_replaceAll {replace : Text → Resolve Text} {t : Text}
    (h : ∀ inside, .placeholder inside ∈ segments t →
      Gives (replace inside) (placeholderText inside)) :
    Gives (replaceAll replace t) t := by
  rw [replaceAll]
  refine gives_bind (a := (segments t).map Segment.written) (gives_mapM ?_) ?_
  · intro segment hsegment
    cases segment with
    | literal c => exact gives_pure _
    | placeholder inside => exact h inside hsegment
  · rw [flatten_segments]
    exact gives_pure t

/-- A text whose placeholders have no value comes to itself. -/
theorem gives_resolve {t : Text} (h : r.Plain t) : Gives (r.resolve t) t :=
  gives_replaceAll fun inside hmem => gives_replacement (h inside hmem)

end Resolver

end Wayfarer
