import Wayfarer.Auth.RequestAuth
import Wayfarer.Variables.Plain
import Wayfarer.Variables.ResolverMeans

/-!
# Texts that draw no dynamic value

A text that reaches no dynamic variable (`Draws`) comes to one text, whatever was resolved before it
and whatever dynamic values are there to be drawn: two resolvers over the same scopes give the same
of it (`Resolver.carries_resolve`). The fields of an auth are such texts one after the other
(`carries_resolveAuth`).
-/

set_option autoImplicit false

namespace Wayfarer

open Library

/-- A dynamic variable's placeholder. -/
def IsDynamic (_ : List Text) (inside : Text) : Prop :=
  trim inside ∈ dynamicNames

/-- A text reaches a dynamic variable: it is filled in otherwise each time. -/
def Draws (stack : ScopeStack) (t : Text) : Prop :=
  Reached stack [] (segments t) IsDynamic

/-- A text reaches a secret of the vault. -/
def ReachesSecret (stack : ScopeStack) (t : Text) : Prop :=
  ∃ id, Reached stack [] (segments t) fun _ inside => AsksFor inside id

section Reached

variable {stack : ScopeStack} {kind : List Text → Text → Prop}

/-- What a text reaches, it reaches through one of its placeholders. -/
theorem Reached.of_placeholders {chain : List Text} {parts parts' : List Segment}
    (h : Reached stack chain parts kind)
    (hsub : ∀ inside, .placeholder inside ∈ parts → .placeholder inside ∈ parts') :
    Reached stack chain parts' kind := by
  obtain ⟨chain', inside, hreaches, hkind⟩ := h
  refine ⟨chain', inside, ?_, hkind⟩
  cases hreaches with
  | here hmem => exact .here (hsub _ hmem)
  | through hmem hvariable hvalue => exact .through (hsub _ hmem) hvariable hvalue

/-- A placeholder of the text without the white space around it is one of the text. -/
theorem placeholder_mem_of_trim {t inside : Text} (h : .placeholder inside ∈ segments (trim t)) :
    .placeholder inside ∈ segments t := by
  obtain ⟨hbrace, before, after, heq⟩ := mem_segments_iff.mp h
  obtain ⟨w, w', -, -, ht⟩ := exists_white_append_trim t
  refine mem_segments_iff.mpr ⟨hbrace, w ++ before, after ++ w', ?_⟩
  rw [ht, heq]
  simp

theorem not_draws_trim {t : Text} (h : ¬ Draws stack t) : ¬ Draws stack (trim t) :=
  fun hdraws => h (hdraws.of_placeholders fun _ => placeholder_mem_of_trim)

/-- A text without an opening brace reaches nothing. -/
theorem not_reached_of_not_mem {t : Text} (h : openBrace ∉ t) (chain : List Text) :
    ¬ Reached stack chain (segments t) kind := by
  rintro ⟨chain', inside, hreaches, -⟩
  cases hreaches with
  | here hmem => exact h (openBrace_mem_of_placeholder hmem)
  | through hmem => exact h (openBrace_mem_of_placeholder hmem)

end Reached

/-- Parts that reach no dynamic variable stand for one text, wherever the drawing is by then. -/
theorem Stands.undrawn {stack : ScopeStack} {secret : Text → Option Text}
    {dynamic : Nat → Text → Text} {chain : List Text} {parts : List Segment}
    {n n' : Nat} {out : Text}
    (h : Stands stack secret dynamic parts n out n') (hnone : ¬ Reached stack chain parts IsDynamic)
    (dynamic' : Nat → Text → Text) (m : Nat) : Stands stack secret dynamic' parts m out m := by
  -- What follows the first part reaches no dynamic variable either.
  have hlater : ∀ {chain : List Text} {part : Segment} {rest : List Segment},
      ¬ Reached stack chain (part :: rest) IsDynamic → ¬ Reached stack chain rest IsDynamic :=
    fun hall hrest => hall (reached_cons.mpr (.inr hrest))
  induction h generalizing chain m with
  | nil => exact .nil
  | literal hrest ih => exact .literal (ih (hlater hnone) m)
  | given hasks hsecret hrest ih => exact .given hasks hsecret (ih (hlater hnone) m)
  | locked hasks hsecret hrest ih => exact .locked hasks hsecret (ih (hlater hnone) m)
  | drawn hname hrest ih =>
      exact absurd ⟨chain, _, .here List.mem_cons_self, hname⟩ hnone
  | @variable' inside value inner out rest scope n m' n' hvariable hvalue hrest ihvalue ihrest =>
      apply Stands.variable' hvariable _ (ihrest (hlater hnone) m)
      apply @ihvalue (chain ++ [trim inside])
      rintro ⟨chain', inside, hreaches, hdynamic⟩
      exact hnone ⟨chain', inside, .through List.mem_cons_self hvariable hreaches, hdynamic⟩
  | missing hmissing hrest ih => exact .missing hmissing (ih (hlater hnone) m)

namespace Resolver

variable {stack : ScopeStack} {secret : Text → Option Text} {dynamic dynamic' : Nat → Text → Text}

/-- Two resolvers over the same scopes give the same of a text that draws nothing. -/
theorem carries_resolve {t : Text} (h : ¬ Draws stack t) :
    Carries Eq ((Resolver.new stack secret dynamic).resolve t)
      ((Resolver.new stack secret dynamic').resolve t) := by
  rintro out ⟨f, f', hrun⟩
  refine ⟨out, rfl, fun g => ?_⟩
  have hmeans := resolve_means stack secret dynamic t f
  rw [hrun] at hmeans
  obtain ⟨hnest, hstands, -⟩ := hmeans
  have hmeans' := resolve_means stack secret dynamic' t g
  cases hrun' : ((Resolver.new stack secret dynamic').resolve t).run g with
  | error e =>
      rw [hrun'] at hmeans'
      exact absurd hmeans' (hnest e.chain)
  | ok result =>
      rw [hrun'] at hmeans'
      obtain ⟨-, hstands', -⟩ := hmeans'
      obtain ⟨rfl, -⟩ := (hstands.undrawn h dynamic' g.drawn).unique hstands'
      exact ⟨result.2, rfl⟩

end Resolver

/-- The fields of an auth come to the same where the texts do. -/
theorem carries_resolveAuth {f g : Text → Resolve Text} {auth : AuthConfig}
    (h : ∀ t ∈ authTexts auth, Carries Eq (f t) (g t)) :
    Carries Eq (resolveAuth f auth) (resolveAuth g auth) := by
  cases auth with
  | inherit => exact carries_pure rfl
  | none => exact carries_pure rfl
  | bearer token =>
      apply carries_bind_eq (h token (by simp [authTexts]))
      exact fun _ _ => carries_pure rfl
  | basic username password =>
      apply carries_bind_eq (h username (by simp [authTexts]))
      intro _ _
      apply carries_bind_eq (h password (by simp [authTexts]))
      exact fun _ _ => carries_pure rfl
  | apikey key value place =>
      apply carries_bind_eq (h key (by simp [authTexts]))
      intro _ _
      apply carries_bind_eq (h value (by simp [authTexts]))
      exact fun _ _ => carries_pure rfl
  | awsv4 auth =>
      apply carries_bind_eq (h auth.accessKey (by simp [authTexts]))
      intro _ _
      apply carries_bind_eq (h auth.secretKey (by simp [authTexts]))
      intro _ _
      apply carries_bind_eq (h auth.sessionToken (by simp [authTexts]))
      intro _ _
      apply carries_bind_eq (h auth.region (by simp [authTexts]))
      intro _ _
      apply carries_bind_eq (h auth.service (by simp [authTexts]))
      exact fun _ _ => carries_pure rfl
  | oauth2 auth =>
      apply carries_bind_eq (h auth.authUrl (by simp [authTexts]))
      intro _ _
      apply carries_bind_eq (h auth.tokenUrl (by simp [authTexts]))
      intro _ _
      apply carries_bind_eq (h auth.clientId (by simp [authTexts]))
      intro _ _
      apply carries_bind_eq (h auth.clientSecret (by simp [authTexts]))
      intro _ _
      apply carries_bind_eq (h auth.scope (by simp [authTexts]))
      intro _ _
      apply carries_bind_eq (h auth.username (by simp [authTexts]))
      intro _ _
      apply carries_bind_eq (h auth.password (by simp [authTexts]))
      exact fun _ _ => carries_pure rfl

end Wayfarer
