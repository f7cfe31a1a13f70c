import Wayfarer.Auth.RequestAuth
import Wayfarer.Variables.AsksVault
import Wayfarer.Variables.ResolverMeans

/-!
# Where a text fails and what it asks for

Whether a text nests, and over which names, depends on the scopes alone (`nestingOf`): not on what
was resolved before it. Nor does what it asks the vault for (`Refers`); two vaults that agree on
that give the same text and the same findings (`resolve_agree`). Both are carried over to a list of
texts that are resolved one after the other, and to the fields of an auth, which are such a list
(`authTexts`).
-/

set_option autoImplicit false

namespace Wayfarer

open Library

namespace Resolver

/-! ## Failing -/

/-- Replacing a placeholder fails or not whatever was noted down before. -/
theorem failsAlike_replacement (r : Resolver) (chain : List Text)
    {follow : Text → Text → Resolve Text}
    (h : ∀ name value, FailsAlike (follow name value) (follow name value)) (inside : Text) :
    FailsAlike (r.replacement chain follow inside) (r.replacement chain follow inside) := by
  simp only [replacement]
  split
  · split
    · exact failsAlike_of_ok (fun s => ⟨_, rfl⟩) fun s => ⟨_, rfl⟩
    · exact failsAlike_of_ok (fun s => ⟨_, rfl⟩) fun s => ⟨_, rfl⟩
  · split
    · exact failsAlike_of_ok (fun s => ⟨_, rfl⟩) fun s => ⟨_, rfl⟩
    · split
      · split
        · exact failsAlike_of_ok (fun s => ⟨_, rfl⟩) fun s => ⟨_, rfl⟩
        · exact failsAlike_of_ok (fun s => ⟨_, rfl⟩) fun s => ⟨_, rfl⟩
      · exact h _ _

theorem failsAlike_replaceAll {replace : Text → Resolve Text}
    (h : ∀ inside, FailsAlike (replace inside) (replace inside)) (t : Text) :
    FailsAlike (replaceAll replace t) (replaceAll replace t) := by
  apply failsAlike_bind
  · apply failsAlike_mapM
    intro part _
    cases part with
    | literal c => exact failsAlike_of_ok (fun s => ⟨_, rfl⟩) fun s => ⟨_, rfl⟩
    | placeholder inside => exact h inside
  · intro parts parts'
    exact failsAlike_of_ok (fun s => ⟨_, rfl⟩) fun s => ⟨_, rfl⟩

theorem failsAlike_expand (r : Resolver) (left : Nat) (chain : List Text) (t : Text) :
    FailsAlike (r.expand left chain t) (r.expand left chain t) := by
  induction left generalizing chain t with
  | zero =>
      exact failsAlike_replaceAll
        (failsAlike_replacement r chain fun _ _ => failsAlike_throw _) t
  | succ left ih =>
      refine failsAlike_replaceAll (failsAlike_replacement r chain fun name value => ?_) t
      split
      · exact failsAlike_throw _
      · exact ih _ _

/-- How a text nests, if it does. -/
def nestingOf (r : Resolver) (t : Text) : Option VariableNestingError :=
  match (r.resolve t).run {} with
  | .error e => some e
  | .ok _ => none

/-- A text fails wherever it stands, and in one way. -/
theorem run_resolve_eq_error_iff {r : Resolver} {t : Text} {f : Findings}
    {e : VariableNestingError} : (r.resolve t).run f = .error e ↔ r.nestingOf t = some e := by
  have halike : (r.resolve t).run f = .error e ↔ (r.resolve t).run {} = .error e :=
    r.failsAlike_expand maxVariableDepth [] t f {} e
  rw [halike, nestingOf]
  cases (r.resolve t).run {} with
  | error e' => simp
  | ok result => simp

/-- The texts of a list fail where the first of them does that fails. -/
theorem run_mapM_eq_error_iff {r : Resolver} {ts : List Text} {f : Findings}
    {e : VariableNestingError} :
    (ts.mapM r.resolve).run f = .error e ↔ ts.findSome? r.nestingOf = some e := by
  induction ts generalizing f with
  | nil =>
      rw [List.mapM_nil]
      constructor <;>
      · intro h
        cases h
  | cons t ts ih =>
      rw [List.mapM_cons, run_bind_eq_error, List.findSome?_cons, run_resolve_eq_error_iff]
      cases hnest : r.nestingOf t with
      | some e' =>
          constructor
          · rintro (h | ⟨out, g, hrun, -⟩)
            · exact h
            · rw [run_resolve_eq_error_iff.mpr hnest] at hrun
              cases hrun
          · exact .inl
      | none =>
          constructor
          · rintro (h | ⟨out, g, hrun, hrest⟩)
            · cases h
            · rcases run_bind_eq_error.mp hrest with hrest | ⟨outs, g', -, hpure⟩
              · exact ih.mp hrest
              · cases hpure
          · intro h
            right
            cases hrun : (r.resolve t).run f with
            | error e' =>
                rw [run_resolve_eq_error_iff.mp hrun] at hnest
                cases hnest
            | ok result =>
                exact ⟨result.1, result.2, rfl, run_bind_eq_error.mpr (.inl (ih.mpr h))⟩

/-! ## Asking -/

/-- What a text asks for is what one of the placeholders it reaches names. -/
theorem refers_iff_reached {stack : ScopeStack} {secret : Text → Option Text}
    {dynamic : Nat → Text → Text} {t id : Text} {chain : List Text} :
    Refers (Resolver.new stack secret dynamic) t id ↔
      Reached stack chain (segments t) fun _ inside => AsksFor inside id := by
  constructor
  · intro h
    induction h generalizing chain with
    | @secret t inside hmem hname =>
        obtain ⟨rest, hrest⟩ := List.isPrefixOf_iff_prefix.mp hname
        refine ⟨chain, inside, .here hmem, ?_⟩
        change trim inside = secretPrefix ++ (trim inside).drop secretPrefix.length
        rw [← hrest, List.drop_left]
    | variable' hmem hname hdynamic hfind hvalue ih =>
        obtain ⟨chain', inside, hreaches, hasks⟩ := ih
        refine ⟨chain', inside, .through hmem ⟨?_, ?_, find_iff.mp hfind⟩ hreaches, hasks⟩
        · intro hprefix
          rw [List.isPrefixOf_iff_prefix.mpr hprefix] at hname
          cases hname
        · intro hmem
          rw [List.contains_iff_mem.mpr hmem] at hdynamic
          cases hdynamic
  · rintro ⟨chain', inside, hreaches, hasks⟩
    generalize hparts : segments t = parts at hreaches
    induction hreaches generalizing t with
    | @here chain parts inside hmem =>
        subst hparts
        have hrefers := @Refers.secret (Resolver.new stack secret dynamic) _ _ hmem
          (List.isPrefixOf_iff_prefix.mpr hasks.prefix')
        rwa [hasks, List.drop_left] at hrefers
    | @through chain chain' parts outer inside value scope hmem hvariable hvalue ih =>
        subst hparts
        refine .variable' hmem ?_ ?_ (find_iff.mpr hvariable.nearest) (ih hasks rfl)
        · rw [← Bool.not_eq_true, List.isPrefixOf_iff_prefix]
          exact hvariable.plain
        · rw [← Bool.not_eq_true, List.contains_iff_mem]
          exact hvariable.fixed

/-- Without a vault, what a text asks for is noted down. -/
theorem mem_lockedSecrets_iff {stack : ScopeStack} {dynamic : Nat → Text → Text} {t out : Text}
    {f f' : Findings}
    (hrun : ((Resolver.new stack (fun _ => none) dynamic).resolve t).run f = .ok (out, f'))
    (id : Text) : id ∈ f'.lockedSecrets ↔
      id ∈ f.lockedSecrets ∨ Refers (Resolver.new stack (fun _ => none) dynamic) t id := by
  have hmeans := resolve_means stack (fun _ => none) dynamic t f
  rw [hrun] at hmeans
  rw [hmeans.2.2.lockedSecrets, @refers_iff_reached _ _ _ _ _ []]
  refine or_congr_right (exists_congr fun chain' => exists_congr fun inside => ?_)
  exact and_congr_right' (and_iff_left rfl)

theorem mem_lockedSecrets_mapM_iff {stack : ScopeStack} {dynamic : Nat → Text → Text}
    {ts outs : List Text} {f f' : Findings}
    (hrun : (ts.mapM (Resolver.new stack (fun _ => none) dynamic).resolve).run f = .ok (outs, f'))
    (id : Text) : id ∈ f'.lockedSecrets ↔
      id ∈ f.lockedSecrets ∨
        ∃ t ∈ ts, Refers (Resolver.new stack (fun _ => none) dynamic) t id := by
  induction ts generalizing f outs with
  | nil =>
      rw [List.mapM_nil] at hrun
      cases hrun
      simp
  | cons t ts ih =>
      rw [List.mapM_cons] at hrun
      obtain ⟨out, g, hfirst, hrest⟩ := run_bind_eq_ok.mp hrun
      obtain ⟨rest, g', hlater, hpure⟩ := run_bind_eq_ok.mp hrest
      cases hpure
      rw [ih hlater, mem_lockedSecrets_iff hfirst, or_assoc]
      simp

/-- A text comes to the same with two vaults that give the same of what it asks for. -/
theorem expand_agree (r : Resolver) (secret : Text → Option Text) {left : Nat} {chain : List Text}
    {t : Text} (h : ∀ id, Refers r t id → secret id = r.secret id) :
    (r.withVault secret).expand left chain t = r.expand left chain t := by
  have hplaceholder : ∀ {t inside : Text} {follow follow' : Text → Text → Resolve Text},
      (chain : List Text) → (∀ id, Refers r t id → secret id = r.secret id) →
      .placeholder inside ∈ segments t →
      (∀ scope value, r.find (trim inside) = some (scope, value) →
        (∀ id, Refers r value id → secret id = r.secret id) →
        follow (trim inside) value = follow' (trim inside) value) →
      (r.withVault secret).replacement chain follow inside =
        r.replacement chain follow' inside := by
    intro t inside follow follow' chain h hmem hfollow
    by_cases hname : secretPrefix.isPrefixOf (trim inside) = true
    · have hsame := h _ (.secret hmem hname)
      simp only [replacement, hname, if_true, withVault, hsame]
      rfl
    · have hplain : secretPrefix.isPrefixOf (trim inside) = false := Bool.not_eq_true _ ▸ hname
      by_cases hdynamic : dynamicNames.contains (trim inside) = true
      · simp only [replacement, hplain, hdynamic, if_true]
        rfl
      · apply replacement_withVault secret hplain
        intro scope value hfind
        refine hfollow scope value hfind fun id hid => h id (.variable' hmem hplain ?_ hfind hid)
        simpa using hdynamic
  induction left generalizing chain t with
  | zero =>
      apply replaceAll_congr
      intro inside hmem
      exact hplaceholder chain h hmem fun _ _ _ _ => rfl
  | succ left ih =>
      apply replaceAll_congr
      intro inside hmem
      apply hplaceholder chain h hmem
      intro scope value hfind hvalue
      split_ifs with hcircle
      · rfl
      · exact ih hvalue

theorem resolve_agree (r : Resolver) (secret : Text → Option Text) {t : Text}
    (h : ∀ id, Refers r t id → secret id = r.secret id) :
    (r.withVault secret).resolve t = r.resolve t :=
  r.expand_agree secret h

end Resolver

/-! ## The fields of an auth -/

/-- An auth comes to the same with two ways to resolve that agree on its fields. -/
theorem resolveAuth_congr {f g : Text → Resolve Text} {auth : AuthConfig}
    (h : ∀ t ∈ authTexts auth, f t = g t) : resolveAuth f auth = resolveAuth g auth := by
  cases auth with
  | inherit => rfl
  | none => rfl
  | bearer token => simp only [resolveAuth, h token (by simp [authTexts])]
  | basic username password =>
      simp only [resolveAuth, h username (by simp [authTexts]), h password (by simp [authTexts])]
  | apikey key value place =>
      simp only [resolveAuth, h key (by simp [authTexts]), h value (by simp [authTexts])]
  | awsv4 auth =>
      simp only [resolveAuth, h auth.accessKey (by simp [authTexts]),
        h auth.secretKey (by simp [authTexts]), h auth.sessionToken (by simp [authTexts]),
        h auth.region (by simp [authTexts]), h auth.service (by simp [authTexts])]
  | oauth2 auth =>
      simp only [resolveAuth, h auth.authUrl (by simp [authTexts]),
        h auth.tokenUrl (by simp [authTexts]), h auth.clientId (by simp [authTexts]),
        h auth.clientSecret (by simp [authTexts]), h auth.scope (by simp [authTexts]),
        h auth.username (by simp [authTexts]), h auth.password (by simp [authTexts])]

/-- Its fields are resolved one after the other. -/
theorem resolveAuth_pass (f : Text → Resolve Text) (auth : AuthConfig) :
    (do let _ ← resolveAuth f auth; return () : Resolve Unit) =
      (do let _ ← (authTexts auth).mapM f; return ()) := by
  cases auth <;> simp [resolveAuth, authTexts]

end Wayfarer
