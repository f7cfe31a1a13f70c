import Wayfarer.Variables.Meaning

/-!
# The resolver gives what a text means

`resolve_means` holds whatever the scopes hold and however their values refer to each other. A value
in a circle is reached along chains of every length; the first of them that repeats a name stops the
resolver, so that the steps it may take are never used up before. Each placeholder is dealt with by
one lemma (`means_given`, `means_withheld`, `means_drawn`, `means_variable`, `means_missing`),
`means_mapM` puts the parts of a text together, and `means_expand` is the induction on the steps
that are left.
-/

set_option autoImplicit false

namespace Wayfarer

open Library

/-! ## Parts and placeholders -/

section Runs

variable {stack : ScopeStack} {secret : Text → Option Text} {dynamic : Nat → Text → Text}
  {chain : List Text}

theorem means_nil (f : Findings) : Means stack secret dynamic chain [] f (.ok ([], f)) := by
  refine ⟨fun names => not_reached_nil, .nil, ?_⟩
  constructor <;> simp [not_reached_nil]

theorem means_literal (c : CodeUnit) (f : Findings) :
    Means stack secret dynamic chain [.literal c] f (.ok ([c], f)) := by
  refine ⟨fun names => not_reached_literal, .literal .nil, ?_⟩
  constructor <;> simp [not_reached_literal]

/-- Parts that are each replaced by what they mean are together replaced by what they mean. -/
theorem means_mapM {replace : Segment → Resolve Text} {parts : List Segment}
    (hbraceless : Braceless chain parts)
    (h : ∀ part ∈ parts, ∀ f, Means stack secret dynamic chain [part] f ((replace part).run f))
    (f : Findings) :
    Means stack secret dynamic chain parts f
      ((do let outs ← parts.mapM replace; return outs.flatten : Resolve Text).run f) := by
  induction parts generalizing f with
  | nil =>
      rw [List.mapM_nil]
      exact means_nil f
  | cons part parts ih =>
      have hfirst := h part List.mem_cons_self f
      have hlater : Braceless chain parts :=
        ⟨hbraceless.chain, fun inside hmem => hbraceless.parts inside (List.mem_cons_of_mem _ hmem)⟩
      have hrest := ih hlater fun part' hpart' => h part' (List.mem_cons_of_mem _ hpart')
      rw [List.mapM_cons]
      simp only [StateT.run_bind] at hrest ⊢
      -- The first part that nests too deep ends the whole; before it, each adds what it reports.
      cases hrun : (replace part).run f with
      | error e =>
          rw [hrun] at hfirst
          exact reached_cons.mpr (.inl hfirst)
      | ok result =>
          obtain ⟨first, g⟩ := result
          rw [hrun] at hfirst
          obtain ⟨hnests, hstands, hreports⟩ := hfirst
          have hmeans := hrest g
          simp only [bind, Except.bind] at hmeans ⊢
          cases hlater : (parts.mapM replace).run g with
          | error e =>
              rw [hlater] at hmeans
              exact reached_cons.mpr (.inr hmeans)
          | ok result =>
              obtain ⟨outs, f'⟩ := result
              rw [hlater] at hmeans
              obtain ⟨hnests', hstands', hreports'⟩ := hmeans
              refine ⟨fun names hnest => ?_, hstands.append hstands',
                hreports.append hbraceless hreports'⟩
              rcases reached_cons.mp hnest with hnest | hnest
              · exact hnests names hnest
              · exact hnests' names hnest

/-- The variables that led here have values. -/
def LedHere (stack : ScopeStack) (chain : List Text) : Prop :=
  ∀ name ∈ chain, ∃ scope value, Nearest stack name scope value

theorem LedHere.next {name value : Text} {scope : VariableScope} (h : LedHere stack chain)
    (hnearest : Nearest stack name scope value) : LedHere stack (chain ++ [name]) := by
  intro other hother
  rcases List.mem_append.mp hother with hother | hother
  · exact h other hother
  · rw [List.mem_singleton.mp hother]
    exact ⟨scope, value, hnearest⟩

/-- The holder is the last variable that led here, or the placeholder. -/
theorem heldSecret_iff {inside holder plaintext : Text} {scope : Option VariableScope}
    (hled : LedHere stack chain) (hplaced : PlacedSecret secret plaintext chain inside) :
    HeldSecret stack secret holder scope chain inside ↔
      chain.getLast?.getD (placeholderText inside) = holder ∧
        (chain.getLast?.bind fun name =>
          ((Resolver.new stack secret dynamic).find name).map Prod.fst) = scope := by
  rcases List.eq_nil_or_concat' chain with rfl | ⟨before, last, rfl⟩
  · constructor
    · rintro ⟨-, ⟨-, rfl, rfl⟩ | ⟨before, found, value, hchain, -⟩⟩
      · exact ⟨rfl, rfl⟩
      · exact absurd hchain.symm (List.append_ne_nil_of_right_ne_nil _ (List.cons_ne_nil _ _))
    · rintro ⟨rfl, rfl⟩
      exact ⟨⟨plaintext, hplaced⟩, .inl ⟨rfl, rfl, rfl⟩⟩
  · obtain ⟨found, value, hnearest⟩ := hled last (by simp)
    have hfind := @Resolver.find_iff stack secret dynamic _ _ _ |>.mpr hnearest
    simp only [List.getLast?_append, List.getLast?_singleton, Option.some_or, Option.getD_some,
      Option.bind_some, hfind, Option.map_some]
    constructor
    · rintro ⟨-, ⟨hchain, -⟩ | ⟨before', found', value', hchain, hnearest', rfl⟩⟩
      · exact absurd hchain (List.append_ne_nil_of_right_ne_nil _ (List.cons_ne_nil _ _))
      · obtain ⟨-, hlast⟩ := List.append_inj' hchain rfl
        obtain rfl := (List.cons.inj hlast).1
        exact ⟨rfl, congrArg some (hnearest.unique hnearest').1⟩
    · rintro ⟨rfl, rfl⟩
      exact ⟨⟨plaintext, hplaced⟩, .inr ⟨before, found, value, rfl, hnearest, rfl⟩⟩

/-- A placeholder that is no variable's is replaced at once. -/
theorem means_leaf {inside out : Text} {f f' : Findings}
    (hleaf : ∀ scope value, ¬ IsVariable stack (trim inside) scope value)
    (hstands : Stands stack secret dynamic [.placeholder inside] f.drawn out f'.drawn)
    (hunresolved : ∀ name, name ∈ f'.unresolved ↔
      name ∈ f.unresolved ∨ MissesName stack name chain inside)
    (hlocked : ∀ id, id ∈ f'.lockedSecrets ↔
      id ∈ f.lockedSecrets ∨ WithheldSecret secret id chain inside)
    (htaint : ∀ plaintext, plaintext ∈ f'.taint ↔
      plaintext ∈ f.taint ∨ PlacedSecret secret plaintext chain inside)
    (hvaulted : ∀ holder scope, f'.vaulted.get? holder = some scope ↔
      HeldSecret stack secret holder scope chain inside ∨
        (∀ other, ¬ HeldSecret stack secret holder other chain inside) ∧
          f.vaulted.get? holder = some scope) :
    Means stack secret dynamic chain [.placeholder inside] f (.ok (out, f')) := by
  refine ⟨fun names hnests => ?_, hstands, ?_⟩
  · obtain ⟨⟨scope, value, hvariable⟩, -⟩ := (reached_leaf hleaf).mp hnests
    exact hleaf scope value hvariable
  · constructor <;> simpa only [reached_leaf hleaf]

/-- A variable's placeholder is replaced by what the value comes to, where it may be followed. -/
theorem means_variable {inside value : Text} {scope : VariableScope} {f : Findings}
    {result : Except VariableNestingError (Text × Findings)}
    (hvariable : IsVariable stack (trim inside) scope value) (hnew : trim inside ∉ chain)
    (hdepth : chain.length < maxVariableDepth)
    (h : Means stack secret dynamic (chain ++ [trim inside]) (segments value) f result) :
    Means stack secret dynamic chain [.placeholder inside] f result := by
  cases result with
  | error e => exact (reached_variable hvariable).mpr (.inr h)
  | ok result =>
      obtain ⟨out, f'⟩ := result
      obtain ⟨hnests, hstands, hreports⟩ := h
      have hplain : ∀ id, ¬ AsksFor inside id := fun id hasks => hvariable.plain hasks.prefix'
      refine ⟨fun names hnest => ?_, ?_, ?_⟩
      · rcases (reached_variable hvariable).mp hnest with ⟨-, hrepeats | hdeep, -⟩ | hnest
        · exact hnew hrepeats
        · exact absurd hdeep (Nat.not_le.mpr hdepth)
        · exact hnests names hnest
      · have hone := Stands.variable' hvariable hstands .nil
        rwa [List.append_nil] at hone
      · -- The placeholder itself is of no kind that is noted down.
        have hmisses : ∀ name, ¬ MissesName stack name chain inside := by
          rintro name ⟨rfl, hmissing, -⟩
          exact hmissing.none _ _ hvariable.nearest
        have hwithheld : ∀ id, ¬ WithheldSecret secret id chain inside :=
          fun id hid => hplain id hid.1
        have hplaced : ∀ plaintext, ¬ PlacedSecret secret plaintext chain inside :=
          fun plaintext ⟨id, hasks, _⟩ => hplain id hasks
        have hheld : ∀ holder scope, ¬ HeldSecret stack secret holder scope chain inside :=
          fun holder scope ⟨⟨plaintext, hid⟩, _⟩ => hplaced plaintext hid
        constructor
        · simpa only [reached_variable hvariable, hmisses, false_or] using hreports.unresolved
        · simpa only [reached_variable hvariable, hwithheld, false_or] using hreports.lockedSecrets
        · simpa only [reached_variable hvariable, hplaced, false_or] using hreports.taint
        · simpa only [reached_variable hvariable, hheld, false_or] using hreports.vaulted

theorem not_isVariable_of_asks {inside id value : Text} {scope : VariableScope}
    (h : AsksFor inside id) : ¬ IsVariable stack (trim inside) scope value :=
  fun hvariable => hvariable.plain h.prefix'

theorem not_missesName_of_asks {inside id name : Text} (h : AsksFor inside id) :
    ¬ MissesName stack name chain inside := by
  rintro ⟨rfl, hmissing, -⟩
  exact hmissing.plain h.prefix'

/-- A secret that is not given is left as it is written. -/
theorem means_withheld {inside id : Text} {f f' : Findings} (hasks : AsksFor inside id)
    (hsecret : secret id = none)
    (hf' : f' = { f with lockedSecrets := f.lockedSecrets.add id }) :
    Means stack secret dynamic chain [.placeholder inside] f
      (.ok (placeholderText inside, f')) := by
  subst hf'
  have hplaced : ∀ plaintext, ¬ PlacedSecret secret plaintext chain inside := by
    rintro plaintext ⟨other, hother, hgiven⟩
    rw [← hasks.unique hother, hsecret] at hgiven
    cases hgiven
  refine means_leaf (fun scope value => not_isVariable_of_asks hasks) ?_ ?_ ?_ ?_ ?_
  · have hone : Stands stack secret dynamic [.placeholder inside] f.drawn
        (placeholderText inside ++ []) f.drawn := .locked hasks hsecret .nil
    rwa [List.append_nil] at hone
  · intro name
    simp [not_missesName_of_asks hasks]
  · intro other
    have hthis : WithheldSecret secret other chain inside ↔ other = id :=
      ⟨fun h => h.1.unique hasks, fun h => h ▸ ⟨hasks, hsecret⟩⟩
    rw [hthis]
    exact OrderedSet.mem_add.trans or_comm
  · intro plaintext
    simp [hplaced]
  · intro holder scope
    have hheld : ∀ scope, ¬ HeldSecret stack secret holder scope chain inside :=
      fun scope ⟨⟨plaintext, hid⟩, _⟩ => hplaced plaintext hid
    simp [hheld]

/-- A secret that is given is replaced by its plaintext, which is no template. -/
theorem means_given {inside id plaintext : Text} {f f' : Findings} (hled : LedHere stack chain)
    (hasks : AsksFor inside id) (hsecret : secret id = some plaintext)
    (hf' : f' = { f with
      taint := f.taint.add plaintext
      vaulted := f.vaulted.set (chain.getLast?.getD (placeholderText inside))
        (chain.getLast?.bind fun name =>
          ((Resolver.new stack secret dynamic).find name).map Prod.fst) }) :
    Means stack secret dynamic chain [.placeholder inside] f (.ok (plaintext, f')) := by
  subst hf'
  have hplaced : ∀ other, PlacedSecret secret other chain inside ↔ other = plaintext := by
    intro other
    constructor
    · rintro ⟨id', hasks', hgiven⟩
      rw [← hasks.unique hasks', hsecret] at hgiven
      exact (Option.some.inj hgiven).symm
    · rintro rfl
      exact ⟨id, hasks, hsecret⟩
  have hwithheld : ∀ other, ¬ WithheldSecret secret other chain inside := by
    rintro other ⟨hother, hnone⟩
    rw [← hasks.unique hother, hsecret] at hnone
    cases hnone
  refine means_leaf (fun scope value => not_isVariable_of_asks hasks) ?_ ?_ ?_ ?_ ?_
  · have hone : Stands stack secret dynamic [.placeholder inside] f.drawn (plaintext ++ [])
        f.drawn := .given hasks hsecret .nil
    rwa [List.append_nil] at hone
  · intro name
    simp [not_missesName_of_asks hasks]
  · intro other
    simp [hwithheld]
  · intro other
    rw [hplaced]
    exact OrderedSet.mem_add.trans or_comm
  · intro holder scope
    have hheld : ∀ scope, HeldSecret stack secret holder scope chain inside ↔ _ := fun scope =>
      @heldSecret_iff stack secret dynamic chain inside holder plaintext scope hled
        ((hplaced plaintext).mpr rfl)
    simp only [hheld]
    refine OrderedMap.get?_set_eq_some_iff.trans (or_congr_right (and_congr_left' ?_))
    exact ⟨fun hne other h => hne h.1, fun h heq => h _ ⟨heq, rfl⟩⟩

theorem run_replacement_locked {r : Resolver} {inside id : Text}
    {follow : Text → Text → Resolve Text} (hasks : AsksFor inside id) (hsecret : r.secret id = none)
    (f : Findings) : (r.replacement chain follow inside).run f =
      .ok (placeholderText inside, { f with lockedSecrets := f.lockedSecrets.add id }) := by
  have hname := List.isPrefixOf_iff_prefix.mpr hasks.prefix'
  have hid : (trim inside).drop secretPrefix.length = id := by rw [hasks, List.drop_left]
  simp only [Resolver.replacement, hname, hid, if_true, hsecret]
  rfl

theorem run_replacement_given {r : Resolver} {inside id plaintext : Text}
    {follow : Text → Text → Resolve Text} (hasks : AsksFor inside id)
    (hsecret : r.secret id = some plaintext) (f : Findings) :
    (r.replacement chain follow inside).run f = .ok (plaintext, { f with
      taint := f.taint.add plaintext
      vaulted := f.vaulted.set (chain.getLast?.getD (placeholderText inside))
        (chain.getLast?.bind fun name => (r.find name).map Prod.fst) }) := by
  have hname := List.isPrefixOf_iff_prefix.mpr hasks.prefix'
  have hid : (trim inside).drop secretPrefix.length = id := by rw [hasks, List.drop_left]
  simp only [Resolver.replacement, hname, hid, if_true, hsecret]
  rfl

/-- A dynamic variable is replaced by its next value. -/
theorem means_drawn {inside : Text} {f f' : Findings} (hname : trim inside ∈ dynamicNames)
    (hf' : f' = { f with drawn := f.drawn + 1 }) :
    Means stack secret dynamic chain [.placeholder inside] f
      (.ok (dynamic f.drawn (trim inside), f')) := by
  subst hf'
  have hplain : ∀ id, ¬ AsksFor inside id := fun id => not_asks_of_dynamic hname
  refine means_leaf (fun scope value hvariable => hvariable.fixed hname) ?_ ?_ ?_ ?_ ?_
  · have hone : Stands stack secret dynamic [.placeholder inside] f.drawn
        (dynamic f.drawn (trim inside) ++ []) (f.drawn + 1) := .drawn hname .nil
    rwa [List.append_nil] at hone
  · intro name
    have hmisses : ¬ MissesName stack name chain inside := by
      rintro ⟨rfl, hmissing, -⟩
      exact hmissing.fixed hname
    simp [hmisses]
  · intro id
    simp [WithheldSecret, hplain]
  · intro plaintext
    simp [PlacedSecret, hplain]
  · intro holder scope
    simp [HeldSecret, PlacedSecret, hplain]

/-- A name without a value is left as it is written. -/
theorem means_missing {inside : Text} {f f' : Findings} (hmissing : IsMissing stack (trim inside))
    (hf' : ∀ name, name ∈ f'.unresolved ↔
      name ∈ f.unresolved ∨ name = trim inside ∧ isPlainName name = true)
    (hkept : f'.lockedSecrets = f.lockedSecrets ∧ f'.taint = f.taint ∧ f'.vaulted = f.vaulted ∧
      f'.drawn = f.drawn) :
    Means stack secret dynamic chain [.placeholder inside] f
      (.ok (placeholderText inside, f')) := by
  obtain ⟨hlocked, htaint, hvaulted, hdrawn⟩ := hkept
  have hplain : ∀ id, ¬ AsksFor inside id := fun id hasks => hmissing.plain hasks.prefix'
  refine means_leaf (fun scope value hvariable => hmissing.none _ _ hvariable.nearest)
    ?_ ?_ ?_ ?_ ?_
  · have hone : Stands stack secret dynamic [.placeholder inside] f.drawn
        (placeholderText inside ++ []) f.drawn := .missing hmissing .nil
    rw [List.append_nil] at hone
    rwa [hdrawn]
  · intro name
    rw [hf']
    refine or_congr_right ⟨?_, ?_⟩
    · rintro ⟨rfl, hread⟩
      exact ⟨rfl, hmissing, hread⟩
    · rintro ⟨rfl, -, hread⟩
      exact ⟨rfl, hread⟩
  · intro id
    simp [hlocked, WithheldSecret, hplain]
  · intro plaintext
    simp [htaint, PlacedSecret, hplain]
  · intro holder scope
    simp [hvaulted, HeldSecret, PlacedSecret, hplain]

/-- One placeholder is replaced by what it means, where the values of variables are. -/
theorem means_replacement {inside : Text} {follow : Text → Text → Resolve Text}
    (hled : LedHere stack chain)
    (hfollow : ∀ scope value, IsVariable stack (trim inside) scope value → ∀ f,
      Means stack secret dynamic chain [.placeholder inside] f ((follow (trim inside) value).run f))
    (f : Findings) :
    Means stack secret dynamic chain [.placeholder inside] f
      (((Resolver.new stack secret dynamic).replacement chain follow inside).run f) := by
  -- The kinds of name in the order the resolver tries them: a secret, a dynamic one, a variable.
  by_cases hname : secretPrefix <+: trim inside
  · obtain ⟨id, hid⟩ := hname
    have hasks : AsksFor inside id := hid.symm
    cases hsecret : secret id with
    | none =>
        rw [run_replacement_locked hasks hsecret f]
        exact means_withheld hasks hsecret rfl
    | some plaintext =>
        rw [run_replacement_given hasks hsecret f]
        exact means_given hled hasks hsecret rfl
  · have hprefix : secretPrefix.isPrefixOf (trim inside) = false := by
      rwa [← Bool.not_eq_true, List.isPrefixOf_iff_prefix]
    simp only [Resolver.replacement, hprefix, Bool.false_eq_true, if_false]
    by_cases hdynamic : trim inside ∈ dynamicNames
    · rw [if_pos (List.contains_iff_mem.mpr hdynamic)]
      exact means_drawn hdynamic rfl
    · rw [if_neg fun h => hdynamic (List.contains_iff_mem.mp h)]
      cases hfind : (Resolver.new stack secret dynamic).find (trim inside) with
      | some found =>
          obtain ⟨scope, value⟩ := found
          exact hfollow scope value ⟨hname, hdynamic, Resolver.find_iff.mp hfind⟩ f
      | none =>
          have hmissing : IsMissing stack (trim inside) :=
            ⟨hname, hdynamic, Resolver.find_eq_none_iff.mp hfind⟩
          -- A name that is not plain is left as text and not reported.
          by_cases hplain : isPlainName (trim inside) = true
          · simp only [hplain, if_true]
            refine means_missing hmissing (fun name => ?_) ⟨rfl, rfl, rfl, rfl⟩
            refine OrderedSet.mem_add.trans (or_comm.trans (or_congr_right ?_))
            exact ⟨fun h => ⟨h, h ▸ hplain⟩, fun h => h.1⟩
          · simp only [hplain]
            refine means_missing hmissing (fun name => ?_) ⟨rfl, rfl, rfl, rfl⟩
            refine ⟨.inl, ?_⟩
            rintro (h | ⟨rfl, h⟩)
            · exact h
            · exact absurd h hplain

/-- A variable that may not be followed is where the resolver fails. -/
theorem means_nesting {inside value : Text} {scope : VariableScope} {f : Findings}
    (hvariable : IsVariable stack (trim inside) scope value)
    (hnests : trim inside ∈ chain ∨ maxVariableDepth ≤ chain.length) :
    Means stack secret dynamic chain [.placeholder inside] f (.error ⟨chain ++ [trim inside]⟩) :=
  (reached_variable hvariable).mpr (.inl ⟨⟨scope, value, hvariable⟩, hnests, rfl⟩)

/-- What a text is expanded to is what it means. The induction is on the steps that are left, which
with those that were taken are always the most there may be. -/
theorem means_expand (left : Nat) (t : Text) (hleft : left + chain.length = maxVariableDepth)
    (hbraceless : ∀ name ∈ chain, openBrace ∉ name) (hled : LedHere stack chain) (f : Findings) :
    Means stack secret dynamic chain (segments t) f
      (((Resolver.new stack secret dynamic).expand left chain t).run f) := by
  induction left generalizing chain t f with
  | zero =>
      refine means_mapM ⟨hbraceless, fun inside => openBrace_not_mem_inside⟩ (fun part _ f => ?_) f
      cases part with
      | literal c => exact means_literal c f
      | placeholder inside =>
          refine means_replacement hled (fun scope value hvariable f => ?_) f
          exact means_nesting hvariable (.inr (by omega))
  | succ left ih =>
      have hall : Braceless chain (segments t) :=
        ⟨hbraceless, fun inside => openBrace_not_mem_inside⟩
      refine means_mapM hall (fun part hpart f => ?_) f
      cases part with
      | literal c => exact means_literal c f
      | placeholder inside =>
          refine means_replacement hled (fun scope value hvariable f => ?_) f
          by_cases hrepeats : trim inside ∈ chain
          · rw [if_pos (List.contains_iff_mem.mpr hrepeats)]
            exact means_nesting hvariable (.inl hrepeats)
          · rw [if_neg fun h => hrepeats (List.contains_iff_mem.mp h)]
            refine means_variable hvariable hrepeats (by omega) (ih value ?_ ?_ ?_ f)
            · rw [List.length_append, List.length_singleton]
              omega
            · exact (hall.next hpart value).chain
            · exact hled.next hvariable.nearest

end Runs

/-- The resolver gives what a text means: whatever the scopes hold, whatever was resolved before,
and however the values refer to each other. -/
theorem resolve_means (stack : ScopeStack) (secret : Text → Option Text)
    (dynamic : Nat → Text → Text) (t : Text) (f : Findings) :
    Means stack secret dynamic [] (segments t) f
      (((Resolver.new stack secret dynamic).resolve t).run f) := by
  refine means_expand maxVariableDepth t rfl ?_ ?_ f
  · intro name hname
    cases hname
  · intro name hname
    cases hname

/-! ## Two texts left as they are written -/

/-- An enabled row without a name. -/
def namelessRow : Row := { key := [], value := units "x", enabled := true }

/-- The name of a link. -/
def link (i : Nat) : Text := [0x61 + UInt16.ofNat i]

/-- Ten variables, each of which is the next; the last is one that no row has. -/
def linkedRows : List Row :=
  (List.range maxVariableDepth).map fun i =>
    { key := link i, value := placeholderText (link (i + 1)), enabled := true }

/-- No name stands between two braces and two, and an enabled row has no name: it is not read.
And the placeholder behind ten variables is deeper than a variable may be, where it has no
value to fail over. -/
theorem unread_and_deep :
    (LastEnabled [namelessRow] (trim []) (units "x") ∧
      (((Resolver.new { local' := [namelessRow] }).resolve (placeholderText [])).run {}).map
        Prod.fst = .ok (placeholderText [])) ∧
    Reaches { local' := linkedRows } [] (segments (placeholderText (link 0)))
        ((List.range maxVariableDepth).map link) (link maxVariableDepth) ∧
      (((Resolver.new { local' := linkedRows }).resolve (placeholderText (link 0))).run {}).map
        Prod.fst = .ok (placeholderText (link maxVariableDepth)) := by
  refine ⟨⟨⟨[], namelessRow, [], rfl, rfl, rfl, rfl, ?_⟩, by decide +kernel⟩, ?_, by decide +kernel⟩
  · intro later hlater
    cases hlater
  · have hsegments : ∀ i ≤ maxVariableDepth,
        segments (placeholderText (link i)) = [.placeholder (link i)] := by decide +kernel
    have htrim : ∀ i ≤ maxVariableDepth, trim (link i) = link i := by decide +kernel
    have hfind : ∀ i < maxVariableDepth, (Resolver.new { local' := linkedRows }).find (link i) =
        some (.local', placeholderText (link (i + 1))) := by decide +kernel
    have hplain : ∀ i < maxVariableDepth, ¬ secretPrefix <+: link i ∧ link i ∉ dynamicNames := by
      decide +kernel
    -- Down the links: what one link reaches the one before it reaches through it.
    have hlinks : ∀ i ≤ maxVariableDepth,
        Reaches { local' := linkedRows } ((List.range i).map link)
          (segments (placeholderText (link i))) ((List.range maxVariableDepth).map link)
          (link maxVariableDepth) →
        Reaches { local' := linkedRows } [] (segments (placeholderText (link 0)))
          ((List.range maxVariableDepth).map link) (link maxVariableDepth) := by
      intro i
      induction i with
      | zero => exact fun _ h => h
      | succ i ih =>
          intro hi h
          refine ih (Nat.le_of_succ_le hi) ?_
          have hhere : .placeholder (link i) ∈ segments (placeholderText (link i)) := by
            rw [hsegments i (Nat.le_of_succ_le hi)]
            exact List.mem_singleton_self _
          rw [List.range_succ, List.map_append, List.map_singleton] at h
          rw [← htrim i (Nat.le_of_succ_le hi)] at h
          have hvariable : IsVariable { local' := linkedRows } (trim (link i)) .local'
              (placeholderText (link (i + 1))) := by
            rw [htrim i (Nat.le_of_succ_le hi)]
            exact ⟨(hplain i hi).1, (hplain i hi).2, Resolver.find_iff.mp (hfind i hi)⟩
          exact .through hhere hvariable h
    refine hlinks maxVariableDepth le_rfl (.here ?_)
    rw [hsegments maxVariableDepth le_rfl]
    exact List.mem_singleton_self _

end Wayfarer
