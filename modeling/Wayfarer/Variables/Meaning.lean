import Mathlib.Data.List.Infix
import Wayfarer.Variables.References

/-!
# What a text with variables means

The meaning of a text is said here without the resolver's recursion. A name means the value of the
last enabled row of the nearest scope that has one (`Nearest`); the placeholders of a text, and
those of the values they stand for, are the ones it reaches, each through a chain of variables
(`Reaches`); and a text stands for itself with every placeholder replaced (`Stands`). `Means` is
what a run of the resolver should come to: a failure where a variable is reached through itself or
through too many others, else what the text stands for, with exactly what it reaches noted down
(`Reports`).
-/

set_option autoImplicit false

namespace Wayfarer

open Library

/-! ## Values -/

/-- The value that rows give a name: that of the last enabled row of the name. -/
def LastEnabled (rows : List Row) (name value : Text) : Prop :=
  ∃ before row after, rows = before ++ row :: after ∧ row.enabled = true ∧ row.key = name ∧
    row.value = value ∧ ∀ later ∈ after, ¬ (later.enabled = true ∧ later.key = name)

/-- The value of a variable: that of the nearest scope with an enabled row of its name. A row
without a name is no variable. -/
def Nearest (stack : ScopeStack) (name : Text) (scope : VariableScope) (value : Text) : Prop :=
  name ≠ [] ∧ ∃ nearer farther, variableScopes = nearer ++ scope :: farther ∧
    LastEnabled (stack.rows scope) name value ∧
    ∀ other ∈ nearer, ∀ row ∈ stack.rows other, ¬ (row.enabled = true ∧ row.key = name)

/-- The name is a variable's: no secret's and no dynamic variable's, and a scope has it. -/
structure IsVariable (stack : ScopeStack) (name : Text) (scope : VariableScope) (value : Text) :
    Prop where
  plain : ¬ secretPrefix <+: name
  fixed : name ∉ dynamicNames
  nearest : Nearest stack name scope value

/-- The name could be a variable's, and no scope has it. -/
structure IsMissing (stack : ScopeStack) (name : Text) : Prop where
  plain : ¬ secretPrefix <+: name
  fixed : name ∉ dynamicNames
  none : ∀ scope value, ¬ Nearest stack name scope value

/-- A placeholder asks for the secret of an id. -/
def AsksFor (inside id : Text) : Prop :=
  trim inside = secretPrefix ++ id

theorem AsksFor.prefix' {inside id : Text} (h : AsksFor inside id) : secretPrefix <+: trim inside :=
  ⟨id, h.symm⟩

theorem AsksFor.unique {inside id id' : Text} (h : AsksFor inside id) (h' : AsksFor inside id') :
    id = id' :=
  List.append_cancel_left (h.symm.trans h')

/-- No dynamic variable's name starts as a secret's does. -/
theorem not_asks_of_dynamic {inside id : Text} (h : trim inside ∈ dynamicNames) :
    ¬ AsksFor inside id := by
  intro hasks
  have hall : ∀ name : Text, name ∈ dynamicNames → secretPrefix.isPrefixOf name = false := by decide
  have hsome := List.isPrefixOf_iff_prefix.mpr hasks.prefix'
  rw [hall _ h] at hsome
  cases hsome

/-- The rows by name give a name the value of its last enabled row. -/
theorem get?_variablesByName {rows : List Row} {name value : Text} :
    (variablesByName rows).get? name = some value ↔ name ≠ [] ∧ LastEnabled rows name value := by
  have hlast : (variablesByName rows).get? name =
      ((rows.filter fun row => (row.enabled && row.key ≠ []) && row.key = name).getLast?).map
        Row.value := by
    have hfilter : (rows.filter fun row => (row.enabled && row.key ≠ []) && row.key = name) =
        (rows.filter fun row => row.enabled && row.key ≠ []).filter fun row => row.key = name := by
      rw [List.filter_filter]
      apply List.filter_congr
      intro row _
      exact Bool.and_comm _ _
    rw [variablesByName, OrderedMap.get?_ofPairs, List.filter_map, List.getLast?_map,
      Option.map_map, hfilter]
    rfl
  rw [hlast, Option.map_eq_some_iff]
  constructor
  · rintro ⟨row, hrow, rfl⟩
    obtain ⟨before, after, rfl, hread, hafter⟩ := getLast?_filter_eq_some_iff.mp hrow
    simp only [Bool.and_eq_true, decide_eq_true_eq] at hread
    obtain ⟨⟨henabled, hne⟩, rfl⟩ := hread
    refine ⟨hne, before, row, after, rfl, henabled, rfl, rfl, fun later hlater h => ?_⟩
    have hskip := hafter later hlater
    simp [h.1, h.2, hne] at hskip
  · rintro ⟨hne, before, row, after, rfl, henabled, rfl, rfl, hafter⟩
    refine ⟨row, getLast?_filter_eq_some_iff.mpr ⟨before, after, rfl, ?_,
      fun later hlater => ?_⟩, rfl⟩
    · simp [henabled, hne]
    · have hskip := hafter later hlater
      by_contra hread
      simp only [Bool.not_eq_false, Bool.and_eq_true, decide_eq_true_eq] at hread
      exact hskip ⟨hread.1.1, hread.2⟩

/-- They give it none exactly where no enabled row has it. -/
theorem get?_variablesByName_eq_none_iff {rows : List Row} {name : Text} (hne : name ≠ []) :
    (variablesByName rows).get? name = none ↔
      ∀ row ∈ rows, ¬ (row.enabled = true ∧ row.key = name) := by
  constructor
  · intro hnone row hrow h
    have hlast : (rows.filter fun row => row.enabled && row.key = name).getLast? = none := by
      rw [Option.eq_none_iff_forall_ne_some]
      intro last hlast
      obtain ⟨before, after, rfl, hread, hafter⟩ := getLast?_filter_eq_some_iff.mp hlast
      simp only [Bool.and_eq_true, decide_eq_true_eq] at hread
      have hsome := get?_variablesByName.mpr ⟨hne, before, last, after, rfl, hread.1, hread.2, rfl,
        fun later hlater hboth => by simpa [hboth.1, hboth.2] using hafter later hlater⟩
      rw [hnone] at hsome
      cases hsome
    rw [List.getLast?_eq_none_iff, List.filter_eq_nil_iff] at hlast
    exact hlast row hrow (by simp [h.1, h.2])
  · intro hall
    rw [Option.eq_none_iff_forall_ne_some]
    intro value hsome
    obtain ⟨-, before, row, after, rfl, henabled, hkey, -⟩ := get?_variablesByName.mp hsome
    exact hall row (by simp) ⟨henabled, hkey⟩

namespace Resolver

variable {stack : ScopeStack} {secret : Text → Option Text} {dynamic : Nat → Text → Text}

/-- The resolver finds what the nearest scope says. -/
theorem find_iff {name value : Text} {scope : VariableScope} :
    (Resolver.new stack secret dynamic).find name = some (scope, value) ↔
      Nearest stack name scope value := by
  rw [find, Resolver.new, List.findSome?_map, List.findSome?_eq_some_iff]
  simp only [Function.comp_apply, Option.map_eq_some_iff, Option.map_eq_none_iff, Prod.mk.injEq]
  constructor
  · rintro ⟨nearer, found, farther, hscopes, ⟨value', hvalue, rfl, rfl⟩, hnearer⟩
    obtain ⟨hne, hlast⟩ := get?_variablesByName.mp hvalue
    exact ⟨hne, nearer, farther, hscopes, hlast, fun other hother =>
      (get?_variablesByName_eq_none_iff hne).mp (hnearer other hother)⟩
  · rintro ⟨hne, nearer, farther, hscopes, hlast, hnearer⟩
    exact ⟨nearer, scope, farther, hscopes,
      ⟨value, get?_variablesByName.mpr ⟨hne, hlast⟩, rfl, rfl⟩, fun other hother =>
      (get?_variablesByName_eq_none_iff hne).mpr (hnearer other hother)⟩

theorem find_eq_none_iff {name : Text} :
    (Resolver.new stack secret dynamic).find name = none ↔
      ∀ scope value, ¬ Nearest stack name scope value := by
  rw [Option.eq_none_iff_forall_ne_some]
  constructor
  · intro hnone scope value hnearest
    exact hnone _ (find_iff.mpr hnearest)
  · rintro hnone ⟨scope, value⟩ hfind
    exact hnone scope value (find_iff.mp hfind)

end Resolver

/-- A name has one value, in one scope. -/
theorem Nearest.unique {stack : ScopeStack} {name value value' : Text}
    {scope scope' : VariableScope}
    (h : Nearest stack name scope value) (h' : Nearest stack name scope' value') :
    scope = scope' ∧ value = value' := by
  have hfind := @Resolver.find_iff stack (fun _ => none) (fun _ _ => []) _ _ _ |>.mpr h
  rw [Resolver.find_iff.mpr h'] at hfind
  cases hfind
  exact ⟨rfl, rfl⟩

/-! ## What is reached -/

/-- A placeholder that parts of a text reach: one of them, or one that the value of a
variable among them reaches. `chain` is the variables that led to these parts, and to the
placeholder in the end. -/
inductive Reaches (stack : ScopeStack) : List Text → List Segment → List Text → Text → Prop where
  | here {chain : List Text} {parts : List Segment} {inside : Text}
      (hmem : .placeholder inside ∈ parts) : Reaches stack chain parts chain inside
  | through {chain chain' : List Text} {parts : List Segment} {outer inside value : Text}
      {scope : VariableScope} (hmem : .placeholder outer ∈ parts)
      (hvariable : IsVariable stack (trim outer) scope value)
      (hvalue : Reaches stack (chain ++ [trim outer]) (segments value) chain' inside) :
      Reaches stack chain parts chain' inside

/-- A placeholder of a kind is reached. -/
def Reached (stack : ScopeStack) (chain : List Text) (parts : List Segment)
    (kind : List Text → Text → Prop) : Prop :=
  ∃ chain' inside, Reaches stack chain parts chain' inside ∧ kind chain' inside

section Kinds

variable (stack : ScopeStack) (secret : Text → Option Text)

/-- A variable that is one of those that led to it, or that lies behind too many of them. -/
def NestsAlong (names chain : List Text) (inside : Text) : Prop :=
  (∃ scope value, IsVariable stack (trim inside) scope value) ∧
    (trim inside ∈ chain ∨ maxVariableDepth ≤ chain.length) ∧ names = chain ++ [trim inside]

/-- A name that is read as a variable's and has no value. -/
def MissesName (name : Text) (_ : List Text) (inside : Text) : Prop :=
  trim inside = name ∧ IsMissing stack name ∧ isPlainName name = true

/-- A secret that is not given. -/
def WithheldSecret (id : Text) (_ : List Text) (inside : Text) : Prop :=
  AsksFor inside id ∧ secret id = none

/-- A secret that is given, by its plaintext. -/
def PlacedSecret (plaintext : Text) (_ : List Text) (inside : Text) : Prop :=
  ∃ id, AsksFor inside id ∧ secret id = some plaintext

/-- A secret that is given, by what holds it: the last variable on the way to it, in its scope, or
the placeholder itself where no variable led to it. -/
def HeldSecret (holder : Text) (scope : Option VariableScope) (chain : List Text) (inside : Text) :
    Prop :=
  (∃ plaintext, PlacedSecret secret plaintext chain inside) ∧
    (chain = [] ∧ holder = placeholderText inside ∧ scope = none ∨
      ∃ before found value, chain = before ++ [holder] ∧ Nearest stack holder found value ∧
        scope = some found)

end Kinds

/-- What was noted down of some parts: what was there before, and what the parts reach. -/
structure Reports (stack : ScopeStack) (secret : Text → Option Text) (chain : List Text)
    (parts : List Segment) (f f' : Findings) : Prop where
  unresolved : ∀ name, name ∈ f'.unresolved ↔
    name ∈ f.unresolved ∨ Reached stack chain parts (MissesName stack name)
  lockedSecrets : ∀ id, id ∈ f'.lockedSecrets ↔
    id ∈ f.lockedSecrets ∨ Reached stack chain parts (WithheldSecret secret id)
  taint : ∀ plaintext, plaintext ∈ f'.taint ↔
    plaintext ∈ f.taint ∨ Reached stack chain parts (PlacedSecret secret plaintext)
  vaulted : ∀ holder scope, f'.vaulted.get? holder = some scope ↔
    Reached stack chain parts (HeldSecret stack secret holder scope) ∨
      (∀ other, ¬ Reached stack chain parts (HeldSecret stack secret holder other)) ∧
        f.vaulted.get? holder = some scope

/-! ## What a text stands for -/

/-- What the parts of a text stand for, where so many dynamic values were taken before and so many
are taken after. -/
inductive Stands (stack : ScopeStack) (secret : Text → Option Text)
    (dynamic : Nat → Text → Text) : List Segment → Nat → Text → Nat → Prop where
  | nil {n : Nat} : Stands stack secret dynamic [] n [] n
  | literal {c : CodeUnit} {rest : List Segment} {out : Text} {n n' : Nat}
      (hrest : Stands stack secret dynamic rest n out n') :
      Stands stack secret dynamic (.literal c :: rest) n (c :: out) n'
  | given {inside id plaintext out : Text} {rest : List Segment} {n n' : Nat}
      (hasks : AsksFor inside id) (hsecret : secret id = some plaintext)
      (hrest : Stands stack secret dynamic rest n out n') :
      Stands stack secret dynamic (.placeholder inside :: rest) n (plaintext ++ out) n'
  | locked {inside id out : Text} {rest : List Segment} {n n' : Nat}
      (hasks : AsksFor inside id) (hsecret : secret id = none)
      (hrest : Stands stack secret dynamic rest n out n') :
      Stands stack secret dynamic (.placeholder inside :: rest) n (placeholderText inside ++ out) n'
  | drawn {inside out : Text} {rest : List Segment} {n n' : Nat}
      (hname : trim inside ∈ dynamicNames)
      (hrest : Stands stack secret dynamic rest (n + 1) out n') :
      Stands stack secret dynamic (.placeholder inside :: rest) n
        (dynamic n (trim inside) ++ out) n'
  | variable' {inside value inner out : Text} {rest : List Segment} {scope : VariableScope}
      {n m n' : Nat} (hvariable : IsVariable stack (trim inside) scope value)
      (hvalue : Stands stack secret dynamic (segments value) n inner m)
      (hrest : Stands stack secret dynamic rest m out n') :
      Stands stack secret dynamic (.placeholder inside :: rest) n (inner ++ out) n'
  | missing {inside out : Text} {rest : List Segment} {n n' : Nat}
      (hmissing : IsMissing stack (trim inside))
      (hrest : Stands stack secret dynamic rest n out n') :
      Stands stack secret dynamic (.placeholder inside :: rest) n (placeholderText inside ++ out) n'

/-- What a run of the resolver over some parts comes to: a failure where they nest, else what they
stand for and what they reach. -/
def Means (stack : ScopeStack) (secret : Text → Option Text) (dynamic : Nat → Text → Text)
    (chain : List Text) (parts : List Segment) (f : Findings) :
    Except VariableNestingError (Text × Findings) → Prop
  | .error e => Reached stack chain parts (NestsAlong stack e.chain)
  | .ok (out, f') =>
      (∀ names, ¬ Reached stack chain parts (NestsAlong stack names)) ∧
        Stands stack secret dynamic parts f.drawn out f'.drawn ∧
        Reports stack secret chain parts f f'

/-! ## Parts one after the other -/

section Parts

variable {stack : ScopeStack} {secret : Text → Option Text} {dynamic : Nat → Text → Text}
  {chain : List Text} {part : Segment} {parts : List Segment} {kind : List Text → Text → Prop}

theorem Reached.mono {parts' : List Segment} (h : Reached stack chain parts kind)
    (hsub : parts ⊆ parts') : Reached stack chain parts' kind := by
  obtain ⟨chain', inside, hreaches, hkind⟩ := h
  refine ⟨chain', inside, ?_, hkind⟩
  cases hreaches with
  | here hmem => exact .here (hsub hmem)
  | through hmem hvariable hvalue => exact .through (hsub hmem) hvariable hvalue

theorem not_reached_nil : ¬ Reached stack chain [] kind := by
  rintro ⟨chain', inside, hreaches, -⟩
  cases hreaches with
  | here hmem => cases hmem
  | through hmem => cases hmem

/-- What parts reach is what the first reaches and what the others reach. -/
theorem reached_cons : Reached stack chain (part :: parts) kind ↔
    Reached stack chain [part] kind ∨ Reached stack chain parts kind := by
  constructor
  · rintro ⟨chain', inside, hreaches, hkind⟩
    cases hreaches with
    | here hmem =>
        rcases List.mem_cons.mp hmem with rfl | hmem
        · exact .inl ⟨_, _, .here List.mem_cons_self, hkind⟩
        · exact .inr ⟨_, _, .here hmem, hkind⟩
    | through hmem hvariable hvalue =>
        rcases List.mem_cons.mp hmem with rfl | hmem
        · exact .inl ⟨_, _, .through List.mem_cons_self hvariable hvalue, hkind⟩
        · exact .inr ⟨_, _, .through hmem hvariable hvalue, hkind⟩
  · rintro (h | h)
    · exact h.mono (by simp)
    · exact h.mono (List.subset_cons_self part parts)

theorem not_reached_literal {c : CodeUnit} : ¬ Reached stack chain [.literal c] kind := by
  rintro ⟨chain', inside, hreaches, -⟩
  cases hreaches with
  | here hmem => simp at hmem
  | through hmem => simp at hmem

/-- A placeholder that is no variable's reaches itself only. -/
theorem reached_leaf {inside : Text}
    (hleaf : ∀ scope value, ¬ IsVariable stack (trim inside) scope value) :
    Reached stack chain [.placeholder inside] kind ↔ kind chain inside := by
  constructor
  · rintro ⟨chain', other, hreaches, hkind⟩
    cases hreaches with
    | here hmem =>
        obtain rfl := Segment.placeholder.inj (List.mem_singleton.mp hmem)
        exact hkind
    | through hmem hvariable hvalue =>
        obtain rfl := Segment.placeholder.inj (List.mem_singleton.mp hmem)
        exact absurd hvariable (hleaf _ _)
  · intro hkind
    exact ⟨chain, inside, .here List.mem_cons_self, hkind⟩

/-- A variable's placeholder reaches itself and what the value reaches. -/
theorem reached_variable {inside value : Text} {scope : VariableScope}
    (hvariable : IsVariable stack (trim inside) scope value) :
    Reached stack chain [.placeholder inside] kind ↔
      kind chain inside ∨ Reached stack (chain ++ [trim inside]) (segments value) kind := by
  constructor
  · rintro ⟨chain', other, hreaches, hkind⟩
    cases hreaches with
    | here hmem =>
        obtain rfl := Segment.placeholder.inj (List.mem_singleton.mp hmem)
        exact .inl hkind
    | through hmem hvariable' hvalue =>
        obtain rfl := Segment.placeholder.inj (List.mem_singleton.mp hmem)
        obtain ⟨-, rfl⟩ := hvariable.nearest.unique hvariable'.nearest
        exact .inr ⟨_, _, hvalue, hkind⟩
  · rintro (hkind | ⟨chain', other, hvalue, hkind⟩)
    · exact ⟨chain, inside, .here List.mem_cons_self, hkind⟩
    · exact ⟨chain', other, .through List.mem_cons_self hvariable hvalue, hkind⟩

theorem Stands.append {n m n' : Nat} {first rest : Text}
    (hfirst : Stands stack secret dynamic [part] n first m)
    (hrest : Stands stack secret dynamic parts m rest n') :
    Stands stack secret dynamic (part :: parts) n (first ++ rest) n' := by
  cases hfirst with
  | literal hnil =>
      cases hnil
      exact .literal hrest
  | given hasks hsecret hnil =>
      cases hnil
      rw [List.append_nil]
      exact .given hasks hsecret hrest
  | locked hasks hsecret hnil =>
      cases hnil
      rw [List.append_nil]
      exact .locked hasks hsecret hrest
  | drawn hname hnil =>
      cases hnil
      rw [List.append_nil]
      exact .drawn hname hrest
  | variable' hvariable hvalue hnil =>
      cases hnil
      rw [List.append_nil]
      exact .variable' hvariable hvalue hrest
  | missing hmissing hnil =>
      cases hnil
      rw [List.append_nil]
      exact .missing hmissing hrest

/-- The parts of a text stand for one text. The cases of a placeholder exclude each other. -/
theorem Stands.unique {n m m' : Nat} {out out' : Text}
    (h : Stands stack secret dynamic parts n out m)
    (h' : Stands stack secret dynamic parts n out' m') : out = out' ∧ m = m' := by
  -- A segment is of one kind only, so both derivations end in the same rule.
  induction h generalizing out' m' with
  | nil =>
      cases h'
      exact ⟨rfl, rfl⟩
  | literal hrest ih =>
      cases h' with
      | literal hrest' =>
          obtain ⟨rfl, rfl⟩ := ih hrest'
          exact ⟨rfl, rfl⟩
  | given hasks hsecret hrest ih =>
      cases h' with
      | given hasks' hsecret' hrest' =>
          rw [← hasks.unique hasks', hsecret] at hsecret'
          obtain ⟨rfl, rfl⟩ := ih hrest'
          exact ⟨by rw [Option.some.inj hsecret'], rfl⟩
      | locked hasks' hsecret' hrest' =>
          rw [← hasks.unique hasks', hsecret] at hsecret'
          cases hsecret'
      | drawn hname => exact absurd hasks (not_asks_of_dynamic hname)
      | variable' hvariable => exact absurd hasks.prefix' hvariable.plain
      | missing hmissing => exact absurd hasks.prefix' hmissing.plain
  | locked hasks hsecret hrest ih =>
      cases h' with
      | given hasks' hsecret' hrest' =>
          rw [← hasks.unique hasks', hsecret] at hsecret'
          cases hsecret'
      | locked hasks' hsecret' hrest' =>
          obtain ⟨rfl, rfl⟩ := ih hrest'
          exact ⟨rfl, rfl⟩
      | drawn hname => exact absurd hasks (not_asks_of_dynamic hname)
      | variable' hvariable => exact absurd hasks.prefix' hvariable.plain
      | missing hmissing => exact absurd hasks.prefix' hmissing.plain
  | drawn hname hrest ih =>
      cases h' with
      | given hasks => exact absurd hasks (not_asks_of_dynamic hname)
      | locked hasks => exact absurd hasks (not_asks_of_dynamic hname)
      | drawn _ hrest' =>
          obtain ⟨rfl, rfl⟩ := ih hrest'
          exact ⟨rfl, rfl⟩
      | variable' hvariable => exact absurd hname hvariable.fixed
      | missing hmissing => exact absurd hname hmissing.fixed
  | variable' hvariable hvalue hrest ihvalue ihrest =>
      cases h' with
      | given hasks => exact absurd hasks.prefix' hvariable.plain
      | locked hasks => exact absurd hasks.prefix' hvariable.plain
      | drawn hname => exact absurd hname hvariable.fixed
      | variable' hvariable' hvalue' hrest' =>
          obtain ⟨-, rfl⟩ := hvariable.nearest.unique hvariable'.nearest
          obtain ⟨rfl, rfl⟩ := ihvalue hvalue'
          obtain ⟨rfl, rfl⟩ := ihrest hrest'
          exact ⟨rfl, rfl⟩
      | missing hmissing => exact absurd hvariable.nearest (hmissing.none _ _)
  | missing hmissing hrest ih =>
      cases h' with
      | given hasks => exact absurd hasks.prefix' hmissing.plain
      | locked hasks => exact absurd hasks.prefix' hmissing.plain
      | drawn hname => exact absurd hname hmissing.fixed
      | variable' hvariable => exact absurd hvariable.nearest (hmissing.none _ _)
      | missing _ hrest' =>
          obtain ⟨rfl, rfl⟩ := ih hrest'
          exact ⟨rfl, rfl⟩

end Parts

/-! ## Holders -/

/-- No brace opens in the names that led to some parts, or between the braces of
their placeholders. -/
structure Braceless (chain : List Text) (parts : List Segment) : Prop where
  chain : ∀ name ∈ chain, openBrace ∉ name
  parts : ∀ inside, .placeholder inside ∈ parts → openBrace ∉ inside

theorem not_mem_trim {inside : Text} (h : openBrace ∉ inside) : openBrace ∉ trim inside := by
  obtain ⟨w, w', -, -, heq⟩ := exists_white_append_trim inside
  intro hmem
  rw [heq] at h
  exact h (List.mem_append_left _ (List.mem_append_right _ hmem))

theorem openBrace_not_mem_inside {t inside : Text} (h : .placeholder inside ∈ segments t) :
    openBrace ∉ inside := by
  intro hmem
  have hbrace := (mem_segments_iff.mp h).1 openBrace hmem
  exact absurd hbrace (by decide)

theorem Braceless.next {chain : List Text} {parts : List Segment} {inside : Text}
    (h : Braceless chain parts) (hmem : .placeholder inside ∈ parts) (value : Text) :
    Braceless (chain ++ [trim inside]) (segments value) where
  chain name hname := by
    rcases List.mem_append.mp hname with hname | hname
    · exact h.chain name hname
    · rw [List.mem_singleton.mp hname]
      exact not_mem_trim (h.parts inside hmem)
  parts _ := openBrace_not_mem_inside

theorem Braceless.reaches {stack : ScopeStack} {chain chain' : List Text} {parts : List Segment}
    {inside : Text} (h : Braceless chain parts)
    (hreaches : Reaches stack chain parts chain' inside) :
    ∀ name ∈ chain', openBrace ∉ name := by
  induction hreaches with
  | here hmem => exact h.chain
  | through hmem hvariable hvalue ih => exact ih (h.next hmem _)

section Holders

variable {stack : ScopeStack} {secret : Text → Option Text} {chain : List Text}
  {parts : List Segment}

/-- What is held is held in one scope. A placeholder as it is written is no variable's name, for a
name holds no brace. -/
theorem heldSecret_unique (h : Braceless chain parts) {holder : Text}
    {scope scope' : Option VariableScope}
    (hheld : Reached stack chain parts (HeldSecret stack secret holder scope))
    (hheld' : Reached stack chain parts (HeldSecret stack secret holder scope')) :
    scope = scope' := by
  obtain ⟨chain₁, inside, hreaches, -, hkind⟩ := hheld
  obtain ⟨chain₂, inside', hreaches', -, hkind'⟩ := hheld'
  have hopen : ∀ (i : Text) (before chain' : List Text), chain' = before ++ [placeholderText i] →
      (∀ name ∈ chain', openBrace ∉ name) → False := by
    rintro i before _ rfl hall
    exact hall _ (List.mem_append_right _ List.mem_cons_self) List.mem_cons_self
  rcases hkind with ⟨-, hholder, rfl⟩ | ⟨before, found, value, hchain, hnearest, rfl⟩
  · rcases hkind' with ⟨-, -, rfl⟩ | ⟨before, found, value, hchain, -⟩
    · rfl
    · rw [hholder] at hchain
      exact (hopen _ _ _ hchain (h.reaches hreaches')).elim
  · rcases hkind' with ⟨-, hholder, -⟩ | ⟨before', found', value', -, hnearest', rfl⟩
    · rw [hholder] at hchain
      exact (hopen _ _ _ hchain (h.reaches hreaches)).elim
    · rw [(hnearest.unique hnearest').1]

/-- What was noted down of the first part and then of the others was noted down of all of them. -/
theorem Reports.append {part : Segment} {f g f' : Findings}
    (hbraceless : Braceless chain (part :: parts)) (hfirst : Reports stack secret chain [part] f g)
    (hrest : Reports stack secret chain parts g f') :
    Reports stack secret chain (part :: parts) f f' where
  unresolved name := by
    rw [hrest.unresolved, hfirst.unresolved, @reached_cons _ _ part parts, or_assoc]
  lockedSecrets id := by
    rw [hrest.lockedSecrets, hfirst.lockedSecrets, @reached_cons _ _ part parts, or_assoc]
  taint plaintext := by
    rw [hrest.taint, hfirst.taint, @reached_cons _ _ part parts, or_assoc]
  vaulted holder scope := by
    rw [hrest.vaulted, hfirst.vaulted]
    constructor
    · rintro (hheld | ⟨hnone, hheld | ⟨hnone', hold⟩⟩)
      · exact .inl (reached_cons.mpr (.inr hheld))
      · exact .inl (reached_cons.mpr (.inl hheld))
      · refine .inr ⟨fun other hheld => ?_, hold⟩
        rcases reached_cons.mp hheld with hheld | hheld
        · exact hnone' other hheld
        · exact hnone other hheld
    · rintro (hheld | ⟨hnone, hold⟩)
      · -- A later part that holds the same holds it in the same scope.
        by_cases hlater : ∃ other, Reached stack chain parts (HeldSecret stack secret holder other)
        · obtain ⟨other, hother⟩ := hlater
          obtain rfl := heldSecret_unique hbraceless hheld (reached_cons.mpr (.inr hother))
          exact .inl hother
        · rcases reached_cons.mp hheld with hheld | hheld
          · exact .inr ⟨fun other hother => hlater ⟨other, hother⟩, .inl hheld⟩
          · exact .inl hheld
      · exact .inr ⟨fun other hother => hnone other (reached_cons.mpr (.inr hother)),
          .inr ⟨fun other hother => hnone other (reached_cons.mpr (.inl hother)), hold⟩⟩

end Holders

end Wayfarer
