import Wayfarer.Library.Percent
import Wayfarer.Model.Variables

/-!
# The variable resolver

`Resolver.resolve` puts the value of each variable in the place of its placeholder: two
braces, a name, two braces. A name is looked up in the scopes nearest first; a value may
hold placeholders of its own; a name that starts with `$secret.` is asked of the vault,
and its plaintext is used as it is. What has no value stays as written.

One resolver is used for every text of one request, so what it notes down on the way
(`Findings`) describes the whole request.
-/

set_option autoImplicit false

namespace Wayfarer

open Library

/-! ## Scopes -/

/-- Where a variable's value comes from. -/
inductive VariableScope where
  | local'
  | data
  | environment
  | folder
  | collection
  | global
  deriving DecidableEq

/-- The scopes, nearest first: a nearer scope hides a farther one. -/
def variableScopes : List VariableScope :=
  [.local', .data, .environment, .folder, .collection, .global]

/-- The rows of each scope. -/
structure ScopeStack where
  local' : List Row := []
  data : List Row := []
  environment : List Row := []
  folder : List Row := []
  collection : List Row := []
  global : List Row := []
  deriving DecidableEq

/-- The rows of a scope. -/
def ScopeStack.rows (stack : ScopeStack) : VariableScope → List Row
  | .local' => stack.local'
  | .data => stack.data
  | .environment => stack.environment
  | .folder => stack.folder
  | .collection => stack.collection
  | .global => stack.global

/-- How many variables a value may pass through before it is text. -/
def maxVariableDepth : Nat := 10

/-! ## Placeholders -/

/-- The opening brace. -/
def openBrace : CodeUnit := 0x7B

/-- The closing brace. -/
def closeBrace : CodeUnit := 0x7D

/-- No brace: what may stand in a placeholder. -/
def isNoBrace (c : CodeUnit) : Bool :=
  c ≠ openBrace && c ≠ closeBrace

/-- The placeholder at the start of a text: what stands between its braces, and what
follows it. -/
def placeholderAt (t : Text) : Option (Text × Text) :=
  match t with
  | a :: b :: rest =>
      if a = openBrace ∧ b = openBrace then
        match rest.dropWhile isNoBrace with
        | c :: d :: after =>
            if c = closeBrace ∧ d = closeBrace then some (rest.takeWhile isNoBrace, after)
            else none
        | _ => none
      else none
  | _ => none

/-- A part of a text. -/
inductive Segment where
  /-- A character that is in no placeholder. -/
  | literal (c : CodeUnit)
  /-- A placeholder, as what stands between its braces. -/
  | placeholder (inside : Text)
  deriving DecidableEq

/-- A placeholder as it is written. -/
def placeholderText (inside : Text) : Text :=
  openBrace :: openBrace :: inside ++ [closeBrace, closeBrace]

/-- The parts of a text of at most `steps` of them, read from left to right. -/
def segmentsIn : Nat → Text → List Segment
  | 0, _ => []
  | _ + 1, [] => []
  | steps + 1, c :: rest =>
      match placeholderAt (c :: rest) with
      | some (inside, after) => .placeholder inside :: segmentsIn steps after
      | none => .literal c :: segmentsIn steps rest

/-- The parts of a text. It has no more of them than characters. -/
def segments (t : Text) : List Segment :=
  segmentsIn t.length t

/-- A letter, a digit or an underscore. -/
def isWordUnit (c : CodeUnit) : Bool :=
  isAlphanumeric c.toNat || c = 0x5F

/-- A name that is always read as a variable's: letters, digits, `_`, `.` and `-`, and a
dollar sign first. -/
def isPlainName (name : Text) : Bool :=
  let rest := if units "$" <+: name then name.drop 1 else name
  rest ≠ [] && rest.all fun c => isWordUnit c || c = 0x2E || c = 0x2D

/-- The names of the dynamic variables. Each use gives a new value. -/
def dynamicNames : List Text :=
  [units "$guid", units "$randomUUID", units "$timestamp", units "$isoTimestamp",
    units "$randomInt", units "$randomAlphaNumeric"]

/-! ## Resolving -/

/-- Variables that refer to each other in a circle, or through too many steps. -/
structure VariableNestingError where
  /-- The names in the order they were followed. -/
  chain : List Text
  deriving DecidableEq

/-- What a resolver notes down while it replaces placeholders. -/
structure Findings where
  /-- The plaintext of every secret placed into a text. -/
  taint : OrderedSet Text := .empty
  /-- Names with no value in any scope. -/
  unresolved : OrderedSet Text := .empty
  /-- Ids of secrets that were referenced and not given. -/
  lockedSecrets : OrderedSet Text := .empty
  /-- Each variable whose value was a secret that was given, with its scope. -/
  vaulted : OrderedMap Text (Option VariableScope) := .empty
  /-- How many dynamic values were taken. -/
  drawn : Nat := 0

instance : Inhabited Findings := ⟨{}⟩

/-- A resolver: the scopes as they were when it was made, the vault's plaintext by id, and
what the clock and the random source give at each use. -/
structure Resolver where
  scopes : List (VariableScope × OrderedMap Text Text)
  secret : Text → Option Text
  dynamic : Nat → Text → Text

/-- A resolver over the given scopes. -/
def Resolver.new (stack : ScopeStack) (secret : Text → Option Text := fun _ => none)
    (dynamic : Nat → Text → Text := fun _ _ => []) : Resolver :=
  { scopes := variableScopes.map fun scope => (scope, variablesByName (stack.rows scope)),
    secret, dynamic }

/-- A computation that resolves texts. -/
abbrev Resolve := StateT Findings (Except VariableNestingError)

namespace Resolver

/-- The value of a name, and the scope that has it. -/
def find (r : Resolver) (name : Text) : Option (VariableScope × Text) :=
  r.scopes.findSome? fun (scope, values) => (values.get? name).map fun value => (scope, value)

/-- What stands in the place of one placeholder. `chain` is the variables whose values led
to this text; `follow` resolves the value of a variable that was found. -/
def replacement (r : Resolver) (chain : List Text) (follow : Text → Text → Resolve Text)
    (inside : Text) : Resolve Text := do
  let name := trim inside
  if secretPrefix.isPrefixOf name then
    let id := name.drop secretPrefix.length
    match r.secret id with
    | none =>
        modify fun f => { f with lockedSecrets := f.lockedSecrets.add id }
        return placeholderText inside
    | some plaintext =>
        let holder := chain.getLast?
        modify fun f => { f with
          taint := f.taint.add plaintext
          vaulted := f.vaulted.set (holder.getD (placeholderText inside))
            (holder.bind fun name => (r.find name).map Prod.fst) }
        return plaintext
  else if dynamicNames.contains name then
    let f ← get
    set { f with drawn := f.drawn + 1 }
    return r.dynamic f.drawn name
  else
    match r.find name with
    | none =>
        if isPlainName name then
          modify fun f => { f with unresolved := f.unresolved.add name }
        return placeholderText inside
    | some (_, value) => follow name value

/-- A text with each placeholder replaced. -/
def replaceAll (replace : Text → Resolve Text) (t : Text) : Resolve Text := do
  let parts ← (segments t).mapM fun
    | .literal c => pure [c]
    | .placeholder inside => replace inside
  return parts.flatten

/-- A text with its placeholders replaced, through at most `left` more variables. `chain` is
the variables that led to this text: `left` and its length are `maxVariableDepth` together. -/
def expand (r : Resolver) : Nat → List Text → Text → Resolve Text
  | 0, chain, t =>
      replaceAll (r.replacement chain fun name _ => throw ⟨chain ++ [name]⟩) t
  | left + 1, chain, t =>
      replaceAll
        (r.replacement chain fun name value =>
          if chain.contains name then throw ⟨chain ++ [name]⟩
          else r.expand left (chain ++ [name]) value)
        t

/-- `text` with its variables replaced. -/
def resolve (r : Resolver) (t : Text) : Resolve Text :=
  r.expand maxVariableDepth [] t

end Resolver

end Wayfarer
