import Mathlib.Data.Fintype.Card
import Mathlib.Data.List.Sort
import Wayfarer.Library.Chain
import Wayfarer.Library.Json
import Wayfarer.Library.Mutable
import Wayfarer.Library.OrderedMap
import Wayfarer.Library.Percent
import Wayfarer.Library.Replace

/-!
# The references of an OpenAPI description

A file is read as a graph: its lists and objects stand at addresses, and a value is a plain one or
an address. A file of JSON is a tree of them; a file of YAML may lead to one object from several
places, and back to an object from inside it.

`resolve` follows a chain of references, `sample` makes a value that fits a schema. Both are run
with fuel, which is counted down at every turn of the loop and at every schema inside a schema.
`references_end` says that they end with any fuel above a number that the file gives, what
`resolve` ends with, and how many schemas one sample opens at most.
-/

set_option autoImplicit false

namespace Wayfarer.OpenApi

open Library

/-! ## Files -/

/-- A value of a file: a plain one, or the list or object at an address. -/
inductive Value (Addr : Type) where
  | null
  | bool (b : Bool)
  | number (n : JsonNumber)
  /-- A number that JSON cannot write, as the language writes it. -/
  | notFinite (written : Text)
  | string (t : Text)
  | at (address : Addr)

/-- What stands at an address. -/
inductive Cell (Addr : Type) where
  | array (items : List (Value Addr))
  /-- The own fields, in the order the language lists them. -/
  | object (fields : List (Text × Value Addr))

/-- A file that was read. -/
structure File (Addr : Type) where
  root : Value Addr
  cell : Addr → Cell Addr

variable {Addr : Type}

/-- An own field of an object. -/
def field (fields : List (Text × Value Addr)) (key : Text) : Option (Value Addr) :=
  (fields.find? fun entry => entry.1 = key).map Prod.snd

namespace File

variable (file : File Addr)

/-- An object, as its address and its fields. -/
def object? : Option (Value Addr) → Option (Addr × List (Text × Value Addr))
  | some (.at address) =>
      match file.cell address with
      | .array _ => none
      | .object fields => some (address, fields)
  | _ => none

/-- `list`: the items of a list, and none of anything else. -/
def list : Option (Value Addr) → List (Value Addr)
  | some (.at address) =>
      match file.cell address with
      | .array items => items
      | .object _ => []
  | _ => []

/-! ## Pointers -/

/-- A part of a pointer as the text it stands for. -/
def decoded (part : Text) : Text :=
  (decodeURIComponent part).getD part

/-- The key that a part of a pointer names. -/
def keyOf (part : Text) : Text :=
  replaceAll (units "~0") (units "~") (replaceAll (units "~1") (units "/") (decoded part))

/-- A key that is only digits, as the index of a list. -/
def indexOf (key : Text) : Option Nat :=
  if key ≠ [] ∧ key.all (fun c => decide (0x30 ≤ c ∧ c ≤ 0x39)) then some (digitsValue key)
  else none

/-- One part of a pointer, from a value on. -/
def part (value : Value Addr) (part : Text) : Option (Value Addr) :=
  match value with
  | .at address =>
      match file.cell address with
      | .array items => (indexOf (keyOf part)).bind fun index => items[index]?
      | .object fields => field fields (keyOf part)
  | _ => none

/-- `at`: the value that a JSON pointer names in the file. -/
def pointed (pointer : Text) : Option (Value Addr) :=
  ((splitOn 0x2F pointer).drop 1).foldlM file.part file.root

/-! ## References -/

/-- The text of a reference: an object's `$ref`, where that is a text. -/
def reference (value : Option (Value Addr)) : Option Text :=
  match file.object? value with
  | none => none
  | some (_, fields) =>
      match field fields (units "$ref") with
      | some (.string ref) => some ref
      | _ => none

end File

/-- The references met that lead nowhere the app goes. -/
structure Noted where
  outside : OrderedSet Text := .empty
  missing : OrderedSet Text := .empty

/-- `note("outside", …)`. -/
def Noted.noteOutside (noted : Noted) (ref : Text) : Noted :=
  { noted with outside := noted.outside.add (ref.take 200) }

/-- `note("missing", …)`. -/
def Noted.noteMissing (noted : Noted) (ref : Text) : Noted :=
  { noted with missing := noted.missing.add (ref.take 200) }

/-- What is noted of a reference that is not a pointer into the file. -/
def Noted.noteAway (noted : Noted) (ref : Text) : Noted :=
  if (units "#").isPrefixOf ref then noted.noteMissing ref else noted.noteOutside ref

/-- A reference that points inside the file. -/
def isInside (ref : Text) : Bool :=
  ref = units "#" || (units "#/").isPrefixOf ref

namespace File

variable (file : File Addr)

/-- The loop of `resolve`: the references followed so far, the value reached and what is noted.
`none` is out of fuel. -/
def follow : Nat → OrderedSet Text → Option (Value Addr) → Noted →
    Option (Option (Value Addr) × Noted)
  | 0, _, _, _ => none
  | fuel + 1, followed, value, noted =>
      match file.reference value with
      | none => some (value, noted)
      | some ref =>
          if isInside ref = false then some (none, noted.noteAway ref)
          else if ref ∈ followed then some (none, noted.noteMissing ref)
          else
            match file.pointed (ref.drop 1) with
            | none => some (none, noted.noteMissing ref)
            | some next => follow fuel (followed.add ref) (some next) noted

/-- `resolve`: a value of the file, with a reference followed to what it names. -/
def resolve (fuel : Nat) (value : Option (Value Addr)) (noted : Noted) :
    Option (Option (Value Addr) × Noted) :=
  file.follow fuel .empty value noted

end File

/-! ## Samples -/

/-- The most schemas one sample opens. -/
def sampleValues : Nat := 1000

/-- Schemas in schemas: one nested deeper is not read. -/
def maxDepth : Nat := 64

/-- What a text is sampled as when its schema names a format a server checks. -/
def formats : List (Text × Text) :=
  [(units "date", units "2026-01-01"),
    (units "date-time", units "2026-01-01T00:00:00Z"),
    (units "uuid", units "00000000-0000-4000-8000-000000000000"),
    (units "email", units "user@example.com"),
    (units "uri", units "https://example.com")]

/-- A sample: a value of the file or a plain one, or a list or object made of samples. -/
inductive Sample (Addr : Type) where
  | value (v : Value Addr)
  | list (items : List (Sample Addr))
  | object (members : List (Text × Sample Addr))

/-- The own fields in the order the language lists them: first the keys that are an index. -/
def ownOrder {α : Type} (fields : List (Text × α)) : List (Text × α) :=
  let isIndex (key : Text) : Bool :=
    (File.indexOf key).any fun n => decide (n < 2 ^ 32 - 1) && key = units (toString n)
  (fields.filter fun field => isIndex field.1).insertionSort
      (fun a b => digitsValue a.1 ≤ digitsValue b.1) ++
    fields.filter fun field => !isIndex field.1

/-- `Object.fromEntries`: a later pair of a key wins. -/
def fromEntries {α : Type} (pairs : List (Text × α)) : List (Text × α) :=
  ownOrder (OrderedMap.ofPairs pairs).entries

/-- Why a computation does not give a value. -/
inductive Halt where
  /-- It is run with too little fuel. -/
  | fuel
  /-- The language's `TypeError`: JSON is made of a value that holds itself. -/
  | circular
  deriving DecidableEq

/-- The variables of one sample. -/
structure Sampling (Addr : Type) where
  /-- How many schemas may still be opened. -/
  left : Int
  /-- The schemas that are open. -/
  trail : List Addr
  noted : Noted
  /-- How many schemas have been opened. -/
  opened : Nat

namespace File

section

variable (file : File Addr)

/-- `JSON.stringify`, as far as lists and objects nest no deeper than `depth`. -/
def stringify : Nat → Value Addr → Option Text
  | _, .null => some (units "null")
  | _, .bool b => some (if b then units "true" else units "false")
  | _, .number n => some n.text
  | _, .notFinite _ => some (units "null")
  | _, .string t => some (jsonString t)
  | 0, .at _ => none
  | depth + 1, .at address =>
      match file.cell address with
      | .array items =>
          (items.mapM (stringify depth)).map fun written =>
            units "[" ++ joinWith (units ",") written ++ units "]"
      | .object fields =>
          (fields.mapM fun entry =>
            (stringify depth entry.2).map fun written =>
              jsonString entry.1 ++ units ":" ++ written).map fun written =>
            units "\x7b" ++ joinWith (units ",") written ++ units "\x7d"

/-- `text`: a value as text. What holds itself nests deeper than there are addresses. -/
def text [Fintype Addr] : Option (Value Addr) → Mutates (Sampling Addr) Halt Text
  | none => pure []
  | some .null => pure []
  | some (.bool b) => pure (if b then units "true" else units "false")
  | some (.number n) => pure n.text
  | some (.notFinite written) => pure written
  | some (.string t) => pure t
  | some (.at address) =>
      match file.stringify (Fintype.card Addr + 1) (.at address) with
      | none => throw .circular
      | some written => pure written

/-- `resolve` inside a sample. -/
def resolved (fuel : Nat) (value : Option (Value Addr)) :
    Mutates (Sampling Addr) Halt (Option (Value Addr)) := fun s =>
  match file.resolve fuel value s.noted with
  | none => (.error .fuel, s)
  | some (found, noted) => (.ok found, { s with noted })

/-- What a schema itself gives: an example, a default or a constant, or the first of a list. -/
def given (schema : List (Text × Value Addr)) : Option (Value Addr) :=
  (field schema (units "example")).orElse fun _ =>
    (field schema (units "default")).orElse fun _ =>
      (field schema (units "const")).orElse fun _ =>
        ((file.list (field schema (units "examples"))).head?).orElse fun _ =>
          (file.list (field schema (units "enum"))).head?

/-- An object among samples, as its entries. -/
def entries : Sample Addr → Option (List (Text × Sample Addr))
  | .value v => (file.object? (some v)).map fun found =>
      found.2.map fun entry => (entry.1, .value entry.2)
  | .list _ => none
  | .object members => some members

end

/-- Whether a schema is opened: one may still be, it is not nested too deep and not open already.
The count goes down whatever the answer. -/
def admits [DecidableEq Addr] (address : Addr) (depth : Nat) : Mutates (Sampling Addr) Halt Bool :=
  fun s =>
    (.ok (decide (0 < s.left) && decide (depth ≤ maxDepth) && decide (address ∉ s.trail)),
      { s with left := s.left - 1 })

/-- `open.add` before and `open.delete` after. -/
def within [DecidableEq Addr] {α : Type} (address : Addr) (x : Mutates (Sampling Addr) Halt α) :
    Mutates (Sampling Addr) Halt α :=
  ensuring
    (do
      modify fun s => { s with trail := address :: s.trail, opened := s.opened + 1 }
      x)
    fun s => { s with trail := s.trail.erase address }

section

variable [Fintype Addr] [DecidableEq Addr] (file : File Addr)

/-- A value made from a schema's type. `inner` samples a schema inside this one. -/
def typed (inner : Option (Value Addr) → Mutates (Sampling Addr) Halt (Sample Addr)) (fill : Bool)
    (schema : List (Text × Value Addr)) : Mutates (Sampling Addr) Halt (Sample Addr) := do
  let types := field schema (units "type")
  let type : Option Text :=
    match types with
    | some (.string t) => some t
    | some (.at address) =>
        match file.cell address with
        | .array items =>
            match items.find? fun entry =>
              match entry with
              | .string t => t ≠ units "null"
              | _ => true with
            | some (.string t) => some t
            | _ => none
        | .object _ => none
    | _ => none
  if type = some (units "array") ∨ (field schema (units "items")).isSome then
    match ← inner (field schema (units "items")) with
    | .value .null => pure (.list [])
    | one => pure (.list [one])
  else if type = some (units "object") then pure (.object [])
  else if fill = false then pure (.value .null)
  else if type = some (units "string") then do
    let format ← file.text (field schema (units "format"))
    pure (.value (.string (((formats.find? fun entry => entry.1 = format).map Prod.snd).getD
      (units "string"))))
  else if type = some (units "integer") ∨ type = some (units "number") then
    pure (.value (.number ⟨units "0", JsonNumber.marks_zero⟩))
  else if type = some (units "boolean") then pure (.value (.bool true))
  else pure (.value .null)

/-- The samples of the properties of a schema that are sent: what only a response holds is not. -/
def sent (inner : Option (Value Addr) → Mutates (Sampling Addr) Halt (Sample Addr)) (fuel : Nat)
    (properties : List (Text × Value Addr)) :
    Mutates (Sampling Addr) Halt (List (Text × Sample Addr)) := do
  let kept ← properties.mapM fun entry => do
    let property ← file.resolved fuel (field properties entry.1)
    match file.object? property with
    | none => pure (some entry.1)
    | some (_, fields) =>
        match field fields (units "readOnly") with
        | some (.bool true) => pure none
        | _ => pure (some entry.1)
  (kept.filterMap id).mapM fun key => do
    let one ← inner (field properties key)
    pure (key, one)

/-- The samples that are put together: of each schema of `allOf`, and of the properties. -/
def parts (inner : Option (Value Addr) → Mutates (Sampling Addr) Halt (Sample Addr)) (fuel : Nat)
    (schema : List (Text × Value Addr)) : Mutates (Sampling Addr) Halt (List (Sample Addr)) := do
  let all ← (file.list (field schema (units "allOf"))).mapM fun part => inner (some part)
  match file.object? (field schema (units "properties")) with
  | none => pure all
  | some (_, properties) => do
      let members ← file.sent inner fuel properties
      pure (all ++ [.object (fromEntries members)])

/-- A value made from what an opened schema holds. -/
def made (inner : Option (Value Addr) → Mutates (Sampling Addr) Halt (Sample Addr)) (fuel : Nat)
    (fill : Bool) (schema : List (Text × Value Addr)) :
    Mutates (Sampling Addr) Halt (Sample Addr) := do
  match ← file.parts inner fuel schema with
  | first :: rest =>
      let objects := (first :: rest).filterMap file.entries
      if objects.isEmpty then pure first else pure (.object (fromEntries objects.flatten))
  | [] =>
      match (file.list (field schema (units "oneOf")) ++
          file.list (field schema (units "anyOf"))).head? with
      | some choice => inner (some choice)
      | none => file.typed inner fill schema

/-- `of`: a value that fits a schema, so deep inside the schema that is sampled. -/
def sampleOf (fill : Bool) : Nat → Option (Value Addr) → Nat →
    Mutates (Sampling Addr) Halt (Sample Addr)
  | 0, _, _ => throw .fuel
  | fuel + 1, raw, depth => do
      match file.object? (← file.resolved fuel raw) with
      | none => pure (.value .null)
      | some (address, schema) => do
          if ← admits address depth then
            match file.given schema with
            | some v => pure (.value v)
            | none =>
                within address
                  (file.made (fun raw => sampleOf fill fuel raw (depth + 1)) fuel fill schema)
          else pure (.value .null)

/-- `sample`: what it gives and leaves, with what has been noted before. -/
def sample (fuel : Nat) (source : Option (Value Addr)) (fill : Bool) (noted : Noted) :
    Except Halt (Sample Addr) × Sampling Addr :=
  (file.sampleOf fill fuel source 0).runFrom
    { left := sampleValues, trail := [], noted, opened := 0 }

end

end File

/-! ## Chains of references -/

namespace File

section

open Relation

variable {file : File Addr}

/-- A reference leads to the value that it names inside the file. -/
def Leads (file : File Addr) (v w : Value Addr) : Prop :=
  ∃ ref, file.reference (some v) = some ref ∧ isInside ref = true ∧
    file.pointed (ref.drop 1) = some w

theorem rightUnique_leads : Relator.RightUnique file.Leads := by
  rintro v w w' ⟨ref, href, -, hw⟩ ⟨ref', href', -, hw'⟩
  obtain rfl := Option.some.inj (href.symm.trans href')
  exact Option.some.inj (hw.symm.trans hw')

/-- What leads nowhere is the end of its chain. -/
theorem eq_of_not_leads {v w : Value Addr} (hend : ∀ next, ¬ file.Leads v next)
    (h : ReflTransGen file.Leads v w) : w = v := by
  rcases ReflTransGen.cases_head h with heq | ⟨next, hnext, -⟩
  · exact heq.symm
  · exact absurd hnext (hend next)

/-- The loop gives the end of the chain from a value, and nothing where the chain has none. Each
reference followed before leads to the value the loop has reached. -/
theorem follow_eq_some_iff {fuel : Nat} {followed : OrderedSet Text} {v : Value Addr}
    {noted noted' : Noted} {found : Option (Value Addr)}
    (hrun : file.follow fuel followed (some v) noted = some (found, noted'))
    (hfollowed : ∀ ref ∈ followed, ∃ u, file.pointed (ref.drop 1) = some u ∧
      ReflTransGen file.Leads u v) (w : Value Addr) :
    found = some w ↔ ReflTransGen file.Leads v w ∧ file.reference (some w) = none := by
  induction fuel generalizing followed v noted with
  | zero => nomatch hrun
  | succ fuel ih =>
      rw [follow] at hrun
      cases href : file.reference (some v) with
      | none =>
          simp only [href, Option.some.injEq, Prod.mk.injEq] at hrun
          obtain ⟨rfl, -⟩ := hrun
          constructor
          · rintro heq
            obtain rfl := Option.some.inj heq
            exact ⟨.refl, href⟩
          · rintro ⟨hreach, -⟩
            rw [eq_of_not_leads _ hreach]
            rintro next ⟨ref, href', -⟩
            simp [href] at href'
      | some ref =>
          -- A value that leads on is not the end, and one that leads nowhere has no end.
          have hnone : (∀ next, ¬ file.Leads v next) →
              ¬ (ReflTransGen file.Leads v w ∧ file.reference (some w) = none) := by
            rintro hend ⟨hreach, hlast⟩
            rw [eq_of_not_leads hend hreach, href] at hlast
            nomatch hlast
          simp only [href] at hrun
          split_ifs at hrun with hinside hmem
          · cases hrun
            refine iff_of_false (fun h => nomatch h) (hnone ?_)
            rintro next ⟨ref', href', hinside', -⟩
            obtain rfl := Option.some.inj (href.symm.trans href')
            simp [hinside] at hinside'
          · cases hrun
            refine iff_of_false (fun h => nomatch h) ?_
            rintro ⟨hreach, hlast⟩
            obtain ⟨u, hu, hback⟩ := hfollowed ref hmem
            have hnext : file.Leads v u := ⟨ref, href, by simpa using hinside, hu⟩
            have hring : TransGen file.Leads v v := TransGen.head' hnext hback
            obtain ⟨next, ref', href', -⟩ := not_end_of_ring rightUnique_leads hring hreach
            simp [hlast] at href'
          · cases hpointed : file.pointed (ref.drop 1) with
            | none =>
                simp only [hpointed] at hrun
                cases hrun
                refine iff_of_false (fun h => nomatch h) (hnone ?_)
                rintro next ⟨ref', href', -, hnext⟩
                obtain rfl := Option.some.inj (href.symm.trans href')
                rw [hpointed] at hnext
                nomatch hnext
            | some next =>
                simp only [hpointed] at hrun
                have hnext : file.Leads v next := ⟨ref, href, by simpa using hinside, hpointed⟩
                rw [ih hrun]
                · constructor
                  · exact fun h => ⟨.head hnext h.1, h.2⟩
                  · rintro ⟨hreach, hlast⟩
                    refine ⟨?_, hlast⟩
                    rcases ReflTransGen.cases_head hreach with rfl | ⟨other, hother, hrest⟩
                    · rw [href] at hlast
                      nomatch hlast
                    · rwa [rightUnique_leads hnext hother]
                · intro ref' href'
                  rcases OrderedSet.mem_add.mp href' with rfl | hbefore
                  · exact ⟨next, hpointed, .refl⟩
                  · obtain ⟨u, hu, hreach⟩ := hfollowed ref' hbefore
                    exact ⟨u, hu, hreach.tail hnext⟩

/-- More fuel gives the same. -/
theorem follow_succ {fuel : Nat} {followed : OrderedSet Text} {value : Option (Value Addr)}
    {noted : Noted} {result : Option (Value Addr) × Noted}
    (hrun : file.follow fuel followed value noted = some result) :
    file.follow (fuel + 1) followed value noted = some result := by
  induction fuel generalizing followed value noted with
  | zero => nomatch hrun
  | succ fuel ih =>
      rw [follow] at hrun ⊢
      cases href : file.reference value with
      | none => simpa [href] using hrun
      | some ref =>
          simp only [href] at hrun ⊢
          split_ifs at hrun ⊢ with hinside hmem
          · exact hrun
          · exact hrun
          · cases hpointed : file.pointed (ref.drop 1) with
            | none =>
                simp only [hpointed] at hrun ⊢
                exact hrun
            | some next =>
                simp only [hpointed] at hrun ⊢
                exact ih hrun

end

/-! ## The chain ends -/

section

variable [Fintype Addr] {file : File Addr}

/-- The texts of the references that stand in the file. -/
def references (file : File Addr) : Finset (Option Text) :=
  Finset.univ.image fun address => file.reference (some (.at address))

theorem reference_mem_references {value : Option (Value Addr)} {ref : Text}
    (href : file.reference value = some ref) : some ref ∈ file.references := by
  rw [references, Finset.mem_image]
  match value, href with
  | some (.at address), href => exact ⟨address, Finset.mem_univ _, href⟩

/-- Fewer references are followed than there are addresses. -/
theorem length_followed_le {followed : OrderedSet Text}
    (h : ∀ ref ∈ followed, some ref ∈ file.references) :
    followed.members.length ≤ Fintype.card Addr := by
  have hnodup : (followed.members.map some).Nodup :=
    followed.nodup.map (Option.some_injective Text)
  calc followed.members.length
      = (followed.members.map some).toFinset.card := by
        rw [List.toFinset_card_of_nodup hnodup, List.length_map]
    _ ≤ file.references.card := by
        apply Finset.card_le_card
        intro ref href
        obtain ⟨ref', href', rfl⟩ := List.mem_map.mp (List.mem_toFinset.mp href)
        exact h ref' href'
    _ ≤ Fintype.card Addr := Finset.card_image_le

/-- The loop ends: each turn follows one reference more. -/
theorem exists_follow {fuel : Nat} {followed : OrderedSet Text} {value : Option (Value Addr)}
    {noted : Noted} (h : ∀ ref ∈ followed, some ref ∈ file.references)
    (hfuel : Fintype.card Addr < fuel + followed.members.length) :
    ∃ result, file.follow fuel followed value noted = some result := by
  induction fuel generalizing followed value noted with
  | zero => exact absurd (length_followed_le h) (by omega)
  | succ fuel ih =>
      rw [follow]
      cases href : file.reference value with
      | none => exact ⟨_, rfl⟩
      | some ref =>
          simp only
          split_ifs with hinside hmem
          · exact ⟨_, rfl⟩
          · exact ⟨_, rfl⟩
          · cases file.pointed (ref.drop 1) with
            | none => exact ⟨_, rfl⟩
            | some next =>
                apply ih
                · intro ref' href'
                  rcases OrderedSet.mem_add.mp href' with rfl | hbefore
                  · exact reference_mem_references href
                  · exact h ref' hbefore
                · have hlength : (followed.add ref).members.length =
                      followed.members.length + 1 := by
                    rw [OrderedSet.add, dif_neg (mt OrderedSet.mem_def.mpr hmem),
                      List.length_append, List.length_singleton]
                  omega

/-- `resolve` ends with any fuel that is more than there are addresses. -/
theorem exists_resolve {fuel : Nat} (hfuel : Fintype.card Addr < fuel)
    (value : Option (Value Addr)) (noted : Noted) :
    ∃ result, file.resolve fuel value noted = some result :=
  exists_follow (by simp) (Nat.lt_add_right _ hfuel)

/-- More fuel gives the same. -/
theorem resolve_succ {fuel : Nat} (hfuel : Fintype.card Addr < fuel) (value : Option (Value Addr))
    (noted : Noted) : file.resolve (fuel + 1) value noted = file.resolve fuel value noted := by
  obtain ⟨result, hresult⟩ := exists_resolve hfuel value noted
  rw [hresult]
  exact follow_succ hresult

end

/-! ## What one sample opens -/

/-- The schemas that are open are what they were, and each that was opened was one of those that
might be. -/
def Spends (s s' : Sampling Addr) : Prop :=
  s'.trail = s.trail ∧ s'.opened + s'.left.toNat ≤ s.opened + s.left.toNat

/-- The same for a schema whose own opening is paid for already. -/
def Opens (s s' : Sampling Addr) : Prop :=
  s'.trail = s.trail ∧ s'.opened + s'.left.toNat ≤ s.opened + s.left.toNat + 1

theorem spends_refl (s : Sampling Addr) : Spends s s := ⟨rfl, le_rfl⟩

theorem spends_trans (a b c : Sampling Addr) (hab : Spends a b) (hbc : Spends b c) :
    Spends a c :=
  ⟨hbc.1.trans hab.1, hbc.2.trans hab.2⟩

section

variable {P : Halt → Prop} {α : Type}

theorem leaves_opened (a : α) :
    Leaves Spends P (pure a : Mutates (Sampling Addr) Halt α) :=
  leaves_pure spends_refl a

section

variable [Fintype Addr] {file : File Addr}

theorem leaves_text (hcircular : P .circular) (value : Option (Value Addr)) :
    Leaves Spends P (file.text value) := by
  rcases value with _ | (_ | b | n | written | t | address)
  · exact leaves_opened _
  · exact leaves_opened _
  · exact leaves_opened _
  · exact leaves_opened _
  · exact leaves_opened _
  · exact leaves_opened _
  · rw [text]
    cases file.stringify (Fintype.card Addr + 1) (.at address) with
    | none => exact leaves_throw spends_refl hcircular
    | some written => exact leaves_opened _

theorem leaves_resolved {fuel : Nat} (hfuel : P .fuel ∨ Fintype.card Addr < fuel)
    (value : Option (Value Addr)) : Leaves Spends P (file.resolved fuel value) := by
  intro s
  have hrun : (file.resolved fuel value).runFrom s =
      match file.resolve fuel value s.noted with
      | none => (.error .fuel, s)
      | some (found, noted) => (.ok found, { s with noted }) := rfl
  rw [hrun]
  cases hresolve : file.resolve fuel value s.noted with
  | none =>
      refine ⟨spends_refl s, fun e he => ?_⟩
      obtain rfl := Except.error.inj he
      rcases hfuel with hP | hfuel
      · exact hP
      · obtain ⟨result, hresult⟩ := @exists_resolve _ _ file _ hfuel value s.noted
        rw [hresolve] at hresult
        nomatch hresult
  | some result => exact ⟨⟨rfl, le_rfl⟩, fun e he => nomatch he⟩

end

section

variable [Fintype Addr] {file : File Addr}
  {inner : Option (Value Addr) → Mutates (Sampling Addr) Halt (Sample Addr)}

theorem leaves_typed (hcircular : P .circular) (hinner : ∀ raw, Leaves Spends P (inner raw))
    (fill : Bool) (schema : List (Text × Value Addr)) :
    Leaves Spends P (file.typed inner fill schema) := by
  rw [typed]
  split_ifs
  · apply leaves_bind spends_trans (hinner _)
    intro one
    split
    · exact leaves_opened _
    · exact leaves_opened _
  · exact leaves_opened _
  · exact leaves_opened _
  · apply leaves_bind spends_trans (leaves_text hcircular _)
    intro format
    exact leaves_opened _
  · exact leaves_opened _
  · exact leaves_opened _
  · exact leaves_opened _

theorem leaves_sent {fuel : Nat} (hfuel : P .fuel ∨ Fintype.card Addr < fuel)
    (hinner : ∀ raw, Leaves Spends P (inner raw)) (properties : List (Text × Value Addr)) :
    Leaves Spends P (file.sent inner fuel properties) := by
  rw [sent]
  apply leaves_bind spends_trans
  · apply leaves_mapM spends_refl spends_trans
    intro entry _
    apply leaves_bind spends_trans (leaves_resolved hfuel _)
    intro property
    split
    · exact leaves_opened _
    · split
      · exact leaves_opened _
      · exact leaves_opened _
  · intro kept
    apply leaves_mapM spends_refl spends_trans
    intro key _
    apply leaves_bind spends_trans (hinner _)
    intro one
    exact leaves_opened _

theorem leaves_parts {fuel : Nat} (hfuel : P .fuel ∨ Fintype.card Addr < fuel)
    (hinner : ∀ raw, Leaves Spends P (inner raw)) (schema : List (Text × Value Addr)) :
    Leaves Spends P (file.parts inner fuel schema) := by
  rw [parts]
  apply leaves_bind spends_trans
    (leaves_mapM spends_refl spends_trans fun part _ => hinner (some part))
  intro all
  split
  · exact leaves_opened _
  · apply leaves_bind spends_trans (leaves_sent hfuel hinner _)
    intro members
    exact leaves_opened _

theorem leaves_made {fuel : Nat} (hcircular : P .circular)
    (hfuel : P .fuel ∨ Fintype.card Addr < fuel) (hinner : ∀ raw, Leaves Spends P (inner raw))
    (fill : Bool) (schema : List (Text × Value Addr)) :
    Leaves Spends P (file.made inner fuel fill schema) := by
  rw [made]
  apply leaves_bind spends_trans (leaves_parts hfuel hinner schema)
  intro found
  split
  · dsimp only
    split_ifs
    · exact leaves_opened _
    · exact leaves_opened _
  · split
    · exact hinner _
    · exact leaves_typed hcircular hinner fill schema

end

variable [DecidableEq Addr]

/-- A schema that is admitted has its opening paid for. -/
theorem leaves_admits {address : Addr} {depth : Nat} {f : Bool → Mutates (Sampling Addr) Halt α}
    (hopened : depth ≤ maxDepth → Leaves Opens P (f true))
    (hclosed : Leaves Spends P (f false)) : Leaves Spends P (admits address depth >>= f) := by
  intro s
  rw [runFrom_bind]
  have hadmits : (admits address depth).runFrom s =
      (.ok (decide (0 < s.left) && decide (depth ≤ maxDepth) && decide (address ∉ s.trail)),
        { s with left := s.left - 1 }) := rfl
  rw [hadmits]
  dsimp only
  cases hanswer : decide (0 < s.left) && decide (depth ≤ maxDepth) &&
    decide (address ∉ s.trail) with
  | true =>
      simp only [Bool.and_eq_true, decide_eq_true_eq] at hanswer
      obtain ⟨⟨hleft, hdepth⟩, -⟩ := hanswer
      obtain ⟨⟨htrail, hcount⟩, hthrown⟩ := hopened hdepth { s with left := s.left - 1 }
      refine ⟨⟨htrail, ?_⟩, hthrown⟩
      dsimp only at hcount
      omega
  | false =>
      obtain ⟨⟨htrail, hcount⟩, hthrown⟩ := hclosed { s with left := s.left - 1 }
      refine ⟨⟨htrail, ?_⟩, hthrown⟩
      dsimp only at hcount
      omega

/-- A schema is closed again, and has been counted. -/
theorem leaves_within {address : Addr} {x : Mutates (Sampling Addr) Halt α}
    (hx : Leaves Spends P x) : Leaves Opens P (within address x) := by
  intro s
  obtain ⟨⟨htrail, hcount⟩, hthrown⟩ :=
    hx { s with trail := address :: s.trail, opened := s.opened + 1 }
  refine ⟨⟨?_, ?_⟩, hthrown⟩
  · calc _ = (address :: s.trail).erase address := congrArg (List.erase · address) htrail
      _ = s.trail := List.erase_cons_head ..
  · calc _ ≤ _ := hcount
      _ = _ := by dsimp only; omega

variable [Fintype Addr] {file : File Addr}

/-- A schema inside a schema: it ends with fuel for every depth that is left, and one for the
references. -/
theorem leaves_sampleOf (hcircular : P .circular) (fill : Bool) {fuel : Nat}
    (raw : Option (Value Addr)) {depth : Nat}
    (hfuel : P .fuel ∨ Fintype.card Addr + 1 + (maxDepth + 1 - depth) < fuel) :
    Leaves Spends P (file.sampleOf fill fuel raw depth) := by
  induction fuel generalizing raw depth with
  | zero =>
      rcases hfuel with hP | hfuel
      · exact leaves_throw spends_refl hP
      · exact absurd hfuel (Nat.not_lt_zero _)
  | succ fuel ih =>
      rw [sampleOf]
      apply leaves_bind spends_trans (leaves_resolved (hfuel.imp_right fun h => by omega) raw)
      intro found
      split
      · exact leaves_opened _
      · rename_i address schema _
        apply leaves_admits
        · intro hdepth
          rw [if_pos rfl]
          split
          · intro s
            exact ⟨⟨rfl, Nat.le_succ _⟩, fun e he => nomatch he⟩
          · apply leaves_within
            exact leaves_made hcircular (hfuel.imp_right fun h => by omega)
              (fun raw => ih raw (hfuel.imp_right fun h => by omega)) fill schema
        · rw [if_neg Bool.false_ne_true]
          exact leaves_opened _

end

/-! ## The sample ends -/

section

variable [Fintype Addr] [DecidableEq Addr] {file : File Addr}

omit [Fintype Addr] in
/-- What is not admitted makes no difference. -/
theorem admits_bind_congr {α : Type} {address : Addr} {depth : Nat}
    {f g : Bool → Mutates (Sampling Addr) Halt α} (htrue : depth ≤ maxDepth → f true = g true)
    (hfalse : f false = g false) : admits address depth >>= f = admits address depth >>= g := by
  by_cases hdepth : depth ≤ maxDepth
  · have hfg : f = g := by
      funext answer
      cases answer with
      | true => exact htrue hdepth
      | false => exact hfalse
    rw [hfg]
  · apply funext
    intro s
    have hadmits :
        (admits address depth).runFrom s = (.ok false, { s with left := s.left - 1 }) := by
      change (Except.ok _, _) = _
      rw [decide_eq_false hdepth, Bool.and_false, Bool.false_and]
    have hrun : ∀ h : Bool → Mutates (Sampling Addr) Halt α,
        (admits address depth >>= h).runFrom s =
          (h false).runFrom { s with left := s.left - 1 } := by
      intro h
      rw [runFrom_bind, hadmits]
    exact (hrun f).trans (by rw [hfalse]; exact (hrun g).symm)

omit [DecidableEq Addr] in
theorem made_congr {inner inner' : Option (Value Addr) → Mutates (Sampling Addr) Halt (Sample Addr)}
    {fuel fuel' : Nat} (hinner : inner = inner') (hfuel : file.resolved fuel = file.resolved fuel')
    (fill : Bool) (schema : List (Text × Value Addr)) :
    file.made inner fuel fill schema = file.made inner' fuel' fill schema := by
  have hsent : file.sent inner' fuel = file.sent inner' fuel' := by
    funext properties
    rw [sent, sent, hfuel]
  rw [hinner, made, made, parts, parts, hsent]

omit [DecidableEq Addr] in
theorem resolved_succ {fuel : Nat} (hfuel : Fintype.card Addr < fuel) :
    file.resolved (fuel + 1) = file.resolved fuel := by
  funext value s
  rw [resolved, resolved, resolve_succ hfuel]

/-- More fuel gives the same sample. -/
theorem sampleOf_succ (fill : Bool) {fuel : Nat} (raw : Option (Value Addr)) {depth : Nat}
    (hfuel : Fintype.card Addr + 1 + (maxDepth + 1 - depth) < fuel) :
    file.sampleOf fill (fuel + 1) raw depth = file.sampleOf fill fuel raw depth := by
  induction fuel generalizing raw depth with
  | zero => exact absurd hfuel (Nat.not_lt_zero _)
  | succ fuel ih =>
      have hresolved : file.resolved (fuel + 1) = file.resolved fuel := resolved_succ (by omega)
      rw [sampleOf, sampleOf, hresolved]
      congr 1
      funext found
      cases file.object? found with
      | none => rfl
      | some object =>
          apply admits_bind_congr
          · intro hdepth
            have hinner : (fun raw => file.sampleOf fill (fuel + 1) raw (depth + 1)) =
                fun raw => file.sampleOf fill fuel raw (depth + 1) := by
              funext raw
              exact ih raw (by omega)
            rw [made_congr hinner hresolved]
          · rw [if_neg Bool.false_ne_true, if_neg Bool.false_ne_true]

/-- The fuel that every sample of a file ends with. -/
def enough (Addr : Type) [Fintype Addr] : Nat :=
  Fintype.card Addr + maxDepth + 3

/-- From there on the fuel makes no difference. -/
theorem sample_eq {fuel : Nat} (hfuel : enough Addr ≤ fuel) (source : Option (Value Addr))
    (fill : Bool) (noted : Noted) :
    file.sample fuel source fill noted = file.sample (enough Addr) source fill noted := by
  induction fuel, hfuel using Nat.le_induction with
  | base => rfl
  | succ fuel hle ih =>
      rw [← ih, sample, sample, sampleOf_succ]
      rw [enough] at hle
      omega

end

end File

/-- Following the references of a file ends. `resolve` gives one result with every fuel that is
more than the file's addresses: the first value of the chain that is no reference, and nothing where
the chain has no such value. `sample` gives one result too, a sample or the language's own error,
and has opened no more schemas than its limit, whatever the fuel. -/
theorem references_end [Fintype Addr] [DecidableEq Addr] (file : File Addr) :
    (∀ value noted, ∃ found noted', (∀ fuel, Fintype.card Addr < fuel →
        file.resolve fuel value noted = some (found, noted')) ∧
      ∀ w, found = some w ↔
        ∃ v, value = some v ∧ Relation.ReflTransGen file.Leads v w ∧
          file.reference (some w) = none) ∧
    ∀ source fill noted,
      (∀ fuel, (file.sample fuel source fill noted).2.opened ≤ sampleValues) ∧
      ∃ outcome, outcome.1 ≠ .error .fuel ∧ ∀ fuel, File.enough Addr ≤ fuel →
        file.sample fuel source fill noted = outcome := by
  refine ⟨fun value noted => ?_, fun source fill noted => ⟨fun fuel => ?_, ?_⟩⟩
  · obtain ⟨⟨found, noted'⟩, hresult⟩ :=
      @File.exists_resolve _ _ file _ (Nat.lt_succ_self (Fintype.card Addr)) value noted
    refine ⟨found, noted', fun fuel hfuel => ?_, fun w => ?_⟩
    · induction fuel, hfuel using Nat.le_induction with
      | base => exact hresult
      | succ fuel hle ih => rw [File.resolve_succ hle, ih]
    · cases value with
      | none =>
          cases hresult
          simp
      | some v =>
          rw [File.follow_eq_some_iff hresult (by simp) w]
          simp
  · have hspent : Leaves File.Spends (fun _ => True) (file.sampleOf fill fuel source 0) :=
      File.leaves_sampleOf trivial fill source (.inl trivial)
    have hcount := (hspent { left := sampleValues, trail := [], noted, opened := 0 }).1.2
    simp only [Int.toNat_natCast, Nat.zero_add] at hcount
    exact (Nat.le_add_right _ _).trans hcount
  · refine ⟨file.sample (File.enough Addr) source fill noted, fun hfuel => ?_,
      fun fuel hle => File.sample_eq hle source fill noted⟩
    have hends : Leaves File.Spends (· ≠ Halt.fuel)
        (file.sampleOf fill (File.enough Addr) source 0) := by
      apply File.leaves_sampleOf (by decide) fill source (.inr _)
      rw [File.enough]
      omega
    exact (hends _).2 _ hfuel rfl

end Wayfarer.OpenApi
