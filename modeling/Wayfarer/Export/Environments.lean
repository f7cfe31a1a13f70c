import Wayfarer.Import.CollectionFile
import Wayfarer.Send.Transmit
import Wayfarer.Variables.References

/-!
# Environments as a file

`serializeEnvironmentExport` writes environments as one value: each variable with what the export
says of protected values (`exportedValue`), in the order of the environments, every object's members
in alphabetical order. Stripped, the file names no vault secret where no name of it does, and no
value leaves one when its references are taken out (`stripped_names_no_secret_iff`).

The strings of the value are the texts of the file: a resolver reads no other.
-/

set_option autoImplicit false

namespace Wayfarer

open Library

/-- What an environments file holds of a protected variable. -/
inductive ProtectedValues where
  /-- Nothing: the file has no secret and no reference to one. -/
  | strip
  /-- The reference, with the vault, still encrypted, beside it in the file. -/
  | references (vault : Option Json)
  /-- The secret's plaintext, by its id. -/
  | plain (plaintexts : OrderedMap Text Text)

/-- A text with each reference replaced by what stands for its secret. -/
def replaceReferences (replace : Text → Text) (t : Text) : Text :=
  (parts secretReferenceAt t).flatMap (Sum.elim (fun c => [c]) replace)

/-- What a file holds of a variable's value: each reference to a vault secret in it, also one inside
other text, as the export says. -/
def exportedValue (protectedValues : ProtectedValues) (t : Text) : Text :=
  match protectedValues with
  | .references _ => t
  | .plain plaintexts => replaceReferences (fun id => (plaintexts.get? id).getD []) t
  | .strip => replaceReferences (fun _ => []) t

/-- A stored environment: its variables, and its other members as they are. -/
structure Environment where
  doc : OrderedMap Text Json
  vars : List Row
  /-- The variables are held apart. -/
  apart : doc.get? (units "vars") = none

/-- A member set that is not the variables. -/
def Environment.setMember (env : Environment) (key : Text) (value : Json)
    (h : key ≠ units "vars") : Environment :=
  { env with
    doc := env.doc.set key value
    apart := by rw [OrderedMap.get?_set, if_neg h, env.apart] }

/-- An environment that names itself, by its key where it does not. -/
def ensureEnvId (env : Environment) : Environment :=
  match prop (env.doc.get? (units "meta")) (units "id") with
  | some id =>
      if truthy (env.doc.get? (units "id")) = false ∧ truthy (some id) = true then
        env.setMember (units "id") id (by decide)
      else env
  | none => env

/-- Environments as a file has them: in their order, each with an id. -/
def prepareEnvironments (F : FilePlatform) (environments : List Environment) : List Environment :=
  (environments.insertionSort fun a b => beforeOrSame F a.doc.entries b.doc.entries = true).map
    ensureEnvId

/-- An environment as it is written, its values as given. -/
def Environment.written (value : Text → Text) (env : Environment) : Json :=
  .object (env.doc.entries ++
    [(units "vars", rowsJson (env.vars.map fun row => { row with value := value row.value }))])

mutual

/-- The same value with every object's members in alphabetical order. -/
def sortKeys (F : FilePlatform) : Json → Json
  | .array items => .array (sortItems F items)
  | .object members =>
      .object ((sortMembers F members).insertionSort fun a b => F.localeCompare a.1 b.1 ≠ .gt)
  | value => value

/-- The items of a list, each with its members in order. -/
def sortItems (F : FilePlatform) : List Json → List Json
  | [] => []
  | item :: items => sortKeys F item :: sortItems F items

/-- The members of an object, each with its own members in order. -/
def sortMembers (F : FilePlatform) : List (Text × Json) → List (Text × Json)
  | [] => []
  | member :: members => (member.1, sortKeys F member.2) :: sortMembers F members

end

/-- What marks a file of environments. -/
def environmentsFormat : Text := units "wayfarer/environments"

/-- The vault beside the references to it. -/
def vaultMember : ProtectedValues → Fields
  | .references (some vault) => [(units "vault", vault)]
  | _ => []

/-- Environments as a file. -/
def serializeEnvironmentExport (F : FilePlatform) (environments : List Environment)
    (protectedValues : ProtectedValues) : Json :=
  sortKeys F (.object ([(units "$id", .string environmentsFormat),
    (units "environments", .array ((prepareEnvironments F environments).map
      (Environment.written (exportedValue protectedValues))))] ++ vaultMember protectedValues))

/-! ## The texts of a file -/

/-- No text of a value holds a placeholder that the resolver looks up in the vault. -/
def NamesNoSecret (value : Json) : Prop :=
  ∀ t ∈ value.strings, ¬ NamesSecret t

mutual

/-- The order of the members is all that is changed. -/
theorem mem_strings_sortKeys (F : FilePlatform) (t : Text) :
    ∀ value : Json, t ∈ (sortKeys F value).strings ↔ t ∈ value.strings
  | .null => Iff.rfl
  | .bool _ => Iff.rfl
  | .number _ => Iff.rfl
  | .infinite _ => Iff.rfl
  | .string _ => Iff.rfl
  | .array items => by
      rw [sortKeys, Json.mem_strings_array, Json.mem_strings_array]
      exact mem_strings_sortItems F t items
  | .object members => by
      rw [sortKeys, Json.mem_strings_object, Json.mem_strings_object]
      simp only [List.mem_insertionSort]
      exact mem_strings_sortMembers F t members

theorem mem_strings_sortItems (F : FilePlatform) (t : Text) :
    ∀ items : List Json,
      (∃ v ∈ sortItems F items, t ∈ v.strings) ↔ ∃ v ∈ items, t ∈ v.strings
  | [] => Iff.rfl
  | item :: items => by
      rw [sortItems, List.exists_mem_cons_iff, List.exists_mem_cons_iff,
        mem_strings_sortKeys F t item, mem_strings_sortItems F t items]

theorem mem_strings_sortMembers (F : FilePlatform) (t : Text) :
    ∀ members : List (Text × Json),
      (∃ m ∈ sortMembers F members, t = m.1 ∨ t ∈ m.2.strings) ↔
        ∃ m ∈ members, t = m.1 ∨ t ∈ m.2.strings
  | [] => Iff.rfl
  | (name, value) :: members => by
      rw [sortMembers, List.exists_mem_cons_iff, List.exists_mem_cons_iff,
        mem_strings_sortKeys F t value, mem_strings_sortMembers F t members]

end

theorem namesNoSecret_sortKeys {F : FilePlatform} {value : Json} :
    NamesNoSecret (sortKeys F value) ↔ NamesNoSecret value :=
  forall_congr' fun t => imp_congr (mem_strings_sortKeys F t value) Iff.rfl

theorem namesNoSecret_string {t : Text} : NamesNoSecret (.string t) ↔ ¬ NamesSecret t := by
  simp [NamesNoSecret]

theorem namesNoSecret_array {items : List Json} :
    NamesNoSecret (.array items) ↔ ∀ v ∈ items, NamesNoSecret v := by
  constructor
  · intro h v hv t ht
    exact h t (Json.mem_strings_array.mpr ⟨v, hv, ht⟩)
  · intro h t ht
    obtain ⟨v, hv, htext⟩ := Json.mem_strings_array.mp ht
    exact h v hv t htext

theorem namesNoSecret_object {members : List (Text × Json)} :
    NamesNoSecret (.object members) ↔
      ∀ m ∈ members, ¬ NamesSecret m.1 ∧ NamesNoSecret m.2 := by
  constructor
  · intro h m hm
    constructor
    · exact h m.1 (Json.mem_strings_object.mpr ⟨m, hm, .inl rfl⟩)
    · intro t ht
      exact h t (Json.mem_strings_object.mpr ⟨m, hm, .inr ht⟩)
  · intro h t ht
    obtain ⟨m, hm, rfl | htext⟩ := Json.mem_strings_object.mp ht
    · exact (h m hm).1
    · exact (h m hm).2 t htext

/-- A text with no brace names nothing. -/
theorem not_namesSecret_of_not_mem {t : Text} (h : openBrace ∉ t) : ¬ NamesSecret t := by
  rintro ⟨inside, hmem, -⟩
  exact h (openBrace_mem_of_placeholder hmem)

/-! ## What is written of an environment -/

theorem exportedValue_strip (t : Text) : exportedValue .strip t = erased secretReferenceAt t := by
  rw [exportedValue, replaceReferences, erased]
  induction parts secretReferenceAt t with
  | nil => rfl
  | cons part rest ih =>
      cases part with
      | inl c => exact congrArg (c :: ·) ih
      | inr id => exact ih

theorem namesNoSecret_rowJson {row : Row} :
    NamesNoSecret (rowJson row) ↔ ¬ NamesSecret row.key ∧ ¬ NamesSecret row.value := by
  have hplain : ∀ name ∈ [units "key", units "value", units "enabled", units "json"],
      ¬ NamesSecret name := by
    have hno : ∀ name ∈ [units "key", units "value", units "enabled", units "json"],
        openBrace ∉ name := by decide
    exact fun name hname => not_namesSecret_of_not_mem (hno name hname)
  have hbool : ∀ b, NamesNoSecret (.bool b) := by
    intro b t ht
    cases b <;> cases ht
  rw [rowJson, namesNoSecret_object]
  constructor
  · intro h
    have hkey := (h (units "key", .string row.key) (by simp)).2
    refine ⟨namesNoSecret_string.mp hkey, ?_⟩
    exact namesNoSecret_string.mp (h (units "value", .string row.value) (by simp)).2
  · rintro ⟨hkey, hvalue⟩ m hm
    rcases List.mem_append.mp hm with hm | hm
    · simp only [List.mem_cons, List.not_mem_nil, or_false] at hm
      rcases hm with rfl | rfl | rfl
      · exact ⟨hplain _ (by simp), namesNoSecret_string.mpr hkey⟩
      · exact ⟨hplain _ (by simp), namesNoSecret_string.mpr hvalue⟩
      · exact ⟨hplain _ (by simp), hbool _⟩
    · split_ifs at hm
      · obtain rfl := List.mem_singleton.mp hm
        exact ⟨hplain _ (by simp), hbool _⟩
      · cases hm

/-- The members of an object, each under its name. -/
theorem namesNoSecret_entries {members : OrderedMap Text Json} :
    NamesNoSecret (.object members.entries) ↔
      ∀ name value, members.get? name = some value →
        ¬ NamesSecret name ∧ NamesNoSecret value := by
  rw [namesNoSecret_object]
  constructor
  · intro h name value hget
    obtain ⟨member, hfind, rfl⟩ := Option.map_eq_some_iff.mp hget
    have hname : member.1 = name := by simpa using List.find?_some hfind
    subst hname
    exact h member (List.mem_of_find?_eq_some hfind)
  · intro h member hmember
    exact h member.1 member.2 (OrderedMap.get?_of_mem_entries hmember)

/-- A value that no condition takes as true has no text that names a secret. -/
theorem namesNoSecret_of_not_truthy {value : Json} (h : truthy (some value) = false) :
    NamesNoSecret value := by
  intro t ht
  cases value with
  | string t' =>
      have hnil : t' = [] := by simpa [truthy] using h
      rw [Json.strings_string, List.mem_singleton] at ht
      subst ht hnil
      exact not_namesSecret_of_not_mem (by simp)
  | bool b => cases b <;> cases ht
  | null => cases ht
  | number n => cases ht
  | infinite negative => cases ht
  | array items => cases h
  | object members => cases h

/-- A name for itself is taken from among the environment's own texts. -/
theorem namesNoSecret_ensureEnvId (env : Environment) :
    NamesNoSecret (.object (ensureEnvId env).doc.entries) ↔
      NamesNoSecret (.object env.doc.entries) := by
  rw [ensureEnvId]
  split
  · next id hid =>
      split_ifs with htaken
      · have hmeta : NamesNoSecret (.object env.doc.entries) → NamesNoSecret id := by
          intro h
          obtain ⟨members, hmembers, hfield⟩ : ∃ members,
              env.doc.get? (units "meta") = some (.object members) ∧
                field members (units "id") = some id := by
            cases hget : env.doc.get? (units "meta") with
            | none => simp [hget, prop, fieldsOf, field] at hid
            | some value =>
                cases value with
                | object members => exact ⟨members, rfl, by simpa [hget, prop, fieldsOf] using hid⟩
                | _ => simp [hget, prop, fieldsOf, field] at hid
          obtain ⟨member, hfind, rfl⟩ := Option.map_eq_some_iff.mp hfield
          have hobject := (namesNoSecret_entries.mp h _ _ hmembers).2
          exact (namesNoSecret_object.mp hobject member (List.mem_of_find?_eq_some hfind)).2
        have hname : ¬ NamesSecret (units "id") := not_namesSecret_of_not_mem (by decide)
        rw [namesNoSecret_entries, namesNoSecret_entries]
        simp only [Environment.setMember, OrderedMap.get?_set]
        constructor
        · intro h name value hget
          by_cases hkey : units "id" = name
          · subst hkey
            rw [hget] at htaken
            exact ⟨hname, namesNoSecret_of_not_truthy htaken.1⟩
          · exact h name value (by rw [if_neg hkey, hget])
        · intro h name value hget
          split_ifs at hget with hkey
          · obtain rfl := Option.some.inj hget
            exact ⟨hkey ▸ hname, hmeta (namesNoSecret_entries.mpr h)⟩
          · exact h name value hget
      · rfl
  · rfl

@[simp] theorem vars_ensureEnvId (env : Environment) : (ensureEnvId env).vars = env.vars := by
  rw [ensureEnvId]
  split
  · split_ifs <;> rfl
  · rfl

/-! ## The stripped file -/

/-- What an environment holds that a stripped file would name a secret by: a text that names one, in
a member or the name of a variable, and a value that leaves one without its references. -/
structure Environment.LeavesNone (env : Environment) : Prop where
  members : ∀ t ∈ (Json.object env.doc.entries).strings, ¬ NamesSecret t
  names : ∀ row ∈ env.vars, ¬ NamesSecret row.key
  values : ∀ row ∈ env.vars, ¬ LeavesSecret row.value

theorem namesNoSecret_written {env : Environment} :
    NamesNoSecret (env.written (exportedValue .strip)) ↔ env.LeavesNone := by
  have hvars : ¬ NamesSecret (units "vars") := not_namesSecret_of_not_mem (by decide)
  have hrows : NamesNoSecret
      (rowsJson (env.vars.map fun row => { row with value := exportedValue .strip row.value })) ↔
        ∀ row ∈ env.vars, ¬ NamesSecret row.key ∧ ¬ LeavesSecret row.value := by
    rw [rowsJson, namesNoSecret_array, List.map_map, List.forall_mem_map]
    apply forall_congr'
    intro row
    apply imp_congr Iff.rfl
    rw [Function.comp_apply, namesNoSecret_rowJson, exportedValue_strip, namesSecret_erased_iff]
  rw [Environment.written, namesNoSecret_object]
  constructor
  · intro h
    have hlast := (h _ (List.mem_append_right _ (List.mem_singleton_self _))).2
    have hdoc : NamesNoSecret (.object env.doc.entries) :=
      namesNoSecret_object.mpr fun m hm => h m (List.mem_append_left _ hm)
    exact ⟨hdoc, fun row hrow => (hrows.mp hlast row hrow).1,
      fun row hrow => (hrows.mp hlast row hrow).2⟩
  · intro h m hm
    rcases List.mem_append.mp hm with hm | hm
    · exact namesNoSecret_object.mp h.members m hm
    · obtain rfl := List.mem_singleton.mp hm
      exact ⟨hvars, hrows.mpr fun row hrow => ⟨h.names row hrow, h.values row hrow⟩⟩

theorem leavesNone_ensureEnvId {env : Environment} :
    (ensureEnvId env).LeavesNone ↔ env.LeavesNone := by
  have hdoc := namesNoSecret_ensureEnvId env
  constructor
  · intro h
    exact ⟨hdoc.mp h.members, by simpa using h.names, by simpa using h.values⟩
  · intro h
    exact ⟨hdoc.mpr h.members, by simpa using h.names, by simpa using h.values⟩

/-- A stripped file names no secret where nothing in its environments does or would. -/
theorem stripped_names_no_secret_iff (F : FilePlatform) (environments : List Environment) :
    NamesNoSecret (serializeEnvironmentExport F environments .strip) ↔
      ∀ env ∈ environments, env.LeavesNone := by
  have hplain : ∀ t ∈ [units "$id", environmentsFormat, units "environments"],
      ¬ NamesSecret t := by
    have hno : ∀ t ∈ [units "$id", environmentsFormat, units "environments"], openBrace ∉ t := by
      decide
    exact fun t ht => not_namesSecret_of_not_mem (hno t ht)
  have hlist : NamesNoSecret (.array ((prepareEnvironments F environments).map
      (Environment.written (exportedValue .strip)))) ↔ ∀ env ∈ environments, env.LeavesNone := by
    rw [namesNoSecret_array, List.forall_mem_map, prepareEnvironments, List.forall_mem_map]
    simp only [List.mem_insertionSort, namesNoSecret_written, leavesNone_ensureEnvId]
  have hvault : vaultMember .strip = [] := rfl
  rw [serializeEnvironmentExport, namesNoSecret_sortKeys, hvault, List.append_nil,
    namesNoSecret_object]
  constructor
  · intro h
    exact hlist.mp (h _ (List.mem_cons_of_mem _ (List.mem_singleton_self _))).2
  · intro h m hm
    simp only [List.mem_cons, List.not_mem_nil, or_false] at hm
    rcases hm with rfl | rfl
    · exact ⟨hplain _ (by simp), namesNoSecret_string.mpr (hplain _ (by simp))⟩
    · exact ⟨hplain _ (by simp), hlist.mpr h⟩

/-- The stripped export names no vault secret, and the readers of a reference agree, on exactly the
environments and the values that are spelt so. -/
theorem secrets_recognised_iff (F : FilePlatform) (environments : List Environment) (value : Text) :
    (NamesNoSecret (serializeEnvironmentExport F environments .strip) ↔
      ∀ env ∈ environments, env.LeavesNone) ∧
    (RecognisersAgree value ↔ SpeltAlike value) :=
  ⟨stripped_names_no_secret_iff F environments, recognisersAgree_iff⟩

/-- A reference by an id with an underscore, as a vault file may hold one. -/
def underscoreReference : Text := units "\x7b\x7b$secret.a_b\x7d\x7d"

/-- An environment with one variable that holds it. -/
def underscoreEnvironment : Environment where
  doc := .ofPairs [(units "id", .string (units "e")), (units "name", .string (units "E"))]
  vars := [{ key := units "k", value := underscoreReference, enabled := true }]
  apart := rfl

/-- The export leaves such a reference where it stands: it is read by the resolver alone. -/
theorem underscoreReference_not_recognised :
    ¬ NamesNoSecret (serializeEnvironmentExport ⟨oneAddressPlatform, fun _ _ => .eq, fun _ => none⟩
        [underscoreEnvironment] .strip) ∧
      ¬ RecognisersAgree underscoreReference := by
  have hnames : ResolverNames underscoreReference (units "a_b") :=
    ⟨units "$secret.a_b", by decide +kernel, by decide +kernel, by decide +kernel⟩
  have hparts : parts secretReferenceAt underscoreReference = underscoreReference.map .inl := by
    decide +kernel
  constructor
  · intro hnone
    have hleaves := (stripped_names_no_secret_iff _ _).mp hnone _ (List.mem_singleton_self _)
    apply hleaves.values _ (List.mem_singleton_self _)
    apply namesSecret_erased_iff.mp
    rw [namesSecret_iff]
    refine ⟨units "a_b", ?_⟩
    have herased : erased secretReferenceAt underscoreReference = underscoreReference := by
      decide +kernel
    exact herased.symm ▸ hnames
  · intro hagree
    have htaken := (hagree.stripped _ (by decide)).mpr hnames
    rw [hparts] at htaken
    obtain ⟨c, -, heq⟩ := List.mem_map.mp htaken
    cases heq

end Wayfarer
