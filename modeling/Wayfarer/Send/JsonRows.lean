import Wayfarer.Library.Run
import Wayfarer.Model.Validate
import Wayfarer.Redact.Redactor
import Wayfarer.Send.Transmit
import Wayfarer.Send.UndoExact

/-!
# Stored JSON rows

A variable a script set to something that is not text is stored as its JSON, with a mark. The mark
is checked when the script sets it; what a post-response script sets is then masked, and the mark
goes along with the masked text.

`VariableSend` is a send as the variables see it: its scripts run one after the other, each on the
variables the one before left, and a declined send puts back what they set. `run_keepsJson` says
that the marked rows hold JSON after every run in which masking leaves the JSON that is stored to
be JSON (`MasksToJson`).
-/

set_option autoImplicit false

namespace Wayfarer

open Library

/-! ## A send as the variables see it -/

/-- The variables while sends run. -/
structure VariableSend where
  stores : VariableStores
  /-- As they were when the send began. -/
  before : VariableStores
  /-- What its pre-request scripts touched. -/
  touched : ScriptChanges
  /-- What each of them replaced in the vault. -/
  replaced : List (OrderedMap Text Text)

/-- Stores at rest. -/
def VariableSend.start (stores : VariableStores) : VariableSend where
  stores := stores
  before := stores
  touched := emptyChanges
  replaced := []

/-- What happens to the variables. -/
inductive VariableAction where
  /-- A send begins. -/
  | begin
  /-- A pre-request script ran: its values are stored as it wrote them. -/
  | pre (unlocked : Bool) (calls : ScriptCalls)
  /-- The user said no: what the scripts set is put back. -/
  | decline (unlocked : Bool)
  /-- A post-response script ran. `secrets`: the vault secrets of the request, masked in what is
  stored. -/
  | post (unlocked : Bool) (secrets : List Text) (calls : ScriptCalls)

namespace VariableSend

/-- The variables after a step. -/
def next (P : Platform) (s : VariableSend) : VariableAction → VariableSend
  | .begin => .start s.stores
  | .pre unlocked calls =>
      let changes := runScript P s.stores calls
      let applied := applyChanges (fun t => t) unlocked s.stores changes
      { s with
        stores := applied.1
        touched := s.touched.append changes
        replaced := s.replaced ++ [applied.2] }
  | .decline unlocked => .start (undo unlocked s.before s.touched s.stores s.replaced)
  | .post unlocked secrets calls =>
      { s with
        stores := (applyChanges (Redactor.new secrets).text unlocked s.stores
          (runScript P s.stores calls)).1 }

/-- A step of the machine: each can always be taken. -/
def step (P : Platform) (s : VariableSend) (action : VariableAction) : Option VariableSend :=
  some (s.next P action)

end VariableSend

/-! ## The condition -/

/-- Every marked row of the stores holds JSON. -/
structure JsonStores (P : Platform) (stores : VariableStores) : Prop where
  environment : ∀ rows, stores.environment = some rows → JsonRows P rows
  globals : JsonRows P stores.globals
  collection : ∀ rows, stores.collection = some rows → JsonRows P rows

/-- The JSON that a script's changes store is JSON once it is masked. -/
def MasksToJson (P : Platform) (secrets : List Text) (rows : List Row)
    (changes : List VariableChange) : Prop :=
  ∀ change ∈ changes, change.json = true → change.isStored rows = true →
    ∀ value ∈ change.value, isJsonText P ((Redactor.new secrets).text value) = true

/-- What a post-response script marks as JSON is JSON also with the secrets masked in it. -/
def StoresJson (P : Platform) (s : VariableSend) : VariableAction → Prop
  | .post _ secrets calls =>
      (∀ rows ∈ s.stores.environment,
        MasksToJson P secrets rows (runScript P s.stores calls).environment) ∧
      MasksToJson P secrets s.stores.globals (runScript P s.stores calls).globals ∧
      ∀ rows ∈ s.stores.collection,
        MasksToJson P secrets rows (runScript P s.stores calls).collection
  | _ => True

/-! ## What one change keeps -/

section

variable {P : Platform}

/-- A row of the list with a name's rows replaced is the new one or was there. -/
theorem mem_replaceRows {made row : Row} {rows : List Row} (h : row ∈ replaceRows made rows) :
    row = made ∨ row ∈ rows := by
  induction rows with
  | nil => cases h
  | cons first rows ih =>
      rw [replaceRows] at h
      split_ifs at h
      · obtain rfl | h := List.mem_cons.mp h
        · exact Or.inl rfl
        · exact Or.inr (List.mem_cons_of_mem _ (List.mem_of_mem_filter h))
      · obtain rfl | h := List.mem_cons.mp h
        · exact Or.inr List.mem_cons_self
        · exact (ih h).imp_right (List.mem_cons_of_mem _)

/-- A row after a change is one the change made, from its value, or was there. -/
theorem mem_applyVariableChange {rows : List Row} {change : VariableChange} {row : Row}
    (h : row ∈ applyVariableChange rows change) :
    (∃ value, change.value = some value ∧ row.value = value ∧ row.json = change.json) ∨
      row ∈ rows := by
  have hmade : ∀ {row : Row}, ¬ change.value.isNone = true → row = change.made →
      ∃ value, change.value = some value ∧ row.value = value ∧ row.json = change.json := by
    rintro row hsome rfl
    obtain ⟨value, hvalue⟩ := Option.ne_none_iff_exists'.mp (by simpa using hsome)
    exact ⟨value, hvalue, by simp [VariableChange.made, hvalue], rfl⟩
  unfold applyVariableChange at h
  split_ifs at h with hskip hnone hany
  · exact Or.inr h
  · exact Or.inr (List.mem_of_mem_filter h)
  · exact (mem_replaceRows h).imp_left (hmade hnone)
  · rw [List.mem_append, List.mem_singleton] at h
    exact h.symm.imp_left (hmade hnone)

/-- Changes whose marked values are JSON keep the marked rows JSON. -/
theorem JsonRows.applyVariableChanges {rows : List Row} (hrows : JsonRows P rows)
    {changes : List VariableChange}
    (h : ∀ change ∈ changes, change.json = true → ∀ value ∈ change.value,
      isJsonText P value = true) : JsonRows P (applyVariableChanges rows changes) := by
  induction changes generalizing rows with
  | nil => exact hrows
  | cons change changes ih =>
      refine ih (fun row hmem hjson => ?_) fun other hother =>
        h other (List.mem_cons_of_mem _ hother)
      obtain ⟨value, hvalue, hrow, hmark⟩ | hmem := mem_applyVariableChange hmem
      · rw [hrow]
        exact h change List.mem_cons_self (hmark ▸ hjson) value hvalue
      · exact hrows row hmem hjson

/-- The rows of a store keep JSON where what is stored, masked, is JSON. -/
theorem JsonRows.storedRows {mask : Text → Text} {rows : List Row} (hrows : JsonRows P rows)
    {changes : List VariableChange}
    (h : ∀ change ∈ changes, change.json = true → change.isStored rows = true →
      ∀ value ∈ change.value, isJsonText P (mask value) = true) :
    JsonRows P (storedRows mask rows changes) := by
  refine hrows.applyVariableChanges fun kept hkept hjson value hvalue => ?_
  obtain ⟨change, hchange, rfl⟩ := List.mem_map.mp hkept
  obtain ⟨hmem, hstored⟩ := List.mem_filter.mp hchange
  obtain ⟨was, hwas, rfl⟩ := Option.map_eq_some_iff.mp hvalue
  exact h change hmem hjson hstored was hwas

/-- The stores keep JSON where what each scope stores, masked, is JSON. -/
theorem JsonStores.applyChanges {mask : Text → Text} {unlocked : Bool} {stores : VariableStores}
    (hstores : JsonStores P stores) {changes : ScriptChanges}
    (henvironment : ∀ rows ∈ stores.environment, ∀ change ∈ changes.environment,
      change.json = true → change.isStored rows = true → ∀ value ∈ change.value,
        isJsonText P (mask value) = true)
    (hglobals : ∀ change ∈ changes.globals, change.json = true →
      change.isStored stores.globals = true → ∀ value ∈ change.value,
        isJsonText P (mask value) = true)
    (hcollection : ∀ rows ∈ stores.collection, ∀ change ∈ changes.collection,
      change.json = true → change.isStored rows = true → ∀ value ∈ change.value,
        isJsonText P (mask value) = true) :
    JsonStores P (applyChanges mask unlocked stores changes).1 := by
  rw [applyChanges_eq]
  refine ⟨fun rows hrows => ?_, ?_, fun rows hrows => ?_⟩
  · obtain ⟨was, hwas, rfl⟩ := Option.map_eq_some_iff.mp hrows
    exact (hstores.environment was hwas).storedRows (henvironment was hwas)
  · exact hstores.globals.storedRows hglobals
  · obtain ⟨was, hwas, rfl⟩ := Option.map_eq_some_iff.mp hrows
    exact (hstores.collection was hwas).storedRows (hcollection was hwas)

/-- What a script changed with the mark is JSON, as it wrote it. -/
theorem runScript_isJson {rows : List Row} {calls : List ScopeCall} :
    ∀ change ∈ scopeChanges P rows calls, change.json = true → ∀ value ∈ change.value,
      isJsonText P value = true := by
  intro change hchange hjson value hvalue
  obtain ⟨was, hwas, hisJson⟩ := scopeChanges_isJson hchange hjson
  cases hwas.symm.trans hvalue
  exact hisJson

/-- JSON that holds no form of a secret is stored as it is. -/
theorem masksToJson_of_clean {secrets : List Text} {rows : List Row} {calls : List ScopeCall}
    (h : ∀ change ∈ scopeChanges P rows calls, ∀ value ∈ change.value,
      ∀ needle ∈ (Redactor.new secrets).needles, ¬ needle <:+: value) :
    MasksToJson P secrets rows (scopeChanges P rows calls) := by
  intro change hchange hjson _ value hvalue
  rw [Redactor.text_of_clean (h change hchange value hvalue)]
  exact runScript_isJson change hchange hjson value hvalue

/-- What the undoing puts back with the mark was stored with it. -/
theorem was_isJson {rows : List Row} (hrows : JsonRows P rows) {names : List VariableChange} :
    ∀ change ∈ was rows names, change.json = true → ∀ value ∈ change.value,
      isJsonText P value = true := by
  intro change hchange hjson value hvalue
  obtain ⟨name, -, rfl⟩ := List.mem_map.mp hchange
  unfold wasOf at hjson hvalue
  cases hhad : scriptVariable? rows name.key with
  | none => simp [hhad] at hjson
  | some had =>
      simp only [hhad] at hjson hvalue
      cases hvalue
      obtain ⟨row, hmem, -, rfl⟩ := exists_row_of_scriptVariable? hhad
      exact hrows row hmem hjson

/-! ## Every run -/

/-- The marked rows hold JSON, as they are and as the send found them. -/
structure JsonKept (P : Platform) (s : VariableSend) : Prop where
  stores : JsonStores P s.stores
  before : JsonStores P s.before

theorem JsonKept.start {stores : VariableStores} (h : JsonStores P stores) :
    JsonKept P (.start stores) :=
  ⟨h, h⟩

/-- The undoing puts back rows whose marked values are JSON. -/
theorem JsonKept.undo {s : VariableSend} (h : JsonKept P s) (unlocked : Bool) :
    JsonStores P (undo unlocked s.before s.touched s.stores s.replaced) := by
  have hbefore : ∀ store : Option (List Row),
      (∀ rows, store = some rows → JsonRows P rows) → JsonRows P (store.getD []) := by
    intro store hstore
    cases store with
    | none => exact fun _ hmem => absurd hmem List.not_mem_nil
    | some rows => exact hstore rows rfl
  have hundone : JsonStores P (applyChanges (fun t => t) unlocked s.stores
      { environment := was (s.before.environment.getD []) s.touched.environment
        globals := was s.before.globals s.touched.globals
        collection := was (s.before.collection.getD []) s.touched.collection }).1 := by
    refine h.stores.applyChanges ?_ ?_ ?_
    · intro _ _ change hchange hjson _
      exact was_isJson (hbefore _ h.before.environment) change hchange hjson
    · intro change hchange hjson _
      exact was_isJson h.before.globals change hchange hjson
    · intro _ _ change hchange hjson _
      exact was_isJson (hbefore _ h.before.collection) change hchange hjson
  exact ⟨hundone.environment, hundone.globals, hundone.collection⟩

/-- A step that meets the condition keeps the marked rows JSON. -/
theorem JsonKept.next {s : VariableSend} {action : VariableAction} (h : JsonKept P s)
    (hmeets : StoresJson P s action) : JsonKept P (s.next P action) := by
  cases action with
  | begin => exact .start h.stores
  | pre unlocked calls =>
      refine ⟨h.stores.applyChanges ?_ ?_ ?_, h.before⟩
      · exact fun _ _ change hchange hjson _ => runScript_isJson change hchange hjson
      · exact fun change hchange hjson _ => runScript_isJson change hchange hjson
      · exact fun _ _ change hchange hjson _ => runScript_isJson change hchange hjson
  | decline unlocked => exact .start (h.undo unlocked)
  | post unlocked secrets calls =>
      exact ⟨h.stores.applyChanges hmeets.1 hmeets.2.1 hmeets.2.2, h.before⟩

/-- In every run of sends whose post-response scripts store JSON that is JSON also with the
request's secrets masked in it, the stored rows that are marked hold JSON, and are accepted where
they are read back. -/
theorem run_keepsJson {stores : VariableStores} (hstores : JsonStores P stores)
    {actions : List VariableAction} {s : VariableSend}
    (hrun : run (VariableSend.step P) (.start stores) actions = some s)
    (hmeets : Meets (VariableSend.step P) (StoresJson P) (.start stores) actions) :
    JsonStores P s.stores ∧
      (∀ rows ∈ s.stores.environment, ∀ path, validateRows P (some (rowsJson rows)) path = []) ∧
      (∀ path, validateRows P (some (rowsJson s.stores.globals)) path = []) ∧
      ∀ rows ∈ s.stores.collection, ∀ path, validateRows P (some (rowsJson rows)) path = [] := by
  have hkept : JsonKept P s := by
    refine run_induction ?_ (JsonKept.start hstores) hmeets hrun
    intro t action t' ht hcondition hstep
    cases hstep
    exact ht.next hcondition
  refine ⟨hkept.stores, fun rows hrows path => ?_, fun path => ?_, fun rows hrows path => ?_⟩
  · exact validateRows_eq_nil_iff.mpr (hkept.stores.environment rows hrows)
  · exact validateRows_eq_nil_iff.mpr hkept.stores.globals
  · exact validateRows_eq_nil_iff.mpr (hkept.stores.collection rows hrows)

end

/-! ## A number that is a secret -/

theorem digits_are_marks : ∀ c ∈ units "0123456789", c ∈ numberMarks := by
  decide

/-- A platform that reads numbers, and no other JSON. -/
def numberPlatform : Platform :=
  { oneAddressPlatform with
    parseJson t :=
      if h : t ≠ [] ∧ ∀ c ∈ t, c ∈ units "0123456789" then
        some (.number ⟨t, fun c hc => digits_are_marks c (h.2 c hc)⟩)
      else none }

/-- A number among the globals, and no vault. -/
def numberStores : VariableStores where
  environment := some []
  globals := [⟨units "m", units "42", true, true⟩]
  collection := none
  vault _ := none

theorem numberStores_json : JsonStores numberPlatform numberStores where
  environment rows hrows := by
    cases hrows
    exact fun _ hmem => absurd hmem List.not_mem_nil
  globals row hmem _ := by
    rw [List.mem_singleton.mp hmem]
    decide +kernel
  collection rows hrows := by cases hrows

/-- A send whose post-response script sets the variable `n` to a number. `secrets`: those that went
into its request. -/
def numberSend (secrets : List Text) : List VariableAction :=
  [.begin, .post true secrets
    { environment := [.varSet (units "n") (units "1234567") true], globals := [],
      collection := [] }]

instance MasksToJson.decidable (P : Platform) (secrets : List Text) (rows : List Row)
    (changes : List VariableChange) : Decidable (MasksToJson P secrets rows changes) :=
  inferInstanceAs (Decidable (∀ change ∈ changes, change.json = true →
    change.isStored rows = true → ∀ value ∈ change.value,
      isJsonText P ((Redactor.new secrets).text value) = true))

instance StoresJson.decidable (P : Platform) (s : VariableSend) :
    (action : VariableAction) → Decidable (StoresJson P s action)
  | .begin => isTrue trivial
  | .pre _ _ => isTrue trivial
  | .decline _ => isTrue trivial
  | .post _ secrets calls =>
      inferInstanceAs (Decidable (
        (∀ rows ∈ s.stores.environment,
          MasksToJson P secrets rows (runScript P s.stores calls).environment) ∧
        MasksToJson P secrets s.stores.globals (runScript P s.stores calls).globals ∧
        ∀ rows ∈ s.stores.collection,
          MasksToJson P secrets rows (runScript P s.stores calls).collection))

/-- The number is kept where no secret is in it. -/
theorem numberSend_kept : ∃ s,
    run (VariableSend.step numberPlatform) (.start numberStores) (numberSend [units "s3cret"]) =
      some s ∧ JsonStores numberPlatform s.stores := by
  obtain ⟨s, hs⟩ : ∃ s, run (VariableSend.step numberPlatform) (.start numberStores)
      (numberSend [units "s3cret"]) = some s := ⟨_, rfl⟩
  refine ⟨s, hs, (run_keepsJson numberStores_json hs ?_).1⟩
  decide +kernel

/-- A number that is a secret of the request is stored as the mask, marked as JSON. -/
theorem numberSend_masked : ∃ s,
    run (VariableSend.step numberPlatform) (.start numberStores) (numberSend [units "1234567"]) =
      some s ∧ JsonStores numberPlatform numberStores ∧ ¬ JsonStores numberPlatform s.stores := by
  have hstored : (run (VariableSend.step numberPlatform) (.start numberStores)
      (numberSend [units "1234567"])).any (fun s =>
        s.stores.environment = some [⟨units "n", mask, true, true⟩]) = true := by
    decide +kernel
  obtain ⟨s, hs, hrows⟩ := exists_run_of_any hstored
  refine ⟨s, hs, numberStores_json, fun h => ?_⟩
  have hjson := h.environment _ (of_decide_eq_true hrows) _ List.mem_cons_self rfl
  exact absurd hjson (by decide +kernel)

end Wayfarer
