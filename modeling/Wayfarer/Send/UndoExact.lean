import Wayfarer.Send.Undo

/-!
# When a declined send leaves no trace

The proof that `declinedSend` gives the stores back exactly when every name and the order of
the names are undone (`RowsUndone`) and the undoing wrote over no secret (`VaultUndone`). It
follows the three things the undoing does: the variables, name by name and then in their
order; what it writes into the vault; and the plaintexts it puts back at the end.
-/

set_option autoImplicit false

namespace Wayfarer

open Library

/-! ## Which changes go into the vault -/

theorem referenceOf_isSome (rows : List Row) (name : Text) :
    (referenceOf rows name).isSome = isProtectedName rows name := by
  rw [referenceOf, Option.isSome_map, isProtectedName, Bool.eq_iff_iff, List.find?_isSome,
    List.any_eq_true]

/-- A change that is stored as a variable: a removal, or of a name that holds no reference. -/
def VariableChange.isStored (rows : List Row) (change : VariableChange) : Bool :=
  change.value.isNone || !isProtectedName rows change.key

/-- What a list of changes writes into the vault. -/
def vaultWrites (rows : List Row) (changes : List VariableChange) : List (Text × Text) :=
  changes.filterMap fun change =>
    match change.value, referenceOf rows change.key with
    | some value, some reference =>
        if trim value ≠ trim reference then
          some ((protectedSecretId reference).getD [], value)
        else none
    | _, _ => none

/-- Writes into the vault, one after the other. -/
def putAll (unlocked : Bool) (writes : List (Text × Text)) (work : VaultWork) : VaultWork :=
  writes.foldl (fun work write => work.put unlocked write.1 write.2) work

/-- The changes of a protected name are sorted out of a list; what they write
is written in order. -/
theorem intoVault_eq (unlocked : Bool) (rows : List Row) (changes : List VariableChange)
    (work : VaultWork) :
    intoVault unlocked rows changes work =
      (changes.filter (VariableChange.isStored rows),
        putAll unlocked (vaultWrites rows changes) work) := by
  induction changes generalizing work with
  | nil => rfl
  | cons change changes ih =>
      have hprot := referenceOf_isSome rows change.key
      rw [intoVault]
      cases hvalue : change.value with
      | none =>
          have hstored : change.isStored rows = true := by simp [VariableChange.isStored, hvalue]
          simp [ih, hstored, vaultWrites, hvalue]
      | some value =>
          cases href : referenceOf rows change.key with
          | none =>
              have hstored : change.isStored rows = true := by
                rw [href] at hprot
                simp [VariableChange.isStored, ← hprot]
              simp [ih, hstored, vaultWrites, hvalue, href]
          | some reference =>
              have hstored : change.isStored rows = false := by
                rw [href] at hprot
                simp [VariableChange.isStored, hvalue, ← hprot]
              by_cases htrim : trim value ≠ trim reference
              · simp [ih, hstored, vaultWrites, hvalue, href, htrim, putAll]
              · simp [ih, hstored, vaultWrites, hvalue, href, htrim]

/-! ## What is noted down of the vault -/

/-- The work has noted down how to get back to the vault `base`: what was replaced, with the
plaintext it had there, and nothing else is different. -/
structure Records (base : Text → Option Text) (work : VaultWork) : Prop where
  had : ∀ id plaintext, work.replaced.get? id = some plaintext → base id = some plaintext
  same : ∀ id, work.replaced.get? id = none → work.vault id = base id
  domain : ∀ id, (work.vault id).isSome = (base id).isSome

theorem records_start (base : Text → Option Text) :
    Records base { vault := base, replaced := .empty } :=
  { had := by simp, same := fun _ _ => rfl, domain := fun _ => rfl }

theorem isSome_replaceSecret (vault : Text → Option Text) (id plaintext other : Text) :
    (replaceSecret vault id plaintext other).isSome = (vault other).isSome := by
  unfold replaceSecret
  split_ifs with h
  · rw [h.1, h.2]
    rfl
  · rfl

/-- A value put into the vault keeps the record. -/
theorem Records.put {base : Text → Option Text} {work : VaultWork} (h : Records base work)
    (unlocked : Bool) (id value : Text) :
    Records base (work.put unlocked id value) := by
  unfold VaultWork.put
  cases unlocked with
  | false => exact h
  | true =>
      rw [if_pos rfl]
      cases hold : work.vault id with
      | none => exact h
      | some old =>
          refine ⟨?_, ?_, ?_⟩
          · -- What is recorded of a secret is what the vault held first: only its first change is
            -- recorded.
            intro other plaintext hget
            dsimp only at hget
            split_ifs at hget with hrec
            · exact h.had other plaintext hget
            · rw [OrderedMap.get?_set] at hget
              by_cases heq : id = other
              · subst heq
                rw [if_pos rfl] at hget
                have hnone : work.replaced.get? id = none := by simpa using hrec
                rw [← h.same id hnone, hold]
                exact hget
              · rw [if_neg heq] at hget
                exact h.had other plaintext hget
          · -- A secret that is not recorded is another one, and the vault holds it as before.
            intro other hget
            dsimp only at hget ⊢
            have hne : other ≠ id := by
              rintro rfl
              split_ifs at hget with hrec
              · simp [hget] at hrec
              · simp at hget
            have hnone : work.replaced.get? other = none := by
              split_ifs at hget with hrec
              · exact hget
              · rwa [OrderedMap.get?_set, if_neg (Ne.symm hne)] at hget
            rw [replaceSecret, if_neg (fun hc => hne hc.1)]
            exact h.same other hnone
          · intro other
            dsimp only
            rw [isSome_replaceSecret]
            exact h.domain other

theorem Records.putAll {base : Text → Option Text} {work : VaultWork} (h : Records base work)
    (unlocked : Bool) (writes : List (Text × Text)) :
    Records base (putAll unlocked writes work) := by
  induction writes generalizing work with
  | nil => exact h
  | cons write writes ih => exact ih (h.put unlocked write.1 write.2)

/-! ## What is written into the vault -/

theorem isSome_put (unlocked : Bool) (work : VaultWork) (id value other : Text) :
    ((work.put unlocked id value).vault other).isSome = (work.vault other).isSome := by
  unfold VaultWork.put
  cases unlocked with
  | false => rfl
  | true =>
      rw [if_pos rfl]
      cases work.vault id with
      | none => rfl
      | some old => exact isSome_replaceSecret work.vault id value other

/-- Writing neither adds a secret nor removes one. -/
theorem isSome_putAll (unlocked : Bool) (writes : List (Text × Text)) (work : VaultWork)
    (other : Text) :
    ((putAll unlocked writes work).vault other).isSome = (work.vault other).isSome := by
  induction writes generalizing work with
  | nil => rfl
  | cons write writes ih =>
      exact (ih (work.put unlocked write.1 write.2)).trans
        (isSome_put unlocked work write.1 write.2 other)

/-- A secret that is written holds what was written to it last, when the vault has it. -/
theorem putAll_vault (unlocked : Bool) (writes : List (Text × Text)) (work : VaultWork)
    (id : Text) :
    (putAll unlocked writes work).vault id =
      if unlocked = true ∧ (work.vault id).isSome = true then
        (lastWrite writes id).or (work.vault id)
      else work.vault id := by
  induction writes using List.reverseRecOn with
  | nil => simp [putAll, lastWrite]
  | append_singleton writes write ih =>
      have hstep : putAll unlocked (writes ++ [write]) work =
          (putAll unlocked writes work).put unlocked write.1 write.2 := by
        simp [putAll]
      have hlast : lastWrite (writes ++ [write]) id =
          if write.1 = id then some write.2 else lastWrite writes id := by
        by_cases h : write.1 = id
        · simp [lastWrite, h]
        · simp [lastWrite, h]
      rw [hstep, hlast, VaultWork.put]
      cases unlocked with
      | false => simpa using ih
      | true =>
          simp only [true_and, if_true] at ih ⊢
          cases hold : (putAll true writes work).vault write.1 with
          | none =>
              -- The vault does not have the secret, and did not have it at the start.
              by_cases h : write.1 = id
              · rw [h] at hold
                have hnone : (work.vault id).isSome = false := by
                  rw [← isSome_putAll true writes work id, hold]
                  rfl
                rw [if_neg (by simp [hnone])] at ih ⊢
                exact ih
              · simp only [if_neg h]
                exact ih
          | some old =>
              dsimp only
              by_cases h : write.1 = id
              · subst h
                have hsome : (work.vault write.1).isSome = true := by
                  rw [ih] at hold
                  split_ifs at hold with hs
                  · exact hs
                  · simp [hold]
                simp [replaceSecret, hold, hsome]
              · rw [replaceSecret, if_neg (fun hc => h hc.1.symm), ih, if_neg h]

/-! ## One application of changes -/

/-- What changes write into the vault, scope by scope. -/
def allVaultWrites (stores : VariableStores) (changes : ScriptChanges) : List (Text × Text) :=
  vaultWrites (stores.environment.getD []) changes.environment ++
    vaultWrites stores.globals changes.globals ++
    vaultWrites (stores.collection.getD []) changes.collection

/-- The rows of a store after a script's changes. -/
def storedRows (mask : Text → Text) (rows : List Row) (changes : List VariableChange) : List Row :=
  applyVariableChanges rows (markKept mask (changes.filter (VariableChange.isStored rows)))

theorem applyChanges_eq (mask : Text → Text) (unlocked : Bool) (stores : VariableStores)
    (changes : ScriptChanges) :
    applyChanges mask unlocked stores changes =
      let work := putAll unlocked (allVaultWrites stores changes)
        { vault := stores.vault, replaced := .empty }
      ({ environment := stores.environment.map fun rows => storedRows mask rows changes.environment
         globals := storedRows mask stores.globals changes.globals
         collection := stores.collection.map fun rows => storedRows mask rows changes.collection
         vault := work.vault },
        work.replaced) := by
  unfold applyChanges
  simp only [intoVault_eq, allVaultWrites, putAll, List.foldl_append, storedRows]
  congr 2
  · cases stores.environment <;> rfl
  · cases stores.collection <;> rfl

/-- What a script's changes replaced is noted down. -/
theorem records_applyChanges (mask : Text → Text) (unlocked : Bool) (stores : VariableStores)
    (changes : ScriptChanges) :
    Records stores.vault
      { vault := (applyChanges mask unlocked stores changes).1.vault
        replaced := (applyChanges mask unlocked stores changes).2 } := by
  rw [applyChanges_eq]
  exact (records_start stores.vault).putAll unlocked _

/-! ## Putting the plaintexts back -/

/-- A secret that was noted down is put back; no other is touched. -/
theorem restoreSecrets_apply (vault : Text → Option Text) (replaced : OrderedMap Text Text)
    (id : Text) :
    restoreSecrets vault replaced id =
      if (vault id).isSome then (replaced.get? id).or (vault id) else vault id := by
  have hgen : ∀ (entries : List (Text × Text)) (vault : Text → Option Text),
      (entries.map Prod.fst).Nodup →
      entries.foldl (fun vault entry => replaceSecret vault entry.1 entry.2) vault id =
        if (vault id).isSome then
          ((entries.find? fun e => e.1 = id).map Prod.snd).or (vault id) else vault id := by
    intro entries
    induction entries with
    | nil => intro vault _; simp
    | cons entry entries ih =>
        intro vault hnodup
        rw [List.map_cons, List.nodup_cons] at hnodup
        rw [List.foldl_cons, ih _ hnodup.2, isSome_replaceSecret]
        by_cases hid : entry.1 = id
        · have hrest : (entries.find? fun e => e.1 = id) = none := by
            rw [List.find?_eq_none]
            intro e he heq
            have hkey : e.1 = entry.1 := (of_decide_eq_true heq).trans hid.symm
            exact hnodup.1 (List.mem_map.mpr ⟨e, he, hkey⟩)
          rw [hrest]
          by_cases hsome : (vault id).isSome = true
          · simp [hsome, hid, replaceSecret]
          · simp [hsome, replaceSecret, hid]
        · have hsame : replaceSecret vault entry.1 entry.2 id = vault id :=
            if_neg fun h => hid h.1.symm
          simp [hsame, hid]
  exact hgen replaced.entries vault replaced.nodup

/-- After the scripts, and with anything written over what they left, putting back what they
replaced gives the vault's old plaintext for each secret they replaced and leaves the others. -/
theorem restoreAll_apply (unlocked : Bool) (scripts : List ScriptChanges)
    (stores : VariableStores) (vault : Text → Option Text)
    (hdomain : ∀ id, (vault id).isSome = (stores.vault id).isSome) (id : Text) :
    (runPreScripts unlocked scripts stores).2.reverse.foldl restoreSecrets vault id =
      if ∃ r ∈ (runPreScripts unlocked scripts stores).2, id ∈ r.keys then stores.vault id
      else vault id := by
  induction scripts generalizing stores with
  | nil => simp [runPreScripts]
  -- The last script is undone first, so the first script's record is the one that remains.
  | cons changes scripts ih =>
      have hrec := records_applyChanges (fun t => t) unlocked stores changes
      set applied := applyChanges (fun t => t) unlocked stores changes with happlied
      have hrun : (runPreScripts unlocked (changes :: scripts) stores).2 =
          applied.2 :: (runPreScripts unlocked scripts applied.1).2 := rfl
      rw [hrun, List.reverse_cons, List.foldl_append, List.foldl_cons, List.foldl_nil,
        restoreSecrets_apply]
      have hdomain' : ∀ id, (vault id).isSome = (applied.1.vault id).isSome := fun id =>
        (hdomain id).trans (hrec.domain id).symm
      have ih := ih applied.1 hdomain'
      rw [ih]
      by_cases hlater : ∃ r ∈ (runPreScripts unlocked scripts applied.1).2, id ∈ r.keys
      · have hany : ∃ r ∈ applied.2 :: (runPreScripts unlocked scripts applied.1).2,
            id ∈ r.keys := by
          obtain ⟨r, hr, hid⟩ := hlater
          exact ⟨r, List.mem_cons_of_mem _ hr, hid⟩
        rw [if_pos hlater, if_pos hany]
        cases hget : applied.2.get? id with
        | none =>
            -- A secret the first script did not touch is the same before and after it.
            have hsame := hrec.same id hget
            simp only at hsame
            rw [hsame]
            simp
        | some plaintext =>
            have hbase := hrec.had id plaintext hget
            have hsome : (applied.1.vault id).isSome = true := by
              have := hrec.domain id
              simp only at this
              rw [this, hbase]
              rfl
            rw [if_pos hsome, hbase]
            rfl
      · rw [if_neg hlater]
        cases hget : applied.2.get? id with
        | none =>
            -- No script touched it.
            have hkey : id ∉ applied.2.keys := OrderedMap.get?_eq_none_iff.mp hget
            have hany : ¬ ∃ r ∈ applied.2 :: (runPreScripts unlocked scripts applied.1).2,
                id ∈ r.keys := by
              rintro ⟨r, hr, hid⟩
              rcases List.mem_cons.mp hr with rfl | hr
              · exact hkey hid
              · exact hlater ⟨r, hr, hid⟩
            rw [if_neg hany]
            simp
        | some plaintext =>
            have hbase := hrec.had id plaintext hget
            have hkey : id ∈ applied.2.keys := by
              by_contra hnot
              rw [OrderedMap.get?_eq_none_iff.mpr hnot] at hget
              cases hget
            have hsome : (vault id).isSome = true := by
              rw [hdomain id, hbase]
              rfl
            rw [if_pos hsome, if_pos ⟨applied.2, by simp, hkey⟩, hbase]
            rfl

/-! ## The vault -/

theorem vaultWrites_was (before after : List Row) (names : List VariableChange) :
    vaultWrites after (was before names) = undoWrites before after (namesOf names) := by
  simp only [vaultWrites, was, undoWrites, namesOf, List.filterMap_map]
  refine List.filterMap_congr fun change _ => ?_
  simp only [Function.comp_apply, wasOf]
  cases scriptVariable? before change.key with
  | none => rfl
  | some had => cases referenceOf after change.key <;> rfl

/-- The scripts neither add a secret nor remove one. -/
theorem isSome_runPreScripts_vault (unlocked : Bool) (scripts : List ScriptChanges)
    (stores : VariableStores) (id : Text) :
    ((runPreScripts unlocked scripts stores).1.vault id).isSome = (stores.vault id).isSome := by
  induction scripts generalizing stores with
  | nil => rfl
  | cons changes scripts ih =>
      exact (ih _).trans ((records_applyChanges (fun t => t) unlocked stores changes).domain id)

/-- A secret no script replaced has the plaintext it had. -/
theorem runPreScripts_vault_of_not_replaced (unlocked : Bool) (scripts : List ScriptChanges)
    (stores : VariableStores) (id : Text)
    (h : ∀ r ∈ (runPreScripts unlocked scripts stores).2, id ∉ r.keys) :
    (runPreScripts unlocked scripts stores).1.vault id = stores.vault id := by
  induction scripts generalizing stores with
  | nil => rfl
  | cons changes scripts ih =>
      have hfirst : id ∉ (applyChanges (fun t => t) unlocked stores changes).2.keys :=
        h _ List.mem_cons_self
      have hrest : ∀ r ∈ (runPreScripts unlocked scripts
          (applyChanges (fun t => t) unlocked stores changes).1).2, id ∉ r.keys := fun r hr =>
        h r (List.mem_cons_of_mem _ hr)
      have hsame := (records_applyChanges (fun t => t) unlocked stores changes).same id
        (OrderedMap.get?_eq_none_iff.mpr hfirst)
      exact (ih _ hrest).trans hsame

/-- The vault after a declined send. -/
theorem declinedSend_vault (unlocked : Bool) (scripts : List ScriptChanges)
    (stores : VariableStores) (id : Text) :
    (declinedSend unlocked scripts stores).vault id =
      if ∃ r ∈ (runPreScripts unlocked scripts stores).2, id ∈ r.keys then stores.vault id
      else if unlocked = true ∧ (stores.vault id).isSome = true then
        (lastWrite (allUndoWrites stores (runPreScripts unlocked scripts stores).1
          (touchedBy scripts)) id).or (stores.vault id)
      else stores.vault id := by
  set ran := runPreScripts unlocked scripts stores with hran
  set changes : ScriptChanges :=
    { environment := was (stores.environment.getD []) (touchedBy scripts).environment
      globals := was stores.globals (touchedBy scripts).globals
      collection := was (stores.collection.getD []) (touchedBy scripts).collection } with hchanges
  have hundone : (declinedSend unlocked scripts stores).vault id =
      ran.2.reverse.foldl restoreSecrets
        (applyChanges (fun t => t) unlocked ran.1 changes).1.vault id := rfl
  have hrec := records_applyChanges (fun t => t) unlocked ran.1 changes
  have hdomain : ∀ id, ((applyChanges (fun t => t) unlocked ran.1 changes).1.vault id).isSome =
      (stores.vault id).isSome := fun id =>
    (hrec.domain id).trans (isSome_runPreScripts_vault unlocked scripts stores id)
  rw [hundone, restoreAll_apply unlocked scripts stores _ hdomain id]
  by_cases hreplaced : ∃ r ∈ ran.2, id ∈ r.keys
  · rw [if_pos hreplaced, if_pos hreplaced]
  · have hkept : ran.1.vault id = stores.vault id :=
      runPreScripts_vault_of_not_replaced unlocked scripts stores id fun r hr hid =>
        hreplaced ⟨r, hr, hid⟩
    have hwrites : allVaultWrites ran.1 changes =
        allUndoWrites stores ran.1 (touchedBy scripts) := by
      simp only [allVaultWrites, allUndoWrites, hchanges, vaultWrites_was]
    rw [if_neg hreplaced, if_neg hreplaced, applyChanges_eq]
    dsimp only
    rw [putAll_vault, hwrites]
    simp only [hkept]

/-- The vault is as it was exactly when the undoing wrote over no secret. -/
theorem declinedSend_vault_eq_iff (unlocked : Bool) (scripts : List ScriptChanges)
    (stores : VariableStores) :
    (declinedSend unlocked scripts stores).vault = stores.vault ↔
      VaultUndone unlocked stores (runPreScripts unlocked scripts stores).1 (touchedBy scripts)
        (runPreScripts unlocked scripts stores).2 := by
  constructor
  · intro h hunlocked id plaintext value hnot hhad hlast
    have hid := congrFun h id
    have hreplaced : ¬ ∃ r ∈ (runPreScripts unlocked scripts stores).2, id ∈ r.keys := by
      rintro ⟨r, hr, hid⟩
      exact hnot r hr hid
    rw [declinedSend_vault, if_neg hreplaced, if_pos ⟨hunlocked, by rw [hhad]; rfl⟩, hlast,
      hhad] at hid
    exact Option.some.inj hid
  · intro h
    funext id
    rw [declinedSend_vault]
    split_ifs with hreplaced hopen
    · rfl
    · obtain ⟨plaintext, hhad⟩ := Option.isSome_iff_exists.mp hopen.2
      cases hlast : lastWrite (allUndoWrites stores (runPreScripts unlocked scripts stores).1
          (touchedBy scripts)) id with
      | none => rfl
      | some value =>
          have hvalue := h hopen.1 id plaintext value
            (fun r hr hid => hreplaced ⟨r, hr, hid⟩) hhad hlast
          rw [hhad, hvalue]
          rfl
    · rfl

/-! ## The rows after the scripts -/

/-- What is true of a name's rows once a script has changed it: they hold a reference, or there
is one at most. -/
def Settled (rows : List Row) (name : Text) : Prop :=
  isProtectedName rows name = true ∨ (rowsOf name rows).length ≤ 1

/-- A change settles its own name. -/
theorem settled_applyVariableChange_self (rows : List Row) (change : VariableChange) :
    Settled (applyVariableChange rows change) change.key := by
  have hrows := rowsOf_applyVariableChange_self rows change
  by_cases hskip : change.isLeftOut rows = true
  · rw [if_pos hskip] at hrows
    have hprot : isProtectedName rows change.key = true := by
      simp only [VariableChange.isLeftOut, Bool.and_eq_true] at hskip
      exact hskip.2
    exact Or.inl ((isProtectedName_congr hrows).trans hprot)
  · rw [if_neg hskip] at hrows
    right
    rw [hrows]
    split_ifs <;> simp

/-- A change leaves settled names settled. -/
theorem Settled.applyVariableChange {rows : List Row} {name : Text} (h : Settled rows name)
    (change : VariableChange) :
    Settled (applyVariableChange rows change) name := by
  by_cases hkey : change.key = name
  · exact hkey ▸ settled_applyVariableChange_self rows change
  · have hrows := rowsOf_applyVariableChange_of_ne hkey rows
    unfold Settled at h ⊢
    rwa [isProtectedName_congr hrows, hrows]

theorem Settled.applyVariableChanges {rows : List Row} {name : Text} (h : Settled rows name)
    (changes : List VariableChange) :
    Settled (applyVariableChanges rows changes) name := by
  induction changes generalizing rows with
  | nil => exact h
  | cons change changes ih => exact ih (h.applyVariableChange change)

/-- Changes settle every name they are about. -/
theorem settled_applyVariableChanges_of_mem {changes : List VariableChange} {name : Text}
    (h : name ∈ namesOf changes) (rows : List Row) :
    Settled (applyVariableChanges rows changes) name := by
  induction changes generalizing rows with
  | nil => simp [namesOf] at h
  | cons change changes ih =>
      show Settled (Wayfarer.applyVariableChanges (applyVariableChange rows change) changes) name
      rcases List.mem_cons.mp h with rfl | h
      · exact (settled_applyVariableChange_self rows change).applyVariableChanges changes
      · exact ih h _

theorem namesOf_markKept (mask : Text → Text) (changes : List VariableChange) :
    namesOf (markKept mask changes) = namesOf changes := by
  simp [namesOf, markKept]

/-- A script's changes settle every name they are about: a name that is not stored holds a
reference already. -/
theorem settled_storedRows_of_mem (mask : Text → Text) {changes : List VariableChange}
    {name : Text} (h : name ∈ namesOf changes) (rows : List Row) :
    Settled (storedRows mask rows changes) name := by
  obtain ⟨change, hchange, rfl⟩ := List.mem_map.mp h
  by_cases hstored : change.isStored rows = true
  · apply settled_applyVariableChanges_of_mem
    rw [namesOf_markKept]
    exact List.mem_map.mpr ⟨change, List.mem_filter.mpr ⟨hchange, hstored⟩, rfl⟩
  · have hprot : isProtectedName rows change.key = true := by
      simp only [VariableChange.isStored, Bool.or_eq_true, not_or, Bool.not_eq_true,
        Bool.not_eq_false'] at hstored
      exact hstored.2
    exact Settled.applyVariableChanges (Or.inl hprot) _

/-- A script's changes leave the rows of other names as they are. -/
theorem rowsOf_storedRows_of_not_mem (mask : Text → Text) {changes : List VariableChange}
    {name : Text} (h : name ∉ namesOf changes) (rows : List Row) :
    rowsOf name (storedRows mask rows changes) = rowsOf name rows := by
  apply rowsOf_applyVariableChanges_of_not_mem
  show name ∉ namesOf (markKept mask _)
  rw [namesOf_markKept]
  intro hmem
  obtain ⟨change, hchange, rfl⟩ := List.mem_map.mp hmem
  exact h (List.mem_map.mpr ⟨change, (List.mem_filter.mp hchange).1, rfl⟩)

/-- The rows of one store after several scripts. -/
def rowsAfter (rows : List Row) (scripts : List (List VariableChange)) : List Row :=
  scripts.foldl (storedRows fun t => t) rows

/-- Names no script touched keep their rows; touched names are settled. -/
theorem rowsAfter_spec (scripts : List (List VariableChange)) (rows : List Row) (name : Text) :
    (name ∉ namesOf scripts.flatten → rowsOf name (rowsAfter rows scripts) = rowsOf name rows) ∧
      (name ∈ namesOf scripts.flatten ∨ Settled rows name →
        Settled (rowsAfter rows scripts) name) := by
  induction scripts generalizing rows with
  | nil => simp [rowsAfter, namesOf]
  | cons changes scripts ih =>
      have hnames : namesOf (changes :: scripts).flatten =
          namesOf changes ++ namesOf scripts.flatten := by simp [namesOf]
      obtain ⟨hsame, hsettled⟩ := ih (storedRows (fun t => t) rows changes)
      rw [hnames]
      constructor
      · intro hnot
        rw [List.mem_append, not_or] at hnot
        exact (hsame hnot.2).trans (rowsOf_storedRows_of_not_mem _ hnot.1 rows)
      · intro h
        apply hsettled
        rcases h with h | h
        · rcases List.mem_append.mp h with h | h
          · exact Or.inr (settled_storedRows_of_mem _ h rows)
          · exact Or.inl h
        · exact Or.inr (h.applyVariableChanges _)

/-! ## The rows after the undoing -/

/-- The undoing's changes of one store. -/
def undoneRows (before after : List Row) (touched : List VariableChange) : List Row :=
  storedRows (fun t => t) after (was before touched)

/-- The undoing's change of a name, as it is stored. -/
def undoChange (before : List Row) (name : Text) : VariableChange :=
  { wasOf before name with keepSecret := true, enabled := true }

@[simp]
theorem key_wasOf (before : List Row) (name : Text) :
    (wasOf before name).key = name := by
  unfold wasOf
  cases scriptVariable? before name <;> rfl

@[simp]
theorem key_undoChange (before : List Row) (name : Text) :
    (undoChange before name).key = name :=
  key_wasOf before name

/-- The names whose change is stored: those to remove, and those that hold no reference. -/
def storedNames (before after : List Row) (touched : List Text) : List Text :=
  touched.filter fun name => (wasOf before name).isStored after

theorem undoneRows_eq (before after : List Row) (touched : List VariableChange) :
    undoneRows before after touched =
      applyVariableChanges after
        ((storedNames before after (namesOf touched)).map (undoChange before)) := by
  simp only [undoneRows, storedRows, was, markKept, storedNames, namesOf, List.filter_map,
    List.map_map]
  congr 2
  funext change
  simp only [Function.comp_apply, undoChange, wasOf]
  cases scriptVariable? before change.key with
  | none => rfl
  | some had => rfl

/-- A variable a script is given is one of the rows. -/
theorem exists_row_of_scriptVariable? {rows : List Row} {name : Text} {had : ScriptVariable}
    (h : scriptVariable? rows name = some had) :
    ∃ row ∈ rows, row.key = name ∧ had = ⟨row.key, row.value, row.json⟩ := by
  have hname : had.name = name := by simpa using List.find?_some h
  obtain ⟨entry, hentry, hvalue⟩ := List.mem_map.mp (List.mem_of_find?_eq_some h)
  obtain ⟨row, hrow, rfl⟩ := List.mem_map.mp (OrderedMap.mem_of_mem_entries_ofPairs hentry)
  refine ⟨row, (List.mem_filter.mp hrow).1, ?_, hvalue.symm⟩
  rw [← hname, ← hvalue]

/-- Its name is a row's. -/
theorem mem_of_scriptVariable? {rows : List Row} {name : Text} {had : ScriptVariable}
    (h : scriptVariable? rows name = some had) :
    name ∈ rows.map Row.key := by
  obtain ⟨row, hmem, rfl, -⟩ := exists_row_of_scriptVariable? h
  exact List.mem_map_of_mem hmem

/-- What the undoing leaves of a name whose change is stored. -/
def undoneName (before : List Row) (name : Text) : List Row :=
  match scriptVariable? before name with
  | none => []
  | some had => [{ key := name, value := had.value, enabled := true, json := had.json }]

/-- One of the undoing's changes leaves its name as it should be: where the name holds no
reference, or is so already. -/
theorem rowsOf_undoChange {before rows : List Row} {name : Text}
    (h : isProtectedName rows name = false ∨ scriptVariable? before name = none ∨
      rowsOf name rows = undoneName before name) :
    rowsOf name (applyVariableChange rows (undoChange before name)) = undoneName before name := by
  have hstep := rowsOf_applyVariableChange_self rows (undoChange before name)
  rw [key_undoChange] at hstep
  rw [hstep]
  cases hvar : scriptVariable? before name with
  | none =>
      have hvalue : (undoChange before name).value = none := by simp [undoChange, wasOf, hvar]
      simp [VariableChange.isLeftOut, hvalue, undoneName, hvar]
  | some had =>
      have hvalue : (undoChange before name).value = some had.value := by
        simp [undoChange, wasOf, hvar]
      have hmade : [(undoChange before name).made] = undoneName before name := by
        simp [undoneName, hvar, VariableChange.made, undoChange, wasOf]
      by_cases hskip : (undoChange before name).isLeftOut rows = true
      · rw [if_pos hskip]
        have hprot : isProtectedName rows name = true := by
          simp only [VariableChange.isLeftOut, Bool.and_eq_true, key_undoChange] at hskip
          exact hskip.2
        rcases h with h | h | h
        · simp [h] at hprot
        · simp [hvar] at h
        · exact h
      · rw [if_neg hskip, if_neg (by simp [hvalue]), hmade]

/-- What the undoing's changes do to each name. -/
theorem rowsOf_undoChanges (before : List Row) (names : List Text) (rows : List Row) (name : Text)
    (h : name ∈ names → isProtectedName rows name = false ∨ scriptVariable? before name = none ∨
      rowsOf name rows = undoneName before name) :
    rowsOf name (applyVariableChanges rows (names.map (undoChange before))) =
      if name ∈ names then undoneName before name else rowsOf name rows := by
  induction names generalizing rows with
  | nil => simp [applyVariableChanges]
  | cons other names ih =>
      show rowsOf name (applyVariableChanges (applyVariableChange rows (undoChange before other))
        (names.map (undoChange before))) = _
      by_cases hname : other = name
      · subst hname
        have hdone := rowsOf_undoChange (h (by simp))
        rw [ih _ fun _ => Or.inr (Or.inr hdone), hdone, ite_self, if_pos (by simp)]
      · have hsame : rowsOf name (applyVariableChange rows (undoChange before other)) =
            rowsOf name rows :=
          rowsOf_applyVariableChange_of_ne (by simpa using hname) rows
        have hmem : name ∈ other :: names ↔ name ∈ names := by
          simp [Ne.symm hname]
        rw [ih, hsame]
        · simp only [hmem]
        · intro hin
          rw [isProtectedName_congr hsame, hsame]
          exact h (by simp [hin])

/-- A name is undone exactly when the undoing gives back its rows. -/
theorem rowsOf_undoneRows_iff {before after : List Row} {touched : List VariableChange}
    {name : Text} (hname : name ∈ namesOf touched) :
    rowsOf name (undoneRows before after touched) = rowsOf name before ↔
      NameUndone before after name := by
  -- A change is taken back in the store of its scope unless the row is protected.
  have hstored : name ∈ storedNames before after (namesOf touched) ↔
      (wasOf before name).isStored after = true := by
    simp [storedNames, hname]
  rw [undoneRows_eq, rowsOf_undoChanges]
  · unfold NameUndone undoneName
    cases hvar : scriptVariable? before name with
    | none =>
        have hin : (wasOf before name).isStored after = true := by
          simp [VariableChange.isStored, wasOf, hvar]
        rw [if_pos (hstored.mpr hin)]
        exact eq_comm
    | some had =>
        have hin : (wasOf before name).isStored after = !isProtectedName after name := by
          simp [VariableChange.isStored, wasOf, hvar]
        by_cases hprot : isProtectedName after name = true
        · have hnot : name ∉ storedNames before after (namesOf touched) := by
            rw [hstored, hin, hprot]
            decide
          rw [if_neg hnot]
          simp only [hprot, if_true]
        · have hyes : name ∈ storedNames before after (namesOf touched) := by
            rw [hstored, hin]
            simpa using hprot
          rw [if_pos hyes]
          simp only [if_neg hprot]
          exact eq_comm
  · -- A name left out of the undo had no row before, or its row is protected.
    intro hmem
    rw [hstored] at hmem
    simp only [VariableChange.isStored, key_wasOf, Bool.or_eq_true, Bool.not_eq_true'] at hmem
    rcases hmem with hnone | hprot
    · right
      left
      unfold wasOf at hnone
      cases hvar : scriptVariable? before name with
      | none => rfl
      | some had => simp [hvar] at hnone
    · exact Or.inl hprot

/-! ## The order after the undoing -/

/-- Whether a script was given a variable of the name. -/
def hadVariable (before : List Row) (name : Text) : Bool :=
  (scriptVariable? before name).isSome

/-- The order of the names after the undoing's changes, where no name they set has several rows:
the names to remove are out, the others are put at the end unless they are there. -/
theorem map_key_undoChanges (before : List Row) (names : List Text) (rows : List Row)
    (h : ∀ name ∈ names, hadVariable before name = true → (rowsOf name rows).length ≤ 1) :
    (applyVariableChanges rows (names.map (undoChange before))).map Row.key =
      (names.filter (hadVariable before)).foldl appendNew
        ((rows.map Row.key).filter fun name =>
          !(names.filter fun other => !hadVariable before other).contains name) := by
  induction names generalizing rows with
  | nil => simp [applyVariableChanges]
  | cons name names ih =>
      show (applyVariableChanges (applyVariableChange rows (undoChange before name))
        (names.map (undoChange before))).map Row.key = _
      have hvalue : (undoChange before name).value = none ↔ hadVariable before name = false := by
        unfold undoChange wasOf hadVariable
        cases scriptVariable? before name <;> simp
      -- No name that had a variable has two rows, so a change finds one row or takes all of them
      -- out.
      have hcase : (undoChange before name).isLeftOut rows = true ∨
          (undoChange before name).value = none ∨
            (rowsOf (undoChange before name).key rows).length ≤ 1 := by
        rw [hvalue, key_undoChange]
        rcases Bool.eq_false_or_eq_true (hadVariable before name) with hyes | hno
        · exact Or.inr (Or.inr (h name (by simp) hyes))
        · exact Or.inr (Or.inl hno)
      have hfirst := map_key_applyVariableChange hcase
      rw [key_undoChange] at hfirst
      -- The first change leaves at most one row of each other name.
      have hrest : ∀ other ∈ names, hadVariable before other = true →
          (rowsOf other (applyVariableChange rows (undoChange before name))).length ≤ 1 := by
        intro other hother hhad
        have hlen := h other (by simp [hother]) hhad
        by_cases heq : name = other
        · subst heq
          have hself := rowsOf_applyVariableChange_self rows (undoChange before name)
          rw [key_undoChange] at hself
          rw [hself]
          split_ifs
          · exact hlen
          · simp
          · simp
        · rwa [rowsOf_applyVariableChange_of_ne (by simpa using heq)]
      rw [ih _ hrest, hfirst]
      -- A name that had a variable keeps its place, another one goes.
      rcases Bool.eq_false_or_eq_true (hadVariable before name) with hyes | hno
      · have hnone : ¬ (undoChange before name).value = none := by simp [hvalue, hyes]
        have hstays : ∀ k ∈ [name],
            (!(names.filter fun other => !hadVariable before other).contains k) = true := by
          simp [hyes]
        have hkeep := @filter_foldl_appendNew _ _ [name] (rows.map Row.key) _ hstays
        rw [if_neg hnone]
        simp only [List.foldl_cons, List.foldl_nil] at hkeep
        rw [hkeep, List.filter_cons_of_pos hyes, List.foldl_cons,
          List.filter_cons_of_neg (by simp [hyes])]
      · have hnone : (undoChange before name).value = none := hvalue.mpr hno
        have hset : (name :: names).filter (hadVariable before) =
            names.filter (hadVariable before) := List.filter_cons_of_neg (by simp [hno])
        have hout : (name :: names).filter (fun other => !hadVariable before other) =
            name :: names.filter fun other => !hadVariable before other :=
          List.filter_cons_of_pos (by simp [hno])
        rw [if_pos hnone, hset, hout, List.filter_filter]
        congr 2
        funext other
        by_cases heq : other = name
        · simp [heq]
        · simp [heq]

/-- The undoing gives back a list of variables exactly when its names and their order are
undone, where names no script touched have kept their rows and touched names are settled. -/
theorem undoneRows_eq_iff {before after : List Row} {touched : List VariableChange}
    (huntouched : ∀ name, name ∉ namesOf touched → rowsOf name after = rowsOf name before)
    (hsettled : ∀ name ∈ namesOf touched, Settled after name) :
    undoneRows before after touched = before ↔ RowsUndone before after (namesOf touched) := by
  have hnames : (∀ name, rowsOf name (undoneRows before after touched) = rowsOf name before) ↔
      ∀ name ∈ namesOf touched, NameUndone before after name := by
    constructor
    · intro h name hname
      exact (rowsOf_undoneRows_iff hname).mp (h name)
    · intro h name
      by_cases hname : name ∈ namesOf touched
      · exact (rowsOf_undoneRows_iff hname).mpr (h name hname)
      · have hkept : name ∉ namesOf (was before touched) := by
          simpa [namesOf, was] using hname
        exact (rowsOf_storedRows_of_not_mem _ hkept after).trans (huntouched name hname)
  have horder : (∀ name ∈ namesOf touched, NameUndone before after name) →
      ((undoneRows before after touched).map Row.key = before.map Row.key ↔
        OrderUndone before after (namesOf touched)) := by
    intro hundone
    -- Of the touched names, those the rows had are those a script was given.
    have hhad : ∀ name ∈ namesOf touched,
        (hadVariable before name = true ↔ name ∈ before.map Row.key) := by
      intro name hname
      have hone := hundone name hname
      unfold NameUndone at hone
      unfold hadVariable
      cases hvar : scriptVariable? before name with
      | none =>
          rw [hvar] at hone
          simpa using rowsOf_eq_nil_iff.mp hone
      | some had => simpa using mem_of_scriptVariable? hvar
    have hlength : ∀ name ∈ storedNames before after (namesOf touched),
        hadVariable before name = true → (rowsOf name after).length ≤ 1 := by
      intro name hname hyes
      obtain ⟨htouched, hstored⟩ := List.mem_filter.mp hname
      rcases hsettled name htouched with hprot | hlen
      · simp only [VariableChange.isStored, key_wasOf, hprot] at hstored
        unfold hadVariable at hyes
        unfold wasOf at hstored
        cases hvar : scriptVariable? before name with
        | none => simp [hvar] at hyes
        | some had => simp [hvar] at hstored
      · exact hlen
    rw [undoneRows_eq, map_key_undoChanges before _ after hlength]
    have hfilter : ((after.map Row.key).filter fun name =>
        !((storedNames before after (namesOf touched)).filter fun other =>
          !hadVariable before other).contains name) =
        (after.map Row.key).filter fun name => name ∈ before.map Row.key := by
      apply List.filter_congr
      intro name hname
      have hiff : name ∈ (storedNames before after (namesOf touched)).filter
          (fun other => !hadVariable before other) ↔ name ∉ before.map Row.key := by
        simp only [List.mem_filter, storedNames, Bool.not_eq_true', and_assoc]
        constructor
        · rintro ⟨htouched, -, hno⟩ hin
          have := (hhad name htouched).mpr hin
          simp [this] at hno
        · intro hnot
          have htouched : name ∈ namesOf touched := by
            by_contra hun
            have hrows := huntouched name hun
            rw [rowsOf_eq_nil_iff.mpr hnot, rowsOf_eq_nil_iff] at hrows
            exact hrows hname
          have hno : hadVariable before name = false := by
            rw [← Bool.not_eq_true, hhad name htouched]
            exact hnot
          refine ⟨htouched, ?_, hno⟩
          unfold hadVariable at hno
          unfold VariableChange.isStored wasOf
          cases hvar : scriptVariable? before name with
          | none => rfl
          | some had => simp [hvar] at hno
      rw [Bool.eq_iff_iff, Bool.not_eq_true', ← Bool.not_eq_true, List.contains_iff_mem, hiff,
        not_not, decide_eq_true_eq]
    have hadd : ((storedNames before after (namesOf touched)).filter (hadVariable before)) =
        ((namesOf touched).filter fun name => name ∈ before.map Row.key).filter fun name =>
          !isProtectedName after name := by
      rw [storedNames, List.filter_filter, List.filter_filter]
      apply List.filter_congr
      intro name hname
      have hiff := hhad name hname
      unfold hadVariable at hiff ⊢
      unfold VariableChange.isStored wasOf
      cases hvar : scriptVariable? before name with
      | none =>
          rw [hvar] at hiff
          have hnot : name ∉ before.map Row.key := fun hin => by simpa using hiff.mpr hin
          simp [hnot]
      | some had =>
          rw [hvar] at hiff
          have hin : name ∈ before.map Row.key := hiff.mp rfl
          simp only [Option.isSome_some, Bool.true_and, Option.isNone_some, Bool.false_or, hin,
            decide_true, Bool.and_true]
    rw [hfilter, hadd, foldl_appendNew_filter]
    · exact eq_comm
    · -- A name that holds a reference after the scripts stands there still.
      intro name hname hprot
      obtain ⟨-, hin⟩ := List.mem_filter.mp hname
      have hprot : isProtectedName after name = true := by simpa using hprot
      obtain ⟨row, hrow, -⟩ := isProtectedName_iff.mp hprot
      obtain ⟨hmem, hkey⟩ := mem_rowsOf.mp hrow
      exact List.mem_filter.mpr ⟨List.mem_map.mpr ⟨row, hmem, hkey⟩, hin⟩
  constructor
  · intro h
    have hparts := (keyed_ext Row.key).mp h
    have hundone := hnames.mp hparts.2
    exact ⟨hundone, (horder hundone).mp hparts.1⟩
  · rintro ⟨hundone, hkept⟩
    exact (keyed_ext Row.key).mpr ⟨(horder hundone).mpr hkept, hnames.mpr hundone⟩

/-! ## A whole send -/

theorem touchedBy_globals (scripts : List ScriptChanges) :
    (touchedBy scripts).globals = (scripts.map ScriptChanges.globals).flatten := by
  induction scripts with
  | nil => rfl
  | cons changes scripts ih => exact congrArg (changes.globals ++ ·) ih

theorem touchedBy_environment (scripts : List ScriptChanges) :
    (touchedBy scripts).environment = (scripts.map ScriptChanges.environment).flatten := by
  induction scripts with
  | nil => rfl
  | cons changes scripts ih => exact congrArg (changes.environment ++ ·) ih

theorem touchedBy_collection (scripts : List ScriptChanges) :
    (touchedBy scripts).collection = (scripts.map ScriptChanges.collection).flatten := by
  induction scripts with
  | nil => rfl
  | cons changes scripts ih => exact congrArg (changes.collection ++ ·) ih

/-- Each store's rows after the scripts are its own scripts' work. -/
theorem runPreScripts_rows (unlocked : Bool) (scripts : List ScriptChanges)
    (stores : VariableStores) :
    (runPreScripts unlocked scripts stores).1.globals =
        rowsAfter stores.globals (scripts.map ScriptChanges.globals) ∧
      (runPreScripts unlocked scripts stores).1.environment =
        stores.environment.map (rowsAfter · (scripts.map ScriptChanges.environment)) ∧
      (runPreScripts unlocked scripts stores).1.collection =
        stores.collection.map (rowsAfter · (scripts.map ScriptChanges.collection)) := by
  induction scripts generalizing stores with
  | nil => simp [runPreScripts, rowsAfter]
  | cons changes scripts ih =>
      obtain ⟨hglobals, henvironment, hcollection⟩ :=
        ih (applyChanges (fun t => t) unlocked stores changes).1
      rw [applyChanges_eq] at hglobals henvironment hcollection
      refine ⟨?_, ?_, ?_⟩
      · rw [runPreScripts, applyChanges_eq]
        exact hglobals
      · rw [runPreScripts, applyChanges_eq]
        dsimp only at henvironment ⊢
        rw [henvironment, Option.map_map]
        rfl
      · rw [runPreScripts, applyChanges_eq]
        dsimp only at hcollection ⊢
        rw [hcollection, Option.map_map]
        rfl

/-- A store's rows after the scripts and the undoing are those it had exactly
when they are undone. -/
theorem undoneRows_rowsAfter_iff (rows : List Row) (scripts : List (List VariableChange)) :
    undoneRows rows (rowsAfter rows scripts) scripts.flatten = rows ↔
      RowsUndone rows (rowsAfter rows scripts) (namesOf scripts.flatten) := by
  apply undoneRows_eq_iff
  · intro name hname
    exact (rowsAfter_spec scripts rows name).1 hname
  · intro name hname
    exact (rowsAfter_spec scripts rows name).2 (Or.inl hname)

/-- The same of a store there may not be. -/
theorem undoneStore_iff (store : Option (List Row)) (scripts : List (List VariableChange)) :
    (store.map (rowsAfter · scripts)).map
        (fun rows => storedRows (fun t => t) rows (was (store.getD []) scripts.flatten)) = store ↔
      StoreUndone store (store.map (rowsAfter · scripts)) (namesOf scripts.flatten) := by
  cases store with
  | none => simp [StoreUndone]
  | some rows =>
      have hrows := undoneRows_rowsAfter_iff rows scripts
      unfold undoneRows at hrows
      simp only [Option.map_some, Option.getD_some, Option.some.injEq, StoreUndone, hrows,
        forall_eq', forall_apply_eq_imp_iff]

/-- A declined send gives the stores back exactly when it is undone. -/
theorem declinedSend_eq_iff (unlocked : Bool) (scripts : List ScriptChanges)
    (stores : VariableStores) :
    declinedSend unlocked scripts stores = stores ↔ SendUndone unlocked scripts stores := by
  obtain ⟨hglobals, henvironment, hcollection⟩ := runPreScripts_rows unlocked scripts stores
  have hparts : declinedSend unlocked scripts stores = stores ↔
      (declinedSend unlocked scripts stores).environment = stores.environment ∧
      (declinedSend unlocked scripts stores).globals = stores.globals ∧
      (declinedSend unlocked scripts stores).collection = stores.collection ∧
      (declinedSend unlocked scripts stores).vault = stores.vault := by
    constructor
    · intro h
      rw [h]
      exact ⟨rfl, rfl, rfl, rfl⟩
    · rintro ⟨h1, h2, h3, h4⟩
      cases hd : declinedSend unlocked scripts stores
      cases stores
      simp_all
  -- Store by store: what the scripts changed there, and what the undo takes back of it.
  have hfirst : (declinedSend unlocked scripts stores).environment = stores.environment ↔
      StoreUndone stores.environment (runPreScripts unlocked scripts stores).1.environment
        (namesOf (touchedBy scripts).environment) := by
    rw [declinedSend, undo, applyChanges_eq]
    dsimp only
    rw [henvironment, touchedBy_environment]
    exact undoneStore_iff stores.environment (scripts.map ScriptChanges.environment)
  have hsecond : (declinedSend unlocked scripts stores).globals = stores.globals ↔
      RowsUndone stores.globals (runPreScripts unlocked scripts stores).1.globals
        (namesOf (touchedBy scripts).globals) := by
    rw [declinedSend, undo, applyChanges_eq]
    dsimp only
    rw [hglobals, touchedBy_globals]
    exact undoneRows_rowsAfter_iff stores.globals (scripts.map ScriptChanges.globals)
  have hthird : (declinedSend unlocked scripts stores).collection = stores.collection ↔
      StoreUndone stores.collection (runPreScripts unlocked scripts stores).1.collection
        (namesOf (touchedBy scripts).collection) := by
    rw [declinedSend, undo, applyChanges_eq]
    dsimp only
    rw [hcollection, touchedBy_collection]
    exact undoneStore_iff stores.collection (scripts.map ScriptChanges.collection)
  rw [hparts, hfirst, hsecond, hthird, declinedSend_vault_eq_iff]
  constructor
  · rintro ⟨h1, h2, h3, h4⟩
    exact ⟨h1, h2, h3, h4⟩
  · rintro ⟨h1, h2, h3, h4⟩
    exact ⟨h1, h2, h3, h4⟩

/-! ## A secret written over -/

/-- An environment with a protected variable and a plain one, and the vault's secret. -/
def copiedReferenceStores : VariableStores where
  environment := some
    [{ key := units "token", value := units "\x7b\x7b$secret.a1\x7d\x7d", enabled := true },
      { key := units "copy", value := units "plain", enabled := true }]
  globals := []
  collection := none
  vault id := if id = units "a1" then some (units "s3cret") else none

/-- A script that copies the protected variable into the plain one: it is given the reference. -/
def copyReference : ScriptChanges where
  environment := [{ key := units "copy", value := some (units "\x7b\x7b$secret.a1\x7d\x7d") }]
  globals := []
  collection := []

/-- The undoing takes the plain variable's old value for the protected one's: it ends up in the
vault, in the place of the secret. -/
theorem declinedSend_loses_secret :
    (declinedSend true [copyReference] copiedReferenceStores).vault (units "a1") =
        some (units "plain") ∧
      copiedReferenceStores.vault (units "a1") = some (units "s3cret") ∧
      declinedSend true [copyReference] copiedReferenceStores ≠ copiedReferenceStores := by
  have hafter : (declinedSend true [copyReference] copiedReferenceStores).vault (units "a1") =
      some (units "plain") := by decide +kernel
  have hbefore : copiedReferenceStores.vault (units "a1") = some (units "s3cret") := by
    decide +kernel
  refine ⟨hafter, hbefore, fun h => ?_⟩
  rw [h, hbefore] at hafter
  exact absurd hafter (by decide)

end Wayfarer
