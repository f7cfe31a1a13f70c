import Wayfarer.Store.Files
import Wayfarer.Store.Tree

/-!
# An undo gives back what was there

A delete takes documents out of the stores, and an undo writes them again: `Lacks` says what is
missing in between, and `Lacks.putBack` what one undo gives back. `undo_restores` has it for every
delete, and for an import over a stored collection: everything is back except a folder or a request
that was taken out and is of no stored collection, and each file that a stored request names is.
-/

set_option autoImplicit false

namespace Wayfarer

open Library

/-- A document is of a stored collection. -/
def Housed (stores : CollectionStores) (doc : Doc) : Prop :=
  ∃ collection ∈ stores.collections, Doc.metaId collection = Doc.collectionId doc

/-- A workspace from which some documents are missing, and of the files none that a
request left in it names. -/
structure Lacks (whole w : Workspace) (collections folders requests : Doc → Prop) : Prop where
  collections : ∀ doc, doc ∈ w.stores.collections ↔
    doc ∈ whole.stores.collections ∧ ¬ collections doc
  folders : ∀ doc, doc ∈ w.stores.folders ↔ doc ∈ whole.stores.folders ∧ ¬ folders doc
  requests : ∀ doc, doc ∈ w.stores.requests ↔ doc ∈ whole.stores.requests ∧ ¬ requests doc
  files : ∀ file ∈ w.files, file ∈ whole.files
  filesKept : ∀ file ∈ whole.files, FileNamed w.stores.requests file.1 → file ∈ w.files

/-- What was taken out was stored. -/
structure TakenFrom (whole : Workspace) (removed : Removed) : Prop where
  collections : ∀ doc ∈ removed.collections, doc ∈ whole.stores.collections
  folders : ∀ doc ∈ removed.folders, doc ∈ whole.stores.folders
  requests : ∀ doc ∈ removed.requests, doc ∈ whole.stores.requests

/-- What an undo gave back: everything, except a folder or a request that was taken out and is of no
stored collection; and each file that a request now stored names. -/
structure Restored (before after : Workspace) (gone : List Removed) : Prop where
  collections : ∀ doc, doc ∈ after.stores.collections ↔ doc ∈ before.stores.collections
  folders : ∀ doc, doc ∈ after.stores.folders ↔
    doc ∈ before.stores.folders ∧
      ((∃ removed ∈ gone, doc ∈ removed.folders) → Housed before.stores doc)
  requests : ∀ doc, doc ∈ after.stores.requests ↔
    doc ∈ before.stores.requests ∧
      ((∃ removed ∈ gone, doc ∈ removed.requests) → Housed before.stores doc)
  files : ∀ file, FileNamed after.stores.requests file.1 →
    (file ∈ after.files ↔ file ∈ before.files)
  noOther : ∀ file ∈ after.files, file ∈ before.files

section Undo

variable {whole w : Workspace}

/-- One table after some documents of it were put back. -/
theorem mem_putBack_table {table before : DocTable} {gone : Doc → Prop} {docs : List Doc}
    {back : Doc → Bool} (h : ∀ doc, doc ∈ table ↔ doc ∈ before ∧ ¬ gone doc)
    (hdocs : ∀ doc ∈ docs, doc ∈ before) (doc : Doc) :
    doc ∈ table.putAll (docs.filter back) ↔
      doc ∈ before ∧ ¬ (gone doc ∧ ¬ (doc ∈ docs ∧ back doc = true)) := by
  have hback : ∀ doc ∈ docs.filter back, doc ∈ before :=
    fun doc hdoc => hdocs doc (List.mem_of_mem_filter hdoc)
  rw [Table.mem_putAll_of_subset (fun doc hdoc => ((h doc).mp hdoc).1) hback, List.mem_filter, h]
  constructor
  · rintro (⟨hdoc, hin⟩ | ⟨hdoc, hstays⟩)
    · exact ⟨hdocs doc hdoc, fun hgone => hgone.2 ⟨hdoc, hin⟩⟩
    · exact ⟨hdoc, fun hgone => hstays hgone.1⟩
  · rintro ⟨hdoc, hnot⟩
    by_cases hgone : gone doc
    · exact Or.inl (not_not.mp fun hout => hnot ⟨hgone, hout⟩)
    · exact Or.inr ⟨hdoc, hgone⟩

/-- What one undo gives back: its collections, and of its folders and requests those whose
collection is stored then. -/
theorem Lacks.putBack {collections folders requests : Doc → Prop} {removed : Removed}
    (h : Lacks whole w collections folders requests) (htaken : TakenFrom whole removed) :
    Lacks whole (w.putBack (whole.withFiles removed))
      (fun doc => collections doc ∧ doc ∉ removed.collections)
      (fun doc => folders doc ∧ ¬ (doc ∈ removed.folders ∧
        Housed (w.putBack (whole.withFiles removed)).stores doc))
      (fun doc => requests doc ∧ ¬ (doc ∈ removed.requests ∧
        Housed (w.putBack (whole.withFiles removed)).stores doc)) := by
  have hhoused : ∀ doc, ((w.stores.collections.putAll removed.collections).get?
      (Doc.collectionId doc)).isSome = true ↔
      Housed (w.putBack (whole.withFiles removed)).stores doc := by
    intro doc
    rw [Option.isSome_iff_exists]
    exact exists_congr fun collection => Table.get?_eq_some_iff
  have hrequests : ∀ doc, doc ∈ (w.putBack (whole.withFiles removed)).stores.requests ↔
      doc ∈ whole.stores.requests ∧ ¬ (requests doc ∧ ¬ (doc ∈ removed.requests ∧
        Housed (w.putBack (whole.withFiles removed)).stores doc)) := by
    intro doc
    rw [← hhoused]
    exact mem_putBack_table h.requests htaken.requests doc
  have hfiles : ∀ file ∈ whole.filesOf removed.requests, file ∈ whole.files :=
    fun file hfile => (mem_filesOf.mp hfile).1
  constructor
  · intro doc
    have hmem : doc ∈ (w.putBack (whole.withFiles removed)).stores.collections ↔
        doc ∈ removed.collections ∨ doc ∈ w.stores.collections :=
      Table.mem_putAll_of_subset (fun doc hdoc => ((h.collections doc).mp hdoc).1)
        htaken.collections
    rw [hmem, h.collections]
    constructor
    · rintro (hdoc | ⟨hdoc, hstays⟩)
      · exact ⟨htaken.collections doc hdoc, fun hgone => hgone.2 hdoc⟩
      · exact ⟨hdoc, fun hgone => hstays hgone.1⟩
    · rintro ⟨hdoc, hnot⟩
      by_cases hgone : collections doc
      · exact Or.inl (not_not.mp fun hout => hnot ⟨hgone, hout⟩)
      · exact Or.inr ⟨hdoc, hgone⟩
  · intro doc
    rw [← hhoused]
    exact mem_putBack_table h.folders htaken.folders doc
  · exact hrequests
  · intro file hfile
    unfold Workspace.putBack at hfile
    dsimp only at hfile
    split_ifs at hfile with hempty
    · exact h.files file hfile
    · rcases (Table.mem_putAll_of_subset h.files hfiles).mp hfile with hback | hstays
      · exact hfiles file hback
      · exact h.files file hstays
  · intro file hfile hnamed
    obtain ⟨request, hrequest, hid⟩ := hnamed
    unfold Workspace.putBack
    dsimp only
    by_cases hgone : requests request
    · -- The request was put back, so its files were.
      have hback := not_not.mp fun hout => ((hrequests request).mp hrequest).2 ⟨hgone, hout⟩
      have hin : request ∈ removed.requests.filter fun request =>
          ((w.stores.collections.putAll removed.collections).get?
            (Doc.collectionId request)).isSome :=
        List.mem_filter.mpr ⟨hback.1, (hhoused request).mpr hback.2⟩
      split_ifs with hempty
      · exact absurd (List.isEmpty_iff.mp hempty) (List.ne_nil_of_mem hin)
      · refine (Table.mem_putAll_of_subset h.files hfiles).mpr (Or.inl ?_)
        exact mem_filesOf.mpr ⟨hfile, request, hback.1, hid⟩
    · have hkept := h.filesKept file hfile
        ⟨request, (h.requests request).mpr ⟨((hrequests request).mp hrequest).1, hgone⟩, hid⟩
      split_ifs
      · exact hkept
      · exact (Table.mem_putAll_of_subset h.files hfiles).mpr (Or.inr hkept)

/-- What is missing, said in other words. -/
theorem Lacks.congr {collections collections' folders folders' requests requests' : Doc → Prop}
    (h : Lacks whole w collections folders requests)
    (hcollections : ∀ doc ∈ whole.stores.collections, collections doc ↔ collections' doc)
    (hfolders : ∀ doc ∈ whole.stores.folders, folders doc ↔ folders' doc)
    (hrequests : ∀ doc ∈ whole.stores.requests, requests doc ↔ requests' doc) :
    Lacks whole w collections' folders' requests' where
  collections doc := by
    rw [h.collections]
    exact and_congr_right fun hdoc => not_congr (hcollections doc hdoc)
  folders doc := by
    rw [h.folders]
    exact and_congr_right fun hdoc => not_congr (hfolders doc hdoc)
  requests doc := by
    rw [h.requests]
    exact and_congr_right fun hdoc => not_congr (hrequests doc hdoc)
  files := h.files
  filesKept := h.filesKept

/-- A workspace whose files were swept lacks none that a request left in it names. -/
theorem lacks_of_swept {collections folders requests : Doc → Prop}
    (hcollections : ∀ doc, doc ∈ w.stores.collections ↔
      doc ∈ whole.stores.collections ∧ ¬ collections doc)
    (hfolders : ∀ doc, doc ∈ w.stores.folders ↔ doc ∈ whole.stores.folders ∧ ¬ folders doc)
    (hrequests : ∀ doc, doc ∈ w.stores.requests ↔ doc ∈ whole.stores.requests ∧ ¬ requests doc)
    (hfiles : ∀ file, file ∈ w.files ↔ file ∈ whole.files ∧ FileNamed w.stores.requests file.1) :
    Lacks whole w collections folders requests where
  collections := hcollections
  folders := hfolders
  requests := hrequests
  files file hfile := ((hfiles file).mp hfile).1
  filesKept file hfile hnamed := (hfiles file).mpr ⟨hfile, hnamed⟩

/-- Nothing but what is of no stored collection is missing: the workspace is restored. -/
theorem Lacks.restored {gone : List Removed}
    (h : Lacks whole w (fun _ => False)
      (fun doc => (∃ removed ∈ gone, doc ∈ removed.folders) ∧ ¬ Housed whole.stores doc)
      (fun doc => (∃ removed ∈ gone, doc ∈ removed.requests) ∧ ¬ Housed whole.stores doc)) :
    Restored whole w gone where
  collections doc := by
    rw [h.collections]
    exact and_iff_left not_false
  folders doc := by
    rw [h.folders, not_and_not_right]
  requests doc := by
    rw [h.requests, not_and_not_right]
  files file hnamed :=
    ⟨h.files file, fun hfile => h.filesKept file hfile hnamed⟩
  noOther := h.files

/-- With the collections back, a document is of a stored collection exactly when it was. -/
theorem Lacks.housed_iff {collections folders requests : Doc → Prop}
    (h : Lacks whole w collections folders requests)
    (hall : ∀ doc ∈ whole.stores.collections, ¬ collections doc) (doc : Doc) :
    Housed w.stores doc ↔ Housed whole.stores doc := by
  constructor
  · rintro ⟨collection, hmem, hkey⟩
    exact ⟨collection, ((h.collections collection).mp hmem).1, hkey⟩
  · rintro ⟨collection, hmem, hkey⟩
    exact ⟨collection, (h.collections collection).mpr ⟨hmem, hall collection hmem⟩, hkey⟩

/-! ## Deletes -/

/-- What was taken out of a workspace put back at once. -/
theorem restored_of_taken {stores : CollectionStores} {removed : Removed}
    (htaken : TakenFrom w removed)
    (hcollections : ∀ doc, doc ∈ stores.collections ↔
      doc ∈ w.stores.collections ∧ doc ∉ removed.collections)
    (hfolders : stores.folders = w.stores.folders.deleteAll (removed.folders.map Doc.metaId))
    (hrequests : stores.requests = w.stores.requests.deleteAll (removed.requests.map Doc.metaId)) :
    Restored w ((w.afterDelete (stores, removed)).1.putBack (w.afterDelete (stores, removed)).2)
      [removed] := by
  have hlacks : Lacks w (w.afterDelete (stores, removed)).1 (· ∈ removed.collections)
      (· ∈ removed.folders) (· ∈ removed.requests) := by
    apply lacks_of_swept hcollections
    · intro doc
      rw [show (w.afterDelete (stores, removed)).1.stores.folders = stores.folders from rfl,
        hfolders, Table.mem_deleteAll_of_subset htaken.folders]
    · intro doc
      rw [show (w.afterDelete (stores, removed)).1.stores.requests = stores.requests from rfl,
        hrequests, Table.mem_deleteAll_of_subset htaken.requests]
    · exact fun file => mem_sweepFiles
  have hback := hlacks.putBack htaken
  have hhoused := hback.housed_iff fun doc _ hgone => hgone.2 hgone.1
  apply Lacks.restored
  apply hback.congr
  · intro doc _
    exact iff_false_intro fun hgone => hgone.2 hgone.1
  · intro doc _
    rw [hhoused]
    simp only [List.mem_singleton, exists_eq_left]
    exact and_congr_right fun hdoc => not_congr (and_iff_right hdoc)
  · intro doc _
    rw [hhoused]
    simp only [List.mem_singleton, exists_eq_left]
    exact and_congr_right fun hdoc => not_congr (and_iff_right hdoc)

theorem restored_deleteCollection (id : Text) :
    Restored w ((w.deleteCollection id).1.putBack (w.deleteCollection id).2)
      [(w.stores.deleteCollection id).2] := by
  have hof : ∀ (table : DocTable) (doc : Doc),
      doc ∈ CollectionStores.ofCollection table id → doc ∈ table :=
    fun table doc hdoc => (Table.mem_getAll.mp hdoc).1
  refine restored_of_taken ⟨?_, hof _, hof _⟩ ?_ rfl rfl
  · intro doc hdoc
    exact (Table.get?_eq_some_iff.mp (Option.mem_toList.mp hdoc)).1
  · intro doc
    have hout : doc ∈ w.stores.collections →
        (doc ∈ (w.stores.collections.get? id).toList ↔ Doc.metaId doc = id) := by
      intro hdoc
      rw [Option.mem_toList, Table.get?_eq_some_iff]
      exact and_iff_right hdoc
    refine Table.mem_delete.trans (and_congr_right fun hdoc => ?_)
    exact not_congr (hout hdoc).symm

theorem restored_deleteFolder (id : Text) :
    Restored w ((w.deleteFolder id).1.putBack (w.deleteFolder id).2)
      [(w.stores.deleteFolder id).2] := by
  refine restored_of_taken ⟨fun _ hdoc => absurd hdoc List.not_mem_nil,
    fun _ => mem_of_deletedFolder, ?_⟩ ?_ rfl rfl
  · intro doc hdoc
    obtain ⟨folder, -, hin⟩ := List.mem_flatMap.mp hdoc
    exact (mem_requestsIn.mp hin).1
  · exact fun doc => (and_iff_left (List.not_mem_nil)).symm

theorem restored_deleteRequest (id : Text) :
    Restored w ((w.deleteRequest id).1.putBack (w.deleteRequest id).2)
      [(w.stores.deleteRequest id).2] := by
  have hlist : w.stores.requests.delete id = w.stores.requests.deleteAll
      ((w.stores.requests.get? id).toList.map Doc.metaId) := by
    cases hget : w.stores.requests.get? id with
    | some request =>
        obtain ⟨-, rfl⟩ := Table.get?_eq_some_iff.mp hget
        rfl
    | none =>
        have hnone := Table.get?_eq_none_iff.mp hget
        have hrows : (w.stores.requests.delete id).rows = w.stores.requests.rows :=
          List.filter_eq_self.mpr fun doc hdoc => decide_eq_true (hnone doc hdoc)
        cases hrequests : w.stores.requests with
        | mk rows nodup =>
            rw [hrequests] at hrows
            simp only [Table.delete] at hrows ⊢
            simp only [Option.toList_none, List.map_nil, Table.deleteAll, List.foldl_nil, hrows]
  refine restored_of_taken ⟨fun _ hdoc => absurd hdoc List.not_mem_nil,
    fun _ hdoc => absurd hdoc List.not_mem_nil, ?_⟩ ?_ rfl hlist
  · intro doc hdoc
    exact (Table.get?_eq_some_iff.mp (Option.mem_toList.mp hdoc)).1
  · exact fun doc => (and_iff_left (List.not_mem_nil)).symm

/-! ## An import over a stored collection -/

section Import

variable {c : Text} {docs stored : List Doc} {table cleared : DocTable}

/-- What is left of a table once an import wrote to it and what it wrote was deleted: what is of
another collection and was not written over. -/
theorem mem_left_of_import
    (hcleared : cleared = table.deleteAll ((CollectionStores.ofCollection table c).map Doc.metaId))
    (hkeys : stored.map Doc.metaId = docs.map Doc.metaId)
    (hof : ∀ doc ∈ stored, Doc.collectionId doc = c) (doc : Doc) :
    doc ∈ (cleared.putAll stored).deleteAll
        ((CollectionStores.ofCollection (cleared.putAll stored) c).map Doc.metaId) ↔
      doc ∈ table ∧ ¬ (Doc.collectionId doc = c ∨ Doc.metaId doc ∈ docs.map Doc.metaId) := by
  have hofCollection : ∀ (t : DocTable) (doc : Doc),
      doc ∈ t.deleteAll ((CollectionStores.ofCollection t c).map Doc.metaId) ↔
        doc ∈ t ∧ Doc.collectionId doc ≠ c := by
    intro t doc
    have hin : ∀ doc ∈ CollectionStores.ofCollection t c, doc ∈ t :=
      fun doc hdoc => (Table.mem_getAll.mp hdoc).1
    rw [Table.mem_deleteAll_of_subset hin, CollectionStores.ofCollection, Table.mem_getAll,
      decide_eq_true_iff]
    exact and_congr_right fun hdoc => not_congr (and_iff_right hdoc)
  rw [hofCollection, Table.mem_putAll, hcleared, hofCollection, hkeys, not_or]
  constructor
  · rintro ⟨hlast | ⟨⟨hdoc, -⟩, hkey⟩, hc⟩
    · exact absurd (hof doc (Table.lastOf_mem hlast).1) hc
    · exact ⟨hdoc, hc, hkey⟩
  · rintro ⟨hdoc, hc, hkey⟩
    exact ⟨Or.inr ⟨⟨hdoc, hc⟩, hkey⟩, hc⟩

/-- What an import takes from other collections: what is stored under a key of the file. -/
theorem mem_takenBy
    (hcleared : cleared = table.deleteAll ((CollectionStores.ofCollection table c).map Doc.metaId))
    {doc : Doc} :
    doc ∈ CollectionStores.takenBy cleared c (docs.map ensureId) ↔
      doc ∈ table ∧ Doc.collectionId doc ≠ c ∧ Doc.metaId doc ∈ docs.map Doc.metaId := by
  have hmem : doc ∈ cleared ∧ Doc.collectionId doc ≠ c ↔
      doc ∈ table ∧ Doc.collectionId doc ≠ c := by
    have hin : ∀ doc ∈ CollectionStores.ofCollection table c, doc ∈ table :=
      fun doc hdoc => (Table.mem_getAll.mp hdoc).1
    rw [hcleared, Table.mem_deleteAll_of_subset hin, CollectionStores.ofCollection,
      Table.mem_getAll, decide_eq_true_iff]
    constructor
    · rintro ⟨⟨hdoc, -⟩, hc⟩
      exact ⟨hdoc, hc⟩
    · rintro ⟨hdoc, hc⟩
      exact ⟨⟨hdoc, fun hout => hc hout.2⟩, hc⟩
  unfold CollectionStores.takenBy
  rw [List.mem_filterMap, ← and_assoc, ← hmem, List.mem_map]
  constructor
  · rintro ⟨given, hgiven, hget⟩
    obtain ⟨entry, hentry, rfl⟩ := List.mem_map.mp hgiven
    obtain ⟨hget, hc⟩ := Option.filter_eq_some_iff.mp hget
    obtain ⟨hdoc, hkey⟩ := Table.get?_eq_some_iff.mp hget
    rw [(ensureId_spec entry).1] at hkey
    exact ⟨⟨hdoc, by simpa using hc⟩, entry, hentry, hkey.symm⟩
  · rintro ⟨⟨hdoc, hc⟩, entry, hentry, hkey⟩
    refine ⟨ensureId entry, List.mem_map_of_mem hentry, ?_⟩
    apply Option.filter_eq_some_iff.mpr
    refine ⟨Table.get?_eq_some_iff.mpr ⟨hdoc, ?_⟩, by simpa using hc⟩
    rw [(ensureId_spec entry).1, hkey]

/-- What an import over a stored collection replaces: the collection with everything in it, and what
the file's ids take from others. -/
theorem replaced_of_import {stores stores' : CollectionStores} {payload : CollectionExport}
    {replaced : List Removed} {collection : Doc}
    (hkey : Doc.metaId payload.collection ≠ [])
    (hstored : stores.collections.get? (Doc.metaId payload.collection) = some collection)
    (h : stores.importCollectionExport payload false = some (stores', replaced)) :
    ∃ taken : Removed,
      taken.collections = [] ∧
      taken.folders = CollectionStores.takenBy
        (stores.deleteCollection (Doc.metaId payload.collection)).1.folders
        (Doc.metaId payload.collection) (payload.folders.map ensureId) ∧
      taken.requests = CollectionStores.takenBy
        (stores.deleteCollection (Doc.metaId payload.collection)).1.requests
        (Doc.metaId payload.collection) (payload.requests.map ensureId) ∧
      replaced = (stores.deleteCollection (Doc.metaId payload.collection)).2 ::
        (if taken.folders.isEmpty && taken.requests.isEmpty then [] else [taken]) := by
  unfold CollectionStores.importCollectionExport at h
  dsimp only at h
  rw [importId_eq hkey] at h
  cases hcase : Doc.metaId payload.collection with
  | nil => exact absurd hcase hkey
  | cons unit rest =>
      rw [hcase] at h hstored
      simp only [Bool.false_or, hstored, Option.isNone_some, Bool.false_eq_true, if_false] at h
      obtain ⟨-, rfl⟩ := Prod.mk.inj (Option.some.inj h)
      have hone : ∀ (none : Bool) (existing taken : Removed),
          (if none = true then [existing] else [existing] ++ [taken]) =
            existing :: (if none = true then [] else [taken]) := by
        intro none existing taken
        cases none <;> rfl
      exact ⟨{ folders := CollectionStores.takenBy
                 (stores.deleteCollection (unit :: rest)).1.folders (unit :: rest)
                 (payload.folders.map ensureId)
               requests := CollectionStores.takenBy
                 (stores.deleteCollection (unit :: rest)).1.requests (unit :: rest)
                 (payload.requests.map ensureId) }, rfl, rfl, rfl, hone _ _ _⟩

/-- What is missing once what an import added was deleted: the collection with what was in it, and
what was written over. -/
theorem lacks_of_import {payload : CollectionExport} {w' : Workspace}
    {replaced : List RemovedWithFiles} (hkey : Doc.metaId payload.collection ≠ [])
    (h : w.importCollectionExport payload false = some (w', replaced)) :
    Lacks w (w'.deleteCollection (Doc.metaId payload.collection)).1
      (fun doc => Doc.metaId doc = Doc.metaId payload.collection)
      (fun doc => Doc.collectionId doc = Doc.metaId payload.collection ∨
        Doc.metaId doc ∈ payload.folders.map Doc.metaId)
      (fun doc => Doc.collectionId doc = Doc.metaId payload.collection ∨
        Doc.metaId doc ∈ payload.requests.map Doc.metaId) := by
  obtain ⟨all, himport⟩ := importCollectionExport_eq w.stores false hkey
  unfold Workspace.importCollectionExport at h
  rw [himport] at h
  obtain ⟨rfl, -⟩ := Prod.mk.inj (Option.some.inj h)
  clear h himport
  -- What is stored keeps its key and is of the collection, folders and requests alike.
  have hstored : ∀ (docs : List Doc) (store : Doc → Doc),
      (∀ doc, StoresAs (Doc.metaId payload.collection) (fun doc => store (ensureId doc)) doc) →
      ((docs.map ensureId).map store).map Doc.metaId = docs.map Doc.metaId ∧
        ∀ doc ∈ (docs.map ensureId).map store,
          Doc.collectionId doc = Doc.metaId payload.collection := by
    intro docs store hstore
    constructor
    · rw [List.map_map, List.map_map]
      exact List.map_congr_left fun doc _ => (hstore doc).key
    · intro doc hdoc
      obtain ⟨given, hgiven, rfl⟩ := List.mem_map.mp hdoc
      obtain ⟨entry, -, rfl⟩ := List.mem_map.mp hgiven
      exact (hstore entry).collection
  obtain ⟨hfolderKeys, hfolderOf⟩ := hstored payload.folders
    (fun folder => ensureId (Doc.withCollectionId folder (Doc.metaId payload.collection)))
    (storesAs_folder (Doc.metaId payload.collection))
  obtain ⟨hrequestKeys, hrequestOf⟩ := hstored payload.requests
    (CollectionStores.importedRequest (payload.folders.map ensureId)
      (Doc.metaId payload.collection))
    (storesAs_request (payload.folders.map ensureId) (Doc.metaId payload.collection))
  apply lacks_of_swept
  · intro doc
    have hput : Doc.metaId (setField (ensureId payload.collection) (units "scriptTrust")
        (.object [(units "trusted", .bool false)])) = Doc.metaId payload.collection := by
      rw [Doc.metaId_setField (by decide), (ensureId_spec _).1]
    refine Table.mem_delete.trans ?_
    constructor
    · rintro ⟨hdoc, hne⟩
      rcases Table.mem_put.mp hdoc with rfl | ⟨hold, -⟩
      · exact absurd hput hne
      · exact ⟨(Table.mem_delete.mp hold).1, hne⟩
    · rintro ⟨hdoc, hne⟩
      refine ⟨Table.mem_put.mpr (Or.inr ⟨Table.mem_delete.mpr ⟨hdoc, hne⟩, ?_⟩), hne⟩
      rw [hput]
      exact hne
  · exact fun doc => mem_left_of_import rfl hfolderKeys hfolderOf doc
  · exact fun doc => mem_left_of_import rfl hrequestKeys hrequestOf doc
  · intro file
    constructor
    · intro hfile
      obtain ⟨hswept, hnamed⟩ := mem_sweepFiles.mp hfile
      exact ⟨(mem_sweepFiles.mp hswept).1, hnamed⟩
    · rintro ⟨hfile, hnamed⟩
      -- A file that is named in the end was named by a request both sweeps left.
      refine mem_sweepFiles.mpr ⟨mem_sweepFiles.mpr ⟨hfile, hnamed.mono ?_⟩, hnamed⟩
      exact fun request hrequest => (Table.mem_deleteAll.mp hrequest).1

/-- Of what an import took out or wrote over, the collection's own comes back first, and what it
took from others is left. -/
theorem gone_iff_taken {existing taken : List Doc} (doc : Doc) (hdoc : doc ∈ table)
    (hexisting : doc ∈ existing ↔ doc ∈ table ∧ Doc.collectionId doc = c)
    (htaken : doc ∈ taken ↔
      doc ∈ table ∧ Doc.collectionId doc ≠ c ∧ Doc.metaId doc ∈ docs.map Doc.metaId)
    (hhoused : Doc.collectionId doc = c → Housed w.stores doc) :
    (Doc.collectionId doc = c ∨ Doc.metaId doc ∈ docs.map Doc.metaId) ∧
        ¬ (doc ∈ existing ∧ Housed w.stores doc) ↔
      doc ∈ taken := by
  rw [htaken, hexisting]
  constructor
  · rintro ⟨hgone, hback⟩
    have hc : Doc.collectionId doc ≠ c := fun hc => hback ⟨⟨hdoc, hc⟩, hhoused hc⟩
    exact ⟨hdoc, hc, hgone.resolve_left hc⟩
  · rintro ⟨-, hc, hin⟩
    exact ⟨Or.inr hin, fun hback => hc hback.1.2⟩

/-- The replaced collection is put back first, then what was taken from others. -/
theorem restored_of_replaced {cur : Workspace} {payload : CollectionExport} {collection : Doc}
    {taken : Removed}
    (hlacks : Lacks w cur (fun doc => Doc.metaId doc = c)
      (fun doc => Doc.collectionId doc = c ∨ Doc.metaId doc ∈ payload.folders.map Doc.metaId)
      (fun doc => Doc.collectionId doc = c ∨ Doc.metaId doc ∈ payload.requests.map Doc.metaId))
    (hget : w.stores.collections.get? c = some collection)
    (hcollections : taken.collections = [])
    (hfolders : ∀ doc, doc ∈ taken.folders ↔ doc ∈ w.stores.folders ∧
      Doc.collectionId doc ≠ c ∧ Doc.metaId doc ∈ payload.folders.map Doc.metaId)
    (hrequests : ∀ doc, doc ∈ taken.requests ↔ doc ∈ w.stores.requests ∧
      Doc.collectionId doc ≠ c ∧ Doc.metaId doc ∈ payload.requests.map Doc.metaId) :
    Restored w ((cur.putBack (w.withFiles (w.stores.deleteCollection c).2)).putBack
        (w.withFiles taken)) [(w.stores.deleteCollection c).2, taken] ∧
      (taken.folders = [] → taken.requests = [] →
        Restored w (cur.putBack (w.withFiles (w.stores.deleteCollection c).2))
          [(w.stores.deleteCollection c).2]) := by
  obtain ⟨hcollection, hkey⟩ := Table.get?_eq_some_iff.mp hget
  have hof : ∀ (table : DocTable) (doc : Doc),
      doc ∈ CollectionStores.ofCollection table c ↔ doc ∈ table ∧ Doc.collectionId doc = c := by
    intro table doc
    rw [CollectionStores.ofCollection, Table.mem_getAll, decide_eq_true_iff]
  have hhoused : ∀ doc, Doc.collectionId doc = c → Housed w.stores doc :=
    fun doc hdoc => ⟨collection, hcollection, hkey.trans hdoc.symm⟩
  -- The replaced collection is put back first, with the folders and requests it held.
  have hexisting : TakenFrom w (w.stores.deleteCollection c).2 := by
    refine ⟨?_, fun doc hdoc => ((hof _ doc).mp hdoc).1, fun doc hdoc => ((hof _ doc).mp hdoc).1⟩
    intro doc hdoc
    exact (Table.get?_eq_some_iff.mp (Option.mem_toList.mp hdoc)).1
  have hback := hlacks.putBack hexisting
  have hall : ∀ doc ∈ w.stores.collections,
      ¬ (Doc.metaId doc = c ∧ doc ∉ (w.stores.deleteCollection c).2.collections) := by
    rintro doc hdoc ⟨hid, hout⟩
    exact hout (Option.mem_toList.mpr (Table.get?_eq_some_iff.mpr ⟨hdoc, hid⟩))
  -- With it, all collections are back, so what finds a home is settled from here on.
  have hsame := hback.housed_iff hall
  have hfirst : Lacks w (cur.putBack (w.withFiles (w.stores.deleteCollection c).2))
      (fun _ => False) (· ∈ taken.folders) (· ∈ taken.requests) := by
    refine hback.congr (fun doc hdoc => iff_false_intro (hall doc hdoc)) ?_ ?_
    · intro doc hdoc
      rw [hsame]
      exact gone_iff_taken doc hdoc (hof _ doc) (hfolders doc) (hhoused doc)
    · intro doc hdoc
      rw [hsame]
      exact gone_iff_taken doc hdoc (hof _ doc) (hrequests doc) (hhoused doc)
  have hleft : ∀ {doc : Doc} {docsOf : Removed → List Doc},
      (doc ∈ docsOf (w.stores.deleteCollection c).2 → Housed w.stores doc) →
      (doc ∈ docsOf taken ∧ ¬ (doc ∈ docsOf taken ∧ Housed w.stores doc) ↔
        (∃ removed ∈ [(w.stores.deleteCollection c).2, taken], doc ∈ docsOf removed) ∧
          ¬ Housed w.stores doc) := by
    intro doc docsOf hown
    simp only [List.mem_cons, List.not_mem_nil, or_false, exists_eq_or_imp, exists_eq_left]
    constructor
    · rintro ⟨hin, hback⟩
      exact ⟨Or.inr hin, fun hh => hback ⟨hin, hh⟩⟩
    · rintro ⟨hin, hh⟩
      exact ⟨hin.resolve_left fun hback => hh (hown hback), fun hback => hh hback.2⟩
  -- Then what the import took from other collections; where it took nothing, one step was all.
  constructor
  · have htakenFrom : TakenFrom w taken := by
      refine ⟨?_, fun doc hdoc => ((hfolders doc).mp hdoc).1,
        fun doc hdoc => ((hrequests doc).mp hdoc).1⟩
      rw [hcollections]
      exact fun doc hdoc => absurd hdoc List.not_mem_nil
    have hsecond := hfirst.putBack htakenFrom
    have hsame' := hsecond.housed_iff fun doc _ hgone => hgone.1
    apply Lacks.restored
    apply hsecond.congr
    · exact fun doc _ => iff_false_intro And.left
    · intro doc _
      rw [hsame']
      exact hleft fun hin => hhoused doc ((hof _ doc).mp hin).2
    · intro doc _
      rw [hsame']
      exact hleft fun hin => hhoused doc ((hof _ doc).mp hin).2
  · intro hnoFolders hnoRequests
    apply Lacks.restored
    apply hfirst.congr
    · exact fun doc _ => Iff.rfl
    · intro doc _
      simp only [List.mem_singleton, exists_eq_left, hnoFolders, List.not_mem_nil, false_iff]
      exact fun hgone => hgone.2 (hhoused doc ((hof _ doc).mp hgone.1).2)
    · intro doc _
      simp only [List.mem_singleton, exists_eq_left, hnoRequests, List.not_mem_nil, false_iff]
      exact fun hgone => hgone.2 (hhoused doc ((hof _ doc).mp hgone.1).2)

/-- What an import over a stored collection added deleted, and what it replaced put back. -/
theorem restored_import {payload : CollectionExport} (hkey : Doc.metaId payload.collection ≠ [])
    (hstored : (w.stores.collections.get? (Doc.metaId payload.collection)).isSome) :
    ∃ w' replaced, w.importCollectionExport payload false = some (w', replaced) ∧
      Restored w (w'.undoImport [Doc.metaId payload.collection] replaced)
        (replaced.map RemovedWithFiles.toRemoved) := by
  obtain ⟨collection, hget⟩ := Option.isSome_iff_exists.mp hstored
  obtain ⟨all, hstores⟩ := importCollectionExport_eq w.stores false hkey
  have himport := congrArg (Option.map fun stored =>
    (Workspace.sweepFiles { w with stores := stored.1 }, stored.2.map w.withFiles)) hstores
  refine ⟨_, _, himport, ?_⟩
  obtain ⟨taken, hcollections, hfolders, hrequests, rfl⟩ := replaced_of_import hkey hget hstores
  obtain ⟨hboth, hone⟩ := restored_of_replaced (lacks_of_import hkey himport) hget hcollections
    (fun doc => by rw [hfolders]; exact mem_takenBy rfl)
    (fun doc => by rw [hrequests]; exact mem_takenBy rfl)
  by_cases hnone : (taken.folders.isEmpty && taken.requests.isEmpty) = true
  · rw [if_pos hnone]
    rw [Bool.and_eq_true, List.isEmpty_iff, List.isEmpty_iff] at hnone
    exact hone hnone.1 hnone.2
  · rw [if_neg hnone]
    exact hboth

end Import

/-- Where everything stored is of a stored collection and every stored file is named, an undo leaves
exactly what was there. -/
theorem Restored.exact {gone : List Removed} (h : Restored whole w gone)
    (hfolders : ∀ doc ∈ whole.stores.folders, Housed whole.stores doc)
    (hrequests : ∀ doc ∈ whole.stores.requests, Housed whole.stores doc)
    (hfiles : ∀ file ∈ whole.files, FileNamed whole.stores.requests file.1) :
    (∀ doc, doc ∈ w.stores.collections ↔ doc ∈ whole.stores.collections) ∧
      (∀ doc, doc ∈ w.stores.folders ↔ doc ∈ whole.stores.folders) ∧
      (∀ doc, doc ∈ w.stores.requests ↔ doc ∈ whole.stores.requests) ∧
      ∀ file, file ∈ w.files ↔ file ∈ whole.files := by
  have hall : ∀ doc, doc ∈ w.stores.requests ↔ doc ∈ whole.stores.requests := by
    intro doc
    rw [h.requests]
    exact and_iff_left_of_imp fun hdoc _ => hrequests doc hdoc
  refine ⟨h.collections, ?_, hall, ?_⟩
  · intro doc
    rw [h.folders]
    exact and_iff_left_of_imp fun hdoc _ => hfolders doc hdoc
  · intro file
    constructor
    · exact h.noOther file
    · intro hfile
      have hnamed := (hfiles file hfile).mono fun request hrequest => (hall request).mpr hrequest
      exact (h.files file hnamed).mpr hfile

end Undo

/-- In any workspace, a deleted collection, folder or request put back, and an import of any file
over a stored collection undone, gives back what was there. -/
theorem undo_restores (F : FilePlatform) (newId : Nat → Text) (now : Json) (w : Workspace) :
    (∀ id, Restored w ((w.deleteCollection id).1.putBack (w.deleteCollection id).2)
      [(w.deleteCollection id).2.toRemoved]) ∧
    (∀ id, Restored w ((w.deleteFolder id).1.putBack (w.deleteFolder id).2)
      [(w.deleteFolder id).2.toRemoved]) ∧
    (∀ id, Restored w ((w.deleteRequest id).1.putBack (w.deleteRequest id).2)
      [(w.deleteRequest id).2.toRemoved]) ∧
    ∀ input checked result, validateCollection F input = .ok checked →
      importPayload F newId now false checked = some result →
      (w.stores.collections.get? (Doc.metaId result.payload.collection)).isSome →
      ∃ w' replaced, w.importCollectionExport result.payload false = some (w', replaced) ∧
        Restored w (w'.undoImport [Doc.metaId result.payload.collection] replaced)
          (replaced.map RemovedWithFiles.toRemoved) := by
  refine ⟨restored_deleteCollection, restored_deleteFolder, restored_deleteRequest, ?_⟩
  intro input checked result hchecked hresult hstored
  obtain ⟨hpayload, -, -⟩ := importPayload_spec (fun h => absurd h Bool.false_ne_true) hresult
  apply restored_import _ hstored
  rw [hpayload.collectionKey, if_neg Bool.false_ne_true]
  exact metaId_of_checked hchecked

/-- A file of two folders imported over the collection it was imported as, and that undone. -/
theorem folderFile_restored : ∃ checked result stores,
    validateCollection plainFiles (some (folderFile (units "f") (units "g"))) = .ok checked ∧
      importPayload plainFiles letterId .null false checked = some result ∧
      stores.folders.rows.length = 2 ∧
      ∃ w' replaced, Workspace.importCollectionExport { stores } result.payload false =
          some (w', replaced) ∧
        Restored { stores } (w'.undoImport [Doc.metaId result.payload.collection] replaced)
          (replaced.map RemovedWithFiles.toRemoved) := by
  have himport : (importOverNothing false (folderFile (units "f") (units "g"))).any (fun imported =>
      imported.2.2.folders.rows.length = 2 ∧ (imported.2.2.collections.get?
        (Doc.metaId imported.2.1.payload.collection)).isSome) = true := by
    decide +kernel
  obtain ⟨checked, result, stores, _, hchecked, hresult, -, hmet⟩ := importOverNothing_spec himport
  obtain ⟨hfolders, hstored⟩ := of_decide_eq_true hmet
  obtain ⟨-, -, -, hundone⟩ := undo_restores plainFiles letterId .null { stores }
  exact ⟨checked, result, stores, hchecked, hresult, hfolders,
    hundone _ checked result hchecked hresult hstored⟩

end Wayfarer
