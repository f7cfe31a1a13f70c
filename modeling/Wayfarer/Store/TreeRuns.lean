import Wayfarer.Library.Run
import Wayfarer.Store.Imported
import Wayfarer.Store.Tree

/-!
# The tree, over runs

Every order of makings, renamings, copies, new places, deletions, undos and imports is a list of
`TreeStep`s. `run_treeHolds` says that what is stored is a tree after any of them in which what is
handed to the stores fits: a new folder or request is put in a place that exists, what an undo puts
back is in folders that are there (`UndoFits`), and the folders of a file lead to its top and take
none of another collection's that something is still in (`ImportFits`).
-/

set_option autoImplicit false

namespace Wayfarer

open Library

/-! ## Writing over what is stored -/

/-- A folder that was not written over reaches the top as it did, where no folder written in the
place of one it is in is of another collection. -/
theorem rooted_putAll {t : DocTable} {l : List Doc} {c key : Text}
    (hnew : ∀ folder, Table.lastOf Doc.metaId l (Doc.metaId folder) = some folder →
      Leads (folderNode (t.putAll l)) (Doc.collectionId folder) (parentLink folder))
    (hleft : ∀ folder ∈ t, Doc.metaId folder ∉ l.map Doc.metaId → ∀ back,
      Table.lastOf Doc.metaId l (Doc.metaId back) = some back →
        parentLink folder = some (some (Doc.metaId back)) →
          Doc.collectionId back = Doc.collectionId folder)
    (h : Rooted (folderNode t) c key) (hkey : key ∉ l.map Doc.metaId) :
    Rooted (folderNode (t.putAll l)) c key := by
  refine h.overlay (fun key => key ∈ l.map Doc.metaId) ?_ ?_ hkey
  · intro j hj
    have hnone : Table.lastOf Doc.metaId l j = none := by
      rwa [← Option.not_isSome_iff_eq_none, Table.lastOf_isSome]
    rw [folderNode, Table.get?_putAll, hnone, Option.none_or, folderNode]
  · intro j p hj hnode _ hp
    obtain ⟨folder, hmem, rfl, rfl, hlink⟩ := folderNode_eq_some.mp hnode
    obtain ⟨back, hback⟩ := Option.isSome_iff_exists.mp (Table.lastOf_isSome.mpr hp)
    obtain ⟨-, rfl⟩ := Table.lastOf_mem hback
    have hsame := hleft folder hmem hj back hback hlink
    have hstored : back ∈ t.putAll l := Table.mem_putAll.mpr (Or.inl hback)
    rw [← hsame]
    exact (rooted_iff_leads hstored).mpr (hnew back hback)

/-- Documents written over what is stored, which lead to the top: everything is a tree, where no
folder written in the place of another one holds something of another collection. -/
theorem IsTree.putAll {stores : CollectionStores} (h : IsTree stores) {collections : DocTable}
    {folders requests : List Doc}
    (hcollections : ∀ collection ∈ stores.collections,
      ∃ kept ∈ collections, Doc.metaId kept = Doc.metaId collection)
    (hnewFolders : ∀ folder, Table.lastOf Doc.metaId folders (Doc.metaId folder) = some folder →
      Leads (folderNode (stores.folders.putAll folders)) (Doc.collectionId folder)
        (parentLink folder))
    (hnewRequests : ∀ request,
      Table.lastOf Doc.metaId requests (Doc.metaId request) = some request →
      Leads (folderNode (stores.folders.putAll folders)) (Doc.collectionId request)
        (folderLink request))
    (hstored : ∀ doc ∈ folders ++ requests,
      ∃ collection ∈ collections, Doc.metaId collection = Doc.collectionId doc)
    (hleftFolders : ∀ folder ∈ stores.folders, Doc.metaId folder ∉ folders.map Doc.metaId →
      ∀ back, Table.lastOf Doc.metaId folders (Doc.metaId back) = some back →
        parentLink folder = some (some (Doc.metaId back)) →
          Doc.collectionId back = Doc.collectionId folder)
    (hleftRequests : ∀ request ∈ stores.requests, Doc.metaId request ∉ requests.map Doc.metaId →
      ∀ back, Table.lastOf Doc.metaId folders (Doc.metaId back) = some back →
        folderLink request = some (some (Doc.metaId back)) →
          Doc.collectionId back = Doc.collectionId request) :
    IsTree { collections, folders := stores.folders.putAll folders,
             requests := stores.requests.putAll requests } := by
  -- A link of what stays leads to a folder that stays, or to one written in its place.
  have hleads : ∀ {c : Text} {link : Option (Option Text)},
      Leads (folderNode stores.folders) c link →
      (∀ back, Table.lastOf Doc.metaId folders (Doc.metaId back) = some back →
        link = some (some (Doc.metaId back)) → Doc.collectionId back = c) →
      Leads (folderNode (stores.folders.putAll folders)) c link := by
    intro c link hold hleft
    refine hold.imp_right ?_
    rintro ⟨key, rfl, hrooted⟩
    refine ⟨key, rfl, ?_⟩
    by_cases hwritten : key ∈ folders.map Doc.metaId
    · obtain ⟨back, hback⟩ := Option.isSome_iff_exists.mp (Table.lastOf_isSome.mpr hwritten)
      obtain ⟨-, rfl⟩ := Table.lastOf_mem hback
      rw [← hleft back hback rfl]
      have hmem : back ∈ stores.folders.putAll folders := Table.mem_putAll.mpr (Or.inl hback)
      exact (rooted_iff_leads hmem).mpr (hnewFolders back hback)
    · exact rooted_putAll hnewFolders hleftFolders hrooted hwritten
  constructor
  · intro folder hmem
    rcases Table.mem_putAll.mp hmem with hnew | ⟨hold, hkey⟩
    · exact hnewFolders folder hnew
    · exact hleads (h.folders folder hold) (hleftFolders folder hold hkey)
  · intro request hmem
    rcases Table.mem_putAll.mp hmem with hnew | ⟨hold, hkey⟩
    · exact hnewRequests request hnew
    · exact hleads (h.requests request hold) (hleftRequests request hold hkey)
  · intro folder hmem
    rcases Table.mem_putAll.mp hmem with hnew | ⟨hold, -⟩
    · exact hstored folder (List.mem_append_left _ (Table.lastOf_mem hnew).1)
    · obtain ⟨collection, hin, hkey⟩ := h.folderCollections folder hold
      obtain ⟨kept, hkept, hsame⟩ := hcollections collection hin
      exact ⟨kept, hkept, hsame.trans hkey⟩
  · intro request hmem
    rcases Table.mem_putAll.mp hmem with hnew | ⟨hold, -⟩
    · exact hstored request (List.mem_append_right _ (Table.lastOf_mem hnew).1)
    · obtain ⟨collection, hin, hkey⟩ := h.requestCollections request hold
      obtain ⟨kept, hkept, hsame⟩ := hcollections collection hin
      exact ⟨kept, hkept, hsame.trans hkey⟩

/-! ## Putting back -/

/-- The folders and the requests an undo puts back: those whose collection is stored, or put back
too. -/
def CollectionStores.backs (stores : CollectionStores) (removed : Removed) (docs : List Doc) :
    List Doc :=
  docs.filter fun doc => (stores.collections.rows ++ removed.collections).any fun collection =>
    Doc.metaId collection = Doc.collectionId doc

/-- A folder as a node. -/
def nodeOf (folder : Doc) : Option (Text × Option Text) :=
  (parentLink folder).map fun parent => (Doc.collectionId folder, parent)

/-- The folders once some were put back: of a key, the one put back last, or the one stored. -/
def nodeOnceBack (stores : CollectionStores) (backs : List Doc) (key : Text) :
    Option (Text × Option Text) :=
  ((Table.lastOf Doc.metaId backs key).or (stores.folders.get? key)).bind nodeOf

/-- What an undo puts back is in folders that are there once it is back, of its collection and up to
the top; and a folder that it puts in another's place holds nothing of another collection. -/
structure UndoFits (stores : CollectionStores) (removed : Removed) : Prop where
  folders : ∀ folder,
    Table.lastOf Doc.metaId (stores.backs removed removed.folders) (Doc.metaId folder) =
      some folder →
    Leads (nodeOnceBack stores (stores.backs removed removed.folders)) (Doc.collectionId folder)
      (parentLink folder)
  requests : ∀ request,
    Table.lastOf Doc.metaId (stores.backs removed removed.requests) (Doc.metaId request) =
      some request →
    Leads (nodeOnceBack stores (stores.backs removed removed.folders)) (Doc.collectionId request)
      (folderLink request)
  leftFolders : ∀ folder ∈ stores.folders,
    Doc.metaId folder ∉ (stores.backs removed removed.folders).map Doc.metaId →
    ∀ back, Table.lastOf Doc.metaId (stores.backs removed removed.folders) (Doc.metaId back) =
      some back → parentLink folder = some (some (Doc.metaId back)) →
    Doc.collectionId back = Doc.collectionId folder
  leftRequests : ∀ request ∈ stores.requests,
    Doc.metaId request ∉ (stores.backs removed removed.requests).map Doc.metaId →
    ∀ back, Table.lastOf Doc.metaId (stores.backs removed removed.folders) (Doc.metaId back) =
      some back → folderLink request = some (some (Doc.metaId back)) →
    Doc.collectionId back = Doc.collectionId request

/-- What is put back is what the stores take back. -/
theorem backs_eq (stores : CollectionStores) (removed : Removed) (docs : List Doc) :
    (docs.filter fun doc => ((stores.collections.putAll removed.collections).get?
      (Doc.collectionId doc)).isSome) = stores.backs removed docs := by
  refine List.filter_congr fun doc _ => ?_
  rw [Bool.eq_iff_iff, Option.isSome_iff_exists, List.any_eq_true]
  constructor
  · rintro ⟨collection, hget⟩
    obtain ⟨hmem, hkey⟩ := Table.get?_eq_some_iff.mp hget
    refine ⟨collection, ?_, decide_eq_true hkey⟩
    rcases Table.mem_putAll.mp hmem with hback | ⟨hstored, -⟩
    · exact List.mem_append_right _ (Table.lastOf_mem hback).1
    · exact List.mem_append_left _ hstored
  · rintro ⟨collection, hmem, hkey⟩
    rw [Table.get?_putAll]
    rcases List.mem_append.mp hmem with hstored | hback
    · cases hlast : Table.lastOf Doc.metaId removed.collections (Doc.collectionId doc) with
      | some last => exact ⟨last, rfl⟩
      | none =>
          exact ⟨collection, Table.get?_eq_some_iff.mpr ⟨hstored, of_decide_eq_true hkey⟩⟩
    · have hin : Doc.collectionId doc ∈ removed.collections.map Doc.metaId :=
        List.mem_map.mpr ⟨collection, hback, of_decide_eq_true hkey⟩
      obtain ⟨last, hlast⟩ := Option.isSome_iff_exists.mp (Table.lastOf_isSome.mpr hin)
      rw [hlast]
      exact ⟨last, rfl⟩

/-- The nodes after folders were written over those stored. -/
theorem folderNode_putAll (stores : CollectionStores) (backs : List Doc) :
    folderNode (stores.folders.putAll backs) = nodeOnceBack stores backs := by
  funext key
  rw [folderNode, Table.get?_putAll, nodeOnceBack]
  rfl

theorem IsTree.putBack {stores : CollectionStores} (h : IsTree stores) {removed : Removed}
    (hfits : UndoFits stores removed) : IsTree (stores.putBack removed) := by
  have hnode := folderNode_putAll stores (stores.backs removed removed.folders)
  unfold CollectionStores.putBack
  dsimp only
  rw [backs_eq, backs_eq]
  apply h.putAll
  · intro collection hmem
    have hkey : ∃ kept, (stores.collections.putAll removed.collections).get?
        (Doc.metaId collection) = some kept := by
      rw [Table.get?_putAll, Table.get?_eq_some_iff.mpr ⟨hmem, rfl⟩]
      cases Table.lastOf Doc.metaId removed.collections (Doc.metaId collection) with
      | some last => exact ⟨last, rfl⟩
      | none => exact ⟨collection, rfl⟩
    obtain ⟨kept, hkept⟩ := hkey
    exact ⟨kept, Table.get?_eq_some_iff.mp hkept⟩
  · rw [hnode]
    exact hfits.folders
  · rw [hnode]
    exact hfits.requests
  · intro doc hmem
    have hback : ((stores.collections.putAll removed.collections).get?
        (Doc.collectionId doc)).isSome = true := by
      rcases List.mem_append.mp hmem with hin | hin
      · rw [← backs_eq] at hin
        exact (List.mem_filter.mp hin).2
      · rw [← backs_eq] at hin
        exact (List.mem_filter.mp hin).2
    obtain ⟨collection, hget⟩ := Option.isSome_iff_exists.mp hback
    exact ⟨collection, Table.get?_eq_some_iff.mp hget⟩
  · exact hfits.leftFolders
  · exact hfits.leftRequests

/-! ## Importing -/

/-- A folder's link in a file. In a copy the new id is looked up by whatever the value reads as. -/
def fileLink : Bool → Option Json → Option (Option Text)
  | false, link => linkOf link
  | true, none => some none
  | true, some value => if truthy (some value) then (propertyKey value).map some else none

/-- The folders of a file as nodes: of a key, the last. -/
def fileNode (duplicate : Bool) (folders : List Doc) (key : Text) : Option (Unit × Option Text) :=
  (Table.lastOf Doc.metaId folders key).bind fun folder =>
    (fileLink duplicate (field folder (units "parentFolderId"))).map fun parent => ((), parent)

/-- A folder as an import stores it. -/
def storedFolder (c : Text) (folder : Doc) : Doc :=
  ensureId (Doc.withCollectionId (ensureId folder) c)

theorem field_ensureId {doc : Doc} {key : Text} (h : units "id" ≠ key) :
    field (ensureId doc) key = field doc key := by
  unfold ensureId
  split_ifs
  · rfl
  · exact field_setField_of_ne h

/-- Where an import stores a folder. -/
theorem storedFolder_spec (c : Text) (folder : Doc) :
    Doc.metaId (storedFolder c folder) = Doc.metaId folder ∧
      Doc.collectionId (storedFolder c folder) = c ∧
      parentLink (storedFolder c folder) = parentLink folder := by
  have hstores := storesAs_folder c folder
  refine ⟨hstores.key, hstores.collection, ?_⟩
  rw [storedFolder, parentLink, field_ensureId (by decide), Doc.withCollectionId,
    field_setField_of_ne (by decide), field_ensureId (by decide), parentLink]

section Import

variable {stores stores' : CollectionStores} {payload : CollectionExport} {c : Text}

/-- The folders of a file lead, stored, where they lead in it. -/
theorem rooted_stored {table : DocTable} {folders : List Doc} {key : Text}
    (h : Rooted (fileNode false folders) () key) :
    Rooted (folderNode (table.putAll (folders.map (storedFolder c)))) c key := by
  apply h.mono
  intro j parent hnode
  obtain ⟨folder, hlast, hlink⟩ := Option.bind_eq_some_iff.mp hnode
  obtain ⟨parent', hparent, heq⟩ := Option.map_eq_some_iff.mp hlink
  cases heq
  obtain ⟨hkey, hc, hsame⟩ := storedFolder_spec c folder
  obtain ⟨-, rfl⟩ := Table.lastOf_mem hlast
  have hstored : Table.lastOf Doc.metaId (folders.map (storedFolder c)) (Doc.metaId folder) =
      some (storedFolder c folder) := by
    rw [Table.lastOf_map fun folder _ => (storedFolder_spec c folder).1, hlast]
    rfl
  refine folderNode_eq_some.mpr ⟨storedFolder c folder, ?_, hkey, hc, hsame.trans hparent⟩
  exact Table.mem_putAll.mpr (Or.inl (hkey.symm ▸ hstored))

/-- A link that names a folder of a file names it by its key. -/
theorem exists_of_namesFolder {folders : List Doc} {link : Option Json}
    (hnamed : ∀ folder ∈ folders, NamesItself folder)
    (h : CollectionStores.namesFolder (folders.map ensureId) link = true) :
    ∃ folder ∈ folders, link = some (.string (Doc.metaId folder)) := by
  unfold CollectionStores.namesFolder at h
  split at h
  · cases h
  · next key hkey =>
      obtain ⟨stored, hstored, hmatch⟩ := List.any_eq_true.mp h
      obtain ⟨folder, hmem, rfl⟩ := List.mem_map.mp hstored
      obtain ⟨hmeta, -, -, hnames⟩ := ensureId_spec folder
      have hid := hnames (hnamed folder hmem)
      rw [NamesItself, hmeta] at hid
      rw [hid, hmeta, Bool.or_eq_true, decide_eq_true_iff, decide_eq_true_iff,
        Option.some_inj, or_self] at hmatch
      refine ⟨folder, hmem, ?_⟩
      cases link with
      | none => cases hkey
      | some value =>
          cases value with
          | string t =>
              cases hkey
              rw [hmatch]
          | _ => cases hkey

/-- Where an import stores a request: in no folder, or in one of the file. -/
theorem importedRequest_link {folders : List Doc} {request : Doc}
    (hnamed : ∀ folder ∈ folders, NamesItself folder)
    (hlink : field request (units "folderId") = none ∨
      truthy (field request (units "folderId")) = true) :
    folderLink (CollectionStores.importedRequest (folders.map ensureId) c (ensureId request)) =
        some none ∨
      ∃ folder ∈ folders, folderLink (CollectionStores.importedRequest (folders.map ensureId) c
        (ensureId request)) = some (some (Doc.metaId folder)) := by
  have hfield : field (Doc.withCollectionId (ensureId request) c) (units "folderId") =
      field request (units "folderId") := by
    rw [Doc.withCollectionId, field_setField_of_ne (by decide), field_ensureId (by decide)]
  unfold CollectionStores.importedRequest
  dsimp only
  rw [hfield]
  split_ifs with hcleared
  · left
    rw [folderLink, field_ensureId (by decide), field_removeField_self]
    rfl
  · rw [folderLink, field_ensureId (by decide), hfield]
    rcases hlink with hnone | htruthy
    · exact Or.inl (by rw [hnone]; rfl)
    · rw [htruthy, Bool.true_and, Bool.not_eq_true', Bool.not_eq_false] at hcleared
      obtain ⟨folder, hmem, hnames⟩ := exists_of_namesFolder hnamed hcleared
      refine Or.inr ⟨folder, hmem, ?_⟩
      rw [hnames]
      refine linkOf_eq_some_some.mpr ⟨rfl, fun hnil => ?_⟩
      rw [hnames, hnil] at htruthy
      cases htruthy

/-- A file stored: its folders lead to its top, and none is taken that something left is in. -/
theorem IsTree.importDocs (h : IsTree stores) {duplicate : Bool} {replaced : List Removed}
    (hc : Doc.metaId payload.collection = c) (hne : c ≠ [])
    (hnamed : ∀ folder ∈ payload.folders, NamesItself folder)
    (hfolders : ∀ folder ∈ payload.folders,
      Rooted (fileNode false payload.folders) () (Doc.metaId folder))
    (hrequests : ∀ request,
      Table.lastOf Doc.metaId payload.requests (Doc.metaId request) = some request →
        field request (units "folderId") = none ∨
          truthy (field request (units "folderId")) = true)
    (hleftFolders : ∀ folder ∈
      (if duplicate then stores else (stores.deleteCollection c).1).folders,
      Doc.metaId folder ∉ payload.folders.map Doc.metaId → ∀ taken ∈ payload.folders,
        parentLink folder ≠ some (some (Doc.metaId taken)))
    (hleftRequests : ∀ request ∈
      (if duplicate then stores else (stores.deleteCollection c).1).requests,
      Doc.metaId request ∉ payload.requests.map Doc.metaId → ∀ taken ∈ payload.folders,
        folderLink request ≠ some (some (Doc.metaId taken)))
    (hstores : stores.importCollectionExport payload duplicate = some (stores', replaced)) :
    IsTree stores' := by
  obtain ⟨replaced', heq⟩ := importCollectionExport_eq stores duplicate (hc ▸ hne)
  rw [hstores, hc] at heq
  cases heq
  have htarget : IsTree (if duplicate then stores else (stores.deleteCollection c).1) := by
    split_ifs
    · exact h
    · exact h.deleteCollection c
  have hcollection : Doc.metaId (setField (ensureId payload.collection) (units "scriptTrust")
      (.object [(units "trusted", .bool false)])) = c := by
    rw [Doc.metaId_setField (by decide), (ensureId_spec _).1, hc]
  dsimp only
  rw [List.map_map, List.map_map]
  generalize hcleared : (if duplicate then stores else (stores.deleteCollection c).1) = cleared
    at htarget hleftFolders hleftRequests ⊢
  -- Each folder of the file is stored in its place, and reaches the top of the collection.
  have hrooted : ∀ folder ∈ payload.folders,
      Rooted (folderNode (cleared.folders.putAll (payload.folders.map (storedFolder c)))) c
        (Doc.metaId folder) :=
    fun folder hfolder => rooted_stored (hfolders folder hfolder)
  have hkeys : (payload.folders.map (storedFolder c)).map Doc.metaId =
      payload.folders.map Doc.metaId := by
    rw [List.map_map]
    exact List.map_congr_left fun folder _ => (storedFolder_spec c folder).1
  have hrequestKey : ∀ request, Doc.metaId (CollectionStores.importedRequest
      (payload.folders.map ensureId) c (ensureId request)) = Doc.metaId request :=
    fun request => (storesAs_request _ c request).key
  have hrequestKeys : (payload.requests.map fun request => CollectionStores.importedRequest
      (payload.folders.map ensureId) c (ensureId request)).map Doc.metaId =
        payload.requests.map Doc.metaId := by
    rw [List.map_map]
    exact List.map_congr_left fun request _ => hrequestKey request
  change IsTree { collections := cleared.collections.put _
                  folders := cleared.folders.putAll (payload.folders.map (storedFolder c))
                  requests := cleared.requests.putAll (payload.requests.map fun request =>
                    CollectionStores.importedRequest (payload.folders.map ensureId) c
                      (ensureId request)) }
  apply htarget.putAll
  · intro collection hmem
    by_cases hkey : Doc.metaId collection = c
    · exact ⟨_, Table.mem_put.mpr (Or.inl rfl), hcollection.trans hkey.symm⟩
    · exact ⟨collection, Table.mem_put.mpr (Or.inr ⟨hmem, hcollection ▸ hkey⟩), rfl⟩
  · intro stored hlast
    obtain ⟨folder, hfolder, rfl⟩ := List.mem_map.mp (Table.lastOf_mem hlast).1
    have hin : storedFolder c folder ∈
        cleared.folders.putAll (payload.folders.map (storedFolder c)) :=
      Table.mem_putAll.mpr (Or.inl hlast)
    have hreaches := hrooted folder hfolder
    rw [← (storedFolder_spec c folder).1] at hreaches
    apply (rooted_iff_leads hin).mp
    rwa [(storedFolder_spec c folder).2.1]
  · intro stored hlast
    rw [Table.lastOf_map fun request _ => hrequestKey request] at hlast
    obtain ⟨request, hrequest, rfl⟩ := Option.map_eq_some_iff.mp hlast
    rw [hrequestKey] at hrequest
    rw [(storesAs_request _ c request).collection]
    rcases importedRequest_link hnamed (hrequests request hrequest) with
      htop | ⟨folder, hfolder, hin⟩
    · exact Or.inl htop
    · exact Or.inr ⟨_, hin, hrooted folder hfolder⟩
  · intro doc hdoc
    refine ⟨_, Table.mem_put.mpr (Or.inl rfl), hcollection.trans ?_⟩
    rcases List.mem_append.mp hdoc with hin | hin
    · obtain ⟨folder, -, rfl⟩ := List.mem_map.mp hin
      exact (storedFolder_spec c folder).2.1.symm
    · obtain ⟨request, -, rfl⟩ := List.mem_map.mp hin
      exact (storesAs_request _ c request).collection.symm
  · intro folder hfolder hkey back hback hparent
    obtain ⟨taken, htaken, rfl⟩ := List.mem_map.mp (Table.lastOf_mem hback).1
    rw [(storedFolder_spec c taken).1] at hparent
    exact absurd hparent (hleftFolders folder hfolder (hkeys ▸ hkey) taken htaken)
  · intro request hrequest hkey back hback hlink
    obtain ⟨taken, htaken, rfl⟩ := List.mem_map.mp (Table.lastOf_mem hback).1
    rw [(storedFolder_spec c taken).1] at hlink
    exact absurd hlink (hleftRequests request hrequest (hrequestKeys ▸ hkey) taken htaken)

/-! ## Importing under new ids -/

section Remapped

variable {file : CollectionExport} {newId : Nat → Text} {now : Json}
  {idRemap : OrderedMap Text Text}

/-- A key of a file's folders, as it is under the new ids. -/
def newKey (file : CollectionExport) (newId : Nat → Text) (key : Text) : Text :=
  ((folderIds file newId).get? key).getD []

/-- The ids of a map are not blank. -/
def NonblankIds (ids : OrderedMap Text Text) : Prop :=
  ∀ key id, ids.get? key = some id → id ≠ []

/-- A link after new ids were given: none where there was none, and something true where it was. -/
theorem remapLink_truthy {ids : OrderedMap Text Text} (hids : NonblankIds ids)
    {link link' : Option Json} (h : remapLink ids link = some link') :
    (link = none → link' = none) ∧ (truthy link = true → truthy link' = true) := by
  cases link with
  | none =>
      cases h
      exact ⟨fun _ => rfl, fun htruthy => htruthy⟩
  | some value =>
      refine ⟨fun hnone => (nomatch hnone), fun htruthy => ?_⟩
      rw [remapLink, if_pos htruthy] at h
      obtain ⟨key, -, rfl⟩ := Option.map_eq_some_iff.mp h
      cases hget : ids.get? key with
      | none => exact htruthy
      | some id =>
          rw [Option.map_some, Option.getD_some]
          exact decide_eq_true (hids key id hget)

/-- What becomes of the links of requests under new ids. -/
theorem remapRequests_links {collectionId : Text} {ids : OrderedMap Text Text}
    {numbered : List (Doc × Text)} {requests : List Doc} (hids : NonblankIds ids)
    (hnew : ∀ entry ∈ numbered, entry.2 ≠ [])
    (h : remapRequests collectionId now ids numbered = some (requests, idRemap)) :
    List.Forall₂ (fun request' request =>
      (field request (units "folderId") = none → field request' (units "folderId") = none) ∧
        (truthy (field request (units "folderId")) = true →
          truthy (field request' (units "folderId")) = true))
      requests (numbered.map Prod.fst) := by
  induction numbered generalizing ids requests with
  | nil =>
      cases h
      exact List.Forall₂.nil
  | cons entry rest ih =>
      obtain ⟨request, id⟩ := entry
      have hknown : NonblankIds (ids.set (givenId request) id) := by
        intro key id' hget
        rw [OrderedMap.get?_set] at hget
        split_ifs at hget
        · cases hget
          exact hnew (request, id) (by simp)
        · exact hids key id' hget
      rw [remapRequests] at h
      split at h
      · next folder later all hlink hrest =>
          cases h
          apply List.Forall₂.cons
          · rw [field_withLink_self]
            exact remapLink_truthy hknown hlink
          · exact ih hknown (fun entry hentry => hnew entry (by simp [hentry])) hrest
      · cases h

/-- The new ids of a file's collection and folders are not blank. -/
theorem nonblank_folderIds (hnew : ∀ i, newId i ≠ []) : NonblankIds (folderIds file newId) := by
  intro key id hget
  rw [folderIds, OrderedMap.get?_setAll] at hget
  cases hfind : (file.folders.zipIdx.map fun entry : Doc × Nat =>
      (givenId entry.1, newId (entry.2 + 1))).reverse.find? fun e => e.1 = key with
  | some pair =>
      rw [hfind] at hget
      cases hget
      obtain ⟨entry, -, rfl⟩ :=
        List.mem_map.mp (List.mem_reverse.mp (List.mem_of_find?_eq_some hfind))
      exact hnew _
  | none =>
      rw [hfind, Option.map_none, Option.none_or, OrderedMap.get?_set] at hget
      split_ifs at hget
      · cases hget
        exact hnew 0
      · cases hget

/-- What a file under new ids is made of. -/
theorem remapIdentifiers_parts {payload : CollectionExport}
    (h : remapIdentifiers file newId now = some (payload, idRemap)) :
    List.Forall₂ (fun folder' folder =>
        remapFolder (folderIds file newId) (newId 0) now folder = some folder')
      payload.folders file.folders ∧
    remapRequests (newId 0) now (folderIds file newId) (file.requests.zipIdx.map fun entry =>
        (entry.1, newId (entry.2 + file.folders.length + 1))) =
          some (payload.requests, idRemap) := by
  rw [remapIdentifiers] at h
  split at h
  · next folders requests all hfolders hrequests =>
      cases h
      exact ⟨List.Forall₂.flip (mapM_eq_some_iff.mp hfolders), hrequests⟩
  · cases h

/-- A folder under new ids: the link to its parent is to the new id of what it named. -/
theorem remapFolder_link {folder folder' : Doc} {parent : Option Text}
    (hnames : ∀ folder ∈ file.folders, NamesItself folder) (hnew : ∀ i, newId i ≠ [])
    (h : remapFolder (folderIds file newId) (newId 0) now folder = some folder')
    (hlink : fileLink true (field folder (units "parentFolderId")) = some parent)
    (hparent : ∀ p, parent = some p → ∃ named ∈ file.folders, Doc.metaId named = p) :
    linkOf (field folder' (units "parentFolderId")) = some (parent.map (newKey file newId)) := by
  obtain ⟨link, hremap, rfl⟩ := Option.map_eq_some_iff.mp h
  rw [field_withLink_self]
  cases hvalue : field folder (units "parentFolderId") with
  | none =>
      rw [hvalue] at hlink hremap
      cases hlink
      cases hremap
      rfl
  | some value =>
      rw [hvalue] at hlink hremap
      rw [fileLink] at hlink
      split_ifs at hlink with htruthy
      obtain ⟨key, hkey, rfl⟩ := Option.map_eq_some_iff.mp hlink
      obtain ⟨named, hnamed, rfl⟩ := hparent key rfl
      have hgiven := givenId_of_namesItself (hnames named hnamed)
      obtain ⟨i, -, hget⟩ := get?_folderIds newId hnamed
      rw [hgiven] at hget
      rw [remapLink, if_pos htruthy, hkey, Option.map_some, hget] at hremap
      cases hremap
      refine linkOf_eq_some_some.mpr ?_
      rw [newKey, hget]
      exact ⟨rfl, hnew _⟩

/-- The folders of a file under new ids lead to its top as they did. -/
theorem rooted_remapped {payload : CollectionExport}
    (hnames : ∀ folder ∈ file.folders, NamesItself folder) (hnew : ∀ i, newId i ≠ [])
    (hinjective : Function.Injective newId)
    (h : remapIdentifiers file newId now = some (payload, idRemap))
    (hrooted :
      ∀ folder ∈ file.folders, Rooted (fileNode true file.folders) () (Doc.metaId folder)) :
    ∀ folder' ∈ payload.folders,
      Rooted (fileNode false payload.folders) () (Doc.metaId folder') := by
  obtain ⟨hfolders, -⟩ := remapIdentifiers_parts h
  have hkey : ∀ folder ∈ file.folders, ∀ folder',
      remapFolder (folderIds file newId) (newId 0) now folder = some folder' →
        Doc.metaId folder' = newKey file newId (Doc.metaId folder) := by
    intro folder hfolder folder' hremap
    rw [(remapFolder_spec hremap).2, givenId_of_namesItself (hnames folder hfolder), newKey]
  have hinj : ∀ a ∈ file.folders, ∀ b ∈ file.folders,
      newKey file newId (Doc.metaId a) = newKey file newId (Doc.metaId b) →
        Doc.metaId a = Doc.metaId b := by
    intro a ha b hb hab
    rw [← givenId_of_namesItself (hnames a ha), ← givenId_of_namesItself (hnames b hb)] at hab ⊢
    exact folderIds_injOn hinjective ha hb hab
  intro folder' hfolder'
  obtain ⟨folder, hfolder, hremap⟩ := mem_of_forall₂_left hfolders hfolder'
  rw [hkey folder hfolder folder' hremap]
  apply (hrooted folder hfolder).map (newKey file newId)
  -- One step up: the last folder of a key went to the last of its new key, and so did its link.
  intro j parent hnode hup
  obtain ⟨found, hlast, hlink⟩ := Option.bind_eq_some_iff.mp hnode
  obtain ⟨parent', hparent, heq⟩ := Option.map_eq_some_iff.mp hlink
  cases heq
  obtain ⟨found', hlast', hremap'⟩ := Table.lastOf_forall₂ hfolders hkey hinj hlast
  rw [fileNode, hlast', Option.bind_some, fileLink,
    remapFolder_link hnames hnew hremap' hparent ?_, Option.map_some]
  intro p hp
  obtain ⟨grand, hgrand⟩ := (hup p hp).node_eq
  obtain ⟨named, hnamed, -⟩ := Option.bind_eq_some_iff.mp hgrand
  exact ⟨named, Table.lastOf_mem hnamed⟩

end Remapped

end Import

/-! ## Importing what fits -/

/-- The folders of a file, put in order, lead to its top; none of its requests has a link that is
blank; and no folder of another collection that is written over holds something that stays. -/
structure ImportFits (duplicate : Bool) (file : CollectionExport) (stores : CollectionStores) :
    Prop where
  folders : ∀ folder ∈ file.folders, Rooted (fileNode duplicate file.folders) () (Doc.metaId folder)
  requests : ∀ request ∈ file.requests, duplicate = true ∨
      Table.lastOf Doc.metaId file.requests (Doc.metaId request) = some request →
    field request (units "folderId") = none ∨ truthy (field request (units "folderId")) = true
  leftFolders : duplicate = false → ∀ folder ∈ stores.folders,
    Doc.collectionId folder ≠ Doc.metaId file.collection →
    Doc.metaId folder ∉ file.folders.map Doc.metaId →
    ∀ taken ∈ file.folders, parentLink folder ≠ some (some (Doc.metaId taken))
  leftRequests : duplicate = false → ∀ request ∈ stores.requests,
    Doc.collectionId request ≠ Doc.metaId file.collection →
    Doc.metaId request ∉ file.requests.map Doc.metaId →
    ∀ taken ∈ file.folders, folderLink request ≠ some (some (Doc.metaId taken))

section Fits

variable {F : FilePlatform} {stores stores' : CollectionStores} {checked : CollectionExport}
  {newId : Nat → Text} {now : Json} {duplicate : Bool} {result : CollectionImportResult}
  {replaced : List Removed}

/-- What is stored in a tree names stored folders only, none of which has a new id. -/
theorem link_ne_newId (hfresh : FreshIds newId stores) {c : Text}
    {link : Option (Option Text)} (hleads : Leads (folderNode stores.folders) c link) (i : Nat) :
    link ≠ some (some (newId i)) := by
  rintro rfl
  rcases hleads with htop | ⟨key, hkey, hrooted⟩
  · cases htop
  · cases hkey
    obtain ⟨folder, hfolder, hid, -⟩ := exists_folder_of_rooted hrooted
    exact hfresh.keys folder hfolder i hid

/-- A file that fits, stored over a tree or beside what is in it. -/
theorem IsTree.importFile (h : IsTree stores) (hchecked : Doc.metaId checked.collection ≠ [])
    (hresult : importPayload F newId now duplicate checked = some result)
    (hfresh : duplicate = true → FreshIds newId stores)
    (hfits : ImportFits duplicate (normalizeExport F checked) stores)
    (hstores : stores.importCollectionExport result.payload duplicate =
      some (stores', replaced)) : IsTree stores' := by
  have hnames : ∀ folder ∈ (normalizeExport F checked).folders, NamesItself folder :=
    fun _ => namesItself_of_mem_normalized
  rw [importPayload] at hresult
  cases duplicate with
  | false =>
      cases hresult
      have hkey : Doc.metaId (normalizeExport F checked).collection ≠ [] := by
        rw [normalizeExport, Doc.metaId_ensureDocId]
        exact hchecked
      refine h.importDocs rfl hkey hnames hfits.folders ?_ ?_ ?_ hstores
      · intro request hlast
        exact hfits.requests request (Table.lastOf_mem hlast).1 (Or.inr hlast)
      · intro folder hfolder
        obtain ⟨hmem, hother⟩ := mem_deleteOf.mp hfolder
        exact hfits.leftFolders rfl folder hmem hother
      · intro request hrequest
        obtain ⟨hmem, hother⟩ := mem_deleteOf.mp hrequest
        exact hfits.leftRequests rfl request hmem hother
  | true =>
      obtain ⟨⟨payload, idRemap⟩, hremap, rfl⟩ := Option.map_eq_some_iff.mp hresult
      obtain ⟨hinjective, hnonblank, -, -, -⟩ := hfresh rfl
      obtain ⟨⟨-, hkey⟩, hmade, -, -⟩ := remapIdentifiers_spec hremap
      obtain ⟨hfolders, hrequests⟩ := remapIdentifiers_parts hremap
      have hlinks := remapRequests_links (nonblank_folderIds hnonblank) (fun entry hentry => by
        obtain ⟨_, -, rfl⟩ := List.mem_map.mp hentry
        exact hnonblank _) hrequests
      -- Every folder of the file has one of the new ids.
      have hnewIds : ∀ taken ∈ payload.folders, ∃ i, Doc.metaId taken = newId i := by
        intro taken htaken
        obtain ⟨folder, hfolder, -, hid⟩ := mem_of_forall₂_left hmade htaken
        obtain ⟨i, -, hget⟩ := get?_folderIds newId hfolder
        exact ⟨i + 1, by rw [hid, hget, Option.getD_some]⟩
      refine h.importDocs hkey (hnonblank 0) ?_
        (rooted_remapped hnames hnonblank hinjective hremap hfits.folders) ?_ ?_ ?_ hstores
      · intro folder hfolder
        obtain ⟨_, -, hmadeFrom, -⟩ := mem_of_forall₂_left hmade hfolder
        exact hmadeFrom.2
      · intro request hlast
        obtain ⟨given, hgiven, hnone, htruthy⟩ :=
          mem_of_forall₂_left hlinks (Table.lastOf_mem hlast).1
        obtain ⟨entry, hentry, rfl⟩ := List.mem_map.mp hgiven
        obtain ⟨numbered, hnumbered, rfl⟩ := List.mem_map.mp hentry
        have hin := List.mem_of_getElem? (List.mk_mem_zipIdx_iff_getElem?.mp hnumbered)
        exact (hfits.requests numbered.1 hin (Or.inl rfl)).imp hnone htruthy
      · intro folder hfolder _ taken htaken
        obtain ⟨i, hid⟩ := hnewIds taken htaken
        rw [hid]
        exact link_ne_newId (hfresh rfl) (h.folders folder hfolder) i
      · intro request hrequest _ taken htaken
        obtain ⟨i, hid⟩ := hnewIds taken htaken
        rw [hid]
        exact link_ne_newId (hfresh rfl) (h.requests request hrequest) i

end Fits

/-! ## Runs -/

/-- A step of the tree, with what it takes from the page. -/
inductive TreeStep where
  | createCollection (m : Moment) (name : Text) (description : Option Text)
  | createFolder (m : Moment) (collectionId name : Text) (parent : Option Text)
      (order : Option Json)
  | createRequest (m : Moment) (content : Fields) (collectionId name : Text)
      (folder : Option Text) (order : Option Json)
  | renameCollection (m : Moment) (id : Text) (name description : Option Text)
  | renameFolder (m : Moment) (id name : Text)
  | renameRequest (m : Moment) (id name : Text)
  | duplicateCollection (m : Moment) (id : Text)
  | duplicateFolder (m : Moment) (id : Text)
  | duplicateRequest (m : Moment) (id : Text)
  | reorderCollections (m : Moment) (order : List (Text × Json))
  | reorderChildren (m : Moment) (order : List (Text × Json))
  | deleteCollection (id : Text)
  | deleteFolder (id : Text)
  | deleteRequest (id : Text)
  /-- What one of the deletes or imports so far took out is put back. -/
  | undo (i : Nat)
  | importFile (m : Moment) (duplicate : Bool) (input : Option Json)

/-- The stores, and what an undo was offered for so far. -/
structure TreeState where
  stores : CollectionStores := {}
  offered : List Removed := []

namespace TreeState

/-- The stores after a transaction that may have been rolled back. -/
def commit (s : TreeState) (stores : Option CollectionStores) : TreeState :=
  { s with stores := stores.getD s.stores }

/-- The stores after a delete, for which an undo is offered. -/
def deleted (s : TreeState) (after : CollectionStores × Removed) : TreeState :=
  { stores := after.1, offered := s.offered ++ [after.2] }

/-- A file read, made ready and stored: nothing happens where it is refused. -/
def imported (F : FilePlatform) (s : TreeState) (m : Moment) (duplicate : Bool)
    (input : Option Json) : TreeState :=
  match importCollection F m.newId m.now duplicate input with
  | .ok (some result) =>
      match s.stores.importCollectionExport result.payload duplicate with
      | some (stores, replaced) => { stores, offered := s.offered ++ replaced }
      | none => s
  | _ => s

/-- What a step makes of the tree. -/
def next (F : FilePlatform) (s : TreeState) : TreeStep → TreeState
  | .createCollection m name description =>
      s.commit (s.stores.createCollection m name description)
  | .createFolder m collectionId name parent order =>
      s.commit (s.stores.createFolder m collectionId name parent order)
  | .createRequest m content collectionId name folder order =>
      s.commit (s.stores.createRequest m content collectionId name folder order)
  | .renameCollection m id name description =>
      s.commit (s.stores.renameCollection m id name description)
  | .renameFolder m id name => s.commit (s.stores.renameFolder m id name)
  | .renameRequest m id name => s.commit (s.stores.renameRequest m id name)
  | .duplicateCollection m id => s.commit (s.stores.duplicateCollection m id)
  | .duplicateFolder m id => s.commit (s.stores.duplicateFolder m id)
  | .duplicateRequest m id => s.commit (s.stores.duplicateRequest m id)
  | .reorderCollections m order => s.commit (s.stores.reorderCollections m order)
  | .reorderChildren m order => s.commit (s.stores.reorderChildren m order)
  | .deleteCollection id => s.deleted (s.stores.deleteCollection id)
  | .deleteFolder id => s.deleted (s.stores.deleteFolder id)
  | .deleteRequest id => s.deleted (s.stores.deleteRequest id)
  | .undo i => s.commit (s.offered[i]?.map s.stores.putBack)
  | .importFile m duplicate input => s.imported F m duplicate input

/-- The tree as a machine. -/
def step (F : FilePlatform) (s : TreeState) (a : TreeStep) : Option TreeState :=
  some (s.next F a)

end TreeState

/-- The ids an import under new ids is given are new. -/
def TreeStep.IdsNew (s : TreeState) : TreeStep → Prop
  | .importFile m duplicate _ => duplicate = true → FreshIds m.newId s.stores
  | _ => True

/-- What a step is handed fits the stores: a place that exists for what is new, folders that are
there for what is put back, and a file whose folders lead to its top. -/
def TreeStep.Fits (F : FilePlatform) (s : TreeState) : TreeStep → Prop
  | .createFolder _ collectionId _ parent _ => PlaceExists s.stores collectionId parent
  | .createRequest _ _ collectionId _ folder _ => PlaceExists s.stores collectionId folder
  | .undo i => ∀ removed, s.offered[i]? = some removed → UndoFits s.stores removed
  | .importFile _ duplicate input => ∀ checked, validateCollection F input = .ok checked →
      ImportFits duplicate (normalizeExport F checked) s.stores
  | _ => True

/-- A tree after a transaction: where it was rolled back, the tree before. -/
theorem IsTree.commit {s : TreeState} {stores : Option CollectionStores} (h : IsTree s.stores)
    (hstores : ∀ stores', stores = some stores' → IsTree stores') :
    IsTree (s.commit stores).stores := by
  cases stores with
  | none => exact h
  | some stores => exact hstores stores rfl

/-- A tree after a file was read. -/
theorem IsTree.imported {F : FilePlatform} {s : TreeState} {m : Moment} {duplicate : Bool}
    {input : Option Json} (h : IsTree s.stores)
    (hnew : duplicate = true → FreshIds m.newId s.stores)
    (hfits : ∀ checked, validateCollection F input = .ok checked →
      ImportFits duplicate (normalizeExport F checked) s.stores) :
    IsTree (s.imported F m duplicate input).stores := by
  unfold TreeState.imported
  split
  · next result hresult =>
      obtain ⟨checked, hchecked, himport⟩ : ∃ checked,
          validateCollection F input = .ok checked ∧
            importPayload F m.newId m.now duplicate checked = some result := by
        unfold importCollection at hresult
        cases hchecked : validateCollection F input with
        | error issues =>
            rw [hchecked] at hresult
            cases hresult
        | ok checked =>
            rw [hchecked] at hresult
            exact ⟨checked, rfl, Except.ok.inj hresult⟩
      split
      · next stores replaced hstores =>
          exact h.importFile (metaId_of_checked hchecked) himport hnew (hfits checked hchecked)
            hstores
      · exact h
  · exact h

/-- One step that fits keeps the tree. -/
theorem IsTree.next {F : FilePlatform} {s : TreeState} {a : TreeStep} (h : IsTree s.stores)
    (hnew : a.IdsNew s) (hfits : a.Fits F s) : IsTree (s.next F a).stores := by
  cases a with
  | createCollection m name description => exact h.commit fun _ => h.createCollection
  | createFolder m c name parent order => exact h.commit fun _ => h.createFolder hfits
  | createRequest m content c name folder order => exact h.commit fun _ => h.createRequest hfits
  | renameCollection m id name description => exact h.renameCollection m id name description
  | renameFolder m id name => exact h.renameFolder m id name
  | renameRequest m id name => exact h.renameRequest m id name
  | duplicateCollection m id => exact h.commit fun _ => h.duplicateCollection
  | duplicateFolder m id => exact h.commit fun _ => h.duplicateFolder
  | duplicateRequest m id => exact h.commit fun _ => h.duplicateRequest
  | reorderCollections m order => exact h.reorderCollections m order
  | reorderChildren m order => exact h.reorderChildren m order
  | deleteCollection id => exact h.deleteCollection id
  | deleteFolder id => exact h.deleteFolder id
  | deleteRequest id => exact h.deleteRequest id
  | undo i =>
      apply h.commit
      intro stores' hstores
      obtain ⟨removed, hremoved, rfl⟩ := Option.map_eq_some_iff.mp hstores
      exact h.putBack (hfits removed hremoved)
  | importFile m duplicate input => exact h.imported hnew hfits

/-- The link of a stored document: there is none, or it names a stored folder of its collection. -/
def LinkHeld (stores : CollectionStores) (doc : Doc) (key : Text) : Prop :=
  field doc key = none ∨ ∃ folder ∈ stores.folders,
    field doc key = some (.string (Doc.metaId folder)) ∧
      Doc.collectionId folder = Doc.collectionId doc

/-- What is stored is a tree: every link is none or to a stored folder of the same collection, the
way up from every folder ends at the top, a folder's deletion takes out nothing of another
collection, and every request is reached from the top of its own. -/
structure TreeHolds (stores : CollectionStores) : Prop where
  parents : ∀ folder ∈ stores.folders, LinkHeld stores folder (units "parentFolderId")
  folders : ∀ request ∈ stores.requests, LinkHeld stores request (units "folderId")
  ends : ∀ folder ∈ stores.folders,
    Rooted (folderNode stores.folders) (Doc.collectionId folder) (Doc.metaId folder)
  deletes : ∀ id doc,
    doc ∈ stores.folders ∧ doc ∉ (stores.deleteFolder id).1.folders ∨
      doc ∈ stores.requests ∧ doc ∉ (stores.deleteFolder id).1.requests →
    ∃ top ∈ stores.folders, Doc.metaId top = id ∧ Doc.collectionId doc = Doc.collectionId top
  reached : ∀ request ∈ stores.requests,
    (∃ collection ∈ stores.collections, Doc.metaId collection = Doc.collectionId request) ∧
      Leads (folderNode stores.folders) (Doc.collectionId request) (folderLink request)

/-- A link that leads to the top is held. -/
theorem linkHeld_of_leads {stores : CollectionStores} {doc : Doc} {key : Text}
    (h : Leads (folderNode stores.folders) (Doc.collectionId doc) (linkOf (field doc key))) :
    LinkHeld stores doc key := by
  rcases h with htop | ⟨named, hnamed, hrooted⟩
  · exact Or.inl (linkOf_eq_some_none.mp htop)
  · obtain ⟨folder, hfolder, rfl, hc⟩ := exists_folder_of_rooted hrooted
    exact Or.inr ⟨folder, hfolder, (linkOf_eq_some_some.mp hnamed).1, hc⟩

theorem IsTree.holds {stores : CollectionStores} (h : IsTree stores) : TreeHolds stores where
  parents folder hfolder := linkHeld_of_leads (h.folders folder hfolder)
  folders request hrequest := linkHeld_of_leads (h.requests request hrequest)
  ends folder hfolder := (rooted_iff_leads hfolder).mpr (h.folders folder hfolder)
  deletes _ _ hdoc := h.deleteFolder_own hdoc
  reached request hrequest :=
    ⟨h.requestCollections request hrequest, h.requests request hrequest⟩

/-- After any steps from empty stores, each of which is handed what fits, what is stored is a
tree. -/
theorem run_treeHolds {F : FilePlatform} {actions : List TreeStep} {s : TreeState}
    (hfits : Meets (TreeState.step F) (fun s a => a.IdsNew s ∧ a.Fits F s) {} actions)
    (hrun : run (TreeState.step F) {} actions = some s) : TreeHolds s.stores := by
  have hstep : ∀ s a next, IsTree s.stores → a.IdsNew s ∧ a.Fits F s →
      TreeState.step F s a = some next → IsTree next.stores := by
    rintro s a next h ⟨hnew, ha⟩ hnext
    cases hnext
    exact h.next hnew ha
  exact (run_induction hstep isTree_empty hfits hrun).holds

/-! ## A run that fits, and a file that does not -/

/-- A place that exists, by what is stored under its keys. -/
theorem placeExists_of_get? {stores : CollectionStores} {c : Text} {folder : Option Text}
    (hcollection : (stores.collections.get? c).isSome = true)
    (hfolder : ∀ key ∈ folder, key ≠ [] ∧
      (stores.folders.get? key).any (fun parent => Doc.collectionId parent = c) = true) :
    PlaceExists stores c folder := by
  constructor
  · obtain ⟨collection, hget⟩ := Option.isSome_iff_exists.mp hcollection
    exact ⟨collection, Table.get?_eq_some_iff.mp hget⟩
  · intro key hkey
    obtain ⟨hne, hany⟩ := hfolder key hkey
    obtain ⟨parent, hget, hc⟩ := (Option.any_eq_true _ _).mp hany
    obtain ⟨hmem, hid⟩ := Table.get?_eq_some_iff.mp hget
    exact ⟨hne, parent, hmem, hid, of_decide_eq_true hc⟩

/-- Requests from the top of their collections can always be put back. -/
theorem undoFits_of_top {stores : CollectionStores} {removed : Removed}
    (hfolders : removed.folders = [])
    (htop : ∀ request ∈ removed.requests, folderLink request = some none) :
    UndoFits stores removed := by
  have hnone : ∀ (key : Text) (back : Doc),
      Table.lastOf Doc.metaId (stores.backs removed removed.folders) key ≠ some back := by
    intro key back hback
    rw [hfolders] at hback
    cases hback
  constructor
  · exact fun folder hlast => absurd hlast (hnone _ folder)
  · intro request hlast
    exact Or.inl (htop request (List.mem_of_mem_filter (Table.lastOf_mem hlast).1))
  · exact fun _ _ _ back hlast => absurd hlast (hnone _ back)
  · exact fun _ _ _ back hlast => absurd hlast (hnone _ back)

/-- A moment whose ids are `x`s, more than so many. -/
def tick (n : Nat) : Moment where
  now := .number ⟨units "0", JsonNumber.marks_zero⟩
  newId i := List.replicate (n + i + 1) 120
  nonblank _ := by simp
  place := .number ⟨units "1", JsonNumber.marks_one⟩

/-- A folder and two requests made, one of them in the folder, and the other deleted and put
back. -/
def undoneRun : List TreeStep :=
  [.createCollection (tick 0) (units "C") none,
    .createFolder (tick 1) (units "x") (units "F") none none,
    .createRequest (tick 2) [] (units "x") (units "R") (some (units "xx")) none,
    .createRequest (tick 3) [] (units "x") (units "S") none none,
    .deleteRequest (units "xxxx"), .undo 0]

theorem undoneRun_treeHolds :
    ∃ s, run (TreeState.step plainFiles) {} undoneRun = some s ∧ TreeHolds s.stores := by
  have hfits : Meets (TreeState.step plainFiles) (fun s a => a.IdsNew s ∧ a.Fits plainFiles s) {}
      undoneRun := by
    refine ⟨⟨trivial, trivial⟩, ⟨trivial, ?_⟩, ⟨trivial, ?_⟩, ⟨trivial, ?_⟩, ⟨trivial, trivial⟩,
      ⟨trivial, ?_⟩, trivial⟩
    · exact placeExists_of_get? (by decide +kernel) (by decide +kernel)
    · exact placeExists_of_get? (by decide +kernel) (by decide +kernel)
    · exact placeExists_of_get? (by decide +kernel) (by decide +kernel)
    · intro removed hremoved
      have hall : (some removed).all (fun removed => removed.folders.isEmpty &&
          removed.requests.all fun request => folderLink request = some none) = true := by
        rw [← hremoved]
        decide +kernel
      rw [Option.all_some, Bool.and_eq_true, List.isEmpty_iff, List.all_eq_true] at hall
      exact undoFits_of_top hall.1 fun request hin => of_decide_eq_true (hall.2 request hin)
  exact ⟨_, rfl, run_treeHolds hfits rfl⟩

/-- A file with a folder that names a parent it does not have. -/
def strayFile : Json :=
  .object (setField (fieldsOf (some (folderFile (units "f") (units "g")))) (units "folders")
    (.array [.object (setField (fieldsOf (some (fileFolder (units "f") (units "A"))))
      (units "parentFolderId") (.string (units "gone")))]))

/-- A file with a folder in one that does not exist is stored as it is. -/
theorem strayFile_not_treeHolds : ∃ s,
    run (TreeState.step plainFiles) {} [.importFile (tick 0) false (some strayFile)] = some s ∧
      ¬ TreeHolds s.stores := by
  have hstray : (run (TreeState.step plainFiles) {}
      [.importFile (tick 0) false (some strayFile)]).any (fun s =>
        s.stores.folders.rows.any fun folder =>
          parentOf folder = some (units "gone") ∧
            ∀ parent ∈ s.stores.folders.rows, Doc.metaId parent ≠ units "gone") = true := by
    decide +kernel
  obtain ⟨s, hrun, hfolder⟩ := exists_run_of_any hstray
  obtain ⟨folder, hmem, hgone⟩ := List.any_eq_true.mp hfolder
  obtain ⟨hparent, hall⟩ := of_decide_eq_true hgone
  refine ⟨s, hrun, fun h => ?_⟩
  rw [parentOf] at hparent
  rcases h.parents folder hmem with hnone | ⟨parent, hin, hnamed, -⟩
  · rw [hnone] at hparent
    cases hparent
  · rw [hnamed] at hparent
    exact hall parent hin (Option.some.inj hparent)

end Wayfarer
