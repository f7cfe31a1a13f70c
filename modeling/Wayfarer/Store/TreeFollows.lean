import Wayfarer.Store.Refresh
import Wayfarer.Store.TreeRuns

/-!
# The tree follows the stores

The tree is read in cells: the list of the collections, and the folders and the requests of each of
them. `CollectionsPage.Inv` is what carries a run: each cell that the tree shows is what the stores
hold, or something under way still brings it (`Covered`). A write that changes a cell brings it, and
so does every refresh until it has read it; a refresh that ends with what is not stored any more
takes a cell away again, unless another one still brings it. `run_follows` says that no other step
does.
-/

set_option autoImplicit false

namespace Wayfarer

open Library

/-! ## What a write leaves alone -/

/-- Two tables with the same documents of a collection. -/
def SameOf (c : Text) (t t' : DocTable) : Prop :=
  CollectionStores.ofCollection t' c = CollectionStores.ofCollection t c

theorem SameOf.refl (c : Text) (t : DocTable) : SameOf c t t := rfl

theorem SameOf.trans {c : Text} {t t' t'' : DocTable} (h : SameOf c t t') (h' : SameOf c t' t'') :
    SameOf c t t'' :=
  Eq.trans h' h

/-- A key taken out whose document is of another collection. -/
theorem sameOf_delete {c key : Text} {t : DocTable}
    (h : ∀ doc ∈ t, Doc.metaId doc = key → Doc.collectionId doc ≠ c) :
    SameOf c t (t.delete key) := by
  rw [SameOf, CollectionStores.ofCollection, CollectionStores.ofCollection, Table.getAll,
    Table.getAll, Table.delete, List.filter_filter]
  apply List.filter_congr
  intro doc hdoc
  by_cases hkey : Doc.metaId doc = key
  · simp [hkey, h doc hdoc hkey]
  · simp [hkey]

theorem sameOf_deleteAll {c : Text} {keys : List Text} {t : DocTable}
    (h : ∀ doc ∈ t, Doc.metaId doc ∈ keys → Doc.collectionId doc ≠ c) :
    SameOf c t (t.deleteAll keys) := by
  induction keys generalizing t with
  | nil => exact SameOf.refl c t
  | cons key keys ih =>
      have hfirst : SameOf c t (t.delete key) := by
        apply sameOf_delete
        intro doc hdoc hkey
        exact h doc hdoc (hkey ▸ List.mem_cons_self)
      apply hfirst.trans
      apply ih
      intro doc hdoc hkey
      exact h doc (Table.mem_delete.mp hdoc).1 (List.mem_cons_of_mem key hkey)

/-- A document of another collection, written over one of another collection or over none. -/
theorem sameOf_put {c : Text} {t : DocTable} {doc : Doc} (hdoc : Doc.collectionId doc ≠ c)
    (h : ∀ old ∈ t, Doc.metaId old = Doc.metaId doc → Doc.collectionId old ≠ c) :
    SameOf c t (t.put doc) := by
  apply (sameOf_delete h).trans
  rw [SameOf, CollectionStores.ofCollection, CollectionStores.ofCollection, Table.getAll,
    Table.getAll, Table.put, List.filter_append]
  simp [hdoc]

theorem sameOf_add {c : Text} {t t' : DocTable} {doc : Doc} (hdoc : Doc.collectionId doc ≠ c)
    (h : t.add doc = some t') : SameOf c t t' := by
  obtain ⟨hnew, rfl⟩ := Table.add_eq_some_iff.mp h
  apply sameOf_put hdoc
  intro old hold hkey
  exact absurd hkey (hnew old hold)

theorem sameOf_addAll {c : Text} {t t' : DocTable} {docs : List Doc}
    (hdocs : ∀ doc ∈ docs, Doc.collectionId doc ≠ c)
    (h : CollectionStores.addAll t docs = some t') : SameOf c t t' := by
  induction docs generalizing t with
  | nil =>
      obtain rfl := Option.some.inj h
      exact SameOf.refl c _
  | cons doc docs ih =>
      rw [CollectionStores.addAll, List.foldlM_cons] at h
      obtain ⟨between, hadd, hrest⟩ := Option.bind_eq_some_iff.mp h
      apply (sameOf_add (hdocs doc List.mem_cons_self) hadd).trans
      exact ih (fun doc' hdoc' => hdocs doc' (List.mem_cons_of_mem doc hdoc')) hrest

theorem collectionId_touched (doc : Doc) (now : Json) :
    Doc.collectionId (Doc.touched doc now) = Doc.collectionId doc := by
  rw [Doc.touched, Doc.collectionId_setField (by decide)]

/-- A document of another collection that is changed and stays in it. -/
theorem sameOf_change {c id : Text} {t : DocTable} (m : Moment) (edit : Edit)
    (h : ∀ doc, t.get? id = some doc → Doc.collectionId doc ≠ c) :
    SameOf c t (CollectionStores.change m t id edit.apply) := by
  rw [CollectionStores.change]
  cases hget : t.get? id with
  | none => exact SameOf.refl c t
  | some doc =>
      have hdoc := h doc hget
      obtain ⟨hmem, hkey⟩ := Table.get?_eq_some_iff.mp hget
      apply sameOf_put
      · rw [collectionId_touched, edit.collection]
        exact hdoc
      · intro old hold hsame
        rw [Doc.metaId_touched, edit.key] at hsame
        exact Table.eq_of_key_eq hold hmem hsame ▸ hdoc

/-- Stores that agree on everything but the folders and the requests of one collection. -/
structure OnlyIn (c : Text) (stores stores' : CollectionStores) : Prop where
  collections : stores'.collections = stores.collections
  folders : ∀ c', c' ≠ c → SameOf c' stores.folders stores'.folders
  requests : ∀ c', c' ≠ c → SameOf c' stores.requests stores'.requests

section Writes

variable {stores stores' : CollectionStores} {c : Text} (m : Moment)

theorem OnlyIn.refl (c : Text) (stores : CollectionStores) : OnlyIn c stores stores where
  collections := rfl
  folders c' _ := SameOf.refl c' _
  requests c' _ := SameOf.refl c' _

theorem OnlyIn.trans {stores'' : CollectionStores} (h : OnlyIn c stores stores')
    (h' : OnlyIn c stores' stores'') : OnlyIn c stores stores'' where
  collections := h'.collections.trans h.collections
  folders c' hne := (h.folders c' hne).trans (h'.folders c' hne)
  requests c' hne := (h.requests c' hne).trans (h'.requests c' hne)

/-- Folders that differ in one collection only. -/
theorem OnlyIn.of_folders {folders : DocTable}
    (h : ∀ c', c' ≠ c → SameOf c' stores.folders folders) :
    OnlyIn c stores { stores with folders } where
  collections := rfl
  folders := h
  requests c' _ := SameOf.refl c' _

/-- Requests that differ in one collection only. -/
theorem OnlyIn.of_requests {requests : DocTable}
    (h : ∀ c', c' ≠ c → SameOf c' stores.requests requests) :
    OnlyIn c stores { stores with requests } where
  collections := rfl
  folders c' _ := SameOf.refl c' _
  requests := h

theorem onlyIn_createFolder {name : Text} {parent : Option Text} {order : Option Json}
    (h : stores.createFolder m c name parent order = some stores') : OnlyIn c stores stores' := by
  obtain ⟨folders, hadd, rfl⟩ := Option.map_eq_some_iff.mp h
  apply OnlyIn.of_folders
  intro c' hne
  refine sameOf_add ?_ hadd
  cases parent with
  | none => exact hne.symm
  | some parent => exact hne.symm

theorem onlyIn_createRequest {content : Fields} {name : Text} {folder : Option Text}
    {order : Option Json} (h : stores.createRequest m content c name folder order = some stores') :
    OnlyIn c stores stores' := by
  obtain ⟨requests, hadd, rfl⟩ := Option.map_eq_some_iff.mp h
  apply OnlyIn.of_requests
  intro c' hne
  refine sameOf_add ?_ hadd
  rw [Doc.collectionId_setField (by decide), Doc.collectionId_setField (by decide),
    collectionId_copy, collectionId_withLink (by decide)]
  exact (Doc.collectionId_withCollectionId content c).trans_ne hne.symm

theorem onlyIn_editFolder {id : Text} {doc : Doc} (edit : Edit)
    (hget : stores.folders.get? id = some doc) :
    OnlyIn (Doc.collectionId doc) stores
      { stores with folders := CollectionStores.change m stores.folders id edit.apply } := by
  apply OnlyIn.of_folders
  intro c' hne
  apply sameOf_change
  intro doc' hget'
  rw [hget] at hget'
  obtain rfl := Option.some.inj hget'
  exact hne.symm

theorem onlyIn_editRequest {id : Text} {doc : Doc} (edit : Edit)
    (hget : stores.requests.get? id = some doc) :
    OnlyIn (Doc.collectionId doc) stores
      { stores with requests := CollectionStores.change m stores.requests id edit.apply } := by
  apply OnlyIn.of_requests
  intro c' hne
  apply sameOf_change
  intro doc' hget'
  rw [hget] at hget'
  obtain rfl := Option.some.inj hget'
  exact hne.symm

theorem onlyIn_duplicateRequest {id : Text} {doc : Doc} (hget : stores.requests.get? id = some doc)
    (h : stores.duplicateRequest m id = some stores') :
    OnlyIn (Doc.collectionId doc) stores stores' := by
  rw [CollectionStores.duplicateRequest, hget] at h
  obtain ⟨requests, hadd, rfl⟩ := Option.map_eq_some_iff.mp h
  apply OnlyIn.of_requests
  intro c' hne
  refine sameOf_add ?_ hadd
  rw [Doc.collectionId_setField (by decide), Doc.collectionId_setField (by decide),
    collectionId_copy]
  exact hne.symm

theorem onlyIn_deleteRequest {id : Text}
    (hof : ∀ doc, stores.requests.get? id = some doc → Doc.collectionId doc = c) :
    OnlyIn c stores (stores.deleteRequest id).1 := by
  apply OnlyIn.of_requests
  intro c' hne
  apply sameOf_delete
  intro doc hdoc hkey
  rw [hof doc (Table.get?_eq_some_iff.mpr ⟨hdoc, hkey⟩)]
  exact hne.symm

/-- A folder deleted with everything in it, all of one collection. -/
theorem onlyIn_deleteFolder {id : Text}
    (hof : ∀ folder ∈ (stores.folders.get? id).toList ++ stores.subtree id,
      Doc.collectionId folder = c ∧
        ∀ request ∈ stores.requestsIn (Doc.metaId folder), Doc.collectionId request = c) :
    OnlyIn c stores (stores.deleteFolder id).1 where
  collections := rfl
  folders c' hne := by
    apply sameOf_deleteAll
    intro doc hdoc hkey
    obtain ⟨folder, hfolder, hsame⟩ := List.mem_map.mp hkey
    obtain rfl := Table.eq_of_key_eq (mem_of_deletedFolder hfolder) hdoc hsame
    rw [(hof folder hfolder).1]
    exact hne.symm
  requests c' hne := by
    apply sameOf_deleteAll
    intro doc hdoc hkey
    obtain ⟨request, hrequest, hsame⟩ := List.mem_map.mp hkey
    obtain ⟨folder, hfolder, hin⟩ := List.mem_flatMap.mp hrequest
    have hmem : request ∈ stores.requests := (mem_requestsIn.mp hin).1
    obtain rfl := Table.eq_of_key_eq hmem hdoc hsame
    rw [(hof folder hfolder).2 request hin]
    exact hne.symm

/-- A new place for a folder or a request. -/
def placing (order : Json) : Edit where
  apply doc := setField doc (units "order") order
  key _ := Doc.metaId_setField (by decide)
  collection _ := Doc.collectionId_setField (by decide)

/-- A key that only documents of the collection have. -/
def KeyOf (c : Text) (stores : CollectionStores) (key : Text) : Prop :=
  ∀ doc, doc ∈ stores.folders ∨ doc ∈ stores.requests → Doc.metaId doc = key →
    Doc.collectionId doc = c

theorem reorderChild_eq (entry : Text × Json) : stores.reorderChild m entry =
    match stores.folders.get? entry.1 with
    | some _ => { stores with
        folders := CollectionStores.change m stores.folders entry.1 (placing entry.2).apply }
    | none => { stores with
        requests := CollectionStores.change m stores.requests entry.1 (placing entry.2).apply } :=
  rfl

/-- A place given to a folder or a request of the collection. -/
theorem onlyIn_reorderChild {entry : Text × Json} (hof : KeyOf c stores entry.1) :
    OnlyIn c stores (stores.reorderChild m entry) := by
  have hkeep : ∀ (t : DocTable), (∀ doc ∈ t, Doc.metaId doc = entry.1 → Doc.collectionId doc = c) →
      ∀ c', c' ≠ c → SameOf c' t (CollectionStores.change m t entry.1 (placing entry.2).apply) := by
    intro t ht c' hne
    apply sameOf_change
    intro doc hget
    obtain ⟨hmem, hkey⟩ := Table.get?_eq_some_iff.mp hget
    rw [ht doc hmem hkey]
    exact hne.symm
  rw [reorderChild_eq]
  cases stores.folders.get? entry.1 with
  | some folder =>
      apply OnlyIn.of_folders
      exact hkeep stores.folders fun doc hdoc => hof doc (.inl hdoc)
  | none =>
      apply OnlyIn.of_requests
      exact hkeep stores.requests fun doc hdoc => hof doc (.inr hdoc)

/-- A new place leaves every document in its collection. -/
theorem keyOf_reorderChild {entry : Text × Json} {key : Text} (hof : KeyOf c stores key) :
    KeyOf c (stores.reorderChild m entry) key := by
  have hkeep : ∀ (t : DocTable), (∀ doc ∈ t, Doc.metaId doc = key → Doc.collectionId doc = c) →
      ∀ doc ∈ CollectionStores.change m t entry.1 (placing entry.2).apply,
        Doc.metaId doc = key → Doc.collectionId doc = c := by
    intro t ht doc hdoc hkey
    have hplaces : SamePlaces (units "folderId") t
        (CollectionStores.change m t entry.1 (placing entry.2).apply) := by
      apply samePlaces_change (by decide)
      intro doc
      exact placeOf_setField doc (by decide) (by decide) (by decide)
    obtain ⟨old, hold, hplace⟩ := (hplaces _).mpr ⟨doc, hdoc, rfl⟩
    simp only [placeOf, Prod.mk.injEq] at hplace
    rw [← hplace.2.1]
    exact ht old hold (hplace.1.trans hkey)
  intro doc hdoc hkey
  rw [reorderChild_eq] at hdoc
  cases hget : stores.folders.get? entry.1 with
  | some folder =>
      rw [hget] at hdoc
      rcases hdoc with hdoc | hdoc
      · exact hkeep stores.folders (fun doc hdoc => hof doc (.inl hdoc)) doc hdoc hkey
      · exact hof doc (.inr hdoc) hkey
  | none =>
      rw [hget] at hdoc
      rcases hdoc with hdoc | hdoc
      · exact hof doc (.inl hdoc) hkey
      · exact hkeep stores.requests (fun doc hdoc => hof doc (.inr hdoc)) doc hdoc hkey

theorem onlyIn_reorderChildren {order : List (Text × Json)}
    (hof : ∀ entry ∈ order, KeyOf c stores entry.1) :
    OnlyIn c stores (stores.reorderChildren m order) := by
  induction order generalizing stores with
  | nil => exact OnlyIn.refl c stores
  | cons entry order ih =>
      apply (onlyIn_reorderChild m (hof entry List.mem_cons_self)).trans
      apply ih
      intro later hlater
      exact keyOf_reorderChild m (hof later (List.mem_cons_of_mem entry hlater))

/-- A folder of the collection copied into it, with the requests in it. -/
theorem onlyIn_copyFolder {top : Text} {s s' : CollectionStores.Copying} {folder : Doc}
    (hfolder : Doc.collectionId folder = c)
    (hstep : CollectionStores.copyFolder m top c s folder = some s') :
    OnlyIn c s.stores s'.stores := by
  rw [CollectionStores.copyFolder] at hstep
  split at hstep
  · next folders requests hfolders hrequests =>
      obtain rfl := Option.some.inj hstep
      constructor
      · rfl
      · intro c' hne
        refine sameOf_add ?_ hfolders
        split_ifs
        · rw [Doc.collectionId_setField (by decide), Doc.collectionId_setField (by decide),
            collectionId_copy, hfolder]
          exact hne.symm
        · rw [collectionId_withLink (by decide), collectionId_copy, hfolder]
          exact hne.symm
      · intro c' hne
        refine sameOf_addAll ?_ hrequests
        intro doc hdoc
        obtain ⟨entry, -, rfl⟩ := List.mem_map.mp hdoc
        rw [Doc.collectionId_withCollectionId]
        exact hne.symm
  · cases hstep

theorem onlyIn_duplicateFolder {id : Text} {original : Doc}
    (hget : stores.folders.get? id = some original)
    (hof : ∀ folder ∈ stores.subtree id, Doc.collectionId folder = Doc.collectionId original)
    (h : stores.duplicateFolder m id = some stores') :
    OnlyIn (Doc.collectionId original) stores stores' := by
  have hall : ∀ (l : List Doc) (s s' : CollectionStores.Copying),
      (∀ folder ∈ l, Doc.collectionId folder = Doc.collectionId original) →
      l.foldlM (CollectionStores.copyFolder m id (Doc.collectionId original)) s = some s' →
      OnlyIn (Doc.collectionId original) s.stores s'.stores := by
    intro l
    induction l with
    | nil =>
        intro s s' _ hrun
        obtain rfl := Option.some.inj hrun
        exact OnlyIn.refl _ _
    | cons folder l ih =>
        intro s s' hl hrun
        rw [List.foldlM_cons] at hrun
        obtain ⟨between, hfirst, hrest⟩ := Option.bind_eq_some_iff.mp hrun
        apply (onlyIn_copyFolder m (hl folder List.mem_cons_self) hfirst).trans
        exact ih between s' (fun doc hdoc => hl doc (List.mem_cons_of_mem folder hdoc)) hrest
  rw [CollectionStores.duplicateFolder, hget] at h
  obtain ⟨s', hrun, rfl⟩ := Option.map_eq_some_iff.mp h
  refine hall _ _ s' ?_ hrun
  intro folder hfolder
  rcases List.mem_cons.mp hfolder with rfl | hfolder
  · rfl
  · exact hof folder hfolder

end Writes

/-- What an operation writes is of the collection whose entry it reads again: the folders inside one
that is copied, what a delete takes out, and what is given a new place. The others write one
document, of the collection it names. -/
def StoreOp.WritesIn (stores : CollectionStores) (seen : Option Text) : StoreOp → Prop
  | .duplicateFolder _ id => ∀ original, stores.folders.get? id = some original →
      ∀ folder ∈ stores.subtree id, Doc.collectionId folder = Doc.collectionId original
  | .deleteFolder id => ∀ c, seen = some c →
      ∀ folder ∈ (stores.folders.get? id).toList ++ stores.subtree id,
        Doc.collectionId folder = c ∧
          ∀ request ∈ stores.requestsIn (Doc.metaId folder), Doc.collectionId request = c
  | .reorderChildren _ order => ∀ c, seen = some c → ∀ entry ∈ order, KeyOf c stores entry.1
  | .deleteRequest id => ∀ c, seen = some c →
      ∀ doc, stores.requests.get? id = some doc → Doc.collectionId doc = c
  | _ => True

/-- What comes after a transaction reads again what it changed. -/
def Next.Reads (stores stores' : CollectionStores) : Next → Prop
  | .write op => ∃ m collectionId folderId edit,
      op = .saveInherited none m collectionId folderId edit
  | .follow .nothing => stores' = stores
  | .follow .all => True
  | .follow (.one c) => OnlyIn c stores stores'

theorem reads_ofSeen {stores stores' : CollectionStores} {seen : Option Text}
    (h : ∀ c, seen = some c → OnlyIn c stores stores') :
    (Next.follow (.ofSeen seen)).Reads stores stores' := by
  cases seen with
  | none => trivial
  | some c => exact h c rfl

theorem reads_ofDoc {stores stores' : CollectionStores} {doc : Option Doc}
    (hnone : doc = none → stores' = stores)
    (hsome : ∀ found, doc = some found → OnlyIn (Doc.collectionId found) stores stores') :
    (Next.follow (.ofDoc doc)).Reads stores stores' := by
  cases doc with
  | none => exact hnone rfl
  | some found => exact hsome found rfl

/-- Every operation reads again what it wrote. -/
theorem StoreOp.reads_write {op : StoreOp} {stores stores' : CollectionStores} {seen : Option Text}
    {next : Next} (hin : op.WritesIn stores seen)
    (h : op.write stores seen = some (stores', next)) : next.Reads stores stores' := by
  cases op with
  | createCollection m name description =>
      obtain ⟨after, -, heq⟩ := Option.map_eq_some_iff.mp h
      cases heq
      trivial
  | editCollection m id edit =>
      cases h
      trivial
  | approveScripts approval =>
      rw [StoreOp.write] at h
      cases happrove : stores.approveScripts approval with
      | none =>
          rw [happrove] at h
          cases h
          rfl
      | some after =>
          rw [happrove] at h
          cases h
          trivial
  | saveInherited approval m collectionId folderId edit =>
      cases approval with
      | some approval =>
          cases h
          exact ⟨m, collectionId, folderId, edit, rfl⟩
      | none =>
          cases folderId with
          | none =>
              cases h
              trivial
          | some folderId =>
              cases h
              trivial
  | duplicateCollection m id =>
      obtain ⟨after, -, heq⟩ := Option.map_eq_some_iff.mp h
      cases heq
      trivial
  | deleteCollection id =>
      cases h
      trivial
  | restore removed =>
      cases h
      trivial
  | reorderCollections m order =>
      cases h
      trivial
  | importCollection payload duplicateAsNew =>
      obtain ⟨result, -, heq⟩ := Option.map_eq_some_iff.mp h
      cases heq
      trivial
  | createFolder m collectionId name parent order =>
      obtain ⟨after, hafter, heq⟩ := Option.map_eq_some_iff.mp h
      cases heq
      exact onlyIn_createFolder m hafter
  | editFolder m id edit =>
      cases h
      apply reads_ofDoc
      · intro hnone
        simp only [CollectionStores.change, hnone]
      · intro found hfound
        exact onlyIn_editFolder m edit hfound
  | duplicateFolder m id =>
      obtain ⟨after, hafter, heq⟩ := Option.map_eq_some_iff.mp h
      cases heq
      apply reads_ofDoc
      · intro hnone
        rw [CollectionStores.duplicateFolder, hnone] at hafter
        exact (Option.some.inj hafter).symm
      · intro found hfound
        exact onlyIn_duplicateFolder m hfound (hin found hfound) hafter
  | deleteFolder id =>
      cases h
      apply reads_ofSeen
      intro c hc
      exact onlyIn_deleteFolder (hin c hc)
  | reorderChildren m order =>
      cases h
      apply reads_ofSeen
      intro c hc
      exact onlyIn_reorderChildren m (hin c hc)
  | createRequest m content collectionId name folder order =>
      obtain ⟨after, hafter, heq⟩ := Option.map_eq_some_iff.mp h
      cases heq
      exact onlyIn_createRequest m hafter
  | editRequest m id edit =>
      cases h
      apply reads_ofDoc
      · intro hnone
        simp only [CollectionStores.change, hnone]
      · intro found hfound
        exact onlyIn_editRequest m edit hfound
  | duplicateRequest m id =>
      obtain ⟨after, hafter, heq⟩ := Option.map_eq_some_iff.mp h
      cases heq
      apply reads_ofDoc
      · intro hnone
        rw [CollectionStores.duplicateRequest, hnone] at hafter
        exact (Option.some.inj hafter).symm
      · intro found hfound
        exact onlyIn_duplicateRequest m hfound hafter
  | deleteRequest id =>
      cases h
      apply reads_ofSeen
      intro c hc
      exact onlyIn_deleteRequest (hin c hc)

/-! ## Cells -/

/-- A part of the tree that is read at once. -/
inductive Cell where
  | collections
  | folders (collectionId : Text)
  | requests (collectionId : Text)

/-- What the stores hold of a cell. -/
def Cell.docs (F : FilePlatform) (stores : CollectionStores) : Cell → List Doc
  | .collections => listCollections stores
  | .folders c => listFolders F stores c
  | .requests c => listRequests F stores c

/-- A tree shows documents in a cell. -/
def Shows (tree : List ShownEntry) (docs : List Doc) : Cell → Prop
  | .collections => tree.map ShownEntry.collection = docs.map some
  | .folders c => ∀ entry ∈ tree, entry.id? = some c → entry.folders = docs
  | .requests c => ∀ entry ∈ tree, entry.id? = some c → entry.requests = docs

/-- What a refresh brings of a cell is these documents, so far as it has read it. -/
def Refresh.Brings (docs : List Doc) : Refresh → Cell → Prop
  | .started, _ => True
  | .listed trees rest _ _, .collections =>
      trees.map ShownEntry.collection ++ rest.map some = docs.map some
  | .listed trees rest folders _, .folders c =>
      Shows trees docs (.folders c) ∧ ∀ collection ∈ rest.head?, Doc.metaId collection = c →
        ∀ found ∈ folders, found = docs
  | .listed trees rest _ requests, .requests c =>
      Shows trees docs (.requests c) ∧ ∀ collection ∈ rest.head?, Doc.metaId collection = c →
        ∀ found ∈ requests, found = docs
  | .single _ _ _ _, .collections => False
  | .single c' _ folders _, .folders c => c = c' ∧ ∀ found ∈ folders, found = docs
  | .single c' _ _ requests, .requests c => c = c' ∧ ∀ found ∈ requests, found = docs

/-- A refresh replaces a cell of the tree. -/
def Refresh.Replaces : Refresh → Cell → Prop
  | .single c _ _ _, cell => cell = .folders c ∨ cell = .requests c
  | _, _ => True

/-- An operation under way will read a cell again. -/
def Call.Brings : Call → Cell → Prop
  | .called (.saveInherited none _ _ _ _) _, _ => True
  | .called _ _, _ => False
  | .written .nothing, _ => False
  | .written .all, _ => True
  | .written (.one c), cell => cell = .folders c ∨ cell = .requests c

namespace CollectionsPage

/-- A notice, an operation or one of the refreshes brings a cell as it is stored. -/
def Covered (F : FilePlatform) (s : CollectionsPage) (refreshes : List Refresh)
    (cell : Cell) : Prop :=
  0 < s.notices ∨ (∃ call ∈ s.calls, call.Brings cell) ∨
    ∃ refresh ∈ refreshes, refresh.Brings (cell.docs F s.stores) cell

/-- Where a step of the page goes as it should: what an operation writes is of the collection whose
entry it reads again; a refresh of one entry ends while the entry stands where it was; and a refresh
replaces no cell by what is not stored any more, unless another one that brings the cell is under
way. -/
def Fits (F : FilePlatform) (s : CollectionsPage) : PageAct → Prop
  | .write i => ∀ op seen, s.calls[i]? = some (.called op seen) → op.WritesIn s.stores seen
  | .publish i => ∀ refresh, s.refreshes[i]? = some refresh →
      (∀ c index folders requests, refresh = .single c index folders requests →
        s.tree[index]?.bind ShownEntry.id? = some c) ∧
      ∀ cell, refresh.Replaces cell → refresh.Brings (cell.docs F s.stores) cell ∨
        s.Covered F (s.refreshes.eraseIdx i) cell
  | _ => True

/-- Documents of one collection. -/
def AllOf (c : Text) (docs : List Doc) : Prop :=
  ∀ doc ∈ docs, Doc.collectionId doc = c

/-- An entry that is of a collection, and holds folders and requests of it only. -/
def PairedEntry (entry : ShownEntry) : Prop :=
  ∃ collection, entry.collection = some collection ∧ AllOf (Doc.metaId collection) entry.folders ∧
    AllOf (Doc.metaId collection) entry.requests

/-- What a refresh has read is put together right: the collections are different ones, and what was
read for each is its own. -/
def WellRead : Refresh → Prop
  | .started => True
  | .listed trees rest folders requests =>
      (trees.map ShownEntry.id? ++ rest.map fun doc => some (Doc.metaId doc)).Nodup ∧
        (∀ entry ∈ trees, PairedEntry entry) ∧
        ∀ collection ∈ rest.head?, (∀ found ∈ folders, AllOf (Doc.metaId collection) found) ∧
          ∀ found ∈ requests, AllOf (Doc.metaId collection) found
  | .single c _ folders requests =>
      (∀ found ∈ folders, AllOf c found) ∧ ∀ found ∈ requests, AllOf c found

/-- What a run keeps. -/
structure Inv (F : FilePlatform) (s : CollectionsPage) : Prop where
  paired : ∀ entry ∈ s.tree, PairedEntry entry
  nodup : (s.tree.map ShownEntry.id?).Nodup
  wellRead : ∀ refresh ∈ s.refreshes, WellRead refresh
  fresh : ∀ cell, Shows s.tree (cell.docs F s.stores) cell ∨ s.Covered F s.refreshes cell

end CollectionsPage

/-! ## What is read -/

theorem metaId_ensureId (doc : Doc) : Doc.metaId (ensureId doc) = Doc.metaId doc :=
  congrArg Prod.fst (placeOf_ensureId (by decide : units "id" ≠ units "folderId") doc)

theorem collectionId_ensureId (doc : Doc) :
    Doc.collectionId (ensureId doc) = Doc.collectionId doc := by
  have h := placeOf_ensureId (by decide : units "id" ≠ units "folderId") doc
  simp only [placeOf, Prod.mk.injEq] at h
  exact h.2.1

/-- The children that are listed are the collection's. -/
theorem allOf_listChildren (F : FilePlatform) (table : DocTable) (c : Text) :
    CollectionsPage.AllOf c (listChildren F table c) := by
  intro doc hdoc
  obtain ⟨stored, hstored, rfl⟩ := List.mem_map.mp hdoc
  rw [List.mem_insertionSort] at hstored
  rw [collectionId_ensureId]
  exact of_decide_eq_true (Table.mem_getAll.mp hstored).2

/-- The collections that are listed are different ones. -/
theorem nodup_listCollections (stores : CollectionStores) :
    ((listCollections stores).map Doc.metaId).Nodup := by
  rw [listCollections, List.map_map]
  have hsame : Doc.metaId ∘ ensureId = Doc.metaId := funext metaId_ensureId
  rw [hsame]
  exact (((List.perm_insertionSort _ _).map Doc.metaId).nodup_iff).mpr stores.collections.nodup

/-- What a write leaves alone is listed as it was. -/
theorem OnlyIn.docs_eq {F : FilePlatform} {c : Text} {stores stores' : CollectionStores}
    (h : OnlyIn c stores stores') {cell : Cell}
    (hcell : ¬ (cell = .folders c ∨ cell = .requests c)) :
    cell.docs F stores' = cell.docs F stores := by
  cases cell with
  | collections => simp only [Cell.docs, listCollections, h.collections]
  | folders c' =>
      have hne : c' ≠ c := fun heq => hcell (.inl (heq ▸ rfl))
      simp only [Cell.docs, listFolders, listChildren]
      rw [h.folders c' hne]
  | requests c' =>
      have hne : c' ≠ c := fun heq => hcell (.inr (heq ▸ rfl))
      simp only [Cell.docs, listRequests, listChildren]
      rw [h.requests c' hne]

/-- An operation once a transaction of it has taken place. -/
def Next.call (seen : Option Text) : Next → Call
  | .write op => .called op seen
  | .follow after => .written after

/-- What comes after a write brings every cell that it changed. -/
theorem Next.brings {F : FilePlatform} {stores stores' : CollectionStores} (seen : Option Text)
    {next : Next} (h : next.Reads stores stores') (cell : Cell) :
    (next.call seen).Brings cell ∨ cell.docs F stores' = cell.docs F stores := by
  cases next with
  | write op =>
      obtain ⟨m, collectionId, folderId, edit, rfl⟩ := h
      exact .inl trivial
  | follow after =>
      cases after with
      | nothing =>
          have hsame : stores' = stores := h
          exact .inr (hsame ▸ rfl)
      | all => exact .inl trivial
      | one c =>
          by_cases hcell : cell = .folders c ∨ cell = .requests c
          · exact .inl hcell
          · exact .inr (OnlyIn.docs_eq h hcell)

/-- An operation that would read a cell again does so after its transaction too. -/
theorem brings_write {op : StoreOp} {stores stores' : CollectionStores} {seen : Option Text}
    {next : Next} {cell : Cell} (hbrings : (Call.called op seen).Brings cell)
    (h : op.write stores seen = some (stores', next)) : (next.call seen).Brings cell := by
  cases op with
  | saveInherited approval m collectionId folderId edit =>
      cases approval with
      | some approval => cases hbrings
      | none =>
          cases folderId with
          | none =>
              cases h
              trivial
          | some folderId =>
              cases h
              trivial
  | _ => cases hbrings

/-- And it is not rolled back. -/
theorem not_brings_of_write_none {op : StoreOp} {stores : CollectionStores} {seen : Option Text}
    {cell : Cell} (h : op.write stores seen = none) : ¬ (Call.called op seen).Brings cell := by
  intro hbrings
  cases op with
  | saveInherited approval m collectionId folderId edit =>
      cases approval with
      | some approval => cases hbrings
      | none => cases folderId <;> cases h
  | _ => cases hbrings

/-! ## Lists of what is under way -/

section Lists

variable {α : Type} {l : List α} {i : Nat} {a b x : α}

/-- What is under way still is when another one has ended. -/
theorem eq_or_mem_eraseIdx (ha : l[i]? = some a) (hx : x ∈ l) : x = a ∨ x ∈ l.eraseIdx i := by
  obtain ⟨j, hj⟩ := List.mem_iff_getElem?.mp hx
  by_cases hij : j = i
  · subst hij
    rw [ha] at hj
    exact .inl (Option.some.inj hj).symm
  · exact .inr (List.mem_eraseIdx_iff_getElem?.mpr ⟨j, hij, hj⟩)

/-- What is under way still is when another one goes on. -/
theorem eq_or_mem_set (ha : l[i]? = some a) (hx : x ∈ l) : x = a ∨ x ∈ l.set i b := by
  obtain ⟨j, hj⟩ := List.mem_iff_getElem?.mp hx
  by_cases hij : i = j
  · subst hij
    rw [ha] at hj
    exact .inl (Option.some.inj hj).symm
  · right
    apply List.mem_iff_getElem?.mpr
    exact ⟨j, (List.getElem?_set_ne hij).trans hj⟩

theorem mem_set_self_of_getElem? (ha : l[i]? = some a) : b ∈ l.set i b := by
  obtain ⟨hi, -⟩ := List.getElem?_eq_some_iff.mp ha
  apply List.mem_iff_getElem?.mpr
  exact ⟨i, List.getElem?_set_self hi⟩

end Lists

/-! ## What each step keeps -/

namespace CollectionsPage

variable {F : FilePlatform} {s : CollectionsPage}

/-- An entry of a collection that is looked up: the refresh that is begun
brings what was awaited. -/
theorem exists_begin_brings (hpaired : ∀ entry ∈ s.tree, PairedEntry entry) {after : Follow}
    {cell : Cell} (docs : List Doc) (h : (Call.written after).Brings cell) :
    ∃ refresh ∈ after.begin s.tree, refresh.Brings docs cell := by
  cases after with
  | nothing => cases h
  | all => exact ⟨.started, List.mem_singleton_self _, trivial⟩
  | one c =>
      rw [Follow.begin]
      split
      · exact ⟨.started, List.mem_singleton_self _, trivial⟩
      · next index hfound =>
          obtain ⟨hlt, hentry, -⟩ := List.findIdx?_eq_some_iff_getElem.mp hfound
          have hmem : s.tree[index] ∈ s.tree := List.getElem_mem hlt
          obtain ⟨collection, hcollection, -⟩ := hpaired _ hmem
          have hid : s.tree[index].id? = some (Doc.metaId collection) := by
            rw [ShownEntry.id?, hcollection]
            rfl
          -- Every entry has a collection, so the search found the one it looked for.
          have hc : s.tree[index].id? = some c := by
            rw [hid] at hentry
            simpa [hid] using hentry
          have hlookup : s.tree[index]?.bind ShownEntry.id? = some c := by
            rw [List.getElem?_eq_getElem hlt]
            exact hc
          rw [if_pos hlookup]
          refine ⟨_, List.mem_singleton_self _, ?_⟩
          rcases h with rfl | rfl
          · exact ⟨rfl, fun found hfound => by cases hfound⟩
          · exact ⟨rfl, fun found hfound => by cases hfound⟩

theorem wellRead_begin (tree : List ShownEntry) (after : Follow) :
    ∀ refresh ∈ after.begin tree, WellRead refresh := by
  intro refresh hmem
  cases after with
  | nothing => cases hmem
  | all =>
      obtain rfl := List.mem_singleton.mp hmem
      trivial
  | one c =>
      rw [Follow.begin] at hmem
      split at hmem
      · obtain rfl := List.mem_singleton.mp hmem
        trivial
      · split_ifs at hmem
        · obtain rfl := List.mem_singleton.mp hmem
          constructor
          · intro found hfound
            cases hfound
          · intro found hfound
            cases hfound
        · cases hmem

/-- The cells after a step that leaves the tree as it is: what brought a cell still does. -/
theorem Inv.of_same_tree (h : Inv F s) {s' : CollectionsPage} (htree : s'.tree = s.tree)
    (hwell : ∀ refresh ∈ s'.refreshes, WellRead refresh)
    (hcells : ∀ cell, s'.Covered F s'.refreshes cell ∨
      (cell.docs F s'.stores = cell.docs F s.stores ∧
        (s.Covered F s.refreshes cell → s'.Covered F s'.refreshes cell))) : Inv F s' where
  paired := htree ▸ h.paired
  nodup := htree ▸ h.nodup
  wellRead := hwell
  fresh cell := by
    rcases hcells cell with hcovered | ⟨hdocs, hkept⟩
    · exact .inr hcovered
    · rcases h.fresh cell with hshows | hcovered
      · left
        rw [htree, hdocs]
        exact hshows
      · exact .inr (hkept hcovered)

/-- More refreshes bring more. -/
theorem Covered.append {refreshes : List Refresh} {cell : Cell}
    (h : s.Covered F refreshes cell) (more : List Refresh) :
    s.Covered F (refreshes ++ more) cell := by
  rcases h with h | h | ⟨refresh, hmem, hbrings⟩
  · exact .inl h
  · exact .inr (.inl h)
  · exact .inr (.inr ⟨refresh, List.mem_append_left _ hmem, hbrings⟩)

/-- A transaction of an operation. -/
theorem Inv.write (h : Inv F s) {i : Nat} {op : StoreOp} {seen : Option Text}
    (hcall : s.calls[i]? = some (.called op seen)) (hin : op.WritesIn s.stores seen)
    {stores : CollectionStores} {next : Next}
    (hwrite : op.write s.stores seen = some (stores, next)) :
    Inv F { s with stores, calls := s.calls.set i (next.call seen) } := by
  refine h.of_same_tree rfl h.wellRead fun cell => ?_
  have hreads := StoreOp.reads_write hin hwrite
  rcases Next.brings (F := F) seen hreads cell with hbrings | hdocs
  · exact .inl (.inr (.inl ⟨_, mem_set_self_of_getElem? hcall, hbrings⟩))
  · refine .inr ⟨hdocs, ?_⟩
    rintro (hnotice | ⟨call, hmem, hbrings⟩ | ⟨refresh, hmem, hbrings⟩)
    · exact .inl hnotice
    · right
      left
      rcases eq_or_mem_set (b := next.call seen) hcall hmem with rfl | hmem
      · exact ⟨_, mem_set_self_of_getElem? hcall, brings_write hbrings hwrite⟩
      · exact ⟨call, hmem, hbrings⟩
    · exact .inr (.inr ⟨refresh, hmem, hdocs ▸ hbrings⟩)

/-- A transaction that was rolled back. -/
theorem Inv.rolledBack (h : Inv F s) {i : Nat} {op : StoreOp} {seen : Option Text}
    (hcall : s.calls[i]? = some (.called op seen)) (hwrite : op.write s.stores seen = none) :
    Inv F { s with calls := s.calls.eraseIdx i } := by
  refine h.of_same_tree rfl h.wellRead fun cell => .inr ⟨rfl, ?_⟩
  rintro (hnotice | ⟨call, hmem, hbrings⟩ | hrefresh)
  · exact .inl hnotice
  · rcases eq_or_mem_eraseIdx hcall hmem with rfl | hmem
    · exact absurd hbrings (not_brings_of_write_none hwrite)
    · exact .inr (.inl ⟨call, hmem, hbrings⟩)
  · exact .inr (.inr hrefresh)

/-- An operation begins its refresh. -/
theorem Inv.follow (h : Inv F s) {i : Nat} {after : Follow}
    (hcall : s.calls[i]? = some (.written after)) :
    Inv F { s with
      calls := s.calls.eraseIdx i, refreshes := s.refreshes ++ after.begin s.tree } := by
  refine h.of_same_tree rfl ?_ fun cell => .inr ⟨rfl, ?_⟩
  · intro refresh hmem
    rcases List.mem_append.mp hmem with hmem | hmem
    · exact h.wellRead refresh hmem
    · exact wellRead_begin s.tree after refresh hmem
  · rintro (hnotice | ⟨call, hmem, hbrings⟩ | ⟨refresh, hmem, hbrings⟩)
    · exact .inl hnotice
    · rcases eq_or_mem_eraseIdx hcall hmem with rfl | hmem
      · obtain ⟨refresh, hin, hbrings⟩ :=
          exists_begin_brings h.paired (cell.docs F s.stores) hbrings
        exact .inr (.inr ⟨refresh, List.mem_append_right _ hin, hbrings⟩)
      · exact .inr (.inl ⟨call, hmem, hbrings⟩)
    · exact .inr (.inr ⟨refresh, List.mem_append_left _ hmem, hbrings⟩)

/-- A refresh goes on, and brings what it brought. -/
theorem Inv.goesOn (h : Inv F s) {i : Nat} {next : Refresh → Option Refresh} {s' : CollectionsPage}
    (hnext : ∀ refresh refresh', next refresh = some refresh' →
      (WellRead refresh → WellRead refresh') ∧
      ∀ cell, refresh.Brings (cell.docs F s.stores) cell →
        refresh'.Brings (cell.docs F s.stores) cell)
    (hstep : s.goesOn i next = some s') : Inv F s' := by
  obtain ⟨refresh', hbind, rfl⟩ := Option.map_eq_some_iff.mp hstep
  obtain ⟨refresh, hget, hgoes⟩ := Option.bind_eq_some_iff.mp hbind
  obtain ⟨hwell, hbrings⟩ := hnext refresh refresh' hgoes
  have hmem : refresh ∈ s.refreshes := List.mem_of_getElem? hget
  refine h.of_same_tree rfl ?_ fun cell => .inr ⟨rfl, ?_⟩
  · intro other hother
    rcases List.mem_or_eq_of_mem_set hother with hother | rfl
    · exact h.wellRead other hother
    · exact hwell (h.wellRead refresh hmem)
  · rintro (hnotice | hcall | ⟨other, hother, hother'⟩)
    · exact .inl hnotice
    · exact .inr (.inl hcall)
    · right
      right
      rcases eq_or_mem_set (b := refresh') hget hother with rfl | hother
      · exact ⟨refresh', mem_set_self_of_getElem? hget, hbrings cell hother'⟩
      · exact ⟨other, hother, hother'⟩

/-! ## Reading and publishing -/

theorem brings_withCollections {stores : CollectionStores} {refresh refresh' : Refresh}
    (h : refresh.withCollections stores = some refresh') :
    (WellRead refresh → WellRead refresh') ∧ ∀ cell, refresh.Brings (cell.docs F stores) cell →
      refresh'.Brings (cell.docs F stores) cell := by
  cases refresh with
  | started =>
      cases h
      constructor
      · intro _
        refine ⟨?_, ?_, ?_⟩
        · have hnodup := (nodup_listCollections stores).map (Option.some_injective Text)
          rw [List.map_map] at hnodup
          exact hnodup
        · intro entry hentry
          cases hentry
        · intro collection _
          constructor
          · intro found hfound
            cases hfound
          · intro found hfound
            cases hfound
      · intro cell _
        cases cell with
        | collections => rfl
        | folders c =>
            constructor
            · intro entry hentry
              cases hentry
            · intro collection _ _ found hfound
              cases hfound
        | requests c =>
            constructor
            · intro entry hentry
              cases hentry
            · intro collection _ _ found hfound
              cases hfound
  | listed trees rest folders requests => cases h
  | single c index folders requests => cases h

theorem brings_withFolders {stores : CollectionStores} {refresh refresh' : Refresh}
    (h : refresh.withFolders F stores = some refresh') :
    (WellRead refresh → WellRead refresh') ∧ ∀ cell, refresh.Brings (cell.docs F stores) cell →
      refresh'.Brings (cell.docs F stores) cell := by
  cases refresh with
  | started => cases h
  | listed trees rest folders requests =>
      cases rest with
      | nil => cases h
      | cons collection rest =>
          cases folders with
          | some found => cases h
          | none =>
              cases h
              constructor
              · rintro ⟨hnodup, hpaired, hread⟩
                refine ⟨hnodup, hpaired, ?_⟩
                intro head hhead
                obtain rfl := Option.some.inj hhead
                refine ⟨?_, (hread collection rfl).2⟩
                intro found hfound
                obtain rfl := Option.some.inj hfound
                exact allOf_listChildren F stores.folders _
              · intro cell hbrings
                cases cell with
                | collections => exact hbrings
                | folders c =>
                    refine ⟨hbrings.1, ?_⟩
                    intro head hhead hc found hfound
                    obtain rfl := Option.some.inj hhead
                    obtain rfl := Option.some.inj hfound
                    rw [hc]
                    rfl
                | requests c => exact hbrings
  | single c index folders requests =>
      cases folders with
      | some found => cases h
      | none =>
          cases h
          constructor
          · rintro ⟨-, hrequests⟩
            refine ⟨?_, hrequests⟩
            intro found hfound
            obtain rfl := Option.some.inj hfound
            exact allOf_listChildren F stores.folders c
          · intro cell hbrings
            cases cell with
            | collections => exact hbrings
            | folders c' =>
                obtain ⟨rfl, -⟩ := hbrings
                refine ⟨rfl, ?_⟩
                intro found hfound
                exact (Option.some.inj hfound).symm
            | requests c' => exact hbrings

theorem brings_withRequests {stores : CollectionStores} {refresh refresh' : Refresh}
    (h : refresh.withRequests F stores = some refresh') :
    (WellRead refresh → WellRead refresh') ∧ ∀ cell, refresh.Brings (cell.docs F stores) cell →
      refresh'.Brings (cell.docs F stores) cell := by
  cases refresh with
  | started => cases h
  | listed trees rest folders requests =>
      cases rest with
      | nil => cases folders <;> cases requests <;> cases h
      | cons collection rest =>
          cases requests with
          | some found => cases folders <;> cases h
          | none =>
              cases h
              constructor
              · rintro ⟨hnodup, hpaired, hread⟩
                refine ⟨hnodup, hpaired, ?_⟩
                intro head hhead
                obtain rfl := Option.some.inj hhead
                refine ⟨(hread collection rfl).1, ?_⟩
                intro found hfound
                obtain rfl := Option.some.inj hfound
                exact allOf_listChildren F stores.requests _
              · intro cell hbrings
                cases cell with
                | collections => exact hbrings
                | folders c => exact hbrings
                | requests c =>
                    refine ⟨hbrings.1, ?_⟩
                    intro head hhead hc found hfound
                    obtain rfl := Option.some.inj hhead
                    obtain rfl := Option.some.inj hfound
                    rw [hc]
                    rfl
  | single c index folders requests =>
      cases requests with
      | some found => cases folders <;> cases h
      | none =>
          cases h
          constructor
          · rintro ⟨hfolders, -⟩
            refine ⟨hfolders, ?_⟩
            intro found hfound
            obtain rfl := Option.some.inj hfound
            exact allOf_listChildren F stores.requests c
          · intro cell hbrings
            cases cell with
            | collections => exact hbrings
            | folders c' => exact hbrings
            | requests c' =>
                obtain ⟨rfl, -⟩ := hbrings
                refine ⟨rfl, ?_⟩
                intro found hfound
                exact (Option.some.inj hfound).symm

theorem brings_turned {stores : CollectionStores} {refresh refresh' : Refresh}
    (h : refresh.turned = some refresh') :
    (WellRead refresh → WellRead refresh') ∧ ∀ cell, refresh.Brings (cell.docs F stores) cell →
      refresh'.Brings (cell.docs F stores) cell := by
  cases refresh with
  | started => cases h
  | single c index folders requests => cases h
  | listed trees rest folders requests =>
      cases rest with
      | nil => cases h
      | cons collection rest =>
          cases folders with
          | none => cases h
          | some folders =>
              cases requests with
              | none => cases h
              | some requests =>
                  cases h
                  constructor
                  · -- The collection that was read becomes an entry of the tree.
                    rintro ⟨hnodup, hpaired, hread⟩
                    obtain ⟨hfolders, hrequests⟩ := hread collection rfl
                    refine ⟨?_, ?_, ?_⟩
                    · rw [List.map_append, List.append_assoc]
                      exact hnodup
                    · intro entry hentry
                      rcases List.mem_append.mp hentry with hentry | hentry
                      · exact hpaired entry hentry
                      · obtain rfl := List.mem_singleton.mp hentry
                        exact ⟨collection, rfl, hfolders folders rfl, hrequests requests rfl⟩
                    · intro head _
                      constructor
                      · intro found hfound
                        cases hfound
                      · intro found hfound
                        cases hfound
                  · intro cell hbrings
                    cases cell with
                    -- The list of collections is the same one, one step further.
                    | collections =>
                        have heq : trees.map ShownEntry.collection ++
                            (collection :: rest).map some = _ := hbrings
                        show (trees ++ [_]).map ShownEntry.collection ++ rest.map some = _
                        rw [List.map_append, List.append_assoc]
                        exact heq
                    | folders c =>
                        refine ⟨?_, fun head _ _ found hfound => by cases hfound⟩
                        intro entry hentry hid
                        rcases List.mem_append.mp hentry with hentry | hentry
                        · exact hbrings.1 entry hentry hid
                        · obtain rfl := List.mem_singleton.mp hentry
                          exact hbrings.2 collection rfl (Option.some.inj hid) folders rfl
                    | requests c =>
                        refine ⟨?_, fun head _ _ found hfound => by cases hfound⟩
                        intro entry hentry hid
                        rcases List.mem_append.mp hentry with hentry | hentry
                        · exact hbrings.1 entry hentry hid
                        · obtain rfl := List.mem_singleton.mp hentry
                          exact hbrings.2 collection rfl (Option.some.inj hid) requests rfl

/-- An entry of a tree that was patched is another one of the tree, or the one that was patched. -/
theorem mem_patchAt {tree : List ShownEntry} {index : Nat} (folders requests : List Doc)
    {c : Text} {entry : ShownEntry} (hindex : tree[index]?.bind ShownEntry.id? = some c)
    (hnodup : (tree.map ShownEntry.id?).Nodup)
    (hmem : entry ∈ patchAt tree index folders requests) :
    (entry ∈ tree ∧ entry.id? ≠ some c) ∨ ∃ old ∈ tree, old.id? = some c ∧
      entry = { old with folders, requests } := by
  obtain ⟨old, hold, hid⟩ := Option.bind_eq_some_iff.mp hindex
  obtain ⟨hlt, rfl⟩ := List.getElem?_eq_some_iff.mp hold
  rw [patchAt, if_pos hlt] at hmem
  obtain ⟨j, hj⟩ := List.mem_iff_getElem?.mp hmem
  rw [List.getElem?_modify] at hj
  by_cases hij : index = j
  · subst hij
    right
    refine ⟨tree[index], List.getElem_mem hlt, hid, ?_⟩
    rw [hold] at hj
    simpa using hj.symm
  · left
    have hj' : tree[j]? = some entry := by simpa [hij] using hj
    refine ⟨List.mem_of_getElem? hj', ?_⟩
    intro hsame
    -- Two entries of one collection would stand at two positions.
    have hindex : index < (tree.map ShownEntry.id?).length := by
      rwa [List.length_map]
    have hids : (tree.map ShownEntry.id?)[index]? = (tree.map ShownEntry.id?)[j]? := by
      rw [List.getElem?_map, List.getElem?_map, hj', List.getElem?_eq_getElem hlt, Option.map_some,
        Option.map_some, hid, hsame]
    exact hij ((List.getElem?_inj hindex hnodup).mp hids)

theorem map_collection_patchAt {tree : List ShownEntry} {index : Nat}
    (folders requests : List Doc) (hlt : index < tree.length) :
    (patchAt tree index folders requests).map ShownEntry.collection =
      tree.map ShownEntry.collection := by
  rw [patchAt, if_pos hlt]
  apply List.ext_getElem?
  intro j
  rw [List.getElem?_map, List.getElem?_map, List.getElem?_modify]
  cases tree[j]? with
  | none => rfl
  | some entry =>
      by_cases hij : index = j
      · simp [hij]
      · simp [hij]

theorem map_id_patchAt {tree : List ShownEntry} {index : Nat} {folders requests : List Doc}
    (hlt : index < tree.length) :
    (patchAt tree index folders requests).map ShownEntry.id? = tree.map ShownEntry.id? := by
  have h := congrArg (List.map fun collection => collection.map Doc.metaId)
    (map_collection_patchAt folders requests hlt)
  rw [List.map_map, List.map_map] at h
  exact h

/-- A refresh of the whole tree ends. -/
theorem Inv.publishAll (h : Inv F s) {i : Nat} {trees : List ShownEntry}
    {folders requests : Option (List Doc)}
    (hget : s.refreshes[i]? = some (.listed trees [] folders requests))
    (hfits : ∀ cell, (Refresh.listed trees [] folders requests).Brings (cell.docs F s.stores) cell ∨
      s.Covered F (s.refreshes.eraseIdx i) cell) :
    Inv F { s with tree := trees, refreshes := s.refreshes.eraseIdx i } := by
  obtain ⟨hnodup, hpaired, -⟩ := h.wellRead _ (List.mem_of_getElem? hget)
  constructor
  · exact hpaired
  · rw [List.map_nil, List.append_nil] at hnodup
    exact hnodup
  · intro refresh hmem
    exact h.wellRead refresh (List.mem_of_mem_eraseIdx hmem)
  · intro cell
    rcases hfits cell with hbrings | hcovered
    · left
      cases cell with
      | collections =>
          have heq : trees.map ShownEntry.collection ++ [] = _ := hbrings
          rw [List.append_nil] at heq
          exact heq
      | folders c => exact hbrings.1
      | requests c => exact hbrings.1
    · exact .inr hcovered

/-- A refresh of one entry ends where the entry stands. -/
theorem Inv.publishOne (h : Inv F s) {i index : Nat} {c : Text} {folders requests : List Doc}
    (hget : s.refreshes[i]? = some (.single c index (some folders) (some requests)))
    (hindex : s.tree[index]?.bind ShownEntry.id? = some c)
    (hfits : ∀ cell, (cell = .folders c ∨ cell = .requests c) →
      (Refresh.single c index (some folders) (some requests)).Brings (cell.docs F s.stores) cell ∨
        s.Covered F (s.refreshes.eraseIdx i) cell) :
    Inv F { s with
      tree := patchAt s.tree index folders requests, refreshes := s.refreshes.eraseIdx i } := by
  obtain ⟨hfolders, hrequests⟩ := h.wellRead _ (List.mem_of_getElem? hget)
  have hlt : index < s.tree.length := by
    by_contra hge
    rw [List.getElem?_eq_none (by omega)] at hindex
    cases hindex
  have hentry := fun entry (hmem : entry ∈ patchAt s.tree index folders requests) =>
    mem_patchAt folders requests hindex h.nodup hmem
  constructor
  · intro entry hmem
    rcases hentry entry hmem with ⟨hold, -⟩ | ⟨old, hold, hid, rfl⟩
    · exact h.paired entry hold
    · obtain ⟨collection, hcollection, -⟩ := h.paired old hold
      have hc : Doc.metaId collection = c := by
        rw [ShownEntry.id?, hcollection] at hid
        exact Option.some.inj hid
      exact ⟨collection, hcollection, hc ▸ hfolders folders rfl, hc ▸ hrequests requests rfl⟩
  · rw [map_id_patchAt hlt]
    exact h.nodup
  · intro refresh hmem
    exact h.wellRead refresh (List.mem_of_mem_eraseIdx hmem)
  · intro cell
    by_cases hcell : cell = .folders c ∨ cell = .requests c
    · rcases hfits cell hcell with hbrings | hcovered
      · left
        rcases hcell with rfl | rfl
        · intro entry hmem hid
          rcases hentry entry hmem with ⟨-, hne⟩ | ⟨old, -, -, rfl⟩
          · exact absurd hid hne
          · exact hbrings.2 folders rfl
        · intro entry hmem hid
          rcases hentry entry hmem with ⟨-, hne⟩ | ⟨old, -, -, rfl⟩
          · exact absurd hid hne
          · exact hbrings.2 requests rfl
      · exact .inr hcovered
    · -- A cell that is not replaced is shown, or brought by another, as it was.
      rcases h.fresh cell with hshows | hnotice | hcall | ⟨refresh, hmem, hbrings⟩
      · left
        cases cell with
        | collections =>
            show (patchAt s.tree index folders requests).map ShownEntry.collection = _
            rw [map_collection_patchAt folders requests hlt]
            exact hshows
        | folders c' =>
            intro entry hmem hid
            rcases hentry entry hmem with ⟨hold, -⟩ | ⟨old, hold, hc, rfl⟩
            · exact hshows entry hold hid
            · have hc' : some c = some c' := hc.symm.trans hid
              exact absurd (.inl (by rw [Option.some.inj hc'])) hcell
        | requests c' =>
            intro entry hmem hid
            rcases hentry entry hmem with ⟨hold, -⟩ | ⟨old, hold, hc, rfl⟩
            · exact hshows entry hold hid
            · have hc' : some c = some c' := hc.symm.trans hid
              exact absurd (.inr (by rw [Option.some.inj hc'])) hcell
      · exact .inr (.inl hnotice)
      · exact .inr (.inr (.inl hcall))
      · right
        right
        right
        rcases eq_or_mem_eraseIdx hget hmem with rfl | hmem
        · -- The refresh that ends brings its own two cells only.
          exfalso
          apply hcell
          cases cell with
          | collections => cases hbrings
          | folders c' => exact .inl (by rw [hbrings.1])
          | requests c' => exact .inr (by rw [hbrings.1])
        · exact ⟨refresh, hmem, hbrings⟩

/-! ## Runs -/

/-- A step that goes as it should keeps the invariant. -/
theorem Inv.step (h : Inv F s) {act : PageAct} (hfits : s.Fits F act) {s' : CollectionsPage}
    (hstep : s.step F act = some s') : Inv F s' := by
  cases act with
  | call op =>
      cases hstep
      refine h.of_same_tree rfl h.wellRead fun cell => .inr ⟨rfl, ?_⟩
      rintro (hnotice | ⟨call, hmem, hbrings⟩ | hrefresh)
      · exact .inl hnotice
      · exact .inr (.inl ⟨call, List.mem_append_left _ hmem, hbrings⟩)
      · exact .inr (.inr hrefresh)
  | write i =>
      rw [CollectionsPage.step] at hstep
      split at hstep
      · next op seen hcall =>
          cases hwrite : op.write s.stores seen with
          | none =>
              rw [hwrite] at hstep
              cases hstep
              exact h.rolledBack hcall hwrite
          | some result =>
              obtain ⟨stores, next⟩ := result
              have hnext := h.write hcall (hfits op seen hcall) hwrite
              rw [hwrite] at hstep
              cases next with
              | write op =>
                  cases hstep
                  exact hnext
              | follow after =>
                  cases hstep
                  exact hnext
      · cases hstep
  | follow i =>
      rw [CollectionsPage.step] at hstep
      split at hstep
      · next after hcall =>
          cases hstep
          exact h.follow hcall
      · cases hstep
  | refresh =>
      cases hstep
      refine h.of_same_tree rfl ?_ fun cell => .inr ⟨rfl, fun hcovered => hcovered.append _⟩
      intro refresh hmem
      rcases List.mem_append.mp hmem with hmem | hmem
      · exact h.wellRead refresh hmem
      · obtain rfl := List.mem_singleton.mp hmem
        trivial
  -- A change in another window is owed a notice, whatever it touched.
  | elsewhere op seen =>
      obtain ⟨result, -, rfl⟩ := Option.map_eq_some_iff.mp hstep
      exact h.of_same_tree rfl h.wellRead fun cell => .inl (.inl (Nat.succ_pos _))
  -- The notice is paid by the refresh that starts.
  | notice =>
      rw [CollectionsPage.step] at hstep
      split_ifs at hstep
      cases hstep
      refine h.of_same_tree rfl ?_ fun cell => .inl ?_
      · intro refresh hmem
        rcases List.mem_append.mp hmem with hmem | hmem
        · exact h.wellRead refresh hmem
        · obtain rfl := List.mem_singleton.mp hmem
          trivial
      · exact .inr (.inr ⟨.started, List.mem_append_right _ (List.mem_singleton_self _), trivial⟩)
  -- The steps inside a refresh leave the stores and the tree as they are.
  | readCollections i => exact h.goesOn (fun _ _ hnext => brings_withCollections hnext) hstep
  | readFolders i => exact h.goesOn (fun _ _ hnext => brings_withFolders hnext) hstep
  | readRequests i => exact h.goesOn (fun _ _ hnext => brings_withRequests hnext) hstep
  | turn i => exact h.goesOn (fun _ _ hnext => brings_turned hnext) hstep
  -- Only a refresh that has read everything is shown.
  | publish i =>
      obtain ⟨tree, hbind, rfl⟩ := Option.map_eq_some_iff.mp hstep
      obtain ⟨refresh, hget, hpublished⟩ := Option.bind_eq_some_iff.mp hbind
      obtain ⟨hindex, hcells⟩ := hfits refresh hget
      cases refresh with
      | started => cases hpublished
      | listed trees rest folders requests =>
          cases rest with
          | cons collection rest => cases hpublished
          | nil =>
              cases hpublished
              exact h.publishAll hget fun cell => hcells cell trivial
      | single c index folders requests =>
          cases folders with
          | none => cases hpublished
          | some folders =>
              cases requests with
              | none => cases hpublished
              | some requests =>
                  cases hpublished
                  exact h.publishOne hget (hindex c index _ _ rfl) hcells

/-- A page that was just opened. -/
theorem inv_opened (F : FilePlatform) (stores : CollectionStores) : Inv F (opened stores) where
  paired entry hmem := by cases hmem
  nodup := List.nodup_nil
  wellRead refresh hmem := by
    obtain rfl := List.mem_singleton.mp hmem
    trivial
  fresh cell := .inr (.inr (.inr ⟨.started, List.mem_singleton_self _, trivial⟩))

/-- With nothing under way, every cell is shown as it is stored. -/
theorem Inv.follows (h : Inv F s) : s.Follows F := by
  constructor
  · exact h.paired
  · rintro ⟨hcalls, hrefreshes, hnotices⟩
    -- With nothing under way, no cell waits for anything: each is shown as it is stored.
    have hshows : ∀ cell, Shows s.tree (cell.docs F s.stores) cell := by
      intro cell
      rcases h.fresh cell with hshows | hnotice | ⟨call, hmem, -⟩ | ⟨refresh, hmem, -⟩
      · exact hshows
      · omega
      · rw [hcalls] at hmem
        cases hmem
      · rw [hrefreshes] at hmem
        cases hmem
    have hlist : s.tree.map ShownEntry.collection = (listCollections s.stores).map some :=
      hshows .collections
    -- The tree is compared entry by entry, an entry field by field.
    apply List.ext_getElem?
    intro j
    have hj := congrArg (fun l => l[j]?) hlist
    simp only [List.getElem?_map] at hj
    rw [storedTree, List.getElem?_map]
    cases hentry : s.tree[j]? with
    | none =>
        rw [hentry] at hj
        cases hdoc : (listCollections s.stores)[j]? with
        | none => rfl
        | some doc =>
            rw [hdoc] at hj
            cases hj
    | some entry =>
        have hmem := List.mem_of_getElem? hentry
        rw [hentry] at hj
        cases hdoc : (listCollections s.stores)[j]? with
        | none =>
            rw [hdoc] at hj
            cases hj
        | some doc =>
            rw [hdoc] at hj
            have hcollection : entry.collection = some doc := Option.some.inj hj
            have hid : entry.id? = some (Doc.metaId doc) := by
              rw [ShownEntry.id?, hcollection]
              rfl
            have hfolders := hshows (.folders (Doc.metaId doc)) entry hmem hid
            have hrequests := hshows (.requests (Doc.metaId doc)) entry hmem hid
            rw [Option.map_some]
            congr 1
            obtain ⟨collection, folders, requests⟩ := entry
            simp only at hcollection hfolders hrequests
            rw [hcollection, hfolders, hrequests]
            rfl

/-- In every run whose steps go as they should, the tree follows the stores in
every state reached. -/
theorem run_follows (F : FilePlatform) {stores : CollectionStores} {acts : List PageAct}
    {s : CollectionsPage} (hfits : Meets (step F) (Fits F) (opened stores) acts)
    (hrun : run (step F) (opened stores) acts = some s) : s.Follows F := by
  have hinv : Inv F s := run_induction (fun _ _ _ hinv hfit hstep => hinv.step hfit hstep)
    (inv_opened F stores) hfits hrun
  exact hinv.follows

/-- A tree read whole brings every cell as it is stored. -/
theorem storedTree_brings (F : FilePlatform) (stores : CollectionStores)
    (folders requests : Option (List Doc)) (cell : Cell) :
    (Refresh.listed (storedTree F stores) [] folders requests).Brings (cell.docs F stores)
      cell := by
  cases cell with
  | collections =>
      show _ ++ [] = _
      rw [List.append_nil, storedTree, List.map_map]
      rfl
  | folders c =>
      refine ⟨?_, by simp⟩
      intro entry hmem hid
      obtain ⟨collection, -, rfl⟩ := List.mem_map.mp hmem
      obtain rfl := Option.some.inj hid
      rfl
  | requests c =>
      refine ⟨?_, by simp⟩
      intro entry hmem hid
      obtain ⟨collection, -, rfl⟩ := List.mem_map.mp hmem
      obtain rfl := Option.some.inj hid
      rfl

/-- So does an entry, of the cells it replaces. -/
theorem storedEntry_brings (F : FilePlatform) (stores : CollectionStores) (c : Text) (index : Nat)
    {cell : Cell} (hcell : cell = .folders c ∨ cell = .requests c) :
    (Refresh.single c index (some (listFolders F stores c))
      (some (listRequests F stores c))).Brings (cell.docs F stores) cell := by
  rcases hcell with rfl | rfl
  · exact ⟨rfl, by rintro found ⟨⟩; rfl⟩
  · exact ⟨rfl, by rintro found ⟨⟩; rfl⟩

/-- A collection is made while the page reads what is stored for the first time. A folder is then
made in it, and given a place. -/
def earlyCollection : List PageAct :=
  [.call (.createCollection (tick 0) (units "C") none), .write 0, .follow 0, .readCollections 0,
    .readFolders 0, .readRequests 0, .turn 0, .publish 0,
    .call (.createFolder (tick 1) (units "x") (units "F") none none), .write 0, .follow 0,
    .readCollections 0, .readFolders 0, .readRequests 0, .turn 0, .publish 0,
    .readFolders 0, .readRequests 0, .publish 0,
    .call (.reorderChildren (tick 2) [(units "xx", (tick 2).place)]), .write 0, .follow 0,
    .readFolders 0, .readRequests 0, .publish 0]

/-- The page comes to rest with the folder in its tree. -/
theorem earlyCollection_follows : ∃ s, run (step plainFiles) (opened {}) earlyCollection = some s ∧
    s.Idle ∧ (∃ entry ∈ s.tree, entry.folders ≠ []) ∧ s.Follows plainFiles := by
  have hfits : Meets (step plainFiles) (Fits plainFiles) (opened {}) earlyCollection := by
    refine ⟨trivial, ?_, trivial, trivial, trivial, trivial, trivial, ?_, trivial, ?_, trivial,
      trivial, trivial, trivial, trivial, ?_, trivial, trivial, ?_, trivial, ?_, trivial, trivial,
      trivial, ?_, trivial⟩
    · intro op seen hcall
      cases hcall
      trivial
    · intro refresh hget
      cases hget
      constructor
      · intro c index folders requests heq
        cases heq
      · -- The refresh that the operation began is under way.
        intro cell _
        exact .inr (.inr (.inr ⟨.started, List.mem_singleton_self _, trivial⟩))
    · intro op seen hcall
      cases hcall
      trivial
    · intro refresh hget
      cases hget
      constructor
      · intro c index folders requests heq
        cases heq
      · intro cell _
        exact .inl (storedTree_brings _ _ _ _ cell)
    · intro refresh hget
      cases hget
      constructor
      · intro c index folders requests heq
        cases heq
        rfl
      · intro cell hcell
        exact .inl (storedEntry_brings _ _ _ _ hcell)
    · -- The folder is of the collection whose entry is read again.
      intro op seen hcall
      cases hcall
      intro c hseen entry hentry doc hdoc _
      cases hseen
      obtain rfl := List.mem_singleton.mp hentry
      rcases hdoc with hdoc | hdoc
      · obtain rfl := List.mem_singleton.mp hdoc
        rfl
      · cases hdoc
    · intro refresh hget
      cases hget
      constructor
      · intro c index folders requests heq
        cases heq
        rfl
      · intro cell hcell
        exact .inl (storedEntry_brings _ _ _ _ hcell)
  have hshown : (run (step plainFiles) (opened {}) earlyCollection).any (fun s =>
      s.calls.isEmpty && s.refreshes.isEmpty && s.notices == 0 &&
        s.tree.any fun entry => !entry.folders.isEmpty) = true := by
    decide +kernel
  obtain ⟨s, hrun, hfacts⟩ := exists_run_of_any hshown
  simp only [Bool.and_eq_true, List.isEmpty_iff, beq_iff_eq, List.any_eq_true, Bool.not_eq_true',
    List.isEmpty_eq_false_iff] at hfacts
  obtain ⟨⟨⟨hcalls, hrefreshes⟩, hnotices⟩, hentry⟩ := hfacts
  exact ⟨s, hrun, ⟨hcalls, hrefreshes, hnotices⟩, hentry, run_follows plainFiles hfits hrun⟩

/-- Two collections are shown. A folder is made in the first of them, and what its entry
holds has been read again, when the collection is deleted and the whole tree read before the
entry is replaced. -/
def lateEntry : List PageAct :=
  [.call (.createCollection (tick 0) (units "A") none), .write 0,
    .call (.createCollection (tick 1) (units "B") none), .write 1, .follow 0, .follow 0,
    .readCollections 0, .readFolders 0, .readRequests 0, .turn 0, .readFolders 0, .readRequests 0,
    .turn 0, .publish 0,
    .call (.createFolder (tick 2) (units "x") (units "F") none none), .write 0, .follow 0,
    .readFolders 2, .readRequests 2,
    .call (.deleteCollection (units "x")), .write 0, .follow 0,
    .readCollections 0, .readFolders 0, .readRequests 0, .turn 0, .publish 0, .publish 1]

/-- The folder of the first collection is shown in the second. -/
theorem lateEntry_not_follows : ∃ s, run (step plainFiles) (opened {}) lateEntry = some s ∧
    ¬ s.Follows plainFiles := by
  have hstray : (run (step plainFiles) (opened {}) lateEntry).any (fun s =>
      s.tree.any fun entry => entry.folders.any fun folder =>
        entry.id? ≠ some (Doc.collectionId folder)) = true := by
    decide +kernel
  obtain ⟨s, hrun, hentry⟩ := exists_run_of_any hstray
  obtain ⟨entry, hmem, hfolder⟩ := List.any_eq_true.mp hentry
  obtain ⟨folder, hin, hne⟩ := List.any_eq_true.mp hfolder
  refine ⟨s, hrun, fun h => ?_⟩
  obtain ⟨collection, hcollection, hfolders, -⟩ := h.paired entry hmem
  apply of_decide_eq_true hne
  rw [ShownEntry.id?, hcollection, hfolders folder hin]
  rfl

end CollectionsPage

end Wayfarer
