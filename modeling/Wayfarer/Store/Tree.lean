import Wayfarer.Store.Collections

/-!
# The tree of a collection

A folder names the folder it is in, and a request its folder, by an id. `Leads` says that the one
named is there, of the same collection, and that going on from it ends at the top; `IsTree` says so
of everything stored. Every transaction keeps `IsTree` by itself, except the three that are handed
a place or a document: making, putting back and importing (`Store.TreeRuns`).

Most of them write documents in new places or take some out: `IsTree.overlay` says what is left to
show then.
-/

set_option autoImplicit false

namespace Wayfarer

open Library

/-! ## Links -/

/-- A link: none, or the key it names; nothing where it is no key. -/
def linkOf : Option Json → Option (Option Text)
  | none => some none
  | some (.string []) => none
  | some (.string t) => some (some t)
  | some _ => none

/-- A folder's link to its parent. -/
def parentLink (folder : Doc) : Option (Option Text) :=
  linkOf (field folder (units "parentFolderId"))

/-- A request's link to its folder. -/
def folderLink (request : Doc) : Option (Option Text) :=
  linkOf (field request (units "folderId"))

/-- The folders of a table, as nodes: the collection of each and the folder it names. -/
def folderNode (table : DocTable) (key : Text) : Option (Text × Option Text) :=
  (table.get? key).bind fun folder =>
    (parentLink folder).map fun parent => (Doc.collectionId folder, parent)

/-- A link of a document of a collection that leads to the top: there is none, or it names a folder
from which the way up ends there, through folders of the collection. -/
def Leads (node : Text → Option (Text × Option Text)) (collectionId : Text)
    (link : Option (Option Text)) : Prop :=
  link = some none ∨ ∃ key, link = some (some key) ∧ Rooted node collectionId key

/-- Everything stored is of a stored collection, and reached from its top. -/
structure IsTree (stores : CollectionStores) : Prop where
  folders : ∀ folder ∈ stores.folders,
    Leads (folderNode stores.folders) (Doc.collectionId folder) (parentLink folder)
  requests : ∀ request ∈ stores.requests,
    Leads (folderNode stores.folders) (Doc.collectionId request) (folderLink request)
  folderCollections : ∀ folder ∈ stores.folders,
    ∃ collection ∈ stores.collections, Doc.metaId collection = Doc.collectionId folder
  requestCollections : ∀ request ∈ stores.requests,
    ∃ collection ∈ stores.collections, Doc.metaId collection = Doc.collectionId request

theorem isTree_empty : IsTree {} where
  folders folder h := absurd h (Table.not_mem_empty folder)
  requests request h := absurd h (Table.not_mem_empty request)
  folderCollections folder h := absurd h (Table.not_mem_empty folder)
  requestCollections request h := absurd h (Table.not_mem_empty request)

theorem linkOf_eq_some_none {link : Option Json} : linkOf link = some none ↔ link = none := by
  unfold linkOf
  split <;> simp

theorem linkOf_eq_some_some {link : Option Json} {key : Text} :
    linkOf link = some (some key) ↔ link = some (.string key) ∧ key ≠ [] := by
  unfold linkOf
  split
  · simp
  · constructor
    · intro h
      cases h
    · rintro ⟨h, hne⟩
      cases h
      exact absurd rfl hne
  · next t hne =>
      constructor
      · intro h
        cases h
        exact ⟨rfl, fun hnil => hne hnil⟩
      · rintro ⟨h, -⟩
        cases h
        rfl
  · next v _ hstring =>
      constructor
      · intro h
        cases h
      · rintro ⟨h, -⟩
        cases h
        exact absurd rfl (hstring key)

/-- A node is a stored folder with a link. -/
theorem folderNode_eq_some {table : DocTable} {key c : Text} {parent : Option Text} :
    folderNode table key = some (c, parent) ↔
      ∃ folder ∈ table, Doc.metaId folder = key ∧ Doc.collectionId folder = c ∧
        parentLink folder = some parent := by
  unfold folderNode
  constructor
  · intro h
    obtain ⟨folder, hget, hlink⟩ := Option.bind_eq_some_iff.mp h
    obtain ⟨hmem, hkey⟩ := Table.get?_eq_some_iff.mp hget
    obtain ⟨parent', hparent, heq⟩ := Option.map_eq_some_iff.mp hlink
    cases heq
    exact ⟨folder, hmem, hkey, rfl, hparent⟩
  · rintro ⟨folder, hmem, hkey, hcollection, hparent⟩
    rw [Table.get?_eq_some_iff.mpr ⟨hmem, hkey⟩, Option.bind_some, hparent, hcollection]
    rfl

/-- The node of a stored folder. -/
theorem folderNode_of_mem {table : DocTable} {folder : Doc} (h : folder ∈ table) :
    folderNode table (Doc.metaId folder) =
      (parentLink folder).map fun parent => (Doc.collectionId folder, parent) := by
  rw [folderNode, Table.get?_eq_some_iff.mpr ⟨h, rfl⟩, Option.bind_some]

/-- A stored folder reaches the top exactly when its link leads there. -/
theorem rooted_iff_leads {table : DocTable} {folder : Doc} (h : folder ∈ table) :
    Rooted (folderNode table) (Doc.collectionId folder) (Doc.metaId folder) ↔
      Leads (folderNode table) (Doc.collectionId folder) (parentLink folder) := by
  have hnode := folderNode_of_mem h
  constructor
  · intro hrooted
    cases hrooted with
    | top htop =>
        rw [hnode] at htop
        obtain ⟨parent, hparent, heq⟩ := Option.map_eq_some_iff.mp htop
        cases heq
        exact Or.inl hparent
    | under hunder hrest =>
        rw [hnode] at hunder
        obtain ⟨parent, hparent, heq⟩ := Option.map_eq_some_iff.mp hunder
        cases heq
        exact Or.inr ⟨_, hparent, hrest⟩
  · rintro (htop | ⟨key, hkey, hrest⟩)
    · exact Rooted.top (by rw [hnode, htop]; rfl)
    · exact Rooted.under (by rw [hnode, hkey]; rfl) hrest

/-- A key that reaches the top in a collection is a stored folder's of it. -/
theorem exists_folder_of_rooted {table : DocTable} {c key : Text}
    (h : Rooted (folderNode table) c key) :
    ∃ folder ∈ table, Doc.metaId folder = key ∧ Doc.collectionId folder = c := by
  obtain ⟨parent, hnode⟩ := h.node_eq
  obtain ⟨folder, hmem, hkey, hc, -⟩ := folderNode_eq_some.mp hnode
  exact ⟨folder, hmem, hkey, hc⟩

/-! ## Documents that stay in their places -/

/-- Where a document stands: its key, its collection and the member that links it. -/
def placeOf (key : Text) (doc : Doc) : Text × Text × Option (Option Text) :=
  (Doc.metaId doc, Doc.collectionId doc, linkOf (field doc key))

/-- Two tables with documents in the same places. -/
def SamePlaces (key : Text) (t t' : DocTable) : Prop :=
  ∀ place, (∃ doc ∈ t, placeOf key doc = place) ↔ ∃ doc ∈ t', placeOf key doc = place

theorem SamePlaces.refl (key : Text) (t : DocTable) : SamePlaces key t t := fun _ => Iff.rfl

theorem SamePlaces.trans {key : Text} {t t' t'' : DocTable} (h : SamePlaces key t t')
    (h' : SamePlaces key t' t'') : SamePlaces key t t'' := fun place => (h place).trans (h' place)

/-- Folders in the same places are the same nodes. -/
theorem SamePlaces.folderNode_eq {t t' : DocTable}
    (h : SamePlaces (units "parentFolderId") t t') : folderNode t' = folderNode t := by
  have hiff : ∀ (t t' : DocTable), SamePlaces (units "parentFolderId") t t' →
      ∀ key node, folderNode t key = some node → folderNode t' key = some node := by
    intro t t' hsame key node hnode
    obtain ⟨folder, hmem, hkey, hc, hlink⟩ := folderNode_eq_some.mp hnode
    obtain ⟨folder', hmem', hplace⟩ := (hsame _).mp ⟨folder, hmem, rfl⟩
    simp only [placeOf, Prod.mk.injEq] at hplace
    obtain ⟨hkey', hc', hlink'⟩ := hplace
    exact folderNode_eq_some.mpr
      ⟨folder', hmem', hkey'.trans hkey, hc'.trans hc, hlink'.trans hlink⟩
  funext key
  cases hnode : folderNode t key with
  | some node => exact hiff t t' h key node hnode
  | none =>
      cases hnode' : folderNode t' key with
      | none => rfl
      | some node =>
          have := hiff t' t (fun place => (h place).symm) key node hnode'
          rw [hnode] at this
          cases this

/-- Everything in the same places is a tree as it was. -/
theorem IsTree.of_samePlaces {stores stores' : CollectionStores} (h : IsTree stores)
    (hcollections : ∀ key, (∃ doc ∈ stores.collections, Doc.metaId doc = key) →
      ∃ doc ∈ stores'.collections, Doc.metaId doc = key)
    (hfolders : SamePlaces (units "parentFolderId") stores.folders stores'.folders)
    (hrequests : SamePlaces (units "folderId") stores.requests stores'.requests) :
    IsTree stores' := by
  have hnode := hfolders.folderNode_eq
  constructor
  · intro folder hmem
    obtain ⟨folder', hmem', hplace⟩ := (hfolders _).mpr ⟨folder, hmem, rfl⟩
    simp only [placeOf, Prod.mk.injEq] at hplace
    have hleads := h.folders folder' hmem'
    unfold parentLink at hleads ⊢
    rwa [hplace.2.1, hplace.2.2, ← hnode] at hleads
  · intro request hmem
    obtain ⟨request', hmem', hplace⟩ := (hrequests _).mpr ⟨request, hmem, rfl⟩
    simp only [placeOf, Prod.mk.injEq] at hplace
    have hleads := h.requests request' hmem'
    unfold folderLink at hleads ⊢
    rwa [hplace.2.1, hplace.2.2, ← hnode] at hleads
  · intro folder hmem
    obtain ⟨folder', hmem', hplace⟩ := (hfolders _).mpr ⟨folder, hmem, rfl⟩
    simp only [placeOf, Prod.mk.injEq] at hplace
    have hstored := h.folderCollections folder' hmem'
    rw [hplace.2.1] at hstored
    exact hcollections _ hstored
  · intro request hmem
    obtain ⟨request', hmem', hplace⟩ := (hrequests _).mpr ⟨request, hmem, rfl⟩
    simp only [placeOf, Prod.mk.injEq] at hplace
    have hstored := h.requestCollections request' hmem'
    rw [hplace.2.1] at hstored
    exact hcollections _ hstored

/-- A document noted as changed now stays in its place. -/
theorem placeOf_touched {key : Text} (hkey : key ≠ units "meta") (doc : Doc) (now : Json) :
    placeOf key (Doc.touched doc now) = placeOf key doc := by
  rw [placeOf, Doc.metaId_touched, Doc.touched, Doc.collectionId_setField (by decide),
    field_setField_of_ne (Ne.symm hkey), placeOf]

/-- A change of a document that leaves it in its place. -/
theorem samePlaces_change {key : Text} (hkey : key ≠ units "meta") (m : Moment) (t : DocTable)
    (id : Text) {next : Doc → Doc} (hnext : ∀ doc, placeOf key (next doc) = placeOf key doc) :
    SamePlaces key t (CollectionStores.change m t id next) := by
  unfold CollectionStores.change
  cases hget : t.get? id with
  | none => exact SamePlaces.refl key t
  | some doc =>
      obtain ⟨hmem, -⟩ := Table.get?_eq_some_iff.mp hget
      have hplace : placeOf key (Doc.touched (next doc) m.now) = placeOf key doc :=
        (placeOf_touched hkey _ _).trans (hnext doc)
      have hmeta : Doc.metaId (Doc.touched (next doc) m.now) = Doc.metaId doc :=
        congrArg Prod.fst hplace
      intro place
      constructor
      · rintro ⟨other, hother, rfl⟩
        by_cases hsame : Doc.metaId other = Doc.metaId doc
        · rw [Table.eq_of_key_eq hother hmem hsame]
          exact ⟨_, Table.mem_put.mpr (Or.inl rfl), hplace⟩
        · exact ⟨other, Table.mem_put.mpr (Or.inr ⟨hother, hmeta ▸ hsame⟩), rfl⟩
      · rintro ⟨other, hother, rfl⟩
        rcases Table.mem_put.mp hother with rfl | ⟨hold, -⟩
        · exact ⟨doc, hmem, hplace.symm⟩
        · exact ⟨other, hold, rfl⟩

/-- A member that is no part of a document's place. -/
theorem placeOf_setField {key member : Text} {value : Json} (doc : Doc)
    (hmeta : member ≠ units "meta") (hcollection : member ≠ units "collectionId")
    (hkey : member ≠ key) : placeOf key (setField doc member value) = placeOf key doc := by
  rw [placeOf, Doc.metaId_setField hmeta, Doc.collectionId_setField hcollection,
    field_setField_of_ne hkey, placeOf]

theorem placeOf_ensureId {key : Text} (hkey : units "id" ≠ key) (doc : Doc) :
    placeOf key (ensureId doc) = placeOf key doc := by
  unfold ensureId
  split_ifs
  · rfl
  · exact placeOf_setField doc (by decide) (by decide) hkey

theorem placeOf_withLink {key member : Text} (doc : Doc) (value : Option Json)
    (hmeta : member ≠ units "meta") (hcollection : member ≠ units "collectionId")
    (hkey : member ≠ key) : placeOf key (withLink doc member value) = placeOf key doc := by
  cases value with
  | some value => exact placeOf_setField doc hmeta hcollection hkey
  | none =>
      rw [withLink, placeOf, Doc.metaId_removeField hmeta, Doc.collectionId,
        field_removeField_of_ne hcollection, field_removeField_of_ne hkey]
      rfl

/-- Tables with documents in the same places have the same keys. -/
theorem SamePlaces.exists_key {key : Text} {t t' : DocTable} (h : SamePlaces key t t') {id : Text}
    (hid : ∃ doc ∈ t, Doc.metaId doc = id) : ∃ doc ∈ t', Doc.metaId doc = id := by
  obtain ⟨doc, hmem, rfl⟩ := hid
  obtain ⟨doc', hmem', hplace⟩ := (h _).mp ⟨doc, hmem, rfl⟩
  exact ⟨doc', hmem', congrArg Prod.fst hplace⟩

section Changes

variable {stores : CollectionStores} (m : Moment)

/-- A table of collections with the keys it had. -/
theorem IsTree.of_collections (h : IsTree stores) {collections : DocTable}
    (hkeys : ∀ key, (∃ doc ∈ stores.collections, Doc.metaId doc = key) →
      ∃ doc ∈ collections, Doc.metaId doc = key) : IsTree { stores with collections } :=
  h.of_samePlaces hkeys (SamePlaces.refl _ _) (SamePlaces.refl _ _)

theorem IsTree.renameCollection (h : IsTree stores) (id : Text) (name description : Option Text) :
    IsTree (stores.renameCollection m id name description) := by
  apply h.of_collections
  intro key hkey
  have hsame : SamePlaces (units "folderId") stores.collections
      (stores.renameCollection m id name description).collections := by
    apply samePlaces_change (by decide) m stores.collections id
    intro doc
    rw [placeOf_ensureId (by decide)]
    have hnamed : ∀ name, placeOf (units "folderId")
        (setField doc (units "name") (.string (trim name))) = placeOf (units "folderId") doc :=
      fun name => placeOf_setField doc (by decide) (by decide) (by decide)
    have hdescribed : ∀ (doc : Doc) (description : Text), placeOf (units "folderId")
        (withLink doc (units "description") (trimmedText description)) =
          placeOf (units "folderId") doc :=
      fun doc description => placeOf_withLink doc _ (by decide) (by decide) (by decide)
    cases name with
    | none =>
        cases description with
        | none => rfl
        | some description => exact hdescribed doc description
    | some name =>
        cases description with
        | none => exact hnamed name
        | some description => exact (hdescribed _ description).trans (hnamed name)
  exact hsame.exists_key hkey

theorem IsTree.renameFolder (h : IsTree stores) (id name : Text) :
    IsTree (stores.renameFolder m id name) := by
  refine h.of_samePlaces (fun _ hkey => hkey) ?_ (SamePlaces.refl _ _)
  apply samePlaces_change (by decide) m
  intro doc
  rw [placeOf_ensureId (by decide), placeOf_setField doc (by decide) (by decide) (by decide)]

theorem IsTree.renameRequest (h : IsTree stores) (id name : Text) :
    IsTree (stores.renameRequest m id name) := by
  refine h.of_samePlaces (fun _ hkey => hkey) (SamePlaces.refl _ _) ?_
  apply samePlaces_change (by decide) m
  intro doc
  rw [placeOf_ensureId (by decide), placeOf_setField doc (by decide) (by decide) (by decide)]

theorem IsTree.reorderCollections (h : IsTree stores) (order : List (Text × Json)) :
    IsTree (stores.reorderCollections m order) := by
  apply h.of_collections
  intro key hkey
  have hsame : SamePlaces (units "folderId") stores.collections
      (stores.reorderCollections m order).collections := by
    unfold CollectionStores.reorderCollections
    dsimp only
    generalize stores.collections = table
    induction order generalizing table with
    | nil => exact SamePlaces.refl _ _
    | cons entry order ih =>
        refine SamePlaces.trans ?_ (ih _)
        apply samePlaces_change (by decide) m
        exact fun doc => placeOf_setField doc (by decide) (by decide) (by decide)
  exact hsame.exists_key hkey

theorem IsTree.reorderChild (h : IsTree stores) (entry : Text × Json) :
    IsTree (stores.reorderChild m entry) := by
  have hplace : ∀ key, key ≠ units "order" → ∀ doc,
      placeOf key (setField doc (units "order") entry.2) = placeOf key doc :=
    fun key hkey doc => placeOf_setField doc (by decide) (by decide) (Ne.symm hkey)
  unfold CollectionStores.reorderChild
  dsimp only
  split
  · refine h.of_samePlaces (fun _ hkey => hkey) ?_ (SamePlaces.refl _ _)
    exact samePlaces_change (by decide) m _ _ (hplace _ (by decide))
  · refine h.of_samePlaces (fun _ hkey => hkey) (SamePlaces.refl _ _) ?_
    exact samePlaces_change (by decide) m _ _ (hplace _ (by decide))

theorem IsTree.reorderChildren (h : IsTree stores) (order : List (Text × Json)) :
    IsTree (stores.reorderChildren m order) := by
  unfold CollectionStores.reorderChildren
  induction order generalizing stores with
  | nil => exact h
  | cons entry order ih => exact ih (h.reorderChild m entry)

end Changes

/-! ## Documents that are new -/

/-- Links lead where they led when folders are added. -/
theorem Leads.mono {t t' : DocTable} (hsub : ∀ folder ∈ t, folder ∈ t') {c : Text}
    {link : Option (Option Text)} (h : Leads (folderNode t) c link) :
    Leads (folderNode t') c link := by
  refine h.imp_right ?_
  rintro ⟨key, hlink, hrooted⟩
  refine ⟨key, hlink, hrooted.mono ?_⟩
  intro j parent hnode
  obtain ⟨folder, hmem, hkey, hc, hparent⟩ := folderNode_eq_some.mp hnode
  exact folderNode_eq_some.mpr ⟨folder, hsub folder hmem, hkey, hc, hparent⟩

/-- Stores that keep everything and add what leads to the top, in stored collections. -/
theorem IsTree.grow {stores stores' : CollectionStores} (h : IsTree stores)
    (hfolders : ∀ folder ∈ stores.folders, folder ∈ stores'.folders)
    (hcollections : ∀ collection ∈ stores.collections, collection ∈ stores'.collections)
    (hnewFolders : ∀ folder ∈ stores'.folders, folder ∈ stores.folders ∨
      Leads (folderNode stores'.folders) (Doc.collectionId folder) (parentLink folder) ∧
        ∃ collection ∈ stores'.collections, Doc.metaId collection = Doc.collectionId folder)
    (hnewRequests : ∀ request ∈ stores'.requests, request ∈ stores.requests ∨
      Leads (folderNode stores'.folders) (Doc.collectionId request) (folderLink request) ∧
        ∃ collection ∈ stores'.collections,
          Doc.metaId collection = Doc.collectionId request) : IsTree stores' := by
  constructor
  · intro folder hmem
    rcases hnewFolders folder hmem with hold | hnew
    · exact (h.folders folder hold).mono hfolders
    · exact hnew.1
  · intro request hmem
    rcases hnewRequests request hmem with hold | hnew
    · exact (h.requests request hold).mono hfolders
    · exact hnew.1
  · intro folder hmem
    rcases hnewFolders folder hmem with hold | hnew
    · obtain ⟨collection, hstored, hkey⟩ := h.folderCollections folder hold
      exact ⟨collection, hcollections collection hstored, hkey⟩
    · exact hnew.2
  · intro request hmem
    rcases hnewRequests request hmem with hold | hnew
    · obtain ⟨collection, hstored, hkey⟩ := h.requestCollections request hold
      exact ⟨collection, hcollections collection hstored, hkey⟩
    · exact hnew.2

/-! ### Documents as transactions write them -/

theorem field_copy {m : Moment} {id key : Text} {doc : Doc} (hid : units "id" ≠ key)
    (hmeta : units "meta" ≠ key) : field (m.copy id doc) key = field doc key := by
  rw [Moment.copy, field_setField_of_ne hmeta, field_setField_of_ne hid]

@[simp]
theorem metaId_copy {m : Moment} {id : Text} {doc : Doc} : Doc.metaId (m.copy id doc) = id := by
  rw [Doc.metaId, Doc.metaFields, Moment.copy, field_setField_self]
  rfl

theorem collectionId_copy {m : Moment} {id : Text} {doc : Doc} :
    Doc.collectionId (m.copy id doc) = Doc.collectionId doc := by
  rw [Doc.collectionId, field_copy (by decide) (by decide), Doc.collectionId]

section Additions

variable {stores stores' : CollectionStores} {m : Moment}

theorem IsTree.createCollection (h : IsTree stores) {name : Text} {description : Option Text}
    (hstores : stores.createCollection m name description = some stores') : IsTree stores' := by
  obtain ⟨collections, hadd, rfl⟩ := Option.map_eq_some_iff.mp hstores
  refine h.of_collections fun key hkey => ?_
  obtain ⟨doc, hmem, rfl⟩ := hkey
  exact ⟨doc, (Table.mem_of_add hadd).mpr (Or.inr hmem), rfl⟩

/-- A folder added where its link leads to the top. -/
theorem IsTree.addFolder (h : IsTree stores) {folder : Doc} {folders : DocTable}
    (hadd : stores.folders.add folder = some folders)
    (hleads : Leads (folderNode stores.folders) (Doc.collectionId folder) (parentLink folder))
    (hstored : ∃ collection ∈ stores.collections,
      Doc.metaId collection = Doc.collectionId folder) : IsTree { stores with folders } := by
  have hsub : ∀ old ∈ stores.folders, old ∈ folders :=
    fun old hold => (Table.mem_of_add hadd).mpr (Or.inr hold)
  refine h.grow hsub (fun _ => id) ?_ (fun _ => Or.inl)
  intro new hnew
  rcases (Table.mem_of_add hadd).mp hnew with rfl | hold
  · exact Or.inr ⟨hleads.mono hsub, hstored⟩
  · exact Or.inl hold

/-- A request added where its link leads to the top. -/
theorem IsTree.addRequest (h : IsTree stores) {request : Doc} {requests : DocTable}
    (hadd : stores.requests.add request = some requests)
    (hleads : Leads (folderNode stores.folders) (Doc.collectionId request) (folderLink request))
    (hstored : ∃ collection ∈ stores.collections,
      Doc.metaId collection = Doc.collectionId request) : IsTree { stores with requests } := by
  refine h.grow (fun _ => id) (fun _ => id) (fun _ => Or.inl) ?_
  intro new hnew
  rcases (Table.mem_of_add hadd).mp hnew with rfl | hold
  · exact Or.inr ⟨hleads, hstored⟩
  · exact Or.inl hold

/-- A place in the tree a page may name: a stored collection, and a folder of it or none. -/
structure PlaceExists (stores : CollectionStores) (collectionId : Text) (folder : Option Text) :
    Prop where
  collection : ∃ collection ∈ stores.collections, Doc.metaId collection = collectionId
  folder : ∀ key, folder = some key → key ≠ [] ∧
    ∃ parent ∈ stores.folders, Doc.metaId parent = key ∧ Doc.collectionId parent = collectionId

/-- A link to a place that exists leads to the top. -/
theorem PlaceExists.leads (h : IsTree stores) {c : Text} {folder : Option Text}
    (hplace : PlaceExists stores c folder) :
    Leads (folderNode stores.folders) c (linkOf (folder.map Json.string)) := by
  cases folder with
  | none => exact Or.inl rfl
  | some key =>
      obtain ⟨hne, parent, hmem, hkey, hc⟩ := hplace.folder key rfl
      refine Or.inr ⟨key, linkOf_eq_some_some.mpr ⟨rfl, hne⟩, ?_⟩
      rw [← hkey, ← hc]
      exact (rooted_iff_leads hmem).mpr (h.folders parent hmem)

theorem IsTree.createFolder (h : IsTree stores) {c name : Text} {parent : Option Text}
    {order : Option Json} (hplace : PlaceExists stores c parent)
    (hstores : stores.createFolder m c name parent order = some stores') : IsTree stores' := by
  obtain ⟨folders, hadd, rfl⟩ := Option.map_eq_some_iff.mp hstores
  have hleads := hplace.leads h
  cases parent with
  | none => exact h.addFolder hadd hleads hplace.collection
  | some parent => exact h.addFolder hadd hleads hplace.collection

theorem IsTree.createRequest (h : IsTree stores) {content : Fields} {c name : Text}
    {folder : Option Text} {order : Option Json} (hplace : PlaceExists stores c folder)
    (hstores : stores.createRequest m content c name folder order = some stores') :
    IsTree stores' := by
  obtain ⟨requests, hadd, rfl⟩ := Option.map_eq_some_iff.mp hstores
  apply h.addRequest hadd
  · rw [folderLink, Doc.collectionId_setField (by decide), Doc.collectionId_setField (by decide),
      collectionId_copy, collectionId_withLink (by decide), field_setField_of_ne (by decide),
      field_setField_of_ne (by decide), field_copy (by decide) (by decide), field_withLink_self]
    exact (Doc.collectionId_withCollectionId content c).symm ▸ hplace.leads h
  · rw [Doc.collectionId_setField (by decide), Doc.collectionId_setField (by decide),
      collectionId_copy, collectionId_withLink (by decide)]
    exact (Doc.collectionId_withCollectionId content c).symm ▸ hplace.collection

theorem IsTree.duplicateRequest (h : IsTree stores) {id : Text}
    (hstores : stores.duplicateRequest m id = some stores') : IsTree stores' := by
  unfold CollectionStores.duplicateRequest at hstores
  cases hget : stores.requests.get? id with
  | none =>
      rw [hget] at hstores
      cases hstores
      exact h
  | some doc =>
      rw [hget] at hstores
      obtain ⟨requests, hadd, rfl⟩ := Option.map_eq_some_iff.mp hstores
      obtain ⟨hmem, -⟩ := Table.get?_eq_some_iff.mp hget
      have hcollection : Doc.collectionId (setField (setField (m.copy (m.newId 0) doc)
          (units "name") (CollectionStores.copyName doc)) (units "order") m.place) =
          Doc.collectionId doc := by
        rw [Doc.collectionId_setField (by decide), Doc.collectionId_setField (by decide),
          collectionId_copy]
      apply h.addRequest hadd
      · rw [hcollection, folderLink, field_setField_of_ne (by decide),
          field_setField_of_ne (by decide), field_copy (by decide) (by decide)]
        exact h.requests doc hmem
      · rw [hcollection]
        exact h.requestCollections doc hmem

end Additions

/-! ## Documents that go -/

/-- Stores that keep, of each document that stays, the folders it is in and its collection. -/
theorem IsTree.shrink {stores stores' : CollectionStores} (h : IsTree stores)
    (hfolders : ∀ folder ∈ stores'.folders, folder ∈ stores.folders)
    (hrequests : ∀ request ∈ stores'.requests, request ∈ stores.requests)
    (hparent : ∀ folder ∈ stores'.folders, ∀ parent ∈ stores.folders,
      parentLink folder = some (some (Doc.metaId parent)) →
        Doc.collectionId parent = Doc.collectionId folder → parent ∈ stores'.folders)
    (hfolder : ∀ request ∈ stores'.requests, ∀ folder ∈ stores.folders,
      folderLink request = some (some (Doc.metaId folder)) →
        Doc.collectionId folder = Doc.collectionId request → folder ∈ stores'.folders)
    (hfolderCollection : ∀ folder ∈ stores'.folders, ∀ collection ∈ stores.collections,
      Doc.metaId collection = Doc.collectionId folder → collection ∈ stores'.collections)
    (hrequestCollection : ∀ request ∈ stores'.requests, ∀ collection ∈ stores.collections,
      Doc.metaId collection = Doc.collectionId request → collection ∈ stores'.collections) :
    IsTree stores' := by
  -- A folder that stays reaches the top through folders that stay.
  have hrooted : ∀ folder ∈ stores'.folders,
      Rooted (folderNode stores'.folders) (Doc.collectionId folder) (Doc.metaId folder) := by
    intro folder hmem
    have hold := (rooted_iff_leads (hfolders folder hmem)).mpr
      (h.folders folder (hfolders folder hmem))
    refine hold.overlay (fun key => ∀ folder ∈ stores'.folders, Doc.metaId folder ≠ key) ?_ ?_
      fun hgone => hgone folder hmem rfl
    · intro key hkey
      obtain ⟨stays, hstays, rfl⟩ : ∃ stays ∈ stores'.folders, Doc.metaId stays = key := by
        simpa using hkey
      rw [folderNode_of_mem hstays, folderNode_of_mem (hfolders stays hstays)]
    · intro key parentKey hkey hnode hparentRooted hgone
      obtain ⟨stays, hstays, rfl⟩ : ∃ stays ∈ stores'.folders, Doc.metaId stays = key := by
        simpa using hkey
      obtain ⟨parent, hparentMem, hparentKey, hparentCollection⟩ :=
        exists_folder_of_rooted hparentRooted
      obtain ⟨same, hsameMem, hsameKey, hsameCollection, hlink⟩ := folderNode_eq_some.mp hnode
      have hsame := Table.eq_of_key_eq hsameMem (hfolders stays hstays) hsameKey
      rw [hsame] at hsameCollection hlink
      rw [← hparentKey] at hlink
      have hin := hparent stays hstays parent hparentMem hlink
        (hparentCollection.trans hsameCollection.symm)
      exact absurd hparentKey (hgone parent hin)
  constructor
  · intro folder hmem
    exact (rooted_iff_leads hmem).mp (hrooted folder hmem)
  · intro request hmem
    rcases h.requests request (hrequests request hmem) with htop | ⟨key, hlink, hkey⟩
    · exact Or.inl htop
    · obtain ⟨folder, hfolderMem, hfolderKey, hfolderCollection⟩ := exists_folder_of_rooted hkey
      refine Or.inr ⟨key, hlink, ?_⟩
      rw [← hfolderKey] at hlink ⊢
      rw [← hfolderCollection]
      exact hrooted folder (hfolder request hmem folder hfolderMem hlink hfolderCollection)
  · intro folder hmem
    obtain ⟨collection, hstored, hkey⟩ := h.folderCollections folder (hfolders folder hmem)
    exact ⟨collection, hfolderCollection folder hmem collection hstored hkey, hkey⟩
  · intro request hmem
    obtain ⟨collection, hstored, hkey⟩ := h.requestCollections request (hrequests request hmem)
    exact ⟨collection, hrequestCollection request hmem collection hstored hkey, hkey⟩

section Deletions

variable {stores : CollectionStores}

/-- What is left of a table without the documents of a collection. -/
theorem mem_deleteOf {table : DocTable} {c : Text} {doc : Doc} :
    doc ∈ table.deleteAll ((CollectionStores.ofCollection table c).map Doc.metaId) ↔
      doc ∈ table ∧ Doc.collectionId doc ≠ c := by
  rw [Table.mem_deleteAll]
  constructor
  · rintro ⟨hmem, hkey⟩
    refine ⟨hmem, fun hc => hkey ?_⟩
    exact List.mem_map_of_mem (Table.mem_getAll.mpr ⟨hmem, decide_eq_true hc⟩)
  · rintro ⟨hmem, hc⟩
    refine ⟨hmem, fun hkey => ?_⟩
    obtain ⟨other, hother, hsame⟩ := List.mem_map.mp hkey
    obtain ⟨hotherMem, hotherCollection⟩ := Table.mem_getAll.mp hother
    rw [Table.eq_of_key_eq hotherMem hmem hsame] at hotherCollection
    exact hc (of_decide_eq_true hotherCollection)

theorem IsTree.deleteCollection (h : IsTree stores) (id : Text) :
    IsTree (stores.deleteCollection id).1 := by
  apply h.shrink
  · exact fun folder hmem => (mem_deleteOf.mp hmem).1
  · exact fun request hmem => (mem_deleteOf.mp hmem).1
  · intro folder hmem parent hparent _ hsame
    exact mem_deleteOf.mpr ⟨hparent, hsame ▸ (mem_deleteOf.mp hmem).2⟩
  · intro request hmem folder hfolder _ hsame
    exact mem_deleteOf.mpr ⟨hfolder, hsame ▸ (mem_deleteOf.mp hmem).2⟩
  · intro folder hmem collection hcollection hkey
    exact Table.mem_delete.mpr ⟨hcollection, hkey ▸ (mem_deleteOf.mp hmem).2⟩
  · intro request hmem collection hcollection hkey
    exact Table.mem_delete.mpr ⟨hcollection, hkey ▸ (mem_deleteOf.mp hmem).2⟩

theorem IsTree.deleteRequest (h : IsTree stores) (id : Text) :
    IsTree (stores.deleteRequest id).1 :=
  h.shrink (fun _ hmem => hmem) (fun _ hmem => (Table.mem_delete.mp hmem).1)
    (fun _ _ _ hparent _ _ => hparent) (fun _ _ _ hfolder _ _ => hfolder)
    (fun _ _ _ hcollection _ => hcollection) fun _ _ _ hcollection _ => hcollection

/-- A folder whose link names a key is a folder in it. -/
theorem parentOf_eq_of_link {folder : Doc} {key : Text}
    (h : parentLink folder = some (some key)) : parentOf folder = some key := by
  rw [parentOf, (linkOf_eq_some_some.mp h).1]
  rfl

theorem folderOf_eq_of_link {request : Doc} {key : Text}
    (h : folderLink request = some (some key)) : folderOf request = some key := by
  rw [folderOf, (linkOf_eq_some_some.mp h).1]
  rfl

theorem mem_foldersIn {key : Text} {folder : Doc} :
    folder ∈ stores.foldersIn key ↔ folder ∈ stores.folders ∧ parentOf folder = some key := by
  rw [CollectionStores.foldersIn, Table.mem_getAll, decide_eq_true_iff]

theorem mem_requestsIn {key : Text} {request : Doc} :
    request ∈ stores.requestsIn key ↔
      request ∈ stores.requests ∧ folderOf request = some key := by
  rw [CollectionStores.requestsIn, Table.mem_getAll, decide_eq_true_iff]

/-- What is in a folder that is found, or in the top, is found too. -/
theorem subtree_closed {id key : Text} {folder : Doc} (hmem : folder ∈ stores.folders)
    (hparent : parentOf folder = some key)
    (hkey : key ∈ id :: (stores.subtree id).map Doc.metaId) :
    Doc.metaId folder ∈ id :: (stores.subtree id).map Doc.metaId := by
  have hrows : ∀ k, ∀ a ∈ stores.foldersIn k, a ∈ stores.folders.rows :=
    fun k a ha => (mem_foldersIn.mp ha).1
  exact looked_foundInside hrows key hkey folder (mem_foldersIn.mpr ⟨hmem, hparent⟩)

/-- The keys a folder's deletion takes out are the folder's and those found in it, where they are
stored. -/
theorem mem_deletedKeys {id : Text} {folder : Doc} (hmem : folder ∈ stores.folders) :
    Doc.metaId folder ∈ ((stores.folders.get? id).toList ++ stores.subtree id).map Doc.metaId ↔
      Doc.metaId folder ∈ id :: (stores.subtree id).map Doc.metaId := by
  rw [List.map_append, List.mem_append, List.mem_cons]
  refine or_congr_left ?_
  cases hget : stores.folders.get? id with
  | none =>
      have hnone := Table.get?_eq_none_iff.mp hget folder hmem
      simpa using hnone
  | some top =>
      obtain ⟨-, hkey⟩ := Table.get?_eq_some_iff.mp hget
      simp [hkey]

theorem IsTree.deleteFolder (h : IsTree stores) (id : Text) :
    IsTree (stores.deleteFolder id).1 := by
  have hstays : ∀ folder ∈ (stores.deleteFolder id).1.folders, folder ∈ stores.folders ∧
      Doc.metaId folder ∉ id :: (stores.subtree id).map Doc.metaId := by
    intro folder hmem
    obtain ⟨hold, hkey⟩ := Table.mem_deleteAll.mp hmem
    exact ⟨hold, fun hin => hkey ((mem_deletedKeys hold).mpr hin)⟩
  have hkept : ∀ folder ∈ stores.folders,
      Doc.metaId folder ∉ id :: (stores.subtree id).map Doc.metaId →
        folder ∈ (stores.deleteFolder id).1.folders :=
    fun folder hold hkey =>
      Table.mem_deleteAll.mpr ⟨hold, fun hin => hkey ((mem_deletedKeys hold).mp hin)⟩
  apply h.shrink
  · exact fun folder hmem => (hstays folder hmem).1
  · exact fun request hmem => (Table.mem_deleteAll.mp hmem).1
  · intro folder hmem parent hparent hlink _
    obtain ⟨hold, hkey⟩ := hstays folder hmem
    refine hkept parent hparent fun hin => hkey ?_
    exact subtree_closed hold (parentOf_eq_of_link hlink) hin
  · intro request hmem folder hfolder hlink _
    obtain ⟨hold, hkey⟩ := Table.mem_deleteAll.mp hmem
    refine hkept folder hfolder fun hin => hkey ?_
    -- The request is in a folder that is deleted, and goes with it.
    obtain ⟨deleted, hdeleted, hsame⟩ := List.mem_map.mp ((mem_deletedKeys hfolder).mpr hin)
    refine List.mem_map_of_mem (List.mem_flatMap.mpr ⟨deleted, hdeleted, ?_⟩)
    rw [hsame]
    exact mem_requestsIn.mpr ⟨hold, folderOf_eq_of_link hlink⟩
  · exact fun _ _ _ hcollection _ => hcollection
  · exact fun _ _ _ hcollection _ => hcollection

/-- A link that leads to the top and is a text names a stored folder of the collection. -/
theorem exists_folder_of_leads {table : DocTable} {c key : Text} {link : Option Json}
    (h : Leads (folderNode table) c (linkOf link)) (hkey : textOf link = some key) :
    ∃ folder ∈ table, Doc.metaId folder = key ∧ Doc.collectionId folder = c := by
  rcases h with htop | ⟨named, hnamed, hrooted⟩
  · rw [linkOf_eq_some_none.mp htop] at hkey
    cases hkey
  · rw [(linkOf_eq_some_some.mp hnamed).1] at hkey
    cases hkey
    exact exists_folder_of_rooted hrooted

/-- Everything found in a folder of a tree is of the folder's collection. -/
theorem IsTree.collectionId_of_grown (h : IsTree stores) {id : Text} {l : List Doc}
    (hgrown : Grown stores.foldersIn Doc.metaId id l) {folder : Doc} (hmem : folder ∈ l) :
    ∃ top ∈ stores.folders, Doc.metaId top = id ∧
      Doc.collectionId folder = Doc.collectionId top := by
  induction hgrown generalizing folder with
  | nil => cases hmem
  | @snoc l key inner _ hkey hinside ih =>
      rcases List.mem_append.mp hmem with hmem | hmem
      · exact ih hmem
      · rw [List.mem_singleton.mp hmem]
        obtain ⟨hstored, hparent⟩ := mem_foldersIn.mp hinside
        obtain ⟨parent, hparentMem, hparentKey, hcollection⟩ :=
          exists_folder_of_leads (h.folders inner hstored) hparent
        rcases List.mem_cons.mp hkey with hid | hin
        · exact ⟨parent, hparentMem, hparentKey.trans hid, hcollection.symm⟩
        · -- The folder it is in was found before it.
          obtain ⟨found, hfound, hfoundKey⟩ := List.mem_map.mp hin
          obtain ⟨top, htop, htopKey, hsame⟩ := ih hfound
          obtain ⟨k, -, hfoundInside⟩ := Grown.exists_inside ‹Grown _ _ id l› hfound
          have hfoundMem := (mem_foldersIn.mp hfoundInside).1
          have heq := Table.eq_of_key_eq hparentMem hfoundMem (hparentKey.trans hfoundKey.symm)
          rw [heq, hsame] at hcollection
          exact ⟨top, htop, htopKey, hcollection.symm⟩

/-- The folders a deletion takes out are stored ones. -/
theorem mem_of_deletedFolder {id : Text} {folder : Doc}
    (hfolder : folder ∈ (stores.deleteFolder id).2.folders) : folder ∈ stores.folders := by
  rcases List.mem_append.mp hfolder with htop | hfound
  · exact (Table.get?_eq_some_iff.mp (Option.mem_toList.mp htop)).1
  · obtain ⟨k, -, hinside⟩ := (grown_foundInside _).exists_inside hfound
    exact (mem_foldersIn.mp hinside).1

/-- A folder or a request that is gone after a folder was deleted was taken out with it. -/
theorem deleted_of_gone {id : Text} {doc : Doc}
    (hdoc : doc ∈ stores.folders ∧ doc ∉ (stores.deleteFolder id).1.folders ∨
      doc ∈ stores.requests ∧ doc ∉ (stores.deleteFolder id).1.requests) :
    doc ∈ (stores.deleteFolder id).2.folders ∨ doc ∈ (stores.deleteFolder id).2.requests := by
  rcases hdoc with ⟨hmem, hgone⟩ | ⟨hmem, hgone⟩
  · left
    have hkey : Doc.metaId doc ∈ (stores.deleteFolder id).2.folders.map Doc.metaId := by
      by_contra hkey
      exact hgone (Table.mem_deleteAll.mpr ⟨hmem, hkey⟩)
    obtain ⟨found, hfound, hsame⟩ := List.mem_map.mp hkey
    rwa [← Table.eq_of_key_eq (mem_of_deletedFolder hfound) hmem hsame]
  · right
    have hkey : Doc.metaId doc ∈ (stores.deleteFolder id).2.requests.map Doc.metaId := by
      by_contra hkey
      exact hgone (Table.mem_deleteAll.mpr ⟨hmem, hkey⟩)
    obtain ⟨found, hfound, hsame⟩ := List.mem_map.mp hkey
    obtain ⟨_, -, hin⟩ := List.mem_flatMap.mp hfound
    rwa [← Table.eq_of_key_eq (mem_requestsIn.mp hin).1 hmem hsame]

/-- Deleting a folder of a tree takes out documents of its own collection only. -/
theorem IsTree.deleteFolder_own (h : IsTree stores) {id : Text} {doc : Doc}
    (hdoc : doc ∈ stores.folders ∧ doc ∉ (stores.deleteFolder id).1.folders ∨
      doc ∈ stores.requests ∧ doc ∉ (stores.deleteFolder id).1.requests) :
    ∃ top ∈ stores.folders, Doc.metaId top = id ∧
      Doc.collectionId doc = Doc.collectionId top := by
  have hfolders : ∀ folder ∈ (stores.deleteFolder id).2.folders,
      ∃ top ∈ stores.folders, Doc.metaId top = id ∧
        Doc.collectionId folder = Doc.collectionId top := by
    intro folder hfolder
    rcases List.mem_append.mp hfolder with htop | hfound
    · obtain ⟨hmem, hkey⟩ := Table.get?_eq_some_iff.mp (Option.mem_toList.mp htop)
      exact ⟨folder, hmem, hkey, rfl⟩
    · exact h.collectionId_of_grown (grown_foundInside _) hfound
  rcases deleted_of_gone hdoc with hfolder | hrequest
  · exact hfolders doc hfolder
  · obtain ⟨folder, hfolder, hin⟩ := List.mem_flatMap.mp hrequest
    obtain ⟨hmem, hlink⟩ := mem_requestsIn.mp hin
    obtain ⟨named, hnamedMem, hnamedKey, hcollection⟩ :=
      exists_folder_of_leads (h.requests doc hmem) hlink
    have heq := Table.eq_of_key_eq hnamedMem (mem_of_deletedFolder hfolder) hnamedKey
    obtain ⟨top, htop, htopKey, hsame⟩ := hfolders folder hfolder
    exact ⟨top, htop, htopKey, hcollection.symm.trans (heq ▸ hsame)⟩

end Deletions

/-! ## Copies -/

section Copies

open CollectionStores (copyIds folderCopy requestCopy)

variable {stores stores' : CollectionStores} {m : Moment}

/-- What is in a table after documents were added to it. -/
theorem mem_addAll {table table' : DocTable} {docs : List Doc} {doc : Doc}
    (h : CollectionStores.addAll table docs = some table') :
    doc ∈ table' ↔ doc ∈ table ∨ doc ∈ docs := by
  induction docs generalizing table with
  | nil =>
      cases h
      simp
  | cons first docs ih =>
      rw [CollectionStores.addAll, List.foldlM_cons] at h
      obtain ⟨middle, hadd, hrest⟩ := Option.bind_eq_some_iff.mp h
      rw [ih hrest, Table.mem_of_add hadd, List.mem_cons]
      tauto

theorem get?_copyIds {source : List Doc} (hnodup : (source.map Doc.metaId).Nodup)
    {entry : Doc × Nat} (hentry : entry ∈ source.zipIdx) :
    (copyIds m source).get? (Doc.metaId entry.1) = some (m.newId (entry.2 + 1)) := by
  have hkeys : ((source.zipIdx.map fun entry : Doc × Nat =>
      (Doc.metaId entry.1, m.newId (entry.2 + 1))).map Prod.fst).Nodup := by
    have hmap : (source.zipIdx.map fun entry : Doc × Nat =>
        (Doc.metaId entry.1, m.newId (entry.2 + 1))).map Prod.fst =
        (source.zipIdx.map Prod.fst).map Doc.metaId := by
      rw [List.map_map, List.map_map]
      rfl
    rw [hmap, List.zipIdx_map_fst]
    exact hnodup
  exact OrderedMap.get?_setAll_of_nodup hkeys (List.mem_map_of_mem hentry) OrderedMap.empty

/-- The new link of a copy: to the copy of what it named, where that was copied. -/
def copyLink (ids : OrderedMap Text Text) (link : Option Json) : Option Json :=
  ((textOf link).bind ids.get?).map .string

/-- The copy of a link that leads to the top of a collection names the copy of what it named. -/
theorem linkOf_copyLink {table : DocTable} {source : List Doc} {c : Text} {link : Option Json}
    (hsource : ∀ folder, folder ∈ source ↔ folder ∈ table ∧ Doc.collectionId folder = c)
    (hnodup : (source.map Doc.metaId).Nodup) (h : Leads (folderNode table) c (linkOf link)) :
    linkOf (copyLink (copyIds m source) link) = (linkOf link).map fun named =>
      named.map fun key => ((copyIds m source).get? key).getD [] := by
  rcases h with htop | ⟨key, hlink, hrooted⟩
  · rw [htop, linkOf_eq_some_none.mp htop]
    rfl
  · obtain ⟨folder, hmem, rfl, hcollection⟩ := exists_folder_of_rooted hrooted
    obtain ⟨i, hi⟩ := List.mem_iff_getElem?.mp ((hsource folder).mpr ⟨hmem, hcollection⟩)
    have hget := get?_copyIds (m := m) hnodup (List.mk_mem_zipIdx_iff_getElem?.mpr hi)
    have hcopy : copyLink (copyIds m source) link = some (.string (m.newId (i + 1))) := by
      rw [copyLink, (linkOf_eq_some_some.mp hlink).1, textOf, Option.bind_some, hget]
      rfl
    rw [hcopy, hlink, Option.map_some, Option.map_some, hget, Option.getD_some]
    exact linkOf_eq_some_some.mpr ⟨rfl, m.nonblank _⟩

/-- A link that leads to the top is taken as true exactly when there is one. -/
theorem truthy_of_leads {node : Text → Option (Text × Option Text)} {c : Text}
    {link : Option Json} (h : Leads node c (linkOf link)) :
    truthy link = (textOf link).isSome := by
  rcases h with htop | ⟨key, hlink, -⟩
  · rw [linkOf_eq_some_none.mp htop]
    rfl
  · obtain ⟨rfl, hne⟩ := linkOf_eq_some_some.mp hlink
    simpa [truthy, textOf] using hne

/-- Where the copy of a folder stands. -/
theorem folderCopy_spec {table : DocTable} (m : Moment) (newC : Text) {c : Text}
    (ids : OrderedMap Text Text) {entry : Doc × Nat}
    (h : Leads (folderNode table) c (parentLink entry.1)) :
    Doc.metaId (folderCopy m newC ids entry) = m.newId (entry.2 + 1) ∧
      Doc.collectionId (folderCopy m newC ids entry) = newC ∧
      field (folderCopy m newC ids entry) (units "parentFolderId") =
        copyLink ids (field entry.1 (units "parentFolderId")) := by
  have hfield : field (Doc.withCollectionId (m.copy (m.newId (entry.2 + 1)) entry.1) newC)
      (units "parentFolderId") = field entry.1 (units "parentFolderId") := by
    rw [Doc.withCollectionId, field_setField_of_ne (by decide),
      field_copy (by decide) (by decide)]
  have htruthy := truthy_of_leads h
  unfold folderCopy parentOf
  dsimp only
  rw [hfield]
  split_ifs with hlinked
  · refine ⟨?_, ?_, field_withLink_self _ _ _⟩
    · cases copied : ((textOf (field entry.1 (units "parentFolderId"))).bind ids.get?).map
          Json.string with
      | none => rw [withLink, Doc.metaId_removeField (by decide)]; simp
      | some value => rw [withLink, Doc.metaId_setField (by decide)]; simp
    · rw [collectionId_withLink (by decide), Doc.collectionId_withCollectionId]
  · refine ⟨by simp, Doc.collectionId_withCollectionId _ _, ?_⟩
    rw [hfield]
    rw [htruthy] at hlinked
    rcases h with htop | ⟨key, hlink, -⟩
    · rw [linkOf_eq_some_none.mp htop]
      rfl
    · rw [(linkOf_eq_some_some.mp hlink).1] at hlinked
      exact absurd rfl hlinked

theorem requestCopy_spec {table : DocTable} (m : Moment) (newC : Text) {c : Text} (taken : Nat)
    (ids : OrderedMap Text Text) {entry : Doc × Nat}
    (h : Leads (folderNode table) c (folderLink entry.1)) :
    Doc.collectionId (requestCopy m newC taken ids entry) = newC ∧
      field (requestCopy m newC taken ids entry) (units "folderId") =
        copyLink ids (field entry.1 (units "folderId")) := by
  constructor
  · rw [requestCopy, collectionId_withLink (by decide), Doc.collectionId_withCollectionId]
  · rw [requestCopy, field_withLink_self, truthy_of_leads h]
    rcases h with htop | ⟨key, hlink, -⟩
    · rw [linkOf_eq_some_none.mp htop]
      rfl
    · rw [folderOf, (linkOf_eq_some_some.mp hlink).1]
      rfl

/-- The links of a collection's documents lead, copied, to the top of the copy. -/
theorem leads_copyLink (h : IsTree stores) {folders : DocTable} {source : List Doc} {c newC : Text}
    (hsource : ∀ folder, folder ∈ source ↔
      folder ∈ stores.folders ∧ Doc.collectionId folder = c)
    (hnodup : (source.map Doc.metaId).Nodup)
    (hcopies : ∀ entry ∈ source.zipIdx, folderCopy m newC (copyIds m source) entry ∈ folders)
    {link : Option Json} (hleads : Leads (folderNode stores.folders) c (linkOf link)) :
    Leads (folderNode folders) newC (linkOf (copyLink (copyIds m source) link)) := by
  have hrooted : ∀ key, Rooted (folderNode stores.folders) c key →
      Rooted (folderNode folders) newC (((copyIds m source).get? key).getD []) := by
    intro key hkey
    refine hkey.map (fun key => ((copyIds m source).get? key).getD []) ?_
    intro j parent hnode _
    obtain ⟨folder, hmem, rfl, hcollection, hparent⟩ := folderNode_eq_some.mp hnode
    obtain ⟨i, hi⟩ := List.mem_iff_getElem?.mp ((hsource folder).mpr ⟨hmem, hcollection⟩)
    have hentry : (folder, i) ∈ source.zipIdx := List.mk_mem_zipIdx_iff_getElem?.mpr hi
    have hfolder := h.folders folder hmem
    rw [hcollection] at hfolder
    obtain ⟨hkey, hnewC, hfield⟩ := folderCopy_spec m newC (copyIds m source)
      (show Leads _ c (parentLink (folder, i).1) from hfolder)
    refine folderNode_eq_some.mpr ⟨_, hcopies _ hentry, ?_, hnewC, ?_⟩
    · rw [hkey, get?_copyIds hnodup hentry, Option.getD_some]
    · rw [parentLink, hfield, linkOf_copyLink hsource hnodup hfolder]
      rw [parentLink] at hparent
      rw [hparent, Option.map_some]
  rw [linkOf_copyLink hsource hnodup hleads]
  rcases hleads with htop | ⟨key, hlink, hkey⟩
  · exact Or.inl (by rw [htop]; rfl)
  · exact Or.inr ⟨_, by rw [hlink]; rfl, hrooted key hkey⟩

/-- A copy of a collection is a tree of its own. -/
theorem IsTree.duplicateCollection (h : IsTree stores) {id : Text}
    (hstores : stores.duplicateCollection m id = some stores') : IsTree stores' := by
  unfold CollectionStores.duplicateCollection at hstores
  cases hget : stores.collections.get? id with
  | none =>
      rw [hget] at hstores
      cases hstores
      exact h
  | some original =>
      rw [hget] at hstores
      dsimp only at hstores
      split at hstores
      · next collections folders requests hcollections hfolders hrequests =>
          cases hstores
          have hsource : ∀ folder, folder ∈ CollectionStores.ofCollection stores.folders id ↔
              folder ∈ stores.folders ∧ Doc.collectionId folder = id := by
            intro folder
            rw [CollectionStores.ofCollection, Table.mem_getAll, decide_eq_true_iff]
          have hnodup := Table.nodup_getAll stores.folders
            fun folder => decide (Doc.collectionId folder = id)
          have hcopies : ∀ entry ∈ (CollectionStores.ofCollection stores.folders id).zipIdx,
              folderCopy m (m.newId 0)
                (copyIds m (CollectionStores.ofCollection stores.folders id)) entry ∈ folders :=
            fun entry hentry => (mem_addAll hfolders).mpr (Or.inr (List.mem_map_of_mem hentry))
          have hstored : ∃ collection ∈ collections, Doc.metaId collection = m.newId 0 := by
            refine ⟨_, (Table.mem_of_add hcollections).mpr (Or.inl rfl), ?_⟩
            rw [Doc.metaId_setField (by decide), Doc.metaId_setField (by decide), metaId_copy]
          -- What was stored keeps its place; what is new is a copy, led where its original led.
          refine h.grow (fun _ hmem => (mem_addAll hfolders).mpr (Or.inl hmem))
            (fun _ hmem => (Table.mem_of_add hcollections).mpr (Or.inr hmem)) ?_ ?_
          · intro folder hmem
            refine ((mem_addAll hfolders).mp hmem).imp_right fun hnew => ?_
            obtain ⟨entry, hentry, rfl⟩ := List.mem_map.mp hnew
            obtain ⟨hold, hc⟩ := (hsource _).mp (List.fst_mem_of_mem_zipIdx hentry)
            have hleads := h.folders entry.1 hold
            rw [hc] at hleads
            obtain ⟨-, hnewC, hfield⟩ := folderCopy_spec m (m.newId 0)
              (copyIds m (CollectionStores.ofCollection stores.folders id)) hleads
            have hcopied := leads_copyLink h hsource hnodup hcopies hleads
            refine ⟨?_, ?_⟩
            · rw [hnewC, parentLink, hfield]
              exact hcopied
            · rw [hnewC]
              exact hstored
          · intro request hmem
            refine ((mem_addAll hrequests).mp hmem).imp_right fun hnew => ?_
            obtain ⟨entry, hentry, rfl⟩ := List.mem_map.mp hnew
            obtain ⟨hold, hc⟩ := Table.mem_getAll.mp (List.fst_mem_of_mem_zipIdx hentry)
            have hleads := h.requests entry.1 hold
            rw [of_decide_eq_true hc] at hleads
            obtain ⟨hnewC, hfield⟩ := requestCopy_spec m (m.newId 0)
              (CollectionStores.ofCollection stores.folders id).length
              (copyIds m (CollectionStores.ofCollection stores.folders id)) hleads
            have hcopied := leads_copyLink h hsource hnodup hcopies hleads
            refine ⟨?_, ?_⟩
            · rw [hnewC, folderLink, hfield]
              exact hcopied
            · rw [hnewC]
              exact hstored
      · cases hstores

/-- A folder's copy in the making is a tree, in which the folders copied so far have a copy of the
collection. -/
structure CopiesWell (stores : CollectionStores) (c : Text) (keys : List Text)
    (s : CollectionStores.Copying) : Prop where
  tree : IsTree s.stores
  kept : ∀ folder ∈ stores.folders, folder ∈ s.stores.folders
  collections : s.stores.collections = stores.collections
  copies : ∀ key ∈ keys, ∃ clone ∈ s.stores.folders,
    s.copies.get? key = some (Doc.metaId clone) ∧ Doc.collectionId clone = c ∧
      Doc.metaId clone ≠ []

/-- Where a folder's copy goes: beside it where it is the one that is copied, else in the copy of
the folder it is in. -/
def CopyPlace (stores : CollectionStores) (top c : Text) (keys : List Text) (folder : Doc) : Prop :=
  if Doc.metaId folder = top then Leads (folderNode stores.folders) c (parentLink folder)
  else ∃ key ∈ keys, parentOf folder = some key

/-- The copy of a folder, as it is written. -/
theorem copyFolder_clone {top c : Text} {keys : List Text} {s : CollectionStores.Copying}
    {folder : Doc} (h : CopiesWell stores c keys s) (hplace : CopyPlace stores top c keys folder)
    {clone : Doc}
    (hclone : clone =
      if Doc.metaId folder = top then
        setField (setField (m.copy (m.newId s.taken) folder) (units "name")
          (CollectionStores.copyName folder)) (units "order") m.place
      else withLink (m.copy (m.newId s.taken) folder) (units "parentFolderId")
        ((s.copies.get? ((parentOf folder).getD [])).map .string)) :
    Doc.metaId clone = m.newId s.taken ∧ Doc.collectionId clone = Doc.collectionId folder ∧
      Leads (folderNode s.stores.folders) c (parentLink clone) := by
  subst hclone
  unfold CopyPlace at hplace
  split_ifs at hplace ⊢ with htop
  · refine ⟨?_, ?_, ?_⟩
    · rw [Doc.metaId_setField (by decide), Doc.metaId_setField (by decide), metaId_copy]
    · rw [Doc.collectionId_setField (by decide), Doc.collectionId_setField (by decide),
        collectionId_copy]
    · rw [parentLink, field_setField_of_ne (by decide), field_setField_of_ne (by decide),
        field_copy (by decide) (by decide)]
      exact hplace.mono h.kept
  · obtain ⟨key, hkey, hparent⟩ := hplace
    obtain ⟨copy, hmem, hget, hc, hne⟩ := h.copies key hkey
    refine ⟨?_, ?_, ?_⟩
    · rw [metaId_withLink (by decide), metaId_copy]
    · rw [collectionId_withLink (by decide), collectionId_copy]
    · rw [parentLink, field_withLink_self, hparent, Option.getD_some, hget]
      refine Or.inr ⟨Doc.metaId copy, linkOf_eq_some_some.mpr ⟨rfl, hne⟩, ?_⟩
      rw [← hc]
      exact (rooted_iff_leads hmem).mpr (h.tree.folders copy hmem)

theorem CopiesWell.copyFolder {top c : Text} {keys : List Text} {s s' : CollectionStores.Copying}
    {folder : Doc} (h : CopiesWell stores c keys s) (hplace : CopyPlace stores top c keys folder)
    (hc : Doc.collectionId folder = c)
    (hstored : ∃ collection ∈ stores.collections, Doc.metaId collection = c)
    (hstep : CollectionStores.copyFolder m top c s folder = some s') :
    CopiesWell stores c (keys ++ [Doc.metaId folder]) s' := by
  unfold CollectionStores.copyFolder at hstep
  dsimp only at hstep
  split at hstep
  · next folders requests hfolders hrequests =>
      cases hstep
      -- The folder's copy first: its parent's copy is there already.
      obtain ⟨hkey, hcollection, hleads⟩ := copyFolder_clone h hplace rfl
      rw [hc] at hcollection
      rw [← h.collections] at hstored
      have hadded := h.tree.addFolder hfolders (by rw [hcollection]; exact hleads)
        (by rw [hcollection]; exact hstored)
      have hnewMem := (Table.mem_of_add hfolders).mpr (Or.inl rfl)
      -- Then its requests, each linked to the copy of the folder.
      have htree : IsTree { s.stores with folders, requests } := by
        refine hadded.grow (fun _ hmem => hmem) (fun _ hmem => hmem) (fun _ => Or.inl) ?_
        intro request hmem
        refine ((mem_addAll hrequests).mp hmem).imp_right fun hnew => ?_
        obtain ⟨entry, -, rfl⟩ := List.mem_map.mp hnew
        have hlink : folderLink (Doc.withCollectionId (setField
            (m.copy (m.newId (s.taken + entry.2 + 1)) entry.1) (units "folderId")
            (.string (m.newId s.taken))) c) = some (some (m.newId s.taken)) := by
          rw [folderLink, Doc.withCollectionId, field_setField_of_ne (by decide),
            field_setField_self]
          exact linkOf_eq_some_some.mpr ⟨rfl, m.nonblank _⟩
        rw [Doc.collectionId_withCollectionId]
        refine ⟨Or.inr ⟨_, hlink, ?_⟩, hstored⟩
        have hrooted := (rooted_iff_leads hnewMem).mpr (hadded.folders _ hnewMem)
        rwa [hkey, hcollection] at hrooted
      refine ⟨htree, fun folder hmem => (Table.mem_of_add hfolders).mpr (Or.inr (h.kept _ hmem)),
        h.collections, ?_⟩
      intro key hkeys
      dsimp only
      rw [OrderedMap.get?_set]
      split_ifs with hsame
      · exact ⟨_, hnewMem, congrArg some hkey.symm, hcollection,
          fun hnil => m.nonblank _ (hkey.symm.trans hnil)⟩
      · have hin : key ∈ keys := by
          rcases List.mem_append.mp hkeys with hin | hin
          · exact hin
          · exact absurd (List.mem_singleton.mp hin).symm hsame
        obtain ⟨clone, hmem, hget⟩ := h.copies key hin
        exact ⟨clone, (Table.mem_of_add hfolders).mpr (Or.inr hmem), hget⟩
  · cases hstep

theorem IsTree.duplicateFolder (h : IsTree stores) {id : Text}
    (hstores : stores.duplicateFolder m id = some stores') : IsTree stores' := by
  unfold CollectionStores.duplicateFolder at hstores
  cases hget : stores.folders.get? id with
  | none =>
      rw [hget] at hstores
      cases hstores
      exact h
  | some original =>
      rw [hget] at hstores
      obtain ⟨s, hs, rfl⟩ := Option.map_eq_some_iff.mp hstores
      obtain ⟨hmem, hkey⟩ := Table.get?_eq_some_iff.mp hget
      have hstored := h.folderCollections original hmem
      have hstart : CopiesWell stores (Doc.collectionId original) [] ⟨stores, .empty, 0⟩ :=
        ⟨h, fun _ hmem => hmem, rfl, fun _ hin => nomatch hin⟩
      -- The folders inside are copied in the order they were found in, each after its parent.
      have hall : ∀ l, Grown stores.foldersIn Doc.metaId id l → id ∉ l.map Doc.metaId → ∀ s,
          (original :: l).foldlM (CollectionStores.copyFolder m id (Doc.collectionId original))
            ⟨stores, .empty, 0⟩ = some s →
          CopiesWell stores (Doc.collectionId original) (id :: l.map Doc.metaId) s := by
        intro l hgrown
        induction hgrown with
        | nil =>
            intro _ s hs
            rw [List.foldlM_cons] at hs
            obtain ⟨s', hfirst, hrest⟩ := Option.bind_eq_some_iff.mp hs
            cases hrest
            have hplace : CopyPlace stores id (Doc.collectionId original) [] original := by
              rw [CopyPlace, if_pos hkey]
              exact h.folders original hmem
            have hwell := hstart.copyFolder hplace rfl hstored hfirst
            rwa [hkey] at hwell
        | @snoc l key inner hgrown hin hinside ih =>
            intro hnew s hs
            rw [List.map_append, List.mem_append, not_or] at hnew
            rw [← List.cons_append, List.foldlM_append] at hs
            obtain ⟨s', hbefore, hlast⟩ := Option.bind_eq_some_iff.mp hs
            rw [List.foldlM_cons] at hlast
            obtain ⟨s'', hstep, hpure⟩ := Option.bind_eq_some_iff.mp hlast
            cases hpure
            have hplace : CopyPlace stores id (Doc.collectionId original)
                (id :: l.map Doc.metaId) inner := by
              rw [CopyPlace, if_neg fun hid => hnew.2 (by simp [hid])]
              exact ⟨key, hin, (mem_foldersIn.mp hinside).2⟩
            obtain ⟨top, htop, htopKey, hc⟩ := h.collectionId_of_grown
              (Grown.snoc hgrown hin hinside) (List.mem_append_right _ (List.mem_singleton_self _))
            have hsame := Table.eq_of_key_eq htop hmem (htopKey.trans hkey.symm)
            rw [List.map_append]
            exact (ih hnew.1 s' hbefore).copyFolder hplace (hsame ▸ hc) hstored hstep
      have hnew : id ∉ (stores.subtree id).map Doc.metaId :=
        (List.nodup_cons.mp (nodup_foundInside _)).1
      exact (hall _ (grown_foundInside _) hnew s hs).tree

end Copies

end Wayfarer
