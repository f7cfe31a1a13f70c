import Mathlib.Data.List.Perm.Basic
import Wayfarer.Library.Effects
import Wayfarer.Send.Hosts
import Wayfarer.Store.Collections

/-!
# What an import stores

An import says how many folders and requests it will store. `import_announced_iff` says when the
stores hold exactly those afterwards, each with what the file's entry holds: when no two folders of
the file have one id and, unless each request is given a new one, no two requests.

`normalizeExport` and `remapIdentifiers` keep what a document holds of its own, entry by entry; they
are followed here by what they do to its key (`MadeFrom`).
-/

set_option autoImplicit false

namespace Wayfarer

open Library

/-! ## One identity, one order -/

/-- A document that names itself by its key. -/
def NamesItself (doc : Doc) : Prop :=
  Doc.id doc = some (Doc.metaId doc)

theorem namesItself_ensureDocId (doc : Doc) : NamesItself (Doc.ensureDocId doc) := by
  rw [NamesItself, Doc.id_ensureDocId, Doc.metaId_ensureDocId]

/-- A document that names itself goes by its key. -/
theorem givenId_of_namesItself {doc : Doc} (h : NamesItself doc) :
    givenId doc = Doc.metaId doc := by
  unfold NamesItself Doc.id at h
  unfold givenId
  cases hid : field doc (units "id") with
  | none =>
      rw [hid] at h
      cases h
  | some value =>
      rw [hid] at h
      cases value with
      | string t =>
          cases h
          rfl
      | _ => cases h

/-- A document that names itself is left as it is, or named so again. -/
theorem ensureId_spec (doc : Doc) :
    Doc.metaId (ensureId doc) = Doc.metaId doc ∧ Doc.own (ensureId doc) = Doc.own doc ∧
      Doc.collectionId (ensureId doc) = Doc.collectionId doc ∧
      (NamesItself doc → NamesItself (ensureId doc)) := by
  unfold ensureId
  split_ifs
  · exact ⟨rfl, rfl, rfl, id⟩
  · refine ⟨Doc.metaId_ensureDocId doc, Doc.own_ensureDocId doc,
      Doc.collectionId_setField (by decide), fun _ => namesItself_ensureDocId doc⟩

theorem sortByOrder_perm (F : FilePlatform) (docs : List Doc) :
    (sortByOrder F docs).Perm docs :=
  List.perm_insertionSort _ _

/-- The documents of a list are those of a file, each with its identity made one. -/
theorem normalized_perm (F : FilePlatform) (docs : List Doc) :
    (sortByOrder F (docs.map Doc.ensureDocId)).Perm (docs.map Doc.ensureDocId) :=
  sortByOrder_perm F _

theorem namesItself_of_mem_normalized {F : FilePlatform} {docs : List Doc} {doc : Doc}
    (h : doc ∈ sortByOrder F (docs.map Doc.ensureDocId)) : NamesItself doc := by
  obtain ⟨given, -, rfl⟩ := List.mem_map.mp ((normalized_perm F docs).mem_iff.mp h)
  exact namesItself_ensureDocId given

/-- The keys of a normalized list are those of the file. -/
theorem map_metaId_normalized (F : FilePlatform) (docs : List Doc) :
    ((sortByOrder F (docs.map Doc.ensureDocId)).map Doc.metaId).Perm (docs.map Doc.metaId) := by
  have h := (normalized_perm F docs).map Doc.metaId
  rwa [List.map_map, show Doc.metaId ∘ Doc.ensureDocId = Doc.metaId from
    funext Doc.metaId_ensureDocId] at h

/-! ## From an entry to what is stored -/

/-- A document with what an entry holds of its own, which names itself. -/
def MadeFrom (doc entry : Doc) : Prop :=
  Doc.own doc = Doc.own entry ∧ NamesItself doc

theorem MadeFrom.ensureId {doc entry : Doc} (h : MadeFrom doc entry) :
    MadeFrom (ensureId doc) entry := by
  obtain ⟨-, hown, -, hnames⟩ := ensureId_spec doc
  exact ⟨hown.trans h.1, hnames h.2⟩

/-- A member of the document's place set: nothing else of it changes. -/
theorem MadeFrom.setField {doc entry : Doc} {key : Text} {value : Json} (h : MadeFrom doc entry)
    (hplace : key ∈ Doc.placeFields) (hid : key ≠ units "id") (hmeta : key ≠ units "meta") :
    MadeFrom (setField doc key value) entry := by
  refine ⟨(Doc.own_setField hplace).trans h.1, ?_⟩
  rw [NamesItself, Doc.metaId_setField hmeta, ← h.2, Doc.id, field_setField_of_ne hid, Doc.id]

theorem MadeFrom.removeField {doc entry : Doc} {key : Text} (h : MadeFrom doc entry)
    (hplace : key ∈ Doc.placeFields) (hid : key ≠ units "id") (hmeta : key ≠ units "meta") :
    MadeFrom (removeField doc key) entry := by
  refine ⟨(Doc.own_removeField hplace).trans h.1, ?_⟩
  rw [NamesItself, Doc.metaId_removeField hmeta, ← h.2, Doc.id, field_removeField_of_ne hid,
    Doc.id]

theorem MadeFrom.withLink {doc entry : Doc} {key : Text} {link : Option Json}
    (h : MadeFrom doc entry) (hplace : key ∈ Doc.placeFields) (hid : key ≠ units "id")
    (hmeta : key ≠ units "meta") : MadeFrom (withLink doc key link) entry := by
  cases link with
  | none => exact h.removeField hplace hid hmeta
  | some value => exact h.setField hplace hid hmeta

/-- A document under a new id is made from the one it was. -/
theorem madeFrom_renewed (doc : Doc) (id collectionId : Text) (now : Json) :
    MadeFrom (renewed doc id collectionId now) doc := by
  constructor
  · rw [renewed, Doc.own_touched, Doc.own_withCollectionId, Doc.own_withMetaId,
      Doc.own_setField (by decide)]
  · have hkey : Doc.metaId (renewed doc id collectionId now) = id := by
      rw [renewed, Doc.metaId_touched, Doc.metaId_withCollectionId, Doc.metaId_withMetaId]
    rw [NamesItself, hkey, Doc.id, renewed, Doc.touched, field_setField_of_ne (by decide),
      Doc.withCollectionId, field_setField_of_ne (by decide), Doc.withMetaId,
      field_setField_of_ne (by decide), field_setField_self]
    rfl

theorem metaId_renewed (doc : Doc) (id collectionId : Text) (now : Json) :
    Doc.metaId (renewed doc id collectionId now) = id := by
  rw [renewed, Doc.metaId_touched, Doc.metaId_withCollectionId, Doc.metaId_withMetaId]

/-! ## New ids -/

section Remap

variable {payload payload' : CollectionExport} {newId : Nat → Text} {now : Json}
  {idMap idRemap : OrderedMap Text Text}

/-- A folder with its new id. -/
theorem remapFolder_spec {collectionId : Text} {folder folder' : Doc}
    (h : remapFolder idMap collectionId now folder = some folder') :
    MadeFrom folder' folder ∧
      Doc.metaId folder' = (idMap.get? (givenId folder)).getD [] := by
  obtain ⟨parent, -, rfl⟩ := Option.map_eq_some_iff.mp h
  constructor
  · exact (madeFrom_renewed _ _ _ _).withLink (by decide) (by decide) (by decide)
  · rw [metaId_withLink (by decide), metaId_renewed]

/-- Requests with new ids: each is made from its own, under the id it was given. -/
theorem remapRequests_spec {collectionId : Text} {numbered : List (Doc × Text)}
    {requests : List Doc}
    (h : remapRequests collectionId now idMap numbered = some (requests, idRemap)) :
    List.Forall₂ MadeFrom requests (numbered.map Prod.fst) ∧
      requests.map Doc.metaId = numbered.map Prod.snd := by
  induction numbered generalizing idMap requests with
  | nil =>
      cases h
      exact ⟨List.Forall₂.nil, rfl⟩
  | cons entry rest ih =>
      obtain ⟨request, id⟩ := entry
      rw [remapRequests] at h
      split at h
      · next folder later all _ hrest =>
          cases h
          obtain ⟨hmade, hkeys⟩ := ih hrest
          constructor
          · exact List.Forall₂.cons
              ((madeFrom_renewed _ _ _ _).withLink (by decide) (by decide) (by decide)) hmade
          · rw [List.map_cons, List.map_cons, hkeys, metaId_withLink (by decide), metaId_renewed]
      · cases h

/-- A folder is given the new id of a place in the file where a folder of its id stands. -/
theorem get?_folderIds (newId : Nat → Text) {folder : Doc} (hfolder : folder ∈ payload.folders) :
    ∃ i, (payload.folders[i]?).map givenId = some (givenId folder) ∧
      (folderIds payload newId).get? (givenId folder) = some (newId (i + 1)) := by
  unfold folderIds
  rw [OrderedMap.get?_setAll]
  obtain ⟨i, hi⟩ := List.mem_iff_getElem?.mp hfolder
  have hsome : ((payload.folders.zipIdx.map fun entry =>
      (givenId entry.1, newId (entry.2 + 1))).reverse.find?
        fun e => e.1 = givenId folder).isSome := by
    rw [List.find?_isSome]
    refine ⟨(givenId folder, newId (i + 1)), ?_, by simp⟩
    rw [List.mem_reverse, List.mem_map]
    exact ⟨(folder, i), List.mk_mem_zipIdx_iff_getElem?.mpr hi, rfl⟩
  obtain ⟨pair, hpair⟩ := Option.isSome_iff_exists.mp hsome
  have hkey : pair.1 = givenId folder := by simpa using List.find?_some hpair
  obtain ⟨entry, hentry, rfl⟩ :=
    List.mem_map.mp (List.mem_reverse.mp (List.mem_of_find?_eq_some hpair))
  refine ⟨entry.2, ?_, ?_⟩
  · rw [List.mk_mem_zipIdx_iff_getElem?.mp hentry, ← hkey]
    rfl
  · rw [hpair]
    rfl

/-- Two folders get one new id exactly when they had one. -/
theorem folderIds_injOn (hnew : Function.Injective newId) {a b : Doc} (ha : a ∈ payload.folders)
    (hb : b ∈ payload.folders)
    (h : ((folderIds payload newId).get? (givenId a)).getD [] =
      ((folderIds payload newId).get? (givenId b)).getD []) : givenId a = givenId b := by
  obtain ⟨i, hi, hgeta⟩ := get?_folderIds newId ha
  obtain ⟨j, hj, hgetb⟩ := get?_folderIds newId hb
  rw [hgeta, hgetb] at h
  have hij : i = j := by simpa using hnew h
  rw [hij, hj] at hi
  exact (Option.some.inj hi).symm

/-- What giving new ids keeps, and the new keys. -/
theorem remapIdentifiers_spec
    (h : remapIdentifiers payload newId now = some (payload', idRemap)) :
    (Doc.own payload'.collection = Doc.own payload.collection ∧
        Doc.metaId payload'.collection = newId 0) ∧
      List.Forall₂ (fun folder' folder => MadeFrom folder' folder ∧ Doc.metaId folder' =
        ((folderIds payload newId).get? (givenId folder)).getD []) payload'.folders
          payload.folders ∧
      List.Forall₂ MadeFrom payload'.requests payload.requests ∧
      payload'.requests.map Doc.metaId =
        payload.requests.zipIdx.map fun entry => newId (entry.2 + payload.folders.length + 1) := by
  rw [remapIdentifiers] at h
  split at h
  · next folders requests all hfolders hrequests =>
      cases h
      obtain ⟨hmade, hkeys⟩ := remapRequests_spec hrequests
      rw [List.map_map] at hmade hkeys
      refine ⟨⟨?_, ?_⟩, ?_, ?_, hkeys⟩
      · rw [Doc.own_touched, Doc.own_withMetaId, Doc.own_setField (by decide)]
      · rw [Doc.metaId_touched, Doc.metaId_withMetaId]
      · exact List.Forall₂.flip
          ((mapM_eq_some_iff.mp hfolders).imp fun _ _ h => remapFolder_spec h)
      · have hfst : payload.requests.zipIdx.map (Prod.fst ∘ fun entry : Doc × Nat =>
            (entry.1, newId (entry.2 + payload.folders.length + 1))) = payload.requests := by
          exact List.zipIdx_map_fst 0 payload.requests
        rwa [hfst] at hmade
  · cases h

end Remap

/-! ## Entry by entry -/

/-- What is stored holds what its entry holds and, unless it was given a new one, its id. -/
def CameFrom (duplicate : Bool) (doc entry : Doc) : Prop :=
  Doc.own doc = Doc.own entry ∧ (duplicate = false → Doc.metaId doc = Doc.metaId entry)

theorem CameFrom.trans {duplicate : Bool} {a b c : Doc} (hab : CameFrom duplicate a b)
    (hbc : CameFrom duplicate b c) : CameFrom duplicate a c :=
  ⟨hab.1.trans hbc.1, fun h => (hab.2 h).trans (hbc.2 h)⟩

/-- Documents and entries, each with its own, in some order. -/
def Paired (duplicate : Bool) (docs entries : List Doc) : Prop :=
  ∃ order, docs.Perm order ∧ List.Forall₂ (CameFrom duplicate) order entries

theorem Paired.length_eq {duplicate : Bool} {docs entries : List Doc}
    (h : Paired duplicate docs entries) : docs.length = entries.length := by
  obtain ⟨order, hperm, hall⟩ := h
  rw [hperm.length_eq, hall.length_eq]

theorem Paired.of_perm {duplicate : Bool} {docs docs' entries : List Doc}
    (hperm : docs.Perm docs') (h : Paired duplicate docs' entries) :
    Paired duplicate docs entries := by
  obtain ⟨order, hperm', hall⟩ := h
  exact ⟨order, hperm.trans hperm', hall⟩

theorem Paired.of_forall₂ {duplicate : Bool} {docs entries : List Doc}
    (h : List.Forall₂ (CameFrom duplicate) docs entries) : Paired duplicate docs entries :=
  ⟨docs, List.Perm.refl _, h⟩

theorem Paired.perm_right {duplicate : Bool} {docs entries entries' : List Doc}
    (h : Paired duplicate docs entries) (hperm : entries.Perm entries') :
    Paired duplicate docs entries' := by
  obtain ⟨order, hperm', hall⟩ := h
  have hcomp : Relation.Comp (List.Forall₂ (CameFrom duplicate)) List.Perm order entries' :=
    ⟨entries, hall, hperm⟩
  rw [List.forall₂_comp_perm_eq_perm_comp_forall₂] at hcomp
  obtain ⟨order', hperm'', hall'⟩ := hcomp
  exact ⟨order', hperm'.trans hperm'', hall'⟩

/-- A function that leaves each document its own fields and its key. -/
theorem forall₂_cameFrom_map {duplicate : Bool} {docs : List Doc} (f : Doc → Doc)
    (hown : ∀ doc ∈ docs, Doc.own (f doc) = Doc.own doc)
    (hkey : ∀ doc ∈ docs, Doc.metaId (f doc) = Doc.metaId doc) :
    List.Forall₂ (CameFrom duplicate) (docs.map f) docs := by
  rw [List.forall₂_map_left_iff, List.forall₂_same]
  exact fun doc hdoc => ⟨hown doc hdoc, fun _ => hkey doc hdoc⟩

/-- A normalized list and the list of the file. -/
theorem paired_normalized (F : FilePlatform) (duplicate : Bool) (docs : List Doc) :
    Paired duplicate (sortByOrder F (docs.map Doc.ensureDocId)) docs :=
  Paired.of_perm (normalized_perm F docs) (Paired.of_forall₂
    (forall₂_cameFrom_map Doc.ensureDocId (fun doc _ => Doc.own_ensureDocId doc)
      fun doc _ => Doc.metaId_ensureDocId doc))

theorem Paired.trans {duplicate : Bool} {docs middle entries : List Doc}
    (h : Paired duplicate docs middle) (h' : Paired duplicate middle entries) :
    Paired duplicate docs entries := by
  obtain ⟨order, hperm, hall⟩ := h'
  obtain ⟨order', hperm', hall'⟩ := h.perm_right hperm
  refine ⟨order', hperm', ?_⟩
  clear hperm hperm' h
  induction hall' generalizing entries with
  | nil =>
      cases hall
      exact List.Forall₂.nil
  | cons hab _ ih =>
      cases hall with
      | cons hbc hrest => exact List.Forall₂.cons (hab.trans hbc) (ih hrest)

/-! ## What an import hands over -/

/-- The ids of a file that have to be distinct: the folders' and, unless each request is given a new
one, the requests'. -/
def DistinctIds (duplicate : Bool) (checked : CollectionExport) : Prop :=
  (checked.folders.map Doc.metaId).Nodup ∧
    (duplicate = true ∨ (checked.requests.map Doc.metaId).Nodup)

/-- Documents that go with the entries of a file, and name themselves. -/
structure HandedOver (duplicate : Bool) (docs entries : List Doc) : Prop where
  paired : Paired duplicate docs entries
  named : ∀ doc ∈ docs, NamesItself doc

/-- A normalized list is handed over. -/
theorem handedOver_normalized (F : FilePlatform) (duplicate : Bool) (docs : List Doc) :
    HandedOver duplicate (sortByOrder F (docs.map Doc.ensureDocId)) docs :=
  ⟨paired_normalized F duplicate docs, fun _ => namesItself_of_mem_normalized⟩

/-- Documents made from a normalized list are handed over, their keys new. -/
theorem handedOver_madeFrom {F : FilePlatform} {made docs : List Doc}
    (h : List.Forall₂ MadeFrom made (sortByOrder F (docs.map Doc.ensureDocId))) :
    HandedOver true made docs := by
  constructor
  · refine Paired.trans (Paired.of_forall₂ (h.imp fun _ _ hmade => ?_))
      (paired_normalized F true docs)
    exact ⟨hmade.1, fun hfalse => absurd hfalse (by decide)⟩
  · intro doc hdoc
    obtain ⟨_, -, hmade⟩ := mem_of_forall₂_left h hdoc
    exact hmade.2

section Payload

variable {F : FilePlatform} {newId : Nat → Text} {now : Json} {duplicate : Bool}
  {checked : CollectionExport} {result : CollectionImportResult}

/-- What an import is given to store, document by document. -/
structure PayloadOf (duplicate : Bool) (newId : Nat → Text) (checked payload : CollectionExport) :
    Prop where
  collection : Doc.own payload.collection = Doc.own checked.collection
  collectionKey : Doc.metaId payload.collection =
    if duplicate then newId 0 else Doc.metaId checked.collection
  folders : HandedOver duplicate payload.folders checked.folders
  requests : HandedOver duplicate payload.requests checked.requests
  folderKeys : (payload.folders.map Doc.metaId).Nodup ↔ (checked.folders.map Doc.metaId).Nodup
  requestKeys : (payload.requests.map Doc.metaId).Nodup ↔
    duplicate = true ∨ (checked.requests.map Doc.metaId).Nodup

/-- The keys under new ids are the old ones, renamed. -/
theorem map_metaId_remapped (rename : Text → Text) {folders' folders : List Doc}
    (hnames : ∀ doc ∈ folders, NamesItself doc)
    (h : List.Forall₂ (fun folder' folder => MadeFrom folder' folder ∧
      Doc.metaId folder' = rename (givenId folder)) folders' folders) :
    folders'.map Doc.metaId = (folders.map Doc.metaId).map rename := by
  induction h with
  | nil => rfl
  | @cons folder' folder _ _ hhead _ ih =>
      have hgiven := givenId_of_namesItself (hnames folder (by simp))
      rw [List.map_cons, List.map_cons, List.map_cons,
        ih fun doc hdoc => hnames doc (by simp [hdoc]), hhead.2, hgiven]

theorem importPayload_spec (hnew : duplicate = true → Function.Injective newId)
    (h : importPayload F newId now duplicate checked = some result) :
    PayloadOf duplicate newId checked result.payload ∧
      result.folderCount = result.payload.folders.length ∧
      result.requestCount = result.payload.requests.length := by
  rw [importPayload] at h
  cases duplicate with
  | false =>
      cases h
      refine ⟨⟨Doc.own_ensureDocId _, Doc.metaId_ensureDocId _, handedOver_normalized F _ _,
        handedOver_normalized F _ _, (map_metaId_normalized F _).nodup_iff,
        (map_metaId_normalized F _).nodup_iff.trans ?_⟩, rfl, rfl⟩
      simp
  | true =>
      obtain ⟨⟨payload, idRemap⟩, hremap, rfl⟩ := Option.map_eq_some_iff.mp h
      obtain ⟨⟨hown, hkey⟩, hfolders, hrequests, hkeys⟩ := remapIdentifiers_spec hremap
      have hnames : ∀ doc ∈ (normalizeExport F checked).folders, NamesItself doc :=
        fun _ => namesItself_of_mem_normalized
      refine ⟨⟨hown.trans (Doc.own_ensureDocId _), hkey,
        handedOver_madeFrom (hfolders.imp fun _ _ hmade => hmade.1),
        handedOver_madeFrom hrequests, ?_, ?_⟩, rfl, rfl⟩
      · rw [map_metaId_remapped
          (fun id => ((folderIds (normalizeExport F checked) newId).get? id).getD [])
          hnames hfolders]
        refine Iff.trans ?_ (map_metaId_normalized F checked.folders).nodup_iff
        refine ⟨fun hnodup => hnodup.of_map, fun hnodup => hnodup.map_on ?_⟩
        -- Each id was given one of its own.
        intro a ha b hb hab
        obtain ⟨doc, hdoc, rfl⟩ := List.mem_map.mp ha
        obtain ⟨doc', hdoc', rfl⟩ := List.mem_map.mp hb
        rw [← givenId_of_namesItself (hnames doc hdoc),
          ← givenId_of_namesItself (hnames doc' hdoc')] at hab ⊢
        exact folderIds_injOn (hnew rfl) hdoc hdoc' hab
      · refine ⟨fun _ => Or.inl rfl, fun _ => ?_⟩
        have hsplit : (normalizeExport F checked).requests.zipIdx.map (fun entry =>
            newId (entry.2 + (normalizeExport F checked).folders.length + 1)) =
            ((normalizeExport F checked).requests.zipIdx.map Prod.snd).map fun i =>
              newId (i + (normalizeExport F checked).folders.length + 1) := by
          rw [List.map_map]
          rfl
        rw [hkeys, hsplit, List.zipIdx_map_snd]
        apply (List.nodup_range' 1).map
        intro i j hij
        have := hnew rfl hij
        omega

end Payload

/-! ## What is stored -/

/-- The ids an import is given are new: no two are one, and nothing stored has or names one. -/
structure FreshIds (newId : Nat → Text) (stores : CollectionStores) : Prop where
  injective : Function.Injective newId
  nonblank : ∀ i, newId i ≠ []
  keys : ∀ folder ∈ stores.folders, ∀ i, Doc.metaId folder ≠ newId i
  folders : ∀ folder ∈ stores.folders, ∀ i, Doc.collectionId folder ≠ newId i
  requests : ∀ request ∈ stores.requests, ∀ i, Doc.collectionId request ≠ newId i

/-- A required text is not blank. -/
theorem validateRequiredString_eq_nil {value : Option Json} {path : Text}
    (h : validateRequiredString value path = []) : ∃ t, value = some (.string t) ∧ trim t ≠ [] := by
  unfold validateRequiredString at h
  split at h
  · next t =>
      split_ifs at h with hblank
      exact ⟨t, rfl, hblank⟩
  · cases h

/-- A checked document has a key, and it is not blank. -/
theorem metaId_of_validateBase {doc : Fields} {path : Text} {withCollection : Bool}
    (h : validateBase (some (.object doc)) path withCollection = []) :
    field (Doc.metaFields doc) (units "id") = some (.string (Doc.metaId doc)) ∧
      Doc.metaId doc ≠ [] := by
  simp only [validateBase, List.append_eq_nil_iff] at h
  obtain ⟨⟨⟨⟨hmeta, -⟩, -⟩, -⟩, -⟩ := h
  have hread : prop (some (.object doc)) (units "meta") = field doc (units "meta") := rfl
  rw [hread] at hmeta
  have hid : validateRequiredString (field (Doc.metaFields doc) (units "id"))
      (Checker.member (Checker.member path (units "meta")) (units "id")) = [] := by
    unfold validateMeta at hmeta
    unfold Doc.metaFields
    split at hmeta
    · next m hm =>
        rw [hm]
        simp only [List.append_eq_nil_iff] at hmeta
        exact hmeta.1.1
    · next hm =>
        rw [hm]
        simp only [List.append_eq_nil_iff] at hmeta
        exact hmeta.1.1
    · cases hmeta
  obtain ⟨t, ht, hblank⟩ := validateRequiredString_eq_nil hid
  have hkey : Doc.metaId doc = t := by
    rw [Doc.metaId, ht]
    rfl
  refine ⟨by rw [ht, hkey], ?_⟩
  rw [hkey]
  rintro rfl
  exact hblank rfl

/-- The documents of an accepted file. -/
theorem checked_of_validateCollection {F : FilePlatform} {input : Option Json}
    {checked : CollectionExport} (h : validateCollection F input = .ok checked) :
    ∃ members, input = some (.object members) ∧ payloadIssues F members = [] ∧
      checked = readExport members := by
  unfold validateCollection at h
  dsimp only at h
  split at h
  · next members =>
      split_ifs at h with hformat
      split at h
      · next hissues =>
          cases h
          exact ⟨members, rfl, hissues, rfl⟩
      · cases h
  · rw [if_neg (by decide)] at h
    cases h
  · cases h

/-- The collection of an accepted file has a key. -/
theorem metaId_of_checked {F : FilePlatform} {input : Option Json} {checked : CollectionExport}
    (h : validateCollection F input = .ok checked) : Doc.metaId checked.collection ≠ [] := by
  obtain ⟨members, -, hissues, rfl⟩ := checked_of_validateCollection h
  simp only [payloadIssues, List.append_eq_nil_iff] at hissues
  obtain ⟨⟨⟨hcollection, -⟩, -⟩, -⟩ := hissues
  unfold validateBlock at hcollection
  split_ifs at hcollection with htruthy
  cases hfield : field members (units "collection") with
  | none =>
      rw [hfield] at htruthy
      cases htruthy
  | some value =>
      rw [hfield] at hcollection
      simp only [validateCollectionDoc, List.append_eq_nil_iff] at hcollection
      obtain ⟨⟨⟨hbase, -⟩, -⟩, hinherited⟩ := hcollection
      cases value with
      | object doc =>
          simp only [readExport, hfield]
          exact (metaId_of_validateBase hbase).2
      | _ => cases hinherited

/-- A payload whose collection has a key is stored under it. -/
theorem importId_eq {payload : CollectionExport} (hkey : Doc.metaId payload.collection ≠ []) :
    textOf (orElse (field (Doc.metaFields payload.collection) (units "id"))
      (field (ensureId payload.collection) (units "id"))) =
      some (Doc.metaId payload.collection) := by
  have hread := hkey
  unfold Doc.metaId at hread ⊢
  cases hfield : field (Doc.metaFields payload.collection) (units "id") with
  | none =>
      rw [hfield] at hread
      exact absurd rfl hread
  | some value =>
      rw [hfield] at hread
      cases value with
      | string t => rfl
      | _ => exact absurd rfl hread

/-- An import of a payload whose collection has a key is stored under that key. -/
theorem importCollectionExport_eq (stores : CollectionStores) {payload : CollectionExport}
    (duplicate : Bool) (hkey : Doc.metaId payload.collection ≠ []) :
    ∃ replaced, stores.importCollectionExport payload duplicate =
      some (
        let cleared := if duplicate then stores
          else (stores.deleteCollection (Doc.metaId payload.collection)).1
        { collections := cleared.collections.put (setField (ensureId payload.collection)
            (units "scriptTrust") (.object [(units "trusted", .bool false)]))
          folders := cleared.folders.putAll ((payload.folders.map ensureId).map fun folder =>
            ensureId (Doc.withCollectionId folder (Doc.metaId payload.collection)))
          requests := cleared.requests.putAll ((payload.requests.map ensureId).map
            (CollectionStores.importedRequest (payload.folders.map ensureId)
              (Doc.metaId payload.collection))) }, replaced) := by
  unfold CollectionStores.importCollectionExport
  dsimp only
  rw [importId_eq hkey]
  cases hcase : Doc.metaId payload.collection with
  | nil => exact absurd hcase hkey
  | cons c rest => exact ⟨_, rfl⟩

/-- What storing does to a document: it keeps its own fields, its key and its name, and is of the
collection. -/
structure StoresAs (collectionId : Text) (store : Doc → Doc) (doc : Doc) : Prop where
  own : Doc.own (store doc) = Doc.own doc
  key : Doc.metaId (store doc) = Doc.metaId doc
  collection : Doc.collectionId (store doc) = collectionId
  named : NamesItself doc → NamesItself (store doc)

theorem storesAs_folder (c : Text) (folder : Doc) :
    StoresAs c (fun folder => ensureId (Doc.withCollectionId (ensureId folder) c)) folder := by
  obtain ⟨hkey, hown, -, hnamed⟩ := ensureId_spec folder
  obtain ⟨hkey', hown', hcollection, -⟩ :=
    ensureId_spec (Doc.withCollectionId (ensureId folder) c)
  refine ⟨?_, ?_, ?_, fun hnames => ?_⟩
  · rw [hown', Doc.own_withCollectionId, hown]
  · rw [hkey', Doc.metaId_withCollectionId, hkey]
  · rw [hcollection, Doc.collectionId_withCollectionId]
  · have hmade : MadeFrom (ensureId folder) folder := ⟨hown, hnamed hnames⟩
    exact (hmade.setField (by decide) (by decide) (by decide)).ensureId.2

theorem storesAs_request (folders : List Doc) (c : Text) (request : Doc) :
    StoresAs c (fun request => CollectionStores.importedRequest folders c (ensureId request))
      request := by
  obtain ⟨hkey, hown, -, hnamed⟩ := ensureId_spec request
  have hmade : NamesItself request →
      MadeFrom (Doc.withCollectionId (ensureId request) c) (ensureId request) :=
    fun hnames => MadeFrom.setField ⟨rfl, hnamed hnames⟩ (by decide) (by decide) (by decide)
  unfold CollectionStores.importedRequest
  dsimp only
  refine ⟨?_, ?_, ?_, fun hnames => ?_⟩
  · split_ifs
    · rw [(ensureId_spec _).2.1, Doc.own_removeField (by decide), Doc.own_withCollectionId, hown]
    · rw [(ensureId_spec _).2.1, Doc.own_withCollectionId, hown]
  · split_ifs
    · rw [(ensureId_spec _).1, Doc.metaId_removeField (by decide), Doc.metaId_withCollectionId,
        hkey]
    · rw [(ensureId_spec _).1, Doc.metaId_withCollectionId, hkey]
  · split_ifs
    · rw [(ensureId_spec _).2.2.1, Doc.collectionId, field_removeField_of_ne (by decide)]
      exact Doc.collectionId_withCollectionId _ c
    · rw [(ensureId_spec _).2.2.1, Doc.collectionId_withCollectionId]
  · split_ifs
    · exact ((hmade hnames).removeField (by decide) (by decide) (by decide)).ensureId.2
    · exact (hmade hnames).ensureId.2

/-- Documents stored in a table that has none of their collection: as many of the collection are
there as they have keys, and with keys of their own each is there with what its entry holds. -/
theorem stored_docs {table : DocTable} {c : Text} {duplicate : Bool} {docs entries : List Doc}
    {store : Doc → Doc} (hstore : ∀ doc ∈ docs, StoresAs c store doc)
    (hnone : ∀ doc ∈ table, Doc.collectionId doc ≠ c)
    (hdocs : HandedOver duplicate docs entries) :
    (CollectionStores.ofCollection (table.putAll (docs.map store)) c).length =
        (docs.map Doc.metaId).dedup.length ∧
      ((docs.map Doc.metaId).Nodup →
        Paired duplicate (CollectionStores.ofCollection (table.putAll (docs.map store)) c) entries ∧
          ((CollectionStores.ofCollection (table.putAll (docs.map store)) c).map
            Doc.id).Nodup) := by
  have hkeys : (docs.map store).map Doc.metaId = docs.map Doc.metaId := by
    rw [List.map_map]
    exact List.map_congr_left fun doc hdoc => (hstore doc hdoc).key
  have hof : ∀ doc ∈ docs.map store, decide (Doc.collectionId doc = c) = true := by
    intro stored hstored
    obtain ⟨doc, hdoc, rfl⟩ := List.mem_map.mp hstored
    exact decide_eq_true (hstore doc hdoc).collection
  have hother : ∀ doc ∈ table, decide (Doc.collectionId doc = c) = true →
      Doc.metaId doc ∈ (docs.map store).map Doc.metaId :=
    fun doc hdoc hc => absurd (of_decide_eq_true hc) (hnone doc hdoc)
  constructor
  · rw [CollectionStores.ofCollection, Table.length_getAll_putAll hof hother, hkeys]
  · intro hnodup
    have hperm : (CollectionStores.ofCollection (table.putAll (docs.map store)) c).Perm
        (docs.map store) :=
      Table.perm_getAll_putAll hof hother (hkeys ▸ hnodup)
    constructor
    · refine Paired.of_perm hperm (Paired.trans (Paired.of_forall₂ ?_) hdocs.paired)
      exact forall₂_cameFrom_map store (fun doc hdoc => (hstore doc hdoc).own)
        fun doc hdoc => (hstore doc hdoc).key
    · -- A stored document's id is its key.
      have hids : (docs.map store).map Doc.id = (docs.map Doc.metaId).map some := by
        rw [List.map_map, List.map_map]
        refine List.map_congr_left fun doc hdoc => ?_
        have hnamed := (hstore doc hdoc).named (hdocs.named doc hdoc)
        rw [NamesItself, (hstore doc hdoc).key] at hnamed
        exact hnamed
      rw [(hperm.map Doc.id).nodup_iff, hids]
      exact hnodup.map (Option.some_injective _)

/-- An import that stored what it announced: the collection, and as many folders and requests of it
as were counted, under ids of their own, each with what the file's entry holds. -/
structure StoredAsAnnounced (duplicate : Bool) (checked : CollectionExport)
    (result : CollectionImportResult) (stores : CollectionStores) : Prop where
  collection : ∃ doc, stores.collections.get? (Doc.metaId result.payload.collection) = some doc ∧
    Doc.own doc = Doc.own checked.collection
  folderCount : (CollectionStores.ofCollection stores.folders
    (Doc.metaId result.payload.collection)).length = result.folderCount
  requestCount : (CollectionStores.ofCollection stores.requests
    (Doc.metaId result.payload.collection)).length = result.requestCount
  folderIds : ((CollectionStores.ofCollection stores.folders
    (Doc.metaId result.payload.collection)).map Doc.id).Nodup
  requestIds : ((CollectionStores.ofCollection stores.requests
    (Doc.metaId result.payload.collection)).map Doc.id).Nodup
  folders : Paired duplicate (CollectionStores.ofCollection stores.folders
    (Doc.metaId result.payload.collection)) checked.folders
  requests : Paired duplicate (CollectionStores.ofCollection stores.requests
    (Doc.metaId result.payload.collection)) checked.requests

/-- Nothing of a collection is left once it was deleted. -/
theorem collectionId_ne_of_mem_cleared {stores : CollectionStores} {c : Text} :
    (∀ folder ∈ (stores.deleteCollection c).1.folders, Doc.collectionId folder ≠ c) ∧
      ∀ request ∈ (stores.deleteCollection c).1.requests, Doc.collectionId request ≠ c := by
  have hgone : ∀ (table : DocTable) (doc : Doc),
      doc ∈ table.deleteAll ((CollectionStores.ofCollection table c).map Doc.metaId) →
        Doc.collectionId doc ≠ c := by
    intro table doc hdoc hc
    obtain ⟨hmem, hkey⟩ := Table.mem_deleteAll.mp hdoc
    exact hkey (List.mem_map_of_mem (Table.mem_getAll.mpr ⟨hmem, decide_eq_true hc⟩))
  exact ⟨fun folder => hgone _ folder, fun request => hgone _ request⟩

/-- A list is as long as its distinct members exactly when they are distinct. -/
theorem length_dedup_eq_iff {l : List Text} : l.dedup.length = l.length ↔ l.Nodup := by
  constructor
  · intro h
    rw [← (List.dedup_sublist l).eq_of_length h]
    exact List.nodup_dedup l
  · intro h
    rw [h.dedup]

/-- Where an import stores: nothing of its collection is there. -/
theorem collectionId_ne_of_mem_target {newId : Nat → Text} {duplicate : Bool}
    {stores : CollectionStores} {c : Text} (hfresh : duplicate = true → FreshIds newId stores)
    (hc : duplicate = true → c = newId 0) :
    (∀ folder ∈ (if duplicate then stores else (stores.deleteCollection c).1).folders,
        Doc.collectionId folder ≠ c) ∧
      ∀ request ∈ (if duplicate then stores else (stores.deleteCollection c).1).requests,
        Doc.collectionId request ≠ c := by
  cases duplicate with
  | false => exact collectionId_ne_of_mem_cleared
  | true =>
      rw [hc rfl]
      exact ⟨fun folder hfolder => (hfresh rfl).folders folder hfolder 0,
        fun request hrequest => (hfresh rfl).requests request hrequest 0⟩

/-- After any accepted file was stored over any stores, under its own ids or new ones, what is
stored is what was announced exactly when the ids that have to be distinct are. -/
theorem import_announced_iff {F : FilePlatform} {newId : Nat → Text} {now : Json}
    {duplicate : Bool} {input : Option Json} {checked : CollectionExport}
    {result : CollectionImportResult} {stores : CollectionStores}
    (hchecked : validateCollection F input = .ok checked)
    (hresult : importPayload F newId now duplicate checked = some result)
    (hfresh : duplicate = true → FreshIds newId stores) :
    ∃ stores' replaced,
      stores.importCollectionExport result.payload duplicate = some (stores', replaced) ∧
        (StoredAsAnnounced duplicate checked result stores' ↔ DistinctIds duplicate checked) := by
  obtain ⟨hpayload, hfolderCount, hrequestCount⟩ :=
    importPayload_spec (fun h => (hfresh h).injective) hresult
  have hnew : duplicate = true → Doc.metaId result.payload.collection = newId 0 := by
    intro h
    rw [hpayload.collectionKey, if_pos h]
  -- A copy has a new id, another import the checked one: neither is blank.
  have hkey : Doc.metaId result.payload.collection ≠ [] := by
    rw [hpayload.collectionKey]
    split_ifs with h
    · exact (hfresh h).nonblank 0
    · exact metaId_of_checked hchecked
  obtain ⟨replaced, hstored⟩ := importCollectionExport_eq stores duplicate hkey
  obtain ⟨hfolderNone, hrequestNone⟩ := collectionId_ne_of_mem_target hfresh hnew
  obtain ⟨hfolderLength, hfolderDocs⟩ := stored_docs
    (fun doc _ => storesAs_folder (Doc.metaId result.payload.collection) doc) hfolderNone
    hpayload.folders
  obtain ⟨hrequestLength, hrequestDocs⟩ := stored_docs
    (fun doc _ => storesAs_request (result.payload.folders.map ensureId)
      (Doc.metaId result.payload.collection) doc) hrequestNone hpayload.requests
  refine ⟨_, replaced, hstored, ?_⟩
  dsimp only
  rw [List.map_map, List.map_map]
  constructor
  · intro h
    constructor
    · -- As many are stored as ids differ, so the counts agree only where all do.
      rw [← hpayload.folderKeys, ← length_dedup_eq_iff, List.length_map, ← hfolderCount]
      exact hfolderLength.symm.trans h.folderCount
    · rw [← hpayload.requestKeys, ← length_dedup_eq_iff, List.length_map, ← hrequestCount]
      exact hrequestLength.symm.trans h.requestCount
  · rintro ⟨hfolders, hrequests⟩
    rw [← hpayload.folderKeys] at hfolders
    rw [← hpayload.requestKeys] at hrequests
    obtain ⟨hfolderPaired, hfolderIds⟩ := hfolderDocs hfolders
    obtain ⟨hrequestPaired, hrequestIds⟩ := hrequestDocs hrequests
    refine ⟨?_, ?_, ?_, hfolderIds, hrequestIds, hfolderPaired, hrequestPaired⟩
    · refine ⟨_, Table.get?_eq_some_iff.mpr ⟨Table.mem_put.mpr (Or.inl rfl), ?_⟩, ?_⟩
      · rw [Doc.metaId_setField (by decide), (ensureId_spec _).1]
      · rw [Doc.own_setField (by decide), (ensureId_spec _).2.1, hpayload.collection]
    · rw [hfolderCount]
      exact hfolderPaired.length_eq.trans hpayload.folders.paired.length_eq.symm
    · rw [hrequestCount]
      exact hrequestPaired.length_eq.trans hpayload.requests.paired.length_eq.symm

/-! ## Two folders of one id -/

/-- A page that compares texts of plain letters. -/
def plainFiles : FilePlatform where
  platform := oneAddressPlatform
  localeCompare a b := if a = b then .eq else if a < b then .lt else .gt
  numberOf _ := none

/-- A folder as a file has it. -/
def fileFolder (id name : Text) : Json :=
  let zero : Json := .number ⟨units "0", JsonNumber.marks_zero⟩
  .object [(units "meta", .object [(units "id", .string id), (units "createdAt", zero),
      (units "updatedAt", zero)]),
    (units "collectionId", .string (units "c")), (units "name", .string name),
    (units "order", zero), (units "variables", .array []),
    (units "auth", .object [(units "type", .string (units "inherit"))]),
    (units "scripts", .object [(units "pre", .string []), (units "post", .string [])])]

/-- A file of a collection and two folders. -/
def folderFile (first second : Text) : Json :=
  let zero : Json := .number ⟨units "0", JsonNumber.marks_zero⟩
  let noted : Json := .object [(units "id", .string (units "c")), (units "createdAt", zero),
    (units "updatedAt", zero)]
  .object [(units "$id", .string collectionFormat), (units "meta", noted),
    (units "collection", .object [(units "meta", noted), (units "name", .string (units "C")),
      (units "order", zero), (units "variables", .array []),
      (units "auth", .object [(units "type", .string (units "none"))]),
      (units "scripts", .object [(units "pre", .string []), (units "post", .string [])])]),
    (units "folders", .array [fileFolder first (units "A"), fileFolder second (units "B")]),
    (units "requests", .array [])]

/-- Ids of one letter, each longer than the one before. -/
def letterId (i : Nat) : Text :=
  List.replicate (i + 1) 0x6E

theorem letterId_injective : Function.Injective letterId := by
  intro i j hij
  have hlength := congrArg List.length hij
  rw [letterId, letterId, List.length_replicate, List.length_replicate] at hlength
  omega

/-- A file checked, made ready and stored over nothing. -/
def importOverNothing (duplicate : Bool) (input : Json) :
    Option (CollectionExport × CollectionImportResult × CollectionStores) :=
  match validateCollection plainFiles (some input) with
  | .error _ => none
  | .ok checked =>
      (importPayload plainFiles letterId .null duplicate checked).bind fun result =>
        (CollectionStores.importCollectionExport {} result.payload duplicate).map fun stored =>
          (checked, result, stored.1)

/-- What such an import was made of. -/
theorem importOverNothing_spec {duplicate : Bool} {input : Json}
    {p : CollectionExport × CollectionImportResult × CollectionStores → Bool}
    (h : (importOverNothing duplicate input).any p = true) :
    ∃ checked result stores replaced,
      validateCollection plainFiles (some input) = .ok checked ∧
        importPayload plainFiles letterId .null duplicate checked = some result ∧
        CollectionStores.importCollectionExport {} result.payload duplicate =
          some (stores, replaced) ∧
        p (checked, result, stores) = true := by
  unfold importOverNothing at h
  split at h
  · cases h
  · next checked hchecked =>
      cases hresult : importPayload plainFiles letterId .null duplicate checked with
      | none =>
          rw [hresult] at h
          cases h
      | some result =>
          rw [hresult, Option.bind_some] at h
          cases hstored : CollectionStores.importCollectionExport {} result.payload duplicate with
          | none =>
              rw [hstored] at h
              cases h
          | some stored =>
              rw [hstored] at h
              exact ⟨checked, result, stored.1, stored.2, hchecked, hresult, hstored, h⟩

/-- An id that begins with another letter is none of them. -/
theorem ne_letterId {id : Text} (h : id.head? ≠ some 0x6E) (i : Nat) : id ≠ letterId i := by
  rintro rfl
  exact h rfl

/-- Two folders with ids of their own are imported, and once more as a copy beside them. The copy is
stored as it is announced. -/
theorem twoFolders_announced : ∃ checked result stores stores' replaced,
    validateCollection plainFiles (some (folderFile (units "f") (units "g"))) = .ok checked ∧
      importPayload plainFiles letterId .null true checked = some result ∧
      stores.folders.rows.length = 2 ∧
      CollectionStores.importCollectionExport stores result.payload true =
        some (stores', replaced) ∧
      StoredAsAnnounced true checked result stores' := by
  have hfirst : (importOverNothing false (folderFile (units "f") (units "g"))).any
      (fun imported => imported.2.2.folders.rows.length = 2 ∧
        (∀ folder ∈ imported.2.2.folders.rows, (Doc.metaId folder).head? ≠ some 0x6E ∧
          (Doc.collectionId folder).head? ≠ some 0x6E) ∧
        imported.2.2.requests.rows.isEmpty) = true := by
    decide +kernel
  have hcopy : (importOverNothing true (folderFile (units "f") (units "g"))).any
      (fun imported => (imported.1.folders.map Doc.metaId).Nodup) = true := by
    decide +kernel
  obtain ⟨_, _, stores, _, -, -, -, hfacts⟩ := importOverNothing_spec hfirst
  obtain ⟨hlength, hheads, hnone⟩ := of_decide_eq_true hfacts
  obtain ⟨checked, result, _, _, hchecked, hresult, -, hdistinct⟩ := importOverNothing_spec hcopy
  have hfresh : FreshIds letterId stores := by
    refine ⟨letterId_injective, fun _ => List.cons_ne_nil _ _, ?_, ?_, ?_⟩
    · exact fun folder hfolder => ne_letterId (hheads folder hfolder).1
    · exact fun folder hfolder => ne_letterId (hheads folder hfolder).2
    · intro request hrequest
      have hmem : request ∈ stores.requests.rows := hrequest
      rw [List.isEmpty_iff.mp hnone] at hmem
      cases hmem
  obtain ⟨stores', replaced, hstored, hiff⟩ :=
    import_announced_iff hchecked hresult fun _ => hfresh
  exact ⟨checked, result, stores, stores', replaced, hchecked, hresult, hlength, hstored,
    hiff.mpr ⟨of_decide_eq_true hdistinct, Or.inl rfl⟩⟩

/-- Of two folders of one id one is stored, where two were announced. -/
theorem sameFolders_lost : ∃ checked result stores replaced,
    validateCollection plainFiles (some (folderFile (units "f") (units "f"))) = .ok checked ∧
      importPayload plainFiles letterId .null false checked = some result ∧
      CollectionStores.importCollectionExport {} result.payload false = some (stores, replaced) ∧
      ¬ StoredAsAnnounced false checked result stores := by
  have himport : (importOverNothing false (folderFile (units "f") (units "f"))).any (fun imported =>
      imported.2.2.folders.rows.length = 1 ∧ imported.2.1.folderCount = 2) = true := by
    decide +kernel
  obtain ⟨checked, result, stores, replaced, hchecked, hresult, hstored, hcounts⟩ :=
    importOverNothing_spec himport
  obtain ⟨hrows, hcount⟩ := of_decide_eq_true hcounts
  refine ⟨checked, result, stores, replaced, hchecked, hresult, hstored, fun h => ?_⟩
  have hmost : (CollectionStores.ofCollection stores.folders
      (Doc.metaId result.payload.collection)).length ≤ 1 :=
    hrows ▸ List.length_filter_le _ _
  rw [h.folderCount, hcount] at hmost
  omega

end Wayfarer
