import Wayfarer.Store.FileRuns

/-!
# Importing as a copy

A file that is imported as a copy gets new ids, and every link is put to the new id of what it
named. `IsCopy` says what that should give: a tree of the same shape under ids of its own.

The ids of folders and requests are looked up in one map, and a request's own id is put into it
before its folder is looked up. `importedCopy_iff` says for which files the copy is one.
-/

set_option autoImplicit false

namespace Wayfarer

open Library

/-! ## What a copy is -/

/-- A document says that it is in a folder. -/
def NamesFolder (key : Text) (doc folder : Doc) : Prop :=
  field doc key = some (.string (Doc.metaId folder))

/-- A document's copy: nothing else of it has changed than its id, its collection, its place and
when it was changed; and what was at the top level is there still. -/
structure Copied (collectionId key : Text) (copy doc : Doc) : Prop where
  fields : ∀ name, name ∉ [units "id", units "meta", units "collectionId", key] →
    field copy name = field doc name
  noted : ∀ name, name ∉ [units "id", units "updatedAt"] →
    field (Doc.metaFields copy) name = field (Doc.metaFields doc) name
  named : NamesItself copy
  collection : Doc.collectionId copy = collectionId
  top : truthy (field doc key) = false → field copy key = field doc key

/-- The ids of a file. -/
def keysOf (file : CollectionExport) : List Text :=
  Doc.metaId file.collection :: (file.folders.map Doc.metaId ++ file.requests.map Doc.metaId)

/-- Documents are in the copies of the folders they were in, and in no others. -/
def SameParents (key : Text) (copies docs folders' folders : List Doc) : Prop :=
  ∀ d ∈ copies.zip docs, ∀ f ∈ folders'.zip folders,
    NamesFolder key d.1 f.1 ↔ NamesFolder key d.2 f.2

/-- The copy of a file: `file` is what was checked, put in one order under one identity. -/
structure IsCopy (checked file copy : CollectionExport) : Prop where
  allFolders : file.folders.Perm (checked.folders.map Doc.ensureDocId)
  allRequests : file.requests.Perm (checked.requests.map Doc.ensureDocId)
  collection : ∀ name, name ∉ [units "id", units "meta"] →
    field copy.collection name = field checked.collection name
  noted : ∀ name, name ∉ [units "id", units "updatedAt"] →
    field (Doc.metaFields copy.collection) name = field (Doc.metaFields checked.collection) name
  named : NamesItself copy.collection
  folders : List.Forall₂ (Copied (Doc.metaId copy.collection) (units "parentFolderId"))
    copy.folders file.folders
  requests : List.Forall₂ (Copied (Doc.metaId copy.collection) (units "folderId"))
    copy.requests file.requests
  distinct : (keysOf copy).Nodup
  fresh : ∀ key ∈ keysOf copy, key ∉ keysOf checked
  folderParents : SameParents (units "parentFolderId") copy.folders file.folders copy.folders
    file.folders
  requestParents : SameParents (units "folderId") copy.requests file.requests copy.folders
    file.folders

/-- The ids a copy is given are new: no two are one, and nothing in the file has or names one. -/
structure NewIds (newId : Nat → Text) (checked : CollectionExport) : Prop where
  injective : Function.Injective newId
  nonblank : ∀ i, newId i ≠ []
  keys : ∀ i, newId i ∉ keysOf checked
  parents : ∀ i, ∀ folder ∈ checked.folders,
    field folder (units "parentFolderId") ≠ some (.string (newId i))
  folders : ∀ i, ∀ request ∈ checked.requests,
    field request (units "folderId") ≠ some (.string (newId i))

/-! ## What fits -/

/-- A link that is looked up as what it names: `keys` are the folders' ids, `taken` those that a
request has been given since. -/
def LinkFits (keys taken : List Text) : Option Json → Prop
  | none => True
  | some (.string t) => t ∈ keys → t ∉ taken
  -- A link that is no text names no folder, and is looked up by what it reads as.
  | some value => truthy (some value) = true →
      ∃ key, propertyKey value = some key ∧ (key ∈ keys → key ∈ taken)

/-- The ids of the requests up to a place. -/
def idsUpTo (requests : List Doc) (j : Nat) : List Text :=
  (requests.take (j + 1)).map Doc.metaId

/-- A file that is copied as it is: its folders have ids of their own, and no request is in a folder
whose id is also its own or that of a request before it. -/
structure CopyFits (file : CollectionExport) : Prop where
  folders : (file.folders.map Doc.metaId).Nodup
  parents : ∀ folder ∈ file.folders,
    LinkFits (file.folders.map Doc.metaId) [] (field folder (units "parentFolderId"))
  requests : ∀ j request, file.requests[j]? = some request →
    LinkFits (file.folders.map Doc.metaId) (idsUpTo file.requests j)
      (field request (units "folderId"))

/-! ## A document -/

theorem field_renewed {doc : Doc} {id collectionId name : Text} {now : Json}
    (hid : units "id" ≠ name) (hmeta : units "meta" ≠ name) (hc : units "collectionId" ≠ name) :
    field (renewed doc id collectionId now) name = field doc name := by
  rw [renewed, Doc.touched, field_setField_of_ne hmeta, Doc.withCollectionId,
    field_setField_of_ne hc, Doc.withMetaId, field_setField_of_ne hmeta, field_setField_of_ne hid]

theorem metaFields_touched (doc : Doc) (now : Json) :
    Doc.metaFields (Doc.touched doc now) =
      setField (Doc.metaFields doc) (units "updatedAt") now := by
  rw [Doc.metaFields, Doc.touched, field_setField_self]
  rfl

/-- What is noted about a document under a new id. -/
theorem noted_renewed {doc : Doc} {id collectionId name : Text} {now : Json}
    (hid : units "id" ≠ name) (hupdated : units "updatedAt" ≠ name) :
    field (Doc.metaFields (renewed doc id collectionId now)) name =
      field (Doc.metaFields doc) name := by
  rw [renewed, metaFields_touched, field_setField_of_ne hupdated, Doc.withCollectionId,
    Doc.metaFields_setField (by decide), Doc.metaFields_withMetaId, field_setField_of_ne hid,
    Doc.metaFields_setField (by decide)]

theorem metaFields_withLink {doc : Doc} {key : Text} {link : Option Json} (h : key ≠ units "meta") :
    Doc.metaFields (withLink doc key link) = Doc.metaFields doc := by
  rw [Doc.metaFields, field_withLink_of_ne h, Doc.metaFields]

/-- A link that leads to the top is left as it is. -/
theorem remapLink_of_not_truthy {ids : OrderedMap Text Text} {link link' : Option Json}
    (h : remapLink ids link = some link') (hfalse : truthy link = false) : link' = link := by
  cases link with
  | none =>
      cases h
      rfl
  | some value =>
      rw [remapLink, hfalse, if_neg Bool.false_ne_true] at h
      cases h
      rfl

/-- A document under a new id, with its link looked up, is a copy of it. -/
theorem copied_renewed {ids : OrderedMap Text Text} {doc : Doc} {id collectionId key : Text}
    {now : Json} {link : Option Json} (hkey : key ∈ [units "parentFolderId", units "folderId"])
    (h : remapLink ids (field doc key) = some link) :
    Copied collectionId key (withLink (renewed doc id collectionId now) key link) doc := by
  have hne : key ≠ units "id" ∧ key ≠ units "meta" ∧ key ≠ units "collectionId" := by
    have hall : ∀ key ∈ [units "parentFolderId", units "folderId"],
        key ≠ units "id" ∧ key ≠ units "meta" ∧ key ≠ units "collectionId" := by decide
    exact hall key hkey
  have hplace : key ∈ Doc.placeFields := by
    have hall : ∀ key ∈ [units "parentFolderId", units "folderId"], key ∈ Doc.placeFields := by
      decide
    exact hall key hkey
  constructor
  · intro name hname
    simp only [List.mem_cons, List.not_mem_nil, or_false, not_or] at hname
    obtain ⟨hid, hmeta, hc, hlink⟩ := hname
    rw [field_withLink_of_ne (Ne.symm hlink),
      field_renewed (Ne.symm hid) (Ne.symm hmeta) (Ne.symm hc)]
  · intro name hname
    simp only [List.mem_cons, List.not_mem_nil, or_false, not_or] at hname
    rw [metaFields_withLink hne.2.1, noted_renewed (Ne.symm hname.1) (Ne.symm hname.2)]
  · exact ((madeFrom_renewed doc id collectionId now).withLink hplace hne.1 hne.2.1).2
  · rw [collectionId_withLink hne.2.2, renewed, Doc.touched, Doc.collectionId_setField (by decide),
      Doc.collectionId_withCollectionId]
  · intro hfalse
    rw [field_withLink_self]
    exact remapLink_of_not_truthy h hfalse


/-! ## Looking links up -/

section Lookup

variable {file : CollectionExport} {newId : Nat → Text} {now : Json}

/-- What the ids of folders and requests are looked up in, once the ids `taken` have been given to
requests. -/
def Knows (file : CollectionExport) (newId : Nat → Text) (taken : List Text)
    (known : OrderedMap Text Text) : Prop :=
  ∀ key, (key ∈ taken → ∃ j, file.folders.length < j ∧ known.get? key = some (newId j)) ∧
    (key ∉ taken → known.get? key = (folderIds file newId).get? key)

/-- Folders with ids of their own each have a new one of their own. -/
theorem get?_folderIds_of_nodup (hnames : ∀ folder ∈ file.folders, NamesItself folder)
    (hnodup : (file.folders.map Doc.metaId).Nodup) {i : Nat} {folder : Doc}
    (hi : file.folders[i]? = some folder) :
    (folderIds file newId).get? (Doc.metaId folder) = some (newId (i + 1)) := by
  have hmem : folder ∈ file.folders := List.mem_of_getElem? hi
  obtain ⟨j, hj, hget⟩ := get?_folderIds newId hmem
  rw [givenId_of_namesItself (hnames folder hmem)] at hget hj
  rw [hget]
  obtain ⟨other, hother, hkey⟩ := Option.map_eq_some_iff.mp hj
  rw [givenId_of_namesItself (hnames other (List.mem_of_getElem? hother))] at hkey
  have hlt : j < (file.folders.map Doc.metaId).length := by
    rw [List.length_map]
    exact (List.getElem?_eq_some_iff.mp hother).1
  have hsame : (file.folders.map Doc.metaId)[j]? = (file.folders.map Doc.metaId)[i]? := by
    rw [List.getElem?_map, List.getElem?_map, hother, hi, Option.map_some, Option.map_some, hkey]
  rw [(List.getElem?_inj hlt hnodup).mp hsame]

/-- An id that no folder has is looked up as the collection's, or not at all. -/
theorem get?_folderIds_of_not_mem (hnames : ∀ folder ∈ file.folders, NamesItself folder)
    {key : Text} (h : key ∉ file.folders.map Doc.metaId) :
    (folderIds file newId).get? key = some (newId 0) ∨ (folderIds file newId).get? key = none := by
  have hfind : ((file.folders.zipIdx.map fun entry : Doc × Nat =>
      (givenId entry.1, newId (entry.2 + 1))).reverse.find? fun e => e.1 = key) = none := by
    rw [List.find?_eq_none]
    intro pair hpair hkey
    obtain ⟨entry, hentry, rfl⟩ := List.mem_map.mp (List.mem_reverse.mp hpair)
    have hmem : entry.1 ∈ file.folders := List.fst_mem_of_mem_zipIdx hentry
    refine h (List.mem_map.mpr ⟨entry.1, hmem, ?_⟩)
    rw [← givenId_of_namesItself (hnames _ hmem)]
    exact of_decide_eq_true hkey
  rw [folderIds, OrderedMap.get?_setAll, hfind, Option.map_none, Option.none_or,
    OrderedMap.get?_set]
  split_ifs
  · exact Or.inl rfl
  · exact Or.inr rfl

variable {keys taken : List Text} {known : OrderedMap Text Text} {link link' : Option Json}

/-- Whatever the ids are, a link that fits is looked up. -/
theorem exists_remapLink (h : LinkFits keys taken link) (known : OrderedMap Text Text) :
    ∃ link', remapLink known link = some link' := by
  cases link with
  | none => exact ⟨none, rfl⟩
  | some value =>
      by_cases htruthy : truthy (some value) = true
      · have hkey : ∃ key, propertyKey value = some key := by
          cases value with
          | string t => exact ⟨t, by rw [propertyKey]⟩
          | _ =>
              obtain ⟨key, hkey, -⟩ := h htruthy
              exact ⟨key, hkey⟩
        obtain ⟨key, hkey⟩ := hkey
        exact ⟨_, by rw [remapLink, if_pos htruthy, hkey, Option.map_some]⟩
      · exact ⟨_, by rw [remapLink, if_neg htruthy]⟩

/-- What a key is looked up as, where a folder has it, a request has been given it, or neither. -/
theorem Knows.lookup (hknows : Knows file newId taken known)
    (hnames : ∀ folder ∈ file.folders, NamesItself folder)
    (hnodup : (file.folders.map Doc.metaId).Nodup) (hinjective : Function.Injective newId) {i : Nat}
    {folder : Doc} (hi : file.folders[i]? = some folder) (key : Text) :
    known.get? key = some (newId (i + 1)) ↔ key = Doc.metaId folder ∧ key ∉ taken := by
  have hlt : i < file.folders.length := (List.getElem?_eq_some_iff.mp hi).1
  by_cases htaken : key ∈ taken
  · -- A key that is taken leads to an id made for a request, which no folder has.
    obtain ⟨j, hj, hget⟩ := (hknows key).1 htaken
    rw [hget]
    refine iff_of_false (fun heq => ?_) fun h => h.2 htaken
    have hij := hinjective (Option.some.inj heq)
    omega
  · rw [(hknows key).2 htaken]
    by_cases hkey : key ∈ file.folders.map Doc.metaId
    · -- The ids of the folders differ, so each leads to its own new one.
      obtain ⟨other, hother, rfl⟩ := List.mem_map.mp hkey
      obtain ⟨j, hj⟩ := List.mem_iff_getElem?.mp hother
      rw [get?_folderIds_of_nodup hnames hnodup hj]
      constructor
      · intro heq
        have hij := hinjective (Option.some.inj heq)
        have hsame : j = i := by omega
        rw [hsame, hi] at hj
        cases hj
        exact ⟨rfl, htaken⟩
      · rintro ⟨hsame, -⟩
        have hj' : (folderIds file newId).get? (Doc.metaId _) = some (newId (j + 1)) :=
          get?_folderIds_of_nodup hnames hnodup hj
        have hi' : (folderIds file newId).get? (Doc.metaId _) = some (newId (i + 1)) :=
          get?_folderIds_of_nodup hnames hnodup hi
        rw [hsame, hi'] at hj'
        exact hj'.symm
    · -- A key of no folder leads to the collection's new id or to nothing.
      have hnot : ¬ (key = Doc.metaId folder ∧ key ∉ taken) := by
        rintro ⟨rfl, -⟩
        exact hkey (List.mem_map_of_mem (List.mem_of_getElem? hi))
      refine iff_of_false (fun heq => ?_) hnot
      rcases get?_folderIds_of_not_mem hnames hkey with hget | hget
      · rw [hget] at heq
        have hij := hinjective (Option.some.inj heq)
        omega
      · rw [hget] at heq
        cases heq

/-- A text, looked up, is a new id only where the lookup gives it. -/
theorem lookedUp_eq_iff {key id : Text} {value : Json} (hne : value ≠ .string id) :
    ((known.get? key).map Json.string).getD value = .string id ↔ known.get? key = some id := by
  cases known.get? key with
  | none => exact iff_of_false hne (fun h => nomatch h)
  | some found =>
      rw [Option.map_some, Option.getD_some, Json.string.injEq, Option.some_inj]

/-- A link is put to the copies of the folders it named, and to no others, exactly where it fits. -/
theorem names_iff_fits (hknows : Knows file newId taken known)
    (hnames : ∀ folder ∈ file.folders, NamesItself folder)
    (hblank : ∀ folder ∈ file.folders, Doc.metaId folder ≠ [])
    (hnodup : (file.folders.map Doc.metaId).Nodup) (hinjective : Function.Injective newId)
    (hnonblank : ∀ i, newId i ≠ []) (hnew : ∀ i, link ≠ some (.string (newId i)))
    (hremap : remapLink known link = some link') :
    (∀ i folder, file.folders[i]? = some folder →
      (link' = some (.string (newId (i + 1))) ↔ link = some (.string (Doc.metaId folder)))) ↔
      LinkFits (file.folders.map Doc.metaId) taken link := by
  cases link with
  | none =>
      cases hremap
      exact iff_of_true (fun i folder _ => iff_of_false (fun h => by cases h) fun h => by cases h)
        trivial
  | some value =>
      by_cases htruthy : truthy (some value) = true
      · rw [remapLink, if_pos htruthy] at hremap
        obtain ⟨key, hkey, hlink⟩ := Option.map_eq_some_iff.mp hremap
        -- What the copy's link is, in terms of what was looked up.
        have hlookup : ∀ i folder, file.folders[i]? = some folder →
            (link' = some (.string (newId (i + 1))) ↔ key = Doc.metaId folder ∧ key ∉ taken) := by
          intro i folder hi
          have hne : value ≠ .string (newId (i + 1)) := fun heq => hnew (i + 1) (by rw [heq])
          rw [← hlink, Option.some_inj, lookedUp_eq_iff hne,
            hknows.lookup hnames hnodup hinjective hi]
        have hiff : (∀ i folder, file.folders[i]? = some folder →
            (link' = some (.string (newId (i + 1))) ↔
              some value = some (.string (Doc.metaId folder)))) ↔
            ∀ folder ∈ file.folders, (key = Doc.metaId folder ∧ key ∉ taken ↔
              value = .string (Doc.metaId folder)) := by
          constructor
          · intro hall folder hfolder
            obtain ⟨i, hi⟩ := List.mem_iff_getElem?.mp hfolder
            rw [← hlookup i folder hi, hall i folder hi, Option.some_inj]
          · intro hall i folder hi
            rw [hlookup i folder hi, Option.some_inj]
            exact hall folder (List.mem_of_getElem? hi)
        rw [hiff]
        cases value with
        | string t =>
            have hkey' : key = t := by
              rw [propertyKey, Option.some_inj] at hkey
              exact hkey.symm
            subst hkey'
            constructor
            · intro hall hmem
              obtain ⟨folder, hfolder, heq⟩ := List.mem_map.mp hmem
              exact ((hall folder hfolder).mpr (by rw [heq])).2
            · intro hfits folder hfolder
              rw [Json.string.injEq]
              refine ⟨fun h => h.1, fun heq => ⟨heq, hfits ?_⟩⟩
              rw [heq]
              exact List.mem_map_of_mem hfolder
        | _ =>
            constructor
            · intro hall _
              refine ⟨key, hkey, fun hmem => ?_⟩
              obtain ⟨folder, hfolder, heq⟩ := List.mem_map.mp hmem
              by_contra htaken
              cases (hall folder hfolder).mp ⟨heq.symm, htaken⟩
            · intro hfits folder hfolder
              obtain ⟨key', hkey', htaken⟩ := hfits htruthy
              rw [hkey] at hkey'
              cases hkey'
              refine iff_of_false (fun h => h.2 (htaken ?_)) fun h => by cases h
              rw [h.1]
              exact List.mem_map_of_mem hfolder
      · rw [remapLink, if_neg htruthy] at hremap
        cases hremap
        have hno : ∀ t : Text, t ≠ [] → some value ≠ some (.string t) := by
          rintro t ht heq
          rw [heq] at htruthy
          exact htruthy (decide_eq_true ht)
        refine iff_of_true (fun i folder hi => iff_of_false (hno _ (hnonblank _))
          (hno _ (hblank folder (List.mem_of_getElem? hi)))) ?_
        cases value with
        | string t =>
            intro hmem
            obtain ⟨folder, hfolder, heq⟩ := List.mem_map.mp hmem
            exact absurd (by rw [heq]) (hno _ (hblank folder hfolder))
        | _ => exact fun h => absurd h htruthy

end Lookup

/-! ## The requests of a copy -/

/-- What stands in a map after pairs were set: what one of them says of a key they set,
else what was there. -/
theorem get?_setAll_cases (m : OrderedMap Text Text) (pairs : List (Text × Text)) (key : Text) :
    (key ∈ pairs.map Prod.fst → ∃ e ∈ pairs, (m.setAll pairs).get? key = some e.2) ∧
      (key ∉ pairs.map Prod.fst → (m.setAll pairs).get? key = m.get? key) := by
  rw [OrderedMap.get?_setAll]
  cases hfind : pairs.reverse.find? fun e => e.1 = key with
  | none =>
      rw [List.find?_eq_none] at hfind
      refine ⟨fun hmem => ?_, fun _ => rfl⟩
      obtain ⟨e, he, heq⟩ := List.mem_map.mp hmem
      exact absurd (decide_eq_true heq) (hfind e (List.mem_reverse.mpr he))
  | some e =>
      have hmem : e ∈ pairs := List.mem_reverse.mp (List.mem_of_find?_eq_some hfind)
      have hkey : e.1 = key := by simpa using List.find?_some hfind
      exact ⟨fun _ => ⟨e, hmem, rfl⟩, fun hnot => absurd (hkey ▸ List.mem_map_of_mem hmem) hnot⟩

/-- A request of a copy: its link is looked up where its own id and those of the requests
before it are known. -/
theorem remapRequests_getElem? {c : Text} {now : Json} {ids all : OrderedMap Text Text}
    {numbered : List (Doc × Text)} {requests : List Doc}
    (h : remapRequests c now ids numbered = some (requests, all)) {j : Nat} {request : Doc}
    {id : Text} (hj : numbered[j]? = some (request, id)) :
    ∃ link, remapLink (ids.setAll ((numbered.take (j + 1)).map fun e => (givenId e.1, e.2)))
        (field request (units "folderId")) = some link ∧
      requests[j]? = some (withLink (renewed request id c now) (units "folderId") link) := by
  induction numbered generalizing ids requests j with
  | nil => cases hj
  | cons entry rest ih =>
      rw [remapRequests] at h
      split at h
      · next link later all' hlink hrest =>
          cases h
          cases j with
          | zero =>
              cases hj
              exact ⟨link, hlink, rfl⟩
          | succ j =>
              obtain ⟨found, hfound, hget⟩ := ih hrest hj
              exact ⟨found, hfound, hget⟩
      · cases h

/-- Requests whose links can be looked up are copied. -/
theorem exists_remapRequests {c : Text} {now : Json} {numbered : List (Doc × Text)}
    (h : ∀ entry ∈ numbered, ∀ known, ∃ link,
      remapLink known (field entry.1 (units "folderId")) = some link) (ids : OrderedMap Text Text) :
    ∃ made, remapRequests c now ids numbered = some made := by
  induction numbered generalizing ids with
  | nil => exact ⟨_, rfl⟩
  | cons entry rest ih =>
      obtain ⟨link, hlink⟩ := h entry List.mem_cons_self (ids.set (givenId entry.1) entry.2)
      obtain ⟨made, hmade⟩ := ih (fun e he => h e (List.mem_cons_of_mem entry he))
        (ids.set (givenId entry.1) entry.2)
      rw [remapRequests, hlink, hmade]
      exact ⟨_, rfl⟩

/-! ## The copy -/

section Copy

variable {F : FilePlatform} {checked copy : CollectionExport} {newId : Nat → Text} {now : Json}
  {idRemap : OrderedMap Text Text}

theorem knows_folders (file : CollectionExport) (newId : Nat → Text) :
    Knows file newId [] (folderIds file newId) :=
  fun _ => ⟨fun h => absurd h List.not_mem_nil, fun _ => rfl⟩

/-- The requests of a file with the ids they are given. -/
def numberedRequests (file : CollectionExport) (newId : Nat → Text) : List (Doc × Text) :=
  file.requests.zipIdx.map fun entry => (entry.1, newId (entry.2 + file.folders.length + 1))

theorem numberedRequests_getElem? {file : CollectionExport} {j : Nat} {request : Doc}
    (h : file.requests[j]? = some request) :
    (numberedRequests file newId)[j]? =
      some (request, newId (j + file.folders.length + 1)) := by
  rw [numberedRequests, List.getElem?_map, List.getElem?_zipIdx, h, Nat.zero_add]
  rfl

/-- What is known where a request is looked up. -/
theorem knows_requests {file : CollectionExport}
    (hnames : ∀ request ∈ file.requests, NamesItself request) (j : Nat) :
    Knows file newId (idsUpTo file.requests j) ((folderIds file newId).setAll
      (((numberedRequests file newId).take (j + 1)).map fun e => (givenId e.1, e.2))) := by
  have hkeys : (((numberedRequests file newId).take (j + 1)).map fun e =>
      (givenId e.1, e.2)).map Prod.fst = idsUpTo file.requests j := by
    have hfst : (numberedRequests file newId).map Prod.fst = file.requests := by
      rw [numberedRequests, List.map_map]
      exact List.zipIdx_map_fst 0 file.requests
    have htake : ((numberedRequests file newId).take (j + 1)).map Prod.fst =
        file.requests.take (j + 1) := by
      rw [List.map_take, hfst]
    rw [List.map_map, idsUpTo, ← htake, List.map_map]
    apply List.map_congr_left
    intro e he
    have hmem : e.1 ∈ file.requests := by
      rw [← hfst]
      exact List.mem_map_of_mem (List.mem_of_mem_take he)
    exact givenId_of_namesItself (hnames e.1 hmem)
  intro key
  obtain ⟨hset, hkept⟩ := get?_setAll_cases (folderIds file newId)
    (((numberedRequests file newId).take (j + 1)).map fun e => (givenId e.1, e.2)) key
  rw [hkeys] at hset hkept
  refine ⟨fun hmem => ?_, hkept⟩
  obtain ⟨e, he, hget⟩ := hset hmem
  obtain ⟨numbered, hnumbered, rfl⟩ := List.mem_map.mp he
  obtain ⟨entry, -, rfl⟩ := List.mem_map.mp (List.mem_of_mem_take hnumbered)
  exact ⟨entry.2 + file.folders.length + 1, by omega, hget⟩

/-- Where each document's link was looked up, the copies are in the copies of the folders they were
in, exactly where each link fits. -/
theorem sameParents_iff {file : CollectionExport} {key : Text} {copies docs folders' : List Doc}
    (taken : Nat → List Text)
    (hnames : ∀ folder ∈ file.folders, NamesItself folder)
    (hblank : ∀ folder ∈ file.folders, Doc.metaId folder ≠ [])
    (hnodup : (file.folders.map Doc.metaId).Nodup) (hinjective : Function.Injective newId)
    (hnonblank : ∀ i, newId i ≠ [])
    (hfolders : ∀ i folder, file.folders[i]? = some folder →
      ∃ folder', folders'[i]? = some folder' ∧ Doc.metaId folder' = newId (i + 1))
    (hdocs : ∀ j doc, docs[j]? = some doc → (∀ i, field doc key ≠ some (.string (newId i))) ∧
      ∃ made known, copies[j]? = some made ∧ Knows file newId (taken j) known ∧
        remapLink known (field doc key) = some (field made key)) :
    SameParents key copies docs folders' file.folders ↔
      ∀ j doc, docs[j]? = some doc →
        LinkFits (file.folders.map Doc.metaId) (taken j) (field doc key) := by
  constructor
  · intro h j doc hj
    obtain ⟨hnew, made, known, hmade, hknows, hremap⟩ := hdocs j doc hj
    rw [← names_iff_fits hknows hnames hblank hnodup hinjective hnonblank hnew hremap]
    -- Place by place: copy and document, and the two folders, stand at one index.
    intro i folder hi
    obtain ⟨folder', hfolder', hkey⟩ := hfolders i folder hi
    have hd : (made, doc) ∈ copies.zip docs :=
      List.mem_of_getElem? (List.getElem?_zip_eq_some.mpr ⟨hmade, hj⟩)
    have hf : (folder', folder) ∈ folders'.zip file.folders :=
      List.mem_of_getElem? (List.getElem?_zip_eq_some.mpr ⟨hfolder', hi⟩)
    have hsame := h _ hd _ hf
    rw [NamesFolder, NamesFolder, hkey] at hsame
    exact hsame
  · intro h d hd f hf
    obtain ⟨j, hj⟩ := List.mem_iff_getElem?.mp hd
    obtain ⟨i, hi⟩ := List.mem_iff_getElem?.mp hf
    obtain ⟨hmade, hdoc⟩ := List.getElem?_zip_eq_some.mp hj
    obtain ⟨hfolder', hfolder⟩ := List.getElem?_zip_eq_some.mp hi
    obtain ⟨hnew, made, known, hmade', hknows, hremap⟩ := hdocs j d.2 hdoc
    obtain ⟨folder', hfound, hkey⟩ := hfolders i f.2 hfolder
    rw [hmade] at hmade'
    -- What stands at one index is one copy and one folder.
    cases hmade'
    rw [hfolder'] at hfound
    cases hfound
    rw [NamesFolder, NamesFolder, hkey]
    exact (names_iff_fits hknows hnames hblank hnodup hinjective hnonblank hnew hremap).mpr
      (h j d.2 hdoc) i f.2 hfolder

/-- The folders of an accepted file were each checked. -/
theorem exists_checked_folder {input : Option Json} (h : validateCollection F input = .ok checked) :
    ∀ folder ∈ checked.folders, ∃ item path, fieldsOf (some item) = folder ∧
      validateFolderDoc F (some item) path = [] := by
  obtain ⟨members, -, hissues, rfl⟩ := checked_of_validateCollection h
  simp only [payloadIssues, List.append_eq_nil_iff] at hissues
  obtain ⟨⟨⟨-, hfolders⟩, -⟩, -⟩ := hissues
  unfold validateItems at hfolders
  split at hfolders
  · next items hitems =>
      intro folder hfolder
      simp only [readExport, hitems, docsOf] at hfolder
      obtain ⟨item, hitem, rfl⟩ := List.mem_map.mp hfolder
      obtain ⟨i, hi⟩ := List.mem_iff_getElem?.mp hitem
      exact ⟨item, _, rfl, List.flatMap_eq_nil_iff.mp hfolders (item, i)
        (List.mk_mem_zipIdx_iff_getElem?.mpr hi)⟩
  · cases hfolders

/-- The folders of an accepted file have keys. -/
theorem folderKey_of_checked {input : Option Json} (h : validateCollection F input = .ok checked) :
    ∀ folder ∈ checked.folders, Doc.metaId folder ≠ [] := by
  intro folder hfolder
  obtain ⟨item, path, rfl, hcheck⟩ := exists_checked_folder h folder hfolder
  simp only [validateFolderDoc, List.append_eq_nil_iff] at hcheck
  obtain ⟨⟨hbase, -⟩, hinherited⟩ := hcheck
  cases item with
  | object doc => exact (metaId_of_validateBase hbase).2
  | _ => cases hinherited

theorem named_of_mem_normalized {docs : List Doc} {doc : Doc}
    (h : doc ∈ sortByOrder F (docs.map Doc.ensureDocId)) {key : Text} (hkey : units "id" ≠ key) :
    NamesItself doc ∧ ∃ given ∈ docs, Doc.metaId doc = Doc.metaId given ∧
      field doc key = field given key := by
  refine ⟨namesItself_of_mem_normalized h, ?_⟩
  obtain ⟨given, hgiven, rfl⟩ := List.mem_map.mp ((normalized_perm F docs).mem_iff.mp h)
  exact ⟨given, hgiven, Doc.metaId_ensureDocId given, field_setField_of_ne hkey⟩

/-- The folders of an accepted file have keys in every order. -/
theorem normalized_nonblank {input : Option Json} (h : validateCollection F input = .ok checked) :
    ∀ folder ∈ (normalizeExport F checked).folders, Doc.metaId folder ≠ [] := by
  intro folder hfolder
  obtain ⟨-, given, hgiven, hkey, -⟩ :=
    named_of_mem_normalized hfolder (by decide : units "id" ≠ units "parentFolderId")
  rw [hkey]
  exact folderKey_of_checked h given hgiven

theorem forall₂_getElem? {α β : Type} {R : α → β → Prop} {as : List α} {bs : List β}
    (h : List.Forall₂ R as bs) {i : Nat} {b : β} (hi : bs[i]? = some b) :
    ∃ a, as[i]? = some a ∧ R a b := by
  induction h generalizing i with
  | nil => cases hi
  | @cons a' b' _ _ hab _ ih =>
      cases i with
      | zero =>
          cases hi
          exact ⟨a', rfl, hab⟩
      | succ i => exact ih hi

/-- The requests of a copy, each copied. -/
theorem remapRequests_copied {c : Text} {ids all : OrderedMap Text Text}
    {numbered : List (Doc × Text)} {requests : List Doc}
    (h : remapRequests c now ids numbered = some (requests, all)) :
    List.Forall₂ (Copied c (units "folderId")) requests (numbered.map Prod.fst) := by
  induction numbered generalizing ids requests with
  | nil =>
      cases h
      exact List.Forall₂.nil
  | cons entry rest ih =>
      rw [remapRequests] at h
      split at h
      · next link later all' hlink hrest =>
          cases h
          exact List.Forall₂.cons (copied_renewed (by decide) hlink) (ih hrest)
      · cases h

theorem remapFolder_copied {ids : OrderedMap Text Text} {c : Text} {folder folder' : Doc}
    (h : remapFolder ids c now folder = some folder') :
    Copied c (units "parentFolderId") folder' folder ∧
      remapLink ids (field folder (units "parentFolderId")) =
        some (field folder' (units "parentFolderId")) := by
  obtain ⟨link, hlink, rfl⟩ := Option.map_eq_some_iff.mp h
  refine ⟨copied_renewed (by decide) hlink, ?_⟩
  rw [field_withLink_self, hlink]

theorem remapIdentifiers_collection {file : CollectionExport}
    (h : remapIdentifiers file newId now = some (copy, idRemap)) :
    copy.collection = Doc.touched
      (Doc.withMetaId (setField file.collection (units "id") (.string (newId 0))) (newId 0))
      now := by
  rw [remapIdentifiers] at h
  split at h
  · cases h
    rfl
  · cases h

/-- The collection of a copy. -/
theorem collection_copied {file : CollectionExport}
    (h : remapIdentifiers file newId now = some (copy, idRemap)) :
    (∀ name, name ∉ [units "id", units "meta"] →
      field copy.collection name = field file.collection name) ∧
    (∀ name, name ∉ [units "id", units "updatedAt"] →
      field (Doc.metaFields copy.collection) name = field (Doc.metaFields file.collection) name) ∧
    NamesItself copy.collection ∧ Doc.metaId copy.collection = newId 0 := by
  rw [remapIdentifiers_collection h]
  have hkey : Doc.metaId (Doc.touched (Doc.withMetaId
      (setField file.collection (units "id") (.string (newId 0))) (newId 0)) now) = newId 0 := by
    rw [Doc.metaId_touched, Doc.metaId_withMetaId]
  refine ⟨fun name hname => ?_, fun name hname => ?_, ?_, hkey⟩
  · simp only [List.mem_cons, List.not_mem_nil, or_false, not_or] at hname
    rw [Doc.touched, field_setField_of_ne (Ne.symm hname.2), Doc.withMetaId,
      field_setField_of_ne (Ne.symm hname.2), field_setField_of_ne (Ne.symm hname.1)]
  · simp only [List.mem_cons, List.not_mem_nil, or_false, not_or] at hname
    rw [metaFields_touched, field_setField_of_ne (Ne.symm hname.2), Doc.metaFields_withMetaId,
      field_setField_of_ne (Ne.symm hname.1), Doc.metaFields_setField (by decide)]
  · rw [NamesItself, hkey, Doc.id, Doc.touched, field_setField_of_ne (by decide), Doc.withMetaId,
      field_setField_of_ne (by decide), field_setField_self]
    rfl

variable {input : Option Json} {result : CollectionImportResult}

theorem folderNames : ∀ folder ∈ (normalizeExport F checked).folders, NamesItself folder :=
  fun _ h => namesItself_of_mem_normalized h

theorem requestNames : ∀ request ∈ (normalizeExport F checked).requests, NamesItself request :=
  fun _ h => namesItself_of_mem_normalized h

section Made

variable (hremap : remapIdentifiers (normalizeExport F checked) newId now = some (copy, idRemap))
include hremap

/-- The new ids of the folders. -/
theorem folderKey_copied {key : Text} (hkey : key ∈ copy.folders.map Doc.metaId) :
    ∃ i < (normalizeExport F checked).folders.length, key = newId (i + 1) := by
  obtain ⟨-, hfolders, -⟩ := remapIdentifiers_spec hremap
  obtain ⟨folder', hfolder', rfl⟩ := List.mem_map.mp hkey
  obtain ⟨folder, hfolder, -, hid⟩ := mem_of_forall₂_left hfolders hfolder'
  obtain ⟨i, hi, hget⟩ := get?_folderIds newId hfolder
  obtain ⟨other, hother, -⟩ := Option.map_eq_some_iff.mp hi
  refine ⟨i, (List.getElem?_eq_some_iff.mp hother).1, ?_⟩
  rw [hid, hget, Option.getD_some]

/-- The new ids of the requests. -/
theorem requestKey_copied {key : Text} (hkey : key ∈ copy.requests.map Doc.metaId) :
    ∃ k, key = newId (k + (normalizeExport F checked).folders.length + 1) := by
  obtain ⟨-, -, -, hrequests⟩ := remapIdentifiers_spec hremap
  rw [hrequests] at hkey
  obtain ⟨entry, -, rfl⟩ := List.mem_map.mp hkey
  exact ⟨entry.2, rfl⟩

/-- No new id is one of the file's. -/
theorem keys_fresh (hnew : NewIds newId checked) : ∀ key ∈ keysOf copy, key ∉ keysOf checked := by
  obtain ⟨-, -, -, hcollection⟩ := collection_copied hremap
  intro key hkey
  have hid : ∃ i, key = newId i := by
    rcases List.mem_cons.mp hkey with rfl | hkey
    · exact ⟨0, hcollection⟩
    · rcases List.mem_append.mp hkey with hkey | hkey
      · obtain ⟨i, -, hi⟩ := folderKey_copied hremap hkey
        exact ⟨i + 1, hi⟩
      · obtain ⟨k, hk⟩ := requestKey_copied hremap hkey
        exact ⟨_, hk⟩
  obtain ⟨i, rfl⟩ := hid
  exact hnew.keys i

/-- The new ids are distinct where the folders' are: all others are given one by one. -/
theorem keys_nodup_iff (hnew : NewIds newId checked)
    (hrequests : (copy.requests.map Doc.metaId).Nodup) :
    (keysOf copy).Nodup ↔ (copy.folders.map Doc.metaId).Nodup := by
  obtain ⟨-, -, -, hcollection⟩ := collection_copied hremap
  unfold keysOf
  rw [List.nodup_cons, List.nodup_append]
  constructor
  · exact fun h => h.2.1
  · intro h
    refine ⟨fun hmem => ?_, h, hrequests, fun a ha b hb heq => ?_⟩
    · rw [hcollection] at hmem
      rcases List.mem_append.mp hmem with hmem | hmem
      · obtain ⟨i, -, hi⟩ := folderKey_copied hremap hmem
        have hzero := hnew.injective hi
        omega
      · obtain ⟨k, hk⟩ := requestKey_copied hremap hmem
        have hzero := hnew.injective hk
        omega
    · obtain ⟨i, hlt, hi⟩ := folderKey_copied hremap ha
      obtain ⟨k, hk⟩ := requestKey_copied hremap hb
      have hsame := hnew.injective (hi.symm.trans (heq.trans hk))
      omega

/-- Folders with ids of their own have new ones by their place. -/
theorem folder_place (hnodup : ((normalizeExport F checked).folders.map Doc.metaId).Nodup) {i : Nat}
    {folder : Doc} (hi : (normalizeExport F checked).folders[i]? = some folder) :
    ∃ folder', copy.folders[i]? = some folder' ∧ Doc.metaId folder' = newId (i + 1) := by
  obtain ⟨-, hfolders, -⟩ := remapIdentifiers_spec hremap
  obtain ⟨folder', hfolder', -, hid⟩ := forall₂_getElem? hfolders hi
  refine ⟨folder', hfolder', ?_⟩
  rw [hid, givenId_of_namesItself (folderNames folder (List.mem_of_getElem? hi)),
    get?_folderIds_of_nodup folderNames hnodup hi, Option.getD_some]

section Parents

variable (hchecked : validateCollection F input = .ok checked) (hnew : NewIds newId checked)
  (hnodup : ((normalizeExport F checked).folders.map Doc.metaId).Nodup)
include hchecked hnew hnodup

/-- The folders of a copy are where they were, exactly where their links fit. -/
theorem folderParents_iff :
    SameParents (units "parentFolderId") copy.folders (normalizeExport F checked).folders
        copy.folders (normalizeExport F checked).folders ↔
      ∀ (j : Nat) (folder : Doc), (normalizeExport F checked).folders[j]? = some folder →
        LinkFits ((normalizeExport F checked).folders.map Doc.metaId) []
          (field folder (units "parentFolderId")) := by
  refine sameParents_iff (fun _ => []) folderNames (normalized_nonblank hchecked) hnodup
    hnew.injective hnew.nonblank (fun _ _ => folder_place hremap hnodup) ?_
  intro j folder hj
  obtain ⟨-, given, hgiven, -, hfield⟩ := named_of_mem_normalized (List.mem_of_getElem? hj)
    (by decide : units "id" ≠ units "parentFolderId")
  obtain ⟨folder', hfolder', hmade⟩ := forall₂_getElem? (remapIdentifiers_parts hremap).1 hj
  refine ⟨fun i => ?_, folder', _, hfolder', knows_folders _ newId, (remapFolder_copied hmade).2⟩
  rw [hfield]
  exact hnew.parents i given hgiven

/-- The requests of a copy are where they were, exactly where their links fit. -/
theorem requestParents_iff :
    SameParents (units "folderId") copy.requests (normalizeExport F checked).requests
        copy.folders (normalizeExport F checked).folders ↔
      ∀ j request, (normalizeExport F checked).requests[j]? = some request →
        LinkFits ((normalizeExport F checked).folders.map Doc.metaId)
          (idsUpTo (normalizeExport F checked).requests j) (field request (units "folderId")) := by
  refine sameParents_iff (idsUpTo (normalizeExport F checked).requests) folderNames
    (normalized_nonblank hchecked) hnodup hnew.injective hnew.nonblank
    (fun _ _ => folder_place hremap hnodup) ?_
  intro j request hj
  obtain ⟨-, given, hgiven, -, hfield⟩ := named_of_mem_normalized (List.mem_of_getElem? hj)
    (by decide : units "id" ≠ units "folderId")
  obtain ⟨link, hlink, hmade⟩ := remapRequests_getElem? (remapIdentifiers_parts hremap).2
    (@numberedRequests_getElem? newId _ _ _ hj)
  refine ⟨fun i => ?_, _, _, hmade, knows_requests requestNames j, ?_⟩
  · rw [hfield]
    exact hnew.folders i given hgiven
  · rw [field_withLink_self]
    exact hlink

end Parents

/-- The requests of a copy, in the order of the file's. -/
theorem requests_copied :
    List.Forall₂ (Copied (newId 0) (units "folderId")) copy.requests
      (normalizeExport F checked).requests := by
  have hcopied := remapRequests_copied (remapIdentifiers_parts hremap).2
  rw [List.map_map] at hcopied
  have hfst : (normalizeExport F checked).requests.zipIdx.map (Prod.fst ∘ fun entry : Doc × Nat =>
      (entry.1, newId (entry.2 + (normalizeExport F checked).folders.length + 1))) =
        (normalizeExport F checked).requests :=
    List.zipIdx_map_fst 0 (normalizeExport F checked).requests
  rwa [hfst] at hcopied

end Made

/-- What was made, where it was made, is a copy exactly where the file fits. -/
theorem isCopy_iff (hchecked : validateCollection F input = .ok checked)
    (hnew : NewIds newId checked) (hresult : importPayload F newId now true checked = some result) :
    IsCopy checked (normalizeExport F checked) result.payload ↔
      CopyFits (normalizeExport F checked) := by
  obtain ⟨hpayload, -, -⟩ := importPayload_spec (fun _ => hnew.injective) hresult
  obtain ⟨⟨copy, idRemap⟩, hremap, rfl⟩ := Option.map_eq_some_iff.mp hresult
  dsimp only at hpayload ⊢
  obtain ⟨hfields, hnoted, hnamed, hcollection⟩ := collection_copied hremap
  have hnodup : ((normalizeExport F checked).folders.map Doc.metaId).Nodup ↔
      (copy.folders.map Doc.metaId).Nodup :=
    (map_metaId_normalized F checked.folders).nodup_iff.trans hpayload.folderKeys.symm
  -- The requests' keys differ in any copy, each made anew: only two folders may share one.
  have hdistinct := keys_nodup_iff hremap hnew (hpayload.requestKeys.mpr (Or.inl rfl))
  constructor
  · intro h
    have hids := hnodup.mpr (hdistinct.mp h.distinct)
    refine ⟨hids, fun folder hfolder => ?_,
      (requestParents_iff hremap hchecked hnew hids).mp h.requestParents⟩
    obtain ⟨j, hj⟩ := List.mem_iff_getElem?.mp hfolder
    exact (folderParents_iff hremap hchecked hnew hids).mp h.folderParents j folder hj
  · intro h
    refine
      { allFolders := normalized_perm F _
        allRequests := normalized_perm F _
        collection := fun name hname => ?_
        noted := fun name hname => ?_
        named := hnamed
        folders := ?_
        requests := ?_
        distinct := hdistinct.mpr (hnodup.mp h.folders)
        fresh := keys_fresh hremap hnew
        folderParents := (folderParents_iff hremap hchecked hnew h.folders).mpr
          fun j folder (hj : (normalizeExport F checked).folders[j]? = some folder) =>
            h.parents folder (List.mem_of_getElem? hj)
        requestParents := (requestParents_iff hremap hchecked hnew h.folders).mpr h.requests }
    · -- Only the id of the collection is changed.
      have hid : units "id" ≠ name := by
        rintro rfl
        exact hname List.mem_cons_self
      rw [hfields name hname]
      exact field_setField_of_ne hid
    · rw [hnoted name hname]
      have hsame : Doc.metaFields (normalizeExport F checked).collection =
          Doc.metaFields checked.collection := Doc.metaFields_setField (by decide)
      rw [hsame]
    · rw [hcollection]
      exact (remapIdentifiers_parts hremap).1.imp fun _ _ hmade => (remapFolder_copied hmade).1
    · rw [hcollection]
      exact requests_copied hremap

theorem exists_mapM {α β : Type} {f : α → Option β} {as : List α}
    (h : ∀ a ∈ as, ∃ b, f a = some b) : ∃ bs, as.mapM f = some bs := by
  induction as with
  | nil => exact ⟨[], rfl⟩
  | cons a as ih =>
      obtain ⟨b, hb⟩ := h a List.mem_cons_self
      obtain ⟨bs, hbs⟩ := ih fun c hc => h c (List.mem_cons_of_mem a hc)
      exact ⟨b :: bs, by rw [List.mapM_cons, hb, hbs]; rfl⟩

/-- A file that fits is copied. -/
theorem exists_importPayload (h : CopyFits (normalizeExport F checked)) :
    ∃ result, importPayload F newId now true checked = some result := by
  have hfolder : ∀ folder ∈ (normalizeExport F checked).folders, ∃ made,
      remapFolder (folderIds (normalizeExport F checked) newId) (newId 0) now folder =
        some made := by
    intro folder hmem
    obtain ⟨link, hlink⟩ := exists_remapLink (h.parents folder hmem)
      (folderIds (normalizeExport F checked) newId)
    exact ⟨_, by rw [remapFolder, hlink, Option.map_some]⟩
  have hrequest : ∀ entry ∈ numberedRequests (normalizeExport F checked) newId, ∀ known, ∃ link,
      remapLink known (field entry.1 (units "folderId")) = some link := by
    intro entry hentry known
    obtain ⟨numbered, hnumbered, rfl⟩ := List.mem_map.mp hentry
    exact exists_remapLink
      (h.requests _ _ (List.mk_mem_zipIdx_iff_getElem?.mp hnumbered)) known
  obtain ⟨folders, hfolders⟩ := exists_mapM hfolder
  obtain ⟨made, hmade⟩ := @exists_remapRequests (newId 0) now _ hrequest
    (folderIds (normalizeExport F checked) newId)
  have hremap : ∃ remapped, remapIdentifiers (normalizeExport F checked) newId now =
      some remapped := by
    unfold numberedRequests at hmade
    rw [remapIdentifiers, hfolders, hmade]
    exact ⟨_, rfl⟩
  obtain ⟨remapped, hremap⟩ := hremap
  rw [importPayload, if_pos rfl, hremap]
  exact ⟨_, rfl⟩

/-- A file is imported as a copy of the same shape exactly where its folders have ids of their own,
no request is in a folder whose id is also its own or that of a request before it, and no link is
anything else than a text that reads as a folder's id. -/
theorem importedCopy_iff (hchecked : validateCollection F input = .ok checked)
    (hnew : NewIds newId checked) :
    (∃ result, importCollection F newId now true input = .ok (some result) ∧
      IsCopy checked (normalizeExport F checked) result.payload) ↔
        CopyFits (normalizeExport F checked) := by
  have himport : importCollection F newId now true input =
      .ok (importPayload F newId now true checked) := by
    rw [importCollection, hchecked]
    rfl
  rw [himport]
  constructor
  · rintro ⟨result, hresult, hcopy⟩
    exact (isCopy_iff hchecked hnew (Except.ok.inj hresult)).mp hcopy
  · intro hfits
    obtain ⟨result, hresult⟩ : ∃ result, importPayload F newId now true checked = some result :=
      exists_importPayload hfits
    exact ⟨result, by rw [hresult], (isCopy_iff hchecked hnew hresult).mpr hfits⟩

end Copy

/-! ## A request with its folder's id -/

/-- A file of a folder in another one, listed before it, and a request in the inner one. -/
def copyFile (id : Text) : Json :=
  let inner := setField (fieldsOf (some (fileFolder (units "f") (units "A"))))
    (units "parentFolderId") (.string (units "g"))
  let request :=
    setField (fieldsOf (some (fileRequest id))) (units "folderId") (.string (units "f"))
  .object (setField (setField (fieldsOf (some (folderFile (units "f") (units "g"))))
    (units "folders") (.array [.object inner, fileFolder (units "g") (units "B")]))
    (units "requests") (.array [.object request]))

/-- What such a file holds, once it is checked. -/
def copyFacts (id : Text) (checked : CollectionExport) : Bool :=
  let file := normalizeExport plainFiles checked
  decide (((file.folders.map Doc.metaId).Nodup ∧ units "f" ∈ file.folders.map Doc.metaId) ∧
    (∀ key ∈ keysOf checked, key.head? ≠ some 0x6E) ∧
    (∀ folder ∈ file.folders ++ checked.folders, field folder (units "parentFolderId") = none ∨
      textOf (field folder (units "parentFolderId")) = some (units "g")) ∧
    (∀ request ∈ file.requests ++ checked.requests,
      textOf (field request (units "folderId")) = some (units "f")) ∧
    file.requests.map Doc.metaId = [id])

theorem eq_of_textOf {value : Option Json} {t : Text} (h : textOf value = some t) :
    value = some (.string t) := by
  unfold textOf at h
  split at h
  · cases h
    rfl
  · cases h

/-- Such a file is accepted as what it holds. -/
theorem copyFile_checked {id : Text}
    (h :
      ((validateCollection plainFiles (some (copyFile id))).toOption.any (copyFacts id)) = true) :
    ∃ checked, validateCollection plainFiles (some (copyFile id)) = .ok checked ∧
      NewIds letterId checked ∧
      (((normalizeExport plainFiles checked).folders.map Doc.metaId).Nodup ∧
        units "f" ∈ (normalizeExport plainFiles checked).folders.map Doc.metaId) ∧
      (∀ folder ∈ (normalizeExport plainFiles checked).folders,
        field folder (units "parentFolderId") = none ∨
          field folder (units "parentFolderId") = some (.string (units "g"))) ∧
      (∀ request ∈ (normalizeExport plainFiles checked).requests,
        field request (units "folderId") = some (.string (units "f"))) ∧
      (normalizeExport plainFiles checked).requests.map Doc.metaId = [id] := by
  cases hok : validateCollection plainFiles (some (copyFile id)) with
  | error issues =>
      rw [hok] at h
      cases h
  | ok checked =>
      rw [hok] at h
      have hfacts : copyFacts id checked = true := h
      obtain ⟨hfolders, hkeys, hparents, hplaces, hid⟩ := of_decide_eq_true hfacts
      -- Each new id begins with the letter n, and no key of the file does.
      have hletter : ∀ i, (letterId i).head? = some 0x6E := fun i => rfl
      refine ⟨checked, rfl, ⟨letterId_injective, ?_, ?_, ?_, ?_⟩, hfolders, ?_, ?_, hid⟩
      · exact fun i => List.cons_ne_nil _ _
      · exact fun i hmem => hkeys _ hmem (hletter i)
      · intro i folder hfolder hlink
        rcases hparents folder (List.mem_append_right _ hfolder) with hnone | htext
        · rw [hnone] at hlink
          cases hlink
        · rw [hlink] at htext
          have hhead := congrArg List.head? (Option.some.inj htext)
          rw [hletter] at hhead
          exact absurd hhead (by decide)
      · intro i request hrequest hlink
        have htext := hplaces request (List.mem_append_right _ hrequest)
        rw [hlink] at htext
        have hhead := congrArg List.head? (Option.some.inj htext)
        rw [hletter] at hhead
        exact absurd hhead (by decide)
      · intro folder hfolder
        exact (hparents folder (List.mem_append_left _ hfolder)).imp (fun h => h) eq_of_textOf
      · intro request hrequest
        exact eq_of_textOf (hplaces request (List.mem_append_left _ hrequest))

/-- A request with an id of its own is copied into the copy of its folder. -/
theorem copyFile_copied : ∃ checked result,
    validateCollection plainFiles (some (copyFile (units "r"))) = .ok checked ∧
      importCollection plainFiles letterId .null true (some (copyFile (units "r"))) =
        .ok (some result) ∧
      IsCopy checked (normalizeExport plainFiles checked) result.payload := by
  obtain ⟨checked, hchecked, hnew, hfolders, hparents, hplaces, hids⟩ :=
    @copyFile_checked (units "r") (by decide +kernel)
  have hfits : CopyFits (normalizeExport plainFiles checked) := by
    refine ⟨hfolders.1, fun folder hfolder => ?_, fun j request hj => ?_⟩
    · rcases hparents folder hfolder with hnone | htext
      · rw [hnone]
        trivial
      · rw [htext]
        exact fun _ => List.not_mem_nil
    · rw [hplaces request (List.mem_of_getElem? hj)]
      intro _ htaken
      obtain ⟨other, hother, hkey⟩ := List.mem_map.mp htaken
      have hmem := List.mem_map_of_mem (f := Doc.metaId) (List.mem_of_mem_take hother)
      rw [hids, hkey] at hmem
      exact absurd hmem (by decide)
  obtain ⟨result, hresult, hcopy⟩ :=
    (@importedCopy_iff plainFiles checked letterId .null _ hchecked hnew).mpr hfits
  exact ⟨checked, result, hchecked, hresult, hcopy⟩

/-- A request with its folder's id is copied out of it. -/
theorem sharedId_not_copied : ∃ checked,
    validateCollection plainFiles (some (copyFile (units "f"))) = .ok checked ∧
      NewIds letterId checked ∧
      ¬ ∃ result, importCollection plainFiles letterId .null true (some (copyFile (units "f"))) =
          .ok (some result) ∧
        IsCopy checked (normalizeExport plainFiles checked) result.payload := by
  obtain ⟨checked, hchecked, hnew, hfolders, -, hplaces, hids⟩ :=
    @copyFile_checked (units "f") (by decide +kernel)
  refine ⟨checked, hchecked, hnew, ?_⟩
  rintro ⟨result, hresult, hcopy⟩
  have himport : importCollection plainFiles letterId .null true (some (copyFile (units "f"))) =
      .ok (importPayload plainFiles letterId .null true checked) := by
    rw [importCollection, hchecked]
    rfl
  have hfits := (isCopy_iff hchecked hnew (Except.ok.inj (himport.symm.trans hresult))).mp hcopy
  cases hrequests : (normalizeExport plainFiles checked).requests with
  | nil =>
      rw [hrequests] at hids
      cases hids
  | cons request rest =>
      have hplace := hfits.requests 0 request (by rw [hrequests]; rfl)
      have hkey : Doc.metaId request = units "f" := by
        rw [hrequests] at hids
        exact (List.cons.inj hids).1
      rw [hplaces request (by rw [hrequests]; exact List.mem_cons_self), hrequests] at hplace
      refine hplace hfolders.2 ?_
      rw [idsUpTo, List.take_succ_cons, List.map_cons, hkey]
      exact List.mem_cons_self

end Wayfarer
