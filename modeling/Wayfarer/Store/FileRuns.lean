import Wayfarer.Store.TreeRuns
import Wayfarer.Store.Undone

/-!
# A saved request keeps its files

A picked file is in the memory of its page until a save of its request writes it to the store. Every
order of picking, saving, copying, deleting, putting back and importing, in any number of pages, is
a list of `FileStep`s. Between the press of Save and the transaction that writes the request, steps
of other pages come; what is noted at the press (`Pressed`) is what the save has to keep.
-/

set_option autoImplicit false

namespace Wayfarer

open Library

/-! ## Saving -/

/-- What a save writes: onto a stored request, or as a new one of a collection. -/
inductive SaveTarget where
  | update (id : Text)
  | create (collectionId name : Text) (folder : Option Text)

/-- A Save that was pressed and is not written yet. -/
structure Pressed where
  page : Nat
  target : SaveTarget
  /-- The body, and what else of the request is saved. -/
  body : Fields
  rest : Fields
  /-- The files of the body that its page held, and those that were stored,
  when Save was pressed. -/
  picked : List Text
  stored : List Text
  /-- The files handed over to be stored with the request; nothing yet where it has none. -/
  held : Option (List (Text × StoredFile)) := none

/-- The files the saved body names. -/
def Pressed.fileIds (p : Pressed) : List Text :=
  fileIdsOf (some (.object p.body))

/-- The picked files a body names: what a save has to store with the request. -/
def unsavedFiles (picked : OrderedMap Text StoredFile) (body : Fields) : List (Text × StoredFile) :=
  (fileIdsOf (some (.object body))).filterMap fun id => (picked.get? id).map fun file => (id, file)

namespace Workspace

variable (w : Workspace) (m : Moment)

/-- A request as a save writes it onto the stored one. -/
def updatedRequest (body rest : Fields) (doc : Doc) : Doc :=
  let assigned := setField (rest.foldl (fun doc member => setField doc member.1 member.2) doc)
    (units "body") (.object body)
  let named := match textOf (field rest (units "name")) with
    | some name => setField assigned (units "name") (.string (trim name))
    | none => assigned
  ensureId (Doc.touched named m.now)

/-- Writes the composer's request back onto a saved one; nothing where it is gone. -/
def updateRequest (id : Text) (body rest : Fields) (files : List (Text × StoredFile)) :
    Option Workspace :=
  (w.stores.requests.get? id).map fun doc =>
    -- The body may have let go of a file.
    sweepFiles
      { stores := { w.stores with
          requests := w.stores.requests.put (updatedRequest m body rest doc) }
        files := w.files.putAll files }

/-- A new request, stored with the files its body names that are not stored yet. -/
def createRequest (content : Fields) (collectionId name : Text) (folder : Option Text)
    (files : List (Text × StoredFile)) : Option Workspace :=
  (w.stores.createRequest m content collectionId name folder none).map fun stores =>
    { stores, files := w.files.putAll files }

/-- What a save makes of the stores; nothing where it does not succeed. -/
def save (target : SaveTarget) (body rest : Fields) (files : List (Text × StoredFile)) :
    Option Workspace :=
  match target with
  | .update id => w.updateRequest m id body rest files
  | .create collectionId name folder =>
      w.createRequest m (setField rest (units "body") (.object body)) collectionId name folder files

end Workspace

/-! ## The machine -/

/-- The stores, what an undo was offered for, the files each page picked, and
the saves under way. -/
structure FileState where
  workspace : Workspace := {}
  offered : List RemovedWithFiles := []
  picked : Nat → OrderedMap Text StoredFile := fun _ => .empty
  saves : List Pressed := []

/-- A step of a page: one on the tree, a file picked, Save pressed, the files of a save handed over,
and the save written. -/
inductive FileStep where
  | tree (a : TreeStep)
  | pick (page : Nat) (id : Text) (file : StoredFile)
  | press (page : Nat) (target : SaveTarget) (body rest : Fields)
  | hand (i : Nat)
  | write (m : Moment) (i : Nat)

/-- A file a request body may hold. Larger ones are refused when picked. -/
def maxFileBytes : Nat := 50 * 1024 * 1024

namespace FileState

/-- The workspace after a delete, for which an undo is offered. -/
def deleted (s : FileState) (after : Workspace × RemovedWithFiles) : FileState :=
  { s with workspace := after.1, offered := s.offered ++ [after.2] }

/-- A file read, made ready and stored: nothing happens where it is refused. -/
def imported (F : FilePlatform) (s : FileState) (m : Moment) (duplicate : Bool)
    (input : Option Json) : FileState :=
  match importCollection F m.newId m.now duplicate input with
  | .ok (some result) =>
      match s.workspace.importCollectionExport result.payload duplicate with
      | some (workspace, replaced) => { s with workspace, offered := s.offered ++ replaced }
      | none => s
  | _ => s

/-- What a step on the tree makes of the workspace. -/
def nextTree (F : FilePlatform) (s : FileState) (a : TreeStep) : FileState :=
  match a with
  | .deleteCollection id => s.deleted (s.workspace.deleteCollection id)
  | .deleteFolder id => s.deleted (s.workspace.deleteFolder id)
  | .deleteRequest id => s.deleted (s.workspace.deleteRequest id)
  | .undo i =>
      match s.offered[i]? with
      | some removed => { s with workspace := s.workspace.putBack removed }
      | none => s
  | .importFile m duplicate input => s.imported F m duplicate input
  -- The others leave the files alone.
  | a =>
      let tree : TreeState := { stores := s.workspace.stores }
      { s with workspace := { s.workspace with stores := (tree.next F a).stores } }

/-- What a press of Save notes. -/
def pressed (s : FileState) (page : Nat) (target : SaveTarget) (body rest : Fields) : Pressed :=
  let ids := fileIdsOf (some (.object body))
  { page, target, body, rest
    picked := ids.filter fun id => ((s.picked page).get? id).isSome
    stored := ids.filter fun id => (s.workspace.files.get? id).isSome }

/-- What a save that was handed its files makes of the stores. -/
def written (s : FileState) (m : Moment) (i : Nat) : Option Workspace :=
  match s.saves[i]? with
  | some p => p.held.bind fun files => s.workspace.save m p.target p.body p.rest files
  | none => none

/-- The machine: what a step makes of the state. -/
def step (F : FilePlatform) (s : FileState) : FileStep → Option FileState
  | .tree a => some (s.nextTree F a)
  | .pick page id file =>
      if maxFileBytes < file.bytes.length then some s
      else some { s with picked := fun other =>
        if other = page then (s.picked page).set id file else s.picked other }
  | .press page target body rest =>
      some { s with saves := s.saves ++ [s.pressed page target body rest] }
  | .hand i =>
      (s.saves[i]?).bind fun p =>
        let handed := { p with held := some (unsavedFiles (s.picked p.page) p.body) }
        if p.held.isNone then some { s with saves := s.saves.set i handed } else none
  | .write m i =>
      (s.saves[i]?).bind fun p =>
        if p.held.isSome then
          some { s with workspace := (s.written m i).getD s.workspace, saves := s.saves.eraseIdx i }
        else none

end FileState

/-! ## What a save writes -/

section Save

variable {w w' : Workspace} {m : Moment} {body rest : Fields} {files : List (Text × StoredFile)}

/-- Every stored file is named by a stored request. -/
def Workspace.AllNamed (w : Workspace) : Prop :=
  ∀ file ∈ w.files, FileNamed w.stores.requests file.1

/-- A stored file is gone only where no stored request names it. -/
def LostUnnamed (w w' : Workspace) : Prop :=
  ∀ file ∈ w.files, w'.files.get? file.1 = none → ¬ FileNamed w'.stores.requests file.1

theorem allNamed_sweepFiles (w : Workspace) : w.sweepFiles.AllNamed :=
  fun _ hfile => (mem_sweepFiles.mp hfile).2

/-- Where every file of before is still there, or swept, none is lost that is named. -/
theorem lostUnnamed_sweepFiles
    (h : ∀ file ∈ w.files, (w'.files.get? file.1).isSome) : LostUnnamed w w'.sweepFiles := by
  intro file hfile hgone hnamed
  obtain ⟨kept, hkept, hid⟩ := Table.isSome_get?_iff.mp (h file hfile)
  have hstays : kept ∈ w'.sweepFiles.files := by
    rw [mem_sweepFiles, hid]
    exact ⟨hkept, hnamed⟩
  exact Table.get?_eq_none_iff.mp hgone kept hstays hid

theorem lostUnnamed_of_kept (h : ∀ file ∈ w.files, (w'.files.get? file.1).isSome) :
    LostUnnamed w w' := by
  intro file hfile hgone
  have hkept := h file hfile
  rw [hgone] at hkept
  cases hkept

theorem requestFileIds_setField {doc : Doc} {key : Text} {value : Json} (h : key ≠ units "body") :
    requestFileIds (setField doc key value) = requestFileIds doc := by
  rw [requestFileIds, field_setField_of_ne h, requestFileIds]

theorem requestFileIds_touched (doc : Doc) (now : Json) :
    requestFileIds (Doc.touched doc now) = requestFileIds doc :=
  requestFileIds_setField (by decide)

theorem requestFileIds_ensureId (doc : Doc) :
    requestFileIds (ensureId doc) = requestFileIds doc := by
  rw [requestFileIds, field_ensureId (by decide), requestFileIds]

theorem requestFileIds_copy (m : Moment) (id : Text) (doc : Doc) :
    requestFileIds (m.copy id doc) = requestFileIds doc := by
  rw [Moment.copy, requestFileIds_setField (by decide), requestFileIds_setField (by decide)]

theorem requestFileIds_withLink {doc : Doc} {key : Text} {link : Option Json}
    (h : key ≠ units "body") : requestFileIds (withLink doc key link) = requestFileIds doc := by
  cases link with
  | some value => exact requestFileIds_setField h
  | none => rw [withLink, requestFileIds, field_removeField_of_ne h, requestFileIds]

/-- A request written back names the files of the body that was saved. -/
theorem requestFileIds_updatedRequest (doc : Doc) :
    requestFileIds (Workspace.updatedRequest m body rest doc) =
      fileIdsOf (some (.object body)) := by
  have hassigned : ∀ doc : Doc, requestFileIds (setField doc (units "body") (.object body)) =
      fileIdsOf (some (.object body)) := by
    intro doc
    rw [requestFileIds, field_setField_self]
  unfold Workspace.updatedRequest
  dsimp only
  rw [requestFileIds_ensureId, requestFileIds_touched]
  cases textOf (field rest (units "name")) with
  | none => exact hassigned _
  | some name => exact (requestFileIds_setField (by decide)).trans (hassigned _)

/-- A save succeeds where the request it writes onto is stored, or the id of a new one is not. -/
def SaveTarget.Fits (w : Workspace) (m : Moment) : SaveTarget → Prop
  | .update id => (w.stores.requests.get? id).isSome
  | .create _ _ _ => w.stores.requests.get? (m.newId 0) = none

/-- What a save leaves: its request is stored and names the files of the body; those handed over are
stored, and of the others none is gone that a stored request names. -/
structure SaveLeaves (w w' : Workspace) (body : Fields)
    (files : List (Text × StoredFile)) : Prop where
  stored : ∃ request ∈ w'.stores.requests,
    requestFileIds request = fileIdsOf (some (.object body))
  allNamed : w.AllNamed → (∀ file ∈ files, file.1 ∈ fileIdsOf (some (.object body))) → w'.AllNamed
  lost : LostUnnamed w w'
  files : ∀ id ∈ fileIdsOf (some (.object body)),
    (w'.files.get? id).isSome ↔ id ∈ files.map Prod.fst ∨ (w.files.get? id).isSome

theorem saveLeaves_updateRequest {id : Text} (h : w.updateRequest m id body rest files = some w') :
    SaveLeaves w w' body files := by
  obtain ⟨doc, -, rfl⟩ := Option.map_eq_some_iff.mp h
  have hstored : ∃ request ∈ w.stores.requests.put (Workspace.updatedRequest m body rest doc),
      requestFileIds request = fileIdsOf (some (.object body)) :=
    ⟨_, Table.mem_put.mpr (Or.inl rfl), requestFileIds_updatedRequest doc⟩
  refine ⟨hstored, fun _ _ => allNamed_sweepFiles _, ?_, ?_⟩
  · apply lostUnnamed_sweepFiles
    intro file hfile
    exact Table.isSome_get?_putAll.mpr (Or.inr (Table.isSome_get?_iff.mpr ⟨file, hfile, rfl⟩))
  · intro id hid
    obtain ⟨request, hrequest, hids⟩ := hstored
    rw [← Table.isSome_get?_putAll, Table.isSome_get?_iff, Table.isSome_get?_iff]
    constructor
    · rintro ⟨file, hfile, hkey⟩
      exact ⟨file, (mem_sweepFiles.mp hfile).1, hkey⟩
    · rintro ⟨file, hfile, rfl⟩
      exact ⟨file, mem_sweepFiles.mpr ⟨hfile, request, hrequest, by rwa [hids]⟩, rfl⟩

theorem saveLeaves_createRequest {content : Fields} {collectionId name : Text}
    {folder : Option Text} (hbody : field content (units "body") = some (.object body))
    (h : w.createRequest m content collectionId name folder files = some w') :
    SaveLeaves w w' body files := by
  obtain ⟨stores, hstores, rfl⟩ := Option.map_eq_some_iff.mp h
  obtain ⟨requests, hadd, rfl⟩ := Option.map_eq_some_iff.mp hstores
  have hmem : ∀ request, request ∈ requests ↔ _ ∨ request ∈ w.stores.requests :=
    fun request => Table.mem_of_add hadd
  have hnew := (Table.mem_of_add hadd).mpr (Or.inl rfl)
  have hids : ∀ doc : Doc, field doc (units "body") = some (.object body) →
      requestFileIds doc = fileIdsOf (some (.object body)) := by
    intro doc hdoc
    rw [requestFileIds, hdoc]
  have hstored : ∃ request ∈ requests,
      requestFileIds request = fileIdsOf (some (.object body)) := by
    refine ⟨_, hnew, ?_⟩
    rw [requestFileIds_setField (by decide), requestFileIds_setField (by decide),
      requestFileIds_copy, requestFileIds_withLink (by decide), requestFileIds_setField (by decide)]
    exact hids content hbody
  refine ⟨hstored, ?_, ?_, ?_⟩
  · intro hall hfiles file hfile
    rcases Table.mem_putAll.mp hfile with hlast | ⟨hold, -⟩
    · obtain ⟨request, hrequest, hnames⟩ := hstored
      exact ⟨request, hrequest, by rw [hnames]; exact hfiles file (Table.lastOf_mem hlast).1⟩
    · exact (hall file hold).mono fun request hrequest =>
        (Table.mem_of_add hadd).mpr (Or.inr hrequest)
  · apply lostUnnamed_of_kept
    intro file hfile
    exact Table.isSome_get?_putAll.mpr (Or.inr (Table.isSome_get?_iff.mpr ⟨file, hfile, rfl⟩))
  · exact fun id _ => Table.isSome_get?_putAll

theorem saveLeaves_save {target : SaveTarget} (h : w.save m target body rest files = some w') :
    SaveLeaves w w' body files := by
  cases target with
  | update id => exact saveLeaves_updateRequest h
  | create collectionId name folder =>
      exact saveLeaves_createRequest (field_setField_self _ _ _) h

/-- When a save succeeds. -/
theorem isSome_save_iff {target : SaveTarget} :
    (w.save m target body rest files).isSome ↔ target.Fits w m := by
  cases target with
  | update id =>
      unfold Workspace.save Workspace.updateRequest SaveTarget.Fits
      rw [Option.isSome_map]
  | create collectionId name folder =>
      have hkey : ∀ content : Fields, ∀ order : Json, Doc.metaId (setField (setField
          (m.copy (m.newId 0) content) (units "name") (.string (trim name)))
            (units "order") order) =
          m.newId 0 := by
        intro content order
        rw [Doc.metaId_setField (by decide), Doc.metaId_setField (by decide), metaId_copy]
      unfold Workspace.save Workspace.createRequest CollectionStores.createRequest SaveTarget.Fits
      dsimp only
      rw [Option.isSome_map, Option.isSome_map, Table.add, hkey]
      cases w.stores.requests.get? (m.newId 0) <;> simp

end Save

/-! ## Steps that leave the files alone -/

/-- Every file a request of one table names is named in the other. -/
def NamesKept (t t' : DocTable) : Prop :=
  ∀ request ∈ t, ∃ request' ∈ t', requestFileIds request' = requestFileIds request

theorem NamesKept.refl (t : DocTable) : NamesKept t t := fun request h => ⟨request, h, rfl⟩

theorem NamesKept.of_subset {t t' : DocTable} (h : ∀ request ∈ t, request ∈ t') :
    NamesKept t t' := fun request hrequest => ⟨request, h request hrequest, rfl⟩

theorem NamesKept.trans {t t' t'' : DocTable} (h : NamesKept t t') (h' : NamesKept t' t'') :
    NamesKept t t'' := by
  intro request hrequest
  obtain ⟨kept, hkept, hids⟩ := h request hrequest
  obtain ⟨kept', hkept', hids'⟩ := h' kept hkept
  exact ⟨kept', hkept', hids'.trans hids⟩

theorem NamesKept.named {t t' : DocTable} (h : NamesKept t t') {id : Text} (hid : FileNamed t id) :
    FileNamed t' id := by
  obtain ⟨request, hrequest, hnames⟩ := hid
  obtain ⟨kept, hkept, hids⟩ := h request hrequest
  exact ⟨kept, hkept, by rw [hids]; exact hnames⟩

/-- A change of a request that leaves it its key and its files. -/
theorem namesKept_change (m : Moment) (t : DocTable) (id : Text) {next : Doc → Doc}
    (hkey : ∀ doc, Doc.metaId (next doc) = Doc.metaId doc)
    (hids : ∀ doc, requestFileIds (next doc) = requestFileIds doc) :
    NamesKept t (CollectionStores.change m t id next) := by
  unfold CollectionStores.change
  cases hget : t.get? id with
  | none => exact NamesKept.refl t
  | some doc =>
      obtain ⟨hmem, -⟩ := Table.get?_eq_some_iff.mp hget
      intro request hrequest
      by_cases hsame : Doc.metaId request = Doc.metaId doc
      · have heq := Table.eq_of_key_eq hrequest hmem hsame
        refine ⟨_, Table.mem_put.mpr (Or.inl rfl), ?_⟩
        rw [requestFileIds_touched, hids, heq]
      · refine ⟨request, Table.mem_put.mpr (Or.inr ⟨hrequest, ?_⟩), rfl⟩
        rwa [Doc.metaId_touched, hkey]

/-- Requests added to a table: those that were there are. -/
theorem namesKept_addAll {t t' : DocTable} {docs : List Doc}
    (h : CollectionStores.addAll t docs = some t') : NamesKept t t' :=
  NamesKept.of_subset fun _ hrequest => (mem_addAll h).mpr (Or.inl hrequest)

theorem namesKept_reorderChild (m : Moment) (stores : CollectionStores) (entry : Text × Json) :
    NamesKept stores.requests (stores.reorderChild m entry).requests := by
  unfold CollectionStores.reorderChild
  dsimp only
  cases stores.folders.get? entry.1 with
  | some folder => exact NamesKept.refl _
  | none =>
      apply namesKept_change
      · exact fun doc => Doc.metaId_setField (by decide)
      · exact fun doc => requestFileIds_setField (by decide)

theorem namesKept_reorderChildren (m : Moment) (stores : CollectionStores)
    (order : List (Text × Json)) :
    NamesKept stores.requests (stores.reorderChildren m order).requests := by
  unfold CollectionStores.reorderChildren
  induction order generalizing stores with
  | nil => exact NamesKept.refl _
  | cons entry rest ih =>
      rw [List.foldl_cons]
      exact (namesKept_reorderChild m stores entry).trans (ih _)

theorem namesKept_copyFolder {m : Moment} {top c : Text} {s s' : CollectionStores.Copying}
    {folder : Doc} (h : CollectionStores.copyFolder m top c s folder = some s') :
    NamesKept s.stores.requests s'.stores.requests := by
  unfold CollectionStores.copyFolder at h
  dsimp only at h
  split at h
  · next folders requests _ hrequests =>
      cases h
      exact namesKept_addAll hrequests
  · cases h

/-- What a step on the tree that takes nothing out and puts nothing back leaves of the requests. -/
theorem namesKept_tree {F : FilePlatform} {stores : CollectionStores} {a : TreeStep}
    (hdelete : ∀ id, a ≠ .deleteCollection id ∧ a ≠ .deleteFolder id ∧ a ≠ .deleteRequest id)
    (hundo : ∀ i, a ≠ .undo i) (himport : ∀ m duplicate input, a ≠ .importFile m duplicate input) :
    NamesKept stores.requests
      (TreeState.next F { stores, offered := [] } a).stores.requests := by
  have hcommit : ∀ stores' : Option CollectionStores,
      (∀ after, stores' = some after → NamesKept stores.requests after.requests) →
      NamesKept stores.requests
        (TreeState.commit { stores, offered := [] } stores').stores.requests := by
    intro stores' h
    cases stores' with
    | none => exact NamesKept.refl _
    | some after => exact h after rfl
  cases a with
  | createCollection m name description =>
      apply hcommit
      intro after hafter
      obtain ⟨collections, -, rfl⟩ := Option.map_eq_some_iff.mp hafter
      exact NamesKept.refl _
  | createFolder m c name parent order =>
      apply hcommit
      intro after hafter
      obtain ⟨folders, -, rfl⟩ := Option.map_eq_some_iff.mp hafter
      exact NamesKept.refl _
  | createRequest m content c name folder order =>
      apply hcommit
      intro after hafter
      obtain ⟨requests, hadd, rfl⟩ := Option.map_eq_some_iff.mp hafter
      exact NamesKept.of_subset fun _ hrequest => (Table.mem_of_add hadd).mpr (Or.inr hrequest)
  | renameCollection m id name description => exact NamesKept.refl _
  | renameFolder m id name => exact NamesKept.refl _
  | renameRequest m id name =>
      apply namesKept_change
      · intro doc
        rw [(ensureId_spec _).1, Doc.metaId_setField (by decide)]
      · intro doc
        rw [requestFileIds_ensureId, requestFileIds_setField (by decide)]
  | duplicateCollection m id =>
      apply hcommit
      intro after hafter
      unfold CollectionStores.duplicateCollection at hafter
      split at hafter
      · cases hafter
        exact NamesKept.refl _
      · dsimp only at hafter
        split at hafter
        · next hrequests =>
            cases hafter
            exact namesKept_addAll hrequests
        · cases hafter
  | duplicateFolder m id =>
      apply hcommit
      intro after hafter
      unfold CollectionStores.duplicateFolder at hafter
      split at hafter
      · cases hafter
        exact NamesKept.refl _
      · obtain ⟨s, hs, rfl⟩ := Option.map_eq_some_iff.mp hafter
        -- One folder after the other.
        have hall : ∀ (folders : List Doc) (start s : CollectionStores.Copying) (c : Text),
            folders.foldlM (CollectionStores.copyFolder m id c) start = some s →
            NamesKept start.stores.requests s.stores.requests := by
          intro folders
          induction folders with
          | nil =>
              intro start s c hs
              cases hs
              exact NamesKept.refl _
          | cons folder rest ih =>
              intro start s c hs
              rw [List.foldlM_cons] at hs
              obtain ⟨next, hnext, hrest⟩ := Option.bind_eq_some_iff.mp hs
              exact (namesKept_copyFolder hnext).trans (ih next s c hrest)
        exact hall _ _ _ _ hs
  | duplicateRequest m id =>
      apply hcommit
      intro after hafter
      unfold CollectionStores.duplicateRequest at hafter
      split at hafter
      · cases hafter
        exact NamesKept.refl _
      · obtain ⟨requests, hadd, rfl⟩ := Option.map_eq_some_iff.mp hafter
        exact NamesKept.of_subset fun _ hrequest => (Table.mem_of_add hadd).mpr (Or.inr hrequest)
  | reorderCollections m order => exact NamesKept.refl _
  | reorderChildren m order =>
      exact namesKept_reorderChildren m stores order
  | deleteCollection id => exact absurd rfl (hdelete id).1
  | deleteFolder id => exact absurd rfl (hdelete id).2.1
  | deleteRequest id => exact absurd rfl (hdelete id).2.2
  | undo i => exact absurd rfl (hundo i)
  | importFile m duplicate input => exact absurd rfl (himport m duplicate input)

/-! ## What every step keeps -/

/-- A request that is stored once an undo is made names a file: one it puts back, or one it does not
write over. -/
def NamedOnceBack (w : Workspace) (removed : RemovedWithFiles) (id : Text) : Prop :=
  (∃ request, Table.lastOf Doc.metaId (w.stores.backs removed.toRemoved removed.requests)
      (Doc.metaId request) = some request ∧ id ∈ requestFileIds request) ∨
    ∃ request ∈ w.stores.requests,
      Doc.metaId request ∉ (w.stores.backs removed.toRemoved removed.requests).map Doc.metaId ∧
        id ∈ requestFileIds request

/-- The files an undo finds, and those it puts back with a request, are named once it is made. -/
def UndoNames (w : Workspace) (removed : RemovedWithFiles) : Prop :=
  (∀ file ∈ w.files, NamedOnceBack w removed file.1) ∧
    (w.stores.backs removed.toRemoved removed.requests ≠ [] →
      ∀ file ∈ removed.files, NamedOnceBack w removed file.1)

/-- When a step keeps the files of saved requests: an undo leaves each file to a request that names
it, and a save that succeeds finds the files that were stored when it was pressed. -/
def FileStep.KeptAt (s : FileState) : FileStep → Prop
  | .tree (.undo i) => ∀ removed, s.offered[i]? = some removed → UndoNames s.workspace removed
  | .write m i => ∀ p files, s.saves[i]? = some p → p.held = some files →
      p.target.Fits s.workspace m →
      ∀ id ∈ p.stored, id ∈ files.map Prod.fst ∨ (s.workspace.files.get? id).isSome
  | _ => True

/-- A step that keeps the files of saved requests: every stored file is named by one, a file is gone
only where none names it, and a save that succeeded leaves stored each file of its body that could
be read when it was pressed. -/
structure KeepsFiles (s : FileState) (a : FileStep) (s' : FileState) : Prop where
  named : s'.workspace.AllNamed
  lost : LostUnnamed s.workspace s'.workspace
  saved : ∀ m i p, a = .write m i → s.saves[i]? = some p → (s.written m i).isSome →
    ∀ id ∈ p.fileIds, id ∈ p.picked ∨ id ∈ p.stored → (s'.workspace.files.get? id).isSome

/-- What is so before every step: the stored files are named, and the saves under way note files of
their bodies, of which those picked are among the ones handed over. -/
structure FileState.Inv (s : FileState) : Prop where
  named : s.workspace.AllNamed
  picked : ∀ p ∈ s.saves, ∀ id ∈ p.picked, id ∈ p.fileIds ∧ ((s.picked p.page).get? id).isSome
  stored : ∀ p ∈ s.saves, ∀ id ∈ p.stored, id ∈ p.fileIds
  held : ∀ p ∈ s.saves, ∀ files, p.held = some files →
    (∀ file ∈ files, file.1 ∈ p.fileIds) ∧ ∀ id ∈ p.picked, id ∈ files.map Prod.fst

section Steps

variable {F : FilePlatform} {s s' : FileState}

theorem inv_noFiles : FileState.Inv {} where
  named file hfile := absurd hfile (Table.not_mem_empty file)
  picked _ hp := absurd hp List.not_mem_nil
  stored _ hp := absurd hp List.not_mem_nil
  held _ hp := absurd hp List.not_mem_nil

theorem allNamed_iff {w : Workspace} :
    w.AllNamed ↔ ∀ id, (w.files.get? id).isSome → FileNamed w.stores.requests id := by
  constructor
  · intro h id hid
    obtain ⟨file, hfile, rfl⟩ := Table.isSome_get?_iff.mp hid
    exact h file hfile
  · exact fun h file hfile => h file.1 (Table.isSome_get?_iff.mpr ⟨file, hfile, rfl⟩)

theorem isSome_get?_of_mem {w : Workspace} {file : Text × StoredFile} (h : file ∈ w.files) :
    (w.files.get? file.1).isSome :=
  Table.isSome_get?_iff.mpr ⟨file, h, rfl⟩

/-- A step that is no write of a save keeps the files where it leaves them named and loses none that
is. -/
theorem keepsFiles_of_workspace {a : FileStep} (ha : ∀ m i, a ≠ .write m i)
    (hnamed : s'.workspace.AllNamed) (hlost : LostUnnamed s.workspace s'.workspace) :
    KeepsFiles s a s' :=
  ⟨hnamed, hlost, fun m i _ hwrite => absurd hwrite (ha m i)⟩

/-- The stores after an undo: what its requests name once it is made. -/
theorem fileNamed_putBack {w : Workspace} {removed : RemovedWithFiles} {id : Text} :
    FileNamed (w.putBack removed).stores.requests id ↔ NamedOnceBack w removed id := by
  have hrequests : (w.putBack removed).stores.requests =
      w.stores.requests.putAll (w.stores.backs removed.toRemoved removed.requests) := by
    unfold Workspace.putBack CollectionStores.putBack
    dsimp only
    rw [backs_eq]
  unfold FileNamed NamedOnceBack
  rw [hrequests]
  constructor
  · rintro ⟨request, hrequest, hid⟩
    rcases Table.mem_putAll.mp hrequest with hlast | ⟨hold, hkey⟩
    · exact Or.inl ⟨request, hlast, hid⟩
    · exact Or.inr ⟨request, hold, hkey, hid⟩
  · rintro (⟨request, hlast, hid⟩ | ⟨request, hold, hkey, hid⟩)
    · exact ⟨request, Table.mem_putAll.mpr (Or.inl hlast), hid⟩
    · exact ⟨request, Table.mem_putAll.mpr (Or.inr ⟨hold, hkey⟩), hid⟩

/-- The files after an undo. -/
theorem isSome_files_putBack {w : Workspace} {removed : RemovedWithFiles} {id : Text} :
    ((w.putBack removed).files.get? id).isSome ↔
      (w.files.get? id).isSome ∨ w.stores.backs removed.toRemoved removed.requests ≠ [] ∧
        id ∈ removed.files.map Prod.fst := by
  unfold Workspace.putBack CollectionStores.putBack
  dsimp only
  rw [backs_eq]
  split_ifs with hnone
  · rw [List.isEmpty_iff] at hnone
    simp [hnone]
  · rw [List.isEmpty_iff] at hnone
    rw [Table.isSome_get?_putAll]
    constructor
    · rintro (hback | hold)
      · exact Or.inr ⟨hnone, hback⟩
      · exact Or.inl hold
    · rintro (hold | ⟨-, hback⟩)
      · exact Or.inr hold
      · exact Or.inl hback

theorem allNamed_putBack_iff {w : Workspace} {removed : RemovedWithFiles} :
    (w.putBack removed).AllNamed ↔ UndoNames w removed := by
  rw [allNamed_iff]
  constructor
  · intro h
    constructor
    · intro file hfile
      exact fileNamed_putBack.mp
        (h _ (isSome_files_putBack.mpr (Or.inl (isSome_get?_of_mem hfile))))
    · intro hback file hfile
      exact fileNamed_putBack.mp (h _ (isSome_files_putBack.mpr
        (Or.inr ⟨hback, List.mem_map_of_mem hfile⟩)))
  · rintro ⟨hstored, hback⟩ id hid
    rw [fileNamed_putBack]
    rcases isSome_files_putBack.mp hid with hold | ⟨hsome, hin⟩
    · obtain ⟨file, hfile, rfl⟩ := Table.isSome_get?_iff.mp hold
      exact hstored file hfile
    · obtain ⟨file, hfile, rfl⟩ := List.mem_map.mp hin
      exact hback hsome file hfile

/-- Stores written to in a way that keeps the names of all files, their files left alone. -/
theorem keepsFiles_of_namesKept {a : FileStep} (ha : ∀ m i, a ≠ .write m i) (h : s.Inv)
    (hfiles : s'.workspace.files = s.workspace.files)
    (hkept : NamesKept s.workspace.stores.requests s'.workspace.stores.requests) :
    KeepsFiles s a s' := by
  apply keepsFiles_of_workspace ha
  · intro file hfile
    rw [hfiles] at hfile
    exact hkept.named (h.named file hfile)
  · apply lostUnnamed_of_kept
    intro file hfile
    rw [hfiles]
    exact isSome_get?_of_mem hfile

theorem keepsFiles_afterDelete {a : FileStep} (ha : ∀ m i, a ≠ .write m i)
    {deleted : CollectionStores × Removed}
    (hworkspace : s'.workspace = (s.workspace.afterDelete deleted).1) : KeepsFiles s a s' := by
  apply keepsFiles_of_workspace ha
  · rw [hworkspace]
    exact allNamed_sweepFiles _
  · rw [hworkspace]
    exact lostUnnamed_sweepFiles fun file hfile => isSome_get?_of_mem hfile

/-- A file imported, or refused. -/
theorem keepsFiles_imported {m : Moment} {duplicate : Bool} {input : Option Json} (h : s.Inv) :
    KeepsFiles s (.tree (.importFile m duplicate input)) (s.imported F m duplicate input) := by
  have hsame : KeepsFiles s (.tree (.importFile m duplicate input)) s :=
    keepsFiles_of_namesKept (fun _ _ => by simp) h rfl (NamesKept.refl _)
  unfold FileState.imported
  split
  · split
    · next result _ _ _ hstores =>
        obtain ⟨stored, -, hworkspace⟩ := Option.map_eq_some_iff.mp hstores
        obtain ⟨rfl, -⟩ := Prod.mk.inj hworkspace
        apply keepsFiles_of_workspace (fun _ _ => by simp)
        · exact allNamed_sweepFiles _
        · exact lostUnnamed_sweepFiles fun file hfile => isSome_get?_of_mem hfile
    · exact hsame
  · exact hsame

/-- A step on the tree keeps the files, an undo exactly where it leaves each to a request that names
it. -/
theorem keepsFiles_tree_iff {a : TreeStep} (h : s.Inv) :
    KeepsFiles s (.tree a) (s.nextTree F a) ↔ FileStep.KeptAt s (.tree a) := by
  have ha : ∀ m i, FileStep.tree a ≠ .write m i := fun m i heq => by cases heq
  cases a with
  | deleteCollection id => exact iff_of_true (keepsFiles_afterDelete ha rfl) trivial
  | deleteFolder id => exact iff_of_true (keepsFiles_afterDelete ha rfl) trivial
  | deleteRequest id => exact iff_of_true (keepsFiles_afterDelete ha rfl) trivial
  | importFile m duplicate input => exact iff_of_true (keepsFiles_imported h) trivial
  | undo i =>
      unfold FileState.nextTree FileStep.KeptAt
      dsimp only
      cases hoffered : s.offered[i]? with
      | none =>
          apply iff_of_true
          · exact keepsFiles_of_namesKept ha h rfl (NamesKept.refl _)
          · intro removed hremoved
            cases hremoved
      | some removed =>
          constructor
          · rintro hkeeps _ hremoved
            cases hremoved
            exact allNamed_putBack_iff.mp hkeeps.named
          · intro hnames
            apply keepsFiles_of_workspace ha (allNamed_putBack_iff.mpr (hnames removed rfl))
            apply lostUnnamed_of_kept
            exact fun file hfile =>
              isSome_files_putBack.mpr (Or.inl (isSome_get?_of_mem hfile))
  | _ =>
      refine iff_of_true (keepsFiles_of_namesKept ha h rfl ?_) trivial
      exact namesKept_tree (fun _ => by simp) (fun _ => by simp) (fun _ _ _ => by simp)

/-- A save that is written keeps the files exactly where it finds those that were stored when it was
pressed. -/
theorem keepsFiles_write_iff {m : Moment} {i : Nat} {p : Pressed}
    {files : List (Text × StoredFile)} (h : s.Inv) (hp : s.saves[i]? = some p)
    (hheld : p.held = some files)
    (hs' : s'.workspace = (s.written m i).getD s.workspace) :
    KeepsFiles s (.write m i) s' ↔ FileStep.KeptAt s (.write m i) := by
  have hwritten : s.written m i = s.workspace.save m p.target p.body p.rest files := by
    rw [FileState.written, hp]
    dsimp only
    rw [hheld, Option.bind_some]
  have hmem := List.mem_of_getElem? hp
  obtain ⟨hown, hpicked⟩ := h.held p hmem files hheld
  -- The write succeeds where its target is still there.
  have hfits : (s.written m i).isSome ↔ p.target.Fits s.workspace m := by
    rw [hwritten, isSome_save_iff]
  constructor
  · intro hkeeps q files' hq hheld' hfit id hid
    rw [hp] at hq
    cases hq
    rw [hheld] at hheld'
    cases hheld'
    have hsuccess := hfits.mpr hfit
    have hstays := hkeeps.saved m i p rfl hp hsuccess id (h.stored p hmem id hid) (Or.inr hid)
    obtain ⟨w', hw'⟩ := Option.isSome_iff_exists.mp hsuccess
    rw [hs', hw', Option.getD_some] at hstays
    rw [hwritten] at hw'
    exact ((saveLeaves_save hw').files id (h.stored p hmem id hid)).mp hstays
  · intro hkept
    cases hw' : s.written m i with
    -- A write that fails leaves the store as it is.
    | none =>
        rw [hw', Option.getD_none] at hs'
        refine ⟨hs' ▸ h.named, ?_, fun m' i' q heq _ hsome => ?_⟩
        · apply lostUnnamed_of_kept
          intro file hfile
          rw [hs']
          exact isSome_get?_of_mem hfile
        · cases heq
          rw [hw'] at hsome
          cases hsome
    | some w' =>
        rw [hw', Option.getD_some] at hs'
        have hfit := hfits.mp (by rw [hw']; rfl)
        rw [hwritten] at hw'
        have hleaves := saveLeaves_save hw'
        refine ⟨hs' ▸ hleaves.allNamed h.named hown, hs' ▸ hleaves.lost, ?_⟩
        intro m' i' q heq hq _ id hid hread
        cases heq
        rw [hp] at hq
        cases hq
        rw [hs']
        apply (hleaves.files id hid).mpr
        -- A file was picked in this save, or the stored request held it already.
        rcases hread with hin | hin
        · exact Or.inl (hpicked id hin)
        · exact hkept p files hp hheld hfit id hin

/-- A step that leaves the stores alone, and the saves under way. -/
theorem keepsFiles_of_same {a : FileStep} (ha : ∀ m i, a ≠ .write m i) (h : s.Inv)
    (hworkspace : s'.workspace = s.workspace) : KeepsFiles s a s' := by
  apply keepsFiles_of_namesKept ha h
  · rw [hworkspace]
  · rw [hworkspace]
    exact NamesKept.refl _

/-- A step keeps the files of saved requests exactly where it meets its condition. -/
theorem keepsFiles_iff {a : FileStep} (h : s.Inv) (hstep : FileState.step F s a = some s') :
    KeepsFiles s a s' ↔ a.KeptAt s := by
  cases a with
  | tree a =>
      cases hstep
      exact keepsFiles_tree_iff h
  | pick page id file =>
      refine iff_of_true (keepsFiles_of_same (fun _ _ => by simp) h ?_) trivial
      rw [FileState.step] at hstep
      split_ifs at hstep
      · cases hstep
        rfl
      · cases hstep
        rfl
  | press page target body rest =>
      cases hstep
      exact iff_of_true (keepsFiles_of_same (fun _ _ => by simp) h rfl) trivial
  | hand i =>
      refine iff_of_true (keepsFiles_of_same (fun _ _ => by simp) h ?_) trivial
      obtain ⟨p, -, hnext⟩ := Option.bind_eq_some_iff.mp hstep
      dsimp only at hnext
      split_ifs at hnext
      cases hnext
      rfl
  | write m i =>
      obtain ⟨p, hp, hnext⟩ := Option.bind_eq_some_iff.mp hstep
      split_ifs at hnext with hheld
      obtain ⟨files, hfiles⟩ := Option.isSome_iff_exists.mp hheld
      cases hnext
      exact keepsFiles_write_iff h hp hfiles rfl

/-- The saves under way after a step on the tree, and what the pages picked. -/
theorem saves_nextTree (a : TreeStep) :
    (s.nextTree F a).saves = s.saves ∧ (s.nextTree F a).picked = s.picked := by
  cases a with
  | undo i =>
      unfold FileState.nextTree
      dsimp only
      cases s.offered[i]? <;> exact ⟨rfl, rfl⟩
  | importFile m duplicate input =>
      show (s.imported F m duplicate input).saves = s.saves ∧
        (s.imported F m duplicate input).picked = s.picked
      unfold FileState.imported
      split
      · split <;> exact ⟨rfl, rfl⟩
      · exact ⟨rfl, rfl⟩
  | _ => exact ⟨rfl, rfl⟩

/-- The saves a step leaves under way note what they noted. -/
theorem FileState.Inv.of_saves (h : s.Inv) (hnamed : s'.workspace.AllNamed)
    (hsaves : ∀ p ∈ s'.saves, p ∈ s.saves)
    (hpicked : ∀ page id, ((s.picked page).get? id).isSome → ((s'.picked page).get? id).isSome) :
    s'.Inv where
  named := hnamed
  picked p hp id hid := by
    obtain ⟨hin, hsome⟩ := h.picked p (hsaves p hp) id hid
    exact ⟨hin, hpicked p.page id hsome⟩
  stored p hp := h.stored p (hsaves p hp)
  held p hp := h.held p (hsaves p hp)

/-- The files handed over: those of the body that the page has picked. -/
theorem mem_unsavedFiles {picked : OrderedMap Text StoredFile} {body : Fields}
    {file : Text × StoredFile} :
    file ∈ unsavedFiles picked body ↔
      file.1 ∈ fileIdsOf (some (.object body)) ∧ picked.get? file.1 = some file.2 := by
  unfold unsavedFiles
  rw [List.mem_filterMap]
  constructor
  · rintro ⟨id, hid, hsome⟩
    obtain ⟨stored, hget, rfl⟩ := Option.map_eq_some_iff.mp hsome
    exact ⟨hid, hget⟩
  · rintro ⟨hid, hget⟩
    exact ⟨file.1, hid, by rw [hget]; rfl⟩

/-- A step that keeps the files keeps what is so before every step. -/
theorem FileState.Inv.step {a : FileStep} (h : s.Inv) (hkept : a.KeptAt s)
    (hstep : FileState.step F s a = some s') : s'.Inv := by
  have hnamed := ((keepsFiles_iff h hstep).mpr hkept).named
  cases a with
  | tree a =>
      cases hstep
      obtain ⟨hsaves, hpicked⟩ := @saves_nextTree F s a
      apply h.of_saves hnamed
      · rw [hsaves]
        exact fun p hp => hp
      · rw [hpicked]
        exact fun page id hid => hid
  | pick page id file =>
      rw [FileState.step] at hstep
      split_ifs at hstep
      · cases hstep
        exact h
      · cases hstep
        apply h.of_saves hnamed (fun p hp => hp)
        intro other key hkey
        dsimp only
        split_ifs with hpage
        · rw [OrderedMap.get?_set]
          split_ifs
          · rfl
          · rwa [← hpage]
        · exact hkey
  -- A new save holds no files yet, and those it picked are the page's of now.
  | press page target body rest =>
      cases hstep
      constructor
      · exact hnamed
      · intro p hp id hid
        rcases List.mem_append.mp hp with hold | hnew
        · exact h.picked p hold id hid
        · rw [List.mem_singleton.mp hnew] at hid ⊢
          exact List.mem_filter.mp hid
      · intro p hp id hid
        rcases List.mem_append.mp hp with hold | hnew
        · exact h.stored p hold id hid
        · rw [List.mem_singleton.mp hnew] at hid ⊢
          exact (List.mem_filter.mp hid).1
      · intro p hp files hfiles
        rcases List.mem_append.mp hp with hold | hnew
        · exact h.held p hold files hfiles
        · rw [List.mem_singleton.mp hnew] at hfiles
          cases hfiles
  -- The save now holds what the page still has of its files; the others are untouched.
  | hand i =>
      obtain ⟨p, hp, hnext⟩ := Option.bind_eq_some_iff.mp hstep
      dsimp only at hnext
      split_ifs at hnext
      cases hnext
      have hmem := List.mem_of_getElem? hp
      have hcases : ∀ q ∈ s.saves.set i
          { p with held := some (unsavedFiles (s.picked p.page) p.body) },
          q ∈ s.saves ∨ q = { p with held := some (unsavedFiles (s.picked p.page) p.body) } :=
        fun q hq => List.mem_or_eq_of_mem_set hq
      constructor
      · exact hnamed
      · intro q hq id hid
        rcases hcases q hq with hold | rfl
        · exact h.picked q hold id hid
        · exact h.picked p hmem id hid
      · intro q hq id hid
        rcases hcases q hq with hold | rfl
        · exact h.stored q hold id hid
        · exact h.stored p hmem id hid
      · intro q hq files hfiles
        rcases hcases q hq with hold | rfl
        · exact h.held q hold files hfiles
        · cases hfiles
          refine ⟨fun file hfile => (mem_unsavedFiles.mp hfile).1, fun id hid => ?_⟩
          obtain ⟨hin, hsome⟩ := h.picked p hmem id hid
          obtain ⟨file, hget⟩ := Option.isSome_iff_exists.mp hsome
          exact List.mem_map.mpr ⟨(id, file), mem_unsavedFiles.mpr ⟨hin, hget⟩, rfl⟩
  | write m i =>
      obtain ⟨p, -, hnext⟩ := Option.bind_eq_some_iff.mp hstep
      split_ifs at hnext
      cases hnext
      exact h.of_saves hnamed (fun q hq => List.mem_of_mem_eraseIdx hq) fun _ _ hid => hid

/-- In a run whose steps all meet their conditions, from empty stores, the next step keeps the files
of saved requests exactly where it meets its own. -/
theorem run_keepsFiles_iff {actions : List FileStep} {a : FileStep}
    (hmeets : Meets (FileState.step F) (fun s a => a.KeptAt s) {} actions)
    (hrun : run (FileState.step F) {} actions = some s)
    (hstep : FileState.step F s a = some s') : KeepsFiles s a s' ↔ a.KeptAt s := by
  have hinv := run_induction
    (fun _ _ _ (h : FileState.Inv _) hkept hnext => h.step hkept hnext) inv_noFiles hmeets hrun
  exact keepsFiles_iff hinv hstep

end Steps

/-! ## Runs that keep the files, and runs that do not -/

/-- A body that is a file. -/
def fileBody (id : Text) : Fields :=
  [(units "mode", .string (units "binary")),
    (units "binary",
      .object [(units "fileId", .string id), (units "fileName", .string (units "F"))])]

/-- A file is picked, and Save As pressed; the save is handed the file. -/
def pressedRun : List FileStep :=
  [.tree (.createCollection (tick 0) (units "C") none), .pick 0 (units "f") ⟨[1], units "t"⟩,
    .press 0 (.create (units "x") (units "R") none) (fileBody (units "f")) [], .hand 0]

/-- The request is stored with its file. -/
theorem pressedRun_keepsFiles : ∃ s s', run (FileState.step plainFiles) {} pressedRun = some s ∧
    FileState.step plainFiles s (.write (tick 1) 0) = some s' ∧
      (s'.workspace.files.get? (units "f")).isSome ∧ KeepsFiles s (.write (tick 1) 0) s' := by
  have hmeets : Meets (FileState.step plainFiles) (fun s a => a.KeptAt s) {} pressedRun :=
    ⟨trivial, trivial, trivial, trivial, trivial⟩
  have hrun : (run (FileState.step plainFiles) {} pressedRun).any (fun s =>
      (s.saves[0]?).any (fun p => p.stored = []) ∧
        (s.step plainFiles (.write (tick 1) 0)).any fun s' =>
          (s'.workspace.files.get? (units "f")).isSome) = true := by
    decide +kernel
  obtain ⟨s, hs, htest⟩ := exists_run_of_any hrun
  obtain ⟨hsaves, hnext⟩ := of_decide_eq_true htest
  obtain ⟨s', hs', hfile⟩ := (Option.any_eq_true _ _).mp hnext
  refine ⟨s, s', hs, hs', hfile, (run_keepsFiles_iff hmeets hs hs').mpr ?_⟩
  intro p files hp _ _ id hid
  rw [hp, Option.any_some, decide_eq_true_iff] at hsaves
  rw [hsaves] at hid
  cases hid

/-- The other page saves the request under another name, and this one deletes it meanwhile. -/
def raceRun : List FileStep :=
  pressedRun ++ [.write (tick 1) 0,
    .press 1 (.create (units "x") (units "S") none) (fileBody (units "f")) [],
    .tree (.deleteRequest (units "xx")), .hand 0]

/-- A request as a file has it. -/
def fileRequest (id : Text) : Json :=
  let zero : Json := .number ⟨units "0", JsonNumber.marks_zero⟩
  .object [(units "meta", .object [(units "id", .string id), (units "createdAt", zero),
      (units "updatedAt", zero)]),
    (units "collectionId", .string (units "c")), (units "name", .string (units "R")),
    (units "order", zero), (units "method", .string (units "GET")),
    (units "url", .string (units "u")), (units "params", .array []),
    (units "headers", .array []), (units "body", .object [(units "mode", .string (units "none"))]),
    (units "auth", .object [(units "type", .string (units "none"))]),
    (units "scripts", .object [(units "pre", .string []), (units "post", .string [])]),
    (units "settings", .object []), (units "tests", .array [])]

/-- A file of requests. -/
def requestFile (ids : List Text) : Json :=
  .object (setField (setField (fieldsOf (some (folderFile (units "f") (units "g"))))
    (units "folders") (.array [])) (units "requests") (.array (ids.map fileRequest)))

/-- A file takes over two requests of two collections, one of which is then deleted; the undo
deletes what was imported. -/
def strayRun : List FileStep :=
  pressedRun ++ [.write (tick 1) 0,
    .tree (.createCollection (tick 2) (units "D") none),
    .tree (.createRequest (tick 3) [] (units "xxx") (units "S") none none),
    .tree (.importFile (tick 4) false (some (requestFile [units "xx", units "xxxx"]))),
    .tree (.deleteCollection (units "x")), .tree (.deleteCollection (units "c"))]

/-- A request saved while another page deletes the last one that names its file is stored without
the file; and an undo that finds one of its collections gone stores a file that no request names. -/
theorem files_not_kept :
    (∃ s s', run (FileState.step plainFiles) {} raceRun = some s ∧
      FileState.step plainFiles s (.write (tick 2) 0) = some s' ∧
        ¬ KeepsFiles s (.write (tick 2) 0) s') ∧
    ∃ s s', run (FileState.step plainFiles) {} strayRun = some s ∧
      FileState.step plainFiles s (.tree (.undo 0)) = some s' ∧
        ¬ KeepsFiles s (.tree (.undo 0)) s' := by
  constructor
  · have hrun : (run (FileState.step plainFiles) {} raceRun).any (fun s =>
        (s.saves[0]?).any (fun p => units "f" ∈ p.fileIds ∧ units "f" ∈ p.stored) ∧
          (s.written (tick 2) 0).isSome ∧
            (s.step plainFiles (.write (tick 2) 0)).any fun s' =>
              (s'.workspace.files.get? (units "f")).isNone) = true := by
      decide +kernel
    obtain ⟨s, hs, htest⟩ := exists_run_of_any hrun
    obtain ⟨hsaves, hwritten, hnext⟩ := of_decide_eq_true htest
    obtain ⟨s', hs', hgone⟩ := (Option.any_eq_true _ _).mp hnext
    obtain ⟨p, hp, hids⟩ := (Option.any_eq_true _ _).mp hsaves
    obtain ⟨hnamed, hstored⟩ := of_decide_eq_true hids
    refine ⟨s, s', hs, hs', fun h => ?_⟩
    have hkept := h.saved (tick 2) 0 p rfl hp hwritten _ hnamed (Or.inr hstored)
    rw [Option.isNone_iff_eq_none.mp hgone] at hkept
    cases hkept
  · have hrun : (run (FileState.step plainFiles) {} strayRun).any (fun s =>
        (s.step plainFiles (.tree (.undo 0))).any fun s' =>
          (s'.workspace.files.get? (units "f")).isSome ∧
            isFileNamed s'.workspace.stores.requests (units "f") = false) = true := by
      decide +kernel
    obtain ⟨s, hs, hnext⟩ := exists_run_of_any hrun
    obtain ⟨s', hs', htest⟩ := (Option.any_eq_true _ _).mp hnext
    obtain ⟨hfile, hnone⟩ := of_decide_eq_true htest
    refine ⟨s, s', hs, hs', fun h => ?_⟩
    have hnamed := allNamed_iff.mp h.named _ hfile
    rw [← isFileNamed_iff, hnone] at hnamed
    cases hnamed

/-- A request is saved into a collection that another page deletes meanwhile. -/
def goneRun : List FileStep :=
  [.tree (.createCollection (tick 0) (units "C") none), .pick 0 (units "f") ⟨[1], units "t"⟩,
    .press 0 (.create (units "x") (units "R") none) (fileBody (units "f")) [],
    .tree (.deleteCollection (units "x")), .hand 0, .write (tick 1) 0]

/-- Deleted and put back, a request of a collection that is gone stays gone, with its file. -/
theorem goneRun_not_restored : ∃ s, run (FileState.step plainFiles) {} goneRun = some s ∧
    ∃ request ∈ s.workspace.stores.requests, ∃ file ∈ s.workspace.files,
      request ∉ ((s.workspace.deleteRequest (Doc.metaId request)).1.putBack
        (s.workspace.deleteRequest (Doc.metaId request)).2).stores.requests ∧
      file ∉ ((s.workspace.deleteRequest (Doc.metaId request)).1.putBack
        (s.workspace.deleteRequest (Doc.metaId request)).2).files := by
  have hrun : (run (FileState.step plainFiles) {} goneRun).any (fun s =>
      (s.workspace.stores.requests.get? (units "xx")).isSome ∧
        (s.workspace.files.get? (units "f")).isSome ∧
        (((s.workspace.deleteRequest (units "xx")).1.putBack
          (s.workspace.deleteRequest (units "xx")).2).stores.requests.get? (units "xx")) = none ∧
        (((s.workspace.deleteRequest (units "xx")).1.putBack
          (s.workspace.deleteRequest (units "xx")).2).files.get? (units "f")) = none) = true := by
    decide +kernel
  obtain ⟨s, hs, htest⟩ := exists_run_of_any hrun
  obtain ⟨hrequest, hfile, hgone, hlost⟩ := of_decide_eq_true htest
  obtain ⟨request, hmem, hkey⟩ := Table.isSome_get?_iff.mp hrequest
  obtain ⟨file, hin, hid⟩ := Table.isSome_get?_iff.mp hfile
  refine ⟨s, hs, request, hmem, file, hin, ?_, ?_⟩
  · rw [hkey]
    exact fun hback => Table.get?_eq_none_iff.mp hgone request hback hkey
  · rw [hkey]
    exact fun hback => Table.get?_eq_none_iff.mp hlost file hback hid

end Wayfarer
