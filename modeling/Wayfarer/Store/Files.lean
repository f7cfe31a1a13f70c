import Wayfarer.Store.Imported

/-!
# The files of saved requests

The body of a saved request names files by their ids; they are in a store of their own. A file goes
with the last request that names it (`sweepFiles`), inside the transaction that took or rewrote that
request. What a delete took out holds the files of its requests, so that an undo has them to put
back.
-/

set_option autoImplicit false

namespace Wayfarer

open Library

/-- A file as it is stored. -/
structure StoredFile where
  bytes : List UInt8
  type : Text

/-- The store of files, each under its id. -/
abbrev FileTable := Table fun file : Text × StoredFile => file.1

/-- The ids of every file a body refers to, whatever its mode: a mode not chosen keeps its files. -/
def fileIdsOf (body : Option Json) : List Text :=
  let parts := (docsOf (prop body (units "multipart"))).flatMap fun part =>
    if textOf (field part (units "kind")) = some (units "file") then
      (textOf (field part (units "fileId"))).toList
    else []
  if truthy (prop body (units "binary")) then
    parts ++ (textOf (prop (prop body (units "binary")) (units "fileId"))).toList
  else parts

/-- The ids of the files a request's body names. -/
def requestFileIds (request : Doc) : List Text :=
  fileIdsOf (field request (units "body"))

/-- Whether a stored request names a file. -/
def isFileNamed (requests : DocTable) (id : Text) : Bool :=
  requests.rows.any fun request => decide (id ∈ requestFileIds request)

/-- What a transaction took out, with the files of its requests. -/
structure RemovedWithFiles extends Removed where
  files : List (Text × StoredFile) := []

/-- The stores of collections, folders and requests, and the files of their bodies. -/
structure Workspace where
  stores : CollectionStores := {}
  files : FileTable := .empty

namespace Workspace

variable (w : Workspace)

/-- The files the requests' bodies name. -/
def filesOf (requests : List Doc) : List (Text × StoredFile) :=
  (requests.flatMap requestFileIds).eraseDups.filterMap w.files.get?

/-- What was taken out, with its files as they are stored. -/
def withFiles (removed : Removed) : RemovedWithFiles :=
  { removed with files := w.filesOf removed.requests }

/-- Deletes every stored file that no saved request refers to. -/
def sweepFiles : Workspace :=
  { w with
    files := w.files.deleteAll
      ((w.files.rows.map Prod.fst).filter fun id => !isFileNamed w.stores.requests id) }

/-! ## Deleting and putting back -/

/-- What a delete leaves, its files swept, and what it took out. -/
def afterDelete (deleted : CollectionStores × Removed) : Workspace × RemovedWithFiles :=
  (sweepFiles { w with stores := deleted.1 }, w.withFiles deleted.2)

/-- A collection deleted with everything in it. -/
def deleteCollection (id : Text) : Workspace × RemovedWithFiles :=
  w.afterDelete (w.stores.deleteCollection id)

/-- A folder deleted with everything in it. -/
def deleteFolder (id : Text) : Workspace × RemovedWithFiles :=
  w.afterDelete (w.stores.deleteFolder id)

/-- A request deleted. -/
def deleteRequest (id : Text) : Workspace × RemovedWithFiles :=
  w.afterDelete (w.stores.deleteRequest id)

/-- What a delete removed, put back. The files come back where a request does. -/
def putBack (removed : RemovedWithFiles) : Workspace :=
  let stores := w.stores.putBack removed.toRemoved
  let requests := removed.requests.filter fun request =>
    (stores.collections.get? (Doc.collectionId request)).isSome
  { stores, files := if requests.isEmpty then w.files else w.files.putAll removed.files }

/-! ## Importing -/

/-- A file stored, over the collection of its id unless it is a copy; with it, what was replaced. -/
def importCollectionExport (payload : CollectionExport) (duplicateAsNew : Bool) :
    Option (Workspace × List RemovedWithFiles) :=
  (w.stores.importCollectionExport payload duplicateAsNew).map fun stored =>
    -- After the new requests are in: a file the replaced ones used is kept if these still name it.
    (sweepFiles { w with stores := stored.1 }, stored.2.map w.withFiles)

/-- An import undone: what it added deleted, and then what it replaced put back. -/
def undoImport (added : List Text) (replaced : List RemovedWithFiles) : Workspace :=
  replaced.foldl putBack (added.foldl (fun w id => (w.deleteCollection id).1) w)

end Workspace

/-! ## What a sweep leaves -/

/-- A stored request names a file. -/
def FileNamed (requests : DocTable) (id : Text) : Prop :=
  ∃ request ∈ requests, id ∈ requestFileIds request

theorem isFileNamed_iff {requests : DocTable} {id : Text} :
    isFileNamed requests id = true ↔ FileNamed requests id := by
  unfold isFileNamed FileNamed
  rw [List.any_eq_true]
  constructor
  · rintro ⟨request, hmem, hid⟩
    exact ⟨request, hmem, of_decide_eq_true hid⟩
  · rintro ⟨request, hmem, hid⟩
    exact ⟨request, hmem, decide_eq_true hid⟩

theorem FileNamed.mono {requests requests' : DocTable} {id : Text}
    (hall : ∀ request ∈ requests, request ∈ requests') (h : FileNamed requests id) :
    FileNamed requests' id := by
  obtain ⟨request, hmem, hid⟩ := h
  exact ⟨request, hall request hmem, hid⟩

variable {w : Workspace}

@[simp]
theorem stores_sweepFiles : w.sweepFiles.stores = w.stores := rfl

/-- A sweep leaves the files that a stored request names. -/
theorem mem_sweepFiles {file : Text × StoredFile} :
    file ∈ w.sweepFiles.files ↔ file ∈ w.files ∧ FileNamed w.stores.requests file.1 := by
  have hkeys : file.1 ∈ (w.files.rows.map Prod.fst).filter
      (fun id => !isFileNamed w.stores.requests id) ↔
      file.1 ∈ w.files.rows.map Prod.fst ∧ ¬ FileNamed w.stores.requests file.1 := by
    rw [List.mem_filter, ← isFileNamed_iff, Bool.not_eq_true', Bool.not_eq_true]
  unfold Workspace.sweepFiles
  rw [Table.mem_deleteAll, hkeys, not_and, not_not]
  constructor
  · rintro ⟨hmem, hnamed⟩
    exact ⟨hmem, hnamed (List.mem_map_of_mem hmem)⟩
  · rintro ⟨hmem, hnamed⟩
    exact ⟨hmem, fun _ => hnamed⟩

/-- The files of some requests: those stored that one of them names. -/
theorem mem_filesOf {requests : List Doc} {file : Text × StoredFile} :
    file ∈ w.filesOf requests ↔
      file ∈ w.files ∧ ∃ request ∈ requests, file.1 ∈ requestFileIds request := by
  unfold Workspace.filesOf
  rw [List.mem_filterMap]
  constructor
  · rintro ⟨id, hid, hget⟩
    obtain ⟨hmem, rfl⟩ := Table.get?_eq_some_iff.mp hget
    obtain ⟨request, hrequest, hnames⟩ := List.mem_flatMap.mp (List.mem_eraseDups.mp hid)
    exact ⟨hmem, request, hrequest, hnames⟩
  · rintro ⟨hmem, request, hrequest, hnames⟩
    refine ⟨file.1, List.mem_eraseDups.mpr (List.mem_flatMap.mpr ⟨request, hrequest, hnames⟩), ?_⟩
    exact Table.get?_eq_some_iff.mpr ⟨hmem, rfl⟩

end Wayfarer
