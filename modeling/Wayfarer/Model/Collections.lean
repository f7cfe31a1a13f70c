import Mathlib.Data.List.Perm.Subperm
import Wayfarer.Variables.Resolver

/-!
# Collections

A collection, its folders and its saved requests, as the stores keep them and as the page
holds them in memory: the tree. `folderChain` says which folders a request is in, and
`ancestorsOf` what it inherits from.
-/

set_option autoImplicit false

namespace Wayfarer

open Library

/-- Whether a collection's scripts may run: it was made or reviewed here, and the digests of the
texts that this covers. -/
structure ScriptTrust where
  trusted : Bool
  approved : List Text := []

/-- A collection. -/
structure Collection where
  id : Text
  name : Text
  variableRows : List Row := []
  auth : AuthConfig := .none
  scripts : Scripts := ⟨[], []⟩
  scriptTrust : ScriptTrust

/-- A folder of a collection, in another folder or at its top. -/
structure Folder where
  id : Text
  collectionId : Text
  parentFolderId : Option Text
  name : Text
  variableRows : List Row := []
  auth : AuthConfig := .inherit
  scripts : Scripts := ⟨[], []⟩
  deriving DecidableEq

/-- A saved request: its content, and its place in a collection. -/
structure RequestDoc where
  id : Text
  collectionId : Text
  folderId : Option Text := none
  name : Text
  content : RequestContent
  deriving DecidableEq

/-- A collection with what is in it. -/
structure CollectionTree where
  collection : Collection
  folders : List Folder := []
  requests : List RequestDoc := []

/-! ## Folders -/

/-- The loop of `folderChain`: the folders above `chain`, from the one named `next` on. Each turn
takes a folder that was not taken, so that no chain needs more turns than there are folders. -/
def chainFrom (folders : List Folder) : Nat → Option Text → List Folder → List Folder
  | 0, _, chain => chain
  | _, none, chain => chain
  | turns + 1, some id, chain =>
      match folders.find? fun folder => folder.id = id with
      | none => chain
      | some folder =>
          -- A file may name folders as each other's parents.
          if folder ∈ chain then chain
          else chainFrom folders turns folder.parentFolderId (folder :: chain)

/-- The folders a request is in, outermost first, the one named last. -/
def folderChain (folders : List Folder) (folderId : Option Text) : List Folder :=
  chainFrom folders folders.length folderId []

/-- A chain of distinct folders that are all there is cannot grow. -/
theorem chainFrom_full {folders chain : List Folder} (hnodup : chain.Nodup)
    (hsubset : chain ⊆ folders) (hfull : folders.length ≤ chain.length) (turns : Nat)
    (next : Option Text) :
    chainFrom folders turns next chain = chain := by
  cases turns with
  | zero => rfl
  | succ turns =>
      cases next with
      | none => rfl
      | some id =>
          unfold chainFrom
          cases hfind : folders.find? fun folder => decide (folder.id = id) with
          | none => rfl
          | some folder =>
              have hperm : chain.Perm folders :=
                (hnodup.subperm hsubset).perm_of_length_le hfull
              have hmem : folder ∈ chain :=
                hperm.mem_iff.mpr (List.mem_of_find?_eq_some hfind)
              simp only [hmem, if_true]

/-- The turns are enough: with more of them the chain is the same. -/
theorem chainFrom_enough {folders chain : List Folder} {turns : Nat} (more : Nat)
    (hnodup : chain.Nodup) (hsubset : chain ⊆ folders)
    (hturns : folders.length ≤ turns + chain.length) (next : Option Text) :
    chainFrom folders (turns + more) next chain = chainFrom folders turns next chain := by
  induction turns generalizing chain next with
  | zero =>
      have hfull : folders.length ≤ chain.length := by omega
      rw [chainFrom_full hnodup hsubset hfull, chainFrom_full hnodup hsubset hfull]
  | succ turns ih =>
      rw [Nat.add_right_comm]
      cases next with
      | none => rfl
      | some id =>
          unfold chainFrom
          cases hfind : folders.find? fun folder => decide (folder.id = id) with
          | none => rfl
          | some folder =>
              dsimp only
              split_ifs with hmem
              · rfl
              · apply ih (List.nodup_cons.mpr ⟨hmem, hnodup⟩)
                · exact List.cons_subset.mpr ⟨List.mem_of_find?_eq_some hfind, hsubset⟩
                · simp only [List.length_cons]
                  omega

/-- However many turns the loop is given beyond the number of folders, it ends where the chain
does. -/
theorem folderChain_eq (folders : List Folder) (folderId : Option Text) (more : Nat) :
    chainFrom folders (folders.length + more) folderId [] = folderChain folders folderId :=
  chainFrom_enough more List.nodup_nil (List.nil_subset folders) (Nat.le_add_right _ _) folderId

/-! ## What a request inherits from -/

/-- What holds something for the requests in it, named as a person reads it. -/
def named (kind name : Text) : Text :=
  kind ++ units " \"" ++ name ++ units "\""

/-- A collection as its requests inherit from it. -/
def Collection.ancestor (collection : Collection) : Ancestor where
  name := named (units "collection") collection.name
  variableRows := collection.variableRows
  auth := collection.auth
  scripts := collection.scripts

/-- A folder as its requests inherit from it. -/
def Folder.ancestor (folder : Folder) : Ancestor where
  name := named (units "folder") folder.name
  variableRows := folder.variableRows
  auth := folder.auth
  scripts := folder.scripts

/-- What a request inherits from, in the order it applies: the collection, then its folders from
the outside in. -/
def ancestorsOf (collection : Collection) (folders : List Folder) (folderId : Option Text) :
    List Ancestor :=
  collection.ancestor :: (folderChain folders folderId).map Folder.ancestor

/-- The tree of a collection. -/
def treeOf (tree : List CollectionTree) (collectionId : Text) : Option CollectionTree :=
  tree.find? fun entry => entry.collection.id = collectionId

/-- A saved request as the tree has it. -/
def requestOf (tree : List CollectionTree) (id : Text) : Option RequestDoc :=
  tree.findSome? fun entry => entry.requests.find? fun doc => doc.id = id

/-- What a saved request inherits from, as stored now. -/
def ancestorsFor (tree : List CollectionTree) (bound : Option RequestDoc) : List Ancestor :=
  match bound with
  | none => []
  | some doc =>
      match treeOf tree doc.collectionId with
      | none => []
      | some entry => ancestorsOf entry.collection entry.folders doc.folderId

/-- Where a placeholder of a request gets its value. The outermost folder's rows come first: a
later row wins, so the nearest folder does. -/
def scopesOf (environment globals : List Row) (ancestors : List Ancestor) : ScopeStack where
  environment := environment
  folder := ancestors.tail.flatMap Ancestor.variableRows
  collection := (ancestors.head?.map Ancestor.variableRows).getD []
  global := globals

/-! ## Scripts -/

/-- The scripts of a holder that would run: the ones that are not blank. -/
def scriptsOf (scripts : Scripts) : List Text :=
  [scripts.pre, scripts.post].filter fun script => trim script ≠ []

end Wayfarer
