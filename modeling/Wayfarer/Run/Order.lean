import Wayfarer.Library.TwoKeys
import Wayfarer.Store.Imported
import Wayfarer.Store.Tree

/-!
# The order of a run

`requestsInOrder` gives the requests that a run of a collection, or of one of its folders, sends;
`collectionNodes` draws the tree a person runs it from. Both list what a parent holds with
`childrenInOrder`. The tree goes down by the folders' keys, their `meta.id`, and draws at the top a
folder whose parent is not there, and folders that name each other as parents. A run goes down by
the `id` that a folder holds beside its key, and leaves out what it does not meet.

`runsAsDrawn_iff` says when a run sends what the tree shows: when each request that stands in a
folder, or at the top, is met from the top by the folders' ids, and a folder has in it by its id
what it has by its key. With one name to each folder that is a way up to the top for each folder
with a request in it (`goesByName_of_namesItself`).
-/

set_option autoImplicit false

namespace Wayfarer

open Library

/-! ## What a parent holds -/

/-- A collection's folders and requests, as the page holds them: the folders by their key. -/
structure TreeEntry where
  folders : DocTable
  requests : List Doc

/-- The parent a link names: the top where there is none, and nothing where it is no text. -/
def parentNamed : Option Json → Option (Option Text)
  | none => some none
  | some (.string t) => some (some t)
  | some _ => none

/-- What the arithmetic takes a value for: a number, or `NaN` (`some none`). It throws at an object
that has no text. -/
def toNumber (F : FilePlatform) : Option Json → Option (Option Numeric)
  | none => some none
  | some .null => some (some ⟨.number ⟨units "0", JsonNumber.marks_zero⟩, rfl⟩)
  | some (.bool false) => some (some ⟨.number ⟨units "0", JsonNumber.marks_zero⟩, rfl⟩)
  | some (.bool true) => some (some ⟨.number ⟨units "1", JsonNumber.marks_one⟩, rfl⟩)
  | some (.number n) => some (some ⟨.number n, rfl⟩)
  | some (.infinite negative) => some (some ⟨.infinite negative, rfl⟩)
  | some (.string t) => some (F.numberOf t)
  | some value => (propertyKey value).map F.numberOf

/-- How two orders compare: a difference that is `NaN` is taken as none. -/
def differenceOf : Option Numeric → Option Numeric → Ordering
  | some m, some n => compareOrders m.1 n.1
  | _, _ => .eq

/-- `a.localeCompare(b)`. It throws where the first is no text. -/
def compareIds (F : FilePlatform) : Option Json → Option Json → Option Ordering
  | some (.string a), some b => (propertyKey b).map (F.localeCompare a)
  | some (.string a), none => some (F.localeCompare a (units "undefined"))
  | _, _ => none

/-- A folder or a request, as its parent lists it. -/
structure TreeChild where
  order : Option Json
  kind : Nat
  id : Option Json
  child : Doc ⊕ Doc

/-- How two children compare: by their order, a folder before a request, by id. Nothing where the
comparison throws. -/
def TreeChild.compare (F : FilePlatform) (a b : TreeChild) : Option Ordering := do
  let m ← toNumber F a.order
  let n ← toNumber F b.order
  match (differenceOf m n).then (Ord.compare a.kind b.kind) with
  | .eq => compareIds F a.id b.id
  | decided => some decided

/-- Whether a child may stand before another. -/
def TreeChild.beforeOrSame (F : FilePlatform) (a b : TreeChild) : Bool :=
  a.compare F b ≠ some .gt

/-- A value that is no object. Two of them are one value when they look the same. -/
inductive Primitive where
  | undefined
  | null
  | bool (b : Bool)
  | number (t : Text)
  | infinite (negative : Bool)
  | text (t : Text)
  deriving DecidableEq

/-- What a member holds, where it is no object: one object is not another that looks the same. -/
def primitiveOf : Option Json → Option Primitive
  | none => some .undefined
  | some .null => some .null
  | some (.bool b) => some (.bool b)
  | some (.number n) => some (.number n.text)
  | some (.infinite negative) => some (.infinite negative)
  | some (.string t) => some (.text t)
  | some (.array _) => none
  | some (.object _) => none

namespace TreeEntry

variable (F : FilePlatform) (tree : TreeEntry)

/-- The folders of a parent. -/
def foldersOf (parent : Primitive) : List Doc :=
  tree.folders.rows.filter fun folder =>
    primitiveOf (field folder (units "parentFolderId")) = some parent

/-- The requests of a parent. -/
def requestsOf (parent : Primitive) : List Doc :=
  tree.requests.filter fun request =>
    primitiveOf (field request (units "folderId")) = some parent

/-- What a folder holds, or what stands at the top: its folders and its requests as one list. -/
def childrenInOrder (parent : Primitive) : List (Doc ⊕ Doc) :=
  let entries :=
    (tree.foldersOf parent).map (fun folder =>
      (⟨field folder (units "order"), 0, field folder (units "id"), .inl folder⟩ : TreeChild)) ++
    (tree.requestsOf parent).map fun request =>
      ⟨field request (units "order"), 1, field request (units "id"), .inr request⟩
  (entries.insertionSort fun a b => a.beforeOrSame F b = true).map TreeChild.child

/-- What names a parent: nothing is under an object, which no link is the same as. -/
def inside : Option Primitive → List (Doc ⊕ Doc)
  | none => []
  | some parent => tree.childrenInOrder F parent

/-- The top of the collection. -/
def top : Option Primitive := some .undefined

/-- The id that a run knows a folder by. -/
def idOf (folder : Doc) : Option Primitive :=
  primitiveOf (field folder (units "id"))

/-- The key that the tree knows a folder by. -/
def keyOf (folder : Doc) : Option Primitive :=
  some (.text (Doc.metaId folder))

/-- More than the folders there are: no way down is longer. -/
def depth : Nat := tree.folders.rows.length + 1

/-- What is entered before a run starts: the folder it is of. -/
def startOf (folderId : Option Primitive) : List (Option Primitive) :=
  if folderId = top then [] else [folderId]

/-- The requests a run sends, of a folder or from the top. A folder is entered once. -/
def requestsInOrder (folderId : Option Primitive) : List Doc :=
  (inOrder (tree.inside F) idOf tree.depth (tree.inside F folderId) (startOf folderId)).1

/-- What stands at the top, as the tree draws it. A folder is drawn once. -/
def topNodes : List (OutlineNode Doc Doc) × List (Option Primitive) :=
  outline (tree.inside F) keyOf tree.depth (tree.inside F top) []

/-- The folders that were not drawn. -/
def otherNodes : List (OutlineNode Doc Doc) × List (Option Primitive) :=
  outline (tree.inside F) keyOf tree.depth (tree.folders.rows.map .inl) (tree.topNodes F).2

/-- What the tree draws of a collection: what stands at the top, and after it the folders that were
not drawn. -/
def collectionNodes : List (OutlineNode Doc Doc) :=
  (tree.topNodes F).1 ++ (tree.otherNodes F).1

/-- A run sends what the tree shows, of the collection and of each folder drawn, by whichever of its
two ids it is asked for. -/
structure RunsAsDrawn : Prop where
  whole : leavesOf (tree.collectionNodes F) = tree.requestsInOrder F top
  folders : ∀ folder nodes, HasBranch folder nodes (tree.collectionNodes F) →
    leavesOf nodes = tree.requestsInOrder F (keyOf folder) ∧
      leavesOf nodes = tree.requestsInOrder F (idOf folder)

/-- A request stands under a parent: it names it, or it stands under a folder that does. `name` is
what folders are known by. -/
inductive Stands (name : Doc → Option Primitive) (request : Doc) : Option Primitive → Prop where
  | here {parent : Primitive} : primitiveOf (field request (units "folderId")) = some parent →
      Stands name request (some parent)
  | within {folder : Doc} {parent : Primitive} : folder ∈ tree.folders →
      primitiveOf (field folder (units "parentFolderId")) = some parent →
      Stands name request (name folder) → Stands name request (some parent)

/-- A request is shown: it names no folder, or one that is there. -/
def Shown (request : Doc) : Prop :=
  primitiveOf (field request (units "folderId")) = top ∨
    ∃ folder ∈ tree.folders, primitiveOf (field request (units "folderId")) = keyOf folder

/-- By the folders' ids the requests shown stand under the top, and a folder has under it what it
has by its key. -/
structure GoesByName : Prop where
  whole : ∀ request ∈ tree.requests, tree.Shown request ↔ tree.Stands idOf request top
  folder : ∀ folder ∈ tree.folders, ∀ request ∈ tree.requests,
    tree.Stands keyOf request (keyOf folder) ↔ tree.Stands idOf request (idOf folder)

variable {F tree}

/-- Where every folder's id is its key, that is a way up to the top for each request shown. -/
theorem goesByName_of_namesItself (hnamed : ∀ folder ∈ tree.folders, idOf folder = keyOf folder) :
    tree.GoesByName ↔
      ∀ request ∈ tree.requests, tree.Shown request ↔ tree.Stands keyOf request top := by
  have hstands : ∀ request k, tree.Stands idOf request k ↔ tree.Stands keyOf request k := by
    intro request k
    constructor
    · intro h
      induction h with
      | here hlink => exact .here hlink
      | within hfolder hlink _ ih => exact .within hfolder hlink (hnamed _ hfolder ▸ ih)
    · intro h
      induction h with
      | here hlink => exact .here hlink
      | within hfolder hlink _ ih => exact .within hfolder hlink (hnamed _ hfolder ▸ ih)
  constructor
  · intro h request hrequest
    exact (h.whole request hrequest).trans (hstands request top)
  · intro h
    refine ⟨fun request hrequest => (h request hrequest).trans (hstands request top).symm, ?_⟩
    intro folder hfolder request _
    rw [hstands, hnamed folder hfolder]

/-! ## The tree as an outline -/

theorem mem_foldersOf {parent : Primitive} {folder : Doc} :
    folder ∈ tree.foldersOf parent ↔ folder ∈ tree.folders ∧
      primitiveOf (field folder (units "parentFolderId")) = some parent := by
  rw [foldersOf, List.mem_filter, decide_eq_true_eq]
  rfl

theorem mem_requestsOf {parent : Primitive} {request : Doc} :
    request ∈ tree.requestsOf parent ↔ request ∈ tree.requests ∧
      primitiveOf (field request (units "folderId")) = some parent := by
  rw [requestsOf, List.mem_filter, decide_eq_true_eq]

/-- What a parent lists: its folders and its requests. -/
theorem perm_childrenInOrder (parent : Primitive) :
    (tree.childrenInOrder F parent).Perm
      ((tree.foldersOf parent).map .inl ++ (tree.requestsOf parent).map .inr) := by
  rw [childrenInOrder]
  refine ((List.perm_insertionSort _ _).map TreeChild.child).trans ?_
  rw [List.map_append, List.map_map, List.map_map]
  exact List.Perm.refl _

theorem inl_mem_inside {k : Option Primitive} {folder : Doc} :
    .inl folder ∈ tree.inside F k ↔
      folder ∈ tree.folders ∧ k ≠ none ∧
        primitiveOf (field folder (units "parentFolderId")) = k := by
  cases k with
  | none => exact iff_of_false List.not_mem_nil fun h => h.2.1 rfl
  | some parent =>
      rw [inside, (perm_childrenInOrder parent).mem_iff, List.mem_append,
        List.mem_map, List.mem_map]
      constructor
      · rintro (⟨other, hother, heq⟩ | ⟨_, _, heq⟩)
        · cases heq
          obtain ⟨hmem, hlink⟩ := mem_foldersOf.mp hother
          exact ⟨hmem, Option.some_ne_none _, hlink⟩
        · cases heq
      · rintro ⟨hmem, -, hlink⟩
        exact Or.inl ⟨folder, mem_foldersOf.mpr ⟨hmem, hlink⟩, rfl⟩

theorem inr_mem_inside {k : Option Primitive} {request : Doc} :
    .inr request ∈ tree.inside F k ↔
      request ∈ tree.requests ∧ k ≠ none ∧ primitiveOf (field request (units "folderId")) = k := by
  cases k with
  | none => exact iff_of_false List.not_mem_nil fun h => h.2.1 rfl
  | some parent =>
      rw [inside, (perm_childrenInOrder parent).mem_iff, List.mem_append,
        List.mem_map, List.mem_map]
      constructor
      · rintro (⟨_, _, heq⟩ | ⟨other, hother, heq⟩)
        · cases heq
        · cases heq
          obtain ⟨hmem, hlink⟩ := mem_requestsOf.mp hother
          exact ⟨hmem, Option.some_ne_none _, hlink⟩
      · rintro ⟨hmem, -, hlink⟩
        exact Or.inr ⟨request, mem_requestsOf.mpr ⟨hmem, hlink⟩, rfl⟩

/-- A request is met from a parent exactly where it stands under it. -/
theorem leafBelow_inside {name : Doc → Option Primitive} {k : Option Primitive} {request : Doc} :
    LeafBelow (tree.inside F) name k request ↔
      request ∈ tree.requests ∧ tree.Stands name request k := by
  constructor
  · rintro ⟨k', hbelow, hmem⟩
    obtain ⟨hrequest, hnone, hlink⟩ := inr_mem_inside.mp hmem
    refine ⟨hrequest, ?_⟩
    induction hbelow using Relation.ReflTransGen.head_induction_on with
    | refl =>
        obtain ⟨parent, rfl⟩ := Option.ne_none_iff_exists'.mp hnone
        exact .here hlink
    | head hstep _ ih =>
        obtain ⟨folder, hfolder, rfl⟩ := hstep
        obtain ⟨hfolders, hsome, hup⟩ := inl_mem_inside.mp hfolder
        obtain ⟨parent, rfl⟩ := Option.ne_none_iff_exists'.mp hsome
        exact .within hfolders hup ih
  · rintro ⟨hrequest, hstands⟩
    induction hstands with
    | here hlink =>
        exact leafBelow_iff.mpr
          (Or.inl (inr_mem_inside.mpr ⟨hrequest, Option.some_ne_none _, hlink⟩))
    | within hfolder hup _ ih =>
        exact leafBelow_iff.mpr
          (Or.inr ⟨_, inl_mem_inside.mpr ⟨hfolder, Option.some_ne_none _, hup⟩, ih⟩)

/-- What a list of a tree's folders and requests draws, by either name of them. -/
theorem outlines_tree (name : Doc → Option Primitive) {items : List (Doc ⊕ Doc)}
    (drawn : List (Option Primitive)) (hitems : ∀ a, .inl a ∈ items → a ∈ tree.folders) :
    Outlines (tree.inside F) name items drawn
      (outline (tree.inside F) name tree.depth items drawn).1
      (outline (tree.inside F) name tree.depth items drawn).2 := by
  have hname : ∀ a ∈ tree.folders, name a ∈ tree.folders.rows.map name :=
    fun a ha => List.mem_map_of_mem ha
  have hunder : ∀ k a, .inl a ∈ tree.inside F k → name a ∈ tree.folders.rows.map name :=
    fun k a ha => hname a (inl_mem_inside.mp ha).1
  apply outlines_outline hunder tree.depth fun a ha => hname a (hitems a ha)
  apply Nat.lt_succ_of_le
  exact (List.length_filter_le _ _).trans_eq (List.length_map _)

theorem outlines_inside (name : Doc → Option Primitive) (k : Option Primitive)
    (drawn : List (Option Primitive)) :
    Outlines (tree.inside F) name (tree.inside F k) drawn
      (outline (tree.inside F) name tree.depth (tree.inside F k) drawn).1
      (outline (tree.inside F) name tree.depth (tree.inside F k) drawn).2 :=
  outlines_tree name drawn fun _ ha => (inl_mem_inside.mp ha).1

theorem outlines_topNodes :
    Outlines (tree.inside F) keyOf (tree.inside F top) [] (tree.topNodes F).1 (tree.topNodes F).2 :=
  outlines_inside keyOf top []

theorem mem_folders_of_map {folder : Doc}
    (h : .inl folder ∈ (tree.folders.rows.map .inl : List (Doc ⊕ Doc))) :
    folder ∈ tree.folders := by
  obtain ⟨other, hother, heq⟩ := List.mem_map.mp h
  cases heq
  exact hother

theorem outlines_otherNodes :
    Outlines (tree.inside F) keyOf (tree.folders.rows.map .inl) (tree.topNodes F).2
      (tree.otherNodes F).1 (tree.otherNodes F).2 :=
  outlines_tree keyOf _ fun _ => mem_folders_of_map

theorem mem_startOf {folderId k : Option Primitive} (h : k ∈ startOf folderId) : k = folderId := by
  rw [startOf] at h
  split_ifs at h
  · cases h
  · exact List.mem_singleton.mp h

/-- A run's requests are the leaves of what its start lists, by the folders' ids. -/
theorem requestsInOrder_eq (folderId : Option Primitive) :
    tree.requestsInOrder F folderId =
      leavesOf (outline (tree.inside F) idOf tree.depth (tree.inside F folderId)
        (startOf folderId)).1 := by
  rw [requestsInOrder, inOrder_eq]

theorem mem_requestsInOrder {folderId : Option Primitive} {request : Doc} :
    request ∈ tree.requestsInOrder F folderId ↔
      LeafBelow (tree.inside F) idOf folderId request := by
  rw [requestsInOrder_eq]
  exact (outlines_inside idOf folderId (startOf folderId)).mem_leaves_under fun _ => mem_startOf

/-! ## What the tree draws -/

/-- A folder's key is not the top. -/
theorem keyOf_ne_top (folder : Doc) : keyOf folder ≠ top := by
  intro h
  cases h

/-- One key is one folder's. -/
theorem eq_of_keyOf_eq {a a' : Doc} (ha : a ∈ tree.folders) (ha' : a' ∈ tree.folders)
    (h : keyOf a = keyOf a') : a = a' :=
  Table.eq_of_key_eq ha ha' (Primitive.text.inj (Option.some.inj h))

/-- What stands under the top or a folder that is there is shown. -/
theorem shown_of_stands {request : Doc} {k : Option Primitive} (h : tree.Stands keyOf request k)
    (hk : k = top ∨ ∃ folder ∈ tree.folders, k = keyOf folder) : tree.Shown request := by
  induction h with
  | here hlink =>
      rcases hk with hk | ⟨folder, hfolder, hk⟩
      · exact Or.inl (hlink.trans hk)
      · exact Or.inr ⟨folder, hfolder, hlink.trans hk⟩
  | within hfolder _ _ ih => exact ih (Or.inr ⟨_, hfolder, rfl⟩)

/-- The tree shows the requests at the top and those of every folder that is there. -/
theorem mem_collectionNodes {request : Doc} :
    request ∈ leavesOf (tree.collectionNodes F) ↔
      request ∈ tree.requests ∧ tree.Shown request := by
  rw [collectionNodes, leavesOf_append, List.mem_append]
  constructor
  · rintro (hmem | hmem)
    · obtain ⟨hrequest, hstands⟩ := leafBelow_inside.mp
        ((outlines_topNodes.mem_leaves_under fun _ h => absurd h List.not_mem_nil).mp hmem)
      exact ⟨hrequest, shown_of_stands hstands (Or.inl rfl)⟩
    · rcases outlines_otherNodes.leafBelow_of_mem hmem with hdirect | ⟨folder, hfolder, hbelow⟩
      · obtain ⟨_, _, heq⟩ := List.mem_map.mp hdirect
        cases heq
      · obtain ⟨hrequest, hstands⟩ := leafBelow_inside.mp hbelow
        exact ⟨hrequest,
          shown_of_stands hstands (Or.inr ⟨folder, mem_folders_of_map hfolder, rfl⟩)⟩
  · rintro ⟨hrequest, hlink | ⟨folder, hfolder, hlink⟩⟩
    · exact Or.inl (outlines_topNodes.mem_leaves.mpr (Or.inl (inr_mem_inside.mpr
        ⟨hrequest, Option.some_ne_none _, hlink⟩)))
    · have hmem : .inr request ∈ tree.inside F (keyOf folder) :=
        inr_mem_inside.mpr ⟨hrequest, Option.some_ne_none _, hlink⟩
      by_cases htop : keyOf folder ∈ (tree.topNodes F).2
      · exact Or.inl (outlines_topNodes.mem_leaves.mpr
          (Or.inr ⟨_, htop, List.not_mem_nil, hmem⟩))
      · exact Or.inr (outlines_otherNodes.mem_leaves.mpr (Or.inr ⟨_,
          outlines_otherNodes.mem_of_mem (List.mem_map_of_mem hfolder), htop, hmem⟩))

/-- A folder drawn is one of the tree's, and was drawn from what is under its key. -/
theorem outlines_of_hasBranch {folder : Doc} {nodes : List (OutlineNode Doc Doc)}
    (hbranch : HasBranch folder nodes (tree.collectionNodes F)) :
    folder ∈ tree.folders ∧ ∃ before after,
      Outlines (tree.inside F) keyOf (tree.inside F (keyOf folder)) before nodes after := by
  have hunder : (∃ k, .inl folder ∈ tree.inside F k) → folder ∈ tree.folders :=
    fun h => h.elim fun _ h => (inl_mem_inside.mp h).1
  rcases hasBranch_append.mp hbranch with htop | hother
  · obtain ⟨hfrom, hdrawn⟩ := outlines_topNodes.of_branch htop
    exact ⟨hfrom.elim (fun h => (inl_mem_inside.mp h).1) hunder, hdrawn⟩
  · obtain ⟨hfrom, hdrawn⟩ := outlines_otherNodes.of_branch hother
    exact ⟨hfrom.elim mem_folders_of_map hunder, hdrawn⟩

/-- Every folder is drawn. -/
theorem exists_hasBranch (F : FilePlatform) {folder : Doc} (hfolder : folder ∈ tree.folders) :
    ∃ nodes, HasBranch folder nodes (tree.collectionNodes F) := by
  have hdrawn : ∃ a nodes, HasBranch a nodes (tree.collectionNodes F) ∧ keyOf a = keyOf folder := by
    by_cases htop : keyOf folder ∈ (tree.topNodes F).2
    · obtain ⟨a, nodes, hbranch, hkey⟩ := outlines_topNodes.exists_branch htop List.not_mem_nil
      exact ⟨a, nodes, hasBranch_append.mpr (Or.inl hbranch), hkey⟩
    · obtain ⟨a, nodes, hbranch, hkey⟩ := outlines_otherNodes.exists_branch
        (outlines_otherNodes.mem_of_mem (List.mem_map_of_mem hfolder)) htop
      exact ⟨a, nodes, hasBranch_append.mpr (Or.inr hbranch), hkey⟩
  obtain ⟨a, nodes, hbranch, hkey⟩ := hdrawn
  rw [eq_of_keyOf_eq (outlines_of_hasBranch hbranch).1 hfolder hkey] at hbranch
  exact ⟨nodes, hbranch⟩

/-- What is drawn of a folder is what stands under its key. -/
theorem stands_of_hasBranch {folder request : Doc} {nodes : List (OutlineNode Doc Doc)}
    (hbranch : HasBranch folder nodes (tree.collectionNodes F)) (hmem : request ∈ leavesOf nodes) :
    LeafBelow (tree.inside F) keyOf (keyOf folder) request := by
  obtain ⟨-, _, _, hinside⟩ := outlines_of_hasBranch hbranch
  exact leafBelow_iff.mpr (hinside.leafBelow_of_mem hmem)

/-! ## Where each request shown stands under the top -/

section

variable (hrooted : ∀ request ∈ tree.requests, tree.Shown request → tree.Stands keyOf request top)
include hrooted

/-- The folders that hold requests are then a forest. -/
theorem planted : Planted (tree.inside F) keyOf top where
  branch a a' k k' ha ha' heq := by
    obtain ⟨hmem, -, hlink⟩ := inl_mem_inside.mp ha
    obtain ⟨hmem', -, hlink'⟩ := inl_mem_inside.mp ha'
    rw [← hlink, ← hlink', eq_of_keyOf_eq hmem hmem' heq]
  leaf b k k' hb hb' := by
    rw [← (inr_mem_inside.mp hb).2.2, ← (inr_mem_inside.mp hb').2.2]
  once k := by
    cases k with
    | none => exact List.Pairwise.nil
    | some parent =>
        rw [inside, (perm_childrenInOrder parent).pairwise_iff
          fun hxy a a' ha ha' => (hxy a' a ha' ha).symm, List.pairwise_append]
        refine ⟨?_, ?_, ?_⟩
        · rw [List.pairwise_map]
          refine ((List.pairwise_map.mp tree.folders.nodup).sublist List.filter_sublist).imp ?_
          intro x y hne a a' hx hy heq
          cases hx
          cases hy
          exact hne (Primitive.text.inj (Option.some.inj heq))
        · rw [List.pairwise_map]
          exact List.pairwise_of_forall fun x y a a' hx => by cases hx
        · intro x _ y hy a a' _ hy'
          obtain ⟨_, _, rfl⟩ := List.mem_map.mp hy
          cases hy'
  top a _ _ := keyOf_ne_top a
  rooted a k b ha hb := by
    obtain ⟨hrequest, hstands⟩ := leafBelow_inside.mp hb
    exact leafBelow_inside.mpr ⟨hrequest, hrooted b hrequest
      (shown_of_stands hstands (Or.inr ⟨a, (inl_mem_inside.mp ha).1, rfl⟩))⟩

/-- What stands under a folder's key is drawn in the folder. -/
theorem mem_of_hasBranch {folder request : Doc} {nodes : List (OutlineNode Doc Doc)}
    (hbranch : HasBranch folder nodes (tree.collectionNodes F))
    (hbelow : LeafBelow (tree.inside F) keyOf (keyOf folder) request) :
    request ∈ leavesOf nodes := by
  have hplanted := planted (F := F) hrooted
  rcases hasBranch_append.mp hbranch with htop | hother
  · refine (hplanted.listed (fun _ _ _ _ => Iff.rfl) outlines_topNodes (List.suffix_refl _) ?_).2
      folder nodes htop request hbelow
    exact fun b hb => (outlines_topNodes.mem_leaves_under fun _ h => absurd h List.not_mem_nil).mpr
      (leafBelow_iff.mpr hb)
  · -- A folder drawn after the top is not under it, and has no request.
    obtain ⟨hrequest, hstands⟩ := leafBelow_inside.mp hbelow
    have hshown := shown_of_stands hstands (Or.inr ⟨folder, (outlines_of_hasBranch hbranch).1, rfl⟩)
    obtain ⟨k, hk, hmem⟩ := (leafBelow_inside (F := F)).mpr ⟨hrequest, hrooted _ hrequest hshown⟩
    obtain ⟨k', hk', hmem'⟩ := hbelow
    rw [hplanted.leaf request k' k hmem' hmem] at hk'
    rcases hplanted.total hk hk' with hover | hover
    · rcases outlines_topNodes.mem_of_below (fun _ h => absurd h List.not_mem_nil) hover with
        heq | hdrawn
      · exact absurd heq (keyOf_ne_top folder)
      · exact absurd hdrawn (outlines_otherNodes.fresh hother).1
    · exact absurd (hplanted.eq_root hover) (keyOf_ne_top folder)

/-- What is drawn after the top has no request. -/
theorem leaves_otherNodes : leavesOf (tree.otherNodes F).1 = [] := by
  have hplanted := planted (F := F) hrooted
  apply List.eq_nil_iff_forall_not_mem.mpr
  intro request hmem
  rcases outlines_otherNodes.mem_leaves.mp hmem with hdirect | ⟨k, hk, hnew, hunder⟩
  · obtain ⟨_, _, heq⟩ := List.mem_map.mp hdirect
    cases heq
  · have hfolder := (outlines_otherNodes.met
      (S := fun k => ∃ folder ∈ tree.folders, k = keyOf folder)
      (fun _ a _ ha => ⟨a, (inl_mem_inside.mp ha).1, rfl⟩)
      (fun a ha => ⟨a, mem_folders_of_map ha, rfl⟩) hk).resolve_left hnew
    obtain ⟨hrequest, -, hlink⟩ := inr_mem_inside.mp hunder
    obtain ⟨folder, hfolders, rfl⟩ := hfolder
    obtain ⟨j, hj, hmem'⟩ := (leafBelow_inside (F := F)).mpr
      ⟨hrequest, hrooted request hrequest (Or.inr ⟨folder, hfolders, hlink⟩)⟩
    rw [hplanted.leaf request j _ hmem' hunder] at hj
    rcases outlines_topNodes.mem_of_below (fun _ h => absurd h List.not_mem_nil) hj with
      heq | hdrawn
    · exact keyOf_ne_top folder heq
    · exact hnew hdrawn

end

/-! ## What a run sends -/

/-- A run sends what the tree shows, of the collection and of every folder drawn, exactly where the
requests shown are met from the top by the folders' ids, and a folder has in it by its id what it
has by its key. -/
theorem runsAsDrawn_iff (F : FilePlatform) (tree : TreeEntry) :
    tree.RunsAsDrawn F ↔ tree.GoesByName := by
  constructor
  · intro hdrawn
    have hshown : ∀ request, request ∈ tree.requests ∧ tree.Shown request ↔
        LeafBelow (tree.inside F) idOf top request := by
      intro request
      rw [← mem_requestsInOrder, ← hdrawn.whole, mem_collectionNodes]
    have hrooted : ∀ request ∈ tree.requests, tree.Shown request →
        tree.Stands keyOf request top := by
      intro request hrequest hthere
      refine ((leafBelow_inside (F := F)).mp (leafBelow_iff.mpr ?_)).2
      refine (leafBelow_iff.mp ((hshown request).mp ⟨hrequest, hthere⟩)).imp_right ?_
      rintro ⟨folder, hfolder, hbelow⟩
      -- A folder at the top draws by its key what a run of it meets by its id.
      obtain ⟨nodes, hbranch⟩ := exists_hasBranch F (inl_mem_inside.mp hfolder).1
      refine ⟨folder, hfolder, stands_of_hasBranch hbranch ?_⟩
      rw [(hdrawn.folders folder nodes hbranch).2]
      exact mem_requestsInOrder.mpr hbelow
    constructor
    · intro request hrequest
      have hboth := (hshown request).trans leafBelow_inside
      exact ⟨fun hthere => (hboth.mp ⟨hrequest, hthere⟩).2,
        fun hstands => (hboth.mpr ⟨hrequest, hstands⟩).2⟩
    · intro folder hfolder request hrequest
      obtain ⟨nodes, hbranch⟩ := exists_hasBranch F hfolder
      have hbelow : LeafBelow (tree.inside F) keyOf (keyOf folder) request ↔
          LeafBelow (tree.inside F) idOf (idOf folder) request := by
        rw [← mem_requestsInOrder, ← (hdrawn.folders folder nodes hbranch).2]
        exact ⟨mem_of_hasBranch hrooted hbranch, stands_of_hasBranch hbranch⟩
      rw [leafBelow_inside, leafBelow_inside] at hbelow
      exact ⟨fun hstands => (hbelow.mp ⟨hrequest, hstands⟩).2,
        fun hstands => (hbelow.mpr ⟨hrequest, hstands⟩).2⟩
  · intro hname
    have hfolder : ∀ folder ∈ tree.folders, ∀ request,
        LeafBelow (tree.inside F) keyOf (keyOf folder) request ↔
          LeafBelow (tree.inside F) idOf (idOf folder) request := by
      intro folder hfolder request
      rw [leafBelow_inside, leafBelow_inside]
      exact and_congr_right fun hrequest => hname.folder folder hfolder request hrequest
    have hsame := fun (a : Doc) (k : Option Primitive) (ha : .inl a ∈ tree.inside F k) =>
      hfolder a (inl_mem_inside.mp ha).1
    have hboth : ∀ k request, LeafBelow (tree.inside F) keyOf k request ↔
        LeafBelow (tree.inside F) idOf k request := fun _ _ => Planted.leafBelow_same hsame
    have hrooted : ∀ request ∈ tree.requests, tree.Shown request →
        tree.Stands keyOf request top := by
      intro request hrequest hthere
      have hmet := (leafBelow_inside (F := F)).mpr
        ⟨hrequest, (hname.whole request hrequest).mp hthere⟩
      exact (leafBelow_inside.mp ((hboth _ _).mpr hmet)).2
    have hplanted := planted (F := F) hrooted
    have hrun : ∀ k request, LeafBelow (tree.inside F) keyOf k request →
        request ∈ tree.requestsInOrder F k :=
      fun k request hbelow => mem_requestsInOrder.mpr ((hboth k request).mp hbelow)
    simp only [requestsInOrder_eq] at hrun
    constructor
    · rw [collectionNodes, leavesOf_append, leaves_otherNodes hrooted, List.append_nil,
        requestsInOrder_eq]
      exact hplanted.leaves_eq hsame outlines_topNodes (outlines_inside idOf top _)
        (fun b => (outlines_topNodes.mem_leaves_under fun _ h => absurd h List.not_mem_nil).mpr)
        (hrun top) fun _ => Iff.rfl
    · intro folder nodes hbranch
      obtain ⟨hthere, _, _, hinside⟩ := outlines_of_hasBranch hbranch
      rw [requestsInOrder_eq, requestsInOrder_eq]
      refine ⟨hplanted.leaves_eq hsame hinside (outlines_inside idOf _ _)
        (fun _ => mem_of_hasBranch hrooted hbranch) (hrun _) fun _ => Iff.rfl, ?_⟩
      exact hplanted.leaves_eq hsame hinside (outlines_inside idOf _ _)
        (fun _ => mem_of_hasBranch hrooted hbranch) (hrun _)
        fun request => (hfolder folder hthere request).trans (hboth _ _).symm

/-- A folder or a request of a tree, with the members the tree reads. -/
def treeDoc (id link parent : Text) : Doc :=
  [(units "id", .string id), (units "meta", .object [(units "id", .string id)]),
    (units "order", .number ⟨units "1", JsonNumber.marks_one⟩), (link, .string parent)]

/-- A request in a folder whose parent was deleted. -/
def strayTree : TreeEntry where
  folders := ⟨[treeDoc (units "f") (units "parentFolderId") (units "gone")], List.nodup_singleton _⟩
  requests := [treeDoc (units "r") (units "folderId") (units "f")]

/-- The tree shows the request, and a run of the collection leaves it out. -/
theorem strayTree_not_runsAsDrawn : ¬ strayTree.RunsAsDrawn plainFiles := by
  have hmore : (leavesOf (strayTree.collectionNodes plainFiles)).length ≠
      (strayTree.requestsInOrder plainFiles top).length := by
    decide +kernel
  intro h
  exact hmore (congrArg List.length h.whole)

end TreeEntry

end Wayfarer
