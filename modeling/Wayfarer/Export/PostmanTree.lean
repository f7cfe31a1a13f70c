import Wayfarer.Library.Placed
import Wayfarer.Run.Order

/-!
# The items of a Postman file

`postmanItems` is the item tree that an exported collection has in Postman's format: what stands at
the top, each folder with what it holds, then every folder that was not written yet, and last the
requests whose folder the file does not hold.

Everything is written once (`postmanItems_once`). `writtenWhole_iff` says when everything stands in
its parent.
-/

set_option autoImplicit false

namespace Wayfarer

open Library

namespace CollectionExport

variable (F : FilePlatform) (source : CollectionExport)

/-- A folder as its parent lists it. -/
def folderEntry (folder : Doc) : TreeChild :=
  ⟨field folder (units "order"), 0, field folder (units "id"), .inl folder⟩

/-- A request as its parent lists it. -/
def requestEntry (request : Doc) : TreeChild :=
  ⟨field request (units "order"), 1, field request (units "id"), .inr request⟩

/-- What a folder holds, or what stands at the top: its folders and its requests as one list. -/
def childrenInOrder (parent : Option Text) : List (Doc ⊕ Doc) :=
  let folders := source.folders.filter fun folder =>
    parentNamed (field folder (units "parentFolderId")) = some parent
  let requests := source.requests.filter fun request =>
    parentNamed (field request (units "folderId")) = some parent
  ((folders.map folderEntry ++ requests.map requestEntry).insertionSort
    fun a b => a.beforeOrSame F b = true).map TreeChild.child

/-- What stands under a folder's id. -/
def inside (key : Text) : List (Doc ⊕ Doc) :=
  source.childrenInOrder F (some key)

/-- Documents by their order, then by id. -/
def byOrder (docs : List Doc) : List Doc :=
  docs.insertionSort fun a b => (folderEntry a).beforeOrSame F (folderEntry b) = true

/-- A request whose folder the file does not hold. -/
def isLoose (request : Doc) : Bool :=
  match field request (units "folderId") with
  | none => false
  | some (.string t) => t ∉ source.folders.map givenId
  | some _ => true

/-- The item tree, where folders are entered to a depth. A folder that was written
is known by its id. -/
def itemsTo (depth : Nat) : List (OutlineNode Doc Doc) :=
  let top := outline (source.inside F) givenId depth (source.childrenInOrder F none) []
  -- A folder whose parent the file does not hold, or folders that name each other, go to the top.
  let rest := outline (source.inside F) givenId depth ((byOrder F source.folders).map .inl) top.2
  let loose := byOrder F (source.requests.filter source.isLoose)
  top.1 ++ (rest.1 ++ loose.map .leaf)

/-- The item tree of a collection: no way down is longer than there are folders. -/
def postmanItems : List (OutlineNode Doc Doc) :=
  source.itemsTo F (source.folders.length + 1)

/-- The items, each with the folder it stands in. -/
def places : List (Option Doc × (Doc ⊕ Doc)) :=
  placesOf none (source.postmanItems F)

/-! ## What is expected of the tree -/

/-- A folder or a request of the file. -/
def Holds : Doc ⊕ Doc → Prop
  | .inl folder => folder ∈ source.folders
  | .inr request => request ∈ source.requests

/-- A folder or a request names a folder as its parent. -/
def NamesParent : Doc ⊕ Doc → Doc → Prop
  | .inl folder, parent =>
      parentNamed (field folder (units "parentFolderId")) = some (some (givenId parent))
  | .inr request, parent =>
      parentNamed (field request (units "folderId")) = some (some (givenId parent))

/-- A folder that is inside itself. -/
def InRing (folder : Doc) : Prop :=
  ∃ child, .inl child ∈ source.inside F (givenId folder) ∧
    Below (source.inside F) givenId (givenId child) (givenId folder)

/-- A folder from which the way up ends at the top. -/
def FromTop (folder : Doc) : Prop :=
  ∃ top, .inl top ∈ source.childrenInOrder F none ∧
    Below (source.inside F) givenId (givenId top) (givenId folder)

/-- The tree is made to its end; every folder and every request is written once; and what has a
parent in the file that is no part of a ring stands in it. -/
structure WrittenWhole : Prop where
  ends : ∀ depth, source.folders.length < depth → source.itemsTo F depth = source.postmanItems F
  once : ((source.places F).map Prod.snd).Perm
    (source.folders.map .inl ++ source.requests.map .inr)
  inParent : ∀ place item, (place, item) ∈ source.places F → ∀ parent ∈ source.folders,
    ¬ source.InRing F parent → NamesParent item parent → place = some parent

/-- A folder whose parent is in the file and in no ring, and from which the way up does not end at
the top, comes after one that it is in, in the order of the folders. -/
def ParentsFirst : Prop :=
  ∀ before folder after, byOrder F source.folders = before ++ folder :: after →
    (∃ parent ∈ source.folders, ¬ source.InRing F parent ∧ NamesParent (.inl folder) parent) →
      source.FromTop F folder ∨
        ∃ other ∈ before, Below (source.inside F) givenId (givenId other) (givenId folder)

variable {F source}

/-! ## What a parent holds -/

theorem mem_byOrder {docs : List Doc} {doc : Doc} : doc ∈ byOrder F docs ↔ doc ∈ docs :=
  (List.perm_insertionSort _ _).mem_iff

theorem childrenInOrder_perm (parent : Option Text) :
    (source.childrenInOrder F parent).Perm
      ((source.folders.filter fun folder =>
          parentNamed (field folder (units "parentFolderId")) = some parent).map .inl ++
        (source.requests.filter fun request =>
          parentNamed (field request (units "folderId")) = some parent).map .inr) := by
  have h := (List.perm_insertionSort (fun a b : TreeChild => a.beforeOrSame F b = true)
    ((source.folders.filter fun folder =>
        parentNamed (field folder (units "parentFolderId")) = some parent).map folderEntry ++
      (source.requests.filter fun request =>
        parentNamed (field request (units "folderId")) = some parent).map requestEntry)).map
    TreeChild.child
  rw [List.map_append, List.map_map, List.map_map] at h
  exact h

theorem inl_mem_childrenInOrder {parent : Option Text} {folder : Doc} :
    .inl folder ∈ source.childrenInOrder F parent ↔ folder ∈ source.folders ∧
      parentNamed (field folder (units "parentFolderId")) = some parent := by
  rw [(childrenInOrder_perm parent).mem_iff, List.mem_append]
  constructor
  · rintro (hmem | hmem)
    · obtain ⟨found, hfound, heq⟩ := List.mem_map.mp hmem
      cases heq
      rwa [List.mem_filter, decide_eq_true_eq] at hfound
    · obtain ⟨found, -, heq⟩ := List.mem_map.mp hmem
      cases heq
  · rintro ⟨hmem, hlink⟩
    exact Or.inl (List.mem_map_of_mem (List.mem_filter.mpr ⟨hmem, decide_eq_true hlink⟩))

theorem inr_mem_childrenInOrder {parent : Option Text} {request : Doc} :
    .inr request ∈ source.childrenInOrder F parent ↔ request ∈ source.requests ∧
      parentNamed (field request (units "folderId")) = some parent := by
  rw [(childrenInOrder_perm parent).mem_iff, List.mem_append]
  constructor
  · rintro (hmem | hmem)
    · obtain ⟨found, -, heq⟩ := List.mem_map.mp hmem
      cases heq
    · obtain ⟨found, hfound, heq⟩ := List.mem_map.mp hmem
      cases heq
      rwa [List.mem_filter, decide_eq_true_eq] at hfound
  · rintro ⟨hmem, hlink⟩
    exact Or.inr (List.mem_map_of_mem (List.mem_filter.mpr ⟨hmem, decide_eq_true hlink⟩))

/-- What a folder holds is what the file has that names it. -/
theorem mem_inside_iff {item : Doc ⊕ Doc} {parent : Doc} :
    item ∈ source.inside F (givenId parent) ↔ source.Holds item ∧ NamesParent item parent := by
  cases item with
  | inl folder => exact inl_mem_childrenInOrder
  | inr request => exact inr_mem_childrenInOrder

/-- Any depth beyond the folders is enough to write a list of folders and requests. -/
theorem outlines_items {depth : Nat} (hdepth : source.folders.length < depth)
    {items : List (Doc ⊕ Doc)}
    (hitems : ∀ a, .inl a ∈ items → a ∈ source.folders) (drawn : List Text) :
    Outlines (source.inside F) givenId items drawn
      (outline (source.inside F) givenId depth items drawn).1
      (outline (source.inside F) givenId depth items drawn).2 := by
  have hkey : ∀ a ∈ source.folders, givenId a ∈ source.folders.map givenId :=
    fun a ha => List.mem_map_of_mem ha
  apply outlines_outline (fun k a ha => hkey a (inl_mem_childrenInOrder.mp ha).1) depth
    fun a ha => hkey a (hitems a ha)
  refine Nat.lt_of_le_of_lt ?_ hdepth
  exact (List.length_filter_le _ _).trans_eq (List.length_map _)

/-! ## The two passes over the folders -/

/-- The folders that are written from the top. -/
def topItems (F : FilePlatform) (source : CollectionExport) :
    List (OutlineNode Doc Doc) × List Text :=
  outline (source.inside F) givenId (source.folders.length + 1) (source.childrenInOrder F none) []

/-- The folders that are left. -/
def restItems (F : FilePlatform) (source : CollectionExport) :
    List (OutlineNode Doc Doc) × List Text :=
  outline (source.inside F) givenId (source.folders.length + 1)
    ((byOrder F source.folders).map .inl) (topItems F source).2

/-- The requests that are left. -/
def looseItems (F : FilePlatform) (source : CollectionExport) : List Doc :=
  byOrder F (source.requests.filter source.isLoose)

theorem postmanItems_eq : source.postmanItems F =
    (topItems F source).1 ++ ((restItems F source).1 ++ (looseItems F source).map .leaf) :=
  rfl

theorem folders_of_top {a : Doc} (ha : .inl a ∈ source.childrenInOrder F none) :
    a ∈ source.folders :=
  (inl_mem_childrenInOrder.mp ha).1

theorem folders_of_rest {a : Doc}
    (ha : .inl a ∈ ((byOrder F source.folders).map .inl : List (Doc ⊕ Doc))) :
    a ∈ source.folders := by
  obtain ⟨folder, hfolder, heq⟩ := List.mem_map.mp ha
  cases heq
  exact mem_byOrder.mp hfolder

theorem outlines_top : Outlines (source.inside F) givenId (source.childrenInOrder F none) []
    (topItems F source).1 (topItems F source).2 :=
  outlines_items (Nat.lt_succ_self _) (fun _ ha => folders_of_top ha) []

theorem outlines_rest : Outlines (source.inside F) givenId
    ((byOrder F source.folders).map .inl) (topItems F source).2 (restItems F source).1
      (restItems F source).2 :=
  outlines_items (Nat.lt_succ_self _) (fun _ ha => folders_of_rest ha) _

/-- From the top, a folder is written where the way up from it ends there. -/
theorem mem_top_iff {folder : Doc} :
    givenId folder ∈ (topItems F source).2 ↔ source.FromTop F folder := by
  have h := @outlines_top F source
  have hempty : DownClosed (source.inside F) givenId [] := fun _ _ hk => absurd hk List.not_mem_nil
  constructor
  · intro hmem
    refine (h.met (S := fun k => ∃ top, .inl top ∈ source.childrenInOrder F none ∧
      Below (source.inside F) givenId (givenId top) k) ?_ ?_ hmem).resolve_left List.not_mem_nil
    · rintro k a ⟨top, htop, hbelow⟩ ha
      exact ⟨top, htop, hbelow.tail ⟨a, ha, rfl⟩⟩
    · exact fun a ha => ⟨a, ha, .refl⟩
  · rintro ⟨top, htop, hbelow⟩
    exact (h.downClosed hempty).mem_of_below hbelow (h.mem_of_mem htop)

/-- Of the folders left, one is written at the top exactly where no folder that it is
in comes before it. -/
theorem rest_placed_iff (hids : (source.folders.map givenId).Nodup) {folder : Doc}
    {before after : List Doc} (hsplit : byOrder F source.folders = before ++ folder :: after) :
    (none, .inl folder) ∈ placesOf none (restItems F source).1 ↔
      ¬ source.FromTop F folder ∧ ∀ other ∈ before,
        ¬ Below (source.inside F) givenId (givenId other) (givenId folder) := by
  have hempty : DownClosed (source.inside F) givenId [] := fun _ _ hk => absurd hk List.not_mem_nil
  have hnodup : ((byOrder F source.folders).map givenId).Nodup :=
    ((List.perm_insertionSort _ _).map givenId).nodup_iff.mpr hids
  rw [outlines_rest.placed_iff (outlines_top.downClosed hempty) hnodup hsplit, mem_top_iff]

/-! ## In the parent -/

theorem places_eq : source.places F = placesOf none (topItems F source).1 ++
    (placesOf none (restItems F source).1 ++
      placesOf none ((looseItems F source).map .leaf)) := by
  rw [places, postmanItems_eq, placesOf_append, placesOf_append]

theorem mem_places_leaves {place : Option Doc} {item : Doc ⊕ Doc} {requests : List Doc} :
    (place, item) ∈ placesOf none (requests.map OutlineNode.leaf) ↔
      place = none ∧ ∃ request ∈ requests, item = .inr request := by
  induction requests with
  | nil =>
      rw [List.map_nil, placesOf]
      refine iff_of_false List.not_mem_nil ?_
      rintro ⟨-, request, hrequest, -⟩
      exact absurd hrequest List.not_mem_nil
  | cons request requests ih =>
      rw [List.map_cons, placesOf, OutlineNode.places, List.singleton_append, List.mem_cons, ih,
        Prod.mk.injEq]
      constructor
      · rintro (⟨hplace, hitem⟩ | ⟨hplace, found, hfound, hitem⟩)
        · exact ⟨hplace, request, List.mem_cons_self, hitem⟩
        · exact ⟨hplace, found, List.mem_cons_of_mem request hfound, hitem⟩
      · rintro ⟨hplace, found, hfound, hitem⟩
        rcases List.mem_cons.mp hfound with rfl | hfound
        · exact Or.inl ⟨hplace, hitem⟩
        · exact Or.inr ⟨hplace, found, hfound, hitem⟩

/-- A request whose folder the file holds is not left over. -/
theorem isLoose_of_names {request parent : Doc} (hparent : parent ∈ source.folders)
    (hnames : NamesParent (.inr request) parent) : source.isLoose request = false := by
  have hlink : parentNamed (field request (units "folderId")) = some (some (givenId parent)) :=
    hnames
  cases hfield : field request (units "folderId") with
  | none =>
      rw [hfield] at hlink
      cases hlink
  | some value =>
      rw [hfield] at hlink
      rw [isLoose, hfield]
      cases value with
      | string t =>
          have hid : t = givenId parent := Option.some.inj (Option.some.inj hlink)
          show decide (t ∉ source.folders.map givenId) = false
          rw [decide_eq_false_iff_not, not_not, hid]
          exact List.mem_map_of_mem hparent
      | _ => cases hlink

/-- A document that names a parent is not listed at the top. -/
theorem not_mem_top_of_names {item : Doc ⊕ Doc} {parent : Doc} (hnames : NamesParent item parent) :
    item ∉ source.childrenInOrder F none := by
  intro hmem
  cases item with
  | inl folder =>
      have hlink := (inl_mem_childrenInOrder.mp hmem).2
      cases (Option.some.inj (hlink.symm.trans hnames))
  | inr request =>
      have hlink := (inr_mem_childrenInOrder.mp hmem).2
      cases (Option.some.inj (hlink.symm.trans hnames))

/-- What is written in a folder is written in the parent it names. -/
theorem place_eq_parent (hids : (source.folders.map givenId).Nodup) {item : Doc ⊕ Doc}
    {folder parent : Doc} (hfolder : folder ∈ source.folders) (hparent : parent ∈ source.folders)
    (hinside : item ∈ source.inside F (givenId folder)) (hnames : NamesParent item parent) :
    folder = parent := by
  have hnames' := (mem_inside_iff.mp hinside).2
  have hsame : givenId folder = givenId parent := by
    cases item with
    | inl child =>
        exact Option.some.inj (Option.some.inj (hnames'.symm.trans hnames))
    | inr request =>
        exact Option.some.inj (Option.some.inj (hnames'.symm.trans hnames))
  exact List.inj_on_of_nodup_map hids hfolder hparent hsame

/-- Everything that names a parent stands in it, but a folder written at the top
in the second pass. -/
theorem place_of_names (hids : (source.folders.map givenId).Nodup) {place : Option Doc}
    {item : Doc ⊕ Doc} {parent : Doc} (hparent : parent ∈ source.folders)
    (hnames : NamesParent item parent) (hplace : (place, item) ∈ source.places F) :
    place = some parent ∨ place = none ∧ ∃ folder ∈ source.folders, item = .inl folder ∧
      (none, .inl folder) ∈ placesOf none (restItems F source).1 := by
  have hall : ∀ {items : List (Doc ⊕ Doc)} {nodes : List (OutlineNode Doc Doc)} {d d' : List Text},
      Outlines (source.inside F) givenId items d nodes d' →
        (∀ a, .inl a ∈ items → a ∈ source.folders) → (place, item) ∈ placesOf none nodes →
          place = some parent ∨ place = none ∧ item ∈ items := by
    intro items nodes d d' h hitems hin
    rcases h.place hin with hhere | ⟨a, ha, hsome, hunder⟩
    · exact Or.inr hhere
    · have hfolder := h.branch_mem hitems (fun k b hb => (inl_mem_childrenInOrder.mp hb).1) a ha
      rw [hsome, place_eq_parent hids hfolder hparent hunder hnames]
      exact Or.inl rfl
  rw [places_eq, List.mem_append, List.mem_append] at hplace
  rcases hplace with htop | hrest | hloose
  · rcases hall outlines_top (fun _ ha => folders_of_top ha) htop with hsome | ⟨-, hmem⟩
    · exact Or.inl hsome
    · exact absurd hmem (not_mem_top_of_names hnames)
  · rcases hall outlines_rest (fun _ ha => folders_of_rest ha) hrest with hsome | ⟨hnone, hmem⟩
    · exact Or.inl hsome
    · obtain ⟨folder, hfolder, rfl⟩ := List.mem_map.mp hmem
      rw [hnone] at hrest
      exact Or.inr ⟨hnone, folder, mem_byOrder.mp hfolder, rfl, hrest⟩
  · obtain ⟨-, request, hrequest, rfl⟩ := mem_places_leaves.mp hloose
    have hloose' := (List.mem_filter.mp (mem_byOrder.mp hrequest)).2
    rw [isLoose_of_names hparent hnames] at hloose'
    cases hloose'

/-- Everything stands in its parent exactly where each folder left over comes after
one that it is in. -/
theorem inParent_iff (hids : (source.folders.map givenId).Nodup) :
    (∀ place item, (place, item) ∈ source.places F → ∀ parent ∈ source.folders,
      ¬ source.InRing F parent → NamesParent item parent → place = some parent) ↔
        source.ParentsFirst F := by
  constructor
  · rintro hall before folder after hsplit ⟨parent, hparent, hring, hnames⟩
    by_contra hnot
    rw [not_or] at hnot
    obtain ⟨htop, hbefore⟩ := hnot
    have hplaced := (rest_placed_iff hids hsplit).mpr
      ⟨htop, fun other hother hbelow => hbefore ⟨other, hother, hbelow⟩⟩
    have hin : (none, .inl folder) ∈ source.places F := by
      rw [places_eq]
      exact List.mem_append_right _ (List.mem_append_left _ hplaced)
    cases hall none (.inl folder) hin parent hparent hring hnames
  · intro hfirst place item hplace parent hparent hring hnames
    rcases place_of_names hids hparent hnames hplace with hsome | ⟨-, folder, hfolder, rfl, hplaced⟩
    · exact hsome
    · obtain ⟨before, after, hsplit⟩ := List.append_of_mem (mem_byOrder (F := F).mpr hfolder)
      obtain ⟨htop, hbefore⟩ := (rest_placed_iff hids hsplit).mp hplaced
      rcases hfirst before folder after hsplit ⟨parent, hparent, hring, hnames⟩ with hup | hother
      · exact absurd hup htop
      · obtain ⟨other, hmem, hbelow⟩ := hother
        exact absurd hbelow (hbefore other hmem)

/-! ## Once -/

theorem branchesOf_leaves (requests : List Doc) :
    branchesOf (requests.map (OutlineNode.leaf : Doc → OutlineNode Doc Doc)) = [] := by
  induction requests with
  | nil => rfl
  | cons request requests ih => exact ih

theorem leavesOf_leaves (requests : List Doc) :
    leavesOf (requests.map (OutlineNode.leaf : Doc → OutlineNode Doc Doc)) = requests := by
  induction requests with
  | nil => rfl
  | cons request requests ih =>
      rw [List.map_cons, leavesOf, OutlineNode.leaves, ih]
      rfl

/-- Every folder is a branch of the tree, once. -/
theorem branches_perm (hids : (source.folders.map givenId).Nodup) :
    (branchesOf (source.postmanItems F)).Perm source.folders := by
  have htop := @outlines_top F source
  have hrest := @outlines_rest F source
  have hunder : ∀ k a, .inl a ∈ source.inside F k → a ∈ source.folders :=
    fun k a ha => (inl_mem_childrenInOrder.mp ha).1
  have hbranches : branchesOf (source.postmanItems F) =
      branchesOf (topItems F source).1 ++ branchesOf (restItems F source).1 := by
    rw [postmanItems_eq, branchesOf_append, branchesOf_append, branchesOf_leaves, List.append_nil]
  have hkeys : (restItems F source).2.Perm ((branchesOf (source.postmanItems F)).map givenId) := by
    rw [hbranches, List.map_append]
    refine hrest.perm_branches.trans ?_
    refine (List.Perm.append_left _ ?_).trans List.perm_append_comm
    have hfirst := htop.perm_branches
    rwa [List.append_nil] at hfirst
  have hmem : ∀ a ∈ branchesOf (source.postmanItems F), a ∈ source.folders := by
    intro a ha
    rw [hbranches] at ha
    rcases List.mem_append.mp ha with ha | ha
    · exact htop.branch_mem (fun _ ha => folders_of_top ha) hunder a ha
    · exact hrest.branch_mem (fun _ ha => folders_of_rest ha) hunder a ha
  have hnodup : ((branchesOf (source.postmanItems F)).map givenId).Nodup :=
    hkeys.nodup_iff.mp (hrest.nodup (htop.nodup List.nodup_nil))
  refine (List.perm_ext_iff_of_nodup hnodup.of_map hids.of_map).mpr fun a => ⟨hmem a, fun ha => ?_⟩
  have hdrawn : givenId a ∈ (restItems F source).2 :=
    hrest.mem_of_mem (List.mem_map_of_mem (mem_byOrder.mpr ha))
  obtain ⟨b, hb, hsame⟩ := List.mem_map.mp (hkeys.mem_iff.mp hdrawn)
  rw [← List.inj_on_of_nodup_map hids (hmem b hb) ha hsame]
  exact hb

/-- The requests of a list whose link names one of the keys, key by key. -/
theorem perm_flatMap_filter {requests : List Doc} {link : Doc → Option (Option Text)}
    {keys : List Text} (hkeys : keys.Nodup) :
    (keys.flatMap fun key => requests.filter fun r => link r = some (some key)).Perm
      (requests.filter fun r => keys.any fun key => link r = some (some key)) := by
  -- The requests of the first key, and then those of the others: no request is of two keys.
  induction keys with
  | nil =>
      rw [List.flatMap_nil]
      have hnone : (requests.filter fun r =>
          ([] : List Text).any fun key => decide (link r = some (some key))) = [] :=
        List.filter_eq_nil_iff.mpr fun r _ h => nomatch h
      rw [hnone]
  | cons key keys ih =>
      obtain ⟨hnot, hrest⟩ := List.nodup_cons.mp hkeys
      rw [List.flatMap_cons]
      have hsplit := List.filter_append_perm (fun r => decide (link r = some (some key)))
        (requests.filter fun r => (key :: keys).any fun key => decide (link r = some (some key)))
      refine List.Perm.trans ?_ hsplit
      rw [List.filter_filter, List.filter_filter]
      have hfirst : (requests.filter fun r => decide (link r = some (some key)) &&
          (key :: keys).any fun key => decide (link r = some (some key))) =
          requests.filter fun r => link r = some (some key) := by
        apply List.filter_congr
        intro r _
        by_cases hlink : link r = some (some key)
        · simp [hlink]
        · simp [hlink]
      have hlater : (requests.filter fun r => !decide (link r = some (some key)) &&
          (key :: keys).any fun key => decide (link r = some (some key))) =
          requests.filter fun r => keys.any fun key => decide (link r = some (some key)) := by
        apply List.filter_congr
        intro r _
        by_cases hlink : link r = some (some key)
        · have hno : (keys.any fun key => decide (link r = some (some key))) = false := by
            rw [List.any_eq_false]
            intro key' hkey' heq
            rw [hlink] at heq
            have hsame : key = key' := by simpa using heq
            exact hnot (hsame ▸ hkey')
          rw [hno]
          simp [hlink]
        · simp [hlink]
      rw [hfirst, hlater]
      exact (ih hrest).append_left _

/-- The requests a parent lists. -/
theorem leafItems_children (parent : Option Text) :
    (leafItems (source.childrenInOrder F parent)).Perm (source.requests.filter fun request =>
      parentNamed (field request (units "folderId")) = some parent) := by
  refine ((childrenInOrder_perm parent).filterMap _).trans ?_
  rw [List.filterMap_append, List.filterMap_map, List.filterMap_map]
  have hfolders : (source.folders.filter fun folder =>
      parentNamed (field folder (units "parentFolderId")) = some parent).filterMap
        (Sum.getRight? ∘ (Sum.inl : Doc → Doc ⊕ Doc)) = [] :=
    List.filterMap_eq_nil_iff.mpr fun _ _ => rfl
  have hrequests : ∀ l : List Doc, l.filterMap (Sum.getRight? ∘ (Sum.inr : Doc → Doc ⊕ Doc)) = l :=
    fun l => List.filterMap_some
  rw [hfolders, hrequests, List.nil_append]

/-- A request is at the top, in a folder of the file, or left over. -/
theorem isLoose_eq (request : Doc) : source.isLoose request =
    (!decide (parentNamed (field request (units "folderId")) = some none) &&
      !(source.folders.map givenId).any fun key =>
        parentNamed (field request (units "folderId")) = some (some key)) := by
  unfold isLoose
  cases field request (units "folderId") with
  | none => rfl
  | some value =>
      cases value with
      | string t =>
          have hany : ((source.folders.map givenId).any fun key =>
              decide (parentNamed (some (.string t)) = some (some key))) =
                decide (t ∈ source.folders.map givenId) := by
            rw [Bool.eq_iff_iff, List.any_eq_true, decide_eq_true_iff]
            constructor
            · rintro ⟨key, hkey, heq⟩
              rw [Option.some.inj (Option.some.inj (of_decide_eq_true heq))]
              exact hkey
            · exact fun hmem => ⟨t, hmem, decide_eq_true rfl⟩
          have hnone : decide (parentNamed (some (.string t)) = some none) = false :=
            decide_eq_false fun h => nomatch Option.some.inj h
          rw [hany, hnone, Bool.not_false, Bool.true_and, ← decide_not]
      | _ =>
          have hany : ((source.folders.map givenId).any fun key =>
              decide ((none : Option (Option Text)) = some (some key))) = false :=
            List.any_eq_false.mpr fun key _ h => by cases of_decide_eq_true h
          unfold parentNamed
          rw [hany]
          rfl

/-- Every request is a leaf of the tree, once. -/
theorem leaves_perm (hids : (source.folders.map givenId).Nodup) :
    (leavesOf (source.postmanItems F)).Perm source.requests := by
  have htop := (@outlines_top F source).perm_leaves
  have hrest := (@outlines_rest F source).perm_leaves
  have hnone : leafItems ((byOrder F source.folders).map .inl : List (Doc ⊕ Doc)) = [] := by
    rw [leafItems, List.filterMap_map]
    exact List.filterMap_eq_nil_iff.mpr fun _ _ => rfl
  rw [hnone, List.nil_append] at hrest
  have hbranches : branchesOf (source.postmanItems F) =
      branchesOf (topItems F source).1 ++ branchesOf (restItems F source).1 := by
    rw [postmanItems_eq, branchesOf_append, branchesOf_append, branchesOf_leaves, List.append_nil]
  -- What stands in folders, folder by folder.
  have hinside : ((branchesOf (topItems F source).1).flatMap (fun a =>
        leafItems (source.inside F (givenId a))) ++
      (branchesOf (restItems F source).1).flatMap fun a =>
        leafItems (source.inside F (givenId a))).Perm
      (source.requests.filter fun r => (source.folders.map givenId).any fun key =>
        parentNamed (field r (units "folderId")) = some (some key)) := by
    rw [← List.flatMap_append, ← hbranches]
    refine ((branches_perm hids).flatMap_right _).trans ?_
    refine List.Perm.trans ?_ (@perm_flatMap_filter _
      (fun r => parentNamed (field r (units "folderId"))) _ hids)
    rw [List.flatMap_map]
    exact List.Perm.flatMap_left _ fun a _ => leafItems_children (some (givenId a))
  have hleaves : leavesOf (source.postmanItems F) =
      leavesOf (topItems F source).1 ++
        (leavesOf (restItems F source).1 ++ looseItems F source) := by
    rw [postmanItems_eq, leavesOf_append, leavesOf_append, leavesOf_leaves]
  rw [hleaves, ← List.append_assoc]
  refine ((htop.append hrest).append (List.perm_insertionSort _ _)).trans ?_
  rw [List.append_assoc (leafItems _)]
  refine ((leafItems_children none).append hinside).append_right _ |>.trans ?_
  rw [List.append_assoc]
  -- At the top, in a folder, left over: the three parts of the requests.
  have hfirst := List.filter_append_perm
    (fun r => decide (parentNamed (field r (units "folderId")) = some none)) source.requests
  refine (List.Perm.append_left _ ?_).trans hfirst
  have hsecond := List.filter_append_perm
    (fun r => (source.folders.map givenId).any fun key =>
      parentNamed (field r (units "folderId")) = some (some key))
    (source.requests.filter fun r =>
      !decide (parentNamed (field r (units "folderId")) = some none))
  refine List.Perm.trans (List.Perm.of_eq ?_) hsecond
  rw [List.filter_filter, List.filter_filter]
  congr 1
  · apply List.filter_congr
    intro r _
    by_cases hlink : parentNamed (field r (units "folderId")) = some none
    · rw [hlink]
      simp
    · simp [hlink]
  · apply List.filter_congr
    intro r _
    rw [isLoose_eq, Bool.and_comm]

/-- Every folder and every request is written once. -/
theorem postmanItems_once (hids : (source.folders.map givenId).Nodup) :
    ((source.places F).map Prod.snd).Perm
      (source.folders.map .inl ++ source.requests.map .inr) :=
  (perm_placesOf none _).trans
    (((branches_perm hids).map _).append ((leaves_perm hids).map _))

/-- Entering folders to any greater depth writes the same. -/
theorem itemsTo_eq {depth : Nat} (hdepth : source.folders.length < depth) :
    source.itemsTo F depth = source.postmanItems F := by
  have htop := (outlines_items (F := F) hdepth (fun _ ha => folders_of_top ha) []).congr
    (outlines_top (F := F)) (S := fun _ => True) (fun _ _ _ _ => trivial) (fun _ _ => trivial)
    fun _ _ => Iff.rfl
  have hrest := (outlines_items (F := F) hdepth (fun _ ha => folders_of_rest ha) _).congr
    (outlines_rest (F := F)) (S := fun _ => True) (fun _ _ _ _ => trivial) (fun _ _ => trivial)
    htop.2
  rw [itemsTo, postmanItems_eq, htop.1, hrest.1]
  rfl

/-- The item tree holds everything once, each thing in its parent, exactly where each folder left
over whose parent is there comes after one that it is in. -/
theorem writtenWhole_iff (F : FilePlatform) (source : CollectionExport)
    (hids : (source.folders.map givenId).Nodup) :
    source.WrittenWhole F ↔ source.ParentsFirst F := by
  rw [← inParent_iff hids]
  exact ⟨fun h => h.inParent,
    fun h => ⟨fun _ hdepth => itemsTo_eq hdepth, postmanItems_once hids, h⟩⟩

/-! ## A folder before the one it is in -/

/-- A folder with its place. -/
def placedFolder (id parent : Text) (order : Json) : Doc :=
  [(units "id", .string id), (units "order", order), (units "parentFolderId", .string parent)]

/-- A folder whose parent is not in the file, and a folder in it. -/
def orphanSource (outer inner : Json) : CollectionExport where
  metaBlock := []
  collection := []
  folders := [placedFolder (units "p") (units "gone") outer,
    placedFolder (units "c") (units "p") inner]
  requests := [[(units "id", .string (units "r")), (units "folderId", .string (units "c"))]]

def zeroth : Json := .number ⟨units "0", JsonNumber.marks_zero⟩
def next : Json := .number ⟨units "1", JsonNumber.marks_one⟩

/-- What such a file lists: the outer folder under the missing one, the inner
one under the outer. -/
theorem orphan_listed {outer inner : Json} {parent : Option Text} {folder : Doc}
    (h : .inl folder ∈ (orphanSource outer inner).childrenInOrder plainFiles parent) :
    (givenId folder = units "p" ∧ parent = some (units "gone")) ∨
      (givenId folder = units "c" ∧ parent = some (units "p")) := by
  obtain ⟨hmem, hlink⟩ := inl_mem_childrenInOrder.mp h
  rcases List.mem_pair.mp hmem with rfl | rfl
  · exact Or.inl ⟨rfl, (Option.some.inj hlink).symm⟩
  · exact Or.inr ⟨rfl, (Option.some.inj hlink).symm⟩

/-- In order: both are written, one in the other. -/
theorem orphan_written : (orphanSource zeroth next).WrittenWhole plainFiles := by
  refine (writtenWhole_iff plainFiles _ (by decide +kernel)).mpr ?_
  have hsorted : byOrder plainFiles (orphanSource zeroth next).folders =
      (orphanSource zeroth next).folders := rfl
  rintro before folder after hsplit ⟨parent, hparent, -, hnames⟩
  rw [hsorted] at hsplit
  right
  cases before with
  | nil =>
      obtain ⟨rfl, -⟩ := List.cons.inj hsplit
      have hid : units "gone" = givenId parent := Option.some.inj (Option.some.inj hnames)
      rcases List.mem_pair.mp hparent with rfl | rfl
      · exact absurd hid (by decide)
      · exact absurd hid (by decide)
  | cons other before =>
      obtain ⟨rfl, hlater⟩ := List.cons.inj hsplit
      cases before with
      | nil =>
          obtain ⟨rfl, -⟩ := List.cons.inj hlater
          refine ⟨_, List.mem_cons_self, .single ⟨_, ?_, rfl⟩⟩
          exact inl_mem_childrenInOrder.mpr ⟨List.mem_cons_of_mem _ List.mem_cons_self, rfl⟩
      | cons third before =>
          obtain ⟨-, hnil⟩ := List.cons.inj hlater
          exact absurd (congrArg List.length hnil) (by simp)

/-- The inner folder first: it is written at the top. -/
theorem orphan_notInParent : ¬ (orphanSource next zeroth).WrittenWhole plainFiles := by
  intro h
  have hsorted : byOrder plainFiles (orphanSource next zeroth).folders =
      [placedFolder (units "c") (units "p") zeroth,
        placedFolder (units "p") (units "gone") next] := rfl
  have hids : ((orphanSource next zeroth).folders.map givenId).Nodup := by decide +kernel
  have hring : ¬ (orphanSource next zeroth).InRing plainFiles
      (placedFolder (units "p") (units "gone") next) := by
    rintro ⟨child, hchild, hbelow⟩
    -- The way up from the outer folder ends at one that is not there.
    rcases orphan_listed hchild with ⟨-, hgone⟩ | ⟨hid, -⟩
    · exact absurd (Option.some.inj hgone) (by decide)
    · rw [hid] at hbelow
      rcases hbelow.cases_tail with heq | ⟨k, hk, a, ha, hkey⟩
      · exact absurd heq (by decide)
      · rcases orphan_listed ha with ⟨-, hgone⟩ | ⟨hinner, -⟩
        · rw [Option.some.inj hgone] at hk
          rcases hk.cases_tail with heq | ⟨j, -, b, hb, hlast⟩
          · exact absurd heq (by decide)
          · rcases orphan_listed hb with ⟨hb', -⟩ | ⟨hb', -⟩
            · exact absurd (hb'.symm.trans hlast) (by decide)
            · exact absurd (hb'.symm.trans hlast) (by decide)
        · exact absurd (hinner.symm.trans hkey) (by decide)
  have hparent : ∃ parent ∈ (orphanSource next zeroth).folders,
      ¬ (orphanSource next zeroth).InRing plainFiles parent ∧
        NamesParent (.inl (placedFolder (units "c") (units "p") zeroth)) parent :=
    ⟨_, List.mem_cons_self, hring, rfl⟩
  rcases (inParent_iff hids).mp h.inParent [] _ _ hsorted hparent with ⟨top, htop, -⟩ | ⟨_, hmem, -⟩
  · rcases orphan_listed htop with ⟨-, hnone⟩ | ⟨-, hnone⟩
    · cases hnone
    · cases hnone
  · cases hmem

end CollectionExport

end Wayfarer
