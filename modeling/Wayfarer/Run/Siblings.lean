import Wayfarer.Export.PostmanTree
import Wayfarer.Library.Sorting
import Wayfarer.Store.Copied
import Wayfarer.Store.FileRuns

/-!
# The order of siblings

A run, the tree and an export list what a folder holds with one comparison (`TreeChild.compare`). It
takes a difference of orders, and a file is not asked that a request have one: of a difference that
is `NaN` the kind and the id decide, which may go against what the orders of others say.

`siblingsOrdered_iff` says when the comparison orders the siblings of an accepted file.
-/

set_option autoImplicit false

namespace Wayfarer

open Library

/-! ## Places as numbers -/

/-- Where a number stands among all numbers. -/
def rankOf : Json → WithBot (WithTop ℚ)
  | .number n => ((n.value : WithTop ℚ) : WithBot (WithTop ℚ))
  | .infinite true => ⊥
  | .infinite false => ((⊤ : WithTop ℚ) : WithBot (WithTop ℚ))
  | _ => ⊥

/-- Numbers compare as they stand. -/
theorem compareOrders_eq {m n : Json} (hm : isNumber (some m) = true)
    (hn : isNumber (some n) = true) : compareOrders m n = Ord.compare (rankOf m) (rankOf n) := by
  cases m with
  | number a =>
      cases n with
      | number b =>
          rw [compareOrders, a.compare_eq, rankOf, rankOf,
            LinearOrder.compare_eq_compareOfLessAndEq, LinearOrder.compare_eq_compareOfLessAndEq,
            compareOfLessAndEq, compareOfLessAndEq]
          simp only [WithBot.coe_lt_coe, WithTop.coe_lt_coe, WithBot.coe_inj, WithTop.coe_inj]
      | infinite negative =>
          cases negative with
          | false =>
              exact (compare_lt_iff_lt.mpr (WithBot.coe_lt_coe.mpr (WithTop.coe_lt_top _))).symm
          | true => exact (compare_gt_iff_gt.mpr (WithBot.bot_lt_coe _)).symm
      | _ => cases hn
  | infinite negative =>
      cases n with
      | number b =>
          cases negative with
          | false =>
              exact (compare_gt_iff_gt.mpr (WithBot.coe_lt_coe.mpr (WithTop.coe_lt_top _))).symm
          | true => exact (compare_lt_iff_lt.mpr (WithBot.bot_lt_coe _)).symm
      | infinite negative' =>
          cases negative <;> cases negative'
          · exact (compare_eq_iff_eq.mpr rfl).symm
          · exact (compare_gt_iff_gt.mpr (WithBot.bot_lt_coe _)).symm
          · exact (compare_lt_iff_lt.mpr (WithBot.bot_lt_coe _)).symm
          · exact (compare_eq_iff_eq.mpr rfl).symm
      | _ => cases hn
  | _ => cases hm

/-- The place `sortByOrder` gives a document is a number. -/
theorem isNumber_orderOf (doc : Doc) : isNumber (some (orderOf doc)) = true := by
  unfold orderOf
  split <;> rfl

/-- How `sortByOrder` compares two documents. -/
def docOrder (F : FilePlatform) (a b : Doc) : Ordering :=
  (compareOrders (orderOf a) (orderOf b)).then (F.localeCompare (givenId a) (givenId b))

theorem beforeOrSame_iff {F : FilePlatform} {a b : Doc} :
    beforeOrSame F a b = true ↔ docOrder F a b ≠ .gt := by
  rw [beforeOrSame, docOrder]
  cases compareOrders (orderOf a) (orderOf b) with
  | lt => exact iff_of_true rfl (fun h => nomatch h)
  | gt => exact iff_of_false (fun h => nomatch h) (fun h => h rfl)
  | eq => exact decide_eq_true_iff

theorem docOrder_eq (F : FilePlatform) (a b : Doc) :
    docOrder F a b = (Ord.compare (rankOf (orderOf a)) (rankOf (orderOf b))).then
      (F.localeCompare (givenId a) (givenId b)) := by
  rw [docOrder, compareOrders_eq (isNumber_orderOf a) (isNumber_orderOf b)]

section DocOrder

variable {F : FilePlatform} [Std.TransCmp F.localeCompare]

theorem docOrder_swap (a b : Doc) : docOrder F a b = (docOrder F b a).swap := by
  rw [docOrder_eq, docOrder_eq, Ordering.swap_then]
  congr 1
  · exact Std.OrientedCmp.eq_swap
  · exact Std.OrientedCmp.eq_swap

theorem docOrder_lt_trans {a b c : Doc} (hab : docOrder F a b = .lt) (hbc : docOrder F b c = .lt) :
    docOrder F a c = .lt := by
  rw [docOrder_eq, Ordering.then_eq_lt, compare_lt_iff_lt, compare_eq_iff_eq] at hab hbc ⊢
  rcases hab with hab | ⟨hab, hids⟩
  · rcases hbc with hbc | ⟨hbc, -⟩
    · exact Or.inl (hab.trans hbc)
    · exact Or.inl (hbc ▸ hab)
  · rcases hbc with hbc | ⟨hbc, hids'⟩
    · exact Or.inl (hab ▸ hbc)
    · exact Or.inr ⟨hab.trans hbc, Std.TransCmp.lt_trans hids hids'⟩

end DocOrder

/-- Documents with ids of their own never stand at one place. -/
theorem docOrder_ne_eq {F : FilePlatform} [Std.LawfulEqCmp F.localeCompare] {a b : Doc}
    (h : givenId a ≠ givenId b) : docOrder F a b ≠ .eq := by
  intro heq
  rw [docOrder_eq, Ordering.then_eq_eq] at heq
  exact h (Std.LawfulEqCmp.eq_of_compare heq.2)

/-! ## The comparison of children -/

namespace TreeChild

variable (F : FilePlatform) (a b : TreeChild)

/-- What the difference of two orders says: nothing where it is `NaN`. -/
def difference : Ordering :=
  match toNumber F a.order, toNumber F b.order with
  | some m, some n => differenceOf m n
  | _, _ => .eq

variable {F a b}

/-- Two children whose orders can be read compare by the difference, by kind, then by id. -/
theorem compare_eq (ha : (toNumber F a.order).isSome) (hb : (toNumber F b.order).isSome) :
    a.compare F b = match (a.difference F b).then (Ord.compare a.kind b.kind) with
      | .eq => compareIds F a.id b.id
      | decided => some decided := by
  obtain ⟨m, hm⟩ := Option.isSome_iff_exists.mp ha
  obtain ⟨n, hn⟩ := Option.isSome_iff_exists.mp hb
  rw [TreeChild.compare, difference, hm, hn]
  rfl

theorem isSome_of_compare {o : Ordering} (h : a.compare F b = some o) :
    (toNumber F a.order).isSome ∧ (toNumber F b.order).isSome := by
  unfold TreeChild.compare at h
  cases hm : toNumber F a.order with
  | none =>
      rw [hm] at h
      cases h
  | some m =>
      cases hn : toNumber F b.order with
      | none =>
          rw [hm, hn] at h
          cases h
      | some n => exact ⟨rfl, rfl⟩

/-- A difference that says something is one of numbers. -/
theorem difference_eq_lt_iff : a.difference F b = .lt ↔
    ∃ m n, toNumber F a.order = some (some m) ∧ toNumber F b.order = some (some n) ∧
      rankOf m.1 < rankOf n.1 := by
  unfold difference
  constructor
  · intro h
    split at h
    · next m n hm hn =>
        cases m with
        | none => cases h
        | some m =>
            cases n with
            | none => cases h
            | some n =>
                rw [differenceOf, compareOrders_eq m.2 n.2] at h
                exact ⟨m, n, hm, hn, compare_lt_iff_lt.mp h⟩
    · cases h
  · rintro ⟨m, n, hm, hn, hlt⟩
    rw [hm, hn]
    change compareOrders m.1 n.1 = .lt
    rw [compareOrders_eq m.2 n.2]
    exact compare_lt_iff_lt.mpr hlt

theorem difference_swap : a.difference F b = (b.difference F a).swap := by
  unfold difference
  cases toNumber F a.order with
  | none => cases toNumber F b.order <;> rfl
  | some m =>
      cases toNumber F b.order with
      | none => rfl
      | some n =>
          cases m with
          | none => cases n <;> rfl
          | some m =>
              cases n with
              | none => rfl
              | some n =>
                  change compareOrders m.1 n.1 = (compareOrders n.1 m.1).swap
                  rw [compareOrders_eq m.2 n.2, compareOrders_eq n.2 m.2]
                  exact Std.OrientedCmp.eq_swap

/-- Children of one kind compare by the difference, then by their ids. -/
theorem compare_of_kind {x y : Text} (hkind : a.kind = b.kind)
    (ha : (toNumber F a.order).isSome) (hb : (toNumber F b.order).isSome)
    (hids : a.difference F b = .eq → textOf a.id = some x ∧ textOf b.id = some y) :
    a.compare F b = some ((a.difference F b).then (F.localeCompare x y)) := by
  rw [compare_eq ha hb, hkind, compare_eq_iff_eq.mpr rfl, Ordering.then_eq]
  cases hdifference : a.difference F b with
  | lt => rfl
  | gt => rfl
  | eq =>
      obtain ⟨hx, hy⟩ := hids hdifference
      rw [eq_of_textOf hx, eq_of_textOf hy]
      rfl

/-- Of two kinds the first stands first, where the difference does not say otherwise. -/
theorem compare_of_kind_lt (hkind : a.kind < b.kind) (ha : (toNumber F a.order).isSome)
    (hb : (toNumber F b.order).isSome) :
    a.compare F b = some (if b.difference F a = .lt then .gt else .lt) ∧
      b.compare F a = some (if b.difference F a = .lt then .lt else .gt) := by
  rw [compare_eq ha hb, compare_eq hb ha, compare_lt_iff_lt.mpr hkind, compare_gt_iff_gt.mpr hkind,
    difference_swap]
  cases b.difference F a <;> exact ⟨rfl, rfl⟩

/-- A child stands where it stands. -/
theorem compare_self [Std.ReflCmp F.localeCompare] {o : Ordering} (h : a.compare F a = some o) :
    o = .eq := by
  have hread := (isSome_of_compare h).1
  have hself : a.difference F a = .eq := by
    have hswap : a.difference F a = (a.difference F a).swap := difference_swap
    cases hd : a.difference F a with
    | eq => rfl
    | lt =>
        rw [hd] at hswap
        cases hswap
    | gt =>
        rw [hd] at hswap
        cases hswap
  rw [compare_eq hread hread, hself, compare_eq_iff_eq.mpr rfl] at h
  change compareIds F a.id a.id = some o at h
  unfold compareIds at h
  split at h
  · next t _ hleft hright =>
      cases hleft.symm.trans hright
      have hsame : F.localeCompare t t = .eq := Std.ReflCmp.compare_self
      rw [propertyKey, Option.map_some, hsame] at h
      exact (Option.some.inj h).symm
  · next hleft hright => cases hleft.symm.trans hright
  · cases h

/-- What stands before another does not have a greater number. -/
theorem rank_le_of_compare_lt {m n : Numeric} (h : a.compare F b = some .lt)
    (hm : toNumber F a.order = some (some m)) (hn : toNumber F b.order = some (some n)) :
    rankOf m.1 ≤ rankOf n.1 := by
  by_contra hlt
  have hgt : b.difference F a = .lt := difference_eq_lt_iff.mpr ⟨n, m, hn, hm, not_le.mp hlt⟩
  obtain ⟨ha, hb⟩ := isSome_of_compare h
  rw [compare_eq ha hb, difference_swap, hgt] at h
  cases h

/-- What has the lesser number stands first. -/
theorem compare_lt_of_rank_lt {m n : Numeric} (hm : toNumber F a.order = some (some m))
    (hn : toNumber F b.order = some (some n)) (h : rankOf m.1 < rankOf n.1) :
    a.compare F b = some .lt := by
  rw [compare_eq (by rw [hm]; rfl) (by rw [hn]; rfl), difference_eq_lt_iff.mpr ⟨m, n, hm, hn, h⟩]
  rfl

end TreeChild

/-! ## Siblings -/

namespace CollectionExport

variable (F : FilePlatform) (source : CollectionExport)

/-- The folders of a parent. -/
def foldersUnder (parent : Option Text) : List Doc :=
  source.folders.filter fun folder =>
    parentNamed (field folder (units "parentFolderId")) = some parent

/-- The requests of a parent. -/
def requestsUnder (parent : Option Text) : List Doc :=
  source.requests.filter fun request =>
    parentNamed (field request (units "folderId")) = some parent

/-- What a parent holds, as it is handed to the sort. -/
def entries (parent : Option Text) : List TreeChild :=
  (source.foldersUnder parent).map folderEntry ++ (source.requestsUnder parent).map requestEntry

/-- The comparison puts the siblings of every parent into one order, that of `sortByOrder` for the
folders and for the requests, and what it sorts is the same for every order of the file. -/
structure SiblingsOrdered : Prop where
  antisymmetric : ∀ parent, ∀ a ∈ source.entries parent, ∀ b ∈ source.entries parent, a ≠ b →
    a.compare F b = some .lt ∧ b.compare F a = some .gt ∨
      a.compare F b = some .gt ∧ b.compare F a = some .lt
  transitive : ∀ parent, ∀ a ∈ source.entries parent, ∀ b ∈ source.entries parent,
    ∀ c ∈ source.entries parent, a.compare F b = some .lt → b.compare F c = some .lt →
      a.compare F c = some .lt
  same : ∀ parent (other : CollectionExport), other.folders.Perm source.folders →
    other.requests.Perm source.requests →
      other.childrenInOrder F parent = source.childrenInOrder F parent
  folders : ∀ parent, ∀ a ∈ source.foldersUnder parent, ∀ b ∈ source.foldersUnder parent, a ≠ b →
    (folderEntry a).beforeOrSame F (folderEntry b) = beforeOrSame F a b
  requests : ∀ parent, ∀ a ∈ source.requestsUnder parent, ∀ b ∈ source.requestsUnder parent,
    a ≠ b → (requestEntry a).beforeOrSame F (requestEntry b) = beforeOrSame F a b
  foldersSorted : ∀ parent, (source.childrenInOrder F parent).filterMap Sum.getLeft? =
    sortByOrder F (source.foldersUnder parent)
  requestsSorted : ∀ parent, (source.childrenInOrder F parent).filterMap Sum.getRight? =
    sortByOrder F (source.requestsUnder parent)

/-- Where a parent holds more than one child: each order can be taken for a number or for `NaN`; two
of one kind whose difference says nothing have ids of their own; the two ways to read an order put
two requests the same way, or one of them as equal and the other as their ids stand; and no request
whose order is `NaN` has its id before that of one with a number below that of a folder. -/
structure PlacedAlike : Prop where
  readable : ∀ parent, ∀ a ∈ source.entries parent, ∀ b ∈ source.entries parent, a ≠ b →
    (toNumber F a.order).isSome
  named : ∀ parent, ∀ a ∈ source.entries parent, ∀ b ∈ source.entries parent, a ≠ b →
    a.kind = b.kind → a.difference F b = .eq → (textOf a.id).isSome
  alike : ∀ parent, ∀ a ∈ source.requestsUnder parent, ∀ b ∈ source.requestsUnder parent, a ≠ b →
    let read := (requestEntry a).difference F (requestEntry b)
    let taken := compareOrders (orderOf a) (orderOf b)
    let ids := F.localeCompare (givenId a) (givenId b)
    read = taken ∨ read = .eq ∧ taken = ids ∨ taken = .eq ∧ read = ids
  unbroken : ∀ parent, ∀ folder ∈ source.foldersUnder parent, ∀ a ∈ source.requestsUnder parent,
    ∀ b ∈ source.requestsUnder parent, toNumber F (requestEntry a).order = some none →
      F.localeCompare (givenId a) (givenId b) = .lt →
        (requestEntry b).difference F (folderEntry folder) ≠ .lt

variable {F source}

theorem mem_entries {parent : Option Text} {entry : TreeChild} :
    entry ∈ source.entries parent ↔
      (∃ folder ∈ source.foldersUnder parent, folderEntry folder = entry) ∨
        ∃ request ∈ source.requestsUnder parent, requestEntry request = entry := by
  rw [entries, List.mem_append, List.mem_map, List.mem_map]

theorem folderEntry_mem {parent : Option Text} {folder : Doc}
    (h : folder ∈ source.foldersUnder parent) : folderEntry folder ∈ source.entries parent :=
  mem_entries.mpr (Or.inl ⟨folder, h, rfl⟩)

theorem requestEntry_mem {parent : Option Text} {request : Doc}
    (h : request ∈ source.requestsUnder parent) : requestEntry request ∈ source.entries parent :=
  mem_entries.mpr (Or.inr ⟨request, h, rfl⟩)

theorem folderEntry_ne {a b : Doc} (h : a ≠ b) : folderEntry a ≠ folderEntry b :=
  fun heq => h (Sum.inl.inj (congrArg TreeChild.child heq))

theorem requestEntry_ne {a b : Doc} (h : a ≠ b) : requestEntry a ≠ requestEntry b :=
  fun heq => h (Sum.inr.inj (congrArg TreeChild.child heq))

theorem folderEntry_ne_requestEntry (a b : Doc) : folderEntry a ≠ requestEntry b :=
  fun heq => nomatch congrArg TreeChild.child heq

/-- A document with an id of its own goes by it. -/
theorem textOf_givenId {doc : Doc} (h : (textOf (field doc (units "id"))).isSome) :
    textOf (field doc (units "id")) = some (givenId doc) := by
  obtain ⟨t, ht⟩ := Option.isSome_iff_exists.mp h
  rw [givenId, eq_of_textOf ht]
  rfl

theorem toNumber_of_isNumber {value : Json} (h : isNumber (some value) = true) :
    toNumber F (some value) = some (some ⟨value, h⟩) := by
  cases value with
  | number n => rfl
  | infinite negative => rfl
  | _ => cases h

/-- The order of a folder that has a number is that number. -/
theorem toNumber_folder {folder : Doc} (h : isNumber (field folder (units "order")) = true) :
    toNumber F (folderEntry folder).order =
      some (some ⟨orderOf folder, isNumber_orderOf folder⟩) := by
  have horder : field folder (units "order") = some (orderOf folder) := by
    rw [orderOf]
    cases hfield : field folder (units "order") with
    | none =>
        rw [hfield] at h
        cases h
    | some value =>
        rw [hfield] at h
        cases value <;> first | rfl | cases h
  change toNumber F (field folder (units "order")) = _
  rw [horder, toNumber_of_isNumber (isNumber_orderOf folder)]

/-- Two requests compare by the difference of their orders, then by their ids. -/
theorem compare_requests {parent : Option Text}
    (readable : ∀ a ∈ source.entries parent, ∀ b ∈ source.entries parent, a ≠ b →
      (toNumber F a.order).isSome)
    (named : ∀ a ∈ source.entries parent, ∀ b ∈ source.entries parent, a ≠ b →
      a.kind = b.kind → a.difference F b = .eq → (textOf a.id).isSome) {a b : Doc}
    (ha : a ∈ source.requestsUnder parent)
    (hb : b ∈ source.requestsUnder parent) (hne : a ≠ b) :
    (requestEntry a).compare F (requestEntry b) =
      some (((requestEntry a).difference F (requestEntry b)).then
        (F.localeCompare (givenId a) (givenId b))) := by
  have hkind : (requestEntry a).kind = (requestEntry b).kind := rfl
  apply TreeChild.compare_of_kind hkind
  · exact readable _ (requestEntry_mem ha) _ (requestEntry_mem hb)
      (requestEntry_ne hne)
  · exact readable _ (requestEntry_mem hb) _ (requestEntry_mem ha)
      (requestEntry_ne hne.symm)
  · intro hsame
    have hswap : (requestEntry b).difference F (requestEntry a) = .eq := by
      rw [TreeChild.difference_swap, hsame]
      rfl
    exact ⟨textOf_givenId (named _ (requestEntry_mem ha) _ (requestEntry_mem hb)
        (requestEntry_ne hne) rfl hsame),
      textOf_givenId (named _ (requestEntry_mem hb) _ (requestEntry_mem ha)
        (requestEntry_ne hne.symm) rfl hswap)⟩

section Placed

variable (numbered : ∀ folder ∈ source.folders, isNumber (field folder (units "order")) = true)
  (hplaced : source.PlacedAlike F) {parent : Option Text}

include numbered in
theorem folder_number {folder : Doc} (h : folder ∈ source.foldersUnder parent) :
    toNumber F (folderEntry folder).order =
      some (some ⟨orderOf folder, isNumber_orderOf folder⟩) :=
  toNumber_folder (numbered folder (List.mem_of_mem_filter h))

include numbered hplaced in
/-- Two folders compare as `sortByOrder` compares them. -/
theorem compare_folders {a b : Doc} (ha : a ∈ source.foldersUnder parent)
    (hb : b ∈ source.foldersUnder parent) (hne : a ≠ b) :
    (folderEntry a).compare F (folderEntry b) = some (docOrder F a b) := by
  have hdifference : (folderEntry a).difference F (folderEntry b) =
      compareOrders (orderOf a) (orderOf b) := by
    rw [TreeChild.difference, folder_number numbered ha, folder_number numbered hb]
    rfl
  rw [docOrder, ← hdifference]
  have hkind : (folderEntry a).kind = (folderEntry b).kind := rfl
  apply TreeChild.compare_of_kind hkind
  · exact hplaced.readable parent _ (folderEntry_mem ha) _ (folderEntry_mem hb) (folderEntry_ne hne)
  · exact hplaced.readable parent _ (folderEntry_mem hb) _ (folderEntry_mem ha)
      (folderEntry_ne hne.symm)
  · intro hsame
    have hswap : (folderEntry b).difference F (folderEntry a) = .eq := by
      rw [TreeChild.difference_swap, hsame]
      rfl
    exact ⟨textOf_givenId (hplaced.named parent _ (folderEntry_mem ha) _ (folderEntry_mem hb)
        (folderEntry_ne hne) rfl hsame),
      textOf_givenId (hplaced.named parent _ (folderEntry_mem hb) _ (folderEntry_mem ha)
        (folderEntry_ne hne.symm) rfl hswap)⟩

include hplaced in
/-- They compare as `sortByOrder` compares them. -/
theorem compare_requests_eq {a b : Doc} (ha : a ∈ source.requestsUnder parent)
    (hb : b ∈ source.requestsUnder parent) (hne : a ≠ b) :
    (requestEntry a).compare F (requestEntry b) = some (docOrder F a b) := by
  rw [compare_requests (hplaced.readable parent) (hplaced.named parent) ha hb hne, docOrder]
  rcases hplaced.alike parent a ha b hb hne with hsame | ⟨hread, htaken⟩ | ⟨htaken, hread⟩
  · rw [hsame]
  · rw [hread, htaken]
    cases F.localeCompare (givenId a) (givenId b) <;> rfl
  · rw [hread, htaken]
    cases F.localeCompare (givenId a) (givenId b) <;> rfl

include numbered hplaced in
/-- A folder and a request: the request stands first where it has a lesser number. -/
theorem compare_folder_request {f r : Doc} (hf : f ∈ source.foldersUnder parent)
    (hr : r ∈ source.requestsUnder parent) :
    (folderEntry f).compare F (requestEntry r) =
        some (if (requestEntry r).difference F (folderEntry f) = .lt then .gt else .lt) ∧
      (requestEntry r).compare F (folderEntry f) =
        some (if (requestEntry r).difference F (folderEntry f) = .lt then .lt else .gt) := by
  have hkind : (folderEntry f).kind < (requestEntry r).kind := Nat.zero_lt_one
  apply TreeChild.compare_of_kind_lt hkind
  · rw [folder_number numbered hf]
    rfl
  · exact hplaced.readable parent _ (requestEntry_mem hr) _ (folderEntry_mem hf)
      (folderEntry_ne_requestEntry f r).symm

include numbered hplaced in
/-- A folder stands before a request that has no number, or none below its own. -/
theorem folder_lt_request_iff {f r : Doc} (hf : f ∈ source.foldersUnder parent)
    (hr : r ∈ source.requestsUnder parent) :
    (folderEntry f).compare F (requestEntry r) = some .lt ↔
      ∀ n, toNumber F (requestEntry r).order = some (some n) → rankOf (orderOf f) ≤ rankOf n.1 := by
  rw [(compare_folder_request numbered hplaced hf hr).1]
  constructor
  · intro h n hn
    by_contra hlt
    rw [if_pos (TreeChild.difference_eq_lt_iff.mpr
      ⟨n, _, hn, folder_number numbered hf, not_le.mp hlt⟩)] at h
    cases h
  · intro h
    rw [if_neg]
    intro hlt
    obtain ⟨n, m, hn, hm, hrank⟩ := TreeChild.difference_eq_lt_iff.mp hlt
    cases (folder_number numbered hf).symm.trans hm
    exact absurd (h n hn) (not_le.mpr hrank)

include numbered hplaced in
/-- A request stands before a folder where it has a number below the folder's. -/
theorem request_lt_folder_iff {f r : Doc} (hf : f ∈ source.foldersUnder parent)
    (hr : r ∈ source.requestsUnder parent) :
    (requestEntry r).compare F (folderEntry f) = some .lt ↔
      ∃ n, toNumber F (requestEntry r).order = some (some n) ∧
        rankOf n.1 < rankOf (orderOf f) := by
  rw [(compare_folder_request numbered hplaced hf hr).2]
  constructor
  · intro h
    by_cases hlt : (requestEntry r).difference F (folderEntry f) = .lt
    · obtain ⟨n, m, hn, hm, hrank⟩ := TreeChild.difference_eq_lt_iff.mp hlt
      cases (folder_number numbered hf).symm.trans hm
      exact ⟨n, hn, hrank⟩
    · rw [if_neg hlt] at h
      cases h
  · rintro ⟨n, hn, hrank⟩
    rw [if_pos (TreeChild.difference_eq_lt_iff.mpr
      ⟨n, _, hn, folder_number numbered hf, hrank⟩)]

include hplaced in
/-- Where one of two requests has no number, the ids decide. -/
theorem ids_of_compare_lt {r s : Doc} (hr : r ∈ source.requestsUnder parent)
    (hs : s ∈ source.requestsUnder parent) (hne : r ≠ s)
    (hnan : toNumber F (requestEntry r).order = some none ∨
      toNumber F (requestEntry s).order = some none)
    (h : (requestEntry r).compare F (requestEntry s) = some .lt) :
    F.localeCompare (givenId r) (givenId s) = .lt := by
  obtain ⟨hreadr, hreads⟩ := TreeChild.isSome_of_compare h
  rw [compare_requests (hplaced.readable parent) (hplaced.named parent) hr hs hne] at h
  have hnone : (requestEntry r).difference F (requestEntry s) = .eq := by
    obtain ⟨m, hm⟩ := Option.isSome_iff_exists.mp hreadr
    obtain ⟨n, hn⟩ := Option.isSome_iff_exists.mp hreads
    rw [TreeChild.difference]
    rcases hnan with hnan | hnan
    · rw [hnan, hn]
      rfl
    · rw [hnan, hm]
      cases m <;> rfl
  rw [hnone] at h
  exact Option.some.inj h

end Placed

section Ordered

variable [Std.TransCmp F.localeCompare] [Std.LawfulEqCmp F.localeCompare]
  (numbered : ∀ folder ∈ source.folders, isNumber (field folder (units "order")) = true)
  (folderIds : (source.folders.map givenId).Nodup)
  (requestIds : (source.requests.map givenId).Nodup)
  (hplaced : source.PlacedAlike F) {parent : Option Text}

/-- Documents of ids of their own stand one way or the other. -/
theorem docOrder_decided {docs : List Doc} (hids : (docs.map givenId).Nodup) {a b : Doc}
    (ha : a ∈ docs) (hb : b ∈ docs) (hne : a ≠ b) :
    docOrder F a b = .lt ∧ docOrder F b a = .gt ∨ docOrder F a b = .gt ∧ docOrder F b a = .lt := by
  have hdistinct : givenId a ≠ givenId b :=
    fun heq => hne (List.inj_on_of_nodup_map hids ha hb heq)
  have hneq := docOrder_ne_eq hdistinct (F := F)
  rw [docOrder_swap b a]
  cases horder : docOrder F a b with
  | lt => exact Or.inl ⟨rfl, rfl⟩
  | gt => exact Or.inr ⟨rfl, rfl⟩
  | eq => exact absurd horder hneq

include numbered folderIds requestIds hplaced in
theorem antisymmetric_of_placed {a b : TreeChild} (ha : a ∈ source.entries parent)
    (hb : b ∈ source.entries parent) (hne : a ≠ b) :
    a.compare F b = some .lt ∧ b.compare F a = some .gt ∨
      a.compare F b = some .gt ∧ b.compare F a = some .lt := by
  rcases mem_entries.mp ha with ⟨f, hf, rfl⟩ | ⟨r, hr, rfl⟩
  · rcases mem_entries.mp hb with ⟨g, hg, rfl⟩ | ⟨s, hs, rfl⟩
    · have hdocs : f ≠ g := fun heq => hne (congrArg folderEntry heq)
      rw [compare_folders numbered hplaced hf hg hdocs,
        compare_folders numbered hplaced hg hf hdocs.symm, Option.some.injEq, Option.some.injEq,
        Option.some.injEq, Option.some.injEq]
      exact docOrder_decided folderIds (List.mem_of_mem_filter hf) (List.mem_of_mem_filter hg) hdocs
    · obtain ⟨hfs, hsf⟩ := compare_folder_request numbered hplaced hf hs
      rw [hfs, hsf]
      by_cases hlt : (requestEntry s).difference F (folderEntry f) = .lt
      · exact Or.inr (by rw [if_pos hlt, if_pos hlt]; exact ⟨rfl, rfl⟩)
      · exact Or.inl (by rw [if_neg hlt, if_neg hlt]; exact ⟨rfl, rfl⟩)
  · rcases mem_entries.mp hb with ⟨g, hg, rfl⟩ | ⟨s, hs, rfl⟩
    · obtain ⟨hgr, hrg⟩ := compare_folder_request numbered hplaced hg hr
      rw [hgr, hrg]
      by_cases hlt : (requestEntry r).difference F (folderEntry g) = .lt
      · exact Or.inl (by rw [if_pos hlt, if_pos hlt]; exact ⟨rfl, rfl⟩)
      · exact Or.inr (by rw [if_neg hlt, if_neg hlt]; exact ⟨rfl, rfl⟩)
    · have hdocs : r ≠ s := fun heq => hne (congrArg requestEntry heq)
      rw [compare_requests_eq hplaced hr hs hdocs,
        compare_requests_eq hplaced hs hr hdocs.symm, Option.some.injEq, Option.some.injEq,
        Option.some.injEq, Option.some.injEq]
      exact docOrder_decided requestIds (List.mem_of_mem_filter hr)
        (List.mem_of_mem_filter hs) hdocs

include numbered folderIds requestIds hplaced in
/-- What stands after another does not stand before it. -/
theorem ne_of_chain {a b c : TreeChild} (ha : a ∈ source.entries parent)
    (hb : b ∈ source.entries parent) (hab : a.compare F b = some .lt)
    (hbc : b.compare F c = some .lt) : a ≠ c := by
  rintro rfl
  have hne : a ≠ b := by
    rintro rfl
    exact nomatch TreeChild.compare_self hab
  rcases antisymmetric_of_placed numbered folderIds requestIds hplaced ha hb hne with
    ⟨-, hgt⟩ | ⟨hgt, -⟩
  · cases hgt.symm.trans hbc
  · cases hgt.symm.trans hab

include numbered folderIds requestIds hplaced in
theorem transitive_of_placed {a b c : TreeChild} (ha : a ∈ source.entries parent)
    (hb : b ∈ source.entries parent) (hc : c ∈ source.entries parent)
    (hab : a.compare F b = some .lt) (hbc : b.compare F c = some .lt) :
    a.compare F c = some .lt := by
  have hne {x y : TreeChild} (h : x.compare F y = some .lt) : x ≠ y := by
    rintro rfl
    exact nomatch TreeChild.compare_self h
  have hac := ne_of_chain numbered folderIds requestIds hplaced ha hb hab hbc
  rcases mem_entries.mp ha with ⟨f, hf, rfl⟩ | ⟨r, hr, rfl⟩ <;>
    rcases mem_entries.mp hb with ⟨g, hg, rfl⟩ | ⟨s, hs, rfl⟩ <;>
    rcases mem_entries.mp hc with ⟨k, hk, rfl⟩ | ⟨t, ht, rfl⟩
  · have hfg : f ≠ g := fun h => hne hab (congrArg folderEntry h)
    have hgk : g ≠ k := fun h => hne hbc (congrArg folderEntry h)
    have hfk : f ≠ k := fun h => hac (congrArg folderEntry h)
    rw [compare_folders numbered hplaced hf hg hfg, Option.some.injEq] at hab
    rw [compare_folders numbered hplaced hg hk hgk, Option.some.injEq] at hbc
    rw [compare_folders numbered hplaced hf hk hfk, docOrder_lt_trans hab hbc]
  · -- Two folders and a request behind them.
    rw [folder_lt_request_iff numbered hplaced hg ht] at hbc
    rw [folder_lt_request_iff numbered hplaced hf ht]
    have hfg := TreeChild.rank_le_of_compare_lt hab (folder_number numbered hf)
      (folder_number numbered hg)
    exact fun n hn => hfg.trans (hbc n hn)
  · -- A request between two folders has a number.
    obtain ⟨n, hn, hlt⟩ := (request_lt_folder_iff numbered hplaced hk hs).mp hbc
    have hle := (folder_lt_request_iff numbered hplaced hf hs).mp hab n hn
    exact TreeChild.compare_lt_of_rank_lt (folder_number numbered hf) (folder_number numbered hk)
      (hle.trans_lt hlt)
  · -- A folder and two requests behind it: the last has no number, or one that is no less.
    rw [folder_lt_request_iff numbered hplaced hf ht]
    intro n hn
    by_contra hlt
    have hst : s ≠ t := fun h => hne hbc (congrArg requestEntry h)
    obtain ⟨m, hm⟩ := Option.isSome_iff_exists.mp (TreeChild.isSome_of_compare hbc).1
    cases m with
    | none =>
        apply hplaced.unbroken parent f hf s hs t ht hm
        · exact ids_of_compare_lt hplaced hs ht hst (Or.inl hm) hbc
        · exact TreeChild.difference_eq_lt_iff.mpr
            ⟨n, _, hn, folder_number numbered hf, not_le.mp hlt⟩
    | some m =>
        have hfs := (folder_lt_request_iff numbered hplaced hf hs).mp hab m hm
        exact hlt (hfs.trans (TreeChild.rank_le_of_compare_lt hbc hm hn))
  · -- A request before two folders.
    obtain ⟨n, hn, hlt⟩ := (request_lt_folder_iff numbered hplaced hg hr).mp hab
    have hgk := TreeChild.rank_le_of_compare_lt hbc (folder_number numbered hg)
      (folder_number numbered hk)
    exact (request_lt_folder_iff numbered hplaced hk hr).mpr ⟨n, hn, hlt.trans_le hgk⟩
  · -- A folder between two requests: the first has a number.
    obtain ⟨n, hn, hlt⟩ := (request_lt_folder_iff numbered hplaced hg hr).mp hab
    have hrt : r ≠ t := fun h => hac (congrArg requestEntry h)
    obtain ⟨m, hm⟩ := Option.isSome_iff_exists.mp (TreeChild.isSome_of_compare hbc).2
    cases m with
    | some m =>
        have hgt := (folder_lt_request_iff numbered hplaced hg ht).mp hbc m hm
        exact TreeChild.compare_lt_of_rank_lt hn hm (hlt.trans_le hgt)
    | none =>
        rcases antisymmetric_of_placed numbered folderIds requestIds hplaced ha hc hac with
          ⟨hlt', -⟩ | ⟨-, hgt⟩
        · exact hlt'
        · exfalso
          apply hplaced.unbroken parent g hg t ht r hr hm
          · exact ids_of_compare_lt hplaced ht hr hrt.symm (Or.inl hm) hgt
          · exact TreeChild.difference_eq_lt_iff.mpr ⟨n, _, hn, folder_number numbered hg, hlt⟩
  · -- Two requests before a folder: the second has a number, and the first one that is no greater.
    obtain ⟨n, hn, hlt⟩ := (request_lt_folder_iff numbered hplaced hk hs).mp hbc
    have hrs : r ≠ s := fun h => hne hab (congrArg requestEntry h)
    obtain ⟨m, hm⟩ := Option.isSome_iff_exists.mp (TreeChild.isSome_of_compare hab).1
    cases m with
    | some m =>
        have hle := TreeChild.rank_le_of_compare_lt hab hm hn
        exact (request_lt_folder_iff numbered hplaced hk hr).mpr ⟨m, hm, hle.trans_lt hlt⟩
    | none =>
        exfalso
        apply hplaced.unbroken parent k hk r hr s hs hm
        · exact ids_of_compare_lt hplaced hr hs hrs (Or.inl hm) hab
        · exact TreeChild.difference_eq_lt_iff.mpr ⟨n, _, hn, folder_number numbered hk, hlt⟩
  · have hrs : r ≠ s := fun h => hne hab (congrArg requestEntry h)
    have hst : s ≠ t := fun h => hne hbc (congrArg requestEntry h)
    have hrt : r ≠ t := fun h => hac (congrArg requestEntry h)
    rw [compare_requests_eq hplaced hr hs hrs, Option.some.injEq] at hab
    rw [compare_requests_eq hplaced hs ht hst, Option.some.injEq] at hbc
    rw [compare_requests_eq hplaced hr ht hrt, docOrder_lt_trans hab hbc]

/-- Documents of ids of their own are in one order for `sortByOrder`. -/
theorem ordersList_docs {docs : List Doc} (hids : (docs.map givenId).Nodup) :
    OrdersList (fun a b => beforeOrSame F a b = true) docs where
  total a ha b hb := by
    by_cases hne : a = b
    · subst hne
      refine Or.inl (beforeOrSame_iff.mpr ?_)
      have hself : docOrder F a a = (docOrder F a a).swap := docOrder_swap a a
      intro hgt
      rw [hgt] at hself
      cases hself
    · rcases docOrder_decided (F := F) hids ha hb hne with ⟨hlt, -⟩ | ⟨-, hlt⟩
      · exact Or.inl (beforeOrSame_iff.mpr (by rw [hlt]; exact fun h => nomatch h))
      · exact Or.inr (beforeOrSame_iff.mpr (by rw [hlt]; exact fun h => nomatch h))
  trans a ha b hb c hc hab hbc := by
    rw [beforeOrSame_iff] at hab hbc ⊢
    by_cases hab' : a = b
    · rwa [hab']
    by_cases hbc' : b = c
    · rwa [← hbc']
    have hltab : docOrder F a b = .lt := by
      rcases docOrder_decided (F := F) hids ha hb hab' with ⟨hlt, -⟩ | ⟨hgt, -⟩
      · exact hlt
      · exact absurd hgt hab
    have hltbc : docOrder F b c = .lt := by
      rcases docOrder_decided (F := F) hids hb hc hbc' with ⟨hlt, -⟩ | ⟨hgt, -⟩
      · exact hlt
      · exact absurd hgt hbc
    rw [docOrder_lt_trans hltab hltbc]
    exact fun h => nomatch h
  antisymm a ha b hb hab hba := by
    rw [beforeOrSame_iff] at hab hba
    by_contra hne
    rcases docOrder_decided (F := F) hids ha hb hne with ⟨-, hgt⟩ | ⟨hgt, -⟩
    · exact hba hgt
    · exact hab hgt

end Ordered

/-- A comparison that is antisymmetric and transitive puts the siblings into one order. -/
theorem ordersList_entries [Std.ReflCmp F.localeCompare] {parent : Option Text}
    (hanti : ∀ a ∈ source.entries parent, ∀ b ∈ source.entries parent, a ≠ b →
      a.compare F b = some .lt ∧ b.compare F a = some .gt ∨
        a.compare F b = some .gt ∧ b.compare F a = some .lt)
    (htrans : ∀ a ∈ source.entries parent, ∀ b ∈ source.entries parent,
      ∀ c ∈ source.entries parent, a.compare F b = some .lt → b.compare F c = some .lt →
        a.compare F c = some .lt) :
    OrdersList (fun a b : TreeChild => a.beforeOrSame F b = true) (source.entries parent) := by
  have hlt {a b : TreeChild} (ha : a ∈ source.entries parent) (hb : b ∈ source.entries parent)
      (hne : a ≠ b) : a.beforeOrSame F b = true ↔ a.compare F b = some .lt := by
    rw [TreeChild.beforeOrSame, decide_eq_true_iff]
    rcases hanti a ha b hb hne with ⟨h, -⟩ | ⟨h, -⟩
    · rw [h]
      exact iff_of_true (fun h => nomatch h) rfl
    · rw [h]
      exact iff_of_false (fun h => h rfl) (fun h => nomatch h)
  constructor
  · intro a ha b hb
    by_cases hne : a = b
    · subst hne
      refine Or.inl (decide_eq_true fun h => ?_)
      cases TreeChild.compare_self h
    · rcases hanti a ha b hb hne with ⟨h, -⟩ | ⟨-, h⟩
      · exact Or.inl ((hlt ha hb hne).mpr h)
      · exact Or.inr ((hlt hb ha (Ne.symm hne)).mpr h)
  · intro a ha b hb c hc hab hbc
    by_cases hab' : a = b
    · rwa [hab']
    by_cases hbc' : b = c
    · rwa [← hbc']
    have hlt' := htrans a ha b hb c hc ((hlt ha hb hab').mp hab) ((hlt hb hc hbc').mp hbc)
    rw [TreeChild.beforeOrSame, hlt']
    rfl
  · intro a ha b hb hab hba
    by_contra hne
    rcases hanti a ha b hb hne with ⟨-, h⟩ | ⟨h, -⟩
    · cases h.symm.trans ((hlt hb ha (Ne.symm hne)).mp hba)
    · cases h.symm.trans ((hlt ha hb hne).mp hab)

/-- What is handed to the sort has the same members for every order of the file. -/
theorem entries_perm {other : CollectionExport} (hfolders : other.folders.Perm source.folders)
    (hrequests : other.requests.Perm source.requests) (parent : Option Text) :
    (other.entries parent).Perm (source.entries parent) :=
  ((hfolders.filter _).map _).append ((hrequests.filter _).map _)

theorem childrenInOrder_eq (F : FilePlatform) (source : CollectionExport) (parent : Option Text) :
    source.childrenInOrder F parent = ((source.entries parent).insertionSort
      fun a b => a.beforeOrSame F b = true).map TreeChild.child :=
  rfl

/-- The folders, or the requests, of what was sorted are in the order of `sortByOrder`, where the
comparison agrees with it on them. -/
theorem filterMap_childrenInOrder {parent : Option Text} {docs : List Doc} {entry : Doc → TreeChild}
    {pick : Doc ⊕ Doc → Option Doc}
    (hsorts : OrdersList (fun a b : TreeChild => a.beforeOrSame F b = true) (source.entries parent))
    (hdocs : OrdersList (fun a b => beforeOrSame F a b = true) docs)
    (hagree : ∀ a ∈ docs, ∀ b ∈ docs, a ≠ b →
      (entry a).beforeOrSame F (entry b) = beforeOrSame F a b)
    (hpick : ∀ e ∈ source.entries parent, ∀ d, pick e.child = some d → d ∈ docs ∧ e = entry d)
    (hall : ((source.entries parent).map TreeChild.child).filterMap pick = docs) :
    (source.childrenInOrder F parent).filterMap pick = sortByOrder F docs := by
  rw [childrenInOrder_eq]
  apply hdocs.eq_of_perm _ hdocs.pairwise_insertionSort _ (List.perm_insertionSort _ _)
  · rw [List.pairwise_filterMap, List.pairwise_map]
    apply hsorts.pairwise_insertionSort.imp_of_mem
    intro e e' he he' hle d hd d' hd'
    rw [List.mem_insertionSort] at he he'
    obtain ⟨hmem, rfl⟩ := hpick e he d hd
    obtain ⟨hmem', rfl⟩ := hpick e' he' d' hd'
    by_cases hne : d = d'
    · subst hne
      exact (hdocs.total d hmem d hmem).elim id id
    · rw [← hagree d hmem d' hmem' hne]
      exact hle
  · rw [← hall]
    exact ((List.perm_insertionSort _ _).map _).filterMap _

/-- Of a file whose folders have numbers and whose ids are its own, the siblings are in order where
the file places them alike. -/
theorem siblingsOrdered_of_placed [Std.TransCmp F.localeCompare] [Std.LawfulEqCmp F.localeCompare]
    (numbered : ∀ folder ∈ source.folders, isNumber (field folder (units "order")) = true)
    (folderIds : (source.folders.map givenId).Nodup)
    (requestIds : (source.requests.map givenId).Nodup) (hplaced : source.PlacedAlike F) :
    source.SiblingsOrdered F := by
  -- Both orders are orders where the places agree, and sorted lists of the same are the same.
  have hsorts (parent : Option Text) :
      OrdersList (fun a b : TreeChild => a.beforeOrSame F b = true) (source.entries parent) :=
    ordersList_entries
      (fun a ha b hb hne =>
        antisymmetric_of_placed numbered folderIds requestIds hplaced ha hb hne)
      (fun a ha b hb c hc hab hbc =>
        transitive_of_placed numbered folderIds requestIds hplaced ha hb hc hab hbc)
  have hfolders (parent : Option Text) : ∀ a ∈ source.foldersUnder parent,
      ∀ b ∈ source.foldersUnder parent, a ≠ b →
        (folderEntry a).beforeOrSame F (folderEntry b) = beforeOrSame F a b := by
    intro a ha b hb hne
    rw [Bool.eq_iff_iff, beforeOrSame_iff, TreeChild.beforeOrSame,
      compare_folders numbered hplaced ha hb hne, decide_eq_true_iff, ne_eq, Option.some.injEq]
  have hrequests (parent : Option Text) : ∀ a ∈ source.requestsUnder parent,
      ∀ b ∈ source.requestsUnder parent, a ≠ b →
        (requestEntry a).beforeOrSame F (requestEntry b) = beforeOrSame F a b := by
    intro a ha b hb hne
    rw [Bool.eq_iff_iff, beforeOrSame_iff, TreeChild.beforeOrSame,
      compare_requests_eq hplaced ha hb hne, decide_eq_true_iff, ne_eq, Option.some.injEq]
  exact
    { antisymmetric := fun parent a ha b hb hne =>
        antisymmetric_of_placed numbered folderIds requestIds hplaced ha hb hne
      transitive := fun parent a ha b hb c hc hab hbc =>
        transitive_of_placed numbered folderIds requestIds hplaced ha hb hc hab hbc
      same := by
        intro parent other hother hother'
        have hperm := (entries_perm hother hother' parent).symm
        rw [childrenInOrder_eq, childrenInOrder_eq, (hsorts parent).insertionSort_eq_of_perm hperm]
      folders := hfolders
      requests := hrequests
      foldersSorted := by
        intro parent
        have hids : ((source.foldersUnder parent).map givenId).Nodup :=
          folderIds.sublist (List.filter_sublist.map _)
        apply filterMap_childrenInOrder (hsorts parent) (ordersList_docs hids) (hfolders parent)
        · intro e he d hd
          rcases mem_entries.mp he with ⟨f, hf, rfl⟩ | ⟨r, -, rfl⟩
          · cases hd
            exact ⟨hf, rfl⟩
          · cases hd
        · rw [entries, List.map_append, List.map_map, List.map_map, List.filterMap_append,
            List.filterMap_map, List.filterMap_map]
          change (source.foldersUnder parent).filterMap some ++
            (source.requestsUnder parent).filterMap (fun _ => none) = _
          rw [List.filterMap_some, List.filterMap_eq_nil_iff.mpr fun _ _ => rfl, List.append_nil]
      requestsSorted := by
        intro parent
        have hids : ((source.requestsUnder parent).map givenId).Nodup :=
          requestIds.sublist (List.filter_sublist.map _)
        apply filterMap_childrenInOrder (hsorts parent) (ordersList_docs hids) (hrequests parent)
        · intro e he d hd
          rcases mem_entries.mp he with ⟨f, -, rfl⟩ | ⟨r, hr, rfl⟩
          · cases hd
          · cases hd
            exact ⟨hr, rfl⟩
        · rw [entries, List.map_append, List.map_map, List.map_map, List.filterMap_append,
            List.filterMap_map, List.filterMap_map]
          change (source.foldersUnder parent).filterMap (fun _ => none) ++
            (source.requestsUnder parent).filterMap some = _
          rw [List.filterMap_some, List.filterMap_eq_nil_iff.mpr fun _ _ => rfl, List.nil_append] }

/-- What the order of siblings asks of a file. -/
theorem placed_of_siblingsOrdered [Std.TransCmp F.localeCompare] [Std.LawfulEqCmp F.localeCompare]
    (numbered : ∀ folder ∈ source.folders, isNumber (field folder (units "order")) = true)
    (requestIds : (source.requests.map givenId).Nodup) (h : source.SiblingsOrdered F) :
    source.PlacedAlike F := by
  have hanswers : ∀ parent, ∀ a ∈ source.entries parent, ∀ b ∈ source.entries parent, a ≠ b →
      ∃ o, a.compare F b = some o := by
    intro parent a ha b hb hne
    rcases h.antisymmetric parent a ha b hb hne with ⟨ho, -⟩ | ⟨ho, -⟩
    · exact ⟨_, ho⟩
    · exact ⟨_, ho⟩
  have hnamed : ∀ parent, ∀ a ∈ source.entries parent, ∀ b ∈ source.entries parent, a ≠ b →
      a.kind = b.kind → a.difference F b = .eq → (textOf a.id).isSome := by
    intro parent a ha b hb hne hkind hsame
    obtain ⟨o, ho⟩ := hanswers parent a ha b hb hne
    obtain ⟨hreada, hreadb⟩ := TreeChild.isSome_of_compare ho
    rw [TreeChild.compare_eq hreada hreadb, hsame, hkind, compare_eq_iff_eq.mpr rfl] at ho
    change compareIds F a.id b.id = some o at ho
    unfold compareIds at ho
    split at ho
    · next hid _ => rw [hid]; rfl
    · next hid _ => rw [hid]; rfl
    · cases ho
  have hreadable : ∀ parent, ∀ a ∈ source.entries parent, ∀ b ∈ source.entries parent, a ≠ b →
      (toNumber F a.order).isSome := by
    intro parent a ha b hb hne
    obtain ⟨o, ho⟩ := hanswers parent a ha b hb hne
    exact (TreeChild.isSome_of_compare ho).1
  refine ⟨hreadable, hnamed, ?_, ?_⟩
  · intro parent a ha b hb hne
    have hcompare := compare_requests (hreadable parent) (hnamed parent) ha hb hne
    have hagree := h.requests parent a ha b hb hne
    rw [Bool.eq_iff_iff, beforeOrSame_iff, TreeChild.beforeOrSame, decide_eq_true_iff] at hagree
    have hsame : ((requestEntry a).difference F (requestEntry b)).then
        (F.localeCompare (givenId a) (givenId b)) = docOrder F a b := by
      rcases docOrder_decided (F := F) requestIds (List.mem_of_mem_filter ha)
        (List.mem_of_mem_filter hb) hne with ⟨horder, -⟩ | ⟨horder, -⟩ <;>
      rcases h.antisymmetric parent _ (requestEntry_mem ha) _ (requestEntry_mem hb)
        (requestEntry_ne hne) with ⟨hstands, -⟩ | ⟨hstands, -⟩ <;>
      rw [horder, hstands] at hagree
      · exact (Option.some.inj (hcompare.symm.trans hstands)).trans horder.symm
      · exact absurd rfl (hagree.mpr fun h => nomatch h)
      · exact absurd rfl (hagree.mp fun h => nomatch h)
      · exact (Option.some.inj (hcompare.symm.trans hstands)).trans horder.symm
    rw [docOrder] at hsame
    dsimp only
    cases hread : (requestEntry a).difference F (requestEntry b) <;>
      cases htaken : compareOrders (orderOf a) (orderOf b) <;>
      rw [hread, htaken] at hsame
    · exact Or.inl rfl
    · exact Or.inr (Or.inr ⟨rfl, hsame⟩)
    · cases hsame
    · exact Or.inr (Or.inl ⟨rfl, hsame.symm⟩)
    · exact Or.inl rfl
    · exact Or.inr (Or.inl ⟨rfl, hsame.symm⟩)
    · cases hsame
    · exact Or.inr (Or.inr ⟨rfl, hsame⟩)
    · exact Or.inl rfl
  · intro parent folder hfolder a ha b hb hnan hids hlt
    have hab : a ≠ b := by
      rintro rfl
      have hself : F.localeCompare (givenId a) (givenId a) = .eq := Std.ReflCmp.compare_self
      cases hself.symm.trans hids
    have hnum := toNumber_folder (F := F) (numbered folder (List.mem_of_mem_filter hfolder))
    obtain ⟨n, m, hn, hm, -⟩ := TreeChild.difference_eq_lt_iff.mp hlt
    have hnone (other : TreeChild) (hother : (toNumber F other.order).isSome) :
        (requestEntry a).difference F other = .eq := by
      obtain ⟨k, hk⟩ := Option.isSome_iff_exists.mp hother
      rw [TreeChild.difference, hnan, hk]
      rfl
    -- The first before the second by id, the second before the folder, and the
    -- folder before the first.
    have hfirst : (requestEntry a).compare F (requestEntry b) = some .lt := by
      rw [compare_requests (hreadable parent) (hnamed parent) ha hb hab,
        hnone _ (by rw [hn]; rfl), hids]
      rfl
    have hkind : (folderEntry folder).kind < (requestEntry a).kind := Nat.zero_lt_one
    have hsecond : (requestEntry b).compare F (folderEntry folder) = some .lt := by
      rw [TreeChild.compare_eq (by rw [hn]; rfl) (by rw [hm]; rfl), hlt]
      rfl
    have hthird := (TreeChild.compare_of_kind_lt (F := F) hkind (by rw [hm]; rfl)
      (by rw [hnan]; rfl)).2
    rw [hnone _ (by rw [hm]; rfl)] at hthird
    cases hthird.symm.trans (h.transitive parent _ (requestEntry_mem ha) _ (requestEntry_mem hb) _
      (folderEntry_mem hfolder) hfirst hsecond)

/-- The folders of an accepted file have numbers. -/
theorem numbered_of_checked {input : Option Json} {checked : CollectionExport}
    (h : validateCollection F input = .ok checked) :
    ∀ folder ∈ checked.folders, isNumber (field folder (units "order")) = true := by
  intro folder hfolder
  obtain ⟨item, path, rfl, hcheck⟩ := exists_checked_folder h folder hfolder
  simp only [validateFolderDoc, List.append_eq_nil_iff] at hcheck
  obtain ⟨⟨-, hnumber⟩, -⟩ := hcheck
  unfold validateNumber at hnumber
  split_ifs at hnumber with hnumeric
  exact hnumeric

/-- The siblings of an accepted file are in one order, whatever order it lists them in, exactly
where it places them alike for both readings of an order. -/
theorem siblingsOrdered_iff (F : FilePlatform) [Std.TransCmp F.localeCompare]
    [Std.LawfulEqCmp F.localeCompare] {input : Option Json} {checked : CollectionExport}
    (h : validateCollection F input = .ok checked) (folderIds : (checked.folders.map givenId).Nodup)
    (requestIds : (checked.requests.map givenId).Nodup) :
    checked.SiblingsOrdered F ↔ checked.PlacedAlike F :=
  ⟨placed_of_siblingsOrdered (numbered_of_checked h) requestIds,
    siblingsOrdered_of_placed (numbered_of_checked h) folderIds requestIds⟩

/-- A file whose requests have numbers too, and ids of their own like its folders,
places them alike. -/
theorem placedAlike_of_numbers
    (numbered : ∀ doc ∈ source.folders ++ source.requests,
      isNumber (field doc (units "order")) = true ∧ (textOf (field doc (units "id"))).isSome) :
    source.PlacedAlike F := by
  have hfolder {parent : Option Text} {folder : Doc} (h : folder ∈ source.foldersUnder parent) :=
    numbered folder (List.mem_append_left _ (List.mem_of_mem_filter h))
  have hrequest {parent : Option Text} {request : Doc}
      (h : request ∈ source.requestsUnder parent) :=
    numbered request (List.mem_append_right _ (List.mem_of_mem_filter h))
  have hnumber {request : Doc} (h : isNumber (field request (units "order")) = true) :
      toNumber F (requestEntry request).order =
        some (some ⟨orderOf request, isNumber_orderOf request⟩) := toNumber_folder h
  refine ⟨?_, ?_, ?_, ?_⟩
  · intro parent a ha b _ _
    rcases mem_entries.mp ha with ⟨f, hf, rfl⟩ | ⟨r, hr, rfl⟩
    · rw [toNumber_folder (hfolder hf).1]
      rfl
    · rw [hnumber (hrequest hr).1]
      rfl
  · intro parent a ha b _ _ _ _
    rcases mem_entries.mp ha with ⟨f, hf, rfl⟩ | ⟨r, hr, rfl⟩
    · exact (hfolder hf).2
    · exact (hrequest hr).2
  · intro parent a ha b hb _
    refine Or.inl ?_
    rw [TreeChild.difference, hnumber (hrequest ha).1, hnumber (hrequest hb).1]
    rfl
  · intro parent folder _ a ha b _ hnan
    cases hnan.symm.trans (hnumber (hrequest ha).1)

end CollectionExport

/-! ## A request with no order -/

open CollectionExport

/-- A file of three requests. -/
def threeRequests (first second third : Option Json) : Json :=
  let request (id : Text) (order : Option Json) : Json :=
    .object (setField (withLink (fieldsOf (some (fileRequest id))) (units "order") order)
      (units "id") (.string id))
  .object (setField (setField (fieldsOf (some (folderFile (units "f") (units "g"))))
    (units "folders") (.array []))
    (units "requests") (.array [request (units "a") first, request (units "b") second,
      request (units "c") third]))

theorem plainCompare_eq (a b : Text) : plainFiles.localeCompare a b = compareOfLessAndEq a b := by
  change (if a = b then Ordering.eq else if a < b then .lt else .gt) = _
  rw [compareOfLessAndEq]
  by_cases heq : a = b
  · rw [if_pos heq, heq, if_neg (List.lt_irrefl b), if_pos rfl]
  · rw [if_neg heq, if_neg heq]

theorem plainCompare_trans : Std.TransCmp plainFiles.localeCompare := by
  rw [funext fun a => funext fun b => plainCompare_eq a b]
  exact Std.TransOrd.compareOfLessAndEq_of_antisymm_of_trans_of_total_of_not_le
    Std.le_antisymm Std.le_trans (fun _ _ => Std.le_total) List.not_le

theorem plainCompare_lawful : Std.LawfulEqCmp plainFiles.localeCompare where
  compare_self := by
    intro a
    rw [plainCompare_eq, compareOfLessAndEq, if_neg (List.lt_irrefl a), if_pos rfl]
  eq_of_compare := by
    intro a b h
    rw [plainCompare_eq] at h
    exact (compareOfLessAndEq_eq_eq List.le_refl List.not_le).mp h

/-- Three requests with orders are in one order. -/
theorem threeRequests_ordered : ∃ checked,
    validateCollection plainFiles (some (threeRequests (some (.number ⟨units "2", by decide⟩))
      (some (.number ⟨units "0", by decide⟩)) (some (.number ⟨units "1", by decide⟩)))) =
        .ok checked ∧ checked.SiblingsOrdered plainFiles := by
  have := plainCompare_trans
  have := plainCompare_lawful
  have hfacts : ((validateCollection plainFiles (some (threeRequests
      (some (.number ⟨units "2", by decide⟩)) (some (.number ⟨units "0", by decide⟩))
      (some (.number ⟨units "1", by decide⟩))))).toOption.any fun checked =>
        ((checked.folders.map givenId).Nodup ∧ (checked.requests.map givenId).Nodup) ∧
          ∀ doc ∈ checked.folders ++ checked.requests,
            isNumber (field doc (units "order")) = true ∧
              (textOf (field doc (units "id"))).isSome) = true := by
    decide +kernel
  cases hok : validateCollection plainFiles (some (threeRequests
      (some (.number ⟨units "2", by decide⟩)) (some (.number ⟨units "0", by decide⟩))
      (some (.number ⟨units "1", by decide⟩)))) with
  | error issues =>
      rw [hok] at hfacts
      cases hfacts
  | ok checked =>
      rw [hok] at hfacts
      obtain ⟨⟨hfolders, hrequests⟩, hnumbers⟩ := of_decide_eq_true hfacts
      exact ⟨checked, rfl, (siblingsOrdered_iff plainFiles hok hfolders hrequests).mpr
        (placedAlike_of_numbers hnumbers)⟩

/-- The first stands before the one without an order by its id, that one before the third, and the
third before the first by its order. -/
theorem missingOrder_not_ordered : ∃ checked,
    validateCollection plainFiles (some (threeRequests (some (.number ⟨units "2", by decide⟩)) none
      (some (.number ⟨units "1", by decide⟩)))) = .ok checked ∧
      (checked.folders.map givenId).Nodup ∧ (checked.requests.map givenId).Nodup ∧
      ¬ checked.SiblingsOrdered plainFiles := by
  have hfacts : ((validateCollection plainFiles (some (threeRequests
      (some (.number ⟨units "2", by decide⟩)) none
      (some (.number ⟨units "1", by decide⟩))))).toOption.any fun checked =>
        ((checked.folders.map givenId).Nodup ∧ (checked.requests.map givenId).Nodup) ∧
          ∃ a ∈ checked.requestsUnder none, ∃ b ∈ checked.requestsUnder none,
            ∃ c ∈ checked.requestsUnder none,
              (requestEntry a).compare plainFiles (requestEntry b) = some .lt ∧
                (requestEntry b).compare plainFiles (requestEntry c) = some .lt ∧
                (requestEntry a).compare plainFiles (requestEntry c) = some .gt) = true := by
    decide +kernel
  cases hok : validateCollection plainFiles (some (threeRequests
      (some (.number ⟨units "2", by decide⟩)) none (some (.number ⟨units "1", by decide⟩)))) with
  | error issues =>
      rw [hok] at hfacts
      cases hfacts
  | ok checked =>
      rw [hok] at hfacts
      obtain ⟨⟨hfolders, hrequests⟩, a, ha, b, hb, c, hc, hab, hbc, hac⟩ := of_decide_eq_true hfacts
      refine ⟨checked, rfl, hfolders, hrequests, fun h => ?_⟩
      cases hac.symm.trans (h.transitive none _ (requestEntry_mem ha) _
        (requestEntry_mem hb) _ (requestEntry_mem hc) hab hbc)

end Wayfarer
