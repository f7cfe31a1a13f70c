import Mathlib.Data.List.Perm.Basic
import Mathlib.Data.List.Perm.Subperm
import Wayfarer.Library.Outline

/-!
# Where an outline places things

`placesOf` lists an outline's branches and leaves, each with the branch it stands in. An outline
places each branch that it draws once (`Outlines.perm_branches`), the leaves of its list and of what
it draws (`Outlines.perm_leaves`), and each thing in the branch whose key it is listed under
(`Outlines.place`). `Outlines.append` cuts the drawing of a list in two.
-/

set_option autoImplicit false

namespace Library

universe u v w

variable {α : Type u} {β : Type v} {κ : Type w}

mutual

/-- A node's branches and leaves, each with the branch it stands in. -/
def OutlineNode.places (outside : Option α) : OutlineNode α β → List (Option α × (α ⊕ β))
  | .leaf b => [(outside, .inr b)]
  | .branch a inside => (outside, .inl a) :: placesOf (some a) inside

/-- An outline's branches and leaves, each with the branch it stands in. -/
def placesOf (outside : Option α) : List (OutlineNode α β) → List (Option α × (α ⊕ β))
  | [] => []
  | node :: nodes => node.places outside ++ placesOf outside nodes

end

mutual

/-- The branches of a node, from top to bottom. -/
def OutlineNode.branches : OutlineNode α β → List α
  | .leaf _ => []
  | .branch a inside => a :: branchesOf inside

/-- The branches of an outline, from top to bottom. -/
def branchesOf : List (OutlineNode α β) → List α
  | [] => []
  | node :: nodes => node.branches ++ branchesOf nodes

end

theorem branchesOf_append (first second : List (OutlineNode α β)) :
    branchesOf (first ++ second) = branchesOf first ++ branchesOf second := by
  induction first with
  | nil => rfl
  | cons node first ih => rw [List.cons_append, branchesOf, branchesOf, ih, List.append_assoc]

theorem placesOf_append (outside : Option α) (first second : List (OutlineNode α β)) :
    placesOf outside (first ++ second) = placesOf outside first ++ placesOf outside second := by
  induction first with
  | nil => rfl
  | cons node first ih => rw [List.cons_append, placesOf, placesOf, ih, List.append_assoc]

/-- What an outline places is the same wherever it stands. -/
theorem map_snd_placesOf (outside outside' : Option α) (nodes : List (OutlineNode α β)) :
    (placesOf outside nodes).map Prod.snd = (placesOf outside' nodes).map Prod.snd := by
  induction nodes with
  | nil => rfl
  | cons node nodes ih =>
      rw [placesOf, placesOf, List.map_append, List.map_append, ih]
      cases node with
      | leaf b => rfl
      | branch a inside => rfl

mutual

theorem OutlineNode.perm_places (outside : Option α) (node : OutlineNode α β) :
    ((node.places outside).map Prod.snd).Perm (node.branches.map .inl ++ node.leaves.map .inr) :=
  match node with
  | .leaf _ => by
      rw [OutlineNode.places, OutlineNode.branches, OutlineNode.leaves]
      exact List.Perm.refl _
  | .branch a inside => by
      rw [OutlineNode.places, OutlineNode.branches, OutlineNode.leaves, List.map_cons,
        List.map_cons, List.cons_append]
      exact (perm_placesOf (some a) inside).cons _

/-- What an outline places is its branches and its leaves. -/
theorem perm_placesOf (outside : Option α) (nodes : List (OutlineNode α β)) :
    ((placesOf outside nodes).map Prod.snd).Perm
      ((branchesOf nodes).map .inl ++ (leavesOf nodes).map .inr) :=
  match nodes with
  | [] => by
      rw [placesOf, branchesOf, leavesOf]
      exact List.Perm.refl _
  | node :: nodes => by
      rw [placesOf, branchesOf, leavesOf, List.map_append, List.map_append, List.map_append]
      refine ((node.perm_places outside).append (perm_placesOf outside nodes)).trans ?_
      rw [List.append_assoc, List.append_assoc]
      refine List.Perm.append_left _ ?_
      rw [← List.append_assoc, ← List.append_assoc]
      exact List.Perm.append_right _ List.perm_append_comm

end

variable {under : κ → List (α ⊕ β)} {key : α → κ}
variable {items : List (α ⊕ β)} {nodes : List (OutlineNode α β)} {drawn drawn' : List κ}

/-- What is drawn is what the outline's branches are, and what was drawn before. -/
theorem Outlines.perm_branches (h : Outlines under key items drawn nodes drawn') :
    drawn'.Perm ((branchesOf nodes).map key ++ drawn) := by
  induction h with
  | nil => exact List.Perm.refl _
  | leaf _ ih => exact ih
  | skip _ _ ih => exact ih
  | @branch a items inside nodes drawn between drawn' _ _ _ ihInside ihLater =>
      rw [branchesOf, OutlineNode.branches, List.map_append, List.map_cons]
      refine (ihLater.trans (List.Perm.append_left _ ihInside)).trans ?_
      rw [← List.append_assoc]
      refine List.perm_middle.trans ?_
      exact (List.Perm.append_right drawn List.perm_append_comm).cons (key a)

/-- The leaves of a list. -/
def leafItems (items : List (α ⊕ β)) : List β :=
  items.filterMap Sum.getRight?

/-- The leaves that are placed are those of the list, and those under each branch drawn. -/
theorem Outlines.perm_leaves (h : Outlines under key items drawn nodes drawn') :
    (leavesOf nodes).Perm
      (leafItems items ++ (branchesOf nodes).flatMap fun a => leafItems (under (key a))) := by
  induction h with
  | nil => exact List.Perm.refl _
  | leaf _ ih =>
      rw [leavesOf, OutlineNode.leaves, branchesOf, OutlineNode.branches]
      exact ih.cons _
  | skip _ _ ih => exact ih
  | @branch a items inside nodes drawn between drawn' _ _ _ ihInside ihLater =>
      rw [leavesOf, OutlineNode.leaves, branchesOf, OutlineNode.branches, List.flatMap_append,
        List.flatMap_cons]
      refine (ihInside.append ihLater).trans ?_
      rw [← List.append_assoc]
      have hitems : leafItems (.inl a :: items) = leafItems items := rfl
      rw [hitems]
      refine (List.Perm.append_right _ List.perm_append_comm).trans ?_
      rw [List.append_assoc]

/-- Everything is placed where the list is, or in the branch whose key it is listed under. -/
theorem Outlines.place (h : Outlines under key items drawn nodes drawn') {outside place : Option α}
    {x : α ⊕ β} (hplace : (place, x) ∈ placesOf outside nodes) :
    (place = outside ∧ x ∈ items) ∨
      ∃ a ∈ branchesOf nodes, place = some a ∧ x ∈ under (key a) := by
  induction h generalizing outside with
  | nil => cases hplace
  | leaf _ ih =>
      rw [placesOf, OutlineNode.places, List.singleton_append] at hplace
      rcases List.mem_cons.mp hplace with heq | hlater
      · cases heq
        exact Or.inl ⟨rfl, List.mem_cons_self⟩
      · exact (ih hlater).imp_left fun hin => ⟨hin.1, List.mem_cons_of_mem _ hin.2⟩
  | skip _ _ ih =>
      exact (ih hplace).imp_left fun hin => ⟨hin.1, List.mem_cons_of_mem _ hin.2⟩
  | @branch a items inside nodes drawn between drawn' _ _ _ ihInside ihLater =>
      rw [placesOf, OutlineNode.places, List.cons_append] at hplace
      rcases List.mem_cons.mp hplace with heq | hrest
      · cases heq
        exact Or.inl ⟨rfl, List.mem_cons_self⟩
      · rw [branchesOf, OutlineNode.branches]
        rcases List.mem_append.mp hrest with hinside | hlater
        · rcases ihInside hinside with ⟨hsome, hunder⟩ | ⟨b, hb, hbelow⟩
          · exact Or.inr ⟨a, List.mem_append_left _ List.mem_cons_self, hsome, hunder⟩
          · exact Or.inr ⟨b, List.mem_append_left _ (List.mem_cons_of_mem a hb), hbelow⟩
        · rcases ihLater hlater with hin | ⟨b, hb, hbelow⟩
          · exact Or.inl ⟨hin.1, List.mem_cons_of_mem _ hin.2⟩
          · exact Or.inr ⟨b, List.mem_append_right _ hb, hbelow⟩

/-- Every branch placed is one of the list, or listed under a key. -/
theorem Outlines.branch_mem (h : Outlines under key items drawn nodes drawn') {S : α → Prop}
    (hitems : ∀ a, .inl a ∈ items → S a) (hunder : ∀ k a, .inl a ∈ under k → S a) :
    ∀ a ∈ branchesOf nodes, S a := by
  induction h with
  | nil => exact fun a ha => absurd ha List.not_mem_nil
  | leaf _ ih => exact ih fun a ha => hitems a (List.mem_cons_of_mem _ ha)
  | skip _ _ ih => exact ih fun a ha => hitems a (List.mem_cons_of_mem _ ha)
  | @branch b items inside nodes drawn between drawn' _ _ _ ihInside ihLater =>
      intro a ha
      rw [branchesOf, OutlineNode.branches] at ha
      rcases List.mem_append.mp ha with hin | hlater
      · rcases List.mem_cons.mp hin with rfl | hinside
        · exact hitems a List.mem_cons_self
        · exact ihInside (hunder (key b)) a hinside
      · exact ihLater (fun c hc => hitems c (List.mem_cons_of_mem _ hc)) a hlater

/-- Nothing is drawn twice. -/
theorem Outlines.nodup (h : Outlines under key items drawn nodes drawn') (hdrawn : drawn.Nodup) :
    drawn'.Nodup := by
  induction h with
  | nil => exact hdrawn
  | leaf _ ih => exact ih hdrawn
  | skip _ _ ih => exact ih hdrawn
  | branch hfresh _ _ ihInside ihLater =>
      exact ihLater (ihInside (List.nodup_cons.mpr ⟨hfresh, hdrawn⟩))

/-- A list is drawn as its first part, and the rest after what that has drawn. -/
theorem Outlines.append {first second : List (α ⊕ β)}
    (h : Outlines under key (first ++ second) drawn nodes drawn') :
    ∃ between nodes₁ nodes₂, nodes = nodes₁ ++ nodes₂ ∧
      Outlines under key first drawn nodes₁ between ∧
      Outlines under key second between nodes₂ drawn' := by
  induction first generalizing drawn nodes with
  | nil => exact ⟨drawn, [], nodes, rfl, .nil, h⟩
  | cons item first ih =>
      cases h with
      | leaf hlater =>
          obtain ⟨between, nodes₁, nodes₂, rfl, h₁, h₂⟩ := ih hlater
          exact ⟨between, _ :: nodes₁, nodes₂, rfl, .leaf h₁, h₂⟩
      | skip hdrawn hlater =>
          obtain ⟨between, nodes₁, nodes₂, rfl, h₁, h₂⟩ := ih hlater
          exact ⟨between, nodes₁, nodes₂, rfl, .skip hdrawn h₁, h₂⟩
      | branch hfresh hinside hlater =>
          obtain ⟨between, nodes₁, nodes₂, rfl, h₁, h₂⟩ := ih hlater
          exact ⟨between, _ :: nodes₁, nodes₂, rfl, .branch hfresh hinside h₁, h₂⟩

/-- What is drawn holds what is under it. -/
def DownClosed (under : κ → List (α ⊕ β)) (key : α → κ) (drawn : List κ) : Prop :=
  ∀ k a, k ∈ drawn → .inl a ∈ under k → key a ∈ drawn

/-- What holds what is under each of it holds what is below. -/
theorem DownClosed.mem_of_below (h : DownClosed under key drawn) {k k' : κ}
    (hbelow : Below under key k k') (hk : k ∈ drawn) : k' ∈ drawn := by
  induction hbelow with
  | refl => exact hk
  | tail _ hstep ih =>
      obtain ⟨a, ha, rfl⟩ := hstep
      exact h _ a ih ha

/-- Drawing more keeps it so. -/
theorem Outlines.downClosed (h : Outlines under key items drawn nodes drawn')
    (hdrawn : DownClosed under key drawn) : DownClosed under key drawn' := by
  intro k a hk ha
  by_cases hold : k ∈ drawn
  · exact h.subset (hdrawn k a hold ha)
  · exact h.mem_of_under hk hold ha

/-- What is drawn of a list of branches, after what holds what is under it: what one of them is
above, and itself. -/
theorem Outlines.mem_iff {branches : List α}
    (h : Outlines under key (branches.map .inl) drawn nodes drawn')
    (hdrawn : DownClosed under key drawn) (k : κ) :
    k ∈ drawn' ↔ k ∈ drawn ∨ ∃ a ∈ branches, Below under key (key a) k := by
  constructor
  · intro hk
    refine h.met (S := fun k => ∃ a ∈ branches, Below under key (key a) k) ?_ ?_ hk
    · rintro j b ⟨a, ha, hbelow⟩ hb
      exact ⟨a, ha, hbelow.tail ⟨b, hb, rfl⟩⟩
    · intro a ha
      obtain ⟨b, hb, heq⟩ := List.mem_map.mp ha
      cases heq
      exact ⟨a, hb, .refl⟩
  · rintro (hk | ⟨a, ha, hbelow⟩)
    · exact h.subset hk
    · exact (h.downClosed hdrawn).mem_of_below hbelow
        (h.mem_of_mem (List.mem_map_of_mem ha))

/-- A branch of a list is placed where the list is, exactly where it was not drawn before
the list came to it. -/
theorem Outlines.placed_iff {branches : List α}
    (h : Outlines under key (branches.map .inl) drawn nodes drawn')
    (hdrawn : DownClosed under key drawn) (hnodup : (branches.map key).Nodup) {a : α}
    {before after : List α} (hsplit : branches = before ++ a :: after) :
    (none, .inl a) ∈ placesOf none nodes ↔
      key a ∉ drawn ∧ ∀ b ∈ before, ¬ Below under key (key b) (key a) := by
  subst hsplit
  rw [List.map_append, List.map_cons, List.nodup_append, List.nodup_cons] at hnodup
  obtain ⟨-, ⟨hafter, -⟩, hdisjoint⟩ := hnodup
  rw [List.map_append, List.map_cons] at h
  obtain ⟨between, nodes₁, nodes₂, rfl, h₁, h₂⟩ := h.append
  have hbetween := h₁.mem_iff hdrawn (key a)
  -- It is in no other part of the list.
  have hitem : ∀ {others : List α} {ns : List (OutlineNode α β)} {d d' : List κ},
      key a ∉ others.map key → Outlines under key (others.map .inl) d ns d' →
        (none, .inl a) ∉ placesOf none ns := by
    intro others ns d d' hnot hothers hplace
    rcases hothers.place hplace with ⟨-, hmem⟩ | ⟨b, -, hb⟩
    · obtain ⟨b, hb, heq⟩ := List.mem_map.mp hmem
      cases heq
      exact hnot (List.mem_map_of_mem hb)
    · cases hb.1
  have hbefore : (none, .inl a) ∉ placesOf none nodes₁ :=
    hitem (fun hmem => hdisjoint _ hmem _ List.mem_cons_self rfl) h₁
  rw [placesOf_append, List.mem_append, or_iff_right hbefore]
  have hnot : key a ∉ between ↔
      key a ∉ drawn ∧ ∀ b ∈ before, ¬ Below under key (key b) (key a) := by
    rw [hbetween, not_or]
    exact and_congr_right fun _ => by
      constructor
      · exact fun hnone b hb hbelow => hnone ⟨b, hb, hbelow⟩
      · rintro hall ⟨b, hb, hbelow⟩
        exact hall b hb hbelow
  rw [← hnot]
  cases h₂ with
  | skip hin hlater => exact iff_of_false (hitem hafter hlater) fun hfresh => hfresh hin
  | branch hfresh _ _ =>
      refine iff_of_true ?_ hfresh
      rw [placesOf, OutlineNode.places, List.cons_append]
      exact List.mem_cons_self

end Library
