import Mathlib.Logic.Relation
import Mathlib.Data.List.Basic

/-!
# Outlines

The items of a keyed graph drawn as an outline: branches, which hold what is listed under their key,
and leaves. A branch is drawn once, where it is met first: what was drawn is handed on from one item
to the next, into a branch and out of it again.

`outline` computes it and `inOrder` only its leaves. `Outlines` says what the computation does step
by step, and the lemmas are by induction on it: what is drawn (`Outlines.met`), which leaves there
are (`Outlines.mem_leaves`), that only the part of what was drawn before that can be met counts
(`Outlines.congr`), and how a branch of an outline was drawn (`Outlines.of_branch`).
-/

set_option autoImplicit false

namespace Library

universe u v w

variable {α : Type u} {β : Type v} {κ : Type w}

/-- What an outline is made of. -/
inductive OutlineNode (α : Type u) (β : Type v) where
  | leaf (b : β)
  | branch (a : α) (inside : List (OutlineNode α β))

mutual

/-- The leaves of a node, from top to bottom. -/
def OutlineNode.leaves : OutlineNode α β → List β
  | .leaf b => [b]
  | .branch _ inside => leavesOf inside

/-- The leaves of an outline, from top to bottom. -/
def leavesOf : List (OutlineNode α β) → List β
  | [] => []
  | node :: nodes => node.leaves ++ leavesOf nodes

end

/-- An outline has a branch, at some depth. -/
inductive HasBranch (a : α) (inside : List (OutlineNode α β)) : List (OutlineNode α β) → Prop where
  | here {rest : List (OutlineNode α β)} : HasBranch a inside (.branch a inside :: rest)
  | within {a' : α} {inside' rest : List (OutlineNode α β)} :
      HasBranch a inside inside' → HasBranch a inside (.branch a' inside' :: rest)
  | later {node : OutlineNode α β} {rest : List (OutlineNode α β)} :
      HasBranch a inside rest → HasBranch a inside (node :: rest)

section

variable [DecidableEq κ] (under : κ → List (α ⊕ β)) (key : α → κ)

/-- The items of a list drawn, where `go` draws what is under a key. -/
def outlineWith (go : κ → List κ → List (OutlineNode α β) × List κ) :
    List (α ⊕ β) → List κ → List (OutlineNode α β) × List κ
  | [], drawn => ([], drawn)
  | .inr b :: items, drawn =>
      let later := outlineWith go items drawn
      (.leaf b :: later.1, later.2)
  | .inl a :: items, drawn =>
      if key a ∈ drawn then outlineWith go items drawn
      else
        let inner := go (key a) (key a :: drawn)
        let later := outlineWith go items inner.2
        (.branch a inner.1 :: later.1, later.2)

/-- The items of a list drawn, to a depth. -/
def outline : Nat → List (α ⊕ β) → List κ → List (OutlineNode α β) × List κ
  | 0, _, drawn => ([], drawn)
  | depth + 1, items, drawn =>
      outlineWith key (fun k drawn => outline depth (under k) drawn) items drawn

/-- The leaves of a list's items, where `go` finds those under a key. -/
def inOrderWith (go : κ → List κ → List β × List κ) :
    List (α ⊕ β) → List κ → List β × List κ
  | [], entered => ([], entered)
  | .inr b :: items, entered =>
      let later := inOrderWith go items entered
      (b :: later.1, later.2)
  | .inl a :: items, entered =>
      if key a ∈ entered then inOrderWith go items entered
      else
        let inner := go (key a) (key a :: entered)
        let later := inOrderWith go items inner.2
        (inner.1 ++ later.1, later.2)

/-- The leaves of a list's items, to a depth. -/
def inOrder : Nat → List (α ⊕ β) → List κ → List β × List κ
  | 0, _, entered => ([], entered)
  | depth + 1, items, entered =>
      inOrderWith key (fun k entered => inOrder depth (under k) entered) items entered

/-- The leaves found in order are those of the outline, and the same keys were met. -/
theorem inOrder_eq (depth : Nat) (items : List (α ⊕ β)) (drawn : List κ) :
    inOrder under key depth items drawn =
      (leavesOf (outline under key depth items drawn).1,
        (outline under key depth items drawn).2) := by
  induction depth generalizing items drawn with
  | zero => rfl
  | succ depth ih =>
      rw [inOrder, outline]
      induction items generalizing drawn with
      | nil => rfl
      | cons item items ihItems =>
          cases item with
          | inr b =>
              rw [inOrderWith, outlineWith, ihItems]
              rfl
          | inl a =>
              rw [inOrderWith, outlineWith]
              by_cases hdrawn : key a ∈ drawn
              · rw [if_pos hdrawn, if_pos hdrawn]
                exact ihItems drawn
              · rw [if_neg hdrawn, if_neg hdrawn]
                dsimp only
                rw [ih, ihItems]
                rfl

/-- What drawing the items of a list does: nothing for a branch that was drawn. -/
inductive Outlines : List (α ⊕ β) → List κ → List (OutlineNode α β) → List κ → Prop where
  | nil {drawn : List κ} : Outlines [] drawn [] drawn
  | leaf {b : β} {items : List (α ⊕ β)} {nodes : List (OutlineNode α β)} {drawn drawn' : List κ} :
      Outlines items drawn nodes drawn' → Outlines (.inr b :: items) drawn (.leaf b :: nodes) drawn'
  | skip {a : α} {items : List (α ⊕ β)} {nodes : List (OutlineNode α β)} {drawn drawn' : List κ} :
      key a ∈ drawn → Outlines items drawn nodes drawn' →
      Outlines (.inl a :: items) drawn nodes drawn'
  | branch {a : α} {items : List (α ⊕ β)} {inside nodes : List (OutlineNode α β)}
      {drawn between drawn' : List κ} :
      key a ∉ drawn → Outlines (under (key a)) (key a :: drawn) inside between →
      Outlines items between nodes drawn' →
      Outlines (.inl a :: items) drawn (.branch a inside :: nodes) drawn'

end

variable {under : κ → List (α ⊕ β)} {key : α → κ}
variable {items : List (α ⊕ β)} {nodes : List (OutlineNode α β)} {drawn drawn' : List κ}

/-- What was drawn stays drawn. -/
theorem Outlines.subset (h : Outlines under key items drawn nodes drawn') : drawn ⊆ drawn' := by
  induction h with
  | nil => exact List.Subset.refl _
  | leaf _ ih => exact ih
  | skip _ _ ih => exact ih
  | branch _ _ _ ihInside ihLater =>
      exact List.Subset.trans (List.Subset.trans (List.subset_cons_self _ _) ihInside) ihLater

/-- Every branch of the list is drawn. -/
theorem Outlines.mem_of_mem (h : Outlines under key items drawn nodes drawn') {a : α}
    (ha : .inl a ∈ items) : key a ∈ drawn' := by
  induction h with
  | nil => cases ha
  | leaf _ ih =>
      rcases List.mem_cons.mp ha with heq | hlater
      · cases heq
      · exact ih hlater
  | skip hdrawn hlater ih =>
      rcases List.mem_cons.mp ha with heq | hin
      · cases heq
        exact hlater.subset hdrawn
      · exact ih hin
  | branch _ hinside hlater _ ih =>
      rcases List.mem_cons.mp ha with heq | hin
      · cases heq
        exact hlater.subset (hinside.subset List.mem_cons_self)
      · exact ih hin

/-- Every branch under one that is drawn here is drawn. -/
theorem Outlines.mem_of_under (h : Outlines under key items drawn nodes drawn') {k : κ} {a : α}
    (hk : k ∈ drawn') (hnew : k ∉ drawn) (ha : .inl a ∈ under k) : key a ∈ drawn' := by
  induction h with
  | nil => exact absurd hk hnew
  | leaf _ ih => exact ih hk hnew
  | skip _ _ ih => exact ih hk hnew
  | @branch b items inside nodes drawn between drawn' _ hinside hlater ihInside ihLater =>
      by_cases hbetween : k ∈ between
      · apply hlater.subset
        by_cases hself : k = key b
        · subst hself
          exact hinside.mem_of_mem ha
        · apply ihInside hbetween
          intro hmem
          rcases List.mem_cons.mp hmem with heq | hold
          · exact hself heq
          · exact hnew hold
      · exact ihLater hk hbetween

/-- The leaves drawn are those of the list, and those under what is drawn here. -/
theorem Outlines.mem_leaves (h : Outlines under key items drawn nodes drawn') {b : β} :
    b ∈ leavesOf nodes ↔ .inr b ∈ items ∨ ∃ k ∈ drawn', k ∉ drawn ∧ .inr b ∈ under k := by
  induction h with
  | nil =>
      constructor
      · intro hb
        cases hb
      · rintro (hb | ⟨k, hk, hnew, -⟩)
        · cases hb
        · exact absurd hk hnew
  | leaf _ ih =>
      rw [leavesOf, OutlineNode.leaves, List.singleton_append, List.mem_cons, ih, List.mem_cons,
        Sum.inr.injEq, or_assoc]
  | skip _ _ ih =>
      rw [ih, List.mem_cons]
      simp
  | @branch a items inside nodes drawn between drawn' hfresh hinside hlater ihInside ihLater =>
      rw [leavesOf, OutlineNode.leaves, List.mem_append, ihInside, ihLater]
      constructor
      · rintro ((hb | ⟨k, hk, hnew, hb⟩) | hb | ⟨k, hk, hnew, hb⟩)
        · exact Or.inr ⟨key a, hlater.subset (hinside.subset List.mem_cons_self), hfresh, hb⟩
        · exact Or.inr ⟨k, hlater.subset hk, fun h => hnew (List.mem_cons_of_mem _ h), hb⟩
        · exact Or.inl (List.mem_cons_of_mem _ hb)
        · refine Or.inr ⟨k, hk, fun h => hnew (hinside.subset (List.mem_cons_of_mem _ h)), hb⟩
      · rintro (hb | ⟨k, hk, hnew, hb⟩)
        · rcases List.mem_cons.mp hb with heq | hb
          · cases heq
          · exact Or.inr (Or.inl hb)
        · -- A key drawn here is the branch's, one inside it, or one of the rest.
          by_cases hself : k = key a
          · subst hself
            exact Or.inl (Or.inl hb)
          · by_cases hbetween : k ∈ between
            · refine Or.inl (Or.inr ⟨k, hbetween, ?_, hb⟩)
              intro hmem
              rcases List.mem_cons.mp hmem with heq | hold
              · exact hself heq
              · exact hnew hold
            · exact Or.inr (Or.inr ⟨k, hk, hbetween, hb⟩)

/-- What is drawn here can be met from the list. -/
theorem Outlines.met (h : Outlines under key items drawn nodes drawn') {S : κ → Prop}
    (hclosed : ∀ k a, S k → .inl a ∈ under k → S (key a)) (hitems : ∀ a, .inl a ∈ items → S (key a))
    {k : κ} (hk : k ∈ drawn') : k ∈ drawn ∨ S k := by
  induction h with
  | nil => exact Or.inl hk
  | leaf _ ih => exact ih (fun a ha => hitems a (List.mem_cons_of_mem _ ha)) hk
  | skip _ _ ih => exact ih (fun a ha => hitems a (List.mem_cons_of_mem _ ha)) hk
  | @branch a items inside nodes drawn between drawn' _ _ _ ihInside ihLater =>
      have ha := hitems a List.mem_cons_self
      rcases ihLater (fun a' ha' => hitems a' (List.mem_cons_of_mem _ ha')) hk with hbetween | hS
      · rcases ihInside (fun a' ha' => hclosed _ a' ha ha') hbetween with hdrawn | hS
        · rcases List.mem_cons.mp hdrawn with rfl | hold
          · exact Or.inr ha
          · exact Or.inl hold
        · exact Or.inr hS
      · exact Or.inr hS

/-- Two outlines of a list are the same where the same was drawn before of what can be met. -/
theorem Outlines.congr {nodes₁ nodes₂ : List (OutlineNode α β)} {drawn₁ drawn₂ : List κ}
    {drawn₁' drawn₂' : List κ} (h₁ : Outlines under key items drawn₁ nodes₁ drawn₁')
    (h₂ : Outlines under key items drawn₂ nodes₂ drawn₂') {S : κ → Prop}
    (hclosed : ∀ k a, S k → .inl a ∈ under k → S (key a)) (hitems : ∀ a, .inl a ∈ items → S (key a))
    (hsame : ∀ k, S k → (k ∈ drawn₁ ↔ k ∈ drawn₂)) :
    nodes₁ = nodes₂ ∧ ∀ k, S k → (k ∈ drawn₁' ↔ k ∈ drawn₂') := by
  induction h₁ generalizing nodes₂ drawn₂ drawn₂' with
  | nil =>
      cases h₂
      exact ⟨rfl, hsame⟩
  | leaf _ ih =>
      cases h₂ with
      | leaf hlater₂ =>
          obtain ⟨hnodes, hdrawn⟩ :=
            ih hlater₂ (fun a ha => hitems a (List.mem_cons_of_mem _ ha)) hsame
          exact ⟨by rw [hnodes], hdrawn⟩
  | @skip a _ _ _ _ hdrawn _ ih =>
      have ha := (hsame _ (hitems a List.mem_cons_self)).mp hdrawn
      cases h₂ with
      | skip _ hlater₂ =>
          exact ih hlater₂ (fun a ha => hitems a (List.mem_cons_of_mem _ ha)) hsame
      | branch hfresh _ _ => exact absurd ha hfresh
  | @branch a _ _ _ _ _ _ hfresh _ _ ihInside ihLater =>
      have ha := hitems a List.mem_cons_self
      cases h₂ with
      | skip hdrawn _ => exact absurd ((hsame _ ha).mpr hdrawn) hfresh
      | branch _ hinside₂ hlater₂ =>
          obtain ⟨hnodes, hbetween⟩ := ihInside hinside₂ (fun a' ha' => hclosed _ a' ha ha') (by
            intro k hk
            rw [List.mem_cons, List.mem_cons, hsame k hk])
          obtain ⟨hnodes', hdrawn⟩ :=
            ihLater hlater₂ (fun a' ha' => hitems a' (List.mem_cons_of_mem _ ha')) hbetween
          exact ⟨by rw [hnodes, hnodes'], hdrawn⟩

/-- A branch of an outline was not drawn before, and is now. -/
theorem Outlines.fresh (h : Outlines under key items drawn nodes drawn') {a : α}
    {inside : List (OutlineNode α β)} (hbranch : HasBranch a inside nodes) :
    key a ∉ drawn ∧ key a ∈ drawn' := by
  induction h with
  | nil => cases hbranch
  | leaf _ ih =>
      cases hbranch with
      | later hlater => exact ih hlater
  | skip _ _ ih => exact ih hbranch
  | branch hfresh hinside hlater ihInside ihLater =>
      cases hbranch with
      | here => exact ⟨hfresh, hlater.subset (hinside.subset List.mem_cons_self)⟩
      | within hin =>
          obtain ⟨hnot, hmem⟩ := ihInside hin
          exact ⟨fun h => hnot (List.mem_cons_of_mem _ h), hlater.subset hmem⟩
      | later hin =>
          obtain ⟨hnot, hmem⟩ := ihLater hin
          exact ⟨fun h => hnot (hinside.subset (List.mem_cons_of_mem _ h)), hmem⟩

/-- A branch of an outline is one of the list or of what is under a key, and was drawn
from what is under it. -/
theorem Outlines.of_branch (h : Outlines under key items drawn nodes drawn') {a : α}
    {inside : List (OutlineNode α β)} (hbranch : HasBranch a inside nodes) :
    (.inl a ∈ items ∨ ∃ j, .inl a ∈ under j) ∧
      ∃ before after, Outlines under key (under (key a)) before inside after := by
  induction h with
  | nil => cases hbranch
  | leaf _ ih =>
      cases hbranch with
      | later hlater => exact (ih hlater).imp_left (Or.imp_left (List.mem_cons_of_mem _))
  | skip _ _ ih => exact (ih hbranch).imp_left (Or.imp_left (List.mem_cons_of_mem _))
  | branch _ hinside _ ihInside ihLater =>
      cases hbranch with
      | here => exact ⟨Or.inl List.mem_cons_self, _, _, hinside⟩
      | within hin =>
          obtain ⟨hfrom, hdrawn⟩ := ihInside hin
          exact ⟨Or.inr (hfrom.elim (fun hhere => ⟨_, hhere⟩) id), hdrawn⟩
      | later hin => exact (ihLater hin).imp_left (Or.imp_left (List.mem_cons_of_mem _))

/-- What is drawn here is drawn as a branch. -/
theorem Outlines.exists_branch (h : Outlines under key items drawn nodes drawn') {k : κ}
    (hk : k ∈ drawn') (hnew : k ∉ drawn) : ∃ a inside, HasBranch a inside nodes ∧ key a = k := by
  induction h with
  | nil => exact absurd hk hnew
  | leaf _ ih =>
      obtain ⟨a, inside, hbranch, hkey⟩ := ih hk hnew
      exact ⟨a, inside, .later hbranch, hkey⟩
  | skip _ _ ih => exact ih hk hnew
  | @branch b items inner nodes drawn between drawn' _ hinside _ ihInside ihLater =>
      by_cases hbetween : k ∈ between
      · by_cases hself : k = key b
        · exact ⟨b, inner, .here, hself.symm⟩
        · obtain ⟨a, inside, hbranch, hkey⟩ := ihInside hbetween fun hmem =>
            (List.mem_cons.mp hmem).elim hself hnew
          exact ⟨a, inside, .within hbranch, hkey⟩
      · obtain ⟨a, inside, hbranch, hkey⟩ := ihLater hk hbetween
        exact ⟨a, inside, .later hbranch, hkey⟩

/-- A key is met from another, going down. -/
def Below (under : κ → List (α ⊕ β)) (key : α → κ) : κ → κ → Prop :=
  Relation.ReflTransGen fun k k' => ∃ a, .inl a ∈ under k ∧ key a = k'

/-- A leaf is met from a key, going down. -/
def LeafBelow (under : κ → List (α ⊕ β)) (key : α → κ) (k : κ) (b : β) : Prop :=
  ∃ k', Below under key k k' ∧ .inr b ∈ under k'

/-- It is listed there, or met from a branch that is. -/
theorem leafBelow_iff {k : κ} {b : β} :
    LeafBelow under key k b ↔
      .inr b ∈ under k ∨ ∃ a, .inl a ∈ under k ∧ LeafBelow under key (key a) b := by
  constructor
  · rintro ⟨k', hbelow, hb⟩
    rcases Relation.ReflTransGen.cases_head hbelow with rfl | ⟨_, ⟨a, ha, rfl⟩, hrest⟩
    · exact Or.inl hb
    · exact Or.inr ⟨a, ha, k', hrest, hb⟩
  · rintro (hb | ⟨a, ha, k', hbelow, hb⟩)
    · exact ⟨k, .refl, hb⟩
    · exact ⟨k', hbelow.head ⟨a, ha, rfl⟩, hb⟩

/-- A leaf of an outline is listed, or met from a branch that is. -/
theorem Outlines.leafBelow_of_mem (h : Outlines under key items drawn nodes drawn') {b : β}
    (hb : b ∈ leavesOf nodes) :
    .inr b ∈ items ∨ ∃ a, .inl a ∈ items ∧ LeafBelow under key (key a) b := by
  rcases h.mem_leaves.mp hb with hhere | ⟨k, hk, hnew, hunder⟩
  · exact Or.inl hhere
  · have hmet := h.met (S := fun k => ∃ a, .inl a ∈ items ∧ Below under key (key a) k)
      (fun j a hj ha => ?closed) (fun a ha => ⟨a, ha, .refl⟩) hk
    · obtain ⟨a, ha, hbelow⟩ := hmet.resolve_left hnew
      exact Or.inr ⟨a, ha, k, hbelow, hunder⟩
    case closed =>
      obtain ⟨a', ha', hbelow⟩ := hj
      exact ⟨a', ha', hbelow.tail ⟨a, ha, rfl⟩⟩

/-- Of what is under a key, everything met from it is drawn. -/
theorem Outlines.mem_of_below {k j : κ} (h : Outlines under key (under k) drawn nodes drawn')
    (hdrawn : ∀ j ∈ drawn, j = k) (hbelow : Below under key k j) : j = k ∨ j ∈ drawn' := by
  induction hbelow with
  | refl => exact Or.inl rfl
  | @tail j _ _ hstep ih =>
      obtain ⟨a, ha, rfl⟩ := hstep
      by_cases hself : j = k
      · subst hself
        exact Or.inr (h.mem_of_mem ha)
      · exact Or.inr (h.mem_of_under (ih.resolve_left hself) (fun hj => hself (hdrawn j hj)) ha)

/-- The leaves of an outline of what is under a key are those that are met from it. -/
theorem Outlines.mem_leaves_under {k : κ} (h : Outlines under key (under k) drawn nodes drawn')
    (hdrawn : ∀ j ∈ drawn, j = k) {b : β} : b ∈ leavesOf nodes ↔ LeafBelow under key k b := by
  constructor
  · exact fun hb => leafBelow_iff.mpr (h.leafBelow_of_mem hb)
  · rintro ⟨j, hbelow, hb⟩
    by_cases hself : j = k
    · subst hself
      exact h.mem_leaves.mpr (Or.inl hb)
    · exact h.mem_leaves.mpr (Or.inr ⟨j, (h.mem_of_below hdrawn hbelow).resolve_left hself,
        fun hj => hself (hdrawn j hj), hb⟩)

theorem leavesOf_append (first second : List (OutlineNode α β)) :
    leavesOf (first ++ second) = leavesOf first ++ leavesOf second := by
  induction first with
  | nil => rfl
  | cons node first ih => rw [List.cons_append, leavesOf, leavesOf, ih, List.append_assoc]

/-- A branch of two outlines is one of the first or of the second. -/
theorem hasBranch_append {a : α} {inside first second : List (OutlineNode α β)} :
    HasBranch a inside (first ++ second) ↔
      HasBranch a inside first ∨ HasBranch a inside second := by
  induction first with
  | nil =>
      refine ⟨Or.inr, fun h => h.elim (fun hnone => ?_) id⟩
      cases hnone
  | cons node first ih =>
      constructor
      · intro h
        cases h with
        | here => exact Or.inl .here
        | within hin => exact Or.inl (.within hin)
        | later hlater => exact (ih.mp hlater).imp_left .later
      · rintro (h | h)
        · cases h with
          | here => exact .here
          | within hin => exact .within hin
          | later hlater => exact .later (ih.mpr (Or.inl hlater))
        · exact .later (ih.mpr (Or.inr h))

section

variable [DecidableEq κ]

/-- The keys that can still be drawn. -/
def room (keys drawn : List κ) : Nat :=
  (keys.filter fun k => k ∉ drawn).length

theorem room_mono {keys drawn drawn' : List κ} (h : drawn ⊆ drawn') :
    room keys drawn' ≤ room keys drawn := by
  apply List.Sublist.length_le
  apply List.monotone_filter_right
  intro k hk
  simp only [decide_eq_true_eq] at hk ⊢
  exact fun hmem => hk (h hmem)

theorem room_cons_lt {keys drawn : List κ} {k : κ} (hk : k ∈ keys) (hnew : k ∉ drawn) :
    room keys (k :: drawn) < room keys drawn := by
  have hsub : (keys.filter fun j => j ∉ k :: drawn).Sublist (keys.filter fun j => j ∉ drawn) := by
    apply List.monotone_filter_right
    intro j hj
    simp only [List.mem_cons, decide_eq_true_eq] at hj ⊢
    exact fun hmem => hj (Or.inr hmem)
  refine Nat.lt_of_le_of_ne hsub.length_le ?_
  intro hlength
  have hmem : k ∈ keys.filter fun j => j ∉ drawn := List.mem_filter.mpr ⟨hk, by simpa using hnew⟩
  rw [← hsub.eq_of_length hlength] at hmem
  simpa using (List.mem_filter.mp hmem).2

/-- To a depth that exceeds the keys left, everything is drawn. -/
theorem outlines_outline {keys : List κ} (hkeys : ∀ k a, .inl a ∈ under k → key a ∈ keys)
    (depth : Nat) {items : List (α ⊕ β)} (hitems : ∀ a, .inl a ∈ items → key a ∈ keys)
    {drawn : List κ} (hdepth : room keys drawn < depth) :
    Outlines under key items drawn (outline under key depth items drawn).1
      (outline under key depth items drawn).2 := by
  induction depth generalizing items drawn with
  | zero => exact absurd hdepth (Nat.not_lt_zero _)
  | succ depth ih =>
      rw [outline]
      induction items generalizing drawn with
      | nil => exact .nil
      | cons item items ihItems =>
          have hlater := fun a ha => hitems a (List.mem_cons_of_mem item ha)
          cases item with
          | inr b => exact .leaf (ihItems hlater hdepth)
          | inl a =>
              have ha := hitems a List.mem_cons_self
              rw [outlineWith]
              split
              · rename_i hdrawn
                exact .skip hdrawn (ihItems hlater hdepth)
              · rename_i hnew
                have hroom := room_cons_lt ha hnew
                have hless : room keys (key a :: drawn) < depth := by omega
                have hinside := ih (hkeys (key a)) hless
                refine .branch hnew hinside (ihItems hlater ?_)
                exact Nat.lt_of_le_of_lt (room_mono hinside.subset) (Nat.lt_trans hroom hdepth)

end

end Library
