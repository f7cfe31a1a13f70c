import Wayfarer.Library.Outline

/-!
# An outline by two keys

The branches of a graph may go by two keys: by `key` each stands under one key, as a forest's do
(`Planted`), and an outline by `name` goes down by other ones. Where both keys of every branch have
the same leaves below them, the outlines have the same leaves in the same order
(`Planted.leaves_eq`): a name may lead past a branch, or to one further up, but what is listed twice
is met once.

`Listed` says in which order the leaves stand when every branch is drawn where it is listed, and
`Planted.listed` that an outline by `name` that leaves nothing out has them in that order.
-/

set_option autoImplicit false

namespace Library

universe u v w

variable {α : Type u} {β : Type v} {κ : Type w}

/-- By their key the branches that have leaves below them are a forest under `root`. -/
structure Planted (under : κ → List (α ⊕ β)) (key : α → κ) (root : κ) : Prop where
  branch : ∀ a a' k k', .inl a ∈ under k → .inl a' ∈ under k' → key a = key a' → k = k'
  leaf : ∀ b k k', .inr b ∈ under k → .inr b ∈ under k' → k = k'
  once : ∀ k, (under k).Pairwise fun x y => ∀ a a', x = .inl a → y = .inl a' → key a ≠ key a'
  top : ∀ a k, .inl a ∈ under k → key a ≠ root
  rooted : ∀ a k b, .inl a ∈ under k → LeafBelow under key (key a) b → LeafBelow under key root b

/-- The leaves of a list's items, each branch's where it is listed. -/
inductive Listed (under : κ → List (α ⊕ β)) (key : α → κ) : List (α ⊕ β) → List β → Prop where
  | nil : Listed under key [] []
  | leaf {b : β} {items : List (α ⊕ β)} {bs : List β} :
      Listed under key items bs → Listed under key (.inr b :: items) (b :: bs)
  | bare {a : α} {items : List (α ⊕ β)} {bs : List β} :
      (∀ b, ¬ LeafBelow under key (key a) b) → Listed under key items bs →
      Listed under key (.inl a :: items) bs
  | branch {a : α} {b : β} {items : List (α ⊕ β)} {inner later : List β} :
      LeafBelow under key (key a) b → Listed under key (under (key a)) inner →
      Listed under key items later → Listed under key (.inl a :: items) (inner ++ later)

variable {under : κ → List (α ⊕ β)} {key name : α → κ} {root : κ}

/-- There is one such order. -/
theorem Listed.unique {items : List (α ⊕ β)} {bs bs' : List β} (h : Listed under key items bs)
    (h' : Listed under key items bs') : bs = bs' := by
  induction h generalizing bs' with
  | nil =>
      cases h'
      rfl
  | leaf _ ih =>
      cases h' with
      | leaf hlater => rw [ih hlater]
  | bare hnone _ ih =>
      cases h' with
      | bare _ hlater => exact ih hlater
      | branch hb _ _ => exact absurd hb (hnone _)
  | branch hb _ _ ihInner ihLater =>
      cases h' with
      | bare hnone _ => exact absurd hb (hnone _)
      | branch _ hinner hlater => rw [ihInner hinner, ihLater hlater]

/-- Branches without leaves add nothing. -/
theorem listed_append_of_bare {pre rest : List (α ⊕ β)} {bs : List β}
    (hpre : ∀ x ∈ pre, ∃ a, x = .inl a ∧ ∀ b, ¬ LeafBelow under key (key a) b) :
    Listed under key (pre ++ rest) bs ↔ Listed under key rest bs := by
  induction pre with
  | nil => exact Iff.rfl
  | cons x pre ih =>
      obtain ⟨a, rfl, hnone⟩ := hpre x List.mem_cons_self
      have ih := ih fun y hy => hpre y (List.mem_cons_of_mem _ hy)
      constructor
      · intro h
        cases h with
        | bare _ hlater => exact ih.mp hlater
        | branch hb _ _ => exact absurd hb (hnone _)
      · exact fun h => .bare hnone (ih.mpr h)

namespace Planted

variable (h : Planted under key root)
include h

/-! ## What stands apart -/

/-- Of two keys over a third, one is over the other. -/
theorem total {k₁ k₂ k : κ} (h₁ : Below under key k₁ k) (h₂ : Below under key k₂ k) :
    Below under key k₁ k₂ ∨ Below under key k₂ k₁ := by
  induction h₁ generalizing k₂ with
  | refl => exact Or.inr h₂
  | @tail j _ hbelow hstep ih =>
      rcases Relation.ReflTransGen.cases_tail h₂ with rfl | ⟨j', hbelow', hstep'⟩
      · exact Or.inl (hbelow.tail hstep)
      · obtain ⟨a, ha, rfl⟩ := hstep
        obtain ⟨a', ha', heq⟩ := hstep'
        rw [h.branch a' a j' j ha' ha heq] at hbelow'
        exact ih hbelow'

/-- Nothing is over the root. -/
theorem eq_root {k : κ} (hbelow : Below under key k root) : k = root := by
  rcases Relation.ReflTransGen.cases_tail hbelow with heq | ⟨j, -, a, ha, heq⟩
  · exact heq.symm
  · exact absurd heq (h.top a j ha)

/-- No branch under the root is over the key it stands under. -/
theorem not_circular {k : κ} (hroot : Below under key root k) {a : α} (ha : .inl a ∈ under k) :
    ¬ Below under key (key a) k := by
  induction hroot generalizing a with
  | refl => exact fun hbelow => h.top a root ha (h.eq_root hbelow)
  | @tail j _ _ hstep ih =>
      obtain ⟨c, hc, rfl⟩ := hstep
      intro hbelow
      -- The way down to a branch comes in from the one key it stands under.
      rcases Relation.ReflTransGen.cases_tail hbelow with heq | ⟨j', hbelow', c', hc', heq⟩
      · apply ih hc
        rw [h.branch a c (key c) j ha hc heq.symm]
        exact .refl
      · rw [h.branch c' c j' j hc' hc heq] at hbelow'
        exact ih hc (hbelow'.head ⟨a, ha, rfl⟩)

/-- A leaf with a branch over it is under the root, and so is each key over it. -/
theorem root_over {a : α} {k j : κ} {b : β} (ha : .inl a ∈ under k)
    (hbelow : LeafBelow under key (key a) b) (hj : LeafBelow under key j b) :
    Below under key root j := by
  obtain ⟨k₁, hroot, hk₁⟩ := h.rooted a k b ha hbelow
  obtain ⟨k₂, hj, hk₂⟩ := hj
  rw [h.leaf b k₁ k₂ hk₁ hk₂] at hroot
  rcases h.total hroot hj with hover | hover
  · exact hover
  · rw [h.eq_root hover]
    exact .refl

/-- A leaf that a key lists is not below a branch that it lists. -/
theorem leaf_apart {a : α} {k : κ} {b : β} (ha : .inl a ∈ under k) (hb : .inr b ∈ under k) :
    ¬ LeafBelow under key (key a) b := by
  intro hbelow
  have hroot := h.root_over ha hbelow (j := k) ⟨k, .refl, hb⟩
  obtain ⟨k', hk', hb'⟩ := hbelow
  rw [h.leaf b k' k hb' hb] at hk'
  exact h.not_circular hroot ha hk'

/-- A leaf is below one at most of the branches that a key lists. -/
theorem branch_apart {a a' : α} {k : κ} {b : β} (ha : .inl a ∈ under k) (ha' : .inl a' ∈ under k)
    (hb : LeafBelow under key (key a) b) (hb' : LeafBelow under key (key a') b) :
    key a = key a' := by
  have hroot : Below under key root k :=
    h.root_over ha hb (leafBelow_iff.mpr (Or.inr ⟨a, ha, hb⟩))
  have hover : ∀ c c', .inl c ∈ under k → .inl c' ∈ under k →
      Below under key (key c) (key c') → key c = key c' := by
    intro c c' hc hc' hbelow
    rcases Relation.ReflTransGen.cases_tail hbelow with heq | ⟨j, hj, d, hd, heq⟩
    · exact heq.symm
    · rw [h.branch d c' j k hd hc' heq] at hj
      exact absurd hj (h.not_circular hroot hc)
  obtain ⟨k₁, hk₁, hb₁⟩ := hb
  obtain ⟨k₂, hk₂, hb₂⟩ := hb'
  rw [h.leaf b k₂ k₁ hb₂ hb₁] at hk₂
  rcases h.total hk₁ hk₂ with hbelow | hbelow
  · exact hover a a' ha ha' hbelow
  · exact (hover a' a ha' ha hbelow).symm

/-! ## Keys over the same leaves -/

/-- A key that lists one branch with leaves, and no leaf, has the leaves of it. -/
theorem listed_iff_of_only {a : α} {k : κ} {b : β} {bs : List β} (ha : .inl a ∈ under k)
    (hb : LeafBelow under key (key a) b)
    (honly : ∀ c, LeafBelow under key k c → LeafBelow under key (key a) c) :
    Listed under key (under k) bs ↔ Listed under key (under (key a)) bs := by
  obtain ⟨pre, post, hsplit⟩ := List.append_of_mem ha
  have hbare : ∀ x ∈ under k, (∀ a', x = .inl a' → key a' ≠ key a) →
      ∃ a', x = .inl a' ∧ ∀ c, ¬ LeafBelow under key (key a') c := by
    intro x hx hne
    cases x with
    | inr c => exact absurd (honly c ⟨k, .refl, hx⟩) (h.leaf_apart ha hx)
    | inl a' =>
        refine ⟨a', rfl, fun c hc => hne a' rfl (h.branch_apart hx ha hc ?_)⟩
        exact honly c (leafBelow_iff.mpr (Or.inr ⟨a', hx, hc⟩))
  have honce := h.once k
  rw [hsplit, List.pairwise_append, List.pairwise_cons] at honce
  have hpre : ∀ bs : List β,
      Listed under key (pre ++ .inl a :: post) bs ↔ Listed under key (.inl a :: post) bs :=
    fun bs => listed_append_of_bare fun x hx => hbare x
      (by rw [hsplit]; exact List.mem_append_left _ hx)
      fun a' hx' => honce.2.2 x hx (.inl a) List.mem_cons_self a' a hx' rfl
  have hpost : ∀ bs : List β, Listed under key (post ++ []) bs ↔ Listed under key [] bs :=
    fun bs => listed_append_of_bare fun x hx => hbare x
      (by rw [hsplit]; exact List.mem_append_right _ (List.mem_cons_of_mem _ hx))
      fun a' hx' => (honce.2.1.1 x hx a a' rfl hx').symm
  rw [List.append_nil] at hpost
  rw [hsplit, hpre]
  constructor
  · intro hlisted
    cases hlisted with
    | bare hnone _ => exact absurd hb (hnone b)
    | branch _ hinner hlater =>
        rwa [((hpost _).mp hlater).unique .nil, List.append_nil]
  · intro hlisted
    rw [← List.append_nil bs]
    exact .branch hb hlisted ((hpost []).mpr .nil)

/-- A key over another with the same leaves below has them in the same order. -/
theorem listed_iff_of_below {k k' : κ} {b : β} {bs : List β} (hbelow : Below under key k k')
    (hb : LeafBelow under key k' b)
    (honly : ∀ c, LeafBelow under key k c → LeafBelow under key k' c) :
    Listed under key (under k) bs ↔ Listed under key (under k') bs := by
  have hdown : ∀ {j : κ} {c : β}, Below under key j k' → LeafBelow under key k' c →
      LeafBelow under key j c := by
    rintro j c hj ⟨i, hi, hc⟩
    exact ⟨i, hj.trans hi, hc⟩
  induction hbelow using Relation.ReflTransGen.head_induction_on with
  | refl => exact Iff.rfl
  | head hstep hrest ih =>
      obtain ⟨a, ha, rfl⟩ := hstep
      rw [h.listed_iff_of_only ha (hdown hrest hb) fun c hc => hdown hrest (honly c hc)]
      exact ih fun c hc => honly c (leafBelow_iff.mpr (Or.inr ⟨a, ha, hc⟩))

/-- Two keys with the same leaves below have them in the same order. -/
theorem listed_of_same {k k' : κ} {b : β} {bs : List β} (hk : LeafBelow under key k b)
    (hsame : ∀ c, LeafBelow under key k c ↔ LeafBelow under key k' c)
    (hlisted : Listed under key (under k) bs) : Listed under key (under k') bs := by
  obtain ⟨i, hi, hbi⟩ := hk
  obtain ⟨i', hi', hbi'⟩ := (hsame b).mp ⟨i, hi, hbi⟩
  rw [h.leaf b i' i hbi' hbi] at hi'
  rcases h.total hi hi' with hbelow | hbelow
  · exact (h.listed_iff_of_below hbelow ⟨i, hi', hbi⟩ fun c => (hsame c).mp).mp hlisted
  · exact (h.listed_iff_of_below hbelow ⟨i, hi, hbi⟩ fun c => (hsame c).mpr).mpr hlisted

/-! ## Outlines by another key -/

variable
  (hsame : ∀ a k, .inl a ∈ under k →
    ∀ b, LeafBelow under key (key a) b ↔ LeafBelow under name (name a) b)
include hsame

omit h in
/-- By both keys a key has the same leaves below it. -/
theorem leafBelow_same {k : κ} {b : β} :
    LeafBelow under key k b ↔ LeafBelow under name k b := by
  rw [leafBelow_iff, leafBelow_iff]
  constructor
  · rintro (hb | ⟨a, ha, hb⟩)
    · exact Or.inl hb
    · exact Or.inr ⟨a, ha, (hsame a k ha b).mp hb⟩
  · rintro (hb | ⟨a, ha, hb⟩)
    · exact Or.inl hb
    · exact Or.inr ⟨a, ha, (hsame a k ha b).mpr hb⟩

/-- What the rest of a list has below it stands apart from the list's first branch. -/
theorem apart_rest {a : α} {rest : List (α ⊕ β)} {nodes : List (OutlineNode α β)}
    {drawn drawn' : List κ} {k : κ} (hk : .inl a :: rest <:+ under k)
    (ho : Outlines under name rest drawn nodes drawn') {b : β}
    (hb : LeafBelow under key (key a) b) : b ∉ leavesOf nodes := by
  intro hmem
  have hin := hk.subset
  have ha := hin List.mem_cons_self
  rcases ho.leafBelow_of_mem hmem with hdirect | ⟨a', ha', hb'⟩
  · exact h.leaf_apart ha (hin (List.mem_cons_of_mem _ hdirect)) hb
  · have hmem' := hin (List.mem_cons_of_mem _ ha')
    refine (List.pairwise_cons.mp ((h.once k).sublist hk.sublist)).1 _ ha' a a' rfl rfl ?_
    exact h.branch_apart ha hmem' hb ((hsame a' k hmem' b).mpr hb')

/-- An outline of some of what a key lists, with no leaf below it left out, has the leaves in the
one order; and none below one of its branches is left out of the branch. -/
theorem listed {items : List (α ⊕ β)} {nodes : List (OutlineNode α β)} {drawn drawn' : List κ}
    (ho : Outlines under name items drawn nodes drawn') {k : κ} (hk : items <:+ under k)
    (hall : ∀ b, (.inr b ∈ items ∨ ∃ a, .inl a ∈ items ∧ LeafBelow under key (key a) b) →
      b ∈ leavesOf nodes) :
    Listed under key items (leavesOf nodes) ∧
      ∀ a inside, HasBranch a inside nodes →
        ∀ b, LeafBelow under key (key a) b → b ∈ leavesOf inside := by
  induction ho generalizing k with
  | nil =>
      refine ⟨.nil, ?_⟩
      intro a inside hbranch
      cases hbranch
  | @leaf b items nodes _ _ hlater ih =>
      have hrest := (List.suffix_cons _ _).trans hk
      obtain ⟨hlisted, hbranches⟩ := ih hrest (by
        intro c hc
        rcases hc with hdirect | ⟨a, ha, hbelow⟩
        · exact hlater.mem_leaves.mpr (Or.inl hdirect)
        · have hmem := hall c (Or.inr ⟨a, List.mem_cons_of_mem _ ha, hbelow⟩)
          rw [leavesOf, OutlineNode.leaves, List.singleton_append, List.mem_cons] at hmem
          refine hmem.resolve_left ?_
          rintro rfl
          exact h.leaf_apart (hrest.subset ha) (hk.subset List.mem_cons_self) hbelow)
      refine ⟨.leaf hlisted, ?_⟩
      intro a inside hbranch
      cases hbranch with
      | later hin => exact hbranches a inside hin
  | @skip a items nodes _ _ _ hlater ih =>
      have hrest := (List.suffix_cons _ _).trans hk
      obtain ⟨hlisted, hbranches⟩ := ih hrest fun c hc =>
        hall c (hc.imp (List.mem_cons_of_mem _) fun hbelow =>
          hbelow.imp fun _ => And.imp_left (List.mem_cons_of_mem _))
      refine ⟨.bare (fun b hb => ?_) hlisted, hbranches⟩
      -- A branch that is not drawn here has no leaf: it would be left out.
      exact h.apart_rest hsame hk hlater hb (hall b (Or.inr ⟨a, List.mem_cons_self, hb⟩))
  | @branch a items inner nodes _ _ _ _ hinside hlater ihInside ihLater =>
      have hrest := (List.suffix_cons _ _).trans hk
      have ha := hk.subset List.mem_cons_self
      have hleaves : leavesOf (.branch a inner :: nodes) = leavesOf inner ++ leavesOf nodes := rfl
      have hinner : ∀ b, b ∈ leavesOf inner → LeafBelow under key (key a) b := by
        intro b hb
        exact (hsame a k ha b).mpr (leafBelow_iff.mpr (hinside.leafBelow_of_mem hb))
      have hnamed : ∀ b, LeafBelow under key (name a) b ↔ LeafBelow under key (key a) b :=
        fun b => (leafBelow_same hsame).trans (hsame a k ha b).symm
      obtain ⟨hlistedInner, hbranchesInner⟩ := ihInside (List.suffix_refl _) (by
        intro c hc
        have hbelow := (hnamed c).mp (leafBelow_iff.mpr hc)
        have hmem := hall c (Or.inr ⟨a, List.mem_cons_self, hbelow⟩)
        rw [hleaves, List.mem_append] at hmem
        exact hmem.resolve_right (h.apart_rest hsame hk hlater hbelow))
      obtain ⟨hlistedLater, hbranchesLater⟩ := ihLater hrest (by
        intro c hc
        rcases hc with hdirect | ⟨a', ha', hbelow⟩
        · exact hlater.mem_leaves.mpr (Or.inl hdirect)
        · have hmem := hall c (Or.inr ⟨a', List.mem_cons_of_mem _ ha', hbelow⟩)
          rw [hleaves, List.mem_append] at hmem
          refine hmem.resolve_left fun hin => ?_
          refine (List.pairwise_cons.mp ((h.once k).sublist hk.sublist)).1 _ ha' a a' rfl rfl ?_
          exact h.branch_apart ha (hrest.subset ha') (hinner c hin) hbelow)
      refine ⟨?_, ?_⟩
      · rw [hleaves]
        by_cases hsome : ∃ b, LeafBelow under key (key a) b
        · obtain ⟨b, hb⟩ := hsome
          refine .branch hb ?_ hlistedLater
          exact h.listed_of_same ((hnamed b).mpr hb) hnamed hlistedInner
        · have hnone : leavesOf inner = [] := List.eq_nil_iff_forall_not_mem.mpr
            fun b hb => hsome ⟨b, hinner b hb⟩
          rw [hnone, List.nil_append]
          exact .bare (fun b hb => hsome ⟨b, hb⟩) hlistedLater
      · intro c inside hbranch b hb
        cases hbranch with
        | here =>
            have hmem := hall b (Or.inr ⟨a, List.mem_cons_self, hb⟩)
            rw [hleaves, List.mem_append] at hmem
            exact hmem.resolve_right (h.apart_rest hsame hk hlater hb)
        | within hin => exact hbranchesInner c inside hin b hb
        | later hin => exact hbranchesLater c inside hin b hb

/-- Outlines by either key, of what is under two keys with the same leaves below them, have the same
leaves in the same order when they leave none out. -/
theorem leaves_eq {k k' : κ} {nodes nodes' : List (OutlineNode α β)}
    {drawn drawn' after after' : List κ}
    (ho : Outlines under key (under k) drawn nodes after)
    (ho' : Outlines under name (under k') drawn' nodes' after')
    (hall : ∀ b, LeafBelow under key k b → b ∈ leavesOf nodes)
    (hall' : ∀ b, LeafBelow under key k' b → b ∈ leavesOf nodes')
    (hleaves : ∀ b, LeafBelow under key k b ↔ LeafBelow under key k' b) :
    leavesOf nodes = leavesOf nodes' := by
  have hlisted := (h.listed (fun _ _ _ _ => Iff.rfl) ho (List.suffix_refl _)
    fun b hb => hall b (leafBelow_iff.mpr hb)).1
  have hlisted' := (h.listed hsame ho' (List.suffix_refl _)
    fun b hb => hall' b (leafBelow_iff.mpr hb)).1
  by_cases hsome : ∃ b, LeafBelow under key k b
  · obtain ⟨b, hb⟩ := hsome
    exact (h.listed_of_same hb hleaves hlisted).unique hlisted'
  · have hnone : leavesOf nodes = [] := List.eq_nil_iff_forall_not_mem.mpr
      fun b hb => hsome ⟨b, leafBelow_iff.mpr (ho.leafBelow_of_mem hb)⟩
    have hnone' : leavesOf nodes' = [] := List.eq_nil_iff_forall_not_mem.mpr fun b hb =>
      hsome ⟨b, (hleaves b).mpr ((leafBelow_same hsame).mpr
        (leafBelow_iff.mpr (ho'.leafBelow_of_mem hb)))⟩
    rw [hnone, hnone']

end Planted

end Library
