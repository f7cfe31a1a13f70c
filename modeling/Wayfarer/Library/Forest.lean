import Mathlib.Data.List.Induction
import Mathlib.Data.List.Nodup
import Mathlib.Data.List.Perm.Subperm
import Mathlib.Tactic.Common

/-!
# Forests of keyed nodes

Nodes that name the one they are in by its key, each in a group. `Rooted` says that following those
names from a node ends at the top, through nodes of one group that are all there; a forest is a map
of nodes that are all `Rooted`. `Rooted.map` and `Rooted.overlay` carry it over to another map of
nodes.

The second half is a walk over everything inside a node, level by level, that takes no key twice.
`looked_foundInside` says that it ends with everything, and `Grown` that each node found was found
in one found before it.
-/

set_option autoImplicit false

namespace Library

universe u v w

/-! ## Nodes that reach the top -/

section Rooted

variable {κ : Type u} {γ : Type v} {node : κ → Option (γ × Option κ)} {g : γ}

/-- A node of a group from which the way up ends at the top, through nodes of the same group. -/
inductive Rooted (node : κ → Option (γ × Option κ)) (g : γ) : κ → Prop where
  | top {k : κ} : node k = some (g, none) → Rooted node g k
  | under {k p : κ} : node k = some (g, some p) → Rooted node g p → Rooted node g k

/-- A node that reaches the top is there, in its group. -/
theorem Rooted.node_eq {k : κ} (h : Rooted node g k) :
    ∃ parent, node k = some (g, parent) := by
  cases h with
  | top hk => exact ⟨none, hk⟩
  | under hk _ => exact ⟨some _, hk⟩

/-- A renaming that keeps every name on the way up. -/
theorem Rooted.map {γ' : Type w} {node' : κ → Option (γ' × Option κ)} {g' : γ'} {k : κ}
    (σ : κ → κ)
    (hmap : ∀ j parent, node j = some (g, parent) → (∀ p, parent = some p → Rooted node g p) →
      node' (σ j) = some (g', parent.map σ))
    (h : Rooted node g k) : Rooted node' g' (σ k) := by
  induction h with
  | top hnode => exact Rooted.top (hmap _ _ hnode fun p hp => nomatch hp)
  | @under k p hnode hp ih =>
      apply Rooted.under (hmap _ _ hnode ?_) ih
      rintro p' ⟨⟩
      exact hp

/-- The nodes on the way up, each where it was, in what may be another group. -/
theorem Rooted.mono {γ' : Type w} {node' : κ → Option (γ' × Option κ)} {g' : γ'} {k : κ}
    (hsub : ∀ j parent, node j = some (g, parent) → node' j = some (g', parent))
    (h : Rooted node g k) : Rooted node' g' k := by
  apply h.map (fun key => key)
  intro j parent hj _
  rw [hsub j parent hj, Option.map_id']

/-- Nodes outside of a set that stay as they are reach the top as they did, where those they name in
the set reach it now. -/
theorem Rooted.overlay {node' : κ → Option (γ × Option κ)} {k : κ} (S : κ → Prop)
    (hkeep : ∀ j, ¬ S j → node' j = node j)
    (hleft : ∀ j p, ¬ S j → node j = some (g, some p) → Rooted node g p → S p →
      Rooted node' g p)
    (h : Rooted node g k) (hk : ¬ S k) : Rooted node' g k := by
  induction h with
  | top hnode => exact Rooted.top ((hkeep _ hk).trans hnode)
  | @under k p hnode hp ih =>
      apply Rooted.under ((hkeep _ hk).trans hnode)
      by_cases hin : S p
      · exact hleft k p hk hnode hp hin
      · exact ih hin

end Rooted

/-! ## A walk over everything inside -/

section Walk

variable {α : Type u} {κ : Type v}

/-- A walk: the keys it has seen, those whose inside it has not looked at yet, and what it found. -/
structure Walk (α : Type u) (κ : Type v) where
  seen : List κ
  queue : List κ
  found : List α

variable [DecidableEq κ] (inside : κ → List α) (key : α → κ)

/-- What is met is taken, unless its key was seen. -/
def Walk.visit (w : Walk α κ) (a : α) : Walk α κ :=
  if key a ∈ w.seen then w
  else { seen := w.seen ++ [key a], queue := w.queue ++ [key a], found := w.found ++ [a] }

/-- A number of turns of the walk: each looks inside the next key that waits. -/
def walk : Nat → Walk α κ → Walk α κ
  | 0, w => w
  | turns + 1, w =>
      match w.queue with
      | [] => w
      | next :: queue => walk turns ((inside next).foldl (Walk.visit key) { w with queue })

/-- What is inside a key, at every depth, after that many turns. -/
def foundInside (turns : Nat) (top : κ) : List α :=
  (walk inside key turns ⟨[top], [top], []⟩).found

/-- A list in which everything was found inside the top, or inside what stands before it. -/
inductive Grown (top : κ) : List α → Prop where
  | nil : Grown top []
  | snoc {l : List α} {k : κ} {a : α} : Grown top l → k ∈ top :: l.map key → a ∈ inside k →
      Grown top (l ++ [a])

/-- What holds of a walk from a key, whose turns so far took `done` from the queue. -/
structure Walks (top : κ) (done : List κ) (w : Walk α κ) : Prop where
  split : w.seen = done ++ w.queue
  seen_eq : w.seen = top :: w.found.map key
  nodup : w.seen.Nodup
  grown : Grown inside key top w.found

/-- Everything inside some keys was seen. -/
def Looked (keys seen : List κ) : Prop :=
  ∀ k ∈ keys, ∀ a ∈ inside k, key a ∈ seen

variable {inside key} {top : κ}

omit [DecidableEq κ] in
theorem Looked.mono {keys seen seen' : List κ} (h : Looked inside key keys seen)
    (hsub : seen ⊆ seen') : Looked inside key keys seen' :=
  fun k hk a ha => hsub (h k hk a ha)

/-- Visiting one thing inside a seen key. -/
theorem Walks.visit {done : List κ} {w : Walk α κ} {k : κ} {a : α}
    (h : Walks inside key top done w) (hk : k ∈ w.seen) (ha : a ∈ inside k) :
    Walks inside key top done (w.visit key a) ∧ key a ∈ (w.visit key a).seen ∧
      w.seen ⊆ (w.visit key a).seen := by
  unfold Walk.visit
  split_ifs with hseen
  · exact ⟨h, hseen, List.Subset.refl _⟩
  · refine ⟨⟨?_, ?_, ?_, ?_⟩, by simp, by simp⟩
    · simp [h.split]
    · simp [h.seen_eq]
    · exact List.nodup_append_comm.mp (by simpa using ⟨hseen, h.nodup⟩)
    · exact Grown.snoc h.grown (h.seen_eq ▸ hk) ha

/-- Visiting everything of a list that is inside a seen key. -/
theorem Walks.visitAll {done : List κ} {k : κ} (l : List α) {w : Walk α κ}
    (h : Walks inside key top done w) (hk : k ∈ w.seen) (hl : ∀ a ∈ l, a ∈ inside k) :
    Walks inside key top done (l.foldl (Walk.visit key) w) ∧
      (∀ a ∈ l, key a ∈ (l.foldl (Walk.visit key) w).seen) ∧
      w.seen ⊆ (l.foldl (Walk.visit key) w).seen := by
  induction l generalizing w with
  | nil => exact ⟨h, by simp, List.Subset.refl _⟩
  | cons a l ih =>
      obtain ⟨hvisit, hkey, hsub⟩ := h.visit hk (hl a (by simp))
      obtain ⟨hall, hseen, hsub'⟩ := ih hvisit (hsub hk) fun b hb => hl b (by simp [hb])
      refine ⟨hall, ?_, List.Subset.trans hsub hsub'⟩
      intro b hb
      rcases List.mem_cons.mp hb with rfl | hb
      · exact hsub' hkey
      · exact hseen b hb

/-- A walk after a number of turns: it looked inside that many keys more, or none waits. -/
theorem Walks.turns {done : List κ} (turns : Nat) {w : Walk α κ}
    (h : Walks inside key top done w) (hlooked : Looked inside key done w.seen) :
    ∃ done', Walks inside key top done' (walk inside key turns w) ∧
      Looked inside key done' (walk inside key turns w).seen ∧
      ((walk inside key turns w).queue = [] ∨ done'.length = done.length + turns) := by
  induction turns generalizing done w with
  | zero => exact ⟨done, h, hlooked, Or.inr rfl⟩
  | succ turns ih =>
      rw [walk]
      cases hqueue : w.queue with
      | nil => exact ⟨done, h, hlooked, Or.inl hqueue⟩
      | cons next queue =>
          have hnext : next ∈ w.seen := by
            rw [h.split, hqueue]
            simp
          have htaken : Walks inside key top (done ++ [next]) { w with queue := queue } :=
            ⟨by simp [h.split, hqueue], h.seen_eq, h.nodup, h.grown⟩
          obtain ⟨hall, hseen, hsub⟩ := htaken.visitAll (inside next) hnext fun _ ha => ha
          have hlooked' : Looked inside key (done ++ [next])
              ((inside next).foldl (Walk.visit key) { w with queue := queue }).seen := by
            intro k hk
            rcases List.mem_append.mp hk with hk | hk
            · exact hlooked.mono hsub k hk
            · rw [List.mem_singleton.mp hk]
              exact hseen
          obtain ⟨done', hwalks, hlook, hend⟩ := ih hall hlooked'
          refine ⟨done', hwalks, hlook, hend.imp_right ?_⟩
          intro hlength
          rw [hlength, List.length_append, List.length_singleton]
          omega

omit [DecidableEq κ] in
theorem walks_start (inside : κ → List α) (key : α → κ) (top : κ) :
    Walks inside key top [] ⟨[top], [top], []⟩ :=
  ⟨rfl, rfl, List.nodup_singleton top, Grown.nil⟩

/-- What a walk found has keys of its own, none of them the top's. -/
theorem nodup_foundInside (turns : Nat) :
    (top :: (foundInside inside key turns top).map key).Nodup := by
  obtain ⟨_, hwalks, -, -⟩ := (walks_start inside key top).turns turns fun _ h => nomatch h
  exact hwalks.seen_eq ▸ hwalks.nodup

/-- Each thing found was found inside the top, or inside what was found before it. -/
theorem grown_foundInside (turns : Nat) :
    Grown inside key top (foundInside inside key turns top) := by
  obtain ⟨_, hwalks, -, -⟩ := (walks_start inside key top).turns turns fun _ h => nomatch h
  exact hwalks.grown

omit [DecidableEq κ] in
/-- What is found is inside something. -/
theorem Grown.exists_inside {l : List α} (h : Grown inside key top l) {a : α} (ha : a ∈ l) :
    ∃ k ∈ top :: l.map key, a ∈ inside k := by
  induction h with
  | nil => cases ha
  | snoc hgrown hk hinside ih =>
      rcases List.mem_append.mp ha with ha | ha
      · obtain ⟨k, hk', hin⟩ := ih ha
        refine ⟨k, ?_, hin⟩
        rw [List.map_append, ← List.cons_append]
        exact List.mem_append_left _ hk'
      · rw [List.mem_singleton.mp ha]
        refine ⟨_, ?_, hinside⟩
        rw [List.map_append, ← List.cons_append]
        exact List.mem_append_left _ hk

/-- With a turn for each row and one more, a walk ends with everything inside. -/
theorem looked_foundInside {rows : List α} (hrows : ∀ k, ∀ a ∈ inside k, a ∈ rows) :
    Looked inside key (top :: (foundInside inside key (rows.length + 1) top).map key)
      (top :: (foundInside inside key (rows.length + 1) top).map key) := by
  obtain ⟨done, hwalks, hlook, hend⟩ := (walks_start inside key top).turns (rows.length + 1)
    fun _ h => nomatch h
  have hfound : foundInside inside key (rows.length + 1) top =
      (walk inside key (rows.length + 1) ⟨[top], [top], []⟩).found := rfl
  rw [hfound, ← hwalks.seen_eq]
  have hempty : (walk inside key (rows.length + 1) ⟨[top], [top], []⟩).queue = [] := by
    rcases hend with hnil | hlength
    · exact hnil
    · -- As many keys were looked into as can be seen: each row was found once at most.
      have hnodup : (walk inside key (rows.length + 1) ⟨[top], [top], []⟩).found.Nodup :=
        (List.nodup_cons.mp (hwalks.seen_eq ▸ hwalks.nodup)).2.of_map
      have hsub : (walk inside key (rows.length + 1) ⟨[top], [top], []⟩).found ⊆ rows := by
        intro a ha
        obtain ⟨k, -, hk⟩ := hwalks.grown.exists_inside ha
        exact hrows k a hk
      have hcount := (hnodup.subperm hsub).length_le
      have hseen := congrArg List.length hwalks.seen_eq
      have hsplit := congrArg List.length hwalks.split
      rw [List.length_cons, List.length_map] at hseen
      rw [List.length_append, hlength] at hsplit
      apply List.eq_nil_of_length_eq_zero
      simp only [List.length_nil] at hsplit
      omega
  have hdone : (walk inside key (rows.length + 1) ⟨[top], [top], []⟩).seen = done := by
    rw [hwalks.split, hempty, List.append_nil]
  rw [← hdone] at hlook
  exact hlook

end Walk

end Library
