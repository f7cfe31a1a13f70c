import Wayfarer.Auth.RequestAuth
import Wayfarer.Library.Effects

/-!
# What a resolver notes down and what it depends on

A text that draws no dynamic value resolves to the same text whatever was resolved before it
(`resolve_eq_of_undrawn`). A resolver that is given no vault secret places none
(`resolve_taint`), for a text and for every field of an auth.
-/

set_option autoImplicit false

namespace Wayfarer

open Library

namespace Resolver

/-- Replacing every placeholder keeps what replacing one keeps. -/
theorem keeps_replaceAll {R : Findings → Findings → Prop} (hrefl : ∀ f, R f f)
    (htrans : ∀ a b c, R a b → R b c → R a c) {replace : Text → Resolve Text}
    (h : ∀ inside, Keeps R (replace inside)) (t : Text) : Keeps R (replaceAll replace t) := by
  refine keeps_bind htrans (keeps_mapM hrefl htrans (fun part => ?_) _)
    fun parts => keeps_pure hrefl _
  cases part with
  | literal c => exact keeps_pure hrefl _
  | placeholder inside => exact h inside

theorem counted_replaceAll {replace : Text → Resolve Text}
    (h : ∀ inside, Counted Findings.drawn (replace inside)) (t : Text) :
    Counted Findings.drawn (replaceAll replace t) := by
  refine counted_bind (counted_mapM (fun part => ?_) _) fun parts => counted_pure _
  cases part with
  | literal c => exact counted_pure _
  | placeholder inside => exact h inside

/-! ## Dynamic values -/

/-- A dynamic variable counts one value drawn. -/
theorem counted_draw (r : Resolver) (name : Text) :
    Counted Findings.drawn (do
      let f ← get
      set { f with drawn := f.drawn + 1 }
      return r.dynamic f.drawn name : Resolve Text) := by
  refine counted_of_lt fun f a f' h => ?_
  cases h
  exact Nat.lt_succ_self _

theorem counted_replacement (r : Resolver) (chain : List Text)
    {follow : Text → Text → Resolve Text}
    (h : ∀ name value, Counted Findings.drawn (follow name value)) (inside : Text) :
    Counted Findings.drawn (r.replacement chain follow inside) := by
  simp only [replacement]
  split
  · split
    · exact counted_bind (counted_modify fun f => rfl) fun _ => counted_pure _
    · exact counted_bind (counted_modify fun f => rfl) fun _ => counted_pure _
  · split
    · exact counted_draw r _
    · split
      · split
        · exact counted_bind (counted_modify fun f => rfl) fun _ => counted_pure _
        · exact counted_pure _
      · exact h _ _

theorem counted_expand (r : Resolver) (left : Nat) (chain : List Text) (t : Text) :
    Counted Findings.drawn (r.expand left chain t) := by
  induction left generalizing chain t with
  | zero =>
      exact counted_replaceAll (counted_replacement r chain fun _ _ => counted_throw _) t
  | succ left ih =>
      refine counted_replaceAll (counted_replacement r chain fun name value => ?_) t
      split
      · exact counted_throw _
      · exact ih _ _

/-- The dynamic values a text draws are counted. -/
theorem counted_resolve (r : Resolver) (t : Text) : Counted Findings.drawn (r.resolve t) :=
  r.counted_expand maxVariableDepth [] t

/-- A text that draws no dynamic value resolves to the same text whatever was resolved before. -/
theorem resolve_eq_of_undrawn {r : Resolver} {t alone later : Text} {f g g' : Findings}
    (halone : (r.resolve t).run {} = .ok (alone, f)) (hdrawn : f.drawn = 0)
    (hlater : (r.resolve t).run g = .ok (later, g')) : later = alone :=
  (r.counted_resolve t).value_eq halone hdrawn hlater

/-! ## Vault secrets -/

/-- The same secrets placed. -/
def SameTaint (f g : Findings) : Prop :=
  g.taint = f.taint

theorem SameTaint.refl (f : Findings) : SameTaint f f := rfl

theorem SameTaint.trans (f g h : Findings) (hfg : SameTaint f g) (hgh : SameTaint g h) :
    SameTaint f h :=
  Eq.trans hgh hfg

theorem taint_replacement {r : Resolver} (hnone : ∀ id, r.secret id = none) (chain : List Text)
    {follow : Text → Text → Resolve Text}
    (h : ∀ name value, Keeps SameTaint (follow name value)) (inside : Text) :
    Keeps SameTaint (r.replacement chain follow inside) := by
  simp only [replacement, hnone]
  split
  · exact keeps_bind SameTaint.trans (keeps_modify fun f => rfl) fun _ =>
      keeps_pure SameTaint.refl _
  · split
    · intro f a f' hrun
      cases hrun
      rfl
    · split
      · split
        · exact keeps_bind SameTaint.trans (keeps_modify fun f => rfl)
            fun _ => keeps_pure SameTaint.refl _
        · exact keeps_pure SameTaint.refl _
      · exact h _ _

theorem taint_expand {r : Resolver} (hnone : ∀ id, r.secret id = none) (left : Nat)
    (chain : List Text) (t : Text) : Keeps SameTaint (r.expand left chain t) := by
  induction left generalizing chain t with
  | zero =>
      exact keeps_replaceAll SameTaint.refl SameTaint.trans
        (taint_replacement hnone chain fun _ _ => keeps_throw _) t
  | succ left ih =>
      refine keeps_replaceAll SameTaint.refl SameTaint.trans
        (taint_replacement hnone chain fun name value => ?_) t
      split
      · exact keeps_throw _
      · exact ih _ _

/-- A resolver that is given no vault secret places none. -/
theorem resolve_taint {r : Resolver} (hnone : ∀ id, r.secret id = none) (t : Text) :
    Keeps SameTaint (r.resolve t) :=
  taint_expand hnone maxVariableDepth [] t

end Resolver

/-- Every field of an auth is resolved by the one function. -/
theorem keeps_resolveAuth {R : Findings → Findings → Prop} (hrefl : ∀ f, R f f)
    (htrans : ∀ a b c, R a b → R b c → R a c) {resolve : Text → Resolve Text}
    (h : ∀ t, Keeps R (resolve t)) (auth : AuthConfig) : Keeps R (resolveAuth resolve auth) := by
  cases auth with
  | inherit => exact keeps_pure hrefl _
  | none => exact keeps_pure hrefl _
  | bearer token => exact keeps_bind htrans (h _) fun _ => keeps_pure hrefl _
  | basic username password =>
      exact keeps_bind htrans (h _) fun _ => keeps_bind htrans (h _) fun _ => keeps_pure hrefl _
  | apikey key value place =>
      exact keeps_bind htrans (h _) fun _ => keeps_bind htrans (h _) fun _ => keeps_pure hrefl _
  | awsv4 auth =>
      exact keeps_bind htrans (h _) fun _ => keeps_bind htrans (h _) fun _ =>
        keeps_bind htrans (h _) fun _ => keeps_bind htrans (h _) fun _ =>
        keeps_bind htrans (h _) fun _ => keeps_pure hrefl _
  | oauth2 auth =>
      exact keeps_bind htrans (h _) fun _ => keeps_bind htrans (h _) fun _ =>
        keeps_bind htrans (h _) fun _ => keeps_bind htrans (h _) fun _ =>
        keeps_bind htrans (h _) fun _ => keeps_bind htrans (h _) fun _ =>
        keeps_bind htrans (h _) fun _ => keeps_pure hrefl _

end Wayfarer
