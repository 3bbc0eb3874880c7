/-
  ResearchSSH.Library.Store — values moved into a store that only grows.

  An encoder moves values into a store and keeps the keys under which they lie there.  The keys are
  resolved when everything has been moved in, and what they lead to is copied out again.  Stores
  are ordered by what they hold: what a key leads to in one store, it leads to in every later one.

  Main results:
    * `Stores.map`, `Stores.both` — encoders put together from smaller ones.
    * `Stores.list`              — a list, item by item.
    * `Stores.carry`             — what comes out is what went in.
-/

import Mathlib.Order.Defs.PartialOrder
import Mathlib.Data.List.Basic

namespace ResearchSSH.Library

universe u v w x y

/-! ## §1. Lists of lookups. -/

section
variable {α : Type u} {β : Type v} {γ : Type w}

theorem mapM_cons_bind (f : α → Option β) (a : α) (as : List α) :
    (a :: as).mapM f = (f a).bind fun b => (as.mapM f).bind fun bs => some (b :: bs) :=
  List.mapM_cons

/-- Two passes over a list are one. -/
theorem mapM_bind_mapM (f : α → Option β) (g : β → Option γ) (as : List α) :
    (as.mapM f).bind (fun bs => bs.mapM g) = as.mapM fun a => (f a).bind g := by
  induction as with
  | nil => rfl
  | cons a as ih =>
    rw [mapM_cons_bind, mapM_cons_bind, ← ih]
    -- where one item fails the whole pass does, whichever it is
    cases f a with
    | none => rfl
    | some b =>
      cases as.mapM f with
      | none =>
        show none = (g b).bind fun _ => none
        cases g b <;> rfl
      | some bs => exact mapM_cons_bind g b bs

/-- Where both halves of every step succeed, the first halves do. -/
theorem exists_mapM_of_bind (f : α → Option β) (g : α → β → Option γ) {as : List α} {cs : List γ}
    (h : as.mapM (fun a => (f a).bind (g a)) = some cs) : ∃ bs, as.mapM f = some bs := by
  induction as generalizing cs with
  | nil => exact ⟨[], rfl⟩
  | cons a as ih =>
    rw [mapM_cons_bind] at h
    obtain ⟨c, hc, htail⟩ := Option.bind_eq_some_iff.mp h
    obtain ⟨rest, hrest, _⟩ := Option.bind_eq_some_iff.mp htail
    obtain ⟨b, hb, _⟩ := Option.bind_eq_some_iff.mp hc
    obtain ⟨bs, hbs⟩ := ih hrest
    exact ⟨b :: bs, by rw [mapM_cons_bind, hb, hbs]; rfl⟩

/-- A second pass that looks the results of the first one up by position. -/
theorem mapM_zipIdx (f : α → Option β) (g : α → β → Option γ) {as : List α} {bs : List β}
    (h : as.mapM f = some bs) :
    as.zipIdx.mapM (fun p => (bs[p.2]?).bind (g p.1)) = as.mapM fun a => (f a).bind (g a) := by
  -- the positions start behind what has been passed
  suffices hfrom : ∀ (as : List α) (before rest : List β), as.mapM f = some rest →
      (as.zipIdx before.length).mapM (fun p => ((before ++ rest)[p.2]?).bind (g p.1))
        = as.mapM fun a => (f a).bind (g a) from hfrom as [] bs h
  intro as
  induction as with
  | nil => intro before rest _; rfl
  | cons a as ih =>
    intro before rest h
    rw [mapM_cons_bind] at h
    obtain ⟨b, hb, htail⟩ := Option.bind_eq_some_iff.mp h
    obtain ⟨rest', hrest', heq⟩ := Option.bind_eq_some_iff.mp htail
    rw [Option.some.injEq] at heq
    subst heq
    have hhere : (before ++ b :: rest')[before.length]? = some b := by
      rw [List.getElem?_append_right (Nat.le_refl _), Nat.sub_self]
      rfl
    have hnext := ih (before ++ [b]) rest' hrest'
    rw [List.length_append, List.length_singleton, List.append_assoc] at hnext
    rw [List.zipIdx_cons, mapM_cons_bind, mapM_cons_bind, hhere, hb]
    rw [show before ++ b :: rest' = before ++ ([b] ++ rest') from rfl, hnext]

end

/-! ## §2. Encoders. -/

variable {σ : Type u} [Preorder σ] {α : Type v} {ρ ρ' : Type w} {β β' : Type x} {κ : Type y}

/-- The items of a list are moved in one after the other. -/
def storeAll (enc : α → σ → ρ × σ) : List α → σ → List ρ × σ
  | [], s => ([], s)
  | a :: as, s =>
    let (r, s) := enc a s
    let (rs, s) := storeAll enc as s
    (r :: rs, s)

/-- The encoder only adds to the store, and from then on its key leads to `b`. -/
structure Stores (resolve : σ → ρ → Option β) (enc : σ → ρ × σ) (b : β) : Prop where
  grows : ∀ s, s ≤ (enc s).2
  found : ∀ s t, (enc s).2 ≤ t → resolve t (enc s).1 = some b

/-- A key that needs no store. -/
theorem Stores.of_pure {resolve : σ → ρ → Option β} {r : ρ} {b : β}
    (h : ∀ t, resolve t r = some b) : Stores resolve (fun s => (r, s)) b :=
  ⟨fun s => le_refl s, fun _ t _ => h t⟩

/-- A key wrapped in another one. -/
theorem Stores.map {resolve : σ → ρ → Option β} {resolve' : σ → ρ' → Option β'}
    {enc : σ → ρ × σ} {b : β} {b' : β'} (h : Stores resolve enc b) (wrap : ρ → ρ')
    (hwrap : ∀ t r, resolve t r = some b → resolve' t (wrap r) = some b') :
    Stores resolve' (fun s => (wrap (enc s).1, (enc s).2)) b' :=
  ⟨h.grows, fun s t hle => hwrap t _ (h.found s t hle)⟩

/-- Two encoders, one after the other. -/
theorem Stores.both {resolve : σ → ρ → Option β} {enc enc' : σ → ρ × σ} {b b' : β}
    (h : Stores resolve enc b) (h' : Stores resolve enc' b') :
    Stores (fun t (r : ρ × ρ) => (resolve t r.1).bind fun x => (resolve t r.2).map (x, ·))
      (fun s => (((enc s).1, (enc' (enc s).2).1), (enc' (enc s).2).2)) (b, b') where
  grows := fun s => le_trans (h.grows s) (h'.grows _)
  found := by
    intro s t hle
    have hfirst := h.found s t (le_trans (h'.grows _) hle)
    have hsecond := h'.found (enc s).2 t hle
    simp only [hfirst, hsecond, Option.bind_some, Option.map_some]

/-- The items of a list are stored one after another. -/
theorem Stores.list {resolve : σ → ρ → Option β} {enc : α → σ → ρ × σ} {f : α → β}
    (h : ∀ a, Stores resolve (enc a) (f a)) (as : List α) :
    Stores (fun t (rs : List ρ) => rs.mapM (resolve t)) (storeAll enc as) (as.map f) := by
  induction as with
  | nil => exact .of_pure fun _ => rfl
  | cons a as ih =>
    refine ⟨fun s => le_trans ((h a).grows s) (ih.grows _), fun s t hle => ?_⟩
    -- what the first item has put in is still there when all have
    have hfirst := (h a).found s t (le_trans (ih.grows _) hle)
    have hrest := ih.found (enc a s).2 t hle
    show ((enc a s).1 :: (storeAll enc as (enc a s).2).1).mapM (resolve t) = _
    rw [mapM_cons_bind, hfirst, hrest]
    rfl

/-- **What comes out is what went in.**  All keys are resolved in the store as it is in the end,
and what they lead to is copied. -/
theorem Stores.carry {resolve : σ → ρ → Option κ} {copy : κ → Option β} {enc : α → σ → ρ × σ}
    {f : α → β} (h : ∀ a, Stores (fun t r => (resolve t r).bind copy) (enc a) (f a))
    (as : List α) (s : σ) :
    ∃ cs, (storeAll enc as s).1.mapM (resolve (storeAll enc as s).2) = some cs ∧
      cs.mapM copy = some (as.map f) := by
  have hall := (Stores.list h as).found s _ (le_refl _)
  rw [← mapM_bind_mapM] at hall
  exact Option.bind_eq_some_iff.mp hall

end ResearchSSH.Library
