import Mathlib.Data.List.Perm.Basic
import PipelineLens.Proofs.Pointwise
/-!
# Lists in another order

`Reordered R xs ys` says that `ys` has the entries of `xs` in some order, each of them replaced by
one that `R` relates it to. With equality in place of `R` this is permutation. Functions on lists
that work entry by entry keep it.
-/
namespace PipelineLens

/-- The entries of `ys` are related one to one to those of `xs`, in any order. -/
def Reordered {α β : Type} (R : α → β → Prop) (xs : List α) (ys : List β) : Prop :=
  ∃ zs, xs.Perm zs ∧ List.Forall₂ R zs ys

namespace Reordered

variable {α β γ δ : Type} {R : α → β → Prop} {S : γ → δ → Prop} {xs : List α} {ys : List β}

theorem of_forall₂ (h : List.Forall₂ R xs ys) : Reordered R xs ys := ⟨xs, .refl xs, h⟩

theorem perm_left {ws : List α} (hp : xs.Perm ws) (h : Reordered R ws ys) : Reordered R xs ys := by
  obtain ⟨zs, hws, hzs⟩ := h
  exact ⟨zs, hp.trans hws, hzs⟩

theorem append {xs' : List α} {ys' : List β} (h : Reordered R xs ys) (h' : Reordered R xs' ys') :
    Reordered R (xs ++ xs') (ys ++ ys') := by
  obtain ⟨zs, hperm, hzs⟩ := h
  obtain ⟨zs', hperm', hzs'⟩ := h'
  exact ⟨zs ++ zs', hperm.append hperm', List.rel_append hzs hzs'⟩

theorem mono {R' : α → β → Prop} (h : Reordered R xs ys) (hR : ∀ x y, R x y → R' x y) :
    Reordered R' xs ys := by
  obtain ⟨zs, hperm, hzs⟩ := h
  exact ⟨zs, hperm, hzs.imp hR⟩

theorem exists_right (h : Reordered R xs ys) {x : α} (hx : x ∈ xs) : ∃ y ∈ ys, R x y := by
  obtain ⟨zs, hperm, hzs⟩ := h
  exact exists_of_mem_forall₂ hzs (hperm.mem_iff.1 hx)

theorem exists_left (h : Reordered R xs ys) {y : β} (hy : y ∈ ys) : ∃ x ∈ xs, R x y := by
  obtain ⟨zs, hperm, hzs⟩ := h
  obtain ⟨x, hx, hxy⟩ := exists_of_mem_forall₂ hzs.flip hy
  exact ⟨x, hperm.mem_iff.2 hx, hxy⟩

theorem filter {p : α → Bool} {q : β → Bool} (h : Reordered R xs ys)
    (hpq : ∀ x y, R x y → p x = q y) : Reordered R (xs.filter p) (ys.filter q) := by
  obtain ⟨zs, hperm, hzs⟩ := h
  refine ⟨zs.filter p, hperm.filter p, List.rel_filter (fun x y hxy => ?_) hzs⟩
  exact iff_of_eq (congrArg (· = true) (hpq x y hxy))

theorem map {f : α → γ} {g : β → δ} (h : Reordered R xs ys)
    (hfg : ∀ x y, R x y → S (f x) (g y)) : Reordered S (xs.map f) (ys.map g) := by
  obtain ⟨zs, hperm, hzs⟩ := h
  exact ⟨zs.map f, hperm.map f, List.rel_map (fun x y hxy => hfg x y hxy) hzs⟩

theorem flatMap {f : α → List γ} {g : β → List δ} (h : Reordered R xs ys)
    (hfg : ∀ x y, R x y → Reordered S (f x) (g y)) :
    Reordered S (xs.flatMap f) (ys.flatMap g) := by
  obtain ⟨zs, hperm, hzs⟩ := h
  refine perm_left (hperm.flatMap_right f) ?_
  clear hperm
  induction hzs with
  | nil => exact of_forall₂ .nil
  | cons hxy _ ih =>
    rw [List.flatMap_cons, List.flatMap_cons]
    exact (hfg _ _ hxy).append ih

end Reordered

theorem reordered_eq_iff {α : Type} {xs ys : List α} : Reordered Eq xs ys ↔ xs.Perm ys := by
  constructor
  · rintro ⟨zs, hperm, hzs⟩
    rw [List.forall₂_eq_eq_eq] at hzs
    exact hzs ▸ hperm
  · intro h
    exact ⟨ys, h, List.forall₂_refl ys⟩

end PipelineLens
