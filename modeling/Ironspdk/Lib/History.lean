import Mathlib.Data.List.Forall2

/-! # Histories of a sequential object

An object whose operations run one at a time: `right s a` says that the answer `a` may be
given in state `s`, `after s a` is the state it leads to. -/
namespace Ironspdk.Lib

variable {σ α : Type} {right : σ → α → Prop} {after : σ → α → σ}

/-- Every answer of a history is one that the object gives in its turn. -/
def Sequential (right : σ → α → Prop) (after : σ → α → σ) : σ → List α → Prop
  | _, [] => True
  | s, a :: as => right s a ∧ Sequential right after (after s a) as

theorem sequential_append {s : σ} {as bs : List α} : Sequential right after s (as ++ bs) ↔
    Sequential right after s as ∧ Sequential right after (as.foldl after s) bs := by
  induction as generalizing s with
  | nil => simp [Sequential]
  | cons a as ih => simp [Sequential, ih, and_assoc]

theorem sequential_snoc {s : σ} {as : List α} {a : α} : Sequential right after s (as ++ [a]) ↔
    Sequential right after s as ∧ right (as.foldl after s) a :=
  sequential_append.trans (by simp [Sequential])

/-- **Refinement.** An object whose states and answers stand for those of another one may give
every answer that stands for one of the other's. -/
theorem sequential_refine {τ β : Type} {right' : τ → β → Prop} {after' : τ → β → τ}
    {R : σ → τ → Prop} {S : α → β → Prop}
    (hright : ∀ s t a b, R s t → S a b → right' t b → right s a)
    (hafter : ∀ s t a b, R s t → S a b → R (after s a) (after' t b)) {s : σ} {t : τ}
    (hst : R s t) {as : List α} {bs : List β} (h : List.Forall₂ S as bs)
    (hbs : Sequential right' after' t bs) :
    Sequential right after s as ∧ R (as.foldl after s) (bs.foldl after' t) := by
  induction h generalizing s t with
  | nil => exact ⟨trivial, hst⟩
  | @cons a b as bs hab _ ih =>
    obtain ⟨hb, hbs⟩ := hbs
    obtain ⟨has, hend⟩ := ih (hafter s t a b hst hab) hbs
    exact ⟨⟨hright s t a b hst hab hb, has⟩, hend⟩

end Ironspdk.Lib
