import Mathlib.Data.List.Forall2
import Mathlib.Data.Option.Basic
import Ironspdk.Lib.Progress

/-! # Systems in lockstep

Two systems with the same labels and a relation between their states. Where every label is
enabled in both of two related states or in neither, and leads to related states, the runs of
one are those of the other: what is known of the states that one reaches, of where it comes to
rest and of its schedules carries over. -/
namespace Ironspdk.Lib

variable {σ τ ε : Type*} {f : σ → ε → Option σ} {g : τ → ε → Option τ} {R : σ → τ → Prop}

/-- Related states do the same on every label. -/
def Lockstep (f : σ → ε → Option σ) (g : τ → ε → Option τ) (R : σ → τ → Prop) : Prop :=
  ∀ s t e, R s t → Option.Rel R (f s e) (g t e)

theorem rel_cases {a : Option σ} {b : Option τ} (h : Option.Rel R a b) :
    (a = none ∧ b = none) ∨ ∃ x y, a = some x ∧ b = some y ∧ R x y := by
  cases h with
  | none => exact Or.inl ⟨rfl, rfl⟩
  | some hxy => exact Or.inr ⟨_, _, rfl, rfl, hxy⟩

/-- Steps that end alike go on alike. -/
theorem rel_bind {α β : Type*} {S : α → β → Prop} {a : Option α} {b : Option β}
    {p : α → Option σ} {q : β → Option τ} (h : Option.Rel S a b)
    (hpq : ∀ x y, S x y → Option.Rel R (p x) (q y)) : Option.Rel R (a.bind p) (b.bind q) := by
  cases h with
  | none => exact .none
  | some hxy => exact hpq _ _ hxy

/-! ## Lists of parts -/

section lists
variable {α β : Type*} {S : α → β → Prop} {l : List α} {m : List β}

theorem rel_getElem? (h : List.Forall₂ S l m) (i : Nat) : Option.Rel S l[i]? m[i]? := by
  induction h generalizing i with
  | nil => exact .none
  | cons hab _ ih =>
    cases i with
    | zero => exact .some hab
    | succ i => exact ih i

theorem forall₂_of_getElem? (h : ∀ i : Nat, Option.Rel S l[i]? m[i]?) : List.Forall₂ S l m := by
  induction l generalizing m with
  | nil =>
    cases m with
    | nil => exact .nil
    | cons b m => cases h 0
  | cons a l ih =>
    cases m with
    | nil => cases h 0
    | cons b m =>
      refine .cons ?_ (ih fun i => h (i + 1))
      cases h 0 with
      | some hab => exact hab

theorem forall₂_set (h : List.Forall₂ S l m) (i : Nat) {a : α} {b : β} (hab : S a b) :
    List.Forall₂ S (l.set i a) (m.set i b) := by
  induction h generalizing i with
  | nil => exact .nil
  | cons hhead htail ih =>
    cases i with
    | zero => exact .cons hab htail
    | succ i => exact .cons hhead (ih i)

end lists

/-! ## Runs -/

section labels
variable {ε' : Type*} {g' : τ → ε' → Option τ} {L : ε → ε' → Prop} {s : σ} {t : τ}

/-- Two systems whose labels correspond, on corresponding labels. -/
theorem run_rel (h : ∀ s t e e', R s t → L e e' → Option.Rel R (f s e) (g' t e')) (hst : R s t)
    {es : List ε} {es' : List ε'} (hes : List.Forall₂ L es es') :
    Option.Rel R (run f s es) (run g' t es') := by
  induction hes generalizing s t with
  | nil => exact .some hst
  | cons he _ ih => exact rel_bind (h s t _ _ hst he) fun u v huv => ih huv

/-- Schedules of the one stop where those of the other do. -/
theorem stops_rel (h : ∀ s t e e', R s t → L e e' → Option.Rel R (f s e) (g' t e')) (hst : R s t)
    {adm : ε → Prop} {adm' : ε' → Prop} (hadm : ∀ e, adm e → ∃ e', adm' e' ∧ L e e')
    (hstops : Stops g' adm' t) : Stops f adm s := by
  intro sched hsched
  choose sched' hsched' hlabels using fun i => hadm (sched i) (hsched i)
  obtain ⟨m, hm⟩ := hstops sched' hsched'
  refine ⟨m, ?_⟩
  have hes : List.Forall₂ L ((List.range m).map sched) ((List.range m).map sched') := by
    rw [List.forall₂_map_left_iff, List.forall₂_map_right_iff]
    exact List.forall₂_same.mpr fun i _ => hlabels i
  rcases rel_cases (run_rel h hst hes) with ⟨hnone, _⟩ | ⟨_, v, _, hv, _⟩
  · exact hnone
  · cases hm.symm.trans hv

end labels

namespace Lockstep
variable {s : σ} {t : τ} {es : List ε}

theorem run (h : Lockstep f g R) (hst : R s t) (es : List ε) :
    Option.Rel R (Lib.run f s es) (Lib.run g t es) := by
  refine run_rel (L := Eq) ?_ hst (List.forall₂_refl es)
  rintro s t e _ hst rfl
  exact h s t e hst

theorem run_left (h : Lockstep f g R) (hst : R s t) {u : σ} (hrun : Lib.run f s es = some u) :
    ∃ v, Lib.run g t es = some v ∧ R u v := by
  rcases rel_cases (h.run hst es) with ⟨hnone, _⟩ | ⟨u', v, hu, hv, huv⟩
  · cases hnone.symm.trans hrun
  · cases hu.symm.trans hrun
    exact ⟨v, hv, huv⟩

theorem run_right (h : Lockstep f g R) (hst : R s t) {v : τ} (hrun : Lib.run g t es = some v) :
    ∃ u, Lib.run f s es = some u ∧ R u v := by
  rcases rel_cases (h.run hst es) with ⟨_, hnone⟩ | ⟨u, v', hu, hv, huv⟩
  · cases hnone.symm.trans hrun
  · cases hv.symm.trans hrun
    exact ⟨u, hu, huv⟩

theorem stuck_iff (h : Lockstep f g R) (hst : R s t) (e : ε) : f s e = none ↔ g t e = none := by
  rcases rel_cases (h s t e hst) with ⟨hs, ht⟩ | ⟨u, v, hu, hv, _⟩
  · simp [hs, ht]
  · simp [hu, hv]

/-- Schedules of the one stop where those of the other do. -/
theorem stops (h : Lockstep f g R) (hst : R s t) {adm : ε → Prop} (hstops : Stops g adm t) :
    Stops f adm s := by
  refine stops_rel (L := Eq) ?_ hst (fun e he => ⟨e, he, rfl⟩) hstops
  rintro s t e _ hst rfl
  exact h s t e hst

end Lockstep

end Ironspdk.Lib
