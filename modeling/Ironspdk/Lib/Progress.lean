import Mathlib.Logic.Hydra
import Mathlib.Tactic.Abel
import Mathlib.Data.List.Perm.Basic
import Ironspdk.Lib.Async
import Ironspdk.Lib.Runs

/-! # Schedules that stop

A system stops from a state when no schedule of admitted labels goes on forever. A
measure in a well-founded order that every admitted step lowers shows it: programs get
shorter, and a list of parties, of which one moves at a time, is measured by all of them. -/
namespace Ironspdk.Lib

variable {σ ε α : Type*}

/-- Every infinite schedule of admitted labels comes to a label that is not enabled. -/
def Stops (next : σ → ε → Option σ) (adm : ε → Prop) (s : σ) : Prop :=
  ∀ sched : Nat → ε, (∀ i, adm (sched i)) →
    ∃ m, run next s ((List.range m).map sched) = none

theorem stops_of_measure {next : σ → ε → Option σ} {adm : ε → Prop} {μ : Type*}
    {r : μ → μ → Prop} (hwf : WellFounded r) {I : σ → Prop} {f : σ → μ}
    (lower : ∀ s e t, I s → adm e → next s e = some t → I t ∧ r (f t) (f s)) {s : σ}
    (hs : I s) : Stops next adm s := by
  induction hm : f s using hwf.induction generalizing s with
  | _ m ih =>
    intro sched hadm
    cases hn : next s (sched 0) with
    | none => exact ⟨1, by simp [run_cons, hn]⟩
    | some t =>
      obtain ⟨ht, hr⟩ := lower s (sched 0) t hs (hadm 0) hn
      obtain ⟨n, hrun⟩ := ih (f t) (hm ▸ hr) ht rfl (fun i => sched (i + 1)) fun i => hadm (i + 1)
      refine ⟨n + 1, ?_⟩
      rw [List.range_succ_eq_map, List.map_cons, List.map_map, run_cons, hn]
      exact hrun

/-- Some schedule comes to a state in which no admitted label is enabled. -/
theorem exists_rest_of_measure {next : σ → ε → Option σ} {adm : ε → Prop} {μ : Type*}
    {r : μ → μ → Prop} (hwf : WellFounded r) {f : σ → μ}
    (lower : ∀ s e t, adm e → next s e = some t → r (f t) (f s)) (s : σ) :
    ∃ es t, run next s es = some t ∧ ∀ e, adm e → next t e = none := by
  induction hm : f s using hwf.induction generalizing s with
  | _ m ih =>
    by_cases hrest : ∀ e, adm e → next s e = none
    · exact ⟨[], s, rfl, hrest⟩
    · obtain ⟨e, he⟩ := not_forall.mp hrest
      obtain ⟨hadm, hn⟩ := Classical.not_imp.mp he
      obtain ⟨t, ht⟩ := Option.ne_none_iff_exists'.mp hn
      obtain ⟨es, u, hrun, hu⟩ := ih (f t) (hm ▸ lower s e t hadm ht) t rfl
      exact ⟨e :: es, u, by rw [run_cons, ht]; exact hrun, hu⟩

/-- What remains of a program after one operation. -/
def Prog.After {Op : Type} {Res : Op → Type} {β : Type} (q p : Prog Op Res β) : Prop :=
  ∃ o k r, p = .op o k ∧ q = k r

theorem Prog.after_wf {Op : Type} {Res : Op → Type} {β : Type} :
    WellFounded (Prog.After : Prog Op Res β → Prog Op Res β → Prop) := by
  refine ⟨fun p => ?_⟩
  induction p with
  | ret a => exact ⟨_, fun q ⟨_, _, _, h, _⟩ => by cases h⟩
  | op o k ih =>
    refine ⟨_, fun q ⟨_, _, r, h, hq⟩ => ?_⟩
    cases h
    exact hq ▸ ih r

/-- One entry of the list gets smaller. -/
def OneLess (r : α → α → Prop) (l' l : List α) : Prop :=
  ∃ (i : Nat) (a a' : α), l[i]? = some a ∧ r a' a ∧ l' = l.set i a'

theorem oneLess_wf {r : α → α → Prop} (h : WellFounded r) : WellFounded (OneLess r) := by
  refine Subrelation.wf (r := InvImage (Relation.CutExpand r) (fun l : List α => (l : Multiset α)))
    ?_ (InvImage.wf _ h.cutExpand)
  rintro l' l ⟨i, a, a', hi, hr, rfl⟩
  refine ⟨{a'}, a, fun b hb => Multiset.mem_singleton.mp hb ▸ hr, ?_⟩
  obtain ⟨hlt, rfl⟩ := List.getElem?_eq_some_iff.mp hi
  have hset : ((l.set i a' : List α) : Multiset α) = a' ::ₘ (l.eraseIdx i : Multiset α) :=
    Multiset.coe_eq_coe.mpr (List.set_perm_cons_eraseIdx hlt a')
  have hget : (l : Multiset α) = l[i] ::ₘ (l.eraseIdx i : Multiset α) :=
    (Multiset.coe_eq_coe.mpr (List.getElem_cons_eraseIdx_perm hlt)).symm
  show ((l.set i a' : List α) : Multiset α) + {l[i]} = (l : Multiset α) + {a'}
  rw [hset, hget, ← Multiset.singleton_add, ← Multiset.singleton_add l[i]]
  abel

end Ironspdk.Lib
