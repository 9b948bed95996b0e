import Mathlib.Data.List.Induction

/-! # Runs of a transition system

A system is a partial step function: the label of a step carries every choice
the surroundings make, so a run is determined by its labels and can be
evaluated. `Along` restricts the schedules of a run step by step. The rules
below carry an invariant through a run, with or without its history. -/
namespace Ironspdk.Lib

variable {σ ε : Type*} {next : σ → ε → Option σ}

/-- Follow the labels from a state; `none` when one of them is not enabled. -/
def run (next : σ → ε → Option σ) : σ → List ε → Option σ
  | s, [] => some s
  | s, e :: es => (next s e).bind (run next · es)

/-- Every step of the run satisfies `P` in the state it starts from. -/
def Along (next : σ → ε → Option σ) (P : σ → ε → Prop) : σ → List ε → Prop
  | _, [] => True
  | s, e :: es => ∀ t ∈ next s e, P s e ∧ Along next P t es

instance Along.decidable {P : σ → ε → Prop} [∀ s e, Decidable (P s e)] :
    ∀ (s : σ) (es : List ε), Decidable (Along next P s es)
  | _, [] => isTrue trivial
  | s, e :: es =>
    have : ∀ t, Decidable (Along next P t es) := fun t => Along.decidable t es
    inferInstanceAs (Decidable (∀ t ∈ next s e, P s e ∧ Along next P t es))

@[simp] theorem run_nil (s : σ) : run next s [] = some s := rfl

theorem run_cons (s : σ) (e : ε) (es : List ε) :
    run next s (e :: es) = (next s e).bind (run next · es) := rfl

theorem run_append (s : σ) (es fs : List ε) :
    run next s (es ++ fs) = (run next s es).bind (run next · fs) := by
  induction es generalizing s with
  | nil => rfl
  | cons e es ih =>
    rw [List.cons_append, run_cons, run_cons]
    cases next s e with
    | none => rfl
    | some s' => exact ih s'

theorem run_snoc {s u : σ} {es : List ε} {e : ε} (h : run next s (es ++ [e]) = some u) :
    ∃ t, run next s es = some t ∧ next t e = some u := by
  rw [run_append, Option.bind_eq_some_iff] at h
  obtain ⟨t, ht, hu⟩ := h
  refine ⟨t, ht, ?_⟩
  simpa [run_cons] using hu

theorem along_snoc {P : σ → ε → Prop} {s : σ} {es : List ε} {e : ε} :
    Along next P s (es ++ [e]) ↔
      Along next P s es ∧ ∀ t u, run next s es = some t → next t e = some u → P t e := by
  induction es generalizing s with
  | nil =>
    simp only [List.nil_append, Along, run_nil, Option.some.injEq, and_true, true_and]
    exact ⟨fun h t u ht hu => ht ▸ h u (ht ▸ hu), fun h t ht => h s t rfl ht⟩
  | cons d es ih =>
    rw [List.cons_append]
    simp only [Along, run_cons]
    cases next s d with
    | none => simp
    | some s' => simp [ih, and_assoc]

/-- A run whose steps are each one of another system, or leave it alone, is a run of that one
with some of its steps left out. -/
theorem run_stutter {τ δ : Type*} {next' : τ → δ → Option τ} {f : τ → σ} {I : τ → Prop}
    (h : ∀ t e u, I t → next' t e = some u →
      (f u = f t ∨ ∃ e', next (f t) e' = some (f u)) ∧ I u) {t u : τ} (init : I t) {es : List δ}
    (hrun : run next' t es = some u) : (∃ es', run next (f t) es' = some (f u)) ∧ I u := by
  induction es generalizing t with
  | nil =>
    cases hrun
    exact ⟨⟨[], rfl⟩, init⟩
  | cons e es ih =>
    obtain ⟨t', ht', hrun⟩ := Option.bind_eq_some_iff.mp hrun
    obtain ⟨hstep, hinv⟩ := h t e t' init ht'
    obtain ⟨⟨es', hes'⟩, hu⟩ := ih hinv hrun
    refine ⟨?_, hu⟩
    rcases hstep with heq | ⟨e', he'⟩
    · exact ⟨es', heq ▸ hes'⟩
    · exact ⟨e' :: es', by rw [run_cons, he']; exact hes'⟩

/-- Conditions that always hold restrict nothing. -/
theorem along_of_forall {P : σ → ε → Prop} (h : ∀ s e, P s e) (s : σ) (es : List ε) :
    Along next P s es := by
  induction es generalizing s with
  | nil => trivial
  | cons e es ih => exact fun t _ => ⟨h s e, ih t⟩

theorem along_and {P Q : σ → ε → Prop} {s : σ} {es : List ε} (hp : Along next P s es)
    (hq : Along next Q s es) : Along next (fun t e => P t e ∧ Q t e) s es := by
  induction es generalizing s with
  | nil => trivial
  | cons e es ih =>
    intro t ht
    obtain ⟨hpe, hp⟩ := hp t ht
    obtain ⟨hqe, hq⟩ := hq t ht
    exact ⟨⟨hpe, hqe⟩, ih hp hq⟩

/-- A condition that an invariant of the admitted schedules implies holds along them. -/
theorem along_of_invariant {P Q : σ → ε → Prop} {I : σ → Prop}
    (keep : ∀ t e u, I t → P t e → next t e = some u → I u)
    (imp : ∀ t e u, I t → P t e → next t e = some u → Q t e) {s : σ} (init : I s) {es : List ε}
    (ha : Along next P s es) : Along next Q s es := by
  induction es generalizing s with
  | nil => trivial
  | cons e es ih =>
    intro t ht
    obtain ⟨hp, ha⟩ := ha t ht
    exact ⟨imp s e t init hp ht, ih (keep s e t init hp ht) ha⟩

/-- Where every step that misses a condition spoils the states after it for good, a run that
ends in a good one has met the condition at every step. -/
theorem along_of_last {P : σ → ε → Prop} {I G : σ → Prop} {s : σ} (init : I s)
    (keep : ∀ t e u, I t → next t e = some u → I u)
    (back : ∀ t e u, I t → next t e = some u → G u → G t ∧ P t e) {es : List ε} {u : σ}
    (h : run next s es = some u) (hg : G u) : G s ∧ Along next P s es := by
  induction es generalizing s with
  | nil =>
    cases h
    exact ⟨hg, trivial⟩
  | cons e es ih =>
    obtain ⟨t, ht, h⟩ := Option.bind_eq_some_iff.mp h
    obtain ⟨hgt, ha⟩ := ih (keep s e t init ht) h
    obtain ⟨hgs, hp⟩ := back s e t init ht hgt
    refine ⟨hgs, fun t' ht' => ?_⟩
    cases ht.symm.trans ht'
    exact ⟨hp, ha⟩

/-- **The run rule, with history.** What holds of the empty run and is kept by
every admitted step holds of the labels and the last state of every run. -/
theorem run_history {P : σ → ε → Prop} {I : List ε → σ → Prop} {s : σ} (init : I [] s)
    (keep : ∀ es t e u, I es t → P t e → next t e = some u → I (es ++ [e]) u)
    {es : List ε} {u : σ} (h : run next s es = some u) (ha : Along next P s es) : I es u := by
  induction es using List.reverseRecOn generalizing u with
  | nil => cases h; exact init
  | append_singleton es e ih =>
    obtain ⟨t, ht, hu⟩ := run_snoc h
    obtain ⟨ha, hp⟩ := along_snoc.mp ha
    exact keep es t e u (ih ht ha) (hp t u ht hu) hu

/-- **The run rule.** An invariant of every admitted step is one of every run. -/
theorem run_invariant {P : σ → ε → Prop} {I : σ → Prop} {s : σ} (init : I s)
    (keep : ∀ t e u, I t → P t e → next t e = some u → I u)
    {es : List ε} {u : σ} (h : run next s es = some u) (ha : Along next P s es) : I u :=
  run_history (I := fun _ t => I t) init (fun _ t e u => keep t e u) h ha

/-- The run rule for schedules nothing restricts. -/
theorem run_always {I : σ → Prop} {s : σ} (init : I s)
    (keep : ∀ t e u, I t → next t e = some u → I u)
    {es : List ε} {u : σ} (h : run next s es = some u) : I u :=
  run_invariant (P := fun _ _ => True) init (fun t e u ht _ => keep t e u ht) h
    (along_of_forall (fun _ _ => trivial) s es)

end Ironspdk.Lib
