import Mathlib.Logic.Relation
import Mathlib.Tactic.Common

/-! # Asynchronous programs and their contracts

A program is a tree of operations on a state that its surroundings change as well, at
any moment between two operations. A contract says what the program may assume when it
performs an operation and what it must ensure; `wp` is the state predicate under which
every run keeps the contract and ends in the given postcondition. An operation that
cannot go on yet blocks the program. -/
namespace Ironspdk.Lib

inductive Prog (Op : Type) (Res : Op → Type) (α : Type) : Type
  | ret (a : α)
  | op (o : Op) (k : Res o → Prog Op Res α)

namespace Prog
variable {Op : Type} {Res : Op → Type} {α β γ : Type}

def bind : Prog Op Res α → (α → Prog Op Res β) → Prog Op Res β
  | ret a, f => f a
  | op o k, f => op o fun r => (k r).bind f

instance : Monad (Prog Op Res) where
  pure := ret
  bind := bind

/-- A single operation. -/
def perform (o : Op) : Prog Op Res (Res o) := op o ret

@[simp] theorem pure_bind' (a : α) (f : α → Prog Op Res β) : (pure a >>= f) = f a := rfl

@[simp] theorem op_bind (o : Op) (k : Res o → Prog Op Res α) (f : α → Prog Op Res β) :
    (op o k >>= f) = op o fun r => k r >>= f := rfl

theorem bind_pure' (p : Prog Op Res α) : (p >>= pure) = p := by
  induction p with
  | ret a => rfl
  | op o k ih => exact congrArg (op o) (funext ih)

theorem bind_assoc' (p : Prog Op Res α) (f : α → Prog Op Res β) (g : β → Prog Op Res γ) :
    (p >>= f) >>= g = p >>= fun a => f a >>= g := by
  induction p with
  | ret a => rfl
  | op o k ih => exact congrArg (op o) (funext ih)

end Prog

/-- The operations of a program, `none` where one has to wait, and the steps of the
surroundings. -/
structure Machine (σ : Type) (Op : Type) (Res : Op → Type) where
  perform : (o : Op) → σ → Option (Res o × σ)
  env : σ → σ → Prop

structure Contract (σ Op : Type) where
  assume : Op → σ → Prop
  ensure : Op → σ → Prop

variable {σ Op : Type} {Res : Op → Type} {α β : Type}

/-- Any number of steps of the surroundings. -/
abbrev Machine.Rely (M : Machine σ Op Res) : σ → σ → Prop := Relation.ReflTransGen M.env

def wp (M : Machine σ Op Res) (C : Contract σ Op) : Prog Op Res α → (α → σ → Prop) → σ → Prop
  | .ret a, Q, s => ∀ t, M.Rely s t → Q a t
  | .op o k, Q, s => ∀ t, M.Rely s t → C.assume o t →
      C.ensure o t ∧ ∀ r u, M.perform o t = some (r, u) → wp M C (k r) Q u

section rules
variable {M : Machine σ Op Res} {C : Contract σ Op} {Q R : α → σ → Prop} {s t : σ}

theorem wp_rely {p : Prog Op Res α} (h : wp M C p Q s) (hr : M.Rely s t) : wp M C p Q t := by
  cases p with
  | ret a => exact fun u hu => h u (hr.trans hu)
  | op o k => exact fun u hu => h u (hr.trans hu)

theorem wp_env {p : Prog Op Res α} (h : wp M C p Q s) (he : M.env s t) : wp M C p Q t :=
  wp_rely h (.single he)

theorem wp_done {a : α} (h : wp M C (.ret a) Q s) : Q a s := h s .refl

theorem wp_ensure {o : Op} {k : Res o → Prog Op Res α} (h : wp M C (.op o k) Q s)
    (ha : C.assume o s) : C.ensure o s :=
  (h s .refl ha).1

theorem wp_step {o : Op} {k : Res o → Prog Op Res α} {r : Res o} (h : wp M C (.op o k) Q s)
    (ha : C.assume o s) (hp : M.perform o s = some (r, t)) : wp M C (k r) Q t :=
  (h s .refl ha).2 r t hp

end rules

/-! ## Invariants of the surroundings

An invariant `I` that the surroundings keep, and a relation `E` that says what else they
leave alone, replace the `Rely` of `wp`. -/

/-- What the steps of the surroundings respect. -/
structure Stable (M : Machine σ Op Res) (I : σ → Prop) (E : σ → σ → Prop) : Prop where
  refl : ∀ s, E s s
  trans : ∀ {s t u}, E s t → E t u → E s u
  step : ∀ {s t}, I s → M.env s t → I t ∧ E s t

section stable
variable {M : Machine σ Op Res} {C : Contract σ Op} {I : σ → Prop} {E : σ → σ → Prop}
  {Q : α → σ → Prop} {s t : σ}

theorem Stable.rely (h : Stable M I E) (hs : I s) (hr : M.Rely s t) : I t ∧ E s t := by
  induction hr with
  | refl => exact ⟨hs, h.refl s⟩
  | tail _ he ih =>
    obtain ⟨hi, hE⟩ := h.step ih.1 he
    exact ⟨hi, h.trans ih.2 hE⟩

theorem Stable.wp_ret (h : Stable M I E) (hs : I s) {a : α} (hQ : ∀ t, I t → E s t → Q a t) :
    wp M C (pure a) Q s := by
  intro t ht
  obtain ⟨hi, hE⟩ := h.rely hs ht
  exact hQ t hi hE

theorem Stable.wp_op (h : Stable M I E) (hs : I s) {o : Op} {k : Res o → Prog Op Res α}
    (hk : ∀ t, I t → E s t → C.assume o t →
      C.ensure o t ∧ ∀ r u, M.perform o t = some (r, u) → wp M C (k r) Q u) :
    wp M C (Prog.perform o >>= k) Q s := by
  intro t ht ha
  obtain ⟨hi, hE⟩ := h.rely hs ht
  exact hk t hi hE ha

end stable

end Ironspdk.Lib
