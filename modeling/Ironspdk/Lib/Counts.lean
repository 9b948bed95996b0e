import Mathlib.Logic.Function.Basic
import Mathlib.Tactic.Common

/-! # Reference counts

Strong counts of allocations, an explicit number each. An access to an allocation whose count
is zero has no result. `Exact` says that the counts are those of the holders: a rule for each
operation says what it makes of the holders. -/
namespace Ironspdk.Lib

abbrev Counts (α : Type*) := α → Nat

namespace Counts

variable {α : Type*} [DecidableEq α]

/-- A new allocation has one holder. -/
def alloc (c : Counts α) (a : α) : Counts α := Function.update c a 1

def deref (c : Counts α) (a : α) : Option Unit := if c a = 0 then none else some ()

def clone (c : Counts α) (a : α) : Option (Counts α) :=
  if c a = 0 then none else some (Function.update c a (c a + 1))

/-- A clone that is made on a condition only. -/
def cloneIf (c : Counts α) (p : Prop) [Decidable p] (a : α) : Option (Counts α) :=
  if p then c.clone a else some c

def drop (c : Counts α) (a : α) : Option (Counts α) :=
  if c a = 0 then none else some (Function.update c a (c a - 1))

/-- Each count is the number of holders. -/
def Exact (c : Counts α) (holders : α → Nat) : Prop := ∀ a, c a = holders a

/-- `more` has one holder of `a` more than `holders`, and the others in common. -/
def OneMore (a : α) (holders more : α → Nat) : Prop :=
  ∀ x, more x = holders x + if a = x then 1 else 0

variable {c : Counts α} {a : α} {holders more : α → Nat}

theorem OneMore.other (h : OneMore a holders more) {x : α} (hx : x ≠ a) : more x = holders x := by
  rw [h x, if_neg (Ne.symm hx), Nat.add_zero]

theorem Exact.alloc (h : c.Exact holders) (hnew : holders a = 0) (hm : OneMore a holders more) :
    (c.alloc a).Exact more := by
  intro x
  rw [hm x]
  by_cases hx : a = x
  · rw [← hx, Counts.alloc, Function.update_self, hnew, if_pos rfl]
  · rw [Counts.alloc, Function.update_of_ne (Ne.symm hx), if_neg hx]
    exact h x

omit [DecidableEq α] in
theorem Exact.deref (h : c.Exact holders) (hpos : 0 < holders a) : c.deref a = some () :=
  if_neg (h a ▸ Nat.ne_of_gt hpos)

theorem Exact.clone (h : c.Exact holders) (hpos : 0 < holders a) (hm : OneMore a holders more) :
    ∃ c', c.clone a = some c' ∧ c'.Exact more := by
  refine ⟨_, if_neg (h a ▸ Nat.ne_of_gt hpos), fun x => ?_⟩
  rw [hm x]
  by_cases hx : a = x
  · rw [← hx, Function.update_self, h a, if_pos rfl]
  · rw [Function.update_of_ne (Ne.symm hx), if_neg hx]
    exact h x

theorem Exact.cloneIf {p : Prop} [Decidable p] (h : c.Exact holders) (hpos : 0 < holders a)
    (hm : ∀ x, more x = holders x + if p ∧ a = x then 1 else 0) :
    ∃ c', c.cloneIf p a = some c' ∧ c'.Exact more := by
  unfold Counts.cloneIf
  by_cases hp : p
  · rw [if_pos hp]
    exact h.clone hpos fun x => by simp [hm x, hp]
  · rw [if_neg hp]
    exact ⟨c, rfl, fun x => by simp [h x, hm x, hp]⟩

theorem Exact.drop (h : c.Exact more) (hm : OneMore a holders more) :
    ∃ c', c.drop a = some c' ∧ c'.Exact holders := by
  have ha : c a = holders a + 1 := by rw [h a, hm a, if_pos rfl]
  refine ⟨_, if_neg (ha ▸ Nat.succ_ne_zero _), fun x => ?_⟩
  by_cases hx : a = x
  · rw [← hx, Function.update_self, ha, Nat.add_sub_cancel]
  · rw [Function.update_of_ne (Ne.symm hx), h x, hm x, if_neg hx]
    rfl

end Counts

end Ironspdk.Lib
