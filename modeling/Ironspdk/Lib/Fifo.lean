import Mathlib.Data.List.Basic
import Mathlib.Tactic.Common

/-! # First removals from a queue

A FIFO queue that an element may enter more than once, while it waits in it or after it
has left. Elements leave for the first time in the order in which they first came in: the
rules below keep track of those that have not left yet, oldest first. -/
namespace Ironspdk.Lib

variable {α : Type*} [DecidableEq α]

/-- The elements of `U` are all in the queue, and their first entries stand in this order. -/
def Awaits (U q : List α) : Prop := (q.filter (· ∈ U)).eraseDups = U

theorem awaits_nil (q : List α) : Awaits [] q := by
  simp [Awaits]

theorem Awaits.mem {U q : List α} (h : Awaits U q) {x : α} (hx : x ∈ U) : x ∈ q := by
  rw [← h, List.mem_eraseDups] at hx
  exact List.mem_of_mem_filter hx

/-- Another entry of any element at the back of the queue changes no first entry. -/
theorem Awaits.push {U q : List α} (h : Awaits U q) (x : α) : Awaits U (q ++ [x]) := by
  by_cases hx : x ∈ U
  · have hm : x ∈ q.filter (· ∈ U) := List.mem_filter.mpr ⟨h.mem hx, by simpa using hx⟩
    have hr : [x].removeAll (q.filter (· ∈ U)) = [] := by
      simp [List.cons_removeAll, hm]
    rw [Awaits, List.filter_append, List.filter_cons_of_pos (by simpa using hx), List.filter_nil,
      List.eraseDups_append, h, hr]
    simp
  · rw [Awaits, List.filter_append, List.filter_cons_of_neg (by simpa using hx), List.filter_nil,
      List.append_nil]
    exact h

/-- An element that comes in for the first time waits behind the others. -/
theorem Awaits.enter {U q : List α} (h : Awaits U q) {x : α} (hx : x ∉ q) :
    Awaits (U ++ [x]) (q ++ [x]) := by
  have hf : q.filter (· ∈ U ++ [x]) = q.filter (· ∈ U) := by
    refine List.filter_congr fun y hy => ?_
    have : y ≠ x := fun he => hx (he ▸ hy)
    simp [this]
  have hr : [x].removeAll (q.filter (· ∈ U)) = [x] := by
    simp [List.cons_removeAll, hx]
  rw [Awaits, List.filter_append, hf, List.filter_cons_of_pos (by simp), List.filter_nil,
    List.eraseDups_append, h, hr]
  rfl

/-- **What leaves the queue** has left it before, or is the oldest of those that have not. -/
theorem Awaits.leave {U q : List α} {x : α} (h : Awaits U (x :: q)) :
    (x ∉ U ∧ Awaits U q) ∨ ∃ V, U = x :: V ∧ x ∉ V ∧ Awaits V q := by
  by_cases hx : x ∈ U
  · rw [Awaits, List.filter_cons_of_pos (by simpa using hx), List.eraseDups_cons] at h
    generalize hV : (List.filter (fun b => !b == x) (q.filter (· ∈ U))).eraseDups = V at h
    have hxV : x ∉ V := by
      rw [← hV, List.mem_eraseDups]
      simp
    refine Or.inr ⟨V, h.symm, hxV, ?_⟩
    have hf : q.filter (· ∈ V) = List.filter (fun b => !b == x) (q.filter (· ∈ U)) := by
      rw [List.filter_filter]
      refine List.filter_congr fun y _ => ?_
      by_cases hy : y = x
      · simp [hy, hxV]
      · simp [← h, hy]
    rw [Awaits, hf, hV]
  · rw [Awaits, List.filter_cons_of_neg (by simpa using hx)] at h
    exact Or.inl ⟨hx, h⟩

end Ironspdk.Lib
