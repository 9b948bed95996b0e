import Ironspdk.Runtime.Batch

/-! # Where the executor has a task

A task that only the futures it waits for can wake, one at a time: it is in the run queue
once, on the stack, waiting, or over, and each step of the executor moves it from one of
these places to the next. So it is never in the queue twice and never polled once more. -/
namespace Ironspdk.Runtime
open Ironspdk.Lib

inductive Spot
  | queued | polled | waiting | ended
  deriving DecidableEq, Repr

/-- The executor has task `k` at this spot. -/
structure Tcb.At (c : Tcb) (k : TaskId) (w : Spot) : Prop where
  made : k < c.tasks
  entries : c.runq.count k = if w = .queued then 1 else 0
  stack : k ∈ c.frames ↔ w = .polled
  state : match w with
    | .queued => c.state k = .idle ∨ c.state k = .notified
    | .polled => c.state k = .running
    | .waiting => c.state k = .idle
    | .ended => c.state k = .ready

namespace Tcb.At
variable {c b : Tcb} {k : TaskId} {w w' : Spot}

theorem same (h : c.At k w) (hs : Tcb.Same k c b) : b.At k w := by
  refine ⟨hs.tasks.mpr h.made, hs.entries.trans h.entries, hs.frames.trans h.stack, ?_⟩
  have hstate := h.state
  cases w <;> simpa only [hs.state] using hstate

theorem queued_of_mem (h : c.At k w) (hq : k ∈ c.runq) : w = .queued := by
  have hpos := List.count_pos_iff.mpr hq
  rw [h.entries] at hpos
  by_contra hw
  simp [hw] at hpos

theorem mem_of_queued (h : c.At k .queued) : k ∈ c.runq :=
  List.count_pos_iff.mp (by simp [h.entries])

/-- A new task is in the queue. -/
theorem spawn (hw : c.Wf) : c.spawn.At c.tasks .queued := by
  have hq : c.tasks ∉ c.runq := fun hm => Nat.lt_irrefl _ (hw.queued _ hm)
  have hf : c.tasks ∉ c.frames := fun hm => Nat.lt_irrefl _ (hw.created _ hm)
  refine ⟨Nat.lt_succ_self _, ?_, ?_, Or.inl ?_⟩
  · simp [Tcb.spawn, List.count_eq_zero.mpr hq]
  · simp [Tcb.spawn, Tcb.newTask, hf]
  · simp [Tcb.spawn, Tcb.newTask]

theorem pop (h : c.At k w) (hn : next c (.pop k) = some b) : w = .queued ∧ b.At k .polled := by
  cases next_step hn with
  | @pop _ q empty queue free =>
    obtain rfl := h.queued_of_mem (by simp [queue])
    have hcount := h.entries
    rw [queue, List.count_cons_self] at hcount
    refine ⟨rfl, h.made, ?_, ?_, Function.update_self ..⟩
    · simpa [Task.enter] using hcount
    · simp [Task.enter]

/-- The poll of a task that waits returns. -/
theorem pending (h : c.At k .polled) (hw : c.Wf) (hn : next c (.ret k .pending) = some b) :
    b.At k .waiting := by
  cases next_step hn with
  | @ret _ fs stack _ =>
    have hoff : k ∉ fs := by
      have hnd := hw.nodup
      rw [stack] at hnd
      exact (List.nodup_cons.mp hnd).1
    have hne : c.state k ≠ .notified := by
      have hst : c.state k = .running := h.state
      simp [hst]
    have hleave : Task.leave k .pending { c with frames := fs } =
        { c with frames := fs, state := Function.update c.state k .idle } := by
      simp [Task.leave, hne]
    rw [hleave]
    exact ⟨h.made, h.entries, by simp [hoff], Function.update_self ..⟩

theorem ready (h : c.At k .polled) (hw : c.Wf) (hn : next c (.ret k .ready) = some b) :
    b.At k .ended := by
  cases next_step hn with
  | @ret _ fs stack _ =>
    have hoff : k ∉ fs := by
      have hnd := hw.nodup
      rw [stack] at hnd
      exact (List.nodup_cons.mp hnd).1
    exact ⟨h.made, h.entries, by simp [Task.leave, hoff], Function.update_self ..⟩

/-- The future it waits for wakes it. -/
theorem wake (h : c.At k .waiting) : (Task.wake k c).At k .queued := by
  have hst : c.state k = .idle := h.state
  have hcount : c.runq.count k = 0 := h.entries
  have hwake : Task.wake k c =
      { c with state := Function.update c.state k .notified, runq := c.runq ++ [k] } := by
    simp [Task.wake, hst]
  rw [hwake]
  refine ⟨h.made, by simp [hcount], ?_, Or.inr (Function.update_self ..)⟩
  simpa using h.stack

end Tcb.At

/-- A wake of another task. -/
theorem same_wake {c : Tcb} {k t : TaskId} (h : t ≠ k) : Tcb.Same k c (Task.wake t c) := by
  unfold Task.wake
  split
  · exact ⟨Function.update_of_ne h.symm _ _, rfl, Iff.rfl, Iff.rfl⟩
  · exact ⟨Function.update_of_ne h.symm _ _, count_push h _, Iff.rfl, Iff.rfl⟩
  · exact .refl k c
  · exact .refl k c

end Ironspdk.Runtime
