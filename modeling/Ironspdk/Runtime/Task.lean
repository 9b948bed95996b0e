import Mathlib.Logic.Function.Basic
import Mathlib.Data.List.Basic
import Mathlib.Tactic.Common
import Ironspdk.Lib.Runs

/-! # The task executor of one SPDK thread

`Task::poll`, `Task::wake`, `Tcb::spawn`, `Tcb::poll` and `SpdkThread::spawn_local`
on one running SPDK thread. A future is whatever its environment makes of it: while
its `poll` is on the stack it may wake any task (itself included), spawn, and poll new
tasks in place; what it returns is the label of the `ret` step. A wake may name any task
the thread has created, which covers every waker that can exist. The thread is running
throughout, so the shutdown branches of `Tcb::poll` and `Task::wake` are not taken. -/
namespace Ironspdk.Runtime
open Ironspdk.Lib

/-- Tasks, numbered in the order `Task::new` creates them. -/
abbrev TaskId := Nat

inductive TaskState
  | idle | running | notified | ready
  deriving DecidableEq, Repr

inductive Poll
  | ready | pending
  deriving DecidableEq, Repr

/-- The control block of the thread, with the state cells of its tasks and the
`Task::poll` calls on the stack (innermost first). `polling` says that the poller
is inside the loop of `Tcb::poll`. -/
structure Tcb where
  runq : List TaskId
  state : TaskId → TaskState
  tasks : Nat
  frames : List TaskId
  polling : Bool

def Tcb.new : Tcb := ⟨[], fun _ => .idle, 0, [], false⟩

/-- `Task::new`: the task gets the next number and starts idle. -/
def Tcb.newTask (s : Tcb) : Tcb :=
  { s with state := Function.update s.state s.tasks .idle, tasks := s.tasks + 1 }

/-- `Tcb::spawn` -/
def Tcb.spawn (s : Tcb) : Tcb :=
  { s.newTask with runq := s.runq ++ [s.tasks] }

namespace Task

/-- `Task::poll` up to the call of the future's own `poll`. -/
def enter (t : TaskId) (s : Tcb) : Tcb :=
  { s with state := Function.update s.state t .running, frames := t :: s.frames }

/-- The rest of `Task::poll`, once the future has returned `r`. A task that was
woken meanwhile goes back to the run queue, and to `idle`. -/
def leave (t : TaskId) (r : Poll) (s : Tcb) : Tcb :=
  match r with
  | .ready => { s with state := Function.update s.state t .ready }
  | .pending =>
    if s.state t = .notified then
      { s with state := Function.update s.state t .idle, runq := s.runq ++ [t] }
    else { s with state := Function.update s.state t .idle }

/-- `Task::wake` on a running thread. -/
def wake (t : TaskId) (s : Tcb) : Tcb :=
  match s.state t with
  | .running => { s with state := Function.update s.state t .notified }
  | .idle => { s with state := Function.update s.state t .notified, runq := s.runq ++ [t] }
  | .notified | .ready => s

theorem tasks_wake (t : TaskId) (s : Tcb) : (wake t s).tasks = s.tasks := by
  unfold wake
  split <;> rfl

theorem frames_wake (t : TaskId) (s : Tcb) : (wake t s).frames = s.frames := by
  unfold wake
  split <;> rfl

theorem tasks_leave (t : TaskId) (r : Poll) (s : Tcb) : (leave t r s).tasks = s.tasks := by
  unfold leave
  split
  · rfl
  · split <;> rfl

theorem frames_leave (t : TaskId) (r : Poll) (s : Tcb) : (leave t r s).frames = s.frames := by
  unfold leave
  split
  · rfl
  · split <;> rfl

/-- Only a wake of an idle task queues it. -/
theorem runq_wake {t k : TaskId} {s : Tcb} (hk : k ∈ (wake t s).runq) :
    k ∈ s.runq ∨ k = t ∧ s.state t = .idle := by
  unfold wake at hk
  split at hk
  · exact Or.inl hk
  · rename_i hst
    rcases List.mem_append.mp hk with hk | hk
    · exact Or.inl hk
    · exact Or.inr ⟨List.mem_singleton.mp hk, hst⟩
  · exact Or.inl hk
  · exact Or.inl hk

theorem runq_leave {t k : TaskId} {r : Poll} {s : Tcb} (hk : k ∈ (leave t r s).runq) :
    k ∈ s.runq ∨ k = t := by
  unfold leave at hk
  split at hk
  · exact Or.inl hk
  · split at hk
    · rcases List.mem_append.mp hk with hk | hk
      · exact Or.inl hk
      · exact Or.inr (List.mem_singleton.mp hk)
    · exact Or.inl hk

end Task

/-- What happens on the thread. `start`, `pop`, `skip` and `done` are the steps of one
`Tcb::poll` call; `skip` is a `Task::poll` that finds its task running and returns at once. -/
inductive Event
  | spawn (t : TaskId)
  | spawnLocal (t : TaskId)
  | start
  | pop (t : TaskId)
  | skip (t : TaskId)
  | done
  | wake (t : TaskId)
  | ret (t : TaskId) (r : Poll)
  deriving DecidableEq, Repr

/-- Code runs inside the poll of some future, or outside `Tcb::poll`; between two
iterations of the loop nothing else runs. -/
def Tcb.active (s : Tcb) : Bool := !s.polling || !s.frames.isEmpty

def next (s : Tcb) : Event → Option Tcb
  | .spawn t => if s.active ∧ t = s.tasks then some s.spawn else none
  | .spawnLocal t => if s.active ∧ t = s.tasks then some (Task.enter t s.newTask) else none
  | .start => if s.frames = [] ∧ s.polling = false then some { s with polling := true } else none
  | .pop t =>
    if s.frames = [] ∧ s.polling ∧ s.runq.head? = some t ∧ s.state t ≠ .running then
      some (Task.enter t { s with runq := s.runq.tail })
    else none
  | .skip t =>
    if s.frames = [] ∧ s.polling ∧ s.runq.head? = some t ∧ s.state t = .running then
      some { s with runq := s.runq.tail }
    else none
  | .done =>
    if s.frames = [] ∧ s.polling ∧ s.runq = [] then some { s with polling := false } else none
  | .wake t => if s.active ∧ t < s.tasks then some (Task.wake t s) else none
  | .ret t r =>
    if s.frames.head? = some t then some (Task.leave t r { s with frames := s.frames.tail })
    else none

/-- The steps of the thread, with what each of them finds. -/
inductive Tcb.Step (s : Tcb) : Event → Tcb → Prop
  | spawn (active : s.active = true) : Step s (.spawn s.tasks) s.spawn
  | spawnLocal (active : s.active = true) :
      Step s (.spawnLocal s.tasks) (Task.enter s.tasks s.newTask)
  | start (empty : s.frames = []) (idle : s.polling = false) :
      Step s .start { s with polling := true }
  | pop {t : TaskId} {q : List TaskId} (empty : s.frames = []) (queue : s.runq = t :: q)
      (free : s.state t ≠ .running) : Step s (.pop t) (Task.enter t { s with runq := q })
  | skip {t : TaskId} {q : List TaskId} (empty : s.frames = []) (queue : s.runq = t :: q)
      (busy : s.state t = .running) : Step s (.skip t) { s with runq := q }
  | done (empty : s.frames = []) (drained : s.runq = []) : Step s .done { s with polling := false }
  | wake {t : TaskId} (active : s.active = true) (made : t < s.tasks) :
      Step s (.wake t) (Task.wake t s)
  | ret {t : TaskId} {fs : List TaskId} (stack : s.frames = t :: fs) (r : Poll) :
      Step s (.ret t r) (Task.leave t r { s with frames := fs })

theorem next_step {s u : Tcb} {e : Event} (h : next s e = some u) : s.Step e u := by
  cases e with
  | spawn t =>
    simp only [next, Option.ite_none_right_eq_some, Option.some.injEq] at h
    obtain ⟨⟨ha, rfl⟩, rfl⟩ := h
    exact .spawn ha
  | spawnLocal t =>
    simp only [next, Option.ite_none_right_eq_some, Option.some.injEq] at h
    obtain ⟨⟨ha, rfl⟩, rfl⟩ := h
    exact .spawnLocal ha
  | start =>
    simp only [next, Option.ite_none_right_eq_some, Option.some.injEq] at h
    obtain ⟨⟨hf, hp⟩, rfl⟩ := h
    exact .start hf hp
  | pop t =>
    simp only [next, Option.ite_none_right_eq_some, Option.some.injEq] at h
    obtain ⟨⟨hf, _, hh, hr⟩, rfl⟩ := h
    exact .pop hf (List.cons_head?_tail hh).symm hr
  | skip t =>
    simp only [next, Option.ite_none_right_eq_some, Option.some.injEq] at h
    obtain ⟨⟨hf, _, hh, hr⟩, rfl⟩ := h
    exact .skip hf (List.cons_head?_tail hh).symm hr
  | done =>
    simp only [next, Option.ite_none_right_eq_some, Option.some.injEq] at h
    obtain ⟨⟨hf, _, hq⟩, rfl⟩ := h
    exact .done hf hq
  | wake t =>
    simp only [next, Option.ite_none_right_eq_some, Option.some.injEq] at h
    obtain ⟨⟨ha, ht⟩, rfl⟩ := h
    exact .wake ha ht
  | ret t r =>
    simp only [next, Option.ite_none_right_eq_some, Option.some.injEq] at h
    obtain ⟨hh, rfl⟩ := h
    exact .ret (List.cons_head?_tail hh).symm r

/-- The future an event polls. -/
def Event.polls : Event → Option TaskId
  | .pop t | .spawnLocal t => some t
  | _ => none

/-! ## What every run keeps -/

/-- The state cells, the stack and the run queue fit together. Nothing here depends on
how the futures behave. -/
structure Tcb.Wf (s : Tcb) : Prop where
  nodup : s.frames.Nodup
  created : ∀ t ∈ s.frames, t < s.tasks
  queued : ∀ t ∈ s.runq, t < s.tasks
  polled : ∀ t ∈ s.frames, s.state t = .running ∨ s.state t = .notified
  running : ∀ t, s.state t = .running → t ∈ s.frames
  notified : ∀ t, s.state t = .notified → t ∈ s.frames ∨ t ∈ s.runq

theorem Tcb.wf_new : Tcb.new.Wf :=
  ⟨List.nodup_nil, by simp [Tcb.new], by simp [Tcb.new], by simp [Tcb.new], by simp [Tcb.new],
    by simp [Tcb.new]⟩

/-- Setting the cell of one task leaves what is known of the others. -/
theorem update_cell {f : TaskId → TaskState} {t u : TaskId} {c d : TaskState}
    (h : Function.update f t c u = d) (hc : c ≠ d) : u ≠ t ∧ f u = d := by
  by_cases he : u = t
  · rw [he, Function.update_self] at h; exact absurd h hc
  · rw [Function.update_of_ne he] at h; exact ⟨he, h⟩

theorem Tcb.Wf.newTask {s : Tcb} (h : s.Wf) : s.newTask.Wf := by
  have hf : ∀ t ∈ s.frames, t ≠ s.tasks := fun t ht => Nat.ne_of_lt (h.created t ht)
  refine ⟨h.nodup, fun t ht => Nat.lt_succ_of_lt (h.created t ht),
    fun t ht => Nat.lt_succ_of_lt (h.queued t ht), ?_, ?_, ?_⟩
  · intro t ht
    simpa [Tcb.newTask, Function.update_of_ne (hf t ht)] using h.polled t ht
  · intro t ht; exact h.running t (update_cell ht (by decide)).2
  · intro t ht; exact h.notified t (update_cell ht (by decide)).2

theorem Tcb.Wf.push {s : Tcb} (h : s.Wf) {t : TaskId} (ht : t < s.tasks) :
    Tcb.Wf { s with runq := s.runq ++ [t] } := by
  refine ⟨h.nodup, h.created, ?_, h.polled, h.running, ?_⟩
  · intro u hu
    rcases List.mem_append.mp hu with hu | hu
    · exact h.queued u hu
    · rw [List.mem_singleton.mp hu]; exact ht
  · intro u hu; exact (h.notified u hu).imp_right (List.mem_append_left _)

/-- Entering a task off the stack, after taking entries of that task from the queue. -/
theorem Tcb.Wf.enter {s : Tcb} (h : s.Wf) {t : TaskId} {q : List TaskId} (ht : t < s.tasks)
    (hf : t ∉ s.frames) (hq : ∀ u ∈ q, u ∈ s.runq) (hl : ∀ u ∈ s.runq, u = t ∨ u ∈ q) :
    (Task.enter t { s with runq := q }).Wf := by
  refine ⟨List.nodup_cons.mpr ⟨hf, h.nodup⟩, ?_, fun u hu => h.queued u (hq u hu), ?_, ?_, ?_⟩
  · intro u hu
    rcases List.mem_cons.mp hu with rfl | hu
    · exact ht
    · exact h.created u hu
  · intro u hu
    rcases List.mem_cons.mp hu with rfl | hu
    · left; exact Function.update_self ..
    · have he : u ≠ t := fun he => hf (he ▸ hu)
      simpa [Task.enter, Function.update_of_ne he] using h.polled u hu
  · intro u hu
    by_cases he : u = t
    · rw [he]; exact List.mem_cons_self
    · have hu : s.state u = .running := by simpa [Task.enter, Function.update_of_ne he] using hu
      exact List.mem_cons_of_mem _ (h.running u hu)
  · intro u hu
    obtain ⟨he, hu⟩ := update_cell hu (by decide)
    rcases h.notified u hu with hu | hu
    · exact Or.inl (List.mem_cons_of_mem _ hu)
    · exact Or.inr ((hl u hu).resolve_left he)

/-- Taking the innermost task off the stack, and leaving it neither running nor notified. -/
theorem Tcb.Wf.leave {s : Tcb} (h : s.Wf) {t : TaskId} {fs : List TaskId} (hs : s.frames = t :: fs)
    {c : TaskState} (hr : c ≠ .running) (hn : c ≠ .notified) :
    Tcb.Wf { s with frames := fs, state := Function.update s.state t c } := by
  have hnd := h.nodup
  rw [hs, List.nodup_cons] at hnd
  have hmem : ∀ u ∈ fs, u ∈ s.frames := fun u hu => hs ▸ List.mem_cons_of_mem t hu
  refine ⟨hnd.2, fun u hu => h.created u (hmem u hu), h.queued, ?_, ?_, ?_⟩
  · intro u hu
    have he : u ≠ t := fun he => hnd.1 (he ▸ hu)
    simpa [Function.update_of_ne he] using h.polled u (hmem u hu)
  · intro u hu
    obtain ⟨he, hu⟩ := update_cell hu hr
    simpa [hs, he] using h.running u hu
  · intro u hu
    obtain ⟨he, hu⟩ := update_cell hu hn
    simpa [hs, he] using h.notified u hu

/-- Notifying a task that is on the stack or in the queue. -/
theorem Tcb.Wf.notify {s : Tcb} (h : s.Wf) {t : TaskId} (ht : t ∈ s.frames ∨ t ∈ s.runq) :
    Tcb.Wf { s with state := Function.update s.state t .notified } := by
  refine ⟨h.nodup, h.created, h.queued, ?_, fun u hu => h.running u (update_cell hu (by decide)).2,
    ?_⟩
  · intro u hu
    by_cases he : u = t
    · rw [he]; right; exact Function.update_self ..
    · simpa [Function.update_of_ne he] using h.polled u hu
  · intro u hu
    by_cases he : u = t
    · rw [he]; exact ht
    · exact h.notified u (by simpa [Function.update_of_ne he] using hu)

theorem Tcb.Wf.wake {s : Tcb} (h : s.Wf) {t : TaskId} (ht : t < s.tasks) : (Task.wake t s).Wf := by
  unfold Task.wake
  cases hst : s.state t with
  | running => exact h.notify (Or.inl (h.running t hst))
  | notified => exact h
  | ready => exact h
  | idle =>
    -- the push comes with the state change: the queue already holds the task
    exact (h.push ht).notify (Or.inr (by simp))

/-- A running task is on the stack, which is empty when the loop of `Tcb::poll` takes a task. -/
theorem Tcb.Wf.not_running {s : Tcb} (h : s.Wf) (hf : s.frames = []) (t : TaskId) :
    s.state t ≠ .running := fun hr => by
  have ht := h.running t hr
  rw [hf] at ht
  cases ht

/-- Every step of the thread keeps the control block well formed. -/
theorem next_wf {s u : Tcb} {e : Event} (h : s.Wf) (hn : next s e = some u) : u.Wf := by
  cases next_step hn with
  | spawn _ => exact h.newTask.push (Nat.lt_succ_self _)
  | spawnLocal _ =>
    have hf : s.tasks ∉ s.frames := fun hm => Nat.lt_irrefl _ (h.created _ hm)
    exact h.newTask.enter (q := s.runq) (Nat.lt_succ_self _) hf (fun _ hu => hu)
      (fun _ hu => Or.inr hu)
  | start _ _ | done _ _ =>
    exact ⟨h.nodup, h.created, h.queued, h.polled, h.running, h.notified⟩
  | @pop t q empty queue _ =>
    refine h.enter (h.queued t (by simp [queue])) (by simp [empty]) (fun u hu => ?_)
      (fun u hu => ?_)
    · rw [queue]
      exact List.mem_cons_of_mem _ hu
    · rw [queue] at hu
      exact List.mem_cons.mp hu
  | skip empty _ busy => exact absurd busy (h.not_running empty _)
  | wake _ made => exact h.wake made
  | ret stack r =>
    cases r with
    | ready => exact h.leave stack (by decide) (by decide)
    | pending =>
      have hl := h.leave stack (c := .idle) (by decide) (by decide)
      simp only [Task.leave]
      split
      · exact hl.push (h.created _ (by simp [stack]))
      · exact hl

/-- What a step other than `Tcb::spawn` does to the run queue. -/
theorem runq_next {s u : Tcb} {e : Event} (h : s.Wf) (hn : next s e = some u)
    (he : ∀ t, e ≠ .spawn t) : u.runq = s.runq ∨ (∃ t, u.runq = s.runq ++ [t]) ∨
      ∃ t, s.runq = t :: u.runq ∧ e = .pop t := by
  cases next_step hn with
  | spawn _ => exact absurd rfl (he _)
  | spawnLocal _ | start _ _ | done _ _ => exact Or.inl rfl
  | pop _ queue _ => exact Or.inr (Or.inr ⟨_, queue, rfl⟩)
  | skip empty _ busy => exact absurd busy (h.not_running empty _)
  | @wake t _ _ =>
    unfold Task.wake
    split
    · exact Or.inl rfl
    · exact Or.inr (Or.inl ⟨t, rfl⟩)
    · exact Or.inl rfl
    · exact Or.inl rfl
  | @ret t _ _ r =>
    unfold Task.leave
    split
    · exact Or.inl rfl
    · split
      · exact Or.inr (Or.inl ⟨t, rfl⟩)
      · exact Or.inl rfl

/-- Only the return of its own poll takes a task off the stack. -/
theorem frames_next {s u : Tcb} {e : Event} (hn : next s e = some u) {t : TaskId}
    (ht : t ∈ s.frames) (he : ∀ r, e ≠ .ret t r) : t ∈ u.frames := by
  cases next_step hn with
  | spawn _ | start _ _ | skip _ _ _ | done _ _ => exact ht
  | spawnLocal _ | pop _ _ _ => exact List.mem_cons_of_mem _ ht
  | wake _ _ => rwa [Task.frames_wake]
  | ret stack r =>
    rw [Task.frames_leave]
    rw [stack] at ht
    exact (List.mem_cons.mp ht).resolve_left fun hv => he r (hv ▸ rfl)

/-- Every state of every run is well formed. -/
theorem run_wf {es : List Event} {s : Tcb} (h : run next Tcb.new es = some s) : s.Wf :=
  run_always Tcb.wf_new (fun _ _ _ ht hn => next_wf ht hn) h

end Ironspdk.Runtime
