import Ironspdk.Lib.Counts
import Ironspdk.Runtime.Task

/-! # Reference counts of tasks

The `Rc` of a task through `Task::poll`, `Task::wake` and the functions of `WAKER_VTABLE`.
Its holders are the entries of the run queue, the owned wakers and the `Task::poll` calls on
the stack; the waker that a future is polled with is not one of them. The last drop of a task
runs the destructor of its future, which may spawn and use other wakers, so these steps are
not tied to the poll of a future as in `Task`. -/
namespace Ironspdk.Runtime
open Ironspdk.Lib

/-- The control block with the strong count and the number of owned wakers of every task. -/
structure Refs where
  tcb : Tcb
  strong : Counts TaskId
  owned : TaskId → Nat

/-- The steps of the thread, with the calls of the `Waker` functions. -/
inductive RefEvent
  | spawn
  | spawnLocal
  | start
  | pop (t : TaskId)
  | skip (t : TaskId)
  | done
  | ret (t : TaskId) (r : Poll)
  | cloneWaker (t : TaskId)
  | wake (t : TaskId)
  | wakeByRef (t : TaskId)
  | dropWaker (t : TaskId)
  deriving DecidableEq, Repr

namespace Refs

def new : Refs := ⟨Tcb.new, fun _ => 0, fun _ => 0⟩

/-- `Task::poll` from the return of the future on; its `Rc` goes at the end. -/
def leave (t : TaskId) (r : Poll) (s : Refs) : Option Refs := do
  s.strong.deref t
  let strong ← s.strong.cloneIf (r = .pending ∧ s.tcb.state t = .notified) t
  let strong ← strong.drop t
  return { s with tcb := Task.leave t r { s.tcb with frames := s.tcb.frames.tail }, strong }

/-- `Task::wake` -/
def taskWake (t : TaskId) (s : Refs) : Option Refs := do
  s.strong.deref t
  let strong ← s.strong.cloneIf (s.tcb.state t = .idle) t
  return { s with tcb := Task.wake t s.tcb, strong }

/-- `clone_waker`: the `Rc` made of the pointer is forgotten, the clone goes to the new waker. -/
def cloneWaker (t : TaskId) (s : Refs) : Option Refs := do
  let strong ← s.strong.clone t
  return { s with strong, owned := Function.update s.owned t (s.owned t + 1) }

/-- `drop_waker` -/
def dropWaker (t : TaskId) (s : Refs) : Option Refs := do
  let strong ← s.strong.drop t
  return { s with strong, owned := Function.update s.owned t (s.owned t - 1) }

/-- `wake`: the `Rc` made of the pointer is dropped at the end. -/
def wake (t : TaskId) (s : Refs) : Option Refs := do
  let s ← s.taskWake t
  s.dropWaker t

/-- `wake_by_ref`: the `Rc` made of the pointer is forgotten. -/
def wakeByRef (t : TaskId) (s : Refs) : Option Refs := s.taskWake t

/-- What a step does; `none` is an access to a task that is gone. -/
def perform (s : Refs) : RefEvent → Option Refs
  | .spawn => some { s with tcb := s.tcb.spawn, strong := s.strong.alloc s.tcb.tasks }
  | .spawnLocal => some { s with
      tcb := Task.enter s.tcb.tasks s.tcb.newTask, strong := s.strong.alloc s.tcb.tasks }
  | .start => some { s with tcb := { s.tcb with polling := true } }
  | .pop t => do
    s.strong.deref t
    return { s with tcb := Task.enter t { s.tcb with runq := s.tcb.runq.tail } }
  | .skip t => do
    s.strong.deref t
    let strong ← s.strong.drop t
    return { s with tcb := { s.tcb with runq := s.tcb.runq.tail }, strong }
  | .done => some { s with tcb := { s.tcb with polling := false } }
  | .ret t r => s.leave t r
  | .cloneWaker t => s.cloneWaker t
  | .wake t => s.wake t
  | .wakeByRef t => s.wakeByRef t
  | .dropWaker t => s.dropWaker t

/-- The order of the steps of `Tcb::poll`, and the contract of `Waker`: a waker is called by
its owner, or through the reference that the future of a `Task::poll` call has. -/
def Enabled (s : Refs) : RefEvent → Prop
  | .spawn | .spawnLocal => True
  | .start => s.tcb.frames = [] ∧ s.tcb.polling = false
  | .pop t => s.tcb.frames = [] ∧ s.tcb.polling ∧ s.tcb.runq.head? = some t ∧
      s.tcb.state t ≠ .running
  | .skip t => s.tcb.frames = [] ∧ s.tcb.polling ∧ s.tcb.runq.head? = some t ∧
      s.tcb.state t = .running
  | .done => s.tcb.frames = [] ∧ s.tcb.polling ∧ s.tcb.runq = []
  | .ret t _ => s.tcb.frames.head? = some t
  | .cloneWaker t | .wakeByRef t => 0 < s.owned t ∨ t ∈ s.tcb.frames
  | .wake t | .dropWaker t => 0 < s.owned t

instance (s : Refs) : (e : RefEvent) → Decidable (s.Enabled e)
  | .spawn | .spawnLocal => isTrue trivial
  | .start | .pop _ | .skip _ | .done => inferInstanceAs (Decidable (_ ∧ _))
  | .ret _ _ => inferInstanceAs (Decidable (_ = _))
  | .cloneWaker _ | .wakeByRef _ => inferInstanceAs (Decidable (_ ∨ _))
  | .wake _ | .dropWaker _ => inferInstanceAs (Decidable (_ < _))

def next (s : Refs) (e : RefEvent) : Option Refs := if s.Enabled e then s.perform e else none

/-- Entries of the run queue, owned wakers and calls on the stack. -/
def holders (s : Refs) (t : TaskId) : Nat :=
  s.tcb.runq.count t + s.owned t + s.tcb.frames.count t

/-- The counts are exact, and only tasks that were made have holders. -/
structure Inv (s : Refs) : Prop where
  exact : s.strong.Exact s.holders
  created : ∀ t, 0 < s.holders t → t < s.tcb.tasks

theorem inv_new : new.Inv := ⟨fun _ => rfl, fun _ h => absurd h (Nat.lt_irrefl 0)⟩

variable {s u : Refs} {t : TaskId}

/-! ## What each step does to the holders -/

theorem holders_pos_of_owned (ht : 0 < s.owned t) : 0 < s.holders t := by
  unfold holders
  omega

theorem holders_pos_of_frames (ht : t ∈ s.tcb.frames) : 0 < s.holders t := by
  have := List.count_pos_iff.mpr ht
  unfold holders
  omega

theorem holders_pos_of_runq (ht : t ∈ s.tcb.runq) : 0 < s.holders t := by
  have := List.count_pos_iff.mpr ht
  unfold holders
  omega

/-- Counts and holders of one task change together. -/
theorem Inv.change (h : s.Inv) (ht : 0 < s.holders t) (hexact : u.strong.Exact u.holders)
    (htasks : u.tcb.tasks = s.tcb.tasks) (hsame : ∀ x, x ≠ t → u.holders x = s.holders x) :
    u.Inv := by
  refine ⟨hexact, fun x hx => ?_⟩
  rw [htasks]
  by_cases he : x = t
  · exact he ▸ h.created t ht
  · exact h.created x (hsame x he ▸ hx)

theorem count_snoc (l : List TaskId) (t x : TaskId) :
    (l ++ [t]).count x = l.count x + if t = x then 1 else 0 := by
  simp [List.count_append, List.count_singleton]

theorem count_tail {l : List TaskId} (h : l.head? = some t) (x : TaskId) :
    l.count x = l.tail.count x + if t = x then 1 else 0 := by
  rw [← List.cons_head?_tail h]
  simp [List.count_cons]

/-- A wake of an idle task makes an entry in the run queue. -/
theorem count_wake (t : TaskId) (s : Tcb) (x : TaskId) :
    (Task.wake t s).runq.count x = s.runq.count x + if s.state t = .idle ∧ t = x then 1 else 0 := by
  unfold Task.wake
  cases hst : s.state t with
  | idle => simpa using count_snoc s.runq t x
  | running | notified | ready => simp

/-- So does the return of a future that was woken while it ran. -/
theorem count_leave (t : TaskId) (r : Poll) (s : Tcb) (x : TaskId) :
    (Task.leave t r s).runq.count x =
      s.runq.count x + if (r = .pending ∧ s.state t = .notified) ∧ t = x then 1 else 0 := by
  unfold Task.leave
  cases r with
  | ready => simp
  | pending =>
    by_cases hst : s.state t = .notified
    · simpa [hst] using count_snoc s.runq t x
    · simp [hst]

/-! ## No step finds a task gone -/

theorem taskWake_ok (h : s.Inv) (ht : 0 < s.holders t) :
    ∃ u, s.taskWake t = some u ∧ u.Inv ∧ u.owned = s.owned ∧ u.tcb = Task.wake t s.tcb := by
  have hmore : ∀ x, holders ⟨Task.wake t s.tcb, s.strong, s.owned⟩ x =
      s.holders x + if s.tcb.state t = .idle ∧ t = x then 1 else 0 := by
    intro x
    simp only [holders, count_wake, Task.frames_wake]
    omega
  obtain ⟨strong, hclone, hexact⟩ := h.exact.cloneIf ht hmore
  refine ⟨⟨Task.wake t s.tcb, strong, s.owned⟩, ?_, ?_, rfl, rfl⟩
  · unfold taskWake
    rw [h.exact.deref ht, hclone]
    rfl
  · refine h.change ht hexact (Task.tasks_wake t s.tcb) fun x hx => ?_
    simp [holders, count_wake, Task.frames_wake, Ne.symm hx]

theorem cloneWaker_ok (h : s.Inv) (ht : 0 < s.holders t) :
    ∃ u, s.cloneWaker t = some u ∧ u.Inv ∧ u.tcb = s.tcb := by
  have hmore : Counts.OneMore t s.holders
      (holders { s with owned := Function.update s.owned t (s.owned t + 1) }) := by
    intro x
    by_cases hx : x = t
    · simp only [holders, hx, Function.update_self, if_pos]
      omega
    · simp [holders, Function.update_of_ne hx, Ne.symm hx]
  obtain ⟨strong, hclone, hexact⟩ := h.exact.clone ht hmore
  refine ⟨_, ?_, h.change (u := { s with strong, owned := _ }) ht hexact rfl
    fun x hx => hmore.other hx, rfl⟩
  unfold cloneWaker
  rw [hclone]
  rfl

theorem dropWaker_ok (h : s.Inv) (ht : 0 < s.owned t) :
    ∃ u, s.dropWaker t = some u ∧ u.Inv ∧ u.tcb = s.tcb := by
  have hmore : Counts.OneMore t
      (holders { s with owned := Function.update s.owned t (s.owned t - 1) }) s.holders := by
    intro x
    by_cases hx : x = t
    · simp only [holders, hx, Function.update_self, if_pos]
      omega
    · simp [holders, Function.update_of_ne hx, Ne.symm hx]
  obtain ⟨strong, hdrop, hexact⟩ := h.exact.drop hmore
  refine ⟨_, ?_, h.change (u := { s with strong, owned := _ }) (holders_pos_of_owned ht) hexact rfl
    fun x hx => (hmore.other hx).symm, rfl⟩
  unfold dropWaker
  rw [hdrop]
  rfl

theorem wake_ok (h : s.Inv) (ht : 0 < s.owned t) :
    ∃ u, s.wake t = some u ∧ u.Inv ∧ u.tcb = Task.wake t s.tcb := by
  obtain ⟨v, hwake, hv, howned, htcb⟩ := taskWake_ok h (holders_pos_of_owned ht)
  obtain ⟨u, hdrop, hu, hsame⟩ := dropWaker_ok hv (howned ▸ ht)
  refine ⟨u, ?_, hu, hsame.trans htcb⟩
  rw [wake, hwake]
  exact hdrop

theorem leave_ok (h : s.Inv) (r : Poll) (ht : s.tcb.frames.head? = some t) :
    ∃ u, s.leave t r = some u ∧ u.Inv ∧
      u.tcb = Task.leave t r { s.tcb with frames := s.tcb.frames.tail } := by
  have hpos := holders_pos_of_frames (List.mem_of_mem_head? ht)
  let rest : Tcb := { s.tcb with frames := s.tcb.frames.tail }
  have hrest : ∀ x, s.holders x = s.tcb.runq.count x + s.owned x + rest.frames.count x +
      if t = x then 1 else 0 := fun x => by
    simp only [holders, count_tail ht x, rest]
    omega
  -- the entry of the run queue comes first, then the call ends
  obtain ⟨pushed, hclone, hexact⟩ := h.exact.cloneIf
    (p := r = .pending ∧ s.tcb.state t = .notified) hpos (fun x => rfl)
  have hmore : ∀ x, s.holders x +
      (if (r = .pending ∧ s.tcb.state t = .notified) ∧ t = x then 1 else 0) =
      holders ⟨Task.leave t r rest, pushed, s.owned⟩ x + if t = x then 1 else 0 := by
    intro x
    rw [hrest x]
    simp only [holders, count_leave, Task.frames_leave]
    simp only [rest]
    omega
  obtain ⟨strong, hdrop, hexact⟩ := hexact.drop hmore
  refine ⟨⟨Task.leave t r rest, strong, s.owned⟩, ?_, ?_, rfl⟩
  · unfold leave
    rw [h.exact.deref hpos, hclone]
    simp only [Option.bind_eq_bind, Option.bind_some, hdrop]
    rfl
  · refine h.change hpos hexact (Task.tasks_leave t r rest) fun x hx => ?_
    have hx' := hmore x
    simp only [Ne.symm hx, and_false, if_false, Nat.add_zero] at hx'
    exact hx'.symm

/-- Making a task: its one reference goes to the queue or to the stack. -/
theorem made_ok (h : s.Inv) {tcb : Tcb} (htasks : tcb.tasks = s.tcb.tasks + 1)
    (hcount : ∀ x, holders ⟨tcb, s.strong.alloc s.tcb.tasks, s.owned⟩ x =
      s.holders x + if s.tcb.tasks = x then 1 else 0) :
    Inv ⟨tcb, s.strong.alloc s.tcb.tasks, s.owned⟩ := by
  have hnone : s.holders s.tcb.tasks = 0 := by
    by_contra hpos
    exact Nat.lt_irrefl _ (h.created _ (Nat.pos_of_ne_zero hpos))
  refine ⟨h.exact.alloc hnone hcount, fun x hx => ?_⟩
  rw [hcount x] at hx
  rw [htasks]
  split at hx
  · rename_i he
    exact he ▸ Nat.lt_succ_self _
  · exact Nat.lt_succ_of_lt (h.created x hx)

theorem pop_ok (h : s.Inv) (hhead : s.tcb.runq.head? = some t) :
    ∃ u, s.perform (.pop t) = some u ∧ u.Inv ∧
      u.tcb = Task.enter t { s.tcb with runq := s.tcb.runq.tail } := by
  have hpos := holders_pos_of_runq (List.mem_of_mem_head? hhead)
  let tcb := Task.enter t { s.tcb with runq := s.tcb.runq.tail }
  have hsame : ∀ x, holders ⟨tcb, s.strong, s.owned⟩ x = s.holders x := by
    intro x
    simp only [tcb, holders, Task.enter, List.count_cons, beq_iff_eq, count_tail hhead x]
    omega
  refine ⟨⟨tcb, s.strong, s.owned⟩, ?_, h.change hpos (fun x => ?_) rfl fun x _ => hsame x, rfl⟩
  · rw [perform, h.exact.deref hpos]
    rfl
  · exact (h.exact x).trans (hsame x).symm

theorem skip_ok (h : s.Inv) (hhead : s.tcb.runq.head? = some t) :
    ∃ u, s.perform (.skip t) = some u ∧ u.Inv ∧
      u.tcb = { s.tcb with runq := s.tcb.runq.tail } := by
  have hpos := holders_pos_of_runq (List.mem_of_mem_head? hhead)
  let tcb : Tcb := { s.tcb with runq := s.tcb.runq.tail }
  have hmore : Counts.OneMore t (holders ⟨tcb, s.strong, s.owned⟩) s.holders := by
    intro x
    simp only [tcb, holders, count_tail hhead x]
    omega
  obtain ⟨strong, hdrop, hexact⟩ := h.exact.drop hmore
  refine ⟨⟨tcb, strong, s.owned⟩, ?_,
    h.change hpos hexact rfl fun x hx => (hmore.other hx).symm, rfl⟩
  simp only [perform, h.exact.deref hpos, Option.bind_eq_bind, Option.bind_some, hdrop]
  rfl

/-- What an event does to the control block. -/
def tcbAfter (s : Tcb) : RefEvent → Tcb
  | .spawn => s.spawn
  | .spawnLocal => Task.enter s.tasks s.newTask
  | .start => { s with polling := true }
  | .pop t => Task.enter t { s with runq := s.runq.tail }
  | .skip _ => { s with runq := s.runq.tail }
  | .done => { s with polling := false }
  | .ret t r => Task.leave t r { s with frames := s.frames.tail }
  | .wake t | .wakeByRef t => Task.wake t s
  | .cloneWaker _ | .dropWaker _ => s

theorem perform_ok (h : s.Inv) {e : RefEvent} (hen : s.Enabled e) :
    ∃ u, s.perform e = some u ∧ u.Inv ∧ u.tcb = tcbAfter s.tcb e := by
  cases e with
  | spawn =>
    refine ⟨_, rfl, made_ok h rfl fun x => ?_, rfl⟩
    simp only [holders, Tcb.spawn, Tcb.newTask, count_snoc]
    omega
  | spawnLocal =>
    refine ⟨_, rfl, made_ok h rfl fun x => ?_, rfl⟩
    simp only [holders, Task.enter, Tcb.newTask, List.count_cons, beq_iff_eq]
    omega
  | start | done => exact ⟨_, rfl, ⟨h.exact, h.created⟩, rfl⟩
  | pop t => exact pop_ok h hen.2.2.1
  | skip t => exact skip_ok h hen.2.2.1
  | ret t r => exact leave_ok h r hen
  | cloneWaker t => exact cloneWaker_ok h (hen.elim holders_pos_of_owned holders_pos_of_frames)
  | wake t => exact wake_ok h hen
  | wakeByRef t =>
    obtain ⟨u, hu, hinv, _, htcb⟩ :=
      taskWake_ok h (hen.elim holders_pos_of_owned holders_pos_of_frames)
    exact ⟨u, hu, hinv, htcb⟩
  | dropWaker t => exact dropWaker_ok h hen

theorem next_ok (h : s.Inv) {e : RefEvent} (hn : s.next e = some u) :
    s.Enabled e ∧ u.Inv ∧ u.tcb = tcbAfter s.tcb e := by
  unfold next at hn
  split at hn
  · rename_i hen
    obtain ⟨w, hw, hinv, htcb⟩ := perform_ok h hen
    cases hw.symm.trans hn
    exact ⟨hen, hinv, htcb⟩
  · cases hn

/-- The event of the thread behind one that is not a mere change of a count. -/
def eventOf (s : Tcb) : RefEvent → Option Event
  | .spawn => some (.spawn s.tasks)
  | .spawnLocal => some (.spawnLocal s.tasks)
  | .start => some .start
  | .pop t => some (.pop t)
  | .skip t => some (.skip t)
  | .done => some .done
  | .ret t r => some (.ret t r)
  | .wake t | .wakeByRef t => some (.wake t)
  | .cloneWaker _ | .dropWaker _ => none

/-- Steps that code takes which runs on the thread. -/
def byCode : RefEvent → Bool
  | .spawn | .spawnLocal | .wake _ | .wakeByRef _ => true
  | _ => false

/-- As long as no destructor runs between two polls, the counted thread takes the steps of the
one without counts: a waker that can be called belongs to a task that was made. -/
theorem next_tcb (h : s.Inv) {e : RefEvent} (hn : s.next e = some u)
    (hcode : byCode e = true → s.tcb.active = true) :
    match eventOf s.tcb e with
    | some ev => Runtime.next s.tcb ev = some u.tcb
    | none => u.tcb = s.tcb := by
  obtain ⟨hen, _, htcb⟩ := next_ok h hn
  cases e with
  | spawn | spawnLocal => simp [eventOf, Runtime.next, hcode rfl, htcb, tcbAfter]
  | wake t =>
    have hmade := h.created t (holders_pos_of_owned hen)
    simp [eventOf, Runtime.next, hcode rfl, htcb, tcbAfter, hmade]
  | wakeByRef t =>
    have hmade := h.created t (hen.elim holders_pos_of_owned holders_pos_of_frames)
    simp [eventOf, Runtime.next, hcode rfl, htcb, tcbAfter, hmade]
  | start | pop t | skip t | done | ret t r =>
    simp only [Enabled] at hen
    simp [eventOf, Runtime.next, htcb, tcbAfter, hen]
  | cloneWaker t | dropWaker t => exact htcb

theorem run_inv {es : List RefEvent} (h : run next new es = some s) : s.Inv :=
  run_always (I := Inv) inv_new (fun _ _ _ hv hn => (next_ok hv hn).2.1) h

/-- **Waker reference counts are exact.** In every run of spawns, polls and calls of the
`Waker` functions that their contract allows: the strong count of every task is the number of
its entries in the run queue, of its owned wakers and of the `Task::poll` calls that hold it;
it is zero if and only if there is none of these; and no step that can come next accesses a
task whose count is zero. -/
theorem strong_exact {es : List RefEvent} (h : run next new es = some s) :
    (∀ t, s.strong t = s.tcb.runq.count t + s.owned t + s.tcb.frames.count t) ∧
    (∀ t, s.strong t = 0 ↔ t ∉ s.tcb.runq ∧ s.owned t = 0 ∧ t ∉ s.tcb.frames) ∧
    ∀ e, s.Enabled e → ∃ u, s.perform e = some u := by
  have hinv := run_inv h
  refine ⟨hinv.exact, fun t => ?_, fun e hen => ?_⟩
  · rw [hinv.exact t, holders, ← List.count_eq_zero, ← List.count_eq_zero]
    omega
  · obtain ⟨u, hu, _⟩ := perform_ok hinv hen
    exact ⟨u, hu⟩

/-- A future leaves two wakers behind; one of them wakes the task, which ends, and the other is
dropped last. -/
theorem strong_exact_twoWakers : ∃ s, run next new [.spawn, .start, .pop 0, .cloneWaker 0,
      .cloneWaker 0, .ret 0 .pending, .wake 0, .pop 0, .ret 0 .ready, .dropWaker 0] = some s ∧
    s.strong 0 = 0 ∧ (∀ t, s.strong t = s.tcb.runq.count t + s.owned t + s.tcb.frames.count t) := by
  have hrun : (run next new [.spawn, .start, .pop 0, .cloneWaker 0, .cloneWaker 0,
      .ret 0 .pending, .wake 0, .pop 0, .ret 0 .ready, .dropWaker 0]).isSome := by decide
  obtain ⟨s, hs⟩ := Option.isSome_iff_exists.mp hrun
  have hzero : (run next new [.spawn, .start, .pop 0, .cloneWaker 0, .cloneWaker 0,
      .ret 0 .pending, .wake 0, .pop 0, .ret 0 .ready, .dropWaker 0]).map (·.strong 0) =
        some 0 := by decide
  rw [hs] at hzero
  exact ⟨s, hs, Option.some.inj hzero, (strong_exact hs).1⟩

end Refs

end Ironspdk.Runtime
