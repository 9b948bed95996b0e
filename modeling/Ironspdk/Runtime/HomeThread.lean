import Ironspdk.Runtime.System

/-! # Tasks and their threads

A future may only be polled on the thread it was spawned on. Its waker carries the task
alone, and `Task::wake` queues the task with the thread that calls the waker: tasks stay at
home as long as other threads wake none that is idle. -/
namespace Ironspdk.Runtime
open Ironspdk.Lib

namespace System

/-- The future that a step polls, and the reactor it is polled on. -/
def polls (s : System) : SystemEvent → Option (ReactorId × TaskId)
  | .pop r t => some (r, t)
  | .spawnLocal r => some (r, s.tasks)
  | _ => none

/-- A future is polled only while its target thread is the current one. -/
def PolledAtHome (s : System) (e : SystemEvent) : Prop :=
  ∀ u ∈ s.next e, ∀ c ∈ s.polls e, s.on c.1 = some (u.target c.2)

instance (s : System) (e : SystemEvent) : Decidable (s.PolledAtHome e) :=
  inferInstanceAs (Decidable (∀ u ∈ s.next e, ∀ c ∈ s.polls e, s.on c.1 = some (u.target c.2)))

/-- No thread but its target calls the waker of an idle task, unless the calling thread is
exiting. -/
def WakesAtHome (s : System) : SystemEvent → Prop
  | .wake r t => ∀ θ ∈ s.active r, s.running θ = true → θ ≠ s.target t → s.state t ≠ .idle
  | _ => True

instance (s : System) : (e : SystemEvent) → Decidable (s.WakesAtHome e)
  | .wake r t => inferInstanceAs (Decidable
      (∀ θ ∈ s.active r, s.running θ = true → θ ≠ s.target t → s.state t ≠ .idle))
  | .create _ | .destroy _ | .enter _ _ | .leave _ | .send _ _ | .message _ | .current _
  | .spawnLocal _ | .start _ _ | .pop _ _ | .skip _ _ | .done _ | .ret _ _ _ => isTrue trivial

/-- Queued tasks and tasks on a stack are where they were spawned. -/
structure AtHome (s : System) : Prop where
  wf : s.Wf
  queued : ∀ p, ∀ t ∈ s.runq p, p < s.tcbs ∧ s.target t = s.home p ∧ t < s.tasks
  framed : ∀ θ, ∀ t ∈ s.frames θ, s.target t = θ ∧ t < s.tasks

theorem atHome_start : start.AtHome := ⟨wf_start, by simp [start], by simp [start]⟩

/-- A step keeps tasks at home when the entries it adds, to a queue or to a stack, are. -/
theorem AtHome.move {s u : System} (h : s.AtHome) (hw : u.Wf)
    (hhome : ∀ p < s.tcbs, p < u.tcbs ∧ u.home p = s.home p)
    (htarget : ∀ t < s.tasks, t < u.tasks ∧ u.target t = s.target t)
    (hrunq : ∀ p, ∀ t ∈ u.runq p, t ∈ s.runq p ∨
      p < u.tcbs ∧ u.target t = u.home p ∧ t < u.tasks)
    (hframes : ∀ θ, ∀ t ∈ u.frames θ, t ∈ s.frames θ ∨ u.target t = θ ∧ t < u.tasks) :
    u.AtHome := by
  refine ⟨hw, fun p t ht => ?_, fun θ t ht => ?_⟩
  · rcases hrunq p t ht with ht | ht
    · obtain ⟨hp, htgt, hlt⟩ := h.queued p t ht
      obtain ⟨hp', hp''⟩ := hhome p hp
      obtain ⟨ht', ht''⟩ := htarget t hlt
      exact ⟨hp', by rw [ht'', hp'', htgt], ht'⟩
    · exact ht
  · rcases hframes θ t ht with ht | ht
    · obtain ⟨htgt, hlt⟩ := h.framed θ t ht
      obtain ⟨ht', ht''⟩ := htarget t hlt
      exact ⟨ht''.trans htgt, ht'⟩
    · exact ht

section steps
variable {s u : System} {r : ReactorId} {θ : ThreadId} {p : TcbPtr} {t : TaskId}

theorem mem_update {α : Type} {f : Nat → List α} {k j : Nat} {l : List α} {x : α}
    (h : x ∈ Function.update f k l j) : x ∈ f j ∨ j = k ∧ x ∈ l := by
  by_cases he : j = k
  · rw [he, Function.update_self] at h
    exact Or.inr ⟨he, h⟩
  · rw [Function.update_of_ne he] at h
    exact Or.inl h

/-- What a thread does with the run queue of a control block of its own: the task it may
queue is one of its own. -/
theorem AtHome.onTcb (h : s.AtHome) (hp : p < s.tcbs) (hhome : s.home p = θ) {f : Tcb → Tcb}
    (htasks : (f (s.view θ (s.runq p))).tasks = s.tasks)
    (hrunq : ∀ k ∈ (f (s.view θ (s.runq p))).runq, k ∈ s.runq p ∨ s.target k = θ ∧ k < s.tasks)
    (hframes : ∀ k ∈ (f (s.view θ (s.runq p))).frames,
      k ∈ s.frames θ ∨ s.target k = θ ∧ k < s.tasks) : (s.onTcb θ p f).AtHome := by
  have hlt : ∀ {k}, k < s.tasks → k < (s.onTcb θ p f).tasks := fun hk =>
    Nat.lt_of_lt_of_eq hk htasks.symm
  refine h.move ⟨h.wf.blocks, h.wf.polling⟩ (fun q hq => ⟨hq, rfl⟩) (fun k hk => ⟨hlt hk, rfl⟩)
    (fun q k hk => ?_) fun η k hk => ?_
  · rcases mem_update hk with hk | ⟨rfl, hk⟩
    · exact Or.inl hk
    · exact (hrunq k hk).imp_right fun ⟨htgt, hk⟩ => ⟨hp, htgt.trans hhome.symm, hlt hk⟩
  · rcases mem_update hk with hk | ⟨rfl, hk⟩
    · exact Or.inl hk
    · exact (hframes k hk).imp_right fun ⟨htgt, hk⟩ => ⟨htgt, hlt hk⟩

theorem AtHome.current (h : s.AtHome) (hr : s.on r = some θ) : (s.current r θ).AtHome :=
  h.move (h.wf.current hr) (fun _ hq => Blocks.current_old r θ hq) (fun _ hk => ⟨hk, rfl⟩)
    (fun _ _ hk => Or.inl hk) fun _ _ hk => Or.inl hk

theorem AtHome.shutdown (h : s.AtHome) (hp : p < s.tcbs) (hhome : s.home p = θ) :
    (s.shutdown p θ).AtHome := by
  refine h.move (h.wf.shutdown hp hhome) (fun _ hq => ⟨hq, rfl⟩) (fun _ hk => ⟨hk, rfl⟩)
    (fun q k hk => ?_) fun _ _ hk => Or.inl hk
  rcases mem_update hk with hk | ⟨_, hk⟩
  · exact Or.inl hk
  · cases hk

theorem AtHome.wake (h : s.AtHome) (hr : s.active r = some θ) (ht : t < s.tasks)
    (hok : s.WakesAtHome (.wake r t)) : (s.wake r θ t).AtHome := by
  have hc := h.current (active_on hr)
  obtain ⟨hp, hhome⟩ := h.wf.blocks.current_home r (h.wf.alive (active_on hr))
  unfold System.wake
  simp only
  split
  · rename_i hrun
    have hrun : s.running θ = true := (Blocks.current_threads r θ s.toBlocks).2.1 ▸ hrun
    refine hc.onTcb hp hhome (Task.tasks_wake t _) (fun k hk => ?_) fun k hk => Or.inl ?_
    · rcases Task.runq_wake hk with hk | ⟨rfl, hidle⟩
      · exact Or.inl hk
      · -- an idle task that is woken here has its target here
        refine Or.inr ⟨?_, ht⟩
        by_contra hne
        exact hok θ hr hrun (Ne.symm hne) hidle
    · rwa [Task.frames_wake] at hk
  · exact hc.shutdown hp hhome

theorem AtHome.leaveTask (h : s.AtHome) (hr : s.on r = some θ)
    (hhead : (s.frames θ).head? = some t) (result : Poll) :
    (s.leaveTask r θ t result).AtHome := by
  obtain ⟨htgt, hlt⟩ := h.framed θ t (List.mem_of_mem_head? hhead)
  obtain ⟨hp, hhome⟩ := h.wf.blocks.current_home r (h.wf.alive hr)
  unfold System.leaveTask
  simp only
  split
  · refine (h.current hr).onTcb hp hhome (Task.tasks_leave t result _) (fun k hk => ?_)
      fun k hk => Or.inl ?_
    · rcases Task.runq_leave hk with hk | rfl
      · exact Or.inl hk
      · exact Or.inr ⟨htgt, hlt⟩
    · rw [Task.frames_leave] at hk
      exact List.mem_of_mem_tail hk
  · have htasks :
        (s.onStack θ fun b => Task.leave t result { b with frames := b.frames.tail }).tasks =
          s.tasks := Task.tasks_leave t result _
    refine h.move ⟨h.wf.blocks, h.wf.polling⟩ (fun _ hq => ⟨hq, rfl⟩)
      (fun k hk => ⟨Nat.lt_of_lt_of_eq hk htasks.symm, rfl⟩) (fun _ _ hk => Or.inl hk)
      fun η k hk => Or.inl ?_
    rcases mem_update hk with hk | ⟨rfl, hk⟩
    · exact hk
    · rw [Task.frames_leave] at hk
      exact List.mem_of_mem_tail hk

/-- A new task, with the thread that makes it as its target. -/
theorem AtHome.newTask (h : s.AtHome) (hw : u.Wf)
    (hhome : ∀ p < s.tcbs, p < u.tcbs ∧ u.home p = s.home p)
    (htasks : u.tasks = s.tasks + 1) (htarget : u.target = Function.update s.target s.tasks θ)
    (hrunq : ∀ p, ∀ k ∈ u.runq p, k ∈ s.runq p ∨ p < u.tcbs ∧ u.home p = θ ∧ k = s.tasks)
    (hframes : ∀ η, ∀ k ∈ u.frames η, k ∈ s.frames η ∨ η = θ ∧ k = s.tasks) : u.AtHome := by
  have hnew : u.target s.tasks = θ ∧ s.tasks < u.tasks := by
    rw [htarget, htasks]
    exact ⟨Function.update_self .., Nat.lt_succ_self _⟩
  refine h.move hw hhome (fun k hk => ?_) (fun p k hk => ?_) fun η k hk => ?_
  · rw [htasks, htarget, Function.update_of_ne (Nat.ne_of_lt hk)]
    exact ⟨Nat.lt_succ_of_lt hk, rfl⟩
  · refine (hrunq p k hk).imp_right fun ⟨hp, hh, he⟩ => ?_
    rw [he, hh]
    exact ⟨hp, hnew⟩
  · refine (hframes η k hk).imp_right fun ⟨hη, he⟩ => ?_
    rw [he, hη]
    exact hnew

end steps

theorem Step.atHome {s u : System} {e : SystemEvent} (hs : Step s e u) (h : s.AtHome)
    (hok : s.WakesAtHome e) : u.AtHome := by
  have hw := hs.wf h.wf
  have hframe : ∀ {v : System}, v.Wf → v.tcbs = s.tcbs → v.home = s.home → v.tasks = s.tasks →
      v.target = s.target → v.runq = s.runq → v.frames = s.frames → v.AtHome := by
    intro v hv hn hh ht htg hq hf
    refine h.move hv (fun q hqn => ⟨hn ▸ hqn, by rw [hh]⟩) (fun k hk => ⟨ht ▸ hk, by rw [htg]⟩)
      (fun q k hk => Or.inl (hq ▸ hk)) fun η k hk => Or.inl (hf ▸ hk)
  cases hs with
  | create hc =>
    unfold Blocks.create at hc
    split at hc <;> cases hc
    exact hframe hw rfl rfl rfl rfl rfl rfl
  | destroy hc =>
    unfold Blocks.destroy at hc
    split at hc <;> cases hc
    exact hframe hw rfl rfl rfl rfl rfl rfl
  | enter hc =>
    unfold Blocks.enter at hc
    split at hc <;> cases hc
    exact hframe hw rfl rfl rfl rfl rfl rfl
  | leave hr =>
    refine hframe hw ?_ ?_ rfl rfl rfl rfl <;> (unfold Blocks.leave; split <;> rfl)
  | message hr hbox =>
    rename_i r θ m rest
    cases m with
    | spawn =>
      obtain ⟨hp, hhome⟩ := h.wf.blocks.current_home r (h.wf.alive (between_on hr))
      refine h.newTask hw (fun q hq => Blocks.current_old r θ hq) rfl rfl (fun q k hk => ?_)
        fun η k hk => ?_
      · rcases mem_update hk with hk | ⟨rfl, hnew⟩
        · exact Or.inl hk
        · rcases List.mem_append.mp hnew with hk | hk
          · exact Or.inl hk
          · exact Or.inr ⟨hp, hhome, List.mem_singleton.mp hk⟩
      · rcases mem_update hk with hk | ⟨rfl, hk⟩
        · exact Or.inl hk
        · exact Or.inl hk
    | exit => exact hframe hw rfl rfl rfl rfl rfl rfl
  | current hr => exact h.current (active_on hr)
  | spawnLocal hr =>
    rename_i r θ
    refine h.newTask hw (fun q hq => ⟨hq, rfl⟩) rfl rfl (fun q k hk => Or.inl hk) fun η k hk => ?_
    rcases mem_update hk with hk | ⟨rfl, hk⟩
    · exact Or.inl hk
    · rcases List.mem_cons.mp hk with rfl | hk
      · exact Or.inr ⟨rfl, rfl⟩
      · exact Or.inl hk
  | stop hr hp hhome hrun => exact h.shutdown hp.1 hhome
  | pop hr hp hframes hhead hst =>
    rename_i r θ p t
    obtain ⟨hlt, hhome⟩ := h.wf.polling θ p hp
    obtain ⟨_, htgt, ht⟩ := h.queued p t (List.mem_of_mem_head? hhead)
    refine h.onTcb hlt hhome rfl (fun k hk => Or.inl (List.mem_of_mem_tail hk)) fun k hk => ?_
    rcases List.mem_cons.mp hk with rfl | hk
    · exact Or.inr ⟨htgt.trans hhome, ht⟩
    · exact Or.inl hk
  | skip hr hp hhead =>
    rename_i r θ p t
    obtain ⟨hlt, hhome⟩ := h.wf.polling θ p hp
    exact h.onTcb hlt hhome rfl (fun k hk => Or.inl (List.mem_of_mem_tail hk)) fun k hk => Or.inl hk
  | wake hr ht => exact h.wake hr ht hok
  | ret hr hhead => exact h.leaveTask hr hhead _
  | _ => exact hframe hw rfl rfl rfl rfl rfl rfl

theorem AtHome.polledAtHome {s : System} (h : s.AtHome) (e : SystemEvent) : s.PolledAtHome e := by
  intro u hn c hc
  have hs := next_step hn
  cases hs with
  | pop hr hp hframes hhead hst =>
    rename_i r θ p t
    cases hc
    obtain ⟨_, hhome⟩ := h.wf.polling θ p hp
    obtain ⟨_, htgt, _⟩ := h.queued p t (List.mem_of_mem_head? hhead)
    exact hr.trans (congrArg some (htgt.trans hhome).symm)
  | spawnLocal hr =>
    rename_i r θ
    cases hc
    exact (active_on hr).trans (congrArg some (Function.update_self s.tasks θ s.target).symm)
  | _ => cases hc

/-- **Tasks stay at home.** In any run of any threads in which only its target thread calls
the waker of an idle task (threads that are exiting apart), every future is polled only
while its target thread is the current one. -/
theorem stays_home {es : List SystemEvent} (h : Along next WakesAtHome start es) :
    Along next PolledAtHome start es :=
  along_of_invariant (I := AtHome) (fun _ _ _ ht hp hn => (next_step hn).atHome ht hp)
    (fun _ e _ ht _ _ => ht.polledAtHome e) atHome_start h

/-- Two threads, each on a reactor of its own; a task of the first waits for an I/O. -/
def twoThreads : List SystemEvent :=
  [.create 10, .create 20, .enter 0 1, .enter 1 2, .spawnLocal 0, .ret 0 0 .pending, .current 1]

/-- The first thread wakes the task and polls it. -/
theorem stays_home_woken :
    Along next PolledAtHome start (twoThreads ++ [.wake 0 0, .start 0 1, .pop 0 0]) ∧
      (run next start (twoThreads ++ [.wake 0 0, .start 0 1, .pop 0 0])).map (·.frames 1) =
        some [0] :=
  ⟨stays_home (by decide), by decide⟩

/-- The second thread calls the waker, and the task is polled there. -/
theorem polled_abroad :
    ¬ Along next PolledAtHome start (twoThreads ++ [.wake 1 0, .start 1 0, .pop 1 0]) ∧
      (run next start (twoThreads ++ [.wake 1 0, .start 1 0, .pop 1 0])).map
        (fun s => (s.target 0, s.frames 2)) = some (1, [0]) := by
  constructor <;> decide

end System

end Ironspdk.Runtime
