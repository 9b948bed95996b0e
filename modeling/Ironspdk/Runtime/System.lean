import Ironspdk.Runtime.Blocks
import Ironspdk.Runtime.Task

/-! # All SPDK threads of a process

Threads with their messages and run queues, on any number of reactors; what a thread does
with a task is what `Task` says of one thread. Code that runs on a thread may call any
waker, whichever thread its task is from. A step runs to the next point where other code
may come in between, on the same reactor or on another one: `Task::wake`, `Task::poll` up
to the future's own `poll`, and so on. A panic ends the process. -/
namespace Ironspdk.Runtime
open Ironspdk.Lib

/-- A closure that `SpdkThread::send_msg` sends: of `spawn`, or of `request_exit`. -/
inductive Message
  | spawn
  | exit
  deriving DecidableEq, Repr

/-- `frames` are the `Task::poll` calls on the stack of a thread, `polling` the control block
whose poller is in its loop; `target` is the thread that a task was spawned on. -/
structure System extends Blocks where
  inbox : ThreadId → List Message
  frames : ThreadId → List TaskId
  polling : ThreadId → Option TcbPtr
  runq : TcbPtr → List TaskId
  tasks : Nat
  state : TaskId → TaskState
  target : TaskId → ThreadId

/-- `enter` and `leave` say which thread a reactor runs; all labels with a reactor are steps
of its current thread. -/
inductive SystemEvent
  | create (key : ThreadKey)
  | destroy (θ : ThreadId)
  | enter (r : ReactorId) (θ : ThreadId)
  | leave (r : ReactorId)
  | send (θ : ThreadId) (m : Message)
  | message (r : ReactorId)
  | current (r : ReactorId)
  | spawnLocal (r : ReactorId)
  | start (r : ReactorId) (p : TcbPtr)
  | pop (r : ReactorId) (t : TaskId)
  | skip (r : ReactorId) (t : TaskId)
  | done (r : ReactorId)
  | wake (r : ReactorId) (t : TaskId)
  | ret (r : ReactorId) (t : TaskId) (result : Poll)
  deriving DecidableEq, Repr

namespace System

def start : System :=
  { Blocks.start with
    inbox := fun _ => [], frames := fun _ => [], polling := fun _ => none, runq := fun _ => []
    tasks := 0, state := fun _ => .idle, target := fun _ => 0 }

/-- The current thread of a reactor, when code other than the library's own loop runs on it. -/
def active (s : System) (r : ReactorId) : Option ThreadId :=
  (s.on r).filter fun θ => (s.polling θ).isNone || !(s.frames θ).isEmpty

/-- The current thread of a reactor, between two messages or pollers. -/
def between (s : System) (r : ReactorId) : Option ThreadId :=
  (s.on r).filter fun θ => (s.polling θ).isNone && (s.frames θ).isEmpty

/-- A thread as `Task` sees it, with the run queue it works on. -/
def view (s : System) (θ : ThreadId) (q : List TaskId) : Tcb :=
  ⟨q, s.state, s.tasks, s.frames θ, (s.polling θ).isSome⟩

def put (s : System) (θ : ThreadId) (b : Tcb) : System :=
  { s with state := b.state, tasks := b.tasks, frames := Function.update s.frames θ b.frames }

/-- What thread `θ` does with the run queue of `p`. -/
def onTcb (s : System) (θ : ThreadId) (p : TcbPtr) (f : Tcb → Tcb) : System :=
  let b := f (s.view θ (s.runq p))
  { s.put θ b with runq := Function.update s.runq p b.runq }

/-- What thread `θ` does without looking at a run queue. -/
def onStack (s : System) (θ : ThreadId) (f : Tcb → Tcb) : System := s.put θ (f (s.view θ []))

def current (s : System) (r : ReactorId) (θ : ThreadId) : System :=
  { s with toBlocks := (s.toBlocks.current r θ).2 }

/-- `Tcb::shutdown` of `p`: TLS apart, it clears the run queue as well. -/
def shutdown (s : System) (p : TcbPtr) (θ : ThreadId) : System :=
  { s with toBlocks := s.toBlocks.shutdown p θ, runq := Function.update s.runq p [] }

/-- What a message does: the future that `spawn` has sent is made here. -/
def handle (s : System) (r : ReactorId) (θ : ThreadId) : Message → System
  | .spawn =>
    { (s.current r θ).onTcb θ (s.toBlocks.current r θ).1 Tcb.spawn with
      target := Function.update s.target s.tasks θ }
  | .exit => { s with toBlocks := s.toBlocks.exit θ }

/-- `SpdkThread::spawn_local`, up to the future's own `poll`. -/
def spawnLocal (s : System) (θ : ThreadId) : System :=
  { s.onStack θ fun b => Task.enter b.tasks b.newTask with
    target := Function.update s.target s.tasks θ }

/-- `Task::wake`, called on thread `θ`. -/
def wake (s : System) (r : ReactorId) (θ : ThreadId) (t : TaskId) : System :=
  let p := (s.toBlocks.current r θ).1
  let s := s.current r θ
  if s.running θ = true then s.onTcb θ p (Task.wake t) else s.shutdown p θ

/-- The rest of `Task::poll`, which looks for the control block only to queue the task. -/
def leaveTask (s : System) (r : ReactorId) (θ : ThreadId) (t : TaskId) (result : Poll) : System :=
  let rest := fun b : Tcb => Task.leave t result { b with frames := b.frames.tail }
  if result = .pending ∧ s.state t = .notified then
    (s.current r θ).onTcb θ (s.toBlocks.current r θ).1 rest
  else s.onStack θ rest

def step (s : System) : SystemEvent → Option System
  | .create key => (s.toBlocks.create key).map fun b => { s with toBlocks := b }
  | .destroy θ => (s.toBlocks.destroy θ).map fun b => { s with toBlocks := b }
  | .enter r θ => (s.toBlocks.enter r θ).map fun b => { s with toBlocks := b }
  | .leave r => (s.between r).map fun _ => { s with toBlocks := s.toBlocks.leave r }
  | .send θ m =>
    if s.alive θ = true then
      some { s with inbox := Function.update s.inbox θ (s.inbox θ ++ [m]) }
    else none
  | .message r => do
    let θ ← s.between r
    match s.inbox θ with
    | [] => none
    | m :: rest => some ({ s with inbox := Function.update s.inbox θ rest }.handle r θ m)
  | .current r => (s.active r).map (s.current r)
  | .spawnLocal r => (s.active r).map s.spawnLocal
  | .start r p => do
    let θ ← s.between r
    if s.Registered p ∧ s.home p = θ then
      some (if s.running θ = true then
        { s with polling := Function.update s.polling θ (some p) } else s.shutdown p θ)
    else none
  | .pop r t => do
    let θ ← s.on r
    let p ← s.polling θ
    if s.frames θ = [] ∧ (s.runq p).head? = some t ∧ s.state t ≠ .running then
      some (s.onTcb θ p fun b => Task.enter t { b with runq := b.runq.tail })
    else none
  | .skip r t => do
    let θ ← s.on r
    let p ← s.polling θ
    if s.frames θ = [] ∧ (s.runq p).head? = some t ∧ s.state t = .running then
      some (s.onTcb θ p fun b => { b with runq := b.runq.tail })
    else none
  | .done r => do
    let θ ← s.on r
    let p ← s.polling θ
    if s.frames θ = [] ∧ s.runq p = [] then
      some { s with polling := Function.update s.polling θ none }
    else none
  | .wake r t => do
    let θ ← s.active r
    if t < s.tasks then some (s.wake r θ t) else none
  | .ret r t result => do
    let θ ← s.on r
    if (s.frames θ).head? = some t then some (s.leaveTask r θ t result) else none

def next (s : System) (e : SystemEvent) : Option System := if s.Panicked then none else s.step e

/-- The calls of `Tcb::current` that a step makes. -/
def calls (s : System) : SystemEvent → Option (ReactorId × ThreadId)
  | .current r | .wake r _ => (s.active r).map (r, ·)
  | .message r => ((s.between r).filter fun θ => (s.inbox θ).head? = some .spawn).map (r, ·)
  | .ret r t .pending => if s.state t = .notified then (s.on r).map (r, ·) else none
  | _ => none

/-! ## What a step does -/

inductive Step (s : System) : SystemEvent → System → Prop
  | create {key : ThreadKey} {b : Blocks} (h : s.toBlocks.create key = some b) :
      Step s (.create key) { s with toBlocks := b }
  | destroy {θ : ThreadId} {b : Blocks} (h : s.toBlocks.destroy θ = some b) :
      Step s (.destroy θ) { s with toBlocks := b }
  | enter {r : ReactorId} {θ : ThreadId} {b : Blocks} (h : s.toBlocks.enter r θ = some b) :
      Step s (.enter r θ) { s with toBlocks := b }
  | leave {r : ReactorId} {θ : ThreadId} (hr : s.between r = some θ) :
      Step s (.leave r) { s with toBlocks := s.toBlocks.leave r }
  | send {θ : ThreadId} {m : Message} (ha : s.alive θ = true) :
      Step s (.send θ m) { s with inbox := Function.update s.inbox θ (s.inbox θ ++ [m]) }
  | message {r : ReactorId} {θ : ThreadId} {m : Message} {rest : List Message}
      (hr : s.between r = some θ) (hbox : s.inbox θ = m :: rest) :
      Step s (.message r) ({ s with inbox := Function.update s.inbox θ rest }.handle r θ m)
  | current {r : ReactorId} {θ : ThreadId} (hr : s.active r = some θ) :
      Step s (.current r) (s.current r θ)
  | spawnLocal {r : ReactorId} {θ : ThreadId} (hr : s.active r = some θ) :
      Step s (.spawnLocal r) (s.spawnLocal θ)
  | start {r : ReactorId} {θ : ThreadId} {p : TcbPtr} (hr : s.between r = some θ)
      (hp : s.Registered p) (hhome : s.home p = θ) (hrun : s.running θ = true) :
      Step s (.start r p) { s with polling := Function.update s.polling θ (some p) }
  | stop {r : ReactorId} {θ : ThreadId} {p : TcbPtr} (hr : s.between r = some θ)
      (hp : s.Registered p) (hhome : s.home p = θ) (hrun : s.running θ = false) :
      Step s (.start r p) (s.shutdown p θ)
  | pop {r : ReactorId} {θ : ThreadId} {p : TcbPtr} {t : TaskId} (hr : s.on r = some θ)
      (hp : s.polling θ = some p) (hframes : s.frames θ = []) (hhead : (s.runq p).head? = some t)
      (hst : s.state t ≠ .running) :
      Step s (.pop r t) (s.onTcb θ p fun b => Task.enter t { b with runq := b.runq.tail })
  | skip {r : ReactorId} {θ : ThreadId} {p : TcbPtr} {t : TaskId} (hr : s.on r = some θ)
      (hp : s.polling θ = some p) (hhead : (s.runq p).head? = some t) :
      Step s (.skip r t) (s.onTcb θ p fun b => { b with runq := b.runq.tail })
  | done {r : ReactorId} {θ : ThreadId} (hr : s.on r = some θ) :
      Step s (.done r) { s with polling := Function.update s.polling θ none }
  | wake {r : ReactorId} {θ : ThreadId} {t : TaskId} (hr : s.active r = some θ)
      (ht : t < s.tasks) : Step s (.wake r t) (s.wake r θ t)
  | ret {r : ReactorId} {θ : ThreadId} {t : TaskId} {result : Poll} (hr : s.on r = some θ)
      (hhead : (s.frames θ).head? = some t) :
      Step s (.ret r t result) (s.leaveTask r θ t result)

theorem between_on {s : System} {r : ReactorId} {θ : ThreadId} (h : s.between r = some θ) :
    s.on r = some θ := (Option.filter_eq_some_iff.mp h).1

theorem active_on {s : System} {r : ReactorId} {θ : ThreadId} (h : s.active r = some θ) :
    s.on r = some θ := (Option.filter_eq_some_iff.mp h).1

theorem step_cases {s u : System} {e : SystemEvent} (h : s.step e = some u) : Step s e u := by
  cases e with
  | create key =>
    obtain ⟨b, hb, rfl⟩ := Option.map_eq_some_iff.mp h
    exact .create hb
  | destroy θ =>
    obtain ⟨b, hb, rfl⟩ := Option.map_eq_some_iff.mp h
    exact .destroy hb
  | enter r θ =>
    obtain ⟨b, hb, rfl⟩ := Option.map_eq_some_iff.mp h
    exact .enter hb
  | leave r =>
    obtain ⟨θ, hr, rfl⟩ := Option.map_eq_some_iff.mp h
    exact .leave hr
  | send θ m =>
    simp only [step, Option.ite_none_right_eq_some, Option.some.injEq] at h
    obtain ⟨ha, rfl⟩ := h
    exact .send ha
  | message r =>
    obtain ⟨θ, hr, h⟩ := Option.bind_eq_some_iff.mp h
    split at h
    · cases h
    · rename_i m rest hbox
      cases h
      exact .message hr hbox
  | current r =>
    obtain ⟨θ, hr, rfl⟩ := Option.map_eq_some_iff.mp h
    exact .current hr
  | spawnLocal r =>
    obtain ⟨θ, hr, rfl⟩ := Option.map_eq_some_iff.mp h
    exact .spawnLocal hr
  | start r p =>
    obtain ⟨θ, hr, h⟩ := Option.bind_eq_some_iff.mp h
    simp only [Option.ite_none_right_eq_some, Option.some.injEq] at h
    obtain ⟨⟨hp, hhome⟩, rfl⟩ := h
    split
    · rename_i hrun
      exact .start hr hp hhome hrun
    · rename_i hrun
      exact .stop hr hp hhome (Bool.eq_false_iff.mpr hrun)
  | pop r t =>
    obtain ⟨θ, hr, h⟩ := Option.bind_eq_some_iff.mp h
    obtain ⟨p, hp, h⟩ := Option.bind_eq_some_iff.mp h
    simp only [Option.ite_none_right_eq_some, Option.some.injEq] at h
    obtain ⟨⟨hframes, hhead, hst⟩, rfl⟩ := h
    exact .pop hr hp hframes hhead hst
  | skip r t =>
    obtain ⟨θ, hr, h⟩ := Option.bind_eq_some_iff.mp h
    obtain ⟨p, hp, h⟩ := Option.bind_eq_some_iff.mp h
    simp only [Option.ite_none_right_eq_some, Option.some.injEq] at h
    obtain ⟨⟨_, hhead, _⟩, rfl⟩ := h
    exact .skip hr hp hhead
  | done r =>
    obtain ⟨θ, hr, h⟩ := Option.bind_eq_some_iff.mp h
    obtain ⟨p, hp, h⟩ := Option.bind_eq_some_iff.mp h
    simp only [Option.ite_none_right_eq_some, Option.some.injEq] at h
    obtain ⟨_, rfl⟩ := h
    exact .done hr
  | wake r t =>
    obtain ⟨θ, hr, h⟩ := Option.bind_eq_some_iff.mp h
    simp only [Option.ite_none_right_eq_some, Option.some.injEq] at h
    obtain ⟨ht, rfl⟩ := h
    exact .wake hr ht
  | ret r t result =>
    obtain ⟨θ, hr, h⟩ := Option.bind_eq_some_iff.mp h
    simp only [Option.ite_none_right_eq_some, Option.some.injEq] at h
    obtain ⟨hhead, rfl⟩ := h
    exact .ret hr hhead

theorem next_step {s u : System} {e : SystemEvent} (h : s.next e = some u) : Step s e u := by
  unfold next at h
  split at h
  · cases h
  · exact step_cases h

/-! ## What holds of every run -/

/-- What is known of the control blocks, and that each poller runs on its own thread. -/
structure Wf (s : System) : Prop where
  blocks : s.toBlocks.Wf
  polling : ∀ θ p, s.polling θ = some p → p < s.tcbs ∧ s.home p = θ

theorem wf_start : start.Wf := ⟨Blocks.wf_start, by simp [start]⟩

theorem Wf.alive {s : System} (h : s.Wf) {r : ReactorId} {θ : ThreadId} (hr : s.on r = some θ) :
    s.alive θ = true :=
  (h.blocks.reactors r θ hr).1

theorem Wf.current {s : System} (h : s.Wf) {r : ReactorId} {θ : ThreadId} (hr : s.on r = some θ) :
    (s.current r θ).Wf :=
  ⟨h.blocks.current r (h.alive hr), fun η p hp => by
    obtain ⟨hlt, hhome⟩ := h.polling η p hp
    obtain ⟨hlt', hhome'⟩ := Blocks.current_old r θ hlt
    exact ⟨hlt', hhome'.trans hhome⟩⟩

theorem Wf.shutdown {s : System} (h : s.Wf) {θ : ThreadId} {p : TcbPtr} (hlt : p < s.tcbs)
    (hhome : s.home p = θ) : (s.shutdown p θ).Wf :=
  ⟨h.blocks.shutdown hlt hhome, h.polling⟩

theorem Step.wf {s u : System} {e : SystemEvent} (hs : Step s e u) (h : s.Wf) : u.Wf := by
  have hframe : ∀ {b : Blocks}, b.Wf → b.tcbs = s.tcbs → b.home = s.home →
      Wf { s with toBlocks := b } := fun hb hn hh =>
    ⟨hb, fun θ p hp => by
      obtain ⟨hlt, hhome⟩ := h.polling θ p hp
      exact ⟨hn ▸ hlt, hh ▸ hhome⟩⟩
  cases hs with
  | create hc =>
    refine hframe (h.blocks.create hc) ?_ ?_ <;>
      (unfold Blocks.create at hc; split at hc <;> cases hc; rfl)
  | destroy hc =>
    refine hframe (h.blocks.destroy hc) ?_ ?_ <;>
      (unfold Blocks.destroy at hc; split at hc <;> cases hc; rfl)
  | enter hc =>
    refine hframe (h.blocks.enter hc) ?_ ?_ <;>
      (unfold Blocks.enter at hc; split at hc <;> cases hc; rfl)
  | leave hr => refine hframe (h.blocks.leave _) ?_ ?_ <;> (unfold Blocks.leave; split <;> rfl)
  | send ha => exact ⟨h.blocks, h.polling⟩
  | message hr hbox =>
    rename_i r θ m rest
    cases m with
    | spawn =>
      have hc := h.current (between_on hr)
      exact ⟨hc.blocks, hc.polling⟩
    | exit => exact ⟨h.blocks.exit θ, h.polling⟩
  | current hr => exact h.current (active_on hr)
  | spawnLocal hr => exact ⟨h.blocks, h.polling⟩
  | start hr hp hhome hrun =>
    rename_i r θ p
    refine ⟨h.blocks, fun η q hq => ?_⟩
    by_cases he : η = θ
    · subst he
      simp only [Function.update_self, Option.some.injEq] at hq
      exact hq ▸ ⟨hp.1, hhome⟩
    · simp only [Function.update_of_ne he] at hq
      exact h.polling η q hq
  | stop hr hp hhome hrun => exact h.shutdown hp.1 hhome
  | pop hr hp hframes hhead hst => exact ⟨h.blocks, h.polling⟩
  | skip hr hp hhead => exact ⟨h.blocks, h.polling⟩
  | done hr =>
    rename_i r θ
    refine ⟨h.blocks, fun η q hq => ?_⟩
    by_cases he : η = θ
    · subst he
      simp at hq
    · simp only [Function.update_of_ne he] at hq
      exact h.polling η q hq
  | wake hr ht =>
    rename_i r θ t
    have hc := h.current (active_on hr)
    unfold System.wake
    simp only
    split
    · exact ⟨hc.blocks, hc.polling⟩
    · obtain ⟨hlt, hhome⟩ := h.blocks.current_home r (h.alive (active_on hr))
      exact hc.shutdown hlt hhome
  | ret hr hhead =>
    have hc := h.current hr
    unfold leaveTask
    simp only
    split
    · exact ⟨hc.blocks, hc.polling⟩
    · exact ⟨h.blocks, h.polling⟩

end System

end Ironspdk.Runtime
