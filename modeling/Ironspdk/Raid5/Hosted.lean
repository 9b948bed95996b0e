import Ironspdk.Lib.Fifo
import Ironspdk.Runtime.Place
import Ironspdk.Raid5.Serialize

/-! # The device on its executors

The tasks of a device where they run: each worker has an executor of its own, on which they
are polled among tasks of other code, and a child I/O that ends wakes the task that waits for
it. A poll that finds its child I/O not ended leaves its waker with the future and returns;
nothing else has a waker of the task. The channels are there, as in `Workers`, and a panic
ends the process. -/
namespace Ironspdk.Raid5
open Ironspdk.Lib Ironspdk.Runtime

variable {B : Type}

/-- A worker: its executor, the tasks sent to it whose messages it has not handled, and which
task of the device a future of the executor is; futures of other code are none. -/
structure Host where
  tcb : Tcb := .new
  msgs : List Nat := []
  runs : TaskId → Option Nat := fun _ => none

/-- The device, its workers, and the waker that the future of a child I/O holds, by task and
number of the child I/O. -/
structure Hosted (B : Type) where
  device : Device B
  host : Nat → Host
  waker : Nat → Nat → Option TaskId
  panicked : Option String

/-- `exec` is a step of the executor of a worker; with `run` the future on top of its stack
goes on to its next operation, and `child` is about a child I/O of task `t`. -/
inductive HostedEvent (B : Type)
  | submit (req : Request B)
  | message (i : Nat)
  | exec (i : Nat) (e : Runtime.Event)
  | run (i : Nat) (heap : Nat → Nat → B)
  | child (t : Nat) (e : ChildEvent B)

/-- The child I/O whose end the task has to wait for: it awaits its future, which is not
`done`. -/
def Stage.awaits : Stage B → Option Nat
  | .processing _ (.op (.await c) _) frame =>
    match frame.ios[c]? with
    | some x => if x.phase.Ended then none else some c
    | none => none
  | _ => none

/-- A poll may begin here: the task has not begun, or it is at an `await`. -/
def Stage.Paused : Stage B → Prop
  | .spawned | .processing _ (.op (.await _) _) _ => True
  | _ => False

theorem paused_of_awaits {stage : Stage B} {c : Nat} (h : stage.awaits = some c) :
    stage.Paused := by
  unfold Stage.awaits at h
  split at h
  · trivial
  · cases h

/-- The child I/O that the event reports the end of. -/
def ChildEvent.ends : ChildEvent B → Option Nat
  | .apply _ _ => none
  | .finish c | .fail c _ => some c

/-- The task whose operation or child I/O an event is. -/
def DevEvent.actor : DevEvent B → Option Nat
  | .dequeue t _ | .step t | .child t _ => some t
  | .submit _ | .start _ => none

namespace Hosted

/-- Before the first request. -/
def start (disks : Nat → Nat → B) : Hosted B :=
  ⟨.start disks, fun _ => {}, fun _ _ => none, none⟩

def put (s : Hosted B) (i : Nat) (h : Host) : Hosted B :=
  { s with host := Function.update s.host i h }

/-- What the worker's executor is after a step. -/
def putTcb (s : Hosted B) (i : Nat) (b : Tcb) : Hosted B := s.put i { s.host i with tcb := b }

/-- `SpdkThread::spawn` of the future of a request. -/
def submitIo (dev : Raid5Bdev) (s : Hosted B) (req : Request B) : Hosted B :=
  let i := dev.ownerIdx (req.stripe dev)
  { s.put i { s.host i with msgs := (s.host i).msgs ++ [s.device.tasks.length] } with
    device := s.device.submitIo dev req }

/-- A message, handled between two calls of pollers. -/
def message (s : Hosted B) (i : Nat) : Option (Hosted B) :=
  let h := s.host i
  match h.msgs with
  | [] => none
  | t :: rest =>
    if h.tcb.polling = false ∧ h.tcb.frames = [] then
      some (s.put i ⟨h.tcb.spawn, rest, Function.update h.runs h.tcb.tasks (some t)⟩)
    else none

/-- Task `t` is polled, up to its next operation; at its first poll it enqueues its request. -/
def resume (dev : Raid5Bdev) (s : Hosted B) (i t : Nat) : Option (Hosted B) :=
  (s.device.tasks[t]?).map fun task =>
    match task.stage with
    | .spawned =>
      { s with device := s.device.begin dev i t ((s.device.inbox i).erase t) task }
    | .finished => { s with panicked := some "`async fn` resumed after completion" }
    | _ => s

/-- What the poll of task `t`, number `k` of its executor, may return: `Ready` at its end,
`Pending` with its waker in the future it awaits. -/
def ret (s : Hosted B) (k t : Nat) (r : Poll) : Option (Hosted B) :=
  (s.device.tasks[t]?).bind fun task =>
    match r with
    | .ready =>
      match task.stage with
      | .finished => some s
      | _ => none
    | .pending => task.stage.awaits.map fun c =>
      { s with waker := Function.update s.waker t (Function.update (s.waker t) c (some k)) }

/-- A step of an executor. Futures of other code may do anything, except wake a task of the
device. -/
def exec (dev : Raid5Bdev) (s : Hosted B) (i : Nat) (e : Runtime.Event) : Option (Hosted B) :=
  let h := s.host i
  (Runtime.next h.tcb e).bind fun b =>
    let u := s.putTcb i b
    match e with
    | .pop k => (h.runs k).elim (some u) (u.resume dev i)
    | .ret k r => (h.runs k).elim (some u) (u.ret k · r)
    | .wake k => if h.runs k = none then some u else none
    | _ => some u

/-- The future on top of the stack performs its next operation. -/
def run (dev : Raid5Bdev) (ch : Children) (overflowChecks : Bool) (s : Hosted B) (i : Nat)
    (heap : Nat → Nat → B) [Add B] [Zero B] : Option (Hosted B) := do
  let h := s.host i
  let k ← h.tcb.frames.head?
  let t ← h.runs k
  let d ← (s.device.next dev ch overflowChecks (.dequeue t heap)).or
    (s.device.next dev ch overflowChecks (.step t))
  let task ← d.tasks[t]?
  return { s with device := d, panicked := task.stage.message }

/-- A child I/O moves on; at its end the callback takes the waker from its future and wakes
the task, on the thread of its worker. -/
def child (dev : Raid5Bdev) (ch : Children) (overflowChecks : Bool) (s : Hosted B) (t : Nat)
    (e : ChildEvent B) [Add B] [Zero B] : Option (Hosted B) := do
  let task ← s.device.tasks[t]?
  let d ← s.device.next dev ch overflowChecks (.child t e)
  match e.ends with
  | none => return { s with device := d }
  | some c =>
    let i := dev.ownerIdx (task.req.stripe dev)
    let b := (s.host i).tcb
    if b.active then
      return { s.putTcb i ((s.waker t c).elim b (Task.wake · b)) with
        device := d
        waker := Function.update s.waker t (Function.update (s.waker t) c none) }
    else none

def next [Add B] [Zero B] (dev : Raid5Bdev) (ch : Children) (overflowChecks : Bool)
    (s : Hosted B) (e : HostedEvent B) : Option (Hosted B) :=
  if s.panicked.isSome then none
  else match e with
  | .submit req => some (s.submitIo dev req)
  | .message i => s.message i
  | .exec i e => s.exec dev i e
  | .run i heap => s.run dev ch overflowChecks i heap
  | .child t e => s.child dev ch overflowChecks t e

/-! ## What every run keeps -/

/-- How a task at a spot of its executor stands: only one that waits has left a waker, its own,
with the future it awaits. -/
def Fits (wakers : Nat → Option TaskId) (k : TaskId) (stage : Stage B) : Spot → Prop
  | .queued => stage.Paused ∧ ∀ c, wakers c = none
  | .polled => stage ≠ .spawned ∧ ∀ c, wakers c = none
  | .waiting => ∃ c, stage.awaits = some c ∧ wakers c = some k ∧ ∀ c', c' ≠ c → wakers c' = none
  | .ended => stage = .finished ∧ ∀ c, wakers c = none

/-- The tasks sent to worker `i` that have not begun: those that wait for their first poll, in
the order of the run queue, and then those of the messages. -/
def FirstPolls (inbox : List Nat) (h : Host) : Prop :=
  ∃ (U : List TaskId) (ts : List Nat), Awaits U h.tcb.runq ∧ U.map h.runs = ts.map some ∧
    inbox = ts ++ h.msgs ∧ ∀ k t, h.runs k = some t → t ∈ inbox → k ∈ U

structure Sound (dev : Raid5Bdev) (s : Hosted B) : Prop where
  inbox : Inbox dev s.device
  wf : ∀ i, (s.host i).tcb.Wf
  first : ∀ i, FirstPolls (s.device.inbox i) (s.host i)
  home : ∀ i k t, (s.host i).runs k = some t →
    ∃ task, s.device.tasks[t]? = some task ∧ dev.ownerIdx (task.req.stripe dev) = i
  unique : ∀ i k k' t, (s.host i).runs k = some t → (s.host i).runs k' = some t → k = k'
  hosted : ∀ t task, s.device.tasks[t]? = some task → task.stage ≠ .spawned →
    ∃ k, (s.host (dev.ownerIdx (task.req.stripe dev))).runs k = some t
  place : ∀ i k t task, (s.host i).runs k = some t → s.device.tasks[t]? = some task →
    ∃ w, (s.host i).tcb.At k w ∧ Fits (s.waker t) k task.stage w
  wakers : ∀ t c, s.waker t c ≠ none → ∃ i k, (s.host i).runs k = some t
  fault : ∀ msg, s.panicked = some msg → ∃ (t : Nat) (task : IoTask B),
    s.device.tasks[t]? = some task ∧ task.stage = .panicked msg

variable {dev : Raid5Bdev} {s u : Hosted B} {i k t c : Nat} {task : IoTask B} {h : Host}

theorem sound_start (disks : Nat → Nat → B) : (start disks).Sound dev := by
  have hnone : ∀ {t : Nat} {task : IoTask B},
      (start disks).device.tasks[t]? = some task → False := by
    intro t task ht
    simp [start, Device.start] at ht
  refine ⟨(queued_start dev disks).inbox, fun _ => Tcb.wf_new,
    fun i => ⟨[], [], awaits_nil _, rfl, rfl, fun _ _ hr => (by cases hr)⟩,
    fun _ _ _ hr => (by cases hr), fun _ _ _ _ hr => (by cases hr), fun _ _ ht => (hnone ht).elim,
    fun _ _ _ _ _ ht => (hnone ht).elim, fun _ _ hw => absurd rfl hw, fun _ hp => (by cases hp)⟩

theorem host_put (s : Hosted B) (i j : Nat) (h : Host) :
    (s.put i h).host j = if j = i then h else s.host j := by
  by_cases hj : j = i
  · simp [put, hj]
  · simp [put, hj]

@[simp] theorem runs_putTcb (s : Hosted B) (i j : Nat) (b : Tcb) :
    ((s.putTcb i b).host j).runs = (s.host j).runs := by
  rw [putTcb, host_put]
  split
  · rename_i hj
    rw [hj]
  · rfl

/-- A task that has not been polled is in the run queue. -/
theorem FirstPolls.awaits {inbox : List Nat} (hf : FirstPolls inbox h) (hr : h.runs k = some t)
    (ht : t ∈ inbox) : k ∈ h.tcb.runq := by
  obtain ⟨U, ts, ha, _, _, hall⟩ := hf
  exact ha.mem (hall k t hr ht)

/-- A message makes a future that waits for its first poll behind the others. -/
theorem FirstPolls.message {inbox : List Nat} {rest : List Nat} (hf : FirstPolls inbox h)
    (hw : h.tcb.Wf) (hmsgs : h.msgs = t :: rest) :
    FirstPolls inbox ⟨h.tcb.spawn, rest, Function.update h.runs h.tcb.tasks (some t)⟩ := by
  obtain ⟨U, ts, ha, hU, hin, hall⟩ := hf
  have hq : h.tcb.tasks ∉ h.tcb.runq := fun hm => Nat.lt_irrefl _ (hw.queued _ hm)
  refine ⟨U ++ [h.tcb.tasks], ts ++ [t], ha.enter hq, ?_, ?_, fun k t' hr ht' => ?_⟩
  · have hsame : U.map (Function.update h.runs h.tcb.tasks (some t)) = U.map h.runs :=
      List.map_congr_left fun k hk =>
        Function.update_of_ne (ne_of_mem_of_not_mem hk (mt ha.mem hq)) _ _
    simp [hsame, hU]
  · rw [hin, hmsgs]
    simp
  · by_cases hk : k = h.tcb.tasks
    · simp [hk]
    · have hr : Function.update h.runs h.tcb.tasks (some t) k = some t' := hr
      rw [Function.update_of_ne hk] at hr
      exact List.mem_append_left _ (hall k t' hr ht')

namespace Sound

theorem mem_inbox (hs : s.Sound dev) (hr : (s.host i).runs k = some t)
    (ht : s.device.tasks[t]? = some task) : t ∈ s.device.inbox i ↔ task.stage = .spawned := by
  obtain ⟨task', ht', ho⟩ := hs.home i k t hr
  cases ht.symm.trans ht'
  rw [hs.inbox.mem]
  refine ⟨fun ⟨task', ht', hst, _⟩ => ?_, fun hst => ⟨task, ht, hst, ho⟩⟩
  cases ht.symm.trans ht'
  exact hst

/-- A task of the device runs on one executor only, under one number. -/
theorem same_host (hs : s.Sound dev) {j k' : Nat} (hr : (s.host i).runs k = some t)
    (hr' : (s.host j).runs k' = some t) : j = i ∧ k' = k := by
  obtain ⟨task, ht, ho⟩ := hs.home i k t hr
  obtain ⟨task', ht', ho'⟩ := hs.home j k' t hr'
  cases ht.symm.trans ht'
  obtain rfl : j = i := ho'.symm.trans ho
  exact ⟨rfl, hs.unique j k' k t hr' hr⟩

/-- A task that has begun waits for no first poll. -/
theorem not_first (hs : s.Sound dev) (hr : (s.host i).runs k = some t)
    (ht : s.device.tasks[t]? = some task) (hst : task.stage ≠ .spawned) {U : List TaskId}
    {ts : List Nat} (hU : U.map (s.host i).runs = ts.map some)
    (hbox : s.device.inbox i = ts ++ (s.host i).msgs) : k ∉ U := by
  intro hk
  have hmem : some t ∈ ts.map some := by
    rw [← hU, ← hr]
    exact List.mem_map_of_mem hk
  obtain ⟨t', ht', he⟩ := List.mem_map.mp hmem
  cases he
  refine hst ((hs.mem_inbox hr ht).mp ?_)
  rw [hbox]
  exact List.mem_append_left _ ht'

/-- Task `t` and its executor move on. -/
theorem act (hs : s.Sound dev) (hr : (s.host i).runs k = some t)
    (ht : s.device.tasks[t]? = some task) {d : Device B} {stage : Stage B}
    (htasks : d.tasks = s.device.tasks.set t { task with stage := stage }) (hin : Inbox dev d)
    {b : Tcb} (hb : b.Wf) (hfirst : ∀ j, FirstPolls (d.inbox j) ((s.putTcb i b).host j))
    (hsame : ∀ k', k' ≠ k → Tcb.Same k' (s.host i).tcb b)
    {v : Nat → Option TaskId} {w : Spot} (hat : b.At k w) (hfit : Fits v k stage w)
    {p : Option String} (hp : ∀ msg, p = some msg → stage = .panicked msg) :
    Sound dev { s.putTcb i b with
      device := d, waker := Function.update s.waker t v, panicked := p } := by
  have hget : ∀ t', d.tasks[t']? =
      if t' = t then some { task with stage := stage } else s.device.tasks[t']? := fun t' => by
    rw [htasks, getElem?_setTask ht]
  obtain ⟨htask, hto, howner⟩ := hs.home i k t hr
  cases ht.symm.trans hto
  refine ⟨hin, fun j => ?_, hfirst, fun j k' t' hr' => ?_, fun j k' k'' t' => ?_,
    fun t' task' hget' hst' => ?_, fun j k' t' task' hr' hget' => ?_, fun t' c hw => ?_,
    fun msg hmsg => ?_⟩
  · rw [putTcb, host_put]
    split
    · exact hb
    · exact hs.wf j
  · rw [runs_putTcb] at hr'
    obtain ⟨task', ht', ho'⟩ := hs.home j k' t' hr'
    show ∃ task, d.tasks[t']? = some task ∧ _
    rw [hget]
    split
    · rename_i he
      subst he
      cases ht.symm.trans ht'
      exact ⟨_, rfl, ho'⟩
    · exact ⟨task', ht', ho'⟩
  · rw [runs_putTcb]
    exact hs.unique j k' k'' t'
  · have ht' : d.tasks[t']? = some task' := hget'
    rw [hget] at ht'
    rw [runs_putTcb]
    split at ht'
    · rename_i he
      subst he
      cases ht'
      exact ⟨k, howner ▸ hr⟩
    · exact hs.hosted t' task' ht' hst'
  · have ht' : d.tasks[t']? = some task' := hget'
    rw [hget] at ht'
    rw [runs_putTcb] at hr'
    show ∃ w, ((s.putTcb i b).host j).tcb.At k' w ∧
      Fits (Function.update s.waker t v t') k' task'.stage w
    split at ht'
    · rename_i he
      subst he
      cases ht'
      obtain ⟨rfl, rfl⟩ := hs.same_host hr hr'
      refine ⟨w, ?_, ?_⟩
      · simpa [putTcb, put] using hat
      · rwa [Function.update_self]
    · rename_i he
      obtain ⟨w', hat', hfit'⟩ := hs.place j k' t' task' hr' ht'
      refine ⟨w', ?_, by rwa [Function.update_of_ne he]⟩
      rw [putTcb, host_put]
      split
      · rename_i hj
        subst hj
        have hk : k' ≠ k := by
          rintro rfl
          cases hr.symm.trans hr'
          exact he rfl
        exact hat'.same (hsame k' hk)
      · exact hat'
  · simp only [runs_putTcb]
    have hw : Function.update s.waker t v t' c ≠ none := hw
    by_cases he : t' = t
    · exact ⟨i, k, he ▸ hr⟩
    · rw [Function.update_of_ne he] at hw
      exact hs.wakers t' c hw
  · refine ⟨t, { task with stage := stage }, ?_, hp msg hmsg⟩
    show d.tasks[t]? = _
    rw [hget, if_pos rfl]

/-- The tasks that have not begun, after a step of one that has. -/
theorem first_keep (hs : s.Sound dev) (hr : (s.host i).runs k = some t)
    (ht : s.device.tasks[t]? = some task) (hst : task.stage ≠ .spawned) {b : Tcb}
    (hawait : ∀ U, k ∉ U → Awaits U (s.host i).tcb.runq → Awaits U b.runq) (j : Nat) :
    FirstPolls (s.device.inbox j) ((s.putTcb i b).host j) := by
  obtain ⟨U, ts, ha, hU, hin, hall⟩ := hs.first j
  rw [putTcb, host_put]
  split
  · rename_i hj
    subst hj
    exact ⟨U, ts, hawait U (hs.not_first hr ht hst hU hin) ha, hU, hin, hall⟩
  · exact ⟨U, ts, ha, hU, hin, hall⟩

/-- A step of an executor that is about no task of the device. -/
theorem other (hs : s.Sound dev) {b : Tcb} (hb : b.Wf)
    (hsame : ∀ k t, (s.host i).runs k = some t → Tcb.Same k (s.host i).tcb b)
    (hawait : ∀ U : List TaskId, (∀ k ∈ U, (s.host i).runs k ≠ none) →
      Awaits U (s.host i).tcb.runq → Awaits U b.runq) : Sound dev (s.putTcb i b) := by
  refine ⟨hs.inbox, fun j => ?_, fun j => ?_, fun j k' t' => ?_, fun j k' k'' t' => ?_,
    fun t' task' => ?_, fun j k' t' task' hr' ht' => ?_, fun t' c => ?_, hs.fault⟩
  · rw [putTcb, host_put]
    split
    · exact hb
    · exact hs.wf j
  · obtain ⟨U, ts, ha, hU, hin, hall⟩ := hs.first j
    rw [putTcb, host_put]
    split
    · rename_i hj
      subst hj
      refine ⟨U, ts, hawait U (fun k hk hnone => ?_) ha, hU, hin, hall⟩
      have hmem : none ∈ ts.map some := by
        rw [← hU, ← hnone]
        exact List.mem_map_of_mem hk
      simp at hmem
    · exact ⟨U, ts, ha, hU, hin, hall⟩
  · rw [runs_putTcb]
    exact hs.home j k' t'
  · rw [runs_putTcb]
    exact hs.unique j k' k'' t'
  · rw [runs_putTcb]
    exact hs.hosted t' task'
  · rw [runs_putTcb] at hr'
    obtain ⟨w', hat', hfit'⟩ := hs.place j k' t' task' hr' ht'
    refine ⟨w', ?_, hfit'⟩
    rw [putTcb, host_put]
    split
    · rename_i hj
      subst hj
      exact hat'.same (hsame k' t' hr')
    · exact hat'
  · simp only [runs_putTcb]
    exact hs.wakers t' c

theorem made (hs : s.Sound dev) (hr : (s.host i).runs k = some t) : k < (s.host i).tcb.tasks := by
  obtain ⟨task, ht, _⟩ := hs.home i k t hr
  obtain ⟨w, hat, _⟩ := hs.place i k t task hr ht
  exact hat.made

/-- Steps about futures of other code. -/
theorem exec_other (hs : s.Sound dev) {e : Runtime.Event} {b : Tcb}
    (hn : Runtime.next (s.host i).tcb e = some b)
    (hother : ∀ k, e.task = some k → (s.host i).runs k = none) : Sound dev (s.putTcb i b) := by
  refine hs.other (next_wf (hs.wf i) hn) (fun k t hr => next_same hn fun he => ?_)
    fun U hU ha => ?_
  · rw [hother k he] at hr
    cases hr
  · cases next_step hn with
    | spawn _ => exact ha.push _
    | spawnLocal _ => exact ha
    | start _ _ => exact ha
    | done _ _ => exact ha
    | skip empty _ busy => exact absurd busy ((hs.wf i).not_running empty _)
    | @pop k q _ queue _ =>
      rw [queue] at ha
      rcases ha.leave with ⟨_, ha⟩ | ⟨V, hUV, _, _⟩
      · exact ha
      · exact absurd (hother k rfl) (hU k (by rw [hUV]; exact List.mem_cons_self))
    | @wake k _ _ =>
      unfold Task.wake
      split
      · exact ha
      · exact ha.push k
      · exact ha
      · exact ha
    | @ret k fs stack r =>
      unfold Task.leave
      split
      · exact ha
      · split
        · exact ha.push k
        · exact ha

theorem submitIo (hs : s.Sound dev) (req : Request B) : Sound dev (s.submitIo dev req) := by
  have hold : ∀ {j k t : Nat}, (s.host j).runs k = some t → t < s.device.tasks.length := by
    intro j k t hr
    obtain ⟨task, ht, _⟩ := hs.home j k t hr
    exact (List.getElem?_eq_some_iff.mp ht).1
  have htask : ∀ {t task}, (s.submitIo dev req).device.tasks[t]? = some task →
      s.device.tasks[t]? = some task ∨ t = s.device.tasks.length ∧ task = ⟨req, .spawned⟩ :=
    fun ht => append_get ht
  have hkeep : ∀ {t : Nat} {task}, s.device.tasks[t]? = some task →
      (s.submitIo dev req).device.tasks[t]? = some task := fun ht =>
    (List.getElem?_append_left (List.getElem?_eq_some_iff.mp ht).1).trans ht
  have hhost : ∀ j, ((s.submitIo dev req).host j).runs = (s.host j).runs ∧
      ((s.submitIo dev req).host j).tcb = (s.host j).tcb := fun j => by
    simp only [Hosted.submitIo, host_put]
    split
    · rename_i hj
      rw [hj]
      exact ⟨rfl, rfl⟩
    · exact ⟨rfl, rfl⟩
  refine ⟨hs.inbox.submit req, fun j => ?_, fun j => ?_, fun j k t hr => ?_, fun j k k' t => ?_,
    fun t task ht hst => ?_, fun j k t task hr ht => ?_, fun t c hw => ?_, fun msg hp => ?_⟩
  · rw [(hhost j).2]
    exact hs.wf j
  · obtain ⟨U, ts, ha, hU, hin, hall⟩ := hs.first j
    simp only [Hosted.submitIo, host_put, Device.submitIo]
    by_cases hj : j = dev.ownerIdx (req.stripe dev)
    · subst hj
      rw [if_pos rfl, Function.update_self]
      refine ⟨U, ts, ha, hU, by rw [hin, List.append_assoc], fun k t hr ht => hall k t hr ?_⟩
      refine (List.mem_append.mp ht).resolve_right fun ht => ?_
      exact Nat.ne_of_lt (hold hr) (List.mem_singleton.mp ht)
    · rw [if_neg hj, Function.update_of_ne hj]
      exact ⟨U, ts, ha, hU, hin, hall⟩
  · rw [(hhost j).1] at hr
    obtain ⟨task, ht, ho⟩ := hs.home j k t hr
    exact ⟨task, hkeep ht, ho⟩
  · rw [(hhost j).1]
    exact hs.unique j k k' t
  · rw [(hhost _).1]
    rcases htask ht with ht | ⟨_, rfl⟩
    · exact hs.hosted t task ht hst
    · exact absurd rfl hst
  · rw [(hhost j).1] at hr
    rw [(hhost j).2]
    rcases htask ht with ht | ⟨he, _⟩
    · exact hs.place j k t task hr ht
    · exact absurd he (Nat.ne_of_lt (hold hr))
  · simp only [(hhost _).1]
    exact hs.wakers t c hw
  · obtain ⟨t, task, ht, hst⟩ := hs.fault msg hp
    exact ⟨t, task, hkeep ht, hst⟩

/-- A message makes a task that waits for its first poll behind all others. -/
theorem message (hs : s.Sound dev) (hm : s.message i = some u) :
    u.device = s.device ∧ u.Sound dev := by
  unfold Hosted.message at hm
  simp only at hm
  split at hm
  · cases hm
  rename_i t rest hmsgs
  simp only [Option.ite_none_right_eq_some, Option.some.injEq] at hm
  obtain ⟨⟨hpoll, hframes⟩, rfl⟩ := hm
  refine ⟨rfl, ?_⟩
  have hn : Runtime.next (s.host i).tcb (.spawn (s.host i).tcb.tasks) =
      some (s.host i).tcb.spawn := by
    simp [Runtime.next, Tcb.active, hpoll]
  have hwf := next_wf (hs.wf i) hn
  obtain ⟨U, ts, ha, hU, hin, hall⟩ := hs.first i
  have hmem : t ∈ s.device.inbox i := by
    rw [hin, hmsgs]
    simp
  obtain ⟨task, ht, hst, ho⟩ := (hs.inbox.mem i t).mp hmem
  have hfree : ∀ j k, (s.host j).runs k ≠ some t := by
    intro j k hr
    obtain ⟨task', ht', ho'⟩ := hs.home j k t hr
    cases ht.symm.trans ht'
    obtain rfl : i = j := ho.symm.trans ho'
    have hk := hall k t hr hmem
    have hts : some t ∈ ts.map some := by
      rw [← hU, ← hr]
      exact List.mem_map_of_mem hk
    have hnd := hs.inbox.nodup i
    rw [hin, hmsgs] at hnd
    refine (List.nodup_append.mp hnd).2.2 t ?_ t List.mem_cons_self rfl
    simpa using hts
  have hnew : (s.host i).runs (s.host i).tcb.tasks = none := by
    by_contra hne
    obtain ⟨t', hr⟩ := Option.ne_none_iff_exists'.mp hne
    exact Nat.lt_irrefl _ (hs.made hr)
  have hruns : ∀ j k, ((s.put i ⟨(s.host i).tcb.spawn, rest,
      Function.update (s.host i).runs (s.host i).tcb.tasks (some t)⟩).host j).runs k =
        if j = i ∧ k = (s.host i).tcb.tasks then some t else (s.host j).runs k := by
    intro j k
    rw [host_put]
    by_cases hj : j = i
    · subst hj
      simp [Function.update_apply]
    · simp [hj]
  have hkeep : ∀ {j k t'}, (s.host j).runs k = some t' →
      ¬ (j = i ∧ k = (s.host i).tcb.tasks) := by
    rintro j k t' hr ⟨rfl, rfl⟩
    cases hnew.symm.trans hr
  refine ⟨hs.inbox, fun j => ?_, fun j => ?_, fun j k t' hr => ?_, fun j k k' t' hr hr' => ?_,
    fun t' task' ht' hst' => ?_, fun j k t' task' hr ht' => ?_, fun t' c hw => ?_, hs.fault⟩
  · rw [host_put]
    split
    · exact hwf
    · exact hs.wf j
  · rw [host_put]
    split
    · rename_i hj
      subst hj
      exact (hs.first j).message (hs.wf j) hmsgs
    · exact hs.first j
  · rw [hruns] at hr
    split at hr
    · rename_i hjk
      obtain ⟨rfl, _⟩ := hjk
      cases hr
      exact ⟨task, ht, ho⟩
    · exact hs.home j k t' hr
  · rw [hruns] at hr hr'
    split at hr
    · rename_i hjk
      cases hr
      split at hr'
      · rename_i hjk'
        exact hjk.2.trans hjk'.2.symm
      · exact absurd hr' (hfree _ _)
    · split at hr'
      · cases hr'
        exact absurd hr (hfree _ _)
      · exact hs.unique j k k' t' hr hr'
  · obtain ⟨k, hr⟩ := hs.hosted t' task' ht' hst'
    exact ⟨k, by rw [hruns, if_neg (hkeep hr), hr]⟩
  · rw [hruns] at hr
    rw [host_put]
    split at hr
    · rename_i hjk
      obtain ⟨rfl, rfl⟩ := hjk
      cases hr
      cases ht.symm.trans ht'
      refine ⟨.queued, by simpa using Tcb.At.spawn (hs.wf j), ?_, fun c => ?_⟩
      · rw [hst]
        trivial
      · by_contra hne
        obtain ⟨j', k', hr'⟩ := hs.wakers t c hne
        exact hfree j' k' hr'
    · rename_i hjk
      obtain ⟨w, hat, hfit⟩ := hs.place j k t' task' hr ht'
      refine ⟨w, ?_, hfit⟩
      split
      · rename_i hj
        subst hj
        refine hat.same (next_same hn fun he => hjk ⟨rfl, ?_⟩)
        exact (Option.some.inj he).symm
      · exact hat
  · obtain ⟨j, k, hr⟩ := hs.wakers t' c hw
    exact ⟨j, k, by rw [hruns, if_neg (hkeep hr), hr]⟩

/-- The first poll of a task: it is the one that was sent to the worker first. -/
theorem begin (hs : s.Sound dev) {b : Tcb} (hn : Runtime.next (s.host i).tcb (.pop k) = some b)
    (hrun : s.panicked = none) (hr : (s.host i).runs k = some t)
    (ht : s.device.tasks[t]? = some task) (hst : task.stage = .spawned) :
    s.device.inbox i = t :: (s.device.inbox i).erase t ∧ Sound dev { s.putTcb i b with
      device := s.device.begin dev i t ((s.device.inbox i).erase t) task } := by
  obtain ⟨w, hat, hfit⟩ := hs.place i k t task hr ht
  obtain ⟨rfl, hpolled⟩ := hat.pop hn
  obtain ⟨U, ts, ha, hU, hin, hall⟩ := hs.first i
  have hk : k ∈ U := hall k t hr ((hs.mem_inbox hr ht).mpr hst)
  obtain ⟨V, rfl, hkV, hV⟩ : ∃ V, U = k :: V ∧ k ∉ V ∧ Awaits V b.runq := by
    cases next_step hn with
    | pop _ queue _ =>
      rw [queue] at ha
      rcases ha.leave with ⟨hnot, _⟩ | ⟨V, hUV, hkV, ha⟩
      · exact absurd hk hnot
      · exact ⟨V, hUV, hkV, ha⟩
  obtain ⟨ts, rfl⟩ : ∃ ts', ts = t :: ts' := by
    cases ts with
    | nil => cases hU
    | cons t' ts =>
      have he := (List.cons.inj hU).1
      rw [hr] at he
      cases he
      exact ⟨ts, rfl⟩
  have hrest : (s.device.inbox i).erase t = ts ++ (s.host i).msgs := by
    rw [hin, List.cons_append, List.erase_cons_head]
  have hbox : s.device.inbox i = t :: (s.device.inbox i).erase t := by
    rw [hrest, hin, List.cons_append]
  obtain ⟨task', ht', ho⟩ := hs.home i k t hr
  cases ht.symm.trans ht'
  subst ho
  refine ⟨hbox, ?_⟩
  obtain ⟨stage, hstage, htasks⟩ : ∃ stage, (stage = .finished ∨ stage = .draining) ∧
      (s.device.begin dev (dev.ownerIdx (task.req.stripe dev)) t
        ((s.device.inbox (dev.ownerIdx (task.req.stripe dev))).erase t) task).tasks =
          s.device.tasks.set t { task with stage := stage } := by
    refine ⟨_, ?_, rfl⟩
    split
    · exact Or.inl rfl
    · exact Or.inr rfl
  have hinbox : (s.device.begin dev (dev.ownerIdx (task.req.stripe dev)) t
      ((s.device.inbox (dev.ownerIdx (task.req.stripe dev))).erase t) task).inbox =
        Function.update s.device.inbox (dev.ownerIdx (task.req.stripe dev))
          (ts ++ (s.host (dev.ownerIdx (task.req.stripe dev))).msgs) := by
    rw [← hrest]
    rfl
  have hstart := hs.act (b := b) (p := s.panicked) (v := s.waker t) (w := .polled) hr ht htasks
    (hs.inbox.begin hbox ht) (next_wf (hs.wf _) hn) (fun j => ?_)
    (fun k' hk' => next_same hn fun he => hk' (Option.some.inj he).symm) hpolled ⟨?_, hfit.2⟩
    fun msg hmsg => ?_
  · rwa [Function.update_eq_self] at hstart
  · rw [hinbox, putTcb, host_put]
    split
    · rename_i hj
      subst hj
      rw [Function.update_self]
      refine ⟨V, ts, hV, (List.cons.inj hU).2, rfl, fun k' t' hr' ht' => ?_⟩
      have hmem := hall k' t' hr' (by rw [hin]; exact List.mem_cons_of_mem _ ht')
      refine (List.mem_cons.mp hmem).resolve_left fun he => ?_
      subst he
      cases hr.symm.trans hr'
      have hnd := hs.inbox.nodup (dev.ownerIdx (task.req.stripe dev))
      rw [hin, List.cons_append] at hnd
      exact (List.nodup_cons.mp hnd).1 ht'
    · rename_i hj
      rw [Function.update_of_ne hj]
      exact hs.first j
  · rcases hstage with rfl | rfl <;> exact fun he => by cases he
  · rw [hrun] at hmsg
    cases hmsg

/-- The executor of a task that has begun moves on; the device does not. -/
theorem moved (hs : s.Sound dev) (hrun : s.panicked = none) (hr : (s.host i).runs k = some t)
    (ht : s.device.tasks[t]? = some task) (hst : task.stage ≠ .spawned) {e : Runtime.Event}
    {b : Tcb} (hn : Runtime.next (s.host i).tcb e = some b) (he : e.task = some k)
    (hspawn : ∀ k, e ≠ .spawn k) {v : Nat → Option TaskId} {w : Spot} (hat : b.At k w)
    (hfit : Fits v k task.stage w) :
    Sound dev { s.putTcb i b with waker := Function.update s.waker t v } := by
  have hsame : s.device.tasks = s.device.tasks.set t { task with stage := task.stage } := by
    obtain ⟨hlt, rfl⟩ := List.getElem?_eq_some_iff.mp ht
    exact (List.set_getElem_self hlt).symm
  have hmove := hs.act (b := b) (p := s.panicked) hr ht hsame hs.inbox (next_wf (hs.wf i) hn)
    (hs.first_keep hr ht hst fun U hkU ha => ?_)
    (fun k' hk' => next_same hn fun he' => hk' (Option.some.inj (he'.symm.trans he))) hat hfit
    fun msg hmsg => ?_
  · exact hmove
  · rcases runq_next (hs.wf i) hn hspawn with hq | ⟨v, hq⟩ | ⟨v, hq, rfl⟩
    · rwa [hq]
    · rw [hq]
      exact ha.push v
    · cases he
      rw [hq] at ha
      rcases ha.leave with ⟨_, ha⟩ | ⟨V, hUV, _, _⟩
      · exact ha
      · exact absurd (by rw [hUV]; exact List.mem_cons_self) hkU
  · rw [hrun] at hmsg
    cases hmsg

/-- A poll that returns is that of the task on top of the stack. -/
theorem polled_of_frames {b : Tcb} {w : Spot} (hat : b.At k w) (hk : b.frames.head? = some k) :
    w = .polled :=
  hat.stack.mp (List.mem_of_mem_head? hk)

theorem ret_frames {b b' : Tcb} {r : Poll} (hn : Runtime.next b (.ret k r) = some b') :
    b.frames.head? = some k := by
  cases next_step hn with
  | ret stack _ => simp [stack]

/-- A step of an executor is the start of a request in the device, or none. -/
theorem exec [Add B] [Zero B] (hs : s.Sound dev) (hrun : s.panicked = none) {e : Runtime.Event}
    (hx : s.exec dev i e = some u) (ch : Children) (overflowChecks : Bool) :
    (u.device = s.device ∨ s.device.next dev ch overflowChecks (.start i) = some u.device) ∧
      u.panicked = none ∧ u.Sound dev := by
  obtain ⟨b, hn, hx⟩ := Option.bind_eq_some_iff.mp hx
  have hother : u = s.putTcb i b → (∀ k, e.task = some k → (s.host i).runs k = none) →
      (u.device = s.device ∨ s.device.next dev ch overflowChecks (.start i) = some u.device) ∧
        u.panicked = none ∧ u.Sound dev := by
    rintro rfl hnone
    exact ⟨Or.inl rfl, hrun, hs.exec_other hn hnone⟩
  have hnew : ∀ {k}, k = (s.host i).tcb.tasks → (s.host i).runs k = none := by
    intro k hk
    by_contra hne
    obtain ⟨t, hr⟩ := Option.ne_none_iff_exists'.mp hne
    exact absurd (hs.made hr) (by omega)
  cases e with
  | spawn k =>
    cases hx
    cases next_step hn with
    | spawn _ =>
      refine hother rfl fun k hk => ?_
      cases hk
      exact hnew rfl
  | spawnLocal k =>
    cases hx
    cases next_step hn with
    | spawnLocal _ =>
      refine hother rfl fun k hk => ?_
      cases hk
      exact hnew rfl
  | start =>
    cases hx
    exact hother rfl fun k hk => by cases hk
  | done =>
    cases hx
    exact hother rfl fun k hk => by cases hk
  | skip k =>
    cases next_step hn with
    | skip empty _ busy => exact absurd busy ((hs.wf i).not_running empty _)
  | wake k =>
    simp only [Option.ite_none_right_eq_some, Option.some.injEq] at hx
    refine hother hx.2.symm fun k' hk => ?_
    cases hk
    exact hx.1
  | pop k =>
    cases hr : (s.host i).runs k with
    | none =>
      simp only [hr, Option.elim_none, Option.some.injEq] at hx
      refine hother hx.symm fun k' hk => ?_
      cases hk
      exact hr
    | some t =>
      simp only [hr, Option.elim_some] at hx
      obtain ⟨task, ht, rfl⟩ := Option.map_eq_some_iff.mp hx
      have ht : s.device.tasks[t]? = some task := ht
      obtain ⟨w, hat, hfit⟩ := hs.place i k t task hr ht
      obtain ⟨rfl, hpolled⟩ := hat.pop hn
      have hbegun : task.stage ≠ .spawned → Sound dev (s.putTcb i b) := fun hst => by
        have hmove := hs.moved hrun hr ht hst hn rfl (fun k he => by cases he) hpolled
          ⟨hst, hfit.2⟩
        rwa [Function.update_eq_self] at hmove
      cases hst : task.stage with
      | spawned =>
        obtain ⟨hbox, hbegin⟩ := hs.begin hn hrun hr ht hst
        refine ⟨Or.inr ?_, hrun, hbegin⟩
        simp only [Device.next]
        rw [hbox]
        simp only [ht, Option.map_some]
        rfl
      | finished =>
        have hpaused := hfit.1
        rw [hst] at hpaused
        exact hpaused.elim
      | draining => exact ⟨Or.inl rfl, hrun, hbegun (by simp [hst])⟩
      | processing req prog frame =>
        exact ⟨Or.inl rfl, hrun, hbegun (by simp [hst])⟩
      | panicked msg =>
        exact ⟨Or.inl rfl, hrun, hbegun (by simp [hst])⟩
  | ret k r =>
    cases hr : (s.host i).runs k with
    | none =>
      simp only [hr, Option.elim_none, Option.some.injEq] at hx
      refine hother hx.symm fun k' hk => ?_
      cases hk
      exact hr
    | some t =>
      simp only [hr, Option.elim_some] at hx
      obtain ⟨task, ht, hx⟩ := Option.bind_eq_some_iff.mp hx
      have ht : s.device.tasks[t]? = some task := ht
      obtain ⟨w, hat, hfit⟩ := hs.place i k t task hr ht
      obtain rfl := polled_of_frames hat (ret_frames hn)
      cases r with
      | ready =>
        simp only at hx
        split at hx
        · rename_i hst
          cases hx
          have hmove := hs.moved hrun hr ht hfit.1 hn rfl (fun k he => by cases he)
            (hat.ready (hs.wf i) hn) ⟨hst, hfit.2⟩
          rw [Function.update_eq_self] at hmove
          exact ⟨Or.inl rfl, hrun, hmove⟩
        · cases hx
      | pending =>
        obtain ⟨c, hc, rfl⟩ := Option.map_eq_some_iff.mp hx
        refine ⟨Or.inl rfl, hrun, hs.moved hrun hr ht hfit.1 hn rfl (fun k he => by cases he)
          (hat.pending (hs.wf i) hn) ⟨c, hc, Function.update_self .., fun c' hne => ?_⟩⟩
        exact (Function.update_of_ne hne _ _).trans (hfit.2 c')

theorem inner_of_actor {e : DevEvent B} (h : e.actor = some t) : e.Inner := by
  cases e with
  | submit req => cases h
  | _ => trivial

/-- A task goes on to its next operation, or a child I/O of it moves on. -/
theorem task_step [Add B] [Zero B] {ch : Children} {overflowChecks : Bool} {d d' : Device B}
    {e : DevEvent B} (hstep : d.Step dev ch overflowChecks e d') (he : e.actor = some t) :
    ∃ (task : IoTask B) (stage : Stage B), d.tasks[t]? = some task ∧ task.stage ≠ .spawned ∧
      stage ≠ .spawned ∧ d'.tasks = d.tasks.set t { task with stage := stage } ∧
        d'.inbox = d.inbox ∧ d'.enqueued = d.enqueued := by
  cases hstep with
  | submit req => cases he
  | start hbox ht => cases he
  | drain ht hst =>
    cases he
    rename_i task heap
    unfold Device.drain
    simp only
    split
    · exact ⟨task, _, ht, by simp [hst], by simp, rfl, rfl, rfl⟩
    · exact ⟨task, _, ht, by simp [hst], by simp, rfl, rfl, rfl⟩
    · exact ⟨task, _, ht, by simp [hst], by simp, rfl, rfl, rfl⟩
  | ret ht hst =>
    cases he
    exact ⟨_, _, ht, by simp [hst], by simp, rfl, rfl, rfl⟩
  | panic ht hst =>
    cases he
    exact ⟨_, _, ht, by simp [hst], by simp, rfl, rfl, rfl⟩
  | perform ht hst hp =>
    cases he
    exact ⟨_, _, ht, by simp [hst], by simp, rfl, rfl, rfl⟩
  | child ht hst hr =>
    cases he
    exact ⟨_, _, ht, by simp [hst], by simp, rfl, rfl, rfl⟩

theorem putTcb_self (s : Hosted B) (i : Nat) : s.putTcb i (s.host i).tcb = s := by
  simp [putTcb, put]

/-- The future on top of a stack goes on. -/
theorem run [Add B] [Zero B] {ch : Children} {overflowChecks : Bool} (hs : s.Sound dev)
    {heap : Nat → Nat → B} (hx : s.run dev ch overflowChecks i heap = some u) :
    (∃ e : DevEvent B, e.Inner ∧ s.device.next dev ch overflowChecks e = some u.device) ∧
      u.Sound dev := by
  obtain ⟨k, hk, hx⟩ := Option.bind_eq_some_iff.mp hx
  obtain ⟨t, hr, hx⟩ := Option.bind_eq_some_iff.mp hx
  obtain ⟨d, hd, hx⟩ := Option.bind_eq_some_iff.mp hx
  obtain ⟨task', ht', hx⟩ := Option.bind_eq_some_iff.mp hx
  cases hx
  obtain ⟨e, he, hn⟩ : ∃ e : DevEvent B, e.actor = some t ∧
      s.device.next dev ch overflowChecks e = some d := by
    rcases Option.or_eq_some_iff.mp hd with hd | ⟨_, hd⟩
    · exact ⟨_, rfl, hd⟩
    · exact ⟨_, rfl, hd⟩
  refine ⟨⟨e, inner_of_actor he, hn⟩, ?_⟩
  obtain ⟨task, stage, ht, hst, hst', htasks, hbox, henq⟩ := task_step (Device.next_step hn) he
  obtain ⟨w, hat, hfit⟩ := hs.place i k t task hr ht
  obtain rfl := polled_of_frames hat hk
  have hstage : task' = { task with stage := stage } := by
    rw [htasks, getElem?_setTask ht, if_pos rfl] at ht'
    exact (Option.some.inj ht').symm
  subst hstage
  have hgo := hs.act (p := stage.message) hr ht htasks (hs.inbox.stay ht htasks hst hst' hbox henq)
    (hs.wf i) (fun j => by rw [hbox]; exact hs.first_keep hr ht hst (fun _ _ ha => ha) j)
    (fun k' _ => .refl k' _) hat ⟨hst', hfit.2⟩ fun msg hmsg => ?_
  · rwa [Function.update_eq_self, putTcb_self] at hgo
  · cases stage with
    | panicked msg' =>
      cases hmsg
      rfl
    | _ => cases hmsg

/-- What a child I/O that moves on leaves of the wait for another one, or for its own end. -/
theorem awaits_react {ch : Children} {req : Request B} {prog : Task Unit} {frame : Frame B}
    {disks : Nat → Nat → B} {e : ChildEvent B} {v : Proc B}
    (hr : ch.react ⟨frame, disks⟩ e = some v)
    (hw : (Stage.processing req prog frame).awaits = some c) (hne : e.ends ≠ some c) :
    (Stage.processing req prog v.toFrame).awaits = some c := by
  cases prog with
  | ret a => cases hw
  | op o k =>
    cases o with
    | await c' =>
      simp only [Stage.awaits] at hw ⊢
      cases hx : frame.ios[c']? with
      | none =>
        rw [hx] at hw
        cases hw
      | some x =>
        simp only [hx, Option.ite_none_left_eq_some, Option.some.injEq] at hw
        obtain ⟨hopen, rfl⟩ := hw
        have hlt := (List.getElem?_eq_some_iff.mp hx).1
        have hget : ∃ y, v.ios[c']? = some y ∧ ¬ y.phase.Ended := by
          cases e with
          | apply d junk =>
            simp only [Children.react, Option.bind_eq_bind, Option.bind_eq_some_iff,
              Option.ite_none_right_eq_some, Option.some.injEq] at hr
            obtain ⟨y, hy, _, rfl⟩ := hr
            simp only [Proc.setPhase, put_ios]
            by_cases hd : d = c'
            · subst hd
              exact ⟨_, List.getElem?_set_self hlt, by simp [Phase.Ended]⟩
            · exact ⟨x, (List.getElem?_set_ne hd).trans hx, hopen⟩
          | finish d =>
            simp only [Children.react, Option.bind_eq_bind, Option.bind_eq_some_iff,
              Option.ite_none_right_eq_some, Option.some.injEq] at hr
            obtain ⟨y, hy, _, rfl⟩ := hr
            have hd : d ≠ c' := fun hd => hne (by rw [hd]; rfl)
            exact ⟨x, (List.getElem?_set_ne hd).trans hx, hopen⟩
          | fail d junk =>
            simp only [Children.react, Option.bind_eq_bind, Option.bind_eq_some_iff,
              Option.ite_none_right_eq_some, Option.some.injEq] at hr
            obtain ⟨y, hy, _, rfl⟩ := hr
            have hd : d ≠ c' := fun hd => hne (by rw [hd]; rfl)
            simp only [Proc.setPhase, put_ios]
            exact ⟨x, (List.getElem?_set_ne hd).trans hx, hopen⟩
        obtain ⟨y, hy, hyopen⟩ := hget
        have hy : v.toFrame.ios[c']? = some y := hy
        rw [hy]
        simp [hyopen]
    | _ => cases hw

/-- A child I/O moves on; its end wakes the task that waits for it. -/
theorem child [Add B] [Zero B] {ch : Children} {overflowChecks : Bool} (hs : s.Sound dev)
    (hrun : s.panicked = none) {e : ChildEvent B}
    (hx : s.child dev ch overflowChecks t e = some u) :
    s.device.next dev ch overflowChecks (.child t e) = some u.device ∧ u.Sound dev := by
  obtain ⟨task, ht, hx⟩ := Option.bind_eq_some_iff.mp hx
  obtain ⟨d, hd, hx⟩ := Option.bind_eq_some_iff.mp hx
  obtain ⟨task', stage, ht', hsp, hsp', htasks, hbox, henq⟩ :=
    task_step (Device.next_step hd) (t := t) rfl
  cases ht.symm.trans ht'
  obtain ⟨req, prog, frame, v, hst, hreact, hnew⟩ : ∃ req prog frame v,
      task.stage = .processing req prog frame ∧
        ch.react ⟨frame, s.device.disks⟩ e = some v ∧
          d.tasks = s.device.tasks.set t { task with stage := .processing req prog v.toFrame } := by
    cases Device.next_step hd with
    | child ht' hst hr =>
      cases ht.symm.trans ht'
      exact ⟨_, _, _, _, hst, hr, rfl⟩
  have hpaused : task.stage.Paused → (Stage.processing req prog v.toFrame).Paused := by
    rw [hst]
    cases prog with
    | ret a => exact id
    | op o f => cases o <;> exact id
  have hspawned : Stage.processing req prog v.toFrame ≠ .spawned := fun h => by cases h
  have hin := hs.inbox.stay ht htasks hsp hsp' hbox henq
  obtain ⟨k, hr⟩ := hs.hosted t task ht hsp
  obtain ⟨w, hat, hfit⟩ := hs.place _ k t task hr ht
  have hp : ∀ msg, s.panicked = some msg →
      Stage.processing req prog v.toFrame = .panicked msg := fun msg hmsg => by
    rw [hrun] at hmsg
    cases hmsg
  -- when no waker is taken, the task stays where it is
  have hstay : ∀ {f : Nat → Option TaskId},
      Fits f k (Stage.processing req prog v.toFrame) w → Sound dev { s with
        device := d, waker := Function.update s.waker t f } := by
    intro f hfit
    have hgo := hs.act (p := s.panicked) hr ht hnew hin (hs.wf _)
      (fun j => by rw [hbox]; exact hs.first_keep hr ht hsp (fun _ _ ha => ha) j)
      (fun k' _ => .refl k' _) hat hfit hp
    rwa [putTcb_self] at hgo
  cases he : e.ends with
  | none =>
    rw [he] at hx
    cases hx
    refine ⟨hd, ?_⟩
    have hgo := hstay (f := s.waker t) ?_
    · rwa [Function.update_eq_self] at hgo
    · cases w with
      | queued => exact ⟨hpaused hfit.1, hfit.2⟩
      | polled => exact ⟨hspawned, hfit.2⟩
      | waiting =>
        obtain ⟨c, hc, hwk⟩ := hfit
        rw [hst] at hc
        exact ⟨c, awaits_react hreact hc (by rw [he]; simp), hwk⟩
      | ended =>
        rw [hfit.1] at hst
        cases hst
  | some c =>
    rw [he] at hx
    simp only [Option.pure_def, Option.ite_none_right_eq_some, Option.some.injEq] at hx
    obtain ⟨_, rfl⟩ := hx
    refine ⟨hd, ?_⟩
    have hnone : (∀ c, s.waker t c = none) →
        ∀ c', Function.update (s.waker t) c none c' = none := by
      intro hall c'
      by_cases hc : c' = c
      · rw [hc, Function.update_self]
      · rw [Function.update_of_ne hc]
        exact hall c'
    cases w with
    | queued =>
      rw [hfit.2 c, Option.elim_none, putTcb_self]
      exact hstay ⟨hpaused hfit.1, hnone hfit.2⟩
    | polled =>
      rw [hfit.2 c, Option.elim_none, putTcb_self]
      exact hstay ⟨hspawned, hnone hfit.2⟩
    | waiting =>
      obtain ⟨c₀, hc₀, hwk, hothers⟩ := hfit
      by_cases hc : c = c₀
      · subst hc
        rw [hwk, Option.elim_some]
        refine hs.act hr ht hnew hin ((hs.wf _).wake hat.made) (fun j => ?_)
          (fun k' hk' => same_wake (Ne.symm hk')) hat.wake
          ⟨hpaused (paused_of_awaits hc₀), fun c' => ?_⟩ hp
        · rw [hbox]
          refine hs.first_keep hr ht hsp (fun U _ ha => ?_) j
          unfold Task.wake
          split
          · exact ha
          · exact ha.push k
          · exact ha
          · exact ha
        · by_cases hc : c' = c
          · rw [hc, Function.update_self]
          · rw [Function.update_of_ne hc]
            exact hothers c' hc
      · rw [hothers c hc, Option.elim_none, putTcb_self]
        rw [hst] at hc₀
        refine hstay ⟨c₀, awaits_react hreact hc₀ (by simp [he, hc]), ?_, fun c' hc' => ?_⟩
        · rwa [Function.update_of_ne (Ne.symm hc)]
        · by_cases hcc : c' = c
          · rw [hcc, Function.update_self]
          · rw [Function.update_of_ne hcc]
            exact hothers c' hc'
    | ended =>
      rw [hfit.1] at hst
      cases hst

/-- **A step on the executors** is one of the device, or leaves it alone. -/
theorem next [Add B] [Zero B] {ch : Children} {overflowChecks : Bool} (hs : s.Sound dev)
    {e : HostedEvent B} (hn : s.next dev ch overflowChecks e = some u) :
    (u.device = s.device ∨ ∃ e' : DevEvent B, (e'.Inner ∨ ∃ req, e = .submit req) ∧
      s.device.next dev ch overflowChecks e' = some u.device) ∧ u.Sound dev := by
  unfold Hosted.next at hn
  split at hn
  · cases hn
  rename_i hrun
  have hrun : s.panicked = none := by simpa using hrun
  cases e with
  | submit req =>
    cases hn
    exact ⟨Or.inr ⟨.submit req, Or.inr ⟨req, rfl⟩, rfl⟩, hs.submitIo req⟩
  | message i =>
    obtain ⟨hd, hu⟩ := hs.message hn
    exact ⟨Or.inl hd, hu⟩
  | exec i e =>
    obtain ⟨hd, _, hu⟩ := hs.exec hrun hn ch overflowChecks
    exact ⟨hd.imp_right fun hd => ⟨.start i, Or.inl trivial, hd⟩, hu⟩
  | run i heap =>
    obtain ⟨⟨e, he, hd⟩, hu⟩ := hs.run hn
    exact ⟨Or.inr ⟨e, Or.inl he, hd⟩, hu⟩
  | child t e =>
    obtain ⟨hd, hu⟩ := hs.child hrun hn
    exact ⟨Or.inr ⟨.child t e, Or.inl trivial, hd⟩, hu⟩

end Sound

/-! ## Runs -/

/-- Nothing is left to do: no messages, empty run queues, no future on a stack, and no child
I/O that can move on. -/
structure Quiescent [Add B] [Zero B] (dev : Raid5Bdev) (ch : Children) (overflowChecks : Bool)
    (s : Hosted B) : Prop where
  msgs : ∀ i, (s.host i).msgs = []
  runq : ∀ i, (s.host i).tcb.runq = []
  frames : ∀ i, (s.host i).tcb.frames = []
  children : ∀ t e, s.device.next dev ch overflowChecks (.child t e) = none

/-- A task that is nowhere on its executor waits for a child I/O, or is over. -/
theorem Sound.off [Add B] [Zero B] {ch : Children} {overflowChecks : Bool} (hs : s.Sound dev)
    (hq : s.Quiescent dev ch overflowChecks) (ht : s.device.tasks[t]? = some task)
    (hst : task.stage ≠ .spawned) : (∃ c, task.stage.awaits = some c) ∨ task.stage = .finished := by
  obtain ⟨k, hr⟩ := hs.hosted t task ht hst
  obtain ⟨w, hat, hfit⟩ := hs.place _ k t task hr ht
  cases w with
  | queued =>
    have hmem := hat.mem_of_queued
    rw [hq.runq] at hmem
    cases hmem
  | polled =>
    have hmem := hat.stack.mpr rfl
    rw [hq.frames] at hmem
    cases hmem
  | waiting =>
    obtain ⟨c, hc, _⟩ := hfit
    exact Or.inl ⟨c, hc⟩
  | ended => exact Or.inr hfit.1

/-- A task that waits for a child I/O performs no operation. -/
theorem operate_of_awaits [Add B] [Zero B] {d : Device B} {req : Request B} {prog : Task Unit}
    {frame : Frame B} (hc : (Stage.processing req prog frame).awaits = some c) :
    d.operate t task req prog frame = none := by
  cases prog with
  | ret a => cases hc
  | op o k =>
    cases o with
    | await c' =>
      simp only [Stage.awaits] at hc
      cases hx : frame.ios[c']? with
      | none =>
        rw [hx] at hc
        cases hc
      | some x =>
        obtain ⟨r, data, phase⟩ := x
        simp only [hx, Option.ite_none_left_eq_some] at hc
        cases phase with
        | done b => exact absurd (by simp [Phase.Ended]) hc.1
        | _ => simp [Device.operate, Raid5.perform, hx]
    | _ => cases hc

/-- **No wakeup is lost**: when the executors have nothing left to do, the device has not. -/
theorem Sound.atRest [Add B] [Zero B] {ch : Children} {overflowChecks : Bool} (hs : s.Sound dev)
    (hq : s.Quiescent dev ch overflowChecks) : s.device.AtRest dev ch overflowChecks := by
  intro e he
  cases e with
  | submit req => exact absurd he id
  | start i =>
    obtain ⟨U, ts, ha, hU, hbox, _⟩ := hs.first i
    have hnone : U = [] := List.eq_nil_iff_forall_not_mem.mpr fun k hk => by
      have hmem := ha.mem hk
      rw [hq.runq] at hmem
      cases hmem
    rw [hnone, List.map_nil] at hU
    rw [List.map_eq_nil_iff.mp hU.symm, hq.msgs] at hbox
    simp [Device.next, hbox]
  | dequeue t heap =>
    refine Option.eq_none_iff_forall_ne_some.mpr fun d hd => ?_
    cases Device.next_step hd with
    | drain ht hst =>
      rcases hs.off hq ht (by simp [hst]) with ⟨c, hc⟩ | hover
      · rw [hst] at hc
        cases hc
      · rw [hst] at hover
        cases hover
  | step t =>
    simp only [Device.next]
    cases ht : s.device.tasks[t]? with
    | none => rfl
    | some task =>
      cases hst : task.stage with
      | processing req prog frame =>
        rcases hs.off hq ht (by simp [hst]) with ⟨c, hc⟩ | hover
        · rw [hst] at hc
          simpa [hst] using operate_of_awaits hc
        · rw [hst] at hover
          cases hover
      | _ => simp [hst]
  | child t e => exact hq.children t e

end Hosted

/-- A run on the executors is one of the device, with the steps about other code left out. -/
theorem hosted_sound [Add B] [Zero B] {dev : Raid5Bdev} {ch : Children} {overflowChecks : Bool}
    {disks : Nat → Nat → B} {es : List (HostedEvent B)} {s : Hosted B}
    (hrun : run (Hosted.next dev ch overflowChecks) (Hosted.start disks) es = some s) :
    (∃ es' : List (DevEvent B),
      run (Device.next dev ch overflowChecks) (Device.start disks) es' = some s.device) ∧
      s.Sound dev :=
  run_stutter (f := Hosted.device) (I := Hosted.Sound dev)
    (fun _ _ _ ht hn => (ht.next hn).imp_left (Or.imp_right fun ⟨e, _, he⟩ => ⟨e, he⟩))
    (Hosted.sound_start disks) hrun

/-- The tasks of a device do not panic, and so nothing does. -/
theorem Hosted.Sound.unharmed [XorGroup B] {G : Base B} {s : Hosted B} (hs : s.Sound G.dev)
    (hr : Reached G s.device) : s.panicked = none := by
  refine Option.eq_none_iff_forall_ne_some.mpr fun msg hmsg => ?_
  obtain ⟨t, task, ht, hst⟩ := hs.fault msg hmsg
  have hcalm := hr.serving.calm t task ht
  rw [hst] at hcalm
  cases hcalm

/-- **The executors run the device.** Whatever the children do, however the workers take
turns and whatever else runs on them, the device goes through a run of its own, and its
requests begin in the order in which they were sent. Nothing but the programs of its tasks
panics: no task is polled again after its end. -/
theorem hosted_refines_device [Add B] [Zero B] (dev : Raid5Bdev) (ch : Children)
    (overflowChecks : Bool) (disks : Nat → Nat → B) (es : List (HostedEvent B)) (s : Hosted B)
    (hrun : run (Hosted.next dev ch overflowChecks) (Hosted.start disks) es = some s) :
    (∃ es' : List (DevEvent B),
      run (Device.next dev ch overflowChecks) (Device.start disks) es' = some s.device) ∧
      ∀ msg, s.panicked = some msg → ∃ (t : Nat) (task : IoTask B),
        s.device.tasks[t]? = some task ∧ task.stage = .panicked msg := by
  obtain ⟨hdev, hs⟩ := hosted_sound hrun
  exact ⟨hdev, hs.fault⟩

/-- A read of one block, whose task waits for its child I/O and is woken at its end. -/
def readHosted : List (HostedEvent Byte) :=
  [.submit ⟨⟨⟨.read, 3, 1⟩, 7⟩, 0⟩, .message 0, .exec 0 .start, .exec 0 (.pop 0), .run 0 0,
    .run 0 0, .exec 0 (.ret 0 .pending), .exec 0 .done, .child 0 (.apply 0 0),
    .child 0 (.finish 0), .exec 0 .start, .exec 0 (.pop 0), .run 0 0, .run 0 0, .run 0 0,
    .run 0 0, .run 0 0, .run 0 0, .exec 0 (.ret 0 .ready), .exec 0 .done]

theorem hosted_refines_device_read :
    ∃ s, run (Hosted.next smallArray (.any false) true) (Hosted.start 0) readHosted = some s ∧
      s.device.log.map (fun a => (a.sender, a.status)) = [(7, .success)] ∧
      ∃ es' : List (DevEvent Byte),
        run (Device.next smallArray (.any false) true) (Device.start 0) es' = some s.device := by
  have hlog : (run (Hosted.next smallArray (.any false) true) (Hosted.start 0) readHosted).map
      (fun s => s.device.log.map fun a => (a.sender, a.status)) = some [(7, .success)] := by
    decide
  obtain ⟨s, hs, hl⟩ := Option.map_eq_some_iff.mp hlog
  exact ⟨s, hs, hl, (hosted_refines_device smallArray (.any false) true 0 readHosted s hs).1⟩

/-- **Every request is answered, on the executors.** Each child can answer, and a build with
overflow checks has at most 64 disks. At any time no two tasks serve a stripe and nothing has
panicked; when nothing is left to do every task is over, and the requests of each stripe have
been answered in the order in which they came, each once. -/
theorem hosted_requests_answered [XorGroup B] (dev : Raid5Bdev) (overflowChecks : Bool)
    (hbit : overflowChecks = true → dev.diskCount ≤ 64) (ch : Children)
    (hch : ∀ x, ch.allow x true = true ∨ ch.allow x false = true)
    (disks : Nat → Nat → B) (es : List (HostedEvent B)) (s : Hosted B)
    (hrun : run (Hosted.next dev ch overflowChecks) (Hosted.start disks) es = some s) :
    Serialized dev s.device ∧ s.panicked = none ∧
      (s.Quiescent dev ch overflowChecks →
        (∀ (t : Nat) (task : IoTask B), s.device.tasks[t]? = some task → task.stage = .finished) ∧
          ∀ k, onKey (Request.stripe dev) k (s.device.log.map (·.req)) =
            onKey (Request.stripe dev) k s.device.submitted) := by
  obtain ⟨⟨es', hdev⟩, hs⟩ := hosted_sound hrun
  obtain ⟨G, rfl, hG, hok, hshift, hstart⟩ := exists_base (B := B) dev ch hbit
  have hr : Reached G s.device := (hstart disks).run hok hshift hG hdev
  refine ⟨hr.serialized, hs.unharmed hr, fun hq => ?_⟩
  have hrest := hs.atRest hq
  exact ⟨fun _ _ ht => hr.over hch hrest ht, hr.answered hch hrest⟩

/-- The read leaves nothing to do. -/
theorem readHosted_ends :
    ∃ s, run (Hosted.next smallArray (.any false) true) (Hosted.start 0) readHosted = some s ∧
      s.Quiescent smallArray (.any false) true ∧ (∀ i, (s.host i).tcb.polling = false) ∧
      s.device.log.length = 1 := by
  have hrest : ∀ i, (run (Hosted.next smallArray (.any false) true) (Hosted.start 0)
      readHosted).map (fun s => ((s.host i).msgs, (s.host i).tcb.runq, (s.host i).tcb.frames,
        (s.host i).tcb.polling)) = some ([], [], [], false) := by
    rintro (_ | i)
    · decide
    · rfl
  have hend : (run (Hosted.next smallArray (.any false) true) (Hosted.start 0) readHosted).map
      (fun s => (s.device.log.length, s.device.tasks.map (·.stage.work.1))) = some (1, [0]) := by
    decide
  obtain ⟨s, hs, hl⟩ := Option.map_eq_some_iff.mp hend
  simp only [hs, Option.map_some, Option.some.injEq, Prod.mk.injEq] at hrest
  obtain ⟨hlog, htasks⟩ := Prod.mk.inj hl
  refine ⟨s, hs, ⟨fun i => (hrest i).1, fun i => (hrest i).2.1, fun i => (hrest i).2.2.1,
    fun t e => ?_⟩, fun i => (hrest i).2.2.2, hlog⟩
  refine Option.eq_none_iff_forall_ne_some.mpr fun d hd => ?_
  cases Device.next_step hd with
  | @child _ task _ _ _ _ _ ht hst hr =>
    have hmem := List.mem_map_of_mem (f := (·.stage.work.1)) (List.mem_of_getElem? ht)
    rw [htasks, hst] at hmem
    simp [Stage.work] at hmem

theorem hosted_requests_answered_read :
    ∃ s, run (Hosted.next smallArray (.any false) true) (Hosted.start 0) readHosted = some s ∧
      s.Quiescent smallArray (.any false) true ∧ s.device.log.length = 1 ∧
      onKey (Request.stripe smallArray) 0 (s.device.log.map (·.req)) =
        onKey (Request.stripe smallArray) 0 s.device.submitted := by
  obtain ⟨s, hs, hq, _, hlog⟩ := readHosted_ends
  exact ⟨s, hs, hq, hlog, ((hosted_requests_answered smallArray true (fun _ => by decide)
    (.any false) (fun _ => Or.inl rfl) 0 readHosted s hs).2.2 hq).2 0⟩

end Ironspdk.Raid5
