import Ironspdk.Lib.Fifo
import Ironspdk.Lib.Lanes
import Ironspdk.Runtime.Task
import Ironspdk.Raid5.Device

/-! # The workers of an array

`u_bdev_register` sends every worker a task that opens its I/O channel, and registers the
array; from then on `submit_io` sends the tasks of requests. A worker takes its messages in
the order in which they were sent, and polls its run queue, in which woken tasks are mixed
with new ones. Code of the children may run on a worker too, with tasks of its own. The
array is not deleted, and a panic ends the process. -/
namespace Ironspdk.Raid5
open Ironspdk.Lib Ironspdk.Runtime

def QueuedIo.stripe (dev : Raid5Bdev) (req : QueuedIo) : Nat := dev.stripeIdx req.io.offsetBlocks

/-- The future a message makes: the one of `Raid5Bdev::init`, or of `submit_io`. -/
inductive Job
  | init
  | submit (req : QueuedIo)
  deriving DecidableEq, Repr

def Job.req : Job → Option QueuedIo
  | .init => none
  | .submit req => some req

/-- How far a future is: never polled; in `RcBdevIoChannel::new`; in the drain loop of a
stripe; with nothing left to do but return. Futures that no message has made are `foreign`. -/
inductive Future
  | unresumed (job : Job)
  | opening
  | draining (stripeIdx : Nat)
  | returning
  | foreign
  deriving DecidableEq, Repr

/-- A worker: its executor, its messages, its futures and `IOCH_TLS`, of which only the
`stripes` of the channel matter here. For the record: the tasks sent to it, those polled for
the first time, and the requests enqueued. -/
structure Worker where
  tcb : Tcb := .new
  inbox : List Job := []
  future : TaskId → Future := fun _ => .foreign
  iochTls : Option (Stripes QueuedIo) := none
  sent : List Job := []
  polled : List Job := []
  enqueued : List QueuedIo := []

namespace Worker
variable (dev : Raid5Bdev)

/-- `SpdkThread::spawn`, on the thread that calls it. -/
def spawn (job : Job) (w : Worker) : Worker :=
  { w with inbox := w.inbox ++ [job], sent := w.sent ++ [job] }

/-- The message of `SpdkThread::spawn`, handled between two calls of pollers. -/
def message (w : Worker) : Option Worker :=
  match w.inbox with
  | [] => none
  | job :: rest =>
    if w.tcb.polling = false ∧ w.tcb.frames = [] then
      some { w with inbox := rest, tcb := w.tcb.spawn
                    future := Function.update w.future w.tcb.tasks (.unresumed job) }
    else none

/-- What the future of `t` does when it is polled, up to where other code may run. -/
def resume (t : TaskId) (w : Worker) : Except String Worker :=
  match w.future t with
  | .unresumed .init =>
    .ok { w with future := Function.update w.future t .opening, polled := w.polled ++ [.init] }
  | .unresumed (.submit req) =>
    match w.iochTls with
    | none => .error "I/O channel not found"
    | some stripes =>
      let (draining, stripes) := enqueue stripes (req.stripe dev) req
      .ok { w with
        iochTls := some stripes
        future := Function.update w.future t
          (if draining then .returning else .draining (req.stripe dev))
        polled := w.polled ++ [.submit req]
        enqueued := w.enqueued ++ [req] }
  | .returning => .error "`async fn` resumed after completion"
  | .opening | .draining _ | .foreign => .ok w

/-- The future of `t` takes the next request of its stripe; with none left, it returns.
What `process_req` does with a request is left open. -/
def drain (t : TaskId) (w : Worker) : Option (Except String Worker) :=
  if w.tcb.frames.head? = some t then
    match w.future t, w.iochTls with
    | .draining k, some stripes =>
      match dequeue stripes k with
      | none => some (.error "untracked stripe")
      | some (none, stripes) =>
        some (.ok { w with iochTls := some stripes
                           future := Function.update w.future t .returning })
      | some (some _, stripes) => some (.ok { w with iochTls := some stripes })
    | _, _ => none
  else none

/-- What a future may return, and what it does before: the task of `init` stores the channel,
and does not wait. -/
def ret (t : TaskId) (r : Poll) (w : Worker) : Option Worker :=
  match w.future t, r with
  | .opening, .ready =>
    some { w with iochTls := some fun _ => none, future := Function.update w.future t .returning }
  | .returning, .ready | .draining _, .pending | .foreign, _ => some w
  | _, _ => none

/-- One step of the executor; `Tcb::spawn` is called by messages only. -/
def exec (w : Worker) (e : Runtime.Event) : Option (Except String Worker) :=
  match e with
  | .spawn _ => none
  | .pop t => (Runtime.next w.tcb e).map fun b => resume dev t { w with tcb := b }
  | .ret t r => do
    let b ← Runtime.next w.tcb e
    let u ← w.ret t r
    some (.ok { u with tcb := b })
  | _ => (Runtime.next w.tcb e).map fun b => .ok { w with tcb := b }

end Worker

/-- The workers of an array, how many of them `init` has sent their task, and whether
`spdk_bdev_register` has made the array known. -/
structure Workers where
  worker : Nat → Worker
  inits : Nat
  registered : Bool
  panicked : Option String

inductive WorkersEvent
  | init
  | register
  | submit (req : QueuedIo)
  | message (i : Nat)
  | exec (i : Nat) (e : Runtime.Event)
  | drain (i : Nat) (t : TaskId)
  deriving DecidableEq, Repr

namespace Workers

def start : Workers := ⟨fun _ => {}, 0, false, none⟩

def put (s : Workers) (i : Nat) (w : Worker) : Workers :=
  { s with worker := Function.update s.worker i w }

/-- A panic ends the process. -/
def outcome (s : Workers) (i : Nat) : Except String Worker → Workers
  | .ok w => s.put i w
  | .error msg => { s with panicked := some msg }

/-- `init` and `register` are the two parts of `u_bdev_register`; the rest may happen in any
order, on any thread. -/
def next (dev : Raid5Bdev) (s : Workers) (e : WorkersEvent) : Option Workers :=
  if s.panicked.isSome then none
  else match e with
  | .init =>
    if s.inits < dev.workers then
      some { s.put s.inits ((s.worker s.inits).spawn .init) with inits := s.inits + 1 }
    else none
  | .register =>
    if s.inits = dev.workers then some { s with registered := true } else none
  | .submit req =>
    if s.registered then
      let owner := dev.ownerIdx (req.stripe dev)
      some (s.put owner ((s.worker owner).spawn (.submit req)))
    else none
  | .message i => ((s.worker i).message).map (s.put i)
  | .exec i e => ((s.worker i).exec dev e).map (s.outcome i)
  | .drain i t => ((s.worker i).drain t).map (s.outcome i)

end Workers

/-! ## What a worker keeps -/

namespace Worker

/-- The tasks `U` wait for their first poll, and their entries stand in the run queue as they
were sent. Once the task of `init` has been polled, the channel is stored or that poll is
still on the stack. -/
structure Sound (w : Worker) (U : List TaskId) (jobs : List Job) : Prop where
  wf : w.tcb.Wf
  awaits : Awaits U w.tcb.runq
  futures : U.map w.future = jobs.map .unresumed
  all : ∀ t job, w.future t = .unresumed job → t ∈ U
  sent : w.sent = w.polled ++ jobs ++ w.inbox
  first : ∀ job ∈ w.sent.head?, job = .init
  channel : .init ∈ w.polled → w.iochTls.isSome ∨ ∃ t ∈ w.tcb.frames, w.future t = .opening
  enqueued : w.enqueued = w.polled.filterMap Job.req

variable {dev : Raid5Bdev} {w : Worker} {U : List TaskId} {jobs : List Job}

theorem map_update {β : Type} {f : TaskId → β} {t : TaskId} {c : β} (ht : t ∉ U) :
    U.map (Function.update f t c) = U.map f :=
  List.map_congr_left fun _ hu => Function.update_of_ne (ne_of_mem_of_not_mem hu ht) _ _

theorem sound_new : Sound {} [] [] :=
  ⟨Tcb.wf_new, awaits_nil _, rfl, by simp, rfl, by simp, by simp, rfl⟩

theorem Sound.not_waiting (h : w.Sound U jobs) {t : TaskId}
    (ht : ∀ job, w.future t ≠ .unresumed job) : t ∉ U := by
  intro hm
  obtain ⟨job, _, hj⟩ := List.mem_map.mp (h.futures ▸ List.mem_map_of_mem hm)
  exact ht job hj.symm

theorem Sound.spawn (h : w.Sound U jobs) {job : Job} (hj : job = .init ∨ w.sent ≠ []) :
    (w.spawn job).Sound U jobs := by
  refine ⟨h.wf, h.awaits, h.futures, h.all, ?_, ?_, h.channel, h.enqueued⟩
  · simp [Worker.spawn, h.sent]
  · have hf := h.first
    unfold Worker.spawn
    cases hs : w.sent with
    | nil =>
      rcases hj with rfl | hj
      · simp
      · exact absurd hs hj
    | cons j js =>
      rw [hs] at hf
      simpa using hf

/-- A message makes a task that waits behind all others. -/
theorem Sound.message (h : w.Sound U jobs) {u : Worker} (hm : w.message = some u) :
    u.sent = w.sent ∧ ∃ V js, u.Sound V js := by
  unfold Worker.message at hm
  cases hi : w.inbox with
  | nil => rw [hi] at hm; cases hm
  | cons job rest =>
    rw [hi] at hm
    simp only [Option.ite_none_right_eq_some, Option.some.injEq] at hm
    obtain ⟨⟨_, hf⟩, rfl⟩ := hm
    have hq : w.tcb.tasks ∉ w.tcb.runq := fun hm => Nat.lt_irrefl _ (h.wf.queued _ hm)
    have hU : w.tcb.tasks ∉ U := mt h.awaits.mem hq
    refine ⟨rfl, U ++ [w.tcb.tasks], jobs ++ [job], ?_, h.awaits.enter hq, ?_, ?_, ?_, h.first, ?_,
      h.enqueued⟩
    · exact h.wf.newTask.push (Nat.lt_succ_self _)
    · simp [map_update hU, h.futures]
    · intro t j ht
      by_cases he : t = w.tcb.tasks
      · simp [he]
      · have ht : w.future t = .unresumed j := by simpa [Function.update_of_ne he] using ht
        exact List.mem_append_left _ (h.all t j ht)
    · simp [h.sent, hi]
    · intro hp
      left
      rcases h.channel hp with hc | ⟨t, ht, _⟩
      · exact hc
      · rw [hf] at ht
        cases ht

/-- Steps that poll no new task: the executor moves on, and the future of `t` with it. -/
theorem Sound.move (h : w.Sound U jobs) {b : Tcb} (hw : b.Wf) (hq : Awaits U b.runq) {t : TaskId}
    (ht : t ∉ U) {c : Future} (hc : ∀ job, c ≠ .unresumed job) {ch : Option (Stripes QueuedIo)}
    (hch : .init ∈ w.polled →
      ch.isSome ∨ ∃ v ∈ b.frames, Function.update w.future t c v = .opening) :
    Sound { w with tcb := b, future := Function.update w.future t c, iochTls := ch } U jobs := by
  refine ⟨hw, hq, ?_, ?_, h.sent, h.first, hch, h.enqueued⟩
  · rw [map_update ht]
    exact h.futures
  · intro v job hv
    by_cases he : v = t
    · rw [he] at hv
      exact absurd (by simpa using hv) (hc job)
    · exact h.all v job (by simpa [Function.update_of_ne he] using hv)

/-- Steps that leave the futures alone. -/
theorem Sound.carry (h : w.Sound U jobs) {b : Tcb} (hw : b.Wf) (hq : Awaits U b.runq)
    (hf : ∀ t ∈ w.tcb.frames, w.future t = .opening → t ∈ b.frames) :
    Sound { w with tcb := b } U jobs :=
  ⟨hw, hq, h.futures, h.all, h.sent, h.first,
    fun hp => (h.channel hp).imp_right fun ⟨t, ht, ho⟩ => ⟨t, hf t ht ho, ho⟩, h.enqueued⟩

/-- The task that is polled has been polled before, or it is the oldest one that has not. -/
theorem Sound.oldest (h : w.Sound U jobs) {b : Tcb} {t : TaskId}
    (hn : Runtime.next w.tcb (.pop t) = some b) :
    ((∀ job, w.future t ≠ .unresumed job) ∧ t ∉ U ∧ Awaits U b.runq) ∨
      ∃ V job js, U = t :: V ∧ jobs = job :: js ∧ w.future t = .unresumed job ∧ t ∉ V ∧
        Awaits V b.runq := by
  have ha := h.awaits
  cases next_step hn with
  | pop _ queue _ =>
    rw [queue] at ha
    rcases ha.leave with ⟨ht, ha⟩ | ⟨V, hU, ht, ha⟩
    · exact Or.inl ⟨fun job hj => ht (h.all t job hj), ht, ha⟩
    · have hfut := h.futures
      rw [hU] at hfut
      cases jobs with
      | nil => cases hfut
      | cons job js =>
        exact Or.inr ⟨V, job, js, hU, rfl, (List.cons.inj hfut).1, ht, ha⟩

/-- The oldest task is polled for the first time, and its future becomes `c`. -/
theorem Sound.begin {t : TaskId} {V : List TaskId} {job : Job} {js : List Job}
    (h : w.Sound (t :: V) (job :: js)) {b : Tcb} (hw : b.Wf) (ha : Awaits V b.runq) (ht : t ∉ V)
    {c : Future} (hc : ∀ job, c ≠ .unresumed job) {ch : Option (Stripes QueuedIo)}
    (hch : ch.isSome ∨ ∃ v ∈ b.frames, Function.update w.future t c v = .opening)
    {enq : List QueuedIo} (he : enq = (w.polled ++ [job]).filterMap Job.req) :
    Sound { w with tcb := b, future := Function.update w.future t c, iochTls := ch
                   polled := w.polled ++ [job], enqueued := enq } V js := by
  refine ⟨hw, ha, ?_, ?_, ?_, h.first, fun _ => hch, he⟩
  · rw [map_update ht]
    exact (List.cons.inj h.futures).2
  · intro v j hv
    by_cases hvt : v = t
    · rw [hvt] at hv
      exact absurd (by simpa using hv) (hc j)
    · have hv : w.future v = .unresumed j := by simpa [Function.update_of_ne hvt] using hv
      exact (List.mem_cons.mp (h.all v j hv)).resolve_left hvt
  · simp [h.sent]

/-- A request is preceded by the task of `init`. -/
theorem Sound.init_polled {req : QueuedIo} {js : List Job}
    (h : w.Sound U (.submit req :: js)) : .init ∈ w.polled := by
  have hf := h.first
  rw [h.sent] at hf
  cases hp : w.polled with
  | nil =>
    rw [hp] at hf
    exact absurd (hf (.submit req) rfl) (by simp)
  | cons j rest =>
    rw [hp] at hf
    rw [hf j rfl]
    exact List.mem_cons_self

theorem pop_frames {s b : Tcb} {t : TaskId} (hn : Runtime.next s (.pop t) = some b) :
    s.frames = [] ∧ t ∈ b.frames := by
  cases next_step hn with
  | pop empty _ _ => exact ⟨empty, List.mem_cons_self⟩

/-- At the first poll of a request the channel is there. -/
theorem Sound.channel_stored (h : w.Sound U jobs) {b : Tcb} {t : TaskId} {req : QueuedIo}
    (hn : Runtime.next w.tcb (.pop t) = some b) (hfut : w.future t = .unresumed (.submit req)) :
    .init ∈ w.polled ∧ w.iochTls.isSome := by
  rcases h.oldest hn with ⟨hnot, _⟩ | ⟨V, job, js, _, rfl, hj, _⟩
  · exact absurd hfut (hnot _)
  · cases hfut.symm.trans hj
    have hp := h.init_polled
    rcases h.channel hp with hc | ⟨v, hv, _⟩
    · exact ⟨hp, hc⟩
    · -- the loop of `Tcb::poll` takes a task when no other is on the stack
      rw [(pop_frames hn).1] at hv
      cases hv

/-- What a step of a worker comes to: never a request without its channel. -/
def Fine (w : Worker) : Except String Worker → Prop
  | .ok u => u.sent = w.sent ∧ ∃ V js, u.Sound V js
  | .error msg => msg ≠ "I/O channel not found"

/-- A task is polled, for the first time or once more. -/
theorem Sound.resume (h : w.Sound U jobs) {b : Tcb} {t : TaskId}
    (hn : Runtime.next w.tcb (.pop t) = some b) : Fine w (resume dev t { w with tcb := b }) := by
  have hw := next_wf h.wf hn
  obtain ⟨hf, hmem⟩ := pop_frames hn
  rcases h.oldest hn with ⟨hnot, _, ha⟩ | ⟨V, job, js, rfl, rfl, hj, ht, ha⟩
  · have hsame : Fine w (.ok { w with tcb := b }) :=
      ⟨rfl, U, jobs, h.carry hw ha (by simp [hf])⟩
    unfold Worker.resume
    cases hfut : w.future t with
    | unresumed job => exact absurd hfut (hnot job)
    | returning =>
      show "`async fn` resumed after completion" ≠ "I/O channel not found"
      decide
    | opening => exact hsame
    | draining k => exact hsame
    | foreign => exact hsame
  · unfold Worker.resume
    rw [hj]
    cases job with
    | init =>
      exact ⟨rfl, V, js, h.begin hw ha ht (by simp) (Or.inr ⟨t, hmem, Function.update_self ..⟩)
        (by simp [h.enqueued, Job.req])⟩
    | submit req =>
      obtain ⟨stripes, hs⟩ := Option.isSome_iff_exists.mp (h.channel_stored hn hj).2
      simp only [hs]
      refine ⟨rfl, V, js, h.begin hw ha ht (fun job => ?_) (Or.inl rfl)
        (by simp [h.enqueued, Job.req])⟩
      split <;> simp

theorem Sound.waiting (h : w.Sound U jobs) {e : Runtime.Event} {b : Tcb}
    (hn : Runtime.next w.tcb e = some b) (hs : ∀ t, e ≠ .spawn t) (hp : ∀ t, e ≠ .pop t) :
    Awaits U b.runq := by
  rcases runq_next h.wf hn hs with hq | ⟨t, hq⟩ | ⟨t, _, rfl⟩
  · rw [hq]
    exact h.awaits
  · rw [hq]
    exact h.awaits.push t
  · exact absurd rfl (hp t)

theorem Sound.ret (h : w.Sound U jobs) {t : TaskId} {r : Poll} {b : Tcb} {u : Worker}
    (hn : Runtime.next w.tcb (.ret t r) = some b) (hr : w.ret t r = some u) :
    Fine w (.ok { u with tcb := b }) := by
  have hw := next_wf h.wf hn
  have hq := h.waiting hn (by simp) (by simp)
  have hsame : w.future t ≠ .opening → Fine w (.ok { w with tcb := b }) := fun hne =>
    ⟨rfl, U, jobs, h.carry hw hq fun v hv ho => frames_next hn hv fun r' he => by
      cases he
      exact hne ho⟩
  unfold Worker.ret at hr
  split at hr
  · rename_i hfut
    cases hr
    have ht : t ∉ U := h.not_waiting (by simp [hfut])
    exact ⟨rfl, U, jobs, h.move hw hq ht (by simp) (fun _ => Or.inl rfl)⟩
  · rename_i hfut
    cases hr
    exact hsame (by simp [hfut])
  · rename_i hfut
    cases hr
    exact hsame (by simp [hfut])
  · rename_i hfut
    cases hr
    exact hsame (by simp [hfut])
  · cases hr

theorem Sound.exec (h : w.Sound U jobs) {e : Runtime.Event} {o : Except String Worker}
    (he : w.exec dev e = some o) : Fine w o := by
  have hother : ∀ b, Runtime.next w.tcb e = some b → (∀ t, e ≠ .spawn t) → (∀ t, e ≠ .pop t) →
      (∀ t r, e ≠ .ret t r) → Fine w (.ok { w with tcb := b }) := fun b hn hs hp hr =>
    ⟨rfl, U, jobs, h.carry (next_wf h.wf hn) (h.waiting hn hs hp)
      fun v hv _ => frames_next hn hv (hr v)⟩
  cases e with
  | spawn t => cases he
  | pop t =>
    obtain ⟨b, hn, rfl⟩ := Option.map_eq_some_iff.mp he
    exact h.resume hn
  | ret t r =>
    obtain ⟨b, hn, he⟩ := Option.bind_eq_some_iff.mp he
    obtain ⟨u, hr, he⟩ := Option.bind_eq_some_iff.mp he
    cases he
    exact h.ret hn hr
  | spawnLocal _ | start | skip _ | done | wake _ =>
    obtain ⟨b, hn, rfl⟩ := Option.map_eq_some_iff.mp he
    exact hother b hn (by simp) (by simp) (by simp)

theorem Sound.drain (h : w.Sound U jobs) {t : TaskId} {o : Except String Worker}
    (hd : w.drain t = some o) : Fine w o := by
  unfold Worker.drain at hd
  rw [Option.ite_none_right_eq_some] at hd
  obtain ⟨_, hd⟩ := hd
  split at hd
  · rename_i k stripes hfut hch
    have ht : t ∉ U := h.not_waiting (by simp [hfut])
    split at hd
    · cases hd
      show "untracked stripe" ≠ "I/O channel not found"
      decide
    · cases hd
      exact ⟨rfl, U, jobs, h.move h.wf h.awaits ht (by simp) (fun _ => Or.inl rfl)⟩
    · cases hd
      exact ⟨rfl, U, jobs, h.wf, h.awaits, h.futures, h.all, h.sent, h.first, fun _ => Or.inl rfl,
        h.enqueued⟩
  · cases hd

end Worker

/-! ## Every run of an array -/

namespace Workers
variable {dev : Raid5Bdev}

/-- Until the array is registered no request is sent; then every worker has its first task. -/
structure Sound (dev : Raid5Bdev) (s : Workers) : Prop where
  worker : ∀ i, ∃ U jobs, (s.worker i).Sound U jobs
  inited : ∀ i < s.inits, (s.worker i).sent ≠ []
  registered : s.registered → s.inits = dev.workers
  fine : s.panicked ≠ some "I/O channel not found"

theorem sound_start : start.Sound dev :=
  ⟨fun _ => ⟨[], [], Worker.sound_new⟩, by simp [start], by simp [start], by simp [start]⟩

/-- A step of one worker, which has had its first task if it is to have one. -/
theorem Sound.put {s : Workers} (h : s.Sound dev) {i : Nat} {w : Worker}
    (hw : ∃ U jobs, w.Sound U jobs) (hs : (s.worker i).sent ≠ [] → w.sent ≠ []) :
    (s.put i w).Sound dev := by
  refine ⟨fun j => ?_, fun j hj => ?_, h.registered, h.fine⟩
  · by_cases hji : j = i
    · simpa [Workers.put, hji] using hw
    · simpa [Workers.put, Function.update_of_ne hji] using h.worker j
  · by_cases hji : j = i
    · simpa [Workers.put, hji] using hs (hji ▸ h.inited j hj)
    · simpa [Workers.put, Function.update_of_ne hji] using h.inited j hj

theorem Sound.outcome {s : Workers} (h : s.Sound dev) {i : Nat} {o : Except String Worker}
    (ho : Worker.Fine (s.worker i) o) : (s.outcome i o).Sound dev := by
  cases o with
  | error msg => exact ⟨h.worker, h.inited, h.registered, fun he => ho (Option.some.inj he)⟩
  | ok w => exact h.put ho.2 (by simp [ho.1])

theorem sound_next {s u : Workers} {e : WorkersEvent} (h : s.Sound dev)
    (hn : s.next dev e = some u) : u.Sound dev := by
  unfold Workers.next at hn
  split at hn
  · cases hn
  · cases e with
    | init =>
      rw [Option.ite_none_right_eq_some] at hn
      obtain ⟨hlt, hn⟩ := hn
      cases hn
      obtain ⟨U, jobs, hs⟩ := h.worker s.inits
      have hp := h.put (i := s.inits) ⟨U, jobs, hs.spawn (Or.inl rfl)⟩ (by simp [Worker.spawn])
      refine ⟨hp.worker, fun j hj => ?_, fun hr => ?_, h.fine⟩
      · rcases Nat.lt_succ_iff_lt_or_eq.mp hj with hj | rfl
        · exact hp.inited j hj
        · simp [Workers.put, Worker.spawn]
      · exact absurd (h.registered hr) (Nat.ne_of_lt hlt)
    | register =>
      rw [Option.ite_none_right_eq_some] at hn
      obtain ⟨heq, hn⟩ := hn
      cases hn
      exact ⟨h.worker, h.inited, fun _ => heq, h.fine⟩
    | submit req =>
      rw [Option.ite_none_right_eq_some] at hn
      obtain ⟨hr, hn⟩ := hn
      cases hn
      have hsent := h.inited _ (h.registered hr ▸ dev.ownerIdx_lt (req.stripe dev))
      obtain ⟨U, jobs, hs⟩ := h.worker (dev.ownerIdx (req.stripe dev))
      exact h.put ⟨U, jobs, hs.spawn (Or.inr hsent)⟩ (by simp [Worker.spawn])
    | message i =>
      obtain ⟨w, hm, rfl⟩ := Option.map_eq_some_iff.mp hn
      obtain ⟨U, jobs, hs⟩ := h.worker i
      obtain ⟨hsent, hw⟩ := hs.message hm
      exact h.put hw (by simp [hsent])
    | exec i e =>
      obtain ⟨o, ho, rfl⟩ := Option.map_eq_some_iff.mp hn
      obtain ⟨U, jobs, hs⟩ := h.worker i
      exact h.outcome (hs.exec ho)
    | drain i t =>
      obtain ⟨o, ho, rfl⟩ := Option.map_eq_some_iff.mp hn
      obtain ⟨U, jobs, hs⟩ := h.worker i
      exact h.outcome (hs.drain ho)

end Workers

end Ironspdk.Raid5
