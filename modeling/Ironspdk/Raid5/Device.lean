import Ironspdk.Raid5.ProcessReq

/-! # The device

All workers of an array and the requests that have been submitted to it. `submit_io`
sends a task to the worker that owns the stripe of the request; a worker begins the tasks
sent to it in the order in which they were sent. The task enqueues its request and, unless
the stripe is being drained, drains it. Between two operations of a task any other task
may run. SPDK has checked the range of a request, so no sum of block numbers overflows.
What a child read of a request that has ended still does is not followed. -/
namespace Ironspdk.Raid5
open Ironspdk.Lib Ironspdk.Runtime

/-! ## The queues of a worker -/

structure StripeQueue (R : Type) where
  pending : List R := []
  draining : Bool := false

/-- `Raid5IoChannel::stripes` of one worker. -/
abbrev Stripes (R : Type) := Nat → Option (StripeQueue R)

/-- `Raid5IoChannel::enqueue`: whether the stripe was being drained, and the map after it. -/
def enqueue {R : Type} (stripes : Stripes R) (stripeIdx : Nat) (req : R) : Bool × Stripes R :=
  let sq := (stripes stripeIdx).getD {}
  (sq.draining, Function.update stripes stripeIdx (some ⟨sq.pending ++ [req], true⟩))

/-- `Raid5IoChannel::dequeue`; it panics on a stripe without an entry. -/
def dequeue {R : Type} (stripes : Stripes R) (stripeIdx : Nat) : Option (Option R × Stripes R) := do
  let sq ← stripes stripeIdx
  match sq.pending with
  | req :: rest =>
    return (some req, Function.update stripes stripeIdx (some { sq with pending := rest }))
  | [] => return (none, Function.update stripes stripeIdx none)

/-! ## Tasks -/

/-- A request with what its memory holds when it is submitted. -/
structure Request (B : Type) extends QueuedIo where
  mem : Nat → B

variable {B : Type}

/-- The stripe of a request, as `submit_io` computes it. -/
def Request.stripe (dev : Raid5Bdev) (req : Request B) : Nat := dev.stripeIdx req.io.offsetBlocks

/-- How far the task of a request is: sent to its worker; between two requests of its
drain loop; in `process_req` for `req`; over. -/
inductive Stage (B : Type)
  | spawned
  | draining
  | processing (req : Request B) (prog : Task Unit) (frame : Frame B)
  | finished
  | panicked (msg : String)

/-- What a task has panicked with. -/
def Stage.message : Stage B → Option String
  | .panicked msg => some msg
  | _ => none

structure IoTask (B : Type) where
  req : Request B
  stage : Stage B

/-- The completion of a request, with what its memory holds then. -/
structure Answer (B : Type) where
  req : Request B
  sender : SpdkThread
  status : IoStatus
  mem : Nat → B

/-- The state of a device: the children, the `stripes` and the messages of each worker, the
tasks in the order of submission, and for the record which requests have been enqueued,
dequeued and answered so far. -/
structure Device (B : Type) where
  disks : Nat → Nat → B
  channels : Nat → Stripes (Request B)
  inbox : Nat → List Nat
  tasks : List (IoTask B)
  enqueued : List (Request B)
  dequeued : List (Request B)
  log : List (Answer B)

/-- Before the first request. -/
def Device.start (disks : Nat → Nat → B) : Device B :=
  { disks := disks, channels := fun _ _ => none, inbox := fun _ => [], tasks := []
    enqueued := [], dequeued := [], log := [] }

/-- What can happen next: a request is submitted; a worker begins the next task sent to it;
task `t` takes the next request from its queue, new buffers being filled with `heap`; it
performs the next operation of `process_req`; a child I/O of its request moves on. -/
inductive DevEvent (B : Type)
  | submit (req : Request B)
  | start (worker : Nat)
  | dequeue (t : Nat) (heap : Nat → Nat → B)
  | step (t : Nat)
  | child (t : Nat) (e : ChildEvent B)

def Device.setStage (s : Device B) (t : Nat) (task : IoTask B) (stage : Stage B) : Device B :=
  { s with tasks := s.tasks.set t { task with stage := stage } }

/-- What an operation adds to the record. -/
def answers (req : Request B) (frame : Frame B) : Op → List (Answer B)
  | .complete sender status => [⟨req, sender, status, frame.mem 0⟩]
  | _ => []

/-- `process_req` begins on a request: number 0 of its buffers is its own memory. -/
def Frame.start (req : Request B) (heap : Nat → Nat → B) : Frame B :=
  { mem := Function.update heap 0 req.mem, bufs := 1, ios := [], completions := [], trace := [] }

/-- `submit_io`, up to the message to the owner. -/
def Device.submitIo (dev : Raid5Bdev) (s : Device B) (req : Request B) : Device B :=
  let owner := dev.ownerIdx (req.stripe dev)
  { s with tasks := s.tasks ++ [⟨req, .spawned⟩]
           inbox := Function.update s.inbox owner (s.inbox owner ++ [s.tasks.length]) }

/-- The first part of the task of `submit_io`: it enqueues the request. -/
def Device.begin (dev : Raid5Bdev) (s : Device B) (worker t : Nat) (rest : List Nat)
    (task : IoTask B) : Device B :=
  let (draining, stripes) := enqueue (s.channels worker) (task.req.stripe dev) task.req
  { s.setStage t task (if draining then .finished else .draining) with
    inbox := Function.update s.inbox worker rest
    channels := Function.update s.channels worker stripes
    enqueued := s.enqueued ++ [task.req] }

/-- The head of the drain loop. -/
def Device.drain (dev : Raid5Bdev) (overflowChecks : Bool) (s : Device B) (t : Nat)
    (task : IoTask B) (heap : Nat → Nat → B) : Device B :=
  let stripe := task.req.stripe dev
  let owner := dev.ownerIdx stripe
  match Raid5.dequeue (s.channels owner) stripe with
  | none => s.setStage t task (.panicked "untracked stripe")
  | some (none, stripes) =>
    { s.setStage t task .finished with channels := Function.update s.channels owner stripes }
  | some (some req, stripes) =>
    { s.setStage t task (.processing req (processReq dev overflowChecks stripe req.toQueuedIo)
        (Frame.start req heap)) with
      channels := Function.update s.channels owner stripes
      dequeued := s.dequeued ++ [req] }

/-- One operation of `process_req`; when it returns, the drain loop goes on. -/
def Device.operate [Add B] [Zero B] (s : Device B) (t : Nat) (task : IoTask B) (req : Request B)
    (prog : Task Unit) (frame : Frame B) : Option (Device B) :=
  match prog with
  | .ret _ => some (s.setStage t task .draining)
  | .op (.panic msg) _ => some (s.setStage t task (.panicked msg))
  | .op o k =>
    (perform o ⟨frame, s.disks⟩).map fun (r, u) =>
      { s.setStage t task (.processing req (k r) u.toFrame) with
        disks := u.disks, log := s.log ++ answers req frame o }

def Device.next [Add B] [Zero B] (dev : Raid5Bdev) (ch : Children) (overflowChecks : Bool)
    (s : Device B) : DevEvent B → Option (Device B)
  | .submit req => some (s.submitIo dev req)
  | .start worker =>
    match s.inbox worker with
    | [] => none
    | t :: rest => (s.tasks[t]?).map (s.begin dev worker t rest)
  | .dequeue t heap => do
    let task ← s.tasks[t]?
    match task.stage with
    | .draining => some (s.drain dev overflowChecks t task heap)
    | _ => none
  | .step t => do
    let task ← s.tasks[t]?
    match task.stage with
    | .processing req prog frame => s.operate t task req prog frame
    | _ => none
  | .child t e => do
    let task ← s.tasks[t]?
    match task.stage with
    | .processing req prog frame =>
      (ch.react ⟨frame, s.disks⟩ e).map fun u =>
        { s.setStage t task (.processing req prog u.toFrame) with disks := u.disks }
    | _ => none

/-- The steps of a device, with what each of them finds. -/
inductive Device.Step [Add B] [Zero B] (dev : Raid5Bdev) (ch : Children) (overflowChecks : Bool)
    (s : Device B) : DevEvent B → Device B → Prop
  | submit (req : Request B) : Step dev ch overflowChecks s (.submit req) (s.submitIo dev req)
  | start {worker t : Nat} {rest : List Nat} {task : IoTask B} (hbox : s.inbox worker = t :: rest)
      (ht : s.tasks[t]? = some task) :
      Step dev ch overflowChecks s (.start worker) (s.begin dev worker t rest task)
  | drain {t : Nat} {task : IoTask B} {heap : Nat → Nat → B} (ht : s.tasks[t]? = some task)
      (hst : task.stage = .draining) :
      Step dev ch overflowChecks s (.dequeue t heap) (s.drain dev overflowChecks t task heap)
  | ret {t : Nat} {task : IoTask B} {req : Request B} {frame : Frame B}
      (ht : s.tasks[t]? = some task) (hst : task.stage = .processing req (.ret ()) frame) :
      Step dev ch overflowChecks s (.step t) (s.setStage t task .draining)
  | panic {t : Nat} {task : IoTask B} {req : Request B} {frame : Frame B} {msg : String}
      {k : Res (.panic msg) → Task Unit} (ht : s.tasks[t]? = some task)
      (hst : task.stage = .processing req (.op (.panic msg) k) frame) :
      Step dev ch overflowChecks s (.step t) (s.setStage t task (.panicked msg))
  | perform {t : Nat} {task : IoTask B} {req : Request B} {frame : Frame B} {o : Op} {r : Res o}
      {k : Res o → Task Unit} {u : Proc B} (ht : s.tasks[t]? = some task)
      (hst : task.stage = .processing req (.op o k) frame)
      (hp : Raid5.perform o ⟨frame, s.disks⟩ = some (r, u)) :
      Step dev ch overflowChecks s (.step t)
        { s.setStage t task (.processing req (k r) u.toFrame) with
          disks := u.disks, log := s.log ++ answers req frame o }
  | child {t : Nat} {task : IoTask B} {req : Request B} {prog : Task Unit} {frame : Frame B}
      {e : ChildEvent B} {u : Proc B} (ht : s.tasks[t]? = some task)
      (hst : task.stage = .processing req prog frame)
      (hr : ch.react ⟨frame, s.disks⟩ e = some u) :
      Step dev ch overflowChecks s (.child t e)
        { s.setStage t task (.processing req prog u.toFrame) with disks := u.disks }

theorem Device.next_step [Add B] [Zero B] {dev : Raid5Bdev} {ch : Children} {overflowChecks : Bool}
    {s s' : Device B} {e : DevEvent B} (h : s.next dev ch overflowChecks e = some s') :
    Step dev ch overflowChecks s e s' := by
  cases e with
  | submit req =>
    cases h
    exact .submit req
  | start worker =>
    simp only [Device.next] at h
    split at h
    · cases h
    · rename_i t rest hbox
      obtain ⟨task, ht, rfl⟩ := Option.map_eq_some_iff.mp h
      exact .start hbox ht
  | dequeue t heap =>
    obtain ⟨task, ht, h⟩ := Option.bind_eq_some_iff.mp h
    split at h
    · rename_i hst
      cases h
      exact .drain ht hst
    · cases h
  | step t =>
    obtain ⟨task, ht, h⟩ := Option.bind_eq_some_iff.mp h
    split at h
    · rename_i req prog frame hst
      unfold Device.operate at h
      split at h
      · cases h
        exact .ret ht hst
      · cases h
        exact .panic ht hst
      · obtain ⟨⟨r, u⟩, hp, rfl⟩ := Option.map_eq_some_iff.mp h
        exact .perform ht hst hp
    · cases h
  | child t e =>
    obtain ⟨task, ht, h⟩ := Option.bind_eq_some_iff.mp h
    split at h
    · rename_i req prog frame hst
      obtain ⟨u, hr, rfl⟩ := Option.map_eq_some_iff.mp h
      exact .child ht hst hr
    · cases h

end Ironspdk.Raid5
