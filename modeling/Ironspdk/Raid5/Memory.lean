import Ironspdk.Raid5.Forget
import Ironspdk.Raid5.Serving

/-! # The device on its client's memory

The same device, on memory of bytes that belongs to the client. A request comes with segments
of that memory: a child reads into them, and writes what they hold when it is asked to. The
client may change its memory at any moment, but for the segments of requests that have not
been completed. Buffers of the allocator are numbered for each request as in the coarser model.
Requests are known by their numbers, in the order of submission. -/
namespace Ironspdk.Raid5.Scattered
open Ironspdk.Lib
open Ironspdk.Runtime (Build BdevIo IoStatus)

variable {n m : Nat}

/-- How many blocks of memory a request brings along. -/
def memBlocks (io : BdevIo) : Nat :=
  match io.ioType with
  | .read | .write => io.numBlocks
  | _ => 0

/-- A request and the segments of its memory. -/
structure Request (n : Nat) extends QueuedIo where
  seg : Segments n (memBlocks io)

/-- A request as it has been submitted, for the record with what its memory held then. -/
structure Submitted (n : Nat) extends Request n where
  given : List Byte

inductive Stage (n : Nat)
  | spawned
  | draining
  | processing (r : Nat) (prog : Task Unit) (frame : Frame (Block n))
  | finished
  | panicked (msg : String)

/-- The completion of request `req`, with what its memory holds then. -/
structure Answer where
  req : Nat
  sender : SpdkThread
  status : IoStatus
  bytes : List Byte

/-- The client's memory, the children, the `stripes` and the messages of each worker, the
requests and their tasks in the order of submission, and for the record the answers. -/
structure Device (n : Nat) where
  ram : Nat → Byte
  disks : Nat → Nat → Block n
  channels : Nat → Stripes Nat
  inbox : Nat → List Nat
  reqs : List (Submitted n)
  tasks : List (Stage n)
  log : List Answer

def Device.start (ram : Nat → Byte) (disks : Nat → Nat → Block n) : Device n :=
  { ram := ram, disks := disks, channels := fun _ _ => none, inbox := fun _ => [], reqs := []
    tasks := [], log := [] }

/-- What can happen next: as for the coarser device, or the client changes a byte. -/
inductive DevEvent (n : Nat)
  | submit (req : Request n)
  | start (worker : Nat)
  | dequeue (t : Nat) (heap : Nat → Nat → Block n)
  | step (t : Nat)
  | child (t : Nat) (e : ChildEvent (Block n))
  | client (a : Nat) (x : Byte)

def Request.stripe (dev : Raid5Bdev) (req : Request n) : Nat := dev.stripeIdx req.io.offsetBlocks

def Device.setStage (s : Device n) (t : Nat) (stage : Stage n) : Device n :=
  { s with tasks := s.tasks.set t stage }

/-- What the memory of request `x` holds. -/
def Device.bytes (s : Device n) (x : Submitted n) : List Byte := gather s.ram x.seg.addrs

def Device.submitIo (dev : Raid5Bdev) (s : Device n) (req : Request n) : Device n :=
  let owner := dev.ownerIdx (req.stripe dev)
  { s with reqs := s.reqs ++ [⟨req, gather s.ram req.seg.addrs⟩]
           tasks := s.tasks ++ [.spawned]
           inbox := Function.update s.inbox owner (s.inbox owner ++ [s.tasks.length]) }

def Device.begin (dev : Raid5Bdev) (s : Device n) (worker t : Nat) (rest : List Nat)
    (x : Submitted n) : Device n :=
  let (draining, stripes) := enqueue (s.channels worker) (x.stripe dev) t
  { s.setStage t (if draining then .finished else .draining) with
    inbox := Function.update s.inbox worker rest
    channels := Function.update s.channels worker stripes }

/-- The frame in which `process_req` starts; the buffers to come hold `heap`. -/
def frameOf (heap : Nat → Nat → Block n) : Frame (Block n) :=
  { mem := heap, bufs := 1, ios := [], completions := [], trace := [] }

def Device.drain (dev : Raid5Bdev) (overflowChecks : Bool) (s : Device n) (t : Nat)
    (x : Submitted n) (heap : Nat → Nat → Block n) : Option (Device n) :=
  let stripe := x.stripe dev
  let owner := dev.ownerIdx stripe
  match Raid5.dequeue (s.channels owner) stripe with
  | none => some (s.setStage t (.panicked "untracked stripe"))
  | some (none, stripes) =>
    some { s.setStage t .finished with channels := Function.update s.channels owner stripes }
  | some (some r, stripes) => (s.reqs[r]?).map fun y =>
    { s.setStage t (.processing r (processReq dev overflowChecks stripe y.toQueuedIo)
        (frameOf heap)) with
      channels := Function.update s.channels owner stripes }

/-- What an operation of request `r` adds to the record. -/
def answers (r : Nat) (bytes : List Byte) : Op → List Answer
  | .complete sender status => [⟨r, sender, status, bytes⟩]
  | _ => []

/-- A step of task `t` on the frame, the children and the client's memory. -/
def Device.put (s : Device n) (t r : Nat) (prog : Task Unit) (u : Proc n) : Device n :=
  { s.setStage t (.processing r prog u.toFrame) with disks := u.disks, ram := u.ram }

def Device.operate (b : Build) (s : Device n) (t r : Nat) (x : Submitted n) (prog : Task Unit)
    (frame : Frame (Block n)) : Option (Device n) :=
  match prog with
  | .ret _ => some (s.setStage t .draining)
  | .op (.panic msg) _ => some (s.setStage t (.panicked msg))
  | .op o k => (perform b x.seg o ⟨⟨frame, s.disks⟩, s.ram⟩).map fun (res, u) =>
    { s.put t r (k res) u with log := s.log ++ answers r (s.bytes x) o }

def Device.next (b : Build) (dev : Raid5Bdev) (ch : Children) (overflowChecks : Bool)
    (s : Device n) : DevEvent n → Option (Device n)
  | .submit req => some (s.submitIo dev req)
  | .start worker =>
    match s.inbox worker with
    | [] => none
    | t :: rest => (s.reqs[t]?).map (s.begin dev worker t rest)
  | .dequeue t heap => do
    let x ← s.reqs[t]?
    match s.tasks[t]? with
    | some .draining => s.drain dev overflowChecks t x heap
    | _ => none
  | .step t =>
    match s.tasks[t]? with
    | some (.processing r prog frame) => (s.reqs[r]?).bind fun x => s.operate b t r x prog frame
    | _ => none
  | .child t e =>
    match s.tasks[t]? with
    | some (.processing r prog frame) => (s.reqs[r]?).bind fun x =>
      (react ch x.seg ⟨⟨frame, s.disks⟩, s.ram⟩ e).map (s.put t r prog)
    | _ => none
  | .client a x => some { s with ram := Function.update s.ram a x }

section step
variable {b : Build} {dev : Raid5Bdev} {ch : Children} {overflowChecks : Bool} {s s' : Device n}

/-- What a step of the device itself does to the requests and to the client's memory: a request
comes in, or a request in service performs an operation or has a child I/O move on. -/
theorem next_cases {e : DevEvent n} (hn : s.next b dev ch overflowChecks e = some s')
    (hdevice : ∀ a c, e ≠ .client a c) :
    (∃ req, e = .submit req ∧ s' = s.submitIo dev req) ∨
      s'.reqs = s.reqs ∧ (s'.ram = s.ram ∨ ∃ (t r : Nat) (prog : Task Unit)
        (f : Frame (Block n)) (x : Submitted n) (u : Proc n),
        s.tasks[t]? = some (.processing r prog f) ∧ s.reqs[r]? = some x ∧ s'.ram = u.ram ∧
        ((∃ o k res, prog = .op o k ∧
            perform b x.seg o ⟨⟨f, s.disks⟩, s.ram⟩ = some (res, u)) ∨
          ∃ ce, react ch x.seg ⟨⟨f, s.disks⟩, s.ram⟩ ce = some u)) := by
  cases e with
  | submit req =>
    cases hn
    exact Or.inl ⟨req, rfl, rfl⟩
  | start v =>
    simp only [Device.next] at hn
    split at hn
    · cases hn
    · obtain ⟨x, _, rfl⟩ := Option.map_eq_some_iff.mp hn
      exact Or.inr ⟨rfl, Or.inl rfl⟩
  | dequeue t heap =>
    obtain ⟨x, _, hn⟩ := Option.bind_eq_some_iff.mp hn
    split at hn
    · unfold Device.drain at hn
      simp only at hn
      split at hn
      · cases hn
        exact Or.inr ⟨rfl, Or.inl rfl⟩
      · cases hn
        exact Or.inr ⟨rfl, Or.inl rfl⟩
      · obtain ⟨y, _, rfl⟩ := Option.map_eq_some_iff.mp hn
        exact Or.inr ⟨rfl, Or.inl rfl⟩
    · cases hn
  | step t =>
    simp only [Device.next] at hn
    split at hn
    · rename_i r prog f hs
      obtain ⟨x, hx, hn⟩ := Option.bind_eq_some_iff.mp hn
      unfold Device.operate at hn
      split at hn
      · cases hn
        exact Or.inr ⟨rfl, Or.inl rfl⟩
      · cases hn
        exact Or.inr ⟨rfl, Or.inl rfl⟩
      · obtain ⟨⟨res, u⟩, hu, rfl⟩ := Option.map_eq_some_iff.mp hn
        exact Or.inr ⟨rfl, Or.inr ⟨t, r, _, f, x, u, hs, hx, rfl, Or.inl ⟨_, _, res, rfl, hu⟩⟩⟩
    · cases hn
  | child t ce =>
    simp only [Device.next] at hn
    split at hn
    · rename_i r prog f hs
      obtain ⟨x, hx, hn⟩ := Option.bind_eq_some_iff.mp hn
      obtain ⟨u, hu, rfl⟩ := Option.map_eq_some_iff.mp hn
      exact Or.inr ⟨rfl, Or.inr ⟨t, r, prog, f, x, u, hs, hx, rfl, Or.inr ⟨ce, hu⟩⟩⟩
    · cases hn
  | client a c => exact absurd rfl (hdevice a c)

end step

/-! ## What the client keeps to -/

/-- Request `t` has been submitted and not been completed. -/
def Device.Open (s : Device n) (t : Nat) (x : Submitted n) : Prop :=
  s.reqs[t]? = some x ∧ ∀ a ∈ s.log, a.req ≠ t

/-- Two requests share no memory, unless both only read it. -/
def Apart (x y : Request n) : Prop :=
  (x.io.ioType ≠ .read ∧ y.io.ioType ≠ .read) ∨ ∀ a ∈ x.seg.addrs, a ∉ y.seg.addrs

instance (x y : Request n) : Decidable (Apart x y) := inferInstanceAs (Decidable (_ ∨ _))

instance (s : Device n) (P : Nat → Submitted n → Prop) [∀ t x, Decidable (P t x)] :
    Decidable (∀ t x, s.Open t x → P t x) :=
  decidable_of_iff (∀ t < s.reqs.length, ∀ x ∈ s.reqs[t]?, (∀ a ∈ s.log, a.req ≠ t) → P t x)
    ⟨fun h t x ho => h t (List.getElem?_eq_some_iff.mp ho.1).1 x ho.1 ho.2,
      fun h t _ x hx hno => h t x ⟨hx, hno⟩⟩

/-- The memory of a request belongs to the device until the request is completed, and a read is
into memory of its own. -/
def Lends (s : Device n) : DevEvent n → Prop
  | .submit req => (req.io.ioType = .read → req.seg.Disjoint) ∧
      ∀ t x, s.Open t x → Apart req x.toRequest
  | .client a _ => ∀ t x, s.Open t x → a ∉ x.seg.addrs
  | _ => True

instance (seg : Segments n m) : Decidable seg.Disjoint :=
  decidable_of_iff (seg.view.iovs.Pairwise fun v w => ∀ a ∈ v.addrs, a ∉ w.addrs) Iff.rfl

instance (s : Device n) : (e : DevEvent n) → Decidable (Lends s e)
  | .submit _ => inferInstanceAs (Decidable (_ ∧ _))
  | .client a _ => inferInstanceAs (Decidable (∀ t x, s.Open t x → a ∉ x.seg.addrs))
  | .start _ | .dequeue .. | .step _ | .child .. => isTrue trivial

end Ironspdk.Raid5.Scattered
