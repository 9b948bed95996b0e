import Ironspdk.Raid1.Latest
import Ironspdk.Raid5.Memory

/-! # The mirror on its client's memory

The same mirror, on memory of bytes that belongs to the client. A request comes with segments of
that memory, and `Io::from_bdev_io` makes every child I/O refer to all of them: a child read goes
into them, a child write stores what they hold when the child takes it. The client may change its
memory at any moment, but for the segments of requests that have not been completed. Blocks and
segments are those of the RAID5 array. -/
namespace Ironspdk.Raid1.Scattered
open Ironspdk.Lib Ironspdk.Runtime
open Ironspdk.Raid5.Scattered (Block Segments memBlocks toBlocks toBytes)

variable {n : Nat}

/-- A request: its channel and the segments of its memory. -/
structure Request (n : Nat) where
  io : BdevIo
  ch : Nat
  seg : Segments n (memBlocks io)

/-- A request in progress, with one child I/O for each child. -/
structure Req (n : Nat) extends Request n where
  ios : Nat → ChildIo
  next : Nat
  phase : Phase

/-- The completion of request `req`, with what its memory holds then. -/
structure Answer where
  req : Nat
  status : IoStatus
  bytes : List Byte

/-- The client's memory and the mirror: contents of the children, channels, requests in the
order of submission, and for the record the answers. -/
structure Mirror (n : Nat) where
  ram : Nat → Byte
  overflowChecks : Bool
  disks : Nat → Nat → Block n
  chans : Nat → Raid1IoChannel
  reqs : List (Req n)
  log : List Answer
  panicked : Bool

/-- What can happen next: as for the coarser mirror, or the client changes a byte. -/
inductive MirrorEvent (n : Nat)
  | submit (req : Request n)
  | serve (r c : Nat)
  | finish (r c : Nat)
  | fail (r c : Nat) (junk : Nat → Block n)
  | resume (r : Nat)
  | client (a : Nat) (x : Byte)

namespace Req

/-- What the segments of the request hold. -/
def data (x : Req n) (ram : Nat → Byte) : Nat → Block n := toBlocks n (gather ram x.seg.addrs)

/-- What a child holds once it has stored the data of the request. -/
def store (x : Req n) (ram : Nat → Byte) (disk : Nat → Block n) : Nat → Block n := fun b =>
  if x.io.offsetBlocks ≤ b ∧ b < x.io.offsetBlocks + x.io.numBlocks then
    x.data ram (b - x.io.offsetBlocks)
  else disk b

/-- The client's memory once `blocks` have been read into the segments. -/
def fill (x : Req n) (ram : Nat → Byte) (blocks : Nat → Block n) : Nat → Byte :=
  scatter ram x.seg.addrs (toBytes (memBlocks x.io) blocks)

def setIo (x : Req n) (c : Nat) (i : ChildIo) : Req n :=
  { x with ios := Function.update x.ios c i }

def readOn (x : Req n) : ReadPhase → Req n
  | .awaiting left c _ =>
    { x with phase := .reading left, next := c, ios := Function.update x.ios c .inFlight }
  | .completed status => { x with phase := .completed status }

end Req

/-- A request with no child I/O yet; of a type the driver does not support, it ends here. -/
def newReq (req : Request n) : Req n := ⟨req, fun _ => .ended false, 0, .completed .failure⟩

/-- What request `r` adds to the record when it has come to the phase it is in. -/
def answers (r : Nat) (ram : Nat → Byte) (x : Req n) : List Answer :=
  match x.phase with
  | .completed status => [⟨r, status, gather ram x.seg.addrs⟩]
  | _ => []

namespace Mirror

def start (children : Nat) (overflowChecks : Bool) (ram : Nat → Byte)
    (disks : Nat → Nat → Block n) : Mirror n :=
  ⟨ram, overflowChecks, disks, fun _ => ⟨children, 0⟩, [], [], false⟩

/-- Request `r` goes on, to another await or to its end. -/
def goOn (s : Mirror n) (r : Nat) (x : Req n) : Mirror n :=
  { s with reqs := s.reqs.set r x, log := s.log ++ answers r s.ram x }

def setReq (s : Mirror n) (r : Nat) (x : Req n) : Mirror n := { s with reqs := s.reqs.set r x }

def setChan (s : Mirror n) (k : Nat) (ch : Raid1IoChannel) : Mirror n :=
  { s with chans := Function.update s.chans k ch }

def add (s : Mirror n) (x : Req n) : Mirror n :=
  { s with reqs := s.reqs ++ [x], log := s.log ++ answers s.reqs.length s.ram x }

/-- `submit_io`, up to the first await of the request. -/
def submitIo (s : Mirror n) (req : Request n) : Mirror n :=
  match req.io.ioType with
  | .read =>
    let (ch, p) := read (s.chans req.ch)
    (s.setChan req.ch ch).add ((newReq req).readOn p)
  | .write =>
    let ndisks := (s.chans req.ch).children
    s.add { newReq req with
      ios := fun c => if c < ndisks then .inFlight else .ended false
      phase := writeLoop ndisks 0 .failure 0 }
  | _ => s.add (newReq req)

/-- Child `c` stores the data of a write or fetches those of a read. -/
def serve (s : Mirror n) (r : Nat) (x : Req n) (c : Nat) : Mirror n :=
  if x.io.ioType = .write then
    { s with disks := Function.update s.disks c (x.store s.ram (s.disks c)) }.setReq r
      (x.setIo c .served)
  else
    { s with ram := x.fill s.ram fun i => s.disks c (x.io.offsetBlocks + i) }.setReq r
      (x.setIo c .served)

/-- A failed child read may leave anything in the segments. -/
def fail (s : Mirror n) (r : Nat) (x : Req n) (c : Nat) (junk : Nat → Block n) : Mirror n :=
  { s with ram := if x.io.ioType = IoType.write then s.ram else x.fill s.ram junk }.setReq r
    (x.setIo c (.ended false))

def resumeRead (s : Mirror n) (r : Nat) (x : Req n) (left : Nat) (success : Bool) : Mirror n :=
  let (ch, p) := readResume left success (s.chans x.ch)
  (s.setChan x.ch ch).goOn r (x.readOn p)

/-- A request whose awaited child I/O has ended goes on. -/
def resume (s : Mirror n) (r : Nat) (x : Req n) : Option (Mirror n) :=
  match x.phase with
  | .reading left =>
    match x.ios x.next with
    | .ended b => some (s.resumeRead r x left b)
    | _ => none
  | .writing idx status failMask =>
    match x.ios idx with
    | .ended b =>
      match writeResume s.overflowChecks (s.chans x.ch).children idx status failMask b with
      | some p => some (s.goOn r { x with phase := p })
      | none => some { s with panicked := true }
    | _ => none
  | .completed _ => none

def step (s : Mirror n) : MirrorEvent n → Option (Mirror n)
  | .submit req => some (s.submitIo req)
  | .serve r c => (s.reqs[r]?).bind fun x =>
    if x.ios c = .inFlight then some (s.serve r x c) else none
  | .finish r c => (s.reqs[r]?).bind fun x =>
    if x.ios c = .served then some (s.setReq r (x.setIo c (.ended true))) else none
  | .fail r c junk => (s.reqs[r]?).bind fun x =>
    if x.ios c = .inFlight then some (s.fail r x c junk) else none
  | .resume r => (s.reqs[r]?).bind fun x => s.resume r x
  | .client a b => some { s with ram := Function.update s.ram a b }

def next (s : Mirror n) (e : MirrorEvent n) : Option (Mirror n) :=
  if s.panicked then none else s.step e

end Mirror

/-! ## What the client keeps to -/

/-- Request `r` has been submitted and not been completed. -/
def Mirror.Open (s : Mirror n) (r : Nat) (x : Req n) : Prop :=
  s.reqs[r]? = some x ∧ ¬ x.phase.Ended

/-- Two requests share no memory, unless both only read it. -/
def Apart (x y : Request n) : Prop :=
  (x.io.ioType ≠ .read ∧ y.io.ioType ≠ .read) ∨ ∀ a ∈ x.seg.addrs, a ∉ y.seg.addrs

instance (x y : Request n) : Decidable (Apart x y) := inferInstanceAs (Decidable (_ ∨ _))

instance (s : Mirror n) (P : Req n → Prop) [∀ x, Decidable (P x)] :
    Decidable (∀ r x, s.Open r x → P x) :=
  decidable_of_iff (∀ x ∈ s.reqs, ¬ x.phase.Ended → P x)
    ⟨fun h _ x ho => h x (List.mem_of_getElem? ho.1) ho.2, fun h x hx hp => by
      obtain ⟨r, hr⟩ := List.mem_iff_getElem?.mp hx
      exact h r x ⟨hr, hp⟩⟩

/-- The memory of a request belongs to the mirror until the request is completed, and a read is
into memory of its own. -/
def Lends (s : Mirror n) : MirrorEvent n → Prop
  | .submit req => (req.io.ioType = .read → req.seg.Disjoint) ∧
      ∀ r x, s.Open r x → Apart req x.toRequest
  | .client a _ => ∀ r x, s.Open r x → a ∉ x.seg.addrs
  | _ => True

instance (s : Mirror n) : (e : MirrorEvent n) → Decidable (Lends s e)
  | .submit req => inferInstanceAs (Decidable ((req.io.ioType = .read → req.seg.Disjoint) ∧
      ∀ r x, s.Open r x → Apart req x.toRequest))
  | .client a _ => inferInstanceAs (Decidable (∀ r x, s.Open r x → a ∉ x.seg.addrs))
  | .serve .. | .finish .. | .fail .. | .resume _ => isTrue trivial

end Ironspdk.Raid1.Scattered
