import Mathlib.Logic.Function.Basic
import Ironspdk.Lib.Async
import Ironspdk.Raid5.Strips

/-! # Child I/O of a request

The memory of a request that a worker processes, the child reads and writes it has
submitted, and what its program may do: allocate, combine buffers, `Lbdev::read` and
`Lbdev::write`, await a future, drop an `Io` or an `LbdevIoCtx`, complete the request. A
child I/O takes effect at one moment between its submission and its completion. A write
stores what its buffer held when it was submitted; with `late`, what the buffer holds
when the child reads it, which is anything once the `Io` is dropped. A submission that
returns an error is a failure that comes at once. -/
namespace Ironspdk.Raid5
open Ironspdk.Lib Ironspdk.Runtime

/-- An SPDK thread, by its id. -/
abbrev SpdkThread := Nat

/-- What a child I/O is for: a read of the request itself or of old contents, a read of
`reconstruct`, a write. -/
inductive Kind
  | fetch | rebuild | store
  deriving DecidableEq, Repr

theorem Kind.fetch_ne_store : Kind.fetch ≠ .store := fun h => by cases h

theorem Kind.rebuild_ne_store : Kind.rebuild ≠ .store := fun h => by cases h

structure ChildReq where
  kind : Kind
  disk : Nat
  io : Io
  deriving DecidableEq, Repr

inductive Phase
  | inFlight | applied | done (success : Bool)
  deriving DecidableEq, Repr

/-- A submitted child I/O; `data` is what its view showed at submission. -/
structure ChildIo (B : Type) where
  req : ChildReq
  data : Nat → B
  phase : Phase

/-- What the `c`-th child I/O of a request uses: the `Io` handed over, and the context. -/
inductive Resource
  | io (c : Nat)
  | ctx (c : Nat)
  deriving DecidableEq, Repr

inductive TraceEvent
  | submit (c : Nat)
  | complete (c : Nat) (success : Bool)
  | drop (r : Resource)
  deriving DecidableEq, Repr

/-- The part of the state that belongs to one request. Buffers are numbered as they are
allocated; `mem b i` is block `i` of buffer `b`. -/
structure Frame (B : Type) where
  mem : Nat → Nat → B
  bufs : Nat
  ios : List (ChildIo B)
  completions : List (SpdkThread × IoStatus)
  trace : List TraceEvent

/-- A request together with the contents of the children, by disk and block. -/
structure Proc (B : Type) extends Frame B where
  disks : Nat → Nat → B

inductive Op
  | alloc (zeroed : Bool)
  | xor (dst start : Nat) (io : Io)
  | copy (io : Io) (src : Nat)
  | submit (req : ChildReq)
  | await (c : Nat)
  | drop (r : Resource)
  | complete (sender : SpdkThread) (status : IoStatus)
  | panic (msg : String)
  deriving DecidableEq, Repr

/-- What an operation returns: a buffer, a child I/O, its status; a panic does not return. -/
abbrev Res : Op → Type
  | .alloc _ | .submit _ => Nat
  | .await _ => Bool
  | .panic _ => Empty
  | _ => Unit

variable {B : Type}

/-- What a view shows. -/
def load (io : Io) (mem : Nat → Nat → B) : Nat → B := fun j => mem io.mem (io.start + j)

/-- The memory after `data` is put into a view. -/
def store (io : Io) (data : Nat → B) (mem : Nat → Nat → B) : Nat → Nat → B :=
  fun b i => if io.Covers b i then data (i - io.start) else mem b i

/-- Block `i` of child `disk` is one that the I/O is for. -/
def ChildReq.Hits (r : ChildReq) (disk row : Nat) : Prop :=
  r.disk = disk ∧ r.io.offsetBlocks ≤ row ∧ row < r.io.offsetBlocks + r.io.numBlocks

instance (r : ChildReq) (disk row : Nat) : Decidable (r.Hits disk row) :=
  inferInstanceAs (Decidable (_ ∧ _))

/-- The children after a write of `data`. -/
def writeDisk (r : ChildReq) (data : Nat → B) (disks : Nat → Nat → B) : Nat → Nat → B :=
  fun x row => if r.Hits x row then data (row - r.io.offsetBlocks) else disks x row

/-- The memory after the view is combined into buffer `dst` from block `start` on. -/
def xorInto [Add B] (dst start : Nat) (io : Io) (mem : Nat → Nat → B) : Nat → Nat → B :=
  fun b i => if b = dst ∧ start ≤ i ∧ i < start + io.numBlocks
    then mem b i + load io mem (i - start) else mem b i

/-! ## Operations -/

def perform [Add B] [Zero B] : (o : Op) → Proc B → Option (Res o × Proc B)
  | .alloc zeroed, s =>
    some (s.bufs, { s with bufs := s.bufs + 1
                           mem := if zeroed then Function.update s.mem s.bufs 0 else s.mem })
  | .xor dst start io, s => some ((), { s with mem := xorInto dst start io s.mem })
  | .copy io src, s => some ((), { s with mem := store io (s.mem src) s.mem })
  | .submit req, s =>
    some (s.ios.length, { s with ios := s.ios ++ [⟨req, load req.io s.mem, .inFlight⟩]
                                 trace := s.trace ++ [.submit s.ios.length] })
  | .await c, s =>
    match s.ios[c]? with
    | some ⟨_, _, .done b⟩ => some (b, s)
    | _ => none
  | .drop r, s => some ((), { s with trace := s.trace ++ [.drop r] })
  | .complete sender status, s =>
    some ((), { s with completions := s.completions ++ [(sender, status)] })
  | .panic _, _ => none

/-! ## Child devices -/

/-- How the children behave: which statuses the I/Os of a disk may end with, and when a
child reads the buffer of a write. -/
structure Children where
  allow : Nat → Bool → Bool
  late : Bool

inductive ChildEvent (B : Type)
  | apply (c : Nat) (junk : Nat → B)
  | finish (c : Nat)
  | fail (c : Nat) (junk : Nat → B)

/-- What a write that takes effect now stores. -/
def Children.sample (ch : Children) (s : Proc B) (c : Nat) (x : ChildIo B) (junk : Nat → B) :
    Nat → B :=
  if ch.late then if .drop (.io c) ∈ s.trace then junk else load x.req.io s.mem else x.data

/-- The effect of a child I/O: a write changes the children, a read the memory. -/
def Proc.put (s : Proc B) (r : ChildReq) (toDisk toMem : Nat → B) : Proc B :=
  match r.kind with
  | .store => { s with disks := writeDisk r toDisk s.disks }
  | .fetch | .rebuild => { s with mem := store r.io toMem s.mem }

def Proc.setPhase (s : Proc B) (c : Nat) (x : ChildIo B) (p : Phase) : Proc B :=
  { s with ios := s.ios.set c { x with phase := p } }

/-- A read takes the blocks it is for; a failed I/O leaves `junk` in its place. -/
def Children.react (ch : Children) (s : Proc B) : ChildEvent B → Option (Proc B)
  | .apply c junk => do
    let x ← s.ios[c]?
    if x.phase = .inFlight ∧ ch.allow x.req.disk true then
      some ((s.put x.req (ch.sample s c x junk)
        (fun j => s.disks x.req.disk (x.req.io.offsetBlocks + j))).setPhase c x .applied)
    else none
  | .finish c => do
    let x ← s.ios[c]?
    if x.phase = .applied then
      some { s.setPhase c x (.done true) with trace := s.trace ++ [.complete c true] }
    else none
  | .fail c junk => do
    let x ← s.ios[c]?
    if x.phase = .inFlight ∧ ch.allow x.req.disk false then
      some { (s.put x.req junk junk).setPhase c x (.done false) with
               trace := s.trace ++ [.complete c false] }
    else none

/-- Steps of other requests: they leave the rows of this one alone. -/
def Others (rows : Nat → Prop) (s t : Proc B) : Prop :=
  ∃ D, t = { s with disks := D } ∧ ∀ x row, rows row → D x row = s.disks x row

/-- What a request's program runs on, when it keeps to `rows`. -/
def machine [Add B] [Zero B] (ch : Children) (rows : Nat → Prop) : Machine (Proc B) Op Res where
  perform := perform
  env s t := (∃ e, ch.react s e = some t) ∨ Others rows s t

end Ironspdk.Raid5
