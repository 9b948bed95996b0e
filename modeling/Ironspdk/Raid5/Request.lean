import Ironspdk.Raid5.Child

/-! # Processing a request

`process_req` and everything it calls, as programs over child I/O. A loop of the source
is a recursion over the list it runs through; an index out of range, an `unwrap` or
`expect` that fails and a failed assertion are panics. Values go out of scope where they
do in the source: `drop` names the `Io` and the context of a child I/O by its number.
Messages that are only logged are left out. -/
namespace Ironspdk.Raid5
open Ironspdk.Lib Ironspdk.Runtime

abbrev Task := Prog Op Res

def panic {α : Type} (msg : String) : Task α := .op (.panic msg) Empty.elim

def DmaBuf.new (blocks : Nat) : Task DmaBuf := do
  let id ← Prog.perform (Op.alloc false)
  return ⟨id, blocks⟩

def DmaBuf.newZeroed (blocks : Nat) : Task DmaBuf := do
  let id ← Prog.perform (Op.alloc true)
  return ⟨id, blocks⟩

/-- One buffer for each size. -/
def newBufs : List Nat → Task (List DmaBuf)
  | [] => pure []
  | blocks :: rest => do
    let buf ← DmaBuf.new blocks
    let bufs ← newBufs rest
    return buf :: bufs

/-- `xor(&mut dst[start..start + len], io)` -/
def xor (dst : DmaBuf) (start len : Nat) (io : Io) : Task Unit :=
  if start + len ≤ dst.blocks ∧ io.numBlocks = len then Prog.perform (Op.xor dst.id start io)
  else panic "xor: I/O size mismatch"

/-- `IoRef::copy_from_slice`, if the view is an `Io::Ref`. -/
def copyFromSlice (io : Io) (data : DmaBuf) : Task Unit :=
  match io with
  | .ref r =>
    if data.blocks = r.numBlocks then Prog.perform (Op.copy io data.id)
    else panic "copy_from_slice: length mismatch"
  | .buf _ => pure ()

def completeOn (sender : SpdkThread) (status : IoStatus) : Task Unit :=
  Prog.perform (Op.complete sender status)

/-- A loop of `Lbdev::read` or `Lbdev::write` calls. -/
def submitAll : List ChildReq → Task (List Nat)
  | [] => pure []
  | r :: rest => do
    let c ← Prog.perform (Op.submit r)
    let cs ← submitAll rest
    return c :: cs

/-- A loop of awaits; `step` is its body, with the label of the future and its status. -/
def awaitEach {β γ : Type} (step : β → γ → Bool → Task β) : List (γ × Nat) → β → Task β
  | [], b => pure b
  | (x, c) :: rest, b => do
    let ok ← Prog.perform (Op.await c)
    let b ← step b x ok
    awaitEach step rest b

/-- Values going out of scope, in this order. -/
def dropAll : List Resource → Task Unit
  | [] => pure ()
  | r :: rest => do
    Prog.perform (Op.drop r)
    dropAll rest

/-! ## Reconstruction -/

/-- The await loop of `reconstruct`, with its early return. -/
def awaitUntilFailure : List Nat → Task Bool
  | [] => pure true
  | c :: rest => do
    if ← Prog.perform (Op.await c) then awaitUntilFailure rest else return false

def xorAll (dst : DmaBuf) : List Io → Task Unit
  | [] => pure ()
  | io :: rest => do
    xor dst 0 dst.blocks io
    xorAll dst rest

/-- The child reads of `reconstruct`: the same blocks of every other disk. -/
def rebuildReqs (ndisks skip offBlocks : Nat) (bufs : List DmaBuf) : List ChildReq :=
  List.zipWith (fun d b => ⟨.rebuild, d, Io.newBuf b offBlocks⟩)
    ((List.range ndisks).filter (· ≠ skip)) bufs

def reconstruct (dev : Raid5Bdev) (skip offBlocks blocks : Nat) : Task (Option DmaBuf) := do
  let bufs ← newBufs (List.replicate (dev.diskCount - 1) blocks)
  let cs ← submitAll (rebuildReqs dev.diskCount skip offBlocks bufs)
  if ← awaitUntilFailure cs then
    let outbuf ← DmaBuf.newZeroed blocks
    xorAll outbuf (bufs.map (Io.newBuf · offBlocks))
    dropAll (cs.map .ctx ++ cs.map .io)
    return some outbuf
  else
    dropAll (cs.map .ctx ++ cs.map .io)
    return none

/-! ## Read -/

/-- The indices of the futures that failed. -/
def pushFailed (failed : List Nat) (k : Nat) (ok : Bool) : Task (List Nat) :=
  pure (if ok then failed else failed ++ [k])

def read (dev : Raid5Bdev) (sender : SpdkThread) (io : BdevIo) (stripeIdx : Nat) : Task Unit :=
  let stripeBase := stripeIdx * dev.stripBlocks
  match splitStrips (Io.fromBdevIo io) stripeBase dev.stripBlocks
      (dev.stripeOffset io.offsetBlocks) io.numBlocks (dev.parityDiskIdx stripeIdx) with
  | none => panic "short buffer"
  | some strips => do
    let cs ← submitAll (strips.map fun s => ⟨.fetch, s.disk, s.io⟩)
    let failed ← awaitEach pushFailed ((List.range strips.length).zip cs) []
    match failed with
    | [] => completeOn sender .success
    | [k] =>
      match strips[k]? with
      | none => panic "index out of bounds"
      | some s => do
        match ← reconstruct dev s.disk (stripeBase + s.offsetInStrip) s.blocks with
        | some buf => do
          copyFromSlice s.io buf
          completeOn sender .success
        | none => completeOn sender .failure
    | _ => completeOn sender .failure
    dropAll (cs.map .ctx ++ cs.map .io)

/-! ## Write -/

/-- The counters of the await loops of the two write paths. -/
structure Failures where
  nfailures : Nat := 0
  lastFailedDiskIdx : Option Nat := none
  failMask : Nat := 0
  deriving DecidableEq, Repr

/-- `1u64 << k`: a build with overflow checks panics from 64 on, others mask `k`. -/
def shlOne (overflowChecks : Bool) (k : Nat) : Task Nat :=
  if overflowChecks = true ∧ 64 ≤ k then panic "attempt to shift left with overflow"
  else pure (1 <<< (k % 64))

def countFailure (overflowChecks : Bool) (f : Failures) (disk : Nat) (ok : Bool) :
    Task Failures :=
  if ok then pure f
  else do
    let bit ← shlOne overflowChecks disk
    return { nfailures := f.nfailures + 1
             lastFailedDiskIdx := some disk
             failMask := f.failMask ||| bit }

/-- `complete_write`: the index of the failed disk only names it in the log. -/
def completeWrite (sender : SpdkThread) (f : Failures) : Task Unit :=
  if f.nfailures = 0 then completeOn sender .success
  else if f.nfailures = 1 then
    match f.lastFailedDiskIdx with
    | none => panic "unwrap on None"
    | some _ => completeOn sender .failure
  else completeOn sender .failure

/-- Old and new contents of every strip go into the parity. -/
def xorStrips (dst : DmaBuf) : List (Strip × Io) → Task Unit
  | [] => pure ()
  | (s, old) :: rest => do
    xor dst s.offsetInStrip s.blocks old
    xor dst s.offsetInStrip s.blocks s.io
    xorStrips dst rest

/-- Phases 2 and 3 of `write_partial_stripe`. `cs` are the reads of phase 1, `held` those
whose `Io` is still there. -/
def writeBack (dev : Raid5Bdev) (overflowChecks : Bool) (sender : SpdkThread) (stripeIdx : Nat)
    (strips : List Strip) (oldIos : List Io) (oldParity : Io) (cs held : List Nat) : Task Unit := do
  let parityDiskIdx := dev.parityDiskIdx stripeIdx
  let newParity ← DmaBuf.newZeroed dev.stripBlocks
  xor newParity 0 dev.stripBlocks oldParity
  xorStrips newParity (strips.zip oldIos)
  let parityIo := Io.newBuf newParity (stripeIdx * dev.stripBlocks)
  let wcs ← submitAll ((strips.map fun s => ⟨.store, s.disk, s.io⟩) ++
    [⟨.store, parityDiskIdx, parityIo⟩])
  let f ← awaitEach (countFailure overflowChecks)
    ((strips.map (·.disk) ++ [parityDiskIdx]).zip wcs) {}
  completeWrite sender f
  dropAll ((wcs.drop strips.length).map .io ++ wcs.map .ctx ++ cs.map .ctx ++ held.map .io ++
    (wcs.take strips.length).map .io)

/-- The child reads of phase 1: the old contents of the strips and of the parity. -/
def oldReqs (dev : Raid5Bdev) (stripeIdx : Nat) (strips : List Strip) (oldIos : List Io)
    (oldParity : Io) : List ChildReq :=
  List.zipWith (fun s io => ⟨.fetch, s.disk, io⟩) strips oldIos ++
    [⟨.fetch, dev.parityDiskIdx stripeIdx, oldParity⟩]

/-- The branch of `write_partial_stripe` for one failed read, of disk `failed`: its old
contents are reconstructed, and its buffer is replaced. -/
def writeReconstructed (dev : Raid5Bdev) (overflowChecks : Bool) (sender : SpdkThread)
    (stripeIdx : Nat) (strips : List Strip) (oldIos : List Io) (oldParity : Io) (cs : List Nat)
    (failed : Nat) : Task Unit :=
  let stripeBase := stripeIdx * dev.stripBlocks
  if failed = dev.parityDiskIdx stripeIdx then do
    match ← reconstruct dev failed stripeBase dev.stripBlocks with
    | some dma => do
      dropAll ((cs.drop strips.length).map .io)
      writeBack dev overflowChecks sender stripeIdx strips oldIos (Io.newBuf dma stripeBase)
        cs (cs.take strips.length)
    | none => do
      completeOn sender .failure
      dropAll (cs.map .ctx ++ cs.map .io)
  else
    match strips.findIdx? (·.disk = failed) with
    | none => panic "failed data strip must be present"
    | some k =>
      match strips[k]? with
      | none => panic "index out of bounds"
      | some s => do
        match ← reconstruct dev failed (stripeBase + s.offsetInStrip) s.blocks with
        | some buf => do
          dropAll (((cs.drop k).take 1).map .io)
          writeBack dev overflowChecks sender stripeIdx strips
            (oldIos.set k (Io.newBuf buf (stripeBase + s.offsetInStrip))) oldParity
            cs (cs.eraseIdx k)
        | none => do
          completeOn sender .failure
          dropAll (cs.map .ctx ++ cs.map .io)

def writePartialStripe (dev : Raid5Bdev) (overflowChecks : Bool) (sender : SpdkThread)
    (io : BdevIo) (stripeIdx : Nat) : Task Unit :=
  let parityDiskIdx := dev.parityDiskIdx stripeIdx
  let stripeBase := stripeIdx * dev.stripBlocks
  match splitStrips (Io.fromBdevIo io) stripeBase dev.stripBlocks
      (dev.stripeOffset io.offsetBlocks) io.numBlocks parityDiskIdx with
  | none => panic "short buffer"
  | some strips => do
    let oldBufs ← newBufs (strips.map (·.blocks))
    let oldIos :=
      List.zipWith (fun s b => Io.newBuf b (stripeBase + s.offsetInStrip)) strips oldBufs
    let parityBuf ← DmaBuf.new dev.stripBlocks
    let oldParity := Io.newBuf parityBuf stripeBase
    let cs ← submitAll (oldReqs dev stripeIdx strips oldIos oldParity)
    let f ← awaitEach (countFailure overflowChecks)
      ((strips.map (·.disk) ++ [parityDiskIdx]).zip cs) {}
    if f.nfailures ≥ 2 then
      completeWrite sender f
      dropAll (cs.map .ctx ++ cs.map .io)
    else if f.nfailures = 1 then
      match f.lastFailedDiskIdx with
      | none => panic "unwrap on None"
      | some failed =>
        writeReconstructed dev overflowChecks sender stripeIdx strips oldIos oldParity cs failed
    else
      writeBack dev overflowChecks sender stripeIdx strips oldIos oldParity cs cs

/-- The I/Os of a full-stripe write, one for each disk in turn. -/
def diskIos (parityDiskIdx : Nat) : List Nat → Option Io → List Strip → Option (List (Nat × Io))
  | [], _, _ => some []
  | d :: ds, parityIo, strips =>
    if d = parityDiskIdx then do
      let io ← parityIo
      let rest ← diskIos parityDiskIdx ds none strips
      return (d, io) :: rest
    else
      match strips with
      | [] => none
      | s :: strips => do
        let rest ← diskIos parityDiskIdx ds parityIo strips
        return (d, s.io) :: rest

/-- The submission loop of `write_full_stripe`: it takes each `Io` by value, so the `Io`
is dropped at the end of the iteration. -/
def submitByValue : List (Nat × Io) → Task (List Nat)
  | [] => pure []
  | (d, io) :: rest => do
    let c ← Prog.perform (Op.submit ⟨.store, d, io⟩)
    Prog.perform (Op.drop (.io c))
    let cs ← submitByValue rest
    return c :: cs

def writeFullStripe (dev : Raid5Bdev) (overflowChecks : Bool) (sender : SpdkThread)
    (io : BdevIo) (stripeIdx : Nat) : Task Unit :=
  let parityDiskIdx := dev.parityDiskIdx stripeIdx
  let stripeBase := stripeIdx * dev.stripBlocks
  match splitStrips (Io.fromBdevIo io) stripeBase dev.stripBlocks 0 dev.stripeBlocks
      parityDiskIdx with
  | none => panic "short buffer"
  | some strips => do
    let parityBuf ← DmaBuf.newZeroed dev.stripBlocks
    xorAll parityBuf (strips.map (·.io))
    match diskIos parityDiskIdx (List.range dev.diskCount)
        (some (Io.newBuf parityBuf stripeBase)) strips with
    | none => panic "no data ioref"
    | some ios => do
      let cs ← submitByValue ios
      let f ← awaitEach (countFailure overflowChecks) ((List.range dev.diskCount).zip cs) {}
      completeWrite sender f
      dropAll (cs.map .ctx)

def write (dev : Raid5Bdev) (overflowChecks : Bool) (sender : SpdkThread) (io : BdevIo)
    (stripeIdx : Nat) : Task Unit :=
  if dev.stripeOffset io.offsetBlocks = 0 ∧ io.numBlocks = dev.stripeBlocks then
    writeFullStripe dev overflowChecks sender io stripeIdx
  else writePartialStripe dev overflowChecks sender io stripeIdx

/-! ## Requests -/

structure QueuedIo where
  io : BdevIo
  sender : SpdkThread
  deriving DecidableEq, Repr

def processReq (dev : Raid5Bdev) (overflowChecks : Bool) (stripeIdx : Nat) (req : QueuedIo) :
    Task Unit :=
  if dev.crossesStripe req.io then completeOn req.sender .failure
  else
    match req.io.ioType with
    | .read => read dev req.sender req.io stripeIdx
    | .write => write dev overflowChecks req.sender req.io stripeIdx
    | .flush => completeOn req.sender .success
    | _ => completeOn req.sender .failure

end Ironspdk.Raid5
