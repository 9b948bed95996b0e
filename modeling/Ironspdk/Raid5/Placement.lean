import Ironspdk.Lib.Lockstep
import Ironspdk.Raid5.ProcessReq
import Ironspdk.Raid5.SplitStrips
import Ironspdk.Runtime.Gather

/-! # A request and the segments of its memory

The programs of a request, run on memory of bytes. The memory of the request is what its
segments refer to: a child reads into the segments of a strip and writes what they hold, and
`copy_from_slice` fills them. What the views of `Raid5.Io` stand for are the slices that the
splitter cuts. Everything else is as in the coarser model, whose blocks are blocks of bytes
here. -/
namespace Ironspdk.Raid5.Scattered
open Ironspdk.Lib
open Ironspdk.Runtime (Build Iovec addrsOf sliceIovs sliceIovs_ok sliceIovs_accepts
  length_addrsOf nodup_addrsOf)

/-! ## Blocks of bytes -/

abbrev Block (n : Nat) := Fin n → Byte

def toBlocks (n : Nat) (bytes : List Byte) : Nat → Block n :=
  fun j i => (bytes[j * n + i]?).getD 0

/-- The bytes of the first `count` blocks. -/
def toBytes {n : Nat} (count : Nat) (blocks : Nat → Block n) : List Byte :=
  (List.range count).flatMap fun j => List.ofFn (blocks j)

section blocks
variable {n count : Nat} {blocks : Nat → Block n} {bytes : List Byte}

theorem toBytes_succ (count : Nat) (blocks : Nat → Block n) :
    toBytes (count + 1) blocks = toBytes count blocks ++ List.ofFn (blocks count) := by
  rw [toBytes, List.range_succ, List.flatMap_append, List.flatMap_singleton, toBytes]

@[simp] theorem length_toBytes (count : Nat) (blocks : Nat → Block n) :
    (toBytes count blocks).length = count * n := by
  induction count with
  | zero => rw [Nat.zero_mul]; rfl
  | succ count ih => rw [toBytes_succ, List.length_append, ih, List.length_ofFn, Nat.succ_mul]

theorem toBytes_at {j : Nat} (hj : j < count) (i : Fin n) :
    (toBytes count blocks)[j * n + i]? = some (blocks j i) := by
  induction count with
  | zero => cases hj
  | succ count ih =>
    rw [toBytes_succ]
    rcases Nat.lt_succ_iff_lt_or_eq.mp hj with hlt | rfl
    · have hin : j * n + i < count * n := by
        have := Nat.mul_le_mul_right n hlt
        rw [Nat.succ_mul] at this
        omega
      rw [List.getElem?_append_left (by rwa [length_toBytes]), ih hlt]
    · rw [List.getElem?_append_right (by rw [length_toBytes]; omega), length_toBytes,
        Nat.add_sub_cancel_left, List.getElem?_ofFn]
      simp

theorem toBlocks_toBytes {j : Nat} (hj : j < count) :
    toBlocks n (toBytes count blocks) j = blocks j := by
  funext i
  rw [toBlocks, toBytes_at hj, Option.getD_some]

/-- Bytes are known by their blocks. -/
theorem eq_toBytes (hlen : bytes.length = count * n)
    (h : ∀ j < count, toBlocks n bytes j = blocks j) : bytes = toBytes count blocks := by
  refine List.ext_getElem? fun i => ?_
  rcases Nat.lt_or_ge i (count * n) with hi | hi
  · have hn : 0 < n := by
      rcases Nat.eq_zero_or_pos n with rfl | hn
      · cases hi
      · exact hn
    have hj : i / n < count := (Nat.div_lt_iff_lt_mul hn).mpr hi
    have hsplit : i / n * n + i % n = i := Nat.div_add_mod' i n
    have hat := @toBytes_at n count blocks _ hj ⟨i % n, Nat.mod_lt i hn⟩
    have hblock := congrFun (h _ hj) ⟨i % n, Nat.mod_lt i hn⟩
    simp only [toBlocks, hsplit] at hat hblock
    have hget : bytes[i]? = some bytes[i] := List.getElem?_eq_getElem (hlen ▸ hi)
    rw [hget, Option.getD_some] at hblock
    rw [hat, hget, hblock]
  · rw [List.getElem?_eq_none (hlen ▸ hi), List.getElem?_eq_none (by rwa [length_toBytes])]

theorem toBlocks_slice {start j : Nat} (hj : j < count) :
    toBlocks n ((bytes.drop (start * n)).take (count * n)) j = toBlocks n bytes (start + j) := by
  funext i
  have hin : j * n + i < count * n := by
    have := Nat.mul_le_mul_right n hj
    rw [Nat.succ_mul] at this
    omega
  rw [toBlocks, toBlocks, List.getElem?_take_of_lt hin, List.getElem?_drop, Nat.add_mul,
    Nat.add_assoc]

/-- A patch of whole blocks. -/
theorem toBlocks_patch {start : Nat} (hfit : start * n + count * n ≤ bytes.length) (j : Nat) :
    toBlocks n (bytes.take (start * n) ++ toBytes count blocks ++
      bytes.drop (start * n + count * n)) j =
      if start ≤ j ∧ j < start + count then blocks (j - start) else toBlocks n bytes j := by
  funext i
  have hbefore : (bytes.take (start * n)).length = start * n := by
    rw [List.length_take]
    omega
  have hpatched : (bytes.take (start * n) ++ toBytes count blocks).length =
      start * n + count * n := by
    rw [List.length_append, hbefore, length_toBytes]
  rw [toBlocks]
  split
  · rename_i hin
    obtain ⟨d, rfl⟩ := Nat.exists_eq_add_of_le hin.1
    have hd : d < count := by omega
    have hlt : d * n + i < count * n := by
      have := Nat.mul_le_mul_right n hd
      rw [Nat.succ_mul] at this
      omega
    rw [List.getElem?_append_left (by rw [hpatched, Nat.add_mul]; omega),
      List.getElem?_append_right (by rw [hbefore, Nat.add_mul]; omega), hbefore, Nat.add_mul,
      Nat.add_assoc, Nat.add_sub_cancel_left, toBytes_at hd, Nat.add_sub_cancel_left,
      Option.getD_some]
  · rename_i hout
    rcases Nat.lt_or_ge j start with hlt | hge
    · have hin : j * n + i < start * n := by
        have := Nat.mul_le_mul_right n hlt
        rw [Nat.succ_mul] at this
        omega
      rw [List.append_assoc, List.getElem?_append_left (by rwa [hbefore]),
        List.getElem?_take_of_lt hin, toBlocks]
    · have hge' : start * n + count * n ≤ j * n := by
        rw [← Nat.add_mul]
        exact Nat.mul_le_mul_right n (by omega)
      rw [List.getElem?_append_right (by rw [hpatched]; omega), hpatched, List.getElem?_drop,
        Nat.add_sub_of_le (by omega), toBlocks]

end blocks

/-! ## The segments of a request -/

/-- The segments of a request of `num` blocks of `n` bytes. -/
structure Segments (n num : Nat) where
  view : Runtime.IoRef
  numBlocks : view.numBlocks = num
  blockLen : view.blockLen = n
  pos : 1 ≤ n
  wf : view.Wf

namespace Segments
variable {n num : Nat}

/-- What a view of the coarser model stands for. -/
def slice (seg : Segments n num) (r : Raid5.IoRef) : Runtime.IoRef :=
  ⟨match sliceIovs seg.view.iovs (r.refOffset * n) (r.numBlocks * n) with
    | .ok iovs => iovs
    | .error _ => [], r.offsetBlocks, r.refOffset, r.numBlocks, n⟩

/-- No two segments share a byte. -/
def Disjoint (seg : Segments n num) : Prop :=
  seg.view.iovs.Pairwise fun v w => v.addrs.Disjoint w.addrs

/-- The bytes of the request, as their addresses. -/
def addrs (seg : Segments n num) : List Nat := addrsOf seg.view.iovs

variable {seg : Segments n num} {r : Raid5.IoRef}

theorem length_addrs (seg : Segments n num) : seg.addrs.length = num * n := by
  rw [addrs, length_addrsOf, seg.wf.sum, Runtime.IoRef.totalBytes, seg.numBlocks, seg.blockLen]

theorem lt (seg : Segments n num) : num * n < 2 ^ 64 := by
  have := seg.wf.lt
  rwa [Runtime.IoRef.totalBytes, seg.numBlocks, seg.blockLen] at this

theorem Disjoint.nodup (h : seg.Disjoint) : seg.addrs.Nodup := nodup_addrsOf.mpr h

theorem fit_bytes (seg : Segments n num) {start count : Nat} (h : start + count ≤ num) :
    start * n + count * n ≤ seg.addrs.length := by
  rw [seg.length_addrs, ← Nat.add_mul]
  exact Nat.mul_le_mul_right n h

theorem addrs_slice (h : r.refOffset + r.numBlocks ≤ num) :
    addrsOf (seg.slice r).iovs = (seg.addrs.drop (r.refOffset * n)).take (r.numBlocks * n) := by
  have hfit := seg.fit_bytes h
  unfold slice
  cases hslice : sliceIovs seg.view.iovs (r.refOffset * n) (r.numBlocks * n) with
  | ok iovs => exact (sliceIovs_ok hslice).1
  | error e =>
    -- only an empty slice at the end is refused
    have hno : ¬ (r.refOffset * n < seg.addrs.length ∧
        r.refOffset * n + r.numBlocks * n ≤ seg.addrs.length) := by
      intro hin
      rw [addrs, length_addrsOf, ← sliceIovs_accepts] at hin
      obtain ⟨iovs, hiovs⟩ := hin
      cases hslice.symm.trans hiovs
    have hempty : r.numBlocks * n = 0 := by omega
    rw [hempty, List.take_zero]
    rfl

theorem segmented_slice (b : Build) (hdisjoint : seg.Disjoint)
    (h : r.refOffset + r.numBlocks ≤ num) : (seg.slice r).Segmented b := by
  have hfit := seg.fit_bytes h
  have hlt := seg.lt
  rw [← seg.length_addrs] at hlt
  refine ⟨nodup_addrsOf.mp ?_, ?_⟩
  · rw [addrs_slice h]
    exact hdisjoint.nodup.sublist ((List.take_sublist _ _).trans (List.drop_sublist _ _))
  · rw [addrs_slice h, List.length_take, List.length_drop, Nat.min_eq_left (by omega)]
    exact b.fit_of_lt (show r.numBlocks * n < 2 ^ 64 by omega)

end Segments

theorem Tiling.blockLen {io : Runtime.IoRef} {stripeBase stripBlocks parityDiskIdx cursor start
    remain : Nat} {strips : List Strip}
    (h : Tiling io stripeBase stripBlocks parityDiskIdx cursor start remain strips) :
    ∀ s ∈ strips, s.io.blockLen = io.blockLen := by
  induction h with
  | nil =>
    intro s hs
    cases hs
  | cons _ _ _ _ _ hview _ ih =>
    intro t ht
    rcases List.mem_cons.mp ht with rfl | ht
    · rw [hview]
    · exact ih t ht

/-- **What the strips' views stand for.** The strips that the programs work with are those
that `split_strips` cuts out of the segments. -/
theorem splitStrips_slice {n num : Nat} (seg : Segments n num) (b : Build) {stripBlocks : Nat}
    (hstrip : 1 ≤ stripBlocks) (stripeBase stripeOff offsetBlocks parityDiskIdx : Nat) :
    ∃ strips, splitStrips b seg.view stripeBase stripBlocks stripeOff num parityDiskIdx =
        some strips ∧
      Raid5.splitStrips (.ref ⟨offsetBlocks, 0, num⟩) stripeBase stripBlocks stripeOff num
        parityDiskIdx = some (strips.map Strip.forget) ∧
      ∀ s ∈ strips, seg.slice ⟨s.io.offsetBlocks, s.io.refOffset, s.io.numBlocks⟩ = s.io := by
  have hlen : 1 ≤ seg.view.blockLen := by
    rw [seg.blockLen]
    exact seg.pos
  obtain ⟨strips, hloop, htiling⟩ := stripLoop_tiling b seg.wf hlen hstrip stripeBase
    parityDiskIdx stripeOff 0 (Nat.le_refl seg.view.numBlocks) (Nat.zero_add _).le
  have hforget := htiling.forget hstrip (Nat.le_refl _) (Nat.zero_add _).le
  rw [seg.numBlocks] at hloop hforget
  refine ⟨strips, ?_, hforget, fun s hs => ?_⟩
  · rw [splitStrips, new_eq seg.wf]
    exact hloop
  · have hslice := htiling.slices s hs
    have hblock := htiling.blockLen s hs
    rw [seg.blockLen] at hslice hblock
    rw [Segments.slice, hslice, ← hblock]

/-! ## Operations -/

/-- A request whose memory is the bytes its segments refer to in `ram`; the buffers of the
allocator are those of `mem` from number 1 on. -/
structure Proc (n : Nat) extends Raid5.Proc (Block n) where
  ram : Nat → Byte

section operations
variable {n num : Nat}

/-- What a view shows. -/
def Proc.load (seg : Segments n num) (s : Proc n) : Io → Nat → Block n
  | .ref r => toBlocks n (gather s.ram (addrsOf (seg.slice r).iovs))
  | .buf b => Raid5.load (.buf b) s.mem

/-- The memory after a read of `data` into a view. -/
def Proc.store (seg : Segments n num) (s : Proc n) (data : Nat → Block n) : Io → Proc n
  | .ref r =>
    { s with ram := scatter s.ram (addrsOf (seg.slice r).iovs) (toBytes r.numBlocks data) }
  | .buf b => { s with mem := Raid5.store (.buf b) data s.mem }

/-- The operations on a view; the others do not see the memory of the request. -/
def perform (b : Build) (seg : Segments n num) : (o : Op) → Proc n → Option (Res o × Proc n)
  | .xor dst start io, s =>
    some ((), { s with mem := fun x i => if x = dst ∧ start ≤ i ∧ i < start + io.numBlocks
                                then s.mem x i + s.load seg io (i - start) else s.mem x i })
  | .copy (.ref r) src, s =>
    ((seg.slice r).copyFromSlice b s.ram (toBytes r.numBlocks (s.mem src))).map fun ram =>
      ((), { s with ram := ram })
  | .copy (.buf _) _, _ => none
  | .submit req, s =>
    some (s.ios.length, { s with ios := s.ios ++ [⟨req, s.load seg req.io, .inFlight⟩]
                                 trace := s.trace ++ [.submit s.ios.length] })
  | o, s => (Raid5.perform o s.toProc).map fun x => (x.1, { s with toProc := x.2 })

/-- What a write that takes effect now stores. -/
def sample (ch : Children) (seg : Segments n num) (s : Proc n) (c : Nat) (x : ChildIo (Block n))
    (junk : Nat → Block n) : Nat → Block n :=
  if ch.late then if .drop (.io c) ∈ s.trace then junk else s.load seg x.req.io else x.data

def Proc.put (seg : Segments n num) (s : Proc n) (r : ChildReq) (toDisk toMem : Nat → Block n) :
    Proc n :=
  match r.kind with
  | .store => { s with disks := writeDisk r toDisk s.disks }
  | .fetch | .rebuild => s.store seg toMem r.io

def Proc.setPhase (s : Proc n) (c : Nat) (x : ChildIo (Block n)) (p : Phase) : Proc n :=
  { s with ios := s.ios.set c { x with phase := p } }

/-- `Children.react` on the segments. -/
def react (ch : Children) (seg : Segments n num) (s : Proc n) :
    ChildEvent (Block n) → Option (Proc n)
  | .apply c junk => do
    let x ← s.ios[c]?
    if x.phase = .inFlight ∧ ch.allow x.req.disk true then
      some ((s.put seg x.req (sample ch seg s c x junk)
        (fun j => s.disks x.req.disk (x.req.io.offsetBlocks + j))).setPhase c x .applied)
    else none
  | .finish c => do
    let x ← s.ios[c]?
    if x.phase = .applied then
      some { s.setPhase c x (.done true) with trace := s.trace ++ [.complete c true] }
    else none
  | .fail c junk => do
    let x ← s.ios[c]?
    if x.phase = .inFlight ∧ ch.allow x.req.disk false then
      some { (s.put seg x.req junk junk).setPhase c x (.done false) with
               trace := s.trace ++ [.complete c false] }
    else none

/-- The state in which `process_req` starts on a request. -/
def Proc.start (ram : Nat → Byte) (mem disks : Nat → Nat → Block n) : Proc n :=
  { Raid5.Proc.start mem disks with ram := ram }

abbrev Running (n : Nat) := Task Unit × Proc n

def Running.next (b : Build) (seg : Segments n num) (dev : Raid5Bdev) (ch : Children)
    (stripe : Nat) (c : Running n) : Event (Block n) → Option (Running n)
  | .step =>
    match c.1 with
    | .ret _ => none
    | .op o k => (perform b seg o c.2).map fun x => (k x.1, x.2)
  | .child e => (react ch seg c.2 e).map fun t => (c.1, t)
  | .others disk row x =>
    if row / dev.stripBlocks = stripe then none
    else some (c.1, { c.2 with disks := Function.update c.2.disks disk
                                 (Function.update (c.2.disks disk) row x) })

end operations

end Ironspdk.Raid5.Scattered
