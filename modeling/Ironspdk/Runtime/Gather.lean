import Mathlib.Algebra.BigOperators.Ring.List
import Ironspdk.Lib.Scatter
import Ironspdk.Runtime.TakeRange

/-! # Copying an I/O out and in

`IoRef::to_buf` and `IoRef::copy_from_slice`: one loop each over the segments, with a running
offset into a flat buffer. A buffer of the allocator is memory of its own, so that the request
memory is a function of addresses and the buffer a list of bytes. -/
namespace Ironspdk.Runtime
open Ironspdk.Lib

variable {α : Type}

/-- `spdk_dma_malloc`: the bytes of a fresh buffer, whatever they are, or no buffer. -/
structure Malloc (α : Type) where
  alloc : Nat → Option (List α)
  length_alloc : ∀ {n buf}, alloc n = some buf → buf.length = n

structure IoBuf (α : Type) where
  data : List α
  offsetBlocks : Nat
  numBlocks : Nat
  blockLen : Nat
  deriving DecidableEq, Repr

def IoBuf.new (data : List α) (offsetBlocks blockLen : Nat) : Option (Except Error (IoBuf α)) :=
  if ¬ blockLen ∣ data.length then some (.error .invalidArguments)
  else if blockLen = 0 then none
  else some (.ok ⟨data, offsetBlocks, data.length / blockLen, blockLen⟩)

/-- The loop of `to_buf`, with `dst_offset`; `none` is a copy past the end of the buffer. -/
def copyOut (mem : Nat → α) : List Iovec → Nat → List α → Option (Nat × List α)
  | [], dstOffset, buf => some (dstOffset, buf)
  | iov :: iovs, dstOffset, buf =>
    if dstOffset + iov.len ≤ buf.length then
      copyOut mem iovs (dstOffset + iov.len)
        (buf.take dstOffset ++ gather mem iov.addrs ++ buf.drop (dstOffset + iov.len))
    else none

/-- The loop of `copy_from_slice`, with `pos`; `none` is a copy from past the end of `data`. -/
def copyIn (data : List α) : List Iovec → Nat → (Nat → α) → Option (Nat → α)
  | [], _, mem => some mem
  | iov :: iovs, pos, mem =>
    if pos + iov.len ≤ data.length then
      copyIn data iovs (pos + iov.len) (scatter mem iov.addrs ((data.drop pos).take iov.len))
    else none

namespace IoRef

/-- `IoRef::to_buf` of the request memory; `none` is a panic. -/
def toBuf (b : Build) (malloc : Malloc α) (mem : Nat → α) (io : IoRef) :
    Option (Except Error (IoBuf α)) := do
  let total ← b.fit 64 io.totalBytes
  match malloc.alloc total with
  | none => return .error .noMemory
  | some buf =>
    let (dstOffset, buf) ← copyOut mem io.iovs 0 buf
    if b.debugAssertions ∧ dstOffset ≠ total then none
    else IoBuf.new buf io.offsetBlocks io.blockLen

/-- `IoRef::copy_from_slice`, with the request memory it leaves; `none` is a panic. -/
def copyFromSlice (b : Build) (mem : Nat → α) (io : IoRef) (data : List α) :
    Option (Nat → α) := do
  let total ← b.fit 64 io.totalBytes
  if data.length ≠ total then none
  else copyIn data io.iovs 0 mem

end IoRef

/-! ## The loops -/

theorem copyOut_eq (mem : Nat → α) {iovs : List Iovec} {dstOffset : Nat} {buf : List α}
    (h : dstOffset + (addrsOf iovs).length = buf.length) :
    copyOut mem iovs dstOffset buf =
      some (buf.length, buf.take dstOffset ++ gather mem (addrsOf iovs)) := by
  induction iovs generalizing dstOffset buf with
  | nil =>
    have hend : dstOffset = buf.length := h
    simp [copyOut, gather, addrsOf, hend]
  | cons iov iovs ih =>
    rw [addrsOf_cons, List.length_append, length_addrs] at h
    have hfits : dstOffset + iov.len ≤ buf.length := by omega
    have hfilled : (buf.take dstOffset ++ gather mem iov.addrs).length = dstOffset + iov.len := by
      rw [List.length_append, List.length_take, length_gather, length_addrs]
      omega
    have hlen : (buf.take dstOffset ++ gather mem iov.addrs ++
        buf.drop (dstOffset + iov.len)).length = buf.length := by
      rw [List.length_append, hfilled, List.length_drop]
      omega
    rw [copyOut, if_pos hfits, ih (by rw [hlen]; omega), hlen, List.take_left' hfilled,
      addrsOf_cons, gather_append, List.append_assoc]

theorem copyIn_eq (mem : Nat → α) {data : List α} {iovs : List Iovec} {pos : Nat}
    (h : pos + (addrsOf iovs).length = data.length) :
    copyIn data iovs pos mem = some (scatter mem (addrsOf iovs) (data.drop pos)) := by
  induction iovs generalizing pos mem with
  | nil => rfl
  | cons iov iovs ih =>
    rw [addrsOf_cons, List.length_append, length_addrs] at h
    have hfits : pos + iov.len ≤ data.length := by omega
    have hpiece : iov.addrs.length = ((data.drop pos).take iov.len).length := by
      rw [length_addrs, List.length_take, List.length_drop]
      omega
    have hsplit : data.drop pos = (data.drop pos).take iov.len ++ data.drop (pos + iov.len) := by
      rw [← List.drop_drop, List.take_append_drop]
    rw [copyIn, if_pos hfits, ih _ (by omega), addrsOf_cons]
    conv_rhs => rw [hsplit, scatter_append mem hpiece]

/-! ## Views of disjoint segments -/

/-- The segments are disjoint and sum to `total_bytes`. -/
structure IoRef.Segmented (b : Build) (io : IoRef) : Prop where
  disjoint : io.iovs.Pairwise fun v w => v.addrs.Disjoint w.addrs
  sum : b.fit 64 io.totalBytes = some (addrsOf io.iovs).length

variable {b : Build} {io child : IoRef}

theorem nodup_addrsOf {iovs : List Iovec} :
    (addrsOf iovs).Nodup ↔ iovs.Pairwise fun v w => v.addrs.Disjoint w.addrs := by
  have heach : ∀ iov ∈ iovs, iov.addrs.Nodup := fun iov _ => List.nodup_range'
  rw [addrsOf, List.nodup_flatMap]
  exact ⟨And.right, And.intro heach⟩

namespace IoRef

theorem Segmented.copyFromSlice (h : io.Segmented b) (mem : Nat → α) {data : List α}
    (hdata : data.length = (addrsOf io.iovs).length) :
    io.copyFromSlice b mem data = some (scatter mem (addrsOf io.iovs) data) := by
  unfold IoRef.copyFromSlice
  rw [h.sum]
  simp only [Option.bind_eq_bind, Option.bind_some, hdata, ne_eq, not_true_eq_false, if_false]
  rw [copyIn_eq mem (by rw [hdata, Nat.zero_add]), List.drop_zero]

theorem Segmented.length_data (h : io.Segmented b) {mem mem' : Nat → α} {data : List α}
    (hcopy : io.copyFromSlice b mem data = some mem') :
    data.length = (addrsOf io.iovs).length := by
  unfold IoRef.copyFromSlice at hcopy
  rw [h.sum, Option.bind_eq_bind, Option.bind_some] at hcopy
  split at hcopy
  · cases hcopy
  · rename_i hlen
    exact not_not.mp hlen

theorem Segmented.toBuf (h : io.Segmented b) (malloc : Malloc α) (mem : Nat → α) :
    io.toBuf b malloc mem = if (malloc.alloc (addrsOf io.iovs).length).isSome
      then IoBuf.new (gather mem (addrsOf io.iovs)) io.offsetBlocks io.blockLen
      else some (.error .noMemory) := by
  unfold IoRef.toBuf
  rw [h.sum]
  simp only [Option.bind_eq_bind, Option.bind_some]
  cases halloc : malloc.alloc (addrsOf io.iovs).length with
  | none => rfl
  | some buf =>
    have hlen := malloc.length_alloc halloc
    simp only [copyOut_eq mem (by rw [hlen, Nat.zero_add]), hlen, Option.bind_some,
      List.take_zero, List.nil_append, ne_eq, not_true_eq_false, and_false, if_false,
      Option.isSome_some, if_true]

/-- Copying in and out undo each other: after a copy of `data` into the view `to_buf` returns
`data`, unless there is no memory for a buffer, and a copy of what `to_buf` returns leaves the
memory as it was. -/
structure RoundTrips (b : Build) (io : IoRef) : Prop where
  out : ∀ (malloc : Malloc UInt8) (mem : Nat → UInt8) (data : List UInt8),
    b.fit 64 io.totalBytes = some data.length →
    ∃ mem', io.copyFromSlice b mem data = some mem' ∧
      io.toBuf b malloc mem' = some (if (malloc.alloc data.length).isSome
        then .ok ⟨data, io.offsetBlocks, data.length / io.blockLen, io.blockLen⟩
        else .error .noMemory)
  back : ∀ (malloc : Malloc UInt8) (mem : Nat → UInt8) (buf : IoBuf UInt8),
    io.toBuf b malloc mem = some (.ok buf) → io.copyFromSlice b mem buf.data = some mem

/-- Copying into a child changes no byte outside of its window, and to `to_buf` of the parent
exactly that window. -/
structure Patches (b : Build) (io child : IoRef) : Prop where
  frame : ∀ (mem mem' : Nat → UInt8) (data : List UInt8),
    child.copyFromSlice b mem data = some mem' →
    ∀ a, a ∉ ((addrsOf io.iovs).drop (child.refOffset * child.blockLen)).take data.length →
      mem' a = mem a
  window : ∀ (malloc : Malloc UInt8) (mem mem' : Nat → UInt8) (data : List UInt8)
    (old new : IoBuf UInt8), child.copyFromSlice b mem data = some mem' →
    io.toBuf b malloc mem = some (.ok old) → io.toBuf b malloc mem' = some (.ok new) →
    child.refOffset * child.blockLen + data.length ≤ old.data.length ∧
    new.data = old.data.take (child.refOffset * child.blockLen) ++ data ++
      old.data.drop (child.refOffset * child.blockLen + data.length)

end IoRef

/-- An allocator that never runs out. -/
def endless : Malloc UInt8 where
  alloc n := some (List.replicate n 0)
  length_alloc h := by
    cases h
    exact List.length_replicate

theorem IoBuf.new_ok {data : List α} {offsetBlocks blockLen : Nat} {buf : IoBuf α}
    (h : IoBuf.new data offsetBlocks blockLen = some (.ok buf)) : buf.data = data := by
  unfold IoBuf.new at h
  split at h
  · cases h
  · split at h
    · cases h
    · cases h
      rfl

theorem IoRef.Segmented.toBuf_ok (h : io.Segmented b) {malloc : Malloc α} {mem : Nat → α}
    {buf : IoBuf α} (hbuf : io.toBuf b malloc mem = some (.ok buf)) :
    buf.data = gather mem (addrsOf io.iovs) := by
  rw [h.toBuf] at hbuf
  split at hbuf
  · exact IoBuf.new_ok hbuf
  · cases hbuf

/-- A view of disjoint segments can be copied in and out if its length is one of blocks. -/
theorem IoRef.Segmented.roundTrips_iff (h : io.Segmented b) (hlen : 1 ≤ io.blockLen) :
    io.RoundTrips b ↔ io.blockLen ∣ (addrsOf io.iovs).length := by
  constructor
  · intro hround
    obtain ⟨mem', _, hout⟩ := hround.out endless (fun _ => 0)
      (List.replicate (addrsOf io.iovs).length 0) (by rw [List.length_replicate]; exact h.sum)
    rw [h.toBuf, List.length_replicate] at hout
    by_contra hdvd
    simp [endless, IoBuf.new, hdvd] at hout
  · intro hdvd
    refine ⟨fun malloc mem data hdata => ?_, fun malloc mem buf hbuf => ?_⟩
    · have hlength : (addrsOf io.iovs).length = data.length :=
        Option.some.inj (h.sum.symm.trans hdata)
      have hnew : IoBuf.new data io.offsetBlocks io.blockLen =
          some (.ok ⟨data, io.offsetBlocks, data.length / io.blockLen, io.blockLen⟩) := by
        rw [IoBuf.new, if_neg (by rw [← hlength]; exact not_not.mpr hdvd),
          if_neg (Nat.ne_of_gt hlen)]
      refine ⟨_, h.copyFromSlice mem hlength.symm, ?_⟩
      rw [h.toBuf, gather_scatter mem (nodup_addrsOf.mpr h.disjoint) hlength, hlength, hnew]
      split <;> rfl
    · rw [h.toBuf_ok hbuf, h.copyFromSlice mem (length_gather mem _), scatter_gather]

/-- A child that refers to the bytes of its window patches its parent there. -/
theorem IoRef.Segmented.patches (h : io.Segmented b) (hc : child.Segmented b)
    (haddrs : addrsOf child.iovs = ((addrsOf io.iovs).drop
      (child.refOffset * child.blockLen)).take (addrsOf child.iovs).length)
    (hend : child.refOffset * child.blockLen + (addrsOf child.iovs).length ≤
      (addrsOf io.iovs).length) : io.Patches b child := by
  refine ⟨fun mem mem' data hcopy a ha => ?_,
    fun malloc mem mem' data old new hcopy hold hnew => ?_⟩
  · have hdata := hc.length_data hcopy
    cases (hc.copyFromSlice mem hdata).symm.trans hcopy
    rw [hdata, ← haddrs] at ha
    exact scatter_frame mem data ha
  · have hdata := hc.length_data hcopy
    cases (hc.copyFromSlice mem hdata).symm.trans hcopy
    rw [← hdata] at haddrs hend
    rw [h.toBuf_ok hold, h.toBuf_ok hnew, haddrs, length_gather]
    exact ⟨hend, gather_scatter_slice mem (nodup_addrsOf.mpr h.disjoint) hend⟩

/-! ## The children of a splitter -/

/-- A child that refers to bytes of `iovs` from `start` on. -/
structure Slice (b : Build) (iovs : List Iovec) (len start : Nat) (child : IoRef) : Prop where
  blockLen : child.blockLen = len
  refOffset : child.refOffset = start / len
  sum : b.fit 64 child.totalBytes = some (addrsOf child.iovs).length
  addrs : addrsOf child.iovs = ((addrsOf iovs).drop start).take (addrsOf child.iovs).length
  inside : start + (addrsOf child.iovs).length ≤ (addrsOf iovs).length

/-- The bytes the segments of some children hold. -/
def heldBy (children : List IoRef) : Nat := (children.map (addrsOf ·.iovs |>.length)).sum

theorem heldBy_snoc (children : List IoRef) (child : IoRef) :
    heldBy (children ++ [child]) = heldBy children + (addrsOf child.iovs).length := by
  simp [heldBy]

/-- A splitter with its children, each of which starts where the one before it ends. -/
structure Slices (b : Build) (iovs : List Iovec) (len : Nat) (s : Splitting) : Prop where
  cuts : IoRefSplitter.Cuts iovs len s.splitter
  cursor : s.splitter.cursorBytes = heldBy s.taken
  slices : ∀ pre child post, s.taken = pre ++ child :: post →
    Slice b iovs len (heldBy pre) child

theorem Slices.next {iovs : List Iovec} {len : Nat} {s u : Splitting} {blocks : Nat}
    (h : Slices b iovs len s) (hn : s.next b blocks = some u) : Slices b iovs len u := by
  obtain ⟨⟨r, splitter⟩, ht, rfl⟩ := Option.map_eq_some_iff.mp hn
  have hcuts := h.cuts.take ht
  cases r with
  | error e =>
    rcases h.cuts.take_cases ht with ⟨_, _, _, _, _, hr, _⟩ | ⟨_, _, rfl⟩
    · cases hr
    · exact h
  | ok child =>
    obtain ⟨bytes, hbytes, htotal, hlength, haddrs⟩ := h.cuts.addrs_child ht
    rcases h.cuts.take_cases ht with ⟨bytes', res, hbytes', hacc, hslice, hr, rfl⟩ | ⟨_, hr, _⟩
    · cases hbytes.symm.trans hbytes'
      cases hr
      have hnew : Slice b iovs len (heldBy s.taken) (s.splitter.child res blocks) := by
        refine ⟨h.cuts.blockLen, ?_, ?_, ?_, ?_⟩
        · rw [IoRefSplitter.child, h.cuts.blockLen, h.cursor]
        · rw [htotal, hbytes, hlength]
        · rw [hlength, haddrs, h.cursor]
        · rw [hlength, ← h.cursor, ← h.cuts.total]
          exact hacc.2
      refine ⟨hcuts, ?_, fun pre child' post heq => ?_⟩
      · rw [heldBy_snoc, hlength, h.cursor]
      · induction post using List.reverseRecOn with
        | nil =>
          obtain ⟨hpre, hlast⟩ := List.append_inj' heq rfl
          cases hlast
          exact hpre ▸ hnew
        | append_singleton post last _ =>
          rw [← List.cons_append, ← List.append_assoc] at heq
          exact h.slices pre child' post (List.append_inj' heq rfl).1
    · cases hr

theorem Slice.segmented {iovs : List Iovec} {len start : Nat} (h : Slice b iovs len start child)
    (hnodup : (addrsOf iovs).Nodup) : child.Segmented b := by
  refine ⟨nodup_addrsOf.mp ?_, h.sum⟩
  rw [h.addrs]
  exact hnodup.sublist ((List.take_sublist _ _).trans (List.drop_sublist _ _))

/-- **When gather and scatter undo each other.** For every view whose segments are disjoint
and sum to its length in bytes, every length of the child blocks and every sequence of takes:
the view and the children can be copied out and in, and a copy into a child patches exactly
its window of the view, if and only if each of them holds a whole number of its blocks. That
fails only where the number of its bytes wraps. -/
theorem copies_lawful_iff {childBlockLen : Option Nat} {splitter : IoRefSplitter}
    {takes : List Nat} {s : Splitting} (hio : io.Segmented b) (hblock : 1 ≤ io.blockLen)
    (hnew : IoRefSplitter.new b io childBlockLen = some splitter)
    (hlen : 1 ≤ splitter.childBlockLen)
    (h : run (Splitting.next b) ⟨splitter, []⟩ takes = some s) :
    (io.RoundTrips b ∧ ∀ child ∈ s.taken, child.RoundTrips b ∧ io.Patches b child) ↔
      io.blockLen ∣ io.totalBytes % 2 ^ 64 ∧
      ∀ child ∈ s.taken, child.blockLen ∣ child.totalBytes % 2 ^ 64 := by
  have hstart : Slices b io.iovs splitter.childBlockLen ⟨splitter, []⟩ := by
    refine ⟨IoRefSplitter.Cuts.new hio.sum hnew, ?_, fun pre child post heq => by simp at heq⟩
    obtain ⟨total, _, hnew⟩ := Option.bind_eq_some_iff.mp hnew
    cases hnew
    rfl
  have hslices : Slices b io.iovs splitter.childBlockLen s :=
    run_always (I := Slices b io.iovs splitter.childBlockLen) hstart
      (fun t blocks u ht hn => ht.next hn) h
  have hnodup := nodup_addrsOf.mpr hio.disjoint
  have hround := hio.roundTrips_iff hblock
  rw [Build.fit_some hio.sum] at hround
  have hchild : ∀ pre child post, s.taken = pre ++ child :: post →
      (child.RoundTrips b ↔ child.blockLen ∣ child.totalBytes % 2 ^ 64) := by
    intro pre child post heq
    have hslice := hslices.slices pre child post heq
    have hiff := (hslice.segmented hnodup).roundTrips_iff (by rw [hslice.blockLen]; exact hlen)
    rwa [Build.fit_some hslice.sum] at hiff
  constructor
  · rintro ⟨hparent, hchildren⟩
    refine ⟨hround.mp hparent, fun child hmem => ?_⟩
    obtain ⟨pre, post, heq⟩ := List.append_of_mem hmem
    exact (hchild pre child post heq).mp (hchildren child hmem).1
  · rintro ⟨hparent, hchildren⟩
    refine ⟨hround.mpr hparent, fun child hmem => ?_⟩
    obtain ⟨pre, post, heq⟩ := List.append_of_mem hmem
    refine ⟨(hchild pre child post heq).mpr (hchildren child hmem), ?_⟩
    have hslice := hslices.slices pre child post heq
    -- the children before it are whole blocks, so that its `ref_offset` is exact
    have haligned : splitter.childBlockLen ∣ heldBy pre := by
      refine List.dvd_sum fun n hn => ?_
      obtain ⟨c, hc, rfl⟩ := List.mem_map.mp hn
      obtain ⟨pre', post', rfl⟩ := List.append_of_mem hc
      have hbefore := hslices.slices pre' c (post' ++ child :: post) (by rw [heq]; simp)
      rw [← hbefore.blockLen, Build.fit_some hbefore.sum]
      exact hchildren c (by rw [heq]; simp)
    have hoffset : child.refOffset * child.blockLen = heldBy pre := by
      rw [hslice.refOffset, hslice.blockLen]
      exact Nat.div_mul_cancel haligned
    refine hio.patches (hslice.segmented hnodup) ?_ ?_
    · rw [hoffset]
      exact hslice.addrs
    · rw [hoffset]
      exact hslice.inside

/-- The children of the two-byte split undo each other's copies. -/
theorem copies_lawful_iff_scattered :
    ∃ s, run (Splitting.next release) ⟨⟨scattered.iovs, 8, 2, 0⟩, []⟩ [1, 2] = some s ∧
      s.taken.map (·.refOffset) = [0, 1] ∧ scattered.RoundTrips release ∧
      ∀ child ∈ s.taken, child.RoundTrips release ∧ scattered.Patches release child := by
  have hio : scattered.Segmented release := ⟨nodup_addrsOf.mp (by decide), rfl⟩
  have hnew : IoRefSplitter.new release scattered (some 2) = some ⟨scattered.iovs, 8, 2, 0⟩ := rfl
  have hrun : run (Splitting.next release) ⟨⟨scattered.iovs, 8, 2, 0⟩, []⟩ [1, 2] =
      some ⟨⟨scattered.iovs, 8, 2, 6⟩, [⟨[⟨100, 2⟩], 0, 0, 1, 2⟩,
        ⟨[⟨102, 1⟩, ⟨300, 3⟩], 0, 1, 2, 2⟩]⟩ := rfl
  have hiff := copies_lawful_iff hio (by decide) hnew (by decide) hrun
  exact ⟨_, hrun, rfl, (hiff.mpr (by decide)).1, (hiff.mpr (by decide)).2⟩

/-- Eight bytes, split into blocks of three. -/
def uneven : IoRef := ⟨[⟨100, 8⟩], 0, 0, 2, 4⟩

/-- A take of `(2 ^ 64 + 2) / 3` blocks of three bytes returns a child of two bytes, which is
no whole number of blocks: `to_buf` returns an error. -/
theorem wrapped_child_not_lawful : ¬ ∀ (b : Build) (io : IoRef) (childBlockLen : Option Nat)
    (splitter : IoRefSplitter) (takes : List Nat) (s : Splitting), io.Segmented b →
    1 ≤ io.blockLen → IoRefSplitter.new b io childBlockLen = some splitter →
    1 ≤ splitter.childBlockLen → (∀ blocks ∈ takes, blocks < 2 ^ 64) →
    run (Splitting.next b) ⟨splitter, []⟩ takes = some s →
    io.RoundTrips b ∧ ∀ child ∈ s.taken, child.RoundTrips b ∧ io.Patches b child := by
  intro h
  have hio : uneven.Segmented release := ⟨nodup_addrsOf.mp (by decide), rfl⟩
  have hlawful := h release uneven (some 3) ⟨uneven.iovs, 8, 3, 0⟩ [(2 ^ 64 + 2) / 3]
    ⟨⟨uneven.iovs, 8, 3, 2⟩, [⟨[⟨100, 2⟩], 0, 0, (2 ^ 64 + 2) / 3, 3⟩]⟩ hio (by decide) rfl
    (by decide) (by decide) rfl
  obtain ⟨mem', _, hout⟩ := (hlawful.2 _ List.mem_cons_self).1.out endless (fun _ => 0) [0, 0] rfl
  cases hout

end Ironspdk.Runtime
