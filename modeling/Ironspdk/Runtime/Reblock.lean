import Ironspdk.Runtime.BdevIo
import Ironspdk.Runtime.TakeRange

/-! # Another block size for a request

`IoRef::from_bdev_io` turns the native blocks of a request into blocks of the caller's size.
The sizes go through bytes and come out exact; a block size of 0, which stands for the native
one in the description of `IoRef`, ends in the division. -/
namespace Ironspdk.Runtime
open Ironspdk.Lib

/-- A request as `IoRef::from_bdev_io` sees it, with the native block size of its device. -/
structure BdevRequest extends BdevIo where
  blockLen : Nat
  iovs : List Iovec
  deriving DecidableEq, Repr

namespace BdevRequest

def offsetBytes (io : BdevRequest) : Nat := io.offsetBlocks * io.blockLen

def totalBytes (io : BdevRequest) : Nat := io.numBlocks * io.blockLen

/-- The range of the request lies on a device, and its segments hold the bytes of it. -/
structure Wf (io : BdevRequest) : Prop where
  numBlocks : io.numBlocks < 2 ^ 64
  offset : io.offsetBytes < 2 ^ 64
  total : io.totalBytes < 2 ^ 64
  sum : (io.iovs.map (·.len)).sum = io.totalBytes

end BdevRequest

/-- `IoRef::from_bdev_io`; `usize` has 64 bits. -/
def IoRef.fromBdevIo (b : Build) (io : BdevRequest) (blockLen : Nat) : Call IoRef := do
  let parentNumBlocks ← if io.numBlocks < 2 ^ 64 then pure io.numBlocks else throw .intDowncast
  let size ← ExceptT.lift (b.fit 64 (parentNumBlocks * io.blockLen))
  if b.debugAssertions ∧ (blockLen = 0 ∨ ¬ blockLen ∣ size) then Call.panic
  else if blockLen = 0 then Call.panic -- the division
  else
    let parentOffsetBytes ← ExceptT.lift (b.fit 64 (io.offsetBlocks * io.blockLen))
    if b.debugAssertions ∧ ¬ blockLen ∣ parentOffsetBytes then Call.panic
    else return ⟨io.iovs, parentOffsetBytes / blockLen, 0, size / blockLen, blockLen⟩

/-! ## Single blocks -/

namespace IoRefSplitter

variable {iovs : List Iovec} {len : Nat} {s : IoRefSplitter}

/-- A take that is accepted does not panic. -/
theorem Cuts.take_ok (h : Cuts iovs len s) (b : Build) {blocks : Nat}
    (hacc : s.Accepts (blocks * len)) (hlen : len ≠ 0) (haligned : len ∣ s.cursorBytes) :
    ∃ child s', s.take b blocks = some (.ok child, s') := by
  obtain ⟨hbefore, hend⟩ := hacc
  have hlt := h.lt
  have hslice : ∃ res, sliceIovs iovs s.cursorBytes (blocks * len) = .ok res := by
    rw [sliceIovs_accepts, ← length_addrsOf, ← h.total]
    exact ⟨hbefore, hend⟩
  obtain ⟨res, hres⟩ := hslice
  have hbytes : b.fit 64 (blocks * len) = some (blocks * len) := b.fit_of_lt (by omega)
  have hstop : b.fit 64 (s.cursorBytes + blocks * len) = some (s.cursorBytes + blocks * len) :=
    b.fit_of_lt (by omega)
  have hmod : s.cursorBytes % len = 0 := Nat.mod_eq_zero_of_dvd haligned
  unfold IoRefSplitter.take
  simp only [h.blockLen, h.parentIovs, hbytes, hstop, hres, hmod, hlen, Option.bind_eq_bind,
    Option.bind_some, ne_eq, not_true, and_false, or_false, if_false, if_neg (Nat.not_lt.mpr hend)]
  exact ⟨_, _, rfl⟩

end IoRefSplitter

/-- A splitting of `io` into single blocks of `len` bytes so far. -/
structure Singles (io : IoRef) (len : Nat) (s : Splitting) : Prop where
  cuts : IoRefSplitter.Cuts io.iovs len s.splitter
  parts : Partition io len s
  single : ∀ child ∈ s.taken, child.numBlocks = 1 ∧ child.blockLen = len

variable {io : IoRef} {len : Nat} {s : Splitting} {b : Build}

theorem bytesOf_single {children : List IoRef}
    (h : ∀ child ∈ children, child.numBlocks = 1 ∧ child.blockLen = len) :
    bytesOf children = children.length * len := by
  have hone : ∀ child ∈ children, child.totalBytes = len := by
    intro child hc
    obtain ⟨hnum, hlen⟩ := h child hc
    rw [IoRef.totalBytes, hnum, hlen, Nat.one_mul]
  rw [bytesOf, List.map_congr_left hone, List.map_const', List.sum_replicate_nat]

/-- A block is taken as long as one is left. -/
theorem Singles.accepts_iff (h : Singles io len s) (hio : io.Wf) (hdvd : len ∣ io.totalBytes) :
    s.splitter.Accepts (1 * len) ↔ s.taken.length < io.totalBytes / len := by
  have htotal : s.splitter.parentTotalBytes = io.totalBytes := by
    rw [h.cuts.total, length_addrsOf, hio.sum]
  rw [IoRefSplitter.Accepts, h.parts.cursor, bytesOf_single h.single, htotal, ← Nat.add_mul]
  obtain ⟨k, hk⟩ := hdvd
  rw [hk]
  rcases Nat.eq_zero_or_pos len with rfl | hpos
  · simp
  · rw [Nat.mul_div_cancel_left k hpos, Nat.mul_comm len k, Nat.mul_lt_mul_right hpos,
      Nat.mul_le_mul_right_iff hpos]
    omega

theorem fits_of_dvd (hio : io.Wf) (hdvd : len ∣ io.totalBytes) (hpos : 0 < io.totalBytes) :
    1 * len < 2 ^ 64 := by
  rw [Nat.one_mul]
  exact lt_of_le_of_lt (Nat.le_of_dvd hpos hdvd) hio.lt

theorem Singles.step (h : Singles io len s) (hio : io.Wf) (hdvd : len ∣ io.totalBytes)
    {u : Splitting} (hn : s.next b 1 = some u) : Singles io len u ∧
      u.taken.length = if s.taken.length < io.totalBytes / len then s.taken.length + 1
        else s.taken.length := by
  have hn' := hn
  obtain ⟨⟨r, splitter⟩, ht, rfl⟩ := Option.map_eq_some_iff.mp hn
  rcases h.cuts.take_cases ht with ⟨bytes, res, hbytes, hacc, _, rfl, rfl⟩ | ⟨hno, rfl, rfl⟩
  · have hpos : 0 < io.totalBytes := by
      have hbefore := hacc.1
      rw [h.cuts.total, length_addrsOf, hio.sum] at hbefore
      omega
    have hfit := fits_of_dvd hio hdvd hpos
    cases (b.fit_of_lt hfit).symm.trans hbytes
    refine ⟨⟨h.cuts.take ht, h.parts.step hio hfit hn', fun child hc => ?_⟩, ?_⟩
    · rcases List.mem_append.mp hc with hc | hc
      · exact h.single child hc
      · rw [List.mem_singleton.mp hc]
        exact ⟨rfl, h.cuts.blockLen⟩
    · rw [if_pos ((h.accepts_iff hio hdvd).mp hacc), List.length_append, List.length_singleton]
  · refine ⟨h, (if_neg fun hleft => hno ?_).symm⟩
    have hpos : 0 < io.totalBytes := by
      by_contra hzero
      rw [Nat.eq_zero_of_not_pos hzero, Nat.zero_div] at hleft
      exact Nat.not_lt_zero _ hleft
    rw [Nat.mod_eq_of_lt (fits_of_dvd hio hdvd hpos)]
    exact (h.accepts_iff hio hdvd).mpr hleft

/-- However many takes there are, they return the blocks of the view and no more. -/
theorem Singles.run (h : Singles io len s) (hio : io.Wf) (hdvd : len ∣ io.totalBytes) {m : Nat}
    {u : Splitting} (hrun : run (Splitting.next b) s (List.replicate m 1) = some u)
    (hs : s.taken.length ≤ io.totalBytes / len) : Singles io len u ∧
      u.taken.length = min (s.taken.length + m) (io.totalBytes / len) := by
  induction m generalizing u with
  | zero =>
    cases hrun
    exact ⟨h, (Nat.min_eq_left hs).symm⟩
  | succ m ih =>
    rw [List.replicate_succ'] at hrun
    obtain ⟨t, ht, hn⟩ := run_snoc hrun
    obtain ⟨hsingle, hcount⟩ := ih ht
    obtain ⟨hsingle', hcount'⟩ := hsingle.step hio hdvd hn
    refine ⟨hsingle', ?_⟩
    rw [hcount', hcount]
    split <;> omega

/-- A take for each block of the view does not panic. -/
theorem Singles.run_all (h : Singles io len s) (b : Build) (hio : io.Wf)
    (hdvd : len ∣ io.totalBytes) {m : Nat} (hm : s.taken.length + m ≤ io.totalBytes / len) :
    ∃ u, Lib.run (Splitting.next b) s (List.replicate m 1) = some u := by
  induction m with
  | zero => exact ⟨s, rfl⟩
  | succ m ih =>
    obtain ⟨t, ht⟩ := ih (by omega)
    obtain ⟨hsingle, hcount⟩ := h.run hio hdvd ht (by omega)
    have hleft : t.taken.length < io.totalBytes / len := by omega
    have hlen : len ≠ 0 := by
      rintro rfl
      rw [Nat.div_zero] at hleft
      exact Nat.not_lt_zero _ hleft
    obtain ⟨child, splitter, htake⟩ := hsingle.cuts.take_ok b
      ((hsingle.accepts_iff hio hdvd).mpr hleft) hlen hsingle.parts.aligned
    refine ⟨⟨splitter, t.taken ++ [child]⟩, ?_⟩
    rw [List.replicate_succ', run_append, ht]
    simp [run_cons, Splitting.next, htake]

/-- The `i`-th child is the `i`-th block. -/
theorem Singles.getElem (h : Singles io len s) {i : Nat} (hi : i < s.taken.length) :
    s.taken[i].refOffset * len = i * len ∧
      addrsOf s.taken[i].iovs = ((addrsOf io.iovs).drop (i * len)).take len := by
  have hsplit : s.taken = s.taken.take i ++ s.taken[i] :: s.taken.drop (i + 1) := by
    rw [← List.drop_eq_getElem_cons hi, List.take_append_drop]
  have hw := h.parts.windows _ _ _ hsplit
  have hbefore : bytesOf (s.taken.take i) = i * len := by
    rw [bytesOf_single fun child hc => h.single child (List.mem_of_mem_take hc),
      List.length_take, Nat.min_eq_left hi.le]
  obtain ⟨hnum, hlen⟩ := h.single _ (List.getElem_mem hi)
  have hbytes : s.taken[i].totalBytes = len := by
    rw [IoRef.totalBytes, hnum, hlen, Nat.one_mul]
  have haddrs := hw.bytes
  rw [hbytes, hbefore] at haddrs
  exact ⟨hw.refOffset.trans hbefore, haddrs⟩

/-- Takes of single blocks split the view: as many takes as it has blocks return them all, and
any number of takes returns blocks one after the other from the start, until none is left. -/
structure SplitsEvenly (b : Build) (view : IoRef) (childBlockLen : Option Nat) (len : Nat)
    (splitter : IoRefSplitter) : Prop where
  new : IoRefSplitter.new b view childBlockLen = some splitter
  returns : ∃ s, run (Splitting.next b) ⟨splitter, []⟩
    (List.replicate (view.totalBytes / len) 1) = some s
  children : ∀ m s, run (Splitting.next b) ⟨splitter, []⟩ (List.replicate m 1) = some s →
    s.taken.length = min m (view.totalBytes / len) ∧
    (∀ child ∈ s.taken, child.numBlocks = 1 ∧ child.blockLen = len) ∧
    (∀ i, (hi : i < s.taken.length) → s.taken[i].refOffset * len = i * len ∧
      addrsOf s.taken[i].iovs = ((addrsOf view.iovs).drop (i * len)).take len) ∧
    s.taken.flatMap (addrsOf ·.iovs) =
      (addrsOf view.iovs).take (min m (view.totalBytes / len) * len)

theorem splitsEvenly (b : Build) (hio : io.Wf) {childBlockLen : Option Nat}
    (hdvd : childBlockLen.getD io.blockLen ∣ io.totalBytes) :
    ∃ splitter, SplitsEvenly b io childBlockLen (childBlockLen.getD io.blockLen) splitter := by
  have hsum : b.fit 64 io.totalBytes = some (addrsOf io.iovs).length := by
    rw [b.fit_of_lt hio.lt, length_addrsOf, hio.sum]
  have hnew : IoRefSplitter.new b io childBlockLen =
      some ⟨io.iovs, (addrsOf io.iovs).length, childBlockLen.getD io.blockLen, 0⟩ := by
    unfold IoRefSplitter.new
    rw [← IoRef.totalBytes, hsum]
    rfl
  have hcuts := IoRefSplitter.Cuts.new hsum hnew
  have hstart : Singles io (childBlockLen.getD io.blockLen) ⟨_, []⟩ :=
    ⟨hcuts, ⟨rfl, rfl, rfl, Nat.dvd_zero _, fun pre child post heq => by simp at heq⟩,
      fun child hc => by cases hc⟩
  refine ⟨_, hnew, hstart.run_all b hio hdvd (by simp), fun m s hrun => ?_⟩
  obtain ⟨hsingle, hcount⟩ := hstart.run hio hdvd hrun (Nat.zero_le _)
  rw [List.length_nil, Nat.zero_add] at hcount
  refine ⟨hcount, hsingle.single, fun i hi => hsingle.getElem hi, ?_⟩
  rw [hsingle.parts.concat, bytesOf_single hsingle.single, hcount]

/-! ## The view -/

/-- A call of `IoRef::from_bdev_io` that returns a view of exactly the bytes of the request, in
blocks of the size asked for (0 asks for the native one), and a view that splits evenly. -/
def BdevRequest.Reblocked (b : Build) (io : BdevRequest) (blockLen : Nat) : Prop :=
  ∃ view, (IoRef.fromBdevIo b io blockLen).run = some (.ok view) ∧
    view.blockLen = (if blockLen = 0 then io.blockLen else blockLen) ∧
    addrsOf view.iovs = addrsOf io.iovs ∧
    view.offsetBlocks * view.blockLen = io.offsetBytes ∧
    view.numBlocks * view.blockLen = io.totalBytes ∧
    ∀ childBlockLen : Option Nat, childBlockLen.getD view.blockLen ∣ io.totalBytes →
      ∃ splitter, SplitsEvenly b view childBlockLen (childBlockLen.getD view.blockLen) splitter

theorem fromBdevIo_zero (b : Build) (io : BdevRequest) (hio : io.Wf) :
    (IoRef.fromBdevIo b io 0).run = none := by
  have hsize := b.fit_of_lt hio.total
  rw [BdevRequest.totalBytes] at hsize
  unfold IoRef.fromBdevIo
  rw [if_pos hio.numBlocks]
  simp [ExceptT.run_bind, hsize, Call.panic]

theorem fromBdevIo_run (b : Build) {io : BdevRequest} (hio : io.Wf) {blockLen : Nat}
    (hlen : blockLen ≠ 0) (hoffset : blockLen ∣ io.offsetBytes)
    (htotal : blockLen ∣ io.totalBytes) :
    (IoRef.fromBdevIo b io blockLen).run =
      some (.ok ⟨io.iovs, io.offsetBytes / blockLen, 0, io.totalBytes / blockLen, blockLen⟩) := by
  have hsize := b.fit_of_lt hio.total
  have hstart := b.fit_of_lt hio.offset
  rw [BdevRequest.totalBytes] at hsize htotal
  rw [BdevRequest.offsetBytes] at hstart hoffset
  unfold IoRef.fromBdevIo
  rw [if_pos hio.numBlocks]
  simp [ExceptT.run_bind, hsize, hstart, hlen, hoffset, htotal, BdevRequest.totalBytes,
    BdevRequest.offsetBytes]

/-- **Which block sizes keep the range of a request.** All but 0, for every request on a device
and every block size that is 0 or divides the offset and the length in bytes. -/
theorem reblocked_iff (b : Build) {io : BdevRequest} (hio : io.Wf) {blockLen : Nat}
    (hlen : blockLen = 0 ∨ blockLen ∣ io.offsetBytes ∧ blockLen ∣ io.totalBytes) :
    io.Reblocked b blockLen ↔ blockLen ≠ 0 := by
  constructor
  · rintro ⟨view, hview, _⟩ rfl
    rw [fromBdevIo_zero b io hio] at hview
    cases hview
  · intro hpos
    obtain ⟨hoffset, htotal⟩ := hlen.resolve_left hpos
    refine ⟨_, fromBdevIo_run b hio hpos hoffset htotal, (if_neg hpos).symm, rfl,
      Nat.div_mul_cancel hoffset, Nat.div_mul_cancel htotal, fun childBlockLen hdvd => ?_⟩
    have hbytes : io.totalBytes / blockLen * blockLen = io.totalBytes :=
      Nat.div_mul_cancel htotal
    refine splitsEvenly b ⟨?_, ?_⟩ ?_
    · exact hio.sum.trans hbytes.symm
    · exact lt_of_eq_of_lt hbytes hio.total
    · exact hdvd.trans (dvd_of_eq hbytes.symm)

/-- Two native blocks of eight bytes from block 3 on, in two segments. -/
def twoBlocks : BdevRequest := ⟨⟨.read, 3, 2⟩, 8, [⟨100, 5⟩, ⟨300, 11⟩]⟩

theorem twoBlocks_wf : twoBlocks.Wf := ⟨by decide, by decide, by decide, rfl⟩

/-- They make four blocks of four bytes, from block 6 on. -/
theorem reblocked_iff_twoBlocks : twoBlocks.Reblocked release 4 ∧
    (IoRef.fromBdevIo release twoBlocks 4).run = some (.ok ⟨twoBlocks.iovs, 6, 0, 4, 4⟩) := by
  refine ⟨(reblocked_iff release twoBlocks_wf (Or.inr ?_)).mpr (by decide), by decide⟩
  exact ⟨by decide, by decide⟩

/-- Asking for the native block size by a 0 panics. -/
theorem zero_not_native : ¬ ∀ (b : Build) (io : BdevRequest) (blockLen : Nat), io.Wf →
    (blockLen = 0 ∨ blockLen ∣ io.offsetBytes ∧ blockLen ∣ io.totalBytes) →
    io.Reblocked b blockLen := by
  intro h
  obtain ⟨view, hview, _⟩ := h release twoBlocks 0 twoBlocks_wf (Or.inl rfl)
  cases hview

end Ironspdk.Runtime
