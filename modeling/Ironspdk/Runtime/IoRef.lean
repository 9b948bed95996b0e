import Mathlib.Data.List.Induction
import Ironspdk.Lib.Runs
import Ironspdk.Runtime.Call

/-! # Splitting an I/O

`IoRef` and `IoRefSplitter`. A segment of memory stands for the addresses of its bytes, so
that two views are the same where they refer to the same memory, not just to equal data.
Sizes are those of a 64-bit build. -/
namespace Ironspdk.Runtime
open Ironspdk.Lib

/-- `iovec` -/
structure Iovec where
  base : Nat
  len : Nat
  deriving DecidableEq, Repr

def Iovec.addrs (iov : Iovec) : List Nat := List.range' iov.base iov.len

/-- The bytes of a scatter list, as their addresses. -/
def addrsOf (iovs : List Iovec) : List Nat := iovs.flatMap (·.addrs)

structure IoRef where
  iovs : List Iovec
  offsetBlocks : Nat
  refOffset : Nat
  numBlocks : Nat
  blockLen : Nat
  deriving DecidableEq, Repr

def IoRef.totalBytes (io : IoRef) : Nat := io.numBlocks * io.blockLen

/-- The segments hold as many bytes as the view claims, a number that fits `usize`. -/
structure IoRef.Wf (io : IoRef) : Prop where
  sum : (io.iovs.map (·.len)).sum = io.totalBytes
  lt : io.totalBytes < 2 ^ 64

/-- `slice_iovs` -/
def sliceIovs : List Iovec → Nat → Nat → Except Error (List Iovec)
  | [], _, _ => .error .outOfRange
  | iov :: iovs, offset, len =>
    if iov.len ≤ offset then sliceIovs iovs (offset - iov.len) len
    else
      let take := min (iov.len - offset) len
      let newIov : Iovec := ⟨iov.base + offset, take⟩
      if len - take = 0 then .ok [newIov]
      else (sliceIovs iovs 0 (len - take)).map (newIov :: ·)

structure IoRefSplitter where
  parentIovs : List Iovec
  parentTotalBytes : Nat
  childBlockLen : Nat
  cursorBytes : Nat
  deriving DecidableEq, Repr

namespace IoRefSplitter

def new (b : Build) (parent : IoRef) (childBlockLen : Option Nat) : Option IoRefSplitter := do
  let parentTotalBytes ← b.fit 64 (parent.numBlocks * parent.blockLen)
  return ⟨parent.iovs, parentTotalBytes, childBlockLen.getD parent.blockLen, 0⟩

/-- `IoRefSplitter::take`, with the splitter it leaves; `none` is a panic. -/
def take (b : Build) (s : IoRefSplitter) (blocks : Nat) :
    Option (Except Error IoRef × IoRefSplitter) := do
  let bytes ← b.fit 64 (blocks * s.childBlockLen)
  let stop ← b.fit 64 (s.cursorBytes + bytes)
  if s.parentTotalBytes < stop then return (.error .outOfRange, s)
  else
    match sliceIovs s.parentIovs s.cursorBytes bytes with
    | .error e => return (.error e, s)
    | .ok iovs =>
      if b.debugAssertions ∧ s.cursorBytes % s.childBlockLen ≠ 0 ∨ s.childBlockLen = 0 then none
      else
        let cursorBytes ← b.fit 64 (s.cursorBytes + bytes)
        return (.ok ⟨iovs, 0, s.cursorBytes / s.childBlockLen, blocks, s.childBlockLen⟩,
          { s with cursorBytes := cursorBytes })

end IoRefSplitter

/-! ## A slice of a scatter list -/

theorem length_addrs (iov : Iovec) : iov.addrs.length = iov.len := List.length_range' ..

theorem length_addrsOf (iovs : List Iovec) :
    (addrsOf iovs).length = (iovs.map (·.len)).sum := by
  simp [addrsOf, List.length_flatMap, length_addrs]

theorem addrsOf_cons (iov : Iovec) (iovs : List Iovec) :
    addrsOf (iov :: iovs) = iov.addrs ++ addrsOf iovs := List.flatMap_cons ..

/-- Part of a segment. -/
theorem addrs_slice (iov : Iovec) (offset n : Nat) (h : offset + n ≤ iov.len) :
    Iovec.addrs ⟨iov.base + offset, n⟩ = (iov.addrs.drop offset).take n := by
  unfold Iovec.addrs
  rw [List.drop_range', Nat.mul_one, List.take_range'_of_length_ge (by omega)]

/-- A slice refers to the bytes of the list from `offset` on, exactly `len` of them. -/
theorem sliceIovs_ok {iovs res : List Iovec} {offset len : Nat}
    (h : sliceIovs iovs offset len = .ok res) :
    addrsOf res = ((addrsOf iovs).drop offset).take len ∧
      offset + len ≤ (addrsOf iovs).length := by
  induction iovs generalizing offset len res with
  | nil => cases h
  | cons iov iovs ih =>
    rw [sliceIovs] at h
    rw [addrsOf_cons, List.length_append, length_addrs]
    split at h
    · -- the whole segment lies before the slice
      rename_i hskip
      obtain ⟨haddrs, hlen⟩ := ih h
      refine ⟨?_, by omega⟩
      have hnone : iov.addrs.drop offset = [] := List.drop_eq_nil_of_le (by rwa [length_addrs])
      rw [haddrs, List.drop_append, hnone, List.nil_append, length_addrs]
    · rename_i hstart
      simp only at h
      have hdrop : (iov.addrs ++ addrsOf iovs).drop offset =
          iov.addrs.drop offset ++ addrsOf iovs :=
        List.drop_append_of_le_length (by rw [length_addrs]; omega)
      have hrest : (iov.addrs.drop offset).length = iov.len - offset := by
        rw [List.length_drop, length_addrs]
      rw [hdrop]
      split at h
      · -- the slice ends in this segment
        rename_i hend
        cases h
        have htake : min (iov.len - offset) len = len := by omega
        rw [htake, addrsOf_cons, addrs_slice iov offset len (by omega),
          List.take_append_of_le_length (by omega)]
        exact ⟨List.append_nil _, by omega⟩
      · -- it takes the rest of this segment, and goes on at the start of the next one
        rename_i hmore
        have htake : min (iov.len - offset) len = iov.len - offset := by omega
        rw [htake] at h
        cases hrec : sliceIovs iovs 0 (len - (iov.len - offset)) with
        | error e =>
          rw [hrec] at h
          cases h
        | ok tail =>
          rw [hrec] at h
          cases h
          obtain ⟨haddrs, hlen⟩ := ih hrec
          refine ⟨?_, by omega⟩
          rw [addrsOf_cons, haddrs, addrs_slice iov offset _ (by omega), List.drop_zero,
            List.take_of_length_le (by omega), List.take_append, hrest,
            List.take_of_length_le (l := iov.addrs.drop offset) (by omega)]

/-! ## A sequence of takes -/

/-- A splitter with the children it has returned. -/
structure Splitting where
  splitter : IoRefSplitter
  taken : List IoRef

def Splitting.next (b : Build) (s : Splitting) (blocks : Nat) : Option Splitting :=
  (s.splitter.take b blocks).map fun
    | (.ok child, splitter) => ⟨splitter, s.taken ++ [child]⟩
    | (.error _, splitter) => ⟨splitter, s.taken⟩

/-- The bytes that children cover together. -/
def bytesOf (children : List IoRef) : Nat := (children.map (·.totalBytes)).sum

/-- A child that refers to the bytes of `io` from `start` on. -/
structure Window (io : IoRef) (childBlockLen start : Nat) (child : IoRef) : Prop where
  blockLen : child.blockLen = childBlockLen
  inside : start + child.totalBytes ≤ io.totalBytes
  bytes : addrsOf child.iovs = ((addrsOf io.iovs).drop start).take child.totalBytes
  refOffset : child.refOffset * childBlockLen = start

/-- The children partition the part of `io` before the cursor. -/
structure Partition (io : IoRef) (len : Nat) (s : Splitting) : Prop where
  iovs : s.splitter.parentIovs = io.iovs
  blockLen : s.splitter.childBlockLen = len
  cursor : s.splitter.cursorBytes = bytesOf s.taken
  aligned : len ∣ s.splitter.cursorBytes
  windows : ∀ pre child post, s.taken = pre ++ child :: post → Window io len (bytesOf pre) child

/-- A take that returns an error leaves the splitter alone; one that succeeds returns the next
window. -/
theorem take_cases {io : IoRef} {len : Nat} {s : Splitting} {b : Build} {blocks : Nat}
    {r : Except Error IoRef} {splitter : IoRefSplitter} (h : Partition io len s) (hio : io.Wf)
    (hfit : blocks * len < 2 ^ 64) (ht : s.splitter.take b blocks = some (r, splitter)) :
    (∃ e, r = .error e) ∧ splitter = s.splitter ∨ ∃ child, r = .ok child ∧
      Window io len (bytesOf s.taken) child ∧
      splitter = { s.splitter with cursorBytes := bytesOf s.taken + child.totalBytes } := by
  unfold IoRefSplitter.take at ht
  rw [h.blockLen, b.fit_of_lt hfit] at ht
  obtain ⟨bytes, hbytes, ht⟩ := Option.bind_eq_some_iff.mp ht
  cases hbytes
  obtain ⟨stop, _, ht⟩ := Option.bind_eq_some_iff.mp ht
  split at ht
  · cases ht
    exact Or.inl ⟨⟨_, rfl⟩, rfl⟩
  · split at ht
    · cases ht
      exact Or.inl ⟨⟨_, rfl⟩, rfl⟩
    · rename_i iovs hslice
      split at ht
      · cases ht
      · rw [h.iovs] at hslice
        obtain ⟨haddrs, hend⟩ := sliceIovs_ok hslice
        rw [length_addrsOf, hio.sum] at hend
        have hlt : s.splitter.cursorBytes + blocks * len < 2 ^ 64 := by
          have := hio.lt
          omega
        rw [b.fit_of_lt hlt] at ht
        cases ht
        rw [h.cursor] at haddrs hend
        refine Or.inr ⟨_, rfl, ⟨rfl, hend, haddrs, ?_⟩, by simp only [h.cursor, h.blockLen]; rfl⟩
        rw [← h.cursor]
        exact Nat.div_mul_cancel h.aligned

theorem bytesOf_snoc (children : List IoRef) (child : IoRef) :
    bytesOf (children ++ [child]) = bytesOf children + child.totalBytes := by
  simp [bytesOf]

theorem Partition.snoc {io : IoRef} {len : Nat} {s : Splitting} {child : IoRef}
    (h : Partition io len s) (hw : Window io len (bytesOf s.taken) child) :
    Partition io len ⟨{ s.splitter with cursorBytes := bytesOf s.taken + child.totalBytes },
      s.taken ++ [child]⟩ := by
  refine ⟨h.iovs, h.blockLen, (bytesOf_snoc _ _).symm, ?_, fun pre child' post heq => ?_⟩
  · have haligned := h.aligned
    rw [h.cursor] at haligned
    refine Nat.dvd_add haligned ?_
    rw [IoRef.totalBytes, hw.blockLen]
    exact Nat.dvd_mul_left _ _
  · induction post using List.reverseRecOn with
    | nil =>
      obtain ⟨hpre, hlast⟩ := List.append_inj' heq rfl
      cases hlast
      exact hpre ▸ hw
    | append_singleton post last _ =>
      rw [← List.cons_append, ← List.append_assoc] at heq
      exact h.windows pre child' post (List.append_inj' heq rfl).1

theorem Partition.step {io : IoRef} {len : Nat} {s u : Splitting} {b : Build} {blocks : Nat}
    (h : Partition io len s) (hio : io.Wf) (hfit : blocks * len < 2 ^ 64)
    (hn : s.next b blocks = some u) : Partition io len u := by
  obtain ⟨⟨r, splitter⟩, ht, rfl⟩ := Option.map_eq_some_iff.mp hn
  rcases take_cases h hio hfit ht with ⟨⟨e, rfl⟩, rfl⟩ | ⟨child, rfl, hw, rfl⟩
  · exact h
  · exact h.snoc hw

/-- The bytes of the children, one after the other. -/
theorem Partition.concat {io : IoRef} {len : Nat} {s : Splitting} (h : Partition io len s) :
    s.taken.flatMap (addrsOf ·.iovs) = (addrsOf io.iovs).take (bytesOf s.taken) := by
  have hpre : ∀ pre post, s.taken = pre ++ post →
      pre.flatMap (addrsOf ·.iovs) = (addrsOf io.iovs).take (bytesOf pre) := by
    intro pre
    induction pre using List.reverseRecOn with
    | nil =>
      intro post _
      rfl
    | append_singleton pre child ih =>
      intro post heq
      rw [List.append_assoc] at heq
      have hw := h.windows pre child post heq
      rw [List.flatMap_append, ih _ heq, List.flatMap_singleton, hw.bytes, bytesOf_snoc,
        List.take_add]
  exact hpre s.taken [] (List.append_nil _).symm

/-- **Splitting an I/O partitions it.** For a view whose segments hold as many bytes as it
claims, any length of the child blocks, and any sequence of takes of sizes that fit `usize`:
the children returned refer to consecutive windows of the bytes of the parent, from byte 0
on, in order and without a gap; a child's segments refer to exactly the bytes of its window,
its length in bytes is that of the window, and its `ref_offset` says where it starts; and a
take that returns an error leaves the splitter as it was. -/
theorem takes_partition {b : Build} {io : IoRef} (hio : io.Wf) {childBlockLen : Option Nat}
    {splitter : IoRefSplitter} (hnew : IoRefSplitter.new b io childBlockLen = some splitter)
    {takes : List Nat} (hfit : ∀ blocks ∈ takes, blocks * splitter.childBlockLen < 2 ^ 64)
    {s : Splitting} (h : run (Splitting.next b) ⟨splitter, []⟩ takes = some s) :
    (∀ pre child post, s.taken = pre ++ child :: post →
      child.blockLen = splitter.childBlockLen ∧
      child.refOffset * splitter.childBlockLen = bytesOf pre ∧
      bytesOf pre + child.totalBytes ≤ io.totalBytes ∧
      addrsOf child.iovs = ((addrsOf io.iovs).drop (bytesOf pre)).take child.totalBytes ∧
      (addrsOf child.iovs).length = child.totalBytes) ∧
    s.taken.flatMap (addrsOf ·.iovs) = (addrsOf io.iovs).take (bytesOf s.taken) ∧
    ∀ blocks e splitter', blocks * splitter.childBlockLen < 2 ^ 64 →
      s.splitter.take b blocks = some (.error e, splitter') → splitter' = s.splitter := by
  have hstart : Partition io splitter.childBlockLen ⟨splitter, []⟩ := by
    obtain ⟨total, _, hnew⟩ := Option.bind_eq_some_iff.mp hnew
    cases hnew
    exact ⟨rfl, rfl, rfl, Nat.dvd_zero _, fun pre child post heq => by simp at heq⟩
  have hs : Partition io splitter.childBlockLen s := by
    induction takes using List.reverseRecOn generalizing s with
    | nil =>
      cases h
      exact hstart
    | append_singleton takes blocks ih =>
      obtain ⟨t, ht, hn⟩ := run_snoc h
      exact (ih (fun n hn => hfit n (by simp [hn])) ht).step hio (hfit blocks (by simp)) hn
  refine ⟨fun pre child post heq => ?_, hs.concat, fun blocks e splitter' hblocks ht => ?_⟩
  · have hw := hs.windows pre child post heq
    have hlen : (addrsOf child.iovs).length = child.totalBytes := by
      have hinside := hw.inside
      rw [hw.bytes, List.length_take, List.length_drop, length_addrsOf, hio.sum]
      omega
    exact ⟨hw.blockLen, hw.refOffset, hw.inside, hw.bytes, hlen⟩
  · rcases take_cases hs hio hblocks ht with ⟨_, hsame⟩ | ⟨child, hok, _⟩
    · exact hsame
    · cases hok

/-- Eight bytes in three segments, one of them empty. -/
def scattered : IoRef := ⟨[⟨100, 3⟩, ⟨200, 0⟩, ⟨300, 5⟩], 0, 0, 2, 4⟩

/-- Children of two-byte blocks; the third take asks for more than is left. -/
theorem takes_partition_scattered :
    ∃ s, run (Splitting.next release) ⟨⟨scattered.iovs, 8, 2, 0⟩, []⟩ [1, 2, 5, 1] = some s ∧
      s.taken.map (·.iovs) = [[⟨100, 2⟩], [⟨102, 1⟩, ⟨300, 3⟩], [⟨303, 2⟩]] ∧
      s.taken.flatMap (addrsOf ·.iovs) = addrsOf scattered.iovs := by
  have hio : scattered.Wf := ⟨rfl, by decide⟩
  have hnew : IoRefSplitter.new release scattered (some 2) = some ⟨scattered.iovs, 8, 2, 0⟩ := rfl
  have hfit : ∀ blocks ∈ [1, 2, 5, 1], blocks * 2 < 2 ^ 64 := by decide
  have hrun : run (Splitting.next release) ⟨⟨scattered.iovs, 8, 2, 0⟩, []⟩ [1, 2, 5, 1] =
      some ⟨⟨scattered.iovs, 8, 2, 8⟩, [⟨[⟨100, 2⟩], 0, 0, 1, 2⟩,
        ⟨[⟨102, 1⟩, ⟨300, 3⟩], 0, 1, 2, 2⟩, ⟨[⟨303, 2⟩], 0, 3, 1, 2⟩]⟩ := rfl
  exact ⟨_, hrun, rfl, (takes_partition hio hnew hfit hrun).2.1⟩

end Ironspdk.Runtime
