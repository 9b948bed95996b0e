import Ironspdk.Raid5.Placement

/-! # XOR over a scatter list

`xor` with its nested loop over the segments of an `Io`, down to bytes. The destination is a
buffer of the caller's own, so that it is a list of bytes apart from the memory that the
segments refer to. No sum of positions overflows: a slice has fewer than `2 ^ 63` bytes. -/
namespace Ironspdk.Raid5.Scattered
open Ironspdk.Lib
open Ironspdk.Runtime (Build Iovec addrsOf addrsOf_cons)

/-- `Io::iter_iov`: what the segments hold. -/
def iterIov (mem : Nat → Byte) (iovs : List Iovec) : List (List Byte) :=
  iovs.map fun iov => gather mem iov.addrs

/-- The inner loop, over `dst[pos..pos + seg.len()]`; the slice panics past the end. -/
def xorSeg (dst : List Byte) (pos : Nat) (seg : List Byte) : Option (List Byte) :=
  if pos + seg.length ≤ dst.length then
    some (dst.take pos ++ List.zipWith (· + ·) ((dst.drop pos).take seg.length) seg ++
      dst.drop (pos + seg.length))
  else none

def xorLoop : List (List Byte) → Nat → List Byte → Option (Nat × List Byte)
  | [], pos, dst => some (pos, dst)
  | seg :: segs, pos, dst => do
    let dst ← xorSeg dst pos seg
    xorLoop segs (pos + seg.length) dst

/-- `xor(dst, io)` for an `Io` with these segments; `none` is a panic. -/
def xor (mem : Nat → Byte) (dst : List Byte) (iovs : List Iovec) : Option (List Byte) := do
  let (pos, dst) ← xorLoop (iterIov mem iovs) 0 dst
  if pos = dst.length then some dst else none

/-- The loop of `reconstruct` and of `write_full_stripe` over their `Io`s. -/
def xorEach (mem : Nat → Byte) (acc : List Byte) (ios : List (List Iovec)) : Option (List Byte) :=
  ios.foldlM (xor mem) acc

/-! ## The loop over the segments -/

section loop
variable {dst seg : List Byte} {segs : List (List Byte)} {pos : Nat}

theorem iterIov_flatten (mem : Nat → Byte) (iovs : List Iovec) :
    (iterIov mem iovs).flatten = gather mem (addrsOf iovs) := by
  induction iovs with
  | nil => rfl
  | cons iov iovs ih =>
    rw [addrsOf_cons, gather_append, ← ih]
    rfl

/-- A segment that fits changes its part of the destination. -/
theorem xorSeg_fits (h : pos + seg.length ≤ dst.length) : ∃ out, xorSeg dst pos seg = some out ∧
    out.length = dst.length ∧
    out.take (pos + seg.length) =
      dst.take pos ++ List.zipWith (· + ·) ((dst.drop pos).take seg.length) seg ∧
    out.drop (pos + seg.length) = dst.drop (pos + seg.length) := by
  have hchanged : (dst.take pos ++
      List.zipWith (· + ·) ((dst.drop pos).take seg.length) seg).length = pos + seg.length := by
    rw [List.length_append, List.length_zipWith, List.length_take, List.length_take,
      List.length_drop]
    omega
  refine ⟨_, if_pos h, ?_, List.take_left' hchanged, List.drop_left' hchanged⟩
  rw [List.length_append, hchanged, List.length_drop]
  omega

/-- Segments that end inside the destination change what lies between `pos` and their end. -/
theorem xorLoop_fits (h : pos + segs.flatten.length ≤ dst.length) : xorLoop segs pos dst =
    some (pos + segs.flatten.length, dst.take pos ++
      List.zipWith (· + ·) ((dst.drop pos).take segs.flatten.length) segs.flatten ++
        dst.drop (pos + segs.flatten.length)) := by
  induction segs generalizing pos dst with
  | nil => simp [xorLoop]
  | cons seg segs ih =>
    rw [List.flatten_cons, List.length_append, ← Nat.add_assoc] at h
    obtain ⟨out, hout, hlen, hbefore, hafter⟩ :=
      xorSeg_fits (Nat.le_trans (Nat.le_add_right (pos + seg.length) segs.flatten.length) h)
    have hrest : out.drop (pos + seg.length + segs.flatten.length) =
        dst.drop (pos + seg.length + segs.flatten.length) := by
      rw [← List.drop_drop, hafter, List.drop_drop]
    have hsplit : (dst.drop pos).take (seg.length + segs.flatten.length) =
        (dst.drop pos).take seg.length ++
          (dst.drop (pos + seg.length)).take segs.flatten.length := by
      rw [List.take_add, List.drop_drop]
    have heq : ((dst.drop pos).take seg.length).length = seg.length := by
      rw [List.length_take, List.length_drop]
      omega
    rw [xorLoop, hout, Option.bind_eq_bind, Option.bind_some, ih (by omega), hbefore, hafter,
      hrest, List.flatten_cons, List.length_append, hsplit, List.zipWith_append heq,
      ← Nat.add_assoc, ← List.append_assoc]

/-- Segments that end past it panic. -/
theorem xorLoop_past (hpos : pos ≤ dst.length) (h : dst.length < pos + segs.flatten.length) :
    xorLoop segs pos dst = none := by
  induction segs generalizing pos dst with
  | nil => exact absurd hpos (Nat.not_le.mpr h)
  | cons seg segs ih =>
    rw [List.flatten_cons, List.length_append, ← Nat.add_assoc] at h
    by_cases hfirst : pos + seg.length ≤ dst.length
    · obtain ⟨out, hout, hlen, _, _⟩ := xorSeg_fits hfirst
      rw [xorLoop, hout, Option.bind_eq_bind, Option.bind_some, ih (by omega) (by omega)]
    · rw [xorLoop, xorSeg, if_neg hfirst]
      rfl

end loop

/-- What `xor` does does not depend on the segmentation. -/
theorem xor_eq (mem : Nat → Byte) (dst : List Byte) (iovs : List Iovec) : xor mem dst iovs =
    if (addrsOf iovs).length = dst.length
      then some (List.zipWith (· + ·) dst (gather mem (addrsOf iovs))) else none := by
  have hlen : (iterIov mem iovs).flatten.length = (addrsOf iovs).length := by
    rw [iterIov_flatten, length_gather]
  unfold xor
  rcases Nat.lt_or_ge dst.length (addrsOf iovs).length with hpast | hfits
  · rw [xorLoop_past (Nat.zero_le _) (by rwa [hlen, Nat.zero_add]), if_neg (Nat.ne_of_gt hpast)]
    rfl
  · rw [xorLoop_fits (by rwa [hlen, Nat.zero_add]), hlen, iterIov_flatten]
    simp only [Nat.zero_add, List.take_zero, List.drop_zero, List.nil_append, Option.bind_eq_bind,
      Option.bind_some, List.length_append, List.length_zipWith, List.length_take, length_gather,
      List.length_drop]
    by_cases hsame : (addrsOf iovs).length = dst.length
    · rw [if_pos (by omega), if_pos hsame, hsame, List.take_length, List.drop_length,
        List.append_nil]
    · rw [if_neg (by omega), if_neg hsame]

theorem xorEach_eq {mem : Nat → Byte} {acc : List Byte} {ios : List (List Iovec)}
    (h : ∀ io ∈ ios, (addrsOf io).length = acc.length) : xorEach mem acc ios =
      some ((ios.map fun io => gather mem (addrsOf io)).foldl (List.zipWith (· + ·)) acc) := by
  induction ios generalizing acc with
  | nil => rfl
  | cons io ios ih =>
    obtain ⟨hio, hios⟩ := List.forall_mem_cons.mp h
    have hlen : (List.zipWith (· + ·) acc (gather mem (addrsOf io))).length = acc.length := by
      rw [List.length_zipWith, length_gather, hio, Nat.min_self]
    rw [xorEach, List.foldlM_cons, xor_eq, if_pos hio]
    exact ih fun io' hio' => by rw [hlen, hios io' hio']

/-! ## The operation of the models -/

section blocks
variable {n num count : Nat}

theorem toBytes_add (a b : Nat → Block n) :
    List.zipWith (· + ·) (toBytes count a) (toBytes count b) = toBytes count (a + b) := by
  have hlen : (List.zipWith (· + ·) (toBytes count a) (toBytes count b)).length = count * n := by
    rw [List.length_zipWith, length_toBytes, length_toBytes, Nat.min_self]
  refine eq_toBytes hlen fun j hj => funext fun i => ?_
  rw [toBlocks, List.getElem?_zipWith, toBytes_at hj, toBytes_at hj]
  rfl

/-- **What the models take for one operation is what the loop does** to the bytes of the
buffer, from block `start` on. -/
theorem xor_slice (b : Build) (seg : Segments n num) (s t : Proc n) {dst start : Nat}
    {r : Raid5.IoRef} (hfit : r.refOffset + r.numBlocks ≤ num)
    (h : perform b seg (.xor dst start (.ref r)) s = some ((), t)) :
    xor s.ram (toBytes r.numBlocks fun i => s.mem dst (start + i)) (seg.slice r).iovs =
      some (toBytes r.numBlocks fun i => t.mem dst (start + i)) := by
  have hbytes := seg.fit_bytes hfit
  have hlen : (addrsOf (seg.slice r).iovs).length = r.numBlocks * n := by
    rw [Segments.addrs_slice hfit, List.length_take, List.length_drop, Nat.min_eq_left (by omega)]
  have hview : gather s.ram (addrsOf (seg.slice r).iovs) =
      toBytes r.numBlocks (s.load seg (.ref r)) :=
    eq_toBytes (by rw [length_gather, hlen]) fun _ _ => rfl
  rw [xor_eq, if_pos (by rw [hlen, length_toBytes]), hview, toBytes_add]
  cases h
  refine congrArg some (eq_toBytes (length_toBytes _ _) fun j hj => ?_)
  have hin : start ≤ start + j ∧ start + j < start + r.numBlocks := by omega
  rw [toBlocks_toBytes hj]
  simp only [Io.numBlocks, hin, and_self, if_true, Nat.add_sub_cancel_left, Pi.add_apply]

end blocks

/-- **XOR and reconstruction.** `xor` adds the bytes of the segments, one after the other, to
the destination if there are as many of them, and panics otherwise. So adding all strips of a
consistent stripe but one to a zeroed buffer, in any order and from any segments, yields the
missing one. -/
theorem xor_rebuilds (mem : Nat → Byte) :
    (∀ (dst : List Byte) (iovs : List Iovec),
      ((addrsOf iovs).length = dst.length → ∃ out, xor mem dst iovs = some out ∧
        out.length = dst.length ∧ ∀ (i : Nat) (d x : Byte), dst[i]? = some d →
          (gather mem (addrsOf iovs))[i]? = some x → out[i]? = some (d + x)) ∧
      ((addrsOf iovs).length ≠ dst.length → xor mem dst iovs = none)) ∧
    ∀ (len k : Nat) (strips : List (List Byte)) (missing : List Byte) (ios : List (List Iovec)),
      (∀ s ∈ strips, s.length = len) → (∀ i < len, columnSum strips i = 0) →
      strips[k]? = some missing →
      (ios.map fun io => gather mem (addrsOf io)).Perm (strips.eraseIdx k) →
      xorEach mem (List.replicate len 0) ios = some missing := by
  refine ⟨fun dst iovs => ⟨fun h => ⟨_, (xor_eq mem dst iovs).trans (if_pos h), ?_, ?_⟩,
    fun h => (xor_eq mem dst iovs).trans (if_neg h)⟩, ?_⟩
  · rw [List.length_zipWith, length_gather, h, Nat.min_self]
  · intro i d x hd hx
    rw [List.getElem?_zipWith, hd, hx]
  · intro len k strips missing ios hlen hzero hk hperm
    rw [xorEach_eq, foldl_others hlen hzero hk hperm]
    intro io hio
    have hstrip : gather mem (addrsOf io) ∈ strips := by
      have hmem := hperm.mem_iff.mp (List.mem_map_of_mem hio)
      exact List.mem_of_mem_eraseIdx hmem
    rw [List.length_replicate, ← hlen _ hstrip, length_gather]

/-- The strips of a consistent stripe. -/
def threeStrips : List (List Byte) := [[⟨1⟩, ⟨2⟩, ⟨3⟩], [⟨4⟩, ⟨5⟩, ⟨6⟩], [⟨5⟩, ⟨7⟩, ⟨5⟩]]

/-- Memory that holds the first strip in one segment, and the last in three, one of them empty. -/
def stripRam (a : Nat) : Byte :=
  if a < 200 then ⟨BitVec.ofNat 8 (a - 99)⟩ else if a = 311 then ⟨7⟩ else ⟨5⟩

theorem xor_rebuilds_scattered : xorEach stripRam (List.replicate 3 0)
    [[⟨200, 1⟩, ⟨300, 0⟩, ⟨311, 2⟩], [⟨100, 3⟩]] = some [⟨4⟩, ⟨5⟩, ⟨6⟩] :=
  (xor_rebuilds stripRam).2 3 1 threeStrips _ _ (by decide) (by decide) rfl (by decide)

end Ironspdk.Raid5.Scattered
