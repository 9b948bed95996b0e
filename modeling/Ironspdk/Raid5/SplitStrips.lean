import Ironspdk.Raid5.Strips
import Ironspdk.Runtime.TakeRange

/-! # Splitting a request into strips, down to its bytes

`split_strips` over the scatter list of the request: the splitter cuts segments, where
`Raid5.splitStrips` only counts blocks. Each strip holds the bytes of its blocks, whatever
segments they lie in, and forgetting the segments gives the strips of the coarser model. -/
namespace Ironspdk.Raid5.Scattered
open Ironspdk.Runtime (Build Iovec addrsOf sliceIovs sliceIovs_ok length_addrsOf)

/-- `Strip`, with the segments of its data. -/
structure Strip where
  disk : Nat
  offsetInStrip : Nat
  blocks : Nat
  io : Runtime.IoRef
  deriving DecidableEq, Repr

/-- The loop of `split_strips`; `none` is an `expect` that fails, or no fuel. -/
def stripLoop (b : Build) (stripeBase stripBlocks parityDiskIdx : Nat) :
    Nat → Runtime.IoRefSplitter → Nat → Nat → Option (List Strip)
  | _, _, _, 0 => some []
  | 0, _, _, _ + 1 => none
  | fuel + 1, splitter, cursor, remain + 1 => do
    let offsetInStrip := cursor % stripBlocks
    let take := min (remain + 1) (stripBlocks - offsetInStrip)
    match ← splitter.take b take with
    | (.error _, _) => none
    | (.ok io, splitter) =>
      let strips ← stripLoop b stripeBase stripBlocks parityDiskIdx fuel splitter (cursor + take)
        (remain + 1 - take)
      return { disk := dataDiskIdx (cursor / stripBlocks) parityDiskIdx
               offsetInStrip := offsetInStrip
               blocks := take
               io := { io with offsetBlocks := stripeBase + offsetInStrip } } :: strips

def splitStrips (b : Build) (ioref : Runtime.IoRef)
    (stripeBase stripBlocks stripeOff numBlocks parityDiskIdx : Nat) : Option (List Strip) := do
  let splitter ← Runtime.IoRefSplitter.new b ioref none
  stripLoop b stripeBase stripBlocks parityDiskIdx numBlocks splitter stripeOff numBlocks

/-! ## Taking blocks -/

/-- The bytes of block `i` of a view, as their addresses. -/
def blockAddrs (io : Runtime.IoRef) (i : Nat) : List Nat :=
  ((addrsOf io.iovs).drop (i * io.blockLen)).take io.blockLen

/-- The splitter of `io` behind its first `cursor` blocks. -/
def splitterAt (io : Runtime.IoRef) (cursor : Nat) : Runtime.IoRefSplitter :=
  ⟨io.iovs, io.totalBytes, io.blockLen, cursor * io.blockLen⟩

variable {b : Build} {io : Runtime.IoRef}

theorem new_eq (hio : io.Wf) : Runtime.IoRefSplitter.new b io none = some (splitterAt io 0) := by
  rw [Runtime.IoRefSplitter.new, ← Runtime.IoRef.totalBytes, b.fit_of_lt hio.lt, splitterAt,
    Nat.zero_mul]
  rfl

/-- Blocks that are there can be taken. -/
theorem take_blocks (b : Build) (hio : io.Wf) (hlen : 1 ≤ io.blockLen) (cursor n : Nat)
    (hn : 1 ≤ n) (hfit : cursor + n ≤ io.numBlocks) :
    ∃ iovs, sliceIovs io.iovs (cursor * io.blockLen) (n * io.blockLen) = .ok iovs ∧
      (splitterAt io cursor).take b n =
        some (.ok ⟨iovs, 0, cursor, n, io.blockLen⟩, splitterAt io (cursor + n)) := by
  have hend : cursor * io.blockLen + n * io.blockLen ≤ io.totalBytes := by
    rw [← Nat.add_mul]
    exact Nat.mul_le_mul_right _ hfit
  have hsome : 0 < n * io.blockLen := Nat.mul_pos hn hlen
  have hlt := hio.lt
  obtain ⟨iovs, hslice⟩ := (Runtime.sliceIovs_accepts io.iovs (cursor * io.blockLen)
    (n * io.blockLen)).mpr (by rw [hio.sum]; omega)
  refine ⟨iovs, hslice, ?_⟩
  have hpast : ¬ io.totalBytes < cursor * io.blockLen + n * io.blockLen := by omega
  have haligned : ¬ (b.debugAssertions ∧ cursor * io.blockLen % io.blockLen ≠ 0 ∨
      io.blockLen = 0) := by
    rw [Nat.mul_mod_left]
    omega
  simp only [Runtime.IoRefSplitter.take, splitterAt, b.fit_of_lt (Nat.lt_of_le_of_lt hend hlt),
    b.fit_of_lt (show n * io.blockLen < 2 ^ 64 by omega), Option.bind_eq_bind, Option.bind_some,
    if_neg hpast, hslice, if_neg haligned, Nat.mul_div_cancel _ hlen, Nat.add_mul]
  rfl

/-! ## What the loop returns -/

/-- The strips of the `remain` blocks from block `cursor` of a stripe on, which are the blocks
from `start` on of the request. -/
inductive Tiling (io : Runtime.IoRef) (stripeBase stripBlocks parityDiskIdx : Nat) :
    Nat → Nat → Nat → List Strip → Prop
  | nil {cursor start : Nat} : Tiling io stripeBase stripBlocks parityDiskIdx cursor start 0 []
  | cons {cursor start remain : Nat} {s : Strip} {rest : List Strip} :
      s.disk = dataDiskIdx (cursor / stripBlocks) parityDiskIdx →
      s.offsetInStrip = cursor % stripBlocks → 0 < remain →
      s.blocks = min remain (stripBlocks - cursor % stripBlocks) →
      sliceIovs io.iovs (start * io.blockLen) (s.blocks * io.blockLen) = .ok s.io.iovs →
      s.io = ⟨s.io.iovs, stripeBase + s.offsetInStrip, start, s.blocks, io.blockLen⟩ →
      Tiling io stripeBase stripBlocks parityDiskIdx (cursor + s.blocks) (start + s.blocks)
        (remain - s.blocks) rest →
      Tiling io stripeBase stripBlocks parityDiskIdx cursor start remain (s :: rest)

variable {stripeBase stripBlocks parityDiskIdx : Nat}

theorem stripLoop_tiling (b : Build) (hio : io.Wf) (hlen : 1 ≤ io.blockLen)
    (hstrip : 1 ≤ stripBlocks) (stripeBase parityDiskIdx cursor start : Nat)
    {fuel remain : Nat} (hfuel : remain ≤ fuel)
    (hfit : start + remain ≤ io.numBlocks) :
    ∃ strips, stripLoop b stripeBase stripBlocks parityDiskIdx fuel (splitterAt io start) cursor
        remain = some strips ∧
      Tiling io stripeBase stripBlocks parityDiskIdx cursor start remain strips := by
  induction fuel generalizing cursor start remain with
  | zero =>
    obtain rfl : remain = 0 := by omega
    exact ⟨[], rfl, .nil⟩
  | succ fuel ih =>
    cases remain with
    | zero => exact ⟨[], rfl, .nil⟩
    | succ remain =>
      have hmod := Nat.mod_lt cursor hstrip
      obtain ⟨take, ht⟩ : ∃ take, take = min (remain + 1) (stripBlocks - cursor % stripBlocks) :=
        ⟨_, rfl⟩
      obtain ⟨iovs, hslice, htake⟩ := take_blocks b hio hlen start take (by omega) (by omega)
      obtain ⟨rest, hrest, htiling⟩ := @ih (cursor + take) (start + take) (remain + 1 - take)
        (by omega) (by omega)
      refine ⟨⟨dataDiskIdx (cursor / stripBlocks) parityDiskIdx, cursor % stripBlocks, take,
        ⟨iovs, stripeBase + cursor % stripBlocks, start, take, io.blockLen⟩⟩ :: rest, ?_,
        .cons rfl rfl (Nat.succ_pos _) ht hslice rfl htiling⟩
      simp only [stripLoop, ← ht, htake, Option.bind_eq_bind, Option.bind_some, hrest]
      rfl

namespace Tiling
variable {cursor start remain : Nat} {strips : List Strip}

theorem pos_of_mem (h : Tiling io stripeBase stripBlocks parityDiskIdx cursor start remain strips)
    {s : Strip} (hs : s ∈ strips) : 0 < remain := by
  cases h with
  | nil => cases hs
  | cons _ _ hremain => exact hremain

/-- A strip starts and ends within one strip of the layout. -/
theorem in_strip (h : Tiling io stripeBase stripBlocks parityDiskIdx cursor start remain strips)
    (hstrip : 1 ≤ stripBlocks) :
    ∀ s ∈ strips, 1 ≤ s.blocks ∧ s.offsetInStrip + s.blocks ≤ stripBlocks := by
  induction h with
  | nil =>
    intro s hs
    cases hs
  | @cons cursor start remain s rest hdisk hoffset hremain hblocks hslice hview hrest ih =>
    have hmod := Nat.mod_lt cursor hstrip
    intro t ht
    rcases List.mem_cons.mp ht with rfl | ht
    · omega
    · exact ih t ht

/-- Strips from a strip boundary on lie on the disks from there on. -/
theorem disk_ge (h : Tiling io stripeBase stripBlocks parityDiskIdx cursor start remain strips)
    (hstrip : 1 ≤ stripBlocks) {i : Nat} (hi : i * stripBlocks ≤ cursor) :
    ∀ s ∈ strips, dataDiskIdx i parityDiskIdx ≤ s.disk := by
  induction h with
  | nil =>
    intro s hs
    cases hs
  | @cons cursor start remain s rest hdisk hoffset hremain hblocks hslice hview hrest ih =>
    intro t ht
    rcases List.mem_cons.mp ht with rfl | ht
    · have hle : i ≤ cursor / stripBlocks := (Nat.le_div_iff_mul_le hstrip).mpr hi
      rw [hdisk]
      unfold dataDiskIdx
      split_ifs <;> omega
    · exact ih (by omega) t ht

theorem disks_increase
    (h : Tiling io stripeBase stripBlocks parityDiskIdx cursor start remain strips)
    (hstrip : 1 ≤ stripBlocks) : strips.Pairwise fun s t => s.disk < t.disk := by
  induction h with
  | nil => exact List.Pairwise.nil
  | @cons cursor start remain s rest hdisk hoffset hremain hblocks hslice hview hrest ih =>
    refine List.pairwise_cons.mpr ⟨fun t ht => ?_, ih⟩
    -- a strip that is not the last one ends at a strip boundary
    have hmore := hrest.pos_of_mem ht
    have hdiv := Nat.div_add_mod' cursor stripBlocks
    have hnext : (cursor / stripBlocks + 1) * stripBlocks ≤ cursor + s.blocks := by
      rw [Nat.succ_mul]
      omega
    refine Nat.lt_of_lt_of_le ?_ (hrest.disk_ge hstrip hnext t ht)
    rw [hdisk]
    unfold dataDiskIdx
    split_ifs <;> omega

theorem disk_range (h : Tiling io stripeBase stripBlocks parityDiskIdx cursor start remain strips)
    (hstrip : 1 ≤ stripBlocks) {numDataDisks : Nat}
    (hend : cursor + remain ≤ numDataDisks * stripBlocks) :
    ∀ s ∈ strips, s.disk ≠ parityDiskIdx ∧ s.disk ≤ numDataDisks := by
  induction h with
  | nil =>
    intro s hs
    cases hs
  | @cons cursor start remain s rest hdisk hoffset hremain hblocks hslice hview hrest ih =>
    intro t ht
    rcases List.mem_cons.mp ht with rfl | ht
    · have hlt : cursor / stripBlocks < numDataDisks :=
        (Nat.div_lt_iff_lt_mul hstrip).mpr (by omega)
      rw [hdisk]
      exact ⟨dataDiskIdx_ne _ _, Nat.le_of_lt_succ (dataDiskIdx_lt (n := numDataDisks + 1) hlt)⟩
    · exact ih (by omega) t ht

theorem slices (h : Tiling io stripeBase stripBlocks parityDiskIdx cursor start remain strips) :
    ∀ s ∈ strips, sliceIovs io.iovs (s.io.refOffset * io.blockLen) (s.io.numBlocks * io.blockLen) =
      .ok s.io.iovs := by
  induction h with
  | nil =>
    intro s hs
    cases hs
  | @cons cursor start remain s rest hdisk hoffset hremain hblocks hslice hview hrest ih =>
    intro t ht
    rcases List.mem_cons.mp ht with rfl | ht
    · rw [hview]
      exact hslice
    · exact ih t ht

theorem sum_blocks (h : Tiling io stripeBase stripBlocks parityDiskIdx cursor start remain strips) :
    (strips.map (·.blocks)).sum = remain := by
  induction h with
  | nil => rfl
  | @cons cursor start remain s rest hdisk hoffset hremain hblocks hslice hview hrest ih =>
    rw [List.map_cons, List.sum_cons, ih]
    omega

/-- Where the layout puts the blocks of a request. -/
theorem carries (h : Tiling io stripeBase stripBlocks parityDiskIdx cursor start remain strips)
    (hstrip : 1 ≤ stripBlocks) {i : Nat} (hi : i < remain) :
    ∃ pre s post j, strips = pre ++ s :: post ∧ (pre.map (·.blocks)).sum + j = i ∧ j < s.blocks ∧
      s.disk = dataDiskIdx ((cursor + i) / stripBlocks) parityDiskIdx ∧
      s.io.offsetBlocks + j = stripeBase + (cursor + i) % stripBlocks ∧
      s.io.numBlocks = s.blocks ∧ blockAddrs s.io j = blockAddrs io (start + i) := by
  induction h generalizing i with
  | nil => cases hi
  | @cons cursor start remain s rest hdisk hoffset hremain hblocks hslice hview hrest ih =>
    have hmod := Nat.mod_lt cursor hstrip
    have hdiv := Nat.div_add_mod' cursor stripBlocks
    rcases Nat.lt_or_ge i s.blocks with hhere | hlater
    · -- block `i` is in the same strip of the layout as the block at the cursor
      have hmem : cursor + i = cursor % stripBlocks + i + cursor / stripBlocks * stripBlocks := by
        omega
      have hin : cursor % stripBlocks + i < stripBlocks := by omega
      refine ⟨[], s, rest, i, rfl, Nat.zero_add i, hhere, ?_, ?_, by rw [hview], ?_⟩
      · rw [hdisk, hmem, Nat.add_mul_div_right _ _ hstrip, Nat.div_eq_of_lt hin, Nat.zero_add]
      · rw [hview, hmem, Nat.add_mul_mod_self_right, Nat.mod_eq_of_lt hin, hoffset, Nat.add_assoc]
      · have hfit : i * io.blockLen + io.blockLen ≤ s.blocks * io.blockLen := by
          rw [← Nat.succ_mul]
          exact Nat.mul_le_mul_right _ hhere
        have hlen : s.io.blockLen = io.blockLen := by rw [hview]
        rw [blockAddrs, hlen, (sliceIovs_ok hslice).1, List.drop_take, List.drop_drop,
          List.take_take, Nat.min_eq_left (by omega), ← Nat.add_mul, blockAddrs]
    · obtain ⟨pre, t, post, j, heq, hsum, hj, hd, ho, hn, haddrs⟩ := ih (i := i - s.blocks)
        (by omega)
      have hcursor : cursor + s.blocks + (i - s.blocks) = cursor + i := by omega
      have hstart : start + s.blocks + (i - s.blocks) = start + i := by omega
      rw [hcursor] at hd ho
      rw [hstart] at haddrs
      refine ⟨s :: pre, t, post, j, by rw [heq, List.cons_append], ?_, hj, hd, ho, hn, haddrs⟩
      rw [List.map_cons, List.sum_cons]
      omega

end Tiling

/-- The strip of the coarser model, where a view is a run of blocks. -/
def Strip.forget (s : Strip) : Raid5.Strip :=
  ⟨s.disk, s.offsetInStrip, s.blocks, .ref ⟨s.io.offsetBlocks, s.io.refOffset, s.io.numBlocks⟩⟩

theorem Tiling.forget {cursor start remain : Nat} {strips : List Strip}
    (h : Tiling io stripeBase stripBlocks parityDiskIdx cursor start remain strips)
    (hstrip : 1 ≤ stripBlocks) {fuel num : Nat} (hfuel : remain ≤ fuel)
    (hnum : start + remain ≤ num) :
    Raid5.stripLoop stripeBase stripBlocks parityDiskIdx fuel ⟨num, start⟩ cursor remain =
      some (strips.map Strip.forget) := by
  induction h generalizing fuel with
  | nil => cases fuel <;> rfl
  | @cons cursor start remain s rest hdisk hoffset hremain hblocks hslice hview hrest ih =>
    have hmod := Nat.mod_lt cursor hstrip
    obtain ⟨left, rfl⟩ := Nat.exists_eq_succ_of_ne_zero hremain.ne'
    obtain ⟨fuel, rfl⟩ := Nat.exists_eq_succ_of_ne_zero (show fuel ≠ 0 by omega)
    have hfits : ¬ start + s.blocks > num := by omega
    simp only [Raid5.stripLoop, ← hblocks, IoRefSplitter.take, if_neg hfits, Option.bind_eq_bind,
      Option.bind_some, @ih fuel (by omega) (by omega)]
    rw [List.map_cons, Strip.forget, hview, ← hdisk, ← hoffset]
    rfl

/-- **The segments can be forgotten.** The strips of the request are those of the coarser
model, each with the slice of the request's segments that its blocks make up. -/
theorem splitStrips_forget (hio : io.Wf) (hlen : 1 ≤ io.blockLen) (hstrip : 1 ≤ stripBlocks)
    (stripeOff offsetBlocks : Nat) :
    ∃ strips, splitStrips b io stripeBase stripBlocks stripeOff io.numBlocks parityDiskIdx =
        some strips ∧
      Raid5.splitStrips (.ref ⟨offsetBlocks, 0, io.numBlocks⟩) stripeBase stripBlocks stripeOff
        io.numBlocks parityDiskIdx = some (strips.map Strip.forget) ∧
      ∀ s ∈ strips, sliceIovs io.iovs (s.io.refOffset * io.blockLen)
        (s.io.numBlocks * io.blockLen) = .ok s.io.iovs := by
  obtain ⟨strips, hloop, htiling⟩ := stripLoop_tiling b hio hlen hstrip stripeBase parityDiskIdx
    stripeOff 0 (Nat.le_refl io.numBlocks) (Nat.zero_add _).le
  refine ⟨strips, ?_, htiling.forget hstrip (Nat.le_refl _) (Nat.zero_add _).le, htiling.slices⟩
  rw [splitStrips, new_eq hio]
  exact hloop

/-- **Strips follow the layout.** For every size of a strip, every number of data disks, every
parity disk and every range of blocks inside a stripe, and for every request of that many
blocks however its bytes are segmented: `split_strips` returns; each strip is a range of blocks
inside one strip of the layout; the strips lie on data disks, in their order, and carry as many
blocks as the request; and each block of the request is carried, byte for byte, to the disk and
the block of it where the layout puts the logical block. -/
theorem splitStrips_layout (b : Build) (hio : io.Wf) (hlen : 1 ≤ io.blockLen)
    (hstrip : 1 ≤ stripBlocks) (stripeBase parityDiskIdx : Nat) {numDataDisks stripeOff : Nat}
    (hend : stripeOff + io.numBlocks ≤ numDataDisks * stripBlocks) :
    ∃ strips, splitStrips b io stripeBase stripBlocks stripeOff io.numBlocks parityDiskIdx =
        some strips ∧
      (∀ s ∈ strips, 1 ≤ s.blocks ∧ s.offsetInStrip + s.blocks ≤ stripBlocks) ∧
      strips.Pairwise (fun s t => s.disk < t.disk) ∧
      (∀ s ∈ strips, s.disk ≠ parityDiskIdx ∧ s.disk ≤ numDataDisks) ∧
      (strips.map (·.blocks)).sum = io.numBlocks ∧
      ∀ i < io.numBlocks, ∃ pre s post j, strips = pre ++ s :: post ∧
        (pre.map (·.blocks)).sum + j = i ∧ j < s.blocks ∧
        s.disk = dataDiskIdx ((stripeOff + i) / stripBlocks) parityDiskIdx ∧
        s.io.offsetBlocks + j = stripeBase + (stripeOff + i) % stripBlocks ∧
        s.io.numBlocks = s.blocks ∧ blockAddrs s.io j = blockAddrs io i := by
  obtain ⟨strips, hloop, htiling⟩ := stripLoop_tiling b hio hlen hstrip stripeBase parityDiskIdx
    stripeOff 0 (Nat.le_refl io.numBlocks) (Nat.zero_add _).le
  refine ⟨strips, ?_, htiling.in_strip hstrip, htiling.disks_increase hstrip,
    htiling.disk_range hstrip hend, htiling.sum_blocks, fun i hi => ?_⟩
  · rw [splitStrips, new_eq hio]
    exact hloop
  · have hcarries := htiling.carries hstrip hi
    rwa [Nat.zero_add] at hcarries

/-- Two blocks on either side of the parity disk, the first one of bytes from two segments. -/
theorem splitStrips_layout_scattered :
    ∃ strips, splitStrips Runtime.release Runtime.scattered 10 2 1 2 1 = some strips ∧
      strips.map (fun s => (s.disk, s.io.offsetBlocks)) = [(0, 11), (2, 10)] ∧
      ∀ i < 2, ∃ pre s post j, strips = pre ++ s :: post ∧ (pre.map (·.blocks)).sum + j = i ∧
        blockAddrs s.io j = blockAddrs Runtime.scattered i := by
  have hio : Runtime.scattered.Wf := ⟨rfl, by decide⟩
  have hsplit : splitStrips Runtime.release Runtime.scattered 10 2 1 2 1 =
      some [⟨0, 1, 1, ⟨[⟨100, 3⟩, ⟨300, 1⟩], 11, 0, 1, 4⟩⟩, ⟨2, 0, 1, ⟨[⟨301, 4⟩], 10, 1, 1, 4⟩⟩] :=
    rfl
  obtain ⟨strips, hstrips, _, _, _, _, hcarried⟩ := splitStrips_layout Runtime.release hio
    (by decide) (show 1 ≤ 2 by decide) 10 1 (show 1 + 2 ≤ 2 * 2 by decide)
  cases hsplit.symm.trans hstrips
  refine ⟨_, hsplit, rfl, fun i hi => ?_⟩
  obtain ⟨pre, s, post, j, heq, hsum, _, _, _, _, haddrs⟩ := hcarried i hi
  exact ⟨pre, s, post, j, heq, hsum, haddrs⟩

end Ironspdk.Raid5.Scattered
