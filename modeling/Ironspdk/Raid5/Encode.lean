import Mathlib.Data.List.Basic
import Ironspdk.Lib.Parity
import Ironspdk.Raid5.Strips

/-! # What an array stores

The logical contents of the device are a function from logical blocks to blocks. `encode`
says what each block of each child is then: the logical block the layout puts there, or
the exclusive or of its row. A write changes the logical contents by `overwrite`; the
lemmas below follow the parity row of a stripe through the strips of the write. -/
namespace Ironspdk.Raid5
open Ironspdk.Runtime Ironspdk.Lib

variable {B : Type} [XorGroup B]

/-- The contents of a child block when the device holds `flat`. -/
def Raid5Bdev.encode (dev : Raid5Bdev) (flat : Nat → B) (disk row : Nat) : B :=
  let s := row / dev.stripBlocks
  let r := row % dev.stripBlocks
  if disk = dev.parityDiskIdx s then
    ∑ i ∈ Finset.range (dev.diskCount - 1), flat (dev.logicalBlock s i r)
  else flat (dev.logicalBlock s (stripOf disk (dev.parityDiskIdx s)) r)

/-- The logical contents after `data` is written to `num` blocks from `off`. -/
def overwrite (flat : Nat → B) (off num : Nat) (data : Nat → B) : Nat → B :=
  fun b => if off ≤ b ∧ b < off + num then data (b - off) else flat b

omit [XorGroup B] in
theorem overwrite_in {flat data : Nat → B} {off num j : Nat} (hj : j < num) :
    overwrite flat off num data (off + j) = data j := by
  rw [overwrite, if_pos (by omega), Nat.add_sub_cancel_left]

omit [XorGroup B] in
theorem overwrite_out {flat data : Nat → B} {off num b : Nat} (hb : b < off ∨ off + num ≤ b) :
    overwrite flat off num data b = flat b := by
  rw [overwrite, if_neg (by omega)]

omit [XorGroup B] in
theorem overwrite_zero (flat data : Nat → B) (off : Nat) : overwrite flat off 0 data = flat :=
  funext fun b => overwrite_out (by omega)

variable (dev : Raid5Bdev)

theorem row_div {k r : Nat} (hr : r < dev.stripBlocks) :
    (k * dev.stripBlocks + r) / dev.stripBlocks = k := by
  rw [Nat.add_comm, Nat.add_mul_div_right _ _ dev.strip_pos, Nat.div_eq_of_lt hr, Nat.zero_add]

theorem row_mod {k r : Nat} (hr : r < dev.stripBlocks) :
    (k * dev.stripBlocks + r) % dev.stripBlocks = r := by
  rw [Nat.add_comm, Nat.add_mul_mod_self_right, Nat.mod_eq_of_lt hr]

theorem encode_parity (flat : Nat → B) {k r : Nat} (hr : r < dev.stripBlocks) :
    dev.encode flat (dev.parityDiskIdx k) (k * dev.stripBlocks + r) =
      ∑ i ∈ Finset.range (dev.diskCount - 1), flat (dev.logicalBlock k i r) := by
  simp only [Raid5Bdev.encode, row_div dev hr, row_mod dev hr, if_true]

/-- A data block holds the logical block that the layout puts there. -/
theorem encode_locate (flat : Nat → B) (b : Nat) :
    dev.encode flat (dev.locate b).1 (dev.locate b).2 = flat b := by
  obtain ⟨s, i, r, hi, hr, _, rfl⟩ := dev.exists_coordinates b
  rw [dev.locate_logicalBlock hi hr]
  simp only [Raid5Bdev.encode, row_div dev hr, row_mod dev hr, if_neg (dataDiskIdx_ne _ _),
    stripOf_dataDiskIdx]

/-- Every block of a child off the parity disk holds a logical block. -/
theorem exists_block {k disk row : Nat} (hd : disk < dev.diskCount)
    (hp : disk ≠ dev.parityDiskIdx k) (hrow : row / dev.stripBlocks = k) :
    ∃ b, dev.locate b = (disk, row) ∧ dev.stripeIdx b = k := by
  have hr := Nat.mod_lt row dev.strip_pos
  have hi := stripOf_lt hd (dev.parityDiskIdx_lt k) hp
  refine ⟨dev.logicalBlock k (stripOf disk (dev.parityDiskIdx k)) (row % dev.stripBlocks), ?_, ?_⟩
  · rw [dev.locate_logicalBlock hi hr, dataDiskIdx_stripOf hp, ← hrow, Nat.div_add_mod']
  · exact dev.stripeIdx_add (dev.strip_in_stripe hi hr)

/-- A stripe of an encoded device is consistent: its strips cancel. -/
theorem encode_sum (flat : Nat → B) (row : Nat) :
    ∑ x ∈ Finset.range dev.diskCount, dev.encode flat x row = 0 := by
  have hp := dev.parityDiskIdx_lt (row / dev.stripBlocks)
  rw [← Finset.add_sum_erase _ _ (Finset.mem_range.mpr hp), xor_eq_zero]
  simp only [Raid5Bdev.encode, if_true]
  -- the data disks are the strips, counted past the parity disk
  refine Finset.sum_nbij' (fun i => dataDiskIdx i (dev.parityDiskIdx (row / dev.stripBlocks)))
    (fun x => stripOf x (dev.parityDiskIdx (row / dev.stripBlocks))) ?_ ?_ ?_ ?_ ?_
  · intro i hi
    exact Finset.mem_erase.mpr ⟨dataDiskIdx_ne _ _,
      Finset.mem_range.mpr (dataDiskIdx_lt (Finset.mem_range.mp hi))⟩
  · intro x hx
    obtain ⟨hne, hx⟩ := Finset.mem_erase.mp hx
    exact Finset.mem_range.mpr (stripOf_lt (Finset.mem_range.mp hx) hp hne)
  · exact fun i _ => stripOf_dataDiskIdx _ _
  · exact fun x hx => dataDiskIdx_stripOf (Finset.ne_of_mem_erase hx)
  · intro i _
    rw [if_neg (dataDiskIdx_ne _ _), stripOf_dataDiskIdx]

/-- Any strip is the exclusive or of the others. -/
theorem encode_eq_sum_erase (flat : Nat → B) {disk : Nat} (hd : disk < dev.diskCount) (row : Nat) :
    dev.encode flat disk row =
      ∑ x ∈ (Finset.range dev.diskCount).erase disk, dev.encode flat x row :=
  eq_sum_erase (f := fun x => dev.encode flat x row) (Finset.mem_range.mpr hd)
    (encode_sum dev flat row)

/-! ## Writing strip by strip -/

variable {dev} {k base num : Nat} {s : Strip}

/-- What one strip of a write adds to the parity row `r`: old and new contents. -/
def Strip.delta (base : Nat) (flat data : Nat → B) (r : Nat) (s : Strip) : B :=
  if s.offsetInStrip ≤ r ∧ r < s.offsetInStrip + s.blocks then
    flat (base + (s.io.start + (r - s.offsetInStrip))) + data (s.io.start + (r - s.offsetInStrip))
  else 0

theorem encode_overwrite_strip (h : s.For dev k base num) (flat data : Nat → B) {r : Nat}
    (hr : r < dev.stripBlocks) :
    dev.encode (overwrite flat base (s.io.start + s.blocks) data) (dev.parityDiskIdx k)
        (k * dev.stripBlocks + r) =
      dev.encode (overwrite flat base s.io.start data) (dev.parityDiskIdx k)
        (k * dev.stripBlocks + r) + s.delta base flat data r := by
  rw [encode_parity dev _ hr, encode_parity dev _ hr]
  obtain ⟨i, hi, _, hb⟩ := h.disk
  have hpos := h.pos
  have hin := h.inStrip
  have hone := sum_change_one (f := fun i => overwrite flat base s.io.start data
      (dev.logicalBlock k i r))
    (g := fun i => overwrite flat base (s.io.start + s.blocks) data (dev.logicalBlock k i r))
    (Finset.mem_range.mpr hi) ?_
  · rw [hone, add_assoc]
    congr 1
    have hlb : dev.logicalBlock k i r + s.offsetInStrip = base + s.io.start + r := by
      rw [hb, Raid5Bdev.logicalBlock, Raid5Bdev.logicalBlock]
      omega
    unfold Strip.delta
    split
    · rename_i hc
      have he : dev.logicalBlock k i r = base + (s.io.start + (r - s.offsetInStrip)) := by omega
      rw [he, overwrite_out (by omega), overwrite_in (by omega)]
    · rename_i hc
      rw [xor_eq_zero]
      by_cases hlt : r < s.offsetInStrip
      · simp only [overwrite]
        congr 1
        exact propext ⟨fun h => by omega, fun h => by omega⟩
      · rw [overwrite_out (by omega), overwrite_out (by omega)]
  · intro j hj hne
    have hr' : dev.logicalBlock k j r < dev.logicalBlock k i s.offsetInStrip ∨
        dev.logicalBlock k i s.offsetInStrip + s.blocks ≤ dev.logicalBlock k j r := by
      simp only [Raid5Bdev.logicalBlock]
      rcases Nat.lt_or_gt_of_ne hne with hlt | hgt
      · left
        have := Nat.mul_le_mul_right dev.stripBlocks (Nat.succ_le_of_lt hlt)
        rw [Nat.succ_mul] at this
        omega
      · right
        have := Nat.mul_le_mul_right dev.stripBlocks (Nat.succ_le_of_lt hgt)
        rw [Nat.succ_mul] at this
        omega
    rw [← hb] at hr'
    simp only [overwrite]
    congr 1
    exact propext ⟨fun h => by omega, fun h => by omega⟩

/-- The parity row after a whole write, from the parity row before it. -/
theorem Tiles.encode_overwrite {off cursor remain : Nat} {strips : List Strip}
    (h : Tiles dev k off cursor remain strips) (hc : off ≤ cursor)
    (hfor : ∀ s ∈ strips, s.For dev k base num) (flat data : Nat → B) {r : Nat}
    (hr : r < dev.stripBlocks) :
    dev.encode (overwrite flat base (cursor - off + remain) data) (dev.parityDiskIdx k)
        (k * dev.stripBlocks + r) =
      dev.encode (overwrite flat base (cursor - off) data) (dev.parityDiskIdx k)
        (k * dev.stripBlocks + r) + (strips.map (·.delta base flat data r)).sum := by
  induction strips generalizing cursor remain with
  | nil =>
    obtain rfl : remain = 0 := h
    simp
  | cons s rest ih =>
    have hs := hfor s (List.mem_cons_self ..)
    obtain ⟨hpos, _, _, hb, hio, hrest⟩ := h
    have hst : s.io.start = cursor - off := by rw [hio]; rfl
    have hlen : cursor + s.blocks - off + (remain - s.blocks) = cursor - off + remain := by omega
    have hstep := encode_overwrite_strip hs flat data hr
    have := ih hrest (by omega) fun t ht => hfor t (List.mem_cons_of_mem _ ht)
    rw [hlen, show cursor + s.blocks - off = s.io.start + s.blocks by omega, hstep, hst] at this
    rw [this, List.map_cons, List.sum_cons, add_assoc]

/-- Every block of the request lies in a strip. -/
theorem Tiles.covers {off cursor remain : Nat} {strips : List Strip}
    (h : Tiles dev k off cursor remain strips) (hc : off ≤ cursor) {j : Nat}
    (hj : cursor - off ≤ j) (hj' : j < cursor - off + remain) :
    ∃ s ∈ strips, s.io.start ≤ j ∧ j < s.io.start + s.blocks := by
  induction strips generalizing cursor remain with
  | nil =>
    obtain rfl : remain = 0 := h
    omega
  | cons s rest ih =>
    obtain ⟨_, _, _, hb, hio, hrest⟩ := h
    have hst : s.io.start = cursor - off := by rw [hio]; rfl
    by_cases hlt : j < s.io.start + s.blocks
    · exact ⟨s, List.mem_cons_self .., by omega, hlt⟩
    · obtain ⟨t, ht, h1, h2⟩ := ih hrest (by omega) (by omega) (by omega)
      exact ⟨t, List.mem_cons_of_mem _ ht, h1, h2⟩

/-! ## The strips of a request -/

theorem Strip.For.row (h : s.For dev k base num) {j : Nat} (hj : j < s.blocks) :
    (s.io.offsetBlocks + j) / dev.stripBlocks = k := by
  rw [h.offset_eq, Nat.add_assoc]
  exact row_div dev (by have := h.inStrip; omega)

theorem Strip.For.encode_eq (h : s.For dev k base num) (flat : Nat → B) {j : Nat}
    (hj : j < s.blocks) :
    dev.encode flat s.disk (s.io.offsetBlocks + j) = flat (base + s.io.start + j) := by
  have := encode_locate dev flat (base + s.io.start + j)
  rwa [h.locate hj] at this

/-- The strips that `split_strips` yields for a request inside stripe `k`. -/
structure Split (dev : Raid5Bdev) (k : Nat) (io : BdevIo) (strips : List Strip) : Prop where
  tiles : Tiles dev k (dev.stripeOffset io.offsetBlocks) (dev.stripeOffset io.offsetBlocks)
    io.numBlocks strips
  all_for : ∀ s ∈ strips, s.For dev k io.offsetBlocks io.numBlocks
  disks : strips.Pairwise fun s t => s.disk < t.disk
  starts : strips.Pairwise fun s t => s.io.start + s.blocks ≤ t.io.start
  covers : ∀ j < io.numBlocks, ∃ s ∈ strips, s.io.start ≤ j ∧ j < s.io.start + s.blocks

theorem split_request (dev : Raid5Bdev) {io : BdevIo} (hfit : ¬ dev.crossesStripe io) :
    ∃ strips, splitStrips (Io.fromBdevIo io) (dev.stripeIdx io.offsetBlocks * dev.stripBlocks)
        dev.stripBlocks (dev.stripeOffset io.offsetBlocks) io.numBlocks
        (dev.parityDiskIdx (dev.stripeIdx io.offsetBlocks)) = some strips ∧
      Split dev (dev.stripeIdx io.offsetBlocks) io strips := by
  obtain ⟨strips, hs, ht⟩ := splitStrips_tiles dev (dev.stripeIdx io.offsetBlocks)
    (dev.stripeOffset io.offsetBlocks) io
  have hoff : dev.stripeIdx io.offsetBlocks * dev.stripeBlocks + dev.stripeOffset io.offsetBlocks =
      io.offsetBlocks := Nat.div_add_mod' _ _
  refine ⟨strips, hs, ht, ?_, ht.disks_increase, (ht.starts_increase (Nat.le_refl _)).2, ?_⟩
  · have := ht.all_for (Nat.le_refl _) (by omega) (Nat.le_of_not_lt hfit)
    rwa [hoff] at this
  · intro j hj
    exact ht.covers (Nat.le_refl _) (by omega) (by omega)

end Ironspdk.Raid5
