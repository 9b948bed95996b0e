import Mathlib.Data.List.Pairwise
import Ironspdk.Raid5.Layout

/-! # Views of a request and its strips

`Io`, `IoRefSplitter` and `split_strips` at the granularity of blocks: a view is a run of
blocks of one buffer, the request's own memory or a `DmaBuf`, together with the child
blocks it is for. How the blocks of a buffer are scattered over I/O vectors does not
matter here. -/
namespace Ironspdk.Raid5
open Ironspdk.Runtime

/-- A DMA buffer, by its number and size; number 0 is the memory of the request. -/
structure DmaBuf where
  id : Nat
  blocks : Nat
  deriving DecidableEq, Repr

structure IoRef where
  offsetBlocks : Nat
  refOffset : Nat
  numBlocks : Nat
  deriving DecidableEq, Repr

structure IoBuf where
  data : DmaBuf
  offsetBlocks : Nat
  numBlocks : Nat
  deriving DecidableEq, Repr

inductive Io
  | ref (r : IoRef)
  | buf (b : IoBuf)
  deriving DecidableEq, Repr

namespace Io

def newBuf (data : DmaBuf) (offsetBlocks : Nat) : Io := .buf ⟨data, offsetBlocks, data.blocks⟩

def fromBdevIo (io : BdevIo) : Io := .ref ⟨io.offsetBlocks, 0, io.numBlocks⟩

def offsetBlocks : Io → Nat
  | .ref r => r.offsetBlocks
  | .buf b => b.offsetBlocks

def numBlocks : Io → Nat
  | .ref r => r.numBlocks
  | .buf b => b.numBlocks

def updateOffsetBlocks (offsetBlocks : Nat) : Io → Io
  | .ref r => .ref { r with offsetBlocks := offsetBlocks }
  | .buf b => .buf { b with offsetBlocks := offsetBlocks }

/-- The buffer of the view. -/
def mem : Io → Nat
  | .ref _ => 0
  | .buf b => b.data.id

/-- The first block of the view in its buffer. -/
def start : Io → Nat
  | .ref r => r.refOffset
  | .buf _ => 0

/-- Block `i` of buffer `b` belongs to the view. -/
def Covers (io : Io) (b i : Nat) : Prop := io.mem = b ∧ io.start ≤ i ∧ i < io.start + io.numBlocks

instance (io : Io) (b i : Nat) : Decidable (io.Covers b i) := inferInstanceAs (Decidable (_ ∧ _))

end Io

structure IoRefSplitter where
  parentBlocks : Nat
  cursor : Nat
  deriving DecidableEq, Repr

def Io.split : Io → Option IoRefSplitter
  | .ref r => some ⟨r.numBlocks, 0⟩
  | .buf _ => none

def IoRefSplitter.take (blocks : Nat) (sp : IoRefSplitter) : Option (IoRef × IoRefSplitter) :=
  if sp.cursor + blocks > sp.parentBlocks then none
  else some (⟨0, sp.cursor, blocks⟩, { sp with cursor := sp.cursor + blocks })

/-- One segment of a request, mapped to the strip it falls into. -/
structure Strip where
  disk : Nat
  offsetInStrip : Nat
  blocks : Nat
  io : Io
  deriving DecidableEq, Repr

/-- The loop of `split_strips`; every iteration takes at least one block, so `fuel` need
not exceed the number of blocks. `none` is an `expect` that fails. -/
def stripLoop (stripeBase stripBlocks parityDiskIdx : Nat) :
    Nat → IoRefSplitter → Nat → Nat → Option (List Strip)
  | _, _, _, 0 => some []
  | 0, _, _, _ + 1 => none
  | fuel + 1, splitter, cursor, remain + 1 => do
    let offsetInStrip := cursor % stripBlocks
    let take := min (remain + 1) (stripBlocks - offsetInStrip)
    let (io, splitter) ← splitter.take take
    let strips ← stripLoop stripeBase stripBlocks parityDiskIdx fuel splitter (cursor + take)
      (remain + 1 - take)
    return { disk := dataDiskIdx (cursor / stripBlocks) parityDiskIdx
             offsetInStrip := offsetInStrip
             blocks := take
             io := (Io.ref io).updateOffsetBlocks (stripeBase + offsetInStrip) } :: strips

def splitStrips (ioref : Io) (stripeBase stripBlocks stripeOff numBlocks parityDiskIdx : Nat) :
    Option (List Strip) := do
  let splitter ← ioref.split
  stripLoop stripeBase stripBlocks parityDiskIdx numBlocks splitter stripeOff numBlocks

/-! ## What the strips of a request are -/

/-- The strips of the `remain` blocks that start at block `cursor` of stripe `k`, for a
request that starts at block `off` of the stripe. -/
def Tiles (dev : Raid5Bdev) (k off : Nat) : Nat → Nat → List Strip → Prop
  | _, remain, [] => remain = 0
  | cursor, remain, s :: rest =>
    0 < remain ∧ s.disk = dataDiskIdx (cursor / dev.stripBlocks) (dev.parityDiskIdx k) ∧
      s.offsetInStrip = cursor % dev.stripBlocks ∧
      s.blocks = min remain (dev.stripBlocks - s.offsetInStrip) ∧
      s.io = .ref ⟨k * dev.stripBlocks + s.offsetInStrip, cursor - off, s.blocks⟩ ∧
      Tiles dev k off (cursor + s.blocks) (remain - s.blocks) rest

theorem stripLoop_tiles {dev : Raid5Bdev} {k off num : Nat} : ∀ {fuel cursor remain : Nat},
    remain ≤ fuel → off ≤ cursor → cursor - off + remain = num →
    ∃ strips, stripLoop (k * dev.stripBlocks) dev.stripBlocks (dev.parityDiskIdx k) fuel
      ⟨num, cursor - off⟩ cursor remain = some strips ∧ Tiles dev k off cursor remain strips := by
  intro fuel
  induction fuel with
  | zero =>
    intro cursor remain hf _ _
    obtain rfl : remain = 0 := by omega
    exact ⟨[], rfl, rfl⟩
  | succ fuel ih =>
    intro cursor remain hf ho hn
    cases remain with
    | zero => exact ⟨[], rfl, rfl⟩
    | succ remain =>
      have hmod := Nat.mod_lt cursor dev.strip_pos
      obtain ⟨take, ht⟩ : ∃ take, take = min (remain + 1)
        (dev.stripBlocks - cursor % dev.stripBlocks) := ⟨_, rfl⟩
      have hfit : ¬ (cursor - off + take > num) := by omega
      obtain ⟨rest, hrest, htiles⟩ := @ih (cursor + take) (remain + 1 - take) (by omega)
        (by omega) (by omega)
      have hsp : IoRefSplitter.take take ⟨num, cursor - off⟩ =
          some (⟨0, cursor - off, take⟩, ⟨num, cursor + take - off⟩) := by
        rw [IoRefSplitter.take, if_neg hfit,
          show cursor - off + take = cursor + take - off by omega]
      refine ⟨⟨dataDiskIdx (cursor / dev.stripBlocks) (dev.parityDiskIdx k),
        cursor % dev.stripBlocks, take, .ref ⟨k * dev.stripBlocks + cursor % dev.stripBlocks,
          cursor - off, take⟩⟩ :: rest, ?_, by omega, rfl, rfl, ht, rfl, htiles⟩
      simp only [stripLoop, ← ht, hsp, Option.bind_eq_bind, Option.bind_some, hrest]
      rfl

/-- `split_strips` meets no `expect` and yields the strips of the request. -/
theorem splitStrips_tiles (dev : Raid5Bdev) (k off : Nat) (io : BdevIo) :
    ∃ strips, splitStrips (Io.fromBdevIo io) (k * dev.stripBlocks) dev.stripBlocks off io.numBlocks
      (dev.parityDiskIdx k) = some strips ∧ Tiles dev k off off io.numBlocks strips := by
  have h : off - off + io.numBlocks = io.numBlocks := by omega
  have := @stripLoop_tiles dev k off _ _ _ _ (Nat.le_refl io.numBlocks) (Nat.le_refl off) h
  rwa [Nat.sub_self] at this

/-- A strip of the request for blocks `base`, `base + 1`, … of stripe `k`: each of its
blocks goes where the layout sends it. -/
structure Strip.For (dev : Raid5Bdev) (k base num : Nat) (s : Strip) : Prop where
  view : s.io = .ref ⟨k * dev.stripBlocks + s.offsetInStrip, s.io.start, s.blocks⟩
  pos : 0 < s.blocks
  inRequest : s.io.start + s.blocks ≤ num
  inStrip : s.offsetInStrip + s.blocks ≤ dev.stripBlocks
  disk : ∃ i < dev.diskCount - 1, s.disk = dataDiskIdx i (dev.parityDiskIdx k) ∧
    base + s.io.start = dev.logicalBlock k i s.offsetInStrip

namespace Strip.For
variable {dev : Raid5Bdev} {k base num : Nat} {s : Strip}

theorem mem_eq (h : s.For dev k base num) : s.io.mem = 0 := by rw [h.view]; rfl

theorem numBlocks_eq (h : s.For dev k base num) : s.io.numBlocks = s.blocks := by rw [h.view]; rfl

theorem offset_eq (h : s.For dev k base num) :
    s.io.offsetBlocks = k * dev.stripBlocks + s.offsetInStrip := by rw [h.view]; rfl

theorem disk_lt (h : s.For dev k base num) : s.disk < dev.diskCount := by
  obtain ⟨i, hi, hd, _⟩ := h.disk
  rw [hd]
  exact dataDiskIdx_lt hi

theorem disk_ne (h : s.For dev k base num) : s.disk ≠ dev.parityDiskIdx k := by
  obtain ⟨i, _, hd, _⟩ := h.disk
  rw [hd]
  exact dataDiskIdx_ne _ _

theorem locate (h : s.For dev k base num) {j : Nat} (hj : j < s.blocks) :
    dev.locate (base + s.io.start + j) = (s.disk, s.io.offsetBlocks + j) := by
  obtain ⟨i, hi, hd, hb⟩ := h.disk
  have hr : s.offsetInStrip + j < dev.stripBlocks := by have := h.inStrip; omega
  rw [hb, Raid5Bdev.logicalBlock, Nat.add_assoc, Nat.add_assoc, hd, h.offset_eq, Nat.add_assoc]
  exact dev.locate_logicalBlock hi hr

end Strip.For

namespace Tiles
variable {dev : Raid5Bdev} {k off cursor remain num : Nat} {strips : List Strip}

/-- Strips that start at a strip boundary lie on the disks from there on. -/
theorem disk_ge (h : Tiles dev k off cursor remain strips) {i : Nat}
    (hi : i * dev.stripBlocks ≤ cursor) {s : Strip} (hs : s ∈ strips) :
    dataDiskIdx i (dev.parityDiskIdx k) ≤ s.disk := by
  induction strips generalizing cursor remain with
  | nil => cases hs
  | cons x rest ih =>
    obtain ⟨_, hd, _, _, _, hrest⟩ := h
    rcases List.mem_cons.mp hs with rfl | hs
    · have hle : i ≤ cursor / dev.stripBlocks := (Nat.le_div_iff_mul_le dev.strip_pos).mpr hi
      rw [hd]
      unfold dataDiskIdx
      split_ifs <;> omega
    · exact ih hrest (by omega) hs

theorem disks_increase (h : Tiles dev k off cursor remain strips) :
    strips.Pairwise (fun s t => s.disk < t.disk) := by
  induction strips generalizing cursor remain with
  | nil => exact List.Pairwise.nil
  | cons x rest ih =>
    obtain ⟨hr, hd, ho, hb, _, hrest⟩ := h
    refine List.pairwise_cons.mpr ⟨fun t ht => ?_, ih hrest⟩
    -- a strip that is not the last one ends at a strip boundary
    have hne : remain - x.blocks ≠ 0 := by
      cases rest with
      | nil => cases ht
      | cons y rest => have := hrest.1; omega
    have hdiv := Nat.div_add_mod' cursor dev.stripBlocks
    have hnext : (cursor / dev.stripBlocks + 1) * dev.stripBlocks ≤ cursor + x.blocks := by
      rw [Nat.succ_mul]
      omega
    refine Nat.lt_of_lt_of_le ?_ (hrest.disk_ge hnext ht)
    rw [hd]
    unfold dataDiskIdx
    split_ifs <;> omega

theorem starts_increase (h : Tiles dev k off cursor remain strips) (hc : off ≤ cursor) :
    (∀ s ∈ strips, cursor - off ≤ s.io.start) ∧
      strips.Pairwise (fun s t => s.io.start + s.blocks ≤ t.io.start) := by
  induction strips generalizing cursor remain with
  | nil => exact ⟨fun s hs => (by cases hs), List.Pairwise.nil⟩
  | cons x rest ih =>
    obtain ⟨_, _, _, _, hio, hrest⟩ := h
    obtain ⟨hge, hpair⟩ := ih hrest (by omega)
    have hx : x.io.start = cursor - off := by rw [hio]; rfl
    refine ⟨?_, List.pairwise_cons.mpr ⟨fun t ht => ?_, hpair⟩⟩
    · intro s hs
      rcases List.mem_cons.mp hs with rfl | hs
      · exact hx.ge
      · have := hge s hs
        omega
    · have := hge t ht
      omega

theorem all_for (h : Tiles dev k off cursor remain strips) (hc : off ≤ cursor)
    (hn : cursor - off + remain = num) (hin : off + num ≤ dev.stripeBlocks) :
    ∀ s ∈ strips, s.For dev k (k * dev.stripeBlocks + off) num := by
  induction strips generalizing cursor remain with
  | nil => intro s hs; cases hs
  | cons x rest ih =>
    obtain ⟨hr, hd, ho, hb, hio, hrest⟩ := h
    have hmod := Nat.mod_lt cursor dev.strip_pos
    intro s hs
    rcases List.mem_cons.mp hs with rfl | hs
    · have hst : s.io.start = cursor - off := by rw [hio]; rfl
      refine ⟨?_, by omega, by omega, by omega, cursor / dev.stripBlocks, ?_, hd, ?_⟩
      · rw [hst]; exact hio
      · refine Nat.div_lt_of_lt_mul ?_
        rw [Nat.mul_comm, ← dev.stripe_eq]
        omega
      · have hdiv := Nat.div_add_mod' cursor dev.stripBlocks
        rw [Raid5Bdev.logicalBlock, ho, hdiv, hst]
        omega
    · exact ih hrest (by omega) (by omega) s hs

end Tiles

end Ironspdk.Raid5
