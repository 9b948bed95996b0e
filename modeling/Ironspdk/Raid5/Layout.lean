import Mathlib.Tactic.Common
import Mathlib.Tactic.SplitIfs
import Mathlib.Data.Nat.ModEq
import Ironspdk.Runtime.BdevIo

/-! # The RAID5 layout

`Raid5Bdev` with its address arithmetic, and the geometry `rpc_rs_raid5_create` reports
to SPDK. Sizes are natural numbers; where creation checks a 64 or 32 bit bound, so does
the model. Data blocks and parity blocks together fill the usable part of every child,
each block exactly once, and the reported I/O boundary is the one `process_req` tests. -/
namespace Ironspdk.Raid5
open Ironspdk.Runtime

/-- An array as `Raid5Bdev::new` builds it: `diskCount` names of children, `workers`
threads, the strip and stripe sizes in blocks. -/
structure Raid5Bdev where
  diskCount : Nat
  workers : Nat
  stripBlocks : Nat
  stripeBlocks : Nat
  disks_ge : 3 ≤ diskCount
  workers_pos : 0 < workers
  strip_pos : 0 < stripBlocks
  stripe_eq : stripeBlocks = (diskCount - 1) * stripBlocks

/-- `Raid5Bdev::new`, behind the checks of `rpc_rs_raid5_create`. -/
def Raid5Bdev.new (ndisks workers stripBlocks : Nat) : Option Raid5Bdev :=
  if h : 3 ≤ ndisks ∧ 0 < workers ∧ 0 < stripBlocks then
    some ⟨ndisks, workers, stripBlocks, (ndisks - 1) * stripBlocks, h.1, h.2.1, h.2.2, rfl⟩
  else none

namespace Raid5Bdev
variable (dev : Raid5Bdev)

def stripeIdx (offBlocks : Nat) : Nat := offBlocks / dev.stripeBlocks

def ownerIdx (stripeIdx : Nat) : Nat := stripeIdx % dev.workers

def parityDiskIdx (stripeIdx : Nat) : Nat := stripeIdx % dev.diskCount

def stripeOffset (offBlocks : Nat) : Nat := offBlocks % dev.stripeBlocks

/-- The first test of `process_req`. -/
def crossesStripe (io : BdevIo) : Prop :=
  dev.stripeOffset io.offsetBlocks + io.numBlocks > dev.stripeBlocks

instance (io : BdevIo) : Decidable (dev.crossesStripe io) :=
  inferInstanceAs (Decidable (_ > _))

end Raid5Bdev

def dataDiskIdx (stripIdx parityDiskIdx : Nat) : Nat :=
  if stripIdx < parityDiskIdx then stripIdx else stripIdx + 1

/-- Where `split_strips` sends a logical block: a child and a block of it. -/
def Raid5Bdev.locate (dev : Raid5Bdev) (b : Nat) : Nat × Nat :=
  (dataDiskIdx (dev.stripeOffset b / dev.stripBlocks) (dev.parityDiskIdx (dev.stripeIdx b)),
    dev.stripeIdx b * dev.stripBlocks + dev.stripeOffset b % dev.stripBlocks)

/-! ## What creation reports -/

inductive Error
  | invalidArguments
  deriving DecidableEq, Repr

structure Raid5BdevOpts where
  blocklen : Nat := 512
  blockcnt : Nat := 64 * 1024 * 1024 / 512
  writeCache : Bool := false
  writeUnitSize : Nat := 0
  optimalIoBoundary : Nat := 0
  splitOnWriteUnit : Nat := 0
  splitOnOptimalIoBoundary : Nat := 0
  deriving DecidableEq, Repr

def checkedMul (a b : Nat) : Except Error Nat :=
  if a * b < 2 ^ 64 then .ok (a * b) else .error .invalidArguments

def tryIntoU32 (a : Nat) : Except Error Nat :=
  if a < 2 ^ 32 then .ok a else .error .invalidArguments

/-- The blocks of a child that whole strips fill. -/
def Raid5Bdev.usableChildBlocks (dev : Raid5Bdev) (childBlocks : Nat) : Nat :=
  childBlocks / dev.stripBlocks * dev.stripBlocks

/-- The part of `rpc_rs_raid5_create` that overwrites the options of the request. -/
def Raid5Bdev.reportGeometry (dev : Raid5Bdev) (blocklen childBlocks : Nat)
    (opts : Raid5BdevOpts) : Except Error Raid5BdevOpts := do
  let blockcnt ← checkedMul (dev.diskCount - 1) (dev.usableChildBlocks childBlocks)
  let blocklen ← tryIntoU32 blocklen
  let boundary ← checkedMul (dev.diskCount - 1) dev.stripBlocks
  let boundary ← tryIntoU32 boundary
  return { opts with
    blockcnt := blockcnt
    blocklen := blocklen
    optimalIoBoundary := boundary
    splitOnOptimalIoBoundary := 1 }

theorem checkedMul_ok {a b c : Nat} (h : checkedMul a b = .ok c) : c = a * b := by
  unfold checkedMul at h
  split at h
  · exact (Except.ok.inj h).symm
  · cases h

theorem tryIntoU32_ok {a c : Nat} (h : tryIntoU32 a = .ok c) : c = a := by
  unfold tryIntoU32 at h
  split at h
  · exact (Except.ok.inj h).symm
  · cases h

theorem bind_ok {α β : Type} {x : Except Error α} {f : α → Except Error β} {b : β}
    (h : x >>= f = .ok b) : ∃ a, x = .ok a ∧ f a = .ok b := by
  cases x with
  | error e => cases h
  | ok a => exact ⟨a, rfl, h⟩

theorem reportGeometry_ok {dev : Raid5Bdev} {blocklen childBlocks : Nat}
    {opts opts' : Raid5BdevOpts} (h : dev.reportGeometry blocklen childBlocks opts = .ok opts') :
    opts'.blockcnt = childBlocks / dev.stripBlocks * dev.stripeBlocks ∧
      opts'.optimalIoBoundary = dev.stripeBlocks := by
  obtain ⟨cnt, hcnt, h⟩ := bind_ok h
  obtain ⟨len, _, h⟩ := bind_ok h
  obtain ⟨m, hm, h⟩ := bind_ok h
  obtain ⟨m', hm', h⟩ := bind_ok h
  cases h
  refine ⟨?_, ?_⟩
  · rw [checkedMul_ok hcnt, dev.stripe_eq, Raid5Bdev.usableChildBlocks, Nat.mul_left_comm]
  · rw [tryIntoU32_ok hm', checkedMul_ok hm, dev.stripe_eq]

/-! ## The skip over the parity disk -/

/-- The strip that a data disk holds, the inverse of `dataDiskIdx`. -/
def stripOf (disk parityDiskIdx : Nat) : Nat :=
  if disk < parityDiskIdx then disk else disk - 1

theorem dataDiskIdx_ne (i p : Nat) : dataDiskIdx i p ≠ p := by
  unfold dataDiskIdx
  split <;> omega

theorem stripOf_dataDiskIdx (i p : Nat) : stripOf (dataDiskIdx i p) p = i := by
  unfold stripOf dataDiskIdx
  split_ifs <;> omega

theorem dataDiskIdx_stripOf {d p : Nat} (h : d ≠ p) : dataDiskIdx (stripOf d p) p = d := by
  unfold stripOf dataDiskIdx
  split_ifs <;> omega

theorem dataDiskIdx_inj {i j p : Nat} (h : dataDiskIdx i p = dataDiskIdx j p) : i = j := by
  rw [← stripOf_dataDiskIdx i p, h, stripOf_dataDiskIdx]

theorem dataDiskIdx_lt {i p n : Nat} (h : i < n - 1) : dataDiskIdx i p < n := by
  unfold dataDiskIdx
  split <;> omega

theorem stripOf_lt {d p n : Nat} (hd : d < n) (hp : p < n) (h : d ≠ p) : stripOf d p < n - 1 := by
  unfold stripOf
  split <;> omega

/-! ## Logical blocks in coordinates -/

namespace Raid5Bdev
variable (dev : Raid5Bdev)

/-- Block `r` of strip `i` of stripe `s`. -/
def logicalBlock (s i r : Nat) : Nat := s * dev.stripeBlocks + (i * dev.stripBlocks + r)

theorem stripe_pos : 0 < dev.stripeBlocks := by
  rw [dev.stripe_eq]
  have := dev.disks_ge
  exact Nat.mul_pos (by omega) dev.strip_pos

theorem parityDiskIdx_lt (s : Nat) : dev.parityDiskIdx s < dev.diskCount :=
  Nat.mod_lt _ (by have := dev.disks_ge; omega)

theorem ownerIdx_lt (s : Nat) : dev.ownerIdx s < dev.workers := Nat.mod_lt _ dev.workers_pos

theorem strip_in_stripe {i r : Nat} (hi : i < dev.diskCount - 1) (hr : r < dev.stripBlocks) :
    i * dev.stripBlocks + r < dev.stripeBlocks := by
  rw [dev.stripe_eq]
  calc i * dev.stripBlocks + r < (i + 1) * dev.stripBlocks := by rw [Nat.succ_mul]; omega
    _ ≤ (dev.diskCount - 1) * dev.stripBlocks := Nat.mul_le_mul_right _ (by omega)

theorem stripeIdx_add {s j : Nat} (hj : j < dev.stripeBlocks) :
    dev.stripeIdx (s * dev.stripeBlocks + j) = s := by
  rw [stripeIdx, Nat.add_comm, Nat.add_mul_div_right _ _ dev.stripe_pos, Nat.div_eq_of_lt hj,
    Nat.zero_add]

theorem stripeOffset_add {s j : Nat} (hj : j < dev.stripeBlocks) :
    dev.stripeOffset (s * dev.stripeBlocks + j) = j := by
  rw [stripeOffset, Nat.add_comm, Nat.add_mul_mod_self_right, Nat.mod_eq_of_lt hj]

theorem locate_logicalBlock {s i r : Nat} (hi : i < dev.diskCount - 1) (hr : r < dev.stripBlocks) :
    dev.locate (dev.logicalBlock s i r) =
      (dataDiskIdx i (dev.parityDiskIdx s), s * dev.stripBlocks + r) := by
  have hj := dev.strip_in_stripe hi hr
  have hdiv : (i * dev.stripBlocks + r) / dev.stripBlocks = i := by
    rw [Nat.add_comm, Nat.add_mul_div_right _ _ dev.strip_pos, Nat.div_eq_of_lt hr, Nat.zero_add]
  have hmod : (i * dev.stripBlocks + r) % dev.stripBlocks = r := by
    rw [Nat.add_comm, Nat.add_mul_mod_self_right, Nat.mod_eq_of_lt hr]
  rw [locate, logicalBlock, dev.stripeIdx_add hj, dev.stripeOffset_add hj, hdiv, hmod]

/-- Every logical block has coordinates. -/
theorem exists_coordinates (b : Nat) : ∃ s i r, i < dev.diskCount - 1 ∧ r < dev.stripBlocks ∧
    s = dev.stripeIdx b ∧ b = dev.logicalBlock s i r := by
  refine ⟨b / dev.stripeBlocks, b % dev.stripeBlocks / dev.stripBlocks,
    b % dev.stripeBlocks % dev.stripBlocks, ?_, Nat.mod_lt _ dev.strip_pos, rfl, ?_⟩
  · refine Nat.div_lt_of_lt_mul ?_
    rw [Nat.mul_comm, ← dev.stripe_eq]
    exact Nat.mod_lt _ dev.stripe_pos
  · rw [logicalBlock, Nat.div_add_mod', Nat.div_add_mod']

theorem logicalBlock_lt {s i r k : Nat} (hi : i < dev.diskCount - 1) (hr : r < dev.stripBlocks) :
    dev.logicalBlock s i r < k * dev.stripeBlocks ↔ s < k := by
  have hj := dev.strip_in_stripe hi hr
  rw [← Nat.div_lt_iff_lt_mul dev.stripe_pos]
  exact iff_of_eq (congrArg (· < k) (dev.stripeIdx_add hj))

end Raid5Bdev

/-! ## The layout as a bijection -/

/-- What a block of a child holds: a logical block, or a parity block of a stripe. -/
inductive Slot
  | data (b : Nat)
  | parity (stripeIdx r : Nat)

/-- The slots of a device with `blockcnt` logical blocks. -/
def Slot.Valid (dev : Raid5Bdev) (blockcnt : Nat) : Slot → Prop
  | .data b => b < blockcnt
  | .parity s r => s * dev.stripeBlocks < blockcnt ∧ r < dev.stripBlocks

def Slot.place (dev : Raid5Bdev) : Slot → Nat × Nat
  | .data b => dev.locate b
  | .parity s r => (dev.parityDiskIdx s, s * dev.stripBlocks + r)

/-- A row of a child determines its stripe. -/
theorem row_inj {q s s' r r' : Nat} (hr : r < q) (hr' : r' < q) (h : s * q + r = s' * q + r') :
    s = s' ∧ r = r' := by
  have hdiv : ∀ {a b : Nat}, b < q → (a * q + b) / q = a := by
    intro a b hb
    rw [Nat.add_comm, Nat.add_mul_div_right _ _ (by omega), Nat.div_eq_of_lt hb, Nat.zero_add]
  have hs : s = s' := by rw [← hdiv (a := s) hr, h, hdiv hr']
  subst hs
  exact ⟨rfl, by omega⟩

theorem place_inj {dev : Raid5Bdev} {cnt : Nat} {x y : Slot} (hx : x.Valid dev cnt)
    (hy : y.Valid dev cnt) (h : x.place dev = y.place dev) : x = y := by
  cases x with
  | data b =>
    obtain ⟨s, i, r, hi, hr, _, rfl⟩ := dev.exists_coordinates b
    rw [Slot.place, dev.locate_logicalBlock hi hr] at h
    cases y with
    | data b' =>
      obtain ⟨s', i', r', hi', hr', _, rfl⟩ := dev.exists_coordinates b'
      rw [Slot.place, dev.locate_logicalBlock hi' hr', Prod.mk.injEq] at h
      obtain ⟨rfl, rfl⟩ := row_inj hr hr' h.2
      rw [dataDiskIdx_inj h.1]
    | parity s' r' =>
      rw [Slot.place, Prod.mk.injEq] at h
      obtain ⟨rfl, rfl⟩ := row_inj hr hy.2 h.2
      exact absurd h.1 (dataDiskIdx_ne _ _)
  | parity s r =>
    cases y with
    | data b' =>
      obtain ⟨s', i', r', hi', hr', _, rfl⟩ := dev.exists_coordinates b'
      rw [Slot.place, Slot.place, dev.locate_logicalBlock hi' hr', Prod.mk.injEq] at h
      obtain ⟨rfl, rfl⟩ := row_inj hx.2 hr' h.2
      exact absurd h.1.symm (dataDiskIdx_ne _ _)
    | parity s' r' =>
      rw [Slot.place, Slot.place, Prod.mk.injEq] at h
      obtain ⟨rfl, rfl⟩ := row_inj hx.2 hy.2 h.2
      rfl

theorem place_surj {dev : Raid5Bdev} {k disk row : Nat} (hd : disk < dev.diskCount)
    (hrow : row < k * dev.stripBlocks) :
    ∃ x : Slot, x.Valid dev (k * dev.stripeBlocks) ∧ x.place dev = (disk, row) := by
  have hs : row / dev.stripBlocks < k := (Nat.div_lt_iff_lt_mul dev.strip_pos).mpr hrow
  have hr := Nat.mod_lt row dev.strip_pos
  have hrow : row / dev.stripBlocks * dev.stripBlocks + row % dev.stripBlocks = row :=
    Nat.div_add_mod' _ _
  by_cases hp : disk = dev.parityDiskIdx (row / dev.stripBlocks)
  · refine ⟨.parity (row / dev.stripBlocks) (row % dev.stripBlocks), ⟨?_, hr⟩, ?_⟩
    · exact Nat.mul_lt_mul_of_pos_right hs dev.stripe_pos
    · rw [Slot.place, hrow, hp]
  · have hi := stripOf_lt hd (dev.parityDiskIdx_lt _) hp
    refine ⟨.data (dev.logicalBlock (row / dev.stripBlocks)
      (stripOf disk (dev.parityDiskIdx (row / dev.stripBlocks))) (row % dev.stripBlocks)), ?_, ?_⟩
    · exact (dev.logicalBlock_lt hi hr).mpr hs
    · rw [Slot.place, dev.locate_logicalBlock hi hr, dataDiskIdx_stripOf hp, hrow]

theorem Raid5Bdev.locate_inj (dev : Raid5Bdev) {b b' : Nat} (h : dev.locate b = dev.locate b') :
    b = b' := by
  have hb : (Slot.data b).Valid dev (b + b' + 1) := by simp only [Slot.Valid]; omega
  have hb' : (Slot.data b').Valid dev (b + b' + 1) := by simp only [Slot.Valid]; omega
  exact Slot.data.inj (place_inj hb hb' h)

/-- A range that no multiple of the boundary cuts lies in one stripe. -/
theorem not_crossesStripe {dev : Raid5Bdev} {io : BdevIo}
    (h : ∀ m, ¬ (io.offsetBlocks < m * dev.stripeBlocks ∧
      m * dev.stripeBlocks < io.offsetBlocks + io.numBlocks)) : ¬ dev.crossesStripe io := by
  intro hc
  have hlt := Nat.mod_lt io.offsetBlocks dev.stripe_pos
  have hsplit := Nat.div_add_mod' io.offsetBlocks dev.stripeBlocks
  unfold Raid5Bdev.crossesStripe Raid5Bdev.stripeOffset at hc
  refine h (io.offsetBlocks / dev.stripeBlocks + 1) ?_
  rw [Nat.succ_mul]
  omega

/-- **The layout is a bijection.** With the geometry that creation reports, the map from
logical blocks to child blocks is injective, misses the parity disk of each stripe and
stays on the children; data and parity blocks fill the usable part of every child, each
block once; and a range that crosses no reported boundary passes the stripe test. -/
theorem layout_bijective (dev : Raid5Bdev) {blocklen childBlocks : Nat} {opts opts' : Raid5BdevOpts}
    (h : dev.reportGeometry blocklen childBlocks opts = .ok opts') :
    (∀ b b', b < opts'.blockcnt → b' < opts'.blockcnt → dev.locate b = dev.locate b' → b = b') ∧
    (∀ b < opts'.blockcnt, (dev.locate b).1 ≠ dev.parityDiskIdx (dev.stripeIdx b) ∧
      (dev.locate b).1 < dev.diskCount ∧ (dev.locate b).2 < childBlocks) ∧
    (∀ disk < dev.diskCount, ∀ row < dev.usableChildBlocks childBlocks,
      ∃! x : Slot, x.Valid dev opts'.blockcnt ∧ x.place dev = (disk, row)) ∧
    ∀ io : BdevIo, io.offsetBlocks + io.numBlocks ≤ opts'.blockcnt →
      (∀ m, ¬ (io.offsetBlocks < m * opts'.optimalIoBoundary ∧
        m * opts'.optimalIoBoundary < io.offsetBlocks + io.numBlocks)) →
      ¬ dev.crossesStripe io := by
  obtain ⟨hcnt, hbound⟩ := reportGeometry_ok h
  rw [hcnt, hbound]
  refine ⟨?_, ?_, ?_, fun io _ hio => not_crossesStripe hio⟩
  · intro b b' hb hb' heq
    exact Slot.data.inj (place_inj (x := .data b) (y := .data b') hb hb' heq)
  · intro b hb
    obtain ⟨s, i, r, hi, hr, hs, rfl⟩ := dev.exists_coordinates b
    rw [← hs, dev.locate_logicalBlock hi hr]
    refine ⟨dataDiskIdx_ne _ _, dataDiskIdx_lt hi, ?_⟩
    have hk := (dev.logicalBlock_lt hi hr).mp hb
    calc s * dev.stripBlocks + r < (s + 1) * dev.stripBlocks := by rw [Nat.succ_mul]; omega
      _ ≤ childBlocks / dev.stripBlocks * dev.stripBlocks := Nat.mul_le_mul_right _ hk
      _ ≤ childBlocks := Nat.div_mul_le_self _ _
  · intro disk hd row hrow
    obtain ⟨x, hv, hx⟩ := place_surj hd hrow
    exact ⟨x, ⟨hv, hx⟩, fun y hy => place_inj hy.1 hv (hy.2.trans hx.symm)⟩

/-- Three disks with strips of two blocks on children of seven blocks. -/
def smallArray : Raid5Bdev := ⟨3, 2, 2, 4, by decide, by decide, by decide, rfl⟩

theorem layout_bijective_smallArray :
    ∃ opts, smallArray.reportGeometry 512 7 {} = .ok opts ∧ opts.blockcnt = 12 ∧
      ∃! x : Slot, x.Valid smallArray opts.blockcnt ∧ x.place smallArray = (2, 5) := by
  have h : smallArray.reportGeometry 512 7 {} = .ok ⟨512, 12, false, 0, 4, 0, 1⟩ := rfl
  exact ⟨_, h, rfl, (layout_bijective smallArray h).2.2.1 2 (by decide) 5 (by decide)⟩

end Ironspdk.Raid5
