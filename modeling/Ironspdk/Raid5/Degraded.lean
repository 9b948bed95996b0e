import Ironspdk.Raid5.FlatDisk

/-! # With one dead disk

The contents of a dead disk exist only as the exclusive or of the others. With those the
device still is a flat disk: reads return what was written, and so do reads of blocks on
the dead disk, and after writes that were reported as failures. A build with overflow
checks reaches 64 disks only: the failure of a disk from number 64 on ends in a panic. -/
namespace Ironspdk.Raid5
open Ironspdk.Lib Ironspdk.Runtime

variable {B : Type}

/-- Disk `d` fails every child I/O, the others never do. -/
def Children.without (d : Nat) : Children := ⟨fun x ok => decide (x = d) != ok, false⟩

/-- The children, with disk `d` replaced by the exclusive or of the others. -/
def Raid5Bdev.repair [XorGroup B] (dev : Raid5Bdev) (d : Nat) (disks : Nat → Nat → B) :
    Nat → Nat → B :=
  fun x row =>
    if x = d then ∑ y ∈ (Finset.range dev.diskCount).erase d, disks y row else disks x row

section repair
variable [XorGroup B] {dev : Raid5Bdev} {d : Nat} {disks : Nat → Nat → B}

theorem repair_sum (hd : d < dev.diskCount) (row : Nat) :
    ∑ x ∈ Finset.range dev.diskCount, dev.repair d disks x row = 0 := by
  rw [← Finset.add_sum_erase _ _ (Finset.mem_range.mpr hd), xor_eq_zero, Raid5Bdev.repair,
    if_pos rfl]
  exact Finset.sum_congr rfl fun x hx => (if_neg (Finset.ne_of_mem_erase hx)).symm

/-- When the other disks hold the encoding of some contents, so do the repaired ones. -/
theorem repair_encode {k : Nat} {flat : Nat → B} (hd : d < dev.diskCount)
    (h : ∀ x < dev.diskCount, x ≠ d → ∀ row, row / dev.stripBlocks = k →
      disks x row = dev.encode flat x row) {x row : Nat} (hx : x < dev.diskCount)
    (hrow : row / dev.stripBlocks = k) : dev.repair d disks x row = dev.encode flat x row := by
  unfold Raid5Bdev.repair
  split
  · rename_i he
    subst he
    rw [encode_eq_sum_erase dev flat hx row]
    refine Finset.sum_congr rfl fun y hy => ?_
    obtain ⟨hne, hy⟩ := Finset.mem_erase.mp hy
    exact h y (Finset.mem_range.mp hy) hne row hrow
  · rename_i he
    exact h x hx he row hrow

end repair

/-- **One dead disk.** Disk `d` fails every child I/O and may hold anything, the others
never fail; the build has no overflow checks, or `d` is below 64. The device is a flat disk
all the same, except that writes may be reported as failures: every read succeeds with
what was written before, on `d` or not, and nothing else changes. A stripe with no request
in progress makes up the contents of the flat disk. Nothing panics; without new requests
every schedule stops, and then all requests have been completed. -/
theorem degraded_flat_disk [XorGroup B] (dev : Raid5Bdev) (d : Nat) (hd : d < dev.diskCount)
    (overflowChecks : Bool) (hbit : overflowChecks = true → d < 64) (disks : Nat → Nat → B)
    (es : List (DevEvent B)) (s : Device B)
    (hrun : run (Device.next dev (.without d) overflowChecks) (Device.start disks) es = some s) :
    FlatDisk dev True (dev.decode (dev.repair d disks)) s.log ∧
      (∀ k, onKey (Request.stripe dev) k (s.log.map (·.req)) <+:
        onKey (Request.stripe dev) k s.submitted) ∧
      (∀ a ∈ s.log, a.sender = a.req.sender) ∧
      (∀ k, (∀ t req prog frame, ¬ s.Processing dev t k req prog frame) →
        ∀ b, dev.stripeIdx b = k → dev.decode (dev.repair d s.disks) b =
          applied dev (dev.decode (dev.repair d disks)) s.log b) ∧
      (∀ (t : Nat) (task : IoTask B), s.tasks[t]? = some task → task.stage.message = none) ∧
      Stops (Device.next dev (.without d) overflowChecks) DevEvent.Inner s ∧
      (s.AtRest dev (.without d) overflowChecks → ∀ k,
        onKey (Request.stripe dev) k (s.log.map (·.req)) =
          onKey (Request.stripe dev) k s.submitted) := by
  obtain ⟨G, rfl, hch, hflat, hknown, hdead⟩ : ∃ G : Base B, dev = G.dev ∧
      (∀ k, G.children k = .without d) ∧ dev.decode (dev.repair d disks) = G.flat ∧
      (∀ k, G.known k) ∧ ∀ x, G.dead x ↔ x = d :=
    ⟨⟨dev, fun _ => .without d, fun _ => True, (· = d), dev.decode (dev.repair d disks)⟩, rfl,
      fun _ => rfl, rfl, fun _ => trivial, fun _ => Iff.rfl⟩
  have hallow : ∀ k x ok, (G.children k).allow x ok = (decide (x = d) != ok) := fun k x ok => by
    rw [hch]
    rfl
  have htrust : ∀ k, G.Trusted k := by
    intro k
    refine ⟨by rw [hch]; rfl, fun x hx => ?_, fun x hx => ?_, fun x y hx hy => ?_⟩
    · rw [hdead]
      simpa [hallow] using hx
    · rw [hdead]
      simpa [hallow] using hx
    · rw [(hdead x).mp hx, (hdead y).mp hy]
  have hshift : G.ShiftOk overflowChecks := by
    intro hc k x _ hx
    obtain rfl : x = d := by simpa [hallow] using hx
    exact hbit hc
  have hinit : ∀ k, G.Holds k G.flat disks := by
    intro k _ x hx hne row hrow
    have : G.dev.repair d disks x row = G.dev.encode (G.dev.decode (G.dev.repair d disks)) x row :=
      encode_decode (fun row _ => repair_sum hd row) hx hrow
    rw [← hflat, ← this, Raid5Bdev.repair, if_neg fun he => hne ((hdead x).mpr he)]
  rw [hflat]
  obtain ⟨hs, hlog⟩ := Reached.flatDisk htrust hinit hshift hch hrun fun req _ _ => hknown _
  rw [show (∃ x, G.dead x) = True from eq_true ⟨d, (hdead d).mpr rfl⟩] at hlog
  refine ⟨hlog, hs.serialized.order, hs.serialized.senders, fun k hno b hb => ?_,
    hs.serialized.calm, hs.stops (fun k _ => htrust k) hshift hch, hs.answered fun x => ?_⟩
  · refine decode_encode
      (fun x hx row hrow => repair_encode hd (fun y hy hne row hrow => ?_) hx hrow) hb
    exact hs.serving.idle k hno (hknown k) y hy (fun he => hne ((hdead y).mp he)) row hrow
  · by_cases hx : x = d
    · exact Or.inr (by simp [Children.without, hx])
    · exact Or.inl (by simp [Children.without, hx])

/-- A read of one block of the dead disk 1. -/
def oneRead : List (DevEvent Byte) :=
  [.submit ⟨⟨⟨.read, 0, 1⟩, 7⟩, 0⟩, .start 0, .dequeue 0 0, .step 0, .child 0 (.fail 0 0)] ++
    List.replicate 5 (.step 0) ++
    [.child 0 (.apply 1 0), .child 0 (.finish 1), .step 0, .child 0 (.apply 2 0),
      .child 0 (.finish 2)] ++ List.replicate 13 (.step 0) ++ [.dequeue 0 0]

theorem degraded_flat_disk_oneRead :
    ∃ s, run (Device.next smallArray (.without 1) true) (Device.start 0) oneRead = some s ∧
      s.log.map (·.status) = [.success] ∧
      FlatDisk smallArray True (smallArray.decode (smallArray.repair 1 0)) s.log := by
  have hlog : (run (Device.next smallArray (.without 1) true) (Device.start 0) oneRead).map
      (·.log.map (·.status)) = some [.success] := by decide
  obtain ⟨s, hs, hl⟩ := Option.map_eq_some_iff.mp hlog
  exact ⟨s, hs, hl, (degraded_flat_disk smallArray 1 (by decide) true (fun _ => by decide) 0
    oneRead s hs).1⟩

/-- 65 disks with strips of one block. -/
def wideArray : Raid5Bdev := ⟨65, 1, 1, 64, by decide, by decide, by decide, rfl⟩

/-- With disk 64 dead, a write of a block of this disk and a read of another block. -/
def lostWrite : List (DevEvent Byte) :=
  [.submit ⟨⟨⟨.write, 63, 1⟩, 7⟩, fun _ => ⟨5⟩⟩, .submit ⟨⟨⟨.read, 0, 1⟩, 8⟩, 0⟩, .start 0,
    .start 0, .dequeue 0 0, .step 0, .step 0, .step 0, .step 0, .child 0 (.fail 0 0), .step 0,
    .step 0]

/-- In a build with overflow checks the write panics, and the read behind it waits forever. -/
theorem dead_disk_panics :
    (run (Device.next wideArray (.without 64) true) (Device.start 0) lostWrite).map (fun s =>
        (s.tasks.map (·.stage.message), s.log.length, (s.pending wideArray 0).map (·.io))) =
      some ([some "attempt to shift left with overflow", none], 0, [⟨.read, 0, 1⟩]) ∧
    ¬ ∀ (es : List (DevEvent Byte)) (s : Device Byte),
      run (Device.next wideArray (.without 64) true) (Device.start 0) es = some s →
      ∀ (t : Nat) (task : IoTask Byte), s.tasks[t]? = some task → task.stage.message = none := by
  have hrun : (run (Device.next wideArray (.without 64) true) (Device.start 0) lostWrite).map
      (fun s => (s.tasks.map (·.stage.message), s.log.length,
        (s.pending wideArray 0).map (·.io))) =
      some ([some "attempt to shift left with overflow", none], 0, [⟨.read, 0, 1⟩]) := by decide
  refine ⟨hrun, fun hall => ?_⟩
  obtain ⟨s, hs, hview⟩ := Option.map_eq_some_iff.mp hrun
  have htasks : s.tasks.map (·.stage.message) =
      [some "attempt to shift left with overflow", none] := congrArg Prod.fst hview
  have hfirst := congrArg (·[0]?) htasks
  simp only [List.getElem?_map, List.getElem?_cons_zero] at hfirst
  obtain ⟨task, ht, hmsg⟩ := Option.map_eq_some_iff.mp hfirst
  cases (hall lostWrite s hs 0 task ht).symm.trans hmsg

end Ironspdk.Raid5
