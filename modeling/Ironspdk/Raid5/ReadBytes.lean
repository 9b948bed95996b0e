import Ironspdk.Raid5.Inside
import Ironspdk.Raid5.ReadOutcome

/-! # The bytes a read returns

A read, down to the bytes of the request's segments: its status says how many of the child
reads have failed, and a read that succeeds has filled the segments with the logical bytes of
its range, whether they were read or reconstructed. -/
namespace Ironspdk.Raid5.Scattered
open Ironspdk.Lib
open Ironspdk.Runtime (Build BdevIo IoStatus)

variable {n num : Nat}

/-- Nothing can happen to the request any more. -/
def Running.AtRest (b : Build) (seg : Segments n num) (dev : Raid5Bdev) (ch : Children)
    (stripe : Nat) (c : Running n) : Prop :=
  ∀ e : Event (Block n), e.Inner → c.next b seg dev ch stripe e = none

/-- The operation a program is at, if it completes the request. -/
def Running.completing (c : Running n) : Option (SpdkThread × IoStatus) :=
  Raid5.Running.completing (c.1, c.2.toProc)

section forget
variable {seg : Segments n num} {s : Proc n} {a : Raid5.Proc (Block n)} {c : Running n}
  {d : Raid5.Running (Block n)}

theorem Shows.ended (h : Shows seg s a) (kind : Kind) (ok : Bool) :
    a.ended kind ok = s.toProc.ended kind ok := by
  have hios := h.ios
  unfold Raid5.Proc.ended
  generalize s.ios = xs at hios
  generalize a.ios = ys at hios
  induction hios with
  | nil => rfl
  | @cons x y xs ys hsame _ ih =>
    simp only [List.filter_cons, hsame.req, hsame.phase]
    split
    · rw [List.map_cons, List.map_cons, ih, hsame.req]
    · exact ih

theorem Shows.readable (h : Shows seg s a) (dev : Raid5Bdev) :
    a.Readable dev ↔ s.toProc.Readable dev := by
  unfold Raid5.Proc.Readable
  rw [h.ended, h.ended]

/-- The bytes of the segments, known by the blocks of the coarser model. -/
theorem Shows.bytes (h : Shows seg s a) {data : Nat → Block n}
    (hdata : ∀ j < num, a.mem 0 j = data j) : gather s.ram seg.addrs = toBytes num data := by
  refine eq_toBytes ?_ fun j hj => (h.request j hj).symm.trans (hdata j hj)
  rw [length_gather, seg.length_addrs]

theorem Forgets.atRest {b : Build} {dev : Raid5Bdev} {ch : Children} {stripe : Nat}
    (h : Forgets seg c d) :
    c.AtRest b seg dev ch stripe ↔ d.AtRest dev ch stripe :=
  forall_congr' fun e => forall_congr' fun _ =>
    (forget_lockstep b seg dev ch stripe).stuck_iff h e

theorem Forgets.completing (h : Forgets seg c d) : c.completing = d.completing := by
  unfold Running.completing Raid5.Running.completing
  rw [h.1]

end forget

/-- **A read never succeeds with wrong data.** Children may fail any child read, and leave
anything in its buffer. Every schedule of a read stops; at rest it has been completed, with
`Success` if no first read has failed, or just one and no read of the reconstruction, and with
`Failure` otherwise. When it completes with `Success`, the segments of the request hold the
logical bytes of its range. -/
theorem read_never_wrong (dev : Raid5Bdev) (sender : SpdkThread) (io : BdevIo)
    (hfit : ¬ dev.crossesStripe io) (seg : Segments n io.numBlocks) (hdisjoint : seg.Disjoint)
    (b : Build) (late : Bool) (ram : Nat → Byte) (mem disks : Nat → Nat → Block n)
    (hpar : ∀ row, row / dev.stripBlocks = dev.stripeIdx io.offsetBlocks →
      ∑ x ∈ Finset.range dev.diskCount, disks x row = 0)
    (es : List (Event (Block n))) (u : Running n)
    (hrun : run (Running.next b seg dev (.any late) (dev.stripeIdx io.offsetBlocks))
      (read dev sender io (dev.stripeIdx io.offsetBlocks), Proc.start ram mem disks) es =
        some u) :
    Stops (Running.next b seg dev (.any late) (dev.stripeIdx io.offsetBlocks)) Event.Inner u ∧
    (u.AtRest b seg dev (.any late) (dev.stripeIdx io.offsetBlocks) →
      (u.2.completions = [(sender, .success)] ↔ u.2.Readable dev) ∧
        (u.2.completions = [(sender, .failure)] ↔ ¬ u.2.Readable dev)) ∧
    ∀ who, u.completing = some (who, .success) → gather u.2.ram seg.addrs =
      toBytes io.numBlocks fun j => dev.decode disks (io.offsetBlocks + j) := by
  have hlock := forget_lockstep b seg dev (.any late) (dev.stripeIdx io.offsetBlocks)
  obtain ⟨v, hv, hforgets⟩ := hlock.run_left
    (forgets_start seg (inside_read dev sender hfit hdisjoint) ram mem disks) hrun
  have hshows := hforgets.2.2
  refine ⟨hlock.stops hforgets (Raid5.Running.stops v), fun hrest => ?_, fun who hc => ?_⟩
  · have hstatus := read_status rfl hfit (fun _ => Or.inl rfl) hv (hforgets.atRest.mp hrest)
    rwa [hshows.readable, hshows.completions] at hstatus
  · rw [hforgets.completing] at hc
    exact hshows.bytes ((read_shows rfl hfit hpar hv hc).2.2 rfl)

/-- Two blocks of four bytes in three segments, one of them empty. -/
def scatteredBlocks : Segments 4 2 where
  view := Runtime.scattered
  numBlocks := rfl
  blockLen := rfl
  pos := Nat.succ_pos 3
  wf := ⟨rfl, by decide⟩

theorem scatteredBlocks_disjoint : scatteredBlocks.Disjoint :=
  Runtime.nodup_addrsOf.mp (by decide)

/-- Three consistent disks. -/
def threeDisks : Nat → Nat → Block 4 :=
  fun disk _ _ => if disk = 0 then ⟨1⟩ else if disk = 1 then ⟨5⟩ else ⟨4⟩

theorem threeDisks_consistent (row : Nat) :
    ∑ x ∈ Finset.range smallArray.diskCount, threeDisks x row = 0 := by
  have hxor : (0 + ⟨1⟩ + ⟨5⟩ + ⟨4⟩ : Byte) = 0 := by decide
  simp only [smallArray, Finset.sum_range_succ, Finset.sum_range_zero]
  exact funext fun i => hxor

/-- A read of blocks 1 and 2 of the small array up to its completion: the first child read fails,
and leaves something else in its segments. -/
def oneLost : List (Event (Block 4)) :=
  List.replicate 2 .step ++
    [.child (.fail 0 fun _ _ => ⟨7⟩), .child (.apply 1 0), .child (.finish 1)] ++
    List.replicate 6 .step ++
    [2, 3].flatMap (fun c => [.child (.apply c 0), .child (.finish c)]) ++
    List.replicate 10 .step

theorem read_never_wrong_oneLost :
    ∃ u, run (Running.next Runtime.release scatteredBlocks smallArray (.any false) 0)
      (read smallArray 7 ⟨.read, 1, 2⟩ 0, Proc.start (fun _ => ⟨9⟩) 0 threeDisks) oneLost =
        some u ∧ gather u.2.ram scatteredBlocks.addrs =
          toBytes 2 fun j => smallArray.decode threeDisks (1 + j) := by
  have hrun : (run (Running.next Runtime.release scatteredBlocks smallArray (.any false) 0)
      (read smallArray 7 ⟨.read, 1, 2⟩ 0, Proc.start (fun _ => ⟨9⟩) 0 threeDisks) oneLost).map
        (·.completing) = some (some (7, .success)) := by decide
  obtain ⟨u, hu, hend⟩ := Option.map_eq_some_iff.mp hrun
  exact ⟨u, hu, (read_never_wrong smallArray 7 ⟨.read, 1, 2⟩ (by decide) scatteredBlocks
    scatteredBlocks_disjoint Runtime.release false (fun _ => ⟨9⟩) 0 threeDisks
    (fun row _ => threeDisks_consistent row) oneLost u hu).2.2 7 hend⟩

end Ironspdk.Raid5.Scattered
