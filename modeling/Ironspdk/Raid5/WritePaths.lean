import Ironspdk.Raid5.AllOrNothing
import Ironspdk.Raid5.ReadBytes

/-! # The two write paths agree

A partial write patches the old parity with what its strips change, a full-stripe write sums
all strips anew. On a consistent stripe, when no child fails, both leave the encoding of the
overwritten contents. The full-stripe path drops each `Io` while its child write is out, so this
takes children that are done with the buffer of a write when they accept it. -/
namespace Ironspdk.Raid5
open Ironspdk.Lib Ironspdk.Runtime

variable {B : Type}

/-- Children that never fail. -/
def Children.unfailing (late : Bool) : Children := ⟨fun _ ok => ok, late⟩

/-- What a request is proved against on such children, when every disk holds its part of the
stripe. -/
def unfailingSetting (dev : Raid5Bdev) (late : Bool) (k : Nat) (flat : Nat → B) : Setting B :=
  ⟨dev, .unfailing late, k, fun _ => False, flat, True, False, False⟩

theorem unfailingSetting_shiftOk {dev : Raid5Bdev} {late : Bool} {k : Nat} {flat : Nat → B}
    (overflowChecks : Bool) : (unfailingSetting dev late k flat).ShiftOk overflowChecks :=
  fun _ => Or.inr fun _ _ hfail => absurd hfail Bool.false_ne_true

section paths
variable [XorGroup B] {dev : Raid5Bdev} {overflowChecks : Bool} {sender : SpdkThread} {k : Nat}
  {io : BdevIo} {mem disks : Nat → Nat → B} {es : List (Event B)} {u : Running B}

/-! ## What a write path leaves -/

/-- At rest, a program that may not panic has returned. -/
theorem wp_returned {E : Setting B} {result : IoStatus → Proc B → Prop} {Q : Unit → Proc B → Prop}
    (hprompt : ¬ E.prompt) (habort : ¬ E.mayAbort)
    (hch : ∀ x, E.children.allow x true = true ∨ E.children.allow x false = true)
    (h : E.wp sender result u.1 Q u.2) (hrest : u.AtRest E.dev E.children E.stripe) :
    u.1 = .ret () := by
  have hall := hrest.allDone hch
  obtain ⟨p, s⟩ := u
  cases p with
  | ret a => rfl
  | op o f =>
    cases o with
    | await c =>
      have hlt : c < s.ios.length := wp_ensure h fun hp => absurd hp hprompt
      exact absurd hlt (hrest.not_submitted hall)
    | panic msg => exact absurd (wp_ensure h trivial) habort
    | _ => cases hrest.stuck

/-- What a write path that keeps its contract leaves on children that never fail. -/
theorem leaves_encoding {late : Bool} {flat flat' : Nat → B} {p : Task Unit} {s : Proc B}
    {result : IoStatus → Proc B → Prop}
    (h : (unfailingSetting dev late k flat).wp sender result p
      (fun _ t => (unfailingSetting dev late k flat).End sender flat' t) s)
    (hrun : run (Running.next dev (.unfailing late) k) (p, s) es = some u)
    (hrest : u.AtRest dev (.unfailing late) k) {x row : Nat} (hx : x < dev.diskCount)
    (hrow : row / dev.stripBlocks = k) : u.2.disks x row = dev.encode flat' x row := by
  have hwp := wp_run (E := unfailingSetting dev late k flat) id h hrun
  rw [wp_returned id id (fun _ => Or.inl rfl) hwp hrest] at hwp
  have hend := wp_done hwp
  have hfails : ∀ y, ¬ (Children.unfailing late).allow y false = true :=
    fun _ => Bool.false_ne_true
  refine hend.stored ⟨trivial, fun _ _ => id⟩ (fun y z hy => absurd hy.1 (hfails y)) ?_ hx id hrow
  refine List.map_eq_nil_iff.mpr (List.filter_eq_nil_iff.mpr fun w hw => ?_)
  obtain ⟨c, hc⟩ := List.mem_iff_getElem?.mp hw
  have hpermitted := (hend.inv.permitted c w hc).2
  simpa using fun _ hp => hfails _ (hpermitted hp)

theorem partial_leaves (hk : dev.stripeIdx io.offsetBlocks = k) (hfit : ¬ dev.crossesStripe io)
    (hpar : ∀ row, row / dev.stripBlocks = k → ∑ x ∈ Finset.range dev.diskCount, disks x row = 0)
    {late : Bool} (hrun : run (Running.next dev (.unfailing late) k)
      (writePartialStripe dev overflowChecks sender io k, Proc.start mem disks) es = some u)
    (hrest : u.AtRest dev (.unfailing late) k) {x row : Nat} (hx : x < dev.diskCount)
    (hrow : row / dev.stripBlocks = k) : u.2.disks x row =
      dev.encode (overwrite (dev.decode disks) io.offsetBlocks io.numBlocks (mem 0)) x row := by
  have hfresh : Fresh (unfailingSetting dev late k (dev.decode disks)) ⟨io, sender⟩ (mem 0)
      (Proc.start mem disks) := .consistent rfl hk hpar
  exact leaves_encoding (wp_writePartialStripe hfresh.inv rfl rfl Nat.one_pos hk hfit
    (unfailingSetting_shiftOk overflowChecks) hfresh.data) hrun hrest hx hrow

theorem full_leaves (hk : dev.stripeIdx io.offsetBlocks = k)
    (hfull : dev.stripeOffset io.offsetBlocks = 0 ∧ io.numBlocks = dev.stripeBlocks)
    (hpar : ∀ row, row / dev.stripBlocks = k → ∑ x ∈ Finset.range dev.diskCount, disks x row = 0)
    (hrun : run (Running.next dev (.unfailing false) k)
      (writeFullStripe dev overflowChecks sender io k, Proc.start mem disks) es = some u)
    (hrest : u.AtRest dev (.unfailing false) k) {x row : Nat} (hx : x < dev.diskCount)
    (hrow : row / dev.stripBlocks = k) : u.2.disks x row =
      dev.encode (overwrite (dev.decode disks) io.offsetBlocks io.numBlocks (mem 0)) x row := by
  have hfresh : Fresh (unfailingSetting dev false k (dev.decode disks)) ⟨io, sender⟩ (mem 0)
      (Proc.start mem disks) := .consistent rfl hk hpar
  exact leaves_encoding (wp_writeFullStripe hfresh.inv rfl rfl Nat.one_pos (fun _ => rfl) hk hfull
    (unfailingSetting_shiftOk overflowChecks) hfresh.data) hrun hrest hx hrow

/-! ## What a freed buffer leaves -/

omit [XorGroup B] in
/-- A child that reads the buffer of a write after it was dropped may store anything. -/
theorem react_dropped {ch : Children} {s : Proc B} {c : Nat} {y : ChildIo B}
    (hy : s.ios[c]? = some y) (hphase : y.phase = .inFlight) (hkind : y.req.kind = .store)
    (hallow : ch.allow y.req.disk true = true) (hlate : ch.late = true)
    (hdrop : .drop (.io c) ∈ s.trace) (junk : Nat → B) :
    ∃ t, ch.react s (.apply c junk) = some t ∧ t.Taken c ∧
      t.disks = writeDisk y.req junk s.disks := by
  refine ⟨_, (congrArg (· >>= _) hy).trans (if_pos ⟨hphase, hallow⟩), ⟨{ y with phase := .applied },
    ?_, fun h => by cases h⟩, ?_⟩
  · rw [Proc.setPhase, put_ios, List.getElem?_set_self (List.getElem?_eq_some_iff.mp hy).1]
  · simp only [Proc.setPhase, put_store hkind, Children.sample, if_pos hlate, if_pos hdrop]

/-- The child write to disk 0 is the first of a full-stripe write, and its only one. -/
theorem first_of_fullReqs {p : Io} {i : Nat} {r : ChildReq} (hr : (dev.fullReqs k p)[i]? = some r)
    (hdisk : r.disk = 0) : i = 0 := by
  rw [Raid5Bdev.fullReqs, List.map_map, List.getElem?_map] at hr
  obtain ⟨d, hd, rfl⟩ := Option.map_eq_some_iff.mp hr
  obtain ⟨_, hi⟩ := List.getElem?_eq_some_iff.mp hd
  have hzero : d = 0 := hdisk
  simp only [List.getElem_range', Nat.zero_add, Nat.one_mul] at hi
  exact hi.trans hzero

/-- A full-stripe write on children that read the buffer of a write late: what is on disk 0 in
the end can be anything. -/
theorem full_stores_anything (hk : dev.stripeIdx io.offsetBlocks = k)
    (hoff : dev.stripeOffset io.offsetBlocks = 0) (hnum : io.numBlocks = dev.stripeBlocks)
    (mem disks : Nat → Nat → B) (b : B) :
    ∃ es u, run (Running.next dev (.unfailing true) k)
        (writeFullStripe dev overflowChecks sender io k, Proc.start mem disks) es = some u ∧
      u.AtRest dev (.unfailing true) k ∧ u.2.disks 0 (k * dev.stripBlocks) = b := by
  obtain ⟨es, p, t, y, hrun, hios, htrace, hphase, hkind, hhit⟩ := run_firstDrop dev
    overflowChecks sender hk hoff hnum (.unfailing true) mem disks
  have hy : t.ios[0]? = some y := by rw [hios]; rfl
  have hdrop : .drop (.io 0) ∈ t.trace := by
    rw [htrace]
    exact List.mem_cons_of_mem _ (List.mem_singleton_self _)
  obtain ⟨v, hreact, htaken, hdisks⟩ : ∃ v, (Children.unfailing true).react t
      (.apply 0 fun _ => b) = some v ∧ v.Taken 0 ∧ v.disks = writeDisk y.req (fun _ => b) t.disks :=
    react_dropped hy hphase hkind rfl rfl hdrop _
  obtain ⟨es', u, hrest, hatRest⟩ := Running.exists_atRest dev (.unfailing true) k (p, v)
  have hmoved : run (Running.next dev (.unfailing true) k) (p, t)
      (.child (.apply 0 fun _ => b) :: es') = some u := by
    rw [run_cons, show Running.next dev (.unfailing true) k (p, t)
      (.child (.apply 0 fun _ => b)) = some (p, v) from congrArg (Option.map _) hreact]
    exact hrest
  have hwhole : run (Running.next dev (.unfailing true) k)
      (writeFullStripe dev overflowChecks sender io k, Proc.start mem disks)
        (es ++ .child (.apply 0 fun _ => b) :: es') = some u := by
    rw [run_append, hrun]
    exact hmoved
  obtain ⟨hledger, _⟩ := hatRest.replay (fun _ => Or.inl rfl) hwhole
  obtain ⟨q, hphase⟩ := @replay_writeFullStripe u.2.ok (Proc.start mem disks).ledger
    overflowChecks sender dev k io hoff hnum hk rfl
  have hreqs : u.2.reqs = dev.fullReqs k q := (congrArg Ledger.reqs hledger).symm.trans hphase.reqs
  refine ⟨_, u, hwhole, hatRest, ?_⟩
  have hrow : k * dev.stripBlocks / dev.stripBlocks = k := Nat.mul_div_cancel k dev.strip_pos
  have hkept : u.2.disks 0 (k * dev.stripBlocks) = v.disks 0 (k * dev.stripBlocks) := by
    refine (run_disks_settled hrest (fun i r hr _ hdisk => ?_) hrow).1
    rw [hreqs] at hr
    rw [first_of_fullReqs hr hdisk]
    exact htaken
  rw [hkept, hdisks, writeDisk, if_pos hhit]

/-! ## The whole stripe -/

omit [XorGroup B] in
/-- A request for a whole stripe is for all of its blocks. -/
theorem full_covers {full : BdevIo} (hk : dev.stripeIdx full.offsetBlocks = k)
    (hfull : dev.stripeOffset full.offsetBlocks = 0 ∧ full.numBlocks = dev.stripeBlocks) {b : Nat}
    (hb : dev.stripeIdx b = k) : ∃ j < full.numBlocks, b = full.offsetBlocks + j := by
  obtain ⟨hoff, hnum⟩ := hfull
  have hstart := Nat.div_add_mod' full.offsetBlocks dev.stripeBlocks
  have hblock := Nat.div_add_mod' b dev.stripeBlocks
  unfold Raid5Bdev.stripeOffset at hoff
  unfold Raid5Bdev.stripeIdx at hk hb
  rw [hk, hoff] at hstart
  rw [hb] at hblock
  refine ⟨b % dev.stripeBlocks, ?_, by omega⟩
  rw [hnum]
  exact Nat.mod_lt b dev.stripe_pos

omit [XorGroup B] in
/-- Writing the overwritten contents to the whole stripe overwrites them. -/
theorem overwrite_whole {full : BdevIo} (hk : dev.stripeIdx full.offsetBlocks = k)
    (hfull : dev.stripeOffset full.offsetBlocks = 0 ∧ full.numBlocks = dev.stripeBlocks)
    {flat new whole : Nat → B} (h : ∀ j < full.numBlocks, whole j = new (full.offsetBlocks + j)) :
    AgreeOn dev k (overwrite flat full.offsetBlocks full.numBlocks whole) new := by
  intro b hb
  obtain ⟨j, hj, rfl⟩ := full_covers hk hfull hb
  rw [overwrite_in hj, h j hj]

end paths

end Ironspdk.Raid5

/-! ## Down to the segments -/

namespace Ironspdk.Raid5.Scattered
open Ironspdk.Lib
open Ironspdk.Runtime (Build BdevIo)

variable {n num : Nat}

/-- A schedule of `c` comes to rest at `u`. -/
def Running.Ends (b : Build) (seg : Segments n num) (dev : Raid5Bdev) (ch : Children)
    (stripe : Nat) (c u : Running n) : Prop :=
  (∃ es, run (Running.next b seg dev ch stripe) c es = some u) ∧ u.AtRest b seg dev ch stripe

/-- The same on every disk of the stripe. -/
def SameStripe (dev : Raid5Bdev) (k : Nat) (u v : Running n) : Prop :=
  ∀ x < dev.diskCount, ∀ row, row / dev.stripBlocks = k → u.2.disks x row = v.2.disks x row

section ends
variable {b : Build} {seg : Segments n num} {dev : Raid5Bdev} {ch : Children} {stripe : Nat}
  {c u : Running n} {d v : Raid5.Running (Block n)} {es : List (Event (Block n))}

theorem Forgets.ends (h : Forgets seg c d) (hends : c.Ends b seg dev ch stripe u) :
    ∃ es v, run (Raid5.Running.next dev ch stripe) d es = some v ∧ v.AtRest dev ch stripe ∧
      u.2.disks = v.2.disks := by
  obtain ⟨⟨es, hrun⟩, hrest⟩ := hends
  obtain ⟨v, hv, hforgets⟩ := (forget_lockstep b seg dev ch stripe).run_left h hrun
  exact ⟨es, v, hv, hforgets.atRest.mp hrest, hforgets.2.2.disks.symm⟩

theorem Forgets.ends_of (h : Forgets seg c d)
    (hrun : run (Raid5.Running.next dev ch stripe) d es = some v) (hrest : v.AtRest dev ch stripe) :
    ∃ u, c.Ends b seg dev ch stripe u ∧ u.2.disks = v.2.disks := by
  obtain ⟨u, hu, hforgets⟩ := (forget_lockstep b seg dev ch stripe).run_right h hrun
  exact ⟨u, ⟨⟨es, hu⟩, hforgets.atRest.mpr hrest⟩, hforgets.2.2.disks.symm⟩

/-- A request whose operations fit comes to rest. -/
theorem exists_end (b : Build) (seg : Segments n num) (dev : Raid5Bdev) (ch : Children)
    (stripe : Nat) {p : Task Unit} (hinside : Inside num seg.Disjoint p fun _ => True)
    (ram : Nat → Byte) (mem disks : Nat → Nat → Block n) :
    ∃ u, Running.Ends b seg dev ch stripe (p, Proc.start ram mem disks) u := by
  obtain ⟨es, v, hv, hrest⟩ := Raid5.Running.exists_atRest dev ch stripe
    (p, Raid5.Proc.start (Function.update mem 0 (toBlocks n (gather ram seg.addrs))) disks)
  obtain ⟨u, hu, _⟩ := (forgets_start seg hinside ram mem disks).ends_of hv hrest
  exact ⟨u, hu⟩

end ends

section writes
variable {dev : Raid5Bdev} {overflowChecks : Bool} {sender : SpdkThread} {k : Nat} {io : BdevIo}
  {b : Build} {seg : Segments n io.numBlocks} {ram : Nat → Byte} {mem disks : Nat → Nat → Block n}
  {u : Running n}

/-- What a partial write leaves. -/
theorem partial_ends (hk : dev.stripeIdx io.offsetBlocks = k) (hfit : ¬ dev.crossesStripe io)
    (hpar : ∀ row, row / dev.stripBlocks = k → ∑ x ∈ Finset.range dev.diskCount, disks x row = 0)
    {late : Bool} (h : Running.Ends b seg dev (.unfailing late) k
      (writePartialStripe dev overflowChecks sender io k, Proc.start ram mem disks) u)
    {x row : Nat} (hx : x < dev.diskCount) (hrow : row / dev.stripBlocks = k) :
    u.2.disks x row = dev.encode (overwrite (dev.decode disks) io.offsetBlocks io.numBlocks
      (toBlocks n (gather ram seg.addrs))) x row := by
  have hinside := inside_writePartialStripe seg.Disjoint dev overflowChecks sender hk hfit
  obtain ⟨es, v, hv, hrest, hdisks⟩ := (forgets_start seg hinside ram mem disks).ends h
  rw [hdisks, partial_leaves hk hfit hpar hv hrest hx hrow, Function.update_self]

/-- What a full-stripe write leaves, when no child reads a buffer late. -/
theorem full_ends (hk : dev.stripeIdx io.offsetBlocks = k)
    (hfull : dev.stripeOffset io.offsetBlocks = 0 ∧ io.numBlocks = dev.stripeBlocks)
    (hpar : ∀ row, row / dev.stripBlocks = k → ∑ x ∈ Finset.range dev.diskCount, disks x row = 0)
    (h : Running.Ends b seg dev (.unfailing false) k
      (writeFullStripe dev overflowChecks sender io k, Proc.start ram mem disks) u)
    {x row : Nat} (hx : x < dev.diskCount) (hrow : row / dev.stripBlocks = k) :
    u.2.disks x row = dev.encode (overwrite (dev.decode disks) io.offsetBlocks io.numBlocks
      (toBlocks n (gather ram seg.addrs))) x row := by
  have hinside := inside_writeFullStripe seg.Disjoint dev overflowChecks sender hk hfull.1 hfull.2
  obtain ⟨es, v, hv, hrest, hdisks⟩ := (forgets_start seg hinside ram mem disks).ends h
  rw [hdisks, full_leaves hk hfull hpar hv hrest hx hrow, Function.update_self]

/-- There is more than one block. -/
theorem exists_block_ne (hn : 1 ≤ n) (x : Block n) : ∃ y, y ≠ x := by
  refine ⟨x + fun _ => ⟨1⟩, fun h => ?_⟩
  have hone : (⟨1⟩ : Byte) = 0 := congrFun (add_eq_left.mp h) ⟨0, hn⟩
  cases hone

/-- On children that read the buffer of a write late, the two paths can part: the full-stripe
write drops what it has for disk 0 when the child has still to read it. -/
theorem paths_part {full : BdevIo} (hk : dev.stripeIdx io.offsetBlocks = k)
    (hfit : ¬ dev.crossesStripe io) (hsame : dev.stripeIdx full.offsetBlocks = k)
    (hfull : dev.stripeOffset full.offsetBlocks = 0 ∧ full.numBlocks = dev.stripeBlocks)
    (seg : Segments n io.numBlocks) (seg' : Segments n full.numBlocks) (b : Build)
    (ram ram' : Nat → Byte) (mem disks : Nat → Nat → Block n) : ∃ u u',
    Running.Ends b seg dev (.unfailing true) k
      (writePartialStripe dev overflowChecks sender io k, Proc.start ram mem disks) u ∧
    Running.Ends b seg' dev (.unfailing true) k
      (writeFullStripe dev overflowChecks sender full k, Proc.start ram' mem disks) u' ∧
    ¬ SameStripe dev k u u' := by
  have hpartial := inside_writePartialStripe seg.Disjoint dev overflowChecks sender hk hfit
  have hwhole := inside_writeFullStripe seg'.Disjoint dev overflowChecks sender hsame hfull.1
    hfull.2
  obtain ⟨u, hu⟩ := exists_end b seg dev (.unfailing true) k hpartial ram mem disks
  obtain ⟨y, hy⟩ := exists_block_ne seg.pos (u.2.disks 0 (k * dev.stripBlocks))
  obtain ⟨es, v, hv, hrest, hjunk⟩ := @full_stores_anything _ _ dev overflowChecks sender k full
    hsame hfull.1 hfull.2 (Function.update mem 0 (toBlocks n (gather ram' seg'.addrs))) disks y
  obtain ⟨u', hu', hdisks⟩ := (forgets_start seg' hwhole ram' mem disks).ends_of hv hrest
  refine ⟨u, u', hu, hu', fun h => hy ?_⟩
  rw [h 0 (by have := dev.disks_ge; omega) _ (Nat.mul_div_cancel k dev.strip_pos), hdisks, hjunk]

end writes

/-- **The two write paths agree, if children are done with a buffer when they accept its write.**
Children never fail. Every schedule of a partial write of a consistent stripe stops, and every
schedule of a full-stripe write of the overwritten contents. At rest both have left the same on
every disk of the stripe, whatever the schedules and the segments are (which may share bytes), if
and only if children take the data of a write when it is submitted. -/
theorem paths_agree_iff (dev : Raid5Bdev) (overflowChecks : Bool) (sender : SpdkThread)
    (io full : BdevIo) (hfit : ¬ dev.crossesStripe io)
    (hsame : dev.stripeIdx full.offsetBlocks = dev.stripeIdx io.offsetBlocks)
    (hfull : dev.stripeOffset full.offsetBlocks = 0 ∧ full.numBlocks = dev.stripeBlocks)
    (seg : Segments n io.numBlocks) (seg' : Segments n full.numBlocks) (b : Build) (late : Bool)
    (ram ram' : Nat → Byte) (mem disks : Nat → Nat → Block n)
    (hpar : ∀ row, row / dev.stripBlocks = dev.stripeIdx io.offsetBlocks →
      ∑ x ∈ Finset.range dev.diskCount, disks x row = 0)
    (hdata : gather ram' seg'.addrs = toBytes full.numBlocks fun j => overwrite (dev.decode disks)
      io.offsetBlocks io.numBlocks (toBlocks n (gather ram seg.addrs)) (full.offsetBlocks + j)) :
    Stops (Running.next b seg dev (.unfailing late) (dev.stripeIdx io.offsetBlocks)) Event.Inner
      (writePartialStripe dev overflowChecks sender io (dev.stripeIdx io.offsetBlocks),
        Proc.start ram mem disks) ∧
    Stops (Running.next b seg' dev (.unfailing late) (dev.stripeIdx io.offsetBlocks)) Event.Inner
      (writeFullStripe dev overflowChecks sender full (dev.stripeIdx io.offsetBlocks),
        Proc.start ram' mem disks) ∧
    ((∀ u u', Running.Ends b seg dev (.unfailing late) (dev.stripeIdx io.offsetBlocks)
        (writePartialStripe dev overflowChecks sender io (dev.stripeIdx io.offsetBlocks),
          Proc.start ram mem disks) u →
      Running.Ends b seg' dev (.unfailing late) (dev.stripeIdx io.offsetBlocks)
        (writeFullStripe dev overflowChecks sender full (dev.stripeIdx io.offsetBlocks),
          Proc.start ram' mem disks) u' →
      SameStripe dev (dev.stripeIdx io.offsetBlocks) u u') ↔ late = false) := by
  obtain ⟨k, hk⟩ : ∃ k, dev.stripeIdx io.offsetBlocks = k := ⟨_, rfl⟩
  rw [hk] at hsame hpar ⊢
  have hpartial := inside_writePartialStripe seg.Disjoint dev overflowChecks sender hk hfit
  have hwhole := inside_writeFullStripe seg'.Disjoint dev overflowChecks sender hsame hfull.1
    hfull.2
  refine ⟨(forget_lockstep b seg dev (.unfailing late) k).stops
      (forgets_start seg hpartial ram mem disks) (Raid5.Running.stops _),
    (forget_lockstep b seg' dev (.unfailing late) k).stops
      (forgets_start seg' hwhole ram' mem disks) (Raid5.Running.stops _), fun h => ?_, ?_⟩
  · cases late with
    | false => rfl
    | true =>
      obtain ⟨u, u', hu, hu', hpart⟩ : ∃ u u', _ ∧ _ ∧ ¬ SameStripe dev k u u' :=
        paths_part hk hfit hsame hfull seg seg' b ram ram' mem disks
      exact absurd (h u u' hu hu') hpart
  · rintro rfl u u' hu hu' x hx row hrow
    have hagree : AgreeOn dev k (overwrite (dev.decode disks) full.offsetBlocks full.numBlocks
        (toBlocks n (gather ram' seg'.addrs))) (overwrite (dev.decode disks) io.offsetBlocks
          io.numBlocks (toBlocks n (gather ram seg.addrs))) := by
      refine overwrite_whole hsame hfull fun j hj => ?_
      rw [hdata, toBlocks_toBytes hj]
    rw [partial_ends hk hfit hpar hu hx hrow, full_ends hsame hfull hpar hu' hx hrow,
      encode_congr hagree hx hrow]

/-- The data of a request, as what overwriting any contents with it leaves in its range. -/
theorem own_data (io : BdevIo) (seg : Segments n io.numBlocks) (ram : Nat → Byte)
    (flat : Nat → Block n) : gather ram seg.addrs = toBytes io.numBlocks fun j => overwrite flat
      io.offsetBlocks io.numBlocks (toBlocks n (gather ram seg.addrs)) (io.offsetBlocks + j) := by
  refine eq_toBytes ?_ fun j hj => (overwrite_in hj).symm
  rw [length_gather, seg.length_addrs]

/-- Four blocks of two bytes, in two segments that share a byte. -/
def wholeStripe : Segments 2 4 where
  view := ⟨[⟨100, 3⟩, ⟨102, 5⟩], 0, 0, 4, 2⟩
  numBlocks := rfl
  blockLen := rfl
  pos := Nat.succ_pos 1
  wf := ⟨rfl, by decide⟩

theorem wholeStripe_fits : ¬ smallArray.crossesStripe ⟨.write, 0, 4⟩ := by decide

/-- A request for the whole first stripe of the small array, on both paths. -/
theorem paths_agree_iff_wholeStripe : ∃ u u',
    Running.Ends Runtime.release wholeStripe smallArray (.unfailing false) 0
      (writePartialStripe smallArray true 7 ⟨.write, 0, 4⟩ 0,
        Proc.start (fun _ => ⟨9⟩) 0 0) u ∧
    Running.Ends Runtime.release wholeStripe smallArray (.unfailing false) 0
      (writeFullStripe smallArray true 7 ⟨.write, 0, 4⟩ 0,
        Proc.start (fun _ => ⟨9⟩) 0 0) u' ∧
    SameStripe smallArray 0 u u' := by
  obtain ⟨u, hu⟩ := exists_end Runtime.release wholeStripe smallArray (.unfailing false) 0
    (inside_writePartialStripe wholeStripe.Disjoint smallArray true 7 rfl wholeStripe_fits)
    (fun _ => ⟨9⟩) 0 0
  obtain ⟨u', hu'⟩ := exists_end Runtime.release wholeStripe smallArray (.unfailing false) 0
    (@inside_writeFullStripe wholeStripe.Disjoint smallArray true 7 ⟨.write, 0, 4⟩ 0 rfl rfl rfl)
    (fun _ => ⟨9⟩) 0 0
  have hzero : ∀ row, row / smallArray.stripBlocks = smallArray.stripeIdx 0 →
      ∑ x ∈ Finset.range smallArray.diskCount, (0 : Nat → Nat → Block 2) x row = 0 :=
    fun row _ => by simp
  have hiff := (paths_agree_iff smallArray true 7 ⟨.write, 0, 4⟩ ⟨.write, 0, 4⟩ wholeStripe_fits rfl
    ⟨rfl, rfl⟩ wholeStripe wholeStripe Runtime.release false (fun _ => ⟨9⟩) (fun _ => ⟨9⟩) 0 0
    hzero (own_data ⟨.write, 0, 4⟩ wholeStripe _ (smallArray.decode 0))).2.2
  exact ⟨u, u', hu, hu', hiff.mpr rfl u u' hu hu'⟩

/-- The same request on children that read the buffer of a write late: the full-stripe write has
dropped the parity before its child reads it. -/
theorem freed_parity_differs : ¬ ∀ u u',
    Running.Ends Runtime.release wholeStripe smallArray (.unfailing true) 0
      (writePartialStripe smallArray true 7 ⟨.write, 0, 4⟩ 0,
        Proc.start (fun _ => ⟨9⟩) 0 0) u →
    Running.Ends Runtime.release wholeStripe smallArray (.unfailing true) 0
      (writeFullStripe smallArray true 7 ⟨.write, 0, 4⟩ 0,
        Proc.start (fun _ => ⟨9⟩) 0 0) u' →
    SameStripe smallArray 0 u u' := by
  intro h
  obtain ⟨u, u', hu, hu', hpart⟩ := @paths_part _ smallArray true 7 0 ⟨.write, 0, 4⟩
    ⟨.write, 0, 4⟩ rfl wholeStripe_fits rfl ⟨rfl, rfl⟩ wholeStripe wholeStripe Runtime.release
    (fun _ => ⟨9⟩) (fun _ => ⟨9⟩) 0 0
  exact hpart (h u u' hu hu')

end Ironspdk.Raid5.Scattered
