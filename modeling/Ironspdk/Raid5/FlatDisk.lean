import Ironspdk.Lib.History
import Ironspdk.Raid5.Serialize

/-! # The device is a flat disk

A flat disk serves requests one at a time on an array of blocks. With children that can be
trusted the answers of a device are those of a flat disk that serves the requests in the
order of their completion, which keeps the order of submission in every stripe, and the
children hold its contents. -/
namespace Ironspdk.Raid5
open Ironspdk.Lib Ironspdk.Runtime

variable {B : Type}

/-! ## Flat disks -/

/-- The status a flat disk answers a request with; it takes no request across a stripe. -/
def QueuedIo.status (dev : Raid5Bdev) (req : QueuedIo) : IoStatus :=
  if dev.crossesStripe req.io then .failure
  else
    match req.io.ioType with
    | .read | .write | .flush => .success
    | _ => .failure

/-- A read that is answered with its blocks of `flat`, if it is one. -/
def Answer.Reads (dev : Raid5Bdev) (flat : Nat → B) (a : Answer B) : Prop :=
  a.req.io.ioType = .read → ¬ dev.crossesStripe a.req.io →
    ∀ j < a.req.io.numBlocks, a.mem j = flat (a.req.io.offsetBlocks + j)

/-- The answer is the one that a flat disk with contents `flat` gives; with `degraded`, a write
may be reported as a failure, and still counts. -/
def Answer.Right (dev : Raid5Bdev) (degraded : Prop) (flat : Nat → B) (a : Answer B) : Prop :=
  (a.status = a.req.status dev ∨ degraded ∧ a.req.io.ioType = .write) ∧ a.Reads dev flat

/-- The answers of `log` are those of a flat disk that starts with `flat`. -/
def FlatDisk (dev : Raid5Bdev) (degraded : Prop) (flat : Nat → B) (log : List (Answer B)) : Prop :=
  Sequential (Answer.Right dev degraded) (fun f a => a.req.effect dev a.req.mem f) flat log

theorem flatDisk_snoc {dev : Raid5Bdev} {degraded : Prop} {flat : Nat → B}
    {log : List (Answer B)} {a : Answer B} : FlatDisk dev degraded flat (log ++ [a]) ↔
      FlatDisk dev degraded flat log ∧ a.Right dev degraded (applied dev flat log) :=
  sequential_snoc

/-! ## What the children hold -/

/-- The logical contents that the data blocks of the children make up. -/
def Raid5Bdev.decode (dev : Raid5Bdev) (disks : Nat → Nat → B) (b : Nat) : B :=
  disks (dev.locate b).1 (dev.locate b).2

section decode
variable [XorGroup B] {dev : Raid5Bdev} {disks : Nat → Nat → B} {k : Nat}

/-- A consistent stripe is the encoding of what its data blocks make up. -/
theorem encode_decode (hpar : ∀ row, row / dev.stripBlocks = k →
      ∑ x ∈ Finset.range dev.diskCount, disks x row = 0) {x row : Nat} (hx : x < dev.diskCount)
    (hrow : row / dev.stripBlocks = k) : disks x row = dev.encode (dev.decode disks) x row := by
  have hdata : ∀ y < dev.diskCount, y ≠ dev.parityDiskIdx k →
      disks y row = dev.encode (dev.decode disks) y row := by
    intro y hy hp
    obtain ⟨b, hb, _⟩ := exists_block dev hy hp hrow
    have := encode_locate dev (dev.decode disks) b
    rw [hb] at this
    rw [this, Raid5Bdev.decode, hb]
  by_cases hp : x = dev.parityDiskIdx k
  · rw [eq_sum_erase (f := fun y => disks y row) (Finset.mem_range.mpr hx) (hpar row hrow),
      encode_eq_sum_erase dev _ hx row]
    refine Finset.sum_congr rfl fun y hy => ?_
    obtain ⟨hne, hy⟩ := Finset.mem_erase.mp hy
    exact hdata y (Finset.mem_range.mp hy) fun he => hne (he.trans hp.symm)
  · exact hdata x hx hp

/-- What a stripe makes up, when its disks hold the encoding of `flat`. -/
theorem decode_encode {flat : Nat → B} (h : ∀ x < dev.diskCount, ∀ row,
      row / dev.stripBlocks = k → disks x row = dev.encode flat x row) {b : Nat}
    (hb : dev.stripeIdx b = k) : dev.decode disks b = flat b := by
  obtain ⟨s, i, r, hi, hr, _, rfl⟩ := dev.exists_coordinates b
  have hs : s = k := by
    rw [← hb, Raid5Bdev.logicalBlock, dev.stripeIdx_add (dev.strip_in_stripe hi hr)]
  have hloc := dev.locate_logicalBlock (s := s) hi hr
  rw [← encode_locate dev flat, Raid5Bdev.decode, h _ ?_ _ ?_]
  · rw [hloc]
    exact dataDiskIdx_lt hi
  · rw [hloc]
    exact (row_div dev hr).trans hs

/-- A request on a consistent stripe. -/
theorem Fresh.consistent {E : Setting B} {req : QueuedIo} {mem : Nat → Nat → B}
    (hflat : E.flat = E.dev.decode disks)
    (hstripe : E.dev.stripeIdx req.io.offsetBlocks = E.stripe)
    (hpar : ∀ row, E.Row row → ∑ x ∈ Finset.range E.dev.diskCount, disks x row = 0) :
    Fresh E req (mem 0) (Proc.start mem disks) :=
  .start hstripe fun _ hx _ _ hrow => hflat ▸ encode_decode hpar hx hrow

end decode

/-! ## Answers -/

section answers
variable [XorGroup B] {G : Base B} {s s' : Device B} {l : Lanes Nat (Request B)}
  {ch : Children} {overflowChecks : Bool}

/-- A request is for known stripes only, if it is for any block at all. -/
def Base.Covers (G : Base B) (req : Request B) : Prop :=
  0 < req.io.numBlocks → G.known (req.stripe G.dev)

/-- What `process_req` ensures of an answer is what a flat disk gives, when no two disks fail:
of the stripe's contents `E.flat` the flat disk has the same. -/
theorem Setting.Result.right {E : Setting B} {degraded : Prop} {flat : Nat → B} {req : Request B}
    {status : IoStatus} {u : Proc B} (hlive : 0 < req.io.numBlocks → E.Live)
    (hone : ∀ x y, E.children.allow x false = true → E.children.allow y false = true → x = y)
    (hdegraded : ∀ x, E.children.allow x false = true → degraded)
    (hk : req.stripe E.dev = E.stripe) (hflat : AgreeOn E.dev E.stripe flat E.flat)
    (h : E.Result req.toQueuedIo req.mem status u) :
    (⟨req, req.sender, status, u.mem 0⟩ : Answer B).Right E.dev degraded flat := by
  unfold Setting.Result at h
  by_cases hcross : E.dev.crossesStripe req.io
  · rw [if_pos hcross] at h
    exact ⟨Or.inl (by rw [QueuedIo.status, if_pos hcross]; exact h),
      fun _ hfit => absurd hcross hfit⟩
  · rw [if_neg hcross] at h
    have hread : ∀ {ty}, req.io.ioType = ty → ty ≠ .read →
        (⟨req, req.sender, status, u.mem 0⟩ : Answer B).Reads E.dev flat :=
      fun he hne hr => absurd (he.symm.trans hr) hne
    cases hty : req.io.ioType with
    | read =>
      simp only [hty] at h
      cases status with
      | success =>
        refine ⟨Or.inl (by simp [QueuedIo.status, hcross, hty]), fun _ _ j hj => ?_⟩
        exact (h (hlive (Nat.zero_lt_of_lt hj)) j hj).trans
          (hflat _ ((stripeIdx_range hcross hj).trans hk)).symm
      | failure =>
        obtain ⟨x, y, hne, hx, hy⟩ := h
        exact absurd (hone x y hx.1 hy.1) hne
    | write =>
      simp only [hty] at h
      refine ⟨?_, hread hty nofun⟩
      cases status with
      | success => exact Or.inl (by simp [QueuedIo.status, hcross, hty])
      | failure =>
        obtain ⟨x, hx⟩ := h
        exact Or.inr ⟨hdegraded x hx.1, hty⟩
    | flush =>
      simp only [hty] at h
      exact ⟨Or.inl (by simp [QueuedIo.status, hcross, hty, h]), hread hty nofun⟩
    | _ =>
      simp only [hty] at h
      exact ⟨Or.inl (by simp [QueuedIo.status, hcross, hty, h]), hread hty nofun⟩

theorem right_of_result {k : Nat} (htrust : G.Trusted k) {flat flat' : Nat → B}
    {req : Request B} {status : IoStatus} {u : Proc B} (hcovers : G.Covers req)
    (hk : req.stripe G.dev = k) (hflat : AgreeOn G.dev k flat flat')
    (h : (G.setting k flat').Result req.toQueuedIo req.mem status u) :
    (⟨req, req.sender, status, u.mem 0⟩ : Answer B).Right G.dev (∃ x, G.dead x) flat := by
  subst hk
  exact Setting.Result.right (E := G.setting _ flat') (fun hpos => htrust.live (hcovers hpos) flat')
    (fun x y hx hy => htrust.one x y (htrust.fails x hx) (htrust.fails y hy))
    (fun x hx => ⟨x, htrust.fails x hx⟩) rfl hflat h

/-- The answers in the log are those of a flat disk, if the requests are for known stripes. -/
def Base.Flat (G : Base B) (log : List (Answer B)) : Prop :=
  (∀ a ∈ log, G.Covers a.req) → FlatDisk G.dev (∃ x, G.dead x) G.flat log

/-- Every step adds to the log what a flat disk answers. -/
theorem Serving.flatDisk_step (h : Serving G s) (htrust : ∀ k, G.Trusted k)
    (hq : Queued G.dev s l) {e : DevEvent B} (hlog : G.Flat s.log)
    (hs : s.Step G.dev ch overflowChecks e s') : G.Flat s'.log := by
  cases hs with
  | drain ht hst =>
    unfold Device.drain
    simp only
    split <;> exact hlog
  | perform ht hst hp =>
    rename_i t task req frame o r k u
    by_cases ho : ∃ sender status, o = .complete sender status
    · obtain ⟨sender, status, rfl⟩ := ho
      obtain ⟨rfl, _, hkey, flat, hagree, hresult⟩ := h.completes hq ht hst
      intro hcovers
      have hself := hcovers ⟨req, req.sender, status, frame.mem 0⟩
        (List.mem_append_right _ (List.mem_singleton.mpr rfl))
      exact flatDisk_snoc.mpr ⟨hlog fun a ha => hcovers a (List.mem_append_left _ ha),
        right_of_result (htrust _) hself hkey hagree hresult⟩
    · have hsame : answers req frame o = [] := by
        cases o with
        | complete sender status => exact absurd ⟨sender, status, rfl⟩ ho
        | _ => rfl
      show G.Flat (s.log ++ _)
      rwa [hsame, List.append_nil]
  | _ => exact hlog

theorem Reached.flatDisk {disks : Nat → Nat → B} (htrust : ∀ k, G.Trusted k)
    (hinit : ∀ k, G.Holds k G.flat disks) (hshift : G.ShiftOk overflowChecks)
    (hch : ∀ k, G.children k = ch) {es : List (DevEvent B)}
    (hrun : Lib.run (Device.next G.dev ch overflowChecks) (Device.start disks) es = some s)
    (hcovers : ∀ req ∈ s.submitted, G.Covers req) :
    Reached G s ∧ FlatDisk G.dev (∃ x, G.dead x) G.flat s.log := by
  obtain ⟨hs, hlog⟩ : Reached G s ∧ G.Flat s.log := by
    refine run_always (I := fun s => Reached G s ∧ G.Flat s.log)
      ⟨reached_start hinit, fun _ => trivial⟩ (fun t e u h hn => ?_) hrun
    obtain ⟨l, hq⟩ := h.1.queued
    exact ⟨h.1.next (fun k _ => htrust k) hshift (G.admits_of hch t e) hn,
      h.1.serving.flatDisk_step htrust hq h.2 (Device.next_step hn)⟩
  refine ⟨hs, hlog fun a ha => hcovers _ ?_⟩
  have hmem : a.req ∈ onKey (Request.stripe G.dev) (a.req.stripe G.dev) (s.log.map (·.req)) :=
    mem_onKey.mpr ⟨List.mem_map_of_mem ha, rfl⟩
  exact (mem_onKey.mp ((hs.serialized.order _).subset hmem)).1

end answers

/-! ## Without failures -/

/-- Children that never fail, and store what the buffer of a write held at submission. -/
def Children.reliable : Children := ⟨fun _ ok => ok, false⟩

section reliable
variable {G : Base B}

theorem trusted_of_reliable {k : Nat} (hch : G.children k = .reliable) (hdead : ∀ x, ¬ G.dead x) :
    G.Trusted k :=
  ⟨by rw [hch]; rfl, fun x _ => hdead x, fun x hx => (by rw [hch] at hx; cases hx),
    fun x _ hx => absurd hx (hdead x)⟩

theorem shiftOk_of_reliable (hch : ∀ k, G.children k = .reliable) (overflowChecks : Bool) :
    G.ShiftOk overflowChecks :=
  fun _ k _ _ hx => by rw [hch k] at hx; cases hx

end reliable

/-- **The device is linearizable.** On children that never fail, with stripes that were
consistent at the start and requests inside the device: the completions, in their order,
are those of a flat disk, they keep the order of submission in every stripe, and each goes
to the sender of its request.
A stripe with no request in progress is consistent and holds the contents of the flat disk.
Without new requests every schedule stops, and then all requests have been completed and
the children hold the contents that the flat disk ends with. -/
theorem linearizable_flat_disk [XorGroup B] (dev : Raid5Bdev) {blocklen childBlocks : Nat}
    {opts opts' : Raid5BdevOpts}
    (hgeometry : dev.reportGeometry blocklen childBlocks opts = .ok opts') (overflowChecks : Bool)
    (disks : Nat → Nat → B) (hpar : ∀ row < dev.usableChildBlocks childBlocks,
      ∑ x ∈ Finset.range dev.diskCount, disks x row = 0)
    (es : List (DevEvent B)) (s : Device B)
    (hrun : run (Device.next dev .reliable overflowChecks) (Device.start disks) es = some s)
    (hinside : ∀ req ∈ s.submitted, req.io.offsetBlocks + req.io.numBlocks ≤ opts'.blockcnt) :
    FlatDisk dev False (dev.decode disks) s.log ∧
      (∀ k, onKey (Request.stripe dev) k (s.log.map (·.req)) <+:
        onKey (Request.stripe dev) k s.submitted) ∧
      (∀ a ∈ s.log, a.sender = a.req.sender) ∧
      (∀ k, k * dev.stripeBlocks < opts'.blockcnt →
        (∀ t req prog frame, ¬ s.Processing dev t k req prog frame) →
        (∀ row, row / dev.stripBlocks = k →
          ∑ x ∈ Finset.range dev.diskCount, s.disks x row = 0) ∧
        ∀ b, dev.stripeIdx b = k →
          dev.decode s.disks b = applied dev (dev.decode disks) s.log b) ∧
      Stops (Device.next dev .reliable overflowChecks) DevEvent.Inner s ∧
      (s.AtRest dev .reliable overflowChecks →
        (∀ k, onKey (Request.stripe dev) k (s.log.map (·.req)) =
          onKey (Request.stripe dev) k s.submitted) ∧
        ∀ b < opts'.blockcnt,
          dev.decode s.disks b = applied dev (dev.decode disks) s.log b) := by
  obtain ⟨hcnt, _⟩ := reportGeometry_ok hgeometry
  have hstripe : ∀ b, dev.stripeIdx b < childBlocks / dev.stripBlocks ↔ b < opts'.blockcnt := by
    intro b
    rw [hcnt]
    exact Nat.div_lt_iff_lt_mul dev.stripe_pos
  obtain ⟨G, rfl, hch, hflat, hknown, hdead⟩ : ∃ G : Base B, dev = G.dev ∧
      (∀ k, G.children k = .reliable) ∧ dev.decode disks = G.flat ∧
      (∀ k, G.known k ↔ k < childBlocks / dev.stripBlocks) ∧ ∀ x, ¬ G.dead x :=
    ⟨⟨dev, fun _ => .reliable, (· < childBlocks / dev.stripBlocks), fun _ => False,
      dev.decode disks⟩, rfl, fun _ => rfl, rfl, fun _ => Iff.rfl, fun _ => id⟩
  have htrust : ∀ k, G.Trusted k := fun k => trusted_of_reliable (hch k) hdead
  have hshift := shiftOk_of_reliable hch overflowChecks
  have hinit : ∀ k, G.Holds k G.flat disks := fun k hk x hx _ row hrow => by
    rw [← hflat]
    refine encode_decode (fun row hrow => hpar row ?_) hx hrow
    have hlt : row / G.dev.stripBlocks < childBlocks / G.dev.stripBlocks := by
      rw [hrow]
      exact (hknown k).mp hk
    exact (Nat.div_lt_iff_lt_mul G.dev.strip_pos).mp hlt
  have hcovers : ∀ req ∈ s.submitted, G.Covers req := fun req hreq hpos => by
    have := hinside req hreq
    exact (hknown _).mpr ((hstripe _).mpr (by omega))
  rw [hflat]
  obtain ⟨hs, hlog⟩ := Reached.flatDisk htrust hinit hshift hch hrun hcovers
  have hidle : ∀ k, G.known k → (∀ t req prog frame, ¬ s.Processing G.dev t k req prog frame) →
      ∀ x < G.dev.diskCount, ∀ row, row / G.dev.stripBlocks = k →
        s.disks x row = G.dev.encode (applied G.dev G.flat s.log) x row :=
    fun k hk hno x hx => hs.serving.idle k hno hk x hx (hdead x)
  rw [show (∃ x, G.dead x) = False from propext ⟨fun ⟨x, hx⟩ => hdead x hx, False.elim⟩] at hlog
  refine ⟨hlog, hs.serialized.order, hs.serialized.senders, fun k hk hno => ?_,
    hs.stops (fun k _ => htrust k) hshift hch, fun hrest => ?_⟩
  · have hk : G.known k := by
      rw [hknown, ← Nat.mul_div_cancel k G.dev.stripe_pos]
      exact (hstripe _).mpr hk
    refine ⟨fun row hrow => ?_, fun b hb => decode_encode (hidle k hk hno) hb⟩
    rw [Finset.sum_congr rfl fun x hx => hidle k hk hno x (Finset.mem_range.mp hx) row hrow]
    exact encode_sum G.dev _ row
  · have hanswers : ∀ x, Children.reliable.allow x true = true ∨
        Children.reliable.allow x false = true := fun _ => Or.inl rfl
    refine ⟨hs.answered hanswers hrest, fun b hb =>
      decode_encode (hidle _ ((hknown _).mpr ((hstripe b).mpr hb)) ?_) rfl⟩
    rintro t req prog frame ⟨task, ht, hst, _⟩
    cases (hs.over hanswers hrest ht).symm.trans hst

/-- A write of block 1, and a read of its stripe that comes while the write reads old contents;
the worker's first task serves both, and the second child read ends first. -/
def writeAndRead : List (DevEvent Byte) :=
  [[.submit ⟨⟨⟨.write, 1, 1⟩, 7⟩, fun _ => ⟨5⟩⟩, .start 0, .dequeue 0 0],
    List.replicate 4 (.step 0),
    [.submit ⟨⟨⟨.read, 0, 4⟩, 8⟩, 0⟩, .child 0 (.apply 0 0), .child 0 (.finish 0), .start 0,
      .step 0, .child 0 (.apply 1 0), .child 0 (.finish 1)],
    List.replicate 7 (.step 0),
    [.child 0 (.apply 2 0), .child 0 (.finish 2), .step 0, .child 0 (.apply 3 0),
      .child 0 (.finish 3)],
    List.replicate 11 (.step 0),
    [.dequeue 0 0, .step 0, .step 0, .child 0 (.apply 1 0), .child 0 (.finish 1),
      .child 0 (.apply 0 0), .child 0 (.finish 0)],
    List.replicate 8 (.step 0), [.dequeue 0 0]].flatten

theorem linearizable_flat_disk_writeAndRead :
    ∃ s, run (Device.next smallArray .reliable true) (Device.start 0) writeAndRead = some s ∧
      s.log.map (fun a => (a.sender, a.status)) = [(7, .success), (8, .success)] ∧
      (s.log[1]?).map (fun a => (List.range 4).map a.mem) = some [⟨0⟩, ⟨5⟩, ⟨0⟩, ⟨0⟩] ∧
      FlatDisk smallArray False (smallArray.decode 0) s.log := by
  have hview : (run (Device.next smallArray .reliable true) (Device.start 0) writeAndRead).map
      (fun s => (s.log.map (fun a => (a.sender, a.status)),
        (s.log[1]?).map (fun a => (List.range 4).map a.mem), s.submitted.map (·.io))) =
      some ([(7, .success), (8, .success)], some [⟨0⟩, ⟨5⟩, ⟨0⟩, ⟨0⟩],
        [⟨.write, 1, 1⟩, ⟨.read, 0, 4⟩]) := by
    decide
  have hgeometry : smallArray.reportGeometry 512 7 {} = .ok ⟨512, 12, false, 0, 4, 0, 1⟩ := rfl
  obtain ⟨s, hs, hl⟩ := Option.map_eq_some_iff.mp hview
  obtain ⟨hlog, hl⟩ := Prod.mk.inj hl
  obtain ⟨hread, hios⟩ := Prod.mk.inj hl
  have hinside : ∀ io ∈ s.submitted.map (·.io), io.offsetBlocks + io.numBlocks ≤ 12 := by
    rw [hios]
    decide
  exact ⟨s, hs, hlog, hread, (linearizable_flat_disk smallArray hgeometry true 0
    (fun _ _ => by simp) writeAndRead s hs fun req hreq =>
      hinside req.io (List.mem_map_of_mem hreq)).1⟩

end Ironspdk.Raid5
