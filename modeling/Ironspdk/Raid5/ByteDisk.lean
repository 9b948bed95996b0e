import Ironspdk.Raid5.FlatDisk
import Ironspdk.Raid5.LentRuns

/-! # The array is a disk of bytes

What a client has of it all. A disk is a row of bytes; a request covers one piece of it and
comes with segments of the client's memory. A read leaves in them what the disk holds, a write
stores what they held when it was submitted. The array answers like such a disk, one of its
children dead or not, as long as the client leaves alone the memory that it has lent. -/
namespace Ironspdk.Raid5.Scattered
open Ironspdk.Lib
open Ironspdk.Runtime (Build BdevIo IoStatus)

variable {n : Nat}

/-! ## Disks of bytes -/

/-- The blocks of a disk. -/
def blocksOf (disk : Nat → Byte) : Nat → Block n := fun b i => disk (b * n + i)

/-- The piece of the disk that a request covers. -/
def Submitted.extent (x : Submitted n) : List Nat :=
  List.range' (x.io.offsetBlocks * n) (x.io.numBlocks * n)

/-- What a disk may answer; with `degraded`, a write may be reported as a failure. -/
def Submitted.Right (dev : Raid5Bdev) (degraded : Prop) (disk : Nat → Byte) (x : Submitted n)
    (a : Answer) : Prop :=
  (a.status = x.status dev ∨ degraded ∧ x.io.ioType = .write) ∧
    (x.io.ioType = .read → ¬ dev.crossesStripe x.io → a.bytes = gather disk x.extent)

/-- What a request does to the disk. -/
def Submitted.store (dev : Raid5Bdev) (disk : Nat → Byte) (x : Submitted n) : Nat → Byte :=
  if x.io.ioType = .write ∧ ¬ dev.crossesStripe x.io then scatter disk x.extent x.given else disk

/-- The answers so far, each with its request. -/
def Device.answered (s : Device n) : List (Submitted n × Answer) :=
  s.log.filterMap fun a => (s.reqs[a.req]?).map (·, a)

/-- The answers of `log` are those of a disk that starts with `disk`. -/
def ByteDisk (dev : Raid5Bdev) (degraded : Prop) (disk : Nat → Byte)
    (log : List (Submitted n × Answer)) : Prop :=
  Sequential (fun f p => p.1.Right dev degraded f p.2) (fun f p => p.1.store dev f) disk log

/-- What the disk holds after the answers of `log`. -/
def stored (dev : Raid5Bdev) (disk : Nat → Byte) (log : List (Submitted n × Answer)) :
    Nat → Byte :=
  log.foldl (fun f p => p.1.store dev f) disk

/-! ## Bytes and blocks -/

/-- Blocks that are written are written byte by byte. -/
theorem blocksOf_scatter (disk : Nat → Byte) (off num : Nat) {data : List Byte}
    (hlen : data.length = num * n) :
    blocksOf (scatter disk (List.range' (off * n) (num * n)) data) =
      overwrite (blocksOf disk) off num (toBlocks n data) := by
  funext b i
  have hi := i.isLt
  rw [blocksOf, ← hlen, scatter_range', overwrite]
  by_cases hoff : off ≤ b
  · obtain ⟨j, rfl⟩ := Nat.exists_eq_add_of_le hoff
    have hat : (off + j) * n + i - off * n = j * n + i := by
      rw [Nat.add_mul]
      omega
    rw [if_pos (by rw [Nat.add_mul]; omega), hat]
    by_cases hj : j < num
    · have hin : j * n + i < data.length := by
        have := Nat.mul_le_mul_right n hj
        rw [Nat.succ_mul] at this
        omega
      rw [if_pos (by omega), Nat.add_sub_cancel_left, toBlocks, List.getElem?_eq_getElem hin]
      rfl
    · have hout : data.length ≤ j * n + i := by
        have := Nat.mul_le_mul_right n (Nat.le_of_not_lt hj)
        omega
      rw [if_neg (by omega), List.getElem?_eq_none hout]
      rfl
  · have hlt : b * n + i < off * n := by
      have := Nat.mul_le_mul_right n (Nat.lt_of_not_le hoff)
      rw [Nat.succ_mul] at this
      omega
    rw [if_neg (by omega), if_neg (by omega)]
    rfl

/-- Blocks that are read are read byte by byte. -/
theorem toBytes_blocksOf (disk : Nat → Byte) (off num : Nat) {blocks : Nat → Block n}
    (h : ∀ j < num, blocks j = blocksOf disk (off + j)) :
    toBytes num blocks = gather disk (List.range' (off * n) (num * n)) := by
  refine (eq_toBytes (by rw [length_gather, List.length_range']) fun j hj => ?_).symm
  rw [h j hj]
  funext i
  have hin : j * n + i < num * n := by
    have := Nat.mul_le_mul_right n hj
    rw [Nat.succ_mul] at this
    omega
  simp [toBlocks, gather, blocksOf, hin, Nat.add_mul, Nat.add_assoc]

/-! ## The same history -/

/-- An answer of the coarser device, with the request and its bytes. -/
structure Tells (p : Submitted n × Answer) (c : Raid5.Answer (Block n)) : Prop where
  req : c.req = p.1.shown
  sender : c.sender = p.2.sender
  status : c.status = p.2.status
  bytes : p.2.bytes = toBytes (memBlocks p.1.io) c.mem
  given : p.1.given.length = memBlocks p.1.io * n

section tells
variable {dev : Raid5Bdev} {degraded : Prop} {disk : Nat → Byte} {p : Submitted n × Answer}
  {c : Raid5.Answer (Block n)}

theorem Tells.right (h : Tells p c) (hc : c.Right dev degraded (blocksOf disk)) :
    p.1.Right dev degraded disk p.2 := by
  obtain ⟨hstatus, hreads⟩ := hc
  rw [Raid5.Answer.Reads, h.req] at hreads
  rw [h.req, h.status] at hstatus
  refine ⟨hstatus, fun hty hfit => ?_⟩
  have hnum : memBlocks p.1.io = p.1.io.numBlocks := by rw [memBlocks, hty]
  rw [h.bytes, hnum]
  exact toBytes_blocksOf disk _ _ (hreads hty hfit)

theorem Tells.store (h : Tells p c) :
    blocksOf (p.1.store dev disk) = c.req.effect dev c.req.mem (blocksOf disk) := by
  rw [h.req, Submitted.store]
  show _ = p.1.toQueuedIo.effect dev (toBlocks n p.1.given) (blocksOf disk)
  rw [QueuedIo.effect]
  split
  · rename_i hw
    have hnum : memBlocks p.1.io = p.1.io.numBlocks := by rw [memBlocks, hw.1]
    exact blocksOf_scatter disk _ _ (hnum ▸ h.given)
  · rfl

theorem requests_of_tells {log : List (Submitted n × Answer)}
    {log' : List (Raid5.Answer (Block n))} (h : List.Forall₂ Tells log log') :
    log'.map (·.req) = log.map (·.1.shown) := by
  induction h with
  | nil => rfl
  | cons htells _ ih => exact congrArg₂ List.cons htells.req ih

theorem sender_of_tells {log : List (Submitted n × Answer)} {log' : List (Raid5.Answer (Block n))}
    (h : List.Forall₂ Tells log log') (hsender : ∀ c ∈ log', c.sender = c.req.sender) :
    ∀ p ∈ log, p.2.sender = p.1.sender := by
  induction h with
  | nil => exact List.forall_mem_nil _
  | cons htells _ ih =>
    obtain ⟨hc, hlog⟩ := List.forall_mem_cons.mp hsender
    refine List.forall_mem_cons.mpr ⟨?_, ih hlog⟩
    rw [← htells.sender, hc, htells.req]
    rfl

/-- A history of blocks is one of bytes. -/
theorem byteDisk_of_tells {log : List (Submitted n × Answer)}
    {log' : List (Raid5.Answer (Block n))} (h : List.Forall₂ Tells log log')
    (hflat : FlatDisk dev degraded (blocksOf disk) log') :
    ByteDisk dev degraded disk log ∧
      blocksOf (stored dev disk log) = applied dev (blocksOf disk) log' :=
  sequential_refine (R := fun f g => blocksOf f = g)
    (fun _ _ _ _ hfg htells hright => htells.right (hfg ▸ hright))
    (fun _ _ _ _ hfg htells => hfg ▸ htells.store) rfl h hflat

end tells

section runs
variable {b : Build} {dev : Raid5Bdev} {ch : Children} {overflowChecks : Bool} {s s' : Device n}
  {d : Raid5.Device (Block n)} {e : DevEvent n}

/-- The record of a request holds all the bytes of its segments. -/
theorem given_length {ram : Nat → Byte} {disks : Nat → Nat → Block n} {es : List (DevEvent n)}
    (hrun : Lib.run (Device.next b dev ch overflowChecks) (Device.start ram disks) es = some s) :
    ∀ x ∈ s.reqs, x.given.length = memBlocks x.io * n := by
  refine run_always (I := fun s : Device n => ∀ x ∈ s.reqs, x.given.length = memBlocks x.io * n)
    (fun x hx => by cases hx) (fun t e u h hn x hx => ?_) hrun
  by_cases hdevice : ∀ a c, e ≠ .client a c
  · rcases next_cases hn hdevice with ⟨req, _, rfl⟩ | ⟨hsame, _⟩
    · rcases List.mem_append.mp hx with hx | hx
      · exact h x hx
      · rw [List.mem_singleton.mp hx]
        exact (length_gather _ _).trans req.seg.length_addrs
    · exact h x (hsame ▸ hx)
  · simp only [not_forall, not_not] at hdevice
    obtain ⟨a, c, rfl⟩ := hdevice
    cases hn
    exact h x hx

/-- The two records tell the same. -/
theorem Matches.tells (h : Matches s d)
    (hgiven : ∀ x ∈ s.reqs, x.given.length = memBlocks x.io * n) :
    List.Forall₂ Tells s.answered d.log ∧ s.answered.map Prod.snd = s.log := by
  have hlog := h.log
  unfold Device.answered
  generalize s.log = log at hlog
  generalize d.log = log' at hlog
  induction hlog with
  | nil => exact ⟨.nil, rfl⟩
  | @cons a c log log' hac _ ih =>
    obtain ⟨x, hx, hreq, hsender, hstatus, hbytes⟩ := hac
    simp only [List.filterMap_cons, hx, Option.map_some]
    exact ⟨.cons ⟨hreq, hsender, hstatus, hbytes, hgiven x (List.mem_of_getElem? hx)⟩ ih.1,
      congrArg (a :: ·) ih.2⟩

/-! ## Coming to rest -/

/-- As many answers as requests are answers to all of them. -/
theorem Lent.all_answered {w : Nat → Place} (h : Lent w s) (hlen : s.reqs.length ≤ s.log.length) :
    ∀ r < s.reqs.length, ∃ a ∈ s.log, a.req = r := by
  intro r hr
  have hsub : (s.log.map (·.req)).toFinset ⊆ Finset.range s.reqs.length := by
    intro r hr
    obtain ⟨a, ha, rfl⟩ := List.mem_map.mp (List.mem_toFinset.mp hr)
    exact Finset.mem_range.mpr (h.logged a ha)
  have hcard : (Finset.range s.reqs.length).card ≤ (s.log.map (·.req)).toFinset.card := by
    rwa [List.toFinset_card_of_nodup h.once, Finset.card_range, List.length_map]
  have hin : r ∈ (s.log.map (·.req)).toFinset := by
    rw [Finset.eq_of_subset_of_card_le hsub hcard]
    exact Finset.mem_range.mpr hr
  exact List.mem_map.mp (List.mem_toFinset.mp hin)

/-- A label of the device itself, other than the submission of a request. -/
def DevEvent.Inner : DevEvent n → Prop
  | .submit _ | .client _ _ => False
  | _ => True

/-- Nothing is left to do for the device. -/
def Device.AtRest (b : Build) (dev : Raid5Bdev) (ch : Children) (overflowChecks : Bool)
    (s : Device n) : Prop :=
  ∀ e : DevEvent n, e.Inner → s.next b dev ch overflowChecks e = none

theorem DevEvent.Inner.lends (h : e.Inner) (s : Device n) : Lends s e := by
  cases e with
  | submit req => exact h.elim
  | client a x => exact h.elim
  | _ => trivial

/-- The devices have the same inner labels. -/
theorem DevEvent.Inner.shown (h : e.Inner) :
    ∃ e' : Raid5.DevEvent (Block n), e'.Inner ∧ ∀ ram, e.shown ram = some e' := by
  cases e with
  | submit req => exact h.elim
  | client a x => exact h.elim
  | start v => exact ⟨.start v, trivial, fun _ => rfl⟩
  | dequeue t heap => exact ⟨.dequeue t heap, trivial, fun _ => rfl⟩
  | step t => exact ⟨.step t, trivial, fun _ => rfl⟩
  | child t e => exact ⟨.child t e, trivial, fun _ => rfl⟩

theorem exists_inner {e' : Raid5.DevEvent (Block n)} (h : e'.Inner) :
    ∃ e : DevEvent n, e.Inner ∧ ∀ ram, e.shown ram = some e' := by
  cases e' with
  | submit req => exact h.elim
  | start v => exact ⟨.start v, trivial, fun _ => rfl⟩
  | dequeue t heap => exact ⟨.dequeue t heap, trivial, fun _ => rfl⟩
  | step t => exact ⟨.step t, trivial, fun _ => rfl⟩
  | child t e => exact ⟨.child t e, trivial, fun _ => rfl⟩

theorem Related.atRest (h : Related dev s d) (hrest : s.AtRest b dev ch overflowChecks) :
    d.AtRest dev ch overflowChecks := by
  intro e' he'
  obtain ⟨e, he, hshown⟩ := exists_inner he'
  have hrel : Option.Rel (Related dev) (s.next b dev ch overflowChecks e)
      (d.next dev ch overflowChecks e') := h.next (he.lends s) (hshown s.ram)
  rw [hrest e he] at hrel
  generalize d.next dev ch overflowChecks e' = u at hrel
  cases hrel
  rfl

theorem Related.stops (h : Related dev s d)
    (hstops : Stops (Raid5.Device.next dev ch overflowChecks) Raid5.DevEvent.Inner d) :
    Stops (Device.next b dev ch overflowChecks) DevEvent.Inner s := by
  refine stops_rel (fun s d e e' hrel hlabel => ?_) h (fun e he => ?_) hstops
    (L := fun e e' => (∀ s, Lends s e) ∧ ∀ ram, e.shown ram = some e')
  · exact hrel.next (hlabel.1 s) (hlabel.2 s.ram)
  · obtain ⟨e', he', hshown⟩ := he.shown
    exact ⟨e', he', he.lends, hshown⟩

end runs

/-! ## What the client sees -/

/-- Children that never fail, but for a dead one, which always does. -/
def childrenWithout (dead : Option Nat) : Children :=
  ⟨fun x ok => decide (dead = some x) != ok, false⟩

theorem allow_childrenWithout {dead : Option Nat} {x : Nat} {ok : Bool} :
    (childrenWithout dead).allow x ok = true ↔ (ok = false ↔ dead = some x) := by
  cases ok <;> simp [childrenWithout]

/-- **The client sees a disk of bytes.** At most one child is dead, the build has no overflow
checks or that child is below 64, the other children hold the disk at the start, requests are
inside the device, and the client leaves alone the memory that it has lent. The answers are
those of the disk, none is given twice, each goes to the sender of its request, and in every
stripe they keep the order of submission. Without new requests every schedule stops, and then all
requests have been answered and the children hold what the disk ends with. -/
theorem client_sees_a_disk (b : Build) (dev : Raid5Bdev) {childBlocks : Nat}
    {opts opts' : Raid5BdevOpts} (hgeometry : dev.reportGeometry n childBlocks opts = .ok opts')
    (dead : Option Nat) (overflowChecks : Bool)
    (hbit : overflowChecks = true → ∀ d ∈ dead, d < 64) (ram disk : Nat → Byte)
    (disks : Nat → Nat → Block n)
    (hholds : ∀ x < dev.diskCount, dead ≠ some x → ∀ row < dev.usableChildBlocks childBlocks,
      disks x row = dev.encode (blocksOf disk) x row)
    (es : List (DevEvent n)) (s : Device n)
    (hrun : run (Device.next b dev (childrenWithout dead) overflowChecks) (Device.start ram disks)
      es = some s)
    (hlends : Along (Device.next b dev (childrenWithout dead) overflowChecks) Lends
      (Device.start ram disks) es)
    (hinside : ∀ x ∈ s.reqs, x.io.offsetBlocks + x.io.numBlocks ≤ opts'.blockcnt) :
    s.answered.map Prod.snd = s.log ∧ ByteDisk dev dead.isSome disk s.answered ∧
      (s.log.map (·.req)).Nodup ∧ (∀ p ∈ s.answered, p.2.sender = p.1.sender) ∧
      (∀ k, onKey (Raid5.Request.stripe dev) k (s.answered.map (·.1.shown)) <+:
        onKey (Raid5.Request.stripe dev) k (s.reqs.map (·.shown))) ∧
      Stops (Device.next b dev (childrenWithout dead) overflowChecks) DevEvent.Inner s ∧
      (s.AtRest b dev (childrenWithout dead) overflowChecks →
        (∀ r < s.reqs.length, ∃ a ∈ s.log, a.req = r) ∧
        ∀ x < dev.diskCount, dead ≠ some x → ∀ row < dev.usableChildBlocks childBlocks,
          s.disks x row = dev.encode (blocksOf (stored dev disk s.answered)) x row) := by
  obtain ⟨hcnt, _⟩ := reportGeometry_ok hgeometry
  have hrow : ∀ row, row / dev.stripBlocks < childBlocks / dev.stripBlocks ↔
      row < dev.usableChildBlocks childBlocks := fun row => Nat.div_lt_iff_lt_mul dev.strip_pos
  have hstart : Related dev (Device.start ram disks) (Raid5.Device.start disks) :=
    related_start ram disks
  obtain ⟨d, hd', hrel⟩ := hstart.run hrun hlends
  obtain ⟨w, _, hl, hm⟩ := id hrel
  obtain ⟨G, rfl, hch, hflat, hknown, hdead⟩ : ∃ G : Base (Block n), dev = G.dev ∧
      (∀ k, G.children k = childrenWithout dead) ∧ blocksOf disk = G.flat ∧
      (∀ k, G.known k ↔ k < childBlocks / dev.stripBlocks) ∧ ∀ x, G.dead x ↔ dead = some x :=
    ⟨⟨dev, fun _ => childrenWithout dead, (· < childBlocks / dev.stripBlocks), (dead = some ·),
      blocksOf disk⟩, rfl, fun _ => rfl, rfl, fun _ => Iff.rfl, fun _ => Iff.rfl⟩
  have hallow : ∀ k x ok, (G.children k).allow x ok = true ↔ (ok = false ↔ dead = some x) :=
    fun k x ok => by rw [hch, allow_childrenWithout]
  have htrust : ∀ k, G.Trusted k := by
    intro k
    refine ⟨by rw [hch]; rfl, fun x hx => ?_, fun x hx => ?_, fun x y hx hy => ?_⟩
    · rw [hdead]
      simpa using (hallow k x true).mp hx
    · rw [hdead]
      simpa using (hallow k x false).mp hx
    · exact Option.some.inj (((hdead x).mp hx).symm.trans ((hdead y).mp hy))
  have hshift : G.ShiftOk overflowChecks :=
    fun hc k x _ hx => hbit hc x (by simpa using (hallow k x false).mp hx)
  have hinit : ∀ k, G.Holds k G.flat disks := fun k hk x hx hne row hr => by
    rw [← hflat]
    exact hholds x hx (fun he => hne ((hdead x).mpr he)) row
      ((hrow row).mp (hr ▸ (hknown k).mp hk))
  have hcovers : ∀ req ∈ d.submitted, G.Covers req := by
    intro req hreq hpos
    rw [hm.reqs] at hreq
    obtain ⟨x, hx, rfl⟩ := List.mem_map.mp hreq
    have hin := hinside x hx
    have hpos : 0 < x.io.numBlocks := hpos
    refine (hknown _).mpr ((Nat.div_lt_iff_lt_mul G.dev.stripe_pos).mpr ?_)
    show x.io.offsetBlocks < _
    omega
  obtain ⟨hs, hlog⟩ := Reached.flatDisk htrust hinit hshift hch hd' hcovers
  obtain ⟨htells, hall⟩ := hm.tells (given_length hrun)
  rw [← hflat, show (∃ x, G.dead x) = (dead.isSome = true) from propext
    ((exists_congr hdead).trans Option.isSome_iff_exists.symm)] at hlog
  obtain ⟨hbytes, hend⟩ := byteDisk_of_tells htells hlog
  have hanswers := requests_of_tells htells
  have hlive : ∀ x, (childrenWithout dead).allow x true = true ∨
      (childrenWithout dead).allow x false = true := by
    intro x
    rw [allow_childrenWithout, allow_childrenWithout]
    by_cases hx : dead = some x
    · exact Or.inr ⟨fun _ => hx, fun _ => rfl⟩
    · exact Or.inl ⟨fun he => (by cases he), fun he => absurd he hx⟩
  refine ⟨hall, hbytes, hl.once, sender_of_tells htells hs.serialized.senders, fun k => ?_,
    hrel.stops (hs.stops (fun k _ => htrust k) hshift hch), fun hrest => ⟨hl.all_answered ?_, ?_⟩⟩
  · rw [← hanswers, ← hm.reqs]
    exact hs.serialized.order k
  · have hlen : d.submitted.length ≤ (d.log.map (·.req)).length :=
      length_le_of_onKey (Raid5.Request.stripe G.dev) fun k =>
        ⟨[], (List.append_nil _).trans (hs.answered hlive (hrel.atRest hrest) k).symm⟩
    rwa [hm.reqs, List.length_map, List.length_map, ← hm.log.length_eq] at hlen
  · intro x hx hne row hr
    rw [hend, hflat, ← hm.disks]
    refine hs.serving.idle _ ?_ ((hknown _).mpr ((hrow row).mpr hr)) x hx
      (fun hd => hne ((hdead x).mp hd)) row rfl
    rintro t req prog frame ⟨task, ht, hst, _⟩
    cases (hs.over hlive (hrel.atRest hrest) ht).symm.trans hst

/-- A disk on which every byte is its own number. -/
def numbered (a : Nat) : Byte := ⟨BitVec.ofNat 8 a⟩

/-- The children of the small array with that disk; child 1 has lost its contents. -/
def withoutOne : Nat → Nat → Block 3 := fun x =>
  if x = 1 then 0 else smallArray.encode (blocksOf numbered) x

/-- A read of block 0, which child 1 held. -/
def readRebuilt : List (DevEvent 3) :=
  [.submit ⟨⟨⟨.read, 0, 1⟩, 7⟩, threeBytes⟩, .start 0, .dequeue 0 0, .step 0,
    .child 0 (.fail 0 0)] ++ List.replicate 5 (.step 0) ++
    [.child 0 (.apply 1 0), .child 0 (.finish 1), .step 0, .child 0 (.apply 2 0),
      .child 0 (.finish 2)] ++ List.replicate 13 (.step 0) ++ [.dequeue 0 0]

theorem client_sees_a_disk_readRebuilt : ∃ s,
    run (Device.next Runtime.release smallArray (childrenWithout (some 1)) true)
      (Device.start (fun _ => ⟨3⟩) withoutOne) readRebuilt = some s ∧
      (s.ram 100, s.ram 200, s.ram 201) = (⟨0⟩, ⟨1⟩, ⟨2⟩) ∧
      ByteDisk smallArray ((some 1).isSome) numbered s.answered := by
  have hview : (run (Device.next Runtime.release smallArray (childrenWithout (some 1)) true)
      (Device.start (fun _ => ⟨3⟩) withoutOne) readRebuilt).map
      (fun s => ((s.ram 100, s.ram 200, s.ram 201), s.reqs.map (·.io))) =
      some ((⟨0⟩, ⟨1⟩, ⟨2⟩), [⟨.read, 0, 1⟩]) := by decide +kernel
  have hgeometry : smallArray.reportGeometry 3 7 {} = .ok ⟨3, 12, false, 0, 4, 0, 1⟩ := rfl
  obtain ⟨s, hs, hl⟩ := Option.map_eq_some_iff.mp hview
  have hio : s.reqs.map (·.io) = [⟨.read, 0, 1⟩] := congrArg Prod.snd hl
  refine ⟨s, hs, congrArg Prod.fst hl, (client_sees_a_disk Runtime.release smallArray hgeometry
    (some 1) true (by simp) (fun _ => ⟨3⟩) numbered withoutOne (fun x _ hx row _ => ?_) readRebuilt
    s hs (by decide +kernel) fun x hx => ?_).2.1⟩
  · rw [withoutOne, if_neg fun he => hx (congrArg some he.symm)]
  · have hmem : x.io ∈ s.reqs.map (·.io) := List.mem_map_of_mem hx
    rw [hio, List.mem_singleton] at hmem
    rw [hmem]
    decide

end Ironspdk.Raid5.Scattered
