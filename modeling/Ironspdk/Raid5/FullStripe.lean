import Ironspdk.Raid5.WriteSpec

/-! # What a full-stripe write does

The strips of a full-stripe write are the data strips in their order, so the loop that
pairs disks and `Io`s gives every disk its own, and the exclusive or of the strips is the
new parity. Each `Io` is dropped as soon as it is submitted: the rule holds for children
that store what the buffer held then, and where no buffer is asked to be held. -/
namespace Ironspdk.Raid5
open Ironspdk.Lib Ironspdk.Runtime

variable {B : Type} {α β γ : Type}

/-! ## The strips -/

section strips
variable {dev : Raid5Bdev} {k : Nat}

/-- Strip `i` of a full stripe. -/
def Raid5Bdev.fullStrip (dev : Raid5Bdev) (k i : Nat) : Strip :=
  { disk := dataDiskIdx i (dev.parityDiskIdx k)
    offsetInStrip := 0
    blocks := dev.stripBlocks
    io := .ref ⟨k * dev.stripBlocks, i * dev.stripBlocks, dev.stripBlocks⟩ }

theorem Tiles.full {i m : Nat} {strips : List Strip}
    (h : Tiles dev k 0 (i * dev.stripBlocks) (m * dev.stripBlocks) strips) :
    strips = (List.range' i m).map (dev.fullStrip k) := by
  have hpos := dev.strip_pos
  induction m generalizing i strips with
  | zero =>
    cases strips with
    | nil => rfl
    | cons s rest =>
      have := h.1
      omega
  | succ m ih =>
    cases strips with
    | nil =>
      have h0 : (m + 1) * dev.stripBlocks = 0 := h
      rw [Nat.succ_mul] at h0
      omega
    | cons s rest =>
      obtain ⟨_, hd, ho, hb, hio, hrest⟩ := h
      have hmod : i * dev.stripBlocks % dev.stripBlocks = 0 := Nat.mul_mod_left ..
      have hdiv : i * dev.stripBlocks / dev.stripBlocks = i := Nat.mul_div_cancel _ hpos
      rw [hmod] at ho
      rw [hdiv] at hd
      have hblocks : s.blocks = dev.stripBlocks := by
        rw [hb, ho, Nat.succ_mul]
        omega
      have hcur : i * dev.stripBlocks + s.blocks = (i + 1) * dev.stripBlocks := by
        rw [hblocks, Nat.succ_mul]
      have hrem : (m + 1) * dev.stripBlocks - s.blocks = m * dev.stripBlocks := by
        rw [hblocks, Nat.succ_mul, Nat.add_sub_cancel]
      rw [hcur, hrem] at hrest
      have hs : s = dev.fullStrip k i := by
        obtain ⟨disk, off, blocks, io⟩ := s
        simp only at hd ho hblocks hio
        rw [ho, hblocks] at hio
        rw [hd, ho, hblocks, hio]
        rfl
      rw [List.range'_succ, List.map_cons, ← ih hrest, hs]

/-- What the loop over the disks hands to disk `d`. -/
def Raid5Bdev.fullIo (dev : Raid5Bdev) (k : Nat) (p : Io) (d : Nat) : Nat × Io :=
  (d, if d = dev.parityDiskIdx k then p else (dev.fullStrip k (stripOf d (dev.parityDiskIdx k))).io)

theorem diskIos_parity {p : Nat} {ds : List Nat} {io : Io} {strips : List Strip} :
    diskIos p (p :: ds) (some io) strips = (diskIos p ds none strips).map ((p, io) :: ·) := by
  rw [diskIos.eq_def]
  cases h : diskIos p ds none strips <;> simp [h]

theorem diskIos_data {p d : Nat} {ds : List Nat} {parityIo : Option Io} {s : Strip}
    {strips : List Strip} (h : d ≠ p) : diskIos p (d :: ds) parityIo (s :: strips) =
      (diskIos p ds parityIo strips).map ((d, s.io) :: ·) := by
  rw [diskIos.eq_def]
  cases hrest : diskIos p ds parityIo strips <;> simp [h, hrest]

theorem diskIos_after {m d : Nat} (parityIo : Option Io) (p : Io)
    (hd : dev.parityDiskIdx k < d) :
    diskIos (dev.parityDiskIdx k) (List.range' d m) parityIo
      ((List.range' (d - 1) m).map (dev.fullStrip k)) =
      some ((List.range' d m).map (dev.fullIo k p)) := by
  induction m generalizing d with
  | zero => rfl
  | succ m ih =>
    have hne : d ≠ dev.parityDiskIdx k := by omega
    have hi : stripOf d (dev.parityDiskIdx k) = d - 1 := if_neg (by omega)
    have hnext := ih (d := d + 1) (by omega)
    rw [Nat.add_sub_cancel] at hnext
    rw [List.range'_succ, List.range'_succ, List.map_cons, List.map_cons, diskIos_data hne,
      show d - 1 + 1 = d by omega, hnext, Raid5Bdev.fullIo, if_neg hne, hi]
    rfl

theorem diskIos_full {m d : Nat} (p : Io) (hd : d ≤ dev.parityDiskIdx k)
    (hm : dev.parityDiskIdx k < d + m) :
    diskIos (dev.parityDiskIdx k) (List.range' d m) (some p)
      ((List.range' d (m - 1)).map (dev.fullStrip k)) =
      some ((List.range' d m).map (dev.fullIo k p)) := by
  induction m generalizing d with
  | zero => omega
  | succ m ih =>
    rcases Nat.eq_or_lt_of_le hd with rfl | hlt
    · have hnext := diskIos_after (m := m) none p (Nat.lt_succ_self (dev.parityDiskIdx k))
      rw [Nat.succ_eq_add_one, Nat.add_sub_cancel] at hnext
      rw [List.range'_succ, List.map_cons, diskIos_parity, Nat.add_sub_cancel, hnext,
        Raid5Bdev.fullIo, if_pos rfl]
      rfl
    · obtain ⟨m, rfl⟩ : ∃ m', m = m' + 1 := ⟨m - 1, by omega⟩
      have hne : d ≠ dev.parityDiskIdx k := by omega
      have hi : stripOf d (dev.parityDiskIdx k) = d := if_pos hlt
      have hnext := ih (d := d + 1) (by omega) (by omega)
      rw [Nat.add_sub_cancel] at hnext ⊢
      rw [show List.range' d (m + 2) = d :: List.range' (d + 1) (m + 1) from List.range'_succ,
        show List.range' d (m + 1) = d :: List.range' (d + 1) m from List.range'_succ,
        List.map_cons, List.map_cons, diskIos_data hne, hnext,
        Raid5Bdev.fullIo, if_neg hne, hi]
      rfl

/-- A full-stripe request: its strips are the data strips, and the loop over the disks
pairs every disk with its own. -/
theorem split_full (dev : Raid5Bdev) {io : BdevIo} (hoff : dev.stripeOffset io.offsetBlocks = 0)
    (hnum : io.numBlocks = dev.stripeBlocks) (hk : dev.stripeIdx io.offsetBlocks = k) :
    ∃ strips, splitStrips (Io.fromBdevIo io) (k * dev.stripBlocks) dev.stripBlocks 0
        dev.stripeBlocks (dev.parityDiskIdx k) = some strips ∧ Split dev k io strips ∧
      strips = (List.range' 0 (dev.diskCount - 1)).map (dev.fullStrip k) ∧
      ∀ p, diskIos (dev.parityDiskIdx k) (List.range dev.diskCount) (some p) strips =
        some ((List.range' 0 dev.diskCount).map (dev.fullIo k p)) := by
  have hfit : ¬ dev.crossesStripe io := by
    rw [Raid5Bdev.crossesStripe, hoff, hnum]
    omega
  obtain ⟨strips, hsplit, hs⟩ := split_request dev hfit
  have htiles := hs.tiles
  rw [hk] at hs
  rw [hk, hoff, hnum] at hsplit
  rw [hk, hoff, hnum, dev.stripe_eq] at htiles
  have hstrips : strips = (List.range' 0 (dev.diskCount - 1)).map (dev.fullStrip k) := by
    refine Tiles.full ?_
    rw [Nat.zero_mul]
    exact htiles
  refine ⟨strips, hsplit, hs, hstrips, fun p => ?_⟩
  rw [List.range_eq_range', hstrips]
  exact diskIos_full p (Nat.zero_le _) (by rw [Nat.zero_add]; exact dev.parityDiskIdx_lt _)

end strips

section rules
variable [XorGroup B] {E : Setting B} {sender : SpdkThread} {result : IoStatus → Proc B → Prop}
  {Q : α → Proc B → Prop} {s : Proc B}

/-- The submission loop of a full-stripe write, when no child reads a buffer late. -/
theorem wp_submitByValue {ios : List (Nat × Io)} {k : List Nat → Task α} (h : Inv E s)
    (hlate : E.held → E.children.late = false)
    (hr : ReqsOk E s.bufs (s.reqs ++ ios.map fun x => ⟨.store, x.1, x.2⟩))
    (hstore : ∀ r ∈ s.reqs, r.kind = .store)
    (hk : ∀ t, Inv E t → Adv s t → (t.reqs = s.reqs ++ ios.map fun x => ⟨.store, x.1, x.2⟩) →
      t.bufs = s.bufs → E.wp sender result (k (List.range' s.ios.length ios.length)) Q t) :
    E.wp sender result (submitByValue ios >>= k) Q s := by
  induction ios generalizing s k with
  | nil => exact hk s h (Adv.refl s) (by simp) rfl
  | cons x ios ih =>
    obtain ⟨d, io⟩ := x
    rw [submitByValue, Prog.bind_assoc']
    have hpre : s.reqs ++ [⟨.store, d, io⟩] <+:
        s.reqs ++ ((d, io) :: ios).map fun x => ⟨.store, x.1, x.2⟩ :=
      ⟨ios.map fun x => ⟨.store, x.1, x.2⟩, by simp⟩
    refine wp_submit h (hr.mono hpre) ⟨fun _ c x hx hne => absurd (hstore _ (reqs_mem hx)) hne,
      fun hne => absurd rfl hne⟩ fun t ht hadv htr htb => ?_
    have hlen : t.ios.length = s.ios.length + 1 := by
      rw [← length_reqs, htr, List.length_append, length_reqs, List.length_singleton]
    rw [Prog.bind_assoc']
    refine wp_drop ht (fun u _ hext => ?_) fun u hu hext => ?_
    · -- the `Io` goes while the write is out: only a child that reads it late would notice
      have hget : u.reqs[s.ios.length]? = some ⟨.store, d, io⟩ := by
        rw [hext.reqs, htr, ← length_reqs, List.getElem?_concat_length]
      rw [Proc.reqs, List.getElem?_map, Option.map_eq_some_iff] at hget
      obtain ⟨y, hy, hreq⟩ := hget
      refine ⟨y, hy, fun _ he hl => ?_, fun hne => absurd (by rw [hreq]) hne⟩
      rw [hlate he] at hl
      cases hl
    · rw [Prog.bind_assoc']
      have hlen' : u.ios.length = s.ios.length + 1 := by
        rw [← length_reqs, hext.reqs, length_reqs, hlen]
      refine ih hu ?_ ?_ fun v hv hadv' hvr hvb => ?_
      · rw [hext.bufs, htb, hext.reqs, htr, List.append_assoc]
        exact hr
      · intro r hr'
        rw [hext.reqs, htr] at hr'
        rcases List.mem_append.mp hr' with hr' | hr'
        · exact hstore r hr'
        · rw [List.mem_singleton.mp hr']
      · rw [hlen']
        refine hk v hv ((hadv.trans hext.adv).trans hadv') ?_ (by rw [hvb, hext.bufs, htb])
        rw [hvr, hext.reqs, htr, List.append_assoc]
        rfl

/-! ## The whole write -/

theorem encode_full (dev : Raid5Bdev) {k off : Nat} (flat data : Nat → B)
    (hoff : off = k * dev.stripeBlocks) {r : Nat} (hr : r < dev.stripBlocks) :
    dev.encode (overwrite flat off dev.stripeBlocks data) (dev.parityDiskIdx k)
      (k * dev.stripBlocks + r) =
      ((List.range (dev.diskCount - 1)).map fun i => data (i * dev.stripBlocks + r)).sum := by
  rw [encode_parity dev _ hr]
  refine (Finset.sum_congr rfl fun i hi => ?_).trans (Multiset.sum_coe _)
  rw [Raid5Bdev.logicalBlock, hoff]
  exact overwrite_in (dev.strip_in_stripe (Finset.mem_range.mp hi) hr)

/-- The child writes of a full-stripe write. -/
def Raid5Bdev.fullReqs (dev : Raid5Bdev) (k : Nat) (p : Io) : List ChildReq :=
  ((List.range' 0 dev.diskCount).map (dev.fullIo k p)).map fun x => ⟨.store, x.1, x.2⟩

omit [XorGroup B] in
theorem mem_fullReqs {dev : Raid5Bdev} {k : Nat} {p : Io} {r : ChildReq} :
    r ∈ dev.fullReqs k p ↔ ∃ d < dev.diskCount, r = ⟨.store, d, (dev.fullIo k p d).2⟩ := by
  simp only [Raid5Bdev.fullReqs, List.mem_map, List.mem_range'_1, Nat.zero_le, true_and,
    Nat.zero_add, exists_exists_and_eq_and]
  exact ⟨fun ⟨d, hd, he⟩ => ⟨d, hd, he.symm⟩, fun ⟨d, hd, he⟩ => ⟨d, hd, he.symm⟩⟩

omit [XorGroup B] in
theorem fullReqs_ok {p : Io} {b : Nat} (hb : 0 < b) (hp : p.mem < b)
    (hoff : p.offsetBlocks = E.stripe * E.dev.stripBlocks)
    (hnum : p.numBlocks = E.dev.stripBlocks) : ReqsOk E b (E.dev.fullReqs E.stripe p) := by
  refine ⟨fun r hr => ?_, fun r hr j hj => ?_, fun r hr => ?_, ?_, ?_⟩
  · obtain ⟨d, hd, rfl⟩ := mem_fullReqs.mp hr
    exact hd
  · obtain ⟨d, hd, rfl⟩ := mem_fullReqs.mp hr
    simp only [Raid5Bdev.fullIo] at hj ⊢
    split at hj
    · rw [if_pos (by assumption), hoff]
      exact row_div E.dev (hnum ▸ hj)
    · rw [if_neg (by assumption)]
      exact row_div E.dev hj
  · obtain ⟨d, hd, rfl⟩ := mem_fullReqs.mp hr
    simp only [Raid5Bdev.fullIo]
    split
    · exact hp
    · exact hb
  · refine List.Pairwise.imp_of_mem ?_ (List.pairwise_of_forall fun _ _ => trivial)
    intro r r' hr _ _ hk
    obtain ⟨d, _, rfl⟩ := mem_fullReqs.mp hr
    exact absurd rfl hk
  · refine List.pairwise_map.mpr (List.pairwise_map.mpr ?_)
    have hlt : (List.range' 0 E.dev.diskCount).Pairwise (· < ·) := List.pairwise_lt_range'
    exact List.Pairwise.imp (fun hlt _ _ => Nat.ne_of_lt hlt) hlt

omit [XorGroup B] in
/-- Every strip, and the parity, is written once. -/
theorem fullReqs_stores {strips : List Strip} {p : Io}
    (hstrips : strips = (List.range' 0 (E.dev.diskCount - 1)).map (E.dev.fullStrip E.stripe))
    (hoff : p.offsetBlocks = E.stripe * E.dev.stripBlocks)
    (hnum : p.numBlocks = E.dev.stripBlocks) : Stores E strips p (E.dev.fullReqs E.stripe p) := by
  have hmem : ∀ {y : Strip}, y ∈ strips ↔
      ∃ i < E.dev.diskCount - 1, y = E.dev.fullStrip E.stripe i := by
    intro y
    simp only [hstrips, List.mem_map, List.mem_range'_1, Nat.zero_le, true_and, Nat.zero_add]
    exact ⟨fun ⟨d, hd, he⟩ => ⟨d, hd, he.symm⟩, fun ⟨d, hd, he⟩ => ⟨d, hd, he.symm⟩⟩
  refine ⟨fun y hy => ?_, ?_, fun r hr _ => ?_, hoff, hnum⟩
  · obtain ⟨i, hi, rfl⟩ := hmem.mp hy
    refine mem_fullReqs.mpr ⟨dataDiskIdx i (E.dev.parityDiskIdx E.stripe), dataDiskIdx_lt hi, ?_⟩
    rw [Raid5Bdev.fullIo, if_neg (dataDiskIdx_ne _ _), stripOf_dataDiskIdx]
    rfl
  · refine mem_fullReqs.mpr ⟨E.dev.parityDiskIdx E.stripe, E.dev.parityDiskIdx_lt _, ?_⟩
    rw [Raid5Bdev.fullIo, if_pos rfl]
  · obtain ⟨d, hd, rfl⟩ := mem_fullReqs.mp hr
    by_cases hp : d = E.dev.parityDiskIdx E.stripe
    · left
      rw [Raid5Bdev.fullIo, if_pos hp, hp]
    · right
      refine ⟨_, hmem.mpr ⟨_, stripOf_lt hd (E.dev.parityDiskIdx_lt _) hp, rfl⟩, ?_⟩
      rw [Raid5Bdev.fullIo, if_neg hp, Raid5Bdev.fullStrip, dataDiskIdx_stripOf hp]

/-- **A full-stripe write**, when no child reads a buffer late. It completes once, and the
new contents are then in place on every disk that failed no write. -/
theorem wp_writeFullStripe {overflowChecks : Bool} {io : BdevIo} {data : Nat → B}
    (h : Inv E s) (hios : s.ios = []) (hc : s.completions = []) (hb : 0 < s.bufs)
    (hlate : E.held → E.children.late = false) (hk : E.dev.stripeIdx io.offsetBlocks = E.stripe)
    (hfull : E.dev.stripeOffset io.offsetBlocks = 0 ∧ io.numBlocks = E.dev.stripeBlocks)
    (hshift : E.ShiftOk overflowChecks)
    (hdata : ∀ j < io.numBlocks, s.mem 0 j = data j) :
    E.wp sender (E.WriteResult io data)
      (writeFullStripe E.dev overflowChecks sender io E.stripe)
      (fun _ t => E.End sender (overwrite E.flat io.offsetBlocks io.numBlocks data) t) s := by
  obtain ⟨strips, hsplit, hs, hstrips, hpairs⟩ := split_full E.dev hfull.1 hfull.2 hk
  have hreqs : s.reqs = [] := by rw [Proc.reqs, hios]; rfl
  have hall : s.AllDone := fun c hc => by simp [hios] at hc
  unfold writeFullStripe
  simp only [hsplit]
  refine wp_newZeroed h fun t1 h1 adv1 hr1 hb1 hz => ?_
  have hs1 := hall.adv adv1 hr1
  have hnil : t1.reqs = [] := hr1.trans hreqs
  have hmem1 : t1.mem 0 = s.mem 0 :=
    adv1.mem_eq hall (fun c r _ hr => by rw [hnil] at hr; cases hr) hb
  refine wp_xorAll h1 hs1 (by simp [hnil]) (fun i hi => ?_) fun t2 h2 calc2 hsum => ?_
  · rw [hstrips] at hi
    simp only [List.map_map, List.mem_map] at hi
    obtain ⟨d, _, rfl⟩ := hi
    exact ⟨rfl, hb.ne⟩
  have hs2 := calc2.allDone hs1
  have hnil2 : t2.reqs = [] := by rw [calc2.reqs, hnil]
  have hbufs2 : t2.bufs = s.bufs + 1 := by rw [calc2.bufs, hb1]
  obtain ⟨p, hp⟩ : ∃ p, p = Io.newBuf ⟨s.bufs, E.dev.stripBlocks⟩ (E.stripe * E.dev.stripBlocks) :=
    ⟨_, rfl⟩
  have hoff : p.offsetBlocks = E.stripe * E.dev.stripBlocks := by rw [hp]; rfl
  have hnum : p.numBlocks = E.dev.stripBlocks := by rw [hp]; rfl
  simp only [← hp, hpairs]
  have hpm : p.mem < t2.bufs := by
    rw [hbufs2, hp]
    exact Nat.lt_succ_self _
  refine wp_submitByValue h2 hlate ?_ (by simp [hnil2]) fun t3 h3 adv3 hr3 hb3 => ?_
  · rw [hnil2, List.nil_append]
    exact fullReqs_ok (by omega) hpm hoff hnum
  rw [hnil2, List.nil_append] at hr3
  have hreqs3 : t3.reqs = E.dev.fullReqs E.stripe p := hr3
  have hlen2 : t2.ios.length = 0 := by rw [← length_reqs, hnil2]; rfl
  have hlenf : (E.dev.fullReqs E.stripe p).length = E.dev.diskCount := by simp [Raid5Bdev.fullReqs]
  rw [hlen2, List.length_map, List.length_range']
  refine wp_awaitCount h3 List.length_range hshift (fun i d hd => ?_)
    fun t failed f ht ext3 haw hcnt => ?_
  · have hdisks : (E.dev.fullReqs E.stripe p).map (·.disk) = List.range E.dev.diskCount := by
      rw [Raid5Bdev.fullReqs, List.map_map, List.map_map, List.range_eq_range']
      exact List.map_id' _
    rw [hreqs3, Nat.zero_add, ← List.getElem?_map, hdisks, hd]
  have hreqst : t.reqs = E.dev.fullReqs E.stripe p := by rw [ext3.reqs, hreqs3]
  have hlent : t.ios.length = E.dev.diskCount := by rw [← length_reqs, hreqst, hlenf]
  have hst : t.AllDone := fun c hc =>
    haw.done (List.mem_range'_1.mpr ⟨Nat.zero_le c, by omega⟩)
  have hmem : ∀ {m : Nat}, m < t2.bufs → t.mem m = t2.mem m := by
    intro m hm
    refine (adv3.trans ext3.adv).mem_eq hs2 (fun c r _ hr => ?_) hm
    rw [hreqst] at hr
    obtain ⟨d, _, rfl⟩ := mem_fullReqs.mp (List.mem_of_getElem? hr)
    rfl
  refine wp_finishWrite ht hst ?_ hs (hreqst.symm ▸ fullReqs_stores hstrips hoff hnum) ?_ ?_
    List.length_range haw hcnt (fun c r hr _ => ?_) (hst.drops fun r hr => ?_)
  · rw [ext3.completions, adv3.completions, calc2.completions, adv1.completions, hc]
  · intro j hj
    rw [hmem (by omega), calc2.mem 0 hb.ne, hmem1, hdata j hj]
  · intro _ r hr
    have hoffk : io.offsetBlocks = E.stripe * E.dev.stripeBlocks := by
      have := Nat.div_add_mod' io.offsetBlocks E.dev.stripeBlocks
      have h0 := hfull.1
      unfold Raid5Bdev.stripeOffset at h0
      unfold Raid5Bdev.stripeIdx at hk
      rw [h0, hk] at this
      exact this.symm
    rw [hfull.2, encode_full E.dev E.flat data hoffk hr, hp]
    show t.mem s.bufs (0 + r) = _
    rw [hmem (by omega), Nat.zero_add, hsum r hr, hz, zero_add, hstrips, List.map_map, List.map_map,
      List.range_eq_range']
    refine congrArg List.sum (List.map_congr_left fun i hi => ?_)
    show t1.mem 0 (i * E.dev.stripBlocks + r) = _
    have hlt := E.dev.strip_in_stripe (by simpa using (List.mem_range'_1.mp hi).2) hr
    rw [hmem1, hdata _ (hfull.2 ▸ hlt)]
  · have hlt := (List.getElem?_eq_some_iff.mp hr).1
    rw [length_reqs, hlent] at hlt
    exact ⟨c, hlt, (Nat.zero_add c).symm⟩
  · obtain ⟨c, hc, rfl⟩ := List.mem_map.mp hr
    have := (List.mem_range'_1.mp hc).2
    exact ⟨c, by omega, Or.inl rfl⟩

end rules

end Ironspdk.Raid5
