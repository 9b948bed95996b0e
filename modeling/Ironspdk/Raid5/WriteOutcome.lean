import Ironspdk.Raid5.Degraded
import Ironspdk.Raid5.Outcome

/-! # How a write ends

The two write paths replayed on the statuses of their child I/Os. A partial write has four
exits before its child writes: too many failed reads, a reconstruction that fails, or a
panic; then, like a full-stripe write, it awaits all its child writes and counts those that
failed. -/
namespace Ironspdk.Raid5
open Ironspdk.Lib Ironspdk.Runtime

variable {B : Type} {α : Type}

/-! ## The child writes -/

/-- The end of a write whose child writes `rs` have been submitted on top of `l`. -/
inductive WritePhase (overflowChecks : Bool) (sender : SpdkThread) (ok : Nat → Bool) (l : Ledger)
    (rs : List ChildReq) (failed : List Nat) : Option Unit × Ledger → Prop
  | overflow : Overflows overflowChecks failed →
      WritePhase overflowChecks sender ok l rs failed (none, { l with reqs := l.reqs ++ rs })
  | completed : ¬ Overflows overflowChecks failed →
      WritePhase overflowChecks sender ok l rs failed (some (),
        { l with reqs := l.reqs ++ rs
                 completions := l.completions ++
                   [(sender, if failed = [] then .success else .failure)] })

section replay
variable {ok : Nat → Bool} {l : Ledger} {overflowChecks : Bool} {sender : SpdkThread}
  {dev : Raid5Bdev} {k : Nat}

theorem replay_writePhase {rs : List ChildReq} {disks : List Nat} {drops : List Resource}
    (hdisks : disks = rs.map (·.disk)) :
    WritePhase overflowChecks sender ok l rs
      (failing ok ((rs.map (·.disk)).zip (List.range' l.reqs.length rs.length)))
      ((awaitEach (countFailure overflowChecks) (disks.zip (List.range' l.reqs.length rs.length)) {}
        >>= fun f => completeWrite sender f >>= fun _ => dropAll drops).replay (answer ok)
          { l with reqs := l.reqs ++ rs }) := by
  subst hdisks
  have hfuts : ∀ f ∈ (rs.map (·.disk)).zip (List.range' l.reqs.length rs.length),
      f.2 < (l.reqs ++ rs).length := by
    intro f hf
    have := (List.mem_range'_1.mp (List.of_mem_zip hf).2).2
    rwa [List.length_append]
  have hcounts : Counts [] {} := ⟨rfl, rfl⟩
  rcases replay_awaitCount (l := { l with reqs := l.reqs ++ rs }) hfuts hcounts with
    ⟨hover, heq⟩ | ⟨hover, g, hg, heq⟩
  · rw [heq]
    exact .overflow hover
  · rw [heq, replay_completeWrite hg, ← Prog.bind_pure' (dropAll drops), replay_dropAll,
      Prog.replay_pure, List.nil_append]
    exact .completed hover

theorem fullReqs_disks {p : Io} :
    (dev.fullReqs k p).map (·.disk) = List.range dev.diskCount := by
  rw [Raid5Bdev.fullReqs, List.map_map, List.map_map, List.range_eq_range']
  exact List.map_id' _

theorem length_fullReqs {p : Io} : (dev.fullReqs k p).length = dev.diskCount := by
  simp [Raid5Bdev.fullReqs]

/-- A full-stripe write. -/
theorem replay_writeFullStripe {io : BdevIo} (hoff : dev.stripeOffset io.offsetBlocks = 0)
    (hnum : io.numBlocks = dev.stripeBlocks) (hk : dev.stripeIdx io.offsetBlocks = k)
    (hl : l.reqs = []) :
    ∃ p : Io, WritePhase overflowChecks sender ok { l with bufs := l.bufs + 1 } (dev.fullReqs k p)
      (failing ok (((dev.fullReqs k p).map (·.disk)).zip
        (List.range' 0 (dev.fullReqs k p).length)))
      ((writeFullStripe dev overflowChecks sender io k).replay (answer ok) l) := by
  obtain ⟨strips, hsplit, _, hstrips, hpairs⟩ := split_full dev hoff hnum hk
  refine ⟨Io.newBuf ⟨l.bufs, dev.stripBlocks⟩ (k * dev.stripBlocks), ?_⟩
  unfold writeFullStripe
  simp only [hsplit, replay_newZeroed]
  rw [replay_xorAll, hpairs]
  · simp only
    rw [replay_submitByValue, List.length_map, List.length_range', hl, List.length_nil]
    have hphase := @replay_writePhase ok { l with bufs := l.bufs + 1 } overflowChecks sender
      (dev.fullReqs k (Io.newBuf ⟨l.bufs, dev.stripBlocks⟩ (k * dev.stripBlocks))) _
      ((List.range' 0 dev.diskCount).map .ctx) fullReqs_disks.symm
    rw [hl, length_fullReqs, List.length_nil] at hphase
    rw [length_fullReqs]
    exact hphase
  · intro io hio
    rw [hstrips] at hio
    simp only [List.map_map, List.mem_map] at hio
    obtain ⟨d, _, rfl⟩ := hio
    rfl

/-- The child writes of a partial write, the parity last. -/
def Raid5Bdev.partialReqs (dev : Raid5Bdev) (k : Nat) (strips : List Strip) (p : Io) :
    List ChildReq :=
  (strips.map fun s => ⟨.store, s.disk, s.io⟩) ++ [⟨.store, dev.parityDiskIdx k, p⟩]

theorem partialReqs_ne_nil {strips : List Strip} {p : Io} : dev.partialReqs k strips p ≠ [] := by
  simp [Raid5Bdev.partialReqs]

theorem store_of_mem_partialReqs {strips : List Strip} {p : Io} {r : ChildReq}
    (h : r ∈ dev.partialReqs k strips p) : r.kind = .store := by
  rcases List.mem_append.mp h with h | h
  · obtain ⟨s, _, rfl⟩ := List.mem_map.mp h
    rfl
  · rw [List.mem_singleton.mp h]

/-- Phases 2 and 3 of a partial write. -/
theorem replay_writeBack {strips : List Strip} {olds : List Io} {par : Io} {cs held : List Nat}
    (hpar : par.numBlocks = dev.stripBlocks)
    (hsegs : ∀ x ∈ strips.zip olds, x.1.offsetInStrip + x.1.blocks ≤ dev.stripBlocks ∧
      x.2.numBlocks = x.1.blocks ∧ x.1.io.numBlocks = x.1.blocks) :
    ∃ p : Io, p.offsetBlocks = k * dev.stripBlocks ∧ p.numBlocks = dev.stripBlocks ∧
      WritePhase overflowChecks sender ok { l with bufs := l.bufs + 1 }
        (dev.partialReqs k strips p)
        (failing ok (((dev.partialReqs k strips p).map (·.disk)).zip
          (List.range' l.reqs.length (dev.partialReqs k strips p).length)))
        ((writeBack dev overflowChecks sender k strips olds par cs held).replay (answer ok) l) := by
  refine ⟨Io.newBuf ⟨l.bufs, dev.stripBlocks⟩ (k * dev.stripBlocks), rfl, rfl, ?_⟩
  unfold writeBack
  simp only [replay_newZeroed]
  rw [replay_xor (Nat.zero_add _).le hpar, replay_xorStrips hsegs, replay_submitAll]
  refine replay_writePhase (l := { l with bufs := l.bufs + 1 }) ?_
  simp [Raid5Bdev.partialReqs]

/-! ## The four exits of the read phase -/

/-- The child reads of phase 1. -/
structure FirstReads (dev : Raid5Bdev) (k : Nat) (strips : List Strip) (rs : List ChildReq) :
    Prop where
  kind : ∀ r ∈ rs, r.kind = .fetch
  disks : rs.map (·.disk) = strips.map (·.disk) ++ [dev.parityDiskIdx k]

theorem FirstReads.length {strips : List Strip} {rs : List ChildReq}
    (h : FirstReads dev k strips rs) : rs.length = strips.length + 1 := by
  rw [← List.length_map (·.disk), h.disks]
  simp

theorem oldReqs_firstReads {strips : List Strip} {olds : List Io} {par : Io}
    (hlen : olds.length = strips.length) :
    FirstReads dev k strips (oldReqs dev k strips olds par) := by
  refine ⟨fun r hr => ?_, ?_⟩
  · rcases List.mem_append.mp hr with hr | hr
    · obtain ⟨i, hi⟩ := List.mem_iff_getElem?.mp hr
      rw [List.getElem?_zipWith] at hi
      split at hi
      · cases hi
        rfl
      · cases hi
    · rw [List.mem_singleton.mp hr]
  · rw [oldReqs, List.map_append, List.map_zipWith]
    exact congrArg (· ++ _) (zipWith_left hlen.symm fun _ _ => rfl)

/-- The disks of the first-phase reads that fail. -/
def Raid5Bdev.readFailures (dev : Raid5Bdev) (k : Nat) (strips : List Strip) (ok : Nat → Bool) :
    List Nat :=
  failing ok ((strips.map (·.disk) ++ [dev.parityDiskIdx k]).zip
    (List.range' 0 (strips.length + 1)))

/-- The child reads of a reconstruction. -/
structure RebuildReads (dev : Raid5Bdev) (rs : List ChildReq) : Prop where
  kind : ∀ r ∈ rs, r.kind = .rebuild
  length : rs.length = dev.diskCount - 1

/-- How a partial write ends: the exits of phase 1, and the child writes. -/
inductive PartialWrite (dev : Raid5Bdev) (k : Nat) (overflowChecks : Bool) (sender : SpdkThread)
    (ok : Nat → Bool) (strips : List Strip) : Option Unit × Ledger → Prop
  | overflow {bufs : Nat} {rs : List ChildReq} : FirstReads dev k strips rs →
      Overflows overflowChecks (dev.readFailures k strips ok) →
      PartialWrite dev k overflowChecks sender ok strips (none, ⟨bufs, rs, []⟩)
  | twoFailed {bufs : Nat} {rs : List ChildReq} : FirstReads dev k strips rs →
      ¬ Overflows overflowChecks (dev.readFailures k strips ok) →
      2 ≤ (dev.readFailures k strips ok).length →
      PartialWrite dev k overflowChecks sender ok strips
        (some (), ⟨bufs, rs, [(sender, .failure)]⟩)
  | notRebuilt {bufs : Nat} {rs rs' : List ChildReq} : FirstReads dev k strips rs →
      RebuildReads dev rs' → ¬ Overflows overflowChecks (dev.readFailures k strips ok) →
      (dev.readFailures k strips ok).length = 1 →
      ¬ (List.range' rs.length rs'.length).all ok →
      PartialWrite dev k overflowChecks sender ok strips
        (some (), ⟨bufs, rs ++ rs', [(sender, .failure)]⟩)
  | written {bufs : Nat} {rs rs' : List ChildReq} {p : Io} {r : Option Unit × Ledger} :
      FirstReads dev k strips rs → ¬ Overflows overflowChecks (dev.readFailures k strips ok) →
      (dev.readFailures k strips ok = [] ∧ rs' = [] ∨ (dev.readFailures k strips ok).length = 1 ∧
        RebuildReads dev rs' ∧ (List.range' rs.length rs'.length).all ok) →
      p.offsetBlocks = k * dev.stripBlocks → p.numBlocks = dev.stripBlocks →
      WritePhase overflowChecks sender ok ⟨bufs, rs ++ rs', []⟩ (dev.partialReqs k strips p)
        (failing ok (((dev.partialReqs k strips p).map (·.disk)).zip
          (List.range' (rs ++ rs').length (dev.partialReqs k strips p).length))) r →
      PartialWrite dev k overflowChecks sender ok strips r

/-- What is read after the first reads is read for a reconstruction. -/
theorem rebuild_of_exit {strips : List Strip} {rs rs' : List ChildReq}
    (hexit : dev.readFailures k strips ok = [] ∧ rs' = [] ∨
      (dev.readFailures k strips ok).length = 1 ∧ RebuildReads dev rs' ∧
        (List.range' rs.length rs'.length).all ok) : ∀ x ∈ rs', x.kind = .rebuild := by
  rcases hexit with ⟨_, rfl⟩ | ⟨_, h, _⟩
  · exact List.forall_mem_nil _
  · exact h.kind

theorem rebuildReads {skip off blocks b : Nat} (hskip : skip < dev.diskCount) :
    RebuildReads dev (rebuildReqs dev.diskCount skip off
      (numbered b (List.replicate (dev.diskCount - 1) blocks))) := by
  refine ⟨fun r hr => (rebuildReqs_mem hr).1, ?_⟩
  rw [← List.length_map (·.disk), rebuildReqs_disk hskip, length_others hskip]

/-- The end of a request: it is completed, then its values are dropped. -/
theorem replay_finish {status : IoStatus} {drops : List Resource} :
    (completeOn sender status >>= fun _ => dropAll drops).replay (answer ok) l =
      (some (), { l with completions := l.completions ++ [(sender, status)] }) := by
  refine (Prog.replay_perform rfl).trans ?_
  rw [← Prog.bind_pure' (dropAll drops), replay_dropAll, Prog.replay_pure]

/-- A reconstruction, with what is done with the buffer it returns. -/
theorem replay_recover {strips : List Strip} {rs : List ChildReq} {bufs skip off blocks : Nat}
    {resume : DmaBuf → Task Unit} {drops : List Resource} (hskip : skip < dev.diskCount)
    (hreads : FirstReads dev k strips rs)
    (hover : ¬ Overflows overflowChecks (dev.readFailures k strips ok))
    (hone : (dev.readFailures k strips ok).length = 1)
    (hresume : ∀ bufs' buf rs', RebuildReads dev rs' →
      (List.range' rs.length rs'.length).all ok → buf.blocks = blocks →
      PartialWrite dev k overflowChecks sender ok strips
        ((resume buf).replay (answer ok) ⟨bufs', rs ++ rs', []⟩)) :
    PartialWrite dev k overflowChecks sender ok strips
      ((reconstruct dev skip off blocks >>= fun x => match x with
        | some buf => resume buf
        | none => completeOn sender .failure >>= fun _ => dropAll drops).replay
          (answer ok) ⟨bufs, rs, []⟩) := by
  have hrebuild := @rebuildReads dev skip off blocks bufs hskip
  obtain ⟨bufs', heq⟩ := @replay_reconstruct _ ok ⟨bufs, rs, []⟩ dev skip off blocks hskip
    fun x => match x with
      | some buf => resume buf
      | none => completeOn sender .failure >>= fun _ => dropAll drops
  refine heq ▸ ?_
  by_cases hall : (List.range' rs.length (dev.diskCount - 1)).all ok
  · rw [if_pos hall]
    exact hresume bufs' _ _ hrebuild (by rwa [hrebuild.length]) rfl
  · rw [if_neg hall]
    simp only [replay_finish]
    exact .notRebuilt hreads hrebuild hover hone (by rwa [hrebuild.length])

/-- The branch for one failed read: what is reconstructed takes its place. -/
theorem replay_writeReconstructed {io : BdevIo} {strips : List Strip} {rs : List ChildReq}
    {olds : List Io} {par : Io} {cs : List Nat} {failed bufs : Nat}
    (hsplit : Split dev k io strips) (hreads : FirstReads dev k strips rs)
    (holds : ∀ x ∈ strips.zip olds, x.2.numBlocks = x.1.blocks)
    (hpar : par.numBlocks = dev.stripBlocks) (hfailed : dev.readFailures k strips ok = [failed])
    (hover : ¬ Overflows overflowChecks (dev.readFailures k strips ok)) :
    PartialWrite dev k overflowChecks sender ok strips
      ((writeReconstructed dev overflowChecks sender k strips olds par cs failed).replay
        (answer ok) ⟨bufs, rs, []⟩) := by
  have hone : (dev.readFailures k strips ok).length = 1 := by rw [hfailed]; rfl
  -- the write phase, on what was read and reconstructed
  have hphase : ∀ {olds' : List Io} {par' : Io} {held : List Nat} {bufs' : Nat}
      {rs' : List ChildReq}, (∀ x ∈ strips.zip olds', x.2.numBlocks = x.1.blocks) →
      par'.numBlocks = dev.stripBlocks → RebuildReads dev rs' →
      (List.range' rs.length rs'.length).all ok →
      PartialWrite dev k overflowChecks sender ok strips
        ((writeBack dev overflowChecks sender k strips olds' par' cs held).replay (answer ok)
          ⟨bufs', rs ++ rs', []⟩) := by
    intro olds' par' held bufs' rs' holds' hpar' hrebuild hall
    obtain ⟨p, hoff, hnum, hphase⟩ := @replay_writeBack ok ⟨bufs', rs ++ rs', []⟩ overflowChecks
      sender dev k strips olds' par' cs held hpar' fun x hx => by
        have hfor := hsplit.all_for x.1 (List.of_mem_zip hx).1
        exact ⟨hfor.inStrip, holds' x hx, hfor.numBlocks_eq⟩
    exact .written hreads hover (Or.inr ⟨hone, hrebuild, hall⟩) hoff hnum hphase
  have hmem : failed ∈ strips.map (·.disk) ++ [dev.parityDiskIdx k] := by
    have hin : failed ∈ dev.readFailures k strips ok := by rw [hfailed]; exact List.mem_cons_self
    obtain ⟨f, hf, rfl⟩ := List.mem_map.mp hin
    exact (List.of_mem_zip (List.mem_filter.mp hf).1).1
  unfold writeReconstructed
  split
  · rename_i hp
    refine replay_recover (hp ▸ dev.parityDiskIdx_lt k) hreads hover hone
      fun bufs' buf rs' hrebuild hall hblocks => ?_
    rw [replay_dropAll]
    exact hphase holds hblocks hrebuild hall
  · rename_i hp
    -- a data strip: it is found among the strips
    have hstrip : failed ∈ strips.map (·.disk) :=
      (List.mem_append.mp hmem).resolve_right fun h => hp (List.mem_singleton.mp h)
    obtain ⟨s', hs', hd'⟩ := List.mem_map.mp hstrip
    cases hfind : strips.findIdx? (·.disk = failed) with
    | none =>
      have hno := List.findIdx?_eq_none_iff.mp hfind s' hs'
      simp [hd'] at hno
    | some i =>
      obtain ⟨hi, hdisk, _⟩ := List.findIdx?_eq_some_iff_getElem.mp hfind
      have hx : strips[i]? = some strips[i] := List.getElem?_eq_getElem hi
      have hfor := hsplit.all_for _ (List.getElem_mem hi)
      simp only [hx]
      have hdisk' : strips[i].disk = failed := by simpa using hdisk
      refine replay_recover (hdisk' ▸ hfor.disk_lt) hreads hover hone
        fun bufs' buf rs' hrebuild hall hblocks => ?_
      rw [replay_dropAll]
      refine hphase (fun x hmem => ?_) hpar hrebuild hall
      obtain ⟨j, hj⟩ := List.mem_iff_getElem?.mp hmem
      obtain ⟨hj1, hj2⟩ := List.getElem?_zip_eq_some.mp hj
      by_cases hij : i = j
      · subst hij
        have hlt := (List.getElem?_eq_some_iff.mp hj2).1
        rw [List.length_set] at hlt
        rw [List.getElem?_set_self hlt] at hj2
        rw [← Option.some.inj hj2, ← Option.some.inj (hx.symm.trans hj1)]
        exact hblocks
      · rw [List.getElem?_set_ne hij] at hj2
        exact holds x (List.mem_of_getElem? (List.getElem?_zip_eq_some.mpr ⟨hj1, hj2⟩))

/-- **How a partial write ends.** -/
theorem replay_writePartialStripe {io : BdevIo} (hk : dev.stripeIdx io.offsetBlocks = k)
    (hfit : ¬ dev.crossesStripe io) (hl : l.reqs = []) (hc : l.completions = []) :
    ∃ strips, splitStrips (Io.fromBdevIo io) (k * dev.stripBlocks) dev.stripBlocks
        (dev.stripeOffset io.offsetBlocks) io.numBlocks (dev.parityDiskIdx k) = some strips ∧
      Split dev k io strips ∧
      PartialWrite dev k overflowChecks sender ok strips
        ((writePartialStripe dev overflowChecks sender io k).replay (answer ok) l) := by
  obtain ⟨strips, hstrips, hsplit⟩ := split_request dev hfit
  rw [hk] at hstrips hsplit
  refine ⟨strips, hstrips, hsplit, ?_⟩
  unfold writePartialStripe
  simp only [hstrips, replay_newBufs, replay_new, replay_submitAll, List.length_map, hl, hc]
  obtain ⟨olds, holds⟩ : ∃ olds, olds = List.zipWith (fun (s : Strip) c =>
    Io.newBuf c (k * dev.stripBlocks + s.offsetInStrip)) strips
      (numbered l.bufs (strips.map (·.blocks))) := ⟨_, rfl⟩
  obtain ⟨par, hpar⟩ : ∃ par, par = Io.newBuf ⟨l.bufs + strips.length, dev.stripBlocks⟩
    (k * dev.stripBlocks) := ⟨_, rfl⟩
  have hlen : olds.length = strips.length := by
    rw [holds, List.length_zipWith, length_numbered, List.length_map, Nat.min_self]
  have hblocks : ∀ x ∈ strips.zip olds, x.2.numBlocks = x.1.blocks := by
    intro x hx
    obtain ⟨i, hi⟩ := List.mem_iff_getElem?.mp hx
    obtain ⟨hx1, hx2⟩ := List.getElem?_zip_eq_some.mp hi
    rw [holds] at hx2
    rw [oldIos_get hx1 hx2]
    rfl
  have hparBlocks : par.numBlocks = dev.stripBlocks := by rw [hpar]; rfl
  rw [← holds, ← hpar]
  have hreads := @oldReqs_firstReads dev k strips olds par hlen
  rw [List.nil_append, List.length_nil, hreads.length]
  obtain ⟨rs, hrs⟩ : ∃ rs, rs = oldReqs dev k strips olds par := ⟨_, rfl⟩
  rw [← hrs] at hreads ⊢
  have hfuts : ∀ f ∈ (strips.map (·.disk) ++ [dev.parityDiskIdx k]).zip
      (List.range' 0 (strips.length + 1)), f.2 < rs.length := by
    intro f hf
    have := (List.mem_range'_1.mp (List.of_mem_zip hf).2).2
    rw [hreads.length]
    omega
  have hcounts : Counts [] {} := ⟨rfl, rfl⟩
  rcases replay_awaitCount (l := ⟨l.bufs + strips.length + 1, rs, []⟩) hfuts hcounts with
    ⟨hover, heq⟩ | ⟨hover, f, hf, heq⟩
  · rw [heq]
    exact .overflow hreads hover
  · rw [heq]
    have hfailed : failing ok ((strips.map (·.disk) ++ [dev.parityDiskIdx k]).zip
      (List.range' 0 (strips.length + 1))) = dev.readFailures k strips ok := rfl
    rw [hfailed] at hover
    rw [hfailed, List.nil_append] at hf
    split
    · rename_i htwo
      rw [replay_completeWrite hf, ← Prog.bind_pure' (dropAll _), replay_dropAll, Prog.replay_pure]
      rw [hf.nfailures] at htwo
      rw [if_neg (fun h => by rw [h] at htwo; simp at htwo)]
      exact .twoFailed hreads hover htwo
    · split
      · rename_i hone
        obtain ⟨d, hd⟩ := List.length_eq_one_iff.mp (hf.nfailures ▸ hone)
        rw [hf.last, hd]
        exact replay_writeReconstructed hsplit hreads hblocks hparBlocks hd hover
      · have hnil : dev.readFailures k strips ok = [] := by
          rw [← List.length_eq_zero_iff, ← hf.nfailures]
          omega
        obtain ⟨p, hoff, hnum, hphase⟩ := @replay_writeBack ok
          ⟨l.bufs + strips.length + 1, rs ++ [], []⟩ overflowChecks sender dev k strips olds par
          (List.range' 0 (strips.length + 1)) (List.range' 0 (strips.length + 1)) hparBlocks
          fun x hx => by
            have hfor := hsplit.all_for x.1 (List.of_mem_zip hx).1
            exact ⟨hfor.inStrip, hblocks x hx, hfor.numBlocks_eq⟩
        have hwritten := PartialWrite.written hreads hover (Or.inl ⟨hnil, rfl⟩) hoff hnum hphase
        rwa [List.append_nil] at hwritten

end replay

/-! ## Child reads at rest -/

section reads
variable {dev : Raid5Bdev} {k : Nat} {strips : List Strip} {s : Proc B}
  {rs rest : List ChildReq}

theorem FirstReads.not_store (h : FirstReads dev k strips rs) {r : ChildReq} (hr : r ∈ rs) :
    r.kind ≠ .store := by
  rw [h.kind r hr]
  exact Kind.fetch_ne_store

theorem RebuildReads.not_store (h : RebuildReads dev rs) {r : ChildReq} (hr : r ∈ rs) :
    r.kind ≠ .store := by
  rw [h.kind r hr]
  exact Kind.rebuild_ne_store

/-- At rest, the failures of the first reads. -/
theorem FirstReads.ended (h : FirstReads dev k strips rs) (hall : s.AllDone)
    (hreqs : s.reqs = rs ++ rest) (hrest : ∀ r ∈ rest, r.kind ≠ .fetch) :
    s.ended .fetch false = dev.readFailures k strips s.ok := by
  have hbatch : s.reqs = [] ++ rs ++ rest := hreqs
  rw [ended_eq_failing hall hbatch (List.forall_mem_nil _) h.kind hrest, h.disks, h.length]
  rfl

/-- At rest, the failures of a reconstruction. -/
theorem RebuildReads.ended (h : RebuildReads dev rs) (hall : s.AllDone) {pre : List ChildReq}
    (hreqs : s.reqs = pre ++ rs ++ rest) (hpre : ∀ r ∈ pre, r.kind ≠ .rebuild)
    (hrest : ∀ r ∈ rest, r.kind ≠ .rebuild) :
    s.ended .rebuild false = [] ↔ (List.range' pre.length rs.length).all s.ok := by
  rw [ended_eq_failing hall hreqs hpre h.kind hrest]
  refine failing_eq_nil ?_
  rw [List.length_map, List.length_range']

end reads

/-! ## The failure policy -/

/-- The status of a write, by the disks that failed a child write, as the comment at
`complete_write` has it. -/
def documentedStatus (parityDiskIdx : Nat) : List Nat → IoStatus
  | [] => .success
  | [d] => if d = parityDiskIdx then .failure else .success
  | _ => .failure

theorem documentedStatus_iff (parityDiskIdx : Nat) (failed : List Nat) :
    documentedStatus parityDiskIdx failed = (if failed = [] then .success else .failure) ↔
      ∀ d, failed = [d] → d = parityDiskIdx := by
  match failed with
  | [] => simp [documentedStatus]
  | [d] =>
    by_cases h : d = parityDiskIdx
    · simp [documentedStatus, h]
    · simp [documentedStatus, h]
  | _ :: _ :: _ => simp [documentedStatus]

section rest
variable {ok : Nat → Bool} {l : Ledger} {overflowChecks : Bool} {sender : SpdkThread}
  {dev : Raid5Bdev} {k : Nat} {rs : List ChildReq} {failed : List Nat}
  {r : Option Unit × Ledger}

theorem WritePhase.reqs (h : WritePhase overflowChecks sender ok l rs failed r) :
    r.2.reqs = l.reqs ++ rs := by
  cases h <;> rfl

theorem WritePhase.policy (h : WritePhase overflowChecks sender ok l rs failed r)
    (hl : l.completions = []) (parityDiskIdx : Nat) :
    r.2.completions = [(sender, documentedStatus parityDiskIdx failed)] ↔
      ¬ Overflows overflowChecks failed ∧ ∀ d, failed = [d] → d = parityDiskIdx := by
  cases h with
  | overflow hover => simp [hl, hover]
  | completed hover =>
    rw [← documentedStatus_iff]
    simp only [hl, List.nil_append, List.cons.injEq, Prod.mk.injEq, true_and, and_true, hover,
      not_false_eq_true]
    exact eq_comm

/-- The disks of which a child write has failed, when all have ended. -/
theorem WritePhase.ended {s : Proc B} (hall : s.AllDone)
    (h : WritePhase overflowChecks sender s.ok l rs
      (failing s.ok ((rs.map (·.disk)).zip (List.range' l.reqs.length rs.length))) r)
    (hr : r.2 = s.ledger) (hl : ∀ x ∈ l.reqs, x.kind ≠ .store) (hrs : ∀ x ∈ rs, x.kind = .store) :
    s.ended .store false =
      failing s.ok ((rs.map (·.disk)).zip (List.range' l.reqs.length rs.length)) := by
  have hreqs : s.reqs = l.reqs ++ rs ++ [] := by
    rw [List.append_nil, ← h.reqs, hr]
    rfl
  exact ended_eq_failing hall hreqs hl hrs (List.forall_mem_nil _)

/-- The write phase decides by the disks that have failed it. -/
theorem WritePhase.policy_rest {s : Proc B} (hall : s.AllDone)
    (h : WritePhase overflowChecks sender s.ok l rs
      (failing s.ok ((rs.map (·.disk)).zip (List.range' l.reqs.length rs.length))) r)
    (hr : r.2 = s.ledger) (hl : ∀ x ∈ l.reqs, x.kind ≠ .store) (hrs : ∀ x ∈ rs, x.kind = .store)
    (hc : l.completions = []) (parityDiskIdx : Nat) :
    s.completions = [(sender, documentedStatus parityDiskIdx (s.ended .store false))] ↔
      (overflowChecks = true → ∀ d ∈ s.ended .store false, d < 64) ∧
        ∀ d, s.ended .store false = [d] → d = parityDiskIdx := by
  rw [h.ended hall hr hl hrs, ← not_overflows_iff, ← h.policy hc, hr]
  rfl

end rest

/-- **Which failures a write reports.** Children may fail any child I/O. Every schedule of a
write inside a stripe stops; at rest, if the write has come to its child writes, it has been
completed as the comment at `complete_write` says, if and only if the one failed disk is the
parity disk where just one has failed, and no failed disk is past the failure mask of a build
with overflow checks. -/
theorem write_policy_iff [XorGroup B] (dev : Raid5Bdev) (overflowChecks : Bool)
    (sender : SpdkThread) (io : BdevIo) (hfit : ¬ dev.crossesStripe io) (late : Bool)
    (mem disks : Nat → Nat → B) (es : List (Event B)) (u : Running B)
    (hrun : run (Running.next dev (.any late) (dev.stripeIdx io.offsetBlocks))
      (write dev overflowChecks sender io (dev.stripeIdx io.offsetBlocks),
        Proc.start mem disks) es = some u) :
    Stops (Running.next dev (.any late) (dev.stripeIdx io.offsetBlocks)) Event.Inner u ∧
    (u.AtRest dev (.any late) (dev.stripeIdx io.offsetBlocks) →
      (∃ r ∈ u.2.reqs, r.kind = .store) →
      (u.2.completions = [(sender, documentedStatus
          (dev.parityDiskIdx (dev.stripeIdx io.offsetBlocks)) (u.2.ended .store false))] ↔
        (overflowChecks = true → ∀ d ∈ u.2.ended .store false, d < 64) ∧
          ∀ d, u.2.ended .store false = [d] →
            d = dev.parityDiskIdx (dev.stripeIdx io.offsetBlocks))) := by
  refine ⟨Running.stops u, fun hrest hphase => ?_⟩
  have hall := hrest.allDone fun x => Or.inl rfl
  have hledger := (hrest.replay (fun x => Or.inl rfl) hrun).1
  have hstart : (Proc.start mem disks).ledger = ⟨1, [], []⟩ := rfl
  rw [hstart] at hledger
  -- a write that stops in its read phase has submitted no child write
  have hno : ∀ {rs : List ChildReq}, u.2.reqs = rs → (∀ r ∈ rs, r.kind ≠ .store) → False := by
    intro rs hrs hkind
    obtain ⟨r, hr, hk⟩ := hphase
    exact hkind r (hrs ▸ hr) hk
  unfold write at hledger
  split at hledger
  · rename_i hfull
    obtain ⟨p, hwrite⟩ := @replay_writeFullStripe u.2.ok ⟨1, [], []⟩ overflowChecks sender dev
      (dev.stripeIdx io.offsetBlocks) io hfull.1 hfull.2 rfl rfl
    refine hwrite.policy_rest hall hledger (List.forall_mem_nil _) (fun r hr => ?_) rfl _
    obtain ⟨d, _, rfl⟩ := mem_fullReqs.mp hr
    rfl
  · obtain ⟨strips, _, _, hwrite⟩ := @replay_writePartialStripe u.2.ok ⟨1, [], []⟩ overflowChecks
      sender dev (dev.stripeIdx io.offsetBlocks) io rfl hfit rfl rfl
    generalize Prog.replay (answer u.2.ok) _ _ = r at hledger hwrite
    cases hwrite with
    | overflow hreads | twoFailed hreads =>
      exact (hno (congrArg Ledger.reqs hledger).symm fun r hr => hreads.not_store hr).elim
    | notRebuilt hreads hrs' =>
      refine (hno (congrArg Ledger.reqs hledger).symm fun r hr => ?_).elim
      exact (List.mem_append.mp hr).elim hreads.not_store hrs'.not_store
    | written hreads _ hexit _ _ hwrite =>
      refine hwrite.policy_rest hall hledger (fun r hr => ?_)
        (fun r hr => store_of_mem_partialReqs hr) rfl _
      rcases List.mem_append.mp hr with hr | hr
      · exact hreads.not_store hr
      · rcases hexit with ⟨_, rfl⟩ | ⟨_, hrs', _⟩
        · cases hr
        · exact hrs'.not_store hr

/-- A full-stripe write of the small array of which the child write to disk `d` fails. -/
def oneFailedWrite (d : Nat) : List (Event Byte) :=
  List.replicate 9 .step ++ [.child (.fail d 0)] ++
    ((List.range 3).filter (· ≠ d)).flatMap
      (fun c => [.child (.apply c 0), .child (.finish c)]) ++
    List.replicate 7 .step

/-- Its end: whether it is at rest, how it was completed, and the disks that failed it. -/
def writeEnd (c : Running Byte) : Bool × List (SpdkThread × IoStatus) × List Nat :=
  (c.over, c.2.completions, c.2.ended .store false)

/-- The parity write fails. -/
theorem write_policy_iff_parityFailed :
    ∃ u, run (Running.next smallArray (.any false) 0)
      (write smallArray true 7 ⟨.write, 0, 4⟩ 0, Proc.start 0 0) (oneFailedWrite 0) = some u ∧
      u.2.completions = [(7, documentedStatus 0 (u.2.ended .store false))] := by
  have hrun : (run (Running.next smallArray (.any false) 0)
      (write smallArray true 7 ⟨.write, 0, 4⟩ 0, Proc.start 0 0) (oneFailedWrite 0)).map writeEnd =
      some (true, [(7, .failure)], [0]) := by decide
  obtain ⟨u, hu, hend⟩ := Option.map_eq_some_iff.mp hrun
  obtain ⟨hover, hcompleted, hfailed⟩ : u.over = true ∧ u.2.completions = [(7, .failure)] ∧
      u.2.ended .store false = [0] := by
    simpa [writeEnd] using hend
  refine ⟨u, hu, ((write_policy_iff smallArray true 7 ⟨.write, 0, 4⟩ (by decide) false 0 0
    (oneFailedWrite 0) u hu).2 (Running.atRest_of_over hover) ?_).mpr ⟨?_, ?_⟩⟩
  · exact exists_of_ended (d := 0) (by rw [hfailed]; simp)
  · rw [hfailed]
    simp
  · intro d hd
    obtain ⟨rfl, _⟩ := List.cons.inj (hfailed.symm.trans hd)
    rfl

/-- A data write fails: the write is reported as a failure, not as a degraded success. -/
theorem data_failure_not_success : ¬ ∀ (io : BdevIo), ¬ smallArray.crossesStripe io →
    ∀ (es : List (Event Byte)) (u : Running Byte),
    run (Running.next smallArray (.any false) (smallArray.stripeIdx io.offsetBlocks))
      (write smallArray true 7 io (smallArray.stripeIdx io.offsetBlocks), Proc.start 0 0) es =
        some u →
    u.AtRest smallArray (.any false) (smallArray.stripeIdx io.offsetBlocks) →
    (∃ r ∈ u.2.reqs, r.kind = .store) →
    u.2.completions = [(7, documentedStatus
      (smallArray.parityDiskIdx (smallArray.stripeIdx io.offsetBlocks))
      (u.2.ended .store false))] := by
  intro h
  have hrun : (run (Running.next smallArray (.any false) 0)
      (write smallArray true 7 ⟨.write, 0, 4⟩ 0, Proc.start 0 0) (oneFailedWrite 1)).map writeEnd =
      some (true, [(7, .failure)], [1]) := by decide
  obtain ⟨u, hu, hend⟩ := Option.map_eq_some_iff.mp hrun
  obtain ⟨hover, hcompleted, hfailed⟩ : u.over = true ∧ u.2.completions = [(7, .failure)] ∧
      u.2.ended .store false = [1] := by
    simpa [writeEnd] using hend
  have hstatus := h ⟨.write, 0, 4⟩ (by decide) (oneFailedWrite 1) u hu
    (Running.atRest_of_over hover) (exists_of_ended (d := 1) (by rw [hfailed]; simp))
  rw [hcompleted, hfailed] at hstatus
  cases hstatus

end Ironspdk.Raid5
