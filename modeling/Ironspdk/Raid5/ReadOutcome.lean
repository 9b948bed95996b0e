import Ironspdk.Raid5.Lifetimes
import Ironspdk.Raid5.WriteOutcome

/-! # How a read ends

A read awaits all its child reads. If one of them has failed, the strip is reconstructed
from the other disks; if more have, or if the reconstruction fails, the read does. -/
namespace Ironspdk.Raid5
open Ironspdk.Lib Ironspdk.Runtime

variable {B : Type}

/-- The child reads of a read request. -/
structure StripReads (strips : List Strip) (rs : List ChildReq) : Prop where
  kind : ∀ r ∈ rs, r.kind = .fetch
  length : rs.length = strips.length

/-- How a read ends, by how many of its child reads `rs` fail. -/
inductive ReadExit (dev : Raid5Bdev) (sender : SpdkThread) (ok : Nat → Bool)
    (strips : List Strip) : Option Unit × Ledger → Prop
  | served {bufs : Nat} {rs : List ChildReq} : StripReads strips rs →
      (List.range' 0 rs.length).filter (fun c => !ok c) = [] →
      ReadExit dev sender ok strips (some (), ⟨bufs, rs, [(sender, .success)]⟩)
  | recovered {bufs : Nat} {rs rs' : List ChildReq} : StripReads strips rs →
      ((List.range' 0 rs.length).filter fun c => !ok c).length = 1 → RebuildReads dev rs' →
      ReadExit dev sender ok strips (some (), ⟨bufs, rs ++ rs', [(sender,
        if (List.range' rs.length rs'.length).all ok then .success else .failure)]⟩)
  | lost {bufs : Nat} {rs : List ChildReq} : StripReads strips rs →
      2 ≤ ((List.range' 0 rs.length).filter fun c => !ok c).length →
      ReadExit dev sender ok strips (some (), ⟨bufs, rs, [(sender, .failure)]⟩)

section replay
variable {ok : Nat → Bool} {l : Ledger} {sender : SpdkThread} {dev : Raid5Bdev} {k : Nat}

theorem replay_copyFromSlice {α : Type} {r : IoRef} {data : DmaBuf} {f : Unit → Task α}
    (hlen : data.blocks = r.numBlocks) :
    (copyFromSlice (.ref r) data >>= f).replay (answer ok) l = (f ()).replay (answer ok) l := by
  rw [copyFromSlice, if_pos hlen]
  exact Prog.replay_perform rfl

/-- The branch for one failed read: its strip is reconstructed into the memory of the request. -/
theorem replay_readRecovered {strips : List Strip} {rs : List ChildReq} {s : Strip}
    {base num bufs : Nat} {drops : List Resource} (hreads : StripReads strips rs)
    (hfor : s.For dev k base num)
    (hone : ((List.range' 0 rs.length).filter fun c => !ok c).length = 1) :
    ReadExit dev sender ok strips
      ((reconstruct dev s.disk (k * dev.stripBlocks + s.offsetInStrip) s.blocks >>= fun x =>
        match x with
        | some buf => copyFromSlice s.io buf >>= fun _ => completeOn sender .success >>= fun _ =>
            dropAll drops
        | none => completeOn sender .failure >>= fun _ => dropAll drops).replay
          (answer ok) ⟨bufs, rs, []⟩) := by
  have hrebuild := @rebuildReads dev s.disk (k * dev.stripBlocks + s.offsetInStrip) s.blocks
    bufs hfor.disk_lt
  obtain ⟨bufs', heq⟩ := @replay_reconstruct _ ok ⟨bufs, rs, []⟩ dev s.disk
    (k * dev.stripBlocks + s.offsetInStrip) s.blocks hfor.disk_lt fun x => match x with
      | some buf => copyFromSlice s.io buf >>= fun _ => completeOn sender .success >>= fun _ =>
          dropAll drops
      | none => completeOn sender .failure >>= fun _ => dropAll drops
  refine heq ▸ ?_
  have hexit : ReadExit dev sender ok strips (some (), ⟨bufs', rs ++ _, [(sender, _)]⟩) :=
    .recovered hreads hone hrebuild
  rw [hrebuild.length] at hexit
  by_cases hall : (List.range' rs.length (dev.diskCount - 1)).all ok
  · obtain ⟨view, hview, hlen⟩ : ∃ r, s.io = .ref r ∧ s.blocks = r.numBlocks :=
      ⟨_, hfor.view, rfl⟩
    rw [if_pos hall] at hexit ⊢
    simp only [hview]
    rw [replay_copyFromSlice hlen, replay_finish]
    exact hexit
  · rw [if_neg hall] at hexit ⊢
    simp only [replay_finish]
    exact hexit

/-- **How a read ends.** -/
theorem replay_read {io : BdevIo} (hk : dev.stripeIdx io.offsetBlocks = k)
    (hfit : ¬ dev.crossesStripe io) (hl : l.reqs = []) (hc : l.completions = []) :
    ∃ strips, Split dev k io strips ∧
      ReadExit dev sender ok strips ((read dev sender io k).replay (answer ok) l) := by
  obtain ⟨strips, hstrips, hsplit⟩ := split_request dev hfit
  rw [hk] at hstrips hsplit
  refine ⟨strips, hsplit, ?_⟩
  unfold read
  simp only [hstrips, replay_submitAll, List.length_map, hl, hc]
  obtain ⟨rs, hrs⟩ : ∃ rs, rs = strips.map fun s => (⟨.fetch, s.disk, s.io⟩ : ChildReq) :=
    ⟨_, rfl⟩
  have hreads : StripReads strips rs := by
    refine ⟨fun r hr => ?_, by rw [hrs, List.length_map]⟩
    rw [hrs] at hr
    obtain ⟨s, _, rfl⟩ := List.mem_map.mp hr
    rfl
  have hfuts : ∀ f ∈ (List.range strips.length).zip (List.range' 0 strips.length),
      f.2 < rs.length := by
    intro f hf
    have := (List.mem_range'_1.mp (List.of_mem_zip hf).2).2
    rw [hreads.length]
    omega
  rw [← hrs, List.nil_append, List.length_nil,
    replay_awaitFailed (l := ⟨l.bufs, rs, []⟩) hfuts, List.nil_append]
  obtain ⟨failed, hfailed⟩ : ∃ failed, failed = failing ok ((List.range strips.length).zip
    (List.range' 0 strips.length)) := ⟨_, rfl⟩
  have hcount : failed.length = ((List.range' 0 rs.length).filter fun c => !ok c).length := by
    rw [hfailed, hreads.length]
    exact length_failing (by rw [List.length_range, List.length_range'])
  have hlabels : ∀ i ∈ failed, i < strips.length := by
    intro i hi
    rw [hfailed] at hi
    obtain ⟨f, hf, rfl⟩ := List.mem_map.mp hi
    exact List.mem_range.mp (List.of_mem_zip (List.mem_filter.mp hf).1).1
  rw [← hfailed]
  rcases failed with _ | ⟨i, _ | ⟨i', rest⟩⟩
  · simp only [replay_finish]
    exact .served hreads (List.length_eq_zero_iff.mp hcount.symm)
  · obtain ⟨s, hs⟩ : ∃ s, strips[i]? = some s :=
      ⟨_, List.getElem?_eq_getElem (hlabels i List.mem_cons_self)⟩
    have hfor := hsplit.all_for s (List.mem_of_getElem? hs)
    simp only [hs]
    exact replay_readRecovered hreads hfor (by rw [← hcount]; rfl)
  · simp only [replay_finish]
    refine .lost hreads ?_
    rw [← hcount, List.length_cons, List.length_cons]
    omega

end replay

/-! ## The status and the contents -/

/-- Enough of the stripe could be read: all child reads of the request have succeeded, or all
but one and the whole reconstruction has. -/
def Proc.Readable (dev : Raid5Bdev) (s : Proc B) : Prop :=
  s.ended .fetch false = [] ∨
    (s.ended .fetch false).length = 1 ∧ (s.ended .rebuild true).length = dev.diskCount - 1

section rest
variable {dev : Raid5Bdev} {sender : SpdkThread} {strips : List Strip} {s : Proc B}
  {rs rest : List ChildReq} {r : Option Unit × Ledger}

/-- At rest, the failures of the child reads of a request. -/
theorem StripReads.length_ended (h : StripReads strips rs) (hall : s.AllDone)
    (hreqs : s.reqs = rs ++ rest) (hrest : ∀ r ∈ rest, r.kind ≠ .fetch) :
    (s.ended .fetch false).length =
      ((List.range' 0 rs.length).filter fun c => !s.ok c).length := by
  have hbatch : s.reqs = [] ++ rs ++ rest := hreqs
  rw [ended_eq_failing hall hbatch (List.forall_mem_nil _) h.kind hrest]
  exact length_failing (by rw [List.length_map, List.length_range'])

/-- **The status of a read.** -/
theorem ReadExit.status (h : ReadExit dev sender s.ok strips r) (hall : s.AllDone)
    (hr : r.2 = s.ledger) :
    (s.completions = [(sender, .success)] ↔ s.Readable dev) ∧
      (s.completions = [(sender, .failure)] ↔ ¬ s.Readable dev) := by
  have hreqs : s.reqs = r.2.reqs := (congrArg Ledger.reqs hr).symm
  have hcompletions : s.completions = r.2.completions := (congrArg Ledger.completions hr).symm
  rw [hcompletions]
  cases h with
  | served hreads hnone =>
    have hcount := hreads.length_ended hall (hreqs.trans (List.append_nil _).symm)
      (List.forall_mem_nil _)
    have hread : s.Readable dev := Or.inl (List.length_eq_zero_iff.mp (hcount.trans (by
      rw [hnone]
      rfl)))
    simp [hread]
  | @recovered bufs rs rs' hreads hone hrebuild =>
    have hfetch : ∀ x ∈ rs', x.kind ≠ .fetch := fun x hx h =>
      by cases (hrebuild.kind x hx).symm.trans h
    have hrebuilds : ∀ x ∈ rs, x.kind ≠ .rebuild := fun x hx h =>
      by cases (hreads.kind x hx).symm.trans h
    have hcount := hreads.length_ended hall hreqs hfetch
    -- one read has failed, so the request is readable if the reconstruction is complete
    have hiff : s.Readable dev ↔ (List.range' rs.length rs'.length).all s.ok := by
      rw [← hrebuild.ended hall (hreqs.trans (List.append_nil _).symm) hrebuilds
        (List.forall_mem_nil _)]
      have htotal := length_ended hall .rebuild
      rw [hreqs, List.filter_append, List.filter_eq_nil_iff.mpr (fun x hx => by
          simp [hrebuilds x hx]), List.nil_append, List.filter_eq_self.mpr (fun x hx => by
          simp [hrebuild.kind x hx]), hrebuild.length] at htotal
      rw [← List.length_eq_zero_iff]
      constructor
      · rintro (hnil | ⟨_, hall⟩)
        · rw [hnil] at hcount
          rw [hone] at hcount
          cases hcount
        · omega
      · exact fun hzero => Or.inr ⟨hcount.trans hone, by omega⟩
    rw [hiff]
    cases (List.range' rs.length rs'.length).all s.ok <;> simp
  | lost hreads htwo =>
    have hcount := hreads.length_ended hall (hreqs.trans (List.append_nil _).symm)
      (List.forall_mem_nil _)
    have hnot : ¬ s.Readable dev := by
      rintro (hnil | ⟨hone, _⟩)
      · rw [hnil] at hcount
        rw [← hcount] at htwo
        cases htwo
      · omega
    simp [hnot]

end rest

section runs
variable [XorGroup B] {dev : Raid5Bdev} {sender : SpdkThread} {io : BdevIo} {ch : Children}
  {k : Nat} {mem disks : Nat → Nat → B} {es : List (Event B)} {u : Running B}

/-- At rest a read has been completed, with `Success` if and only if it could read enough. -/
theorem read_status (hk : dev.stripeIdx io.offsetBlocks = k) (hfit : ¬ dev.crossesStripe io)
    (hch : ∀ x, ch.allow x true = true ∨ ch.allow x false = true)
    (hrun : run (Running.next dev ch k) (read dev sender io k, Proc.start mem disks) es = some u)
    (hrest : u.AtRest dev ch k) :
    (u.2.completions = [(sender, .success)] ↔ u.2.Readable dev) ∧
      (u.2.completions = [(sender, .failure)] ↔ ¬ u.2.Readable dev) := by
  obtain ⟨hledger, _⟩ := hrest.replay hch hrun
  obtain ⟨strips, _, hexit⟩ := @replay_read u.2.ok (Proc.start mem disks).ledger sender dev k io hk
    hfit rfl rfl
  exact hexit.status (hrest.allDone hch) hledger

/-- A read of a consistent stripe that is about to complete with `Success` has the logical
contents in its memory. -/
theorem read_shows (hk : dev.stripeIdx io.offsetBlocks = k) (hfit : ¬ dev.crossesStripe io)
    (hpar : ∀ row, row / dev.stripBlocks = k → ∑ x ∈ Finset.range dev.diskCount, disks x row = 0)
    (hrun : run (Running.next dev ch k) (read dev sender io k, Proc.start mem disks) es = some u)
    {who : SpdkThread} {status : IoStatus} (hc : u.completing = some (who, status)) :
    who = sender ∧ u.2.completions = [] ∧ (status = .success → ∀ j < io.numBlocks,
      u.2.mem 0 j = dev.decode disks (io.offsetBlocks + j)) := by
  have hfresh : Fresh (stripeSetting dev ch k (dev.decode disks)) ⟨io, sender⟩ (mem 0)
      (Proc.start mem disks) := .consistent rfl hk hpar
  have hwp := wp_run (E := stripeSetting dev ch k (dev.decode disks)) id
    (wp_read hfresh.inv rfl rfl Nat.one_pos hk hfit) hrun
  obtain ⟨p, s⟩ := u
  cases p with
  | ret a => cases hc
  | op o f =>
    cases o with
    | complete who' status' =>
      cases hc
      obtain ⟨hwho, hnone, hresult, _⟩ := wp_ensure hwp trivial
      refine ⟨hwho, hnone, fun hst => ?_⟩
      subst hst
      exact hresult (stripeSetting_live dev ch k _)
    | _ => cases hc

end runs

end Ironspdk.Raid5
