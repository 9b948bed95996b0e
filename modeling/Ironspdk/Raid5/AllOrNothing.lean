import Ironspdk.Raid5.WriteOutcome

/-! # A partial write is all or nothing

If too much of a stripe cannot be read, a partial write stops before it writes anything.
Otherwise every strip and the parity are written once, from the old contents that were read
or reconstructed: when all these writes succeed, the stripe holds its old contents with the
data of the request over them. -/
namespace Ironspdk.Raid5
open Ironspdk.Lib Ironspdk.Runtime

variable {B : Type}

section contents
variable [XorGroup B] {dev : Raid5Bdev} {ch : Children} {k : Nat} {c u : Running B}
  {es : List (Event B)}

/-! ## Rows of the stripe -/

omit [XorGroup B] in
/-- What a step of a child writes is written by a child write that was in flight. -/
theorem react_disks_taken {s t : Proc B} {e : ChildEvent B} (h : ch.react s e = some t)
    {x row : Nat} (hno : ∀ (i : Nat) (y : ChildIo B), s.ios[i]? = some y → y.phase = .inFlight →
      y.req.kind = .store → y.req.disk ≠ x) : t.disks x row = s.disks x row := by
  obtain ⟨i, y, hy, hcase⟩ := react_cases h
  have hput : y.phase = .inFlight → ∀ d m : Nat → B,
      (s.put y.req d m).disks x row = s.disks x row := by
    intro hp d m
    by_cases hk : y.req.kind = .store
    · simp only [Proc.put, hk]
      exact writeDisk_out fun hhit => hno i y hy hp hk hhit.1
    · rw [(put_read hk).2]
  rcases hcase with ⟨hp, _, junk, rfl⟩ | ⟨_, rfl⟩ | ⟨hp, _, junk, rfl⟩
  · exact hput hp _ _
  · rfl
  · exact hput hp _ _

theorem Running.next_reqs {e : Event B} (h : c.next dev ch k e = some u) :
    c.2.reqs <+: u.2.reqs := by
  cases e with
  | step =>
    obtain ⟨o, f, r, _, hp, _⟩ := stepProg_cases h
    exact ⟨o.submits, (perform_reqs hp).symm⟩
  | child e =>
    obtain ⟨t, ht, rfl⟩ := Option.map_eq_some_iff.mp h
    rw [(ext_react ht).reqs]
  | others disk row b =>
    simp only [Running.next] at h
    split at h
    · cases h
    · cases h
      exact List.prefix_refl _

omit [XorGroup B] in
theorem update_row_other {disks : Nat → Nat → B} {disk row' x row : Nat} {b : B}
    (h : ¬ (x = disk ∧ row = row')) :
    Function.update disks disk (Function.update (disks disk) row' b) x row = disks x row := by
  by_cases hx : x = disk
  · subst hx
    rw [Function.update_self, Function.update_of_ne fun hr => h ⟨rfl, hr⟩]
  · rw [Function.update_of_ne hx]

/-- A child I/O that is not in flight any more. -/
def Proc.Taken (s : Proc B) (i : Nat) : Prop := ∃ y, s.ios[i]? = some y ∧ y.phase ≠ .inFlight

omit [XorGroup B] in
theorem react_taken {s t : Proc B} {e : ChildEvent B} (h : ch.react s e = some t) {i : Nat}
    (hi : s.Taken i) : t.Taken i := by
  obtain ⟨y, hy, hp⟩ := hi
  obtain ⟨j, z, hz, hcase⟩ := react_cases h
  obtain ⟨p, hmoved, hios⟩ : ∃ p, p ≠ .inFlight ∧ t.ios = s.ios.set j { z with phase := p } := by
    rcases hcase with ⟨_, _, junk, rfl⟩ | ⟨_, rfl⟩ | ⟨_, _, junk, rfl⟩
    · exact ⟨.applied, (fun h => by cases h), by rw [Proc.setPhase, put_ios]⟩
    · exact ⟨.done true, (fun h => by cases h), rfl⟩
    · exact ⟨.done false, (fun h => by cases h), by simp only [Proc.setPhase, put_ios]⟩
  by_cases hij : j = i
  · subst hij
    refine ⟨{ z with phase := p }, ?_, hmoved⟩
    rw [hios, List.getElem?_set_self (List.getElem?_eq_some_iff.mp hz).1]
  · exact ⟨y, by rw [hios, List.getElem?_set_ne hij, hy], hp⟩

theorem Running.next_taken {e : Event B} (h : c.next dev ch k e = some u) {i : Nat}
    (hi : c.2.Taken i) : u.2.Taken i := by
  cases e with
  | step =>
    obtain ⟨o, f, r, _, hp, _⟩ := stepProg_cases h
    obtain ⟨y, hy, hphase⟩ := hi
    exact ⟨y, perform_ios hp hy, hphase⟩
  | child e =>
    obtain ⟨t, ht, rfl⟩ := Option.map_eq_some_iff.mp h
    exact react_taken ht hi
  | others disk row b =>
    simp only [Running.next] at h
    split at h
    · cases h
    · cases h
      exact hi

/-- **Settled rows.** A disk of which no child write is still to take effect keeps its part of
the stripe. -/
theorem run_disks_settled (hrun : run (Running.next dev ch k) c es = some u) {x : Nat}
    (hset : ∀ (i : Nat) (r : ChildReq), u.2.reqs[i]? = some r → r.kind = .store → r.disk = x →
      c.2.Taken i) {row : Nat} (hrow : row / dev.stripBlocks = k) :
    u.2.disks x row = c.2.disks x row ∧ ∀ i, c.2.Taken i → u.2.Taken i := by
  induction es using List.reverseRecOn generalizing u with
  | nil =>
    cases hrun
    exact ⟨rfl, fun _ => id⟩
  | append_singleton es e ih =>
    obtain ⟨t, ht, hu⟩ := run_snoc hrun
    have hpre := Running.next_reqs hu
    have hbefore : ∀ (i : Nat) (r : ChildReq), t.2.reqs[i]? = some r → r.kind = .store →
        r.disk = x → c.2.Taken i := fun i r hr => hset i r (prefix_get hpre hr)
    obtain ⟨hdisks, htaken⟩ := ih ht hbefore
    refine ⟨?_, fun i hi => Running.next_taken hu (htaken i hi)⟩
    rw [← hdisks]
    cases e with
    | step =>
      obtain ⟨o, f, r, _, hp, _⟩ := stepProg_cases hu
      rw [(perform_frame hp).1]
    | child e =>
      obtain ⟨v, hv, rfl⟩ := Option.map_eq_some_iff.mp hu
      refine react_disks_taken hv fun i y hy hp hk hx => ?_
      obtain ⟨z, hz, hphase⟩ := htaken i (hbefore i y.req (reqs_at hy) hk hx)
      cases hy.symm.trans hz
      exact hphase hp
    | others disk row' b =>
      simp only [Running.next] at hu
      split at hu
      · cases hu
      · rename_i hne
        cases hu
        exact update_row_other fun h => hne (h.2 ▸ hrow)

/-- A request that has submitted no child write has left its stripe alone. -/
theorem run_disks_of_reads (hrun : run (Running.next dev ch k) c es = some u)
    (hno : ∀ r ∈ u.2.reqs, r.kind ≠ .store) {x row : Nat} (hrow : row / dev.stripBlocks = k) :
    u.2.disks x row = c.2.disks x row :=
  (run_disks_settled hrun (fun _ r hr hk => absurd hk (hno r (List.mem_of_getElem? hr))) hrow).1

/-! ## The contents after a write -/

/-- A write of which no child write has failed, and the reads of one disk at most, has put its
data into the stripe. -/
theorem Setting.End.stored {E : Setting B} {sender : SpdkThread} {flat : Nat → B} {s : Proc B}
    (h : E.End sender flat s) (hlive : E.Live)
    (hone : ∀ x y, E.Failed s x → E.Failed s y → x = y) (hstores : s.ended .store false = [])
    {x row : Nat} (hx : x < E.dev.diskCount) (hdead : ¬ E.dead x) (hrow : E.Row row) :
    s.disks x row = E.dev.encode flat x row := by
  have hgood : ∀ (c : Nat) (w : ChildIo B), s.ios[c]? = some w → w.req.kind = .store →
      w.req.disk = x → w.phase ≠ .done false := by
    intro c w hw hk _ hp
    have hmem : w.req.disk ∈ s.ended .store false :=
      List.mem_map_of_mem (List.mem_filter.mpr ⟨List.mem_of_getElem? hw, by simp [hk, hp]⟩)
    rw [hstores] at hmem
    cases hmem
  rcases h.leaves with ⟨_, y, z, hne, hy, hz⟩ | hleaves
  · exact absurd (hone y z hy hz) hne
  · exact hleaves hlive x hx hdead hgood row hrow

end contents

/-! ## The two outcomes -/

/-- Too much of the stripe could not be read: two of the first reads have failed, or one of
them and one of the reconstruction. -/
def Proc.ReadsLost (s : Proc B) : Prop :=
  2 ≤ (s.ended .fetch false).length ∨
    (s.ended .fetch false).length = 1 ∧ s.ended .rebuild false ≠ []

/-- The outcome of a partial write of `data` on disks that held `before`: a failure that has
left them alone, because too much could not be read, or one child write for each strip and
one for the parity, and the new contents in place if these succeed. -/
def AllOrNothing [XorGroup B] (dev : Raid5Bdev) (k : Nat) (sender : SpdkThread) (io : BdevIo)
    (data : Nat → B) (before : Nat → Nat → B) (s : Proc B) : Prop :=
  (s.ReadsLost ∧ s.completions = [(sender, .failure)] ∧ (∀ r ∈ s.reqs, r.kind ≠ .store) ∧
    ∀ x row, row / dev.stripBlocks = k → s.disks x row = before x row) ∨
  (¬ s.ReadsLost ∧ (∃ strips p, splitStrips (Io.fromBdevIo io) (k * dev.stripBlocks)
      dev.stripBlocks (dev.stripeOffset io.offsetBlocks) io.numBlocks (dev.parityDiskIdx k) =
        some strips ∧ p.offsetBlocks = k * dev.stripBlocks ∧ p.numBlocks = dev.stripBlocks ∧
      s.reqs.filter (·.kind = .store) = dev.partialReqs k strips p) ∧
    (s.ended .store false = [] → s.completions = [(sender, .success)] ∧
      (∀ row, row / dev.stripBlocks = k →
        ∑ x ∈ Finset.range dev.diskCount, s.disks x row = 0) ∧
      ∀ b, dev.stripeIdx b = k → dev.decode s.disks b =
        overwrite (dev.decode before) io.offsetBlocks io.numBlocks data b))

/-- The child reads of a partial write that has come to its child writes are of one disk at
most, where they have failed. -/
theorem failed_unique [XorGroup B] {ch : Children} {flat : Nat → B} {dev : Raid5Bdev} {k : Nat}
    {s : Proc B} (hone : (s.ended .fetch false).length ≤ 1) (hrebuilt : s.ended .rebuild false = [])
    (hstores : s.ended .store false = []) (x y : Nat)
    (hx : (stripeSetting dev ch k flat).Failed s x)
    (hy : (stripeSetting dev ch k flat).Failed s y) : x = y := by
  have hfetch : ∀ {d : Nat}, (stripeSetting dev ch k flat).Failed s d →
      d ∈ s.ended .fetch false := by
    rintro d ⟨_, c, w, hw, rfl, hp⟩
    have hmem : w.req.disk ∈ s.ended w.req.kind false :=
      List.mem_map_of_mem (List.mem_filter.mpr ⟨List.mem_of_getElem? hw, by simp [hp]⟩)
    cases hk : w.req.kind with
    | fetch => rwa [hk] at hmem
    | rebuild =>
      rw [hk, hrebuilt] at hmem
      cases hmem
    | store =>
      rw [hk, hstores] at hmem
      cases hmem
  obtain ⟨i, hi⟩ := List.mem_iff_getElem?.mp (hfetch hx)
  obtain ⟨j, hj⟩ := List.mem_iff_getElem?.mp (hfetch hy)
  have hi' := (List.getElem?_eq_some_iff.mp hi).1
  have hj' := (List.getElem?_eq_some_iff.mp hj).1
  obtain rfl : i = j := by omega
  exact Option.some.inj (hi.symm.trans hj)

/-! ## At rest -/

section rest
variable [XorGroup B] {dev : Raid5Bdev} {ch : Children} {k : Nat} {sender : SpdkThread}
  {io : BdevIo} {mem disks : Nat → Nat → B} {es : List (Event B)} {s : Proc B} {u : Running B}
  {strips : List Strip} {rs rs' : List ChildReq} {p : Io}

/-- The failure of a partial write that has not come to its child writes. -/
theorem AllOrNothing.of_lost {q : Task Unit} {data : Nat → B}
    (hrun : run (Running.next dev ch k) (q, Proc.start mem disks) es = some u)
    (hlost : u.2.ReadsLost) (hfailure : u.2.completions = [(sender, .failure)])
    (hno : ∀ r ∈ u.2.reqs, r.kind ≠ .store) : AllOrNothing dev k sender io data disks u.2 :=
  Or.inl ⟨hlost, hfailure, hno, fun _ _ hrow => run_disks_of_reads hrun hno hrow⟩

omit [XorGroup B] in
/-- The child reads before the child writes of a partial write. -/
theorem not_store_of_reads (hreads : FirstReads dev k strips rs)
    (hrebuilds : ∀ x ∈ rs', x.kind = .rebuild) : ∀ x ∈ rs ++ rs', x.kind ≠ .store := by
  intro x hx
  rcases List.mem_append.mp hx with hx | hx
  · exact hreads.not_store hx
  · rw [hrebuilds x hx]
    exact Kind.rebuild_ne_store

omit [XorGroup B] in
/-- At rest, the reads of a partial write that has come to its child writes: those of one disk
at most have failed, and none of a reconstruction. -/
theorem reads_of_written (hall : s.AllDone)
    (hreqs : s.reqs = rs ++ rs' ++ dev.partialReqs k strips p)
    (hreads : FirstReads dev k strips rs) (hrebuilds : ∀ x ∈ rs', x.kind = .rebuild)
    (hexit : dev.readFailures k strips s.ok = [] ∧ rs' = [] ∨
      (dev.readFailures k strips s.ok).length = 1 ∧ RebuildReads dev rs' ∧
        (List.range' rs.length rs'.length).all s.ok) :
    s.ended .fetch false = dev.readFailures k strips s.ok ∧
      (s.ended .fetch false).length ≤ 1 ∧ s.ended .rebuild false = [] := by
  have hstore : ∀ x ∈ dev.partialReqs k strips p, x.kind = .store := fun x =>
    store_of_mem_partialReqs
  have hended := hreads.ended hall (hreqs.trans (List.append_assoc ..)) fun x hx => by
    rcases List.mem_append.mp hx with hx | hx
    · rw [hrebuilds x hx]
      exact fun h => by cases h
    · rw [hstore x hx]
      exact Kind.fetch_ne_store.symm
  have hfetch : ∀ x ∈ rs, x.kind ≠ .rebuild := fun x hx => by
    rw [hreads.kind x hx]
    exact fun h => by cases h
  have hstore' : ∀ x ∈ dev.partialReqs k strips p, x.kind ≠ .rebuild := fun x hx => by
    rw [hstore x hx]
    exact Kind.rebuild_ne_store.symm
  refine ⟨hended, ?_, ?_⟩
  · rw [hended]
    rcases hexit with ⟨hnil, _⟩ | ⟨hone, _⟩
    · rw [hnil]
      exact Nat.zero_le 1
    · exact hone.le
  · rcases hexit with ⟨_, rfl⟩ | ⟨_, h, hok⟩
    · refine ended_nil (fun x hx => ?_) false
      rw [hreqs, List.append_nil] at hx
      exact (List.mem_append.mp hx).elim (hfetch x) (hstore' x)
    · exact (h.ended hall hreqs hfetch hstore').mpr hok

omit [XorGroup B] in
theorem stores_of_written (hreqs : s.reqs = rs ++ dev.partialReqs k strips p)
    (hno : ∀ x ∈ rs, x.kind ≠ .store) :
    s.reqs.filter (·.kind = .store) = dev.partialReqs k strips p := by
  have hnone : rs.filter (·.kind = .store) = [] :=
    List.filter_eq_nil_iff.mpr fun x hx => by simp [hno x hx]
  rw [hreqs, List.filter_append, hnone, List.nil_append]
  exact List.filter_eq_self.mpr fun x hx => decide_eq_true (store_of_mem_partialReqs hx)

/-- A partial write of a consistent stripe that has returned, its child writes having succeeded
and one disk at most having failed its reads. -/
theorem partial_disks {overflowChecks : Bool} (hk : dev.stripeIdx io.offsetBlocks = k)
    (hfit : ¬ dev.crossesStripe io)
    (hpar : ∀ row, row / dev.stripBlocks = k → ∑ x ∈ Finset.range dev.diskCount, disks x row = 0)
    (hrun : run (Running.next dev ch k)
      (writePartialStripe dev overflowChecks sender io k, Proc.start mem disks) es = some u)
    (hret : u.1 = .ret ()) (hone : (u.2.ended .fetch false).length ≤ 1)
    (hrebuilt : u.2.ended .rebuild false = []) (hstores : u.2.ended .store false = []) {x row : Nat}
    (hx : x < dev.diskCount) (hrow : row / dev.stripBlocks = k) : u.2.disks x row =
      dev.encode (overwrite (dev.decode disks) io.offsetBlocks io.numBlocks (mem 0)) x row := by
  have hfresh : Fresh (stripeSetting dev ch k (dev.decode disks)) ⟨io, sender⟩ (mem 0)
      (Proc.start mem disks) := .consistent rfl hk hpar
  have hend := wp_run (E := stripeSetting dev ch k (dev.decode disks)) id
    (wp_writePartialStripe hfresh.inv rfl rfl Nat.one_pos hk hfit (fun _ => Or.inl trivial)
      hfresh.data) hrun
  rw [hret] at hend
  exact (wp_done hend).stored (stripeSetting_live dev ch k (dev.decode disks))
    (failed_unique hone hrebuilt hstores) hstores hx id hrow

end rest

/-- **All or nothing.** Children may fail any child I/O, and leave anything in the buffer of a
failed read. Every schedule of a partial write of a consistent stripe stops; at rest it has
either failed because of its reads and left the stripe alone, or written every strip and the
parity once, the new contents being in place if these writes succeed: if and only if no first
read has failed of a disk past the failure mask of a build with overflow checks. -/
theorem all_or_nothing_iff [XorGroup B] (dev : Raid5Bdev) (overflowChecks : Bool)
    (sender : SpdkThread) (io : BdevIo) (hfit : ¬ dev.crossesStripe io) (late : Bool)
    (mem disks : Nat → Nat → B)
    (hpar : ∀ row, row / dev.stripBlocks = dev.stripeIdx io.offsetBlocks →
      ∑ x ∈ Finset.range dev.diskCount, disks x row = 0) (es : List (Event B)) (u : Running B)
    (hrun : run (Running.next dev (.any late) (dev.stripeIdx io.offsetBlocks))
      (writePartialStripe dev overflowChecks sender io (dev.stripeIdx io.offsetBlocks),
        Proc.start mem disks) es = some u) :
    Stops (Running.next dev (.any late) (dev.stripeIdx io.offsetBlocks)) Event.Inner u ∧
    (u.AtRest dev (.any late) (dev.stripeIdx io.offsetBlocks) →
      (AllOrNothing dev (dev.stripeIdx io.offsetBlocks) sender io (mem 0) disks u.2 ↔
        (overflowChecks = true → ∀ d ∈ u.2.ended .fetch false, d < 64))) := by
  refine ⟨Running.stops u, fun hrest => ?_⟩
  have hall := hrest.allDone fun x => Or.inl rfl
  obtain ⟨hledger, hret⟩ := hrest.replay (fun x => Or.inl rfl) hrun
  obtain ⟨k, hk⟩ : ∃ k, dev.stripeIdx io.offsetBlocks = k := ⟨_, rfl⟩
  obtain ⟨strips, hstrips, hsplit, hwrite⟩ := @replay_writePartialStripe u.2.ok ⟨1, [], []⟩
    overflowChecks sender dev k io hk hfit rfl rfl
  have hstart : (Proc.start mem disks).ledger = ⟨1, [], []⟩ := rfl
  rw [hk] at hpar hrun hledger hret ⊢
  rw [hstart] at hledger hret
  generalize Prog.replay (answer u.2.ok) _ _ = r at hledger hret hwrite
  have hreqs : u.2.reqs = r.2.reqs := (congrArg Ledger.reqs hledger).symm
  have hcompletions : u.2.completions = r.2.completions :=
    (congrArg Ledger.completions hledger).symm
  cases hwrite with
  | overflow hreads hover =>
    -- nothing has been written, and the request is not completed
    have hended := hreads.ended hall (hreqs.trans (List.append_nil _).symm) (List.forall_mem_nil _)
    rw [hended, ← not_overflows_iff]
    refine iff_of_false ?_ (not_not.mpr hover)
    rintro (⟨_, hfailure, _⟩ | ⟨_, ⟨strips', p, _, _, _, hstores⟩, _⟩)
    · rw [hcompletions] at hfailure
      cases hfailure
    · have hnone : u.2.reqs.filter (·.kind = .store) = [] :=
        List.filter_eq_nil_iff.mpr fun x hx => by simp [hreads.not_store (hreqs ▸ hx)]
      rw [hnone] at hstores
      exact partialReqs_ne_nil hstores.symm
  | twoFailed hreads hover htwo =>
    have hended := hreads.ended hall (hreqs.trans (List.append_nil _).symm) (List.forall_mem_nil _)
    have hno : ∀ r ∈ u.2.reqs, r.kind ≠ .store := by
      rw [hreqs]
      exact fun r hr => hreads.not_store hr
    exact iff_of_true (.of_lost hrun (Or.inl (hended ▸ htwo)) hcompletions hno)
      (hended ▸ not_overflows_iff.mp hover)
  | notRebuilt hreads hrebuilds hover hone hlost =>
    have hended := hreads.ended hall hreqs fun r hr => by
      rw [hrebuilds.kind r hr]
      exact fun h => by cases h
    have hrebuilt := hrebuilds.ended hall (hreqs.trans (List.append_nil _).symm)
      (fun r hr => by rw [hreads.kind r hr]; exact fun h => by cases h) (List.forall_mem_nil _)
    have hno : ∀ r ∈ u.2.reqs, r.kind ≠ .store := by
      rw [hreqs]
      exact not_store_of_reads hreads hrebuilds.kind
    exact iff_of_true (.of_lost hrun (Or.inr ⟨hended ▸ hone, mt hrebuilt.mp hlost⟩) hcompletions
      hno) (hended ▸ not_overflows_iff.mp hover)
  | @written bufs rs rs' p r hreads hover hexit hoff hnum hphase =>
    have hrebuilds := rebuild_of_exit hexit
    have hno := not_store_of_reads hreads hrebuilds
    have hall_reqs : u.2.reqs = rs ++ rs' ++ dev.partialReqs k strips p :=
      hreqs.trans hphase.reqs
    obtain ⟨hended, hone, hrebuilt⟩ := reads_of_written hall hall_reqs hreads hrebuilds hexit
    refine iff_of_true (Or.inr ⟨fun hlost => ?_, ⟨strips, p, hstrips, hoff, hnum,
      stores_of_written hall_reqs hno⟩, fun hstores => ?_⟩) (hended ▸ not_overflows_iff.mp hover)
    · rcases hlost with htwo | ⟨_, hlost⟩
      · omega
      · exact hlost hrebuilt
    · -- all child writes have succeeded, so the program has returned
      have hnone := hphase.ended hall hledger hno fun x => store_of_mem_partialReqs
      rw [hstores] at hnone
      rw [← hnone] at hphase
      cases hphase with
      | overflow h =>
        obtain ⟨_, d, hd, _⟩ := h
        cases hd
      | completed =>
        have hdisks : ∀ x < dev.diskCount, ∀ row, row / dev.stripBlocks = k → u.2.disks x row =
            dev.encode (overwrite (dev.decode disks) io.offsetBlocks io.numBlocks (mem 0)) x row :=
          fun x hx row hrow => partial_disks hk hfit hpar hrun (hret.mp rfl) hone hrebuilt hstores
            hx hrow
        refine ⟨hcompletions, fun row hrow => ?_, fun b hb => decode_encode hdisks hb⟩
        rw [Finset.sum_congr rfl fun x hx => hdisks x (Finset.mem_range.mp hx) row hrow]
        exact encode_sum dev _ row

/-- A write of block 0 of the small array, whose read of the old block fails and leaves junk: the
block is rebuilt from the parity and the other disk, which are read in the other order. -/
def rebuildingWrite : List (Event Byte) :=
  [List.replicate 4 .step,
    [.child (.fail 0 fun _ => ⟨77⟩), .child (.apply 1 0), .child (.finish 1)],
    List.replicate 6 .step,
    [3, 2].flatMap fun c => [.child (.apply c 0), .child (.finish c)],
    List.replicate 16 .step,
    [4, 5].flatMap fun c => [.child (.apply c 0), .child (.finish c)],
    List.replicate 10 .step].flatten

/-- A stripe whose parity, on disk 0, is that of 3 and 6. -/
def oldStripe : Nat → Nat → Byte := fun x _ => [⟨5⟩, ⟨3⟩, ⟨6⟩].getD x 0

theorem all_or_nothing_iff_rebuildingWrite :
    ∃ u, run (Running.next smallArray (.any false) 0)
      (writePartialStripe smallArray true 7 ⟨.write, 0, 1⟩ 0,
        Proc.start (fun _ _ => ⟨9⟩) oldStripe) rebuildingWrite = some u ∧
      u.2.ended .fetch false = [1] ∧ u.2.completions = [(7, .success)] ∧
      (List.range 3).map (fun d => u.2.disks d 0) = [⟨15⟩, ⟨9⟩, ⟨6⟩] ∧
      AllOrNothing smallArray 0 7 ⟨.write, 0, 1⟩ (fun _ => ⟨9⟩) oldStripe u.2 := by
  have hrun : (run (Running.next smallArray (.any false) 0)
      (writePartialStripe smallArray true 7 ⟨.write, 0, 1⟩ 0,
        Proc.start (fun _ _ => ⟨9⟩) oldStripe) rebuildingWrite).map
      (fun c => ((c.over, c.2.ended .fetch false),
        (c.2.completions, (List.range 3).map fun d => c.2.disks d 0))) =
      some ((true, [1]), ([(7, .success)], [⟨15⟩, ⟨9⟩, ⟨6⟩])) := by
    decide
  obtain ⟨u, hu, hend⟩ := Option.map_eq_some_iff.mp hrun
  obtain ⟨hended, hleft⟩ := Prod.mk.inj hend
  obtain ⟨hover, hfailed⟩ := Prod.mk.inj hended
  obtain ⟨hcompleted, hdisks⟩ := Prod.mk.inj hleft
  have hparity : ∀ row, row / smallArray.stripBlocks = smallArray.stripeIdx 0 →
      ∑ x ∈ Finset.range smallArray.diskCount, oldStripe x row = 0 := by
    intro row _
    show ∑ x ∈ Finset.range 3, oldStripe x 0 = 0
    decide
  have hiff := (all_or_nothing_iff smallArray true 7 ⟨.write, 0, 1⟩ (by decide) false
    (fun _ _ => (⟨9⟩ : Byte)) oldStripe hparity rebuildingWrite u hu).2
      (Running.atRest_of_over hover)
  refine ⟨u, hu, hfailed, hcompleted, hdisks, hiff.mpr ?_⟩
  rw [hfailed]
  decide

/-- A write of block 63 of the wide array, of which the read of disk 64 fails. -/
def lostRead : List (Event Byte) :=
  List.replicate 4 .step ++ [.child (.fail 0 0), .child (.apply 1 0), .child (.finish 1), .step]

/-- In a build with overflow checks the write panics: it has not failed, and writes nothing. -/
theorem failed_read_panics : ¬ ∀ (io : BdevIo), ¬ wideArray.crossesStripe io →
    ∀ (es : List (Event Byte)) (u : Running Byte),
    run (Running.next wideArray (.any false) (wideArray.stripeIdx io.offsetBlocks))
      (writePartialStripe wideArray true 7 io (wideArray.stripeIdx io.offsetBlocks),
        Proc.start 0 0) es = some u →
    u.AtRest wideArray (.any false) (wideArray.stripeIdx io.offsetBlocks) →
    AllOrNothing wideArray (wideArray.stripeIdx io.offsetBlocks) 7 io 0 0 u.2 := by
  intro h
  have hrun : (run (Running.next wideArray (.any false) 0)
      (writePartialStripe wideArray true 7 ⟨.write, 63, 1⟩ 0, Proc.start 0 0) lostRead).map
        (fun c => (c.over, c.2.completions, c.2.reqs.map (·.kind))) =
      some (true, [], [.fetch, .fetch]) := by decide
  obtain ⟨u, hu, hend⟩ := Option.map_eq_some_iff.mp hrun
  obtain ⟨hover, hcompleted, hkinds⟩ : u.over = true ∧ u.2.completions = [] ∧
      u.2.reqs.map (·.kind) = [.fetch, .fetch] := by
    simpa using hend
  rcases h ⟨.write, 63, 1⟩ (by decide) lostRead u hu (Running.atRest_of_over hover) with
    ⟨_, hfailure, _⟩ | ⟨_, ⟨strips, p, _, _, _, hstores⟩, _⟩
  · rw [hcompleted] at hfailure
    cases hfailure
  · -- a write of the parity, among child I/Os that are all reads
    have hparity : ⟨.store, wideArray.parityDiskIdx 0, p⟩ ∈
        u.2.reqs.filter (·.kind = .store) := by
      rw [hstores]
      exact List.mem_append_right _ (List.mem_singleton_self _)
    have hkind := List.mem_map_of_mem (f := ChildReq.kind) (List.mem_filter.mp hparity).1
    rw [hkinds] at hkind
    simp at hkind

end Ironspdk.Raid5
