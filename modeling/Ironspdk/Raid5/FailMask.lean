import Ironspdk.Raid1.FailMask
import Ironspdk.Raid5.AllOrNothing

/-! # The failure mask of a write

The await loops of the write paths shift 1 by the index of every disk that fails, and hand a
64-bit mask to `complete_write` that only its messages show. Below are the ends of a write as
the exact sets of failed disks have them, and when the write has these ends: as long as no
disk numbered 64 or more fails a child I/O that is counted. -/
namespace Ironspdk.Raid5
open Ironspdk.Lib Ironspdk.Runtime

variable {B : Type}

/-! ## The counters and the exact set -/

/-- What the error message of `complete_write` tells: the strip of the one disk that has
failed, or how many have. -/
inductive WriteError
  | one (parity : Bool) | many (nfailures : Nat)
  deriving DecidableEq, Repr

def writeError (parityDiskIdx : Nat) (f : Failures) : Option WriteError :=
  if f.nfailures = 0 then none
  else if f.nfailures = 1 then some (.one (f.lastFailedDiskIdx = some parityDiskIdx))
  else some (.many f.nfailures)

/-- The same from the list of failed disks. -/
def exactError (parityDiskIdx : Nat) : List Nat → Option WriteError
  | [] => none
  | [d] => some (.one (d = parityDiskIdx))
  | failed => some (.many failed.length)

theorem Counts.error {failed : List Nat} {f : Failures} (h : Counts failed f)
    (parityDiskIdx : Nat) : writeError parityDiskIdx f = exactError parityDiskIdx failed := by
  unfold writeError
  rw [h.nfailures, h.last]
  match failed with
  | [] => rfl
  | [d] => simp [exactError]
  | _ :: _ :: _ => simp [exactError]

/-- The futures of an await loop: the child I/Os of a kind, with their disks. -/
def Proc.futures (s : Proc B) (kind : Kind) : List (Nat × Nat) :=
  (s.reqs.zipIdx.filter fun x => x.1.kind = kind).map fun x => (x.1.disk, x.2)

/-- What the await loop over them counts, unless it panics. -/
def Proc.counters (overflowChecks : Bool) (s : Proc B) (kind : Kind) : Option Failures :=
  ((awaitEach (countFailure overflowChecks) (s.futures kind) {}).replay (answer s.ok) s.ledger).1

section counters
variable {s : Proc B} {kind : Kind}

theorem failing_futures (hall : s.AllDone) :
    failing s.ok (s.futures kind) = s.ended kind false := by
  suffices h : ∀ (post pre : List (ChildIo B)), s.ios = pre ++ post →
      failing s.ok ((((post.map (·.req)).zipIdx pre.length).filter fun x => x.1.kind = kind).map
        fun x => (x.1.disk, x.2)) =
      (post.filter fun x => x.req.kind = kind ∧ x.phase = .done false).map (·.req.disk) from
    h s.ios [] rfl
  intro post
  induction post with
  | nil => exact fun _ _ => rfl
  | cons x post ih =>
    intro pre hios
    have hat : s.ios[pre.length]? = some x := by
      rw [hios, List.getElem?_append_right (Nat.le_refl _), Nat.sub_self]
      rfl
    obtain ⟨b, hb⟩ := hall.at hat
    have hok : s.ok pre.length = b := Proc.Done.ok_eq ⟨x, hat, hb⟩
    have hrest := ih (pre ++ [x]) (by rw [hios, List.append_assoc]; rfl)
    rw [List.length_append, List.length_singleton] at hrest
    rw [List.map_cons, List.zipIdx_cons, List.filter_cons, List.filter_cons]
    by_cases hk : x.req.kind = kind
    · simp only [hk, hb, decide_true, if_true, true_and, Phase.done.injEq]
      rw [List.map_cons, failing_cons, hok, hrest]
      cases b <;> rfl
    · simp only [hk, decide_false, Bool.false_eq_true, if_false, false_and]
      exact hrest

/-- **What the loops count**: the exact set, or nothing where a shift panics. -/
theorem counters_spec (overflowChecks : Bool) (hall : s.AllDone) :
    Overflows overflowChecks (s.ended kind false) ∧ s.counters overflowChecks kind = none ∨
      ¬ Overflows overflowChecks (s.ended kind false) ∧
        ∃ f, Counts (s.ended kind false) f ∧ s.counters overflowChecks kind = some f := by
  have hfuts : ∀ f ∈ s.futures kind, f.2 < s.ledger.reqs.length := by
    intro f hf
    obtain ⟨x, hx, rfl⟩ := List.mem_map.mp hf
    exact (List.getElem?_eq_some_iff.mp
      (List.mem_zipIdx_iff_getElem?.mp (List.mem_filter.mp hx).1)).1
  have hcounts : Counts [] {} := ⟨rfl, rfl⟩
  have hloop := @replay_awaitCount _ s.ok s.ledger overflowChecks _ _ _ pure hfuts hcounts
  rw [failing_futures hall, List.nil_append, Prog.bind_pure'] at hloop
  unfold Proc.counters
  rcases hloop with ⟨hover, heq⟩ | ⟨hover, f, hf, heq⟩
  · exact Or.inl ⟨hover, by rw [heq]⟩
  · exact Or.inr ⟨hover, f, hf, by rw [heq]; rfl⟩

end counters

/-! ## A write with exact sets -/

/-- How a write ends when the disks are kept exactly that have failed its first reads, its
reconstruction and its child writes. -/
def Raid5Bdev.exactStatus (dev : Raid5Bdev) (io : BdevIo) (reads rebuilds writes : List Nat) :
    IoStatus :=
  if dev.crossesStripe io ∨ 2 ≤ reads.length ∨ rebuilds ≠ [] ∨ writes ≠ [] then .failure
  else .success

/-- A write that could read enough ends as its child writes do. -/
theorem Raid5Bdev.exactStatus_written (dev : Raid5Bdev) {io : BdevIo} {reads writes : List Nat}
    (hfit : ¬ dev.crossesStripe io) (hreads : reads.length ≤ 1) :
    dev.exactStatus io reads [] writes = if writes = [] then .success else .failure := by
  have hfew : ¬ 2 ≤ reads.length := by omega
  simp [exactStatus, hfit, hfew]

/-- A write has taken the ways that these sets give: it is completed with the exact status,
has reconstructed if one disk had failed its reads, and has come to its child writes if enough
could be read. -/
structure Proc.EndsExactly (dev : Raid5Bdev) (sender : SpdkThread) (io : BdevIo) (s : Proc B) :
    Prop where
  status : s.completions = [(sender, dev.exactStatus io (s.ended .fetch false)
    (s.ended .rebuild false) (s.ended .store false))]
  rebuilds : (∃ r ∈ s.reqs, r.kind = .rebuild) ↔ (s.ended .fetch false).length = 1
  writes : (∃ r ∈ s.reqs, r.kind = .store) ↔ ¬ dev.crossesStripe io ∧
    (s.ended .fetch false).length ≤ 1 ∧ s.ended .rebuild false = []

/-- The failure mask has done no harm: no shift by 64 or more, in any build, and the exact ways
and messages. -/
structure Proc.MaskHarmless (dev : Raid5Bdev) (overflowChecks : Bool) (sender : SpdkThread)
    (io : BdevIo) (s : Proc B) : Prop extends s.EndsExactly dev sender io where
  shifts : ((processReq dev true (dev.stripeIdx io.offsetBlocks) ⟨io, sender⟩).replay
    (answer s.ok) ⟨1, [], []⟩).1 = some ()
  messages : ∀ kind, kind = .fetch ∨ kind = .store → ∃ f, s.counters overflowChecks kind = some f ∧
    writeError (dev.parityDiskIdx (dev.stripeIdx io.offsetBlocks)) f =
      exactError (dev.parityDiskIdx (dev.stripeIdx io.offsetBlocks)) (s.ended kind false)

/-- No disk without a bit in the mask has failed a child I/O that is counted. -/
def Proc.FailuresFit (s : Proc B) : Prop :=
  ∀ d ∈ s.ended .fetch false ++ s.ended .store false, d < 64

/-! ## The phases of a partial write -/

section phases
variable {dev : Raid5Bdev} {k : Nat} {sender : SpdkThread} {ok : Nat → Bool}
  {strips : List Strip} {overflowChecks : Bool} {r : Option Unit × Ledger}

/-- The statuses let a partial write come to its child writes. -/
def Raid5Bdev.ReadsSuffice (dev : Raid5Bdev) (k : Nat) (strips : List Strip) (ok : Nat → Bool) :
    Prop :=
  dev.readFailures k strips ok = [] ∨ (dev.readFailures k strips ok).length = 1 ∧
    (List.range' (strips.length + 1) (dev.diskCount - 1)).all ok

/-- The disks of the child writes that fail then. -/
def Raid5Bdev.writeFailures (dev : Raid5Bdev) (k : Nat) (strips : List Strip) (ok : Nat → Bool) :
    List Nat :=
  failing ok ((strips.map (·.disk) ++ [dev.parityDiskIdx k]).zip (List.range'
    (strips.length + 1 + (dev.readFailures k strips ok).length * (dev.diskCount - 1))
    (strips.length + 1)))

theorem failing_partialReqs {rs rs' : List ChildReq} {p : Io} (hreads : FirstReads dev k strips rs)
    (hlen : rs'.length = (dev.readFailures k strips ok).length * (dev.diskCount - 1)) :
    failing ok (((dev.partialReqs k strips p).map (·.disk)).zip (List.range' (rs ++ rs').length
      (dev.partialReqs k strips p).length)) = dev.writeFailures k strips ok := by
  have hdisks : (dev.partialReqs k strips p).map (·.disk) =
      strips.map (·.disk) ++ [dev.parityDiskIdx k] := by
    simp [Raid5Bdev.partialReqs]
  have hcount : (dev.partialReqs k strips p).length = strips.length + 1 := by
    simp [Raid5Bdev.partialReqs]
  rw [hdisks, hcount, List.length_append, hreads.length, hlen]
  rfl

/-- The reads of a write that has come to its child writes. -/
theorem readable_of_exit {rs rs' : List ChildReq} (hreads : FirstReads dev k strips rs)
    (hexit : dev.readFailures k strips ok = [] ∧ rs' = [] ∨
      (dev.readFailures k strips ok).length = 1 ∧ RebuildReads dev rs' ∧
        (List.range' rs.length rs'.length).all ok) :
    dev.ReadsSuffice k strips ok ∧
      rs'.length = (dev.readFailures k strips ok).length * (dev.diskCount - 1) := by
  rcases hexit with ⟨hnil, rfl⟩ | ⟨hone, hrebuild, hok⟩
  · exact ⟨Or.inl hnil, by rw [hnil]; simp⟩
  · rw [hreads.length, hrebuild.length] at hok
    exact ⟨Or.inr ⟨hone, hok⟩, by rw [hone, hrebuild.length, Nat.one_mul]⟩

theorem not_readsSuffice_of_two (h : 2 ≤ (dev.readFailures k strips ok).length) :
    ¬ dev.ReadsSuffice k strips ok := by
  intro hsuffice
  rcases hsuffice with hnil | ⟨hone, _⟩
  · rw [hnil] at h
    cases h
  · omega

theorem not_readsSuffice_of_lost {rs rs' : List ChildReq} (hreads : FirstReads dev k strips rs)
    (hrebuild : RebuildReads dev rs') (hone : (dev.readFailures k strips ok).length = 1)
    (hlost : ¬ (List.range' rs.length rs'.length).all ok) : ¬ dev.ReadsSuffice k strips ok := by
  intro hsuffice
  rcases hsuffice with hnil | ⟨_, hok⟩
  · rw [hnil] at hone
    cases hone
  · rw [hreads.length, hrebuild.length] at hlost
    exact hlost hok

/-- A partial write returns unless a shift panics. -/
theorem PartialWrite.returned_iff (h : PartialWrite dev k overflowChecks sender ok strips r) :
    r.1 = some () ↔ ¬ Overflows overflowChecks (dev.readFailures k strips ok) ∧
      (dev.ReadsSuffice k strips ok →
        ¬ Overflows overflowChecks (dev.writeFailures k strips ok)) := by
  cases h with
  | overflow _ hover => simp [hover]
  | twoFailed _ hover htwo =>
    exact iff_of_true rfl ⟨hover, fun hread => absurd hread (not_readsSuffice_of_two htwo)⟩
  | notRebuilt hreads hrebuild hover hone hlost =>
    exact iff_of_true rfl
      ⟨hover, fun hread => absurd hread (not_readsSuffice_of_lost hreads hrebuild hone hlost)⟩
  | written hreads hover hexit _ _ hphase =>
    obtain ⟨hread, hlen⟩ := readable_of_exit hreads hexit
    rw [failing_partialReqs hreads hlen] at hphase
    cases hphase with
    | overflow hwide => simp [hover, hread, hwide]
    | completed hnone => simp [hover, hnone]

theorem RebuildReads.exists_mem {rs : List ChildReq} (h : RebuildReads dev rs) :
    ∃ r ∈ rs, r.kind = .rebuild := by
  have hlen := h.length
  have hdisks := dev.disks_ge
  obtain ⟨r, hr⟩ := List.exists_mem_of_length_pos (l := rs) (by omega)
  exact ⟨r, hr, h.kind r hr⟩

end phases

/-! ## At rest -/

section rest
variable {dev : Raid5Bdev} {k : Nat} {sender : SpdkThread} {io : BdevIo} {s : Proc B}
  {strips : List Strip} {overflowChecks : Bool} {r : Option Unit × Ledger}

/-- The child I/Os of a request whose counted failures fit the mask overflow in no build. -/
theorem Proc.FailuresFit.not_overflows (h : s.FailuresFit) (overflowChecks : Bool) {kind : Kind}
    (hkind : kind = .fetch ∨ kind = .store) : ¬ Overflows overflowChecks (s.ended kind false) := by
  rw [not_overflows_iff]
  intro _ d hd
  rcases hkind with rfl | rfl
  · exact h d (List.mem_append_left _ hd)
  · exact h d (List.mem_append_right _ hd)

/-- At rest, the failures of the two counted phases of a partial write. -/
theorem PartialWrite.failures (h : PartialWrite dev k overflowChecks sender s.ok strips r)
    (hall : s.AllDone) (hr : r.2 = s.ledger) :
    s.ended .fetch false = dev.readFailures k strips s.ok ∧
      (¬ Overflows overflowChecks (dev.readFailures k strips s.ok) ∧
          dev.ReadsSuffice k strips s.ok ∧
          s.ended .store false = dev.writeFailures k strips s.ok ∨
        (Overflows overflowChecks (dev.readFailures k strips s.ok) ∨
          ¬ dev.ReadsSuffice k strips s.ok) ∧ s.ended .store false = []) := by
  have hreqs : s.reqs = r.2.reqs := (congrArg Ledger.reqs hr).symm
  cases h with
  | overflow hreads hover =>
    refine ⟨hreads.ended hall (hreqs.trans (List.append_nil _).symm) (List.forall_mem_nil _),
      Or.inr ⟨Or.inl hover, ended_nil (fun x hx => ?_) _⟩⟩
    rw [hreqs] at hx
    exact hreads.not_store hx
  | twoFailed hreads hover htwo =>
    refine ⟨hreads.ended hall (hreqs.trans (List.append_nil _).symm) (List.forall_mem_nil _),
      Or.inr ⟨Or.inr (not_readsSuffice_of_two htwo), ended_nil (fun x hx => ?_) _⟩⟩
    rw [hreqs] at hx
    exact hreads.not_store hx
  | notRebuilt hreads hrebuild hover hone hlost =>
    refine ⟨hreads.ended hall hreqs fun x hx => ?_, Or.inr ⟨Or.inr
      (not_readsSuffice_of_lost hreads hrebuild hone hlost), ended_nil (fun x hx => ?_) _⟩⟩
    · rw [hrebuild.kind x hx]
      exact fun h => by cases h
    · rw [hreqs] at hx
      exact not_store_of_reads hreads hrebuild.kind x hx
  | written hreads hover hexit _ _ hphase =>
    obtain ⟨hread, hlen⟩ := readable_of_exit hreads hexit
    have hrebuilds := rebuild_of_exit hexit
    have hstores := hphase.ended hall hr (not_store_of_reads hreads hrebuilds)
      fun x => store_of_mem_partialReqs
    refine ⟨(reads_of_written hall (hreqs.trans hphase.reqs) hreads hrebuilds hexit).1,
      Or.inl ⟨hover, hread, ?_⟩⟩
    rw [hstores, failing_partialReqs hreads hlen]

/-- A partial write whose counted failures fit the mask ends as the exact sets have it. -/
theorem PartialWrite.exact (h : PartialWrite dev k overflowChecks sender s.ok strips r)
    (hfit : ¬ dev.crossesStripe io) (hall : s.AllDone) (hr : r.2 = s.ledger)
    (hlow : s.FailuresFit) : s.EndsExactly dev sender io := by
  have hreqs : s.reqs = r.2.reqs := (congrArg Ledger.reqs hr).symm
  have hcompletions : s.completions = r.2.completions := (congrArg Ledger.completions hr).symm
  have hended := h.failures hall hr
  have hreadsFit := hlow.not_overflows overflowChecks (Or.inl rfl)
  have hstoresFit := hlow.not_overflows overflowChecks (Or.inr rfl)
  rw [hended.1] at hreadsFit
  cases h with
  | overflow _ hover => exact absurd hover hreadsFit
  | twoFailed hreads hover htwo =>
    rw [← hended.1] at htwo
    have hrebuild : ∀ x ∈ s.reqs, x.kind ≠ .rebuild := by
      intro x hx
      rw [hreqs] at hx
      rw [hreads.kind x hx]
      exact fun h => by cases h
    have hstore : ∀ x ∈ s.reqs, x.kind ≠ .store := by
      intro x hx
      rw [hreqs] at hx
      exact hreads.not_store hx
    refine ⟨?_, iff_of_false ?_ (by omega), iff_of_false ?_ fun h => by omega⟩
    · rw [hcompletions, Raid5Bdev.exactStatus, if_pos (Or.inr (Or.inl htwo))]
    · exact fun ⟨x, hx, hk⟩ => hrebuild x hx hk
    · exact fun ⟨x, hx, hk⟩ => hstore x hx hk
  | notRebuilt hreads hrebuild hover hone hlost =>
    rw [← hended.1] at hone
    have hfailed := hrebuild.ended hall (hreqs.trans (List.append_nil _).symm)
      (fun x hx => by rw [hreads.kind x hx]; exact fun h => by cases h) (List.forall_mem_nil _)
    have hne := mt hfailed.mp hlost
    have hstore : ∀ x ∈ s.reqs, x.kind ≠ .store := by
      intro x hx
      rw [hreqs] at hx
      exact not_store_of_reads hreads hrebuild.kind x hx
    refine ⟨?_, iff_of_true ?_ hone, iff_of_false ?_ fun h => hne h.2.2⟩
    · rw [hcompletions, Raid5Bdev.exactStatus, if_pos (Or.inr (Or.inr (Or.inl hne)))]
    · obtain ⟨x, hx, hk⟩ := hrebuild.exists_mem
      exact ⟨x, hreqs ▸ List.mem_append_right _ hx, hk⟩
    · exact fun ⟨x, hx, hk⟩ => hstore x hx hk
  | written hreads hover hexit _ _ hphase =>
    have hrebuilds := rebuild_of_exit hexit
    have hall_reqs := hreqs.trans hphase.reqs
    obtain ⟨_, hone, hrebuilt⟩ := reads_of_written hall hall_reqs hreads hrebuilds hexit
    have hstores := hphase.ended hall hr (not_store_of_reads hreads hrebuilds)
      fun x => store_of_mem_partialReqs
    rw [← hstores] at hphase
    refine ⟨?_, ?_, iff_of_true ?_ ⟨hfit, hone, hrebuilt⟩⟩
    · cases hphase with
      | overflow hwide => exact absurd hwide hstoresFit
      | completed =>
        rw [hcompletions, hrebuilt, dev.exactStatus_written hfit hone]
        rfl
    · rw [hall_reqs, hended.1]
      rcases hexit with ⟨hnil, rfl⟩ | ⟨hone, hrebuild, _⟩
      · rw [hnil]
        refine iff_of_false ?_ (by simp)
        intro h
        obtain ⟨x, hx, hk⟩ := h
        rcases List.mem_append.mp hx with hx | hx
        · rw [List.append_nil] at hx
          rw [hreads.kind x hx] at hk
          cases hk
        · rw [store_of_mem_partialReqs hx] at hk
          cases hk
      · obtain ⟨x, hx, hk⟩ := hrebuild.exists_mem
        exact iff_of_true
          ⟨x, List.mem_append_left _ (List.mem_append_right _ hx), hk⟩ hone
    · obtain ⟨x, hx⟩ := List.exists_mem_of_ne_nil _ partialReqs_ne_nil
      exact ⟨x, hall_reqs ▸ List.mem_append_right _ hx, store_of_mem_partialReqs hx⟩

/-- The disks of the child writes of a full stripe that fail. -/
def Raid5Bdev.fullFailures (dev : Raid5Bdev) (ok : Nat → Bool) : List Nat :=
  failing ok ((List.range dev.diskCount).zip (List.range' 0 dev.diskCount))

theorem failing_fullReqs {ok : Nat → Bool} {p : Io} :
    failing ok (((dev.fullReqs k p).map (·.disk)).zip
      (List.range' 0 (dev.fullReqs k p).length)) = dev.fullFailures ok := by
  rw [fullReqs_disks, length_fullReqs]
  rfl

/-- At rest, the child I/Os of a full-stripe write and those that have failed. -/
theorem WritePhase.failures_full {bufs : Nat} {p : Io} (h : WritePhase overflowChecks sender s.ok
      ⟨bufs, [], []⟩ (dev.fullReqs k p) (dev.fullFailures s.ok) r)
    (hall : s.AllDone) (hr : r.2 = s.ledger) :
    (∀ x ∈ s.reqs, x.kind = .store) ∧ s.reqs ≠ [] ∧ s.ended .fetch false = [] ∧
      s.ended .rebuild false = [] ∧ s.ended .store false = dev.fullFailures s.ok := by
  have hkind : ∀ x ∈ dev.fullReqs k p, x.kind = .store := by
    intro x hx
    obtain ⟨d, _, rfl⟩ := mem_fullReqs.mp hx
    rfl
  have hreqs : s.reqs = dev.fullReqs k p := by
    have hledger : r.2.reqs = s.reqs := congrArg Ledger.reqs hr
    rw [← hledger, h.reqs]
    rfl
  have hnone : ∀ kind, kind ≠ .store → ∀ x ∈ s.reqs, x.kind ≠ kind := by
    intro kind hk x hx he
    rw [hreqs] at hx
    exact hk (he.symm.trans (hkind x hx))
  have hne : dev.fullReqs k p ≠ [] :=
    List.ne_nil_of_mem (mem_fullReqs.mpr ⟨_, dev.parityDiskIdx_lt k, rfl⟩)
  rw [← failing_fullReqs (k := k) (p := p)] at h ⊢
  exact ⟨hreqs ▸ hkind, hreqs ▸ hne, ended_nil (hnone .fetch Kind.fetch_ne_store) false,
    ended_nil (hnone .rebuild Kind.rebuild_ne_store) false,
    h.ended hall hr (List.forall_mem_nil _) hkind⟩

/-- A full-stripe write whose failures fit the mask ends as the exact set has it. -/
theorem WritePhase.exact_full {bufs : Nat} {p : Io} (h : WritePhase overflowChecks sender s.ok
      ⟨bufs, [], []⟩ (dev.fullReqs k p) (dev.fullFailures s.ok) r)
    (hfit : ¬ dev.crossesStripe io) (hall : s.AllDone) (hr : r.2 = s.ledger)
    (hlow : s.FailuresFit) : s.EndsExactly dev sender io := by
  obtain ⟨hkind, hne, hfetch, hrebuild, hstores⟩ := h.failures_full hall hr
  have hcompletions : r.2.completions = s.completions := congrArg Ledger.completions hr
  refine ⟨?_, iff_of_false ?_ (by simp [hfetch]), iff_of_true ?_ ⟨hfit, by simp [hfetch], hrebuild⟩⟩
  · rw [hrebuild, dev.exactStatus_written hfit (by simp [hfetch]), ← hcompletions]
    rw [← hstores] at h
    cases h with
    | overflow hwide => exact absurd hwide (hlow.not_overflows overflowChecks (Or.inr rfl))
    | completed => rfl
  · intro h
    obtain ⟨x, hx, hk⟩ := h
    rw [hkind x hx] at hk
    cases hk
  · obtain ⟨x, hx⟩ := List.exists_mem_of_ne_nil _ hne
    exact ⟨x, hx, hkind x hx⟩

end rest

/-! ## When the mask is harmless -/

theorem processReq_write {dev : Raid5Bdev} {overflowChecks : Bool} {k : Nat} {io : BdevIo}
    {sender : SpdkThread} (hw : io.ioType = .write) (hfit : ¬ dev.crossesStripe io) :
    processReq dev overflowChecks k ⟨io, sender⟩ = write dev overflowChecks sender io k := by
  simp only [processReq, if_neg hfit, hw]

theorem processReq_crossing {dev : Raid5Bdev} {overflowChecks : Bool} {k : Nat} {io : BdevIo}
    {sender : SpdkThread} (hcross : dev.crossesStripe io) :
    processReq dev overflowChecks k ⟨io, sender⟩ = completeOn sender .failure := by
  simp only [processReq, if_pos hcross]

theorem WritePhase.returned_iff {overflowChecks : Bool} {sender : SpdkThread} {ok : Nat → Bool}
    {l : Ledger} {rs : List ChildReq} {failed : List Nat} {r : Option Unit × Ledger}
    (h : WritePhase overflowChecks sender ok l rs failed r) :
    r.1 = some () ↔ ¬ Overflows overflowChecks failed := by
  cases h with
  | overflow hwide => simp [hwide]
  | completed hnone => simp [hnone]

section write
variable {dev : Raid5Bdev} {k : Nat} {sender : SpdkThread} {io : BdevIo} {s : Proc B}
  {overflowChecks : Bool}

/-- The failures fit the mask if a build with overflow checks gets past them. -/
theorem failuresFit_iff : s.FailuresFit ↔
    ¬ Overflows true (s.ended .fetch false) ∧ ¬ Overflows true (s.ended .store false) := by
  rw [not_overflows_iff, not_overflows_iff]
  simp only [true_imp_iff]
  exact List.forall_mem_append

/-- A full-stripe write: how it ends, and its replay in a build with overflow checks. -/
theorem writeFullStripe_mask (hk : dev.stripeIdx io.offsetBlocks = k)
    (hfit : ¬ dev.crossesStripe io) (hfull : dev.stripeOffset io.offsetBlocks = 0 ∧
      io.numBlocks = dev.stripeBlocks) (hall : s.AllDone)
    (hr : ((writeFullStripe dev overflowChecks sender io k).replay (answer s.ok)
      ⟨1, [], []⟩).2 = s.ledger) :
    (s.FailuresFit → s.EndsExactly dev sender io) ∧
      (((writeFullStripe dev true sender io k).replay (answer s.ok) ⟨1, [], []⟩).1 = some () ↔
        s.FailuresFit) := by
  have hwrite : ∀ checks, ∃ p : Io, WritePhase checks sender s.ok ⟨2, [], []⟩ (dev.fullReqs k p)
      (dev.fullFailures s.ok)
      ((writeFullStripe dev checks sender io k).replay (answer s.ok) ⟨1, [], []⟩) := by
    intro checks
    obtain ⟨p, h⟩ := @replay_writeFullStripe s.ok ⟨1, [], []⟩ checks sender dev k io
      hfull.1 hfull.2 hk rfl
    rw [failing_fullReqs] at h
    exact ⟨p, h⟩
  obtain ⟨p, hphase⟩ := hwrite overflowChecks
  obtain ⟨_, hchecked⟩ := hwrite true
  obtain ⟨_, _, hfetch, _, hstores⟩ := hphase.failures_full hall hr
  refine ⟨hphase.exact_full hfit hall hr, ?_⟩
  rw [hchecked.returned_iff, failuresFit_iff, hfetch, hstores]
  simp [Overflows]

/-- A partial write: how it ends, and its replay in a build with overflow checks. -/
theorem writePartialStripe_mask (hk : dev.stripeIdx io.offsetBlocks = k)
    (hfit : ¬ dev.crossesStripe io) (hall : s.AllDone)
    (hr : ((writePartialStripe dev overflowChecks sender io k).replay (answer s.ok)
      ⟨1, [], []⟩).2 = s.ledger) :
    (s.FailuresFit → s.EndsExactly dev sender io) ∧
      (((writePartialStripe dev true sender io k).replay (answer s.ok) ⟨1, [], []⟩).1 = some () ↔
        s.FailuresFit) := by
  obtain ⟨strips, hstrips, _, hwrite⟩ := @replay_writePartialStripe s.ok ⟨1, [], []⟩
    overflowChecks sender dev k io hk hfit rfl rfl
  obtain ⟨strips', hstrips', _, hchecked⟩ := @replay_writePartialStripe s.ok ⟨1, [], []⟩
    true sender dev k io hk hfit rfl rfl
  cases hstrips.symm.trans hstrips'
  refine ⟨hwrite.exact hfit hall hr, ?_⟩
  obtain ⟨hfetch, hcase⟩ := hwrite.failures hall hr
  rw [hchecked.returned_iff, failuresFit_iff, hfetch]
  rcases hcase with ⟨_, hsuffice, hstores⟩ | ⟨hstop, hstores⟩
  · rw [hstores]
    simp [hsuffice]
  · -- no child write: the reads do not suffice, or they have failed past the mask already
    rw [hstores]
    refine and_congr_right fun hfew => iff_of_true (fun hsuffice => ?_) (by simp [Overflows])
    rcases hstop with hwide | hno
    · exact absurd ⟨rfl, hwide.2⟩ hfew
    · exact absurd hsuffice hno

/-- A request for a write: how it ends, and its replay in a build with overflow checks. -/
theorem processReq_mask (hw : io.ioType = .write) (hk : dev.stripeIdx io.offsetBlocks = k)
    (hall : s.AllDone)
    (hr : ((processReq dev overflowChecks k ⟨io, sender⟩).replay (answer s.ok)
      ⟨1, [], []⟩).2 = s.ledger) :
    (s.FailuresFit → s.EndsExactly dev sender io) ∧
      (((processReq dev true k ⟨io, sender⟩).replay (answer s.ok) ⟨1, [], []⟩).1 = some () ↔
        s.FailuresFit) := by
  by_cases hcross : dev.crossesStripe io
  · -- refused with no child I/O
    rw [processReq_crossing hcross] at hr ⊢
    have hreqs : s.reqs = [] := (congrArg Ledger.reqs hr).symm
    have hcompletions : s.completions = [(sender, .failure)] :=
      (congrArg Ledger.completions hr).symm
    have hended : ∀ kind, s.ended kind false = [] := fun kind =>
      ended_nil (by rw [hreqs]; exact List.forall_mem_nil _) false
    refine ⟨fun _ => ⟨?_, ?_, ?_⟩, iff_of_true rfl ?_⟩
    · rw [hcompletions, Raid5Bdev.exactStatus, if_pos (Or.inl hcross)]
    · simp [hreqs, hended]
    · simp [hreqs, hcross]
    · simp [Proc.FailuresFit, hended]
  · rw [processReq_write hw hcross] at hr ⊢
    unfold write at hr ⊢
    by_cases hfull : dev.stripeOffset io.offsetBlocks = 0 ∧ io.numBlocks = dev.stripeBlocks
    · simp only [if_pos hfull] at hr ⊢
      exact writeFullStripe_mask hk hcross hfull hall hr
    · simp only [if_neg hfull] at hr ⊢
      exact writePartialStripe_mask hk hcross hall hr

end write

/-- **When the mask of a write is harmless.** Children may fail any child I/O. Every schedule
of a write request stops; at rest the mask has done no harm if and only if no disk numbered 64
or more has failed a child I/O that is counted. -/
theorem mask_harmless_iff [XorGroup B] (dev : Raid5Bdev) (overflowChecks : Bool)
    (sender : SpdkThread) {io : BdevIo} (hw : io.ioType = .write) (late : Bool)
    {mem disks : Nat → Nat → B} {es : List (Event B)} {u : Running B}
    (hrun : run (Running.next dev (.any late) (dev.stripeIdx io.offsetBlocks))
      (processReq dev overflowChecks (dev.stripeIdx io.offsetBlocks) ⟨io, sender⟩,
        Proc.start mem disks) es = some u) :
    Stops (Running.next dev (.any late) (dev.stripeIdx io.offsetBlocks)) Event.Inner u ∧
    (u.AtRest dev (.any late) (dev.stripeIdx io.offsetBlocks) →
      (u.2.MaskHarmless dev overflowChecks sender io ↔ u.2.FailuresFit)) := by
  refine ⟨Running.stops u, fun hrest => ?_⟩
  have hall := hrest.allDone fun x => Or.inl rfl
  have hledger := (hrest.replay (fun x => Or.inl rfl) hrun).1
  have hstart : (Proc.start mem disks).ledger = ⟨1, [], []⟩ := rfl
  rw [hstart] at hledger
  obtain ⟨hexact, hshifts⟩ := processReq_mask hw rfl hall hledger
  refine ⟨fun hh => hshifts.mp hh.shifts, fun hlow => ⟨hexact hlow, hshifts.mpr hlow, ?_⟩⟩
  intro kind hkind
  rcases counters_spec overflowChecks hall with ⟨hover, _⟩ | ⟨_, f, hf, hc⟩
  · exact absurd hover (hlow.not_overflows overflowChecks hkind)
  · exact ⟨f, hc, hf.error _⟩

open Ironspdk.Raid1 in
/-- **When the failure masks are harmless.** Children may fail any child I/O. At rest, a RAID5
write request has met no shift by 64 or more, in any build, and has ended as the exact sets of
failed disks have it, if and only if no disk numbered 64 or more has failed a child I/O that is
counted; and so have the writes of a mirror, if and only if no child numbered 64 or more has
failed one of them. -/
theorem fail_masks_harmless_iff {B : Type} [XorGroup B] (overflowChecks : Bool) :
    (∀ (dev : Raid5Bdev) (sender : SpdkThread) (io : BdevIo), io.ioType = .write →
      ∀ (late : Bool) (mem disks : Nat → Nat → B) (es : List (Event B)) (u : Running B),
      run (Running.next dev (.any late) (dev.stripeIdx io.offsetBlocks))
        (processReq dev overflowChecks (dev.stripeIdx io.offsetBlocks) ⟨io, sender⟩,
          Proc.start mem disks) es = some u →
      Stops (Running.next dev (.any late) (dev.stripeIdx io.offsetBlocks)) Event.Inner u ∧
      (u.AtRest dev (.any late) (dev.stripeIdx io.offsetBlocks) →
        (u.2.MaskHarmless dev overflowChecks sender io ↔
          ∀ d ∈ u.2.ended .fetch false ++ u.2.ended .store false, d < 64))) ∧
    ∀ (n : Nat), 0 < n → ∀ (disks : Nat → Nat → B) (es : List (MirrorEvent B)) (s : Mirror B),
      run Mirror.next (Mirror.start n overflowChecks disks) es = some s → s.AtRest →
      (s.MaskHarmless n ↔ ∀ r < s.count, (s.req r).io.ioType = .write →
        ∀ c ∈ (s.req r).failed n, c < 64) :=
  ⟨fun dev sender _ hw late _ _ _ _ hrun =>
    mask_harmless_iff dev overflowChecks sender hw late hrun,
    fun _ hn _ _ _ hrun hrest => Mirror.mask_harmless_iff hn hrun hrest⟩

open Ironspdk.Raid1 in
/-- A write to two children, of which the second one fails. -/
def oneFailedChild : List (MirrorEvent Byte) :=
  [.submit 0 ⟨.write, 0, 1⟩ 0, .serve 0 0, .fail 0 1 0, .finish 0 0, .resume 0, .resume 0]

open Ironspdk.Raid1 in
theorem fail_masks_harmless_iff_oneFailed :
    (∃ u, run (Running.next smallArray (.any false) 0)
      (processReq smallArray true 0 ⟨⟨.write, 0, 4⟩, 7⟩, Proc.start 0 0) (oneFailedWrite 0) =
        some u ∧ u.2.MaskHarmless smallArray true 7 ⟨.write, 0, 4⟩) ∧
    ∃ s, run Mirror.next (Mirror.start 2 true (0 : Nat → Nat → Byte)) oneFailedChild = some s ∧
      s.MaskHarmless 2 := by
  constructor
  · have hrun : (run (Running.next smallArray (.any false) 0)
        (processReq smallArray true 0 ⟨⟨.write, 0, 4⟩, 7⟩, Proc.start 0 0)
          (oneFailedWrite 0)).map (fun c => (c.over, c.2.ended .fetch false,
            c.2.ended .store false)) = some (true, [], [0]) := by decide
    obtain ⟨u, hu, hend⟩ := Option.map_eq_some_iff.mp hrun
    obtain ⟨hover, hfetch, hstore⟩ : u.over = true ∧ u.2.ended .fetch false = [] ∧
        u.2.ended .store false = [0] := by
      simpa using hend
    refine ⟨u, hu, (((fail_masks_harmless_iff true).1 smallArray 7 ⟨.write, 0, 4⟩ rfl false 0 0
      (oneFailedWrite 0) u hu).2 (Running.atRest_of_over hover)).mpr ?_⟩
    rw [hfetch, hstore]
    decide
  · obtain ⟨s, hs⟩ : ∃ s, run Mirror.next (Mirror.start 2 true (0 : Nat → Nat → Byte))
        oneFailedChild = some s :=
      ⟨(run Mirror.next (Mirror.start 2 true 0) oneFailedChild).get (by decide),
        (Option.some_get _).symm⟩
    have hat : s = (run Mirror.next (Mirror.start 2 true 0) oneFailedChild).get (by decide) := by
      simp [hs]
    have hrest : s.AtRest := (Mirror.Masked.run (by decide) hs).ok.atRest (by rw [hat]; decide)
    have hlow := (fail_masks_harmless_iff true).2 2 (by decide) 0 oneFailedChild s hs hrest
    exact ⟨s, hs, hlow.mpr (by rw [hat]; decide)⟩

open Ironspdk.Raid1 in
/-- A write to 65 children, of which the last one fails. -/
def lateFailure : List (MirrorEvent Byte) :=
  [.submit 0 ⟨.write, 0, 1⟩ 0] ++
    (List.range 64).flatMap (fun c => [.serve 0 c, .finish 0 c]) ++ [.fail 0 64 0] ++
    List.replicate 65 (.resume 0)

open Ironspdk.Raid1 in
/-- With overflow checks, a write that disk 64 fails panics, of an array and of a mirror. -/
theorem late_failure_panics :
    (¬ ∀ (io : BdevIo), io.ioType = .write → ∀ (es : List (Event Byte)) (u : Running Byte),
      run (Running.next wideArray (.any false) (wideArray.stripeIdx io.offsetBlocks))
        (processReq wideArray true (wideArray.stripeIdx io.offsetBlocks) ⟨io, 7⟩,
          Proc.start 0 0) es = some u →
      u.AtRest wideArray (.any false) (wideArray.stripeIdx io.offsetBlocks) →
      u.2.MaskHarmless wideArray true 7 io) ∧
    ¬ ∀ (es : List (MirrorEvent Byte)) (s : Mirror Byte),
      run Mirror.next (Mirror.start 65 true 0) es = some s → s.AtRest → s.MaskHarmless 65 := by
  constructor
  · intro h
    have hrun : (run (Running.next wideArray (.any false) 0)
        (processReq wideArray true 0 ⟨⟨.write, 63, 1⟩, 7⟩, Proc.start 0 0) lostRead).map
          (fun c => (c.over, c.2.completions)) = some (true, []) := by decide
    obtain ⟨u, hu, hend⟩ := Option.map_eq_some_iff.mp hrun
    obtain ⟨hover, hcompleted⟩ : u.over = true ∧ u.2.completions = [] := by simpa using hend
    have hstatus := (h ⟨.write, 63, 1⟩ rfl lostRead u hu (Running.atRest_of_over hover)).status
    rw [hcompleted] at hstatus
    cases hstatus
  · intro h
    have hrun : (run Mirror.next (Mirror.start 65 true (0 : Nat → Nat → Byte)) lateFailure).map
        (·.panicked) = some true := by decide +kernel
    obtain ⟨s, hs, hpanicked⟩ := Option.map_eq_some_iff.mp hrun
    have hrunning := (h lateFailure s hs (Mirror.atRest_of_panicked hpanicked)).running
    rw [hpanicked] at hrunning
    cases hrunning

end Ironspdk.Raid5
