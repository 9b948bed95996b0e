import Mathlib.Data.List.Basic
import Ironspdk.Lib.Replay
import Ironspdk.Raid5.Serialize

/-! # Statuses decide

How a request ends is a matter of the statuses of its child I/Os alone: which I/Os it submits
and how it is completed can be read off a replay of its program on these statuses, whatever
the schedule was. At rest, when nothing can happen to the request any more, every child I/O
has ended, so that the statuses are known. -/
namespace Ironspdk.Raid5
open Ironspdk.Lib Ironspdk.Runtime

variable {B : Type} {α β γ : Type}

/-! ## The ledger of a request -/

/-- What of the state of a request its program depends on, apart from statuses. -/
structure Ledger where
  bufs : Nat
  reqs : List ChildReq
  completions : List (SpdkThread × IoStatus)
  deriving DecidableEq, Repr

def Proc.ledger (s : Proc B) : Ledger := ⟨s.bufs, s.reqs, s.completions⟩

/-- What an operation returns when child I/O `c` ends with status `ok c`. -/
def answer (ok : Nat → Bool) : (o : Op) → Ledger → Option (Res o × Ledger)
  | .alloc _, l => some (l.bufs, { l with bufs := l.bufs + 1 })
  | .xor .., l | .copy .., l | .drop _, l => some ((), l)
  | .submit req, l => some (l.reqs.length, { l with reqs := l.reqs ++ [req] })
  | .await c, l => if c < l.reqs.length then some (ok c, l) else none
  | .complete sender status, l =>
    some ((), { l with completions := l.completions ++ [(sender, status)] })
  | .panic _, _ => none

/-- The status that child I/O `c` has ended with. -/
def Proc.ok (s : Proc B) (c : Nat) : Bool := s.ios[c]?.any (·.phase = .done true)

/-- The disks of the child I/Os of a kind that have ended with a status. -/
def Proc.ended (s : Proc B) (kind : Kind) (ok : Bool) : List Nat :=
  (s.ios.filter fun x => x.req.kind = kind ∧ x.phase = .done ok).map (·.req.disk)

theorem Proc.Done.ok_eq {s : Proc B} {c : Nat} {b : Bool} (h : s.Done c b) : s.ok c = b := by
  obtain ⟨x, hx, hb⟩ := h
  rw [Proc.ok, hx, Option.any_some, hb]
  cases b <;> rfl

/-- An operation leaves the child I/Os alone that are there. -/
theorem perform_ios [Add B] [Zero B] {s t : Proc B} {o : Op} {r : Res o}
    (h : perform o s = some (r, t)) {c : Nat} {x : ChildIo B} (hx : s.ios[c]? = some x) :
    t.ios[c]? = some x := by
  cases o with
  | await d =>
    simp only [perform] at h
    split at h
    · cases h
      exact hx
    · cases h
  | panic msg => cases h
  | submit req =>
    cases h
    exact (List.getElem?_append_left (List.getElem?_eq_some_iff.mp hx).1).trans hx
  | _ =>
    cases h
    exact hx

theorem perform_done [Add B] [Zero B] {s t : Proc B} {o : Op} {r : Res o}
    (h : perform o s = some (r, t)) {c : Nat} {b : Bool} (hd : s.Done c b) : t.Done c b := by
  obtain ⟨x, hx, hb⟩ := hd
  exact ⟨x, perform_ios h hx, hb⟩

theorem answer_of_perform [Add B] [Zero B] {s t : Proc B} {o : Op} {r : Res o} {ok : Nat → Bool}
    (h : perform o s = some (r, t)) (hok : ∀ c b, s.Done c b → ok c = b) :
    answer ok o s.ledger = some (r, t.ledger) := by
  cases o with
  | await c =>
    simp only [perform] at h
    split at h
    · rename_i hx
      cases h
      have hlt : c < s.ledger.reqs.length := by
        rw [Proc.ledger, length_reqs]
        exact (List.getElem?_eq_some_iff.mp hx).1
      simp only [answer, if_pos hlt, hok c r ⟨_, hx, rfl⟩]
    · cases h
  | submit req =>
    cases h
    simp [answer, Proc.ledger, Proc.reqs]
  | panic msg => cases h
  | _ =>
    cases h
    rfl

/-! ## Runs of one request -/

/-- Events of the request itself. -/
def Event.Inner : Event B → Prop
  | .others .. => False
  | _ => True

/-- Nothing can happen to the request any more. -/
def Running.AtRest [Add B] [Zero B] (dev : Raid5Bdev) (ch : Children) (stripe : Nat)
    (c : Running B) : Prop :=
  ∀ e : Event B, e.Inner → c.next dev ch stripe e = none

section runs
variable [XorGroup B] {dev : Raid5Bdev} {ch : Children} {stripe : Nat} {c u : Running B}

theorem Running.next_kept {e : Event B} (h : c.next dev ch stripe e = some u)
    {i : Nat} {b : Bool} (hd : c.2.Done i b) : u.2.Done i b := by
  cases e with
  | step =>
    obtain ⟨o, k, r, _, hp, _⟩ := stepProg_cases h
    exact perform_done hp hd
  | child e =>
    obtain ⟨t, ht, rfl⟩ := Option.map_eq_some_iff.mp h
    exact (ext_react ht).done' hd
  | others disk row b =>
    simp only [Running.next] at h
    split at h
    · cases h
    · cases h
      exact hd

/-- A step does not change how the request ends, on statuses that agree with those known. -/
theorem Running.replay_next {e : Event B} {ok : Nat → Bool} (h : c.next dev ch stripe e = some u)
    (hok : ∀ i b, u.2.Done i b → ok i = b) :
    c.1.replay (answer ok) c.2.ledger = u.1.replay (answer ok) u.2.ledger := by
  have hold : ∀ i b, c.2.Done i b → ok i = b := fun i b hd => hok i b (next_kept h hd)
  cases e with
  | step =>
    obtain ⟨o, k, r, hop, hp, hu⟩ := stepProg_cases h
    rw [hop, hu]
    exact Prog.replay_op (answer_of_perform hp hold)
  | child e =>
    obtain ⟨t, ht, rfl⟩ := Option.map_eq_some_iff.mp h
    have hext := ext_react ht
    rw [Proc.ledger, Proc.ledger, hext.bufs, hext.reqs, hext.completions]
  | others disk row b =>
    simp only [Running.next] at h
    split at h
    · cases h
    · cases h
      rfl

theorem Running.replay_run {es : List (Event B)} {ok : Nat → Bool}
    (h : run (Running.next dev ch stripe) c es = some u)
    (hok : ∀ i b, u.2.Done i b → ok i = b) :
    c.1.replay (answer ok) c.2.ledger = u.1.replay (answer ok) u.2.ledger := by
  induction es using List.reverseRecOn generalizing u with
  | nil =>
    cases h
    rfl
  | append_singleton es e ih =>
    obtain ⟨t, ht, hu⟩ := run_snoc h
    rw [ih ht fun i b hd => hok i b (next_kept hu hd), replay_next hu hok]

/-- What a request has still to do: its program, its child I/Os. -/
def Running.left (c : Running B) : Task Unit × List Nat := (c.1, c.2.ios.map (·.phase.left))

theorem Running.next_left {e : Event B} (he : e.Inner) (h : c.next dev ch stripe e = some u) :
    Prod.Lex Prog.After (OneLess (· < ·)) u.left c.left := by
  cases e with
  | step =>
    obtain ⟨o, k, r, hop, _, hu⟩ := stepProg_cases h
    exact .left _ _ ⟨o, k, r, hop, hu⟩
  | child e =>
    obtain ⟨v, hv, rfl⟩ := Option.map_eq_some_iff.mp h
    exact .right _ (react_left hv)
  | others => exact absurd he id

omit [XorGroup B] in
theorem Running.left_wf : WellFounded
    (Prod.Lex (Prog.After : Task Unit → Task Unit → Prop) (OneLess fun a b : Nat => a < b)) :=
  WellFounded.prod_lex Prog.after_wf (oneLess_wf Nat.lt_wfRel.wf)

/-- **Every schedule stops**, if other requests do. -/
theorem Running.stops (c : Running B) : Stops (Running.next dev ch stripe) Event.Inner c :=
  stops_of_measure left_wf (I := fun _ => True) (fun _ _ _ _ he hn => ⟨trivial, next_left he hn⟩)
    trivial

theorem Running.exists_atRest (dev : Raid5Bdev) (ch : Children) (stripe : Nat) (c : Running B) :
    ∃ es u, run (Running.next dev ch stripe) c es = some u ∧ u.AtRest dev ch stripe :=
  exists_rest_of_measure left_wf (fun _ _ _ => next_left) c

/-- The program has returned or panicked, and no child I/O is out. -/
def Running.over (c : Running B) : Bool :=
  (match c.1 with
    | .ret _ | .op (.panic _) _ => true
    | _ => false) && decide c.2.AllDone

theorem Running.atRest_of_over (h : c.over = true) : c.AtRest dev ch stripe := by
  obtain ⟨p, s⟩ := c
  obtain ⟨hret, hall⟩ := Bool.and_eq_true_iff.mp h
  have hall : s.AllDone := of_decide_eq_true hall
  intro e he
  cases e with
  | step =>
    cases p with
    | ret a => rfl
    | op o k =>
      cases o with
      | panic msg => rfl
      | _ => cases hret
  | child e =>
    cases hr : ch.react s e with
    | none => simp [Running.next, hr]
    | some t =>
      obtain ⟨i, x, hx, hcase⟩ := react_cases hr
      obtain ⟨b, hb⟩ := hall.at hx
      rcases hcase with ⟨hp, _⟩ | ⟨hp, _⟩ | ⟨hp, _⟩
      all_goals cases hb.symm.trans hp
  | others => exact absurd he id

namespace Running.AtRest

/-- At rest every child I/O has ended, with children that answer. -/
theorem allDone (h : c.AtRest dev ch stripe)
    (hch : ∀ x, ch.allow x true = true ∨ ch.allow x false = true) : c.2.AllDone := by
  refine allDone_iff.mpr fun x hx => ?_
  obtain ⟨i, hi⟩ := List.mem_iff_getElem?.mp hx
  cases hp : x.phase with
  | inFlight =>
    rcases hch x.req.disk with ha | ha
    · have := h (.child (.apply i fun _ => 0)) trivial
      simp [Running.next, Children.react, hi, hp, ha] at this
    · have := h (.child (.fail i fun _ => 0)) trivial
      simp [Running.next, Children.react, hi, hp, ha] at this
  | applied =>
    have := h (.child (.finish i)) trivial
    simp [Running.next, Children.react, hi, hp] at this
  | done b => cases b <;> simp [Phase.Ended]

theorem stuck {o : Op} {f : Res o → Task Unit} {s : Proc B}
    (h : Running.AtRest dev ch stripe (.op o f, s)) : perform o s = none := by
  have := h .step trivial
  simpa [Running.next, stepProg] using this

/-- What is awaited at rest was never submitted. -/
theorem not_submitted {c : Nat} {f : Bool → Task Unit} {s : Proc B}
    (h : Running.AtRest dev ch stripe (.op (.await c) f, s)) (hall : s.AllDone) :
    ¬ c < s.ios.length := by
  intro hlt
  obtain ⟨b, x, hx, hb⟩ := hall c hlt
  obtain ⟨req, data, phase⟩ := x
  cases hb
  have := h.stuck
  simp [perform, hx] at this

/-- **How a request ends.** At rest it has done what the replay of its program on the statuses
of its child I/Os does. -/
theorem replay {es : List (Event B)} (h : u.AtRest dev ch stripe)
    (hch : ∀ x, ch.allow x true = true ∨ ch.allow x false = true)
    (hrun : run (Running.next dev ch stripe) c es = some u) :
    (c.1.replay (answer u.2.ok) c.2.ledger).2 = u.2.ledger ∧
      ((c.1.replay (answer u.2.ok) c.2.ledger).1 = some () ↔ u.1 = .ret ()) := by
  rw [Running.replay_run hrun fun i b hd => hd.ok_eq]
  have hall := h.allDone hch
  obtain ⟨p, s⟩ := u
  cases p with
  | ret a => exact ⟨rfl, Iff.intro (fun _ => rfl) fun _ => rfl⟩
  | op o k =>
    have hnone : answer s.ok o s.ledger = none := by
      cases o with
      | await i =>
        have hge : ¬ i < s.ledger.reqs.length := by
          rw [Proc.ledger, length_reqs]
          exact h.not_submitted hall
        simp only [answer, if_neg hge]
      | panic msg => rfl
      | _ => cases h.stuck
    rw [Prog.replay_halt hnone]
    exact ⟨rfl, by simp⟩

end Running.AtRest

end runs

/-- What a request is proved against when every disk holds its part of the stripe. -/
def stripeSetting (dev : Raid5Bdev) (ch : Children) (k : Nat) (flat : Nat → B) : Setting B :=
  ⟨dev, ch, k, fun _ => False, flat, True, False, True⟩

theorem stripeSetting_live (dev : Raid5Bdev) (ch : Children) (k : Nat) (flat : Nat → B) :
    (stripeSetting dev ch k flat).Live := ⟨trivial, fun _ _ => id⟩

/-! ## Replaying the loops -/

section loops
variable {ok : Nat → Bool} {l : Ledger}

theorem replay_new {blocks : Nat} {k : DmaBuf → Task α} :
    (DmaBuf.new blocks >>= k).replay (answer ok) l =
      (k ⟨l.bufs, blocks⟩).replay (answer ok) { l with bufs := l.bufs + 1 } := rfl

theorem replay_newZeroed {blocks : Nat} {k : DmaBuf → Task α} :
    (DmaBuf.newZeroed blocks >>= k).replay (answer ok) l =
      (k ⟨l.bufs, blocks⟩).replay (answer ok) { l with bufs := l.bufs + 1 } := rfl

theorem replay_newBufs {sizes : List Nat} {k : List DmaBuf → Task α} :
    (newBufs sizes >>= k).replay (answer ok) l =
      (k (numbered l.bufs sizes)).replay (answer ok)
        { l with bufs := l.bufs + sizes.length } := by
  induction sizes generalizing l k with
  | nil => rfl
  | cons n sizes ih =>
    rw [newBufs, Prog.bind_assoc', replay_new, Prog.bind_assoc', ih, List.length_cons,
      Nat.add_right_comm]
    rfl

theorem replay_submitAll {rs : List ChildReq} {k : List Nat → Task α} :
    (submitAll rs >>= k).replay (answer ok) l =
      (k (List.range' l.reqs.length rs.length)).replay (answer ok)
        { l with reqs := l.reqs ++ rs } := by
  induction rs generalizing l k with
  | nil =>
    rw [List.append_nil]
    rfl
  | cons r rs ih =>
    rw [submitAll, Prog.bind_assoc']
    refine (Prog.replay_perform rfl).trans ?_
    rw [Prog.bind_assoc', ih, List.append_assoc, List.length_append, List.length_singleton,
      List.length_cons, List.range'_succ]
    rfl

theorem replay_submitByValue {ios : List (Nat × Io)} {k : List Nat → Task α} :
    (submitByValue ios >>= k).replay (answer ok) l =
      (k (List.range' l.reqs.length ios.length)).replay (answer ok)
        { l with reqs := l.reqs ++ ios.map fun x => ⟨.store, x.1, x.2⟩ } := by
  induction ios generalizing l k with
  | nil =>
    rw [List.map_nil, List.append_nil]
    rfl
  | cons x ios ih =>
    rw [submitByValue, Prog.bind_assoc']
    refine (Prog.replay_perform rfl).trans ?_
    rw [Prog.bind_assoc']
    refine (Prog.replay_perform rfl).trans ?_
    rw [Prog.bind_assoc', ih, List.map_cons, List.append_assoc, List.length_append,
      List.length_singleton, List.length_cons, List.range'_succ]
    rfl

theorem replay_dropAll {rs : List Resource} {k : Unit → Task α} :
    (dropAll rs >>= k).replay (answer ok) l = (k ()).replay (answer ok) l := by
  induction rs with
  | nil => rfl
  | cons r rs ih =>
    rw [dropAll, Prog.bind_assoc']
    exact (Prog.replay_perform rfl).trans ih

theorem replay_xor {dst : DmaBuf} {start len : Nat} {io : Io} {k : Unit → Task α}
    (hin : start + len ≤ dst.blocks) (hlen : io.numBlocks = len) :
    (xor dst start len io >>= k).replay (answer ok) l = (k ()).replay (answer ok) l := by
  rw [xor, if_pos ⟨hin, hlen⟩]
  exact Prog.replay_perform rfl

theorem replay_xorAll {dst : DmaBuf} {ios : List Io} {k : Unit → Task α}
    (h : ∀ io ∈ ios, io.numBlocks = dst.blocks) :
    (xorAll dst ios >>= k).replay (answer ok) l = (k ()).replay (answer ok) l := by
  induction ios with
  | nil => rfl
  | cons io ios ih =>
    obtain ⟨hio, hios⟩ := List.forall_mem_cons.mp h
    rw [xorAll, Prog.bind_assoc', replay_xor (Nat.zero_add _).le hio, ih hios]

theorem replay_xorStrips {dst : DmaBuf} {segs : List (Strip × Io)} {k : Unit → Task α}
    (h : ∀ x ∈ segs, x.1.offsetInStrip + x.1.blocks ≤ dst.blocks ∧
      x.2.numBlocks = x.1.blocks ∧ x.1.io.numBlocks = x.1.blocks) :
    (xorStrips dst segs >>= k).replay (answer ok) l = (k ()).replay (answer ok) l := by
  induction segs with
  | nil => rfl
  | cons x segs ih =>
    obtain ⟨⟨hin, hold, hnew⟩, hsegs⟩ := List.forall_mem_cons.mp h
    rw [xorStrips, Prog.bind_assoc', replay_xor hin hold, Prog.bind_assoc', replay_xor hin hnew,
      ih hsegs]

theorem replay_await {c : Nat} {k : Bool → Task α} (hc : c < l.reqs.length) :
    (Prog.perform (Op.await c) >>= k).replay (answer ok) l = (k (ok c)).replay (answer ok) l :=
  Prog.replay_perform (if_pos hc)

theorem replay_panic {msg : String} {k : β → Task α} :
    ((panic msg : Task β) >>= k).replay (answer ok) l = (none, l) :=
  Prog.replay_halt rfl

theorem replay_awaitUntilFailure {cs : List Nat} {k : Bool → Task α}
    (hcs : ∀ c ∈ cs, c < l.reqs.length) :
    (awaitUntilFailure cs >>= k).replay (answer ok) l =
      (k (cs.all ok)).replay (answer ok) l := by
  induction cs with
  | nil => rfl
  | cons c cs ih =>
    obtain ⟨hc, hcs⟩ := List.forall_mem_cons.mp hcs
    rw [awaitUntilFailure, Prog.bind_assoc', replay_await hc]
    cases hok : ok c with
    | true =>
      rw [if_pos rfl, ih hcs, List.all_cons, hok, Bool.true_and]
    | false =>
      rw [if_neg Bool.false_ne_true, List.all_cons, hok, Bool.false_and]
      rfl

/-- The labels of the futures that fail. -/
def failing (ok : Nat → Bool) (futs : List (γ × Nat)) : List γ :=
  (futs.filter fun f => !ok f.2).map (·.1)

theorem failing_cons (ok : Nat → Bool) (f : γ × Nat) (futs : List (γ × Nat)) :
    failing ok (f :: futs) = if ok f.2 then failing ok futs else f.1 :: failing ok futs := by
  unfold failing
  cases h : ok f.2 <;> simp [h]

theorem replay_awaitFailed {futs : List (Nat × Nat)} {failed : List Nat} {k : List Nat → Task α}
    (hfuts : ∀ f ∈ futs, f.2 < l.reqs.length) :
    (awaitEach pushFailed futs failed >>= k).replay (answer ok) l =
      (k (failed ++ failing ok futs)).replay (answer ok) l := by
  induction futs generalizing failed with
  | nil =>
    rw [failing, List.filter_nil, List.map_nil, List.append_nil]
    rfl
  | cons f futs ih =>
    obtain ⟨x, c⟩ := f
    obtain ⟨hc, hfuts⟩ := List.forall_mem_cons.mp hfuts
    rw [awaitEach, Prog.bind_assoc', replay_await hc, pushFailed, Prog.pure_bind', ih hfuts,
      failing_cons]
    cases ok c with
    | true => rfl
    | false => simp

/-- The await loops of the write paths panic at a failure whose bit does not fit the mask. -/
def Overflows (overflowChecks : Bool) (failed : List Nat) : Prop :=
  overflowChecks = true ∧ ∃ d ∈ failed, 64 ≤ d

theorem not_overflows_iff {overflowChecks : Bool} {failed : List Nat} :
    ¬ Overflows overflowChecks failed ↔ (overflowChecks = true → ∀ d ∈ failed, d < 64) := by
  simp [Overflows]

/-- What the counters say when the disks in `failed` have failed. -/
structure Counts (failed : List Nat) (f : Failures) : Prop where
  nfailures : f.nfailures = failed.length
  last : f.lastFailedDiskIdx = failed.getLast?

theorem replay_awaitCount {overflowChecks : Bool} {futs : List (Nat × Nat)} {before : List Nat}
    {f : Failures} {k : Failures → Task α} (hfuts : ∀ f ∈ futs, f.2 < l.reqs.length)
    (hf : Counts before f) :
    (Overflows overflowChecks (failing ok futs) ∧
      (awaitEach (countFailure overflowChecks) futs f >>= k).replay (answer ok) l = (none, l)) ∨
    (¬ Overflows overflowChecks (failing ok futs) ∧ ∃ g, Counts (before ++ failing ok futs) g ∧
      (awaitEach (countFailure overflowChecks) futs f >>= k).replay (answer ok) l =
        (k g).replay (answer ok) l) := by
  induction futs generalizing before f with
  | nil =>
    refine Or.inr ⟨fun h => ?_, f, ?_, rfl⟩
    · obtain ⟨_, d, hd, _⟩ := h
      cases hd
    · rwa [failing, List.filter_nil, List.map_nil, List.append_nil]
  | cons x futs ih =>
    obtain ⟨d, c⟩ := x
    obtain ⟨hc, hfuts⟩ := List.forall_mem_cons.mp hfuts
    simp only [awaitEach, Prog.bind_assoc', replay_await hc, failing_cons, countFailure]
    cases hok : ok c with
    | true =>
      simp only [if_true, Prog.pure_bind']
      exact ih hfuts hf
    | false =>
      simp only [Bool.false_eq_true, if_false, Prog.bind_assoc', shlOne]
      by_cases hover : overflowChecks = true ∧ 64 ≤ d
      · rw [if_pos hover]
        exact Or.inl ⟨⟨hover.1, d, List.mem_cons_self, hover.2⟩, replay_panic⟩
      · rw [if_neg hover]
        simp only [Prog.pure_bind']
        have hcounts : Counts (before ++ [d])
            { nfailures := f.nfailures + 1
              lastFailedDiskIdx := some d
              failMask := f.failMask ||| 1 <<< (d % 64) } :=
          ⟨by rw [List.length_append, ← hf.nfailures]; rfl, by simp⟩
        have hrest : Overflows overflowChecks (d :: failing ok futs) ↔
            Overflows overflowChecks (failing ok futs) := by
          simp only [Overflows, List.exists_mem_cons_iff]
          constructor
          · rintro ⟨hchecks, hlarge⟩
            exact ⟨hchecks, hlarge.resolve_left fun h => hover ⟨hchecks, h⟩⟩
          · rintro ⟨hchecks, hlarge⟩
            exact ⟨hchecks, Or.inr hlarge⟩
        rw [hrest, List.append_cons]
        exact ih hfuts hcounts

theorem replay_completeWrite {sender : SpdkThread} {failed : List Nat} {f : Failures}
    {k : Unit → Task α} (hf : Counts failed f) :
    (completeWrite sender f >>= k).replay (answer ok) l = (k ()).replay (answer ok)
      { l with completions := l.completions ++
                [(sender, if failed = [] then .success else .failure)] } := by
  rw [completeWrite_eq]
  · refine (Prog.replay_perform rfl).trans ?_
    rw [hf.nfailures]
    simp only [List.length_eq_zero_iff]
  · intro h1
    obtain ⟨d, rfl⟩ := List.length_eq_one_iff.mp (hf.nfailures ▸ h1)
    rw [hf.last]
    rfl

/-- `reconstruct` reads the other disks, and returns a buffer if all of them could be read. -/
theorem replay_reconstruct {dev : Raid5Bdev} {skip off blocks : Nat} (hskip : skip < dev.diskCount)
    {k : Option DmaBuf → Task α} :
    ∃ bufs, (reconstruct dev skip off blocks >>= k).replay (answer ok) l =
      (k (if (List.range' l.reqs.length (dev.diskCount - 1)).all ok
        then some ⟨l.bufs + (dev.diskCount - 1), blocks⟩ else none)).replay (answer ok)
          { l with bufs := bufs
                   reqs := l.reqs ++ rebuildReqs dev.diskCount skip off
                     (numbered l.bufs (List.replicate (dev.diskCount - 1) blocks)) } := by
  have hlen : (rebuildReqs dev.diskCount skip off
      (numbered l.bufs (List.replicate (dev.diskCount - 1) blocks))).length =
        dev.diskCount - 1 := by
    rw [← List.length_map (·.disk), rebuildReqs_disk hskip, length_others hskip]
  simp only [reconstruct, Prog.bind_assoc', replay_newBufs, replay_submitAll]
  rw [replay_awaitUntilFailure, hlen]
  · cases (List.range' l.reqs.length (dev.diskCount - 1)).all ok with
    | true =>
      refine ⟨l.bufs + (dev.diskCount - 1) + 1, ?_⟩
      rw [if_pos rfl, Prog.bind_assoc', replay_newZeroed, Prog.bind_assoc', replay_xorAll,
        Prog.bind_assoc', replay_dropAll, Prog.pure_bind', List.length_replicate, if_pos rfl]
      intro io hio
      obtain ⟨buf, hbuf, rfl⟩ := List.mem_map.mp hio
      obtain ⟨i, hi⟩ := List.mem_iff_getElem?.mp hbuf
      exact List.eq_of_mem_replicate (List.mem_of_getElem? (numbered_get hi).2)
    | false =>
      refine ⟨l.bufs + (dev.diskCount - 1), ?_⟩
      rw [if_neg Bool.false_ne_true, Prog.bind_assoc', replay_dropAll, Prog.pure_bind',
        List.length_replicate, if_neg Bool.false_ne_true]
  · intro c hc
    have := (List.mem_range'_1.mp hc).2
    simp only [List.length_append]
    omega

end loops

/-! ## Batches of child I/Os -/

section batches
variable {ok : Nat → Bool} {s : Proc B} {kind : Kind}

theorem length_failing {labels : List γ} {cs : List Nat} (h : labels.length = cs.length) :
    (failing ok (labels.zip cs)).length = (cs.filter fun c => !ok c).length := by
  induction cs generalizing labels with
  | nil =>
    rw [List.zip_nil_right]
    rfl
  | cons c cs ih =>
    obtain ⟨x, labels, rfl⟩ := List.exists_cons_of_length_pos (l := labels) (by simp at h; omega)
    rw [List.zip_cons_cons, failing_cons, List.filter_cons]
    have hrest := ih (Nat.succ.inj h)
    cases ok c with
    | true => simpa using hrest
    | false => simpa using hrest

theorem failing_eq_nil {labels : List γ} {cs : List Nat} (h : labels.length = cs.length) :
    failing ok (labels.zip cs) = [] ↔ cs.all ok = true := by
  rw [← List.length_eq_zero_iff, length_failing h, List.length_eq_zero_iff, List.filter_eq_nil_iff,
    List.all_eq_true]
  simp

/-- A batch of child I/Os of one kind, at rest: those that have failed. -/
theorem ended_eq_failing (hall : s.AllDone) {pre rs post : List ChildReq}
    (h : s.reqs = pre ++ rs ++ post) (hpre : ∀ r ∈ pre, r.kind ≠ kind)
    (hrs : ∀ r ∈ rs, r.kind = kind) (hpost : ∀ r ∈ post, r.kind ≠ kind) :
    s.ended kind false =
      failing s.ok ((rs.map (·.disk)).zip (List.range' pre.length rs.length)) := by
  obtain ⟨left, ipost, hios, hleft, rfl⟩ := List.map_eq_append_iff.mp h
  obtain ⟨ipre, xs, rfl, rfl, rfl⟩ := List.map_eq_append_iff.mp hleft
  have hnone : ∀ ys : List (ChildIo B), (∀ r ∈ ys.map (·.req), r.kind ≠ kind) →
      ys.filter (fun x => x.req.kind = kind ∧ x.phase = .done false) = [] := by
    refine fun ys hys => List.filter_eq_nil_iff.mpr fun x hx => ?_
    simp [hys _ (List.mem_map_of_mem hx)]
  rw [Proc.ended, hios, List.filter_append, List.filter_append, hnone _ hpre, hnone _ hpost,
    List.nil_append, List.append_nil, List.length_map, List.length_map]
  clear h hleft hpre
  induction xs generalizing ipre with
  | nil => rfl
  | cons x xs ih =>
    obtain ⟨hx, hrest⟩ := List.forall_mem_cons.mp hrs
    have hat : s.ios[ipre.length]? = some x := by
      rw [hios, List.append_assoc, List.getElem?_append_right (Nat.le_refl _), Nat.sub_self]
      rfl
    obtain ⟨b, hb⟩ := hall.at hat
    have hok : s.ok ipre.length = b := Proc.Done.ok_eq ⟨x, hat, hb⟩
    have hnext := ih (ipre ++ [x]) (by rw [hios]; simp) hrest
    rw [List.length_append, List.length_singleton] at hnext
    rw [List.map_cons, List.map_cons, List.length_cons, List.range'_succ, List.zip_cons_cons,
      failing_cons, hok, ← hnext, List.filter_cons]
    simp only [hx, hb, true_and, Phase.done.injEq]
    cases b <;> rfl

/-- At rest a child I/O has either succeeded or failed. -/
theorem length_ended (hall : s.AllDone) (kind : Kind) :
    (s.ended kind true).length + (s.ended kind false).length =
      (s.reqs.filter (·.kind = kind)).length := by
  have hdone := allDone_iff.mp hall
  rw [Proc.ended, Proc.ended, Proc.reqs, List.filter_map, List.length_map, List.length_map,
    List.length_map]
  revert hdone
  generalize s.ios = ios
  intro hdone
  induction ios with
  | nil => rfl
  | cons x xs ih =>
    obtain ⟨hx, hxs⟩ := List.forall_mem_cons.mp hdone
    have hrest := ih hxs
    simp only [List.filter_cons, Function.comp]
    by_cases hk : x.req.kind = kind
    · rcases hx with hx | hx <;> simp [hk, hx] <;> simp at hrest <;> omega
    · simpa [hk] using hrest

theorem exists_of_ended {b : Bool} {d : Nat} (h : d ∈ s.ended kind b) :
    ∃ r ∈ s.reqs, r.kind = kind := by
  obtain ⟨x, hx, _⟩ := List.mem_map.mp h
  obtain ⟨hmem, hx⟩ := List.mem_filter.mp hx
  exact ⟨x.req, List.mem_map_of_mem hmem, (of_decide_eq_true hx).1⟩

theorem ended_nil (h : ∀ r ∈ s.reqs, r.kind ≠ kind) (b : Bool) : s.ended kind b = [] := by
  rw [Proc.ended, List.map_eq_nil_iff, List.filter_eq_nil_iff]
  intro x hx
  simp [h _ (List.mem_map_of_mem hx)]

end batches

end Ironspdk.Raid5
