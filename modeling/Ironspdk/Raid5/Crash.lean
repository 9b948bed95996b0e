import Ironspdk.Raid5.Contained
import Ironspdk.Raid5.FailStop

/-! # Crashes

A crash ends all tasks of a device, at any moment. What the children hold stays, but for the
child writes that are in flight: of them anything may be left. The array is opened again on the
same children and knows nothing of the requests before; the source keeps no journal. A stripe
is torn by a crash if it has a write in service that has submitted child writes and is not
answered. In every other stripe nothing acknowledged is lost, however often the process
crashes, and one faulty disk can be missed as before; the children are those of
`stripeChildren`. -/
namespace Ironspdk.Raid5
open Ironspdk.Lib Ironspdk.Runtime

variable {B : Type}

/-- A device that crashes now and then, and what it answered before the last crash. -/
structure Powered (B : Type) where
  watched : Watched B
  before : List (Answer B)

inductive PowerEvent (B : Type)
  | dev (e : DevEvent B)
  | crash (junk : Nat → Nat → B)

def PowerEvent.Crashes : PowerEvent B → Prop
  | .crash _ => True
  | .dev _ => False

instance PowerEvent.decidableCrashes : (e : PowerEvent B) → Decidable e.Crashes
  | .crash _ => isTrue trivial
  | .dev _ => isFalse id

/-- A child write of the frame that is in flight is for block `row` of disk `x`. -/
def Frame.exposes (frame : Frame B) (x row : Nat) : Bool :=
  frame.ios.any fun w => decide (w.req.kind = .store ∧ w.phase = .inFlight ∧ w.req.Hits x row)

/-- Whether a crash may change the block. -/
def Device.exposes (s : Device B) (x row : Nat) : Bool :=
  s.tasks.any fun task => task.stage.service.any fun b => b.frame.exposes x row

/-- The children as a crash leaves them. -/
def Device.crashed (s : Device B) (junk : Nat → Nat → B) : Nat → Nat → B :=
  fun x row => if s.exposes x row then junk x row else s.disks x row

namespace Powered

def start (disks : Nat → Nat → B) (stale : Nat → Bool) : Powered B :=
  ⟨⟨.start disks, stale⟩, []⟩

def next [Add B] [Zero B] (dev : Raid5Bdev) (late : Nat → Bool) (faulty : Nat → Option Nat)
    (overflowChecks : Bool) (s : Powered B) : PowerEvent B → Option (Powered B)
  | .dev e => (s.watched.next dev late faulty overflowChecks e).map fun w => { s with watched := w }
  | .crash junk => some
      { watched := ⟨.start (s.watched.device.crashed junk), s.watched.stale⟩
        before := s.before ++ s.watched.device.log }

/-- All answers so far. -/
def log (s : Powered B) : List (Answer B) := s.before ++ s.watched.device.log

end Powered

/-- Stripe `k` has a request that has submitted child writes and is not answered. -/
def Device.Torn (dev : Raid5Bdev) (s : Device B) (k : Nat) : Prop :=
  ∃ task ∈ s.tasks, task.req.stripe dev = k ∧ ∃ b ∈ task.stage.service,
    b.frame.completions = [] ∧ ∃ w ∈ b.frame.ios, w.req.kind = .store

instance (dev : Raid5Bdev) (s : Device B) (k : Nat) : Decidable (s.Torn dev k) :=
  inferInstanceAs (Decidable (∃ task ∈ s.tasks, _))

/-! ## Before the first child write, and after the answer -/

/-- As long as the request in service has submitted no child write, the stripe is what the
answers have made of it. -/
def Untouched [XorGroup B] (dev : Raid5Bdev) (k d : Nat) (flat : Nat → B) (stale : Bool)
    (s : Device B) (b : Option (Service B)) : Prop :=
  ∀ c, b = some c → c.frame.completions = [] → (∀ w ∈ c.frame.ios, w.req.kind ≠ .store) →
    ∀ x < dev.diskCount, ¬ (x = d ∧ stale = true) → ∀ row, row / dev.stripBlocks = k →
      s.disks x row = dev.encode (applied dev flat s.log) x row

section step
variable [XorGroup B] {dev : Raid5Bdev} {ch : Children} {overflowChecks : Bool} {k d : Nat}
  {s s' : Device B} {e : DevEvent B} {b b' : Option (Service B)} {flat : Nat → B}
  {stale stale' : Bool}

theorem untouched_start : Untouched dev k d flat stale s none := by
  intro c hc
  cases hc

theorem Untouched.step (h : Untouched dev k d flat stale s b)
    (hguard : Guarded dev k d flat stale s b) (hstale : stale = true → stale' = true)
    (hs : StripeStep dev ch overflowChecks k s s' e b b') :
    Untouched dev k d flat stale' s' b' := by
  intro c hb' hnil hno x hx hgood row hrow
  have hgood : ¬ (x = d ∧ stale = true) := fun hc => hgood ⟨hc.1, hstale hc.2⟩
  cases hs with
  | elsewhere hdisks hlog hother =>
    have hagree : AgreeOn dev k (applied dev flat s'.log) (applied dev flat s.log) := by
      rw [hlog, applied_append]
      exact applied_other hother
    rw [hdisks x row hrow, encode_congr hagree hx hrow]
    exact h c hb' hnil hno x hx hgood row hrow
  | begins _ hdisks hlog =>
    rw [hdisks, hlog]
    exact hguard x hx hgood row hrow
  | performs hp hdisks hlog =>
    cases hb'
    obtain ⟨hsame, hcomp⟩ := perform_frame hp
    have hnone := List.append_eq_nil_iff.mp (hcomp.symm.trans hnil)
    rename_i t req frame o r next u
    have hans : answers req frame o = [] := by
      cases o with
      | complete sender status => cases hnone.2
      | _ => rfl
    rw [hdisks, hsame, hlog, hans, List.append_nil]
    refine h _ rfl hnone.1 (fun w hw => ?_) x hx hgood row hrow
    have hmem : w.req ∈ u.reqs := by
      rw [perform_reqs hp]
      exact List.mem_append_left _ (List.mem_map_of_mem hw)
    obtain ⟨w', hw', he⟩ := List.mem_map.mp hmem
    exact he ▸ hno w' hw'
  | child _ hr hdisks hlog =>
    cases hb'
    have hext := ext_react hr
    rename_i frame u _
    have hno : ∀ r ∈ (⟨frame, s.disks⟩ : Proc B).reqs, r.kind ≠ .store := by
      rw [← hext.reqs]
      exact List.forall_mem_map.mpr hno
    rw [hdisks, hlog, react_disks hr fun r hr hk => absurd hk (hno r hr)]
    exact h _ rfl (hext.completions ▸ hnil) (fun w hw => hno w.req (List.mem_map_of_mem hw)) x hx
      hgood row hrow
  | ends => cases hb'

/-- A request that has been answered runs to its end without a child I/O. -/
theorem Served.tail {E : Setting B} {req : Request B} {good : ChildReq → Prop} {prog : Task Unit}
    {u : Proc B} (h : Served E req flat prog u) (hprog : StoresOnly good true prog) :
    ∃ v, Served E req flat (.ret ()) v ∧ v.disks = u.disks ∧ v.ios = u.ios := by
  induction prog generalizing u with
  | ret a => exact ⟨u, h, rfl, rfl⟩
  | op o next ih =>
    obtain ⟨hallowed, hnext⟩ := hprog.next
    cases o with
    | drop r =>
      have hprog' := wp_step h.program trivial (t := { u with trace := u.trace ++ [.drop r] }) rfl
      exact ih () (u := { u with trace := u.trace ++ [.drop r] })
        ⟨hprog', h.before, h.after, h.rows⟩ (hnext ())
    | submit r => cases hallowed.1
    | _ => cases hallowed

/-- A stripe that is not torn is what the answers have made of it, and none of its child writes
is in flight. -/
theorem settled (hb : s.Serves dev k b) (hguard : Guarded dev k d flat stale s b)
    (hkeeps : KeepsTo dev k b) (huntouched : Untouched dev k d flat stale s b)
    (hwhole : ¬ s.Torn dev k) :
    (∀ c, b = some c → ∀ w ∈ c.frame.ios, w.req.kind = .store → w.phase ≠ .inFlight) ∧
      ∀ x < dev.diskCount, ¬ (x = d ∧ stale = true) → ∀ row, row / dev.stripBlocks = k →
        s.disks x row = dev.encode (applied dev flat s.log) x row := by
  cases b with
  | none => exact ⟨fun c hc => (by cases hc), hguard⟩
  | some c =>
    obtain ⟨t, ht⟩ := hb
    obtain ⟨task, hget, hst, hk⟩ := (ht t c.req c.prog c.frame).mpr ⟨rfl, rfl⟩
    by_cases hnil : c.frame.completions = []
    · have hno : ∀ w ∈ c.frame.ios, w.req.kind ≠ .store := fun w hw hstore =>
        hwhole ⟨task, List.mem_of_getElem? hget, hk, c, by rw [hst]; rfl, hnil, w, hw, hstore⟩
      refine ⟨fun c' hc w hw hk => absurd hk ?_, huntouched c rfl hnil hno⟩
      cases hc
      exact hno w hw
    · obtain ⟨_, hprog, _⟩ := hkeeps
      have hanswered : c.answered = true := by simp [Service.answered, hnil]
      rw [hanswered] at hprog
      obtain ⟨_, flat', began, hserved, hbegan, hnone⟩ := hguard
      obtain ⟨v, hend, hdisks, hios⟩ := hserved.tail hprog
      have hquiet := (wp_done hend.program).quiet
      rw [hios] at hquiet
      refine ⟨fun c' hc w hw hk hflight => ?_, ?_⟩
      · cases hc
        obtain ⟨i, hi⟩ := List.mem_iff_getElem?.mp hw
        obtain ⟨ok, hdone⟩ := hquiet i w hi hk
        rw [hflight] at hdone
        cases hdone
      · rw [← show v.disks = s.disks from hdisks]
        exact hend.leaves_fresh hbegan fun hs => hios ▸ hnone hs

/-- A crash changes nothing in a stripe in which no child write is in flight. -/
theorem Reached.not_exposed {G : Base B} (h : Reached G s) (hb : s.Serves G.dev k b)
    (hquiet : ∀ c, b = some c → ∀ w ∈ c.frame.ios, w.req.kind = .store → w.phase ≠ .inFlight)
    {x row : Nat} (hrow : row / G.dev.stripBlocks = k) : s.exposes x row = false := by
  refine Bool.eq_false_of_not_eq_true fun hexp => ?_
  obtain ⟨task, hmem, hexp⟩ := List.any_eq_true.mp hexp
  obtain ⟨t, ht⟩ := List.mem_iff_getElem?.mp hmem
  cases hst : task.stage with
  | processing req prog frame =>
    simp only [hst, Stage.service, Option.any_some, Frame.exposes, List.any_eq_true,
      decide_eq_true_eq] at hexp
    obtain ⟨w, hw, hk, hflight, hhit⟩ := hexp
    obtain ⟨flat', hserved⟩ :=
      h.serving.served t (task.req.stripe G.dev) req prog frame ⟨task, ht, hst, rfl⟩
    have hsame : task.req.stripe G.dev = k :=
      (hserved.row_of_hits (List.mem_map_of_mem hw) hhit).symm.trans hrow
    have hp : s.Processing G.dev t k req prog frame := ⟨task, ht, hst, hsame⟩
    cases b with
    | none => exact hb t req prog frame hp
    | some c =>
      obtain ⟨t', ht'⟩ := hb
      obtain ⟨_, rfl⟩ := (ht' t req prog frame).mp hp
      exact hquiet _ rfl w hw hk hflight
  | _ => simp [hst, Stage.service] at hexp

end step

/-! ## Runs -/

/-- What the flat disk of stripe `k` held at the last crash. -/
def Powered.base (dev : Raid5Bdev) (k : Nat) (flat : Nat → B) (s : Powered B) : Nat → B :=
  applied dev flat (answersOf dev k s.before)

/-- What is known of stripe `k` in every state, if no crash tears it. -/
structure Durable [XorGroup B] (dev : Raid5Bdev) (late : Nat → Bool) (faulty : Nat → Option Nat)
    (k d : Nat) (flat : Nat → B) (s : Powered B) : Prop where
  reached : Reached (watchedBase dev late faulty) s.watched.device
  served : ∃ b, s.watched.device.Serves dev k b ∧
    Guarded dev k d (s.base dev k flat) (s.watched.stale k) s.watched.device b ∧
    KeepsTo dev k b ∧
    Untouched dev k d (s.base dev k flat) (s.watched.stale k) s.watched.device b
  before : FlatDisk dev True flat (answersOf dev k s.before)
  since : FlatDisk dev True (s.base dev k flat) (answersOf dev k s.watched.device.log)

section runs
variable [XorGroup B] {dev : Raid5Bdev} {late : Nat → Bool} {faulty : Nat → Option Nat}
  {overflowChecks : Bool} {k d : Nat} {flat : Nat → B} {s s' : Powered B} {e : PowerEvent B}

/-- **One step, or a crash that does not tear the stripe.** -/
theorem Durable.step (h : Durable dev late faulty k d flat s) (hd : faulty k = some d)
    (hlt : d < dev.diskCount) (hbit : overflowChecks = true → dev.diskCount ≤ 64)
    (hwhole : e.Crashes → ¬ s.watched.device.Torn dev k)
    (hn : s.next dev late faulty overflowChecks e = some s') :
    Durable dev late faulty k d flat s' := by
  obtain ⟨b, hb, hguard, hkeeps, huntouched⟩ := h.served
  cases e with
  | dev e =>
    obtain ⟨w, hw, rfl⟩ := Option.map_eq_some_iff.mp hn
    have hreached := Watched.reached h.reached hbit hw
    obtain ⟨u, hu, rfl⟩ := Option.map_eq_some_iff.mp hw
    obtain ⟨b', hstep, hb'⟩ := h.reached.stripe_step hb (Device.next_step hu)
    exact ⟨hreached,
      ⟨b', hb', hguard.step hd (fun hc => hlt.trans_le (hbit hc)) hstep rfl, hkeeps.step hstep,
        huntouched.step hguard (fun hs => by simp [hs]) hstep⟩,
      h.before, hguard.flatDisk_step h.since hstep⟩
  | crash junk =>
    cases hn
    obtain ⟨hquiet, hrows⟩ := settled hb hguard hkeeps huntouched (hwhole trivial)
    have hagree : AgreeOn dev k (applied dev (s.base dev k flat) (answersOf dev k
        s.watched.device.log)) (applied dev (s.base dev k flat) s.watched.device.log) :=
      applied_answersOf (.refl dev k _) _
    have hbase : Powered.base dev k flat ⟨⟨.start (s.watched.device.crashed junk),
        s.watched.stale⟩, s.before ++ s.watched.device.log⟩ =
        applied dev (s.base dev k flat) (answersOf dev k s.watched.device.log) := by
      rw [Powered.base, answersOf, onKey_append, applied_append]
      rfl
    refine ⟨reached_start fun _ hk => absurd hk id,
      ⟨none, serves_start _, ?_, trivial, untouched_start⟩, ?_, trivial⟩
    · rw [hbase]
      intro x hx hgood row hrow
      show s.watched.device.crashed junk x row = _
      rw [Device.crashed, h.reached.not_exposed hb hquiet hrow, if_neg Bool.false_ne_true,
        hrows x hx hgood row hrow]
      exact (encode_congr hagree hx hrow).symm
    · rw [answersOf, onKey_append]
      exact sequential_append.mpr ⟨h.before, h.since⟩

end runs

/-- **No acknowledged write is lost in a crash.** Stripe `k` is consistent at the start, unless
disk `d` is stale from the start. Disk `d` may fail there at any time, and fails everything once
it has failed a write; there the children store what the buffer of a write held when it was
submitted. A build with overflow checks has at most 64 disks. The process may crash at any time,
any number of times, as long as no crash tears the stripe; whatever the children do in the other
stripes, early or late. Then all answers of the stripe together, before the crashes and after
them, are those of one flat disk: what was not answered has had no effect. In every state in
which the stripe is not torn the other disks make up its contents, and it is consistent while
`d` has missed no write. -/
theorem crash_durable [XorGroup B] (dev : Raid5Bdev) (overflowChecks : Bool)
    (hbit : overflowChecks = true → dev.diskCount ≤ 64) (late : Nat → Bool)
    (faulty : Nat → Option Nat) (k d : Nat) (hd : faulty k = some d) (hlt : d < dev.diskCount)
    (disks : Nat → Nat → B) (stale : Nat → Bool)
    (hpar : stale k = false → ∀ row, row / dev.stripBlocks = k →
      ∑ x ∈ Finset.range dev.diskCount, disks x row = 0)
    (es : List (PowerEvent B)) (s : Powered B)
    (hrun : run (Powered.next dev late faulty overflowChecks) (.start disks stale) es = some s)
    (hwhole : Along (Powered.next dev late faulty overflowChecks)
      (fun s e => e.Crashes → ¬ s.watched.device.Torn dev k) (.start disks stale) es) :
    FlatDisk dev True (dev.decode (dev.repair d disks)) (answersOf dev k s.log) ∧
      (¬ s.watched.device.Torn dev k →
        (∀ b, dev.stripeIdx b = k → dev.decode (dev.repair d s.watched.device.disks) b =
          applied dev (dev.decode (dev.repair d disks)) (answersOf dev k s.log) b) ∧
        (s.watched.stale k = false → ∀ row, row / dev.stripBlocks = k →
          ∑ x ∈ Finset.range dev.diskCount, s.watched.device.disks x row = 0)) := by
  have hs : Durable dev late faulty k d (dev.decode (dev.repair d disks)) s :=
    run_invariant
      ⟨reached_start fun _ hk => absurd hk id,
        ⟨none, serves_start _, guarded_start hlt hpar, trivial, untouched_start⟩, trivial, trivial⟩
      (fun _ _ _ h hw hn => h.step hd hlt hbit hw hn) hrun hwhole
  have hlog : ∀ flat : Nat → B, applied dev flat (answersOf dev k s.log) =
      applied dev (s.base dev k flat) (answersOf dev k s.watched.device.log) := fun flat => by
    rw [Powered.log, answersOf, onKey_append, applied_append]
    rfl
  refine ⟨?_, fun hnot => ?_⟩
  · rw [Powered.log, answersOf, onKey_append]
    exact sequential_append.mpr ⟨hs.before, hs.since⟩
  · obtain ⟨b, hb, hguard, hkeeps, huntouched⟩ := hs.served
    obtain ⟨_, hrows⟩ := settled hb hguard hkeeps huntouched hnot
    rw [hlog]
    refine ⟨fun blk hblk => ?_, fun hgood row hrow => ?_⟩
    · refine (decode_encode (fun x hx row hrow => repair_encode hlt
        (fun y hy hne row hrow => ?_) hx hrow) hblk).trans
          (applied_answersOf (.refl dev k _) s.watched.device.log blk hblk).symm
      exact hrows y hy (fun hc => hne hc.1) row hrow
    · rw [Finset.sum_congr rfl fun x hx => hrows x (Finset.mem_range.mp hx)
        (fun hc => by rw [hgood] at hc; cases hc.2) row hrow]
      exact encode_sum dev _ row

/-- A write of one block, from its submission to the end of its task. -/
def oneWrite : List (DevEvent Byte) :=
  [.submit ⟨⟨⟨.write, 0, 1⟩, 7⟩, fun _ => ⟨5⟩⟩, .start 0, .dequeue 0 0] ++
    List.replicate 4 (.step 0) ++
    [.child 0 (.apply 0 0), .child 0 (.finish 0), .step 0, .child 0 (.apply 1 0),
      .child 0 (.finish 1)] ++ List.replicate 7 (.step 0) ++
    [.child 0 (.apply 2 0), .child 0 (.finish 2), .step 0, .child 0 (.apply 3 0),
      .child 0 (.finish 3)] ++ List.replicate 11 (.step 0) ++ [.dequeue 0 0]

/-- A write that is about to read old contents. -/
def begunWrite : List (DevEvent Byte) :=
  [.submit ⟨⟨⟨.write, 1, 1⟩, 8⟩, fun _ => ⟨9⟩⟩, .start 0, .dequeue 1 0] ++
    List.replicate 4 (.step 1)

/-- A write that is answered and one that is not, a crash, and a read of the first block, from
the other disks: disk 1 fails it. -/
def crashThenRead : List (PowerEvent Byte) :=
  (oneWrite ++ begunWrite).map .dev ++ [.crash 0] ++ oneRead.map .dev

theorem crash_durable_crashThenRead :
    ∃ s, run (Powered.next smallArray (fun _ => true) oneBound true) (.start 0 fun _ => false)
        crashThenRead = some s ∧
      s.log.map (fun a => (a.status, a.mem 0)) = [(.success, ⟨5⟩), (.success, ⟨5⟩)] ∧
      FlatDisk smallArray True (smallArray.decode (smallArray.repair 1 0))
        (answersOf smallArray 0 s.log) := by
  have hview : (run (Powered.next smallArray (fun _ => true) oneBound true)
      (.start 0 fun _ => false) crashThenRead).map
      (fun s => s.log.map fun a => (a.status, a.mem 0)) =
      some [(.success, ⟨5⟩), (.success, ⟨5⟩)] := by decide +kernel
  have hwhole : Along (Powered.next smallArray (fun _ => true) oneBound true)
      (fun s e => e.Crashes → ¬ s.watched.device.Torn smallArray 0) (.start 0 fun _ => false)
      crashThenRead := by decide +kernel
  obtain ⟨s, hs, hl⟩ := Option.map_eq_some_iff.mp hview
  exact ⟨s, hs, hl, (crash_durable smallArray true (fun _ => by decide) (fun _ => true) oneBound 0 1
    rfl (by decide) 0 (fun _ => false) (fun _ _ _ => by simp) crashThenRead s hs hwhole).1⟩

/-- A write that has stored its block and not the parity. -/
def tornWrite : List (DevEvent Byte) := aboutToStore ++ [.child 0 (.apply 2 0)]

/-- A read of block 2 from the other disks. -/
def readOther : List (DevEvent Byte) :=
  [.submit ⟨⟨⟨.read, 2, 1⟩, 7⟩, 0⟩, .start 0, .dequeue 0 0, .step 0, .child 0 (.fail 0 0)] ++
    List.replicate 5 (.step 0) ++
    [.child 0 (.apply 1 0), .child 0 (.finish 1), .step 0, .child 0 (.apply 2 0),
      .child 0 (.finish 2)] ++ List.replicate 13 (.step 0) ++ [.dequeue 0 0]

/-- The write hole: the crash tears the stripe while block 0 is written, and the block that is
lost is block 2, which has never been written. -/
theorem write_hole :
    ∃ s, run (Powered.next smallArray (fun _ => true) (fun _ => some 2) true)
        (.start 0 fun _ => false) (tornWrite.map .dev ++ [.crash 0] ++ readOther.map .dev) =
        some s ∧
      s.log.map (fun a => (a.req.io, a.status, a.mem 0)) = [(⟨.read, 2, 1⟩, .success, ⟨5⟩)] ∧
      ¬ FlatDisk smallArray True (smallArray.decode (smallArray.repair 2 0)) s.log := by
  have hview : (run (Powered.next smallArray (fun _ => true) (fun _ => some 2) true)
      (.start 0 fun _ => false) (tornWrite.map .dev ++ [.crash 0] ++ readOther.map .dev)).map
      (fun s => s.log.map fun a => (a.req.io, a.status, a.mem 0)) =
      some [(⟨.read, 2, 1⟩, .success, ⟨5⟩)] := by decide +kernel
  obtain ⟨s, hs, hl⟩ := Option.map_eq_some_iff.mp hview
  refine ⟨s, hs, hl, fun hflat => ?_⟩
  obtain ⟨a, hlog, ha⟩ := List.map_eq_singleton_iff.mp hl
  obtain ⟨hio, _, hmem⟩ : a.req.io = ⟨.read, 2, 1⟩ ∧ a.status = .success ∧ a.mem 0 = ⟨5⟩ := by
    simpa using ha
  rw [hlog] at hflat
  have hread := hflat.1.2 (by rw [hio]) (by rw [hio]; decide) 0 (by rw [hio]; decide)
  rw [hmem, hio] at hread
  have hzero : smallArray.decode (smallArray.repair 2 0) 2 = (0 : Byte) := by
    simp [Raid5Bdev.decode, Raid5Bdev.repair]
  exact absurd (hread.trans hzero) (by decide)

end Ironspdk.Raid5
