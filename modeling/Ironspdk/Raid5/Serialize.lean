import Ironspdk.Lib.Progress
import Ironspdk.Raid5.Serving

/-! # Every request is answered

Without new requests a device comes to rest, whatever the schedule: programs get shorter,
child I/Os come nearer to their end, requests leave the queues. At rest every task is
over, so all queues are empty and every request has been answered once. -/
namespace Ironspdk.Raid5
open Ironspdk.Lib Ironspdk.Runtime

variable {B : Type}

/-! ## What is left to do -/

def Phase.left : Phase → Nat
  | .inFlight => 2
  | .applied => 1
  | .done _ => 0

/-- What a task has still to do: its stage, its program, its child I/Os. -/
def Stage.work : Stage B → Nat × Task Unit × List Nat
  | .spawned => (3, .ret (), [])
  | .draining => (1, .ret (), [])
  | .processing _ prog frame => (2, prog, frame.ios.map (·.phase.left))
  | .finished | .panicked _ => (0, .ret (), [])

/-- What a device has still to do: the requests not taken up yet, and its tasks. -/
def Device.work (s : Device B) : Nat × List (Nat × Task Unit × List Nat) :=
  (s.submitted.length - s.dequeued.length, s.tasks.map (·.stage.work))

abbrev StageLess : Nat × Task Unit × List Nat → Nat × Task Unit × List Nat → Prop :=
  Prod.Lex (· < ·) (Prod.Lex Prog.After (OneLess (· < ·)))

abbrev WorkLess : Nat × List (Nat × Task Unit × List Nat) →
    Nat × List (Nat × Task Unit × List Nat) → Prop :=
  Prod.Lex (· < ·) (OneLess StageLess)

theorem workLess_wf : WellFounded WorkLess := by
  have hlt : WellFounded (fun a b : Nat => a < b) := Nat.lt_wfRel.wf
  exact WellFounded.prod_lex hlt (oneLess_wf
    (WellFounded.prod_lex hlt (WellFounded.prod_lex Prog.after_wf (oneLess_wf hlt))))

theorem react_left {ch : Children} {s t : Proc B} {e : ChildEvent B} (h : ch.react s e = some t) :
    OneLess (· < ·) (t.ios.map (·.phase.left)) (s.ios.map (·.phase.left)) := by
  obtain ⟨c, x, hx, hcase⟩ := react_cases h
  obtain ⟨p, hp, hios⟩ : ∃ p, p.left < x.phase.left ∧
      t.ios = s.ios.set c { x with phase := p } := by
    rcases hcase with ⟨hp, _, junk, rfl⟩ | ⟨hp, rfl⟩ | ⟨hp, _, junk, rfl⟩
    · exact ⟨.applied, by rw [hp]; decide, by rw [Proc.setPhase, put_ios]⟩
    · exact ⟨.done true, by rw [hp]; decide, rfl⟩
    · exact ⟨.done false, by rw [hp]; decide, by simp only [Proc.setPhase, put_ios]⟩
  exact ⟨c, x.phase.left, p.left, by simp [hx], hp, by rw [hios, List.map_set]⟩

/-- A label other than the submission of a request. -/
def DevEvent.Inner : DevEvent B → Prop
  | .submit _ => False
  | _ => True

section work
variable [Add B] [Zero B] {dev : Raid5Bdev} {ch : Children} {overflowChecks : Bool}
  {s s' : Device B} {l : Lanes Nat (Request B)} {t : Nat} {task : IoTask B}

omit [Add B] [Zero B] in
theorem Queued.dequeued_le (h : Queued dev s l) : s.dequeued.length ≤ s.submitted.length := by
  refine length_le_of_onKey (Request.stripe dev) fun k => ?_
  rw [h.inbox.arrival, h.sim.arrived, h.lanes.taken, h.sim.taken, List.append_assoc]
  exact List.prefix_append _ _

omit [Add B] [Zero B] in
theorem work_set (ht : s.tasks[t]? = some task) {stage : Stage B}
    (htasks : s'.tasks = s.tasks.set t { task with stage := stage })
    (hdeq : s'.dequeued = s.dequeued) (hless : StageLess stage.work task.stage.work) :
    WorkLess s'.work s.work := by
  have hsub := submitted_set ht htasks
  rw [Device.work, Device.work, hsub, hdeq, htasks, List.map_set]
  exact .right _ ⟨t, task.stage.work, stage.work, by simp [ht], hless, rfl⟩

/-- Every step but a submission leaves less to do. -/
theorem Device.Step.work_less {e : DevEvent B} (h : Queued dev s l) (h' : ∃ l', Queued dev s' l')
    (he : e.Inner) (hs : s.Step dev ch overflowChecks e s') : WorkLess s'.work s.work := by
  cases hs with
  | submit req => exact absurd he id
  | start hbox ht =>
    rename_i w t rest task
    obtain ⟨_, hc, hst, _⟩ := (h.inbox.mem w t).mp (by rw [hbox]; exact List.mem_cons_self ..)
    cases ht.symm.trans hc
    refine work_set ht rfl rfl ?_
    rw [hst]
    split <;> exact .left _ _ (by decide)
  | drain ht hst =>
    rename_i t task heap
    have hless : ∀ stage : Stage B, stage.work.1 = 0 → StageLess stage.work task.stage.work := by
      intro stage hz
      rw [hst]
      exact Prod.lex_def.mpr (Or.inl (by rw [hz]; exact Nat.one_pos))
    revert h'
    unfold Device.drain
    simp only
    split
    · exact fun _ => work_set ht rfl rfl (hless _ rfl)
    · exact fun _ => work_set ht rfl rfl (hless _ rfl)
    · rintro ⟨l', h'⟩
      have hle := h'.dequeued_le
      refine Prod.lex_def.mpr (Or.inl ?_)
      simp only [Device.work, Device.submitted, Device.setStage, List.length_map, List.length_set,
        List.length_append, List.length_singleton] at hle ⊢
      omega
  | ret ht hst =>
    refine work_set ht rfl rfl ?_
    rw [hst]
    exact .left _ _ (by decide)
  | panic ht hst =>
    refine work_set ht rfl rfl ?_
    rw [hst]
    exact .left _ _ (by decide)
  | perform ht hst hp =>
    refine work_set ht rfl rfl ?_
    rw [hst]
    exact .right _ (.left _ _ ⟨_, _, _, rfl, rfl⟩)
  | child ht hst hr =>
    refine work_set ht rfl rfl ?_
    rw [hst]
    exact .right _ (.right _ (react_left hr))

end work

/-! ## What can go on -/

section enabled
variable [XorGroup B] {G : Base B} {s : Device B} {l : Lanes Nat (Request B)} {t : Nat}
  {task : IoTask B}

/-- A child I/O that has not ended can move on, if its child answers at all. -/
theorem exists_react {ch : Children} (hch : ∀ x, ch.allow x true = true ∨ ch.allow x false = true)
    {u : Proc B} {c : Nat} {x : ChildIo B} (hx : u.ios[c]? = some x)
    (hp : ∀ b, x.phase ≠ .done b) : ∃ e, (ch.react u e).isSome := by
  cases hphase : x.phase with
  | inFlight =>
    rcases hch x.req.disk with ha | ha
    · exact ⟨.apply c 0, by simp [Children.react, hx, hphase, ha]⟩
    · exact ⟨.fail c 0, by simp [Children.react, hx, hphase, ha]⟩
  | applied => exact ⟨.finish c, by simp [Children.react, hx, hphase]⟩
  | done b => exact absurd hphase (hp b)

/-- The task whose child I/Os an event is about. -/
def DevEvent.task? : DevEvent B → Option Nat
  | .child t _ => some t
  | _ => none

/-- A task that is not over can go on, or some message before it can. -/
theorem Serving.enabled (h : Serving G s) (hq : Queued G.dev s l) {ch : Children}
    (hch : ∀ x, ch.allow x true = true ∨ ch.allow x false = true)
    (overflowChecks : Bool) (ht : s.tasks[t]? = some task) (hst : task.stage ≠ .finished) :
    ∃ e : DevEvent B, e.Inner ∧ (∀ t' ∈ e.task?, t' = t) ∧
      (s.next G.dev ch overflowChecks e).isSome := by
  cases hstage : task.stage with
  | spawned =>
    have hmem := (hq.inbox.mem _ t).mpr ⟨task, ht, hstage, rfl⟩
    obtain ⟨t₀, rest, hbox⟩ := List.exists_cons_of_ne_nil (List.ne_nil_of_mem hmem)
    obtain ⟨task₀, ht₀, _⟩ := (hq.inbox.mem _ t₀).mp (by rw [hbox]; exact List.mem_cons_self ..)
    exact ⟨.start (G.dev.ownerIdx (task.req.stripe G.dev)), trivial, by simp [DevEvent.task?],
      by simp [Device.next, hbox, ht₀]⟩
  | draining =>
    exact ⟨.dequeue t 0, trivial, by simp [DevEvent.task?], by simp [Device.next, ht, hstage]⟩
  | finished => exact absurd hstage hst
  | panicked msg =>
    have hcalm := h.calm t task ht
    rw [hstage] at hcalm
    cases hcalm
  | processing req prog frame =>
    have hstep : (s.operate t task req prog frame).isSome →
        ∃ e : DevEvent B, e.Inner ∧ (∀ t' ∈ e.task?, t' = t) ∧
          (s.next G.dev ch overflowChecks e).isSome :=
      fun hu => ⟨.step t, trivial, by simp [DevEvent.task?],
        by simpa [Device.next, ht, hstage] using hu⟩
    cases prog with
    | ret a => exact hstep rfl
    | op o k =>
      cases o with
      | await c =>
        obtain ⟨flat, hserved⟩ := h.served t _ req _ frame ⟨task, ht, hstage, rfl⟩
        have hlt : c < frame.ios.length := wp_ensure hserved.program fun hc => hc.elim
        obtain ⟨⟨r, d, p⟩, hx⟩ : ∃ x, frame.ios[c]? = some x :=
          ⟨_, List.getElem?_eq_getElem hlt⟩
        by_cases hp : ∃ b, p = .done b
        · obtain ⟨b, rfl⟩ := hp
          exact hstep (by simp [Device.operate, Raid5.perform, hx])
        · obtain ⟨e, he⟩ := exists_react (u := ⟨frame, s.disks⟩) hch hx fun b hb => hp ⟨b, hb⟩
          exact ⟨.child t e, trivial, fun t' ht' => (Option.some.inj ht').symm,
            by simpa [Device.next, ht, hstage] using he⟩
      | _ => exact hstep rfl

end enabled

/-! ## Runs -/

/-- No step but the submission of a request is enabled. -/
def Device.AtRest [Add B] [Zero B] (dev : Raid5Bdev) (ch : Children) (overflowChecks : Bool)
    (s : Device B) : Prop :=
  ∀ e : DevEvent B, e.Inner → s.next dev ch overflowChecks e = none

section runs
variable [XorGroup B] {G : Base B} {ch : Children} {overflowChecks : Bool} {s s' : Device B}

/-- What holds of every state of a device. -/
structure Reached (G : Base B) (s : Device B) : Prop where
  queued : ∃ l, Queued G.dev s l
  serving : Serving G s

theorem Reached.next (h : Reached G s) (hok : G.Ok) (hshift : G.ShiftOk overflowChecks)
    {e : DevEvent B} (hadmits : G.Admits s e ch) (hn : s.next G.dev ch overflowChecks e = some s') :
    Reached G s' := by
  obtain ⟨l, hq⟩ := h.queued
  have hstep := Device.next_step hn
  obtain ⟨l', _, hq'⟩ := hq.step (h.serving.orderly e) hstep
  exact ⟨⟨l', hq'⟩, h.serving.step hok hshift hadmits hq hstep⟩

theorem reached_start {disks : Nat → Nat → B} (h : ∀ k, G.Holds k G.flat disks) :
    Reached G (Device.start disks) := by
  refine ⟨⟨_, queued_start G.dev disks⟩, ⟨?_, fun k _ => h k, nofun, ?_⟩⟩
  · rintro t k req prog frame ⟨task, ht, _⟩
    simp [Device.start] at ht
  · intro t task ht
    simp [Device.start] at ht

/-- On any children, when nothing is known of what the stripes hold. -/
theorem exists_base (dev : Raid5Bdev) (ch : Children)
    (hbit : overflowChecks = true → dev.diskCount ≤ 64) :
    ∃ G : Base B, dev = G.dev ∧ (∀ k, G.children k = ch) ∧ G.Ok ∧ G.ShiftOk overflowChecks ∧
      ∀ disks, Reached G (Device.start disks) :=
  ⟨⟨dev, fun _ => ch, fun _ => False, fun _ => False, 0⟩, rfl, fun _ => rfl,
    fun _ hk => absurd hk id, fun hc _ _ hx _ => hx.trans_le (hbit hc),
    fun _ => reached_start fun _ hk => absurd hk id⟩

theorem Reached.run (h : Reached G s) (hok : G.Ok) (hshift : G.ShiftOk overflowChecks)
    (hch : ∀ k, G.children k = ch) {es : List (DevEvent B)}
    (hrun : Lib.run (Device.next G.dev ch overflowChecks) s es = some s') : Reached G s' :=
  run_always h (fun t e _ ht hn => ht.next hok hshift (G.admits_of hch t e) hn) hrun

/-- Without new requests, no schedule goes on forever. -/
theorem Reached.stops (h : Reached G s) (hok : G.Ok) (hshift : G.ShiftOk overflowChecks)
    (hch : ∀ k, G.children k = ch) :
    Stops (Device.next G.dev ch overflowChecks) DevEvent.Inner s := by
  refine stops_of_measure workLess_wf (I := Reached G) (f := Device.work)
    (fun t e u ht he hn => ?_) h
  have hu := ht.next hok hshift (G.admits_of hch t e) hn
  obtain ⟨l, hq⟩ := ht.queued
  exact ⟨hu, (Device.next_step hn).work_less hq hu.queued he⟩

/-- At rest, every task is over. -/
theorem Reached.over (h : Reached G s)
    (hch : ∀ x, ch.allow x true = true ∨ ch.allow x false = true)
    (hrest : s.AtRest G.dev ch overflowChecks) {t : Nat} {task : IoTask B}
    (ht : s.tasks[t]? = some task) : task.stage = .finished := by
  obtain ⟨l, hq⟩ := h.queued
  by_contra hst
  obtain ⟨e, he, _, hn⟩ := h.serving.enabled hq hch overflowChecks ht hst
  rw [hrest e he] at hn
  cases hn

/-- Once every task is over, the requests of every stripe have been answered in the order of
submission. -/
theorem Reached.answered_of_over (h : Reached G s)
    (hover : ∀ (t : Nat) (task : IoTask B), s.tasks[t]? = some task → task.stage = .finished)
    (k : Nat) : onKey (Request.stripe G.dev) k (s.log.map (·.req)) =
      onKey (Request.stripe G.dev) k s.submitted := by
  obtain ⟨l, hq⟩ := h.queued
  have hbox : s.inbox (G.dev.ownerIdx k) = [] := by
    refine List.eq_nil_iff_forall_not_mem.mpr fun t ht => ?_
    obtain ⟨task, ht, hst, _⟩ := (hq.inbox.mem _ t).mp ht
    cases (hover t task ht).symm.trans hst
  have hlane : l.lane k = .idle := by
    have hlane := hq.sim.lane k
    cases hl : l.lane k with
    | idle => rfl
    | active turn ws =>
      rw [hl] at hlane
      obtain ⟨_, t, hall⟩ := hlane
      obtain ⟨task, ht, _, hst⟩ := (hall t turn).mpr ⟨rfl, rfl⟩
      rw [hover t task ht] at hst
      cases hst
  rw [hq.inbox.arrival, Device.sent, hbox, hq.sim.arrived, hq.lanes.arrived_eq, hlane,
    ← hq.sim.answered]
  simp [Lane.current, Lane.waiting, onKey]

/-- At rest, the requests of every stripe have been answered in the order of submission. -/
theorem Reached.answered (h : Reached G s)
    (hch : ∀ x, ch.allow x true = true ∨ ch.allow x false = true)
    (hrest : s.AtRest G.dev ch overflowChecks) (k : Nat) :
    onKey (Request.stripe G.dev) k (s.log.map (·.req)) =
      onKey (Request.stripe G.dev) k s.submitted :=
  h.answered_of_over (fun _ _ ht => h.over hch hrest ht) k

end runs

/-! ## The queues of a device -/

/-- Task `t` runs the drain loop of stripe `k`. -/
def Device.Drains (dev : Raid5Bdev) (s : Device B) (t k : Nat) : Prop :=
  ∃ task, s.tasks[t]? = some task ∧ task.req.stripe dev = k ∧
    (task.stage = .draining ∨ ∃ req prog frame, task.stage = .processing req prog frame)

/-- What waits in the entry of stripe `k`. -/
def Device.pending (dev : Raid5Bdev) (s : Device B) (k : Nat) : List (Request B) :=
  ((s.channels (dev.ownerIdx k) k).map (·.pending)).getD []

/-- One drain loop for a stripe at a time, which has an entry just then; its requests are
enqueued, dequeued and completed in one order, each once, and none is lost on the way. -/
structure Serialized (dev : Raid5Bdev) (s : Device B) : Prop where
  single : ∀ t t' k, s.Drains dev t k → s.Drains dev t' k → t = t'
  entry : ∀ w k, (s.channels w k).isSome ↔ dev.ownerIdx k = w ∧ ∃ t, s.Drains dev t k
  submitted : ∀ k, onKey (Request.stripe dev) k s.submitted =
    onKey (Request.stripe dev) k s.enqueued ++
      onKey (Request.stripe dev) k (s.sent (dev.ownerIdx k))
  enqueued : ∀ k, onKey (Request.stripe dev) k s.enqueued =
    onKey (Request.stripe dev) k s.dequeued ++ s.pending dev k
  between : ∀ k, (∀ t req prog frame, ¬ s.Processing dev t k req prog frame) →
    onKey (Request.stripe dev) k s.dequeued =
      onKey (Request.stripe dev) k (s.log.map (·.req))
  processing : ∀ t k req prog frame, s.Processing dev t k req prog frame →
    onKey (Request.stripe dev) k s.dequeued =
      onKey (Request.stripe dev) k (s.log.map (·.req)) ++
        if frame.completions = [] then [req] else []
  senders : ∀ a ∈ s.log, a.sender = a.req.sender
  calm : ∀ (t : Nat) (task : IoTask B), s.tasks[t]? = some task → task.stage.message = none

theorem drains_iff {dev : Raid5Bdev} {s : Device B} {t k : Nat} :
    s.Drains dev t k ↔ ∃ turn, HasTurn dev s.tasks t k turn := by
  refine ⟨fun ⟨task, ht, hk, hst⟩ => ?_, fun ⟨turn, task, ht, hk, hst⟩ => ⟨task, ht, hk, ?_⟩⟩
  · rcases hst with hst | ⟨req, prog, frame, hst⟩
    · exact ⟨.next, task, ht, hk, by rw [hst]; rfl⟩
    · exact ⟨_, task, ht, hk, by rw [hst]; rfl⟩
  · cases hstage : task.stage with
    | draining => exact Or.inl rfl
    | processing req prog frame => exact Or.inr ⟨req, prog, frame, rfl⟩
    | _ =>
      rw [hstage] at hst
      cases hst

/-- A stripe with no request in `process_req` has answered all it has taken up. -/
theorem Sim.current_eq_nil {dev : Raid5Bdev} {s : Device B} {l : Lanes Nat (Request B)}
    (h : Sim dev s l) {k : Nat}
    (hno : ∀ t req prog frame, ¬ s.Processing dev t k req prog frame) :
    (l.lane k).current = [] := by
  have hlane := h.lane k
  cases hl : l.lane k with
  | idle => rfl
  | active turn ws =>
    cases turn with
    | serving r =>
      rw [hl] at hlane
      obtain ⟨_, t, hall⟩ := hlane
      obtain ⟨task, ht, hk, hst⟩ := (hall t (.serving r)).mpr ⟨rfl, rfl⟩
      cases hstage : task.stage with
      | processing req prog frame => exact absurd ⟨task, ht, hstage, hk⟩ (hno t req prog frame)
      | _ =>
        rw [hstage] at hst
        cases hst
    | _ => rfl

theorem Reached.serialized [XorGroup B] {G : Base B} {s : Device B} (h : Reached G s) :
    Serialized G.dev s := by
  obtain ⟨l, hq⟩ := h.queued
  have hlane := hq.sim.lane
  refine ⟨fun t t' k ht ht' => ?_, fun w k => ?_, hq.inbox.arrival, fun k => ?_, fun k hno => ?_,
    fun t k req prog frame hp => ?_, h.serving.senders, h.serving.calm⟩
  · obtain ⟨turn, ht⟩ := drains_iff.mp ht
    obtain ⟨turn', ht'⟩ := drains_iff.mp ht'
    exact (hlane k).single ht ht'
  · simp only [drains_iff]
    by_cases hw : G.dev.ownerIdx k = w
    · subst hw
      rw [(hlane k).entry]
      simp
    · rw [hq.sim.stray w k hw]
      simp [hw]
  · rw [hq.sim.arrived, hq.lanes.taken, hq.sim.taken]
    have := hlane k
    cases hl : l.lane k with
    | idle =>
      rw [hl] at this
      simp [Device.pending, this.1, Lane.waiting]
    | active turn ws =>
      rw [hl] at this
      simp [Device.pending, this.1, Lane.waiting]
  · rw [hq.sim.taken, hq.lanes.answered, hq.sim.answered, hq.sim.current_eq_nil hno,
      List.append_nil]
  · rw [hq.sim.taken, hq.lanes.answered, hq.sim.answered]
    obtain ⟨task, ht, hst, hk⟩ := hp
    have hturn : task.stage.turn =
        some (if frame.completions = [] then .serving req else .served req) := by rw [hst]; rfl
    obtain ⟨ws, hl⟩ := (hlane k).turn_eq ht hk hturn
    rw [hl]
    split <;> rfl

/-- The requests of a stripe are completed in the order in which they were submitted. -/
theorem Serialized.order {dev : Raid5Bdev} {s : Device B} (h : Serialized dev s) (k : Nat) :
    onKey (Request.stripe dev) k (s.log.map (·.req)) <+:
      onKey (Request.stripe dev) k s.submitted := by
  have hdeq : onKey (Request.stripe dev) k (s.log.map (·.req)) <+:
      onKey (Request.stripe dev) k s.dequeued := by
    by_cases hp : ∃ t req prog frame, s.Processing dev t k req prog frame
    · obtain ⟨t, req, prog, frame, hp⟩ := hp
      rw [h.processing t k req prog frame hp]
      exact List.prefix_append _ _
    · rw [h.between k fun t req prog frame h => hp ⟨t, req, prog, frame, h⟩]
  rw [h.submitted, h.enqueued]
  exact (hdeq.trans (List.prefix_append _ _)).trans (List.prefix_append _ _)

/-- Children that may do anything. -/
def Children.any (late : Bool) : Children := ⟨fun _ _ => true, late⟩

/-- **The queues serialize without loss.** Whatever the children do and however the tasks
interleave: at most one drain loop runs for a stripe, an entry exists just while it does,
the requests of a stripe are enqueued, dequeued and completed in the order in which they
were submitted, each once and on the sender it came with, and nothing panics. Without
new requests every schedule stops, and then all of them have been completed. -/
theorem queue_serializes [XorGroup B] (dev : Raid5Bdev) (hdisks : dev.diskCount ≤ 64)
    (late overflowChecks : Bool) (disks : Nat → Nat → B) (es : List (DevEvent B)) (s : Device B)
    (hrun : run (Device.next dev (.any late) overflowChecks) (Device.start disks) es = some s) :
    Serialized dev s ∧
      Stops (Device.next dev (.any late) overflowChecks) DevEvent.Inner s ∧
      (s.AtRest dev (.any late) overflowChecks → ∀ k,
        onKey (Request.stripe dev) k (s.log.map (·.req)) =
          onKey (Request.stripe dev) k s.submitted) := by
  obtain ⟨G, rfl, hch, hok, hshift, hstart⟩ :=
    exists_base (B := B) dev (.any late) fun _ : overflowChecks = true => hdisks
  have hs : Reached G s := (hstart disks).run hok hshift hch hrun
  exact ⟨hs.serialized, hs.stops hok hshift hch, hs.answered fun _ => Or.inl rfl⟩

/-- A flush, and behind it a read across two stripes, from two threads. -/
def flushAndCrossing : List (DevEvent Byte) :=
  [.submit ⟨⟨⟨.flush, 0, 0⟩, 7⟩, 0⟩, .submit ⟨⟨⟨.read, 3, 2⟩, 8⟩, 0⟩, .start 0, .start 0,
    .dequeue 0 0, .step 0, .step 0, .dequeue 0 0, .step 0, .step 0, .dequeue 0 0]

theorem queue_serializes_flushAndCrossing :
    ∃ s, run (Device.next smallArray (.any true) true) (Device.start 0) flushAndCrossing = some s ∧
      s.log.map (fun a => (a.sender, a.status)) = [(7, .success), (8, .failure)] ∧
      Serialized smallArray s := by
  have hlog : (run (Device.next smallArray (.any true) true) (Device.start 0) flushAndCrossing).map
      (fun s => s.log.map fun a => (a.sender, a.status)) = some [(7, .success), (8, .failure)] := by
    decide
  obtain ⟨s, hs, hl⟩ := Option.map_eq_some_iff.mp hlog
  exact ⟨s, hs, hl, (queue_serializes smallArray (by decide) true true 0 flushAndCrossing s hs).1⟩

end Ironspdk.Raid5
