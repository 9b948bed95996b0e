import Ironspdk.Raid5.Serialize

/-! # A device as one of its stripes sees it

Whatever the children do, a stripe has at most one request in `process_req`. A step of the
device takes a request up there, is the next operation of that request, moves one of its
child I/Os on, ends it, or happens elsewhere: then it changes no row of the stripe and
answers none of its requests. What a step does to a stripe is said here once; what is proved
of one stripe does not depend on what happens in the others. -/
namespace Ironspdk.Raid5
open Ironspdk.Lib Ironspdk.Runtime

variable {B : Type}

/-- A request in `process_req`: what its program has still to do, and its frame. -/
structure Service (B : Type) where
  req : Request B
  prog : Task Unit
  frame : Frame B

def Stage.service : Stage B → Option (Service B)
  | .processing req prog frame => some ⟨req, prog, frame⟩
  | _ => none

/-- What stripe `k` is at: a request in `process_req`, or none. -/
def Device.Serves (dev : Raid5Bdev) (s : Device B) (k : Nat) : Option (Service B) → Prop
  | none => ∀ t req prog frame, ¬ s.Processing dev t k req prog frame
  | some b => ∃ t, ∀ t' req prog frame, s.Processing dev t' k req prog frame ↔
      t' = t ∧ b = ⟨req, prog, frame⟩

/-- What a step of a device does to stripe `k`. -/
inductive StripeStep [Add B] [Zero B] (dev : Raid5Bdev) (ch : Children) (overflowChecks : Bool)
    (k : Nat) (s s' : Device B) : DevEvent B → Option (Service B) → Option (Service B) → Prop
  | elsewhere {e : DevEvent B} {b : Option (Service B)} {a : List (Answer B)}
      (hdisks : ∀ x row, row / dev.stripBlocks = k → s'.disks x row = s.disks x row)
      (hlog : s'.log = s.log ++ a) (hother : ∀ c ∈ a, c.req.stripe dev ≠ k)
      (hchild : ∀ t ce, e = .child t ce → ∀ task, s.tasks[t]? = some task →
        task.req.stripe dev ≠ k) : StripeStep dev ch overflowChecks k s s' e b b
  | begins {t : Nat} {heap : Nat → Nat → B} {req : Request B} (hk : req.stripe dev = k)
      (hdisks : s'.disks = s.disks) (hlog : s'.log = s.log) :
      StripeStep dev ch overflowChecks k s s' (.dequeue t heap) none
        (some ⟨req, processReq dev overflowChecks k req.toQueuedIo, Frame.start req heap⟩)
  | performs {t : Nat} {req : Request B} {frame : Frame B} {o : Op} {r : Res o}
      {next : Res o → Task Unit} {u : Proc B}
      (hp : Raid5.perform o ⟨frame, s.disks⟩ = some (r, u)) (hdisks : s'.disks = u.disks)
      (hlog : s'.log = s.log ++ answers req frame o) :
      StripeStep dev ch overflowChecks k s s' (.step t) (some ⟨req, .op o next, frame⟩)
        (some ⟨req, next r, u.toFrame⟩)
  | child {t : Nat} {ce : ChildEvent B} {req : Request B} {prog : Task Unit} {frame : Frame B}
      {u : Proc B} (htask : ∃ task, s.tasks[t]? = some task ∧ task.req.stripe dev = k ∧
        task.stage = .processing req prog frame)
      (hr : ch.react ⟨frame, s.disks⟩ ce = some u) (hdisks : s'.disks = u.disks)
      (hlog : s'.log = s.log) :
      StripeStep dev ch overflowChecks k s s' (.child t ce) (some ⟨req, prog, frame⟩)
        (some ⟨req, prog, u.toFrame⟩)
  | ends {t : Nat} {req : Request B} {frame : Frame B} (hdisks : s'.disks = s.disks)
      (hlog : s'.log = s.log) :
      StripeStep dev ch overflowChecks k s s' (.step t) (some ⟨req, .ret (), frame⟩) none

section serves
variable {dev : Raid5Bdev} {s s' : Device B} {l : Lanes Nat (Request B)} {t k : Nat}
  {task : IoTask B} {b c : Option (Service B)}

theorem Device.Serves.unique (hb : s.Serves dev k b) (hc : s.Serves dev k c) : b = c := by
  cases b with
  | none =>
    cases c with
    | none => rfl
    | some c =>
      obtain ⟨t, hc⟩ := hc
      exact absurd ((hc t _ _ _).mpr ⟨rfl, rfl⟩) (hb t _ _ _)
  | some b =>
    obtain ⟨t, hb⟩ := hb
    have hin := (hb t _ _ _).mpr ⟨rfl, rfl⟩
    cases c with
    | none => exact absurd hin (hc t _ _ _)
    | some c =>
      obtain ⟨t', hc⟩ := hc
      exact congrArg some ((hc _ _ _ _).mp hin).2.symm

theorem serves_congr (h : ∀ (t : Nat) (req : Request B) (prog : Task Unit) (frame : Frame B),
    s'.Processing dev t k req prog frame ↔ s.Processing dev t k req prog frame) :
    s'.Serves dev k b ↔ s.Serves dev k b := by
  cases b <;> simp only [Device.Serves, h]

theorem serves_start (disks : Nat → Nat → B) : (Device.start disks).Serves dev k none := by
  rintro t req prog frame ⟨task, ht, _⟩
  simp [Device.start] at ht

/-- The task that drains a stripe is the one whose request is in service. -/
theorem Sim.serves (h : Sim dev s l) (ht : s.tasks[t]? = some task)
    {turn : Turn (Request B)} (hturn : task.stage.turn = some turn) :
    s.Serves dev (task.req.stripe dev) task.stage.service := by
  have hhas : HasTurn dev s.tasks t (task.req.stripe dev) turn :=
    (hasTurn_at ht).mpr ⟨rfl, hturn⟩
  have honly : ∀ {t' : Nat} {req : Request B} {prog : Task Unit} {frame : Frame B},
      s.Processing dev t' (task.req.stripe dev) req prog frame →
      t' = t ∧ task.stage = .processing req prog frame := by
    intro t' req prog frame hp
    obtain ⟨turn', hturn'⟩ := hp.hasTurn
    obtain rfl := (h.lane _).single hturn' hhas
    obtain ⟨task', ht', hst', _⟩ := hp
    cases ht.symm.trans ht'
    exact ⟨rfl, hst'⟩
  cases hst : task.stage with
  | processing req prog frame =>
    refine ⟨t, fun t' req' prog' frame' => ⟨fun hp => ?_, fun ⟨he, hb⟩ => ?_⟩⟩
    · obtain ⟨he, hst'⟩ := honly hp
      rw [hst] at hst'
      cases hst'
      exact ⟨he, rfl⟩
    · cases hb
      exact he ▸ ⟨task, ht, hst, rfl⟩
  | _ =>
    intro t' req prog frame hp
    rw [(honly hp).2] at hst
    cases hst

/-- A step of the task that drains a stripe decides what is in service there. -/
theorem Sim.serves_set (h : Sim dev s l) (ht : s.tasks[t]? = some task)
    {turn : Turn (Request B)} (hturn : task.stage.turn = some turn) {stage : Stage B}
    (htasks : s'.tasks = s.tasks.set t { task with stage := stage }) (hb : stage.service = b) :
    s'.Serves dev (task.req.stripe dev) b := by
  subst hb
  have hhas : HasTurn dev s.tasks t (task.req.stripe dev) turn :=
    (hasTurn_at ht).mpr ⟨rfl, hturn⟩
  have honly : ∀ {t' : Nat} {req : Request B} {prog : Task Unit} {frame : Frame B},
      s'.Processing dev t' (task.req.stripe dev) req prog frame →
      t' = t ∧ stage = .processing req prog frame := by
    intro t' req prog frame hp
    rw [processing_set ht htasks] at hp
    split at hp
    · rename_i he
      exact ⟨he, hp.1⟩
    · rename_i hne
      obtain ⟨turn', hturn'⟩ := hp.hasTurn
      exact absurd ((h.lane _).single hturn' hhas) hne
  cases stage with
  | processing req prog frame =>
    refine ⟨t, fun t' req' prog' frame' => ⟨fun hp => ?_, fun ⟨he, hb⟩ => ?_⟩⟩
    · obtain ⟨he, hst'⟩ := honly hp
      cases hst'
      exact ⟨he, rfl⟩
    · cases hb
      rw [processing_set ht htasks, if_pos he]
      exact ⟨rfl, rfl⟩
  | _ => exact fun t' req prog frame hp => by cases (honly hp).2

/-- It does not concern the other stripes. -/
theorem serves_other (ht : s.tasks[t]? = some task) {stage : Stage B}
    (htasks : s'.tasks = s.tasks.set t { task with stage := stage })
    (hk : task.req.stripe dev ≠ k) : s'.Serves dev k b ↔ s.Serves dev k b := by
  refine serves_congr fun t' req prog frame => ?_
  rw [processing_set ht htasks]
  split
  · rename_i he
    subst he
    refine ⟨fun hp => absurd hp.2 hk, fun ⟨task', ht', _, hk'⟩ => ?_⟩
    cases ht.symm.trans ht'
    exact absurd hk' hk
  · rfl

/-- The drain loop finds its queue empty. -/
theorem drain_empty (overflowChecks : Bool) (heap : Nat → Nat → B)
    (hentry : s.channels (dev.ownerIdx (task.req.stripe dev)) (task.req.stripe dev) =
      some ⟨[], true⟩) :
    (s.drain dev overflowChecks t task heap).tasks =
        s.tasks.set t { task with stage := .finished } ∧
      (s.drain dev overflowChecks t task heap).disks = s.disks ∧
      (s.drain dev overflowChecks t task heap).log = s.log := by
  simp [Device.drain, dequeue, hentry, Device.setStage]

/-- The drain loop takes up the request that waits first. -/
theorem drain_next (overflowChecks : Bool) (heap : Nat → Nat → B) {req : Request B}
    {ws : List (Request B)}
    (hentry : s.channels (dev.ownerIdx (task.req.stripe dev)) (task.req.stripe dev) =
      some ⟨req :: ws, true⟩) :
    (s.drain dev overflowChecks t task heap).tasks = s.tasks.set t { task with
        stage := .processing req
          (processReq dev overflowChecks (task.req.stripe dev) req.toQueuedIo)
          (Frame.start req heap) } ∧
      (s.drain dev overflowChecks t task heap).disks = s.disks ∧
      (s.drain dev overflowChecks t task heap).log = s.log := by
  simp [Device.drain, dequeue, hentry, Device.setStage]

end serves

section step
variable [XorGroup B] {G : Base B} {ch : Children} {overflowChecks : Bool} {s s' : Device B}
  {e : DevEvent B} {k : Nat} {b : Option (Service B)}

/-- **What a step does to a stripe.** -/
theorem Reached.stripe_step (h : Reached G s) (hb : s.Serves G.dev k b)
    (hs : s.Step G.dev ch overflowChecks e s') :
    ∃ b', StripeStep G.dev ch overflowChecks k s s' e b b' ∧ s'.Serves G.dev k b' := by
  obtain ⟨l, hq⟩ := h.queued
  have horder := h.serving.orderly e
  cases hs with
  | submit req =>
    exact ⟨b, .elsewhere (a := []) (fun _ _ _ => rfl) (List.append_nil _).symm nofun nofun,
      (serves_congr fun _ _ _ _ => processing_submit).mpr hb⟩
  | start hbox ht =>
    rename_i w t rest task
    obtain ⟨_, hc, hst, _⟩ := (hq.inbox.mem w t).mp (by rw [hbox]; exact List.mem_cons_self ..)
    cases ht.symm.trans hc
    exact ⟨b, .elsewhere (a := []) (fun _ _ _ => rfl) (List.append_nil _).symm nofun nofun,
      (serves_congr fun _ _ _ _ => processing_begin ht hst).mpr hb⟩
  | drain ht hst =>
    rename_i t task heap
    have hturn : task.stage.turn = some .next := by rw [hst]; rfl
    have hlane := hq.sim.lane (task.req.stripe G.dev)
    obtain ⟨ws, hl⟩ := hlane.turn_eq ht rfl hturn
    have hentry := (hl ▸ hlane).1
    have hself : b = none ∨ task.req.stripe G.dev ≠ k := by
      by_cases hk : task.req.stripe G.dev = k
      · subst hk
        have := hq.sim.serves ht hturn
        rw [hst] at this
        exact Or.inl (hb.unique this)
      · exact Or.inr hk
    cases ws with
    | nil =>
      obtain ⟨htasks, hdisks, hlog⟩ := drain_empty (t := t) overflowChecks heap hentry
      refine ⟨b, .elsewhere (a := []) (fun _ _ _ => by rw [hdisks]) (by rw [hlog, List.append_nil])
        nofun nofun, ?_⟩
      by_cases hk : task.req.stripe G.dev = k
      · obtain rfl := hself.resolve_right (not_not.mpr hk)
        exact hk ▸ hq.sim.serves_set ht hturn htasks rfl
      · exact (serves_other ht htasks hk).mpr hb
    | cons req ws =>
      have hkey : req.stripe G.dev = task.req.stripe G.dev :=
        hq.lanes.key_waiting (by rw [hl]; exact List.mem_cons_self ..)
      obtain ⟨htasks, hdisks, hlog⟩ := drain_next (t := t) overflowChecks heap hentry
      by_cases hk : task.req.stripe G.dev = k
      · obtain rfl := hself.resolve_right (not_not.mpr hk)
        subst hk
        exact ⟨_, .begins hkey hdisks hlog, hq.sim.serves_set ht hturn htasks rfl⟩
      · exact ⟨b, .elsewhere (a := []) (fun _ _ _ => by rw [hdisks]) (by rw [hlog, List.append_nil])
          nofun nofun, (serves_other ht htasks hk).mpr hb⟩
  | ret ht hst =>
    rename_i t task req frame
    have hturn : task.stage.turn = some (if frame.completions = [] then .serving req
        else .served req) := by rw [hst]; rfl
    by_cases hk : task.req.stripe G.dev = k
    · subst hk
      have := hq.sim.serves ht hturn
      rw [hst] at this
      obtain rfl := hb.unique this
      exact ⟨none, .ends rfl rfl, hq.sim.serves_set ht hturn rfl rfl⟩
    · exact ⟨b, .elsewhere (a := []) (fun _ _ _ => rfl) (List.append_nil _).symm nofun nofun,
        (serves_other ht rfl hk).mpr hb⟩
  | panic ht hst => exact absurd (horder _ _ _ _ ht hst) id
  | perform ht hst hp =>
    rename_i t task req frame o r next u
    have hturn : task.stage.turn = some (if frame.completions = [] then .serving req
        else .served req) := by rw [hst]; rfl
    by_cases hk : task.req.stripe G.dev = k
    · subst hk
      have := hq.sim.serves ht hturn
      rw [hst] at this
      obtain rfl := hb.unique this
      exact ⟨_, .performs hp rfl rfl, hq.sim.serves_set ht hturn rfl rfl⟩
    · refine ⟨b, .elsewhere (a := answers req frame o) (fun x row _ => ?_) rfl (fun c hc => ?_)
        nofun, (serves_other ht rfl hk).mpr hb⟩
      · exact congrFun (congrFun (perform_frame hp).1 x) row
      · cases o with
        | complete sender status =>
          obtain rfl := List.mem_singleton.mp hc
          rw [(h.serving.completes hq ht hst).2.2.1]
          exact hk
        | _ => cases hc
  | child ht hst hr =>
    rename_i t task req prog frame ce u
    have hturn : task.stage.turn = some (if frame.completions = [] then .serving req
        else .served req) := by rw [hst]; rfl
    by_cases hk : task.req.stripe G.dev = k
    · subst hk
      have := hq.sim.serves ht hturn
      rw [hst] at this
      obtain rfl := hb.unique this
      exact ⟨_, .child ⟨task, ht, rfl, hst⟩ hr rfl rfl, hq.sim.serves_set ht hturn rfl rfl⟩
    · obtain ⟨flat, hserved⟩ := h.serving.served t _ req prog frame ⟨task, ht, hst, rfl⟩
      refine ⟨b, .elsewhere (a := []) (fun x row hrow => ?_) (List.append_nil _).symm nofun ?_,
        (serves_other ht rfl hk).mpr hb⟩
      · refine react_disks hr fun r hr _ hhit => hk ?_
        rw [← hrow]
        exact (hserved.row_of_hits hr hhit).symm
      · intro t' ce' he task' ht'
        cases he
        cases ht.symm.trans ht'
        exact hk

end step

end Ironspdk.Raid5
