import Ironspdk.Lib.Lanes
import Ironspdk.Raid5.Device

/-! # The queues of a device serve every stripe in order

The maps of the workers, their drain flags and their drain loops together are lanes: a
stripe has an entry exactly while one task drains it, the entry holds what waits, and the
task is at its head or in `process_req` for the request taken up last. The messages to a
worker hold the requests that have been submitted and not enqueued yet. -/
namespace Ironspdk.Raid5
open Ironspdk.Lib Ironspdk.Runtime

variable {B : Type}

/-! ## Lanes -/

/-- How far the drain loop of a task is, if it runs one. -/
def Stage.turn : Stage B → Option (Turn (Request B))
  | .draining => some .next
  | .processing req _ frame => some (if frame.completions = [] then .serving req else .served req)
  | _ => none

/-- Task `t` drains stripe `k` and is at `turn`. -/
def HasTurn (dev : Raid5Bdev) (tasks : List (IoTask B)) (t k : Nat) (turn : Turn (Request B)) :
    Prop :=
  ∃ task, tasks[t]? = some task ∧ task.req.stripe dev = k ∧ task.stage.turn = some turn

/-- The entry of stripe `k` and the tasks that drain it are a lane. -/
def LaneIs (dev : Raid5Bdev) (channels : Nat → Stripes (Request B)) (tasks : List (IoTask B))
    (k : Nat) : Lane (Request B) → Prop
  | .idle => channels (dev.ownerIdx k) k = none ∧ ∀ t turn, ¬ HasTurn dev tasks t k turn
  | .active turn ws => channels (dev.ownerIdx k) k = some ⟨ws, true⟩ ∧
      ∃ t, ∀ t' turn', HasTurn dev tasks t' k turn' ↔ t' = t ∧ turn' = turn

/-- The device is at the lanes `l`. -/
structure Sim (dev : Raid5Bdev) (s : Device B) (l : Lanes Nat (Request B)) : Prop where
  lane : ∀ k, LaneIs dev s.channels s.tasks k (l.lane k)
  stray : ∀ w k, dev.ownerIdx k ≠ w → s.channels w k = none
  arrived : s.enqueued = l.arrived
  taken : s.dequeued = l.taken
  answered : s.log.map (·.req) = l.answered

/-- The operation task `t` is at is one that a request may perform there: it is completed
before it returns, once, and does not panic. -/
def Orderly (s : Device B) : DevEvent B → Prop
  | .step t => ∀ task req prog frame, s.tasks[t]? = some task →
      task.stage = .processing req prog frame →
      match prog with
      | .ret _ => frame.completions ≠ []
      | .op (.complete _ _) _ => frame.completions = []
      | .op (.panic _) _ => False
      | _ => True
  | _ => True

section turns
variable {dev : Raid5Bdev} {tasks : List (IoTask B)} {t t' k : Nat} {task : IoTask B}
  {turn : Turn (Request B)}

theorem getElem?_setTask {stage : Stage B} (ht : tasks[t]? = some task) :
    (tasks.set t { task with stage := stage })[t']? =
      if t' = t then some { task with stage := stage } else tasks[t']? := by
  obtain ⟨hlt, _⟩ := List.getElem?_eq_some_iff.mp ht
  rw [List.getElem?_set]
  by_cases h : t' = t
  · subst h
    simp [hlt]
  · rw [if_neg (Ne.symm h), if_neg h]

theorem hasTurn_set {stage : Stage B} (ht : tasks[t]? = some task) :
    HasTurn dev (tasks.set t { task with stage := stage }) t' k turn ↔
      if t' = t then task.req.stripe dev = k ∧ stage.turn = some turn
      else HasTurn dev tasks t' k turn := by
  unfold HasTurn
  rw [getElem?_setTask ht]
  by_cases h : t' = t
  · simp only [if_pos h, Option.some.injEq]
    exact ⟨fun ⟨_, he, h⟩ => by subst he; exact h, fun h => ⟨_, rfl, h⟩⟩
  · simp only [if_neg h]

theorem hasTurn_at (ht : tasks[t]? = some task) :
    HasTurn dev tasks t k turn ↔ task.req.stripe dev = k ∧ task.stage.turn = some turn := by
  unfold HasTurn
  rw [ht]
  exact ⟨fun ⟨_, he, h⟩ => by cases he; exact h, fun h => ⟨_, rfl, h⟩⟩

/-- A step of a task leaves the other stripes alone. -/
theorem hasTurn_set_other {stage : Stage B} (ht : tasks[t]? = some task)
    (hk : task.req.stripe dev ≠ k) :
    HasTurn dev (tasks.set t { task with stage := stage }) t' k turn ↔
      HasTurn dev tasks t' k turn := by
  rw [hasTurn_set ht]
  split
  · rename_i h
    subst h
    rw [hasTurn_at ht]
    exact ⟨fun h => absurd h.1 hk, fun h => absurd h.1 hk⟩
  · rfl

theorem hasTurn_set_same {stage : Stage B} (ht : tasks[t]? = some task)
    (hst : stage.turn = task.stage.turn) :
    HasTurn dev (tasks.set t { task with stage := stage }) t' k turn ↔
      HasTurn dev tasks t' k turn := by
  rw [hasTurn_set ht]
  split
  · rename_i h
    subst h
    rw [hasTurn_at ht, hst]
  · rfl

theorem hasTurn_append {req : Request B} :
    HasTurn dev (tasks ++ [⟨req, .spawned⟩]) t k turn ↔ HasTurn dev tasks t k turn := by
  refine ⟨fun ⟨task, ht, hk, hst⟩ => ?_, fun ⟨task, ht, h⟩ => ⟨task, ?_, h⟩⟩
  · rcases append_get ht with ht | ⟨_, rfl⟩
    · exact ⟨task, ht, hk, hst⟩
    · cases hst
  · rw [List.getElem?_append_left (List.getElem?_eq_some_iff.mp ht).1, ht]

end turns

section lanes
variable {dev : Raid5Bdev} {channels channels' : Nat → Stripes (Request B)}
  {tasks tasks' : List (IoTask B)} {t k : Nat} {task : IoTask B} {turn : Turn (Request B)}
  {lane : Lane (Request B)} {ws : List (Request B)}

theorem LaneIs.congr (h : LaneIs dev channels tasks k lane)
    (hch : channels' (dev.ownerIdx k) k = channels (dev.ownerIdx k) k)
    (hturn : ∀ t turn, HasTurn dev tasks' t k turn ↔ HasTurn dev tasks t k turn) :
    LaneIs dev channels' tasks' k lane := by
  cases lane with
  | idle => exact ⟨hch.trans h.1, fun t turn ht => h.2 t turn ((hturn t turn).mp ht)⟩
  | active turn ws =>
    obtain ⟨hent, t, ht⟩ := h
    exact ⟨hch.trans hent, t, fun t' turn' => (hturn t' turn').trans (ht t' turn')⟩

/-- The task that drains a stripe moves on in its turn. -/
theorem LaneIs.advance (h : LaneIs dev channels tasks k (.active turn ws))
    (ht : tasks[t]? = some task) (hk : task.req.stripe dev = k) (hst : task.stage.turn = some turn)
    {stage : Stage B} {turn' : Turn (Request B)} (hst' : stage.turn = some turn')
    {ws' : List (Request B)} (hent : channels' (dev.ownerIdx k) k = some ⟨ws', true⟩) :
    LaneIs dev channels' (tasks.set t { task with stage := stage }) k (.active turn' ws') := by
  obtain ⟨_, t₀, hall⟩ := h
  obtain ⟨rfl, _⟩ := (hall t turn).mp ((hasTurn_at ht).mpr ⟨hk, hst⟩)
  refine ⟨hent, t, fun t' u => ?_⟩
  rw [hasTurn_set ht]
  split
  · rename_i he
    simp [he, hk, hst', eq_comm]
  · rename_i he
    rw [hall]
    simp [he]

/-- It ends, and its entry is gone. -/
theorem LaneIs.finish (h : LaneIs dev channels tasks k (.active turn ws))
    (ht : tasks[t]? = some task) (hk : task.req.stripe dev = k) (hst : task.stage.turn = some turn)
    {stage : Stage B} (hst' : stage.turn = none) (hent : channels' (dev.ownerIdx k) k = none) :
    LaneIs dev channels' (tasks.set t { task with stage := stage }) k .idle := by
  obtain ⟨_, t₀, hall⟩ := h
  obtain ⟨rfl, _⟩ := (hall t turn).mp ((hasTurn_at ht).mpr ⟨hk, hst⟩)
  refine ⟨hent, fun t' u => ?_⟩
  rw [hasTurn_set ht]
  split
  · simp [hst']
  · rename_i he
    rw [hall]
    simp [he]

/-- A task that runs no loop finds a lane whose turn is its own, once it has one. -/
theorem LaneIs.turn_eq (h : LaneIs dev channels tasks k lane) (ht : tasks[t]? = some task)
    (hk : task.req.stripe dev = k) (hst : task.stage.turn = some turn) :
    ∃ ws, lane = .active turn ws := by
  cases lane with
  | idle => exact absurd ((hasTurn_at ht).mpr ⟨hk, hst⟩) (h.2 t turn)
  | active turn' ws =>
    obtain ⟨_, t₀, hall⟩ := h
    obtain ⟨_, rfl⟩ := (hall t turn).mp ((hasTurn_at ht).mpr ⟨hk, hst⟩)
    exact ⟨ws, rfl⟩

/-- At most one task drains a stripe. -/
theorem LaneIs.single (h : LaneIs dev channels tasks k lane) {t t' : Nat}
    {turn turn' : Turn (Request B)} (ht : HasTurn dev tasks t k turn)
    (ht' : HasTurn dev tasks t' k turn') : t = t' := by
  cases lane with
  | idle => exact absurd ht (h.2 t turn)
  | active u ws =>
    obtain ⟨_, t₀, hall⟩ := h
    exact ((hall t turn).mp ht).1.trans ((hall t' turn').mp ht').1.symm

/-- A stripe has an entry exactly while a task drains it. -/
theorem LaneIs.entry (h : LaneIs dev channels tasks k lane) :
    (channels (dev.ownerIdx k) k).isSome ↔ ∃ t turn, HasTurn dev tasks t k turn := by
  cases lane with
  | idle =>
    rw [h.1]
    exact ⟨nofun, fun ⟨t, turn, ht⟩ => absurd ht (h.2 t turn)⟩
  | active turn ws =>
    obtain ⟨hent, t, hall⟩ := h
    rw [hent]
    exact ⟨fun _ => ⟨t, turn, (hall t turn).mpr ⟨rfl, rfl⟩⟩, fun _ => rfl⟩

end lanes

/-! ## The steps of a device are steps of its lanes -/

/-- An update of the entry of `k` in the map of worker `w`. -/
theorem channels_update {R : Type} (channels : Nat → Stripes R) (w k : Nat)
    (x : Option (StripeQueue R)) (w' k' : Nat) :
    Function.update channels w (Function.update (channels w) k x) w' k' =
      if w' = w ∧ k' = k then x else channels w' k' := by
  by_cases hw : w' = w
  · subst hw
    by_cases hk : k' = k
    · subst hk
      simp
    · simp [hk]
  · simp [hw]

/-- What an operation adds to the completions of a request. -/
def Op.completion : Op → List (SpdkThread × IoStatus)
  | .complete sender status => [(sender, status)]
  | _ => []

theorem perform_frame [Add B] [Zero B] {o : Op} {s t : Proc B} {r : Res o}
    (h : perform o s = some (r, t)) :
    t.disks = s.disks ∧ t.completions = s.completions ++ o.completion := by
  cases o with
  | await c =>
    simp only [Raid5.perform] at h
    split at h
    · cases h
      exact ⟨rfl, (List.append_nil _).symm⟩
    · cases h
  | panic msg => cases h
  | complete sender status =>
    cases h
    exact ⟨rfl, rfl⟩
  | _ =>
    cases h
    exact ⟨rfl, (List.append_nil _).symm⟩

section sim
variable {dev : Raid5Bdev} {s s' : Device B} {l : Lanes Nat (Request B)} {t : Nat}
  {task : IoTask B}

/-- The lanes after a step of task `t`, which concerns only the stripe of its request. -/
theorem Sim.move (h : Sim dev s l) (ht : s.tasks[t]? = some task) {stage : Stage B}
    {lane : Lane (Request B)} {as ts : List (Request B)} {a : List (Answer B)}
    (htasks : s'.tasks = s.tasks.set t { task with stage := stage })
    (hchannels : ∀ w k, ¬ (w = dev.ownerIdx (task.req.stripe dev) ∧ k = task.req.stripe dev) →
      s'.channels w k = s.channels w k)
    (has : s'.enqueued = s.enqueued ++ as) (hts : s'.dequeued = s.dequeued ++ ts)
    (hlog : s'.log = s.log ++ a)
    (hlane : LaneIs dev s'.channels (s.tasks.set t { task with stage := stage })
      (task.req.stripe dev) lane) :
    Sim dev s' (l.move (task.req.stripe dev) lane as ts (a.map (·.req))) := by
  refine ⟨fun k => ?_, fun w k hw => ?_, ?_, ?_, ?_⟩
  · rw [htasks]
    by_cases hk : k = task.req.stripe dev
    · subst hk
      rwa [Lanes.move_self]
    · rw [l.move_other _ _ _ _ hk]
      exact (h.lane k).congr (hchannels _ _ fun hc => hk hc.2) fun t' turn =>
        hasTurn_set_other ht (Ne.symm hk)
  · rw [hchannels w k ?_]
    · exact h.stray w k hw
    · rintro ⟨rfl, rfl⟩
      exact hw rfl
  · rw [has, h.arrived]
    rfl
  · rw [hts, h.taken]
    rfl
  · rw [hlog, List.map_append, h.answered]
    rfl

/-- A step of a task that keeps its turn is none of the lanes. -/
theorem Sim.stay (h : Sim dev s l) (ht : s.tasks[t]? = some task) {stage : Stage B}
    (htasks : s'.tasks = s.tasks.set t { task with stage := stage })
    (hst : stage.turn = task.stage.turn) (hch : s'.channels = s.channels)
    (has : s'.enqueued = s.enqueued) (hts : s'.dequeued = s.dequeued) (hlog : s'.log = s.log) :
    Sim dev s' l := by
  refine ⟨fun k => ?_, fun w k hw => by rw [hch]; exact h.stray w k hw, by rw [has, h.arrived],
    by rw [hts, h.taken], by rw [hlog, h.answered]⟩
  rw [htasks, hch]
  exact (h.lane k).congr rfl fun t' turn => hasTurn_set_same ht hst

theorem Sim.submit (h : Sim dev s l) (req : Request B) : Sim dev (s.submitIo dev req) l :=
  ⟨fun k => (h.lane k).congr rfl fun _ _ => hasTurn_append, h.stray, h.arrived, h.taken,
    h.answered⟩

/-- A task that enqueues its request joins the lane, and drains it if nobody does. -/
theorem Sim.begin (h : Sim dev s l) (ht : s.tasks[t]? = some task) (hst : task.stage = .spawned)
    (rest : List Nat) :
    Sim dev (s.begin dev (dev.ownerIdx (task.req.stripe dev)) t rest task)
      (l.move (task.req.stripe dev) ((l.lane (task.req.stripe dev)).arrive task.req)
        [task.req] [] []) := by
  have hnone : task.stage.turn = none := by rw [hst]; rfl
  have hlane := h.lane (task.req.stripe dev)
  refine h.move (a := []) ht rfl (fun w k hwk => ?_) rfl (List.append_nil _).symm
    (List.append_nil _).symm ?_
  · simp only [Device.begin, enqueue]
    rw [channels_update, if_neg hwk]
  · have hent : (s.begin dev (dev.ownerIdx (task.req.stripe dev)) t rest task).channels
        (dev.ownerIdx (task.req.stripe dev)) (task.req.stripe dev) =
        some ⟨((s.channels (dev.ownerIdx (task.req.stripe dev)) (task.req.stripe dev)).getD
          {}).pending ++ [task.req], true⟩ := by
      simp only [Device.begin, enqueue]
      rw [channels_update, if_pos ⟨rfl, rfl⟩]
    cases hl : l.lane (task.req.stripe dev) with
    | idle =>
      rw [hl] at hlane
      obtain ⟨hentry, hno⟩ := hlane
      simp only [hentry, Option.getD_none, Bool.false_eq_true, if_false]
      refine ⟨by rw [hent, hentry]; rfl, t, fun t' turn => ?_⟩
      rw [hasTurn_set ht]
      split
      · rename_i he
        simp [he, Stage.turn, eq_comm]
      · rename_i he
        simp [he, hno]
    | active turn ws =>
      rw [hl] at hlane
      obtain ⟨hentry, t₀, hall⟩ := hlane
      simp only [hentry, Option.getD_some, if_true]
      refine ⟨by rw [hent, hentry]; rfl, t₀, fun t' turn' => ?_⟩
      rw [hasTurn_set_same ht (by rw [hnone]; rfl), hall]

/-- The head of a drain loop finds the entry of its stripe: it takes up the request that has
waited longest, or removes the entry and ends. -/
theorem Sim.drain (h : Sim dev s l) (ht : s.tasks[t]? = some task) (hst : task.stage = .draining)
    (overflowChecks : Bool) (heap : Nat → Nat → B) :
    ∃ l', l.next (Request.stripe dev) (.take (task.req.stripe dev)) = some l' ∧
      Sim dev (s.drain dev overflowChecks t task heap) l' := by
  have hturn : task.stage.turn = some .next := by rw [hst]; rfl
  have hlane := h.lane (task.req.stripe dev)
  obtain ⟨ws, hl⟩ := hlane.turn_eq ht rfl hturn
  rw [hl] at hlane
  have hentry := hlane.1
  simp only [Lanes.next, hl]
  cases ws with
  | nil =>
    have hs' : s.drain dev overflowChecks t task heap = { s.setStage t task .finished with
        channels := Function.update s.channels (dev.ownerIdx (task.req.stripe dev))
          (Function.update (s.channels (dev.ownerIdx (task.req.stripe dev)))
            (task.req.stripe dev) none) } := by
      simp [Device.drain, dequeue, hentry]
    refine ⟨_, rfl, h.move (a := []) ht (by rw [hs']; rfl) (fun w k hwk => ?_) ?_ ?_ ?_ ?_⟩
    · simp only [hs']
      rw [channels_update, if_neg hwk]
    · rw [hs']
      exact (List.append_nil _).symm
    · rw [hs']
      exact (List.append_nil _).symm
    · rw [hs']
      exact (List.append_nil _).symm
    · refine hlane.finish ht rfl hturn rfl ?_
      simp only [hs']
      rw [channels_update, if_pos ⟨rfl, rfl⟩]
  | cons req ws =>
    have hs' : s.drain dev overflowChecks t task heap = { s.setStage t task (.processing req
        (processReq dev overflowChecks (task.req.stripe dev) req.toQueuedIo)
          (Frame.start req heap)) with
        channels := Function.update s.channels (dev.ownerIdx (task.req.stripe dev))
          (Function.update (s.channels (dev.ownerIdx (task.req.stripe dev)))
            (task.req.stripe dev) (some ⟨ws, true⟩))
        dequeued := s.dequeued ++ [req] } := by
      simp [Device.drain, dequeue, hentry]
    refine ⟨_, rfl, h.move (a := []) ht (by rw [hs']; rfl) (fun w k hwk => ?_) ?_ ?_ ?_ ?_⟩
    · simp only [hs']
      rw [channels_update, if_neg hwk]
    · rw [hs']
      exact (List.append_nil _).symm
    · rw [hs']
    · rw [hs']
      exact (List.append_nil _).symm
    · refine hlane.advance ht rfl hturn rfl ?_
      simp only [hs']
      rw [channels_update, if_pos ⟨rfl, rfl⟩]

/-- When `process_req` returns, its request has been answered, and the loop goes on. -/
theorem Sim.ret (h : Sim dev s l) (ht : s.tasks[t]? = some task) {req : Request B}
    {frame : Frame B} (hst : task.stage = .processing req (.ret ()) frame)
    (hok : frame.completions ≠ []) :
    ∃ l', l.next (Request.stripe dev) (.finish (task.req.stripe dev)) = some l' ∧
      Sim dev (s.setStage t task .draining) l' := by
  have hturn : task.stage.turn = some (.served req) := by
    rw [hst]
    simp [Stage.turn, hok]
  have hlane := h.lane (task.req.stripe dev)
  obtain ⟨ws, hl⟩ := hlane.turn_eq ht rfl hturn
  rw [hl] at hlane
  simp only [Lanes.next, hl]
  exact ⟨_, rfl, h.move (a := []) ht rfl (fun _ _ _ => rfl) (List.append_nil _).symm
    (List.append_nil _).symm (List.append_nil _).symm (hlane.advance ht rfl hturn rfl hlane.1)⟩

theorem Sim.child (h : Sim dev s l) {ch : Children} (ht : s.tasks[t]? = some task)
    {req : Request B} {prog : Task Unit} {frame : Frame B} {e : ChildEvent B} {u : Proc B}
    (hst : task.stage = .processing req prog frame) (hr : ch.react ⟨frame, s.disks⟩ e = some u) :
    Sim dev { s.setStage t task (.processing req prog u.toFrame) with disks := u.disks } l := by
  have hcomp : u.completions = frame.completions := (ext_react hr).completions
  refine h.stay ht rfl ?_ rfl rfl rfl rfl
  rw [hst, Stage.turn, Stage.turn, hcomp]

variable [Add B] [Zero B]

/-- An operation of `process_req`: the one that completes the request answers it. -/
theorem Sim.perform (h : Sim dev s l) (ht : s.tasks[t]? = some task) {req : Request B}
    {frame : Frame B} {o : Op} {k : Res o → Task Unit} {r : Res o} {u : Proc B}
    (hst : task.stage = .processing req (.op o k) frame)
    (hp : Raid5.perform o ⟨frame, s.disks⟩ = some (r, u))
    (hok : o.completion ≠ [] → frame.completions = []) :
    ∃ l', (l' = l ∨ l.next (Request.stripe dev) (.answer (task.req.stripe dev)) = some l') ∧
      Sim dev { s.setStage t task (.processing req (k r) u.toFrame) with
        disks := u.disks, log := s.log ++ answers req frame o } l' := by
  have hcomp : u.completions = frame.completions ++ o.completion := (perform_frame hp).2
  by_cases ho : o.completion = []
  · refine ⟨l, Or.inl rfl, h.stay ht rfl ?_ rfl rfl rfl ?_⟩
    · rw [hst, Stage.turn, Stage.turn, hcomp, ho, List.append_nil]
    · cases o with
      | complete _ _ => cases ho
      | _ => exact List.append_nil _
  · have hnil := hok ho
    have hturn : task.stage.turn = some (.serving req) := by
      rw [hst, Stage.turn, if_pos hnil]
    have hturn' : (Stage.processing req (k r) u.toFrame).turn = some (.served req) := by
      rw [Stage.turn, if_neg (by rw [hcomp]; simp [ho])]
    have hlane := h.lane (task.req.stripe dev)
    obtain ⟨ws, hl⟩ := hlane.turn_eq ht rfl hturn
    rw [hl] at hlane
    obtain ⟨sender, status, rfl⟩ : ∃ sender status, o = .complete sender status := by
      cases o with
      | complete sender status => exact ⟨sender, status, rfl⟩
      | _ => exact absurd rfl ho
    have hn : l.next (Request.stripe dev) (.answer (task.req.stripe dev)) =
        some (l.move (task.req.stripe dev) (.active (.served req) ws) [] [] [req]) := by
      simp only [Lanes.next, hl]
    exact ⟨_, Or.inr hn, h.move (a := [⟨req, sender, status, frame.mem 0⟩]) ht rfl
      (fun _ _ _ => rfl) (List.append_nil _).symm (List.append_nil _).symm rfl
      (hlane.advance ht rfl hturn hturn' hlane.1)⟩

end sim

/-! ## The messages to a worker -/

/-- The requests that have been submitted, in that order. -/
def Device.submitted (s : Device B) : List (Request B) := s.tasks.map (·.req)

/-- The requests of the messages that wait for worker `w`. -/
def Device.sent (s : Device B) (w : Nat) : List (Request B) :=
  (s.inbox w).filterMap (s.submitted[·]?)

/-- The inboxes hold the tasks that have not begun, each with its owner, in the order in
which they were sent. -/
structure Inbox (dev : Raid5Bdev) (s : Device B) : Prop where
  mem : ∀ w t, t ∈ s.inbox w ↔
    ∃ task, s.tasks[t]? = some task ∧ task.stage = .spawned ∧ dev.ownerIdx (task.req.stripe dev) = w
  nodup : ∀ w, (s.inbox w).Nodup
  arrival : ∀ k, onKey (Request.stripe dev) k s.submitted =
    onKey (Request.stripe dev) k s.enqueued ++
      onKey (Request.stripe dev) k (s.sent (dev.ownerIdx k))

section inbox
variable {dev : Raid5Bdev} {s s' : Device B} {t : Nat} {task : IoTask B}

theorem submitted_set (ht : s.tasks[t]? = some task) {stage : Stage B}
    (htasks : s'.tasks = s.tasks.set t { task with stage := stage }) :
    s'.submitted = s.submitted := by
  obtain ⟨hlt, he⟩ := List.getElem?_eq_some_iff.mp ht
  have : s.submitted.set t task.req = s.submitted := by
    have := List.set_getElem_self
      (show t < s.submitted.length by simpa [Device.submitted] using hlt)
    simpa [Device.submitted, he] using this
  rw [Device.submitted, htasks, List.map_set]
  exact this

/-- A step of a task that has begun does not concern the inboxes. -/
theorem Inbox.stay (h : Inbox dev s) (ht : s.tasks[t]? = some task) {stage : Stage B}
    (htasks : s'.tasks = s.tasks.set t { task with stage := stage })
    (hst : task.stage ≠ .spawned) (hst' : stage ≠ .spawned) (hbox : s'.inbox = s.inbox)
    (has : s'.enqueued = s.enqueued) : Inbox dev s' := by
  have hsub := submitted_set ht htasks
  refine ⟨fun w t' => ?_, fun w => by rw [hbox]; exact h.nodup w, fun k => ?_⟩
  · rw [hbox, h.mem, htasks, getElem?_setTask ht]
    by_cases he : t' = t
    · subst he
      simp [ht, hst, hst']
    · rw [if_neg he]
  · rw [hsub, has, Device.sent, hbox, hsub]
    exact h.arrival k

/-- A message to the owner of the stripe. -/
theorem Inbox.submit (h : Inbox dev s) (req : Request B) : Inbox dev (s.submitIo dev req) := by
  have hsub : (s.submitIo dev req).submitted = s.submitted ++ [req] := by
    simp [Device.submitted, Device.submitIo]
  have hlen : s.submitted.length = s.tasks.length := List.length_map ..
  have hold : ∀ {w t' : Nat}, t' ∈ s.inbox w → t' < s.tasks.length := fun ht' => by
    obtain ⟨task, ht, _⟩ := (h.mem _ _).mp ht'
    exact (List.getElem?_eq_some_iff.mp ht).1
  have hsent : ∀ w, (s.submitIo dev req).sent w =
      s.sent w ++ if w = dev.ownerIdx (req.stripe dev) then [req] else [] := by
    intro w
    have hsame : (s.inbox w).filterMap ((s.submitted ++ [req])[·]?) = s.sent w :=
      List.filterMap_congr fun t' ht' =>
        List.getElem?_append_left (hlen.symm ▸ hold ht')
    rw [Device.sent, hsub]
    simp only [Device.submitIo]
    by_cases hw : w = dev.ownerIdx (req.stripe dev)
    · subst hw
      rw [Function.update_self, List.filterMap_append, hsame, if_pos rfl]
      simp [← hlen]
    · rw [Function.update_of_ne hw, hsame, if_neg hw, List.append_nil]
  refine ⟨fun w t' => ?_, fun w => ?_, fun k => ?_⟩
  · have hat : (∃ task, (s.submitIo dev req).tasks[t']? = some task ∧ task.stage = .spawned ∧
        dev.ownerIdx (task.req.stripe dev) = w) ↔ t' ∈ s.inbox w ∨
          (t' = s.tasks.length ∧ dev.ownerIdx (req.stripe dev) = w) := by
      rw [h.mem]
      refine ⟨fun ⟨task, ht, hst⟩ => ?_, fun hc => ?_⟩
      · rcases append_get ht with ht | ⟨rfl, rfl⟩
        · exact Or.inl ⟨task, ht, hst⟩
        · exact Or.inr ⟨rfl, hst.2⟩
      · rcases hc with ⟨task, ht, hst⟩ | ⟨rfl, hw⟩
        · refine ⟨task, ?_, hst⟩
          simp only [Device.submitIo]
          rw [List.getElem?_append_left (List.getElem?_eq_some_iff.mp ht).1, ht]
        · exact ⟨⟨req, .spawned⟩, by simp [Device.submitIo], rfl, hw⟩
    rw [hat]
    simp only [Device.submitIo]
    by_cases hw : w = dev.ownerIdx (req.stripe dev)
    · subst hw
      simp
    · simp [hw, Ne.symm hw]
  · simp only [Device.submitIo]
    by_cases hw : w = dev.ownerIdx (req.stripe dev)
    · subst hw
      rw [Function.update_self]
      refine List.nodup_append.mpr ⟨h.nodup _, List.nodup_singleton _, fun a ha b hb => ?_⟩
      rw [List.mem_singleton.mp hb]
      exact Nat.ne_of_lt (hold ha)
    · rw [Function.update_of_ne hw]
      exact h.nodup w
  · rw [hsub, hsent, onKey_append, onKey_append, h.arrival, List.append_assoc]
    show _ = onKey _ k s.enqueued ++ _
    congr 2
    by_cases hk : req.stripe dev = k
    · rw [if_pos (by rw [hk])]
    · split
      · rfl
      · simp [onKey, hk]

/-- A worker begins the task that was sent to it first. -/
theorem Inbox.begin (h : Inbox dev s) {rest : List Nat}
    (hbox : s.inbox (dev.ownerIdx (task.req.stripe dev)) = t :: rest)
    (ht : s.tasks[t]? = some task) :
    Inbox dev (s.begin dev (dev.ownerIdx (task.req.stripe dev)) t rest task) := by
  obtain ⟨stage, hst, htasks⟩ : ∃ stage, stage ≠ .spawned ∧
      (s.begin dev (dev.ownerIdx (task.req.stripe dev)) t rest task).tasks =
        s.tasks.set t { task with stage := stage } := by
    refine ⟨_, ?_, rfl⟩
    split <;> exact fun h => by cases h
  have hsub := submitted_set ht htasks
  have hnd := h.nodup (dev.ownerIdx (task.req.stripe dev))
  rw [hbox] at hnd
  obtain ⟨hnot, hnd⟩ := List.nodup_cons.mp hnd
  have hinbox : (s.begin dev (dev.ownerIdx (task.req.stripe dev)) t rest task).inbox =
      Function.update s.inbox (dev.ownerIdx (task.req.stripe dev)) rest := rfl
  have henq : (s.begin dev (dev.ownerIdx (task.req.stripe dev)) t rest task).enqueued =
      s.enqueued ++ [task.req] := rfl
  have hget : s.submitted[t]? = some task.req := by simp [Device.submitted, ht]
  refine ⟨fun w t' => ?_, fun w => ?_, fun k => ?_⟩
  · rw [hinbox, htasks, getElem?_setTask ht]
    by_cases he : t' = t
    · subst he
      simp only [if_true, Option.some.injEq]
      refine ⟨fun hm => ?_, fun ⟨_, hc, hs, _⟩ => by subst hc; exact absurd hs hst⟩
      by_cases hw : w = dev.ownerIdx (task.req.stripe dev)
      · rw [hw, Function.update_self] at hm
        exact absurd hm hnot
      · rw [Function.update_of_ne hw, h.mem] at hm
        obtain ⟨_, hc, _, ho⟩ := hm
        cases ht.symm.trans hc
        exact absurd ho.symm hw
    · rw [if_neg he, ← h.mem]
      by_cases hw : w = dev.ownerIdx (task.req.stripe dev)
      · rw [hw, Function.update_self, hbox]
        simp [he]
      · rw [Function.update_of_ne hw]
  · rw [hinbox]
    by_cases hw : w = dev.ownerIdx (task.req.stripe dev)
    · rw [hw, Function.update_self]
      exact hnd
    · rw [Function.update_of_ne hw]
      exact h.nodup w
  · rw [hsub, henq, Device.sent, hinbox, hsub, h.arrival, onKey_append, List.append_assoc]
    congr 1
    by_cases hw : dev.ownerIdx k = dev.ownerIdx (task.req.stripe dev)
    · rw [hw, Function.update_self, Device.sent, hbox, List.filterMap_cons, hget, ← onKey_append]
      rfl
    · have hk : task.req.stripe dev ≠ k := fun he => hw (by rw [he])
      rw [Function.update_of_ne hw, Device.sent]
      simp [onKey, hk]

end inbox

/-! ## Runs -/

/-- What the queues of a device are at, whatever the requests do. -/
structure Queued (dev : Raid5Bdev) (s : Device B) (l : Lanes Nat (Request B)) : Prop where
  sim : Sim dev s l
  lanes : l.Inv (Request.stripe dev)
  inbox : Inbox dev s

theorem queued_start (dev : Raid5Bdev) (disks : Nat → Nat → B) :
    Queued dev (Device.start disks) Lanes.start := by
  refine ⟨⟨fun k => ⟨rfl, ?_⟩, fun _ _ _ => rfl, rfl, rfl, rfl⟩, .start,
    ⟨fun w t => ?_, fun w => List.nodup_nil, fun k => rfl⟩⟩
  · rintro t turn ⟨task, ht, _⟩
    simp [Device.start] at ht
  · simp [Device.start]

/-- **The queues refine the lanes.** An orderly step of a device is a step of its lanes, or
none. -/
theorem Queued.step [Add B] [Zero B] {dev : Raid5Bdev} {ch : Children} {overflowChecks : Bool}
    {s s' : Device B} {l : Lanes Nat (Request B)} {e : DevEvent B} (h : Queued dev s l)
    (hok : Orderly s e) (hs : s.Step dev ch overflowChecks e s') :
    ∃ l', (l' = l ∨ ∃ le, l.next (Request.stripe dev) le = some l') ∧ Queued dev s' l' := by
  cases hs with
  | submit req => exact ⟨l, Or.inl rfl, h.sim.submit req, h.lanes, h.inbox.submit req⟩
  | start hbox ht =>
    rename_i w t rest task
    obtain ⟨_, hc, hst, rfl⟩ := (h.inbox.mem w t).mp (by rw [hbox]; exact List.mem_cons_self ..)
    cases ht.symm.trans hc
    have hn : l.next (Request.stripe dev) (.arrive task.req) = some _ := rfl
    exact ⟨_, Or.inr ⟨_, hn⟩, h.sim.begin ht hst rest, h.lanes.step hn, h.inbox.begin hbox ht⟩
  | drain ht hst =>
    obtain ⟨l', hn, hsim⟩ := h.sim.drain ht hst overflowChecks _
    refine ⟨l', Or.inr ⟨_, hn⟩, hsim, h.lanes.step hn, ?_⟩
    unfold Device.drain
    simp only
    split
    · exact h.inbox.stay ht rfl (by rw [hst]; nofun) nofun rfl rfl
    · exact h.inbox.stay ht rfl (by rw [hst]; nofun) nofun rfl rfl
    · exact h.inbox.stay ht rfl (by rw [hst]; nofun) nofun rfl rfl
  | ret ht hst =>
    obtain ⟨l', hn, hsim⟩ := h.sim.ret ht hst (hok _ _ _ _ ht hst)
    exact ⟨l', Or.inr ⟨_, hn⟩, hsim, h.lanes.step hn,
      h.inbox.stay ht rfl (by rw [hst]; nofun) nofun rfl rfl⟩
  | panic ht hst => exact absurd (hok _ _ _ _ ht hst) id
  | perform ht hst hp =>
    rename_i t task req frame o r k u
    have hone : o.completion ≠ [] → frame.completions = [] := by
      have := hok _ _ _ _ ht hst
      cases o with
      | complete _ _ => exact fun _ => this
      | _ => exact fun hc => absurd rfl hc
    obtain ⟨l', hn, hsim⟩ := h.sim.perform ht hst hp hone
    have hbox : Inbox dev { s.setStage t task (.processing req (k r) u.toFrame) with
        disks := u.disks, log := s.log ++ answers req frame o } :=
      h.inbox.stay ht rfl (by rw [hst]; nofun) nofun rfl rfl
    rcases hn with rfl | hn
    · exact ⟨_, Or.inl rfl, hsim, h.lanes, hbox⟩
    · exact ⟨l', Or.inr ⟨_, hn⟩, hsim, h.lanes.step hn, hbox⟩
  | child ht hst hr =>
    exact ⟨l, Or.inl rfl, h.sim.child ht hst hr, h.lanes,
      h.inbox.stay ht rfl (by rw [hst]; nofun) nofun rfl rfl⟩

end Ironspdk.Raid5
