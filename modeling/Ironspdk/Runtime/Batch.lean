import Ironspdk.Runtime.IoCtx

/-! # A batch of child I/Os

A task that submits `k` I/Os, each with a context of its own, and then awaits their futures
one after another, as the read path of RAID5 does with its strips. Other tasks and pollers of
the thread do what they like, except that they have no waker of this task: it hands its waker
to the futures it awaits only. Completions come at any moment at which code runs on the
thread. Most of them find no waker, and still no wakeup is missing. -/
namespace Ironspdk.Runtime
open Ironspdk.Lib

/-! ## One task among others -/

/-- The task a step of the executor is about. -/
def Event.task : Event → Option TaskId
  | .spawn t | .spawnLocal t | .pop t | .skip t | .wake t | .ret t _ => some t
  | .start | .done => none

/-- The executor has the same to say of `b` in both states. -/
structure Tcb.Same (b : TaskId) (s u : Tcb) : Prop where
  state : u.state b = s.state b
  entries : u.runq.count b = s.runq.count b
  frames : b ∈ u.frames ↔ b ∈ s.frames
  tasks : b < u.tasks ↔ b < s.tasks

theorem Tcb.Same.refl (b : TaskId) (s : Tcb) : Tcb.Same b s s := ⟨rfl, rfl, Iff.rfl, Iff.rfl⟩

theorem count_push {b t : TaskId} (h : t ≠ b) (q : List TaskId) :
    (q ++ [t]).count b = q.count b := by
  simp [List.count_append, h]

theorem count_pop {b t : TaskId} (h : t ≠ b) (q : List TaskId) :
    q.count b = (t :: q).count b := by
  simp [h]

theorem next_same {s u : Tcb} {e : Event} {b : TaskId} (hn : next s e = some u)
    (he : e.task ≠ some b) : Tcb.Same b s u := by
  cases next_step hn with
  | spawn _ =>
    have ht : s.tasks ≠ b := fun hb => he (hb ▸ rfl)
    refine ⟨Function.update_of_ne ht.symm _ _, count_push ht _, Iff.rfl, ?_⟩
    exact ⟨fun h => Nat.lt_of_le_of_ne (Nat.le_of_lt_succ h) ht.symm, Nat.lt_succ_of_lt⟩
  | spawnLocal _ =>
    have ht : s.tasks ≠ b := fun hb => he (hb ▸ rfl)
    refine ⟨?_, rfl, ?_, ?_⟩
    · simp [Task.enter, Tcb.newTask, Function.update_of_ne ht.symm]
    · simp [Task.enter, Tcb.newTask, ht.symm]
    · exact ⟨fun h => Nat.lt_of_le_of_ne (Nat.le_of_lt_succ h) ht.symm, Nat.lt_succ_of_lt⟩
  | start _ _ | done _ _ => exact ⟨rfl, rfl, Iff.rfl, Iff.rfl⟩
  | @pop t q empty queue _ =>
    have ht : t ≠ b := fun hb => he (hb ▸ rfl)
    refine ⟨Function.update_of_ne ht.symm _ _, ?_, ?_, Iff.rfl⟩
    · rw [queue]
      exact count_pop ht q
    · simp [Task.enter, ht.symm]
  | @skip t q empty queue _ =>
    have ht : t ≠ b := fun hb => he (hb ▸ rfl)
    refine ⟨rfl, ?_, Iff.rfl, Iff.rfl⟩
    rw [queue]
    exact count_pop ht q
  | @wake t _ _ =>
    have ht : t ≠ b := fun hb => he (hb ▸ rfl)
    unfold Task.wake
    split
    · exact ⟨Function.update_of_ne ht.symm _ _, rfl, Iff.rfl, Iff.rfl⟩
    · exact ⟨Function.update_of_ne ht.symm _ _, count_push ht _, Iff.rfl, Iff.rfl⟩
    · exact ⟨rfl, rfl, Iff.rfl, Iff.rfl⟩
    · exact ⟨rfl, rfl, Iff.rfl, Iff.rfl⟩
  | @ret t fs stack r =>
    have ht : t ≠ b := fun hb => he (hb ▸ rfl)
    have hf : b ∈ fs ↔ b ∈ s.frames := by simp [stack, ht.symm]
    unfold Task.leave
    split
    · exact ⟨Function.update_of_ne ht.symm _ _, rfl, hf, Iff.rfl⟩
    · split
      · exact ⟨Function.update_of_ne ht.symm _ _, count_push ht _, hf, Iff.rfl⟩
      · exact ⟨Function.update_of_ne ht.symm _ _, rfl, hf, Iff.rfl⟩

/-! ## The batch -/

/-- The thread, and the contexts and I/Os of the batch. `yields` is what the awaits have
returned so far; `suspended` says that the current one has answered `Pending`, which its task
can only pass on. -/
structure Batch where
  tcb : Tcb
  ctx : Nat → LbdevIoCtx
  io : Nat → IoState
  submitted : Nat
  yields : List Bool
  suspended : Bool

/-- `exec` is a step of the executor; `read`, `write` and `await` are what the task does while
it is polled; `complete` is the callback of an I/O. -/
inductive BatchEvent
  | exec (e : Event)
  | read (rc : Int)
  | write (rc : Int)
  | await
  | complete (j : Nat) (success : Bool)
  deriving DecidableEq, Repr

namespace Batch

def new : Batch := ⟨.new, fun _ => .new, fun _ => .inFlight, 0, [], false⟩

variable (k : Nat) (b : TaskId)

/-- No other code wakes the task; it returns `Pending` when an await has done so, and `Ready`
after all of them. -/
def Admits (s : Batch) : Event → Prop
  | .wake t => t ≠ b
  | .ret t .pending => t = b → s.suspended = true
  | .ret t .ready => t = b → s.submitted = k ∧ s.yields.length = k
  | _ => True

instance (s : Batch) : (e : Event) → Decidable (s.Admits k b e)
  | .wake t => inferInstanceAs (Decidable (t ≠ b))
  | .ret t .pending => inferInstanceAs (Decidable (t = b → s.suspended = true))
  | .ret t .ready => inferInstanceAs (Decidable (t = b → s.submitted = k ∧ s.yields.length = k))
  | .spawn _ | .spawnLocal _ | .start | .pop _ | .skip _ | .done => isTrue trivial

def submit (rc : Int) (c : LbdevIoCtx) (s : Batch) : Option Batch :=
  if s.tcb.frames.head? = some b ∧ s.submitted < k then
    some { s with
      ctx := Function.update s.ctx s.submitted c
      io := Function.update s.io s.submitted (if rc ≠ 0 then .rejected else .inFlight)
      submitted := s.submitted + 1 }
  else none

def next (s : Batch) : BatchEvent → Option Batch
  | .exec e =>
    if s.Admits k b e then
      (Runtime.next s.tcb e).map fun c =>
        { s with tcb := c, suspended := s.suspended && e.polls != some b }
    else none
  | .read rc => s.submit k b rc (Lbdev.read rc (s.ctx s.submitted))
  | .write rc => s.submit k b rc (Lbdev.write rc (s.ctx s.submitted))
  | .await =>
    let j := s.yields.length
    if s.tcb.frames.head? = some b ∧ s.suspended = false ∧ s.submitted = k ∧ j < k then
      match (s.ctx j).poll b with
      | (some v, c) =>
        some { s with ctx := Function.update s.ctx j c, yields := s.yields ++ [v] }
      | (none, c) => some { s with ctx := Function.update s.ctx j c, suspended := true }
    else none
  | .complete j success =>
    if s.tcb.active ∧ j < s.submitted ∧ s.io j = .inFlight then
      let (c, w) := spdkRwioCompleteCb success (s.ctx j)
      some { s with
        ctx := Function.update s.ctx j c
        io := Function.update s.io j (.completed success)
        tcb := w.elim s.tcb (Task.wake · s.tcb) }
    else none

/-! ## Where the task is -/

variable {k b}

/-- No context holds a waker. -/
def Quiet (ctx : Nat → LbdevIoCtx) : Prop := ∀ j, (ctx j).fut.waker = none

/-- Context `i`, of an I/O that has not ended, is the only one with the waker of the task. -/
structure Holds (b : TaskId) (ctx : Nat → LbdevIoCtx) (submitted i : Nat) : Prop where
  held : (ctx i).fut = ⟨false, some b⟩
  issued : i < submitted
  others : ∀ j, j ≠ i → (ctx j).fut.waker = none

/-- The task is in one place at a time: not yet made, in the run queue once, on the stack,
with the future it waits for, or finished. -/
inductive Place (k : Nat) (b : TaskId) (s : Batch) : Prop
  | absent (made : s.tcb.tasks ≤ b) (fresh : s.suspended = false) (quiet : Quiet s.ctx)
  | queued (entries : s.tcb.runq.count b = 1) (off : b ∉ s.tcb.frames)
      (state : s.tcb.state b ≠ .ready) (quiet : Quiet s.ctx)
  | polled (entries : s.tcb.runq.count b = 0) (on : b ∈ s.tcb.frames)
      (state : s.tcb.state b = .running) (free : s.suspended = false) (quiet : Quiet s.ctx)
  | pending (entries : s.tcb.runq.count b = 0) (on : b ∈ s.tcb.frames)
      (suspended : s.suspended = true) (short : s.yields.length < k)
      (state : (s.tcb.state b = .running ∧ Holds b s.ctx s.submitted s.yields.length) ∨
        (s.tcb.state b = .notified ∧ Quiet s.ctx))
  | waiting (entries : s.tcb.runq.count b = 0) (off : b ∉ s.tcb.frames)
      (state : s.tcb.state b = .idle) (holds : Holds b s.ctx s.submitted s.yields.length)
      (made : b < s.tcb.tasks)
  | finished (entries : s.tcb.runq.count b = 0) (off : b ∉ s.tcb.frames)
      (state : s.tcb.state b = .ready) (quiet : Quiet s.ctx) (made : b < s.tcb.tasks)
      (all : s.yields.length = k)

/-- Contexts know what has become of their I/Os, and the awaits have told it. -/
structure Told (ctx : Nat → LbdevIoCtx) (io : Nat → IoState) (submitted : Nat)
    (yields : List Bool) : Prop where
  fresh : ∀ j, submitted ≤ j → (ctx j).fut.done = false
  done : ∀ j < submitted, (ctx j).fut.done = (io j).status.isSome
  success : ∀ j < submitted, ∀ v, (io j).status = some v → (ctx j).success = v
  yields : ∀ j v, yields[j]? = some v → j < submitted ∧ (io j).status = some v

structure Sound (k : Nat) (b : TaskId) (s : Batch) : Prop where
  wf : s.tcb.Wf
  place : s.Place k b
  told : Told s.ctx s.io s.submitted s.yields

theorem sound_new : new.Sound k b := by
  refine ⟨Tcb.wf_new, .absent (Nat.zero_le _) rfl fun _ => rfl, ?_, ?_, ?_, ?_⟩
  · exact fun _ _ => rfl
  · exact fun j hj => absurd hj (Nat.not_lt_zero j)
  · exact fun j hj => absurd hj (Nat.not_lt_zero j)
  · exact fun j v hv => by cases hv

/-- The task stays where it is when the executor and the contexts have the same to say of it. -/
theorem Place.map {s u : Batch} (h : s.Place k b) (hc : Tcb.Same b s.tcb u.tcb)
    (hs : u.suspended = s.suspended) (hy : u.yields = s.yields)
    (hq : Quiet s.ctx → Quiet u.ctx)
    (hh : Holds b s.ctx s.submitted s.yields.length →
      Holds b u.ctx u.submitted u.yields.length) : u.Place k b := by
  have hoff : b ∉ s.tcb.frames → b ∉ u.tcb.frames := mt hc.frames.mp
  cases h with
  | absent made fresh quiet =>
    exact .absent (Nat.le_of_not_lt fun hlt => Nat.not_lt.mpr made (hc.tasks.mp hlt))
      (hs.trans fresh) (hq quiet)
  | queued entries off state quiet =>
    exact .queued (hc.entries.trans entries) (hoff off) (by rwa [hc.state]) (hq quiet)
  | polled entries on state free quiet =>
    exact .polled (hc.entries.trans entries) (hc.frames.mpr on) (hc.state.trans state)
      (hs.trans free) (hq quiet)
  | pending entries on suspended short state =>
    refine .pending (hc.entries.trans entries) (hc.frames.mpr on) (hs.trans suspended)
      (by rwa [hy]) ?_
    rw [hc.state]
    exact state.imp (fun ⟨hst, holds⟩ => ⟨hst, hh holds⟩) (fun ⟨hst, quiet⟩ => ⟨hst, hq quiet⟩)
  | waiting entries off state holds made =>
    exact .waiting (hc.entries.trans entries) (hoff off) (hc.state.trans state) (hh holds)
      (hc.tasks.mpr made)
  | finished entries off state quiet made all =>
    exact .finished (hc.entries.trans entries) (hoff off) (hc.state.trans state) (hq quiet)
      (hc.tasks.mpr made) (by rwa [hy])

theorem Place.of_unmade {s : Batch} (h : s.Place k b) (hw : s.tcb.Wf) (hm : s.tcb.tasks ≤ b) :
    s.suspended = false ∧ Quiet s.ctx := by
  cases h with
  | absent _ fresh quiet => exact ⟨fresh, quiet⟩
  | queued entries _ _ _ =>
    have hq : b ∈ s.tcb.runq := List.count_pos_iff.mp (by omega)
    exact absurd (hw.queued b hq) (Nat.not_lt.mpr hm)
  | polled _ on _ _ _ => exact absurd (hw.created b on) (Nat.not_lt.mpr hm)
  | pending _ on _ _ _ => exact absurd (hw.created b on) (Nat.not_lt.mpr hm)
  | waiting _ _ _ _ made => exact absurd made (Nat.not_lt.mpr hm)
  | finished _ _ _ _ made _ => exact absurd made (Nat.not_lt.mpr hm)

theorem Place.of_queued {s : Batch} (h : s.Place k b) (hw : s.tcb.Wf) (hq : b ∈ s.tcb.runq) :
    s.tcb.runq.count b = 1 ∧ Quiet s.ctx := by
  have hpos := List.count_pos_iff.mpr hq
  cases h with
  | absent made _ _ => exact absurd (hw.queued b hq) (Nat.not_lt.mpr made)
  | queued entries _ _ quiet => exact ⟨entries, quiet⟩
  | polled entries _ _ _ _ | pending entries _ _ _ _ | waiting entries _ _ _ _
  | finished entries _ _ _ _ _ => omega

/-- The return of the task's poll. -/
theorem Place.ret {s : Batch} (h : s.Place k b) (hw : s.tcb.Wf) {r : Poll} {fs : List TaskId}
    (ha : s.Admits k b (.ret b r)) (hs : s.tcb.frames = b :: fs) :
    Place k b { s with tcb := Task.leave b r { s.tcb with frames := fs } } := by
  have hon : b ∈ s.tcb.frames := by simp [hs]
  have hoff : b ∉ fs := by
    have hnd := hw.nodup
    rw [hs] at hnd
    exact (List.nodup_cons.mp hnd).1
  have hmade := hw.created b hon
  cases h with
  | absent made _ _ => exact absurd hmade (Nat.not_lt.mpr made)
  | queued _ off _ _ | waiting _ off _ _ _ | finished _ off _ _ _ _ => exact absurd hon off
  | polled entries _ state free quiet =>
    cases r with
    | pending => exact absurd (ha rfl) (by simp [free])
    | ready => exact .finished entries hoff (Function.update_self ..) quiet hmade (ha rfl).2
  | pending entries _ suspended short state =>
    cases r with
    | ready =>
      have hall := (ha rfl).2
      omega
    | pending =>
      rcases state with ⟨state, holds⟩ | ⟨state, quiet⟩
      · -- it waits: the future it awaits has its waker
        have hne : s.tcb.state b ≠ .notified := by simp [state]
        simp only [Task.leave, if_neg hne]
        exact .waiting entries hoff (Function.update_self ..) holds hmade
      · -- the I/O has ended meanwhile
        simp only [Task.leave, if_pos state]
        refine .queued ?_ hoff (by simp) quiet
        simp [entries]

theorem Place.exec {s : Batch} (h : s.Place k b) (hw : s.tcb.Wf) {e : Event} {c : Tcb}
    (ha : s.Admits k b e) (hn : Runtime.next s.tcb e = some c) :
    Place k b { s with tcb := c, suspended := s.suspended && e.polls != some b } := by
  by_cases he : e.task = some b
  · cases next_step hn with
    | start _ _ | done _ _ => cases he
    | wake _ _ => exact absurd (Option.some.inj he) ha
    | skip empty _ busy => exact absurd busy (hw.not_running empty _)
    | spawn _ =>
      cases he
      obtain ⟨_, quiet⟩ := h.of_unmade hw (Nat.le_refl _)
      have hq : s.tcb.tasks ∉ s.tcb.runq := fun hm => Nat.lt_irrefl _ (hw.queued _ hm)
      have hf : s.tcb.tasks ∉ s.tcb.frames := fun hm => Nat.lt_irrefl _ (hw.created _ hm)
      refine .queued ?_ hf ?_ quiet
      · simp [Tcb.spawn, List.count_eq_zero.mpr hq]
      · simp [Tcb.spawn, Tcb.newTask]
    | spawnLocal _ =>
      cases he
      obtain ⟨fresh, quiet⟩ := h.of_unmade hw (Nat.le_refl _)
      have hq : s.tcb.tasks ∉ s.tcb.runq := fun hm => Nat.lt_irrefl _ (hw.queued _ hm)
      refine .polled (List.count_eq_zero.mpr hq) List.mem_cons_self ?_ ?_ quiet
      · exact Function.update_self ..
      · simp [fresh]
    | pop empty queue _ =>
      cases he
      obtain ⟨entries, quiet⟩ := h.of_queued hw (by simp [queue])
      refine .polled ?_ List.mem_cons_self (Function.update_self ..) ?_ quiet
      · rw [queue, List.count_cons_self] at entries
        exact Nat.succ.inj entries
      · simp [Event.polls]
    | ret stack r =>
      cases he
      have hkeep : (s.suspended && (Event.ret b r).polls != some b) = s.suspended := by
        simp [Event.polls]
      rw [hkeep]
      exact h.ret hw ha stack
  · have hkeep : (s.suspended && e.polls != some b) = s.suspended := by
      have : e.polls ≠ some b := by
        cases e <;> simp_all [Event.polls, Event.task]
      simp [this]
    rw [hkeep]
    exact h.map (next_same hn he) rfl rfl id id

/-! ## Submissions, awaits and completions -/

theorem Quiet.update {ctx : Nat → LbdevIoCtx} (h : Quiet ctx) {j : Nat} {c : LbdevIoCtx}
    (hc : c.fut.waker = none) : Quiet (Function.update ctx j c) := by
  intro i
  by_cases hi : i = j
  · simpa [hi] using hc
  · simpa [Function.update_of_ne hi] using h i

/-- What another context does leaves the one that holds the waker as it is. -/
theorem Holds.update {ctx : Nat → LbdevIoCtx} {m n i : Nat} (h : Holds b ctx m i) {j : Nat}
    {c : LbdevIoCtx} (hj : j ≠ i) (hc : c.fut.waker = none) (hm : m ≤ n) :
    Holds b (Function.update ctx j c) n i := by
  refine ⟨?_, Nat.lt_of_lt_of_le h.issued hm, fun l hl => ?_⟩
  · rw [Function.update_of_ne hj.symm]
    exact h.held
  · by_cases hlj : l = j
    · simpa [hlj] using hc
    · simpa [Function.update_of_ne hlj] using h.others l hl

theorem waker_submit {rc : Int} {c : LbdevIoCtx} (h : c.fut.waker = none) :
    (Lbdev.submit rc c).fut.waker = none := by
  unfold Lbdev.submit
  split
  · rfl
  · exact h

theorem Told.submit {ctx : Nat → LbdevIoCtx} {io : Nat → IoState} {m : Nat} {yields : List Bool}
    (h : Told ctx io m yields) (rc : Int) :
    Told (Function.update ctx m (Lbdev.submit rc (ctx m)))
      (Function.update io m (if rc ≠ 0 then .rejected else .inFlight)) (m + 1) yields := by
  have hold : ∀ {j}, j < m + 1 → j ≠ m → j < m :=
    fun hj hne => Nat.lt_of_le_of_ne (Nat.le_of_lt_succ hj) hne
  refine ⟨fun j hj => ?_, fun j hj => ?_, fun j hj v hv => ?_, fun j v hv => ?_⟩
  · rw [Function.update_of_ne (Nat.ne_of_gt hj)]
    exact h.fresh j (Nat.le_of_succ_le hj)
  · by_cases hjm : j = m
    · rw [hjm, Function.update_self, Function.update_self]
      unfold Lbdev.submit
      split
      · rfl
      · exact h.fresh _ (Nat.le_refl _)
    · simpa [Function.update_of_ne hjm] using h.done j (hold hj hjm)
  · by_cases hjm : j = m
    · rw [hjm, Function.update_self] at hv ⊢
      unfold Lbdev.submit
      split at hv
      · rename_i hrc
        rw [if_pos hrc]
        exact Option.some.inj hv
      · cases hv
    · rw [Function.update_of_ne hjm] at hv ⊢
      exact h.success j (hold hj hjm) v hv
  · obtain ⟨hlt, hst⟩ := h.yields j v hv
    exact ⟨Nat.lt_succ_of_lt hlt, by simpa [Function.update_of_ne (Nat.ne_of_lt hlt)] using hst⟩

theorem Sound.submit {s u : Batch} (h : s.Sound k b) {rc : Int}
    (hn : s.submit k b rc (Lbdev.submit rc (s.ctx s.submitted)) = some u) : u.Sound k b := by
  unfold Batch.submit at hn
  simp only [Option.ite_none_right_eq_some, Option.some.injEq] at hn
  obtain ⟨_, rfl⟩ := hn
  refine ⟨h.wf, h.place.map (.refl b s.tcb) rfl rfl (fun quiet => ?_) (fun holds => ?_),
    h.told.submit rc⟩
  · exact quiet.update (waker_submit (quiet s.submitted))
  · have hne := Nat.ne_of_gt holds.issued
    exact holds.update hne (waker_submit (holds.others _ hne)) (Nat.le_succ _)

theorem Told.complete {ctx : Nat → LbdevIoCtx} {io : Nat → IoState} {m : Nat}
    {yields : List Bool} (h : Told ctx io m yields) {j : Nat} (hj : j < m)
    (hio : io j = .inFlight) (success : Bool) :
    Told (Function.update ctx j ⟨⟨true, none⟩, success⟩)
      (Function.update io j (.completed success)) m yields := by
  refine ⟨fun i hi => ?_, fun i hi => ?_, fun i hi v hv => ?_, fun i v hv => ?_⟩
  · have hne : i ≠ j := fun he => Nat.not_lt.mpr hi (he ▸ hj)
    simpa [Function.update_of_ne hne] using h.fresh i hi
  · by_cases hij : i = j
    · rw [hij, Function.update_self, Function.update_self]
      rfl
    · simpa [Function.update_of_ne hij] using h.done i hi
  · by_cases hij : i = j
    · rw [hij, Function.update_self] at hv ⊢
      exact Option.some.inj hv
    · rw [Function.update_of_ne hij] at hv ⊢
      exact h.success i hi v hv
  · obtain ⟨hi, hst⟩ := h.yields i v hv
    -- an I/O whose status an await has told is not in flight
    have hij : i ≠ j := by
      rintro rfl
      rw [hio] at hst
      cases hst
    exact ⟨hi, by simpa [Function.update_of_ne hij] using hst⟩

/-- A waker in a context is the one of the task, which waits or is about to. -/
theorem Place.of_waker {s : Batch} (h : s.Place k b) {j : Nat} {t : TaskId}
    (ht : (s.ctx j).fut.waker = some t) : t = b ∧ j = s.yields.length ∧
      Holds b s.ctx s.submitted s.yields.length ∧ s.tcb.runq.count b = 0 ∧
      ((b ∈ s.tcb.frames ∧ s.tcb.state b = .running ∧ s.suspended = true ∧ s.yields.length < k) ∨
        (b ∉ s.tcb.frames ∧ s.tcb.state b = .idle ∧ b < s.tcb.tasks)) := by
  have hnot : ¬ Quiet s.ctx := fun quiet => by
    rw [quiet j] at ht
    cases ht
  have held : Holds b s.ctx s.submitted s.yields.length → t = b ∧ j = s.yields.length := by
    intro holds
    by_cases hj : j = s.yields.length
    · rw [hj, holds.held] at ht
      exact ⟨(Option.some.inj ht).symm, hj⟩
    · rw [holds.others j hj] at ht
      cases ht
  cases h with
  | absent _ _ quiet | queued _ _ _ quiet | polled _ _ _ _ quiet
  | finished _ _ _ quiet _ _ => exact absurd quiet hnot
  | pending entries on suspended short state =>
    obtain ⟨state, holds⟩ := state.resolve_right fun hs => hnot hs.2
    obtain ⟨rfl, rfl⟩ := held holds
    exact ⟨rfl, rfl, holds, entries, Or.inl ⟨on, state, suspended, short⟩⟩
  | waiting entries off state holds made =>
    obtain ⟨rfl, rfl⟩ := held holds
    exact ⟨rfl, rfl, holds, entries, Or.inr ⟨off, state, made⟩⟩

/-- A completion that finds the waker of the task wakes it; any other wakes nobody. -/
theorem Place.complete {s : Batch} (h : s.Place k b) (j : Nat) (success : Bool)
    (io : Nat → IoState) :
    Place k b { s with ctx := Function.update s.ctx j ⟨⟨true, none⟩, success⟩, io := io
                       tcb := (s.ctx j).fut.waker.elim s.tcb (Task.wake · s.tcb) } := by
  cases hw : (s.ctx j).fut.waker with
  | none =>
    refine h.map (.refl b s.tcb) rfl rfl (fun quiet => quiet.update rfl) (fun holds => ?_)
    refine holds.update ?_ rfl (Nat.le_refl _)
    rintro rfl
    rw [holds.held] at hw
    cases hw
  | some t =>
    obtain ⟨rfl, rfl, holds, entries, hplace⟩ := h.of_waker hw
    have quiet : Quiet (Function.update s.ctx s.yields.length ⟨⟨true, none⟩, success⟩) := by
      intro i
      by_cases hi : i = s.yields.length
      · simp [hi]
      · simpa [Function.update_of_ne hi] using holds.others i hi
    rcases hplace with ⟨on, state, suspended, short⟩ | ⟨off, state, _⟩
    · refine .pending ?_ ?_ suspended short (Or.inr ⟨?_, quiet⟩)
      · simpa [Task.wake, state] using entries
      · simpa [Task.wake, state] using on
      · simp [Task.wake, state]
    · refine .queued ?_ ?_ ?_ quiet
      · simp [Task.wake, state, entries]
      · simpa [Task.wake, state] using off
      · simp [Task.wake, state]

theorem Place.of_running {s : Batch} (h : s.Place k b) (hw : s.tcb.Wf)
    (hh : s.tcb.frames.head? = some b) (hf : s.suspended = false) :
    s.tcb.runq.count b = 0 ∧ s.tcb.state b = .running ∧ Quiet s.ctx := by
  have hon : b ∈ s.tcb.frames := List.mem_of_mem_head? hh
  cases h with
  | absent made _ _ => exact absurd (hw.created b hon) (Nat.not_lt.mpr made)
  | queued _ off _ _ | waiting _ off _ _ _ | finished _ off _ _ _ _ => exact absurd hon off
  | polled entries _ state _ quiet => exact ⟨entries, state, quiet⟩
  | pending _ _ suspended _ _ =>
    rw [hf] at suspended
    cases suspended

/-- An await that finds its I/O over tells its status; another one leaves the waker. -/
theorem await_cases {s u : Batch} (h : Told s.ctx s.io s.submitted s.yields)
    (hn : s.next k b .await = some u) :
    (s.tcb.frames.head? = some b ∧ s.suspended = false ∧ s.submitted = k ∧ s.yields.length < k) ∧
      ((∃ v, (s.io s.yields.length).status = some v ∧ u = { s with yields := s.yields ++ [v] }) ∨
        (s.ctx s.yields.length).fut.done = false ∧ u = { s with
          ctx := Function.update s.ctx s.yields.length
            ⟨⟨false, some b⟩, (s.ctx s.yields.length).success⟩
          suspended := true }) := by
  simp only [Batch.next, Option.ite_none_right_eq_some] at hn
  obtain ⟨hg, hn⟩ := hn
  refine ⟨hg, ?_⟩
  have hj : s.yields.length < s.submitted := hg.2.2.1 ▸ hg.2.2.2
  have hdone := h.done _ hj
  cases hst : (s.io s.yields.length).status with
  | some v =>
    rw [hst] at hdone
    rw [LbdevIoCtx.poll_done hdone] at hn
    simp only [Function.update_eq_self, Option.some.injEq] at hn
    rw [h.success _ hj v hst] at hn
    exact Or.inl ⟨v, rfl, hn.symm⟩
  | none =>
    rw [hst] at hdone
    rw [LbdevIoCtx.poll_not_done hdone] at hn
    exact Or.inr ⟨hdone, (Option.some.inj hn).symm⟩

theorem Told.yield {ctx : Nat → LbdevIoCtx} {io : Nat → IoState} {m : Nat} {yields : List Bool}
    (h : Told ctx io m yields) (hm : yields.length < m) {v : Bool}
    (hv : (io yields.length).status = some v) : Told ctx io m (yields ++ [v]) := by
  refine ⟨h.fresh, h.done, h.success, fun i w hw => ?_⟩
  rcases Nat.lt_trichotomy i yields.length with hi | rfl | hi
  · exact h.yields i w (by simpa [List.getElem?_append_left hi] using hw)
  · simp only [List.getElem?_concat_length, Option.some.injEq] at hw
    exact ⟨hm, hw ▸ hv⟩
  · rw [List.getElem?_eq_none (by simpa using Nat.succ_le_of_lt hi)] at hw
    cases hw

/-- A context may take a waker. -/
theorem Told.hold {ctx : Nat → LbdevIoCtx} {io : Nat → IoState} {m : Nat} {yields : List Bool}
    (h : Told ctx io m yields) {j : Nat} (hd : (ctx j).fut.done = false) (w : Option TaskId) :
    Told (Function.update ctx j ⟨⟨false, w⟩, (ctx j).success⟩) io m yields := by
  have hdone : ∀ i, (Function.update ctx j ⟨⟨false, w⟩, (ctx j).success⟩ i).fut.done =
      (ctx i).fut.done := fun i => by
    by_cases hi : i = j
    · simp [hi, hd]
    · simp [Function.update_of_ne hi]
  have hsucc : ∀ i, (Function.update ctx j ⟨⟨false, w⟩, (ctx j).success⟩ i).success =
      (ctx i).success := fun i => by
    by_cases hi : i = j
    · simp [hi]
    · simp [Function.update_of_ne hi]
  exact ⟨fun i hi => (hdone i).trans (h.fresh i hi), fun i hi => (hdone i).trans (h.done i hi),
    fun i hi v hv => (hsucc i).trans (h.success i hi v hv), h.yields⟩

theorem Sound.await {s u : Batch} (h : s.Sound k b) (hn : s.next k b .await = some u) :
    u.Sound k b := by
  obtain ⟨⟨hh, hf, hall, hlt⟩, hu⟩ := await_cases h.told hn
  have hj : s.yields.length < s.submitted := hall ▸ hlt
  have hon : b ∈ s.tcb.frames := List.mem_of_mem_head? hh
  obtain ⟨entries, state, quiet⟩ := h.place.of_running h.wf hh hf
  rcases hu with ⟨v, hv, rfl⟩ | ⟨hd, rfl⟩
  · exact ⟨h.wf, .polled entries hon state hf quiet, h.told.yield hj hv⟩
  · refine ⟨h.wf, .pending entries hon rfl hlt (Or.inl ⟨state, ?_, hj, fun i hi => ?_⟩),
      h.told.hold hd (some b)⟩
    · simp
    · simpa [Function.update_of_ne hi] using quiet i

theorem sound_next {s u : Batch} {e : BatchEvent} (h : s.Sound k b) (hn : s.next k b e = some u) :
    u.Sound k b := by
  cases e with
  | exec e =>
    simp only [Batch.next, Option.ite_none_right_eq_some] at hn
    obtain ⟨ha, hn⟩ := hn
    obtain ⟨c, hc, rfl⟩ := Option.map_eq_some_iff.mp hn
    exact ⟨next_wf h.wf hc, h.place.exec h.wf ha hc, h.told⟩
  | read rc => exact h.submit hn
  | write rc => exact h.submit hn
  | await => exact h.await hn
  | complete j success =>
    simp only [Batch.next, Option.ite_none_right_eq_some] at hn
    obtain ⟨⟨_, hj, hio⟩, hn⟩ := hn
    cases hn
    refine ⟨?_, h.place.complete j success _, h.told.complete hj hio success⟩
    show Tcb.Wf ((s.ctx j).fut.waker.elim s.tcb (Task.wake · s.tcb))
    cases hw : (s.ctx j).fut.waker with
    | none => exact h.wf
    | some t =>
      obtain ⟨rfl, _, _, _, ⟨on, _⟩ | ⟨_, _, made⟩⟩ := h.place.of_waker hw
      · exact h.wf.wake (h.wf.created _ on)
      · exact h.wf.wake made

/-- **A batch collects every status.** In every run, whatever order the completions come in,
the `j`-th await yields the status of the `j`-th I/O, and not before that I/O has ended. Once
all of them have ended, the task is queued, polled or finished: it is not left waiting. -/
theorem batch_collects {es : List BatchEvent} {s : Batch} (h : run (next k b) new es = some s) :
    (∀ j v, s.yields[j]? = some v → (s.io j).status = some v) ∧
    (∀ u v, s.next k b .await = some u → u.yields = s.yields ++ [v] →
      (s.io s.yields.length).status = some v) ∧
    (b < s.tcb.tasks → s.submitted = k → (∀ j < k, (s.io j).status ≠ none) → s.tcb.runq = [] →
      s.tcb.frames = [] → s.tcb.state b = .ready ∧ s.yields.length = k) := by
  have hs : s.Sound k b := run_always sound_new (fun _ _ _ ht hn => sound_next ht hn) h
  refine ⟨fun j v hv => (hs.told.yields j v hv).2, fun u v hn hu => ?_,
    fun hmade hall hended hq hf => ?_⟩
  · obtain ⟨_, ⟨w, hw, rfl⟩ | ⟨_, rfl⟩⟩ := await_cases hs.told hn
    · rw [hw, List.append_cancel_left hu |> List.singleton_inj.mp]
    · exact absurd (congrArg List.length hu) (by simp)
  · cases hs.place with
    | absent made _ _ => exact absurd hmade (Nat.not_lt.mpr made)
    | queued entries _ _ _ => simp [hq] at entries
    | polled _ on _ _ _ | pending _ on _ _ _ => simp [hf] at on
    | finished _ _ state _ _ all => exact ⟨state, all⟩
    | waiting _ _ _ holds _ =>
      -- the I/O it waits for would still be in flight
      have hdone := hs.told.done _ holds.issued
      rw [holds.held] at hdone
      exact absurd (Option.not_isSome_iff_eq_none.mp (by simp [← hdone]))
        (hended _ (hall ▸ holds.issued))

/-- Two I/Os that end in the other order, while the task waits for the first. -/
theorem batch_collects_reversed :
    ∃ s, run (next 2 0) new [.exec (.spawn 0), .exec .start, .exec (.pop 0), .read 0, .write 0,
        .await, .exec (.ret 0 .pending), .exec .done, .complete 1 true, .complete 0 false,
        .exec .start, .exec (.pop 0), .await, .await, .exec (.ret 0 .ready)] = some s ∧
      s.yields = [false, true] ∧ (s.io 0).status = some false ∧ (s.io 1).status = some true :=
  have h := batch_collects (show run (next 2 0) new [.exec (.spawn 0), .exec .start,
    .exec (.pop 0), .read 0, .write 0, .await, .exec (.ret 0 .pending), .exec .done,
    .complete 1 true, .complete 0 false, .exec .start, .exec (.pop 0), .await, .await,
    .exec (.ret 0 .ready)] = some _ from rfl)
  ⟨_, rfl, rfl, h.1 0 false rfl, h.1 1 true rfl⟩

end Batch

end Ironspdk.Runtime
