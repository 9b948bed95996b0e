import Mathlib.Algebra.Order.BigOperators.Group.Finset
import Ironspdk.Runtime.PollReturns
import Ironspdk.Raid5.Hosted

/-! # The executors come to rest

Once no request comes in and the futures of other code neither spawn nor wake anything, what
is left to do on the workers comes to an end, in whatever order they do it: the device has less
and less to do, and while it stands still the executors take messages, run queues and stacks
down. SPDK goes on calling the pollers; those calls find empty run queues. -/
namespace Ironspdk.Runtime
open Ironspdk.Lib

/-- A step that brings an executor nearer to its rest. -/
def Tcb.due (c : Tcb) : Event → Bool
  | .spawn _ | .spawnLocal _ | .wake _ => false
  | .start => !c.runq.isEmpty
  | _ => true

/-- How far the poller is from its rest: to be called, in its loop, or there. -/
def Tcb.turns (c : Tcb) : Nat := if c.polling then 1 else if c.runq = [] then 0 else 2

/-- What is left to do on an executor. -/
def Tcb.left (c : Tcb) : Nat := 3 * c.load + c.turns

theorem turns_le (c : Tcb) : c.turns ≤ 2 := by
  unfold Tcb.turns
  split
  · decide
  · split <;> decide

theorem left_next {c b : Tcb} {e : Event} (h : c.Wf) (hdue : c.due e = true)
    (hn : next c e = some b) : b.left < c.left := by
  have hload : e.Drains → b.left < c.left := fun he => by
    have hlt := load_next h he hn
    have hb := turns_le b
    unfold Tcb.left
    omega
  cases next_step hn with
  | spawn _ | spawnLocal _ | wake _ _ => cases hdue
  | start _ idle =>
    have hq : c.runq ≠ [] := by simpa [Tcb.due] using hdue
    simp [Tcb.left, Tcb.turns, Tcb.load, idle, hq]
  | done _ drained =>
    have hpoll : c.polling = true := by
      simp only [next, Option.ite_none_right_eq_some] at hn
      exact hn.1.2.1
    simp [Tcb.left, Tcb.turns, Tcb.load, drained, hpoll]
  | pop _ _ _ | skip _ _ _ | ret _ _ =>
    exact hload ⟨by simp [Event.Spawns], by simp [Event.Wakes], by simp, by simp⟩

/-- A message adds one entry to the run queue. -/
theorem left_spawn {c : Tcb} (h : c.Wf) : c.spawn.left ≤ c.left + 8 := by
  have hnew : c.tasks ∉ c.frames := fun hm => Nat.lt_irrefl _ (h.created _ hm)
  have hload : c.spawn.load = c.load + 2 := by
    have hcells : (c.spawn.frames.map fun u => if c.spawn.state u = .notified then 4 else 1) =
        c.frames.map fun u => if c.state u = .notified then 4 else 1 := load_update .idle hnew
    have hq : c.spawn.runq.length = c.runq.length + 1 := by simp [Tcb.spawn]
    rw [Tcb.load, Tcb.load, hcells, hq]
    omega
  have hturns := turns_le c.spawn
  unfold Tcb.left
  omega

/-- While something is left on its stack or in its run queue, an executor that is not in the
middle of a poll can go on. -/
theorem exists_next {c : Tcb} (h : c.Wf) (hframes : c.frames = [])
    (hleft : c.polling = true ∨ c.runq ≠ []) :
    ∃ e b, c.due e = true ∧ next c e = some b ∧ ∀ k, e.task = some k → e = .pop k := by
  cases hpoll : c.polling with
  | false =>
    have hq : c.runq ≠ [] := by simpa [hpoll] using hleft
    exact ⟨.start, _, by simpa [Tcb.due] using hq, by simp [next, hframes, hpoll]; rfl,
      fun k hk => by cases hk⟩
  | true =>
    cases hq : c.runq with
    | nil =>
      exact ⟨.done, _, rfl, by simp [next, hframes, hpoll, hq]; rfl, fun k hk => by cases hk⟩
    | cons k q =>
      have hfree : c.state k ≠ .running := h.not_running hframes k
      exact ⟨.pop k, _, rfl, by simp [next, hframes, hpoll, hq, hfree]; rfl,
        fun k' hk => by cases hk; rfl⟩

end Ironspdk.Runtime

namespace Ironspdk.Raid5
open Ironspdk.Lib Ironspdk.Runtime

variable {B : Type}

/-- What is left to do on a worker; a message weighs more than the task it makes. -/
def Host.left (h : Host) : Nat := 9 * h.msgs.length + h.tcb.left

namespace Hosted

/-- A step of the array, or one that brings an executor nearer to its rest. -/
def due (s : Hosted B) : HostedEvent B → Bool
  | .submit _ => false
  | .exec i e => (s.host i).tcb.due e
  | .message _ | .run _ _ | .child _ _ => true

/-- What can happen once no request comes in and other code neither spawns nor wakes. -/
def advance [Add B] [Zero B] (dev : Raid5Bdev) (ch : Children) (overflowChecks : Bool)
    (s : Hosted B) (e : HostedEvent B) : Option (Hosted B) :=
  if s.due e then s.next dev ch overflowChecks e else none

/-- The workers outside `S` have had nothing to do so far. -/
def Within (S : Finset Nat) (s : Hosted B) : Prop := ∀ i ∉ S, s.host i = {}

/-- What is left to do, the device first. -/
def left (S : Finset Nat) (s : Hosted B) : (Nat × List (Nat × Task Unit × List Nat)) × Nat :=
  (s.device.work, S.sum fun i => (s.host i).left)

variable {dev : Raid5Bdev} {ch : Children} {overflowChecks : Bool} {s u : Hosted B}
  {i j k t : Nat} {task : IoTask B} {S : Finset Nat}

/-! ## Which worker a step is about -/

theorem host_putTcb (s : Hosted B) (i j : Nat) (b : Tcb) (hj : j ≠ i) :
    (s.putTcb i b).host j = s.host j := by
  rw [putTcb, host_put, if_neg hj]

/-- A step of an executor changes nothing of a host but its executor. -/
theorem exec_host {e : Runtime.Event} (hx : s.exec dev i e = some u) :
    ∃ b, Runtime.next (s.host i).tcb e = some b ∧ u.host = (s.putTcb i b).host := by
  obtain ⟨b, hn, hx⟩ := Option.bind_eq_some_iff.mp hx
  refine ⟨b, hn, ?_⟩
  cases e with
  | spawn _ | spawnLocal _ | start | done | skip _ =>
    cases hx
    rfl
  | wake k =>
    simp only [Option.ite_none_right_eq_some, Option.some.injEq] at hx
    rw [← hx.2]
  | pop k =>
    cases hr : (s.host i).runs k with
    | none =>
      simp only [hr, Option.elim_none, Option.some.injEq] at hx
      rw [← hx]
    | some t =>
      simp only [hr, Option.elim_some] at hx
      obtain ⟨task, _, rfl⟩ := Option.map_eq_some_iff.mp hx
      split <;> rfl
  | ret k r =>
    cases hr : (s.host i).runs k with
    | none =>
      simp only [hr, Option.elim_none, Option.some.injEq] at hx
      rw [← hx]
    | some t =>
      simp only [hr, Option.elim_some] at hx
      obtain ⟨task, _, hx⟩ := Option.bind_eq_some_iff.mp hx
      cases r with
      | ready =>
        simp only at hx
        split at hx
        · cases hx
          rfl
        · cases hx
      | pending =>
        obtain ⟨c, _, rfl⟩ := Option.map_eq_some_iff.mp hx
        rfl

theorem message_host (hm : s.message i = some u) :
    ∃ t rest, (s.host i).msgs = t :: rest ∧ (s.host i).tcb.polling = false ∧
      u = s.put i ⟨(s.host i).tcb.spawn, rest,
        Function.update (s.host i).runs (s.host i).tcb.tasks (some t)⟩ := by
  unfold Hosted.message at hm
  simp only at hm
  split at hm
  · cases hm
  · rename_i t rest hmsgs
    simp only [Option.ite_none_right_eq_some, Option.some.injEq] at hm
    obtain ⟨⟨hpoll, _⟩, rfl⟩ := hm
    exact ⟨t, rest, hmsgs, hpoll, rfl⟩

theorem run_host [Add B] [Zero B] {heap : Nat → Nat → B}
    (hx : s.run dev ch overflowChecks i heap = some u) : u.host = s.host := by
  obtain ⟨k, _, hx⟩ := Option.bind_eq_some_iff.mp hx
  obtain ⟨t, _, hx⟩ := Option.bind_eq_some_iff.mp hx
  obtain ⟨d, _, hx⟩ := Option.bind_eq_some_iff.mp hx
  obtain ⟨task, _, hx⟩ := Option.bind_eq_some_iff.mp hx
  cases hx
  rfl

theorem child_host [Add B] [Zero B] {e : ChildEvent B}
    (hx : s.child dev ch overflowChecks t e = some u) :
    ∃ task, s.device.tasks[t]? = some task ∧
      ∀ j ≠ dev.ownerIdx (task.req.stripe dev), u.host j = s.host j := by
  obtain ⟨task, ht, hx⟩ := Option.bind_eq_some_iff.mp hx
  obtain ⟨d, _, hx⟩ := Option.bind_eq_some_iff.mp hx
  refine ⟨task, ht, fun j hj => ?_⟩
  split at hx
  · cases hx
    rfl
  · simp only [Option.pure_def, Option.ite_none_right_eq_some, Option.some.injEq] at hx
    obtain ⟨_, rfl⟩ := hx
    exact host_putTcb s _ j _ hj

/-- A step changes one host at most. -/
theorem next_host [Add B] [Zero B] {e : HostedEvent B}
    (hn : s.next dev ch overflowChecks e = some u) : ∃ i, ∀ j ≠ i, u.host j = s.host j := by
  unfold Hosted.next at hn
  split at hn
  · cases hn
  cases e with
  | submit req =>
    cases hn
    exact ⟨dev.ownerIdx (req.stripe dev), fun j hj => by
      simp only [Hosted.submitIo, host_put, if_neg hj]⟩
  | message i =>
    obtain ⟨_, _, _, _, rfl⟩ := message_host hn
    exact ⟨i, fun j hj => by rw [host_put, if_neg hj]⟩
  | exec i e =>
    obtain ⟨b, _, hu⟩ := exec_host hn
    exact ⟨i, fun j hj => by rw [hu, host_putTcb s i j b hj]⟩
  | run i heap => exact ⟨0, fun j _ => by rw [run_host hn]⟩
  | child t e =>
    obtain ⟨task, _, hsame⟩ := child_host hn
    exact ⟨_, hsame⟩

/-- Only finitely many workers have had anything to do. -/
theorem exists_within [Add B] [Zero B] {disks : Nat → Nat → B} {es : List (HostedEvent B)}
    (hrun : Lib.run (Hosted.next dev ch overflowChecks) (start disks) es = some s) :
    ∃ S : Finset Nat, Within S s := by
  refine run_always (I := fun s => ∃ S, Within S s) ⟨∅, fun _ _ => rfl⟩ ?_ hrun
  rintro s e u ⟨S, hS⟩ hn
  obtain ⟨i, hi⟩ := next_host hn
  refine ⟨insert i S, fun j hj => ?_⟩
  rw [Finset.mem_insert, not_or] at hj
  rw [hi j hj.1, hS j hj.2]

/-- What is due does not bring in other workers. -/
theorem Sound.within [Add B] [Zero B] (hs : s.Sound dev) (hS : Within S s) {e : HostedEvent B}
    (hn : s.advance dev ch overflowChecks e = some u) : Within S u := by
  simp only [advance, Option.ite_none_right_eq_some] at hn
  obtain ⟨hdue, hn⟩ := hn
  unfold Hosted.next at hn
  split at hn
  · cases hn
  intro j hj
  have hfresh := hS j hj
  cases e with
  | submit req => cases hdue
  | message i =>
    obtain ⟨t, rest, hmsgs, _, rfl⟩ := message_host hn
    have hji : j ≠ i := fun he => by
      rw [← he, hfresh] at hmsgs
      cases hmsgs
    rw [host_put, if_neg hji, hfresh]
  | exec i e =>
    obtain ⟨b, hb, hu⟩ := exec_host hn
    have hji : j ≠ i := fun he => by
      subst he
      have hdue : (s.host j).tcb.due e = true := hdue
      rw [hfresh] at hb hdue
      cases e with
      | spawn _ | spawnLocal _ | wake _ | start => cases hdue
      | _ => simp [Runtime.next, Tcb.new] at hb
    rw [hu, host_putTcb s i j b hji, hfresh]
  | run i heap => rw [run_host hn, hfresh]
  | child t e =>
    obtain ⟨task, ht, hsame⟩ := child_host hn
    have hsp : task.stage ≠ .spawned := by
      obtain ⟨_, ht', hx⟩ := Option.bind_eq_some_iff.mp hn
      obtain ⟨d, hd, _⟩ := Option.bind_eq_some_iff.mp hx
      cases Device.next_step hd with
      | child ht'' hst _ =>
        cases ht.symm.trans ht''
        simp [hst]
    obtain ⟨k, hr⟩ := hs.hosted t task ht hsp
    have hji : j ≠ dev.ownerIdx (task.req.stripe dev) := fun he => by
      rw [← he, hfresh] at hr
      cases hr
    rw [hsame j hji, hfresh]

/-! ## What is left gets less -/

/-- What is due is a step of the device, or leaves less on a worker. -/
theorem Sound.advances [Add B] [Zero B] (hs : s.Sound dev) {e : HostedEvent B}
    (hn : s.advance dev ch overflowChecks e = some u) :
    (∃ e' : DevEvent B, e'.Inner ∧ s.device.next dev ch overflowChecks e' = some u.device) ∨
      u.device = s.device ∧
        ∃ i, (u.host i).left < (s.host i).left ∧ ∀ j ≠ i, u.host j = s.host j := by
  simp only [advance, Option.ite_none_right_eq_some] at hn
  obtain ⟨hdue, hn⟩ := hn
  unfold Hosted.next at hn
  split at hn
  · cases hn
  rename_i hrun
  have hrun : s.panicked = none := by simpa using hrun
  cases e with
  | submit req => cases hdue
  | message i =>
    obtain ⟨t, rest, hmsgs, _, rfl⟩ := message_host hn
    refine Or.inr ⟨rfl, i, ?_, fun j hj => by rw [host_put, if_neg hj]⟩
    have hspawn := left_spawn (hs.wf i)
    simp only [host_put, if_true, Host.left, hmsgs, List.length_cons]
    omega
  | exec i e =>
    obtain ⟨hdev | hdev, _⟩ := hs.exec hrun hn ch overflowChecks
    · obtain ⟨b, hb, hu⟩ := exec_host hn
      refine Or.inr ⟨hdev, i, ?_, fun j hj => by rw [hu, host_putTcb s i j b hj]⟩
      have hlt := left_next (hs.wf i) hdue hb
      rw [hu]
      simp only [putTcb, host_put, if_true, Host.left]
      omega
    · exact Or.inl ⟨.start i, trivial, hdev⟩
  | run i heap => exact Or.inl (hs.run hn).1
  | child t e => exact Or.inl ⟨.child t e, trivial, (hs.child hrun hn).1⟩

theorem left_fresh : ({} : Host).left = 0 := rfl

theorem left_sum (hS : Within S s) {i : Nat} (hi : (u.host i).left < (s.host i).left)
    (hsame : ∀ j ≠ i, u.host j = s.host j) :
    (S.sum fun j => (u.host j).left) < S.sum fun j => (s.host j).left := by
  have hmem : i ∈ S := by
    by_contra hi'
    rw [hS i hi', left_fresh] at hi
    exact Nat.not_lt_zero _ hi
  refine Finset.sum_lt_sum (fun j _ => ?_) ⟨i, hmem, hi⟩
  by_cases hj : j = i
  · exact hj ▸ hi.le
  · rw [hsame j hj]

end Hosted

section rest
variable [XorGroup B] {G : Base B} {ch : Children} {overflowChecks : Bool} {s : Hosted B}

/-- Whatever is due is done in the end. -/
theorem Reached.hosted_stops (hr : Reached G s.device) (hok : G.Ok)
    (hshift : G.ShiftOk overflowChecks) (hG : ∀ k, G.children k = ch) (hs : s.Sound G.dev)
    {S : Finset Nat} (hS : s.Within S) :
    Stops (Hosted.advance G.dev ch overflowChecks) (fun _ => True) s := by
  refine stops_of_measure (WellFounded.prod_lex workLess_wf Nat.lt_wfRel.wf)
    (I := fun s => Reached G s.device ∧ s.Sound G.dev ∧ s.Within S) (f := Hosted.left S)
    (fun s e u hI _ hn => ?_) ⟨hr, hs, hS⟩
  obtain ⟨hr, hs, hS⟩ := hI
  have hnext : s.next G.dev ch overflowChecks e = some u := by
    simp only [Hosted.advance, Option.ite_none_right_eq_some] at hn
    exact hn.2
  have hsu := (hs.next hnext).2
  have hSu := hs.within hS hn
  rcases hs.advances hn with ⟨e', he', hd⟩ | ⟨hd, i, hi, hsame⟩
  · have hru := hr.next hok hshift (G.admits_of hG s.device e') hd
    obtain ⟨l, hq⟩ := hr.queued
    exact ⟨⟨hru, hsu, hSu⟩, .left _ _ ((Device.next_step hd).work_less hq hru.queued he')⟩
  · refine ⟨⟨hd ▸ hr, hsu, hSu⟩, ?_⟩
    rw [Hosted.left, hd]
    exact .right _ (Hosted.left_sum hS hi hsame)

/-- A task that has begun and awaits nothing can go on. -/
theorem Serving.goes_on {d : Device B} (h : Serving G d) {t : Nat}
    {task : IoTask B} (ht : d.tasks[t]? = some task) (hsp : task.stage ≠ .spawned)
    (hover : task.stage ≠ .finished) (hw : task.stage.awaits = none) (heap : Nat → Nat → B) :
    ((d.next G.dev ch overflowChecks (.dequeue t heap)).or
      (d.next G.dev ch overflowChecks (.step t))).isSome := by
  rw [Option.isSome_or, Bool.or_eq_true]
  cases hstage : task.stage with
  | spawned => exact absurd hstage hsp
  | finished => exact absurd hstage hover
  | draining => exact Or.inl (by simp [Device.next, ht, hstage])
  | panicked msg =>
    have hcalm := h.calm t task ht
    rw [hstage] at hcalm
    cases hcalm
  | processing req prog frame =>
    refine Or.inr ?_
    have hstep : (d.operate t task req prog frame).isSome →
        (d.next G.dev ch overflowChecks (.step t)).isSome :=
      fun hu => by simpa [Device.next, ht, hstage] using hu
    cases prog with
    | ret a => exact hstep rfl
    | op o k =>
      cases o with
      | await c =>
        obtain ⟨flat, hserved⟩ := h.served t _ req _ frame ⟨task, ht, hstage, rfl⟩
        have hlt : c < frame.ios.length := wp_ensure hserved.program fun hc => hc.elim
        obtain ⟨⟨r, d, p⟩, hx⟩ : ∃ x, frame.ios[c]? = some x :=
          ⟨_, List.getElem?_eq_getElem hlt⟩
        rw [hstage] at hw
        cases p with
        | done b => exact hstep (by simp [Device.operate, Raid5.perform, hx])
        | inFlight => simp [Stage.awaits, hx, Phase.Ended] at hw
        | applied => simp [Stage.awaits, hx, Phase.Ended] at hw
      | _ => exact hstep rfl

namespace Hosted.Sound
variable {i k t : Nat} {task : IoTask B}

/-- A future on top of a stack can go on or return. -/
theorem top_due (hs : s.Sound G.dev) (hr : Reached G s.device) (hrun : s.panicked = none)
    (hk : (s.host i).tcb.frames.head? = some k) :
    ∃ e, (s.advance G.dev ch overflowChecks e).isSome := by
  have hret : ∀ r, Runtime.next (s.host i).tcb (.ret k r) =
      some (Task.leave k r { (s.host i).tcb with frames := (s.host i).tcb.frames.tail }) :=
    fun r => by simp [Runtime.next, hk]
  have hnext : ∀ e, s.due e = true → (s.next G.dev ch overflowChecks e).isSome →
      ∃ e, (s.advance G.dev ch overflowChecks e).isSome :=
    fun e hdue he => ⟨e, by simpa [Hosted.advance, hdue] using he⟩
  cases hruns : (s.host i).runs k with
  | none =>
    refine hnext (.exec i (.ret k .ready)) rfl ?_
    simp [Hosted.next, hrun, Hosted.exec, hret, hruns]
  | some t =>
    obtain ⟨task, ht, _⟩ := hs.home i k t hruns
    obtain ⟨w, hat, hfit⟩ := hs.place i k t task hruns ht
    obtain rfl := polled_of_frames hat hk
    by_cases hover : task.stage = .finished
    · refine hnext (.exec i (.ret k .ready)) rfl ?_
      simp [Hosted.next, hrun, Hosted.exec, hret, hruns, Hosted.ret, putTcb, put, ht, hover]
    cases hw : task.stage.awaits with
    | some c =>
      refine hnext (.exec i (.ret k .pending)) rfl ?_
      simp [Hosted.next, hrun, Hosted.exec, hret, hruns, Hosted.ret, putTcb, put, ht, hw]
    | none =>
      refine hnext (.run i 0) rfl ?_
      have hgo : ((s.device.next G.dev ch overflowChecks (.dequeue t 0)).or
          (s.device.next G.dev ch overflowChecks (.step t))).isSome :=
        hr.serving.goes_on ht hfit.1 hover hw 0
      obtain ⟨d, hd⟩ := Option.isSome_iff_exists.mp hgo
      obtain ⟨e, he, hn⟩ : ∃ e : DevEvent B, e.actor = some t ∧
          s.device.next G.dev ch overflowChecks e = some d := by
        rcases Option.or_eq_some_iff.mp hd with hd | ⟨_, hd⟩
        · exact ⟨_, rfl, hd⟩
        · exact ⟨_, rfl, hd⟩
      obtain ⟨task', stage, ht', _, _, htasks, _⟩ := task_step (Device.next_step hn) he
      have hget : d.tasks[t]? = some { task' with stage := stage } := by
        rw [htasks, getElem?_setTask ht', if_pos rfl]
      simp [Hosted.next, hrun, Hosted.run, hk, hruns, hd, hget]

/-- The poll of a future takes it off the run queue. -/
theorem pop_due (hs : s.Sound G.dev) (hrun : s.panicked = none) {b : Tcb}
    (hn : Runtime.next (s.host i).tcb (.pop k) = some b) :
    ∃ e, (s.advance G.dev ch overflowChecks e).isSome := by
  refine ⟨.exec i (.pop k), ?_⟩
  have hdue : s.due (.exec i (.pop k)) = true := rfl
  cases hruns : (s.host i).runs k with
  | none => simp [Hosted.advance, hdue, Hosted.next, hrun, Hosted.exec, hn, hruns]
  | some t =>
    obtain ⟨task, ht, _⟩ := hs.home i k t hruns
    simp [Hosted.advance, hdue, Hosted.next, hrun, Hosted.exec, hn, hruns, Hosted.resume, putTcb,
      put, ht]

/-- When nothing is due, nothing is left to do. -/
theorem quiescent (hs : s.Sound G.dev) (hr : Reached G s.device) (hrun : s.panicked = none)
    (hrest : ∀ e, s.advance G.dev ch overflowChecks e = none) :
    s.Quiescent G.dev ch overflowChecks := by
  have hno : ¬ ∃ e, (s.advance G.dev ch overflowChecks e).isSome := by
    rintro ⟨e, he⟩
    rw [hrest e] at he
    cases he
  have hframes : ∀ i, (s.host i).tcb.frames = [] := fun i => by
    cases hf : (s.host i).tcb.frames with
    | nil => rfl
    | cons k fs => exact absurd (hs.top_due hr hrun (i := i) (k := k) (by rw [hf]; rfl)) hno
  have hidle : ∀ i, (s.host i).tcb.polling = false ∧ (s.host i).tcb.runq = [] := fun i => by
    by_contra hleft
    have hleft : (s.host i).tcb.polling = true ∨ (s.host i).tcb.runq ≠ [] := by
      by_cases hp : (s.host i).tcb.polling = true
      · exact Or.inl hp
      · exact Or.inr fun hq => hleft ⟨by simpa using hp, hq⟩
    obtain ⟨e, b, hdue, hn, hpop⟩ := exists_next (hs.wf i) (hframes i) hleft
    cases e with
    | spawn k | spawnLocal k | wake k => cases hdue
    | skip k | ret k r => cases hpop k rfl
    | start =>
      exact hno ⟨.exec i .start, by simp [advance, due, hdue, Hosted.next, hrun, Hosted.exec, hn]⟩
    | done =>
      exact hno ⟨.exec i .done, by simp [advance, due, hdue, Hosted.next, hrun, Hosted.exec, hn]⟩
    | pop k => exact hno (hs.pop_due hrun hn)
  refine ⟨fun i => ?_, fun i => (hidle i).2, hframes, fun t e => ?_⟩
  · cases hm : (s.host i).msgs with
    | nil => rfl
    | cons t rest =>
      refine absurd ⟨.message i, ?_⟩ hno
      simp [advance, due, Hosted.next, hrun, Hosted.message, hm, hframes i, (hidle i).1]
  · refine Option.eq_none_iff_forall_ne_some.mpr fun d hd => ?_
    obtain ⟨task, ht, _⟩ := Option.bind_eq_some_iff.mp hd
    have hactive : (s.host (G.dev.ownerIdx (task.req.stripe G.dev))).tcb.active = true := by
      simp [Tcb.active, (hidle _).1]
    refine hno ⟨.child t e, ?_⟩
    cases he : e.ends with
    | none => simp [advance, due, Hosted.next, hrun, Hosted.child, ht, hd, he]
    | some c => simp [advance, due, Hosted.next, hrun, Hosted.child, ht, hd, he, hactive]

end Hosted.Sound

end rest

/-- With idle pollers and nothing left to do, nothing is due. -/
theorem Hosted.Quiescent.none_due [Add B] [Zero B] {dev : Raid5Bdev} {ch : Children}
    {overflowChecks : Bool} {s : Hosted B} (h : s.Quiescent dev ch overflowChecks)
    (hidle : ∀ i, (s.host i).tcb.polling = false) (e : HostedEvent B) :
    s.advance dev ch overflowChecks e = none := by
  refine Option.eq_none_iff_forall_ne_some.mpr fun u hn => ?_
  simp only [Hosted.advance, Option.ite_none_right_eq_some] at hn
  obtain ⟨hdue, hn⟩ := hn
  unfold Hosted.next at hn
  split at hn
  · cases hn
  cases e with
  | submit req => cases hdue
  | message i =>
    obtain ⟨t, rest, hmsgs, _⟩ := Hosted.message_host hn
    rw [h.msgs] at hmsgs
    cases hmsgs
  | exec i e =>
    obtain ⟨b, hb, _⟩ := Hosted.exec_host hn
    cases e with
    | spawn k | spawnLocal k | wake k => cases hdue
    | start => simp [Hosted.due, Tcb.due, h.runq] at hdue
    | done => simp [Runtime.next, hidle] at hb
    | pop k | skip k => simp [Runtime.next, hidle] at hb
    | ret k r => simp [Runtime.next, h.frames] at hb
  | run i heap => simp [Hosted.run, h.frames] at hn
  | child t e =>
    obtain ⟨_, _, hx⟩ := Option.bind_eq_some_iff.mp hn
    obtain ⟨d, hd, _⟩ := Option.bind_eq_some_iff.mp hx
    rw [h.children] at hd
    cases hd

/-- **The workers come to rest.** From any state, once no request comes in and other code
neither spawns nor wakes, no order of what is left to do goes on forever: messages, polls,
operations and child I/Os. Where nothing of this is left the queues and stacks are empty, and
the requests of each stripe have been answered in the order in which they came. Each child can
answer, and a build with overflow checks has at most 64 disks. -/
theorem hosted_comes_to_rest [XorGroup B] (dev : Raid5Bdev) (overflowChecks : Bool)
    (hbit : overflowChecks = true → dev.diskCount ≤ 64) (ch : Children)
    (hch : ∀ x, ch.allow x true = true ∨ ch.allow x false = true)
    (disks : Nat → Nat → B) (es : List (HostedEvent B)) (s : Hosted B)
    (hrun : run (Hosted.next dev ch overflowChecks) (Hosted.start disks) es = some s) :
    Stops (Hosted.advance dev ch overflowChecks) (fun _ => True) s ∧
      ((∀ e, s.advance dev ch overflowChecks e = none) → s.Quiescent dev ch overflowChecks ∧
        ∀ k, onKey (Request.stripe dev) k (s.device.log.map (·.req)) =
          onKey (Request.stripe dev) k s.device.submitted) := by
  obtain ⟨⟨es', hdev⟩, hs⟩ := hosted_sound hrun
  obtain ⟨S, hS⟩ := Hosted.exists_within hrun
  obtain ⟨G, rfl, hG, hok, hshift, hstart⟩ := exists_base (B := B) dev ch hbit
  have hr : Reached G s.device := (hstart disks).run hok hshift hG hdev
  refine ⟨hr.hosted_stops hok hshift hG hs hS, fun hrest => ?_⟩
  have hquiet := hs.quiescent hr (hs.unharmed hr) hrest
  exact ⟨hquiet, hr.answered hch (hs.atRest hquiet)⟩

theorem hosted_comes_to_rest_read :
    ∃ s, run (Hosted.next smallArray (.any false) true) (Hosted.start 0) readHosted = some s ∧
      Stops (Hosted.advance smallArray (.any false) true) (fun _ => True) s ∧
      s.device.log.length = 1 ∧ onKey (Request.stripe smallArray) 0 (s.device.log.map (·.req)) =
        onKey (Request.stripe smallArray) 0 s.device.submitted := by
  obtain ⟨s, hs, hq, hidle, hlog⟩ := readHosted_ends
  have hend := hosted_comes_to_rest smallArray true (fun _ => by decide) (.any false)
    (fun _ => Or.inl rfl) 0 readHosted s hs
  exact ⟨s, hs, hend.1, hlog, (hend.2 (hq.none_due hidle)).2 0⟩

end Ironspdk.Raid5
