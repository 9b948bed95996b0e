import Mathlib.Data.Multiset.Filter
import Ironspdk.Raid5.Contained
import Ironspdk.Raid5.Hosted

/-! # The end of an array

SPDK destructs a bdev once its requests are completed, and `Raid5Bdev` is dropped on the thread
on which it does that. Nothing makes this wait for the tasks on the workers, which have a plain
pointer to it. Its drop sends every worker a message to exit, behind the others; a worker that
exits shuts its executor down at the next call of the poller, or when something is woken on it,
and drops what is in its run queue. A run starts with the channels of all workers open: the
tasks of `Raid5Bdev::init` are over, and an array that is deleted before is not covered. -/
namespace Ironspdk.Raid5
open Ironspdk.Lib Ironspdk.Runtime

variable {B : Type}

/-- An array from its first request to its end: whether it is dropped, which workers have handled
the message to exit, and which tasks of the array the shutdown of a worker has found in its run
queue. What happens on a worker after that is not followed. -/
structure Deletable (B : Type) where
  hosted : Hosted B
  deleted : Bool
  exiting : Nat → Bool
  shut : Nat → Option (List Nat)

inductive DeletionEvent (B : Type)
  | hosted (e : HostedEvent B)
  | drop
  | exit (i : Nat)

/-- The worker on which an event calls `Task::wake`. -/
def Hosted.wakes (dev : Raid5Bdev) (s : Hosted B) : HostedEvent B → Option Nat
  | .exec i (.wake _) => some i
  | .child t e => do
    let task ← s.device.tasks[t]?
    let c ← e.ends
    let _ ← s.waker t c
    return dev.ownerIdx (task.req.stripe dev)
  | _ => none

namespace Deletable

/-- Before the first request, when every worker has its channel. -/
def start (disks : Nat → Nat → B) : Deletable B :=
  ⟨.start disks, false, fun _ => false, fun _ => none⟩

/-- Nothing is submitted to a bdev that is destructed, and nothing more is done on a worker
after its shutdown. -/
def halted (s : Deletable B) : HostedEvent B → Bool
  | .submit _ => s.deleted
  | .message i | .exec i _ | .run i _ => (s.shut i).isSome
  | .child _ _ => false

/-- The worker that an event shuts down: `Tcb::poll` and `Task::wake` do when it exits. -/
def stops (dev : Raid5Bdev) (s : Deletable B) : HostedEvent B → Option Nat
  | .exec i .start => if s.exiting i then some i else none
  | e => (s.hosted.wakes dev e).filter s.exiting

/-- `Tcb::shutdown`: the run queue is cleared. -/
def shutdown (s : Deletable B) (i : Nat) : Deletable B :=
  let h := s.hosted.host i
  { s with shut := Function.update s.shut i (some (h.tcb.runq.filterMap h.runs)) }

def next [Add B] [Zero B] (dev : Raid5Bdev) (ch : Children) (overflowChecks : Bool)
    (s : Deletable B) : DeletionEvent B → Option (Deletable B)
  | .hosted e =>
    if s.halted e then none
    else (s.hosted.next dev ch overflowChecks e).map fun h =>
      match s.stops dev e with
      | some i => { s with hosted := { h with host := s.hosted.host } }.shutdown i
      | none => { s with hosted := h }
  | .drop =>
    -- SPDK has all of the requests back
    if s.deleted = false ∧ s.hosted.device.log.length = s.hosted.device.tasks.length then
      some { s with deleted := true }
    else none
  | .exit i =>
    let h := s.hosted.host i
    if s.deleted = true ∧ s.exiting i = false ∧ h.msgs = [] ∧ h.tcb.polling = false ∧
        h.tcb.frames = [] then
      some { s with exiting := Function.update s.exiting i true }
    else none

end Deletable

/-! ## All requests answered -/

/-- What is left of the task leaves the array alone: it drops values and finds its queue
empty. -/
def Device.Leaves (dev : Raid5Bdev) (s : Device B) (task : IoTask B) : Prop :=
  match task.stage with
  | .finished => True
  | .draining => s.pending dev (task.req.stripe dev) = []
  | .processing _ prog _ =>
    prog.Asks (fun o => ∃ r, o = .drop r) (fun _ _ => True) (fun _ => True) ∧
      s.pending dev (task.req.stripe dev) = []
  | .spawned | .panicked _ => False

theorem StoresOnly.drops {good : ChildReq → Prop} {p : Task Unit} (h : StoresOnly good true p) :
    p.Asks (fun o => ∃ r, o = .drop r) (fun _ _ => True) fun _ => True := by
  induction p with
  | ret a => trivial
  | op o k ih =>
    obtain ⟨hallowed, hnext⟩ := h.next
    cases o with
    | drop r => exact ⟨⟨r, rfl⟩, fun x _ => ih x (hnext x)⟩
    | submit r => cases hallowed.1
    | _ => cases hallowed

/-- A list that has no more entries of any key than another one is no longer; if it is as long,
it has as many of each. -/
theorem onKey_length_le {R : Type} {key : R → Nat} {l m : List R}
    (h : ∀ k, (onKey key k l).length ≤ (onKey key k m).length) : l.length ≤ m.length ∧
      (m.length ≤ l.length → ∀ k, (onKey key k l).length = (onKey key k m).length) := by
  have hcount : ∀ (n : List R) (k : Nat), (onKey key k n).length =
      Multiset.count k (n.map key : Multiset Nat) := fun n k => by
    rw [onKey, Multiset.coe_count, ← List.countP_eq_length_filter, List.count, List.countP_map]
    exact List.countP_congr fun x _ => by simp
  have hle : (l.map key : Multiset Nat) ≤ (m.map key : Multiset Nat) :=
    Multiset.le_iff_count.mpr fun k => by rw [← hcount, ← hcount]; exact h k
  refine ⟨by simpa using Multiset.card_le_card hle, fun hlen k => ?_⟩
  have heq := Multiset.eq_of_le_of_card_le hle (by simpa using hlen)
  rw [hcount, hcount, heq]

section answered
variable {dev : Raid5Bdev} {s : Device B}

theorem Serialized.log_le (h : Serialized dev s) (k : Nat) :
    (onKey (Request.stripe dev) k (s.log.map (·.req))).length ≤
      (onKey (Request.stripe dev) k s.submitted).length :=
  (h.order k).length_le

/-- There are no more answers than requests. -/
theorem Serialized.log_length (h : Serialized dev s) : s.log.length ≤ s.tasks.length := by
  simpa [Device.submitted] using (onKey_length_le h.log_le).1

/-- With as many answers as requests, those of every stripe are all there. -/
theorem Serialized.all_answered (h : Serialized dev s) (hall : s.log.length = s.tasks.length)
    (k : Nat) : onKey (Request.stripe dev) k (s.log.map (·.req)) =
      onKey (Request.stripe dev) k s.submitted :=
  (h.order k).eq_of_length
    ((onKey_length_le h.log_le).2 (by simp [Device.submitted, hall]) k)

/-- The requests of a stripe that are not answered: in service, waiting, sent. -/
theorem Serialized.unanswered (h : Serialized dev s) (k : Nat) :
    ∃ x, onKey (Request.stripe dev) k s.submitted =
        onKey (Request.stripe dev) k (s.log.map (·.req)) ++ (x ++ (s.pending dev k ++
          onKey (Request.stripe dev) k (s.sent (dev.ownerIdx k)))) ∧
      ∀ t req prog frame, s.Processing dev t k req prog frame → frame.completions = [] →
        req ∈ x := by
  by_cases hp : ∃ t req prog frame, s.Processing dev t k req prog frame
  · obtain ⟨t, req, prog, frame, hp⟩ := hp
    refine ⟨if frame.completions = [] then [req] else [], ?_, ?_⟩
    · rw [h.submitted, h.enqueued, h.processing t k req prog frame hp]
      simp
    · rintro t' req' prog' frame' hp' hnil
      have hdrains : ∀ {t req prog frame}, s.Processing dev t k req prog frame →
          s.Drains dev t k := by
        rintro t req prog frame ⟨task, ht, hst, hk⟩
        exact ⟨task, ht, hk, Or.inr ⟨_, _, _, hst⟩⟩
      obtain rfl := h.single t t' k (hdrains hp) (hdrains hp')
      obtain ⟨task, ht, hst, _⟩ := hp
      obtain ⟨task', ht', hst', _⟩ := hp'
      cases ht.symm.trans ht'
      cases hst.symm.trans hst'
      simp [hnil]
  · refine ⟨[], ?_, fun t req prog frame hp' => absurd ⟨t, req, prog, frame, hp'⟩ hp⟩
    rw [h.submitted, h.enqueued, h.between k fun t req prog frame hp' =>
      hp ⟨t, req, prog, frame, hp'⟩]
    simp

/-- Once all requests are answered, the tasks leave the array alone. -/
theorem Serialized.leaves (h : Serialized dev s) (hbox : Inbox dev s)
    (hkeeps : ∀ k, ∃ b, s.Serves dev k b ∧ KeepsTo dev k b)
    (hall : s.log.length = s.tasks.length) {t : Nat} {task : IoTask B}
    (ht : s.tasks[t]? = some task) : s.Leaves dev task := by
  obtain ⟨x, hsplit, hserved⟩ := h.unanswered (task.req.stripe dev)
  rw [← h.all_answered hall, List.self_eq_append_right, List.append_eq_nil_iff,
    List.append_eq_nil_iff] at hsplit
  obtain ⟨rfl, hpending, hsent⟩ := hsplit
  unfold Device.Leaves
  cases hst : task.stage with
  | finished => trivial
  | draining => exact hpending
  | panicked msg =>
    have hcalm := h.calm t task ht
    rw [hst] at hcalm
    cases hcalm
  | spawned =>
    have hmem := (hbox.mem _ t).mpr ⟨task, ht, hst, rfl⟩
    have hin : task.req ∈ onKey (Request.stripe dev) (task.req.stripe dev)
        (s.sent (dev.ownerIdx (task.req.stripe dev))) := by
      simp only [onKey, List.mem_filter, decide_eq_true_eq, and_true, Device.sent]
      exact List.mem_filterMap.mpr ⟨t, hmem, by simp [Device.submitted, ht]⟩
    rw [hsent] at hin
    cases hin
  | processing req prog frame =>
    refine ⟨?_, hpending⟩
    have hp : s.Processing dev t (task.req.stripe dev) req prog frame := ⟨task, ht, hst, rfl⟩
    obtain ⟨b, hb, hkeep⟩ := hkeeps (task.req.stripe dev)
    cases b with
    | none => exact absurd hp (hb t req prog frame)
    | some b =>
      obtain ⟨t', ht'⟩ := hb
      obtain ⟨_, rfl⟩ := (ht' t req prog frame).mp hp
      have hanswered : frame.completions ≠ [] := fun hnil => by
        have hmem := hserved t req prog frame hp hnil
        cases hmem
      have hprog := hkeep.2.1
      rw [show Service.answered ⟨req, prog, frame⟩ = true by simp [Service.answered, hanswered]]
        at hprog
      exact hprog.drops

end answered

/-! ## Tasks that are over -/

/-- A step of the device leaves the tasks that are over, and answers. -/
theorem Device.Step.over [Add B] [Zero B] {dev : Raid5Bdev} {ch : Children} {overflowChecks : Bool}
    {s s' : Device B} {e : DevEvent B} (hs : s.Step dev ch overflowChecks e s') (he : e.Inner)
    (hbox : Inbox dev s) : s'.submitted = s.submitted ∧ s.log.length ≤ s'.log.length ∧
      ∀ (t : Nat) (task : IoTask B), s.tasks[t]? = some task → task.stage = .finished →
        s'.tasks[t]? = some task := by
  have hset : ∀ {t : Nat} {task : IoTask B} {stage : Stage B}, s.tasks[t]? = some task →
      task.stage ≠ .finished → s'.tasks = s.tasks.set t { task with stage := stage } →
      s'.submitted = s.submitted ∧ ∀ (t : Nat) (task : IoTask B), s.tasks[t]? = some task →
        task.stage = .finished → s'.tasks[t]? = some task := by
    intro t task stage ht hst htasks
    refine ⟨submitted_set ht htasks, fun t' task' ht' hst' => ?_⟩
    have hne : t' ≠ t := by
      rintro rfl
      cases ht.symm.trans ht'
      exact hst hst'
    rw [htasks, getElem?_setTask ht, if_neg hne, ht']
  cases hs with
  | submit req => exact he.elim
  | start hin ht =>
    rename_i w t rest task
    obtain ⟨_, hc, hst, _⟩ := (hbox.mem w t).mp (by rw [hin]; exact List.mem_cons_self ..)
    cases ht.symm.trans hc
    obtain ⟨stage, htasks⟩ : ∃ stage, (s.begin dev w t rest task).tasks =
        s.tasks.set t { task with stage := stage } := ⟨_, rfl⟩
    obtain ⟨hsub, hover⟩ := hset ht (by simp [hst]) htasks
    exact ⟨hsub, le_rfl, hover⟩
  | drain ht hst =>
    rename_i t task heap
    obtain ⟨stage, htasks, hlog⟩ : ∃ stage, (s.drain dev overflowChecks t task heap).tasks =
        s.tasks.set t { task with stage := stage } ∧
          (s.drain dev overflowChecks t task heap).log = s.log := by
      unfold Device.drain
      simp only
      split <;> exact ⟨_, rfl, rfl⟩
    obtain ⟨hsub, hover⟩ := hset ht (by simp [hst]) htasks
    exact ⟨hsub, hlog ▸ le_rfl, hover⟩
  | ret ht hst | panic ht hst =>
    obtain ⟨hsub, hover⟩ := hset ht (by simp [hst]) rfl
    exact ⟨hsub, le_rfl, hover⟩
  | perform ht hst hp =>
    obtain ⟨hsub, hover⟩ := hset ht (by simp [hst]) rfl
    exact ⟨hsub, by simp, hover⟩
  | child ht hst hr =>
    obtain ⟨hsub, hover⟩ := hset ht (by simp [hst]) rfl
    exact ⟨hsub, le_rfl, hover⟩

/-- The task of a request that was submitted before. -/
theorem exists_task {s s' : Device B} (h : s'.submitted = s.submitted) {t : Nat} {task : IoTask B}
    (ht : s'.tasks[t]? = some task) : ∃ old, s.tasks[t]? = some old ∧ old.req = task.req := by
  have hreq : s.submitted[t]? = some task.req := by
    rw [← h, Device.submitted, List.getElem?_map, ht]
    rfl
  rw [Device.submitted, List.getElem?_map] at hreq
  exact Option.map_eq_some_iff.mp hreq

namespace Hosted
variable {dev : Raid5Bdev} {s : Hosted B} {i k t : Nat} {task : IoTask B}

/-- A task that is over has left no waker. -/
theorem Sound.no_waker (hs : s.Sound dev) (ht : s.device.tasks[t]? = some task)
    (hst : task.stage = .finished) (c : Nat) : s.waker t c = none := by
  obtain ⟨k, hr⟩ := hs.hosted t task ht (by simp [hst])
  obtain ⟨w, _, hfit⟩ := hs.place _ k t task hr ht
  cases w with
  | waiting =>
    obtain ⟨c, hc, _⟩ := hfit
    rw [hst] at hc
    cases hc
  | queued | polled | ended => exact hfit.2 c

/-- A task that is over is not in the run queue. -/
theorem Sound.not_queued (hs : s.Sound dev) (hr : (s.host i).runs k = some t)
    (ht : s.device.tasks[t]? = some task) (hst : task.stage = .finished) :
    k ∉ (s.host i).tcb.runq := by
  intro hq
  obtain ⟨w, hat, hfit⟩ := hs.place i k t task hr ht
  obtain rfl := hat.queued_of_mem hq
  have hpaused := hfit.1
  rw [hst] at hpaused
  exact hpaused

/-- A task that leaves the array alone is over when its worker polls nothing. -/
theorem Sound.over (hs : s.Sound dev) (ht : s.device.tasks[t]? = some task)
    (hleaves : s.device.Leaves dev task)
    (hframes : (s.host (dev.ownerIdx (task.req.stripe dev))).tcb.frames = []) :
    task.stage = .finished := by
  have hsp : task.stage ≠ .spawned := fun hst => by
    unfold Device.Leaves at hleaves
    rw [hst] at hleaves
    exact hleaves
  have hno : ∀ c, task.stage.awaits ≠ some c := fun c hc => by
    unfold Stage.awaits at hc
    split at hc
    · rename_i hst
      unfold Device.Leaves at hleaves
      rw [hst] at hleaves
      obtain ⟨r, hr⟩ := hleaves.1.1
      cases hr
    · cases hc
  obtain ⟨k, hr⟩ := hs.hosted t task ht hsp
  obtain ⟨w, hat, hfit⟩ := hs.place _ k t task hr ht
  cases w with
  | ended => exact hfit.1
  | waiting =>
    obtain ⟨c, hc, _⟩ := hfit
    exact absurd hc (hno c)
  | polled =>
    have hmem := hat.stack.mpr rfl
    rw [hframes] at hmem
    cases hmem
  | queued =>
    have hpaused := hfit.1
    unfold Stage.Paused at hpaused
    split at hpaused
    · rename_i hst
      exact absurd hst hsp
    · rename_i hst
      unfold Device.Leaves at hleaves
      rw [hst] at hleaves
      obtain ⟨r, hr⟩ := hleaves.1.1
      cases hr
    · exact hpaused.elim

end Hosted

/-! ## Up to the end -/

/-- What holds of every state. -/
structure Deletable.Sound [XorGroup B] (G : Base B) (s : Deletable B) : Prop where
  hosted : s.hosted.Sound G.dev
  reached : Reached G s.hosted.device
  keeps : ∀ k, ∃ b, s.hosted.device.Serves G.dev k b ∧ KeepsTo G.dev k b
  answered : s.deleted = true → s.hosted.device.log.length = s.hosted.device.tasks.length
  exiting : ∀ i, s.exiting i = true → s.deleted = true ∧ ∀ (t : Nat) (task : IoTask B),
    s.hosted.device.tasks[t]? = some task → G.dev.ownerIdx (task.req.stripe G.dev) = i →
      task.stage = .finished
  shut : ∀ i l, s.shut i = some l → l = []

namespace Deletable.Sound
variable [XorGroup B] {G : Base B} {ch : Children} {overflowChecks : Bool} {s u : Deletable B}

theorem leaves (h : s.Sound G) (hdel : s.deleted = true) {t : Nat} {task : IoTask B}
    (ht : s.hosted.device.tasks[t]? = some task) : s.hosted.device.Leaves G.dev task :=
  h.reached.serialized.leaves h.hosted.inbox h.keeps (h.answered hdel) ht

/-- A step of the array. -/
theorem step (h : s.Sound G) (hok : G.Ok) (hshift : G.ShiftOk overflowChecks)
    (hG : ∀ k, G.children k = ch) {e : HostedEvent B} {v : Hosted B}
    (hn : s.hosted.next G.dev ch overflowChecks e = some v)
    (hsub : ∀ req, e = .submit req → s.deleted = false) : Sound G { s with hosted := v } := by
  obtain ⟨hdev, hv⟩ := h.hosted.next hn
  rcases hdev with hdev | ⟨e', he', hdev⟩
  · refine ⟨hv, ?_, ?_, ?_, ?_, h.shut⟩
    · exact hdev.symm ▸ h.reached
    · exact hdev.symm ▸ h.keeps
    · exact hdev.symm ▸ h.answered
    · exact hdev.symm ▸ h.exiting
  have hstep := Device.next_step hdev
  have hreached := h.reached.next hok hshift (G.admits_of hG s.hosted.device e') hdev
  have hover : s.deleted = true → v.device.submitted = s.hosted.device.submitted ∧
      s.hosted.device.log.length ≤ v.device.log.length ∧ ∀ (t : Nat) (task : IoTask B),
        s.hosted.device.tasks[t]? = some task → task.stage = .finished →
          v.device.tasks[t]? = some task := fun hdel => by
    rcases he' with he' | ⟨req, rfl⟩
    · exact hstep.over he' h.hosted.inbox
    · rw [hsub req rfl] at hdel
      cases hdel
  refine ⟨hv, hreached, fun k => ?_, fun hdel => ?_, fun i hi => ?_, h.shut⟩
  · obtain ⟨b, hb, hkeep⟩ := h.keeps k
    obtain ⟨b', hb', hserves⟩ := h.reached.stripe_step hb hstep
    exact ⟨b', hserves, hkeep.step hb'⟩
  · obtain ⟨hsame, hlog, _⟩ := hover hdel
    have hlen : v.device.tasks.length = s.hosted.device.tasks.length := by
      simpa [Device.submitted] using congrArg List.length hsame
    have hall := h.answered hdel
    have hle := hreached.serialized.log_length
    show v.device.log.length = v.device.tasks.length
    omega
  · obtain ⟨hdel, hfin⟩ := h.exiting i hi
    refine ⟨hdel, fun t task ht ho => ?_⟩
    obtain ⟨hsame, _, hkeep⟩ := hover hdel
    have ht : v.device.tasks[t]? = some task := ht
    obtain ⟨old, hold, hreq⟩ := exists_task hsame ht
    have hst := hfin t old hold (by rw [hreq, ho])
    cases ht.symm.trans (hkeep t old hold hst)
    exact hst

/-- Nothing but the executor stands still when a worker is shut down: the array wakes nothing
on a worker that exits. -/
theorem stopped (h : s.Sound G) {e : HostedEvent B} {v : Hosted B} {i : Nat}
    (hn : s.hosted.next G.dev ch overflowChecks e = some v)
    (hstop : s.stops G.dev e = some i) :
    s.exiting i = true ∧ { v with host := s.hosted.host } = s.hosted := by
  unfold Hosted.next at hn
  split at hn
  · cases hn
  cases e with
  | submit _ | message _ | run _ _ => cases hstop
  | exec j e =>
    obtain ⟨b, _, hx⟩ := Option.bind_eq_some_iff.mp hn
    cases e with
    | start =>
      simp only [stops, Option.ite_none_right_eq_some, Option.some.injEq] at hstop
      obtain ⟨hj, rfl⟩ := hstop
      cases hx
      exact ⟨hj, rfl⟩
    | wake k =>
      have hstop : (s.hosted.wakes G.dev (.exec j (.wake k))).filter s.exiting = some i := hstop
      obtain ⟨hj, hexit⟩ := Option.filter_eq_some_iff.mp hstop
      cases hj
      simp only [Option.ite_none_right_eq_some, Option.some.injEq] at hx
      rw [← hx.2]
      exact ⟨hexit, rfl⟩
    | _ => cases hstop
  | child t e =>
    obtain ⟨hwakes, hexit⟩ := Option.filter_eq_some_iff.mp hstop
    obtain ⟨task, ht, hwakes⟩ := Option.bind_eq_some_iff.mp hwakes
    obtain ⟨c, _, hwakes⟩ := Option.bind_eq_some_iff.mp hwakes
    obtain ⟨k, hk, hwakes⟩ := Option.bind_eq_some_iff.mp hwakes
    have hst := (h.exiting i hexit).2 t task ht (Option.some.inj hwakes)
    rw [h.hosted.no_waker ht hst] at hk
    cases hk

/-- What is shut down has nothing of the array left. -/
theorem stop (h : s.Sound G) {e : HostedEvent B} {v : Hosted B} {i : Nat}
    (hn : s.hosted.next G.dev ch overflowChecks e = some v)
    (hstop : s.stops G.dev e = some i) :
    ({ s with hosted := { v with host := s.hosted.host } }.shutdown i).Sound G := by
  obtain ⟨hi, hv⟩ := h.stopped hn hstop
  rw [hv]
  obtain ⟨hdel, hfin⟩ := h.exiting i hi
  refine ⟨h.hosted, h.reached, h.keeps, h.answered, h.exiting, fun j l hl => ?_⟩
  have hl : Function.update s.shut i (some ((s.hosted.host i).tcb.runq.filterMap
      (s.hosted.host i).runs)) j = some l := hl
  by_cases hj : j = i
  · rw [hj, Function.update_self] at hl
    cases hl
    refine List.filterMap_eq_nil_iff.mpr fun k hk => ?_
    cases hr : (s.hosted.host i).runs k with
    | none => rfl
    | some t =>
      obtain ⟨task, ht, ho⟩ := h.hosted.home i k t hr
      exact absurd hk (h.hosted.not_queued hr ht (hfin t task ht ho))
  · rw [Function.update_of_ne hj] at hl
    exact h.shut j l hl

/-- **One step.** -/
theorem next (h : s.Sound G) (hok : G.Ok) (hshift : G.ShiftOk overflowChecks)
    (hG : ∀ k, G.children k = ch) {e : DeletionEvent B}
    (hn : s.next G.dev ch overflowChecks e = some u) : u.Sound G := by
  cases e with
  | hosted e =>
    simp only [Deletable.next, Option.ite_none_left_eq_some, Option.map_eq_some_iff] at hn
    obtain ⟨hrun, v, hv, rfl⟩ := hn
    cases hstop : s.stops G.dev e with
    | some i => exact h.stop hv hstop
    | none =>
      refine h.step hok hshift hG hv fun req he => ?_
      subst he
      simpa [Deletable.halted] using hrun
  | drop =>
    simp only [Deletable.next, Option.ite_none_right_eq_some, Option.some.injEq] at hn
    obtain ⟨⟨hdel, hall⟩, rfl⟩ := hn
    refine ⟨h.hosted, h.reached, h.keeps, fun _ => hall, fun i hi => ?_, h.shut⟩
    exact ⟨rfl, (h.exiting i hi).2⟩
  | exit i =>
    simp only [Deletable.next, Option.ite_none_right_eq_some, Option.some.injEq] at hn
    obtain ⟨⟨hdel, _, _, _, hframes⟩, rfl⟩ := hn
    refine ⟨h.hosted, h.reached, h.keeps, h.answered, fun j hj => ?_, h.shut⟩
    have hj : Function.update s.exiting i true j = true := hj
    by_cases hij : j = i
    · subst hij
      refine ⟨hdel, fun t task ht ho => h.hosted.over ht (h.leaves hdel ht) ?_⟩
      rw [ho]
      exact hframes
    · rw [Function.update_of_ne hij] at hj
      exact h.exiting j hj

end Deletable.Sound

/-- **An array is deleted behind its last request.** Every worker has opened its channel; a
build with overflow checks has at most 64 disks. Whatever the children do, however the workers
take turns and whenever SPDK destructs the bdev once it has all of its requests back: from then
on no task of a request looks at the array, which is dropped. Every worker handles the message
to exit after all of these tasks, when no stripe has an entry in its channel and none of them
has left a waker; so its shutdown drops none of them, and no child I/O wakes one after it. -/
theorem deletion_waits_for_tasks [XorGroup B] (dev : Raid5Bdev) (overflowChecks : Bool)
    (hbit : overflowChecks = true → dev.diskCount ≤ 64) (ch : Children) (disks : Nat → Nat → B)
    (es : List (DeletionEvent B)) (s : Deletable B)
    (hrun : run (Deletable.next dev ch overflowChecks) (Deletable.start disks) es = some s) :
    (s.deleted = true → ∀ (t : Nat) (task : IoTask B), s.hosted.device.tasks[t]? = some task →
      s.hosted.device.Leaves dev task) ∧
    (∀ i, s.exiting i = true → (∀ k, s.hosted.device.channels i k = none) ∧
      ∀ (t : Nat) (task : IoTask B), s.hosted.device.tasks[t]? = some task →
        dev.ownerIdx (task.req.stripe dev) = i →
          task.stage = .finished ∧ ∀ c, s.hosted.waker t c = none) ∧
    ∀ i l, s.shut i = some l → l = [] := by
  obtain ⟨G, rfl, hG, hok, hshift, hstart⟩ := exists_base (B := B) dev ch hbit
  have hsound : (Deletable.start disks).Sound G := by
    exact ⟨Hosted.sound_start disks, hstart disks, fun k => ⟨none, serves_start _, trivial⟩,
      fun hdel => (by cases hdel), fun i hi => (by cases hi), fun i l hl => (by cases hl)⟩
  have hs : s.Sound G := run_always hsound (fun _ _ _ h hn => h.next hok hshift hG hn) hrun
  refine ⟨fun hdel t task ht => hs.leaves hdel ht,
    fun i hi => ⟨fun k => ?_, fun t task ht ho => ?_⟩, hs.shut⟩
  · by_contra hne
    obtain ⟨hk, t, task, ht, hkey, hst⟩ := (hs.reached.serialized.entry i k).mp
      (Option.isSome_iff_ne_none.mpr hne)
    have hover := (hs.exiting i hi).2 t task ht (by rw [hkey, hk])
    rcases hst with hst | ⟨_, _, _, hst⟩
    · cases hover.symm.trans hst
    · cases hover.symm.trans hst
  · have hst := (hs.exiting i hi).2 t task ht ho
    exact ⟨hst, hs.hosted.no_waker ht hst⟩

/-- A read, and the array dropped while its task, which has answered it, is still on the stack. -/
def readThenDelete : List (DeletionEvent Byte) :=
  (readHosted.take 14).map .hosted ++ .drop :: (readHosted.drop 14).map .hosted ++
    [.exit 0, .hosted (.exec 0 .start)]

theorem deletion_waits_for_tasks_read :
    ∃ s, run (Deletable.next smallArray (.any false) true) (Deletable.start 0) readThenDelete =
        some s ∧ s.hosted.device.log.length = 1 ∧ s.shut 0 = some [] ∧
      ∀ k, s.hosted.device.channels 0 k = none := by
  have hend : (run (Deletable.next smallArray (.any false) true) (Deletable.start 0)
      readThenDelete).map (fun s => (s.hosted.device.log.length, s.exiting 0, s.shut 0)) =
        some (1, true, some []) := by
    decide
  obtain ⟨s, hs, he⟩ := Option.map_eq_some_iff.mp hend
  obtain ⟨hlog, he⟩ := Prod.mk.inj he
  obtain ⟨hexit, hshut⟩ := Prod.mk.inj he
  exact ⟨s, hs, hlog, hshut, ((deletion_waits_for_tasks smallArray true (fun _ => by decide)
    (.any false) 0 readThenDelete s hs).2.1 0 hexit).1⟩

end Ironspdk.Raid5
