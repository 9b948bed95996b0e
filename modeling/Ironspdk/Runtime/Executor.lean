import Ironspdk.Runtime.Task

/-! # What the executor guarantees its tasks

Two results about every run of a thread, whatever its futures do. No wakeup is lost:
a task that is owed a poll is in the run queue, or on the stack and notified. And a
future is not polled again after it has returned `Ready`, provided none returns it
while the run queue still holds another entry for its task. The proviso is needed:
the re-queue branch of `Task::poll` leaves the task `idle` in the queue, so the next
wake queues it a second time. -/
namespace Ironspdk.Runtime
open Ironspdk.Lib

/-! ## Wakeups -/

/-- Whether a task is owed a poll, one event further: a spawn or a wake makes it so,
the start of a poll settles it. -/
def owedStep (t : TaskId) (b : Bool) : Event → Bool
  | .spawn u | .wake u => b || u == t
  | .pop u | .spawnLocal u => b && u != t
  | _ => b

/-- The task was spawned and not yet polled, or woken since the start of its latest poll. -/
def owed (es : List Event) (t : TaskId) : Bool := es.foldl (owedStep t) false

theorem owed_snoc (es : List Event) (e : Event) (t : TaskId) :
    owed (es ++ [e]) t = owedStep t (owed es t) e := by
  simp [owed]

/-- Only the start of a poll settles what a task is owed. -/
theorem owed_append {es fs : List Event} {t : TaskId} (h : owed es t = true)
    (hp : ∀ e ∈ fs, e.polls ≠ some t) : owed (es ++ fs) t = true := by
  induction fs using List.reverseRecOn with
  | nil => simpa using h
  | append_singleton fs e ih =>
    rw [← List.append_assoc, owed_snoc, ih (fun d hd => hp d (by simp [hd]))]
    have he := hp e (by simp)
    cases e <;> simp_all [owedStep, Event.polls]

/-- Where the executor keeps a task it owes a poll. -/
def Tcb.Keeps (s : Tcb) (t : TaskId) : Prop :=
  t ∈ s.runq ∨ (t ∈ s.frames ∧ s.state t = .notified)

/-- The state cell says `ready` only of tasks whose future has returned it, and what
is owed to an unfinished task is kept. -/
structure Kept (es : List Event) (s : Tcb) : Prop where
  wf : s.Wf
  ready : ∀ t, s.state t = .ready → .ret t .ready ∈ es
  keeps : ∀ t, owed es t = true → .ret t .ready ∉ es → s.Keeps t

theorem kept_new : Kept [] Tcb.new :=
  ⟨Tcb.wf_new, by simp [Tcb.new], by simp [owed]⟩

/-- A step keeps the promise when it loses no task it owes: the cases of the events
below say which tasks become owed and where they are. -/
theorem Kept.snoc {es : List Event} {s u : Tcb} {e : Event} (h : Kept es s)
    (hn : next s e = some u)
    (ready : ∀ t, u.state t = .ready → s.state t = .ready ∨ e = .ret t .ready)
    (keeps : ∀ t, owedStep t (owed es t) e = true → .ret t .ready ∉ es → e ≠ .ret t .ready →
      (owed es t = true → s.Keeps t) → u.Keeps t) : Kept (es ++ [e]) u := by
  refine ⟨next_wf h.wf hn, fun t ht => ?_, fun t ht hr => ?_⟩
  · rcases ready t ht with ht | rfl
    · exact List.mem_append_left _ (h.ready t ht)
    · simp
  · rw [owed_snoc] at ht
    have hr' : Event.ret t .ready ∉ es ∧ e ≠ .ret t .ready := by
      simpa [eq_comm] using hr
    exact keeps t ht hr'.1 hr'.2 (fun ho => h.keeps t ho hr'.1)

theorem Kept.wake {es : List Event} {s : Tcb} {t : TaskId} (h : Kept es s) (ht : t < s.tasks)
    (ha : s.active = true) : Kept (es ++ [.wake t]) (Task.wake t s) := by
  refine h.snoc (by simp [next, ha, ht]) ?_ ?_
  · intro v hv
    left
    unfold Task.wake at hv
    split at hv
    · exact (update_cell hv (by decide)).2
    · exact (update_cell hv (by decide)).2
    · exact hv
    · exact hv
  · intro v hv hr _ hk
    by_cases he : v = t
    · subst he
      unfold Task.wake
      cases hst : s.state v with
      | running => exact Or.inr ⟨h.wf.running v hst, Function.update_self ..⟩
      | idle => exact Or.inl (by simp)
      | notified =>
        rcases h.wf.notified v hst with hm | hm
        · exact Or.inr ⟨hm, hst⟩
        · exact Or.inl hm
      | ready => exact absurd (h.ready v hst) hr
    · have ho : owed es v = true := by simpa [owedStep, Ne.symm he] using hv
      unfold Task.wake
      split
      · rcases hk ho with hm | ⟨hm, hs⟩
        · exact Or.inl hm
        · exact Or.inr ⟨hm, by simpa [Function.update_of_ne he] using hs⟩
      · rcases hk ho with hm | ⟨hm, hs⟩
        · exact Or.inl (List.mem_append_left _ hm)
        · exact Or.inr ⟨hm, by simpa [Function.update_of_ne he] using hs⟩
      · exact hk ho
      · exact hk ho

theorem Kept.ret {es : List Event} {s : Tcb} {t : TaskId} {fs : List TaskId} {r : Poll}
    (h : Kept es s) (hs : s.frames = t :: fs) :
    Kept (es ++ [.ret t r]) (Task.leave t r { s with frames := fs }) := by
  -- another task is where it was: its cell and its frame are untouched
  have other : ∀ v, v ≠ t → ∀ q c, (∀ x ∈ s.runq, x ∈ q) → s.Keeps v →
      Tcb.Keeps { s with frames := fs, runq := q, state := Function.update s.state t c } v := by
    intro v he q c hq hk
    rcases hk with hm | ⟨hm, hst⟩
    · exact Or.inl (hq v hm)
    · rw [hs] at hm
      exact Or.inr ⟨by simpa [he] using hm, by simpa [Function.update_of_ne he] using hst⟩
  refine h.snoc (by simp [next, hs]) ?_ ?_
  · intro v hv
    cases r with
    | ready =>
      by_cases he : v = t
      · rw [he]; exact Or.inr rfl
      · left; simpa [Task.leave, Function.update_of_ne he] using hv
    | pending =>
      left
      simp only [Task.leave] at hv
      split at hv <;> exact (update_cell hv (by decide)).2
  · intro v hv _ hne hk
    have hk := hk (by simpa [owedStep] using hv)
    cases r with
    | ready =>
      have he : v ≠ t := fun he => hne (he ▸ rfl)
      exact other v he _ _ (fun _ hx => hx) hk
    | pending =>
      simp only [Task.leave]
      by_cases hnot : s.state t = .notified
      · rw [if_pos hnot]
        by_cases he : v = t
        · exact Or.inl (by simp [he])
        · exact other v he _ _ (fun _ hx => List.mem_append_left _ hx) hk
      · rw [if_neg hnot]
        by_cases he : v = t
        · rw [he] at hk ⊢
          exact Or.inl (hk.resolve_right (fun hx => hnot hx.2))
        · exact other v he _ _ (fun _ hx => hx) hk

theorem kept_next {es : List Event} {s u : Tcb} {e : Event} (h : Kept es s)
    (hn : next s e = some u) : Kept (es ++ [e]) u := by
  cases next_step hn with
  | wake active made => exact h.wake made active
  | ret stack r => exact h.ret stack
  | skip empty _ busy => exact absurd busy (h.wf.not_running empty _)
  | start _ _ | done _ _ =>
    exact h.snoc hn (fun _ ht => Or.inl ht) (fun v hv _ _ hk => hk (by simpa [owedStep] using hv))
  | spawn _ =>
    refine h.snoc hn (fun v hv => Or.inl (update_cell hv (by decide)).2) ?_
    intro v hv _ _ hk
    by_cases he : v = s.tasks
    · exact Or.inl (by simp [Tcb.spawn, he])
    · rcases hk (by simpa [owedStep, Ne.symm he] using hv) with hm | ⟨hm, hst⟩
      · exact Or.inl (List.mem_append_left _ hm)
      · exact Or.inr ⟨hm, by simpa [Tcb.spawn, Tcb.newTask, Function.update_of_ne he] using hst⟩
  | spawnLocal _ =>
    refine h.snoc hn ?_ ?_
    · intro v hv
      exact Or.inl (update_cell (update_cell hv (by decide)).2 (by decide)).2
    · intro v hv _ _ hk
      simp only [owedStep, Bool.and_eq_true, bne_iff_ne] at hv
      rcases hk hv.1 with hm | ⟨hm, hst⟩
      · exact Or.inl hm
      · exact Or.inr ⟨List.mem_cons_of_mem _ hm, by
          simpa [Task.enter, Tcb.newTask, Function.update_of_ne (Ne.symm hv.2)] using hst⟩
  | pop empty queue _ =>
    refine h.snoc hn (fun v hv => Or.inl (update_cell hv (by decide)).2) ?_
    intro v hv _ _ hk
    simp only [owedStep, Bool.and_eq_true, bne_iff_ne] at hv
    rcases hk hv.1 with hm | ⟨hm, _⟩
    · rw [queue] at hm
      exact Or.inl ((List.mem_cons.mp hm).resolve_left (Ne.symm hv.2))
    · simp [empty] at hm

theorem run_kept {es : List Event} {s : Tcb} (h : run next Tcb.new es = some s) : Kept es s :=
  run_history (P := fun _ _ => True) kept_new (fun _ _ _ _ hk _ hn => kept_next hk hn) h
    (along_of_forall (fun _ _ => trivial) _ _)

/-- **No wakeup is lost.** A task that was spawned and not yet polled, or woken since
the start of its latest poll, and whose future has not returned `Ready`, is in the run
queue or is being polled and notified. So once the thread has drained its run queue
and no poll is left, the task has been polled again (or its last poll returned `Ready`). -/
theorem no_lost_wakeup {es : List Event} {s : Tcb} (h : run next Tcb.new es = some s) (t : TaskId)
    (ho : owed es t = true) (hr : .ret t .ready ∉ es) :
    (t ∈ s.runq ∨ (t ∈ s.frames ∧ s.state t = .notified)) ∧
    ∀ fs u, run next s fs = some u → u.runq = [] → u.frames = [] →
      (∃ e ∈ fs, e.polls = some t) ∨ .ret t .ready ∈ fs := by
  refine ⟨(run_kept h).keeps t ho hr, fun fs u hu hq hf => ?_⟩
  by_contra hc
  simp only [not_or, not_exists, not_and] at hc
  have hall : run next Tcb.new (es ++ fs) = some u := by rw [run_append, h]; exact hu
  have hk := (run_kept hall).keeps t (owed_append ho hc.1) (by simp [hr, hc.2])
  rw [Tcb.Keeps, hq, hf] at hk
  simp at hk

/-- A task woken once more while it is being polled. -/
theorem no_lost_wakeup_self_wake :
    ∃ s, run next Tcb.new [.spawn 0, .start, .pop 0, .wake 0] = some s ∧
      (0 ∈ s.runq ∨ (0 ∈ s.frames ∧ s.state 0 = .notified)) :=
  ⟨_, rfl, (no_lost_wakeup (show run next Tcb.new [.spawn 0, .start, .pop 0, .wake 0] = some _
    from rfl) 0 (by decide) (by decide)).1⟩

/-! ## Finished futures -/

/-- Some future is polled after it has returned `Ready`. -/
def PollsFinished (es : List Event) : Prop :=
  ∃ t pre post, es = pre ++ .ret t .ready :: post ∧ ∃ e ∈ post, e.polls = some t

theorem pollsFinished_snoc {es : List Event} {e : Event} (h : PollsFinished (es ++ [e])) :
    PollsFinished es ∨ ∃ t, .ret t .ready ∈ es ∧ e.polls = some t := by
  obtain ⟨t, pre, post, heq, d, hd, hp⟩ := h
  induction post using List.reverseRecOn with
  | nil => cases hd
  | append_singleton post c _ =>
    rw [← List.cons_append, ← List.append_assoc] at heq
    obtain ⟨hes, hc⟩ := List.append_inj' heq rfl
    cases hc
    rcases List.mem_append.mp hd with hd | hd
    · exact Or.inl ⟨t, pre, post, hes, d, hd, hp⟩
    · rw [List.mem_singleton.mp hd] at hp
      exact Or.inr ⟨t, by simp [hes], hp⟩

/-- A future returns `Ready` only when the run queue holds no further entry for its task. -/
def NoStaleEntry (s : Tcb) (e : Event) : Prop :=
  ∀ t, e = .ret t .ready → t ∉ s.runq

instance (s : Tcb) (e : Event) : Decidable (NoStaleEntry s e) :=
  match e with
  | .ret t .ready => decidable_of_iff (t ∉ s.runq)
      ⟨fun h _ he => by cases he; exact h, fun h => h t rfl⟩
  | .ret _ .pending | .spawn _ | .spawnLocal _ | .start | .pop _ | .skip _ | .done | .wake _ =>
    isTrue (fun _ he => by cases he)

/-- Finished tasks are marked so, and are neither queued nor on the stack. -/
structure Retired (es : List Event) (s : Tcb) : Prop where
  wf : s.Wf
  gone : ∀ t, .ret t .ready ∈ es →
    t < s.tasks ∧ s.state t = .ready ∧ t ∉ s.runq ∧ t ∉ s.frames
  once : ¬ PollsFinished es

/-- A step that finishes no task keeps the finished ones retired when it leaves their
cells alone, queues none of them and polls none of them. -/
theorem Retired.snoc {es : List Event} {s u : Tcb} {e : Event} (h : Retired es s)
    (hn : next s e = some u) (he : ∀ t, e ≠ .ret t .ready)
    (keep : ∀ t, t < s.tasks → s.state t = .ready → t ∉ s.runq → t ∉ s.frames →
      t < u.tasks ∧ u.state t = .ready ∧ t ∉ u.runq ∧ t ∉ u.frames ∧ e.polls ≠ some t) :
    Retired (es ++ [e]) u := by
  have old : ∀ t, .ret t .ready ∈ es → _ := fun t ht =>
    let ⟨h1, h2, h3, h4⟩ := h.gone t ht
    keep t h1 h2 h3 h4
  refine ⟨next_wf h.wf hn, fun t ht => ?_, fun hp => ?_⟩
  · have ht : .ret t .ready ∈ es := by simpa [Ne.symm (he t)] using ht
    obtain ⟨h1, h2, h3, h4, _⟩ := old t ht
    exact ⟨h1, h2, h3, h4⟩
  · rcases pollsFinished_snoc hp with hp | ⟨t, ht, hp⟩
    · exact h.once hp
    · exact (old t ht).2.2.2.2 hp

theorem retired_next {es : List Event} {s u : Tcb} {e : Event} (h : Retired es s)
    (hok : NoStaleEntry s e) (hn : next s e = some u) : Retired (es ++ [e]) u := by
  cases next_step hn with
  | spawn _ =>
    refine h.snoc hn (by simp) (fun v hv hc hq hf => ?_)
    refine ⟨Nat.lt_succ_of_lt hv, ?_, ?_, hf, by simp [Event.polls]⟩
    · simpa [Tcb.spawn, Tcb.newTask, Function.update_of_ne (Nat.ne_of_lt hv)] using hc
    · simpa [Tcb.spawn, hq] using Nat.ne_of_lt hv
  | spawnLocal _ =>
    refine h.snoc hn (by simp) (fun v hv hc hq hf => ?_)
    have hne := Nat.ne_of_lt hv
    refine ⟨Nat.lt_succ_of_lt hv, ?_, hq, ?_, by simpa [Event.polls] using hne.symm⟩
    · simpa [Task.enter, Tcb.newTask, Function.update_of_ne hne] using hc
    · simpa [Task.enter, Tcb.newTask, hf] using hne
  | start _ _ | done _ _ =>
    exact h.snoc hn (by simp) (fun v hv hc hq hf => ⟨hv, hc, hq, hf, by simp [Event.polls]⟩)
  | @pop t _ empty queue _ =>
    refine h.snoc hn (by simp) (fun v hv hc hq hf => ?_)
    rw [queue, List.mem_cons, not_or] at hq
    refine ⟨hv, ?_, hq.2, ?_, ?_⟩
    · simpa [Task.enter, Function.update_of_ne hq.1] using hc
    · simpa [Task.enter, empty] using hq.1
    · simpa [Event.polls] using Ne.symm hq.1
  | skip empty _ busy => exact absurd busy (h.wf.not_running empty _)
  | @wake t _ _ =>
    refine h.snoc hn (by simp) (fun v hv hc hq hf => ?_)
    by_cases he : v = t
    · -- waking a finished task does nothing
      rw [he] at hv hc hq hf ⊢
      unfold Task.wake
      simp [hc, hv, hq, hf, Event.polls]
    · unfold Task.wake
      split <;> simp [hv, hc, hq, hf, he, Event.polls]
  | @ret t fs stack r =>
    have hnd := h.wf.nodup
    rw [stack, List.nodup_cons] at hnd
    have hmem : t ∈ s.frames := by simp [stack]
    have htail : ∀ v, v ∉ s.frames → v ∉ fs := fun v hv hm => hv (by simp [stack, hm])
    cases r with
    | pending =>
      refine h.snoc hn (by simp) (fun v hv hc hq hf => ?_)
      have hne : v ≠ t := fun he => hf (he ▸ hmem)
      simp only [Task.leave]
      split <;> simp [hv, hc, hq, htail v hf, hne, Event.polls]
    | ready =>
      refine ⟨next_wf h.wf hn, fun v hv => ?_, fun hp => ?_⟩
      · by_cases he : v = t
        · rw [he]
          exact ⟨h.wf.created t hmem, Function.update_self .., hok t rfl, hnd.1⟩
        · obtain ⟨h1, h2, h3, h4⟩ := h.gone v (by simpa [he] using hv)
          refine ⟨h1, ?_, h3, htail v h4⟩
          simpa [Task.leave, Function.update_of_ne he] using h2
      · rcases pollsFinished_snoc hp with hp | ⟨v, _, hp⟩
        · exact h.once hp
        · simp [Event.polls] at hp

/-- **No future is polled after it has returned `Ready`**, in any run in which none
returns it while the run queue still holds another entry for its task. -/
theorem never_polls_finished {es : List Event} {s : Tcb} (h : run next Tcb.new es = some s)
    (ha : Along next NoStaleEntry Tcb.new es) : ¬ PollsFinished es :=
  (run_history (I := Retired) ⟨Tcb.wf_new, by simp, by rintro ⟨_, _, _, h, _⟩; simp at h⟩
    (fun _ _ _ _ hr hok hn => retired_next hr hok hn) h ha).once

/-- A task that waits for one wake, and then finishes. -/
theorem never_polls_finished_one_wake : ¬ PollsFinished
    [.spawn 0, .start, .pop 0, .ret 0 .pending, .done, .wake 0, .start, .pop 0, .ret 0 .ready] :=
  never_polls_finished (show run next Tcb.new [.spawn 0, .start, .pop 0, .ret 0 .pending, .done,
    .wake 0, .start, .pop 0, .ret 0 .ready] = some _ from rfl) (by decide)

/-- A task that wakes itself during a poll, then is woken by a completion before the
poller comes round, has two entries: the second polls the finished future. -/
theorem polls_finished_after_requeue :
    ∃ es s, run next Tcb.new es = some s ∧ PollsFinished es :=
  ⟨[.spawnLocal 0, .wake 0, .ret 0 .pending, .wake 0, .start, .pop 0, .ret 0 .ready, .pop 0], _,
    rfl, 0, [.spawnLocal 0, .wake 0, .ret 0 .pending, .wake 0, .start, .pop 0], [.pop 0], rfl,
    .pop 0, by simp, rfl⟩

/-- No wake finds its task idle with an entry in the run queue, as the re-queue branch
of `Task::poll` leaves it. -/
def NoWakeOfQueued (s : Tcb) (e : Event) : Prop :=
  ∀ t, e = .wake t → s.state t = .idle → t ∉ s.runq

/-- Each task has at most one entry, and none while it is on the stack. -/
structure Tcb.Single (s : Tcb) : Prop where
  wf : s.Wf
  nodup : s.runq.Nodup
  apart : ∀ t ∈ s.frames, t ∉ s.runq

theorem single_push {s : Tcb} {t : TaskId} (hn : s.runq.Nodup) (ht : t ∉ s.runq) :
    (s.runq ++ [t]).Nodup :=
  List.nodup_append.mpr ⟨hn, by simp, by
    intro a ha b hb he
    rw [List.mem_singleton.mp hb] at he
    exact ht (he ▸ ha)⟩

theorem single_next {s u : Tcb} {e : Event} (h : s.Single) (hp : NoWakeOfQueued s e)
    (hn : next s e = some u) : u.Single := by
  have hw := next_wf h.wf hn
  cases next_step hn with
  | spawn _ =>
    have hq : s.tasks ∉ s.runq := fun hm => Nat.lt_irrefl _ (h.wf.queued _ hm)
    refine ⟨hw, single_push h.nodup hq, fun v hv hm => ?_⟩
    rcases List.mem_append.mp hm with hm | hm
    · exact h.apart v hv hm
    · exact Nat.lt_irrefl _ (List.mem_singleton.mp hm ▸ h.wf.created v hv)
  | spawnLocal _ =>
    refine ⟨hw, h.nodup, fun v hv hm => ?_⟩
    rcases List.mem_cons.mp hv with rfl | hv
    · exact Nat.lt_irrefl _ (h.wf.queued _ hm)
    · exact h.apart v hv hm
  | start _ _ | done _ _ => exact ⟨hw, h.nodup, h.apart⟩
  | @pop t _ empty queue _ =>
    have hnd := h.nodup
    rw [queue, List.nodup_cons] at hnd
    refine ⟨hw, hnd.2, fun v hv hm => ?_⟩
    have hv : v = t := by simpa [Task.enter, empty] using hv
    exact hnd.1 (hv ▸ hm)
  | skip empty _ busy => exact absurd busy (h.wf.not_running empty _)
  | @wake t _ _ =>
    unfold Task.wake at hw ⊢
    cases hc : s.state t with
    | running => rw [hc] at hw; exact ⟨hw, h.nodup, h.apart⟩
    | notified => exact h
    | ready => exact h
    | idle =>
      rw [hc] at hw
      refine ⟨hw, single_push h.nodup (hp t rfl hc), fun v hv hm => ?_⟩
      rcases List.mem_append.mp hm with hm | hm
      · exact h.apart v hv hm
      · -- an idle task is not on the stack
        have hp := h.wf.polled v hv
        rw [List.mem_singleton.mp hm, hc] at hp
        simp at hp
  | @ret t fs stack r =>
    have ht : t ∉ s.runq := h.apart t (by simp [stack])
    have hnd := h.wf.nodup
    rw [stack, List.nodup_cons] at hnd
    have ha : ∀ v ∈ fs, v ∉ s.runq := fun v hv => h.apart v (by simp [stack, hv])
    cases r with
    | ready => exact ⟨hw, h.nodup, ha⟩
    | pending =>
      simp only [Task.leave] at hw ⊢
      split at hw
      · rename_i hc
        rw [if_pos hc]
        refine ⟨hw, single_push h.nodup ht, fun v hv hm => ?_⟩
        rcases List.mem_append.mp hm with hm | hm
        · exact ha v hv hm
        · exact hnd.1 (List.mem_singleton.mp hm ▸ hv)
      · rename_i hc
        rw [if_neg hc]
        exact ⟨hw, h.nodup, ha⟩

/-- Stale entries come only from a wake that finds its task idle and already queued. -/
theorem noStaleEntry_of_wakes {es : List Event} (ha : Along next NoWakeOfQueued Tcb.new es) :
    Along next NoStaleEntry Tcb.new es :=
  along_of_invariant (I := Tcb.Single) (fun _ _ _ h hp hn => single_next h hp hn)
    (fun s e u h _ hn t he => by
      subst he
      simp only [next, Option.ite_none_right_eq_some] at hn
      exact h.apart t (List.mem_of_mem_head? hn.1))
    ⟨Tcb.wf_new, List.nodup_nil, by simp [Tcb.new]⟩ ha

end Ironspdk.Runtime
