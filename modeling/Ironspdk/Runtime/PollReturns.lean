import Mathlib.Data.Set.Finite.Basic
import Ironspdk.Lib.Progress
import Ironspdk.Runtime.Task

/-! # When the poller returns

`Tcb::poll` takes tasks off the run queue until it is empty, also those that the tasks it polls
put back. A call is followed here through all of its steps, of which there may be infinitely
many. Each wake puts a task back at most once, so that the call comes to its end when the wakes
do; a future that wakes itself and returns `Pending` over and over keeps it from that. -/
namespace Ironspdk.Runtime
open Ironspdk.Lib

def Event.Spawns (e : Event) : Prop := (∃ t, e = .spawn t) ∨ ∃ t, e = .spawnLocal t

def Event.Wakes (e : Event) : Prop := ∃ t, e = .wake t

/-- A call of `Tcb::poll`, and whatever the thread does after it. The polls of the futures
return, and those made by this call spawn finitely many tasks. -/
structure PollCall (s : Nat → Tcb) (e : Nat → Event) : Prop where
  reached : ∃ es, run next Tcb.new es = some (s 0)
  start : e 0 = .start
  step : ∀ n, next (s n) (e n) = some (s (n + 1))
  returns : ∀ n t, t ∈ (s n).frames → ∃ m, n ≤ m ∧ ∃ r, e m = .ret t r
  spawns : {n | (e n).Spawns ∧ ∀ m < n, e m ≠ .done}.Finite

/-! ## Without wakes and spawns the loop drains the queue -/

/-- The steps of the loop that take something off the queue or the stack. -/
def Event.Drains (e : Event) : Prop := ¬ e.Spawns ∧ ¬ e.Wakes ∧ e ≠ .start ∧ e ≠ .done

/-- What is left to do: an entry of the queue will be polled, and a poll of a task that has
been woken meanwhile will queue it once more. -/
def Tcb.load (s : Tcb) : Nat :=
  2 * s.runq.length + (s.frames.map fun t => if s.state t = .notified then 4 else 1).sum

/-- The cell of a task off the stack does not count. -/
theorem load_update {s : Tcb} {fs : List TaskId} {t : TaskId} (c : TaskState) (ht : t ∉ fs) :
    (fs.map fun u => if Function.update s.state t c u = .notified then 4 else 1) =
      fs.map fun u => if s.state u = .notified then 4 else 1 := by
  refine List.map_congr_left fun u hu => ?_
  have hne : u ≠ t := fun he => ht (he ▸ hu)
  rw [Function.update_of_ne hne]

theorem load_next {s u : Tcb} {e : Event} (h : s.Wf) (he : e.Drains) (hn : next s e = some u) :
    u.load < s.load := by
  obtain ⟨hspawn, hwake, hstart, hdone⟩ := he
  cases next_step hn with
  | spawn _ => exact absurd (Or.inl ⟨_, rfl⟩) hspawn
  | spawnLocal _ => exact absurd (Or.inr ⟨_, rfl⟩) hspawn
  | start _ _ => exact absurd rfl hstart
  | done _ _ => exact absurd rfl hdone
  | wake _ _ => exact absurd ⟨_, rfl⟩ hwake
  | @pop t q empty queue _ =>
    simp [Tcb.load, Task.enter, empty, queue]
    omega
  | @skip t q empty queue _ =>
    simp [Tcb.load, empty, queue]
  | @ret t fs stack r =>
    have hnodup := h.nodup
    rw [stack, List.nodup_cons] at hnodup
    cases r with
    | ready =>
      simp only [Task.leave]
      simp only [Tcb.load, stack, List.map_cons, List.sum_cons, load_update _ hnodup.1]
      split <;> omega
    | pending =>
      simp only [Task.leave]
      split
      · rename_i hnotified
        simp only [Tcb.load, stack, List.map_cons, List.sum_cons, load_update _ hnodup.1,
          if_pos hnotified, List.length_append, List.length_singleton]
        omega
      · rename_i hother
        simp only [Tcb.load, stack, List.map_cons, List.sum_cons, load_update _ hnodup.1,
          if_neg hother]
        omega

theorem drain_stops {s : Tcb} (h : s.Wf) : Stops next Event.Drains s := by
  have lower : ∀ (s : Tcb) (e : Event) (u : Tcb), s.Wf → e.Drains → next s e = some u →
      u.Wf ∧ u.load < s.load := fun _ _ _ hs he hn => ⟨next_wf hs hn, load_next hs he hn⟩
  exact stops_of_measure Nat.lt_wfRel.wf lower h

/-! ## A call -/

theorem polling_next {s u : Tcb} {e : Event} (h : s.polling = true) (he : e ≠ .done)
    (hn : next s e = some u) : u.polling = true ∧ e ≠ .start := by
  cases next_step hn with
  | spawn _ | spawnLocal _ | pop _ _ _ | skip _ _ _ => exact ⟨h, by simp⟩
  | start _ idle =>
    rw [h] at idle
    cases idle
  | done _ _ => exact absurd rfl he
  | wake _ _ =>
    refine ⟨?_, by simp⟩
    unfold Task.wake
    split <;> exact h
  | ret _ r =>
    refine ⟨?_, by simp⟩
    unfold Task.leave
    split
    · exact h
    · split <;> exact h

namespace PollCall
variable {s : Nat → Tcb} {e : Nat → Event}

theorem wf (h : PollCall s e) (n : Nat) : (s n).Wf := by
  induction n with
  | zero =>
    obtain ⟨es, hrun⟩ := h.reached
    exact run_wf hrun
  | succ n ih => exact next_wf ih (h.step n)

/-- Until it has returned the call is in its loop. -/
theorem polling (h : PollCall s e) {n : Nat} (hn : ∀ m ≤ n, e m ≠ .done) :
    (s (n + 1)).polling = true := by
  induction n with
  | zero =>
    have hstep := h.step 0
    rw [h.start] at hstep
    generalize s (0 + 1) = u at hstep ⊢
    cases next_step hstep with
    | start _ _ => rfl
  | succ n ih =>
    exact (polling_next (ih fun m hm => hn m (Nat.le_succ_of_le hm)) (hn _ (Nat.le_refl _))
      (h.step (n + 1))).1

theorem run_from (h : PollCall s e) (n m : Nat) :
    run next (s n) ((List.range m).map fun i => e (n + i)) = some (s (n + m)) := by
  induction m with
  | zero => rfl
  | succ m ih =>
    rw [List.range_succ, List.map_append, run_append, ih]
    simp [run_cons, h.step, Nat.add_assoc]

/-- While it goes on the loop has a step of its own to take. -/
theorem goes_on (h : PollCall s e) {n : Nat} (hn : ∀ m ≤ n, e m ≠ .done) :
    (∃ t u, next (s (n + 1)) (.pop t) = some u) ∨ (∃ u, next (s (n + 1)) .done = some u) ∨
      ∃ t, ∀ r, ∃ u, next (s (n + 1)) (.ret t r) = some u := by
  have hpolling := h.polling hn
  have hwf := h.wf (n + 1)
  generalize s (n + 1) = u at hpolling hwf
  cases hframes : u.frames with
  | nil =>
    cases hqueue : u.runq with
    | nil => exact Or.inr (Or.inl ⟨_, by simp [next, hframes, hqueue, hpolling]; rfl⟩)
    | cons t q =>
      have hfree := hwf.not_running hframes t
      exact Or.inl ⟨t, _, by simp [next, hframes, hqueue, hpolling, hfree]; rfl⟩
  | cons t fs => exact Or.inr (Or.inr ⟨t, fun r => ⟨_, by simp [next, hframes]; rfl⟩⟩)

end PollCall

/-- **When `Tcb::poll` returns.** For every run queue and every behaviour of the futures, as
long as each poll of a future returns and finitely many tasks are spawned: the call returns if
and only if there are finitely many wakes while it lasts. -/
theorem poll_returns_iff {s : Nat → Tcb} {e : Nat → Event} (h : PollCall s e) :
    (∃ n, e n = .done) ↔ {n | (e n).Wakes ∧ ∀ m < n, e m ≠ .done}.Finite := by
  constructor
  · rintro ⟨n, hn⟩
    refine (Set.finite_le_nat n).subset fun k hk => ?_
    exact Nat.le_of_not_lt fun hlt => hk.2 n hlt hn
  · intro hwakes
    by_contra hgoes
    have hnever : ∀ n, e n ≠ .done := fun n hn => hgoes ⟨n, hn⟩
    obtain ⟨w, hw⟩ := hwakes.bddAbove
    obtain ⟨p, hp⟩ := h.spawns.bddAbove
    -- from here on the loop only drains what it has
    have hdrains : ∀ i, (e (w + p + 1 + i)).Drains := by
      intro i
      refine ⟨fun hspawn => ?_, fun hwake => ?_, ?_, hnever _⟩
      · have := hp ⟨hspawn, fun m _ => hnever m⟩
        omega
      · have := hw ⟨hwake, fun m _ => hnever m⟩
        omega
      · have hpolling := h.polling (n := w + p + i) fun m _ => hnever m
        rw [Nat.add_right_comm] at hpolling
        exact (polling_next hpolling (hnever _) (h.step _)).2
    obtain ⟨m, hm⟩ := drain_stops (h.wf (w + p + 1)) _ hdrains
    rw [h.run_from] at hm
    cases hm

/-! ## A future that yields for ever -/

/-- The thread with task 0, which is polled, wakes itself and returns `Pending`. -/
def spinner (c : TaskState) (runq frames : List TaskId) : Tcb :=
  ⟨runq, Function.update (fun _ => .idle) 0 c, 1, frames, true⟩

def spinStates : Nat → Tcb
  | 0 => { spinner .idle [0] [] with polling := false }
  | n + 1 =>
    match n % 3 with
    | 0 => spinner .idle [0] []
    | 1 => spinner .running [] [0]
    | _ => spinner .notified [] [0]

def spinEvents : Nat → Event
  | 0 => .start
  | n + 1 =>
    match n % 3 with
    | 0 => .pop 0
    | 1 => .wake 0
    | _ => .ret 0 .pending

theorem spin_step (n : Nat) : next (spinStates n) (spinEvents n) = some (spinStates (n + 1)) := by
  cases n with
  | zero => rfl
  | succ n =>
    have hmod : n % 3 = 0 ∨ n % 3 = 1 ∨ n % 3 = 2 := by omega
    rcases hmod with h | h | h
    · have hnext : (n + 1) % 3 = 1 := by omega
      simp [spinStates, spinEvents, h, hnext, next, spinner, Task.enter]
    · have hnext : (n + 1) % 3 = 2 := by omega
      simp [spinStates, spinEvents, h, hnext, next, spinner, Task.wake, Tcb.active]
    · have hnext : (n + 1) % 3 = 0 := by omega
      simp [spinStates, spinEvents, h, hnext, next, spinner, Task.leave]

theorem spin_call : PollCall spinStates spinEvents := by
  refine ⟨⟨[.spawn 0], ?_⟩, rfl, spin_step, fun n t ht => ?_, ?_⟩
  · simp [run_cons, next, Tcb.active, Tcb.new, Tcb.spawn, Tcb.newTask, spinStates, spinner]
  · -- the poll of round `n / 3` returns at the end of the round
    have hzero : t = 0 := by
      cases n with
      | zero => simp [spinStates, spinner] at ht
      | succ n =>
        simp only [spinStates] at ht
        split at ht
        · simp [spinner] at ht
        · simpa [spinner] using ht
        · simpa [spinner] using ht
    have hround : (3 * n + 2) % 3 = 2 := by omega
    exact ⟨3 * n + 2 + 1, by omega, .pending, by simp [spinEvents, hround, hzero]⟩
  · refine Set.finite_empty.subset fun n hn => ?_
    obtain ⟨⟨t, ht⟩ | ⟨t, ht⟩, _⟩ := hn
    all_goals
      cases n with
      | zero => cases ht
      | succ n =>
        simp only [spinEvents] at ht
        split at ht <;> cases ht

theorem spin_not_done (n : Nat) : spinEvents n ≠ .done := by
  intro hn
  cases n with
  | zero => cases hn
  | succ n =>
    simp only [spinEvents] at hn
    split at hn <;> cases hn

/-- Its poller does not return. -/
theorem poll_never_returns : ¬ ∀ (s : Nat → Tcb) (e : Nat → Event), PollCall s e →
    ∃ n, e n = .done := by
  intro h
  obtain ⟨n, hn⟩ := h spinStates spinEvents spin_call
  exact spin_not_done n hn

/-- It wakes itself infinitely often. -/
theorem poll_returns_iff_spinner :
    ¬ {n | (spinEvents n).Wakes ∧ ∀ m < n, spinEvents m ≠ .done}.Finite := by
  intro hwakes
  obtain ⟨n, hn⟩ := (poll_returns_iff spin_call).mpr hwakes
  exact spin_not_done n hn

end Ironspdk.Runtime
