import Ironspdk.Runtime.Task

/-! # Child I/O contexts

`IoFuture`, `LbdevIoCtx`, `LbdevIoFuture::poll`, `spdk_rwio_complete_cb` and the part of
`Lbdev::read` / `Lbdev::write` that touches the context. A run makes a sequence of calls
through one context, each future awaited to completion before the next call; the
surroundings choose the return code of every submission and the moment and the status of
every completion callback. `done` is never reset, so a second use finds it set: which
schedules still give every future the status of its own I/O is settled below. -/
namespace Ironspdk.Runtime
open Ironspdk.Lib

/-- `waker` is the task that `poll` was last called from. -/
structure IoFuture where
  done : Bool
  waker : Option TaskId
  deriving DecidableEq, Repr

def IoFuture.new : IoFuture := ⟨false, none⟩

def IoFuture.poll (w : TaskId) (f : IoFuture) : Poll × IoFuture :=
  if f.done then (.ready, f) else (.pending, { f with waker := some w })

/-- The second component is the task that is woken. -/
def IoFuture.complete (f : IoFuture) : IoFuture × Option TaskId :=
  (⟨true, none⟩, f.waker)

structure LbdevIoCtx where
  fut : IoFuture
  success : Bool
  deriving DecidableEq, Repr

def LbdevIoCtx.new : LbdevIoCtx := ⟨.new, false⟩

/-- `LbdevIoFuture::poll`: `some b` is `Poll::Ready(b)`. -/
def LbdevIoCtx.poll (w : TaskId) (c : LbdevIoCtx) : Option Bool × LbdevIoCtx :=
  match c.fut.poll w with
  | (.ready, f) => (some c.success, { c with fut := f })
  | (.pending, f) => (none, { c with fut := f })

theorem LbdevIoCtx.poll_done {w : TaskId} {c : LbdevIoCtx} (h : c.fut.done = true) :
    c.poll w = (some c.success, c) := by
  simp [LbdevIoCtx.poll, IoFuture.poll, h]

theorem LbdevIoCtx.poll_not_done {w : TaskId} {c : LbdevIoCtx} (h : c.fut.done = false) :
    c.poll w = (none, ⟨⟨false, some w⟩, c.success⟩) := by
  simp [LbdevIoCtx.poll, IoFuture.poll, h]

/-- The callback stores the status, then wakes the waiter. -/
def spdkRwioCompleteCb (success : Bool) (c : LbdevIoCtx) : LbdevIoCtx × Option TaskId :=
  let (f, w) := c.fut.complete
  (⟨f, success⟩, w)

/-- The context after a submission that returned `rc`: a failed one completes it at once. -/
def Lbdev.submit (rc : Int) (c : LbdevIoCtx) : LbdevIoCtx :=
  if rc ≠ 0 then ⟨c.fut.complete.1, false⟩ else c

def Lbdev.read (rc : Int) (c : LbdevIoCtx) : LbdevIoCtx := Lbdev.submit rc c

def Lbdev.write (rc : Int) (c : LbdevIoCtx) : LbdevIoCtx := Lbdev.submit rc c

/-! ## Using one context again and again -/

/-- One I/O as the device sees it. -/
inductive IoState
  | inFlight
  | completed (success : Bool)
  | rejected
  deriving DecidableEq, Repr

/-- The status an I/O has ended with. -/
def IoState.status : IoState → Option Bool
  | .inFlight => none
  | .completed b => some b
  | .rejected => some false

/-- A context in use. `live` says that the latest future has not returned `Ready` yet;
`readies` records what each future yielded, with the status its I/O had at that moment. -/
structure Reuse where
  ctx : LbdevIoCtx
  calls : Nat
  io : Nat → IoState
  live : Bool
  readies : List (Bool × Option Bool)

def Reuse.new : Reuse := ⟨.new, 0, fun _ => .inFlight, false, []⟩

/-- The state of the I/O submitted last. -/
def Reuse.current (s : Reuse) : IoState := s.io (s.calls - 1)

inductive CtxEvent
  | read (rc : Int)
  | write (rc : Int)
  | complete (k : Nat) (success : Bool)
  | poll (w : TaskId)
  deriving DecidableEq, Repr

def Reuse.submit (rc : Int) (c : LbdevIoCtx) (s : Reuse) : Option Reuse :=
  if s.live then none
  else some { s with
    ctx := c
    calls := s.calls + 1
    io := Function.update s.io s.calls (if rc ≠ 0 then .rejected else .inFlight)
    live := true }

def Reuse.next (s : Reuse) : CtxEvent → Option Reuse
  | .read rc => s.submit rc (Lbdev.read rc s.ctx)
  | .write rc => s.submit rc (Lbdev.write rc s.ctx)
  | .complete k b =>
    if k < s.calls ∧ s.io k = .inFlight then
      some { s with ctx := (spdkRwioCompleteCb b s.ctx).1
                    io := Function.update s.io k (.completed b) }
    else none
  | .poll w =>
    if s.live then
      match s.ctx.poll w with
      | (some b, c) =>
        some { s with ctx := c, live := false, readies := s.readies ++ [(b, s.current.status)] }
      | (none, c) => some { s with ctx := c }
    else none

/-- Each future yielded the status its own I/O had ended with. -/
def Reuse.Faithful (s : Reuse) : Prop := ∀ r ∈ s.readies, r.2 = some r.1

/-- From the second call on, a future is polled only once its I/O has ended. -/
def PolledWhenEnded (s : Reuse) : CtxEvent → Prop
  | .poll _ => s.calls ≤ 1 ∨ s.current.status ≠ none
  | _ => True

instance (s : Reuse) : (e : CtxEvent) → Decidable (PolledWhenEnded s e)
  | .poll _ => inferInstanceAs (Decidable (s.calls ≤ 1 ∨ s.current.status ≠ none))
  | .read _ | .write _ | .complete _ _ => isTrue trivial

/-! ## One step -/

/-- Both calls do the same to the context. -/
theorem next_submit {s u : Reuse} {rc : Int} (h : s.next (.read rc) = some u ∨
    s.next (.write rc) = some u) : s.live = false ∧ u.live = true ∧
      u.ctx = Lbdev.submit rc s.ctx ∧ u.calls = s.calls + 1 ∧ u.readies = s.readies ∧
      u.io = Function.update s.io s.calls (if rc ≠ 0 then .rejected else .inFlight) := by
  have h : s.submit rc (Lbdev.submit rc s.ctx) = some u := h.elim id id
  unfold Reuse.submit at h
  split at h
  · cases h
  · rename_i hl
    cases h
    exact ⟨by simpa using hl, rfl, rfl, rfl, rfl, rfl⟩

theorem next_complete {s u : Reuse} {k : Nat} {b : Bool} (h : s.next (.complete k b) = some u) :
    k < s.calls ∧ s.io k = .inFlight ∧
      u = { s with ctx := ⟨⟨true, none⟩, b⟩, io := Function.update s.io k (.completed b) } := by
  simp only [Reuse.next, Option.ite_none_right_eq_some, Option.some.injEq] at h
  obtain ⟨⟨hk, hi⟩, rfl⟩ := h
  exact ⟨hk, hi, rfl⟩

/-- A poll yields what the context holds when it is done, and waits otherwise. -/
theorem next_poll {s u : Reuse} {w : TaskId} (h : s.next (.poll w) = some u) :
    s.live = true ∧
      ((s.ctx.fut.done = true ∧ u = { s with live := false, readies :=
          s.readies ++ [(s.ctx.success, s.current.status)] }) ∨
       (s.ctx.fut.done = false ∧
          u = { s with ctx := ⟨⟨false, some w⟩, s.ctx.success⟩ })) := by
  simp only [Reuse.next, Option.ite_none_right_eq_some] at h
  obtain ⟨hl, h⟩ := h
  refine ⟨hl, ?_⟩
  cases hd : s.ctx.fut.done with
  | true =>
    rw [LbdevIoCtx.poll_done hd] at h
    exact Or.inl ⟨rfl, (Option.some.inj h).symm⟩
  | false =>
    rw [LbdevIoCtx.poll_not_done hd] at h
    exact Or.inr ⟨rfl, (Option.some.inj h).symm⟩

/-! ## What the context is worth -/

/-- On every schedule: the context is done once a future has returned. -/
structure Reuse.Used (s : Reuse) : Prop where
  started : s.live = true → 0 < s.calls
  idle : s.live = false → 0 < s.calls → s.ctx.fut.done = true
  again : 1 < s.calls → s.ctx.fut.done = true

theorem submit_done (rc : Int) (c : LbdevIoCtx) (h : c.fut.done = true) :
    (Lbdev.submit rc c).fut.done = true := by
  unfold Lbdev.submit
  split
  · rfl
  · exact h

theorem used_next {s u : Reuse} {e : CtxEvent} (h : s.Used) (hn : s.next e = some u) : u.Used := by
  have call : ∀ rc, s.next (.read rc) = some u ∨ s.next (.write rc) = some u → u.Used := by
    intro rc hn
    obtain ⟨hl, hl', hc, hk, _, _⟩ := next_submit hn
    refine ⟨fun _ => by omega, by simp [hl'], fun hlt => ?_⟩
    rw [hc]
    exact submit_done rc _ (h.idle hl (by omega))
  cases e with
  | read rc => exact call rc (Or.inl hn)
  | write rc => exact call rc (Or.inr hn)
  | complete k b =>
    obtain ⟨_, _, rfl⟩ := next_complete hn
    exact ⟨h.started, fun _ _ => rfl, fun _ => rfl⟩
  | poll w =>
    obtain ⟨hl, ⟨hd, rfl⟩ | ⟨hd, rfl⟩⟩ := next_poll hn
    · exact ⟨by simp, fun _ _ => hd, fun _ => hd⟩
    · exact ⟨h.started, fun hf => by simp [hl] at hf, fun hc => hd.symm.trans (h.again hc)⟩

/-- On the schedules that poll late enough: earlier I/Os have ended, the context shows
how the latest one ended, and it is not done before the first one has. -/
structure Reuse.Current (s : Reuse) : Prop where
  used : s.Used
  ended : ∀ k, k < s.calls → k + 1 < s.calls ∨ s.live = false → (s.io k).status ≠ none
  shows : ∀ b, 0 < s.calls → s.current.status = some b →
    s.ctx.fut.done = true ∧ s.ctx.success = b
  fresh : s.calls = 0 ∨ (s.calls = 1 ∧ s.current.status = none) → s.ctx.fut.done = false
  faithful : s.Faithful

theorem current_new : Reuse.new.Current := by
  refine ⟨⟨?_, ?_, ?_⟩, ?_, ?_, ?_, ?_⟩ <;>
    simp [Reuse.new, LbdevIoCtx.new, IoFuture.new, Reuse.Faithful]

theorem Reuse.Current.call {s u : Reuse} {rc : Int} (h : s.Current)
    (hn : s.next (.read rc) = some u ∨ s.next (.write rc) = some u) (hu : u.Used) :
    u.Current := by
  obtain ⟨hl, hl', hc, hk, hr, hio⟩ := next_submit hn
  have hcur : u.current = if rc ≠ 0 then .rejected else .inFlight := by
    simp [Reuse.current, hk, hio]
  refine ⟨hu, ?_, ?_, ?_, by rw [Reuse.Faithful, hr]; exact h.faithful⟩
  · intro k hlt hor
    have hlt : k < s.calls := by simp [hl'] at hor; omega
    rw [hio, Function.update_of_ne (Nat.ne_of_lt hlt)]
    exact h.ended k hlt (Or.inr hl)
  · intro b _ hb
    rw [hcur] at hb
    split at hb
    · rename_i hrc
      simp only [IoState.status, Option.some.injEq] at hb
      rw [hc, Lbdev.submit, if_pos hrc, ← hb]
      exact ⟨rfl, rfl⟩
    · cases hb
  · rintro (h0 | ⟨h1, hs⟩)
    · omega
    · rw [hcur] at hs
      split at hs
      · cases hs
      · rename_i hrc
        rw [hc, Lbdev.submit, if_neg hrc]
        exact h.fresh (Or.inl (by omega))

theorem current_next {s u : Reuse} {e : CtxEvent} (h : s.Current) (hp : PolledWhenEnded s e)
    (hn : s.next e = some u) : u.Current := by
  have hu := used_next h.used hn
  cases e with
  | read rc => exact h.call (Or.inl hn) hu
  | write rc => exact h.call (Or.inr hn) hu
  | complete k b =>
    obtain ⟨hk, hi, rfl⟩ := next_complete hn
    -- only the latest I/O can still be in flight
    have hlast : k = s.calls - 1 := by
      by_contra hne
      exact h.ended k hk (Or.inl (by omega)) (by rw [hi]; rfl)
    have hcur : (Function.update s.io k (.completed b)) (s.calls - 1) = .completed b := by
      rw [hlast]; exact Function.update_self ..
    refine ⟨hu, ?_, ?_, ?_, h.faithful⟩
    · intro j hj hor
      by_cases he : j = k
      · rw [he]; simp [IoState.status]
      · simpa [Function.update_of_ne he] using h.ended j hj hor
    · intro c _ hc
      simp only [Reuse.current, hcur, IoState.status, Option.some.injEq] at hc
      exact ⟨rfl, hc⟩
    · rintro (h0 | ⟨_, hs⟩)
      · have h0 : s.calls = 0 := h0
        omega
      · simp only [Reuse.current, hcur, IoState.status] at hs
        cases hs
  | poll w =>
    obtain ⟨hl, ⟨hd, rfl⟩ | ⟨hd, rfl⟩⟩ := next_poll hn
    · have h0 := h.used.started hl
      obtain ⟨b, hb⟩ : ∃ b, s.current.status = some b := by
        cases hs : s.current.status with
        | some b => exact ⟨b, rfl⟩
        | none =>
          have h1 : s.calls = 1 := by
            rcases hp with hp | hp
            · omega
            · exact absurd hs hp
          rw [h.fresh (Or.inr ⟨h1, hs⟩)] at hd
          cases hd
      refine ⟨hu, ?_, h.shows, h.fresh, ?_⟩
      · intro k hk _
        by_cases hlt : k + 1 < s.calls
        · exact h.ended k hk (Or.inl hlt)
        · have hk : k = s.calls - 1 := by have : k < s.calls := hk; omega
          rw [hk]
          change s.current.status ≠ none
          simp [hb]
      · intro r hr
        rcases List.mem_append.mp hr with hr | hr
        · exact h.faithful r hr
        · rw [List.mem_singleton.mp hr]
          simp [hb, (h.shows b h0 hb).2]
    · refine ⟨hu, h.ended, ?_, fun _ => rfl, h.faithful⟩
      intro b h0 hb
      have := (h.shows b h0 hb).1
      rw [hd] at this
      cases this

/-- Records are never taken back. -/
theorem faithful_back {s u : Reuse} {e : CtxEvent} (h : u.Faithful) (hn : s.next e = some u) :
    s.Faithful := by
  have hsub : ∀ r ∈ s.readies, r ∈ u.readies := by
    cases e with
    | read rc => rw [(next_submit (Or.inl hn)).2.2.2.2.1]; exact fun _ hr => hr
    | write rc => rw [(next_submit (Or.inr hn)).2.2.2.2.1]; exact fun _ hr => hr
    | complete k b => obtain ⟨_, _, rfl⟩ := next_complete hn; exact fun _ hr => hr
    | poll w =>
      obtain ⟨_, ⟨_, rfl⟩ | ⟨_, rfl⟩⟩ := next_poll hn
      · exact fun _ hr => List.mem_append_left _ hr
      · exact fun _ hr => hr
  exact fun r hr => h r (hsub r hr)

/-- A second future polled too early returns at once, whatever its I/O does. -/
theorem early_poll_unfaithful {s u : Reuse} {w : TaskId} (h : s.Used)
    (hp : ¬ PolledWhenEnded s (.poll w)) (hn : s.next (.poll w) = some u) : ¬ u.Faithful := by
  simp only [PolledWhenEnded, ne_eq, not_or, Nat.not_le, not_not] at hp
  obtain ⟨_, ⟨_, rfl⟩ | ⟨hd, _⟩⟩ := next_poll hn
  · intro hf
    have := hf (s.ctx.success, s.current.status) (by simp)
    rw [hp.2] at this
    cases this
  · rw [h.again hp.1] at hd
    cases hd

/-- **What a reused context guarantees, exactly.** In any run of calls through one
context, callbacks and polls, each future becomes `Ready` only after its own I/O has
ended and yields its status, if and only if from the second call on no future is polled
before its I/O has ended. -/
theorem ctx_reuse_iff {es : List CtxEvent} {s : Reuse} (h : run Reuse.next Reuse.new es = some s) :
    s.Faithful ↔ Along Reuse.next PolledWhenEnded Reuse.new es := by
  constructor
  · intro hf
    refine (along_of_last current_new.used (fun _ _ _ h hn => used_next h hn)
      (fun t e u hused hn hf => ⟨faithful_back hf hn, ?_⟩) h hf).2
    cases e with
    | poll w =>
      by_contra hp
      exact early_poll_unfaithful hused hp hn hf
    | read rc => trivial
    | write rc => trivial
    | complete k b => trivial
  · exact fun ha => (run_invariant current_new (fun _ _ _ h hp hn => current_next h hp hn) h
      ha).faithful

def latePoll : List CtxEvent :=
  [.read 0, .poll 0, .complete 0 true, .poll 0, .write 0, .complete 1 false, .poll 0]

/-- Two calls, the second one polled after its callback. -/
theorem ctx_reuse_iff_late_poll :
    Along Reuse.next PolledWhenEnded Reuse.new latePoll ∧
      ∀ s, run Reuse.next Reuse.new latePoll = some s → s.Faithful :=
  have ha : Along Reuse.next PolledWhenEnded Reuse.new latePoll := by decide
  ⟨ha, fun _ hs => (ctx_reuse_iff hs).mpr ha⟩

/-- The second future of a reused context reports the first I/O's success while its own
I/O is still in flight. -/
theorem ctx_reuse_stale : ∃ es s, run Reuse.next Reuse.new es = some s ∧ ¬ s.Faithful ∧
    s.readies = [(true, some true), (true, none)] := by
  refine ⟨[.read 0, .complete 0 true, .poll 0, .write 0, .poll 0],
    (run Reuse.next Reuse.new _).get (by decide), (Option.some_get _).symm, ?_, by decide⟩
  unfold Reuse.Faithful
  decide

end Ironspdk.Runtime
