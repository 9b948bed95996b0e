import Ironspdk.Runtime.System

/-! # Shutdown and the cache

`Tcb::shutdown` takes a control block out of the registry and leaves the caches of the
reactors alone. A thread that goes on after its shutdown, on a reactor that has it cached,
is given the old control block: a wake then shuts this one down again, and a task spawned
there is never polled. Without such a call every control block is shut down at most once
and `Tcb::current` returns what the registry holds. -/
namespace Ironspdk.Runtime
open Ironspdk.Lib

namespace System

/-- A wake on an exiting thread is not given a control block that has been shut down. -/
def WakesFresh (s : System) : SystemEvent → Prop
  | .wake r _ => ∀ θ ∈ s.active r, s.running θ = false → s.Fresh r θ
  | _ => True

instance (s : System) : (e : SystemEvent) → Decidable (s.WakesFresh e)
  | .wake r _ => inferInstanceAs (Decidable (∀ θ ∈ s.active r, s.running θ = false → s.Fresh r θ))
  | .create _ | .destroy _ | .enter _ _ | .leave _ | .send _ _ | .message _ | .current _
  | .spawnLocal _ | .start _ _ | .pop _ _ | .skip _ _ | .done _ | .ret _ _ _ => isTrue trivial

/-- No call of `Tcb::current` is given a control block that has been shut down. -/
def CallsFresh (s : System) (e : SystemEvent) : Prop := ∀ c ∈ s.calls e, s.Fresh c.1 c.2

instance (s : System) (e : SystemEvent) : Decidable (s.CallsFresh e) :=
  inferInstanceAs (Decidable (∀ c ∈ s.calls e, s.Fresh c.1 c.2))

/-! ## Steps -/

theorem Step.sole {s u : System} {e : SystemEvent} (hs : Step s e u) (hw : s.Wf)
    (h : s.Sole) (hf : s.WakesFresh e) : u.Sole := by
  cases hs with
  | create hc => exact h.create hc
  | destroy hc => exact h.destroy hc
  | enter hc => exact h.enter hc
  | leave hr => exact h.leave _
  | message hr hbox =>
    rename_i r θ m rest
    cases m with
    | spawn => exact h.current r (hw.alive (between_on hr))
    | exit => exact h.exit θ
  | current hr => exact h.current _ (hw.alive (active_on hr))
  | stop hr hp hhome hrun => exact h.shutdown hp hhome
  | wake hr ht =>
    rename_i r θ t
    have ha := hw.alive (active_on hr)
    have hc := h.current r ha
    unfold System.wake
    simp only
    split
    · exact hc
    · rename_i hrun
      have hfresh : s.Fresh r θ := hf θ hr (by
        have : (s.current r θ).running = s.running := (Blocks.current_threads r θ s.toBlocks).2.1
        rw [← this]
        exact Bool.eq_false_iff.mpr hrun)
      exact hc.shutdown (h.agrees ha hfresh).2 (hw.blocks.current_home r ha).2
  | ret hr hhead =>
    unfold leaveTask
    simp only
    split
    · exact h.current _ (hw.alive hr)
    · exact h
  | _ => exact h

/-- The shutdowns so far are never taken back. -/
theorem Step.torn {s u : System} {e : SystemEvent} (hs : Step s e u) :
    ∃ l, u.torn = s.torn ++ l := by
  have same : ∃ l, s.torn = s.torn ++ l := ⟨[], (List.append_nil _).symm⟩
  have hcur : ∀ r θ, (s.current r θ).torn = s.torn := fun r θ =>
    (Blocks.current_threads r θ s.toBlocks).2.2.2.2
  cases hs with
  | create hc =>
    unfold Blocks.create at hc
    split at hc <;> cases hc
    exact same
  | destroy hc =>
    unfold Blocks.destroy at hc
    split at hc <;> cases hc
    exact same
  | enter hc =>
    unfold Blocks.enter at hc
    split at hc <;> cases hc
    exact same
  | leave hr =>
    show ∃ l, (s.toBlocks.leave _).torn = s.torn ++ l
    unfold Blocks.leave
    split <;> exact same
  | message hr hbox =>
    rename_i r θ m rest
    cases m with
    | spawn => exact ⟨[], by rw [List.append_nil]; exact hcur r θ⟩
    | exit => exact same
  | current hr => exact ⟨[], by rw [List.append_nil]; exact hcur _ _⟩
  | stop hr hp hhome hrun => exact ⟨_, rfl⟩
  | wake hr ht =>
    rename_i r θ t
    unfold System.wake
    simp only
    split
    · exact ⟨[], by rw [List.append_nil]; exact hcur r θ⟩
    · exact ⟨_, congrArg (· ++ _) (hcur r θ)⟩
  | ret hr hhead =>
    unfold leaveTask
    simp only
    split
    · exact ⟨[], by rw [List.append_nil]; exact hcur _ _⟩
    · exact same
  | _ => exact same

/-- A wake that is given a control block which has been shut down shuts it down again. -/
theorem wake_again {s : System} {r : ReactorId} {θ : ThreadId} {t : TaskId}
    (hrun : s.running θ = false) (hf : ¬ s.Fresh r θ) :
    ¬ ((s.wake r θ t).torn.map Prod.fst).Nodup := by
  obtain ⟨hid, hm⟩ := Classical.not_imp.mp hf
  have hm := Classical.not_not.mp hm
  have hcur : s.toBlocks.current r θ = ((s.cache r).2, s.toBlocks) := if_pos hid
  have hwake : (s.wake r θ t).torn = s.torn ++ [((s.cache r).2, s.registry (s.key θ))] := by
    unfold System.wake System.current
    simp only [hcur]
    rw [if_neg (by rw [hrun]; exact Bool.false_ne_true)]
    rfl
  rw [hwake, List.map_append]
  exact fun hn => (List.nodup_append.mp hn).2.2 _ hm _ (List.mem_singleton.mpr rfl) rfl

/-! ## Runs -/

/-- Every control block has been shut down at most once, which took its own entry out of the
registry, and no call has found none. -/
def TornOnce (s : System) : Prop :=
  (s.torn.map Prod.fst).Nodup ∧ (∀ x ∈ s.torn, x.2 = some x.1) ∧ ¬ s.Panicked

theorem tornOnce_of_sole {s : System} (h : s.Sole) : s.TornOnce :=
  ⟨h.once, h.own, fun ⟨x, hx, hnone⟩ => by
    rw [h.own x hx] at hnone
    cases hnone⟩

theorem TornOnce.back {s u : System} {l : List (TcbPtr × Option TcbPtr)} (h : u.TornOnce)
    (hl : u.torn = s.torn ++ l) : s.TornOnce := by
  obtain ⟨hn, ho, hp⟩ := h
  have hsub : ∀ x ∈ s.torn, x ∈ u.torn := fun x hx => hl ▸ List.mem_append_left l hx
  refine ⟨?_, fun x hx => ho x (hsub x hx), fun ⟨x, hx, hnone⟩ => hp ⟨x, hsub x hx, hnone⟩⟩
  rw [hl, List.map_append] at hn
  exact (List.nodup_append.mp hn).1

/-- **Teardown, exactly.** In any run of any threads, each control block is shut down at most
once (so its poller is unregistered and its registry entry removed at most once) and no
shutdown fails to find its entry, if and only if no wake on an exiting thread is given a
control block from the cache that has been shut down already. -/
theorem teardown_once_iff {es : List SystemEvent} {s : System} (h : run next start es = some s) :
    s.TornOnce ↔ Along next WakesFresh start es := by
  constructor
  · intro hg
    refine (along_of_last (I := Wf) wf_start (fun _ _ _ ht hn => (next_step hn).wf ht)
      (fun t e u _ hn hu => ?_) h hg).2
    have hs := next_step hn
    obtain ⟨l, hl⟩ := hs.torn
    refine ⟨hu.back hl, ?_⟩
    cases hs with
    | wake hr ht =>
      rename_i r θ k
      intro η hη hrun
      cases hr.symm.trans hη
      by_contra hf
      exact wake_again hrun hf hu.1
    | _ => trivial
  · intro ha
    exact tornOnce_of_sole (run_invariant (I := fun s => s.Wf ∧ s.Sole)
      ⟨wf_start, Blocks.sole_start⟩
      (fun _ _ _ ht hp hn => ⟨(next_step hn).wf ht.1, (next_step hn).sole ht.1 ht.2 hp⟩) h ha).2

/-- One thread on one reactor with a task that waits for an I/O, then exits. -/
def exiting : List SystemEvent :=
  [.create 10, .enter 0 1, .send 1 .spawn, .message 0, .start 0 0, .pop 0 0, .ret 0 0 .pending,
    .done 0, .send 1 .exit, .message 0]

/-- The poller finds the thread exiting. -/
theorem teardown_once_iff_poller :
    ∃ s, run next start (exiting ++ [.start 0 0]) = some s ∧ s.TornOnce := by
  obtain ⟨s, hs⟩ := Option.isSome_iff_exists.mp
    (show (run next start (exiting ++ [.start 0 0])).isSome by decide)
  exact ⟨s, hs, (teardown_once_iff hs).mpr (by decide)⟩

/-- The poller finds the thread exiting, then the I/O ends and wakes its task. -/
theorem torn_down_twice :
    ∃ s, run next start (exiting ++ [.start 0 0, .wake 0 0]) = some s ∧
      s.torn = [(0, some 0), (0, none)] ∧ s.Panicked ∧ ¬ s.TornOnce := by
  have hview : (run next start (exiting ++ [.start 0 0, .wake 0 0])).map (·.torn) =
      some [(0, some 0), (0, none)] := by decide
  obtain ⟨s, hs, ht⟩ := Option.map_eq_some_iff.mp hview
  have hp : s.Panicked := by
    unfold Blocks.Panicked
    rw [ht]
    decide
  exact ⟨s, hs, ht, hp, fun h => h.2.2 hp⟩

/-- All calls of `Tcb::current` that a step makes return what the registry then holds. -/
def CallsAgree (s : System) (e : SystemEvent) : Prop := ∀ c ∈ s.calls e, s.Agrees c.1 c.2

instance (s : System) (e : SystemEvent) : Decidable (s.CallsAgree e) :=
  inferInstanceAs (Decidable (∀ c ∈ s.calls e, s.Agrees c.1 c.2))

theorem calls_on {s : System} {e : SystemEvent} {c : ReactorId × ThreadId} (h : c ∈ s.calls e) :
    s.on c.1 = some c.2 := by
  have hmap : ∀ {o : Option ThreadId} {r : ReactorId}, c ∈ o.map (r, ·) →
      (∀ θ, o = some θ → s.on r = some θ) → s.on c.1 = some c.2 := fun hc ho => by
    obtain ⟨θ, hθ, rfl⟩ := Option.map_eq_some_iff.mp hc
    exact ho θ hθ
  cases e with
  | current r => exact hmap h fun θ => active_on
  | wake r t => exact hmap h fun θ => active_on
  | message r => exact hmap h fun θ hθ => between_on (Option.filter_eq_some_iff.mp hθ).1
  | ret r t result =>
    cases result with
    | ready => cases h
    | pending =>
      simp only [calls, Option.mem_def, Option.ite_none_right_eq_some] at h
      exact hmap h.2 fun θ => id
  | _ => cases h

theorem CallsFresh.wakes {s : System} {e : SystemEvent} (h : s.CallsFresh e) : s.WakesFresh e := by
  cases e with
  | wake r t => exact fun θ hθ _ => h (r, θ) (Option.map_eq_some_iff.mpr ⟨θ, hθ, rfl⟩)
  | _ => trivial

/-- **The cache, exactly.** In any run of any threads, every call of `Tcb::current` returns
the control block that the registry then holds for the current thread, with its poller
registered, if and only if no call is given one from the cache that has been shut down. -/
theorem current_agrees_iff (es : List SystemEvent) :
    Along next CallsAgree start es ↔ Along next CallsFresh start es := by
  constructor
  · exact along_of_invariant (I := fun _ => True) (fun _ _ _ _ _ _ => trivial)
      (fun _ _ _ _ h _ c hc => (h c hc).fresh) trivial
  · refine along_of_invariant (I := fun s => s.Wf ∧ s.Sole)
      (fun _ _ _ ht hp hn => ⟨(next_step hn).wf ht.1, (next_step hn).sole ht.1 ht.2 hp.wakes⟩)
      (fun t e u ht hp _ c hc => ?_) ⟨wf_start, Blocks.sole_start⟩
    exact ht.2.agrees (ht.1.alive (calls_on hc)) (hp c hc)

/-- A message that arrives after the shutdown spawns a task that no poller will find. -/
theorem current_stale :
    ¬ Along next CallsAgree start (exiting ++ [.start 0 0, .send 1 .spawn, .message 0]) ∧
    (run next start (exiting ++ [.start 0 0, .send 1 .spawn, .message 0])).map
      (fun s => (s.registry 10, s.torn, s.runq 0)) = some (none, [(0, some 0)], [1]) := by
  constructor <;> decide

end System

end Ironspdk.Runtime
