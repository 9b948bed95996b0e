import Mathlib.Algebra.BigOperators.Group.Finset.Piecewise
import Mathlib.Algebra.Order.BigOperators.Group.Finset
import Ironspdk.Lib.Progress
import Ironspdk.Raid1.FailMask
import Ironspdk.Raid1.FailStop

/-! # Requests of a mirror come to an end

However child I/Os end and in whatever order, a request in progress has only so much ahead
of it: a read retries once for each child, a write awaits each child once. -/
namespace Ironspdk.Raid1
open Ironspdk.Lib Ironspdk.Runtime

variable {B : Type*}

/-- The steps a child I/O has ahead of it. -/
def ChildIo.left : ChildIo → Nat
  | .inFlight => 2
  | .served => 1
  | .ended _ => 0

/-- What the phase has ahead; a retry of a read comes with a new child I/O. -/
def Phase.left (n : Nat) : Phase → Nat
  | .reading left => 4 * left + 1
  | .writing idx _ _ => n - idx
  | .completed _ => 0

def Req.left (n : Nat) (q : Req B) : Nat :=
  q.phase.left n + ∑ c ∈ Finset.range n, (q.ios c).left

def MirrorEvent.Inner (e : MirrorEvent B) : Prop := ∀ k io mem, e ≠ .submit k io mem

section sums
variable {m r a : Nat} {f : Nat → Nat}

theorem sum_update_add (hr : r < m) :
    ∑ i ∈ Finset.range m, Function.update f r a i + f r = ∑ i ∈ Finset.range m, f i + a := by
  have hmem : r ∈ Finset.range m := Finset.mem_range.mpr hr
  rw [Finset.sum_update_of_mem hmem, ← Finset.add_sum_erase _ f hmem, Finset.erase_eq]
  omega

end sums

namespace Req
variable {n c : Nat} {q : Req B}

theorem left_setIo (hc : c < n) (i : ChildIo) (mem : Nat → B) :
    (q.setIo c i mem).left n + (q.ios c).left = q.left n + i.left := by
  have hcomp : ∀ d, (Function.update q.ios c i d).left =
      Function.update (fun d => (q.ios d).left) c i.left d :=
    congrFun (Function.comp_update ChildIo.left q.ios c i)
  have hsum : ∑ d ∈ Finset.range n, (Function.update q.ios c i d).left + (q.ios c).left =
      ∑ d ∈ Finset.range n, (q.ios d).left + i.left := by
    simp only [hcomp]
    exact sum_update_add hc
  simp only [Req.left, Req.setIo]
  omega

/-- Whatever a read does next is less than it had ahead. -/
theorem left_readOn {left : Nat} (hp : q.phase = .reading left) {b : Bool} {ch : Raid1IoChannel}
    (hn : 0 < n) (hch : ch.children = n) :
    (q.readOn (readResume left b ch).2).left n < q.left n := by
  have hdone : ∀ status, (q.readOn (.completed status)).left n < q.left n := by
    intro status
    simp [Req.left, Req.readOn, Phase.left, hp]
  unfold readResume
  split
  · exact hdone .success
  · cases left with
    | zero => exact hdone .failure
    | succ left =>
      have hc : (ch.nextRead + 1) % ch.children < n := hch ▸ Nat.mod_lt _ (hch ▸ hn)
      have hio := left_setIo (q := { q with phase := .reading left }) hc .inFlight q.mem
      have hphase : Req.left n { q with phase := .reading left } + 4 = q.left n := by
        simp only [Req.left, Phase.left, hp]
        omega
      have hnew : (q.readOn (readLoop (left + 1) ch).2).left n =
          (Req.setIo { q with phase := .reading left } ((ch.nextRead + 1) % ch.children) .inFlight
            q.mem).left n := rfl
      rw [hnew]
      simp only [ChildIo.left] at hio
      omega

end Req

namespace Mirror
variable {n : Nat} {s u : Mirror B} {e : MirrorEvent B} {r c : Nat}

/-- What the mirror has ahead without new requests; a panic is the last step. -/
def left (n : Nat) (s : Mirror B) : Nat :=
  (if s.panicked then 0 else 1) + ∑ r ∈ Finset.range s.count, (s.req r).left n

theorem left_setReq (hr : r < s.count) {q : Req B} (hq : q.left n < (s.req r).left n)
    (hrun : s.panicked = false) (hcount : u.count = s.count)
    (hreq : u.req = Function.update s.req r q) : u.left n < s.left n := by
  have hcomp : ∀ t, (Function.update s.req r q t).left n =
      Function.update (fun t => (s.req t).left n) r (q.left n) t :=
    congrFun (Function.comp_update (Req.left n) s.req r q)
  have hsum : ∑ t ∈ Finset.range s.count, (Function.update s.req r q t).left n +
      (s.req r).left n = ∑ t ∈ Finset.range s.count, (s.req t).left n + q.left n := by
    simp only [hcomp]
    exact sum_update_add hr
  simp only [left, hcount, hreq, hrun]
  split <;> simp only [Bool.false_eq_true, if_false] <;> omega

/-- Every step but a submission leaves less ahead. -/
theorem left_next (h : s.Ok n) (hn : 0 < n) (he : e.Inner) (hx : s.next e = some u) :
    u.left n < s.left n := by
  have hrun := running_of_next hx
  have hinside : ∀ {r c : Nat}, (s.req r).ios c ≠ .ended false → c < n := by
    intro r c hne
    by_contra hge
    exact hne ((h.reqs r).outside c (by omega))
  cases next_step hx with
  | submit => exact absurd rfl (he _ _ _)
  | serve hi =>
    rename_i r c
    have hr := h.started (h.live (ChildIo.inFlight_open hi))
    have hc : c < n := hinside (by rw [hi]; exact fun he => by cases he)
    have hless : ∀ mem, ((s.req r).setIo c .served mem).left n < (s.req r).left n := by
      intro mem
      have := Req.left_setIo (q := s.req r) hc .served mem
      simp only [hi, ChildIo.left] at this
      omega
    simp only [serve]
    split
    · exact left_setReq hr (hless _) hrun rfl rfl
    · exact left_setReq hr (hless _) hrun rfl rfl
  | finish hi =>
    rename_i r c
    have hr := h.started (h.live (ChildIo.served_open hi))
    have hc : c < n := hinside (by rw [hi]; exact fun he => by cases he)
    have := Req.left_setIo (q := s.req r) hc (.ended true) (s.req r).mem
    simp only [hi, ChildIo.left] at this
    exact left_setReq hr (by omega) hrun rfl rfl
  | fail hi =>
    rename_i r c junk
    have hr := h.started (h.live (ChildIo.inFlight_open hi))
    have hc : c < n := hinside (by rw [hi]; exact fun he => by cases he)
    have := Req.left_setIo (q := s.req r) hc (.ended false)
      (if (s.req r).io.ioType = .write then (s.req r).mem else junk)
    simp only [hi, ChildIo.left] at this
    exact left_setReq hr (by omega) hrun rfl rfl
  | resumeRead hp hi =>
    have hr := h.started fun status he => by cases hp.symm.trans he
    exact left_setReq hr (Req.left_readOn hp hn (h.chans _)) hrun rfl rfl
  | resumeWrite hp hi hw =>
    rename_i r idx failMask status b p
    have hr := h.started fun status he => by cases hp.symm.trans he
    obtain ⟨_, hidx, _⟩ := (h.reqs r).writing idx status failMask hp
    have hless : p.left n < (s.req r).phase.left n := by
      rw [h.chans, writeResume_eq] at hw
      obtain ⟨w, _, rfl⟩ := Option.map_eq_some_iff.mp hw
      rw [hp]
      unfold writeLoop
      split <;> simp only [Phase.left] <;> omega
    refine left_setReq hr ?_ hrun rfl rfl
    exact Nat.add_lt_add_right hless _
  | panic =>
    simp only [left, hrun]
    simp

/-- A request that has ended stays as it is. -/
theorem ended_stays (h : s.Ok n) (hn : 0 < n) {fs : List (MirrorEvent B)}
    (hrun : Lib.run next s fs = some u) (hr : r < s.count) (hend : (s.req r).phase.Ended) :
    u.req r = s.req r := by
  have hall : u.Ok n ∧ r < u.count ∧ u.req r = s.req r := by
    refine run_always (I := fun t => t.Ok n ∧ r < t.count ∧ t.req r = s.req r) ⟨h, hr, rfl⟩ ?_ hrun
    intro t e v ⟨hok, hlt, hsame⟩ hx
    have hs := next_step hx
    have he := hs.effect hok
    exact ⟨hs.ok hok hn, Nat.lt_of_lt_of_le hlt he.count_le,
      (he.kept hok hlt (hsame ▸ hend)).trans hsame⟩
  exact hall.2.2

/-- **The requests of a mirror are answered.** Any number of requests on any channels, child
I/Os that end in any order with any outcome. Without new requests every schedule comes to an
end; nothing panics with up to 64 children; where nothing can happen any more every request
has been completed and no child I/O is left; and what has been completed once is never
touched again, neither its status nor its buffer. -/
theorem mirror_requests_answered {n : Nat} (hn : 0 < n) {checks : Bool} {disks : Nat → Nat → B}
    {es : List (MirrorEvent B)} (h : Lib.run next (start n checks disks) es = some s) :
    Stops next MirrorEvent.Inner s ∧
      (n ≤ 64 → s.panicked = false) ∧
      (s.AtRest → s.panicked = false → ∀ r, (s.req r).phase.Ended ∧ ∀ c, ((s.req r).ios c).Ended) ∧
      ∀ fs u, Lib.run next s fs = some u → ∀ r < s.count, (s.req r).phase.Ended →
        u.req r = s.req r := by
  have hm := Masked.run hn h
  refine ⟨?_, fun hle => ?_, fun hrest hrun r => ?_, fun fs u hu r => ended_stays hm.ok hn hu⟩
  · exact stops_of_measure (I := fun t => t.Ok n) (f := fun t => t.left n) Nat.lt_wfRel.wf
      (fun t e v ht he hx => ⟨(next_step hx).ok ht hn, left_next ht hn he hx⟩) hm.ok
  · rw [← Bool.not_eq_true]
    intro hp
    obtain ⟨r, _, _, c, hc, hwide⟩ := hm.wide hp
    have := (Req.mem_failed.mp hc).1
    omega
  · obtain ⟨status, hp⟩ := hrest.ended hrun r
    exact ⟨⟨status, hp⟩, (hm.ok.reqs r).ended status hp⟩

theorem mirror_requests_answered_failThenRead :
    ∃ s, run next (start 2 true fun _ _ => 0) failThenRead = some s ∧ s.panicked = false := by
  let s := (run next (start 2 true fun _ _ => 0) failThenRead).get (by decide)
  have hs : run next (start 2 true fun _ _ => 0) failThenRead = some s := (Option.some_get _).symm
  exact ⟨s, hs, (mirror_requests_answered (by decide) hs).2.1 (by decide)⟩

end Mirror

end Ironspdk.Raid1
