import Mathlib.Data.Int.CardIntervalMod
import Ironspdk.Raid1.FailMask
import Ironspdk.Raid1.FailStop

/-! # The children of a mirror take turns

Reads in progress on one channel share its cursor, and every child read moves it on: those
of first attempts and those of retries, whichever request they are for. -/
namespace Ironspdk.Raid1
open Ironspdk.Lib Ironspdk.Runtime

variable {B : Type*}

/-- The child read a request waits for, with its channel. -/
def Req.awaits (q : Req B) : Option (Nat × Nat) :=
  match q.phase with
  | .reading _ => some (q.ch, q.next)
  | _ => none

theorem Req.awaits_readOn_awaiting (q : Req B) (left c : Nat) (a : Option Bool) :
    (q.readOn (.awaiting left c a)).awaits = some (q.ch, c) := rfl

namespace Mirror

/-- The child read that a step has issued: the request that ran waits for it. -/
def issued (u : Mirror B) : MirrorEvent B → Option (Nat × Nat)
  | .submit _ _ _ => (u.req (u.count - 1)).awaits
  | .resume r => (u.req r).awaits
  | _ => none

/-- The children of the reads issued on channel `k`, in the order of a run. -/
def childReads (k : Nat) : Mirror B → List (MirrorEvent B) → List Nat
  | _, [] => []
  | s, e :: es =>
    match s.next e with
    | none => []
    | some u => ((u.issued e).toList.filter (·.1 = k)).map Prod.snd ++ childReads k u es

variable {n k : Nat} {s u : Mirror B} {e : MirrorEvent B}

/-- A step issues no read on channel `k`, or one to the child after the last. -/
def TakesTurn (n k : Nat) (s u : Mirror B) (e : MirrorEvent B) : Prop :=
  let turn := ((s.chans k).nextRead + 1) % n
  let reads := ((u.issued e).toList.filter (·.1 = k)).map Prod.snd
  reads = [] ∧ (u.chans k).nextRead = (s.chans k).nextRead ∨
    reads = [turn] ∧ (u.chans k).nextRead = turn

theorem takesTurn_of_quiet (hi : u.issued e = none) (hc : u.chans = s.chans) :
    TakesTurn n k s u e := by
  left
  simp [hi, hc]

/-- The loop of a read on channel `j` goes on and stops at an await, or at its end. -/
theorem takesTurn_of_loop {j left : Nat} (hchans : ∀ k, (s.chans k).children = n)
    {ch : Raid1IoChannel} {p : ReadPhase} (hloop : readLoop left (s.chans j) = (ch, p))
    (hc : u.chans = Function.update s.chans j ch)
    {q : Req B} (hq : q.ch = j) (hi : u.issued e = (q.readOn p).awaits) :
    TakesTurn n k s u e := by
  cases left with
  | zero =>
    cases hloop
    refine takesTurn_of_quiet hi ?_
    rw [hc, Function.update_eq_self]
  | succ left =>
    cases hloop
    rw [Req.awaits_readOn_awaiting, hq] at hi
    by_cases hk : j = k
    · subst hk
      right
      simp [hi, hc, hchans]
    · left
      simp [hi, hc, hk, Function.update_of_ne (Ne.symm hk)]

theorem takesTurn_next (h : s.Ok n) (hx : s.next e = some u) : TakesTurn n k s u e := by
  cases next_step hx with
  | submit =>
    rename_i j io mem
    unfold submitIo
    split
    · refine takesTurn_of_loop (q := newReq j io mem) h.chans rfl rfl rfl ?_
      exact congrArg Req.awaits (Function.update_self ..)
    · refine takesTurn_of_quiet ?_ rfl
      simp only [issued, setReq, Nat.add_sub_cancel, Function.update_self, Req.awaits, writeLoop]
      split
      · rename_i hp
        split at hp <;> cases hp
      · rfl
    · refine takesTurn_of_quiet ?_ rfl
      simp [issued, setReq, Req.awaits, newReq, noReq]
  | serve hi =>
    refine takesTurn_of_quiet rfl ?_
    simp only [serve]
    split <;> rfl
  | finish hi => exact takesTurn_of_quiet rfl rfl
  | fail hi => exact takesTurn_of_quiet rfl rfl
  | resumeRead hp hi =>
    rename_i r left b
    cases b with
    | true =>
      refine takesTurn_of_quiet ?_ ?_
      · simp [issued, resumeRead, readResume, setReq, Req.awaits, Req.readOn]
      · simp [resumeRead, readResume, setReq, setChan]
    | false =>
      refine takesTurn_of_loop (q := s.req r) h.chans rfl rfl rfl ?_
      exact congrArg Req.awaits (Function.update_self ..)
  | resumeWrite hp hi hw =>
    rename_i r idx failMask status b p
    refine takesTurn_of_quiet ?_ rfl
    have hp : ∀ left, p ≠ .reading left := by
      rintro left rfl
      unfold writeResume writeLoop at hw
      split at hw
      · split at hw <;> cases hw
      · split at hw
        · cases hw
        · split at hw <;> cases hw
    simp only [issued, setReq, Function.update_self, Req.awaits]
  | panic =>
    rename_i r
    refine takesTurn_of_quiet ?_ rfl
    show (s.req r).awaits = none
    unfold Req.awaits
    split
    · -- a read does not panic
      rename_i left hp
      have hrun := running_of_next hx
      cases hi : (s.req r).ios (s.req r).next with
      | ended b =>
        have hflag := congrArg (Option.map panicked) hx
        simp [next, step, hp, hi, resumeRead, setReq, setChan, hrun] at hflag
      | inFlight => simp [next, step, hp, hi] at hx
      | served => simp [next, step, hp, hi] at hx
    · rfl

/-- Going round from `a`, one child after another. -/
def turns (n a m : Nat) : List Nat := (List.range m).map fun i => (a + i + 1) % n

theorem turns_succ (n a m : Nat) :
    turns n a (m + 1) = (a + 1) % n :: turns n ((a + 1) % n) m := by
  unfold turns
  rw [List.range_succ_eq_map, List.map_cons, List.map_map]
  refine congrArg₂ _ rfl (List.map_congr_left fun i _ => ?_)
  show (a + (i + 1) + 1) % n = ((a + 1) % n + i + 1) % n
  rw [Nat.add_assoc ((a + 1) % n), Nat.mod_add_mod]
  congr 1
  omega

/-- Each child has its share of the turns, one more at most. -/
theorem count_turns {c : Nat} (hc : c < n) (m : Nat) :
    m / n ≤ (turns n 0 m).count c ∧ (turns n 0 m).count c ≤ m / n + 1 := by
  have hn : 0 < n := Nat.zero_lt_of_lt hc
  have hcount : (turns n 0 m).count c = m.count (· ≡ c + (n - 1) [MOD n]) := by
    rw [turns, List.count_eq_countP, List.countP_map, Nat.count]
    refine List.countP_congr fun i _ => ?_
    have hiff : (0 + i + 1) % n = c ↔ i ≡ c + (n - 1) [MOD n] := by
      rw [Nat.zero_add]
      constructor
      · rintro rfl
        have : (i + 1) % n + (n - 1) ≡ i + 1 + (n - 1) [MOD n] :=
          (Nat.mod_modEq (i + 1) n).add_right _
        refine Nat.ModEq.symm (this.trans ?_)
        rw [Nat.add_assoc, Nat.add_sub_cancel' hn]
        exact Nat.add_modEq_right
      · intro h
        have h1 : i + 1 ≡ c + (n - 1) + 1 [MOD n] := h.add_right 1
        rw [Nat.add_assoc, Nat.sub_add_cancel hn] at h1
        have h2 : i + 1 ≡ c [MOD n] := h1.trans Nat.add_modEq_right
        exact Eq.trans h2 (Nat.mod_eq_of_lt hc)
    simpa using hiff
  rw [hcount, Nat.count_modEq_card m hn]
  split <;> omega

theorem childReads_turns (h : s.Ok n) (hn : 0 < n) {es : List (MirrorEvent B)}
    (hrun : run next s es = some u) :
    ∃ m, childReads k s es = turns n (s.chans k).nextRead m := by
  induction es generalizing s with
  | nil => exact ⟨0, rfl⟩
  | cons e es ih =>
    obtain ⟨t, ht, hrun⟩ := Option.bind_eq_some_iff.mp hrun
    obtain ⟨m, hm⟩ := ih ((next_step ht).ok h hn) hrun
    have hreads : childReads k s (e :: es) =
        ((t.issued e).toList.filter (·.1 = k)).map Prod.snd ++ childReads k t es := by
      rw [childReads, ht]
    rw [hreads, hm]
    rcases takesTurn_next (k := k) h ht with ⟨hnone, hcur⟩ | ⟨hone, hcur⟩
    · exact ⟨m, by rw [hnone, hcur]; rfl⟩
    · exact ⟨m + 1, by rw [hone, hcur, turns_succ]; rfl⟩

/-- **The children of a mirror take turns.** In every run, with any number of reads in progress
on any channels, with any retries, the child reads issued on one channel go round the children
one after another: no child is read from more than once more than another. -/
theorem reads_take_turns {n : Nat} (hn : 0 < n) {checks : Bool} {disks : Nat → Nat → B}
    {es : List (MirrorEvent B)} (h : run next (start n checks disks) es = some s) (k : Nat) :
    ∃ m, childReads k (start n checks disks) es = turns n 0 m ∧
      ∀ c < n, m / n ≤ (childReads k (start n checks disks) es).count c ∧
        (childReads k (start n checks disks) es).count c ≤ m / n + 1 := by
  obtain ⟨m, hm⟩ := childReads_turns (k := k) (ok_start n checks disks) hn h
  refine ⟨m, hm, fun c hc => ?_⟩
  rw [hm]
  exact count_turns hc m

theorem reads_take_turns_failThenRead :
    ∃ m, childReads 0 (start 2 true fun _ _ => 0) failThenRead = turns 2 0 m := by
  let s := (run next (start 2 true fun _ _ => 0) failThenRead).get (by decide)
  have hs : run next (start 2 true fun _ _ => 0) failThenRead = some s := (Option.some_get _).symm
  obtain ⟨m, hm, _⟩ := reads_take_turns (by decide) hs 0
  exact ⟨m, hm⟩

end Mirror

end Ironspdk.Raid1
