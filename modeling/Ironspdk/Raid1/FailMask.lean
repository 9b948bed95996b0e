import Ironspdk.Raid1.Converge

/-! # The failure mask of a RAID1 write

`write` sets bit `idx` of a 64-bit mask for every child that fails it, and takes the mask
being zero for the answer whether any child did. A child from the 65th on has no bit of its
own: its shift panics in a build with overflow checks and sets the bit of another child in
others, where the mask is still zero only if no child has failed. -/
namespace Ironspdk.Raid1
open Ironspdk.Lib Ironspdk.Runtime

variable {B : Type*}

/-- The variables of `write` after some of its awaits. -/
structure Awaited where
  status : IoStatus := .failure
  failMask : Nat := 0
  deriving DecidableEq, Repr

/-- The body of the await loop of `write`. -/
def Awaited.child (overflowChecks : Bool) (w : Awaited) (idx : Nat) (success : Bool) :
    Option Awaited :=
  if success then some { w with status := .success }
  else if overflowChecks && decide (64 ≤ idx) then none
  else some { w with failMask := w.failMask ||| 1 <<< (idx % 64) }

/-- What `write` logs at its end: nothing, "Partial write" or "all disks failed". -/
inductive WriteReport
  | quiet | partialWrite | allDisksFailed
  deriving DecidableEq, Repr

def Awaited.report (w : Awaited) : WriteReport :=
  if w.failMask ≠ 0 then
    if w.status = .failure then .allDisksFailed else .partialWrite
  else .quiet

/-- The await loop of `write` over the children before `idx`, on the ends of their writes. -/
def Req.awaited (overflowChecks : Bool) (q : Req B) : Nat → Option Awaited
  | 0 => some {}
  | idx + 1 =>
    (q.awaited overflowChecks idx).bind fun w =>
      w.child overflowChecks idx (q.ios idx = .ended true)

/-! ## The set of failed children -/

/-- The children whose child I/O has failed. -/
def Req.failed (n : Nat) (q : Req B) : List Nat :=
  (List.range n).filter fun c => q.ios c = .ended false

/-- How a write to `n` children ends when the set of failed children is kept exactly. -/
def exactStatus (n : Nat) (failed : List Nat) : IoStatus :=
  if failed.length < n then .success else .failure

def exactReport (n : Nat) (failed : List Nat) : WriteReport :=
  if failed = [] then .quiet else if failed.length < n then .partialWrite else .allDisksFailed

section loop
variable {q q' : Req B} {n idx : Nat} {checks : Bool} {w : Awaited}

theorem Req.mem_failed {c : Nat} : c ∈ q.failed n ↔ c < n ∧ q.ios c = .ended false := by
  simp [Req.failed]

theorem Req.failed_eq_nil : q.failed n = [] ↔ ¬ ∃ c < n, q.ios c = .ended false := by
  simp [Req.failed]

theorem Req.length_failed (hend : ∀ c < n, (q.ios c).Ended) :
    (q.failed n).length < n ↔ ∃ c < n, q.ios c = .ended true := by
  have hlt := List.length_filter_lt_length_iff_exists (l := List.range n)
    (p := fun c => decide (q.ios c = .ended false))
  rw [List.length_range] at hlt
  refine hlt.trans (exists_congr fun c => ?_)
  rw [List.mem_range]
  refine and_congr_right fun hc => ?_
  obtain ⟨b, hb⟩ := hend c hc
  rw [hb]
  cases b <;> simp

/-- An iteration in which a write has succeeded, or failed. -/
theorem Awaited.child_eq {b : Bool} {v : Awaited} (h : w.child checks idx b = some v) :
    b = true ∧ v = { w with status := .success } ∨
      b = false ∧ v = { w with failMask := w.failMask ||| 1 <<< (idx % 64) } := by
  unfold Awaited.child at h
  split at h
  · exact Or.inl ⟨‹_›, (Option.some.inj h).symm⟩
  · split at h
    · cases h
    · exact Or.inr ⟨Bool.eq_false_iff.mpr ‹_›, (Option.some.inj h).symm⟩

theorem Awaited.child_eq_none {b : Bool} :
    w.child checks idx b = none ↔ b = false ∧ checks = true ∧ 64 ≤ idx := by
  unfold Awaited.child
  cases b <;> simp

theorem Req.awaited_congr (h : ∀ c < idx, q'.ios c = q.ios c) :
    q'.awaited checks idx = q.awaited checks idx := by
  induction idx with
  | zero => rfl
  | succ idx ih =>
    rw [Req.awaited, Req.awaited, ih fun c hc => h c (Nat.lt_succ_of_lt hc),
      h idx (Nat.lt_succ_self idx)]

/-- **What the loop knows of the children.** The status says whether a write has succeeded, the
mask whether one has failed. -/
theorem Req.awaited_spec (hend : ∀ c < idx, (q.ios c).Ended)
    (h : q.awaited checks idx = some w) :
    (w.status = .success ↔ ∃ c < idx, q.ios c = .ended true) ∧
      (w.failMask ≠ 0 ↔ ∃ c < idx, q.ios c = .ended false) := by
  induction idx generalizing w with
  | zero =>
    cases h
    simp
  | succ idx ih =>
    obtain ⟨v, hv, hw⟩ := Option.bind_eq_some_iff.mp h
    obtain ⟨hst, hmask⟩ := ih (fun c hc => hend c (Nat.lt_succ_of_lt hc)) hv
    obtain ⟨b, hb⟩ := hend idx (Nat.lt_succ_self idx)
    have hmore : ∀ {x : Bool}, (∃ c < idx + 1, q.ios c = .ended x) ↔
        (∃ c < idx, q.ios c = .ended x) ∨ b = x := by
      intro x
      rw [Nat.exists_lt_succ_right, hb, ChildIo.ended.injEq]
    rw [hmore, hmore, ← hst, ← hmask]
    rw [hb] at hw
    rcases Awaited.child_eq hw with ⟨hok, rfl⟩ | ⟨hok, rfl⟩
    · obtain rfl : b = true := by simpa using hok
      simp
    · obtain rfl : b = false := by simpa using hok
      -- the bit is set, wherever it lands
      simp

/-- The loop gets past every child, unless the build checks a shift by 64 or more. -/
theorem Req.awaited_eq_none (hend : ∀ c < idx, (q.ios c).Ended) :
    q.awaited checks idx = none ↔
      checks = true ∧ ∃ c < idx, q.ios c = .ended false ∧ 64 ≤ c := by
  induction idx with
  | zero => simp [Req.awaited]
  | succ idx ih =>
    have hrest := ih fun c hc => hend c (Nat.lt_succ_of_lt hc)
    obtain ⟨b, hb⟩ := hend idx (Nat.lt_succ_self idx)
    rw [Req.awaited, Nat.exists_lt_succ_right, and_or_left, ← hrest, hb]
    cases h : q.awaited checks idx with
    | none => simp
    | some w =>
      simp only [Option.bind_some, Awaited.child_eq_none, reduceCtorEq, false_or]
      cases b <;> simp

theorem Req.awaited_exact (hend : ∀ c < n, (q.ios c).Ended)
    (h : q.awaited checks n = some w) :
    w.status = exactStatus n (q.failed n) ∧ w.report = exactReport n (q.failed n) := by
  obtain ⟨hst, hmask⟩ := Req.awaited_spec hend h
  have hlen := Req.length_failed hend
  have hstatus : w.status = exactStatus n (q.failed n) := by
    unfold exactStatus
    split
    · exact hst.mpr (hlen.mp ‹_›)
    · cases hw : w.status with
      | success => exact absurd (hlen.mpr (hst.mp hw)) ‹_›
      | failure => rfl
  refine ⟨hstatus, ?_⟩
  unfold Awaited.report exactReport
  rw [hstatus, exactStatus]
  by_cases hnil : q.failed n = []
  · rw [if_pos hnil, if_neg]
    exact fun h => Req.failed_eq_nil.mp hnil (hmask.mp h)
  · rw [if_neg hnil, if_pos]
    · by_cases hlt : (q.failed n).length < n
      · simp [hlt]
      · simp [hlt]
    · exact hmask.mpr (by_contra fun h => hnil (Req.failed_eq_nil.mpr h))

end loop

/-! ## The writes of a mirror -/

/-- A write stands where its await loop does on the ends of the child I/Os it has awaited. -/
structure Req.Follows (n : Nat) (checks : Bool) (q : Req B) : Prop where
  writing : ∀ idx status failMask, q.phase = .writing idx status failMask →
    q.awaited checks idx = some ⟨status, failMask⟩
  completed : ∀ status, q.phase = .completed status → q.io.ioType = .write →
    ∃ w, q.awaited checks n = some w ∧ w.status = status

theorem writeResume_eq (checks : Bool) (n idx : Nat) (status : IoStatus) (failMask : Nat)
    (b : Bool) : writeResume checks n idx status failMask b =
      (Awaited.child checks ⟨status, failMask⟩ idx b).map fun w =>
        writeLoop n (idx + 1) w.status w.failMask := by
  unfold writeResume Awaited.child
  split
  · rfl
  · split <;> rfl

namespace Req.Follows
variable {n : Nat} {checks : Bool} {q : Req B}

/-- A request that is no write. -/
theorem of_other (ht : q.io.ioType ≠ .write)
    (hp : ∀ idx status failMask, q.phase ≠ .writing idx status failMask) :
    q.Follows n checks :=
  ⟨fun idx status failMask h => absurd h (hp idx status failMask), fun _ _ h => absurd h ht⟩

theorem setIo (h : q.Follows n checks) (hok : q.Ok n) {c : Nat} (hopen : ¬ (q.ios c).Ended)
    (i : ChildIo) (mem : Nat → B) : (q.setIo c i mem).Follows n checks := by
  refine ⟨fun idx status failMask hp => ?_, fun status hp => ?_⟩
  · obtain ⟨_, _, hend, _⟩ := hok.writing idx status failMask hp
    rw [← h.writing idx status failMask hp]
    refine Req.awaited_congr fun d hd => ?_
    have hne : d ≠ c := fun he => hopen (he ▸ hend d hd)
    exact Function.update_of_ne hne ..
  · exact absurd (hok.ended status hp c) hopen

theorem readOn (ht : q.io.ioType = .read) (p : ReadPhase) : (q.readOn p).Follows n checks := by
  refine of_other (fun hw => ?_) fun idx status failMask hp => ?_
  · rw [Req.readOn_io, ht] at hw
    cases hw
  · cases p <;> cases hp

/-- The write loop at the head of an iteration. -/
theorem writeLoop {idx : Nat} {w : Awaited} (hidx : idx ≤ n)
    (hw : q.awaited checks idx = some w) :
    Req.Follows n checks { q with phase := writeLoop n idx w.status w.failMask } := by
  have hsame : ∀ (m : Nat) (p : Phase), Req.awaited checks { q with phase := p } m =
      q.awaited checks m := fun m p => Req.awaited_congr fun _ _ => rfl
  unfold Raid1.writeLoop
  split
  · refine ⟨fun idx' status failMask hp => ?_, fun status hp => (by cases hp)⟩
    cases hp
    exact (hsame ..).trans hw
  · have he : idx = n := by omega
    subst he
    refine ⟨fun idx' status failMask hp => (by cases hp), fun status hp _ => ?_⟩
    cases hp
    exact ⟨w, (hsame ..).trans hw, rfl⟩

theorem writeResume (h : q.Follows n checks) (hok : q.Ok n) {idx failMask : Nat}
    {status : IoStatus} {b : Bool} {p : Phase} (hp : q.phase = .writing idx status failMask)
    (hi : q.ios idx = .ended b) (hw : writeResume checks n idx status failMask b = some p) :
    Req.Follows n checks { q with phase := p } := by
  obtain ⟨_, hidx, _⟩ := hok.writing idx status failMask hp
  rw [writeResume_eq] at hw
  obtain ⟨w, hchild, rfl⟩ := Option.map_eq_some_iff.mp hw
  refine writeLoop hidx ?_
  rw [Req.awaited, h.writing idx status failMask hp, Option.bind_some, hi]
  cases b <;> exact hchild

end Req.Follows

namespace Mirror

/-- Nothing more happens to the requests that have been submitted. -/
def AtRest (s : Mirror B) : Prop :=
  ∀ e, (∀ k io mem, e ≠ .submit k io mem) → s.next e = none

/-- The failure mask of the writes has done no harm: no shift by 64 or more, in any build, and
every write has ended as the exact set of its failed children has it. -/
structure MaskHarmless (n : Nat) (s : Mirror B) : Prop where
  running : s.panicked = false
  shifts : ∀ r < s.count, (s.req r).io.ioType = .write → (s.req r).awaited true n ≠ none
  ends : ∀ r < s.count, (s.req r).io.ioType = .write →
    ∃ w, (s.req r).awaited s.overflowChecks n = some w ∧ (s.req r).phase = .completed w.status ∧
      w.status = exactStatus n ((s.req r).failed n) ∧
      w.report = exactReport n ((s.req r).failed n)

/-- What the writes of a mirror satisfy at every moment; a panic is that of a shift. -/
structure Masked (n : Nat) (s : Mirror B) : Prop where
  ok : s.Ok n
  follows : ∀ r, (s.req r).Follows n s.overflowChecks
  wide : s.panicked = true → ∃ r < s.count, (s.req r).io.ioType = .write ∧
    ∃ c ∈ (s.req r).failed n, 64 ≤ c

variable {n : Nat} {s u : Mirror B} {e : MirrorEvent B}

theorem masked_start (n : Nat) (overflowChecks : Bool) (disks : Nat → Nat → B) :
    (start n overflowChecks disks).Masked n :=
  ⟨ok_start n overflowChecks disks,
    fun _ => .of_other (fun h => by cases h) (fun _ _ _ h => by cases h), fun h => by cases h⟩

theorem submitIo_flags (s : Mirror B) (k : Nat) (io : BdevIo) (mem : Nat → B) :
    (s.submitIo k io mem).panicked = s.panicked ∧
      (s.submitIo k io mem).overflowChecks = s.overflowChecks := by
  unfold submitIo
  split <;> exact ⟨rfl, rfl⟩

theorem serve_flags (s : Mirror B) (r c : Nat) :
    (s.serve r c).panicked = s.panicked ∧
      (s.serve r c).overflowChecks = s.overflowChecks := by
  simp only [serve]
  split <;> exact ⟨rfl, rfl⟩

theorem Step.checks (hs : Step s e u) : u.overflowChecks = s.overflowChecks := by
  cases hs with
  | submit => exact (submitIo_flags ..).2
  | serve => exact (serve_flags ..).2
  | _ => rfl

theorem running_of_next (h : s.next e = some u) : s.panicked = false := by
  unfold next at h
  split at h
  · cases h
  · rename_i hrun
    exact Bool.eq_false_iff.mpr hrun

/-- The step that panics: a child with no bit in the mask has failed a write. -/
theorem panics (h : s.step e = some u) (hs : s.panicked = false) (hu : u.panicked = true) :
    u = { s with panicked := true } ∧ ∃ r idx status failMask,
      (s.req r).phase = .writing idx status failMask ∧
        (s.req r).ios idx = .ended false ∧ 64 ≤ idx := by
  have hne : u.panicked ≠ s.panicked := by
    rw [hs, hu]
    decide
  cases e with
  | submit k io mem =>
    cases h
    exact absurd (submitIo_flags ..).1 hne
  | serve r c =>
    simp only [step, Option.ite_none_right_eq_some, Option.some.injEq] at h
    obtain ⟨_, rfl⟩ := h
    exact absurd (serve_flags ..).1 hne
  | finish r c =>
    simp only [step, Option.ite_none_right_eq_some, Option.some.injEq] at h
    obtain ⟨_, rfl⟩ := h
    exact absurd rfl hne
  | fail r c junk =>
    simp only [step, Option.ite_none_right_eq_some, Option.some.injEq] at h
    obtain ⟨_, rfl⟩ := h
    exact absurd rfl hne
  | resume r =>
    simp only [step] at h
    split at h
    · split at h
      · cases h
        exact absurd rfl hne
      · cases h
    · rename_i idx status failMask hp
      split at h
      · rename_i b hi
        split at h
        · cases h
          exact absurd rfl hne
        · rename_i hw
          cases h
          rw [writeResume_eq, Option.map_eq_none_iff, Awaited.child_eq_none] at hw
          obtain ⟨rfl, _, hwide⟩ := hw
          exact ⟨rfl, r, idx, status, failMask, hp, hi, hwide⟩
      · cases h
    · cases h

namespace Masked

theorem setReq (h : s.Masked n) {r : Nat} {q : Req B} (hq : q.Follows n s.overflowChecks) :
    ∀ t, ((s.setReq r q).req t).Follows n s.overflowChecks :=
  req_all (u := s.setReq r q) (P := fun _ q => q.Follows n s.overflowChecks) rfl hq
    fun t _ => h.follows t

/-- A step leaves every write where its loop is. -/
theorem follows_step (h : s.Masked n) (hs : Step s e u) :
    ∀ r, (u.req r).Follows n s.overflowChecks := by
  cases hs with
  | submit =>
    rename_i k io mem
    unfold submitIo
    split
    · rename_i ht
      exact h.setReq (.readOn ht _)
    · have hn := h.ok.chans k
      subst hn
      let q : Req B := { newReq k io mem with
        ios := fun c => if c < (s.chans k).children then .inFlight else .ended false }
      have hq : q.awaited s.overflowChecks 0 = some {} := rfl
      exact h.setReq (.writeLoop (Nat.zero_le _) hq)
    · rename_i ht
      exact h.setReq (.of_other ht fun _ _ _ hp => by cases hp)
  | serve hi =>
    have hopen := ChildIo.inFlight_open hi
    simp only [serve]
    split
    · exact h.setReq ((h.follows _).setIo (h.ok.reqs _) hopen _ _)
    · exact h.setReq ((h.follows _).setIo (h.ok.reqs _) hopen _ _)
  | finish hi =>
    exact h.setReq ((h.follows _).setIo (h.ok.reqs _) (ChildIo.served_open hi) _ _)
  | fail hi =>
    exact h.setReq ((h.follows _).setIo (h.ok.reqs _) (ChildIo.inFlight_open hi) _ _)
  | resumeRead hp hi => exact h.setReq (.readOn ((h.ok.reqs _).reading _ hp).1 _)
  | resumeWrite hp hi hw =>
    rw [h.ok.chans] at hw
    exact h.setReq ((h.follows _).writeResume (h.ok.reqs _) hp hi hw)
  | panic => exact h.follows

theorem step (h : s.Masked n) (hn : 0 < n) (hx : s.next e = some u) : u.Masked n := by
  have hs := next_step hx
  refine ⟨hs.ok h.ok hn, ?_, fun hu => ?_⟩
  · rw [hs.checks]
    exact h.follows_step hs
  · unfold next at hx
    split at hx
    · cases hx
    · rename_i hrun
      obtain ⟨rfl, r, idx, status, failMask, hp, hi, hwide⟩ :=
        panics hx (Bool.eq_false_iff.mpr hrun) hu
      obtain ⟨ht, hidx, _⟩ := (h.ok.reqs r).writing idx status failMask hp
      have hr : r < s.count := h.ok.started fun status he => by cases hp.symm.trans he
      exact ⟨r, hr, ht, idx, Req.mem_failed.mpr ⟨hidx, hi⟩, hwide⟩

theorem run {checks : Bool} {disks : Nat → Nat → B} {es : List (MirrorEvent B)} (hn : 0 < n)
    (h : run next (start n checks disks) es = some s) : s.Masked n :=
  run_always (masked_start n checks disks) (fun _ _ _ ht hx => ht.step hn hx) h

end Masked

/-- What is at rest has ended, unless the process has. -/
theorem AtRest.ended (h : s.AtRest) (hrun : s.panicked = false) (r : Nat) :
    (s.req r).phase.Ended := by
  have hnone : ∀ e, (∀ k io mem, e ≠ .submit k io mem) → s.step e = none := by
    intro e he
    have := h e he
    rwa [next, hrun] at this
  have hios : ∀ c, ((s.req r).ios c).Ended := by
    intro c
    cases hi : (s.req r).ios c with
    | inFlight =>
      have := hnone (.serve r c) fun _ _ _ h => by cases h
      simp [step, hi] at this
    | served =>
      have := hnone (.finish r c) fun _ _ _ h => by cases h
      simp [step, hi] at this
    | ended b => exact ⟨b, rfl⟩
  have hresume := hnone (.resume r) fun _ _ _ h => by cases h
  cases hp : (s.req r).phase with
  | reading left =>
    obtain ⟨b, hb⟩ := hios (s.req r).next
    simp [step, hp, hb] at hresume
  | writing idx status failMask =>
    obtain ⟨b, hb⟩ := hios idx
    simp only [step, hp, hb] at hresume
    split at hresume <;> cases hresume
  | completed status => exact ⟨status, rfl⟩

theorem atRest_of_panicked (h : s.panicked = true) : s.AtRest := fun _ _ => if_pos h

/-- Requests that have all ended are at rest. -/
theorem Ok.atRest (h : s.Ok n) (hend : ∀ r < s.count, (s.req r).phase.Ended) : s.AtRest := by
  have hall : ∀ r, (s.req r).phase.Ended := by
    intro r
    by_cases hr : r < s.count
    · exact hend r hr
    · obtain ⟨mem, hreq⟩ := h.unused r (by omega)
      exact ⟨.failure, by rw [hreq]; rfl⟩
  have hios : ∀ r c, ((s.req r).ios c).Ended := by
    intro r c
    obtain ⟨status, hp⟩ := hall r
    exact (h.reqs r).ended status hp c
  intro e he
  unfold next
  split
  · rfl
  · cases e with
    | submit k io mem => exact absurd rfl (he k io mem)
    | serve r c => exact if_neg fun hi => ChildIo.inFlight_open hi (hios r c)
    | finish r c => exact if_neg fun hi => ChildIo.served_open hi (hios r c)
    | fail r c junk => exact if_neg fun hi => ChildIo.inFlight_open hi (hios r c)
    | resume r =>
      obtain ⟨status, hp⟩ := hall r
      simp only [step, hp]

/-- **When the mask of a mirror is harmless.** Any number of requests at the same time, with
child I/Os that fail at will: once nothing happens any more, if and only if no child numbered
64 or more has failed a write. -/
theorem mask_harmless_iff {checks : Bool} {disks : Nat → Nat → B} {es : List (MirrorEvent B)}
    (hn : 0 < n) (h : Lib.run next (start n checks disks) es = some s) (hrest : s.AtRest) :
    s.MaskHarmless n ↔ ∀ r < s.count, (s.req r).io.ioType = .write →
      ∀ c ∈ (s.req r).failed n, c < 64 := by
  have hm := Masked.run hn h
  have hios : s.panicked = false → ∀ r, ∀ c < n, ((s.req r).ios c).Ended := by
    intro hrun r c _
    obtain ⟨status, hp⟩ := hrest.ended hrun r
    exact (hm.ok.reqs r).ended status hp c
  have hshift : s.panicked = false → ∀ r,
      ((s.req r).awaited true n ≠ none ↔ ∀ c ∈ (s.req r).failed n, c < 64) := by
    intro hrun r
    rw [Ne, Req.awaited_eq_none (hios hrun r)]
    simp [Req.mem_failed]
  constructor
  · intro hh r hr ht
    exact (hshift hh.running r).mp (hh.shifts r hr ht)
  · intro hlow
    have hrun : s.panicked = false := by
      rw [← Bool.not_eq_true]
      intro hp
      obtain ⟨r, hr, ht, c, hc, hwide⟩ := hm.wide hp
      exact absurd (hlow r hr ht c hc) (Nat.not_lt.mpr hwide)
    refine ⟨hrun, fun r hr ht => (hshift hrun r).mpr (hlow r hr ht), fun r hr ht => ?_⟩
    obtain ⟨status, hp⟩ := hrest.ended hrun r
    obtain ⟨w, hw, rfl⟩ := (hm.follows r).completed status hp ht
    exact ⟨w, hw, hp, Req.awaited_exact (hios hrun r) hw⟩

end Mirror

end Ironspdk.Raid1
