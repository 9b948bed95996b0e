import Ironspdk.Raid5.Degraded
import Ironspdk.Raid5.OneStripe

/-! # A disk that fails while requests are served

Each stripe may have a faulty disk of its own. From any moment on the faulty disk may fail
child I/Os of the stripe; once it has failed a write there its contents are stale, and no
I/O of it succeeds in that stripe any more. The children of such a stripe store what the
buffer of a write held when it was submitted. Nothing is asked of the children in a stripe
without a bound on its faults. The array keeps no record of failed disks; it does not need
one: every stripe with at most one faulty disk is a flat disk through it all, whatever
happens in the others. The reads that `reconstruct` leaves behind where two disks of a stripe
fail are not followed. -/
namespace Ironspdk.Raid5
open Ironspdk.Lib Ironspdk.Runtime

variable {B : Type}

/-- Of these children only `d` fails, and it fails everything once its contents are stale; a
write stores what its buffer held when it was submitted. -/
def Children.failStop (d : Nat) (stale : Bool) : Children :=
  ⟨fun x ok => if ok then !(decide (x = d) && stale) else decide (x = d), false⟩

/-- The children of a stripe in which only `faulty` fails; any children, if there is no bound. -/
def stripeChildren (late : Bool) (faulty : Option Nat) (stale : Bool) : Children :=
  match faulty with
  | none => .any late
  | some d => .failStop d stale

/-- A device, and in which stripes the faulty disk is stale. -/
structure Watched (B : Type) where
  device : Device B
  stale : Nat → Bool

/-- The children of the stripe that an event is about. -/
def Watched.children (dev : Raid5Bdev) (late : Nat → Bool) (faulty : Nat → Option Nat)
    (s : Watched B) : DevEvent B → Children
  | .child t _ =>
    match s.device.tasks[t]? with
    | some task =>
      let k := task.req.stripe dev
      stripeChildren (late k) (faulty k) (s.stale k)
    | none => .any false
  | _ => .any false

/-- The stripe in which a child write fails. -/
def Watched.missed (dev : Raid5Bdev) (s : Watched B) : DevEvent B → Option Nat
  | .child t (.fail c _) => do
    let task ← s.device.tasks[t]?
    let b ← task.stage.service
    let x ← b.frame.ios[c]?
    if x.req.kind = .store then some (task.req.stripe dev) else none
  | _ => none

def Watched.next [Add B] [Zero B] (dev : Raid5Bdev) (late : Nat → Bool)
    (faulty : Nat → Option Nat) (overflowChecks : Bool) (s : Watched B) (e : DevEvent B) :
    Option (Watched B) :=
  (s.device.next dev (s.children dev late faulty e) overflowChecks e).map fun t =>
    ⟨t, fun k => s.stale k || s.missed dev e == some k⟩

/-- A device of whose stripes nothing is known, on the children of a watched one. -/
def watchedBase [Zero B] (dev : Raid5Bdev) (late : Nat → Bool) (faulty : Nat → Option Nat) :
    Base B :=
  ⟨dev, fun k => .any ((faulty k).isNone && late k), fun _ => False, fun _ => False, 0⟩

theorem stripeChildren_within (late : Bool) (faulty : Option Nat) (stale : Bool) :
    (stripeChildren late faulty stale).Within (.any (faulty.isNone && late)) := by
  cases faulty with
  | none => exact .refl _
  | some d => exact ⟨fun _ _ _ => rfl, rfl⟩

theorem Watched.admits [Zero B] (dev : Raid5Bdev) (late : Nat → Bool) (faulty : Nat → Option Nat)
    (s : Watched B) (e : DevEvent B) :
    (watchedBase dev late faulty).Admits s.device e (s.children dev late faulty e) := by
  rintro t ce rfl task ht
  simp only [Watched.children, ht]
  exact stripeChildren_within ..

section reached
variable [XorGroup B] {dev : Raid5Bdev} {late : Nat → Bool} {faulty : Nat → Option Nat}
  {overflowChecks : Bool} {s s' : Watched B} {e : DevEvent B}

theorem Watched.reached (h : Reached (watchedBase dev late faulty) s.device)
    (hbit : overflowChecks = true → dev.diskCount ≤ 64)
    (hn : s.next dev late faulty overflowChecks e = some s') :
    Reached (watchedBase dev late faulty) s'.device := by
  obtain ⟨u, hu, rfl⟩ := Option.map_eq_some_iff.mp hn
  exact h.next (fun _ hk => absurd hk id) (fun hc _ x hx _ => hx.trans_le (hbit hc))
    (s.admits dev late faulty e) hu

/-- Without new requests, no schedule goes on forever. -/
theorem Watched.stops (h : Reached (watchedBase dev late faulty) s.device)
    (hbit : overflowChecks = true → dev.diskCount ≤ 64) :
    Stops (Watched.next dev late faulty overflowChecks) DevEvent.Inner s := by
  refine stops_of_measure workLess_wf (I := fun s => Reached (watchedBase dev late faulty) s.device)
    (f := fun s => s.device.work) (fun t e u ht he hn => ?_) h
  have hu := Watched.reached ht hbit hn
  obtain ⟨l, hq⟩ := ht.queued
  obtain ⟨v, hv, rfl⟩ := Option.map_eq_some_iff.mp hn
  exact ⟨hu, (Device.next_step hv).work_less hq hu.queued he⟩

end reached

/-! ## One stripe -/

/-- What requests of stripe `k` are served against, when disk `d` is faulty there: at first
its contents are good, or else stale. -/
def faultSetting (dev : Raid5Bdev) (k d : Nat) (stale : Bool) (flat : Nat → B) : Setting B :=
  { dev := dev, children := .failStop d stale, stripe := k
    dead := fun x => x = d ∧ stale = true, flat := flat, held := True, prompt := False
    mayAbort := False }

section setting
variable {dev : Raid5Bdev} {k d : Nat} {stale : Bool} {flat : Nat → B}

theorem faultSetting_fails {x : Nat}
    (h : (faultSetting dev k d stale flat).children.allow x false = true) : x = d := by
  simpa [faultSetting, Children.failStop] using h

theorem faultSetting_live : (faultSetting dev k d stale flat).Live := by
  refine ⟨trivial, fun x hx hd => ?_⟩
  simp only [faultSetting, Children.failStop, if_true] at hx
  obtain ⟨rfl, rfl⟩ := hd
  simp at hx

theorem faultSetting_one {x y : Nat}
    (hx : (faultSetting dev k d stale flat).children.allow x false = true)
    (hy : (faultSetting dev k d stale flat).children.allow y false = true) : x = y :=
  (faultSetting_fails hx).trans (faultSetting_fails hy).symm

/-- A disk that has gone stale does less than before. -/
theorem failStop_within {stale' : Bool} (h : stale = true → stale' = true) :
    (Children.failStop d stale').Within (.failStop d stale) := by
  refine ⟨fun x ok ha => ?_, rfl⟩
  cases ok with
  | false => exact ha
  | true =>
    cases stale with
    | false => simp [Children.failStop]
    | true =>
      obtain rfl := h rfl
      exact ha

end setting

/-- What is known of stripe `k`, when disk `d` is faulty there and `flat` were its contents
at the start. A request that began before the disk went stale may still be in service. -/
def Guarded [XorGroup B] (dev : Raid5Bdev) (k d : Nat) (flat : Nat → B) (stale : Bool)
    (s : Device B) : Option (Service B) → Prop
  | none => ∀ x < dev.diskCount, ¬ (x = d ∧ stale = true) → ∀ row, row / dev.stripBlocks = k →
      s.disks x row = dev.encode (applied dev flat s.log) x row
  | some b => b.req.stripe dev = k ∧ ∃ flat' began,
      Served (faultSetting dev k d began flat') b.req (applied dev flat s.log) b.prog
        ⟨b.frame, s.disks⟩ ∧ (began = true → stale = true) ∧
      (stale = false → ∀ w ∈ b.frame.ios, w.req.kind = .store → w.phase ≠ .done false)

/-- A request that has ended leaves its contents on every disk but one that is stale by now. -/
theorem Served.leaves_fresh [XorGroup B] {dev : Raid5Bdev} {k d : Nat} {began stale : Bool}
    {flat flat' : Nat → B} {req : Request B} {u : Proc B}
    (h : Served (faultSetting dev k d began flat') req flat (.ret ()) u)
    (hbegan : began = true → stale = true)
    (hnone : stale = false → ∀ w ∈ u.ios, w.req.kind = .store → w.phase ≠ .done false) :
    ∀ x < dev.diskCount, ¬ (x = d ∧ stale = true) → ∀ row, row / dev.stripBlocks = k →
      u.disks x row = dev.encode flat x row := by
  intro x hx hgood row hrow
  refine h.leaves_of faultSetting_live (fun _ _ => faultSetting_one) hx
    (fun hdead => hgood ⟨hdead.1, hbegan hdead.2⟩) (fun c w hw hwk hwx hf => ?_) hrow
  -- only the faulty disk can have failed the write, and then it is stale
  have hxd : x = d :=
    hwx ▸ faultSetting_fails (((wp_done h.program).inv.permitted c w hw).2 hf)
  have hm : stale = false := Bool.eq_false_of_not_eq_true fun hs => hgood ⟨hxd, hs⟩
  exact hnone hm w (List.mem_of_getElem? hw) hwk hf

theorem perform_inFlight [Add B] [Zero B] {o : Op} {s t : Proc B} {r : Res o}
    (h : perform o s = some (r, t)) {w : ChildIo B} (hw : w ∈ t.ios) :
    w ∈ s.ios ∨ w.phase = .inFlight := by
  cases o with
  | await c =>
    simp only [Raid5.perform] at h
    split at h
    · cases h
      exact Or.inl hw
    · cases h
  | panic msg => cases h
  | submit req =>
    cases h
    rcases List.mem_append.mp hw with hw | hw
    · exact Or.inl hw
    · exact Or.inr (by rw [List.mem_singleton.mp hw])
  | _ =>
    cases h
    exact Or.inl hw

/-- A child write that has failed now had failed before, unless it is the one that fails. -/
theorem react_failed {ch : Children} {s t : Proc B} {e : ChildEvent B} (h : ch.react s e = some t)
    {w : ChildIo B} (hw : w ∈ t.ios) (hk : w.req.kind = .store) (hp : w.phase = .done false) :
    w ∈ s.ios ∨ ∃ c junk x, e = .fail c junk ∧ s.ios[c]? = some x ∧ x.req.kind = .store := by
  have hset : ∀ {c : Nat} {x : ChildIo B} (p : Phase), p ≠ .done false →
      w ∈ s.ios.set c { x with phase := p } → w ∈ s.ios := by
    intro c x p hne hw
    rcases List.mem_or_eq_of_mem_set hw with hw | rfl
    · exact hw
    · exact absurd hp hne
  cases e with
  | apply c junk =>
    simp only [Children.react, Option.bind_eq_bind, Option.bind_eq_some_iff,
      Option.ite_none_right_eq_some, Option.some.injEq] at h
    obtain ⟨x, hx, _, rfl⟩ := h
    simp only [Proc.setPhase, put_ios] at hw
    exact Or.inl (hset .applied (by simp) hw)
  | finish c =>
    simp only [Children.react, Option.bind_eq_bind, Option.bind_eq_some_iff,
      Option.ite_none_right_eq_some, Option.some.injEq] at h
    obtain ⟨x, hx, _, rfl⟩ := h
    exact Or.inl (hset (.done true) (by simp) hw)
  | fail c junk =>
    simp only [Children.react, Option.bind_eq_bind, Option.bind_eq_some_iff,
      Option.ite_none_right_eq_some, Option.some.injEq] at h
    obtain ⟨x, hx, _, rfl⟩ := h
    simp only [Proc.setPhase, put_ios] at hw
    rcases List.mem_or_eq_of_mem_set hw with hw | rfl
    · exact Or.inl hw
    · exact Or.inr ⟨c, junk, x, rfl, hx, hk⟩

section missed
variable {dev : Raid5Bdev} {s : Watched B} {e : DevEvent B} {k : Nat}

theorem missed_cases (h : s.missed dev e = some k) : ∃ t c junk task b x,
    e = .child t (.fail c junk) ∧ s.device.tasks[t]? = some task ∧ task.stage.service = some b ∧
      b.frame.ios[c]? = some x ∧ x.req.kind = .store ∧ task.req.stripe dev = k := by
  unfold Watched.missed at h
  split at h
  · rename_i t c junk
    obtain ⟨task, ht, h⟩ := Option.bind_eq_some_iff.mp h
    obtain ⟨b, hb, h⟩ := Option.bind_eq_some_iff.mp h
    obtain ⟨x, hx, h⟩ := Option.bind_eq_some_iff.mp h
    obtain ⟨hstore, hk⟩ := Option.ite_none_right_eq_some.mp h
    exact ⟨t, c, junk, task, b, x, rfl, ht, hb, hx, hstore, Option.some.inj hk⟩
  · cases h

/-- A child write of stripe `k` that fails is missed there. -/
theorem missed_fail {t : Nat} {task : IoTask B} {req : Request B} {prog : Task Unit}
    {frame : Frame B} (ht : s.device.tasks[t]? = some task) (hk : task.req.stripe dev = k)
    (hst : task.stage = .processing req prog frame) {c : Nat} {junk : Nat → B} {x : ChildIo B}
    (hx : frame.ios[c]? = some x) (hstore : x.req.kind = .store) :
    s.missed dev (.child t (.fail c junk)) = some k := by
  simp [Watched.missed, ht, hst, Stage.service, hx, hstore, hk]

end missed

section step
variable [XorGroup B] {dev : Raid5Bdev} {late : Nat → Bool} {faulty : Nat → Option Nat}
  {overflowChecks : Bool} {s : Watched B} {s' : Device B} {k d : Nat} {e : DevEvent B}
  {b b' : Option (Service B)} {flat : Nat → B}

/-- **One faulty disk, one step.** -/
theorem Guarded.step {stale : Bool} (h : Guarded dev k d flat (s.stale k) s.device b)
    (hd : faulty k = some d) (hbit : overflowChecks = true → d < 64)
    (hs : StripeStep dev (s.children dev late faulty e) overflowChecks k s.device s' e b b')
    (hstale : stale = (s.stale k || s.missed dev e == some k)) :
    Guarded dev k d flat stale s' b' := by
  have hsame : s.missed dev e ≠ some k → stale = s.stale k := by
    intro hne
    rw [hstale, beq_eq_false_iff_ne.mpr hne, Bool.or_false]
  cases hs with
  | elsewhere hdisks hlog hother hchild =>
    have hagree : AgreeOn dev k (applied dev flat s'.log) (applied dev flat s.device.log) := by
      rw [hlog, applied_append]
      exact applied_other hother
    rw [hsame fun hm => ?_]
    · cases b with
      | none =>
        intro x hx hgood row hrow
        rw [hdisks x row hrow, encode_congr hagree hx hrow]
        exact h x hx hgood row hrow
      | some b =>
        obtain ⟨hk, flat', began, hserved, hbegan, hnone⟩ := h
        exact ⟨hk, flat', began, hserved.others hdisks hagree, hbegan, hnone⟩
    · obtain ⟨t, c, junk, task, _, _, rfl, ht, _, _, _, hk⟩ := missed_cases hm
      exact hchild t _ rfl task ht hk
  | begins hk hdisks hlog =>
    rw [hsame nofun]
    refine ⟨hk, applied dev flat s.device.log, s.stale k, ?_, id, fun _ => nofun⟩
    rw [hdisks, hlog]
    exact served_fresh (E := faultSetting dev k d (s.stale k) _) hk (fun _ => rfl)
      (fun hc => Or.inr fun x _ hx => faultSetting_fails hx ▸ hbit hc)
      (fun x hx hgood row hrow => h x hx hgood row hrow) _
  | performs hp hdisks hlog =>
    rw [hsame nofun]
    obtain ⟨hk, flat', began, hserved, hbegan, hnone⟩ := h
    refine ⟨hk, flat', began, ?_, hbegan, fun hm w hw hwk => ?_⟩
    · rw [hdisks, hlog]
      exact hserved.operate id hp
    · rcases perform_inFlight hp hw with hw | hw
      · exact hnone hm w hw hwk
      · rw [hw]
        nofun
  | child htask hr hdisks hlog =>
    rename_i t ce req prog frame u
    obtain ⟨task, ht, hk', hst⟩ := htask
    obtain ⟨hk, flat', began, hserved, hbegan, hnone⟩ := h
    have hchildren : s.children dev late faulty (.child t ce) = .failStop d (s.stale k) := by
      simp only [Watched.children, ht, hk', hd, stripeChildren]
    rw [hchildren] at hr
    refine ⟨hk, flat', began, ?_, fun hb => by rw [hstale, hbegan hb, Bool.true_or],
      fun hm w hw hwk hp => ?_⟩
    · rw [hdisks, hlog]
      exact hserved.react ((failStop_within hbegan).react hr)
    · obtain ⟨hgood, hmissed⟩ := Bool.or_eq_false_iff.mp (hstale.symm.trans hm)
      rcases react_failed hr hw hwk hp with hw | ⟨c, junk, x, rfl, hx, hxk⟩
      · exact hnone hgood w hw hwk hp
      · exact beq_eq_false_iff_ne.mp hmissed (missed_fail ht hk' hst hx hxk)
  | ends hdisks hlog =>
    rename_i t req frame
    rw [hsame nofun]
    obtain ⟨hk, flat', began, hserved, hbegan, hnone⟩ := h
    rw [Guarded, hdisks, hlog]
    exact hserved.leaves_fresh hbegan hnone

/-- What a stripe has answered, and what its blocks are after that. -/
def answersOf (dev : Raid5Bdev) (k : Nat) (log : List (Answer B)) : List (Answer B) :=
  onKey (fun a => a.req.stripe dev) k log

omit [XorGroup B] in
theorem applied_answersOf {flat flat' : Nat → B} (h : AgreeOn dev k flat flat')
    (log : List (Answer B)) :
    AgreeOn dev k (applied dev flat (answersOf dev k log)) (applied dev flat' log) := by
  induction log generalizing flat flat' with
  | nil => exact h
  | cons a log ih =>
    by_cases hk : a.req.stripe dev = k
    · have : answersOf dev k (a :: log) = a :: answersOf dev k log := by
        simp [answersOf, onKey, hk]
      rw [this]
      exact ih (effect_congr h a.req.toQueuedIo a.req.mem)
    · have : answersOf dev k (a :: log) = answersOf dev k log := by
        simp [answersOf, onKey, hk]
      rw [this]
      refine ih (h.trans fun b hb => (effect_out fun he => hk ?_).symm)
      exact he.symm.trans hb

/-- Every step adds to what the stripe has answered what a flat disk answers. -/
theorem Guarded.flatDisk_step (h : Guarded dev k d flat (s.stale k) s.device b)
    (hlog : FlatDisk dev True flat (answersOf dev k s.device.log))
    (hs : StripeStep dev (s.children dev late faulty e) overflowChecks k s.device s' e b b') :
    FlatDisk dev True flat (answersOf dev k s'.log) := by
  cases hs with
  | elsewhere hdisks hlog' hother hchild =>
    have hnone : ∀ {a : List (Answer B)}, (∀ c ∈ a, c.req.stripe dev ≠ k) →
        answersOf dev k a = [] := fun hc => List.filter_eq_nil_iff.mpr fun c hmem => by
      simpa using hc c hmem
    rw [hlog', answersOf, onKey_append, show onKey _ k _ = [] from hnone hother, List.append_nil]
    exact hlog
  | begins _ _ hlog' => rwa [hlog']
  | child _ _ _ hlog' => rwa [hlog']
  | ends _ hlog' => rwa [hlog']
  | performs hp hdisks hlog' =>
    rename_i t req frame o r next u
    obtain ⟨hk, flat', began, hserved, _⟩ := h
    by_cases ho : ∃ sender status, o = .complete sender status
    · obtain ⟨sender, status, rfl⟩ := ho
      obtain ⟨hwho, hnil, hresult, _⟩ := wp_ensure hserved.program trivial
      obtain rfl : sender = req.sender := hwho
      have hone : answersOf dev k [(⟨req, req.sender, status, frame.mem 0⟩ : Answer B)] =
          [⟨req, req.sender, status, frame.mem 0⟩] := by
        simp [answersOf, onKey, hk]
      rw [hlog', answersOf, onKey_append]
      refine (congrArg (fun a => FlatDisk dev True flat (answersOf dev k s.device.log ++ a))
        hone).mpr (flatDisk_snoc.mpr ⟨hlog, ?_⟩)
      refine Setting.Result.right (E := faultSetting dev k d began flat')
        (fun _ => faultSetting_live) (fun _ _ => faultSetting_one) (fun _ _ => trivial) hk ?_
        hresult
      exact (applied_answersOf (.refl dev k flat) _).trans (hserved.before hnil)
    · have hnone : answers req frame o = [] := by
        cases o with
        | complete sender status => exact absurd ⟨sender, status, rfl⟩ ho
        | _ => rfl
      rwa [hlog', hnone, List.append_nil]

end step

/-! ## Runs -/

/-- The stripe at the start: a disk with good contents, or the exclusive or of the others. -/
theorem guarded_start [XorGroup B] {dev : Raid5Bdev} {k d : Nat} (hd : d < dev.diskCount)
    {stale : Bool} {disks : Nat → Nat → B} (hpar : stale = false → ∀ row,
      row / dev.stripBlocks = k → ∑ x ∈ Finset.range dev.diskCount, disks x row = 0) :
    Guarded dev k d (dev.decode (dev.repair d disks)) stale (Device.start disks) none := by
  intro x hx hgood row hrow
  have hrep : dev.repair d disks x row = dev.encode (dev.decode (dev.repair d disks)) x row :=
    encode_decode (fun row _ => repair_sum hd row) hx hrow
  refine Eq.trans ?_ hrep
  unfold Raid5Bdev.repair
  split
  · rename_i hxd
    subst hxd
    have hgood : stale = false := Bool.eq_false_of_not_eq_true fun hs => hgood ⟨rfl, hs⟩
    exact eq_sum_erase (f := fun y => disks y row) (Finset.mem_range.mpr hx) (hpar hgood row hrow)
  · rfl

/-- What is known of a watched device in every state. -/
structure Watching [XorGroup B] (dev : Raid5Bdev) (late : Nat → Bool) (faulty : Nat → Option Nat)
    (flat : Nat → Nat → B) (s : Watched B) : Prop where
  reached : Reached (watchedBase dev late faulty) s.device
  guarded : ∀ k d, faulty k = some d → ∃ b, s.device.Serves dev k b ∧
    Guarded dev k d (flat d) (s.stale k) s.device b
  answers : ∀ k d, faulty k = some d → FlatDisk dev True (flat d) (answersOf dev k s.device.log)

section runs
variable [XorGroup B] {dev : Raid5Bdev} {late : Nat → Bool} {faulty : Nat → Option Nat}
  {overflowChecks : Bool} {flat : Nat → Nat → B} {s s' : Watched B} {e : DevEvent B}

theorem Watching.step (h : Watching dev late faulty flat s)
    (hbit : overflowChecks = true → dev.diskCount ≤ 64)
    (hfaulty : ∀ k d, faulty k = some d → d < dev.diskCount)
    (hn : s.next dev late faulty overflowChecks e = some s') :
    Watching dev late faulty flat s' := by
  have hreached := Watched.reached h.reached hbit hn
  obtain ⟨u, hu, rfl⟩ := Option.map_eq_some_iff.mp hn
  have hbit' : ∀ {k d}, faulty k = some d → overflowChecks = true → d < 64 :=
    fun hd hc => (hfaulty _ _ hd).trans_le (hbit hc)
  refine ⟨hreached, fun k d hd => ?_, fun k d hd => ?_⟩
  all_goals
    obtain ⟨b, hb, hguard⟩ := h.guarded k d hd
    obtain ⟨b', hstep, hb'⟩ := h.reached.stripe_step hb (Device.next_step hu)
  · exact ⟨b', hb', hguard.step hd (hbit' hd) hstep rfl⟩
  · exact hguard.flatDisk_step (h.answers k d hd) hstep

/-- A watched device that is not over can go on. -/
theorem Watching.over (h : Watching dev late faulty flat s)
    (hrest : ∀ e : DevEvent B, e.Inner → s.next dev late faulty overflowChecks e = none) {t : Nat}
    {task : IoTask B} (ht : s.device.tasks[t]? = some task) : task.stage = .finished := by
  obtain ⟨l, hq⟩ := h.reached.queued
  obtain ⟨ch, hch⟩ : ∃ ch, ch = stripeChildren (late (task.req.stripe dev))
    (faulty (task.req.stripe dev)) (s.stale (task.req.stripe dev)) := ⟨_, rfl⟩
  have hanswers : ∀ x, ch.allow x true = true ∨ ch.allow x false = true := by
    intro x
    rw [hch]
    cases faulty (task.req.stripe dev) with
    | none => exact Or.inl rfl
    | some d =>
      by_cases hx : x = d
      · exact Or.inr (decide_eq_true hx)
      · exact Or.inl (by simp [stripeChildren, Children.failStop, hx])
  by_contra hst
  obtain ⟨e, he, htask, hn⟩ := h.reached.serving.enabled hq hanswers overflowChecks ht hst
  have hsame : s.device.next dev (s.children dev late faulty e) overflowChecks e =
      s.device.next dev ch overflowChecks e := by
    cases e with
    | child t' ce =>
      obtain rfl := htask t' rfl
      simp only [Watched.children, ht, hch]
    | _ => rfl
  have hnone := hrest e he
  rw [Watched.next, Option.map_eq_none_iff, hsame] at hnone
  change (s.device.next dev ch overflowChecks e).isSome at hn
  rw [hnone] at hn
  cases hn

end runs

/-- **At most one faulty disk in a stripe, from any moment on.** A stripe `k` is consistent at the
start, unless disk `d` is stale from the start. Only `d` may fail there, at any time; once it has
failed a write it fails everything there, and the children store what the buffer of a write held
when it was submitted. A build with overflow checks has at most 64 disks. Whatever the children
do in other stripes, early or late, the answers of stripe `k` are those of a flat disk, in the
order of submission, except that writes may be reported as failures: every read succeeds with
what was written last. When no request of the stripe is in progress, the other disks make up the
contents of the flat disk; while `d` has missed no write, the stripe is consistent. Without new
requests every schedule stops, with every request completed. -/
theorem one_faulty_disk_per_stripe [XorGroup B] (dev : Raid5Bdev) (overflowChecks : Bool)
    (hbit : overflowChecks = true → dev.diskCount ≤ 64) (late : Nat → Bool)
    (faulty : Nat → Option Nat) (hfaulty : ∀ k d, faulty k = some d → d < dev.diskCount)
    (disks : Nat → Nat → B) (stale : Nat → Bool)
    (hpar : ∀ k d, faulty k = some d → stale k = false → ∀ row, row / dev.stripBlocks = k →
      ∑ x ∈ Finset.range dev.diskCount, disks x row = 0)
    (es : List (DevEvent B)) (s : Watched B)
    (hrun : run (Watched.next dev late faulty overflowChecks) ⟨Device.start disks, stale⟩ es =
      some s) :
    (∀ k d, faulty k = some d →
      FlatDisk dev True (dev.decode (dev.repair d disks)) (answersOf dev k s.device.log) ∧
      ((∀ t req prog frame, ¬ s.device.Processing dev t k req prog frame) →
        (∀ b, dev.stripeIdx b = k → dev.decode (dev.repair d s.device.disks) b =
          applied dev (dev.decode (dev.repair d disks)) (answersOf dev k s.device.log) b) ∧
        (s.stale k = false → ∀ row, row / dev.stripBlocks = k →
          ∑ x ∈ Finset.range dev.diskCount, s.device.disks x row = 0))) ∧
      (∀ k, onKey (Request.stripe dev) k (s.device.log.map (·.req)) <+:
        onKey (Request.stripe dev) k s.device.submitted) ∧
      (∀ a ∈ s.device.log, a.sender = a.req.sender) ∧
      Stops (Watched.next dev late faulty overflowChecks) DevEvent.Inner s ∧
      ((∀ e : DevEvent B, e.Inner → s.next dev late faulty overflowChecks e = none) → ∀ k,
        onKey (Request.stripe dev) k (s.device.log.map (·.req)) =
          onKey (Request.stripe dev) k s.device.submitted) := by
  have hs : Watching dev late faulty (fun d => dev.decode (dev.repair d disks)) s := by
    refine run_always ⟨reached_start fun _ hk => absurd hk id, fun k d hd => ?_,
      fun _ _ _ => trivial⟩ (fun _ _ _ h hn => h.step hbit hfaulty hn) hrun
    exact ⟨none, serves_start _, guarded_start (hfaulty k d hd) (hpar k d hd)⟩
  refine ⟨fun k d hd => ⟨hs.answers k d hd, fun hno => ?_⟩, hs.reached.serialized.order,
    hs.reached.serialized.senders, Watched.stops hs.reached hbit,
    fun hrest => hs.reached.answered_of_over fun _ _ ht => hs.over hrest ht⟩
  obtain ⟨b, hb, hguard⟩ := hs.guarded k d hd
  obtain rfl : b = none := hb.unique hno
  have hagree := applied_answersOf (.refl dev k (dev.decode (dev.repair d disks))) s.device.log
  refine ⟨fun b hb => ?_, fun hgood row hrow => ?_⟩
  · refine (decode_encode (fun x hx row hrow => repair_encode (hfaulty k d hd)
      (fun y hy hne row hrow => ?_) hx hrow) hb).trans (hagree b hb).symm
    exact hguard y hy (fun hc => hne hc.1) row hrow
  · rw [Finset.sum_congr rfl fun x hx => hguard x (Finset.mem_range.mp hx)
      (fun hc => by rw [hgood] at hc; cases hc.2) row hrow]
    exact encode_sum dev _ row

/-- A write of stripe 1 whose parity is stored from a buffer that has been freed. -/
def lateParity : List (DevEvent Byte) :=
  [.submit ⟨⟨⟨.write, 4, 4⟩, 9⟩, fun _ => ⟨6⟩⟩, .start 1, .dequeue 0 0] ++
    List.replicate 9 (.step 0) ++ [.child 0 (.apply 1 fun _ => ⟨77⟩)]

/-- A write whose data disk fails while it is stored, and a read of the block from the others. -/
def failThenRead : List (DevEvent Byte) :=
  [[.submit ⟨⟨⟨.write, 0, 1⟩, 7⟩, fun _ => ⟨5⟩⟩, .submit ⟨⟨⟨.read, 0, 1⟩, 8⟩, 0⟩, .start 0,
      .start 0, .dequeue 1 0],
    List.replicate 4 (.step 1),
    [.child 1 (.apply 0 0), .child 1 (.finish 0), .step 1, .child 1 (.apply 1 0),
      .child 1 (.finish 1)],
    List.replicate 7 (.step 1),
    [.child 1 (.fail 2 0), .step 1, .child 1 (.apply 3 0), .child 1 (.finish 3)],
    List.replicate 11 (.step 1),
    [.dequeue 1 0, .step 1, .child 1 (.fail 0 0)],
    List.replicate 5 (.step 1),
    [.child 1 (.apply 1 0), .child 1 (.finish 1), .step 1, .child 1 (.apply 2 0),
      .child 1 (.finish 2)],
    List.replicate 13 (.step 1), [.dequeue 1 0]].flatten

/-- Stripe 0 has a faulty disk, and the others no bound on their faults. -/
def oneBound (k : Nat) : Option Nat := if k = 0 then some 1 else none

theorem one_faulty_disk_per_stripe_failThenRead :
    ∃ s, run (Watched.next smallArray (fun _ => true) oneBound true)
        ⟨Device.start 0, fun _ => false⟩ (lateParity ++ failThenRead) = some s ∧
      s.device.log.map (fun a => (a.status, a.mem 0)) = [(.failure, ⟨5⟩), (.success, ⟨5⟩)] ∧
      s.device.disks 1 2 = ⟨77⟩ ∧ s.stale 0 = true ∧
      FlatDisk smallArray True (smallArray.decode (smallArray.repair 1 0))
        (answersOf smallArray 0 s.device.log) := by
  have hview : (run (Watched.next smallArray (fun _ => true) oneBound true)
      ⟨Device.start 0, fun _ => false⟩ (lateParity ++ failThenRead)).map
      (fun s => (s.device.log.map (fun a => (a.status, a.mem 0)), s.device.disks 1 2,
        s.stale 0)) = some ([(.failure, ⟨5⟩), (.success, ⟨5⟩)], ⟨77⟩, true) := by
    decide
  obtain ⟨s, hs, hl⟩ := Option.map_eq_some_iff.mp hview
  obtain ⟨hlog, hl⟩ := Prod.mk.inj hl
  obtain ⟨hlate, hstale⟩ := Prod.mk.inj hl
  have hfaulty : ∀ k d, oneBound k = some d → d < smallArray.diskCount := by
    intro k d hd
    obtain ⟨_, hd⟩ := Option.ite_none_right_eq_some.mp hd
    cases hd
    decide
  exact ⟨s, hs, hlog, hlate, hstale, ((one_faulty_disk_per_stripe smallArray true
    (fun _ => by decide) (fun _ => true) oneBound hfaulty 0 (fun _ => false)
    (fun _ _ _ _ _ _ => by simp) _ s hs).1 0 1 rfl).1⟩

end Ironspdk.Raid5
