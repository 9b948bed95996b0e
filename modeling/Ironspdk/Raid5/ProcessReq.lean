import Ironspdk.Lib.Runs
import Ironspdk.Raid5.FullStripe

/-! # Processing one request

The specification of `process_req` for every kind of request, and the runs of one
request: its program takes a step, a child I/O moves on, or another request writes to
another stripe. What the specification says of a program holds along every run. -/
namespace Ironspdk.Raid5
open Ironspdk.Lib Ironspdk.Runtime

variable {B : Type}

/-- What a request does to the logical contents. -/
def QueuedIo.effect (dev : Raid5Bdev) (req : QueuedIo) (data flat : Nat → B) : Nat → B :=
  if req.io.ioType = .write ∧ ¬ dev.crossesStripe req.io then
    overwrite flat req.io.offsetBlocks req.io.numBlocks data
  else flat

/-- The request takes the path of `write_full_stripe`. -/
def QueuedIo.FullStripe (dev : Raid5Bdev) (req : QueuedIo) : Prop :=
  req.io.ioType = .write ∧ dev.stripeOffset req.io.offsetBlocks = 0 ∧
    req.io.numBlocks = dev.stripeBlocks

instance (dev : Raid5Bdev) (req : QueuedIo) : Decidable (req.FullStripe dev) :=
  inferInstanceAs (Decidable (_ ∧ _))

/-- What holds of a request when it is completed. -/
def Setting.Result [XorGroup B] (E : Setting B) (req : QueuedIo) (data : Nat → B) (st : IoStatus)
    (s : Proc B) : Prop :=
  if E.dev.crossesStripe req.io then st = .failure
  else
    match req.io.ioType with
    | .read => E.ReadResult req.io st s
    | .write => E.WriteResult req.io data st s
    | .flush => st = .success
    | _ => st = .failure

/-- A request as it is taken from its queue: nothing submitted, nothing completed, `data`
in its memory. -/
structure Fresh [XorGroup B] (E : Setting B) (req : QueuedIo) (data : Nat → B) (s : Proc B) :
    Prop where
  inv : Inv E s
  ios : s.ios = []
  completions : s.completions = []
  bufs : 0 < s.bufs
  stripe : E.dev.stripeIdx req.io.offsetBlocks = E.stripe
  data : ∀ j < req.io.numBlocks, s.mem 0 j = data j

section rules
variable [XorGroup B] {E : Setting B} {req : QueuedIo} {data : Nat → B} {s : Proc B}

/-- A request that is answered without any child I/O. -/
theorem Fresh.wp_answer (h : Fresh E req data s) {st : IoStatus}
    (hres : ∀ t, E.Result req data st t) (heff : req.effect E.dev data E.flat = E.flat) :
    E.wp req.sender (E.Result req data) (completeOn req.sender st)
      (fun _ t => E.End req.sender (req.effect E.dev data E.flat) t) s := by
  have hall : s.AllDone := fun c hc => by simp [h.ios] at hc
  have hnil : s.reqs = [] := by rw [Proc.reqs, h.ios]; rfl
  rw [← Prog.bind_pure' (completeOn req.sender st), heff]
  refine wp_completeOn h.inv h.completions (fun _ => hall) (fun t _ _ => hres t)
    fun t ht hr _ _ _ hct => (stable E).wp_ret ht fun u hu hext => ?_
  refine hu.end_flat ?_ (hext.completions.trans hct)
  rw [hext.reqs, hr, hnil]
  exact fun r hr => absurd hr List.not_mem_nil

/-- **What `process_req` does.** It completes every request once, on its sender, with the
result its kind asks for, and leaves the stripe with the request's effect. -/
theorem wp_processReq {overflowChecks : Bool} (h : Fresh E req data s)
    (hshift : E.ShiftOk overflowChecks)
    (hlate : req.FullStripe E.dev → E.held → E.children.late = false) :
    E.wp req.sender (E.Result req data) (processReq E.dev overflowChecks E.stripe req)
      (fun _ t => E.End req.sender (req.effect E.dev data E.flat) t) s := by
  unfold processReq
  split
  · rename_i hcross
    refine h.wp_answer (fun t => ?_) (if_neg fun hc => hc.2 hcross)
    rw [Setting.Result, if_pos hcross]
  · rename_i hfit
    have hres : E.Result req data = fun st t => match req.io.ioType with
      | .read => E.ReadResult req.io st t
      | .write => E.WriteResult req.io data st t
      | .flush => st = .success
      | _ => st = .failure := by
        funext st t
        rw [Setting.Result, if_neg hfit]
    cases hty : req.io.ioType with
    | read =>
      have heff : req.effect E.dev data E.flat = E.flat := if_neg fun hc => by simp [hty] at hc
      rw [hres, heff]
      simp only [hty]
      exact wp_read h.inv h.ios h.completions h.bufs h.stripe hfit
    | write =>
      have heff : req.effect E.dev data E.flat =
          overwrite E.flat req.io.offsetBlocks req.io.numBlocks data := if_pos ⟨hty, hfit⟩
      rw [hres, heff]
      simp only [hty]
      unfold write
      split
      · rename_i hfull
        exact wp_writeFullStripe h.inv h.ios h.completions h.bufs (hlate ⟨hty, hfull⟩) h.stripe
          hfull hshift h.data
      · exact wp_writePartialStripe h.inv h.ios h.completions h.bufs h.stripe hfit hshift h.data
    | flush =>
      refine h.wp_answer (fun t => ?_) (if_neg fun hc => by simp [hty] at hc)
      rw [hres]
      simp only [hty]
    | _ =>
      refine h.wp_answer (fun t => ?_) (if_neg fun hc => by simp [hty] at hc)
      rw [hres]
      simp only [hty]

end rules

/-! ## Runs -/

/-- A request in progress: what its program has still to do, and its state. -/
abbrev Running (B : Type) := Task Unit × Proc B

inductive Event (B : Type)
  | step
  | child (e : ChildEvent B)
  | others (disk row : Nat) (b : B)

/-- The state in which `process_req` starts on a request: number 0 of the buffers in `mem`
is its own memory. -/
def Proc.start (mem disks : Nat → Nat → B) : Proc B :=
  { mem := mem, bufs := 1, ios := [], completions := [], trace := [], disks := disks }

/-- The next operation of a program. -/
def stepProg [Add B] [Zero B] : Running B → Option (Running B)
  | (.ret _, _) => none
  | (.op o k, s) => (perform o s).map fun (r, t) => (k r, t)

/-- One event of a run; other requests keep to other stripes. -/
def Running.next [Add B] [Zero B] (dev : Raid5Bdev) (ch : Children) (stripe : Nat) (c : Running B) :
    Event B → Option (Running B)
  | .step => stepProg c
  | .child e => (ch.react c.2 e).map fun t => (c.1, t)
  | .others disk row b =>
    if row / dev.stripBlocks = stripe then none
    else some (c.1, { c.2 with disks := Function.update c.2.disks disk
                                 (Function.update (c.2.disks disk) row b) })

/-- On prompt schedules, an await of a failed read of `reconstruct` finds the other reads of
`reconstruct` ended. -/
def PromptStep (c : Running B) : Event B → Prop
  | .step =>
    match c.1 with
    | .op (.await i) _ => PromptAt c.2 i
    | _ => True
  | _ => True

def Phase.Ended (p : Phase) : Prop := p = .done true ∨ p = .done false

instance (p : Phase) : Decidable p.Ended := inferInstanceAs (Decidable (_ ∨ _))

theorem Phase.ended_iff {p : Phase} : p.Ended ↔ ∃ b, p = .done b :=
  ⟨fun h => h.elim (fun h => ⟨true, h⟩) (fun h => ⟨false, h⟩), fun ⟨b, h⟩ => by
    cases b
    · exact Or.inr h
    · exact Or.inl h⟩

theorem allDone_iff {s : Proc B} : s.AllDone ↔ ∀ x ∈ s.ios, x.phase.Ended := by
  refine ⟨fun h x hx => ?_, fun h c hc => ?_⟩
  · obtain ⟨c, hc⟩ := List.mem_iff_getElem?.mp hx
    exact Phase.ended_iff.mpr (h.at hc)
  · obtain ⟨b, hb⟩ := Phase.ended_iff.mp (h _ (List.getElem_mem hc))
    exact ⟨b, _, List.getElem?_eq_getElem hc, hb⟩

instance (s : Proc B) : Decidable s.AllDone := decidable_of_iff _ allDone_iff.symm

theorem promptAt_iff {s : Proc B} {c : Nat} : PromptAt s c ↔
    ∀ x ∈ s.ios[c]?, x.req.kind = .rebuild → x.phase = .done false →
      ∀ y ∈ s.ios, y.req.kind = .rebuild → y.phase.Ended := by
  refine ⟨fun h x hx hk hp y hy hyk => ?_, fun h x hx hk hp d y hy hyk => ?_⟩
  · obtain ⟨d, hd⟩ := List.mem_iff_getElem?.mp hy
    exact Phase.ended_iff.mpr (h x hx hk hp d y hd hyk)
  · exact Phase.ended_iff.mp (h x hx hk hp y (List.mem_of_getElem? hy) hyk)

instance (s : Proc B) (c : Nat) : Decidable (PromptAt s c) := decidable_of_iff _ promptAt_iff.symm

instance (c : Running B) : (e : Event B) → Decidable (PromptStep c e)
  | .step =>
    match h : c.1 with
    | .op (.await i) _ => decidable_of_iff (PromptAt c.2 i) (by simp [PromptStep, h])
    | .ret _ | .op (.alloc _) _ | .op (.xor ..) _ | .op (.copy ..) _ | .op (.submit _) _
    | .op (.drop _) _ | .op (.complete ..) _ | .op (.panic _) _ => isTrue (by simp [PromptStep, h])
  | .child _ | .others .. => isTrue trivial

section runs
variable [XorGroup B] {E : Setting B} {sender : SpdkThread} {result : IoStatus → Proc B → Prop}
  {Q : Unit → Proc B → Prop} {c u : Running B}

/-- A request with nothing submitted, on disks that may hold anything. -/
theorem Fresh.start {req : QueuedIo} (hstripe : E.dev.stripeIdx req.io.offsetBlocks = E.stripe)
    {mem disks : Nat → Nat → B} (hkept : ∀ x < E.dev.diskCount, ¬ E.dead x → ∀ row, E.Row row →
      disks x row = E.dev.encode E.flat x row) : Fresh E req (mem 0) (Proc.start mem disks) := by
  refine ⟨⟨⟨?_, ?_, ?_, ?_, ?_⟩, ?_, ?_, ?_, ?_, ?_, ?_, ?_, ?_⟩, rfl, rfl, Nat.one_pos, hstripe,
    fun _ _ => rfl⟩
  case refine_10 => exact fun x hx hd row hrow _ => hkept x hx hd row hrow
  all_goals simp [Proc.start, Proc.reqs]

theorem stepProg_cases (h : stepProg c = some u) : ∃ o k r, c.1 = .op o k ∧
    perform o c.2 = some (r, u.2) ∧ u.1 = k r := by
  obtain ⟨p, s⟩ := c
  cases p with
  | ret a => cases h
  | op o k =>
    obtain ⟨⟨r, t⟩, hp, rfl⟩ := Option.map_eq_some_iff.mp h
    exact ⟨o, k, r, rfl, hp, rfl⟩

/-- A step of a run keeps what is known of the program. -/
theorem wp_next {e : Event B} (h : E.wp sender result c.1 Q c.2)
    (hp : E.prompt → PromptStep c e) (hn : c.next E.dev E.children E.stripe e = some u) :
    E.wp sender result u.1 Q u.2 := by
  cases e with
  | step =>
    obtain ⟨o, k, r, hop, hperf, hu⟩ := stepProg_cases hn
    rw [hu]
    rw [hop] at h
    refine wp_step h ?_ hperf
    cases o with
    | await i => exact fun hprompt => by simpa [PromptStep, hop] using hp hprompt
    | _ => trivial
  | child e =>
    obtain ⟨t, ht, rfl⟩ := Option.map_eq_some_iff.mp hn
    exact wp_env h (Or.inl ⟨e, ht⟩)
  | others disk row b =>
    simp only [Running.next] at hn
    split at hn
    · cases hn
    · rename_i hrow
      cases hn
      refine wp_env h (Or.inr ⟨_, rfl, fun x row' hr => ?_⟩)
      by_cases hx : x = disk
      · subst hx
        rw [Function.update_self, Function.update_of_ne]
        rintro rfl
        exact hrow hr
      · rw [Function.update_of_ne hx]

/-- What is known of a program holds along its runs. -/
theorem wp_run {es : List (Event B)} (hprompt : ¬ E.prompt) (h : E.wp sender result c.1 Q c.2)
    (hrun : run (Running.next E.dev E.children E.stripe) c es = some u) :
    E.wp sender result u.1 Q u.2 :=
  run_always (I := fun c : Running B => E.wp sender result c.1 Q c.2) h
    (fun _ _ _ h hn => wp_next h (fun hp => absurd hp hprompt) hn) hrun

end runs

end Ironspdk.Raid5
