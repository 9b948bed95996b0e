import Ironspdk.Raid5.ProcessReq

/-! # Lifetimes of contexts and buffers

A future borrows only its context, so nothing but the order of the code keeps contexts
and buffers alive while child I/Os use them. Two orders matter: whether a child I/O can
outlive the request, and whether the `Io` of a child write can go before the write has
ended. The early return of `reconstruct` breaks the first, the submission loop of
`write_full_stripe` the second; everything else keeps them. -/
namespace Ironspdk.Raid5
open Ironspdk.Lib Ironspdk.Runtime

variable {B : Type}

/-! ## Child I/Os and the request -/

/-- What an event must not leave behind: when the request is completed, and when a context
or the buffer of a child read is dropped, all child I/Os have ended. -/
def EndsFirst (c : Running B) : Event B → Prop
  | .step =>
    match c.1 with
    | .op (.complete _ _) _ => c.2.AllDone
    | .op (.drop (.ctx _)) _ => c.2.AllDone
    | .op (.drop (.io i)) _ => (∃ x, c.2.ios[i]? = some x ∧ x.req.kind ≠ .store) → c.2.AllDone
    | _ => True
  | _ => True

instance (s : Proc B) (i : Nat) : Decidable (∃ x, s.ios[i]? = some x ∧ x.req.kind ≠ .store) :=
  decidable_of_iff (∃ x ∈ s.ios[i]?, x.req.kind ≠ .store) Iff.rfl

instance (c : Running B) : (e : Event B) → Decidable (EndsFirst c e)
  | .step =>
    match h : c.1 with
    | .op (.complete _ _) _ | .op (.drop (.ctx _)) _ =>
      decidable_of_iff c.2.AllDone (by simp [EndsFirst, h])
    | .op (.drop (.io i)) _ =>
      decidable_of_iff ((∃ x, c.2.ios[i]? = some x ∧ x.req.kind ≠ .store) → c.2.AllDone)
        (by simp [EndsFirst, h])
    | .ret _ | .op (.alloc _) _ | .op (.xor ..) _ | .op (.copy ..) _ | .op (.submit _) _
    | .op (.await _) _ | .op (.panic _) _ => isTrue (by simp [EndsFirst, h])
  | .child _ | .others .. => isTrue trivial

section
variable [XorGroup B] {E : Setting B} {sender : SpdkThread} {result : IoStatus → Proc B → Prop}
  {Q : Unit → Proc B → Prop} {c u : Running B}

theorem wp_endsFirst {e : Event B} (h : E.wp sender result c.1 Q c.2) (hprompt : E.prompt)
    (hp : PromptStep c e) : EndsFirst c e := by
  cases e with
  | step =>
    obtain ⟨p, s⟩ := c
    cases p with
    | ret a => trivial
    | op o k =>
      cases o with
      | complete who st => exact (wp_ensure h trivial).2.2.2 hprompt
      | drop r =>
        have hd : DropOk E s r := wp_ensure h trivial
        cases r with
        | ctx i =>
          obtain ⟨_, _, hall⟩ := hd
          exact hall hprompt
        | io i =>
          rintro ⟨x, hx, hk⟩
          obtain ⟨y, hy, _, hall⟩ := hd
          cases Option.some.inj (hx.symm.trans hy)
          exact hall hk hprompt
      | _ => trivial
  | _ => trivial

end

/-- **No child I/O outlives its request, on prompt schedules.** However the children answer
and in whichever order: when a failed read of `reconstruct` is awaited only once the other
reads of `reconstruct` have ended, no child I/O is out when the request is completed, nor
when a context or the buffer of a child read is dropped. -/
theorem child_io_ends_first [XorGroup B] (dev : Raid5Bdev) (ch : Children) (overflowChecks : Bool)
    (req : QueuedIo) (mem disks : Nat → Nat → B) (es : List (Event B))
    (hp : Along (Running.next dev ch (dev.stripeIdx req.io.offsetBlocks)) PromptStep
      (processReq dev overflowChecks (dev.stripeIdx req.io.offsetBlocks) req,
        Proc.start mem disks) es) :
    Along (Running.next dev ch (dev.stripeIdx req.io.offsetBlocks)) EndsFirst
      (processReq dev overflowChecks (dev.stripeIdx req.io.offsetBlocks) req,
        Proc.start mem disks) es := by
  obtain ⟨E, rfl, rfl, hstripe, hdead, hheld, hprompt, habort⟩ : ∃ E : Setting B, dev = E.dev ∧
      ch = E.children ∧ E.dev.stripeIdx req.io.offsetBlocks = E.stripe ∧ (∀ x, E.dead x) ∧
      ¬ E.held ∧ E.prompt ∧ E.mayAbort :=
    ⟨⟨dev, ch, dev.stripeIdx req.io.offsetBlocks, fun _ => True, 0, False, True, True⟩, rfl, rfl,
      rfl, fun _ => trivial, id, trivial, trivial⟩
  rw [hstripe] at hp ⊢
  refine along_of_invariant (I := fun c : Running B => E.wp req.sender (E.Result req (mem 0)) c.1
    (fun _ t => E.End req.sender (req.effect E.dev (mem 0) E.flat) t) c.2)
    (fun c e u h hpe hn => wp_next h (fun _ => hpe) hn)
    (fun c e u h hpe _ => wp_endsFirst h hprompt hpe) ?_ hp
  exact wp_processReq (Fresh.start hstripe fun x _ hx => absurd (hdead x) hx)
    (fun _ => Or.inl habort) (fun _ he => absurd he hheld)

/-- A read of one block on which every child fails: the other reads of `reconstruct` are
awaited in turn. -/
def promptRead : List (Event Byte) :=
  [.step, .child (.fail 0 0), .step, .step, .step, .step, .step, .child (.fail 1 0),
    .child (.fail 2 0), .step, .step, .step, .step, .step, .step]

theorem child_io_ends_first_promptRead :
    Along (Running.next smallArray ⟨fun _ _ => true, false⟩ 0) EndsFirst
      (processReq smallArray true 0 ⟨⟨.read, 0, 1⟩, 0⟩, Proc.start 0 0) promptRead :=
  child_io_ends_first smallArray ⟨fun _ _ => true, false⟩ true ⟨⟨.read, 0, 1⟩, 0⟩ 0 0
    promptRead (by decide)

/-- The operation a program is at, if it completes the request. -/
def Running.completing (c : Running B) : Option (SpdkThread × IoStatus) :=
  match c.1 with
  | .op (.complete who st) _ => some (who, st)
  | _ => none

/-- The same read, but the second child read of `reconstruct` is still out when the first
is awaited. -/
def earlyRead : List (Event Byte) :=
  [.step, .child (.fail 0 0), .step, .step, .step, .step, .step, .child (.fail 1 0), .step,
    .step, .step, .step, .step]

theorem child_io_left_behind :
    (¬ Along (Running.next smallArray ⟨fun _ _ => true, false⟩ 0) EndsFirst
      (processReq smallArray true 0 ⟨⟨.read, 0, 1⟩, 0⟩, Proc.start 0 0) earlyRead) ∧
    (run (Running.next smallArray ⟨fun _ _ => true, false⟩ 0)
      (processReq smallArray true 0 ⟨⟨.read, 0, 1⟩, 0⟩, Proc.start 0 0) earlyRead).map
        (fun c => (c.completing, c.2.ios.map (·.phase))) =
      some (some (0, .failure), [.done false, .done false, .inFlight]) := by
  decide

/-! ## Buffers and child writes -/

/-- In the trace, no `Io` of a child write is dropped before the write has ended. -/
def HeldToEnd (s : Proc B) : Prop :=
  ∀ (c : Nat) (pre post : List TraceEvent), s.trace = pre ++ .drop (.io c) :: post →
    (∃ x, s.ios[c]? = some x ∧ x.req.kind = .store) → ∃ b, .complete c b ∈ pre

/-- Every child write that succeeded has stored what its buffer held when it was submitted. -/
def StoredAsSubmitted (s : Proc B) : Prop :=
  ∀ (c : Nat) (x : ChildIo B), s.ios[c]? = some x → x.req.kind = .store → x.phase = .done true →
    ∀ j < x.req.io.numBlocks, s.disks x.req.disk (x.req.io.offsetBlocks + j) = x.data j

/-- What the trace of a request records, as long as its buffers are held. -/
structure Traced (s : Proc B) : Prop where
  ended : ∀ (c : Nat) (x : ChildIo B) (b : Bool), s.ios[c]? = some x → x.phase = .done b →
    .complete c b ∈ s.trace
  past : ∀ c, .drop (.io c) ∈ s.trace → c < s.ios.length
  held : HeldToEnd s

section traced
variable {s t : Proc B}

/-- A trace that goes on with something else than a drop holds what it held. -/
theorem HeldToEnd.snoc (h : HeldToEnd s) {e : TraceEvent} (he : ∀ r, e ≠ .drop r)
    (htr : t.trace = s.trace ++ [e]) (hios : ∀ (c : Nat) (x : ChildIo B), .drop (.io c) ∈ s.trace →
      t.ios[c]? = some x → ∃ y, s.ios[c]? = some y ∧ y.req = x.req) : HeldToEnd t := by
  intro c pre post htrace hx
  obtain ⟨x, hx, hk⟩ := hx
  rw [htr] at htrace
  rcases List.eq_nil_or_concat post with rfl | ⟨post, d, rfl⟩
  · have := List.append_inj_right' htrace rfl
    exact absurd (List.cons.inj this).1 (he _)
  · rw [List.concat_eq_append, ← List.cons_append, ← List.append_assoc] at htrace
    have hpre := List.append_inj_left' htrace rfl
    have hmem : .drop (.io c) ∈ s.trace := by rw [hpre]; simp
    obtain ⟨y, hy, hreq⟩ := hios c x hmem hx
    exact h c pre post hpre ⟨y, hy, hreq ▸ hk⟩

theorem Traced.react {ch : Children} {e : ChildEvent B} (h : Traced s)
    (hr : ch.react s e = some t) : Traced t := by
  obtain ⟨c, x, hx, hcase⟩ := react_cases hr
  obtain ⟨p, htr, hios⟩ : ∃ p, ((t.trace = s.trace ∧ ∀ b, p ≠ .done b) ∨
      ∃ b, t.trace = s.trace ++ [.complete c b] ∧ p = .done b) ∧
      t.ios = s.ios.set c { x with phase := p } := by
    rcases hcase with ⟨_, _, junk, rfl⟩ | ⟨_, rfl⟩ | ⟨_, _, junk, rfl⟩
    · exact ⟨.applied, Or.inl ⟨put_trace .., nofun⟩, by rw [Proc.setPhase, put_ios]⟩
    · exact ⟨.done true, Or.inr ⟨true, rfl, rfl⟩, rfl⟩
    · exact ⟨.done false, Or.inr ⟨false, rfl, rfl⟩,
        by simp only [Proc.setPhase, put_ios]⟩
  have hsub : ∀ e ∈ s.trace, e ∈ t.trace := by
    rcases htr with ⟨htr, _⟩ | ⟨b, htr, _⟩ <;> rw [htr] <;> simp +contextual
  have hreq : ∀ {d : Nat} {y : ChildIo B}, t.ios[d]? = some y →
      ∃ z, s.ios[d]? = some z ∧ z.req = y.req := by
    intro d y hy
    rcases setPhase_get (hios ▸ hy) with ⟨rfl, rfl⟩ | ⟨_, hy⟩
    · exact ⟨x, hx, rfl⟩
    · exact ⟨y, hy, rfl⟩
  refine ⟨fun d y b hy hb => ?_, fun d hd => ?_, ?_⟩
  · rcases setPhase_get (hios ▸ hy) with ⟨rfl, rfl⟩ | ⟨_, hy⟩
    · rcases htr with ⟨_, hne⟩ | ⟨b', htr, hp⟩
      · exact absurd hb (hne b)
      · obtain rfl : b' = b := by
          have := hp.symm.trans hb
          exact Phase.done.inj this
        rw [htr]
        simp
    · exact hsub _ (h.ended d y b hy hb)
  · rw [hios, List.length_set]
    refine h.past d ?_
    rcases htr with ⟨htr, _⟩ | ⟨b, htr, _⟩ <;> rw [htr] at hd <;> simpa using hd
  · rcases htr with ⟨htr, _⟩ | ⟨b, htr, _⟩
    · intro d pre post htrace hd
      obtain ⟨y, hy, hk⟩ := hd
      obtain ⟨z, hz, hzr⟩ := hreq hy
      exact h.held d pre post (htr ▸ htrace) ⟨z, hz, hzr ▸ hk⟩
    · exact h.held.snoc (fun r he => by cases he) htr fun d y _ hy => hreq hy

/-- An operation keeps the trace in order, if what it drops is not in use. -/
theorem Traced.perform [Add B] [Zero B] (h : Traced s) {o : Op} {r : Res o}
    (hp : perform o s = some (r, t))
    (hdrop : ∀ c, o = .drop (.io c) → ∃ x, s.ios[c]? = some x ∧
      (x.req.kind = .store → ∃ b, x.phase = .done b)) : Traced t := by
  cases o with
  | alloc z | xor _ _ _ | copy _ _ | complete _ _ =>
    cases hp
    exact ⟨h.ended, h.past, h.held⟩
  | await c =>
    simp only [Raid5.perform] at hp
    split at hp
    · cases hp
      exact h
    · cases hp
  | panic msg => cases hp
  | submit req =>
    cases hp
    refine ⟨fun c x b hx hb => ?_, fun c hc => ?_, ?_⟩
    · rcases append_get hx with hx | ⟨_, rfl⟩
      · exact List.mem_append_left _ (h.ended c x b hx hb)
      · cases hb
    · have hold : .drop (.io c) ∈ s.trace := by simpa using hc
      have := h.past c hold
      simp
      omega
    · refine h.held.snoc (fun r he => by cases he) rfl fun c x hc hx => ?_
      rcases append_get hx with hx | ⟨rfl, _⟩
      · exact ⟨x, hx, rfl⟩
      · exact absurd (h.past _ hc) (Nat.lt_irrefl _)
  | drop d =>
    cases hp
    refine ⟨fun c x b hx hb => List.mem_append_left _ (h.ended c x b hx hb), fun c hc => ?_, ?_⟩
    · rcases List.mem_append.mp hc with hc | hc
      · exact h.past c hc
      · obtain rfl : .io c = d := by simpa using hc
        obtain ⟨x, hx, _⟩ := hdrop c rfl
        exact (List.getElem?_eq_some_iff.mp hx).1
    · intro c pre post htrace hx
      rcases List.eq_nil_or_concat post with rfl | ⟨post, e, rfl⟩
      · -- the drop itself: the write has ended, so its completion is in the trace
        obtain ⟨rfl, hd⟩ := List.append_inj' htrace rfl
        obtain rfl : d = .io c := by simpa using hd
        obtain ⟨x, hget, hk⟩ := hx
        obtain ⟨y, hy, hdone⟩ := hdrop c rfl
        cases hy.symm.trans hget
        obtain ⟨b, hb⟩ := hdone hk
        exact ⟨b, h.ended c x b hget hb⟩
      · rw [List.concat_eq_append, ← List.cons_append, ← List.append_assoc] at htrace
        exact h.held c pre post (List.append_inj_left' htrace rfl) hx

end traced

section
variable [XorGroup B] {E : Setting B} {sender : SpdkThread} {result : IoStatus → Proc B → Prop}
  {Q : Unit → Proc B → Prop} {c u : Running B}

theorem traced_next {e : Event B} (h : E.wp sender result c.1 Q c.2) (ht : Traced c.2)
    (hheld : E.held) (hlate : E.children.late = true)
    (hn : c.next E.dev E.children E.stripe e = some u) : Traced u.2 := by
  cases e with
  | step =>
    obtain ⟨o, k, r, hop, hperf, _⟩ := stepProg_cases hn
    refine ht.perform hperf fun i ho => ?_
    subst ho
    rw [hop] at h
    have hd : DropOk E c.2 (.io i) := wp_ensure h trivial
    obtain ⟨x, hx, hdone, _⟩ := hd
    exact ⟨x, hx, fun hk => hdone hk hheld hlate⟩
  | child e =>
    obtain ⟨t, hr, rfl⟩ := Option.map_eq_some_iff.mp hn
    exact ht.react hr
  | others disk row b =>
    simp only [Running.next] at hn
    split at hn
    · cases hn
    · cases hn
      exact ⟨ht.ended, ht.past, ht.held⟩

end

theorem traced_start (mem disks : Nat → Nat → B) : Traced (Proc.start mem disks) := by
  refine ⟨?_, ?_, fun c pre post h => ?_⟩
  · simp [Proc.start]
  · simp [Proc.start]
  · simp [Proc.start] at h

/-- A write that is no full-stripe write holds its buffers, and so stores what they held. -/
theorem held_of_not_fullStripe [XorGroup B] (dev : Raid5Bdev) (overflowChecks : Bool)
    {req : QueuedIo} (hpath : ¬ req.FullStripe dev) (allow : Nat → Bool → Bool)
    (mem disks : Nat → Nat → B) {es : List (Event B)} {u : Running B}
    (hrun : run (Running.next dev ⟨allow, true⟩ (dev.stripeIdx req.io.offsetBlocks))
      (processReq dev overflowChecks (dev.stripeIdx req.io.offsetBlocks) req,
        Proc.start mem disks) es = some u) :
    HeldToEnd u.2 ∧ (u.1 = .ret () → StoredAsSubmitted u.2) := by
  obtain ⟨E, hdev, hch, hstripe, hdead, hheld, habort, hprompt⟩ : ∃ E : Setting B, dev = E.dev ∧
      ⟨allow, true⟩ = E.children ∧ E.dev.stripeIdx req.io.offsetBlocks = E.stripe ∧
      (∀ x, E.dead x) ∧ E.held ∧ E.mayAbort ∧ ¬ E.prompt :=
    ⟨⟨dev, ⟨allow, true⟩, dev.stripeIdx req.io.offsetBlocks, fun _ => True, 0, True, False, True⟩,
      rfl, rfl, rfl, fun _ => trivial, trivial, trivial, id⟩
  have hlate : E.children.late = true := by rw [← hch]
  subst hdev
  rw [hstripe, hch] at hrun
  have hinv := run_always (I := fun c : Running B => E.wp req.sender (E.Result req (mem 0)) c.1
    (fun _ t => E.End req.sender (req.effect E.dev (mem 0) E.flat) t) c.2 ∧ Traced c.2)
    ⟨wp_processReq (Fresh.start hstripe fun x _ hx => absurd (hdead x) hx)
      (fun _ => Or.inl habort) (fun hf => absurd hf hpath), traced_start mem disks⟩
    (fun c e u h hn => ⟨wp_next h.1 (fun hp => absurd hp hprompt) hn,
      traced_next h.1 h.2 hheld hlate hn⟩) hrun
  refine ⟨hinv.2.held, fun hret => ?_⟩
  have hend := hinv.1
  rw [hret] at hend
  intro c x hx hk hb
  exact (wp_done hend).inv.stored hheld c x hx hk (Or.inr hb)

/-! ### The submission loop of a full-stripe write -/

section steps
variable [XorGroup B] {dev : Raid5Bdev} {ch : Children} {stripe : Nat} {s t : Proc B}

theorem run_perform {o : Op} {k : Res o → Task Unit} {r : Res o} {es : List (Event B)}
    (h : perform o s = some (r, t)) :
    run (Running.next dev ch stripe) (Prog.perform o >>= k, s) (.step :: es) =
      run (Running.next dev ch stripe) (k r, t) es := by
  have hn : Running.next dev ch stripe (Prog.perform o >>= k, s) .step = some (k r, t) := by
    show (perform o s).map _ = _
    rw [h]
    rfl
  rw [run_cons, hn]
  rfl

theorem run_xorAll (s : Proc B) (dst : DmaBuf) {ios : List Io}
    (h : ∀ io ∈ ios, io.numBlocks = dst.blocks) :
    ∃ t, t.ios = s.ios ∧ t.trace = s.trace ∧ ∀ (k : Unit → Task Unit) (es : List (Event B)),
      run (Running.next dev ch stripe) (xorAll dst ios >>= k, s)
        (List.replicate ios.length .step ++ es) =
      run (Running.next dev ch stripe) (k (), t) es := by
  induction ios generalizing s with
  | nil => exact ⟨s, rfl, rfl, fun _ _ => rfl⟩
  | cons io ios ih =>
    have hlen := h io (List.mem_cons_self ..)
    obtain ⟨t, hios, htr, hrun⟩ := ih { s with mem := xorInto dst.id 0 io s.mem }
      fun io' hio' => h io' (List.mem_cons_of_mem _ hio')
    refine ⟨t, hios, htr, fun k es => ?_⟩
    rw [← hrun, xorAll, Prog.bind_assoc', xor, if_pos ⟨(Nat.zero_add _).le, hlen⟩,
      List.length_cons, List.replicate_succ, List.cons_append]
    exact run_perform rfl

end steps

/-- The loop of a full-stripe write drops the `Io` of the first disk right after it is
submitted. -/
theorem run_firstDrop [XorGroup B] (dev : Raid5Bdev) (overflowChecks : Bool) (sender : SpdkThread)
    {io : BdevIo} {k : Nat} (hk : dev.stripeIdx io.offsetBlocks = k)
    (hoff : dev.stripeOffset io.offsetBlocks = 0) (hnum : io.numBlocks = dev.stripeBlocks)
    (ch : Children) (mem disks : Nat → Nat → B) :
    ∃ es p t y, run (Running.next dev ch k)
        (writeFullStripe dev overflowChecks sender io k, Proc.start mem disks) es = some (p, t) ∧
      t.ios = [y] ∧ t.trace = [.submit 0, .drop (.io 0)] ∧ y.phase = .inFlight ∧
      y.req.kind = .store ∧ y.req.Hits 0 (k * dev.stripBlocks) := by
  obtain ⟨strips, hsplit, _, hstrips, hpairs⟩ := split_full dev hoff hnum hk
  have hfirst : List.range' 0 dev.diskCount = 0 :: List.range' 1 (dev.diskCount - 1) := by
    have := dev.disks_ge
    rw [show dev.diskCount = dev.diskCount - 1 + 1 by omega]
    rfl
  have hlen : ∀ io ∈ strips.map (·.io), io.numBlocks = dev.stripBlocks := by
    intro io hio
    rw [hstrips] at hio
    simp only [List.map_map, List.mem_map] at hio
    obtain ⟨d, _, rfl⟩ := hio
    rfl
  simp only [writeFullStripe, hsplit, hpairs, hfirst, List.map_cons, DmaBuf.newZeroed,
    Prog.bind_assoc', Prog.pure_bind', submitByValue]
  obtain ⟨t, hios, htr, hrun⟩ := run_xorAll
    { Proc.start mem disks with bufs := 2, mem := Function.update mem 1 0 }
    ⟨1, dev.stripBlocks⟩ hlen
  have hnil : t.ios = [] := hios
  have htrace : t.trace = [] := htr
  have hspan : ∀ p : Io, p.offsetBlocks = k * dev.stripBlocks → p.numBlocks = dev.stripBlocks →
      (dev.fullIo k p 0).2.offsetBlocks = k * dev.stripBlocks ∧
        (dev.fullIo k p 0).2.numBlocks = dev.stripBlocks := by
    intro p hp hp'
    unfold Raid5Bdev.fullIo
    split
    · exact ⟨hp, hp'⟩
    · exact ⟨rfl, rfl⟩
  obtain ⟨x, hx⟩ : ∃ x, x = (dev.fullIo k (Io.newBuf ⟨1, dev.stripBlocks⟩
    (k * dev.stripBlocks)) 0).2 := ⟨_, rfl⟩
  obtain ⟨hat, hblocks⟩ := hspan (Io.newBuf ⟨1, dev.stripBlocks⟩ (k * dev.stripBlocks)) rfl rfl
  rw [← hx] at hat hblocks
  refine ⟨.step :: (List.replicate (strips.map (·.io)).length .step ++ [.step, .step]), _, _,
    ⟨⟨.store, 0, x⟩, load x t.mem, .inFlight⟩,
    (run_perform rfl).trans ((hrun _ _).trans ((run_perform rfl).trans
      ((run_perform rfl).trans (run_nil _)))), ?_, ?_, rfl, rfl, rfl, hat.le, ?_⟩
  · rw [hx]
    exact congrArg (· ++ _) hnil
  · simp [hnil, htrace]
  · show _ < x.offsetBlocks + x.numBlocks
    rw [hat, hblocks]
    exact Nat.lt_add_of_pos_right dev.strip_pos

theorem not_held_of_fullStripe [XorGroup B] (dev : Raid5Bdev) (overflowChecks : Bool)
    (req : QueuedIo) (hfull : req.FullStripe dev) (ch : Children) (mem disks : Nat → Nat → B) :
    ∃ es u, run (Running.next dev ch (dev.stripeIdx req.io.offsetBlocks))
      (processReq dev overflowChecks (dev.stripeIdx req.io.offsetBlocks) req,
        Proc.start mem disks) es = some u ∧ ¬ HeldToEnd u.2 := by
  obtain ⟨hty, hoff, hnum⟩ := hfull
  have hfit : ¬ dev.crossesStripe req.io := by
    rw [Raid5Bdev.crossesStripe, hoff, hnum]
    omega
  have hpath : processReq dev overflowChecks (dev.stripeIdx req.io.offsetBlocks) req =
      writeFullStripe dev overflowChecks req.sender req.io (dev.stripeIdx req.io.offsetBlocks) := by
    simp only [processReq, if_neg hfit, hty, write, if_pos (And.intro hoff hnum)]
  obtain ⟨es, p, t, y, hrun, hios, htrace, _, hkind, _⟩ :=
    run_firstDrop dev overflowChecks req.sender rfl hoff hnum ch mem disks
  refine ⟨es, (p, t), hpath ▸ hrun, fun hheld => ?_⟩
  have hy : t.ios[0]? = some y := by rw [hios]; rfl
  obtain ⟨b, hb⟩ := hheld 0 [.submit 0] [] htrace ⟨y, hy, hkind⟩
  simp at hb

/-- **Buffers outlive their child writes, except in full-stripe writes.** With children that
read the buffer of a write at any moment, and freed buffers that may hold anything: every
run of a request holds the `Io` of each child write until the write has ended, and stores
what was computed, if and only if the request is no full-stripe write. -/
theorem buffers_held_iff [XorGroup B] (dev : Raid5Bdev) (overflowChecks : Bool) (req : QueuedIo) :
    (∀ (allow : Nat → Bool → Bool) (mem disks : Nat → Nat → B) (es : List (Event B))
        (u : Running B),
      run (Running.next dev ⟨allow, true⟩ (dev.stripeIdx req.io.offsetBlocks))
        (processReq dev overflowChecks (dev.stripeIdx req.io.offsetBlocks) req,
          Proc.start mem disks) es = some u →
      HeldToEnd u.2 ∧ (u.1 = .ret () → StoredAsSubmitted u.2)) ↔ ¬ req.FullStripe dev := by
  refine ⟨fun h hfull => ?_, fun hpath allow mem disks es u =>
    held_of_not_fullStripe dev overflowChecks hpath allow mem disks⟩
  obtain ⟨es, u, hrun, hnot⟩ := not_held_of_fullStripe dev overflowChecks req hfull
    ⟨fun _ _ => true, true⟩ (0 : Nat → Nat → B) 0
  exact hnot (h _ _ _ es u hrun).1

/-- A full-stripe write of the small array: the child reads the parity after its buffer was
freed, and stores what is there then. -/
theorem full_stripe_frees_parity :
    (∃ es u, run (Running.next smallArray ⟨fun _ b => b, true⟩ 0)
      (processReq smallArray true 0 ⟨⟨.write, 0, 4⟩, 0⟩, (Proc.start 0 0 : Proc Byte)) es = some u ∧
        ¬ HeldToEnd u.2) ∧
    (run (Running.next smallArray ⟨fun _ b => b, true⟩ 0)
      (processReq smallArray true 0 ⟨⟨.write, 0, 4⟩, 0⟩, (Proc.start 0 0 : Proc Byte))
      [.step, .step, .step, .step, .step, .child (.apply 0 fun _ => ⟨1⟩)]).map
        (fun c => (c.2.trace, c.2.ios.map (·.data 0), c.2.disks 0 0)) =
      some ([.submit 0, .drop (.io 0)], [⟨0⟩], ⟨1⟩) :=
  ⟨not_held_of_fullStripe smallArray true ⟨⟨.write, 0, 4⟩, 0⟩ (by decide) ⟨fun _ b => b, true⟩ 0 0,
    by decide⟩

end Ironspdk.Raid5
