import Ironspdk.Raid5.Queue

/-! # Requests of different stripes do not interfere

The logical contents of a device are those it started with, changed by the requests
answered since, one after another. Every request in progress is served against the
contents its stripe had when it was taken up, and a stripe without a request in progress
holds the encoding of its contents. Steps of one stripe leave the others alone. -/
namespace Ironspdk.Raid5
open Ironspdk.Lib Ironspdk.Runtime

variable {B : Type}

/-! ## Contents, stripe by stripe -/

def AgreeOn (dev : Raid5Bdev) (k : Nat) (f g : Nat → B) : Prop :=
  ∀ b, dev.stripeIdx b = k → f b = g b

theorem AgreeOn.refl (dev : Raid5Bdev) (k : Nat) (f : Nat → B) : AgreeOn dev k f f :=
  fun _ _ => rfl

theorem AgreeOn.trans {dev : Raid5Bdev} {k : Nat} {f g h : Nat → B} (hfg : AgreeOn dev k f g)
    (hgh : AgreeOn dev k g h) : AgreeOn dev k f h := fun b hb => (hfg b hb).trans (hgh b hb)

/-- What a stripe stores depends on its own blocks only. -/
theorem encode_congr [XorGroup B] {dev : Raid5Bdev} {k disk row : Nat} {f g : Nat → B}
    (h : AgreeOn dev k f g) (hd : disk < dev.diskCount) (hrow : row / dev.stripBlocks = k) :
    dev.encode f disk row = dev.encode g disk row := by
  have hr := Nat.mod_lt row dev.strip_pos
  by_cases hp : disk = dev.parityDiskIdx k
  · have hat : row = k * dev.stripBlocks + row % dev.stripBlocks := by
      rw [← hrow, Nat.div_add_mod']
    rw [hat, hp, encode_parity dev f hr, encode_parity dev g hr]
    exact Finset.sum_congr rfl fun i hi =>
      h _ (dev.stripeIdx_add (dev.strip_in_stripe (Finset.mem_range.mp hi) hr))
  · obtain ⟨b, hb, hk⟩ := exists_block dev hd hp hrow
    have hf := encode_locate dev f b
    have hg := encode_locate dev g b
    rw [hb] at hf hg
    rw [hf, hg, h b hk]

/-- The blocks of a request that crosses no stripe lie in its stripe. -/
theorem stripeIdx_range {dev : Raid5Bdev} {io : BdevIo} (hfit : ¬ dev.crossesStripe io) {j : Nat}
    (hj : j < io.numBlocks) :
    dev.stripeIdx (io.offsetBlocks + j) = dev.stripeIdx io.offsetBlocks := by
  have hoff : dev.stripeIdx io.offsetBlocks * dev.stripeBlocks + dev.stripeOffset io.offsetBlocks =
      io.offsetBlocks := Nat.div_add_mod' _ _
  have hlt : dev.stripeOffset io.offsetBlocks + j < dev.stripeBlocks :=
    (Nat.add_lt_add_left hj _).trans_le (Nat.le_of_not_lt hfit)
  have := dev.stripeIdx_add (s := dev.stripeIdx io.offsetBlocks) hlt
  rwa [← Nat.add_assoc, hoff] at this

theorem effect_out {dev : Raid5Bdev} {req : QueuedIo} {data flat : Nat → B} {b : Nat}
    (h : dev.stripeIdx b ≠ dev.stripeIdx req.io.offsetBlocks) :
    req.effect dev data flat b = flat b := by
  unfold QueuedIo.effect
  split
  · rename_i hw
    refine overwrite_out ?_
    by_contra hin
    obtain ⟨j, hj, rfl⟩ : ∃ j < req.io.numBlocks, b = req.io.offsetBlocks + j :=
      ⟨b - req.io.offsetBlocks, by omega, by omega⟩
    exact h (stripeIdx_range hw.2 hj)
  · rfl

theorem effect_congr {dev : Raid5Bdev} {k : Nat} {f g : Nat → B} (h : AgreeOn dev k f g)
    (req : QueuedIo) (data : Nat → B) :
    AgreeOn dev k (req.effect dev data f) (req.effect dev data g) := by
  intro b hb
  unfold QueuedIo.effect
  split
  · simp only [overwrite, h b hb]
  · exact h b hb

/-- The logical contents once the requests of `log` have been answered. -/
def applied (dev : Raid5Bdev) (flat : Nat → B) (log : List (Answer B)) : Nat → B :=
  log.foldl (fun f a => a.req.effect dev a.req.mem f) flat

theorem applied_append (dev : Raid5Bdev) (flat : Nat → B) (log log' : List (Answer B)) :
    applied dev flat (log ++ log') = applied dev (applied dev flat log) log' := List.foldl_append ..

theorem applied_other {dev : Raid5Bdev} {flat : Nat → B} {log : List (Answer B)} {k : Nat}
    (h : ∀ a ∈ log, a.req.stripe dev ≠ k) : AgreeOn dev k (applied dev flat log) flat := by
  induction log generalizing flat with
  | nil => exact .refl dev k flat
  | cons a log ih =>
    refine (ih fun b hb => h b (List.mem_cons_of_mem _ hb)).trans fun b hb => effect_out ?_
    rw [hb]
    exact (h a (List.mem_cons_self ..)).symm

/-! ## Children that do less -/

/-- The children do no more than `ch'`, and read the buffers of writes at the same time. -/
structure Children.Within (ch ch' : Children) : Prop where
  allow : ∀ x ok, ch.allow x ok = true → ch'.allow x ok = true
  late : ch.late = ch'.late

theorem Children.Within.refl (ch : Children) : ch.Within ch := ⟨fun _ _ => id, rfl⟩

theorem Children.Within.react {ch ch' : Children} (h : ch.Within ch') {s t : Proc B}
    {e : ChildEvent B} (hr : ch.react s e = some t) : ch'.react s e = some t := by
  have hsample : ch.sample = ch'.sample (B := B) := by
    funext s c x junk
    rw [Children.sample, h.late, Children.sample]
  cases e with
  | finish c => exact hr
  | apply c junk =>
    simp only [Children.react, Option.bind_eq_bind, Option.bind_eq_some_iff,
      Option.ite_none_right_eq_some] at hr ⊢
    obtain ⟨x, hx, ⟨hp, ha⟩, ht⟩ := hr
    exact ⟨x, hx, ⟨hp, h.allow _ _ ha⟩, by rw [← hsample]; exact ht⟩
  | fail c junk =>
    simp only [Children.react, Option.bind_eq_bind, Option.bind_eq_some_iff,
      Option.ite_none_right_eq_some] at hr ⊢
    obtain ⟨x, hx, ⟨hp, ha⟩, ht⟩ := hr
    exact ⟨x, hx, ⟨hp, h.allow _ _ ha⟩, ht⟩

/-! ## The invariant -/

/-- What the requests of a device are served against: `children` is how they behave in each
stripe, `flat` are the contents at the start, `known` the stripes that held them then, on the
disks that are not `dead`. -/
structure Base (B : Type) where
  dev : Raid5Bdev
  children : Nat → Children
  known : Nat → Prop
  dead : Nat → Prop
  flat : Nat → B

/-- What a request of stripe `k` is served against when the contents are `flat`. -/
def Base.setting (G : Base B) (k : Nat) (flat : Nat → B) : Setting B :=
  { dev := G.dev, children := G.children k, stripe := k, dead := fun x => G.known k → G.dead x
    flat := flat, held := G.known k, prompt := False, mayAbort := False }

/-- The children of stripe `k` store what buffers hold when a write is submitted, dead ones only
fail and the others only succeed; at most one is dead. -/
structure Base.Trusted (G : Base B) (k : Nat) : Prop where
  early : (G.children k).late = false
  answers : ∀ x, (G.children k).allow x true = true → ¬ G.dead x
  fails : ∀ x, (G.children k).allow x false = true → G.dead x
  one : ∀ x y, G.dead x → G.dead y → x = y

/-- Something is said about what a stripe holds only if its children can be trusted. -/
def Base.Ok (G : Base B) : Prop := ∀ k, G.known k → G.Trusted k

/-- The disks that fail have a bit in the masks of a build with overflow checks. -/
def Base.ShiftOk (G : Base B) (overflowChecks : Bool) : Prop :=
  overflowChecks = true → ∀ k, ∀ x < G.dev.diskCount, (G.children k).allow x false → x < 64

/-- A step of children that do no more than those of the stripe it is about. -/
def Base.Admits (G : Base B) (s : Device B) (e : DevEvent B) (ch : Children) : Prop :=
  ∀ t ce, e = .child t ce → ∀ task, s.tasks[t]? = some task →
    ch.Within (G.children (task.req.stripe G.dev))

theorem Base.admits_of {G : Base B} {ch : Children} (h : ∀ k, G.children k = ch) (s : Device B)
    (e : DevEvent B) : G.Admits s e ch := fun _ _ _ task _ => h (task.req.stripe G.dev) ▸ .refl ch

/-- The disks that are not dead hold `flat` in stripe `k`, if it is known. -/
def Base.Holds [XorGroup B] (G : Base B) (k : Nat) (flat : Nat → B) (disks : Nat → Nat → B) :
    Prop :=
  G.known k → ∀ x < G.dev.diskCount, ¬ G.dead x → ∀ row, row / G.dev.stripBlocks = k →
    disks x row = G.dev.encode flat x row

theorem Base.Trusted.live {G : Base B} {k : Nat} (h : G.Trusted k) (hk : G.known k)
    (flat : Nat → B) : (G.setting k flat).Live :=
  ⟨hk, fun x hx hd => h.answers x hx (hd hk)⟩

/-- Task `t` is in `process_req` for `req`, a request of stripe `k`. -/
def Device.Processing (dev : Raid5Bdev) (s : Device B) (t k : Nat) (req : Request B)
    (prog : Task Unit) (frame : Frame B) : Prop :=
  ∃ task, s.tasks[t]? = some task ∧ task.stage = .processing req prog frame ∧
    task.req.stripe dev = k

/-- A request in progress, when the contents of the device are `flat`. -/
structure Served [XorGroup B] (E : Setting B) (req : Request B) (flat : Nat → B)
    (prog : Task Unit) (u : Proc B) : Prop where
  program : E.wp req.sender (E.Result req.toQueuedIo req.mem) prog
    (fun _ t => E.End req.sender (req.effect E.dev req.mem E.flat) t) u
  before : u.completions = [] → AgreeOn E.dev E.stripe flat E.flat
  after : u.completions ≠ [] →
    AgreeOn E.dev E.stripe flat (req.effect E.dev req.mem E.flat)
  rows : ∀ r ∈ u.reqs, ∀ j < r.io.numBlocks, E.Row (r.io.offsetBlocks + j)

structure Serving [XorGroup B] (G : Base B) (s : Device B) : Prop where
  served : ∀ (t k : Nat) (req : Request B) (prog : Task Unit) (frame : Frame B),
    s.Processing G.dev t k req prog frame →
    ∃ flat, Served (G.setting k flat) req (applied G.dev G.flat s.log) prog ⟨frame, s.disks⟩
  idle : ∀ k, (∀ t req prog frame, ¬ s.Processing G.dev t k req prog frame) →
    G.Holds k (applied G.dev G.flat s.log) s.disks
  senders : ∀ a ∈ s.log, a.sender = a.req.sender
  calm : ∀ (t : Nat) (task : IoTask B), s.tasks[t]? = some task → task.stage.message = none

section frames
variable {dev : Raid5Bdev} {s s' : Device B} {t t' k : Nat} {task : IoTask B} {req : Request B}
  {prog : Task Unit} {frame : Frame B}

theorem processing_set (ht : s.tasks[t]? = some task) {stage : Stage B}
    (htasks : s'.tasks = s.tasks.set t { task with stage := stage }) :
    s'.Processing dev t' k req prog frame ↔
      if t' = t then stage = .processing req prog frame ∧ task.req.stripe dev = k
      else s.Processing dev t' k req prog frame := by
  unfold Device.Processing
  rw [htasks, getElem?_setTask ht]
  by_cases h : t' = t
  · simp only [if_pos h, Option.some.injEq]
    exact ⟨fun ⟨_, he, h⟩ => by subst he; exact h, fun h => ⟨_, rfl, h⟩⟩
  · simp only [if_neg h]

theorem processing_submit {req' : Request B} :
    (s.submitIo dev req').Processing dev t k req prog frame ↔
      s.Processing dev t k req prog frame := by
  refine ⟨fun ⟨task, ht, hst, hk⟩ => ?_, fun ⟨task, ht, hst⟩ => ⟨task, ?_, hst⟩⟩
  · rcases append_get ht with ht | ⟨_, rfl⟩
    · exact ⟨task, ht, hst, hk⟩
    · cases hst
  · show (s.tasks ++ [_])[t]? = some task
    rw [List.getElem?_append_left (List.getElem?_eq_some_iff.mp ht).1, ht]

theorem tasks_begin (dev : Raid5Bdev) (s : Device B) (w t : Nat) (rest : List Nat)
    (task : IoTask B) : ∃ stage, (stage = .finished ∨ stage = .draining) ∧
      (s.begin dev w t rest task).tasks = s.tasks.set t { task with stage := stage } := by
  refine ⟨_, ?_, rfl⟩
  split
  · exact Or.inl rfl
  · exact Or.inr rfl

theorem processing_begin (ht : s.tasks[t]? = some task) (hst : task.stage = .spawned) {w : Nat}
    {rest : List Nat} : (s.begin dev w t rest task).Processing dev t' k req prog frame ↔
      s.Processing dev t' k req prog frame := by
  obtain ⟨stage, hstage, htasks⟩ := tasks_begin dev s w t rest task
  rw [processing_set ht htasks]
  split
  · rename_i he
    subst he
    refine ⟨fun hp => ?_, fun ⟨task', ht', hst', _⟩ => ?_⟩
    · rcases hstage with rfl | rfl <;> cases hp.1
    · cases ht.symm.trans ht'
      cases hst.symm.trans hst'
  · rfl

theorem Device.Processing.hasTurn (h : s.Processing dev t k req prog frame) :
    ∃ turn, HasTurn dev s.tasks t k turn := by
  obtain ⟨task, ht, hst, hk⟩ := h
  exact ⟨_, task, ht, hk, by rw [hst]; rfl⟩

/-- The child I/Os that an operation submits. -/
def Op.submits : Op → List ChildReq
  | .submit r => [r]
  | _ => []

theorem perform_reqs [Add B] [Zero B] {o : Op} {s t : Proc B} {r : Res o}
    (h : perform o s = some (r, t)) : t.reqs = s.reqs ++ o.submits := by
  cases o with
  | await c =>
    simp only [Raid5.perform] at h
    split at h
    · cases h
      exact (List.append_nil _).symm
    · cases h
  | panic msg => cases h
  | submit req =>
    cases h
    simp [Proc.reqs, Op.submits]
  | _ =>
    cases h
    exact (List.append_nil _).symm

/-- A child I/O of a request changes only blocks that the request has submitted writes for. -/
theorem react_disks {ch : Children} {s t : Proc B} {e : ChildEvent B} (h : ch.react s e = some t)
    {x row : Nat} (hout : ∀ r ∈ s.reqs, r.kind = .store → ¬ r.Hits x row) :
    t.disks x row = s.disks x row := by
  have hput : ∀ {y : ChildIo B} {c : Nat}, s.ios[c]? = some y → ∀ d m : Nat → B,
      (s.put y.req d m).disks x row = s.disks x row := by
    intro y c hy d m
    by_cases hk : y.req.kind = .store
    · rw [(put_store hk).2, writeDisk_out (hout _ (reqs_mem hy) hk)]
    · rw [(put_read hk).2]
  obtain ⟨c, y, hy, ⟨_, _, junk, rfl⟩ | ⟨_, rfl⟩ | ⟨_, _, junk, rfl⟩⟩ := react_cases h
  · exact hput hy _ _
  · rfl
  · exact hput hy _ _

end frames

section serving
variable [XorGroup B] {G : Base B} {s s' : Device B} {l : Lanes Nat (Request B)} {t : Nat}
  {task : IoTask B}

/-- A step that concerns no request in progress. -/
theorem Serving.same (h : Serving G s)
    (hproc : ∀ (t k : Nat) (req : Request B) (prog : Task Unit) (frame : Frame B),
      s'.Processing G.dev t k req prog frame ↔ s.Processing G.dev t k req prog frame)
    (hdisks : s'.disks = s.disks) (hlog : s'.log = s.log)
    (hcalm : ∀ (t : Nat) (task : IoTask B), s'.tasks[t]? = some task →
      task.stage.message = none) : Serving G s' := by
  refine ⟨fun t k req prog frame hp => ?_, fun k hno => ?_, fun a ha => ?_, hcalm⟩
  · rw [hdisks, hlog]
    exact h.served t k req prog frame ((hproc _ _ _ _ _).mp hp)
  · rw [hdisks, hlog]
    exact h.idle k fun t req prog frame hp => hno t req prog frame ((hproc _ _ _ _ _).mpr hp)
  · exact h.senders a (hlog ▸ ha)

/-- What a request in service has child I/Os for lies in its stripe. -/
theorem Served.row_of_hits {E : Setting B} {req : Request B} {flat : Nat → B} {prog : Task Unit}
    {u : Proc B} (h : Served E req flat prog u) {r : ChildReq} (hr : r ∈ u.reqs) {x row : Nat}
    (hhit : r.Hits x row) : E.Row row := by
  obtain ⟨_, hge, hlt⟩ := hhit
  have := h.rows r hr (row - r.io.offsetBlocks) (by omega)
  rwa [Nat.add_sub_cancel' hge] at this

/-- Steps elsewhere do not concern a request in service. -/
theorem Served.others {E : Setting B} {req : Request B} {flat flat' : Nat → B} {prog : Task Unit}
    {frame : Frame B} {disks disks' : Nat → Nat → B} (h : Served E req flat prog ⟨frame, disks⟩)
    (hdisks : ∀ x row, E.Row row → disks' x row = disks x row)
    (hflat : AgreeOn E.dev E.stripe flat' flat) : Served E req flat' prog ⟨frame, disks'⟩ :=
  ⟨wp_env h.program (Or.inr ⟨disks', rfl, hdisks⟩), fun hc => hflat.trans (h.before hc),
    fun hc => hflat.trans (h.after hc), h.rows⟩

/-- A step of the task that drains a stripe: other stripes are left alone. -/
theorem Serving.move (h : Serving G s) (hsim : Sim G.dev s l) (ht : s.tasks[t]? = some task)
    {turn : Turn (Request B)} (hturn : task.stage.turn = some turn) {stage : Stage B}
    {a : List (Answer B)}
    (htasks : s'.tasks = s.tasks.set t { task with stage := stage })
    (hdisks : ∀ x row, row / G.dev.stripBlocks ≠ task.req.stripe G.dev →
      s'.disks x row = s.disks x row)
    (hlog : s'.log = s.log ++ a)
    (hlogs : ∀ b ∈ a, b.req.stripe G.dev = task.req.stripe G.dev ∧ b.sender = b.req.sender)
    (hself : ∀ req prog frame, stage = .processing req prog frame →
      ∃ flat, Served (G.setting (task.req.stripe G.dev) flat) req
        (applied G.dev G.flat s'.log) prog ⟨frame, s'.disks⟩)
    (hidle : (∀ req prog frame, stage ≠ .processing req prog frame) →
      G.Holds (task.req.stripe G.dev) (applied G.dev G.flat s'.log) s'.disks)
    (hcalm : stage.message = none) : Serving G s' := by
  have hhas : HasTurn G.dev s.tasks t (task.req.stripe G.dev) turn :=
    (hasTurn_at ht).mpr ⟨rfl, hturn⟩
  have hagree : ∀ {k : Nat}, k ≠ task.req.stripe G.dev →
      AgreeOn G.dev k (applied G.dev G.flat s'.log) (applied G.dev G.flat s.log) := by
    intro k hk
    rw [hlog, applied_append]
    exact applied_other fun a ha => by rw [(hlogs a ha).1]; exact hk.symm
  refine ⟨fun t' k req prog frame hp => ?_, fun k hno => ?_, fun a ha => ?_,
    fun t' task' ht' => ?_⟩
  · rw [processing_set ht htasks] at hp
    by_cases he : t' = t
    · rw [if_pos he] at hp
      obtain ⟨hst, rfl⟩ := hp
      exact hself req prog frame hst
    · rw [if_neg he] at hp
      have hk : k ≠ task.req.stripe G.dev := by
        rintro rfl
        obtain ⟨turn', hturn'⟩ := hp.hasTurn
        exact he ((hsim.lane _).single hturn' hhas)
      obtain ⟨flat, hs⟩ := h.served t' k req prog frame hp
      exact ⟨flat, hs.others (fun x row hrow => hdisks x row fun he => hk (hrow.symm.trans he))
        (hagree hk)⟩
  · by_cases hk : k = task.req.stripe G.dev
    · subst hk
      refine hidle fun req prog frame hst => ?_
      exact hno t req prog frame
        ((processing_set ht htasks).mpr (by rw [if_pos rfl]; exact ⟨hst, rfl⟩))
    · intro hknown x hx hd row hrow
      rw [hdisks x row fun he => hk (hrow.symm.trans he), encode_congr (hagree hk) hx hrow]
      refine h.idle k (fun t' req prog frame hp => hno t' req prog frame ?_) hknown x hx hd row hrow
      rw [processing_set ht htasks]
      by_cases he : t' = t
      · subst he
        obtain ⟨task', ht', _, rfl⟩ := hp
        cases ht.symm.trans ht'
        exact absurd rfl hk
      · rwa [if_neg he]
  · rw [hlog] at ha
    exact (List.mem_append.mp ha).elim (h.senders a) fun ha => (hlogs a ha).2
  · rw [htasks, getElem?_setTask ht] at ht'
    split at ht'
    · cases ht'
      exact hcalm
    · exact h.calm t' task' ht'

/-! ## One step -/

/-- A request in progress is completed once before it returns, and does not panic. -/
theorem Serving.orderly (h : Serving G s) (e : DevEvent B) : Orderly s e := by
  cases e with
  | step t =>
    intro task req prog frame ht hst
    obtain ⟨flat, hs⟩ := h.served t _ req prog frame ⟨task, ht, hst, rfl⟩
    cases prog with
    | ret a =>
      obtain ⟨st, hc⟩ := (wp_done hs.program).completed
      show frame.completions ≠ []
      rw [show frame.completions = [(req.sender, st)] from hc]
      exact List.cons_ne_nil _ _
    | op o k =>
      cases o with
      | complete who st => exact (wp_ensure hs.program trivial).2.1
      | panic msg => exact (wp_ensure hs.program trivial : False)
      | _ => trivial
  | _ => trivial

/-- A request that has ended leaves its contents on every disk that is not dead and has failed
no write, when no two disks have failed it. -/
theorem Served.leaves_of {E : Setting B} {flat' : Nat → B} {req : Request B} {u : Proc B}
    (h : Served E req flat' (.ret ()) u) (hlive : E.Live)
    (hone : ∀ x y, E.children.allow x false = true → E.children.allow y false = true → x = y)
    {x row : Nat} (hx : x < E.dev.diskCount) (hd : ¬ E.dead x)
    (hnf : ∀ (c : Nat) (w : ChildIo B), u.ios[c]? = some w → w.req.kind = .store →
      w.req.disk = x → w.phase ≠ .done false) (hrow : E.Row row) :
    u.disks x row = E.dev.encode flat' x row := by
  have hend := wp_done h.program
  obtain ⟨st, hc⟩ := hend.completed
  have hagree : AgreeOn E.dev E.stripe flat' (req.effect E.dev req.mem E.flat) :=
    h.after (by rw [hc]; exact List.cons_ne_nil _ _)
  rw [encode_congr hagree hx hrow]
  rcases hend.leaves with ⟨_, y, z, hne, hy, hz⟩ | hleaves
  · exact absurd (hone y z hy.1 hz.1) hne
  · exact hleaves hlive x hx hd hnf row hrow

/-- A request that has ended leaves its stripe as the contents of the device say. -/
theorem Served.leaves {flat flat' : Nat → B} {k : Nat} {req : Request B} {u : Proc B}
    (hok : G.Ok) (h : Served (G.setting k flat) req flat' (.ret ()) u) :
    G.Holds k flat' u.disks := by
  intro hknown x hx hd row hrow
  have htrust := hok k hknown
  refine h.leaves_of (htrust.live hknown flat) (fun y z hy hz => ?_) hx
    (fun hdead => hd (hdead hknown)) (fun c w hw _ hwx hf => ?_) hrow
  · exact htrust.one y z (htrust.fails y hy) (htrust.fails z hz)
  · have := ((wp_done h.program).inv.permitted c w hw).2 hf
    exact hd (hwx ▸ htrust.fails _ this)

/-- A request that has been taken up. -/
theorem served_fresh {E : Setting B} {disks : Nat → Nat → B} {req : Request B}
    {overflowChecks : Bool} (hk : req.stripe E.dev = E.stripe)
    (hearly : E.held → E.children.late = false) (hshift : E.ShiftOk overflowChecks)
    (hholds : ∀ x < E.dev.diskCount, ¬ E.dead x → ∀ row, E.Row row →
      disks x row = E.dev.encode E.flat x row) (heap : Nat → Nat → B) :
    Served E req E.flat (processReq E.dev overflowChecks E.stripe req.toQueuedIo)
      ⟨Frame.start req heap, disks⟩ := by
  have hfresh : Fresh E req.toQueuedIo req.mem ⟨Frame.start req heap, disks⟩ := by
    have : Fresh E req.toQueuedIo (Function.update heap 0 req.mem 0)
        (Proc.start (Function.update heap 0 req.mem) disks) := Fresh.start hk hholds
    rwa [Function.update_self] at this
  exact ⟨wp_processReq hfresh hshift (fun _ hheld => hearly hheld), fun _ => .refl _ _ _,
    fun hc => absurd rfl hc, nofun⟩

/-- A request that has been taken up, on a stripe that holds its contents. -/
theorem served_start {k : Nat} {flat : Nat → B} {disks : Nat → Nat → B} {req : Request B}
    {overflowChecks : Bool} (hok : G.Ok) (hshift : G.ShiftOk overflowChecks)
    (hk : req.stripe G.dev = k) (hholds : G.Holds k flat disks) (heap : Nat → Nat → B) :
    Served (G.setting k flat) req flat (processReq G.dev overflowChecks k req.toQueuedIo)
      ⟨Frame.start req heap, disks⟩ := by
  refine served_fresh (E := G.setting k flat) hk (fun hknown => (hok k hknown).early)
    (fun hc => Or.inr (hshift hc k)) (fun x hx hd => ?_) heap
  obtain ⟨hknown, hd⟩ := Classical.not_imp.mp hd
  exact hholds hknown x hx hd

theorem Serving.submit (h : Serving G s) (req : Request B) : Serving G (s.submitIo G.dev req) := by
  refine h.same (fun _ _ _ _ _ => processing_submit) rfl rfl fun t task ht => ?_
  rcases append_get ht with ht | ⟨_, rfl⟩
  · exact h.calm t task ht
  · rfl

theorem Serving.begin (h : Serving G s) (ht : s.tasks[t]? = some task)
    (hst : task.stage = .spawned) (w : Nat) (rest : List Nat) :
    Serving G (s.begin G.dev w t rest task) := by
  refine h.same (fun _ _ _ _ _ => processing_begin ht hst) rfl rfl fun t' task' ht' => ?_
  obtain ⟨stage, hstage, htasks⟩ := tasks_begin G.dev s w t rest task
  rw [htasks, getElem?_setTask ht] at ht'
  split at ht'
  · cases ht'
    rcases hstage with rfl | rfl <;> rfl
  · exact h.calm t' task' ht'

/-- The head of a drain loop finds the stripe as the contents of the device say. -/
theorem Serving.drain {overflowChecks : Bool} (h : Serving G s) (hok : G.Ok)
    (hshift : G.ShiftOk overflowChecks) (hq : Queued G.dev s l) (ht : s.tasks[t]? = some task)
    (hst : task.stage = .draining) (heap : Nat → Nat → B) :
    Serving G (s.drain G.dev overflowChecks t task heap) := by
  have hturn : task.stage.turn = some .next := by rw [hst]; rfl
  have hlane := hq.sim.lane (task.req.stripe G.dev)
  obtain ⟨ws, hl⟩ := hlane.turn_eq ht rfl hturn
  -- nobody else is in `process_req` for this stripe
  have hfree : G.Holds (task.req.stripe G.dev) (applied G.dev G.flat s.log) s.disks := by
    refine h.idle _ fun t' req prog frame hp => ?_
    obtain ⟨turn', hturn'⟩ := hp.hasTurn
    obtain rfl := hlane.single hturn' ((hasTurn_at ht).mpr ⟨rfl, hturn⟩)
    obtain ⟨task', ht', hst', _⟩ := hp
    cases ht.symm.trans ht'
    cases hst.symm.trans hst'
  have hentry := (hl ▸ hlane).1
  unfold Device.drain
  simp only [dequeue, hentry, Option.bind_eq_bind, Option.bind_some]
  cases ws with
  | nil =>
    exact h.move hq.sim (a := []) ht hturn rfl (fun _ _ _ => rfl) (List.append_nil _).symm
      (List.forall_mem_nil _) (fun _ _ _ he => by cases he) (fun _ => hfree) rfl
  | cons req ws =>
    have hkey : req.stripe G.dev = task.req.stripe G.dev :=
      hq.lanes.key_waiting (by rw [hl]; exact List.mem_cons_self ..)
    refine h.move hq.sim (a := []) ht hturn rfl (fun _ _ _ => rfl) (List.append_nil _).symm
      (List.forall_mem_nil _) (fun req' prog frame hst' => ?_)
      (fun hno => absurd rfl (hno _ _ _)) rfl
    cases hst'
    exact ⟨_, served_start hok hshift hkey hfree heap⟩

theorem Serving.ret (h : Serving G s) (hok : G.Ok) (hsim : Sim G.dev s l)
    (ht : s.tasks[t]? = some task) {req : Request B} {frame : Frame B}
    (hst : task.stage = .processing req (.ret ()) frame) :
    Serving G (s.setStage t task .draining) := by
  obtain ⟨flat, hserved⟩ := h.served t _ req _ frame ⟨task, ht, hst, rfl⟩
  exact h.move hsim (a := []) ht (by rw [hst]; rfl) rfl (fun _ _ _ => rfl)
    (List.append_nil _).symm (List.forall_mem_nil _) (fun _ _ _ he => by cases he)
    (fun _ => hserved.leaves hok) rfl

/-- What a request that completes finds: it is the one its stripe is serving. -/
theorem Serving.completes (h : Serving G s) (hq : Queued G.dev s l) (ht : s.tasks[t]? = some task)
    {req : Request B} {frame : Frame B} {sender : SpdkThread} {status : IoStatus}
    {k : Res (.complete sender status) → Task Unit}
    (hst : task.stage = .processing req (.op (.complete sender status) k) frame) :
    sender = req.sender ∧ frame.completions = [] ∧
      req.stripe G.dev = task.req.stripe G.dev ∧
      ∃ flat, AgreeOn G.dev (task.req.stripe G.dev) (applied G.dev G.flat s.log) flat ∧
        (G.setting (task.req.stripe G.dev) flat).Result req.toQueuedIo req.mem status
          ⟨frame, s.disks⟩ := by
  obtain ⟨flat, hserved⟩ := h.served t _ req _ frame ⟨task, ht, hst, rfl⟩
  obtain ⟨hwho, hnil, hresult, _⟩ := wp_ensure hserved.program trivial
  have hturn : task.stage.turn = some (.serving req) := by
    rw [hst, Stage.turn]
    exact congrArg some (if_pos hnil)
  obtain ⟨ws, hl⟩ := (hq.sim.lane _).turn_eq ht rfl hturn
  exact ⟨hwho, hnil, hq.lanes.key_current (by rw [hl]; exact List.mem_cons_self ..), flat,
    hserved.before hnil, hresult⟩

/-- An operation of `process_req` keeps the program on its way. -/
theorem Served.perform {E : Setting B} {req : Request B} {flat : Nat → B} {o : Op}
    {k : Res o → Task Unit} {r : Res o} {u v : Proc B} (h : Served E req flat (.op o k) u)
    (hprompt : ¬ E.prompt) (hp : Raid5.perform o u = some (r, v)) :
    E.wp req.sender (E.Result req.toQueuedIo req.mem) (k r)
        (fun _ t => E.End req.sender (req.effect E.dev req.mem E.flat) t) v ∧
      ∀ r ∈ v.reqs, ∀ j < r.io.numBlocks, E.Row (r.io.offsetBlocks + j) := by
  refine ⟨wp_step h.program ?_ hp, fun r hr => ?_⟩
  · cases o with
    | await c => exact fun hc => absurd hc hprompt
    | _ => trivial
  · rw [perform_reqs hp] at hr
    rcases List.mem_append.mp hr with hr | hr
    · exact h.rows r hr
    · cases o with
      | submit r' =>
        obtain rfl := List.mem_singleton.mp hr
        exact (wp_ensure h.program trivial).2
      | _ => cases hr

/-- The contents of the device follow what the operation answers. -/
theorem Served.operate {E : Setting B} {req : Request B} {flat : Nat → B} {log : List (Answer B)}
    {frame : Frame B} {disks : Nat → Nat → B} {o : Op} {k : Res o → Task Unit} {r : Res o}
    {u : Proc B} (h : Served E req (applied E.dev flat log) (.op o k) ⟨frame, disks⟩)
    (hprompt : ¬ E.prompt) (hp : Raid5.perform o ⟨frame, disks⟩ = some (r, u)) :
    Served E req (applied E.dev flat (log ++ answers req frame o)) (k r) u := by
  obtain ⟨_, hcomp⟩ := perform_frame hp
  obtain ⟨hprog, hrows⟩ := h.perform hprompt hp
  by_cases ho : ∃ sender status, o = .complete sender status
  · obtain ⟨sender, status, rfl⟩ := ho
    have hnil : frame.completions = [] := (wp_ensure h.program trivial).2.1
    refine ⟨hprog, fun hc => ?_, fun _ => ?_, hrows⟩
    · rw [hcomp] at hc
      exact absurd (List.append_eq_nil_iff.mp hc).2 (List.cons_ne_nil _ _)
    · rw [applied_append]
      exact effect_congr (h.before hnil) req.toQueuedIo req.mem
  · obtain ⟨hsame, hnone⟩ : answers req frame o = [] ∧ o.completion = [] := by
      cases o with
      | complete sender status => exact absurd ⟨sender, status, rfl⟩ ho
      | _ => exact ⟨rfl, rfl⟩
    rw [hnone, List.append_nil] at hcomp
    rw [hsame, List.append_nil]
    exact ⟨hprog, fun hc => h.before (hcomp ▸ hc), fun hc => h.after (hcomp ▸ hc), hrows⟩

theorem Serving.perform (h : Serving G s) (hq : Queued G.dev s l) (ht : s.tasks[t]? = some task)
    {req : Request B} {frame : Frame B} {o : Op} {k : Res o → Task Unit} {r : Res o} {u : Proc B}
    (hst : task.stage = .processing req (.op o k) frame)
    (hp : Raid5.perform o ⟨frame, s.disks⟩ = some (r, u)) :
    Serving G { s.setStage t task (.processing req (k r) u.toFrame) with
      disks := u.disks, log := s.log ++ answers req frame o } := by
  obtain ⟨flat, hserved⟩ := h.served t _ req _ frame ⟨task, ht, hst, rfl⟩
  refine h.move hq.sim (a := answers req frame o) ht (by rw [hst]; rfl) rfl
    (fun x row _ => by rw [(perform_frame hp).1]) rfl (fun b hb => ?_)
    (fun req' prog' frame' hst' => ?_) (fun hno => absurd rfl (hno _ _ _)) rfl
  · cases o with
    | complete sender status =>
      obtain rfl := List.mem_singleton.mp hb
      obtain ⟨hwho, _, hkey, _⟩ := h.completes hq ht hst
      exact ⟨hkey, hwho⟩
    | _ => cases hb
  · cases hst'
    exact ⟨flat, hserved.operate id hp⟩

/-- So they do when a child I/O moves on. -/
theorem Served.react {E : Setting B} {req : Request B} {flat : Nat → B} {prog : Task Unit}
    {u v : Proc B} {e : ChildEvent B} (h : Served E req flat prog u)
    (hr : E.children.react u e = some v) : Served E req flat prog v := by
  have hext := ext_react hr
  refine ⟨wp_env h.program (Or.inl ⟨e, hr⟩), fun hc => h.before ?_, fun hc => h.after ?_,
    fun r hr => h.rows r (hext.reqs ▸ hr)⟩
  · exact hext.completions.symm.trans hc
  · exact fun he => hc (hext.completions.trans he)

theorem Serving.child (h : Serving G s) (hsim : Sim G.dev s l) (ht : s.tasks[t]? = some task)
    {req : Request B} {prog : Task Unit} {frame : Frame B} {e : ChildEvent B} {u : Proc B}
    (hst : task.stage = .processing req prog frame)
    (hr : (G.children (task.req.stripe G.dev)).react ⟨frame, s.disks⟩ e = some u) :
    Serving G { s.setStage t task (.processing req prog u.toFrame) with disks := u.disks } := by
  obtain ⟨flat, hserved⟩ := h.served t _ req _ frame ⟨task, ht, hst, rfl⟩
  refine h.move hsim (a := []) ht (by rw [hst]; rfl) rfl (fun x row hrow => ?_)
    (List.append_nil _).symm (List.forall_mem_nil _) (fun req' prog' frame' hst' => ?_)
    (fun hno => absurd rfl (hno _ _ _)) rfl
  · exact react_disks hr fun r hr _ hhit => hrow (hserved.row_of_hits hr hhit)
  · cases hst'
    exact ⟨flat, hserved.react hr⟩

/-- **Stripes do not interfere.** Every step of a device keeps what its requests are served
against. -/
theorem Serving.step {ch : Children} {overflowChecks : Bool} {e : DevEvent B} (h : Serving G s)
    (hok : G.Ok) (hshift : G.ShiftOk overflowChecks) (hadmits : G.Admits s e ch)
    (hq : Queued G.dev s l) (hs : s.Step G.dev ch overflowChecks e s') : Serving G s' := by
  have horder := h.orderly e
  cases hs with
  | submit req => exact h.submit req
  | start hbox ht =>
    rename_i w t rest task
    obtain ⟨_, hc, hst, _⟩ := (hq.inbox.mem w t).mp (by rw [hbox]; exact List.mem_cons_self ..)
    cases ht.symm.trans hc
    exact h.begin ht hst w rest
  | drain ht hst => exact h.drain hok hshift hq ht hst _
  | ret ht hst => exact h.ret hok hq.sim ht hst
  | panic ht hst => exact absurd (horder _ _ _ _ ht hst) id
  | perform ht hst hp => exact h.perform hq ht hst hp
  | child ht hst hr => exact h.child hq.sim ht hst ((hadmits _ _ rfl _ ht).react hr)

end serving

end Ironspdk.Raid5
