import Ironspdk.Raid5.Lent

/-! # Runs on the client's memory

The device on its client's memory does what the coarser device does, as long as the client
leaves alone what it has lent: the two take the same steps, from related states to related
states. Each request is in one place at a time (sent, queued, in service), so that a step moves
at most one of those that are open; the others have their memory to themselves. -/
namespace Ironspdk.Raid5.Scattered
open Ironspdk.Lib
open Ironspdk.Runtime (Build BdevIo IoStatus)

variable {n : Nat}

/-! ## Where each request is -/

/-- Where a request is: not submitted yet, in the messages of a worker, in a queue, or in
service, or done, by a task. -/
inductive Place
  | ahead
  | sent (worker : Nat)
  | queued (worker stripe : Nat)
  | serving (t : Nat)

/-- What is elsewhere stays where it is. -/
theorem update_place {w : Nat → Place} {t u : Nat} {p : Place} (ht : w t = p) (hu : w u ≠ p)
    (q : Place) : Function.update w t q u = w u := by
  refine Function.update_of_ne ?_ _ _
  rintro rfl
  exact hu ht

structure Placed (dev : Raid5Bdev) (w : Nat → Place) (s : Device n) : Prop where
  count : s.tasks.length = s.reqs.length
  ahead : ∀ t, s.reqs.length ≤ t → w t = .ahead
  sent : ∀ v t, t ∈ s.inbox v → w t = .sent v
  once : ∀ v, (s.inbox v).Nodup
  queued : ∀ v k q, s.channels v k = some q → q.pending.Nodup ∧ ∀ r ∈ q.pending,
    w r = .queued v k ∧ ∀ x, s.reqs[r]? = some x → x.stripe dev = k
  serving : ∀ (t r : Nat) prog f, s.tasks[t]? = some (.processing r prog f) → w r = .serving t

namespace Placed
variable {dev : Raid5Bdev} {w : Nat → Place} {s s' : Device n}

theorem start (dev : Raid5Bdev) (ram : Nat → Byte) (disks : Nat → Nat → Block n) :
    Placed dev (fun _ => .ahead) (Device.start ram disks) :=
  ⟨rfl, fun _ _ => rfl, fun _ _ ht => absurd ht List.not_mem_nil, fun _ => List.nodup_nil,
    fun _ _ _ hq => (by cases hq), fun _ _ _ _ ht => (by simp [Device.start] at ht)⟩

theorem lt (h : Placed dev w s) {t : Nat} (ht : w t ≠ .ahead) : t < s.reqs.length := by
  by_contra hge
  exact ht (h.ahead t (Nat.le_of_not_lt hge))

/-- No two tasks serve one request. -/
theorem same_task (h : Placed dev w s) {t t' r : Nat} {prog prog' : Task Unit}
    {f f' : Frame (Block n)} (ht : s.tasks[t]? = some (.processing r prog f))
    (ht' : s.tasks[t']? = some (.processing r prog' f')) : t' = t :=
  Place.serving.inj ((h.serving t' r prog' f' ht').symm.trans (h.serving t r prog f ht))

/-- A task goes on with the request it serves, or with none. -/
theorem set (h : Placed dev w s) {t : Nat} {stage : Stage n} (hreqs : s'.reqs = s.reqs)
    (htasks : s'.tasks = s.tasks.set t stage) (hinbox : s'.inbox = s.inbox)
    (hchannels : s'.channels = s.channels)
    (hstage : ∀ r prog f, stage = .processing r prog f → w r = .serving t) :
    Placed dev w s' := by
  refine ⟨by rw [htasks, List.length_set, hreqs, h.count], by rw [hreqs]; exact h.ahead,
    by rw [hinbox]; exact h.sent, by rw [hinbox]; exact h.once,
    by rw [hchannels, hreqs]; exact h.queued, fun t' r prog f ht => ?_⟩
  rw [htasks, List.getElem?_set] at ht
  split at ht
  · rename_i he
    split at ht
    · cases he
      exact hstage r prog f (Option.some.inj ht)
    · cases ht
  · exact h.serving t' r prog f ht

theorem submit (h : Placed dev w s) (req : Request n) :
    Placed dev (Function.update w s.reqs.length (.sent (dev.ownerIdx (req.stripe dev))))
      (s.submitIo dev req) := by
  have hold : ∀ {t : Nat}, w t ≠ .ahead → ∀ p, Function.update w s.reqs.length p t = w t :=
    fun ht p => Function.update_of_ne (h.lt ht).ne _ _
  refine ⟨?_, fun t ht => ?_, fun v t ht => ?_, fun v => ?_, fun v k q hq => ?_,
    fun t r prog f ht => ?_⟩
  · simp [Device.submitIo, h.count]
  · simp only [Device.submitIo, List.length_append, List.length_singleton] at ht
    rw [Function.update_of_ne (by omega), h.ahead t (by omega)]
  · simp only [Device.submitIo, h.count] at ht
    have hin : t ∈ s.inbox v → Function.update w s.reqs.length
        (.sent (dev.ownerIdx (req.stripe dev))) t = .sent v := by
      intro hin
      have hsent := h.sent v t hin
      rw [hold (by simp [hsent]), hsent]
    by_cases hv : v = dev.ownerIdx (req.stripe dev)
    · subst hv
      rw [Function.update_self] at ht
      rcases List.mem_append.mp ht with ht | ht
      · exact hin ht
      · rw [List.mem_singleton.mp ht, Function.update_self]
    · rw [Function.update_of_ne hv] at ht
      exact hin ht
  · simp only [Device.submitIo]
    by_cases hv : v = dev.ownerIdx (req.stripe dev)
    · subst hv
      rw [Function.update_self]
      refine List.Nodup.append (h.once _) (List.nodup_singleton _) ?_
      intro t ht hnew
      have hsent := h.sent _ t ht
      rw [List.mem_singleton.mp hnew, h.ahead _ h.count.ge] at hsent
      cases hsent
    · rw [Function.update_of_ne hv]
      exact h.once v
  · obtain ⟨hnodup, hall⟩ := h.queued v k q hq
    refine ⟨hnodup, fun r hr => ?_⟩
    obtain ⟨hw, hstripe⟩ := hall r hr
    refine ⟨by rw [hold (by simp [hw]), hw], fun x hx => ?_⟩
    rcases append_get hx with hx | ⟨he, _⟩
    · exact hstripe x hx
    · rw [he, h.ahead _ (Nat.le_refl _)] at hw
      cases hw
  · rcases append_get ht with ht | ⟨_, he⟩
    · have hw := h.serving t r prog f ht
      rw [hold (by simp [hw]), hw]
    · cases he

/-- A worker begins the next task sent to it. -/
theorem begin (h : Placed dev w s) {v t : Nat} {rest : List Nat} (hbox : s.inbox v = t :: rest)
    {x : Submitted n} (hx : s.reqs[t]? = some x) :
    Placed dev (Function.update w t (.queued v (x.stripe dev))) (s.begin dev v t rest x) := by
  have hsent : w t = .sent v := h.sent v t (by rw [hbox]; exact List.mem_cons_self ..)
  have hlt : t < s.reqs.length := (List.getElem?_eq_some_iff.mp hx).1
  have hold : ∀ {u : Nat}, w u ≠ .sent v → ∀ p, Function.update w t p u = w u :=
    fun hu p => update_place hsent hu p
  have honce := h.once v
  rw [hbox] at honce
  obtain ⟨hnot, hrest⟩ := List.nodup_cons.mp honce
  refine ⟨?_, fun u hu => ?_, fun v' u hu => ?_, fun v' => ?_, fun v' k q hq => ?_,
    fun u r prog f hu => ?_⟩
  · simp [Device.begin, Device.setStage, h.count]
  · rw [Function.update_of_ne (show u ≠ t from fun he => absurd (he ▸ hu) (Nat.not_le.mpr hlt))]
    exact h.ahead u hu
  · simp only [Device.begin] at hu
    by_cases hv : v' = v
    · subst hv
      rw [Function.update_self] at hu
      have hne : u ≠ t := fun he => hnot (he ▸ hu)
      rw [Function.update_of_ne hne]
      exact h.sent v' u (by rw [hbox]; exact List.mem_cons_of_mem _ hu)
    · rw [Function.update_of_ne hv] at hu
      have hw := h.sent v' u hu
      rw [hold (by simp [hw, hv]), hw]
  · simp only [Device.begin]
    by_cases hv : v' = v
    · rw [hv, Function.update_self]
      exact hrest
    · rw [Function.update_of_ne hv]
      exact h.once v'
  · simp only [Device.begin, enqueue, channels_update] at hq
    have hkeep : ∀ {p : List Nat}, (∀ r ∈ p, w r = .queued v' k ∧
        ∀ x, s.reqs[r]? = some x → x.stripe dev = k) → ∀ r ∈ p,
          Function.update w t (.queued v (x.stripe dev)) r = .queued v' k ∧
            ∀ x, s.reqs[r]? = some x → x.stripe dev = k := by
      intro p hp r hr
      obtain ⟨hw, hstripe⟩ := hp r hr
      exact ⟨by rw [hold (by simp [hw]), hw], hstripe⟩
    split at hq
    · rename_i he
      obtain ⟨rfl, rfl⟩ := he
      cases hq
      obtain ⟨hnodup, hall⟩ : ((s.channels v' (x.stripe dev)).getD {}).pending.Nodup ∧
          ∀ r ∈ ((s.channels v' (x.stripe dev)).getD {}).pending, w r = .queued v' (x.stripe dev) ∧
            ∀ y, s.reqs[r]? = some y → y.stripe dev = x.stripe dev := by
        cases hc : s.channels v' (x.stripe dev) with
        | none => exact ⟨List.nodup_nil, fun r hr => absurd hr List.not_mem_nil⟩
        | some q => exact h.queued _ _ q hc
      refine ⟨List.Nodup.append hnodup (List.nodup_singleton _) fun r hr hnew => ?_, fun r hr => ?_⟩
      · have hw := (hall r hr).1
        rw [List.mem_singleton.mp hnew, hsent] at hw
        cases hw
      · rcases List.mem_append.mp hr with hr | hr
        · exact hkeep hall r hr
        · rw [List.mem_singleton.mp hr, Function.update_self]
          exact ⟨rfl, fun y hy => by rw [Option.some.inj (hx.symm.trans hy)]⟩
    · obtain ⟨hnodup, hall⟩ := h.queued v' k q hq
      exact ⟨hnodup, hkeep hall⟩
  · simp only [Device.begin, Device.setStage, List.getElem?_set] at hu
    split at hu
    · split at hu
      · have he := Option.some.inj hu
        split at he <;> cases he
      · cases hu
    · have hw := h.serving u r prog f hu
      rw [hold (by simp [hw]), hw]

/-- A queue loses its entry. -/
theorem untrack (h : Placed dev w s) (v k : Nat) :
    Placed dev w { s with
      channels := Function.update s.channels v (Function.update (s.channels v) k none) } := by
  refine { h with queued := fun v' k' q hq => ?_ }
  simp only [channels_update] at hq
  split at hq
  · cases hq
  · exact h.queued v' k' q hq

/-- Task `t` takes the next request from the queue. -/
theorem take (h : Placed dev w s) {v k t r : Nat} {q : StripeQueue Nat} {rest : List Nat}
    (hq : s.channels v k = some q) (hpending : q.pending = r :: rest) {y : Submitted n}
    (hy : s.reqs[r]? = some y) {prog : Task Unit} {f : Frame (Block n)}
    (ht : t < s.tasks.length) :
    Placed dev (Function.update w r (.serving t))
      { s.setStage t (.processing r prog f) with
        channels := Function.update s.channels v
          (Function.update (s.channels v) k (some { q with pending := rest })) } := by
  have hqueue := h.queued v k q hq
  rw [hpending] at hqueue
  obtain ⟨hnodup, hall⟩ := hqueue
  obtain ⟨hnot, hrest⟩ := List.nodup_cons.mp hnodup
  have hqueued : w r = .queued v k := (hall r (List.mem_cons_self ..)).1
  have hold : ∀ {u : Nat}, w u ≠ .queued v k → ∀ p, Function.update w r p u = w u :=
    fun hu p => update_place hqueued hu p
  have hlt : r < s.reqs.length := (List.getElem?_eq_some_iff.mp hy).1
  refine ⟨?_, fun u hu => ?_, fun v' u hu => ?_, h.once, fun v' k' q' hq' => ?_,
    fun u r' prog' f' hu => ?_⟩
  · simp [Device.setStage, h.count]
  · rw [Function.update_of_ne (show u ≠ r from fun he => absurd (he ▸ hu) (Nat.not_le.mpr hlt))]
    exact h.ahead u hu
  · have hw := h.sent v' u hu
    rw [hold (by simp [hw]), hw]
  · simp only [channels_update] at hq'
    split at hq'
    · rename_i he
      obtain ⟨rfl, rfl⟩ := he
      cases hq'
      refine ⟨hrest, fun u hu => ?_⟩
      have hne : u ≠ r := fun he => hnot (he ▸ hu)
      rw [Function.update_of_ne hne]
      exact hall u (List.mem_cons_of_mem _ hu)
    · rename_i hne
      obtain ⟨hnodup', hall'⟩ := h.queued v' k' q' hq'
      refine ⟨hnodup', fun u hu => ?_⟩
      obtain ⟨hw, hstripe⟩ := hall' u hu
      refine ⟨?_, hstripe⟩
      rw [hold (by rw [hw]; rintro he; cases he; exact hne ⟨rfl, rfl⟩), hw]
  · simp only [Device.setStage, List.getElem?_set] at hu
    split at hu
    · rename_i he
      subst he
      cases hu
      exact Function.update_self _ _ _
    · have hw := h.serving u r' prog' f' hu
      rw [hold (by simp [hw]), hw]

end Placed

/-! ## What is lent -/

/-- Requests that are open have their memory to themselves, those that wait still hold what they
held when they were submitted, and none is answered twice. -/
structure Lent (w : Nat → Place) (s : Device n) : Prop where
  unanswered : ∀ (t r : Nat) prog f, s.tasks[t]? = some (.processing r prog f) →
    f.completions = [] → ∀ a ∈ s.log, a.req ≠ r
  waiting : ∀ r x, s.reqs[r]? = some x → (∀ t, w r ≠ .serving t) →
    (∀ a ∈ s.log, a.req ≠ r) ∧ s.bytes x = x.given
  logged : ∀ a ∈ s.log, a.req < s.reqs.length
  once : (s.log.map (·.req)).Nodup
  apart : ∀ r x r' x', r ≠ r' → s.Open r x → s.Open r' x' → Apart x.toRequest x'.toRequest
  own : ∀ (r : Nat) (x : Submitted n), s.reqs[r]? = some x → x.io.ioType = .read → x.seg.Disjoint

theorem Apart.symm {x y : Request n} (h : Apart x y) : Apart y x := by
  rcases h with ⟨hx, hy⟩ | h
  · exact Or.inl ⟨hy, hx⟩
  · exact Or.inr fun a hy hx => h a hx hy

namespace Lent
variable {dev : Raid5Bdev} {w : Nat → Place} {s s' : Device n}

theorem start (ram : Nat → Byte) (disks : Nat → Nat → Block n) :
    Lent (fun _ => .ahead) (Device.start ram disks) :=
  ⟨fun _ _ _ _ ht => (by simp [Device.start] at ht), fun _ _ hx => (by simp [Device.start] at hx),
    fun _ ha => absurd ha List.not_mem_nil, List.nodup_nil,
    fun _ _ _ _ _ hx => (by simp [Device.start, Device.Open] at hx),
    fun _ _ hx => (by simp [Device.start] at hx)⟩

/-- A request in service is open, unless it is answered. -/
theorem opened (h : Lent w s) {t r : Nat} {x : Submitted n} {prog : Task Unit}
    {f : Frame (Block n)} (ht : s.tasks[t]? = some (.processing r prog f))
    (hx : s.reqs[r]? = some x) {ram' : Nat → Byte} (hdone : f.completions ≠ [] → ram' = s.ram) :
    s.Open r x ∨ ram' = s.ram := by
  by_cases hf : f.completions = []
  · exact Or.inl ⟨hx, h.unanswered t r prog f ht hf⟩
  · exact Or.inr (hdone hf)

/-- A step of one request leaves the memory of the other open ones alone. -/
theorem others (h : Lent w s) {r : Nat} {x : Submitted n} {ram' : Nat → Byte}
    (hopen : s.Open r x ∨ ram' = s.ram)
    (hwithin : Within x.seg (x.io.ioType = .read) s.ram ram') {r' : Nat} {x' : Submitted n}
    (hne : r' ≠ r) (ho : s.Open r' x') : ∀ a ∈ x'.seg.addrs, ram' a = s.ram a := by
  intro a ha
  rcases hwithin with hsame | ⟨hread, hout⟩
  · exact congrFun hsame a
  · rcases hopen with hopen | hsame
    · rcases h.apart r' x' r x hne ho hopen with ⟨_, hno⟩ | hapart
      · exact absurd hread hno
      · exact hout a (hapart a ha)
    · exact congrFun hsame a

/-- Nothing of the client's memory is touched. -/
theorem set (h : Lent w s) {w' : Nat → Place} {t : Nat} {stage : Stage n}
    (hram : s'.ram = s.ram) (hreqs : s'.reqs = s.reqs) (hlog : s'.log = s.log)
    (htasks : s'.tasks = s.tasks.set t stage)
    (hplace : ∀ r, (∀ t, w' r ≠ .serving t) → ∀ t, w r ≠ .serving t)
    (hstage : ∀ r prog f, stage = .processing r prog f → ∀ a ∈ s.log, a.req ≠ r) :
    Lent w' s' := by
  refine ⟨fun t' r prog f ht hf => ?_, fun r x hx hw => ?_, by rw [hlog, hreqs]; exact h.logged,
    by rw [hlog]; exact h.once, fun r x r' x' hne ho ho' => ?_, by rw [hreqs]; exact h.own⟩
  · rw [hlog]
    rw [htasks, List.getElem?_set] at ht
    split at ht
    · split at ht
      · exact hstage r prog f (Option.some.inj ht)
      · cases ht
    · exact h.unanswered t' r prog f ht hf
  · rw [hreqs] at hx
    rw [hlog, Device.bytes, hram]
    exact h.waiting r x hx (hplace r hw)
  · unfold Device.Open at ho ho'
    rw [hreqs, hlog] at ho ho'
    exact h.apart r x r' x' hne ho ho'

/-- Task `t` moves its request on. -/
theorem move (h : Lent w s) (hp : Placed dev w s) {t r : Nat} {prog prog' : Task Unit}
    {f f' : Frame (Block n)} {x : Submitted n} {more : List Answer}
    (ht : s.tasks[t]? = some (.processing r prog f)) (hx : s.reqs[r]? = some x)
    (hreqs : s'.reqs = s.reqs) (hlog : s'.log = s.log ++ more)
    (htasks : s'.tasks = s.tasks.set t (.processing r prog' f'))
    (hwithin : Within x.seg (x.io.ioType = .read) s.ram s'.ram)
    (hdone : f.completions ≠ [] → s'.ram = s.ram)
    (hmore : more = [] ∨ f.completions = [] ∧ ∃ a, more = [a] ∧ a.req = r)
    (hopen : f'.completions = [] → f.completions = [] ∧ more = []) : Lent w s' := by
  have hserving := hp.serving t r prog f ht
  have hown : s.Open r x ∨ s'.ram = s.ram := h.opened ht hx hdone
  have hreq : ∀ a ∈ more, a.req = r := by
    rcases hmore with rfl | ⟨_, a, rfl, ha⟩
    · exact List.forall_mem_nil _
    · exact List.forall_mem_singleton.mpr ha
  have hother : ∀ {r' : Nat}, (∀ a ∈ s.log, a.req ≠ r') → r' ≠ r → ∀ a ∈ s'.log, a.req ≠ r' := by
    intro r' hold hne a ha
    rw [hlog] at ha
    rcases List.mem_append.mp ha with ha | ha
    · exact hold a ha
    · exact fun he => hne (he.symm.trans (hreq a ha))
  refine ⟨fun t' r' prog₀ f₀ ht' hf₀ => ?_, fun r' x' hx' hw => ?_, fun a ha => ?_, ?_,
    fun r₁ x₁ r₂ x₂ hne ho₁ ho₂ => ?_, by rw [hreqs]; exact h.own⟩
  · rw [htasks, List.getElem?_set] at ht'
    split at ht'
    · split at ht'
      · cases ht'
        obtain ⟨hf, hnone⟩ := hopen hf₀
        rw [hlog, hnone, List.append_nil]
        exact h.unanswered t r prog f ht hf
      · cases ht'
    · rename_i hne
      refine hother (h.unanswered t' r' prog₀ f₀ ht' hf₀) ?_
      rintro rfl
      exact hne (hp.same_task ht' ht)
  · rw [hreqs] at hx'
    obtain ⟨hnot, hbytes⟩ := h.waiting r' x' hx' hw
    have hne : r' ≠ r := fun he => hw t (he ▸ hserving)
    refine ⟨hother hnot hne, ?_⟩
    rw [← hbytes]
    exact gather_congr (h.others hown hwithin hne ⟨hx', hnot⟩)
  · rw [hreqs]
    rw [hlog] at ha
    rcases List.mem_append.mp ha with ha | ha
    · exact h.logged a ha
    · rw [hreq a ha]
      exact (List.getElem?_eq_some_iff.mp hx).1
  · rw [hlog, List.map_append]
    rcases hmore with rfl | ⟨hf, a, rfl, ha⟩
    · rw [List.map_nil, List.append_nil]
      exact h.once
    · refine h.once.append (List.nodup_singleton _) fun r' hr' hnew => ?_
      obtain ⟨c, hc, rfl⟩ := List.mem_map.mp hr'
      exact h.unanswered t r prog f ht hf c hc ((List.mem_singleton.mp hnew).trans ha)
  · have hback : ∀ {u : Nat} {y : Submitted n}, s'.Open u y → s.Open u y := by
      rintro u y ⟨hy, hnot⟩
      rw [hreqs] at hy
      exact ⟨hy, fun a ha => hnot a (by rw [hlog]; exact List.mem_append_left _ ha)⟩
    exact h.apart r₁ x₁ r₂ x₂ hne (hback ho₁) (hback ho₂)

/-- Memory that a request in service changes is that of an open read. -/
theorem touched (h : Lent w s) {t r : Nat} {x : Submitted n} {prog : Task Unit}
    {f : Frame (Block n)} {ram' : Nat → Byte} (ht : s.tasks[t]? = some (.processing r prog f))
    (hx : s.reqs[r]? = some x) (hwithin : Within x.seg (x.io.ioType = .read) s.ram ram')
    (hdone : f.completions ≠ [] → ram' = s.ram) {a : Nat} (hne : ram' a ≠ s.ram a) :
    ∃ t x, s.Open t x ∧ x.io.ioType = .read ∧ a ∈ x.seg.addrs := by
  rcases hwithin with hsame | ⟨hread, hout⟩
  · exact absurd (congrFun hsame a) hne
  · rcases h.opened ht hx hdone with hopen | hsame
    · refine ⟨r, x, hopen, hread, ?_⟩
      by_contra ha
      exact hne (hout a ha)
    · exact absurd (congrFun hsame a) hne

theorem submit (h : Lent w s) {req : Request n}
    (hlends : Lends s (.submit req)) :
    Lent (Function.update w s.reqs.length (.sent (dev.ownerIdx (req.stripe dev))))
      (s.submitIo dev req) := by
  obtain ⟨hown, hapart⟩ := hlends
  have hnew : ∀ {u : Nat} {y : Submitted n}, (s.submitIo dev req).Open u y →
      s.Open u y ∨ (u = s.reqs.length ∧ y.toRequest = req) := by
    rintro u y ⟨hy, hnot⟩
    rcases append_get hy with hy | ⟨he, rfl⟩
    · exact Or.inl ⟨hy, hnot⟩
    · exact Or.inr ⟨he, rfl⟩
  refine ⟨fun t r prog f ht hf => ?_, fun r x hx hw => ?_, fun a ha => ?_, h.once,
    fun r x r' x' hne ho ho' => ?_, fun r x hx hty => ?_⟩
  · rcases append_get ht with ht | ⟨_, he⟩
    · exact h.unanswered t r prog f ht hf
    · cases he
  · rcases append_get hx with hx | ⟨rfl, rfl⟩
    · have hlt := (List.getElem?_eq_some_iff.mp hx).1
      rw [Function.update_of_ne hlt.ne] at hw
      exact h.waiting r x hx hw
    · exact ⟨fun a ha => (h.logged a ha).ne, rfl⟩
  · have hlt := h.logged a ha
    simp only [Device.submitIo, List.length_append, List.length_singleton]
    omega
  · rcases hnew ho with hold | ⟨hr, hx⟩
    · rcases hnew ho' with hold' | ⟨_, hx'⟩
      · exact h.apart r x r' x' hne hold hold'
      · rw [hx']
        exact (hapart r x hold).symm
    · rcases hnew ho' with hold' | ⟨hr', _⟩
      · rw [hx]
        exact hapart r' x' hold'
      · exact absurd (hr.trans hr'.symm) hne
  · rcases append_get hx with hx | ⟨_, rfl⟩
    · exact h.own r x hx hty
    · exact hown hty

theorem client (h : Lent w s) {a : Nat} {b : Byte} (hlends : Lends s (.client a b)) :
    Lent w { s with ram := Function.update s.ram a b } := by
  refine { h with waiting := fun r x hx hw => ?_ }
  obtain ⟨hnot, hbytes⟩ := h.waiting r x hx hw
  refine ⟨hnot, ?_⟩
  rw [← hbytes]
  refine gather_congr fun c hc => Function.update_of_ne ?_ _ _
  rintro rfl
  exact hlends r x ⟨hx, hnot⟩ hc

end Lent

/-! ## The same device -/

/-- The stage of a task in both models. -/
inductive SameStage (reqs : List (Submitted n)) (ram : Nat → Byte) :
    Stage n → Raid5.Stage (Block n) → Prop
  | spawned : SameStage reqs ram .spawned .spawned
  | draining : SameStage reqs ram .draining .draining
  | finished : SameStage reqs ram .finished .finished
  | panicked (msg : String) : SameStage reqs ram (.panicked msg) (.panicked msg)
  | processing {r : Nat} {x : Submitted n} {prog : Task Unit} {f g : Frame (Block n)}
      (hx : reqs[r]? = some x) (h : InService x ram prog f g) :
      SameStage reqs ram (.processing r prog f) (.processing x.shown prog g)

/-- The request behind a number. -/
def IsShown (reqs : List (Submitted n)) (r : Nat) (q : Raid5.Request (Block n)) : Prop :=
  ∃ x, reqs[r]? = some x ∧ q = x.shown

structure SameQueue (reqs : List (Submitted n)) (p : StripeQueue Nat)
    (q : StripeQueue (Raid5.Request (Block n))) : Prop where
  pending : List.Forall₂ (IsShown reqs) p.pending q.pending
  draining : p.draining = q.draining

/-- The same completion; the blocks in memory are the bytes of the segments. -/
def SameAnswer (reqs : List (Submitted n)) (a : Answer) (c : Raid5.Answer (Block n)) : Prop :=
  ∃ x, reqs[a.req]? = some x ∧ c.req = x.shown ∧ c.sender = a.sender ∧ c.status = a.status ∧
    a.bytes = toBytes (memBlocks x.io) c.mem

structure Matches (s : Device n) (d : Raid5.Device (Block n)) : Prop where
  disks : d.disks = s.disks
  inbox : d.inbox = s.inbox
  reqs : d.submitted = s.reqs.map Submitted.shown
  stages : List.Forall₂ (SameStage s.reqs s.ram) s.tasks (d.tasks.map (·.stage))
  queues : ∀ v k, Option.Rel (SameQueue s.reqs) (s.channels v k) (d.channels v k)
  log : List.Forall₂ (SameAnswer s.reqs) s.log d.log

section mono
variable {reqs : List (Submitted n)} {ram : Nat → Byte}

theorem get_append {r : Nat} {x : Submitted n} (h : reqs[r]? = some x) (more : List (Submitted n)) :
    (reqs ++ more)[r]? = some x := by
  rw [List.getElem?_append_left (List.getElem?_eq_some_iff.mp h).1, h]

theorem SameStage.mono {st : Stage n} {st' : Raid5.Stage (Block n)} (h : SameStage reqs ram st st')
    (more : List (Submitted n)) : SameStage (reqs ++ more) ram st st' := by
  cases h with
  | spawned => exact .spawned
  | draining => exact .draining
  | finished => exact .finished
  | panicked msg => exact .panicked msg
  | processing hx h => exact .processing (get_append hx more) h

theorem IsShown.mono {r : Nat} {q : Raid5.Request (Block n)} (h : IsShown reqs r q)
    (more : List (Submitted n)) : IsShown (reqs ++ more) r q := by
  obtain ⟨x, hx, hq⟩ := h
  exact ⟨x, get_append hx more, hq⟩

theorem SameQueue.mono {p : StripeQueue Nat} {q : StripeQueue (Raid5.Request (Block n))}
    (h : SameQueue reqs p q) (more : List (Submitted n)) : SameQueue (reqs ++ more) p q :=
  ⟨h.pending.imp fun _ _ hr => hr.mono more, h.draining⟩

theorem SameAnswer.mono {a : Answer} {c : Raid5.Answer (Block n)} (h : SameAnswer reqs a c)
    (more : List (Submitted n)) : SameAnswer (reqs ++ more) a c := by
  obtain ⟨x, hx, h⟩ := h
  exact ⟨x, get_append hx more, h⟩

/-- Memory changes that a request in service does not see. -/
theorem SameStage.frame {st : Stage n} {st' : Raid5.Stage (Block n)} {ram' : Nat → Byte}
    (h : SameStage reqs ram st st') (hsame : ∀ r prog f x, st = .processing r prog f →
      reqs[r]? = some x → f.completions = [] → ∀ a ∈ x.seg.addrs, ram' a = ram a) :
    SameStage reqs ram' st st' := by
  cases h with
  | spawned => exact .spawned
  | draining => exact .draining
  | finished => exact .finished
  | panicked msg => exact .panicked msg
  | processing hx h => exact .processing hx (h.frame (hsame _ _ _ _ rfl hx))

theorem rel_map {σ τ τ' : Type} {R : σ → τ' → Prop} {f : τ → τ'} {x : Option σ} {y : Option τ}
    (h : Option.Rel R x (y.map f)) : Option.Rel (fun a b => R a (f b)) x y := by
  cases y with
  | none =>
    cases h
    exact .none
  | some b =>
    cases h with
    | some h => exact .some h

end mono

namespace Matches
variable {dev : Raid5Bdev} {s s' : Device n} {d d' : Raid5.Device (Block n)} {w : Nat → Place}

theorem start (ram : Nat → Byte) (disks : Nat → Nat → Block n) :
    Matches (Device.start ram disks) (Raid5.Device.start disks) :=
  ⟨rfl, rfl, rfl, .nil, fun _ _ => .none, .nil⟩

theorem stage (h : Matches s d) (t : Nat) :
    Option.Rel (fun st task => SameStage s.reqs s.ram st task.stage) s.tasks[t]? d.tasks[t]? := by
  have hrel := rel_getElem? h.stages t
  rw [List.getElem?_map] at hrel
  exact rel_map hrel

theorem request (h : Matches s d) (t : Nat) :
    Option.Rel (fun x task => task.req = x.shown) s.reqs[t]? d.tasks[t]? := by
  have hreqs := congrArg (·[t]?) h.reqs
  simp only [Raid5.Device.submitted, List.getElem?_map] at hreqs
  cases hx : s.reqs[t]? with
  | none =>
    rw [hx] at hreqs
    rw [Option.map_eq_none_iff.mp hreqs]
    exact .none
  | some x =>
    rw [hx] at hreqs
    obtain ⟨task, ht, he⟩ := Option.map_eq_some_iff.mp hreqs
    rw [ht]
    exact .some he

/-- A task that is in `process_req` is in service. -/
theorem inService (h : Matches s d) {t r : Nat} {x : Submitted n} {prog : Task Unit}
    {f : Frame (Block n)} (hs : s.tasks[t]? = some (.processing r prog f))
    (hx : s.reqs[r]? = some x) : ∃ g, InService x s.ram prog f g := by
  rcases rel_cases (h.stage t) with ⟨hnone, _⟩ | ⟨st, task, hst, _, hsame⟩
  · cases hnone.symm.trans hs
  · cases hst.symm.trans hs
    generalize task.stage = stage at hsame
    cases hsame with
    | @processing _ y _ _ g hy hin =>
      cases hy.symm.trans hx
      exact ⟨g, hin⟩

theorem submit (h : Matches s d) (hp : Placed dev w s) (req : Request n) :
    Matches (s.submitIo dev req)
      (d.submitIo dev (Submitted.shown ⟨req, gather s.ram req.seg.addrs⟩)) := by
  have hlen : d.tasks.length = s.tasks.length := by
    have := congrArg List.length h.reqs
    simpa [Raid5.Device.submitted, hp.count] using this
  refine ⟨h.disks, ?_, ?_, ?_, fun v k => ?_, h.log.imp fun _ _ ha => ha.mono _⟩
  · simp only [Raid5.Device.submitIo, Device.submitIo, h.inbox, hlen]
    rfl
  · have := h.reqs
    simp only [Raid5.Device.submitted] at this
    simp [Raid5.Device.submitIo, Device.submitIo, Raid5.Device.submitted, this]
  · simp only [Raid5.Device.submitIo, Device.submitIo, List.map_append, List.map_cons, List.map_nil]
    exact List.rel_append (h.stages.imp fun _ _ hst => hst.mono _) (.cons .spawned .nil)
  · simp only [Raid5.Device.submitIo, Device.submitIo]
    rcases rel_cases (h.queues v k) with ⟨hs, hd⟩ | ⟨p, q, hs, hd, hq⟩
    · rw [hs, hd]
      exact .none
    · rw [hs, hd]
      exact .some (hq.mono _)

/-- Task `t` goes on, and what it changes in the client's memory nobody else sees. -/
theorem set (h : Matches s d) {t : Nat} {task : Raid5.IoTask (Block n)} {st : Stage n}
    {st' : Raid5.Stage (Block n)} (ht : d.tasks[t]? = some task) (hreqs : s'.reqs = s.reqs)
    (htasks : s'.tasks = s.tasks.set t st)
    (htasks' : d'.tasks = d.tasks.set t { task with stage := st' })
    (hst : SameStage s.reqs s'.ram st st')
    (hothers : ∀ (t' r : Nat) prog f x, t' ≠ t → s.tasks[t']? = some (.processing r prog f) →
      s.reqs[r]? = some x → f.completions = [] → ∀ a ∈ x.seg.addrs, s'.ram a = s.ram a)
    (hdisks : d'.disks = s'.disks) (hinbox : d'.inbox = s'.inbox)
    (hqueues : ∀ v k, Option.Rel (SameQueue s.reqs) (s'.channels v k) (d'.channels v k))
    (hlog : List.Forall₂ (SameAnswer s.reqs) s'.log d'.log) : Matches s' d' := by
  have hstages : List.Forall₂ (SameStage s.reqs s'.ram) (s.tasks.set t st)
      ((d.tasks.map (·.stage)).set t st') := by
    refine forall₂_of_getElem? fun i => ?_
    rw [List.getElem?_set, List.getElem?_set, ← h.stages.length_eq]
    split
    · split
      · exact .some hst
      · exact .none
    · rename_i hne
      have hrel := rel_getElem? h.stages i
      rcases rel_cases hrel with ⟨hs, hd⟩ | ⟨a, b, hs, hd, hab⟩
      · rw [hs, hd]
        exact .none
      · rw [hs, hd]
        refine .some (hab.frame fun r prog f x ha hx hf => ?_)
        exact hothers i r prog f x (Ne.symm hne) (ha ▸ hs) hx hf
  refine ⟨hdisks, hinbox, ?_, ?_, fun v k => hreqs ▸ hqueues v k, hreqs ▸ hlog⟩
  · rw [submitted_set ht htasks', hreqs, h.reqs]
  · rw [htasks, htasks', hreqs, List.map_set]
    exact hstages

/-- A change of stage that leaves the client's memory alone. -/
theorem setStage (h : Matches s d) {t : Nat} {task : Raid5.IoTask (Block n)} {st : Stage n}
    {st' : Raid5.Stage (Block n)} (ht : d.tasks[t]? = some task)
    (hst : SameStage s.reqs s.ram st st') : Matches (s.setStage t st) (d.setStage t task st') :=
  h.set ht rfl rfl rfl hst (fun _ _ _ _ _ _ _ _ _ _ _ => rfl) h.disks h.inbox h.queues h.log

/-- One entry of the queues of one worker changes. -/
theorem update (h : Matches s d) (v k : Nat) {p : Option (StripeQueue Nat)}
    {q : Option (StripeQueue (Raid5.Request (Block n)))} (hpq : Option.Rel (SameQueue s.reqs) p q) :
    ∀ v' k', Option.Rel (SameQueue s.reqs)
      (Function.update s.channels v (Function.update (s.channels v) k p) v' k')
      (Function.update d.channels v (Function.update (d.channels v) k q) v' k') := by
  intro v' k'
  rw [channels_update, channels_update]
  split
  · exact hpq
  · exact h.queues v' k'

theorem begin (h : Matches s d) {v t : Nat} {rest : List Nat} {x : Submitted n}
    {task : Raid5.IoTask (Block n)} (hx : s.reqs[t]? = some x) (ht : d.tasks[t]? = some task)
    (hreq : task.req = x.shown) :
    Matches (s.begin dev v t rest x) (d.begin dev v t rest task) := by
  have hstripe : task.req.stripe dev = x.stripe dev := by rw [hreq]; rfl
  obtain ⟨hpending, hdraining⟩ : SameQueue s.reqs ((s.channels v (x.stripe dev)).getD {})
      ((d.channels v (x.stripe dev)).getD {}) := by
    rcases rel_cases (h.queues v (x.stripe dev)) with ⟨hs, hd⟩ | ⟨p, q, hs, hd, hq⟩
    · rw [hs, hd]
      exact ⟨.nil, rfl⟩
    · rw [hs, hd]
      exact hq
  unfold Device.begin Raid5.Device.begin enqueue
  rw [hstripe]
  simp only
  refine h.set ht rfl rfl rfl ?_ (fun _ _ _ _ _ _ _ _ _ _ _ => rfl) h.disks ?_ ?_ h.log
  · rw [← hdraining]
    split
    · exact .finished
    · exact .draining
  · exact congrArg (Function.update · v rest) h.inbox
  · exact h.update v _ (.some ⟨List.rel_append hpending (.cons ⟨x, hx, hreq⟩ .nil), rfl⟩)

end Matches

/-! ## Step by step -/

/-- The two devices are in the same state. -/
def Related (dev : Raid5Bdev) (s : Device n) (d : Raid5.Device (Block n)) : Prop :=
  ∃ w, Placed dev w s ∧ Lent w s ∧ Matches s d

namespace Related
variable {b : Build} {dev : Raid5Bdev} {ch : Children} {overflowChecks : Bool} {s : Device n}
  {d : Raid5.Device (Block n)} {t : Nat} {task : Raid5.IoTask (Block n)}

/-- A task comes to a stage in which it serves no request. -/
theorem leaves (h : Related dev s d) (ht : d.tasks[t]? = some task) {st : Stage n}
    {st' : Raid5.Stage (Block n)} (hst : SameStage s.reqs s.ram st st')
    (hnone : ∀ r prog f, st ≠ .processing r prog f) :
    Related dev (s.setStage t st) (d.setStage t task st') := by
  obtain ⟨w, hp, hl, hm⟩ := h
  exact ⟨w, hp.set rfl rfl rfl rfl fun r prog f he => absurd he (hnone r prog f),
    hl.set rfl rfl rfl rfl (fun _ => id) fun r prog f he => absurd he (hnone r prog f),
    hm.setStage ht hst⟩

theorem drain (h : Related dev s d) {x : Submitted n} (ht : d.tasks[t]? = some task)
    (hreq : task.req = x.shown) (heap : Nat → Nat → Block n) :
    Option.Rel (Related dev) (s.drain dev overflowChecks t x heap)
      (some (d.drain dev overflowChecks t task heap)) := by
  have hstripe : task.req.stripe dev = x.stripe dev := by rw [hreq]; rfl
  obtain ⟨k, hk⟩ : ∃ k, k = x.stripe dev := ⟨_, rfl⟩
  obtain ⟨v, hv⟩ : ∃ v, v = dev.ownerIdx k := ⟨_, rfl⟩
  unfold Device.drain Raid5.Device.drain
  simp only [hstripe, ← hk, ← hv]
  obtain ⟨w, hp, hl, hm⟩ := id h
  rcases rel_cases (hm.queues v k) with ⟨hs, hd⟩ | ⟨p, q, hs, hd, hpending, hdraining⟩
  · simp only [Raid5.dequeue, hs, hd, Option.bind_eq_bind, Option.bind_none]
    exact .some (h.leaves ht (.panicked _) fun _ _ _ he => by cases he)
  · obtain ⟨pending, draining⟩ := p
    obtain ⟨pending', draining'⟩ := q
    simp only at hpending hdraining
    simp only [Raid5.dequeue, hs, hd, Option.bind_eq_bind, Option.bind_some]
    cases hpending with
    | nil =>
      refine .some ⟨w, (hp.untrack v k).set rfl rfl rfl rfl fun _ _ _ he => (by cases he),
        hl.set rfl rfl rfl rfl (fun _ => id) fun _ _ _ he => (by cases he), ?_⟩
      exact hm.set ht rfl rfl rfl .finished (fun _ _ _ _ _ _ _ _ _ _ _ => rfl) hm.disks hm.inbox
        (hm.update v k .none) hm.log
    | @cons r q rest rest' hr hrest =>
      obtain ⟨y, hy, rfl⟩ := hr
      obtain ⟨hqueued, hstripe'⟩ := (hp.queued v k _ hs).2 r (List.mem_cons_self ..)
      have hwaits : ∀ u, w r ≠ .serving u := fun u he => by cases hqueued.symm.trans he
      obtain ⟨hnot, hgiven⟩ := hl.waiting r y hy hwaits
      have hlt : t < s.tasks.length := by
        rw [hm.stages.length_eq, List.length_map]
        exact (List.getElem?_eq_some_iff.mp ht).1
      simp only [hy, Option.map_some, pure]
      refine .some ⟨_, hp.take hs rfl hy hlt, ?_, ?_⟩
      · refine hl.set rfl rfl rfl rfl (fun u hu => ?_) fun _ _ _ he => ?_
        · by_cases hne : u = r
          · subst hne
            exact absurd (Function.update_self ..) (hu t)
          · rwa [Function.update_of_ne hne] at hu
        · cases he
          exact hnot
      · rw [← hstripe' y hy]
        have hin := InService.start dev overflowChecks heap hgiven
        exact hm.set ht rfl rfl rfl (.processing hy hin) (fun _ _ _ _ _ _ _ _ _ _ _ => rfl) hm.disks
          hm.inbox (hm.update v _ (.some ⟨hrest, hdraining⟩)) hm.log

/-- The request of task `t` moves on. -/
theorem moves {w : Nat → Place} (hp : Placed dev w s) (hl : Lent w s) (hm : Matches s d)
    (ht : d.tasks[t]? = some task) {r : Nat} {x : Submitted n} {prog prog' : Task Unit}
    {f : Frame (Block n)} {u : Proc n} {v : Raid5.Proc (Block n)} {more : List Answer}
    {more' : List (Raid5.Answer (Block n))} (hs : s.tasks[t]? = some (.processing r prog f))
    (hx : s.reqs[r]? = some x) (hdisks : u.disks = v.disks)
    (hin : InService x u.ram prog' u.toFrame v.toFrame)
    (hwithin : Within x.seg (x.io.ioType = .read) s.ram u.ram)
    (hdone : f.completions ≠ [] → u.ram = s.ram)
    (hmore : more = [] ∨ f.completions = [] ∧ ∃ a, more = [a] ∧ a.req = r)
    (hopen : u.completions = [] → f.completions = [] ∧ more = [])
    (hanswers : List.Forall₂ (SameAnswer s.reqs) more more') :
    Related dev { s.put t r prog' u with log := s.log ++ more }
      { d.setStage t task (.processing x.shown prog' v.toFrame) with
        disks := v.disks, log := d.log ++ more' } := by
  refine ⟨w, hp.set rfl rfl rfl rfl fun _ _ _ he => ?_, hl.move hp hs hx rfl rfl rfl hwithin hdone
    hmore hopen, hm.set ht rfl rfl rfl (.processing hx hin)
    (fun t' r' prog₀ f₀ y hne ht' hy hf => ?_) hdisks.symm hm.inbox hm.queues
    (List.rel_append hm.log hanswers)⟩
  · cases he
    exact hp.serving t r prog f hs
  · refine hl.others (hl.opened hs hx hdone) hwithin ?_ ⟨hy, hl.unanswered t' r' prog₀ f₀ ht' hf⟩
    rintro rfl
    exact hne (hp.same_task hs ht')

/-- A request is completed once. -/
theorem completes_once {x : Submitted n} {ram : Nat → Byte} {sender : SpdkThread}
    {status : IoStatus} {k : Res (.complete sender status) → Task Unit} {f g : Frame (Block n)}
    (hin : InService x ram (.op (.complete sender status) k) f g) : f.completions = [] := by
  obtain ⟨d, hacc⟩ := hin.accounted
  by_contra ha
  obtain ⟨r, hr⟩ := hacc.drops (hin.completions_eq ▸ ha)
  cases hr

/-- What an operation adds to the record. -/
theorem same_answers {r : Nat} {x : Submitted n} {o : Op} {k : Res o → Task Unit}
    {f g : Frame (Block n)} (hx : s.reqs[r]? = some x) (hin : InService x s.ram (.op o k) f g) :
    List.Forall₂ (SameAnswer s.reqs) (answers r (s.bytes x) o) (Raid5.answers x.shown g o) := by
  cases o with
  | complete sender status =>
    obtain ⟨held, hheld, hshows⟩ := hin.shows
    refine .cons ⟨x, hx, rfl, rfl, rfl, eq_toBytes ?_ fun i hi => ?_⟩ .nil
    · rw [Device.bytes, length_gather, x.seg.length_addrs]
    · refine Eq.trans ?_ ((hshows 0).request i hi).symm
      rw [hheld (completes_once hin)]
      rfl
  | _ => exact .nil

theorem answers_of {r : Nat} {x : Submitted n} {bytes : List Byte} {ram : Nat → Byte} {o : Op}
    {k : Res o → Task Unit} {f g : Frame (Block n)} (hin : InService x ram (.op o k) f g) :
    answers r bytes o = [] ∨ f.completions = [] ∧ ∃ a, answers r bytes o = [a] ∧ a.req = r := by
  cases o with
  | complete sender status => exact Or.inr ⟨completes_once hin, _, rfl, rfl⟩
  | _ => exact Or.inl rfl

theorem answers_nil {r : Nat} {bytes : List Byte} {o : Op} (h : o.completion = []) :
    answers r bytes o = [] := by
  cases o with
  | complete sender status => cases h
  | _ => rfl

theorem performs {w : Nat → Place} (hp : Placed dev w s) (hl : Lent w s) (hm : Matches s d)
    (ht : d.tasks[t]? = some task) {r : Nat} {x : Submitted n} {o : Op} {k : Res o → Task Unit}
    {f g : Frame (Block n)} (hs : s.tasks[t]? = some (.processing r (.op o k) f))
    (hx : s.reqs[r]? = some x) (hin : InService x s.ram (.op o k) f g) :
    Option.Rel (Related dev)
      ((perform b x.seg o ⟨⟨f, s.disks⟩, s.ram⟩).map fun (res, u) =>
        { s.put t r (k res) u with log := s.log ++ answers r (s.bytes x) o })
      ((Raid5.perform o ⟨g, d.disks⟩).map fun (res, u) =>
        { d.setStage t task (.processing x.shown (k res) u.toFrame) with
          disks := u.disks, log := d.log ++ Raid5.answers x.shown g o }) := by
  have hop := hin.perform b (hl.own r x hx) rfl s.disks
  rw [hm.disks]
  rcases rel_cases hop with ⟨hu, hv⟩ | ⟨⟨res, u⟩, ⟨res', v⟩, hu, hv, hres, hdisks, hin', hwithin,
    hdone, hcomp⟩
  · rw [hu, hv]
    exact .none
  · obtain rfl : res = res' := hres
    rw [hu, hv]
    refine .some (moves hp hl hm ht hs hx hdisks hin' hwithin hdone (answers_of hin)
      (fun hnone => ?_) (same_answers hx hin))
    obtain ⟨hf, ho⟩ := List.append_eq_nil_iff.mp (hcomp.symm.trans hnone)
    exact ⟨hf, answers_nil ho⟩

theorem operate (h : Related dev s d) (ht : d.tasks[t]? = some task) {r : Nat} {x : Submitted n}
    {prog : Task Unit} {f g : Frame (Block n)} (hs : s.tasks[t]? = some (.processing r prog f))
    (hx : s.reqs[r]? = some x) (hin : InService x s.ram prog f g) :
    Option.Rel (Related dev) (s.operate b t r x prog f) (d.operate t task x.shown prog g) := by
  cases prog with
  | ret a => exact .some (h.leaves ht .draining fun _ _ _ he => by cases he)
  | op o k =>
    obtain ⟨w, hp, hl, hm⟩ := id h
    cases o with
    | panic msg => exact .some (h.leaves ht (.panicked msg) fun _ _ _ he => by cases he)
    | _ => exact performs (b := b) hp hl hm ht hs hx hin

theorem child (h : Related dev s d) (ht : d.tasks[t]? = some task) {r : Nat} {x : Submitted n}
    {prog : Task Unit} {f g : Frame (Block n)} (hs : s.tasks[t]? = some (.processing r prog f))
    (hx : s.reqs[r]? = some x) (hin : InService x s.ram prog f g) (e : ChildEvent (Block n)) :
    Option.Rel (Related dev)
      ((react ch x.seg ⟨⟨f, s.disks⟩, s.ram⟩ e).map (s.put t r prog))
      ((ch.react ⟨g, d.disks⟩ e).map fun u =>
        { d.setStage t task (.processing x.shown prog u.toFrame) with disks := u.disks }) := by
  obtain ⟨w, hp, hl, hm⟩ := h
  have hop := hin.react ch e s.disks
  rw [hm.disks]
  rcases rel_cases hop with ⟨hu, hv⟩ | ⟨u, v, hu, hv, hdisks, hin', hwithin, hdone, hcomp⟩
  · rw [hu, hv]
    exact .none
  · rw [hu, hv]
    have hmoves : Related dev { s.put t r prog u with log := s.log ++ [] }
        { d.setStage t task (.processing x.shown prog v.toFrame) with
          disks := v.disks, log := d.log ++ [] } :=
      moves hp hl hm ht hs hx hdisks hin' hwithin hdone (Or.inl rfl)
        (fun hnone => ⟨hcomp.symm.trans hnone, rfl⟩) .nil
    simp only [List.append_nil] at hmoves
    exact .some hmoves

end Related

/-- A worker begins the next task sent to it. -/
theorem Related.begin {dev : Raid5Bdev} {s : Device n} {d : Raid5.Device (Block n)} {v t : Nat}
    {rest : List Nat} {x : Submitted n} {task : Raid5.IoTask (Block n)} (h : Related dev s d)
    (hbox : s.inbox v = t :: rest) (hx : s.reqs[t]? = some x) (ht : d.tasks[t]? = some task)
    (hreq : task.req = x.shown) :
    Related dev (s.begin dev v t rest x) (d.begin dev v t rest task) := by
  obtain ⟨w, hp, hl, hm⟩ := h
  have hsent : w t = .sent v := hp.sent v t (by rw [hbox]; exact List.mem_cons_self ..)
  refine ⟨_, hp.begin hbox hx, hl.set rfl rfl rfl rfl (fun r hr u hu => ?_) (fun r prog f he => ?_),
    hm.begin hx ht hreq⟩
  · by_cases hne : r = t
    · subst hne
      cases hsent.symm.trans hu
    · rw [Function.update_of_ne hne] at hr
      exact hr u hu
  · split at he <;> cases he

/-- The same event of the coarser device; a step of the client is none. -/
def DevEvent.shown (ram : Nat → Byte) : DevEvent n → Option (Raid5.DevEvent (Block n))
  | .submit req => some (.submit (Submitted.shown ⟨req, gather ram req.seg.addrs⟩))
  | .start worker => some (.start worker)
  | .dequeue t heap => some (.dequeue t heap)
  | .step t => some (.step t)
  | .child t e => some (.child t e)
  | .client _ _ => none

section lockstep
variable {b : Build} {dev : Raid5Bdev} {ch : Children} {overflowChecks : Bool} {s : Device n}
  {d : Raid5.Device (Block n)}

/-- **Both devices take the same step.** -/
theorem Related.next (h : Related dev s d) {e : DevEvent n} (hlends : Lends s e)
    {e' : Raid5.DevEvent (Block n)} (he : e.shown s.ram = some e') :
    Option.Rel (Related dev) (s.next b dev ch overflowChecks e)
      (d.next dev ch overflowChecks e') := by
  obtain ⟨w, hp, hl, hm⟩ := id h
  cases e with
  | submit req =>
    cases he
    exact .some ⟨_, hp.submit req, hl.submit hlends, hm.submit hp req⟩
  | start v =>
    cases he
    simp only [Device.next, Raid5.Device.next, hm.inbox]
    cases hbox : s.inbox v with
    | nil => exact .none
    | cons t rest =>
      rcases rel_cases (hm.request t) with ⟨hx, ht⟩ | ⟨x, task, hx, ht, hreq⟩
      · simp only [hx, ht]
        exact .none
      · simp only [hx, ht]
        exact .some (h.begin hbox hx ht hreq)
  | dequeue t heap =>
    cases he
    simp only [Device.next, Raid5.Device.next]
    rcases rel_cases (hm.request t) with ⟨hx, ht⟩ | ⟨x, task, hx, ht, hreq⟩
    · simp only [hx, ht]
      exact .none
    · obtain ⟨st, hs, hst⟩ : ∃ st, s.tasks[t]? = some st ∧
          SameStage s.reqs s.ram st task.stage := by
        rcases rel_cases (hm.stage t) with ⟨_, hnone⟩ | ⟨st, task', hs, ht', hst⟩
        · cases hnone.symm.trans ht
        · cases ht.symm.trans ht'
          exact ⟨st, hs, hst⟩
      simp only [hx, ht, hs, Option.bind_eq_bind, Option.bind_some]
      generalize hstage : task.stage = stage at hst
      cases hst with
      | draining => exact h.drain ht hreq heap
      | _ => exact .none
  | step t =>
    cases he
    simp only [Device.next, Raid5.Device.next]
    rcases rel_cases (hm.stage t) with ⟨hs, ht⟩ | ⟨st, task, hs, ht, hst⟩
    · simp only [hs, ht]
      exact .none
    · simp only [hs, ht, Option.bind_eq_bind, Option.bind_some]
      generalize hstage : task.stage = stage at hst
      cases hst with
      | processing hx hin =>
        simp only [hx, Option.bind_some]
        exact h.operate ht hs hx hin
      | _ => exact .none
  | child t e =>
    cases he
    simp only [Device.next, Raid5.Device.next]
    rcases rel_cases (hm.stage t) with ⟨hs, ht⟩ | ⟨st, task, hs, ht, hst⟩
    · simp only [hs, ht]
      exact .none
    · simp only [hs, ht, Option.bind_eq_bind, Option.bind_some]
      generalize hstage : task.stage = stage at hst
      cases hst with
      | processing hx hin =>
        simp only [hx, Option.bind_some]
        exact h.child ht hs hx hin e
      | _ => exact .none
  | client a x => cases he

/-- A step of the client, which leaves alone what it has lent. -/
theorem Related.client (h : Related dev s d) {a : Nat} {c : Byte}
    (hlends : Lends s (.client a c)) :
    Related dev { s with ram := Function.update s.ram a c } d := by
  obtain ⟨w, hp, hl, hm⟩ := h
  refine ⟨w, ⟨hp.count, hp.ahead, hp.sent, hp.once, hp.queued, hp.serving⟩, hl.client hlends,
    ⟨hm.disks, hm.inbox, hm.reqs, forall₂_of_getElem? fun i => ?_, hm.queues, hm.log⟩⟩
  rcases rel_cases (rel_getElem? hm.stages i) with ⟨hs, hd⟩ | ⟨st, st', hs, hd, hst⟩
  · rw [hs, hd]
    exact .none
  · rw [hs, hd]
    refine .some (hst.frame fun r prog f x he hx hf b hb => Function.update_of_ne ?_ _ _)
    rintro rfl
    exact hlends r x ⟨hx, hl.unanswered i r prog f (he ▸ hs) hf⟩ hb

/-- **What the device changes in the client's memory.** -/
theorem Related.touches (h : Related dev s d) {e : DevEvent n} {s' : Device n}
    (hn : s.next b dev ch overflowChecks e = some s') (hdevice : ∀ a c, e ≠ .client a c) {a : Nat}
    (hne : s'.ram a ≠ s.ram a) :
    ∃ t x, s.Open t x ∧ x.io.ioType = .read ∧ a ∈ x.seg.addrs := by
  obtain ⟨w, _, hl, hm⟩ := h
  rcases next_cases hn hdevice with ⟨req, _, rfl⟩ | ⟨_, hsame | ⟨t, r, prog, f, x, u, hs, hx, hram,
    ⟨o, k, res, rfl, hu⟩ | ⟨ce, hu⟩⟩⟩
  · exact absurd rfl hne
  · exact absurd (congrFun hsame a) hne
  · obtain ⟨g, hin⟩ := hm.inService hs hx
    rw [hram] at hne
    rcases rel_cases (hin.perform b (hl.own r x hx) rfl s.disks) with
      ⟨hnone, _⟩ | ⟨p, q, hp, _, _, _, _, hwithin, hdone, _⟩
    · cases hnone.symm.trans hu
    · cases hp.symm.trans hu
      exact hl.touched hs hx hwithin hdone hne
  · obtain ⟨g, hin⟩ := hm.inService hs hx
    rw [hram] at hne
    rcases rel_cases (hin.react ch ce s.disks) with
      ⟨hnone, _⟩ | ⟨p, q, hp, _, _, _, hwithin, hdone, _⟩
    · cases hnone.symm.trans hu
    · cases hp.symm.trans hu
      exact hl.touched hs hx hwithin hdone hne

/-- The events of a run, as the coarser device has them. -/
def shownRun (b : Build) (dev : Raid5Bdev) (ch : Children) (overflowChecks : Bool) :
    Device n → List (DevEvent n) → List (Raid5.DevEvent (Block n))
  | _, [] => []
  | s, e :: es =>
    match s.next b dev ch overflowChecks e with
    | some t => (e.shown s.ram).toList ++ shownRun b dev ch overflowChecks t es
    | none => []

/-- **Runs.** -/
theorem Related.run (h : Related dev s d) {es : List (DevEvent n)} {s' : Device n}
    (hrun : Lib.run (Device.next b dev ch overflowChecks) s es = some s')
    (hlends : Along (Device.next b dev ch overflowChecks) Lends s es) :
    ∃ d', Lib.run (Raid5.Device.next dev ch overflowChecks) d
      (shownRun b dev ch overflowChecks s es) = some d' ∧ Related dev s' d' := by
  induction es generalizing s d with
  | nil =>
    cases hrun
    exact ⟨d, rfl, h⟩
  | cons e es ih =>
    obtain ⟨t, ht, hrun⟩ := Option.bind_eq_some_iff.mp hrun
    obtain ⟨he, hlends⟩ := hlends t ht
    simp only [shownRun, ht]
    cases hshown : e.shown s.ram with
    | none =>
      cases e with
      | client a c =>
        cases ht
        exact ih (h.client he) hrun hlends
      | _ => cases hshown
    | some e' =>
      rcases rel_cases (h.next he hshown) with ⟨hnone, _⟩ | ⟨u, d₁, hu, hd₁, hrel⟩
      · cases hnone.symm.trans ht
      · cases hu.symm.trans ht
        obtain ⟨d', hd', hrel'⟩ := ih hrel hrun hlends
        refine ⟨d', ?_, hrel'⟩
        rw [Option.toList_some, List.singleton_append, run_cons, hd₁]
        exact hd'

theorem related_start (ram : Nat → Byte) (disks : Nat → Nat → Block n) :
    Related dev (Device.start ram disks) (Raid5.Device.start disks) :=
  ⟨_, Placed.start dev ram disks, Lent.start ram disks, Matches.start ram disks⟩

end lockstep

/-- **The device and its client share memory safely.** As long as the client leaves alone the
memory of requests that have not been completed, and lends no memory of such a request to a
read (reads into memory of their own): a run on the client's memory is one of the device in which
every request has a buffer of its own, step by step, with the same answers, and it never has to
stop where that one does not. And the device changes only the memory of reads that have not been
completed, so that the client may use the memory of a request again as soon as it is. -/
theorem memory_refines_device (b : Build) (dev : Raid5Bdev) (ch : Children) (overflowChecks : Bool)
    (ram : Nat → Byte) (disks : Nat → Nat → Block n) (es : List (DevEvent n)) (s : Device n)
    (hrun : run (Device.next b dev ch overflowChecks) (Device.start ram disks) es = some s)
    (hlends : Along (Device.next b dev ch overflowChecks) Lends (Device.start ram disks) es) :
    (∃ d,
      run (Raid5.Device.next dev ch overflowChecks) (Raid5.Device.start disks)
        (shownRun b dev ch overflowChecks (Device.start ram disks) es) = some d ∧
      d.disks = s.disks ∧ d.submitted = s.reqs.map Submitted.shown ∧
      List.Forall₂ (SameAnswer s.reqs) s.log d.log ∧
      ∀ e e', Lends s e → e.shown s.ram = some e' →
        ((s.next b dev ch overflowChecks e).isSome ↔ (d.next dev ch overflowChecks e').isSome)) ∧
    ∀ e s', s.next b dev ch overflowChecks e = some s' → (∀ a c, e ≠ .client a c) →
      ∀ a, s'.ram a ≠ s.ram a → ∃ t x, s.Open t x ∧ x.io.ioType = .read ∧ a ∈ x.seg.addrs := by
  obtain ⟨d, hd, hrel⟩ := (related_start ram disks).run hrun hlends
  obtain ⟨w, _, _, hm⟩ := id hrel
  refine ⟨⟨d, hd, hm.disks, hm.reqs, hm.log, fun e e' he hshown => ?_⟩,
    fun e s' hn hdevice a hne => hrel.touches hn hdevice hne⟩
  rcases rel_cases (hrel.next he hshown) with ⟨hs, hd⟩ | ⟨u, v, hs, hd, _⟩
  · rw [hs, hd]
    rfl
  · rw [hs, hd]
    rfl

/-- One block of three bytes, in two segments. -/
def threeBytes : Segments 3 1 where
  view := ⟨[⟨100, 1⟩, ⟨200, 2⟩], 0, 0, 1, 3⟩
  numBlocks := rfl
  blockLen := rfl
  pos := Nat.succ_pos 2
  wf := ⟨rfl, by decide⟩

/-- A read of block 0; the client uses its memory again while the task still drops values. -/
def readThenReuse : List (DevEvent 3) :=
  [.submit ⟨⟨⟨.read, 0, 1⟩, 7⟩, threeBytes⟩, .client 300 ⟨1⟩, .start 0, .dequeue 0 0, .step 0,
    .child 0 (.apply 0 0), .child 0 (.finish 0), .step 0, .step 0, .client 200 ⟨9⟩, .step 0]

theorem memory_refines_device_readThenReuse : ∃ s d,
    run (Device.next Runtime.release smallArray ⟨fun _ _ => true, true⟩ true)
      (Device.start (fun _ => ⟨3⟩) fun _ _ _ => ⟨5⟩) readThenReuse = some s ∧
      (s.ram 100, s.ram 200, s.ram 300) = (⟨5⟩, ⟨9⟩, ⟨1⟩) ∧
      s.log.map (·.bytes) = [[⟨5⟩, ⟨5⟩, ⟨5⟩]] ∧
      run (Raid5.Device.next smallArray ⟨fun _ _ => true, true⟩ true)
        (Raid5.Device.start fun _ _ _ => ⟨5⟩)
        (shownRun Runtime.release smallArray ⟨fun _ _ => true, true⟩ true
          (Device.start (fun _ => ⟨3⟩) fun _ _ _ => ⟨5⟩) readThenReuse) = some d ∧
      List.Forall₂ (SameAnswer s.reqs) s.log d.log := by
  have hview : (run (Device.next Runtime.release smallArray ⟨fun _ _ => true, true⟩ true)
      (Device.start (fun _ => ⟨3⟩) fun _ _ _ => ⟨5⟩) readThenReuse).map
      (fun s => ((s.ram 100, s.ram 200, s.ram 300), s.log.map (·.bytes))) =
      some ((⟨5⟩, ⟨9⟩, ⟨1⟩), [[⟨5⟩, ⟨5⟩, ⟨5⟩]]) := by decide +kernel
  obtain ⟨s, hs, hl⟩ := Option.map_eq_some_iff.mp hview
  obtain ⟨⟨d, hd, _, _, hlog, _⟩, _⟩ := memory_refines_device Runtime.release smallArray
    ⟨fun _ _ => true, true⟩ true (fun _ => ⟨3⟩) (fun _ _ _ => ⟨5⟩) readThenReuse s hs
    (by decide +kernel)
  exact ⟨s, d, hs, congrArg Prod.fst hl, congrArg Prod.snd hl, hd, hlog⟩

end Ironspdk.Raid5.Scattered
