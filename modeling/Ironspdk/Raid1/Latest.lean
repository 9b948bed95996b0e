import Ironspdk.Raid1.Mirror

/-! # What a RAID1 read returns

Requests one at a time, with child I/Os that may fail. A write is acknowledged when it has
succeeded on one child, and nothing remembers the children it has failed on: a later read
returns what the child that serves it has stored last. -/
namespace Ironspdk.Raid1
open Ironspdk.Lib Ironspdk.Runtime

variable {B : Type*}

def Phase.Ended (p : Phase) : Prop := ∃ status, p = .completed status

instance : (p : Phase) → Decidable p.Ended
  | .completed status => isTrue ⟨status, rfl⟩
  | .reading _ => isFalse fun ⟨_, h⟩ => by cases h
  | .writing _ _ _ => isFalse fun ⟨_, h⟩ => by cases h

/-- `w` is the last one before `r` for which `p` holds. -/
def Latest (p : Nat → Prop) (r w : Nat) : Prop := w < r ∧ p w ∧ ∀ v, w < v → v < r → ¬ p v

theorem latest_succ {p : Nat → Prop} {r w : Nat} (h : Latest p (r + 1) w) :
    w = r ∨ ¬ p r ∧ Latest p r w := by
  obtain ⟨hlt, hp, hlast⟩ := h
  rcases Nat.lt_succ_iff_lt_or_eq.mp hlt with hlt | rfl
  · exact Or.inr ⟨hlast r hlt (Nat.lt_succ_self r),
      hlt, hp, fun v hv hr => hlast v hv (Nat.lt_succ_of_lt hr)⟩
  · exact Or.inl rfl

theorem latest_congr {p q : Nat → Prop} {r w : Nat} (hpq : ∀ v < r, p v ↔ q v) :
    Latest p r w ↔ Latest q r w := by
  unfold Latest
  refine and_congr_right fun hlt => and_congr (hpq w hlt) ?_
  exact forall_congr' fun v => forall_congr' fun _ => forall_congr' fun hv => not_congr (hpq v hv)

namespace Mirror

/-- No request is submitted while another one is in progress. -/
def OneAtATime (s : Mirror B) : MirrorEvent B → Prop
  | .submit _ _ _ => ∀ r < s.count, (s.req r).phase.Ended
  | _ => True

instance (s : Mirror B) : (e : MirrorEvent B) → Decidable (s.OneAtATime e)
  | .submit _ _ _ => inferInstanceAs (Decidable (∀ r < s.count, (s.req r).phase.Ended))
  | .serve _ _ | .finish _ _ | .fail _ _ _ | .resume _ => isTrue trivial

/-- Request `r` is a write of block `b` that succeeded on child `c`. -/
def SucceededOn (s : Mirror B) (c b r : Nat) : Prop :=
  (s.req r).io.ioType = .write ∧ (s.req r).Covers b ∧ (s.req r).ios c = .ended true

/-- Request `r` is a write of block `b` that was completed with `Success`. -/
def Acknowledged (s : Mirror B) (b r : Nat) : Prop :=
  (s.req r).io.ioType = .write ∧ (s.req r).Covers b ∧ (s.req r).phase = .completed .success

instance (s : Mirror B) (c b r : Nat) : Decidable (s.SucceededOn c b r) :=
  inferInstanceAs (Decidable (_ ∧ _))

instance (s : Mirror B) (b r : Nat) : Decidable (s.Acknowledged b r) :=
  inferInstanceAs (Decidable (_ ∧ _))

end Mirror

/-! ## The contents of a child -/

/-- Child `c` has stored the data of the request. -/
def Req.StoredOn (q : Req B) (c : Nat) : Prop := q.io.ioType = .write ∧ (q.ios c).took = true

instance (q : Req B) (c : Nat) : Decidable (q.StoredOn c) := inferInstanceAs (Decidable (_ ∧ _))

namespace Mirror

/-- What child `c` holds after the requests before `r`, stored in their order. -/
def contents (disks : Nat → Nat → B) (s : Mirror B) (c : Nat) : Nat → Nat → B
  | 0 => disks c
  | r + 1 =>
    if (s.req r).StoredOn c then (s.req r).store (contents disks s c r) else contents disks s c r

variable {disks : Nat → Nat → B} {s u : Mirror B} {c b r w : Nat}

theorem contents_congr (h : ∀ v < r, u.req v = s.req v) :
    contents disks u c r = contents disks s c r := by
  induction r with
  | zero => rfl
  | succ r ih =>
    have hr := h r (Nat.lt_succ_self r)
    simp only [contents, hr, ih fun v hv => h v (Nat.lt_succ_of_lt hv)]

theorem contents_out (h : ¬ ((s.req r).StoredOn c ∧ (s.req r).Covers b)) :
    contents disks s c (r + 1) b = contents disks s c r b := by
  simp only [contents]
  split
  · rename_i hst
    exact Req.store_out (fun hb => h ⟨hst, hb⟩) _
  · rfl

theorem contents_of_latest
    (h : Latest (fun v => (s.req v).StoredOn c ∧ (s.req v).Covers b) r w) :
    contents disks s c r b = (s.req w).dataOf b := by
  induction r with
  | zero => exact absurd h.1 (Nat.not_lt_zero w)
  | succ r ih =>
    rcases latest_succ h with rfl | ⟨hr, h⟩
    · obtain ⟨hst, hb⟩ := h.2.1
      simp only [contents, if_pos hst]
      exact Req.store_in hb _
    · exact (contents_out hr).trans (ih h)

theorem contents_of_none (h : ∀ v < r, ¬ ((s.req v).StoredOn c ∧ (s.req v).Covers b)) :
    contents disks s c r b = disks c b := by
  induction r with
  | zero => rfl
  | succ r ih =>
    exact (contents_out (h r (Nat.lt_succ_self r))).trans
      (ih fun v hv => h v (Nat.lt_succ_of_lt hv))

/-- The same children have stored the same data. -/
theorem contents_same
    (h : ∀ v < r, ((u.req v).StoredOn c ↔ (s.req v).StoredOn c) ∧
      ((s.req v).StoredOn c → (u.req v).store = (s.req v).store)) :
    contents disks u c r = contents disks s c r := by
  induction r with
  | zero => rfl
  | succ r ih =>
    obtain ⟨hst, hstore⟩ := h r (Nat.lt_succ_self r)
    have ih := ih fun v hv => h v (Nat.lt_succ_of_lt hv)
    simp only [contents, ih]
    by_cases hs : (s.req r).StoredOn c
    · rw [if_pos hs, if_pos (hst.mpr hs), hstore hs]
    · rw [if_neg hs, if_neg (mt hst.mp hs)]

/-- From request `r` on, nothing is stored in a block. -/
theorem contents_later {m : Nat} (hr : r ≤ m)
    (h : ∀ v, r ≤ v → v < m → ¬ ((s.req v).StoredOn c ∧ (s.req v).Covers b)) :
    contents disks s c m b = contents disks s c r b := by
  induction m, hr using Nat.le_induction with
  | base => rfl
  | succ m hrm ih =>
    rw [contents_out (h m hrm (Nat.lt_succ_self m))]
    exact ih fun v hv hm => h v hv (Nat.lt_succ_of_lt hm)

theorem store_comm {q q' : Req B} (h : ∀ b, q.Covers b → ¬ q'.Covers b) (disk : Nat → B) :
    q'.store (q.store disk) = q.store (q'.store disk) := by
  funext b
  by_cases hb : q.Covers b
  · rw [Req.store_out (h b hb), Req.store_in hb, Req.store_in hb]
  · by_cases hb' : q'.Covers b
    · rw [Req.store_in hb', Req.store_out hb, Req.store_in hb']
    · rw [Req.store_out hb', Req.store_out hb, Req.store_out hb, Req.store_out hb']

/-- Request `r` stores its data after requests that have none of its blocks. -/
theorem contents_store {m : Nat} (hother : ∀ v, v ≠ r → u.req v = s.req v)
    (hs : ¬ (s.req r).StoredOn c) (hu : (u.req r).StoredOn c)
    (hstore : (u.req r).store = (s.req r).store) (hr : r < m)
    (hlater : ∀ v, r < v → v < m → ∀ b, (s.req r).Covers b → ¬ (s.req v).Covers b) :
    contents disks u c m = (s.req r).store (contents disks s c m) := by
  have hr : r + 1 ≤ m := hr
  induction m, hr using Nat.le_induction with
  | base =>
    simp only [contents, if_pos hu, if_neg hs, hstore]
    rw [contents_congr fun v hv => hother v (Nat.ne_of_lt hv)]
  | succ m hrm ih =>
    have ih := ih (by omega) fun v hv hm => hlater v hv (Nat.lt_succ_of_lt hm)
    simp only [contents, ih, hother m (by omega)]
    split
    · exact store_comm (hlater m hrm (Nat.lt_succ_self m)) _
    · rfl

/-! ## Requests that do not conflict -/

/-- The request shares a block with a new one, and one of the two is a write. -/
def Conflicts (q : Req B) (io : BdevIo) : Prop :=
  (q.io.ioType = .write ∨ io.ioType = .write) ∧
    ∃ b < io.offsetBlocks + io.numBlocks, io.offsetBlocks ≤ b ∧ q.Covers b

instance (q : Req B) (io : BdevIo) : Decidable (Conflicts q io) :=
  inferInstanceAs (Decidable (_ ∧ ∃ b < io.offsetBlocks + io.numBlocks, _ ∧ _))

/-- No request is submitted while one it conflicts with is in progress. -/
def NoConflict (s : Mirror B) : MirrorEvent B → Prop
  | .submit _ io _ => ∀ r < s.count, ¬ (s.req r).phase.Ended → ¬ Conflicts (s.req r) io
  | _ => True

instance (s : Mirror B) : (e : MirrorEvent B) → Decidable (s.NoConflict e)
  | .submit _ io _ => inferInstanceAs
      (Decidable (∀ r < s.count, ¬ (s.req r).phase.Ended → ¬ Conflicts (s.req r) io))
  | .serve _ _ | .finish _ _ | .fail _ _ _ | .resume _ => isTrue trivial

/-- Of two requests that conflict, the first has ended; a child holds what it has stored, in
the order of the requests, and a read holds what its child held when it was submitted. -/
structure InOrder (n : Nat) (disks : Nat → Nat → B) (s : Mirror B) : Prop where
  ok : s.Ok n
  apart : ∀ r t, r < t → t < s.count → Conflicts (s.req r) (s.req t).io → (s.req r).phase.Ended
  stored : ∀ c, s.disks c = contents disks s c s.count
  fetched : ∀ r < s.count, (s.req r).io.ioType = .read →
    ((s.req r).ios (s.req r).next).took = true → ∀ i < (s.req r).io.numBlocks,
      (s.req r).mem i = contents disks s (s.req r).next r ((s.req r).io.offsetBlocks + i)

theorem inOrder_start (n : Nat) (overflowChecks : Bool) (disks : Nat → Nat → B) :
    InOrder n disks (start n overflowChecks disks) :=
  ⟨ok_start n overflowChecks disks, fun _ _ _ ht => absurd ht (Nat.not_lt_zero _), fun _ => rfl,
    fun _ hr => absurd hr (Nat.not_lt_zero _)⟩

theorem conflicts_of_covers {q q' : Req B} (hw : q.io.ioType = .write ∨ q'.io.ioType = .write)
    (hb : q.Covers b) (hb' : q'.Covers b) : Conflicts q q'.io :=
  ⟨hw, b, hb'.2, hb'.1, hb⟩

namespace InOrder
variable {n : Nat}

/-- A request in progress and a later one that is a write, or after a write, are apart. -/
theorem blocks_apart (h : InOrder n disks s) {t : Nat} (hr : ¬ (s.req r).phase.Ended)
    (hrt : r < t) (ht : t < s.count)
    (hw : (s.req r).io.ioType = .write ∨ (s.req t).io.ioType = .write) (hb : (s.req r).Covers b) :
    ¬ (s.req t).Covers b :=
  fun hbt => hr (h.apart r t hrt ht (conflicts_of_covers hw hb hbt))

theorem apart_step (h : InOrder n disks s) (hp : ∀ status, (s.req r).phase ≠ .completed status)
    (hcount : u.count = s.count) {q : Req B} (hreq : u.req = Function.update s.req r q)
    (hio : q.io = (s.req r).io) (v t : Nat) (hvt : v < t) (ht : t < u.count)
    (hc : Conflicts (u.req v) (u.req t).io) : (u.req v).phase.Ended := by
  have hother : ∀ v, v ≠ r → u.req v = s.req v := fun v hv => by
    rw [hreq, Function.update_of_ne hv]
  have hios : ∀ v, (u.req v).io = (s.req v).io := fun v => by
    by_cases hv : v = r
    · rw [hv, hreq, Function.update_self, hio]
    · rw [hother v hv]
  have hended := h.apart v t hvt (hcount ▸ ht) (by
    simpa only [Conflicts, Req.Covers, hios] using hc)
  by_cases hv : v = r
  · obtain ⟨status, he⟩ := hended
    exact absurd (hv ▸ he) (hp status)
  · rw [hother v hv]
    exact hended

/-- Request `r` moves on, and nothing is stored for it. -/
theorem move (h : InOrder n disks s) (hok : u.Ok n)
    (hp : ∀ status, (s.req r).phase ≠ .completed status) (hcount : u.count = s.count) {q : Req B}
    (hreq : u.req = Function.update s.req r q) (hio : q.io = (s.req r).io)
    (hdata : ∀ c, (q.StoredOn c ↔ (s.req r).StoredOn c) ∧
      ((s.req r).StoredOn c → q.store = (s.req r).store))
    (hdisks : u.disks = s.disks)
    (hq : q.io.ioType = .read → (q.ios q.next).took = true → ∀ i < q.io.numBlocks,
      q.mem i = contents disks s q.next r (q.io.offsetBlocks + i)) : InOrder n disks u := by
  have hself : u.req r = q := by rw [hreq, Function.update_self]
  have hother : ∀ v, v ≠ r → u.req v = s.req v := fun v hv => by
    rw [hreq, Function.update_of_ne hv]
  have hcont : ∀ c m, contents disks u c m = contents disks s c m := fun c m =>
    contents_same fun v _ => by
      by_cases hv : v = r
      · rw [hv, hself]
        exact hdata c
      · rw [hother v hv]
        exact ⟨Iff.rfl, fun _ => rfl⟩
  refine ⟨hok, h.apart_step hp hcount hreq hio, fun c => ?_, fun v hv => ?_⟩
  · rw [hdisks, hcont, hcount]
    exact h.stored c
  · rw [hcont]
    by_cases hvr : v = r
    · rw [hvr, hself]
      exact hq
    · rw [hother v hvr]
      exact h.fetched v (hcount ▸ hv)

/-- Child `c` stores the data of request `r`: those after it have other blocks. -/
theorem store (h : InOrder n disks s) (hok : u.Ok n) (hi : (s.req r).ios c = .inFlight)
    (ht : (s.req r).io.ioType = .write)
    (hdisks : u.disks = Function.update s.disks c ((s.req r).store (s.disks c)))
    (hcount : u.count = s.count)
    (hreq : u.req = Function.update s.req r ((s.req r).setIo c .served (s.req r).mem)) :
    InOrder n disks u := by
  have hp := h.ok.live (ChildIo.inFlight_open hi)
  have hopen : ¬ (s.req r).phase.Ended := fun ⟨status, he⟩ => hp status he
  have hself : u.req r = (s.req r).setIo c .served (s.req r).mem := by
    rw [hreq, Function.update_self]
  have hother : ∀ v, v ≠ r → u.req v = s.req v := fun v hv => by
    rw [hreq, Function.update_of_ne hv]
  have hbefore : ¬ (s.req r).StoredOn c := by simp [Req.StoredOn, hi, ChildIo.took]
  have hafter : (u.req r).StoredOn c := by
    rw [hself]
    exact ⟨ht, by simp [Req.setIo, ChildIo.took]⟩
  have hcont : ∀ d m, d ≠ c ∨ m ≤ r → contents disks u d m = contents disks s d m := by
    intro d m hdm
    refine contents_same fun v hv => ?_
    by_cases hvr : v = r
    · have hd : d ≠ c := hdm.resolve_right (by omega)
      rw [hvr, hself]
      exact ⟨by simp [Req.StoredOn, Req.setIo, Function.update_of_ne hd], fun _ => rfl⟩
    · rw [hother v hvr]
      exact ⟨Iff.rfl, fun _ => rfl⟩
  have hlate : ∀ m, r < m → m ≤ s.count →
      contents disks u c m = (s.req r).store (contents disks s c m) := fun m hrm hm =>
    contents_store hother hbefore hafter (hself ▸ rfl) hrm
      fun v hv hvm b hb => h.blocks_apart hopen hv (by omega) (Or.inl ht) hb
  have hr := h.ok.started hp
  refine ⟨hok, h.apart_step hp hcount hreq rfl, fun d => ?_, fun v hv hread htk i hlt => ?_⟩
  · rw [hdisks, hcount]
    by_cases hd : d = c
    · rw [hd, Function.update_self, hlate _ hr (Nat.le_refl _), h.stored]
    · rw [Function.update_of_ne hd, hcont d _ (Or.inl hd), h.stored]
  · have hvr : v ≠ r := by
      rintro rfl
      rw [hself] at hread
      cases ht.symm.trans hread
    rw [hother v hvr] at hread htk hlt ⊢
    rw [h.fetched v (hcount ▸ hv) hread htk i hlt]
    by_cases hd : (s.req v).next ≠ c ∨ v ≤ r
    · rw [hcont _ v hd]
    · -- a read after the write: none of its blocks is one of the write's
      obtain ⟨hd, hrv⟩ := not_or.mp hd
      have hlt : i < (s.req v).io.numBlocks := hlt
      have hout : ¬ (s.req r).Covers ((s.req v).io.offsetBlocks + i) := fun hb =>
        h.blocks_apart hopen (by omega) (hcount ▸ hv) (Or.inl ht) hb ⟨by omega, by omega⟩
      rw [not_not.mp hd, hlate v (by omega) (Nat.le_of_lt (hcount ▸ hv)), Req.store_out hout]

/-- A request that is new. -/
theorem submit (h : InOrder n disks s) (hok : u.Ok n) (hcount : u.count = s.count + 1) {q : Req B}
    (hapart : ∀ r < s.count, ¬ (s.req r).phase.Ended → ¬ Conflicts (s.req r) q.io)
    (hreq : u.req = Function.update s.req s.count q) (hnone : ∀ c, (q.ios c).took = false)
    (hdisks : u.disks = s.disks) : InOrder n disks u := by
  have hself : u.req s.count = q := by rw [hreq, Function.update_self]
  have hother : ∀ v < s.count, u.req v = s.req v := fun v hv => by
    rw [hreq, Function.update_of_ne (Nat.ne_of_lt hv)]
  refine ⟨hok, fun r t hrt ht hc => ?_, fun c => ?_, fun v hv ht htk => ?_⟩
  · have hr : r < s.count := by omega
    rw [hother r hr] at hc ⊢
    by_cases htc : t = s.count
    · rw [htc, hself] at hc
      by_contra hopen
      exact hapart r hr hopen hc
    · rw [hother t (by omega)] at hc
      exact h.apart r t hrt (by omega) hc
  · have hst : ¬ q.StoredOn c := fun hst => by cases (hnone c).symm.trans hst.2
    rw [hdisks, hcount, h.stored]
    simp only [contents, hself, if_neg hst, contents_congr hother]
  · rcases Nat.lt_or_ge v s.count with hlt | hge
    · rw [hother v hlt] at ht htk ⊢
      rw [contents_congr fun w hw => hother w (by omega)]
      exact h.fetched v hlt ht htk
    · have he : v = s.count := by omega
      rw [he, hself] at htk
      cases (hnone _).symm.trans htk

/-- What a child holds in a block of a read in progress is what it held when the read was
submitted. -/
theorem held (h : InOrder n disks s) (hp : ∀ status, (s.req r).phase ≠ .completed status)
    (ht : (s.req r).io.ioType = .read) (c : Nat) (hb : (s.req r).Covers b) :
    s.disks c b = contents disks s c r b := by
  have hopen : ¬ (s.req r).phase.Ended := fun ⟨status, he⟩ => hp status he
  have hr := h.ok.started hp
  rw [h.stored]
  refine contents_later (Nat.le_of_lt hr) fun v hv hvc ⟨hst, hbv⟩ => ?_
  rcases Nat.eq_or_lt_of_le hv with rfl | hv
  · cases ht.symm.trans hst.1
  · exact h.blocks_apart hopen hv hvc (Or.inr hst.1) hb hbv

theorem step (h : InOrder n disks s) {e : MirrorEvent B} (hn : 0 < n) (hapart : s.NoConflict e)
    (hs : Step s e u) : InOrder n disks u := by
  have hok := hs.ok h.ok hn
  cases hs.effect h.ok with
  | submit q hio hnone hall hdisks hcount hreq =>
    subst hio
    exact h.submit hok hcount hapart hreq hnone hdisks
  | store hi ht hdisks hcount hreq => exact h.store hok hi ht hdisks hcount hreq
  | fetch hi ht hdisks hcount hreq =>
    rename_i r
    have hp := h.ok.live (ChildIo.inFlight_open hi)
    have hnone : ∀ q : Req B, q.io = (s.req r).io → ∀ c, ¬ q.StoredOn c := fun q hq c hst => by
      cases ht.symm.trans (hq ▸ hst.1)
    refine h.move hok hp hcount hreq rfl (fun c => ⟨?_, fun hst => ?_⟩) hdisks fun _ _ i hlt => ?_
    · exact iff_of_false (hnone _ (by rfl) c) (hnone _ (by rfl) c)
    · exact absurd hst (hnone _ (by rfl) c)
    · have hlt : i < (s.req r).io.numBlocks := hlt
      show (s.req r).fetch (s.disks (s.req r).next) i = _
      rw [Req.fetch, if_pos hlt, h.held hp ht _ ⟨by omega, by omega⟩]
      rfl
  | quiet r q hp hq hdisks hcount hreq =>
    refine h.move hok hp hcount hreq hq.io (fun c => ⟨?_, fun hst => ?_⟩) hdisks
      fun ht htk i hlt => ?_
    · unfold Req.StoredOn
      rw [hq.io]
      exact and_congr_right fun ht => by rw [((hq.write ht).2 c).1]
    · exact funext fun disk => Req.store_congr hq.io (hq.write hst.1).1 disk
    · rw [hq.io] at ht hlt ⊢
      obtain ⟨hnext, hmem, htook⟩ := hq.read ht htk
      rw [hnext, hmem]
      exact h.fetched r (h.ok.started hp) ht htook i hlt
  | panic =>
    have hsame : ∀ c r, contents disks { s with panicked := true } c r = contents disks s c r :=
      fun c r => contents_congr fun _ _ => rfl
    exact ⟨hok, h.apart, fun c => (h.stored c).trans (hsame c _).symm,
      fun r hr ht htk i hi => (h.fetched r hr ht htk i hi).trans (congrFun (hsame _ r) _).symm⟩

theorem run {checks : Bool} {es : List (MirrorEvent B)} (hn : 0 < n)
    (h : Lib.run next (start n checks disks) es = some s)
    (hapart : Along next NoConflict (start n checks disks) es) : InOrder n disks s :=
  run_invariant (inOrder_start n checks disks)
    (fun _ _ _ ht hp hx => ht.step hn hp (next_step hx)) h hapart

end InOrder

/-! ## Requests one at a time -/

/-- Only the latest request may be in progress. -/
structure Sequential (n : Nat) (disks : Nat → Nat → B) (s : Mirror B) : Prop
    extends InOrder n disks s where
  done : ∀ r, r + 1 < s.count → (s.req r).phase.Ended

theorem noConflict_of_oneAtATime {e : MirrorEvent B} (h : s.OneAtATime e) : s.NoConflict e := by
  cases e with
  | submit k io mem => exact fun r hr hopen => absurd (h r hr) hopen
  | serve r c => trivial
  | finish r c => trivial
  | fail r c junk => trivial
  | resume r => trivial

namespace Sequential
variable {n : Nat}

theorem step (h : Sequential n disks s) {e : MirrorEvent B} (hn : 0 < n) (hseq : s.OneAtATime e)
    (hs : Step s e u) : Sequential n disks u := by
  refine ⟨h.toInOrder.step hn (noConflict_of_oneAtATime hseq) hs, ?_⟩
  have hmove : ∀ {r : Nat} {q : Req B}, (∀ status, (s.req r).phase ≠ .completed status) →
      u.count = s.count → u.req = Function.update s.req r q →
        ∀ v, v + 1 < u.count → (u.req v).phase.Ended := by
    intro r q hp hcount hreq v hv
    have hended := h.done v (hcount ▸ hv)
    have hvr : v ≠ r := by
      rintro rfl
      obtain ⟨status, he⟩ := hended
      exact hp status he
    rw [hreq, Function.update_of_ne hvr]
    exact hended
  cases hs.effect h.ok with
  | submit q hio hnone hall hdisks hcount hreq =>
    intro v hv
    have hv : v < s.count := by omega
    rw [hreq, Function.update_of_ne (Nat.ne_of_lt hv)]
    exact hseq v hv
  | store hi ht hdisks hcount hreq =>
    exact hmove (h.ok.live (ChildIo.inFlight_open hi)) hcount hreq
  | fetch hi ht hdisks hcount hreq =>
    exact hmove (h.ok.live (ChildIo.inFlight_open hi)) hcount hreq
  | quiet r q hp hq hdisks hcount hreq => exact hmove hp hcount hreq
  | panic => exact h.done

theorem run {checks : Bool} {es : List (MirrorEvent B)} (hn : 0 < n)
    (h : run next (start n checks disks) es = some s)
    (hseq : Along next OneAtATime (start n checks disks) es) : Sequential n disks s :=
  run_invariant ⟨inOrder_start n checks disks, fun _ hr => absurd hr (Nat.not_lt_zero _)⟩
    (fun _ _ _ ht hp hx => ht.step hn hp (next_step hx)) h hseq

end Sequential

/-- In a request that has ended, a child has taken the data when its I/O succeeded. -/
theorem Ok.stored_iff {n : Nat} (h : s.Ok n) (hp : (s.req w).phase.Ended) :
    (s.req w).StoredOn c ∧ (s.req w).Covers b ↔ s.SucceededOn c b w := by
  obtain ⟨status, hp⟩ := hp
  obtain ⟨x, hx⟩ := (h.reqs w).ended status hp c
  unfold Req.StoredOn SucceededOn
  rw [hx]
  cases x <;> simp [ChildIo.took, and_comm]

theorem Ok.acknowledged {n : Nat} (h : s.Ok n) (hp : (s.req w).phase.Ended)
    (hw : s.SucceededOn c b w) : s.Acknowledged b w := by
  obtain ⟨status, hp⟩ := hp
  obtain ⟨ht, hb, hok⟩ := hw
  have hc : c < n := by
    by_contra hge
    cases hok.symm.trans ((h.reqs w).outside c (by omega))
  have hst := ((h.reqs w).wrote status hp ht).mpr ⟨c, hc, hok⟩
  exact ⟨ht, hb, hst ▸ hp⟩

/-- **What a RAID1 read returns.** In any sequence of requests made one at a time, with child
I/Os that fail at will, a read completed with `Success` returns for each block the data of
the last write before it that succeeded on the child it was served by, a write that was
acknowledged, or what that child held at the start; so it returns the data of the last
acknowledged write if this one succeeded there. Acknowledged writes have succeeded on at
least one child. -/
theorem read_returns_latest {n : Nat} (hn : 0 < n) {checks : Bool} {es : List (MirrorEvent B)}
    (h : run next (start n checks disks) es = some s)
    (hseq : Along next OneAtATime (start n checks disks) es) :
    (∀ r, (s.req r).io.ioType = .read → (s.req r).phase = .completed .success →
      (s.req r).next < n ∧ ∀ b, (s.req r).Covers b →
        (∀ w, Latest (s.SucceededOn (s.req r).next b) r w →
          s.Acknowledged b w ∧ (s.req r).dataOf b = (s.req w).dataOf b) ∧
        ((∀ w < r, ¬ s.SucceededOn (s.req r).next b w) →
          (s.req r).dataOf b = disks (s.req r).next b) ∧
        ∀ w, Latest (s.Acknowledged b) r w → s.SucceededOn (s.req r).next b w →
          (s.req r).dataOf b = (s.req w).dataOf b) ∧
      ∀ b w, s.Acknowledged b w → ∃ c < n, s.SucceededOn c b w := by
  have hs := Sequential.run hn h hseq
  refine ⟨fun r ht hp => ?_, fun b w ⟨ht, hb, hp⟩ => ?_⟩
  · have hgot := (hs.ok.reqs r).got ht hp
    have hr : r < s.count := by
      by_contra hge
      obtain ⟨mem, hreq⟩ := hs.ok.unused r (by omega)
      rw [hreq] at ht
      cases ht
    have hended : ∀ w < r, (s.req w).phase.Ended := fun w hw => hs.done w (by omega)
    have hdata : ∀ b, (s.req r).Covers b →
        (s.req r).dataOf b = contents disks s (s.req r).next r b := by
      intro b ⟨hlo, hhi⟩
      have := hs.fetched r hr ht (by rw [hgot]; rfl) (b - (s.req r).io.offsetBlocks) (by omega)
      rwa [Nat.add_sub_cancel' hlo] at this
    have hlatest : ∀ b, (s.req r).Covers b → ∀ w, Latest (s.SucceededOn (s.req r).next b) r w →
        (s.req r).dataOf b = (s.req w).dataOf b := by
      intro b hb w hw
      have hw := (latest_congr fun v hv => hs.ok.stored_iff (hended v hv)).mpr hw
      exact (hdata b hb).trans (contents_of_latest hw)
    refine ⟨?_, fun b hb => ⟨fun w hw => ?_, fun hnone => ?_, fun w hw hok => ?_⟩⟩
    · by_contra hge
      cases hgot.symm.trans ((hs.ok.reqs r).outside _ (by omega))
    · exact ⟨hs.ok.acknowledged (hended w hw.1) hw.2.1, hlatest b hb w hw⟩
    · refine (hdata b hb).trans (contents_of_none fun w hw hst => ?_)
      exact hnone w hw ((hs.ok.stored_iff (hended w hw)).mp hst)
    · -- whatever succeeded on the child later was acknowledged as well
      refine hlatest b hb w ⟨hw.1, hok, fun v hv hvr hsucc => ?_⟩
      exact hw.2.2 v hv hvr (hs.ok.acknowledged (hended v hvr) hsucc)
  · obtain ⟨c, hc, hok⟩ := ((hs.ok.reqs w).wrote .success hp ht).mp rfl
    exact ⟨c, hc, ht, hb, hok⟩

/-- Two children. Both store the first write of block 0; the second one fails on child 1 and
is acknowledged; the read is served by child 1. -/
def partialWrite : List (MirrorEvent Nat) :=
  [.submit 0 ⟨.write, 0, 1⟩ (fun _ => 1), .serve 0 0, .serve 0 1, .finish 0 0, .finish 0 1,
   .resume 0, .resume 0,
   .submit 0 ⟨.write, 0, 1⟩ (fun _ => 2), .serve 1 0, .finish 1 0, .fail 1 1 (fun _ => 0),
   .resume 1, .resume 1,
   .submit 0 ⟨.read, 0, 1⟩ (fun _ => 0), .serve 2 1, .finish 2 1, .resume 2]

theorem read_returns_latest_partialWrite :
    ∃ s, run next (start 2 true fun _ _ => 0) partialWrite = some s ∧
      (s.req 2).dataOf 0 = (s.req 0).dataOf 0 := by
  have hrun : ∃ s, run next (start 2 true fun _ _ => 0) partialWrite = some s :=
    ⟨(run next (start 2 true fun _ _ => 0) partialWrite).get (by decide), (Option.some_get _).symm⟩
  obtain ⟨s, hs⟩ := hrun
  have hs' : s = (run next (start 2 true fun _ _ => 0) partialWrite).get (by decide) := by
    simp [hs]
  have hread := (read_returns_latest (by decide) hs (by decide)).1 2 (by rw [hs']; decide)
    (by rw [hs']; decide)
  have hsucc : Latest (s.SucceededOn (s.req 2).next 0) 2 0 := by
    rw [hs']
    refine ⟨by decide, by decide, fun v hv hr => ?_⟩
    obtain rfl : v = 1 := by omega
    decide
  exact ⟨s, hs, ((hread.2 0 (by rw [hs']; decide)).1 0 hsucc).2⟩

/-- The read is completed with `Success` and returns data older than the acknowledged write. -/
theorem read_returns_stale : ∃ s, run next (start 2 true fun _ _ => 0) partialWrite = some s ∧
    Along next OneAtATime (start 2 true fun _ _ => 0) partialWrite ∧
    (s.req 2).io.ioType = .read ∧ (s.req 2).Covers 0 ∧ (s.req 2).phase = .completed .success ∧
    Latest (s.Acknowledged 0) 2 1 ∧
    ∀ w < s.count, 1 ≤ w → (s.req w).io.ioType = .write →
      (s.req 2).dataOf 0 ≠ (s.req w).dataOf 0 := by
  refine ⟨(run next (start 2 true fun _ _ => 0) partialWrite).get (by decide),
    (Option.some_get _).symm, by decide, by decide, by decide, by decide, ?_, by decide⟩
  exact ⟨by decide, by decide, fun v hv hr => absurd hr (by omega)⟩

end Mirror

end Ironspdk.Raid1
