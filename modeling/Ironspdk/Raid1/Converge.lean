import Ironspdk.Raid1.Latest

/-! # Mirrors that stay equal

Concurrent writes on children that never fail. Nothing orders two requests, and each child
stores the writes in flight on it in an order of its own: the children stay equal as long as
writes that are in progress at the same time have no block in common. -/
namespace Ironspdk.Raid1
open Ironspdk.Lib Ironspdk.Runtime

variable {B : Type*}

namespace Mirror

def NoFailure (_ : Mirror B) : MirrorEvent B → Prop
  | .fail _ _ _ => False
  | _ => True

instance (s : Mirror B) : (e : MirrorEvent B) → Decidable (s.NoFailure e)
  | .fail _ _ _ => isFalse id
  | .submit _ _ _ | .serve _ _ | .finish _ _ | .resume _ => isTrue trivial

/-- Request `r` is a write in progress. -/
def Pending (s : Mirror B) (r : Nat) : Prop :=
  (s.req r).io.ioType = .write ∧ ¬ (s.req r).phase.Ended

instance (s : Mirror B) (r : Nat) : Decidable (s.Pending r) := inferInstanceAs (Decidable (_ ∧ _))

/-- No write is submitted while one of its blocks is being written. -/
def WritesApart (s : Mirror B) : MirrorEvent B → Prop
  | .submit _ io _ => io.ioType = .write → ∀ r < s.count, s.Pending r →
      ∀ b < io.offsetBlocks + io.numBlocks, io.offsetBlocks ≤ b → ¬ (s.req r).Covers b
  | _ => True

instance (s : Mirror B) : (e : MirrorEvent B) → Decidable (s.WritesApart e)
  | .submit _ io _ => inferInstanceAs (Decidable (io.ioType = .write → ∀ r < s.count, s.Pending r →
      ∀ b < io.offsetBlocks + io.numBlocks, io.offsetBlocks ≤ b → ¬ (s.req r).Covers b))
  | .serve _ _ | .finish _ _ | .fail _ _ _ | .resume _ => isTrue trivial

def NoWrite (_ : Mirror B) : MirrorEvent B → Prop
  | .submit _ io _ => io.ioType ≠ .write
  | _ => True

instance (s : Mirror B) : (e : MirrorEvent B) → Decidable (s.NoWrite e)
  | .submit _ io _ => inferInstanceAs (Decidable (io.ioType ≠ .write))
  | .serve _ _ | .finish _ _ | .fail _ _ _ | .resume _ => isTrue trivial

variable {s u : Mirror B} {n r c b : Nat} {e : MirrorEvent B}

theorem Ok.not_pending (h : s.Ok n) (hr : s.count ≤ r) : ¬ s.Pending r := by
  intro hp
  obtain ⟨mem, hreq⟩ := h.unused r hr
  have ht := hp.1
  rw [hreq] at ht
  cases ht

theorem pending_of_open (ht : (s.req r).io.ioType = .write)
    (hp : ∀ status, (s.req r).phase ≠ .completed status) : s.Pending r :=
  ⟨ht, fun ⟨status, he⟩ => hp status he⟩

theorem pending_congr {t : Nat} (h : u.req t = s.req t) : u.Pending t ↔ s.Pending t := by
  rw [Pending, Pending, h]

/-- What holds of the request that changed and of the others holds of all. -/
theorem req_all {q : Req B} (hreq : u.req = Function.update s.req r q) {P : Nat → Req B → Prop}
    (hq : P r q) (hother : ∀ t, t ≠ r → P t (s.req t)) (t : Nat) : P t (u.req t) := by
  rw [hreq]
  exact (Function.forall_update_iff s.req P).mpr ⟨hq, hother⟩ t

/-! ## Concurrent writes -/

/-- The children hold the data of the writes in progress they have stored, and for the rest
the same data, `old`. -/
structure Converging (n : Nat) (old : Nat → B) (s : Mirror B) : Prop where
  ok : s.Ok n
  apart : ∀ r t b, s.Pending r → s.Pending t → (s.req r).Covers b → (s.req t).Covers b → r = t
  unfailed : ∀ r, (s.req r).io.ioType = .write → ∀ c < n, (s.req r).ios c ≠ .ended false
  stored : ∀ r b, ∀ c < n, s.Pending r → (s.req r).Covers b → ((s.req r).ios c).took = true →
    s.disks c b = (s.req r).dataOf b
  unstored : ∀ b, ∀ c < n,
    (∀ r, s.Pending r → (s.req r).Covers b → ((s.req r).ios c).took = false) →
      s.disks c b = old b

theorem converging_start (n : Nat) (checks : Bool) {disks : Nat → Nat → B}
    (hsame : ∀ c < n, disks c = disks 0) :
    Converging n (disks 0) (start n checks disks) := by
  have hnone : ∀ r, ¬ (start n checks disks).Pending r := fun r hp => by cases hp.1
  exact ⟨ok_start n checks disks, fun r _ _ hp => absurd hp (hnone r), fun r ht => (by cases ht),
    fun r _ _ _ hp => absurd hp (hnone r), fun b c hc _ => congrFun (hsame c hc) b⟩

/-- The data of a request, and the children that have taken them, are as before. -/
structure SameData (q q' : Req B) : Prop where
  io : q'.io = q.io
  mem : q'.mem = q.mem
  took : ∀ c, (q'.ios c).took = (q.ios c).took

theorem SameData.covers {q q' : Req B} (h : SameData q q') (b : Nat) :
    q'.Covers b ↔ q.Covers b := by
  rw [Req.Covers, Req.Covers, h.io]

theorem SameData.dataOf {q q' : Req B} (h : SameData q q') (b : Nat) :
    q'.dataOf b = q.dataOf b := by
  rw [Req.dataOf, Req.dataOf, h.io, h.mem]

theorem SameData.of_eq {q q' : Req B} (h : q' = q) : SameData q q' := by
  subst h
  exact ⟨rfl, rfl, fun _ => rfl⟩

namespace Converging
variable {old : Nat → B}

/-- The children are untouched, and so are the writes that were in progress. -/
theorem frame (h : Converging n old s) (hok : u.Ok n) (hdisks : u.disks = s.disks)
    (hkeep : ∀ r, s.Pending r → u.Pending r ∧ SameData (s.req r) (u.req r))
    (hnew : ∀ r, u.Pending r → s.Pending r ∨ ∀ c, ((u.req r).ios c).took = false)
    (hapart : ∀ r t b, u.Pending r → u.Pending t → (u.req r).Covers b → (u.req t).Covers b → r = t)
    (hunfailed : ∀ r, (u.req r).io.ioType = .write → ∀ c < n, (u.req r).ios c ≠ .ended false) :
    Converging n old u := by
  refine ⟨hok, hapart, hunfailed, fun r b c hc hp hb htk => ?_, fun b c hc hnone => ?_⟩
  · rcases hnew r hp with hp | hno
    · have hsame := (hkeep r hp).2
      rw [hdisks, hsame.dataOf]
      exact h.stored r b c hc hp ((hsame.covers b).mp hb) ((hsame.took c).symm.trans htk)
    · cases (hno c).symm.trans htk
  · rw [hdisks]
    refine h.unstored b c hc fun r hp hb => ?_
    obtain ⟨hp', hsame⟩ := hkeep r hp
    exact (hsame.took c).symm.trans (hnone r hp' ((hsame.covers b).mpr hb))

theorem submit (h : Converging n old s) (hok : u.Ok n) {q : Req B}
    (hreq : u.req = Function.update s.req s.count q) (hdisks : u.disks = s.disks)
    (hnone : ∀ c, (q.ios c).took = false)
    (hall : q.io.ioType = .write → ∀ c < n, q.ios c = .inFlight)
    (hapart : q.io.ioType = .write → ∀ r < s.count, s.Pending r →
      ∀ b, q.Covers b → ¬ (s.req r).Covers b) : Converging n old u := by
  have hself : u.req s.count = q := by rw [hreq, Function.update_self]
  have hother : ∀ r, r ≠ s.count → u.req r = s.req r := fun r hr => by
    rw [hreq, Function.update_of_ne hr]
  have hpending : ∀ r, r ≠ s.count → (u.Pending r ↔ s.Pending r) := fun r hr =>
    pending_congr (hother r hr)
  have hold : ∀ r, s.Pending r → r < s.count := fun r hp => by
    by_contra hge
    exact h.ok.not_pending (by omega) hp
  refine h.frame hok hdisks (fun r hp => ?_) (fun r hp => ?_) (fun r t b hp ht hb hbt => ?_)
    fun r hw c hc => ?_
  · have hr := Nat.ne_of_lt (hold r hp)
    exact ⟨(hpending r hr).mpr hp, .of_eq (hother r hr)⟩
  · by_cases hr : r = s.count
    · right
      rw [hr, hself]
      exact hnone
    · exact Or.inl ((hpending r hr).mp hp)
  · -- the new write has no block in common with those in progress
    have hclash : ∀ v, v ≠ s.count → u.Pending s.count → u.Pending v → q.Covers b →
        (u.req v).Covers b → False := by
      intro v hv hq hp hqb hvb
      have hp := (hpending v hv).mp hp
      rw [hother v hv] at hvb
      exact hapart (hself ▸ hq.1) v (hold v hp) hp b hqb hvb
    by_cases hr : r = s.count <;> by_cases ht' : t = s.count
    · rw [hr, ht']
    · subst hr
      exact (hclash t ht' hp ht (hself ▸ hb) hbt).elim
    · subst ht'
      exact (hclash r hr ht hp (hself ▸ hbt) hb).elim
    · rw [hother r hr] at hb
      rw [hother t ht'] at hbt
      exact h.apart r t b ((hpending r hr).mp hp) ((hpending t ht').mp ht) hb hbt
  · by_cases hr : r = s.count
    · rw [hr, hself] at hw ⊢
      rw [hall hw c hc]
      exact fun he => by cases he
    · rw [hother r hr] at hw ⊢
      exact h.unfailed r hw c hc

/-- Child `c` stores the data of a write. -/
theorem store (h : Converging n old s) (hok : u.Ok n) (hi : (s.req r).ios c = .inFlight)
    (ht : (s.req r).io.ioType = .write)
    (hdisks : u.disks = Function.update s.disks c ((s.req r).store (s.disks c)))
    (hreq : u.req = Function.update s.req r ((s.req r).setIo c .served (s.req r).mem)) :
    Converging n old u := by
  have hr : s.Pending r := pending_of_open ht (h.ok.live (ChildIo.inFlight_open hi))
  have hpending : ∀ t, u.Pending t ↔ s.Pending t :=
    req_all hreq (P := fun t q => (q.io.ioType = .write ∧ ¬ q.phase.Ended) ↔ s.Pending t)
      Iff.rfl fun _ _ => Iff.rfl
  have hcovers : ∀ t b, (u.req t).Covers b ↔ (s.req t).Covers b := fun t b =>
    req_all hreq (P := fun t q => q.Covers b ↔ (s.req t).Covers b) Iff.rfl (fun _ _ => Iff.rfl) t
  have hdata : ∀ t, (u.req t).dataOf = (s.req t).dataOf :=
    req_all hreq (P := fun t q => q.dataOf = (s.req t).dataOf) rfl fun _ _ => rfl
  have htype : ∀ t, (u.req t).io = (s.req t).io :=
    req_all hreq (P := fun t q => q.io = (s.req t).io) rfl fun _ _ => rfl
  have htook : ∀ t d, t ≠ r ∨ d ≠ c → (u.req t).ios d = (s.req t).ios d := fun t d =>
    req_all hreq (P := fun t q => t ≠ r ∨ d ≠ c → q.ios d = (s.req t).ios d)
      (fun hne => Function.update_of_ne (hne.resolve_left (fun hn => hn rfl)) ..)
      (fun _ _ _ => rfl) t
  have hserved : (u.req r).ios c = .served := by
    rw [hreq, Function.update_self]
    exact Function.update_self ..
  refine ⟨hok, fun a t b hp hpt hb hbt => ?_, fun t hw d hd => ?_, fun t b d hd hp hb htk => ?_,
    fun b d hd hnone => ?_⟩
  · exact h.apart a t b ((hpending a).mp hp) ((hpending t).mp hpt) ((hcovers a b).mp hb)
      ((hcovers t b).mp hbt)
  · by_cases he : t = r ∧ d = c
    · obtain ⟨rfl, rfl⟩ := he
      rw [hserved]
      exact fun he => by cases he
    · rw [htook t d (by tauto)]
      exact h.unfailed t (htype t ▸ hw) d hd
  · have hp := (hpending t).mp hp
    have hb := (hcovers t b).mp hb
    rw [hdata, hdisks]
    by_cases hd' : d = c
    · subst hd'
      rw [Function.update_self]
      by_cases he : t = r
      · rw [he] at hb ⊢
        exact Req.store_in hb _
      · rw [htook t d (Or.inl he)] at htk
        rw [Req.store_out fun hbr => he (h.apart t r b hp hr hb hbr)]
        exact h.stored t b d hd hp hb htk
    · rw [Function.update_of_ne hd']
      rw [htook t d (Or.inr hd')] at htk
      exact h.stored t b d hd hp hb htk
  · have hnone : ∀ t, s.Pending t → (s.req t).Covers b → ((u.req t).ios d).took = false :=
      fun t hp hb => hnone t ((hpending t).mpr hp) ((hcovers t b).mpr hb)
    rw [hdisks]
    by_cases hd' : d = c
    · subst hd'
      have hb : ¬ (s.req r).Covers b := by
        intro hb
        have := hnone r hr hb
        rw [hserved] at this
        cases this
      rw [Function.update_self, Req.store_out hb]
      refine h.unstored b d hd fun t hp hbt => ?_
      have he : t ≠ r := fun he => hb (he ▸ hbt)
      rw [← htook t d (Or.inl he)]
      exact hnone t hp hbt
    · rw [Function.update_of_ne hd']
      refine h.unstored b d hd fun t hp hbt => ?_
      rw [← htook t d (Or.inr hd')]
      exact hnone t hp hbt

/-- A request moves on, and no child stores anything for it. When that ends a write, all
children have stored its data. -/
theorem advance (h : Converging n old s) (hok : u.Ok n) {q : Req B}
    (hp : ∀ status, (s.req r).phase ≠ .completed status) (hqio : q.io = (s.req r).io)
    (hsame : (s.req r).io.ioType = .write → SameData (s.req r) q ∧
      ∀ c, q.ios c = .ended false → (s.req r).ios c = .ended false)
    (hdisks : u.disks = s.disks) (hreq : u.req = Function.update s.req r q) :
    ∃ old', Converging n old' u := by
  have hself : u.req r = q := by rw [hreq, Function.update_self]
  have hother : ∀ t, t ≠ r → u.req t = s.req t := fun t hne => by
    rw [hreq, Function.update_of_ne hne]
  have hio : ∀ t, (u.req t).io = (s.req t).io :=
    req_all hreq (P := fun t q => q.io = (s.req t).io) hqio fun _ _ => rfl
  have hcovers : ∀ t b, (u.req t).Covers b ↔ (s.req t).Covers b := fun t b => by
    rw [Req.Covers, Req.Covers, hio]
  have hback : ∀ t, u.Pending t → s.Pending t := by
    intro t ht
    by_cases he : t = r
    · subst he
      exact pending_of_open (hio t ▸ ht.1) hp
    · exact (pending_congr (hother t he)).mp ht
  have hapart : ∀ a t b, u.Pending a → u.Pending t → (u.req a).Covers b → (u.req t).Covers b →
      a = t := fun a t b ha ht hb hbt =>
    h.apart a t b (hback a ha) (hback t ht) ((hcovers a b).mp hb) ((hcovers t b).mp hbt)
  have hunfailed : ∀ t, (u.req t).io.ioType = .write → ∀ c < n, (u.req t).ios c ≠ .ended false :=
    req_all hreq (P := fun t q => q.io.ioType = .write → ∀ c < n, q.ios c ≠ .ended false)
      (fun hw c hc he => h.unfailed r (hqio ▸ hw) c hc ((hsame (hqio ▸ hw)).2 c he))
      fun t _ => h.unfailed t
  have hsame : ∀ t, s.Pending t → SameData (s.req t) (u.req t) :=
    req_all hreq (P := fun t q => s.Pending t → SameData (s.req t) q)
      (fun ht => (hsame ht.1).1) fun _ _ _ => .of_eq rfl
  by_cases hdone : s.Pending r ∧ ¬ u.Pending r
  · obtain ⟨hr, hur⟩ := hdone
    have hended : q.phase.Ended := by
      by_contra hne
      refine hur ⟨?_, by rwa [hself]⟩
      rw [hio]
      exact hr.1
    obtain ⟨status, hst⟩ := hended
    refine ⟨(s.req r).store old, hok, hapart, hunfailed, fun t b c hc ht hb htk => ?_,
      fun b c hc hnone => ?_⟩
    · have hs := hsame t (hback t ht)
      rw [hdisks, hs.dataOf]
      exact h.stored t b c hc (hback t ht) ((hcovers t b).mp hb) ((hs.took c).symm.trans htk)
    · rw [hdisks]
      by_cases hb : (s.req r).Covers b
      · have htook : ((s.req r).ios c).took = true := by
          have hqok : q.Ok n := hself ▸ hok.reqs r
          obtain ⟨x, hx⟩ := hqok.ended status hst c
          have hfalse := hunfailed r (by rw [hio]; exact hr.1) c hc
          rw [hself, hx] at hfalse
          rw [← (hsame r hr).took c, hself, hx]
          cases x with
          | true => rfl
          | false => exact absurd rfl hfalse
        rw [Req.store_in hb]
        exact h.stored r b c hc hr hb htook
      · rw [Req.store_out hb]
        refine h.unstored b c hc fun t ht hbt => ?_
        have he : t ≠ r := fun he => hb (he ▸ hbt)
        rw [← (hsame t ht).took c]
        exact hnone t ((pending_congr (hother t he)).mpr ht) ((hcovers t b).mpr hbt)
  · refine ⟨old, h.frame hok hdisks (fun t ht => ⟨?_, hsame t ht⟩) (fun t ht => Or.inl (hback t ht))
      hapart hunfailed⟩
    by_cases he : t = r
    · subst he
      by_contra hut
      exact hdone ⟨ht, hut⟩
    · exact (pending_congr (hother t he)).mpr ht

theorem step (h : Converging n old s) (hn : 0 < n) (hfail : NoFailure s e)
    (hapart : WritesApart s e) (hs : Step s e u) : ∃ old', Converging n old' u := by
  have hok := hs.ok h.ok hn
  cases hs.effect h.ok with
  | submit q hio hnone hall hdisks hcount hreq =>
    subst hio
    exact ⟨old, h.submit hok hreq hdisks hnone hall
      fun hw r hr hp b hb => hapart hw r hr hp b hb.2 hb.1⟩
  | store hi ht hdisks hcount hreq => exact ⟨old, h.store hok hi ht hdisks hreq⟩
  | fetch hi ht hdisks hcount hreq =>
    rename_i r
    exact h.advance (q := (s.req r).setIo (s.req r).next .served _) hok
      (h.ok.live (ChildIo.inFlight_open hi)) rfl (fun hw => by cases ht.symm.trans hw) hdisks hreq
  | quiet r q hp hq hdisks hcount hreq =>
    refine h.advance hok hp hq.io (fun hw => ?_) hdisks hreq
    obtain ⟨hmem, hios⟩ := hq.write hw
    refine ⟨⟨hq.io, hmem, fun c => (hios c).1⟩, fun c he => ?_⟩
    rcases (hios c).2 he with he | ⟨v, junk, rfl⟩
    · exact he
    · exact hfail.elim
  | panic => exact ⟨old, hok, h.apart, h.unfailed, h.stored, h.unstored⟩

/-- All writes have ended. -/
theorem converged (h : Converging n old s) (hidle : ∀ r < s.count, ¬ s.Pending r) :
    ∀ c < n, s.disks c = old := by
  intro c hc
  funext b
  refine h.unstored b c hc fun r hp _ => ?_
  by_cases hr : r < s.count
  · exact absurd hp (hidle r hr)
  · exact absurd hp (h.ok.not_pending (by omega))

end Converging

/-! ## Reads with no write between them -/

/-- The children hold `disk`, and so do the buffers of the reads submitted from `k` on. -/
structure ReadsOf (n k : Nat) (disk : Nat → B) (s : Mirror B) : Prop where
  ok : s.Ok n
  idle : ∀ r, ¬ s.Pending r
  disks : ∀ c < n, s.disks c = disk
  submitted : k ≤ s.count
  fetched : ∀ r, k ≤ r → (s.req r).io.ioType = .read →
    ((s.req r).ios (s.req r).next).took = true →
      ∀ i < (s.req r).io.numBlocks, (s.req r).mem i = disk ((s.req r).io.offsetBlocks + i)

namespace ReadsOf
variable {k : Nat} {disk : Nat → B}

/-- One request changes, and it is no write. -/
theorem move (h : ReadsOf n k disk s) (hok : u.Ok n) {q : Req B} (hdisks : u.disks = s.disks)
    (hcount : k ≤ u.count) (hreq : u.req = Function.update s.req r q) (hw : q.io.ioType ≠ .write)
    (hq : k ≤ r → q.io.ioType = .read → (q.ios q.next).took = true →
      ∀ i < q.io.numBlocks, q.mem i = disk (q.io.offsetBlocks + i)) : ReadsOf n k disk u := by
  have hself : u.req r = q := by rw [hreq, Function.update_self]
  have hother : ∀ t, t ≠ r → u.req t = s.req t := fun t hne => by
    rw [hreq, Function.update_of_ne hne]
  refine ⟨hok, fun t hp => ?_, fun c hc => hdisks ▸ h.disks c hc, hcount, fun t ht => ?_⟩
  · by_cases he : t = r
    · rw [Pending, he, hself] at hp
      exact hw hp.1
    · exact h.idle t ((pending_congr (hother t he)).mp hp)
  · by_cases he : t = r
    · rw [he, hself]
      exact hq (he ▸ ht)
    · rw [hother t he]
      exact h.fetched t ht

theorem step (h : ReadsOf n k disk s) (hn : 0 < n) (hwrite : NoWrite s e) (hs : Step s e u) :
    ReadsOf n k disk u := by
  have hok := hs.ok h.ok hn
  cases hs.effect h.ok with
  | submit q hio hnone hall hdisks hcount hreq =>
    have hk := h.submitted
    subst hio
    refine h.move hok hdisks (by omega) hreq hwrite fun _ _ htk => ?_
    cases (hnone _).symm.trans htk
  | store hi ht hdisks hcount hreq =>
    exact absurd (pending_of_open ht (h.ok.live (ChildIo.inFlight_open hi))) (h.idle _)
  | fetch hi ht hdisks hcount hreq =>
    rename_i r
    have hw : (s.req r).io.ioType ≠ .write := fun hw => by cases ht.symm.trans hw
    refine h.move hok hdisks (hcount ▸ h.submitted) hreq hw fun _ _ _ i hlt => ?_
    have hnext : (s.req r).next < n := by
      by_contra hge
      cases hi.symm.trans ((h.ok.reqs r).outside _ (by omega))
    have hlt : i < (s.req r).io.numBlocks := hlt
    show (s.req r).fetch (s.disks (s.req r).next) i = _
    rw [h.disks _ hnext, Req.fetch, if_pos hlt]
    rfl
  | quiet r q hp hq hdisks hcount hreq =>
    have hw : (s.req r).io.ioType ≠ .write := fun hw => h.idle r (pending_of_open hw hp)
    refine h.move hok hdisks (hcount ▸ h.submitted) hreq (hq.io ▸ hw) fun hk ht htk i hlt => ?_
    rw [hq.io] at ht hlt ⊢
    obtain ⟨_, hmem, htook⟩ := hq.read ht htk
    rw [hmem]
    exact h.fetched r hk ht htook i hlt
  | panic => exact ⟨hok, h.idle, h.disks, h.submitted, h.fetched⟩

end ReadsOf

/-- **When RAID1 mirrors converge.** Children that never fail and are equal at the start,
requests on any channels, writes in any order on each child, but none submitted while one of
its blocks is being written: whenever no write is in progress all children hold the same
data, and the reads submitted from then on return these data, whichever children serve them,
until the next write is submitted. -/
theorem mirrors_converge {n : Nat} (hn : 0 < n) {checks : Bool} {disks : Nat → Nat → B}
    (hsame : ∀ c < n, disks c = disks 0) {es : List (MirrorEvent B)} {s : Mirror B}
    (h : run next (start n checks disks) es = some s)
    (hfail : Along next NoFailure (start n checks disks) es)
    (hapart : Along next WritesApart (start n checks disks) es)
    (hidle : ∀ r < s.count, ¬ s.Pending r) :
    (∀ c < n, s.disks c = s.disks 0) ∧
      ∀ fs u, run next s fs = some u → Along next NoWrite s fs → ∀ r, s.count ≤ r →
        (u.req r).io.ioType = .read → (u.req r).phase = .completed .success →
          ∀ b, (u.req r).Covers b → (u.req r).dataOf b = s.disks 0 b := by
  obtain ⟨old, hs⟩ := run_invariant (I := fun t => ∃ old, Converging n old t)
    ⟨disks 0, converging_start n checks hsame⟩
    (fun t e v ⟨_, ht⟩ hp hx => ht.step hn hp.1 hp.2 (next_step hx)) h (along_and hfail hapart)
  have heq := hs.converged hidle
  have hall : ∀ c < n, s.disks c = s.disks 0 := fun c hc => (heq c hc).trans (heq 0 hn).symm
  refine ⟨hall, fun fs u hu hw r hr ht hp b hb => ?_⟩
  have hstart : ReadsOf n s.count (s.disks 0) s := by
    have hnone : ∀ t, ¬ s.Pending t := by
      intro t ht
      by_cases hlt : t < s.count
      · exact hidle t hlt ht
      · exact hs.ok.not_pending (by omega) ht
    refine ⟨hs.ok, hnone, hall, Nat.le_refl _, fun t ht hread => ?_⟩
    obtain ⟨mem, hreq⟩ := hs.ok.unused t ht
    rw [hreq] at hread
    cases hread
  have hread := run_invariant hstart (fun t e v ht hp hx => ht.step hn hp (next_step hx)) hu hw
  have hgot := (hread.ok.reqs r).got ht hp
  obtain ⟨hlo, hhi⟩ := hb
  have := hread.fetched r hr ht (by rw [hgot]; rfl) (b - (u.req r).io.offsetBlocks) (by omega)
  rwa [Nat.add_sub_cancel' hlo] at this

/-- Two writes of one block each in flight together, stored in opposite orders. -/
def crossedWrites (block : Nat) : List (MirrorEvent Nat) :=
  [.submit 0 ⟨.write, 0, 1⟩ (fun _ => 1), .submit 1 ⟨.write, block, 1⟩ (fun _ => 2),
   .serve 0 0, .serve 1 0, .serve 1 1, .serve 0 1,
   .finish 0 0, .finish 0 1, .finish 1 0, .finish 1 1, .resume 0, .resume 0, .resume 1, .resume 1]

/-- Two reads of block 0, served by child 1 and child 0. -/
def twoReads : List (MirrorEvent Nat) :=
  [.submit 0 ⟨.read, 0, 1⟩ (fun _ => 0), .serve 2 1, .finish 2 1, .resume 2,
   .submit 0 ⟨.read, 0, 1⟩ (fun _ => 0), .serve 3 0, .finish 3 0, .resume 3]

theorem mirrors_converge_crossedWrites :
    ∃ s u, run next (start 2 true fun _ _ => 0) (crossedWrites 1) = some s ∧
      run next s twoReads = some u ∧ (u.req 2).dataOf 0 = (u.req 3).dataOf 0 := by
  let s := (run next (start 2 true fun _ _ => 0) (crossedWrites 1)).get (by decide)
  let u := (run next s twoReads).get (by decide)
  have hs : run next (start 2 true fun _ _ => 0) (crossedWrites 1) = some s :=
    (Option.some_get _).symm
  have hu : run next s twoReads = some u := (Option.some_get _).symm
  have hread := (mirrors_converge (by decide) (fun _ _ => rfl) hs (by decide) (by decide)
    (by decide)).2 twoReads u hu (by decide)
  have h2 := hread 2 (by decide) (by decide) (by decide) 0 (by decide)
  have h3 := hread 3 (by decide) (by decide) (by decide) 0 (by decide)
  exact ⟨s, u, hs, hu, h2.trans h3.symm⟩

/-- Writes of the same block: every child succeeds, all requests are completed with
`Success`, and the two reads return different data. -/
theorem mirrors_diverge :
    ∃ s u, run next (start 2 true fun _ _ => 0) (crossedWrites 0) = some s ∧
      Along next NoFailure (start 2 true fun _ _ => 0) (crossedWrites 0 ++ twoReads) ∧
      (∀ r < s.count, (s.req r).phase = .completed .success) ∧ s.disks 0 0 ≠ s.disks 1 0 ∧
      run next s twoReads = some u ∧ (u.req 2).phase = .completed .success ∧
      (u.req 3).phase = .completed .success ∧ (u.req 2).dataOf 0 ≠ (u.req 3).dataOf 0 := by
  let s := (run next (start 2 true fun _ _ => 0) (crossedWrites 0)).get (by decide)
  let u := (run next s twoReads).get (by decide)
  exact ⟨s, u, (Option.some_get _).symm, by decide, by decide, by decide,
    (Option.some_get _).symm, by decide, by decide, by decide⟩

end Mirror

end Ironspdk.Raid1
