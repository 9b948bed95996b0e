import Ironspdk.Raid1.Latest

/-! # A mirror as a single disk

The driver does not remember which children have missed a write. When the children do, and
one that has failed a write serves no reads after it, the mirror is one disk to its users:
they may keep any number of requests in progress, as long as these do not conflict. -/
namespace Ironspdk.Raid1
open Ironspdk.Lib Ironspdk.Runtime

variable {B : Type*}

namespace Mirror

/-- A child that has failed a write serves no read. -/
def FailStop (s : Mirror B) : MirrorEvent B → Prop
  | .serve r c => (s.req r).io.ioType = .read →
      ∀ w < s.count, (s.req w).io.ioType = .write → (s.req w).ios c ≠ .ended false
  | _ => True

instance (s : Mirror B) : (e : MirrorEvent B) → Decidable (s.FailStop e)
  | .serve r c => inferInstanceAs (Decidable ((s.req r).io.ioType = .read →
      ∀ w < s.count, (s.req w).io.ioType = .write → (s.req w).ios c ≠ .ended false))
  | .submit _ _ _ | .finish _ _ | .fail _ _ _ | .resume _ => isTrue trivial

/-- One disk after the writes before request `r`, in the order of their submission. -/
def written (disk : Nat → B) (s : Mirror B) : Nat → Nat → B
  | 0 => disk
  | r + 1 =>
    if (s.req r).io.ioType = .write then (s.req r).store (written disk s r) else written disk s r

variable {n : Nat} {disks : Nat → Nat → B} {s u : Mirror B} {e : MirrorEvent B} {r w c b : Nat}

/-- A request that has ended is left alone. -/
theorem Effect.kept (he : Effect n s e u) (h : s.Ok n) (hw : w < s.count)
    (hend : (s.req w).phase.Ended) : u.req w = s.req w := by
  obtain ⟨status, hst⟩ := hend
  have hne : ∀ {r : Nat}, (∀ status, (s.req r).phase ≠ .completed status) → w ≠ r := by
    rintro r hp rfl
    exact hp status hst
  cases he with
  | submit q hio hnone hall hdisks hcount hreq =>
    rw [hreq, Function.update_of_ne (Nat.ne_of_lt hw)]
  | store hi ht hdisks hcount hreq =>
    rw [hreq, Function.update_of_ne (hne (h.live (ChildIo.inFlight_open hi)))]
  | fetch hi ht hdisks hcount hreq =>
    rw [hreq, Function.update_of_ne (hne (h.live (ChildIo.inFlight_open hi)))]
  | quiet r q hp hq hdisks hcount hreq => rw [hreq, Function.update_of_ne (hne hp)]
  | panic => rfl

theorem Effect.count_le (he : Effect n s e u) : s.count ≤ u.count := by
  cases he with
  | submit q hio hnone hall hdisks hcount hreq => omega
  | store hi ht hdisks hcount hreq => omega
  | fetch hi ht hdisks hcount hreq => omega
  | quiet r q hp hq hdisks hcount hreq => omega
  | panic => exact Nat.le_refl _

theorem Effect.io_kept (he : Effect n s e u) (hw : w < s.count) :
    (u.req w).io = (s.req w).io := by
  have hmove : ∀ {r : Nat} {q : Req B}, u.req = Function.update s.req r q →
      q.io = (s.req r).io → (u.req w).io = (s.req w).io := by
    intro r q hreq hio
    by_cases hwr : w = r
    · rw [hreq, hwr, Function.update_self, hio]
    · rw [hreq, Function.update_of_ne hwr]
  cases he with
  | submit q hio hnone hall hdisks hcount hreq =>
    rw [hreq, Function.update_of_ne (Nat.ne_of_lt hw)]
  | store hi ht hdisks hcount hreq => exact hmove hreq rfl
  | fetch hi ht hdisks hcount hreq => exact hmove hreq rfl
  | quiet r q hp hq hdisks hcount hreq => exact hmove hreq hq.io
  | panic => rfl

/-- A read that has its data had them before the step, or gets them in it. -/
theorem Effect.read_took (he : Effect n s e u) (hr : r < s.count)
    (ht : (s.req r).io.ioType = .read) (htook : ((u.req r).ios (u.req r).next).took = true) :
    (u.req r).next = (s.req r).next ∧
      (((s.req r).ios (s.req r).next).took = true ∨ e = .serve r (s.req r).next) := by
  have hsame : u.req r = s.req r → (u.req r).next = (s.req r).next ∧
      (((s.req r).ios (s.req r).next).took = true ∨ e = .serve r (s.req r).next) := by
    intro he
    rw [he] at htook ⊢
    exact ⟨rfl, Or.inl htook⟩
  cases he with
  | submit q hio hnone hall hdisks hcount hreq =>
    exact hsame (by rw [hreq, Function.update_of_ne (Nat.ne_of_lt hr)])
  | store hi hw hdisks hcount hreq =>
    rename_i t c
    have hne : r ≠ t := by
      rintro rfl
      cases ht.symm.trans hw
    exact hsame (by rw [hreq, Function.update_of_ne hne])
  | fetch hi hread hdisks hcount hreq =>
    rename_i t
    by_cases hrt : r = t
    · subst hrt
      rw [hreq, Function.update_self]
      exact ⟨rfl, Or.inr rfl⟩
    · exact hsame (by rw [hreq, Function.update_of_ne hrt])
  | quiet t q hp hq hdisks hcount hreq =>
    by_cases hrt : r = t
    · subst hrt
      rw [hreq, Function.update_self] at htook ⊢
      obtain ⟨hnext, _, hbefore⟩ := hq.read ht htook
      exact ⟨hnext, Or.inl hbefore⟩
    · exact hsame (by rw [hreq, Function.update_of_ne hrt])
  | panic => exact hsame rfl

/-- The child that has served a read has stored every write before it that shares a block. -/
structure FreshReads (n : Nat) (disks : Nat → Nat → B) (s : Mirror B) : Prop
    extends InOrder n disks s where
  fresh : ∀ r < s.count, (s.req r).io.ioType = .read →
    ((s.req r).ios (s.req r).next).took = true → ∀ w < r, (s.req w).io.ioType = .write →
      ∀ b, (s.req w).Covers b → (s.req r).Covers b → (s.req w).ios (s.req r).next = .ended true

namespace FreshReads

/-- A write before a request that shares a block has ended. -/
theorem write_ended (h : FreshReads n disks s) (hw : (s.req w).io.ioType = .write) (hwr : w < r)
    (hr : r < s.count) (hb : (s.req w).Covers b) (hbr : (s.req r).Covers b) :
    (s.req w).phase.Ended :=
  h.apart w r hwr hr (conflicts_of_covers (Or.inl hw) hb hbr)

theorem step (h : FreshReads n disks s) (hn : 0 < n) (hapart : s.NoConflict e)
    (hstop : s.FailStop e) (hs : Step s e u) : FreshReads n disks u := by
  have he := hs.effect h.ok
  refine ⟨h.toInOrder.step hn hapart hs, fun r hr ht htook w hwr hw b hb hbr => ?_⟩
  by_cases hrs : r < s.count
  · have hior := he.io_kept hrs
    have hiow := he.io_kept (Nat.lt_trans hwr hrs)
    rw [hior] at ht
    rw [hiow] at hw
    rw [Req.Covers, hiow] at hb
    rw [Req.Covers, hior] at hbr
    have hend := h.write_ended hw hwr hrs hb hbr
    obtain ⟨hnext, hbefore⟩ := he.read_took hrs ht htook
    rw [hnext, he.kept h.ok (Nat.lt_trans hwr hrs) hend]
    rcases hbefore with hbefore | rfl
    · exact h.fresh r hrs ht hbefore w hwr hw b hb hbr
    · -- served in this step, so by a child that has failed no write
      obtain ⟨status, hst⟩ := hend
      obtain ⟨x, hx⟩ := (h.ok.reqs w).ended status hst (s.req r).next
      have hgood := hstop ht w (Nat.lt_trans hwr hrs) hw
      cases x with
      | true => exact hx
      | false => exact absurd hx hgood
  · cases he with
    | submit q hio hnone hall hdisks hcount hreq =>
      have hrc : r = s.count := by omega
      rw [hrc, hreq, Function.update_self] at htook
      cases (hnone _).symm.trans htook
    | store hi hw hdisks hcount hreq => exact absurd (hcount ▸ hr) hrs
    | fetch hi hread hdisks hcount hreq => exact absurd (hcount ▸ hr) hrs
    | quiet t q hp hq hdisks hcount hreq => exact absurd (hcount ▸ hr) hrs
    | panic => exact absurd hr hrs

theorem run {checks : Bool} {es : List (MirrorEvent B)} (hn : 0 < n)
    (h : Lib.run next (start n checks disks) es = some s)
    (hapart : Along next NoConflict (start n checks disks) es)
    (hstop : Along next FailStop (start n checks disks) es) : FreshReads n disks s :=
  run_invariant ⟨inOrder_start n checks disks, fun _ hr => absurd hr (Nat.not_lt_zero _)⟩
    (fun _ _ _ ht hp hx => ht.step hn hp.1 hp.2 (next_step hx)) h (along_and hapart hstop)

end FreshReads

/-- In a block, a child that has stored the writes before a request holds what one disk does. -/
theorem contents_eq_written {disk : Nat → B} (hdisk : disks c = disk)
    (h : ∀ w < r, (s.req w).io.ioType = .write → (s.req w).Covers b →
      (s.req w).ios c = .ended true) : contents disks s c r b = written disk s r b := by
  induction r with
  | zero => exact congrFun hdisk b
  | succ r ih =>
    have ih := ih fun w hw => h w (Nat.lt_succ_of_lt hw)
    by_cases hw : (s.req r).io.ioType = .write
    · simp only [written, if_pos hw]
      by_cases hb : (s.req r).Covers b
      · have hstored : (s.req r).StoredOn c :=
          ⟨hw, by rw [h r (Nat.lt_succ_self r) hw hb]; rfl⟩
        simp only [contents, if_pos hstored]
        rw [Req.store_in hb, Req.store_in hb]
      · rw [contents_out fun hs => hb hs.2, Req.store_out hb, ih]
    · simp only [written, if_neg hw]
      rw [contents_out fun hs => hw hs.1.1, ih]

/-- **A mirror with failing children is one disk.** Children that are equal at the start and
may fail, of which none serves a read once it has failed a write; any number of requests in
progress on any channels, as long as two that share a block are both reads. A read completed
with `Success` returns in each block what one disk holds after all the writes submitted before
it, and those that wrote the block have all been completed with `Success`. -/
theorem fail_stop_mirror_is_a_disk {n : Nat} (hn : 0 < n) {checks : Bool} {disk : Nat → B}
    (hsame : ∀ c < n, disks c = disk) {es : List (MirrorEvent B)}
    (h : run next (start n checks disks) es = some s)
    (hapart : Along next NoConflict (start n checks disks) es)
    (hstop : Along next FailStop (start n checks disks) es) (r : Nat)
    (ht : (s.req r).io.ioType = .read) (hp : (s.req r).phase = .completed .success) (b : Nat)
    (hb : (s.req r).Covers b) :
    (s.req r).dataOf b = written disk s r b ∧
      ∀ w < r, (s.req w).io.ioType = .write → (s.req w).Covers b → s.Acknowledged b w := by
  have hs := FreshReads.run hn h hapart hstop
  have hgot := (hs.ok.reqs r).got ht hp
  have htook : ((s.req r).ios (s.req r).next).took = true := by rw [hgot]; rfl
  have hr : r < s.count := by
    by_contra hge
    obtain ⟨mem, hreq⟩ := hs.ok.unused r (by omega)
    rw [hreq] at ht
    cases ht
  have hchild : (s.req r).next < n := by
    by_contra hge
    cases hgot.symm.trans ((hs.ok.reqs r).outside _ (by omega))
  have hfresh := fun w hw hwr hbw => hs.fresh r hr ht htook w hw hwr b hbw hb
  refine ⟨?_, fun w hw hwr hbw => ?_⟩
  · have hheld := hs.fetched r hr ht htook (b - (s.req r).io.offsetBlocks)
      (by have := hb.1; have := hb.2; omega)
    rw [Nat.add_sub_cancel' hb.1] at hheld
    exact hheld.trans (contents_eq_written (hsame _ hchild) hfresh)
  · exact hs.ok.acknowledged (hs.write_ended hwr hw hr hbw hb) ⟨hwr, hbw, hfresh w hw hwr hbw⟩

/-- Two children. Two writes of other blocks are in progress together, child 1 fails one of
them, and the read that follows turns from child 1 to child 0. -/
def failThenRead : List (MirrorEvent Nat) :=
  [.submit 0 ⟨.write, 0, 1⟩ (fun _ => 1), .submit 1 ⟨.write, 1, 1⟩ (fun _ => 2),
   .serve 0 0, .serve 0 1, .serve 1 0, .fail 1 1 (fun _ => 0),
   .finish 0 0, .finish 0 1, .finish 1 0, .resume 0, .resume 0, .resume 1, .resume 1,
   .submit 0 ⟨.read, 0, 2⟩ (fun _ => 0), .fail 2 1 (fun _ => 7), .resume 2,
   .serve 2 0, .finish 2 0, .resume 2]

theorem fail_stop_mirror_is_a_disk_failThenRead :
    ∃ s, run next (start 2 true fun _ _ => 0) failThenRead = some s ∧ (s.req 2).dataOf 1 = 2 := by
  let s := (run next (start 2 true fun _ _ => 0) failThenRead).get (by decide)
  have hs : run next (start 2 true fun _ _ => 0) failThenRead = some s := (Option.some_get _).symm
  have hread := fail_stop_mirror_is_a_disk (by decide) (fun _ _ => rfl) hs
    (by decide) (by decide) 2 (by decide) (by decide) 1 (by decide)
  exact ⟨s, hs, hread.1.trans (by decide)⟩

end Mirror

end Ironspdk.Raid1
