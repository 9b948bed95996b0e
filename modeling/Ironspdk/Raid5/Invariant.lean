import Ironspdk.Raid5.Encode
import Ironspdk.Raid5.Request

/-! # The invariant of a request in progress

What holds of a request at every moment between its first and its last operation,
whatever the children do. The stripe held the encoding of `flat` when the request was
taken from its queue; disks in `dead` may hold anything. Reads come before writes, use
windows of their own and show the encoding once they have taken effect; writes go to
different disks and store what their buffers hold. -/
namespace Ironspdk.Raid5
open Ironspdk.Lib Ironspdk.Runtime

/-- What a request is processed against. `held` asks that buffers outlive the writes a late
child reads them for; `prompt` stands for schedules on which a failed read of `reconstruct`
is awaited only once the others have ended; `mayAbort` lets a panic end the program. -/
structure Setting (B : Type) where
  dev : Raid5Bdev
  children : Children
  stripe : Nat
  dead : Nat → Prop
  flat : Nat → B
  held : Prop
  prompt : Prop
  mayAbort : Prop

variable {B : Type}

/-- The rows of the stripe. -/
def Setting.Row (E : Setting B) (row : Nat) : Prop := row / E.dev.stripBlocks = E.stripe

def Io.Apart (a b : Io) : Prop := ∀ m i, a.Covers m i → ¬ b.Covers m i

def Phase.Landed (p : Phase) : Prop := p = .applied ∨ p = .done true

def Proc.reqs (s : Proc B) : List ChildReq := s.ios.map (·.req)

/-- Child I/O `c` has ended with status `b`. -/
def Proc.Done (s : Proc B) (c : Nat) (b : Bool) : Prop :=
  ∃ x, s.ios[c]? = some x ∧ x.phase = .done b

/-- No child I/O is still on its way. -/
def Proc.AllDone (s : Proc B) : Prop := ∀ c < s.ios.length, ∃ b, s.Done c b

/-- The child I/Os of a request as they are submitted. -/
structure ReqsOk (E : Setting B) (bufs : Nat) (rs : List ChildReq) : Prop where
  disk : ∀ r ∈ rs, r.disk < E.dev.diskCount
  rows : ∀ r ∈ rs, ∀ j < r.io.numBlocks, E.Row (r.io.offsetBlocks + j)
  owned : ∀ r ∈ rs, r.io.mem < bufs
  apart : rs.Pairwise fun a b => a.kind ≠ .store → b.kind ≠ .store → a.io.Apart b.io
  distinct : rs.Pairwise fun a b => a.kind = .store → b.kind = .store → a.disk ≠ b.disk

structure Inv [XorGroup B] (E : Setting B) (s : Proc B) : Prop where
  reqs : ReqsOk E s.bufs s.reqs
  permitted : ∀ (c : Nat) (x : ChildIo B), s.ios[c]? = some x →
    (x.phase.Landed → E.children.allow x.req.disk true) ∧
      (x.phase = .done false → E.children.allow x.req.disk false)
  landed : ∀ (c : Nat) (x : ChildIo B), s.ios[c]? = some x → x.req.kind ≠ .store →
    x.phase.Landed → ¬ E.dead x.req.disk → ∀ j < x.req.io.numBlocks,
      load x.req.io s.mem j = E.dev.encode E.flat x.req.disk (x.req.io.offsetBlocks + j)
  quiet : ∀ (c : Nat) (x : ChildIo B) (d : Nat) (y : ChildIo B), s.ios[c]? = some x →
    s.ios[d]? = some y → x.req.kind = .store → y.req.kind ≠ .store → ∃ b, y.phase = .done b
  shown : ∀ (c : Nat) (x : ChildIo B), s.ios[c]? = some x → x.req.kind = .store →
    ∀ j < x.req.io.numBlocks, x.data j = load x.req.io s.mem j
  kept : ∀ x < E.dev.diskCount, ¬ E.dead x → ∀ row, E.Row row →
    (∀ (c : Nat) (w : ChildIo B), s.ios[c]? = some w → w.req.kind = .store → w.req.disk = x →
      w.phase ≠ .done false ∧ (w.phase.Landed → ¬ w.req.Hits x row)) →
    s.disks x row = E.dev.encode E.flat x row
  stored : E.held → ∀ (c : Nat) (w : ChildIo B), s.ios[c]? = some w → w.req.kind = .store →
    w.phase.Landed → ∀ j < w.req.io.numBlocks,
      s.disks w.req.disk (w.req.io.offsetBlocks + j) = w.data j
  held : E.held → E.children.late = true → ∀ (c : Nat) (w : ChildIo B), s.ios[c]? = some w →
    w.req.kind = .store → w.phase = .inFlight → .drop (.io c) ∉ s.trace
  past : ∀ c, .drop (.io c) ∈ s.trace → c < s.ios.length

/-- What the surroundings leave alone: the list of child I/Os, what has ended, the cells
that no read in flight is for. -/
structure Ext (s t : Proc B) : Prop where
  reqs : t.reqs = s.reqs
  bufs : t.bufs = s.bufs
  completions : t.completions = s.completions
  done : ∀ (c : Nat) (x : ChildIo B) (b : Bool), s.ios[c]? = some x → x.phase = .done b →
    t.ios[c]? = some x
  mem : ∀ m i, (∀ (c : Nat) (x : ChildIo B), s.ios[c]? = some x → x.req.kind ≠ .store →
    (∀ b, x.phase ≠ .done b) → ¬ x.req.io.Covers m i) → t.mem m i = s.mem m i

/-! ## Lists of child I/Os -/

theorem Io.Apart.symm {a b : Io} (h : a.Apart b) : b.Apart a := fun m i hb ha => h m i ha hb

/-- In a list whose entries are pairwise related, entries at different places are. -/
theorem pairwise_at {α : Type} {R : α → α → Prop} {l : List α} (h : l.Pairwise R)
    (hR : ∀ a b, R a b → R b a) {c d : Nat} {a b : α} (ha : l[c]? = some a) (hb : l[d]? = some b)
    (hne : c ≠ d) : R a b := by
  obtain ⟨hc, rfl⟩ := List.getElem?_eq_some_iff.mp ha
  obtain ⟨hd, rfl⟩ := List.getElem?_eq_some_iff.mp hb
  rcases Nat.lt_or_gt_of_ne hne with hlt | hgt
  · exact List.pairwise_iff_getElem.mp h c d hc hd hlt
  · exact hR _ _ (List.pairwise_iff_getElem.mp h d c hd hc hgt)

theorem reqs_at {s : Proc B} {c : Nat} {x : ChildIo B} (h : s.ios[c]? = some x) :
    s.reqs[c]? = some x.req := by
  simp [Proc.reqs, h]

theorem reqs_mem {s : Proc B} {c : Nat} {x : ChildIo B} (h : s.ios[c]? = some x) :
    x.req ∈ s.reqs :=
  List.mem_of_getElem? (reqs_at h)

theorem ReqsOk.apart_at {E : Setting B} {s : Proc B} (h : ReqsOk E s.bufs s.reqs) {c d : Nat}
    {x y : ChildIo B} (hx : s.ios[c]? = some x) (hy : s.ios[d]? = some y) (hne : c ≠ d)
    (hxk : x.req.kind ≠ .store) (hyk : y.req.kind ≠ .store) : x.req.io.Apart y.req.io :=
  pairwise_at h.apart (fun _ _ hR hb ha => (hR ha hb).symm) (reqs_at hx) (reqs_at hy) hne hxk hyk

theorem ReqsOk.distinct_at {E : Setting B} {s : Proc B} (h : ReqsOk E s.bufs s.reqs) {c d : Nat}
    {x y : ChildIo B} (hx : s.ios[c]? = some x) (hy : s.ios[d]? = some y) (hne : c ≠ d)
    (hxk : x.req.kind = .store) (hyk : y.req.kind = .store) : x.req.disk ≠ y.req.disk :=
  pairwise_at h.distinct (fun _ _ hR hb ha => (hR ha hb).symm) (reqs_at hx) (reqs_at hy) hne
    hxk hyk

theorem setPhase_get {s : Proc B} {c d : Nat} {x y : ChildIo B} {p : Phase}
    (h : (s.ios.set c { x with phase := p })[d]? = some y) :
    (d = c ∧ y = { x with phase := p }) ∨ (d ≠ c ∧ s.ios[d]? = some y) := by
  rw [List.getElem?_set] at h
  split at h
  · rename_i hcd
    split at h
    · exact Or.inl ⟨hcd.symm, (Option.some.inj h).symm⟩
    · cases h
  · rename_i hcd
    exact Or.inr ⟨fun he => hcd he.symm, h⟩

theorem setPhase_reqs {s : Proc B} {c : Nat} {x : ChildIo B} {p : Phase}
    (hx : s.ios[c]? = some x) : (s.ios.set c { x with phase := p }).map (·.req) = s.reqs := by
  obtain ⟨hc, he⟩ := List.getElem?_eq_some_iff.mp (reqs_at hx)
  have := List.set_getElem_self hc
  rw [he] at this
  rwa [List.map_set]

/-! ## Views -/

theorem load_store_same {io : Io} {data : Nat → B} {mem : Nat → Nat → B} {j : Nat}
    (hj : j < io.numBlocks) : load io (store io data mem) j = data j := by
  rw [load, store, if_pos ⟨rfl, by omega, by omega⟩, Nat.add_sub_cancel_left]

theorem load_store_apart {a b : Io} (h : a.Apart b) {data : Nat → B} {mem : Nat → Nat → B}
    {j : Nat} (hj : j < b.numBlocks) : load b (store a data mem) j = load b mem j := by
  have hb : b.Covers b.mem (b.start + j) := ⟨rfl, by omega, by omega⟩
  rw [load, store, if_neg (fun ha => h _ _ ha hb), load]

theorem store_out {io : Io} {data : Nat → B} {mem : Nat → Nat → B} {m i : Nat}
    (h : ¬ io.Covers m i) : store io data mem m i = mem m i := if_neg h

theorem writeDisk_hit {r : ChildReq} {data : Nat → B} {disks : Nat → Nat → B} {j : Nat}
    (hj : j < r.io.numBlocks) : writeDisk r data disks r.disk (r.io.offsetBlocks + j) = data j := by
  rw [writeDisk, if_pos ⟨rfl, by omega, by omega⟩, Nat.add_sub_cancel_left]

theorem writeDisk_out {r : ChildReq} {data : Nat → B} {disks : Nat → Nat → B} {x row : Nat}
    (h : ¬ r.Hits x row) : writeDisk r data disks x row = disks x row := if_neg h

/-! ## One step of a child -/

theorem react_cases {ch : Children} {s t : Proc B} {e : ChildEvent B} (h : ch.react s e = some t) :
    ∃ (c : Nat) (x : ChildIo B), s.ios[c]? = some x ∧
      ((x.phase = .inFlight ∧ ch.allow x.req.disk true = true ∧ ∃ junk,
          t = (s.put x.req (ch.sample s c x junk)
            (fun j => s.disks x.req.disk (x.req.io.offsetBlocks + j))).setPhase c x .applied) ∨
       (x.phase = .applied ∧
          t = { s.setPhase c x (.done true) with trace := s.trace ++ [.complete c true] }) ∨
       (x.phase = .inFlight ∧ ch.allow x.req.disk false = true ∧ ∃ junk,
          t = { (s.put x.req junk junk).setPhase c x (.done false) with
                  trace := s.trace ++ [.complete c false] })) := by
  cases e with
  | apply c junk =>
    simp only [Children.react, Option.bind_eq_bind, Option.bind_eq_some_iff,
      Option.ite_none_right_eq_some, Option.some.injEq] at h
    obtain ⟨x, hx, ⟨hp, ha⟩, rfl⟩ := h
    exact ⟨c, x, hx, Or.inl ⟨hp, ha, junk, rfl⟩⟩
  | finish c =>
    simp only [Children.react, Option.bind_eq_bind, Option.bind_eq_some_iff,
      Option.ite_none_right_eq_some, Option.some.injEq] at h
    obtain ⟨x, hx, hp, rfl⟩ := h
    exact ⟨c, x, hx, Or.inr (Or.inl ⟨hp, rfl⟩)⟩
  | fail c junk =>
    simp only [Children.react, Option.bind_eq_bind, Option.bind_eq_some_iff,
      Option.ite_none_right_eq_some, Option.some.injEq] at h
    obtain ⟨x, hx, ⟨hp, ha⟩, rfl⟩ := h
    exact ⟨c, x, hx, Or.inr (Or.inr ⟨hp, ha, junk, rfl⟩)⟩

theorem put_ios (s : Proc B) (r : ChildReq) (d m : Nat → B) : (s.put r d m).ios = s.ios := by
  unfold Proc.put; split <;> rfl

theorem put_bufs (s : Proc B) (r : ChildReq) (d m : Nat → B) : (s.put r d m).bufs = s.bufs := by
  unfold Proc.put; split <;> rfl

theorem put_trace (s : Proc B) (r : ChildReq) (d m : Nat → B) : (s.put r d m).trace = s.trace := by
  unfold Proc.put; split <;> rfl

theorem put_completions (s : Proc B) (r : ChildReq) (d m : Nat → B) :
    (s.put r d m).completions = s.completions := by
  unfold Proc.put; split <;> rfl

theorem put_store {s : Proc B} {r : ChildReq} {d m : Nat → B} (h : r.kind = .store) :
    (s.put r d m).mem = s.mem ∧ (s.put r d m).disks = writeDisk r d s.disks := by
  simp [Proc.put, h]

theorem put_read {s : Proc B} {r : ChildReq} {d m : Nat → B} (h : r.kind ≠ .store) :
    (s.put r d m).mem = store r.io m s.mem ∧ (s.put r d m).disks = s.disks := by
  unfold Proc.put
  split
  · rename_i hk
    exact absurd hk h
  · exact ⟨rfl, rfl⟩
  · exact ⟨rfl, rfl⟩

section env
variable [XorGroup B] {E : Setting B} {s t : Proc B}

/-- A read that is still on its way finds the encoding on the disk: no write is out. -/
theorem Inv.reads_encoding (h : Inv E s) {c : Nat} {x : ChildIo B} (hx : s.ios[c]? = some x)
    (hk : x.req.kind ≠ .store) (hp : ∀ b, x.phase ≠ .done b) (hd : ¬ E.dead x.req.disk) {j : Nat}
    (hj : j < x.req.io.numBlocks) : s.disks x.req.disk (x.req.io.offsetBlocks + j) =
      E.dev.encode E.flat x.req.disk (x.req.io.offsetBlocks + j) := by
  refine h.kept _ (h.reqs.disk _ (reqs_mem hx)) hd _ (h.reqs.rows _ (reqs_mem hx) j hj) ?_
  intro d w hw hwk _
  obtain ⟨b, hb⟩ := h.quiet d w c x hw hx hwk hk
  exact absurd hb (hp b)

/-- What a write that takes effect stores is what it was given. -/
theorem Inv.samples_data (h : Inv E s) (he : E.held) {c : Nat} {x : ChildIo B}
    (hx : s.ios[c]? = some x) (hk : x.req.kind = .store) (hp : x.phase = .inFlight)
    (junk : Nat → B) {j : Nat} (hj : j < x.req.io.numBlocks) :
    E.children.sample s c x junk j = x.data j := by
  unfold Children.sample
  split
  · rename_i hl
    rw [if_neg (h.held he hl c x hx hk hp), h.shown c x hx hk j hj]
  · rfl

/-- A step of child I/O `c` to phase `p`: a read changes only its window, a write only its
rows, and once landed they hold what they should. -/
structure Moves (E : Setting B) (s t : Proc B) (c : Nat) (x : ChildIo B) (p : Phase) : Prop where
  found : s.ios[c]? = some x
  ongoing : ∀ b, x.phase ≠ .done b
  ios : t.ios = s.ios.set c { x with phase := p }
  bufs : t.bufs = s.bufs
  drops : ∀ r, .drop r ∈ t.trace ↔ .drop r ∈ s.trace
  outcome : p.Landed ∧ E.children.allow x.req.disk true ∨
    p = .done false ∧ E.children.allow x.req.disk false
  read : x.req.kind ≠ .store → t.disks = s.disks ∧
    (∀ m i, ¬ x.req.io.Covers m i → t.mem m i = s.mem m i) ∧
    (p.Landed → ¬ E.dead x.req.disk → ∀ j < x.req.io.numBlocks, load x.req.io t.mem j =
      E.dev.encode E.flat x.req.disk (x.req.io.offsetBlocks + j))
  write : x.req.kind = .store → t.mem = s.mem ∧
    (∀ y row, ¬ x.req.Hits y row → t.disks y row = s.disks y row) ∧
    (E.held → p.Landed → ∀ j < x.req.io.numBlocks,
      t.disks x.req.disk (x.req.io.offsetBlocks + j) = x.data j)

namespace Moves

variable {c : Nat} {x : ChildIo B} {p : Phase}

theorem get (hs : Moves E s t c x p) {d : Nat} {y : ChildIo B} (hy : t.ios[d]? = some y) :
    (d = c ∧ y = { x with phase := p }) ∨ (d ≠ c ∧ s.ios[d]? = some y) :=
  setPhase_get (hs.ios ▸ hy)

theorem get_self (hs : Moves E s t c x p) : t.ios[c]? = some { x with phase := p } := by
  obtain ⟨hc, _⟩ := List.getElem?_eq_some_iff.mp hs.found
  rw [hs.ios, List.getElem?_set_self hc]

theorem reqs (hs : Moves E s t c x p) : t.reqs = s.reqs := by
  rw [Proc.reqs, hs.ios]
  exact setPhase_reqs hs.found

theorem permitted (hs : Moves E s t c x p) :
    (p.Landed → E.children.allow x.req.disk true) ∧
      (p = .done false → E.children.allow x.req.disk false) := by
  rcases hs.outcome with ⟨hl, ha⟩ | ⟨rfl, ha⟩
  · refine ⟨fun _ => ha, fun hf => ?_⟩
    subst hf
    rcases hl with hl | hl <;> cases hl
  · refine ⟨fun hl => ?_, fun _ => ha⟩
    rcases hl with hl | hl <;> cases hl

/-- While a read is on its way no write is, so the step beside a write is that of a write. -/
theorem store_of_store (hs : Moves E s t c x p) (h : Inv E s) {d : Nat} {y : ChildIo B}
    (hy : s.ios[d]? = some y) (hyk : y.req.kind = .store) : x.req.kind = .store := by
  by_contra hxk
  obtain ⟨b, hb⟩ := h.quiet d y c x hy hs.found hyk hxk
  exact hs.ongoing b hb

/-- The window of another read is intact. -/
theorem load_other (hs : Moves E s t c x p) (h : Inv E s) {d : Nat} {y : ChildIo B}
    (hne : d ≠ c) (hy : s.ios[d]? = some y) (hyk : y.req.kind ≠ .store) {j : Nat}
    (hj : j < y.req.io.numBlocks) : load y.req.io t.mem j = load y.req.io s.mem j := by
  by_cases hxk : x.req.kind = .store
  · rw [(hs.write hxk).1]
  · refine (hs.read hxk).2.1 _ _ (fun hcov => ?_)
    exact h.reqs.apart_at hs.found hy hne.symm hxk hyk _ _ hcov ⟨rfl, by omega, by omega⟩

/-- A row that no failed or landed write is for is as it was, and no such write was before. -/
theorem kept (hs : Moves E s t c x p) (h : Inv E s) {y row : Nat} (hy : y < E.dev.diskCount)
    (hdead : ¬ E.dead y) (hrow : E.Row row)
    (hnone : ∀ (d : Nat) (w : ChildIo B), t.ios[d]? = some w → w.req.kind = .store →
      w.req.disk = y → w.phase ≠ .done false ∧ (w.phase.Landed → ¬ w.req.Hits y row)) :
    t.disks y row = E.dev.encode E.flat y row := by
  have hself : x.req.kind = .store → ¬ x.req.Hits y row := by
    intro hxk hhit
    obtain ⟨hnf, hnl⟩ := hnone c _ hs.get_self hxk hhit.1
    rcases hs.outcome with ⟨hl, _⟩ | ⟨hf, _⟩
    · exact hnl hl hhit
    · exact hnf hf
  have hsame : t.disks y row = s.disks y row := by
    by_cases hxk : x.req.kind = .store
    · exact (hs.write hxk).2.1 y row (hself hxk)
    · rw [(hs.read hxk).1]
  rw [hsame]
  refine h.kept y hy hdead row hrow (fun d w hw hwk hwd => ?_)
  by_cases hdc : d = c
  · subst hdc
    cases hs.found.symm.trans hw
    exact ⟨hs.ongoing false, fun _ => hself hwk⟩
  · refine hnone d w ?_ hwk hwd
    rw [hs.ios, List.getElem?_set_ne (Ne.symm hdc), hw]

end Moves

theorem Inv.advance (h : Inv E s) {c : Nat} {x : ChildIo B} {p : Phase}
    (hs : Moves E s t c x p) : Inv E t := by
  refine ⟨by rw [hs.bufs, hs.reqs]; exact h.reqs, ?_, ?_, ?_, ?_, ?_, ?_, ?_, ?_⟩
  · intro d y hy
    rcases hs.get hy with ⟨_, rfl⟩ | ⟨_, hy⟩
    · exact hs.permitted
    · exact h.permitted d y hy
  · intro d y hy hk hl hdead j hj
    rcases hs.get hy with ⟨_, rfl⟩ | ⟨hne, hy⟩
    · exact (hs.read hk).2.2 hl hdead j hj
    · rw [hs.load_other h hne hy hk hj]
      exact h.landed d y hy hk hl hdead j hj
  · intro d y e z hy hz hyk hzk
    rcases hs.get hy with ⟨_, rfl⟩ | ⟨_, hy⟩
    · rcases hs.get hz with ⟨_, rfl⟩ | ⟨_, hz⟩
      · exact absurd hyk hzk
      · exact h.quiet c x e z hs.found hz hyk hzk
    · rcases hs.get hz with ⟨_, rfl⟩ | ⟨_, hz⟩
      · exact absurd (hs.store_of_store h hy hyk) hzk
      · exact h.quiet d y e z hy hz hyk hzk
  · intro d y hy hk j hj
    rcases hs.get hy with ⟨_, rfl⟩ | ⟨_, hy⟩
    · rw [(hs.write hk).1]
      exact h.shown c x hs.found hk j hj
    · rw [(hs.write (hs.store_of_store h hy hk)).1]
      exact h.shown d y hy hk j hj
  · exact fun y hy hdead row hrow hnone => hs.kept h hy hdead hrow hnone
  · intro he d w hw hk hl j hj
    rcases hs.get hw with ⟨_, rfl⟩ | ⟨hne, hw⟩
    · exact (hs.write hk).2.2 he hl j hj
    · have hxk := hs.store_of_store h hw hk
      rw [← h.stored he d w hw hk hl j hj]
      exact (hs.write hxk).2.1 _ _ (fun hhit =>
        h.reqs.distinct_at hs.found hw hne.symm hxk hk hhit.1)
  · intro he hlate d w hw hk hf
    rw [hs.drops]
    rcases hs.get hw with ⟨_, rfl⟩ | ⟨_, hw⟩
    · rcases hs.outcome with ⟨rfl | rfl, _⟩ | ⟨rfl, _⟩ <;> cases hf
    · exact h.held he hlate d w hw hk hf
  · intro d hd
    rw [hs.drops] at hd
    rw [hs.ios, List.length_set]
    exact h.past d hd

theorem Inv.others (h : Inv E s) (ho : Others E.Row s t) : Inv E t := by
  obtain ⟨D, rfl, hD⟩ := ho
  refine ⟨h.reqs, h.permitted, h.landed, h.quiet, h.shown, ?_, ?_, h.held, h.past⟩
  · intro x hx hdead row hrow hnone
    exact (hD x row hrow).trans (h.kept x hx hdead row hrow hnone)
  · intro he c w hw hk hl j hj
    exact (hD _ _ (h.reqs.rows _ (reqs_mem hw) j hj)).trans (h.stored he c w hw hk hl j hj)

theorem Inv.react (h : Inv E s) {e : ChildEvent B} (hr : E.children.react s e = some t) :
    Inv E t := by
  obtain ⟨c, x, hx, ⟨hp, ha, junk, rfl⟩ | ⟨hp, rfl⟩ | ⟨hp, ha, junk, rfl⟩⟩ := react_cases hr
  · have hnd : ∀ b, x.phase ≠ .done b := by rw [hp]; exact fun b hb => by cases hb
    refine h.advance (p := .applied)
      ⟨hx, hnd, ?_, put_bufs .., ?_, Or.inl ⟨Or.inl rfl, ha⟩, ?_, ?_⟩
    · rw [Proc.setPhase, put_ios]
    · intro r; rw [Proc.setPhase, put_trace]
    · intro hk
      obtain ⟨hm, hd⟩ := put_read (s := s) (d := E.children.sample s c x junk)
        (m := fun j => s.disks x.req.disk (x.req.io.offsetBlocks + j)) hk
      refine ⟨hd, fun m i hout => ?_, fun _ hdead j hj => ?_⟩
      · exact (congrFun (congrFun hm m) i).trans (store_out hout)
      · refine (congrFun (congrArg (load x.req.io) hm) j).trans ((load_store_same hj).trans ?_)
        exact h.reads_encoding hx hk hnd hdead hj
    · intro hk
      obtain ⟨hm, hd⟩ := put_store (s := s) (d := E.children.sample s c x junk)
        (m := fun j => s.disks x.req.disk (x.req.io.offsetBlocks + j)) hk
      refine ⟨hm, fun y row hout => ?_, fun he _ j hj => ?_⟩
      · exact (congrFun (congrFun hd y) row).trans (writeDisk_out hout)
      · refine (congrFun (congrFun hd _) _).trans ((writeDisk_hit hj).trans ?_)
        exact h.samples_data he hx hk hp junk hj
  · have hnd : ∀ b, x.phase ≠ .done b := by rw [hp]; exact fun b hb => by cases hb
    have hl : x.phase.Landed := Or.inl hp
    refine h.advance (p := .done true) ⟨hx, hnd, rfl, rfl, by simp,
      Or.inl ⟨Or.inr rfl, (h.permitted c x hx).1 hl⟩, ?_, ?_⟩
    · exact fun hk => ⟨rfl, fun _ _ _ => rfl, fun _ hdead j hj => h.landed c x hx hk hl hdead j hj⟩
    · exact fun hk => ⟨rfl, fun _ _ _ => rfl, fun he _ j hj => h.stored he c x hx hk hl j hj⟩
  · have hnd : ∀ b, x.phase ≠ .done b := by rw [hp]; exact fun b hb => by cases hb
    have hnl : ¬ Phase.Landed (.done false) := by rintro (hl | hl) <;> cases hl
    refine h.advance (p := .done false)
      ⟨hx, hnd, ?_, put_bufs .., by simp, Or.inr ⟨rfl, ha⟩, ?_, ?_⟩
    · simp only [Proc.setPhase, put_ios]
    · intro hk
      obtain ⟨hm, hd⟩ := put_read (s := s) (d := junk) (m := junk) hk
      exact ⟨hd, fun m i hout => (congrFun (congrFun hm m) i).trans (store_out hout),
        fun hl => absurd hl hnl⟩
    · intro hk
      obtain ⟨hm, hd⟩ := put_store (s := s) (d := junk) (m := junk) hk
      exact ⟨hm, fun y row hout => (congrFun (congrFun hd y) row).trans (writeDisk_out hout),
        fun _ hl => absurd hl hnl⟩

end env

/-! ## What the surroundings leave alone -/

theorem Ext.refl (s : Proc B) : Ext s s :=
  ⟨rfl, rfl, rfl, fun _ _ _ hx _ => hx, fun _ _ _ => rfl⟩

theorem get_of_reqs {s t : Proc B} (h : t.reqs = s.reqs) {c : Nat} {y : ChildIo B}
    (hy : t.ios[c]? = some y) : ∃ x, s.ios[c]? = some x ∧ x.req = y.req := by
  have := reqs_at hy
  rw [h, Proc.reqs, List.getElem?_map, Option.map_eq_some_iff] at this
  exact this

theorem Ext.trans {s t u : Proc B} (h : Ext s t) (h' : Ext t u) : Ext s u := by
  refine ⟨h'.reqs.trans h.reqs, h'.bufs.trans h.bufs, h'.completions.trans h.completions,
    fun c x b hx hb => h'.done c x b (h.done c x b hx hb) hb, fun m i hout => ?_⟩
  rw [h'.mem m i ?_, h.mem m i hout]
  intro c y hy hk hp
  obtain ⟨x, hx, hreq⟩ := get_of_reqs h.reqs hy
  rw [← hreq] at hk ⊢
  refine hout c x hx hk (fun b hb => ?_)
  have := h.done c x b hx hb
  rw [hy] at this
  cases this
  exact hp b hb

theorem ext_setPhase {s t : Proc B} {c : Nat} {x : ChildIo B} {p : Phase}
    (hx : s.ios[c]? = some x) (hnd : ∀ b, x.phase ≠ .done b)
    (hios : t.ios = s.ios.set c { x with phase := p }) (hbufs : t.bufs = s.bufs)
    (hcomp : t.completions = s.completions)
    (hmem : ∀ m i, (x.req.kind ≠ .store → ¬ x.req.io.Covers m i) → t.mem m i = s.mem m i) :
    Ext s t := by
  refine ⟨by rw [Proc.reqs, hios]; exact setPhase_reqs hx, hbufs, hcomp, ?_, ?_⟩
  · intro d y b hy hb
    have hne : c ≠ d := by
      rintro rfl
      cases hx.symm.trans hy
      exact hnd b hb
    rw [hios, List.getElem?_set_ne hne, hy]
  · exact fun m i hout => hmem m i (fun hk => hout c x hx hk hnd)

theorem ext_react {ch : Children} {s t : Proc B} {e : ChildEvent B} (h : ch.react s e = some t) :
    Ext s t := by
  have hput : ∀ (x : ChildIo B) (d w : Nat → B) (m i : Nat),
      (x.req.kind ≠ .store → ¬ x.req.io.Covers m i) → (s.put x.req d w).mem m i = s.mem m i := by
    intro x d w m i hout
    by_cases hk : x.req.kind = .store
    · rw [(put_store hk).1]
    · rw [(put_read hk).1, store_out (hout hk)]
  obtain ⟨c, x, hx, ⟨hp, _, junk, rfl⟩ | ⟨hp, rfl⟩ | ⟨hp, _, junk, rfl⟩⟩ := react_cases h
  · refine ext_setPhase (p := .applied) hx (by rw [hp]; exact fun b hb => by cases hb) ?_
      (put_bufs ..) (put_completions ..) (fun m i hout => hput x _ _ m i hout)
    rw [Proc.setPhase, put_ios]
  · exact ext_setPhase hx (by rw [hp]; exact fun b hb => by cases hb) rfl rfl rfl fun _ _ _ => rfl
  · refine ext_setPhase (p := .done false) hx (by rw [hp]; exact fun b hb => by cases hb) ?_
      (put_bufs ..) (put_completions ..) (fun m i hout => hput x _ _ m i hout)
    simp only [Proc.setPhase, put_ios]

/-- The invariant of a request and what its surroundings leave alone. -/
theorem stable [XorGroup B] (E : Setting B) :
    Stable (machine E.children E.Row) (Inv E) Ext where
  refl := Ext.refl
  trans := Ext.trans
  step := by
    rintro s t h (⟨e, he⟩ | ho)
    · exact ⟨h.react he, ext_react he⟩
    · refine ⟨h.others ho, ?_⟩
      obtain ⟨D, rfl, _⟩ := ho
      exact ⟨rfl, rfl, rfl, fun _ _ _ hx _ => hx, fun _ _ _ => rfl⟩

end Ironspdk.Raid5
