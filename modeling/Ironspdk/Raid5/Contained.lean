import Ironspdk.Raid5.FlatDisk
import Ironspdk.Raid5.Inside
import Ironspdk.Raid5.OneStripe
import Ironspdk.Raid5.Stores

/-! # What a block on its disk can hold

A request changes no block that it does not cover, whatever the children do: no failure, no
buffer that is read too late and no crash in the middle of a write reaches a block beside it.
On children that never fail and read no buffer late, a block that is being written holds its
old contents or the new ones at every moment, and the new ones once the write has been
answered. -/
namespace Ironspdk.Raid5
open Ironspdk.Lib Ironspdk.Runtime

variable {B : Type}

/-- A write that is carried out, on a range that has block `b`. -/
def QueuedIo.Overwrites (dev : Raid5Bdev) (req : QueuedIo) (b : Nat) : Prop :=
  req.io.ioType = .write ∧ ¬ dev.crossesStripe req.io ∧
    ∃ j < req.io.numBlocks, b = req.io.offsetBlocks + j

theorem effect_overwrites {dev : Raid5Bdev} {req : QueuedIo} {data flat : Nat → B} {b : Nat}
    (h : req.Overwrites dev b) : req.effect dev data flat b = data (b - req.io.offsetBlocks) := by
  obtain ⟨hty, hfit, j, hj, rfl⟩ := h
  rw [QueuedIo.effect, if_pos ⟨hty, hfit⟩, overwrite, if_pos (by omega)]

theorem effect_outside {dev : Raid5Bdev} {req : QueuedIo} {data flat : Nat → B} {b : Nat}
    (h : ¬ req.Overwrites dev b) : req.effect dev data flat b = flat b := by
  unfold QueuedIo.effect
  split
  · rename_i hw
    refine overwrite_out ?_
    by_contra hin
    exact h ⟨hw.1, hw.2, b - req.io.offsetBlocks, by omega, by omega⟩
  · rfl

/-! ## Where the child writes of a device go -/

def Service.answered (b : Service B) : Bool := !b.frame.completions.isEmpty

/-- The request in service stores where it may, now and later. -/
def KeepsTo (dev : Raid5Bdev) (k : Nat) : Option (Service B) → Prop
  | none => True
  | some b => b.req.stripe dev = k ∧
      StoresOnly (ChildReq.Placed dev k b.req.io) b.answered b.prog ∧
      ∀ x ∈ b.frame.ios, x.req.kind = .store → x.req.Placed dev k b.req.io

theorem perform_stores [Add B] [Zero B] {o : Op} {s t : Proc B} {r : Res o}
    (h : perform o s = some (r, t)) {good : ChildReq → Prop} {answered : Bool}
    (ho : o.Allowed good answered) (hs : ∀ x ∈ s.ios, x.req.kind = .store → good x.req) :
    ∀ x ∈ t.ios, x.req.kind = .store → good x.req := by
  intro x hx hk
  have hmem : x.req ∈ t.reqs := List.mem_map_of_mem hx
  rw [perform_reqs h] at hmem
  rcases List.mem_append.mp hmem with hmem | hmem
  · obtain ⟨y, hy, he⟩ := List.mem_map.mp hmem
    rw [← he] at hk ⊢
    exact hs y hy hk
  · cases o with
    | submit r =>
      obtain he := List.mem_singleton.mp hmem
      rw [he] at hk ⊢
      exact ho.2 hk
    | _ => cases hmem

theorem perform_answered [Add B] [Zero B] {o : Op} {s t : Proc B} {r : Res o}
    (h : perform o s = some (r, t)) :
    (!t.completions.isEmpty) = o.answered (!s.completions.isEmpty) := by
  rw [(perform_frame h).2]
  cases o <;> simp [Op.completion, Op.answered]

theorem react_stores {ch : Children} {s t : Proc B} {e : ChildEvent B} (h : ch.react s e = some t)
    {good : ChildReq → Prop} (hs : ∀ x ∈ s.ios, x.req.kind = .store → good x.req) :
    ∀ x ∈ t.ios, x.req.kind = .store → good x.req := by
  intro x hx hk
  have hmem : x.req ∈ t.reqs := List.mem_map_of_mem hx
  rw [(ext_react h).reqs] at hmem
  obtain ⟨y, hy, he⟩ := List.mem_map.mp hmem
  rw [← he] at hk ⊢
  exact hs y hy hk

section step
variable [XorGroup B] {dev : Raid5Bdev} {ch : Children} {overflowChecks : Bool} {k : Nat}
  {s s' : Device B} {e : DevEvent B} {b b' : Option (Service B)}

theorem KeepsTo.step (h : KeepsTo dev k b)
    (hs : StripeStep dev ch overflowChecks k s s' e b b') : KeepsTo dev k b' := by
  cases hs with
  | elsewhere => exact h
  | begins hk => exact ⟨hk, stores_processReq overflowChecks hk, nofun⟩
  | performs hp =>
    obtain ⟨hk, hprog, hios⟩ := h
    refine ⟨hk, ?_, perform_stores hp hprog.next.1 hios⟩
    rw [Service.answered, perform_answered hp]
    exact hprog.next.2 _
  | child _ hr =>
    obtain ⟨hk, hprog, hios⟩ := h
    refine ⟨hk, ?_, react_stores hr hios⟩
    rw [Service.answered, (ext_react hr).completions]
    exact hprog
  | ends => trivial

/-- **One step and one block.** A step that changes a data block moves on a child I/O of a
request that overwrites it. -/
theorem KeepsTo.changes (h : KeepsTo dev k b)
    (hs : StripeStep dev ch overflowChecks k s s' e b b') {blk : Nat} (hk : dev.stripeIdx blk = k)
    (hne : dev.decode s'.disks blk ≠ dev.decode s.disks blk) :
    ∃ t ce req prog frame, e = .child t ce ∧ s.Processing dev t k req prog frame ∧
      req.Overwrites dev blk := by
  have hrow : (dev.locate blk).2 / dev.stripBlocks = k := by
    rw [← hk]
    exact row_div dev (Nat.mod_lt _ dev.strip_pos)
  cases hs with
  | elsewhere hdisks => exact absurd (hdisks _ _ hrow) hne
  | begins _ hdisks => exact absurd (congrArg (dev.decode · blk) hdisks) hne
  | performs hp hdisks =>
    rw [hdisks, (perform_frame hp).1] at hne
    exact absurd rfl hne
  | child htask hr hdisks hlog =>
    rename_i t ce req prog frame u
    obtain ⟨task, ht, hstripe, hst⟩ := htask
    obtain ⟨_, _, hios⟩ := h
    refine ⟨t, ce, req, prog, frame, rfl, ⟨task, ht, hst, hstripe⟩, ?_⟩
    by_contra hno
    refine hne ((congrArg (dev.decode · blk) hdisks).trans (react_disks hr ?_))
    intro r hr hstore hhit
    obtain ⟨x, hx, rfl⟩ := List.mem_map.mp hr
    have hplaced := hios x hx hstore
    obtain ⟨j, hj, hb, _⟩ := hplaced.hits hk hhit
    exact hno ⟨hplaced.1, hplaced.2.1, j, hj, hb⟩
  | ends hdisks => exact absurd (congrArg (dev.decode · blk) hdisks) hne

end step

/-! ## What the child writes of a device store -/

/-- A write in service leaves its own memory alone, and its child writes of strips store what
it held when the request was submitted. -/
def Carries (dev : Raid5Bdev) (k : Nat) : Option (Service B) → Prop
  | none => True
  | some b => b.req.stripe dev = k ∧ (b.req.io.ioType = .write → ¬ dev.crossesStripe b.req.io →
      Scattered.Inside b.req.io.numBlocks False b.prog (fun _ => True) ∧ 0 < b.frame.bufs ∧
      b.frame.mem 0 = b.req.mem ∧
      ∀ x ∈ b.frame.ios, Scattered.ReqFits b.req.io.numBlocks False x.req ∧
        (x.req.io.mem = 0 → ∀ j, x.data j = b.req.mem (x.req.io.start + j)))

theorem inside_processReq {dev : Raid5Bdev} (overflowChecks : Bool) {req : QueuedIo} {k : Nat}
    (hk : dev.stripeIdx req.io.offsetBlocks = k) (hty : req.io.ioType = .write)
    (hfit : ¬ dev.crossesStripe req.io) :
    Scattered.Inside req.io.numBlocks False (processReq dev overflowChecks k req)
      fun _ => True := by
  unfold processReq
  rw [if_neg hfit]
  simp only [hty]
  unfold write
  split
  · rename_i hfull
    exact Scattered.inside_writeFullStripe False dev overflowChecks _ hk hfull.1 hfull.2
  · exact Scattered.inside_writePartialStripe False dev overflowChecks _ hk hfit

/-- An operation that fits a write keeps the memory of the request. -/
theorem perform_carries [Add B] [Zero B] {num : Nat} {o : Op} {s t : Proc B} {r : Res o}
    (h : perform o s = some (r, t)) (hfit : Scattered.OpFits num False o) (hpos : 0 < s.bufs) :
    Scattered.Granted o r ∧ 0 < t.bufs ∧ t.mem 0 = s.mem 0 := by
  cases o with
  | alloc zeroed =>
    cases h
    refine ⟨hpos.ne', Nat.succ_pos _, ?_⟩
    simp only
    split
    · exact Function.update_of_ne hpos.ne _ _
    · rfl
  | xor dst start io =>
    cases h
    exact ⟨trivial, hpos, funext fun i => if_neg fun hc => hfit.1 hc.1.symm⟩
  | copy io src =>
    obtain ⟨⟨r, rfl⟩, _, hfill, _⟩ := hfit
    exact hfill.elim
  | await c =>
    simp only [Raid5.perform] at h
    split at h
    · cases h
      exact ⟨trivial, hpos, rfl⟩
    · cases h
  | panic msg => cases h
  | _ =>
    cases h
    exact ⟨trivial, hpos, rfl⟩

theorem perform_data [Add B] [Zero B] {num : Nat} {o : Op} {s t : Proc B} {r : Res o}
    {data : Nat → B} (h : perform o s = some (r, t)) (hfit : Scattered.OpFits num False o)
    (hmem : s.mem 0 = data)
    (hs : ∀ x ∈ s.ios, Scattered.ReqFits num False x.req ∧
      (x.req.io.mem = 0 → ∀ j, x.data j = data (x.req.io.start + j))) :
    ∀ x ∈ t.ios, Scattered.ReqFits num False x.req ∧
      (x.req.io.mem = 0 → ∀ j, x.data j = data (x.req.io.start + j)) := by
  cases o with
  | await c =>
    simp only [Raid5.perform] at h
    split at h
    · cases h
      exact hs
    · cases h
  | panic msg => cases h
  | submit req =>
    cases h
    intro x hx
    rcases List.mem_append.mp hx with hx | hx
    · exact hs x hx
    · obtain rfl := List.mem_singleton.mp hx
      refine ⟨hfit, fun hzero j => ?_⟩
      exact congrFun ((congrArg s.mem hzero).trans hmem) _
  | _ =>
    cases h
    exact hs

/-- A child I/O that moves on keeps the memory of a write, and what was to be stored. -/
theorem react_carries {ch : Children} {num : Nat} {s t : Proc B} {e : ChildEvent B}
    (h : ch.react s e = some t) {good : ChildIo B → Prop}
    (hgood : ∀ (x : ChildIo B) p, good x → good { x with phase := p })
    (hs : ∀ x ∈ s.ios, Scattered.ReqFits num False x.req ∧ good x) :
    t.bufs = s.bufs ∧ t.mem 0 = s.mem 0 ∧
      ∀ x ∈ t.ios, Scattered.ReqFits num False x.req ∧ good x := by
  have hput : ∀ {x : ChildIo B} {c : Nat}, s.ios[c]? = some x → ∀ d m : Nat → B,
      (s.put x.req d m).mem 0 = s.mem 0 := by
    intro x c hx d m
    by_cases hk : x.req.kind = .store
    · rw [(put_store hk).1]
    · rw [(put_read hk).1]
      funext i
      refine store_out fun hcov => ?_
      obtain ⟨hfits, hfill⟩ := (hs x (List.mem_of_getElem? hx)).1
      have hfill := hfill hk
      have hmem := hcov.1
      cases hio : x.req.io with
      | ref r =>
        rw [hio] at hfill
        exact hfill
      | buf b =>
        rw [hio] at hfits hmem
        exact hfits hmem
  have hset : ∀ {x : ChildIo B} {c : Nat} (p : Phase), s.ios[c]? = some x →
      ∀ y ∈ s.ios.set c { x with phase := p }, Scattered.ReqFits num False y.req ∧ good y := by
    intro x c p hx y hy
    rcases List.mem_or_eq_of_mem_set hy with hy | rfl
    · exact hs y hy
    · obtain ⟨hfits, hx⟩ := hs x (List.mem_of_getElem? hx)
      exact ⟨hfits, hgood x p hx⟩
  obtain ⟨c, x, hx, ⟨_, _, junk, rfl⟩ | ⟨_, rfl⟩ | ⟨_, _, junk, rfl⟩⟩ := react_cases h
  · refine ⟨put_bufs .., hput hx _ _, fun y hy => hset .applied hx y ?_⟩
    simpa only [Proc.setPhase, put_ios] using hy
  · exact ⟨rfl, rfl, hset (.done true) hx⟩
  · refine ⟨put_bufs .., hput hx _ _, fun y hy => hset (.done false) hx y ?_⟩
    simpa only [Proc.setPhase, put_ios] using hy

theorem start_mem (req : Request B) (heap : Nat → Nat → B) :
    (Frame.start req heap).mem 0 = req.mem := by
  simp [Frame.start]

section carries
variable [XorGroup B] {dev : Raid5Bdev} {ch : Children} {overflowChecks : Bool} {k : Nat}
  {s s' : Device B} {e : DevEvent B} {b b' : Option (Service B)}

theorem Carries.step (h : Carries dev k b)
    (hs : StripeStep dev ch overflowChecks k s s' e b b') : Carries dev k b' := by
  cases hs with
  | elsewhere => exact h
  | begins hk hdisks hlog =>
    rename_i req
    exact ⟨hk, fun hty hfit => ⟨inside_processReq overflowChecks hk hty hfit, Nat.one_pos,
      start_mem req _, nofun⟩⟩
  | performs hp =>
    obtain ⟨hk, h⟩ := h
    refine ⟨hk, fun hty hfit => ?_⟩
    obtain ⟨hprog, hpos, hmem, hios⟩ := h hty hfit
    obtain ⟨hgranted, hpos', hmem'⟩ := perform_carries hp hprog.1 hpos
    exact ⟨hprog.2 _ hgranted, hpos', hmem'.trans hmem, perform_data hp hprog.1 hmem hios⟩
  | child _ hr =>
    obtain ⟨hk, h⟩ := h
    refine ⟨hk, fun hty hfit => ?_⟩
    obtain ⟨hprog, hpos, hmem, hios⟩ := h hty hfit
    obtain ⟨hbufs, hmem', hios'⟩ := react_carries hr (fun _ _ hx => hx) hios
    exact ⟨hprog, hbufs ▸ hpos, hmem'.trans hmem, hios'⟩
  | ends => trivial

end carries

/-! ## Old contents or new ones -/

/-- Every data block of stripe `k` holds what the answers so far have made of it, or what the
request in service is about to. -/
def OldOrNew (dev : Raid5Bdev) (k : Nat) (flat : Nat → B) (s : Device B)
    (b : Option (Service B)) : Prop :=
  ∀ blk, dev.stripeIdx blk = k → dev.decode s.disks blk = applied dev flat s.log blk ∨
    ∃ c, b = some c ∧ c.req.Overwrites dev blk ∧
      dev.decode s.disks blk = c.req.mem (blk - c.req.io.offsetBlocks)

section crash
variable [XorGroup B] {G : Base B} {overflowChecks : Bool} {k : Nat} {s s' : Device B}
  {e : DevEvent B} {b b' : Option (Service B)}

omit [XorGroup B] in
/-- On children that never fail, a child I/O changes a data block to what a write of it
stores. -/
theorem react_stored {dev : Raid5Bdev} {io : BdevIo} {u v : Proc B} {ce : ChildEvent B}
    {data : Nat → B} (h : Children.reliable.react u ce = some v)
    (hplaced : ∀ x ∈ u.ios, x.req.kind = .store → x.req.Placed dev k io)
    (hdata : ∀ x ∈ u.ios, x.req.io.mem = 0 → ∀ j, x.data j = data (x.req.io.start + j))
    {blk : Nat} (hk : dev.stripeIdx blk = k) : dev.decode v.disks blk = dev.decode u.disks blk ∨
      ∃ j < io.numBlocks, blk = io.offsetBlocks + j ∧ dev.decode v.disks blk = data j := by
  obtain ⟨c, x, hx, ⟨_, _, junk, rfl⟩ | ⟨_, rfl⟩ | ⟨_, hfail, _⟩⟩ := react_cases h
  · have hmem := List.mem_of_getElem? hx
    by_cases hstore : x.req.kind = .store
    · by_cases hhit : x.req.Hits (dev.locate blk).1 (dev.locate blk).2
      · obtain ⟨j, hj, hb, hzero, hstart⟩ := (hplaced x hmem hstore).hits hk hhit
        refine Or.inr ⟨j, hj, hb, ?_⟩
        show (u.put x.req _ _).disks _ _ = _
        rw [(put_store hstore).2, writeDisk, if_pos hhit, ← hstart, ← hdata x hmem hzero]
        rfl
      · refine Or.inl ?_
        show (u.put x.req _ _).disks _ _ = _
        rw [(put_store hstore).2, writeDisk_out hhit]
        rfl
    · refine Or.inl ?_
      show (u.put x.req _ _).disks _ _ = _
      rw [(put_read hstore).2]
      rfl
  · exact Or.inl rfl
  · exact absurd hfail Bool.false_ne_true

/-- A write that succeeds has stored every block of it. -/
theorem stored_of_success {E : Setting B} {req : Request B} {status : IoStatus} {u : Proc B}
    (h : E.Result req.toQueuedIo req.mem status u) (hlive : E.Live) (hdead : ∀ x, ¬ E.dead x)
    (hfail : ∀ x, ¬ E.children.allow x false = true) {blk : Nat}
    (hk : E.dev.stripeIdx blk = E.stripe) (hover : req.Overwrites E.dev blk) :
    E.dev.decode u.disks blk = req.mem (blk - req.io.offsetBlocks) := by
  obtain ⟨hty, hfit, j, hj, rfl⟩ := hover
  unfold Setting.Result at h
  rw [if_neg hfit, hty] at h
  cases status with
  | failure =>
    obtain ⟨x, hx⟩ := h
    exact absurd hx.1 (hfail x)
  | success =>
    have hrows : ∀ x < E.dev.diskCount, ∀ row, row / E.dev.stripBlocks = E.stripe →
        u.disks x row = E.dev.encode
          (overwrite E.flat req.io.offsetBlocks req.io.numBlocks req.mem) x row :=
      fun x hx row hrow => h.2 hlive x hx (hdead x)
        (fun c w hw _ _ hf => by rw [h.1 c w hw ‹_›] at hf; cases hf) row hrow
    rw [decode_encode hrows hk, overwrite, if_pos (by omega)]

/-- **Old or new, one step.** -/
theorem OldOrNew.step (h : OldOrNew G.dev k G.flat s b) (hreach : Reached G s)
    (hreach' : Reached G s') (hch : G.children k = .reliable) (hknown : G.known k)
    (hdead : ∀ x, ¬ G.dead x) (hb : s.Serves G.dev k b) (hb' : s'.Serves G.dev k b')
    (hkeeps : KeepsTo G.dev k b) (hcarries : Carries G.dev k b)
    (hs : StripeStep G.dev .reliable overflowChecks k s s' e b b') :
    OldOrNew G.dev k G.flat s' b' := by
  have hidle : (∀ t req prog frame, ¬ s'.Processing G.dev t k req prog frame) →
      ∀ blk, G.dev.stripeIdx blk = k →
        G.dev.decode s'.disks blk = applied G.dev G.flat s'.log blk :=
    fun hno blk hblk => decode_encode (fun x hx row hrow =>
      hreach'.serving.idle k hno hknown x hx (hdead x) row hrow) hblk
  intro blk hblk
  cases hs with
  | elsewhere hdisks hlog hother =>
    have hrow : (G.dev.locate blk).2 / G.dev.stripBlocks = k := by
      rw [← hblk]
      exact row_div G.dev (Nat.mod_lt _ G.dev.strip_pos)
    have hlogs : applied G.dev G.flat s'.log blk = applied G.dev G.flat s.log blk := by
      rw [hlog, applied_append]
      exact applied_other hother blk hblk
    rw [hlogs, show G.dev.decode s'.disks blk = G.dev.decode s.disks blk from hdisks _ _ hrow]
    exact h blk hblk
  | begins _ hdisks hlog =>
    rw [hdisks, hlog]
    rcases h blk hblk with h | ⟨_, hnone, _⟩
    · exact Or.inl h
    · cases hnone
  | ends => exact Or.inl (hidle hb' blk hblk)
  | child htask hr hdisks hlog =>
    rename_i t ce req prog frame u
    rw [hdisks, hlog]
    obtain ⟨_, _, hplaced⟩ := hkeeps
    have hold := h blk hblk
    by_cases hw : req.io.ioType = .write ∧ ¬ G.dev.crossesStripe req.io
    · obtain ⟨_, _, _, hios⟩ := hcarries.2 hw.1 hw.2
      rcases react_stored hr hplaced (fun x hx => (hios x hx).2) hblk with hsame | ⟨j, hj, he, hnew⟩
      · rw [hsame]
        rcases hold with hold | ⟨c, hc, hover, hold⟩
        · exact Or.inl hold
        · cases hc
          exact Or.inr ⟨_, rfl, hover, hold⟩
      · refine Or.inr ⟨_, rfl, ⟨hw.1, hw.2, j, hj, he⟩, ?_⟩
        rw [hnew, he, Nat.add_sub_cancel_left]
    · -- a request that is no write has no child writes
      have hsame : G.dev.decode u.disks blk = G.dev.decode s.disks blk := by
        refine react_disks hr fun r hr' hk _ => ?_
        obtain ⟨x, hx, rfl⟩ := List.mem_map.mp hr'
        exact hw ⟨(hplaced x hx hk).1, (hplaced x hx hk).2.1⟩
      rw [hsame]
      rcases hold with hold | ⟨c, hc, hover, _⟩
      · exact Or.inl hold
      · cases hc
        exact absurd ⟨hover.1, hover.2.1⟩ hw
  | performs hp hdisks hlog =>
    rename_i t req frame o r next u
    have hsame : G.dev.decode s'.disks blk = G.dev.decode s.disks blk := by
      rw [hdisks, (perform_frame hp).1]
    by_cases ho : ∃ sender status, o = .complete sender status
    · obtain ⟨sender, status, rfl⟩ := ho
      obtain ⟨l, hq⟩ := hreach.queued
      obtain ⟨t', ht'⟩ := hb
      obtain ⟨task, ht, hst, hk'⟩ := (ht' t' _ _ _).mpr ⟨rfl, rfl⟩
      obtain ⟨_, _, _, flat, hagree, hresult⟩ := hreach.serving.completes hq ht hst
      rw [hk'] at hagree hresult
      have hlive : (G.setting k flat).Live := ⟨hknown, fun x _ hd => hdead x (hd hknown)⟩
      have hlogs : applied G.dev G.flat s'.log blk =
          req.effect G.dev req.mem (applied G.dev G.flat s.log) blk := by
        rw [hlog, applied_append]
        rfl
      refine Or.inl ?_
      rw [hsame, hlogs]
      by_cases hover : req.Overwrites G.dev blk
      · rw [effect_overwrites hover]
        refine stored_of_success (E := G.setting k flat) hresult hlive
          (fun x hd => hdead x (hd hknown)) (fun x hx => ?_) hblk hover
        have : (G.children k).allow x false = true := hx
        rw [hch] at this
        cases this
      · rw [effect_outside hover]
        rcases h blk hblk with h | ⟨c, hc, hover', _⟩
        · exact h
        · cases hc
          exact absurd hover' hover
    · have hnone : answers req frame o = [] := by
        cases o with
        | complete sender status => exact absurd ⟨sender, status, rfl⟩ ho
        | _ => rfl
      rw [hsame, hlog, hnone, List.append_nil]
      rcases h blk hblk with h | ⟨c, hc, hover, h⟩
      · exact Or.inl h
      · cases hc
        exact Or.inr ⟨_, rfl, hover, h⟩

end crash

/-! ## Runs -/

/-- **A block is changed by its own writes only.** Whatever the children do, early or late, and
however many of them fail, with at most 64 disks in a build with overflow checks: a step that
changes what a data disk holds of a block moves on a child I/O of a task that is in
`process_req` with a write of the block. -/
theorem changed_by_own_writes [XorGroup B] (dev : Raid5Bdev) (late overflowChecks : Bool)
    (hbit : overflowChecks = true → dev.diskCount ≤ 64) (disks : Nat → Nat → B)
    (es : List (DevEvent B)) (s : Device B)
    (hrun : run (Device.next dev (.any late) overflowChecks) (Device.start disks) es = some s)
    (e : DevEvent B) (s' : Device B) (hnext : s.next dev (.any late) overflowChecks e = some s')
    (b : Nat) (hne : dev.decode s'.disks b ≠ dev.decode s.disks b) :
    ∃ t ce req prog frame, e = .child t ce ∧
      s.Processing dev t (dev.stripeIdx b) req prog frame ∧ req.Overwrites dev b := by
  obtain ⟨G, rfl, hch, hok, hshift, hstart⟩ := exists_base (B := B) dev (.any late) hbit
  obtain ⟨hs, c, hc, hkeeps⟩ : Reached G s ∧ ∃ c, s.Serves G.dev (G.dev.stripeIdx b) c ∧
      KeepsTo G.dev (G.dev.stripeIdx b) c := by
    refine run_always (I := fun s => Reached G s ∧ ∃ c, s.Serves G.dev (G.dev.stripeIdx b) c ∧
      KeepsTo G.dev (G.dev.stripeIdx b) c)
      ⟨hstart disks, none, serves_start _, trivial⟩ ?_ hrun
    rintro s e s' ⟨hs, c, hc, hkeeps⟩ hn
    obtain ⟨c', hstep, hc'⟩ := hs.stripe_step hc (Device.next_step hn)
    exact ⟨hs.next hok hshift (G.admits_of hch s e) hn, c', hc', hkeeps.step hstep⟩
  obtain ⟨c', hstep, _⟩ := hs.stripe_step hc (Device.next_step hnext)
  exact hkeeps.changes hstep rfl hne

/-- A write of block 0, up to the moment before its child write is carried out. -/
def aboutToStore : List (DevEvent Byte) :=
  [.submit ⟨⟨⟨.write, 0, 1⟩, 7⟩, fun _ => ⟨5⟩⟩, .start 0, .dequeue 0 0] ++
    List.replicate 4 (.step 0) ++
    [.child 0 (.apply 0 0), .child 0 (.finish 0), .step 0, .child 0 (.apply 1 0),
      .child 0 (.finish 1)] ++ List.replicate 7 (.step 0)

theorem changed_by_own_writes_aboutToStore : ∃ s s',
    run (Device.next smallArray (.any true) true) (Device.start 0) aboutToStore = some s ∧
      s.next smallArray (.any true) true (.child 0 (.apply 2 0)) = some s' ∧
      smallArray.decode s'.disks 0 = ⟨5⟩ ∧ smallArray.decode s.disks 0 = ⟨0⟩ ∧
      ∃ t ce req prog frame, (.child 0 (.apply 2 0) : DevEvent Byte) = .child t ce ∧
        s.Processing smallArray t 0 req prog frame ∧ req.Overwrites smallArray 0 := by
  have hview : (run (Device.next smallArray (.any true) true) (Device.start 0) aboutToStore).bind
      (fun s => (s.next smallArray (.any true) true (.child 0 (.apply 2 0))).map fun s' =>
        (smallArray.decode s'.disks 0, smallArray.decode s.disks 0)) = some (⟨5⟩, ⟨0⟩) := by
    decide
  obtain ⟨s, hs, hview⟩ := Option.bind_eq_some_iff.mp hview
  obtain ⟨s', hs', hl⟩ := Option.map_eq_some_iff.mp hview
  have hnew : smallArray.decode s'.disks 0 = ⟨5⟩ := congrArg Prod.fst hl
  have hold : smallArray.decode s.disks 0 = ⟨0⟩ := congrArg Prod.snd hl
  refine ⟨s, s', hs, hs', hnew, hold, changed_by_own_writes smallArray true true
    (fun _ => by decide) 0 aboutToStore s hs _ s' hs' 0 ?_⟩
  rw [hnew, hold]
  decide

/-- **Old contents or new ones, at any moment.** On children that never fail and that store what
the buffer of a write held when it was submitted, a stripe that was consistent at the start: in
every state of every run each of its blocks holds, on its data disk, what the writes answered so
far have left there, or else the data of a write in progress that covers it. So a crash tears
no block, loses no acknowledged write and touches nothing else. -/
theorem old_or_new [XorGroup B] (dev : Raid5Bdev) (overflowChecks : Bool) (disks : Nat → Nat → B)
    (k : Nat) (hpar : ∀ row, row / dev.stripBlocks = k →
      ∑ x ∈ Finset.range dev.diskCount, disks x row = 0)
    (es : List (DevEvent B)) (s : Device B)
    (hrun : run (Device.next dev .reliable overflowChecks) (Device.start disks) es = some s)
    (b : Nat) (hb : dev.stripeIdx b = k) :
    dev.decode s.disks b = applied dev (dev.decode disks) s.log b ∨
      ∃ t req prog frame, s.Processing dev t k req prog frame ∧ req.Overwrites dev b ∧
        dev.decode s.disks b = req.mem (b - req.io.offsetBlocks) := by
  obtain ⟨G, rfl, hch, hflat, hknown, hdead⟩ : ∃ G : Base B, dev = G.dev ∧
      (∀ k, G.children k = .reliable) ∧ dev.decode disks = G.flat ∧
      (∀ k', G.known k' ↔ k' = k) ∧ ∀ x, ¬ G.dead x :=
    ⟨⟨dev, fun _ => .reliable, (· = k), fun _ => False, dev.decode disks⟩, rfl, fun _ => rfl, rfl,
      fun _ => Iff.rfl, fun _ => id⟩
  have hok : G.Ok := fun k _ => trusted_of_reliable (hch k) hdead
  have hshift := shiftOk_of_reliable hch overflowChecks
  have hinit : ∀ k', G.Holds k' G.flat disks := by
    intro k' hk' x hx _ row hrow
    obtain rfl := (hknown k').mp hk'
    rw [← hflat]
    exact encode_decode hpar hx hrow
  rw [hflat]
  obtain ⟨_, c, hc, _, _, hold⟩ : Reached G s ∧ ∃ c, s.Serves G.dev k c ∧ KeepsTo G.dev k c ∧
      Carries G.dev k c ∧ OldOrNew G.dev k G.flat s c := by
    refine run_always (I := fun s => Reached G s ∧ ∃ c, s.Serves G.dev k c ∧ KeepsTo G.dev k c ∧
      Carries G.dev k c ∧ OldOrNew G.dev k G.flat s c)
      ⟨reached_start hinit, none, serves_start _, trivial, trivial,
        fun blk _ => Or.inl (congrFun hflat blk)⟩ ?_ hrun
    rintro s e s' ⟨hs, c, hc, hkeeps, hcarries, hold⟩ hn
    obtain ⟨c', hstep, hc'⟩ := hs.stripe_step hc (Device.next_step hn)
    have hs' := hs.next hok hshift (G.admits_of hch s e) hn
    exact ⟨hs', c', hc', hkeeps.step hstep, hcarries.step hstep,
      hold.step hs hs' (hch k) ((hknown k).mpr rfl) hdead hc hc' hkeeps hcarries hstep⟩
  rcases hold b hb with hold | ⟨c, rfl, hover, hnew⟩
  · exact Or.inl hold
  · obtain ⟨t, ht⟩ := hc
    exact Or.inr ⟨t, c.req, c.prog, c.frame, (ht _ _ _ _).mpr ⟨rfl, rfl⟩, hover, hnew⟩

theorem old_or_new_aboutToStore :
    ∃ s, run (Device.next smallArray .reliable true) (Device.start 0)
        (aboutToStore ++ [.child 0 (.apply 2 0)]) = some s ∧
      smallArray.decode s.disks 0 = ⟨5⟩ ∧ s.log.length = 0 ∧
      (smallArray.decode s.disks 0 = applied smallArray (smallArray.decode 0) s.log 0 ∨
        ∃ t req prog frame, s.Processing smallArray t 0 req prog frame ∧
          req.Overwrites smallArray 0 ∧
          smallArray.decode s.disks 0 = req.mem (0 - req.io.offsetBlocks)) := by
  have hview : (run (Device.next smallArray .reliable true) (Device.start 0)
      (aboutToStore ++ [.child 0 (.apply 2 0)])).map
      (fun s => (smallArray.decode s.disks 0, s.log.length)) = some (⟨5⟩, 0) := by decide
  obtain ⟨s, hs, hl⟩ := Option.map_eq_some_iff.mp hview
  exact ⟨s, hs, congrArg Prod.fst hl, congrArg Prod.snd hl, old_or_new smallArray true 0 0
    (fun _ _ => by simp) _ s hs 0 rfl⟩

end Ironspdk.Raid5
