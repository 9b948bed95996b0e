import Ironspdk.Raid5.Invariant

/-! # Rules for the programs of a request

The contract of `process_req` and one rule for each operation and each loop it is made
of. Every rule starts from a state that satisfies the invariant and hands one on, with
what the operation has changed since. -/
namespace Ironspdk.Raid5
open Ironspdk.Lib Ironspdk.Runtime

variable {B : Type} {α β γ : Type}

/-- If the read of `reconstruct` awaited now has failed, none of them is still out. -/
def PromptAt (s : Proc B) (c : Nat) : Prop :=
  ∀ x, s.ios[c]? = some x → x.req.kind = .rebuild → x.phase = .done false →
    ∀ (d : Nat) (y : ChildIo B), s.ios[d]? = some y → y.req.kind = .rebuild →
      ∃ b, y.phase = .done b

/-- A buffer that a late child may still read is dropped only once the write has ended; on
prompt schedules, what a read uses, and any context, once all child I/Os have. -/
def DropOk (E : Setting B) (s : Proc B) : Resource → Prop
  | .io c => ∃ x, s.ios[c]? = some x ∧
      (x.req.kind = .store → E.held → E.children.late = true → ∃ b, x.phase = .done b) ∧
      (x.req.kind ≠ .store → E.prompt → s.AllDone)
  | .ctx c => ∃ x, s.ios[c]? = some x ∧ (E.prompt → s.AllDone)

/-- What `process_req` may assume of its schedule and has to ensure: child I/Os stay in the
stripe, only what was submitted is awaited, nothing panics unless the setting lets it, and
the request is completed once, on `sender`, with `result`; on prompt schedules, when all
its child I/Os have ended. -/
def Setting.contract (E : Setting B) (sender : SpdkThread) (result : IoStatus → Proc B → Prop) :
    Contract (Proc B) Op where
  assume o s := match o with
    | .await c => E.prompt → PromptAt s c
    | _ => True
  ensure o s := match o with
    | .submit r => r.disk < E.dev.diskCount ∧ ∀ j < r.io.numBlocks, E.Row (r.io.offsetBlocks + j)
    | .await c => c < s.ios.length
    | .drop r => DropOk E s r
    | .complete who st => who = sender ∧ s.completions = [] ∧ result st s ∧ (E.prompt → s.AllDone)
    | .panic _ => E.mayAbort
    | _ => True

/-- Under `E`, the program keeps the contract and ends in `Q`. -/
abbrev Setting.wp [XorGroup B] (E : Setting B) (sender : SpdkThread)
    (result : IoStatus → Proc B → Prop) (p : Task α) (Q : α → Proc B → Prop) (s : Proc B) : Prop :=
  Lib.wp (machine E.children E.Row) (E.contract sender result) p Q s

/-! ## How far a program has come -/

/-- The cell is in the window of a read that is still on its way. -/
def Proc.Moving (s : Proc B) (m i : Nat) : Prop :=
  ∃ (c : Nat) (x : ChildIo B), s.ios[c]? = some x ∧ x.req.kind ≠ .store ∧
    (∀ b, x.phase ≠ .done b) ∧ x.req.io.Covers m i

/-- Between two moments of a program that does not compute in memory: only reads that
were on their way, or have been submitted since, change it. -/
structure Adv (s t : Proc B) : Prop where
  reqs : s.reqs <+: t.reqs
  bufs : s.bufs ≤ t.bufs
  completions : t.completions = s.completions
  done : ∀ c b, s.Done c b → t.Done c b
  mem : ∀ m < s.bufs, ∀ i, ¬ s.Moving m i →
    (∀ (c : Nat) (r : ChildReq), s.reqs.length ≤ c → t.reqs[c]? = some r → r.kind ≠ .store →
      ¬ r.io.Covers m i) → t.mem m i = s.mem m i

theorem Ext.done' {s t : Proc B} (h : Ext s t) {c : Nat} {b : Bool} (hd : s.Done c b) :
    t.Done c b := by
  obtain ⟨x, hx, hb⟩ := hd
  exact ⟨x, h.done c x b hx hb, hb⟩

theorem Ext.adv {s t : Proc B} (h : Ext s t) : Adv s t := by
  refine ⟨by rw [h.reqs], h.bufs.ge, h.completions, fun c b => h.done', fun m _ i hout _ => ?_⟩
  exact h.mem m i (fun c x hx hk hp hcov => hout ⟨c, x, hx, hk, hp, hcov⟩)

theorem Adv.refl (s : Proc B) : Adv s s := (Ext.refl s).adv

theorem Adv.trans {s t u : Proc B} (h : Adv s t) (h' : Adv t u) : Adv s u := by
  refine ⟨h.reqs.trans h'.reqs, h.bufs.trans h'.bufs, h'.completions.trans h.completions,
    fun c b hd => h'.done c b (h.done c b hd), fun m hm i hout hnew => ?_⟩
  have hstays : ∀ {c : Nat} {r : ChildReq}, t.reqs[c]? = some r → u.reqs[c]? = some r := by
    intro c r hr
    obtain ⟨rs, hrs⟩ := h'.reqs
    rw [← hrs, List.getElem?_append_left (List.getElem?_eq_some_iff.mp hr).1, hr]
  have hnewt : ∀ (c : Nat) (r : ChildReq), s.reqs.length ≤ c → t.reqs[c]? = some r →
      r.kind ≠ .store → ¬ r.io.Covers m i := fun c r hc hr => hnew c r hc (hstays hr)
  rw [h'.mem m (hm.trans_le h.bufs) i ?_ ?_]
  · exact h.mem m hm i hout hnewt
  · rintro ⟨c, y, hy, hk, hp, hcov⟩
    -- a read on its way is an old one that was so before, or a new one
    by_cases hc : s.reqs.length ≤ c
    · exact hnewt c y.req hc (reqs_at hy) hk hcov
    · obtain ⟨rs, hrs⟩ := h.reqs
      have hat := reqs_at hy
      rw [← hrs, List.getElem?_append_left (Nat.lt_of_not_le hc), Proc.reqs, List.getElem?_map,
        Option.map_eq_some_iff] at hat
      obtain ⟨x, hx, hreq⟩ := hat
      refine hout ⟨c, x, hx, hreq ▸ hk, fun b hb => ?_, hreq ▸ hcov⟩
      obtain ⟨z, hz, hzb⟩ := h.done c b ⟨x, hx, hb⟩
      cases hy.symm.trans hz
      exact hp b hzb
  · exact fun c r hc hr => hnew c r (h.reqs.length_le.trans hc) hr

theorem length_reqs (s : Proc B) : s.reqs.length = s.ios.length := List.length_map ..

theorem Proc.AllDone.of_done {s t : Proc B} (hs : s.AllDone) (hr : t.reqs = s.reqs)
    (hd : ∀ c b, s.Done c b → t.Done c b) : t.AllDone := by
  intro c hc
  rw [← length_reqs, hr, length_reqs] at hc
  obtain ⟨b, hb⟩ := hs c hc
  exact ⟨b, hd c b hb⟩

theorem Proc.AllDone.adv {s t : Proc B} (hs : s.AllDone) (h : Adv s t) (hr : t.reqs = s.reqs) :
    t.AllDone :=
  hs.of_done hr h.done

theorem Proc.AllDone.at {s : Proc B} (hs : s.AllDone) {c : Nat} {x : ChildIo B}
    (hx : s.ios[c]? = some x) : ∃ b, x.phase = .done b := by
  obtain ⟨hc, _⟩ := List.getElem?_eq_some_iff.mp hx
  obtain ⟨b, y, hy, hb⟩ := hs c hc
  cases hx.symm.trans hy
  exact ⟨b, hb⟩

/-- Nothing in the memory of a request moves while none of its child I/Os is out. -/
theorem Ext.same {s t : Proc B} (h : Ext s t) (hs : s.AllDone) : t.ios = s.ios ∧ t.mem = s.mem := by
  refine ⟨List.ext_getElem? fun c => ?_, funext fun m => funext fun i => ?_⟩
  · cases hx : s.ios[c]? with
    | some x =>
      obtain ⟨b, hb⟩ := hs.at hx
      exact h.done c x b hx hb
    | none =>
      rw [List.getElem?_eq_none_iff, ← length_reqs, h.reqs, length_reqs]
      exact List.getElem?_eq_none_iff.mp hx
  · refine h.mem m i (fun c x hx _ hp => ?_)
    obtain ⟨b, hb⟩ := hs.at hx
    exact absurd hb (hp b)

theorem append_get {l : List β} {x y : β} {d : Nat} (h : (l ++ [x])[d]? = some y) :
    l[d]? = some y ∨ (d = l.length ∧ y = x) := by
  rw [List.getElem?_append] at h
  split at h
  · exact Or.inl h
  · rw [List.getElem?_singleton] at h
    split at h
    · exact Or.inr ⟨by omega, (Option.some.inj h).symm⟩
    · cases h

/-! ## Side conditions -/

/-- The reads of a request come before its writes. -/
def InOrder (s : Proc B) (r : ChildReq) : Prop :=
  (r.kind = .store → ∀ (c : Nat) (x : ChildIo B), s.ios[c]? = some x → x.req.kind ≠ .store →
    ∃ b, x.phase = .done b) ∧
  (r.kind ≠ .store → ∀ r' ∈ s.reqs, r'.kind ≠ .store)

theorem InOrder.ext {s t : Proc B} {r : ChildReq} (ho : InOrder s r) (h : Ext s t) :
    InOrder t r := by
  refine ⟨fun hk c y hy hyk => ?_, fun hk => h.reqs ▸ ho.2 hk⟩
  obtain ⟨x, hx, hreq⟩ := get_of_reqs h.reqs hy
  obtain ⟨b, hb⟩ := ho.1 hk c x hx (hreq ▸ hyk)
  have := h.done c x b hx hb
  cases this.symm.trans hy
  exact ⟨b, hb⟩

theorem ReqsOk.mono {E : Setting B} {bufs : Nat} {rs rs' : List ChildReq} (h : ReqsOk E bufs rs)
    (hp : rs' <+: rs) : ReqsOk E bufs rs' :=
  ⟨fun r hr => h.disk r (hp.subset hr), fun r hr => h.rows r (hp.subset hr),
    fun r hr => h.owned r (hp.subset hr), h.apart.sublist hp.sublist, h.distinct.sublist hp.sublist⟩

/-- What a computation in buffer `dst` leaves alone. -/
structure Calc (dst : Nat) (s t : Proc B) : Prop where
  ios : t.ios = s.ios
  bufs : t.bufs = s.bufs
  completions : t.completions = s.completions
  mem : ∀ m, m ≠ dst → t.mem m = s.mem m

theorem Calc.refl (dst : Nat) (s : Proc B) : Calc dst s s := ⟨rfl, rfl, rfl, fun _ _ => rfl⟩

theorem Calc.trans {dst : Nat} {s t u : Proc B} (h : Calc dst s t) (h' : Calc dst t u) :
    Calc dst s u :=
  ⟨h'.ios.trans h.ios, h'.bufs.trans h.bufs, h'.completions.trans h.completions,
    fun m hm => (h'.mem m hm).trans (h.mem m hm)⟩

theorem Calc.allDone {dst : Nat} {s t : Proc B} (h : Calc dst s t) (hs : s.AllDone) :
    t.AllDone := by
  intro c hc
  rw [h.ios] at hc
  obtain ⟨b, x, hx, hb⟩ := hs c hc
  exact ⟨b, x, h.ios ▸ hx, hb⟩

theorem Calc.reqs {dst : Nat} {s t : Proc B} (h : Calc dst s t) : t.reqs = s.reqs := by
  rw [Proc.reqs, h.ios, Proc.reqs]

section rules
variable [XorGroup B] {E : Setting B} {sender : SpdkThread} {result : IoStatus → Proc B → Prop}
  {Q : α → Proc B → Prop} {s : Proc B}

/-! ## Buffers -/

theorem Inv.alloc (h : Inv E s) {mem : Nat → Nat → B} (hm : ∀ m < s.bufs, mem m = s.mem m) :
    Inv E { s with bufs := s.bufs + 1, mem := mem } := by
  have hload : ∀ {c : Nat} {x : ChildIo B}, s.ios[c]? = some x → ∀ j,
      load x.req.io mem j = load x.req.io s.mem j := by
    intro c x hx j
    rw [load, hm _ (h.reqs.owned _ (reqs_mem hx)), load]
  refine ⟨⟨h.reqs.disk, h.reqs.rows, fun r hr => Nat.lt_succ_of_lt (h.reqs.owned r hr),
    h.reqs.apart, h.reqs.distinct⟩, h.permitted, ?_, h.quiet, ?_, h.kept, h.stored, h.held, h.past⟩
  · intro c x hx hk hl hd j hj
    exact (hload hx j).trans (h.landed c x hx hk hl hd j hj)
  · intro c x hx hk j hj
    exact (h.shown c x hx hk j hj).trans (hload hx j).symm

theorem wp_alloc {zeroed : Bool} {k : Nat → Task α} (h : Inv E s)
    (hk : ∀ t, Inv E t → Adv s t → t.reqs = s.reqs → t.bufs = s.bufs + 1 →
      (zeroed = true → ∀ i, t.mem s.bufs i = 0) → E.wp sender result (k s.bufs) Q t) :
    E.wp sender result (Prog.perform (.alloc zeroed) >>= k) Q s := by
  refine (stable E).wp_op h fun t ht hext _ => ⟨trivial, ?_⟩
  rintro r u hp
  cases hp
  have hm : ∀ m < t.bufs, (if zeroed = true then Function.update t.mem t.bufs 0 else t.mem) m =
      t.mem m := by
    intro m hlt
    split
    · rw [Function.update_of_ne (Nat.ne_of_lt hlt)]
    · rfl
  have hadv := hext.adv
  rw [show k t.bufs = k s.bufs by rw [hext.bufs]]
  refine hk _ (ht.alloc hm) ⟨hadv.reqs, ?_, hadv.completions, hadv.done, ?_⟩ hext.reqs ?_ ?_
  · exact hadv.bufs.trans (Nat.le_succ _)
  · intro m hlt i hout hnew
    exact (congrFun (hm m (hlt.trans_le hadv.bufs)) i).trans (hadv.mem m hlt i hout hnew)
  · exact congrArg (· + 1) hext.bufs
  · rintro rfl i
    rw [if_pos rfl, hext.bufs]
    simp

theorem wp_new {blocks : Nat} {k : DmaBuf → Task α} (h : Inv E s)
    (hk : ∀ t, Inv E t → Adv s t → t.reqs = s.reqs → t.bufs = s.bufs + 1 →
      E.wp sender result (k ⟨s.bufs, blocks⟩) Q t) :
    E.wp sender result (DmaBuf.new blocks >>= k) Q s :=
  wp_alloc h fun t ht hadv hr hb _ => hk t ht hadv hr hb

theorem wp_newZeroed {blocks : Nat} {k : DmaBuf → Task α} (h : Inv E s)
    (hk : ∀ t, Inv E t → Adv s t → t.reqs = s.reqs → t.bufs = s.bufs + 1 →
      (∀ i, t.mem s.bufs i = 0) → E.wp sender result (k ⟨s.bufs, blocks⟩) Q t) :
    E.wp sender result (DmaBuf.newZeroed blocks >>= k) Q s :=
  wp_alloc h fun t ht hadv hr hb hz => hk t ht hadv hr hb (hz rfl)

/-- Buffers of the given sizes, numbered from `b` on. -/
def numbered : Nat → List Nat → List DmaBuf
  | _, [] => []
  | b, n :: ns => ⟨b, n⟩ :: numbered (b + 1) ns

theorem length_numbered (b : Nat) (ns : List Nat) : (numbered b ns).length = ns.length := by
  induction ns generalizing b with
  | nil => rfl
  | cons n ns ih => rw [numbered, List.length_cons, ih, List.length_cons]

theorem numbered_get {b i : Nat} {ns : List Nat} {x : DmaBuf} (h : (numbered b ns)[i]? = some x) :
    x.id = b + i ∧ ns[i]? = some x.blocks := by
  induction ns generalizing b i with
  | nil => cases h
  | cons n ns ih =>
    cases i with
    | zero =>
      cases h
      exact ⟨rfl, rfl⟩
    | succ i =>
      obtain ⟨hid, hn⟩ := ih (b := b + 1) (i := i) h
      exact ⟨by omega, hn⟩

theorem wp_newBufs {sizes : List Nat} {k : List DmaBuf → Task α} (h : Inv E s)
    (hk : ∀ t, Inv E t → Adv s t → t.reqs = s.reqs → t.bufs = s.bufs + sizes.length →
      E.wp sender result (k (numbered s.bufs sizes)) Q t) :
    E.wp sender result (newBufs sizes >>= k) Q s := by
  induction sizes generalizing s k with
  | nil => exact hk s h (Adv.refl s) rfl rfl
  | cons n ns ih =>
    rw [newBufs, Prog.bind_assoc']
    refine wp_new h fun t ht hadv hr hb => ?_
    rw [Prog.bind_assoc']
    refine ih ht fun u hu hadv' hr' hb' => ?_
    rw [hb] at hb' ⊢
    exact hk u hu (hadv.trans hadv') (hr'.trans hr) (by rw [hb', List.length_cons]; omega)

/-! ## Submitting and awaiting -/

theorem Inv.submit (h : Inv E s) {r : ChildReq} (hr : ReqsOk E s.bufs (s.reqs ++ [r]))
    (ho : InOrder s r) (trace : List TraceEvent)
    (htr : ∀ x, .drop x ∈ trace → .drop x ∈ s.trace) :
    Inv E { s with ios := s.ios ++ [⟨r, load r.io s.mem, .inFlight⟩], trace := trace } := by
  have hnl : ¬ Phase.Landed .inFlight := by rintro (hl | hl) <;> cases hl
  refine ⟨?_, ?_, ?_, ?_, ?_, ?_, ?_, ?_, ?_⟩
  · simpa [Proc.reqs] using hr
  · intro c x hx
    rcases append_get hx with hx | ⟨_, rfl⟩
    · exact h.permitted c x hx
    · exact ⟨fun hl => absurd hl hnl, fun hf => by cases hf⟩
  · intro c x hx hk hl hd j hj
    rcases append_get hx with hx | ⟨_, rfl⟩
    · exact h.landed c x hx hk hl hd j hj
    · exact absurd hl hnl
  · intro c x d y hx hy hxk hyk
    rcases append_get hy with hy | ⟨_, rfl⟩
    · rcases append_get hx with hx | ⟨_, rfl⟩
      · exact h.quiet c x d y hx hy hxk hyk
      · exact ho.1 hxk d y hy hyk
    · rcases append_get hx with hx | ⟨_, rfl⟩
      · exact absurd hxk (ho.2 hyk x.req (reqs_mem hx))
      · exact absurd hxk hyk
  · intro c x hx hk j hj
    rcases append_get hx with hx | ⟨_, rfl⟩
    · exact h.shown c x hx hk j hj
    · rfl
  · intro x hx hd row hrow hnone
    refine h.kept x hx hd row hrow fun c w hw => hnone c w ?_
    have hlt := (List.getElem?_eq_some_iff.mp hw).1
    exact (List.getElem?_append_left hlt).trans hw
  · intro he c w hw hk hl j hj
    rcases append_get hw with hw | ⟨_, rfl⟩
    · exact h.stored he c w hw hk hl j hj
    · exact absurd hl hnl
  · intro he hlate c w hw hk hf hdrop
    rcases append_get hw with hw | ⟨rfl, _⟩
    · exact h.held he hlate c w hw hk hf (htr _ hdrop)
    · exact absurd (h.past _ (htr _ hdrop)) (Nat.lt_irrefl _)
  · intro c hdrop
    exact (h.past c (htr _ hdrop)).trans_le (by simp)

theorem wp_submit {r : ChildReq} {k : Nat → Task α} (h : Inv E s)
    (hr : ReqsOk E s.bufs (s.reqs ++ [r])) (ho : InOrder s r)
    (hk : ∀ t, Inv E t → Adv s t → t.reqs = s.reqs ++ [r] → t.bufs = s.bufs →
      E.wp sender result (k s.ios.length) Q t) :
    E.wp sender result (Prog.perform (.submit r) >>= k) Q s := by
  refine (stable E).wp_op h fun t ht hext _ => ⟨?_, ?_⟩
  · have hm : r ∈ s.reqs ++ [r] := by simp
    exact ⟨hr.disk r hm, hr.rows r hm⟩
  · rintro c u hp
    cases hp
    have hlen : t.ios.length = s.ios.length := by rw [← length_reqs, hext.reqs, length_reqs]
    have hadv := hext.adv
    have hreqs : Proc.reqs { t with ios := t.ios ++ [⟨r, load r.io t.mem, .inFlight⟩]
                                    trace := t.trace ++ [.submit t.ios.length] } =
        t.reqs ++ [r] := by simp [Proc.reqs]
    rw [show k t.ios.length = k s.ios.length by rw [hlen]]
    refine hk _ (ht.submit (by rw [hext.bufs, hext.reqs]; exact hr) (ho.ext hext) _ (by simp))
      ⟨?_, hadv.bufs, hadv.completions, fun c b hd => ?_, ?_⟩ ?_ hext.bufs
    · rw [hreqs, hext.reqs]
      exact List.prefix_append ..
    · obtain ⟨x, hx, hb⟩ := hadv.done c b hd
      exact ⟨x, (List.getElem?_append_left (List.getElem?_eq_some_iff.mp hx).1).trans hx, hb⟩
    · intro m hlt i hout hnew
      refine hadv.mem m hlt i hout (fun c r' hc hr' => hnew c r' hc ?_)
      rw [hreqs, List.getElem?_append_left (List.getElem?_eq_some_iff.mp hr').1, hr']
    · rw [hreqs, hext.reqs]

/-- A batch of reads, or a batch of writes. -/
theorem wp_submitAll {rs : List ChildReq} {k : List Nat → Task α} (h : Inv E s)
    (hr : ReqsOk E s.bufs (s.reqs ++ rs)) (ho : ∀ r ∈ rs, InOrder s r)
    (hsame : (∀ r ∈ rs, r.kind = .store) ∨ ∀ r ∈ rs, r.kind ≠ .store)
    (hk : ∀ t, Inv E t → Adv s t → t.reqs = s.reqs ++ rs → t.bufs = s.bufs →
      E.wp sender result (k (List.range' s.ios.length rs.length)) Q t) :
    E.wp sender result (submitAll rs >>= k) Q s := by
  induction rs generalizing s k with
  | nil => exact hk s h (Adv.refl s) (by simp) rfl
  | cons r rs ih =>
    rw [submitAll, Prog.bind_assoc']
    have hpre : s.reqs ++ [r] <+: s.reqs ++ r :: rs := ⟨rs, by simp⟩
    refine wp_submit h (hr.mono hpre) (ho r (by simp)) fun t ht hadv htr htb => ?_
    have hlen : t.ios.length = s.ios.length + 1 := by
      rw [← length_reqs, htr, List.length_append, length_reqs, List.length_singleton]
    rw [Prog.bind_assoc']
    refine ih ht ?_ ?_ ?_ fun u hu hadv' hur hub => ?_
    · rw [htb, htr, List.append_assoc]
      exact hr
    · -- the one just submitted is of the same kind, so the order is kept
      intro r' hr'
      have hin := ho r' (by simp [hr'])
      refine ⟨fun hk' c y hy hyk => ?_, fun hk' r'' hr'' => ?_⟩
      · have hmem := reqs_mem hy
        have hat := reqs_at hy
        rw [htr] at hat
        rcases append_get hat with hat | ⟨_, heq⟩
        · rw [Proc.reqs, List.getElem?_map, Option.map_eq_some_iff] at hat
          obtain ⟨x, hx, hreq⟩ := hat
          obtain ⟨b, hb⟩ := hin.1 hk' c x hx (hreq ▸ hyk)
          obtain ⟨z, hz, hzb⟩ := hadv.done c b ⟨x, hx, hb⟩
          cases hy.symm.trans hz
          exact ⟨b, hzb⟩
        · rcases hsame with hs | hs
          · exact absurd (heq ▸ hs r (by simp)) hyk
          · exact absurd hk' (hs r' (by simp [hr']))
      · rw [htr, List.mem_append, List.mem_singleton] at hr''
        rcases hr'' with hr'' | rfl
        · exact hin.2 hk' r'' hr''
        · rcases hsame with hs | hs
          · exact absurd (hs r' (by simp [hr'])) hk'
          · exact hs _ (by simp)
    · exact hsame.imp (fun hs r' hr' => hs r' (by simp [hr']))
        (fun hs r' hr' => hs r' (by simp [hr']))
    · rw [hlen]
      exact hk u hu (hadv.trans hadv') (by rw [hur, htr, List.append_assoc]; rfl) (hub.trans htb)

theorem wp_await {c : Nat} {k : Bool → Task α} (h : Inv E s) (hc : c < s.ios.length)
    (hk : ∀ t b, Inv E t → Ext s t → t.Done c b → (E.prompt → PromptAt t c) →
      E.wp sender result (k b) Q t) :
    E.wp sender result (Prog.perform (.await c) >>= k) Q s := by
  refine (stable E).wp_op h fun t ht hext ha => ⟨?_, ?_⟩
  · show c < t.ios.length
    rwa [← length_reqs, hext.reqs, length_reqs]
  rintro b u hp
  simp only [machine, perform] at hp
  split at hp
  · rename_i x hx
    cases hp
    exact hk _ _ ht hext ⟨_, hx, rfl⟩ ha
  · cases hp

omit [XorGroup B] in
theorem panic_bind {msg : String} (k : β → Task α) : (panic msg >>= k) = panic msg := by
  rw [panic, Prog.op_bind]
  exact congrArg (Prog.op (Op.panic msg)) (funext fun r : Empty => r.elim)

theorem wp_panic {msg : String} (h : E.mayAbort) : E.wp sender result (panic msg) Q s :=
  fun _ _ _ => ⟨h, fun r : Empty => r.elim⟩

/-- A loop of awaits whose body only counts: every future has ended, and the counter is
what the statuses make of it. -/
theorem wp_awaitEach {step : β → γ → Bool → Task β} {g : β → γ → Bool → β} {futs : List (γ × Nat)}
    {b : β} {k : β → Task α} (h : Inv E s) (hfuts : ∀ f ∈ futs, f.2 < s.ios.length)
    (hstep : ∀ f ∈ futs, ∀ b ok, ok = true ∨ s.reqs[f.2]?.all (fun r =>
      E.children.allow r.disk false) →
        step b f.1 ok = pure (g b f.1 ok) ∨ E.mayAbort ∧ ∃ msg, step b f.1 ok = panic msg)
    (hk : ∀ t oks, Inv E t → Ext s t → oks.length = futs.length →
      (∀ (i : Nat) (f : γ × Nat) (ok : Bool), futs[i]? = some f → oks[i]? = some ok →
        t.Done f.2 ok) →
      E.wp sender result (k ((futs.zip oks).foldl (fun b f => g b f.1.1 f.2) b)) Q t) :
    E.wp sender result (awaitEach step futs b >>= k) Q s := by
  induction futs generalizing s b with
  | nil => exact hk s [] h (Ext.refl s) rfl (by simp)
  | cons f futs ih =>
    obtain ⟨x, c⟩ := f
    rw [awaitEach, Prog.bind_assoc']
    refine wp_await h (hfuts (x, c) (by simp)) fun t ok ht hext hd _ => ?_
    obtain ⟨y, hy, hyp⟩ := hd
    have hmay : ok = true ∨ s.reqs[c]?.all (fun r => E.children.allow r.disk false) := by
      cases ok with
      | true => exact Or.inl rfl
      | false =>
        right
        rw [← hext.reqs, reqs_at hy]
        exact (ht.permitted c y hy).2 hyp
    rcases hstep (x, c) (by simp) b ok hmay with hpure | ⟨habort, msg, hpanic⟩
    rotate_left
    · rw [hpanic, panic_bind, panic_bind]
      exact wp_panic habort
    rw [hpure, Prog.pure_bind']
    refine ih ht ?_ ?_ fun u oks hu hext' hlen hdone => ?_
    · rw [← length_reqs, hext.reqs, length_reqs]
      exact fun f hf => hfuts f (by simp [hf])
    · rw [hext.reqs]
      exact fun f hf => hstep f (by simp [hf])
    · refine hk u (ok :: oks) hu (hext.trans hext') (by simp [hlen]) ?_
      intro i f ok' hf hok
      cases i with
      | zero =>
        cases hf
        cases hok
        exact hext'.done' ⟨y, hy, hyp⟩
      | succ i => exact hdone i f ok' hf hok

/-! ## Computing in memory -/

theorem Inv.calc (h : Inv E s) {mem : Nat → Nat → B}
    (hm : ∀ (c : Nat) (x : ChildIo B), s.ios[c]? = some x →
      (x.req.kind = .store ∨ x.phase.Landed) → ∀ j < x.req.io.numBlocks,
        load x.req.io mem j = load x.req.io s.mem j) : Inv E { s with mem := mem } := by
  refine ⟨h.reqs, h.permitted, ?_, h.quiet, ?_, h.kept, h.stored, h.held, h.past⟩
  · intro c x hx hk hl hd j hj
    exact (hm c x hx (Or.inr hl) j hj).trans (h.landed c x hx hk hl hd j hj)
  · intro c x hx hk j hj
    exact (h.shown c x hx hk j hj).trans (hm c x hx (Or.inl hk) j hj).symm

theorem wp_xor {dst : DmaBuf} {start len : Nat} {io : Io} {k : Unit → Task α} (h : Inv E s)
    (hs : s.AllDone) (hdst : ∀ r ∈ s.reqs, r.io.mem ≠ dst.id) (hin : start + len ≤ dst.blocks)
    (hlen : io.numBlocks = len)
    (hk : ∀ t, Inv E t → Calc dst.id s t →
      (∀ i, t.mem dst.id i = if start ≤ i ∧ i < start + len then
        s.mem dst.id i + load io s.mem (i - start) else s.mem dst.id i) →
      E.wp sender result (k ()) Q t) :
    E.wp sender result (xor dst start len io >>= k) Q s := by
  rw [xor, if_pos ⟨hin, hlen⟩]
  refine (stable E).wp_op h fun t ht hext _ => ⟨trivial, ?_⟩
  rintro r u hp
  cases hp
  obtain ⟨hios, hmem⟩ := hext.same hs
  refine hk _ (ht.calc fun c x hx _ j _ => ?_) ⟨hios, hext.bufs, hext.completions, fun m hm => ?_⟩
    fun i => ?_
  · have hne : x.req.io.mem ≠ dst.id := hdst _ (hext.reqs ▸ reqs_mem hx)
    rw [load, xorInto, if_neg (fun hc => hne hc.1), load]
  · funext i
    simp only [xorInto, if_neg (fun hc : m = dst.id ∧ _ => hm hc.1), hmem]
  · simp only [xorInto, true_and, hlen, hmem]

theorem wp_xorAll {dst : DmaBuf} {ios : List Io} {k : Unit → Task α} (h : Inv E s)
    (hs : s.AllDone) (hdst : ∀ r ∈ s.reqs, r.io.mem ≠ dst.id)
    (hios : ∀ io ∈ ios, io.numBlocks = dst.blocks ∧ io.mem ≠ dst.id)
    (hk : ∀ t, Inv E t → Calc dst.id s t →
      (∀ i < dst.blocks, t.mem dst.id i = s.mem dst.id i + (ios.map (load · s.mem i)).sum) →
      E.wp sender result (k ()) Q t) :
    E.wp sender result (xorAll dst ios >>= k) Q s := by
  induction ios generalizing s with
  | nil => exact hk s h (Calc.refl _ s) (by simp)
  | cons io ios ih =>
    rw [xorAll, Prog.bind_assoc']
    obtain ⟨hlen, hne⟩ := hios io (by simp)
    refine wp_xor h hs hdst (by omega) hlen fun t ht hcalc hmem => ?_
    refine ih ht (hcalc.allDone hs) (hcalc.reqs ▸ hdst) (fun io' h' => hios io' (by simp [h'])) ?_
    intro u hu hcalc' hmem'
    refine hk u hu (hcalc.trans hcalc') fun i hi => ?_
    have hload : ∀ io' ∈ ios, load io' t.mem i = load io' s.mem i := by
      intro io' h'
      rw [load, hcalc.mem _ (hios io' (by simp [h'])).2, load]
    rw [hmem' i hi, hmem i, if_pos ⟨Nat.zero_le i, by omega⟩, List.map_congr_left hload,
      List.map_cons, List.sum_cons, add_assoc, Nat.sub_zero]

/-- What the strips and their old contents add to block `i` of the parity. -/
def stripTerm (mem : Nat → Nat → B) (i : Nat) (x : Strip × Io) : B :=
  if x.1.offsetInStrip ≤ i ∧ i < x.1.offsetInStrip + x.1.blocks then
    load x.2 mem (i - x.1.offsetInStrip) + load x.1.io mem (i - x.1.offsetInStrip)
  else 0

theorem wp_xorStrips {dst : DmaBuf} {segs : List (Strip × Io)} {k : Unit → Task α} (h : Inv E s)
    (hs : s.AllDone) (hdst : ∀ r ∈ s.reqs, r.io.mem ≠ dst.id)
    (hsegs : ∀ x ∈ segs, x.1.offsetInStrip + x.1.blocks ≤ dst.blocks ∧
      x.2.numBlocks = x.1.blocks ∧ x.1.io.numBlocks = x.1.blocks ∧ x.2.mem ≠ dst.id ∧
      x.1.io.mem ≠ dst.id)
    (hk : ∀ t, Inv E t → Calc dst.id s t →
      (∀ i, t.mem dst.id i = s.mem dst.id i + (segs.map (stripTerm s.mem i)).sum) →
      E.wp sender result (k ()) Q t) :
    E.wp sender result (xorStrips dst segs >>= k) Q s := by
  induction segs generalizing s with
  | nil => exact hk s h (Calc.refl _ s) (by simp)
  | cons x segs ih =>
    obtain ⟨seg, old⟩ := x
    obtain ⟨hin, hold, hnew, hne, hne'⟩ := hsegs (seg, old) (by simp)
    rw [xorStrips, Prog.bind_assoc']
    refine wp_xor h hs hdst hin hold fun t ht hcalc hmem => ?_
    rw [Prog.bind_assoc']
    refine wp_xor ht (hcalc.allDone hs) (hcalc.reqs ▸ hdst) hin hnew fun u hu hcalc' hmem' => ?_
    have hc := hcalc.trans hcalc'
    refine ih hu (hc.allDone hs) (hc.reqs ▸ hdst) (fun y hy => hsegs y (by simp [hy])) ?_
    intro v hv hcalc'' hmem''
    refine hk v hv (hc.trans hcalc'') fun i => ?_
    have hterm : ∀ y ∈ segs, stripTerm u.mem i y = stripTerm s.mem i y := by
      intro y hy
      obtain ⟨_, _, _, hy2, hy1⟩ := hsegs y (by simp [hy])
      simp only [stripTerm, load, hc.mem _ hy2, hc.mem _ hy1]
    rw [hmem'' i, hmem' i, hmem i, List.map_congr_left hterm, List.map_cons, List.sum_cons]
    simp only [stripTerm, load, hcalc.mem _ hne']
    split <;> simp [add_assoc]

theorem wp_copyFromSlice {r : IoRef} {data : DmaBuf} {k : Unit → Task α} (h : Inv E s)
    (hs : s.AllDone) (hlen : data.blocks = r.numBlocks) (hno : ∀ r' ∈ s.reqs, r'.kind ≠ .store)
    (hapart : ∀ (c : Nat) (x : ChildIo B), s.ios[c]? = some x → x.phase.Landed →
      (Io.ref r).Apart x.req.io)
    (hk : ∀ t, Inv E t → t.ios = s.ios → t.bufs = s.bufs → t.completions = s.completions →
      t.mem = store (.ref r) (s.mem data.id) s.mem → E.wp sender result (k ()) Q t) :
    E.wp sender result (copyFromSlice (.ref r) data >>= k) Q s := by
  rw [copyFromSlice, if_pos hlen]
  refine (stable E).wp_op h fun t ht hext _ => ⟨trivial, ?_⟩
  rintro x u hp
  cases hp
  obtain ⟨hios, hmem⟩ := hext.same hs
  refine hk _ (ht.calc fun c x hx hor j hj => ?_) hios hext.bufs hext.completions (by rw [hmem])
  rcases hor with hst | hl
  · exact absurd hst (hno _ (hext.reqs ▸ reqs_mem hx))
  · exact load_store_apart (hapart c x (hios ▸ hx) hl) hj

/-! ## Dropping and completing -/

theorem Inv.drop (h : Inv E s) {r : Resource} (hr : DropOk E s r) :
    Inv E { s with trace := s.trace ++ [.drop r] } := by
  refine ⟨h.reqs, h.permitted, h.landed, h.quiet, h.shown, h.kept, h.stored, ?_, ?_⟩
  · intro he hlate c w hw hk hf hdrop
    rcases List.mem_append.mp hdrop with hdrop | hdrop
    · exact h.held he hlate c w hw hk hf hdrop
    · rw [List.mem_singleton, TraceEvent.drop.injEq] at hdrop
      subst hdrop
      obtain ⟨x, hx, hst, _⟩ := hr
      cases hx.symm.trans hw
      obtain ⟨b, hb⟩ := hst hk he hlate
      rw [hb] at hf
      cases hf
  · intro c hdrop
    rcases List.mem_append.mp hdrop with hdrop | hdrop
    · exact h.past c hdrop
    · rw [List.mem_singleton, TraceEvent.drop.injEq] at hdrop
      subst hdrop
      obtain ⟨x, hx, _⟩ := hr
      exact (List.getElem?_eq_some_iff.mp hx).1

theorem wp_drop {r : Resource} {k : Unit → Task α} (h : Inv E s)
    (hr : ∀ t, Inv E t → Ext s t → DropOk E t r)
    (hk : ∀ t, Inv E t → Ext s t → E.wp sender result (k ()) Q t) :
    E.wp sender result (Prog.perform (.drop r) >>= k) Q s := by
  refine (stable E).wp_op h fun t ht hext _ => ⟨hr t ht hext, ?_⟩
  rintro x u hp
  cases hp
  refine hk _ (ht.drop (hr t ht hext)) (hext.trans ?_)
  exact ⟨rfl, rfl, rfl, fun _ _ _ hx _ => hx, fun _ _ _ => rfl⟩

theorem wp_dropAll {rs : List Resource} {k : Unit → Task α} (h : Inv E s)
    (hr : ∀ r ∈ rs, ∀ t, Inv E t → Ext s t → DropOk E t r)
    (hk : ∀ t, Inv E t → Ext s t → E.wp sender result (k ()) Q t) :
    E.wp sender result (dropAll rs >>= k) Q s := by
  induction rs generalizing s with
  | nil => exact hk s h (Ext.refl s)
  | cons r rs ih =>
    rw [dropAll, Prog.bind_assoc']
    refine wp_drop h (hr r (by simp)) fun t ht hext => ?_
    exact ih ht (fun r' h' u hu hext' => hr r' (by simp [h']) u hu (hext.trans hext'))
      fun u hu hext' => hk u hu (hext.trans hext')

theorem wp_completeOn {st : IoStatus} {k : Unit → Task α} (h : Inv E s)
    (hc : s.completions = []) (hall : E.prompt → s.AllDone)
    (hres : ∀ t, Inv E t → Ext s t → result st t)
    (hk : ∀ t, Inv E t → t.reqs = s.reqs → (∀ c b, s.Done c b → t.Done c b) →
      t.bufs = s.bufs → (∀ m i, (∀ (c : Nat) (x : ChildIo B), s.ios[c]? = some x →
        x.req.kind ≠ .store → (∀ b, x.phase ≠ .done b) → ¬ x.req.io.Covers m i) →
        t.mem m i = s.mem m i) →
      t.completions = [(sender, st)] → E.wp sender result (k ()) Q t) :
    E.wp sender result (completeOn sender st >>= k) Q s := by
  refine (stable E).wp_op h fun t ht hext _ => ⟨⟨rfl, hext.completions.trans hc, hres t ht hext,
    fun hp => (hall hp).adv hext.adv hext.reqs⟩, ?_⟩
  rintro x u hp
  cases hp
  refine hk _ ⟨ht.reqs, ht.permitted, ht.landed, ht.quiet, ht.shown, ht.kept, ht.stored, ht.held,
    ht.past⟩ hext.reqs (fun c b => hext.done') hext.bufs hext.mem ?_
  rw [hext.completions, hc]
  rfl

end rules

end Ironspdk.Raid5
