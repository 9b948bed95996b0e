import Ironspdk.Raid5.Rules

/-! # Reconstruction

`reconstruct` reads the same blocks of all other disks and combines them. When every read
succeeds the buffer it returns holds what the skipped disk should hold; it gives up at
the first read that fails. -/
namespace Ironspdk.Raid5
open Ironspdk.Lib Ironspdk.Runtime

variable {B : Type} {α β γ : Type}

/-- Data can be trusted: buffers are held, and a child that answers is not dead. -/
structure Setting.Live (E : Setting B) : Prop where
  held : E.held
  answers : ∀ x, E.children.allow x true = true → ¬ E.dead x

/-- Disk `x` has failed a child I/O of the request. -/
def Setting.Failed (E : Setting B) (s : Proc B) (x : Nat) : Prop :=
  E.children.allow x false = true ∧
    ∃ (c : Nat) (y : ChildIo B), s.ios[c]? = some y ∧ y.req.disk = x ∧ y.phase = .done false

theorem Setting.Failed.adv {E : Setting B} {s t : Proc B} {x : Nat} (h : E.Failed s x)
    (hr : s.reqs <+: t.reqs) (hd : ∀ c b, s.Done c b → t.Done c b) : E.Failed t x := by
  obtain ⟨ha, c, y, hy, hyx, hb⟩ := h
  obtain ⟨z, hz, hzb⟩ := hd c false ⟨y, hy, hb⟩
  refine ⟨ha, c, z, hz, ?_, hzb⟩
  obtain ⟨rs, hrs⟩ := hr
  have hat := reqs_at hz
  rw [← hrs, List.getElem?_append_left (List.getElem?_eq_some_iff.mp (reqs_at hy)).1,
    reqs_at hy] at hat
  rw [← Option.some.inj hat, hyx]

theorem ReqsOk.append {E : Setting B} {b b' : Nat} {rs rs' : List ChildReq} (h : ReqsOk E b rs)
    (hb : b ≤ b') (hnew : ReqsOk E b' rs')
    (hapart : ∀ r ∈ rs, ∀ r' ∈ rs', r.kind ≠ .store → r'.kind ≠ .store → r.io.Apart r'.io)
    (hdist : ∀ r ∈ rs, ∀ r' ∈ rs', r.kind = .store → r'.kind = .store → r.disk ≠ r'.disk) :
    ReqsOk E b' (rs ++ rs') := by
  refine ⟨?_, ?_, ?_, ?_, ?_⟩
  · exact fun r hr => (List.mem_append.mp hr).elim (h.disk r) (hnew.disk r)
  · exact fun r hr => (List.mem_append.mp hr).elim (h.rows r) (hnew.rows r)
  · exact fun r hr => (List.mem_append.mp hr).elim
      (fun hr => (h.owned r hr).trans_le hb) (hnew.owned r)
  · exact List.pairwise_append.mpr ⟨h.apart, hnew.apart, hapart⟩
  · exact List.pairwise_append.mpr ⟨h.distinct, hnew.distinct, hdist⟩

theorem apart_of_mem_ne {a b : Io} (h : a.mem ≠ b.mem) : a.Apart b :=
  fun _ _ ha hb => h (ha.1.trans hb.1.symm)

/-! ## The reads of a reconstruction -/

theorem length_others {n skip : Nat} (h : skip < n) :
    ((List.range n).filter (· ≠ skip)).length = n - 1 := by
  have hf : (List.range n).filter (· ≠ skip) = (List.range n).erase skip := by
    rw [List.nodup_range.erase_eq_filter]
    exact List.filter_congr fun x _ => by by_cases hx : x = skip <;> simp [hx]
  rw [hf, List.length_erase_of_mem (List.mem_range.mpr h), List.length_range]

theorem zipWith_right {f : α → β → γ} {g : β → γ} : ∀ {l : List α} {l' : List β},
    l.length = l'.length → (∀ a b, f a b = g b) → List.zipWith f l l' = l'.map g
  | [], [], _, _ => rfl
  | a :: l, b :: l', h, hf => by
    rw [List.zipWith_cons_cons, List.map_cons, hf,
      zipWith_right (by simpa using h) hf]

theorem zipWith_left {f : α → β → γ} {g : α → γ} : ∀ {l : List α} {l' : List β},
    l.length = l'.length → (∀ a b, f a b = g a) → List.zipWith f l l' = l.map g
  | [], [], _, _ => rfl
  | a :: l, b :: l', h, hf => by
    rw [List.zipWith_cons_cons, List.map_cons, hf,
      zipWith_left (by simpa using h) hf]

section
variable {n skip off blocks b : Nat}

theorem rebuildReqs_get {i : Nat} {r : ChildReq}
    (h : (rebuildReqs n skip off (numbered b (List.replicate (n - 1) blocks)))[i]? = some r) :
    r.kind = .rebuild ∧ r.disk < n ∧ r.disk ≠ skip ∧ i < n - 1 ∧
      r.io = Io.newBuf ⟨b + i, blocks⟩ off := by
  rw [rebuildReqs, List.getElem?_zipWith] at h
  split at h
  · rename_i d x hd hx
    cases h
    have hmem := List.mem_of_getElem? hd
    rw [List.mem_filter, List.mem_range, decide_eq_true_eq] at hmem
    obtain ⟨hid, hblocks⟩ := numbered_get hx
    have hlt := (List.getElem?_eq_some_iff.mp hx).1
    rw [length_numbered, List.length_replicate] at hlt
    rw [List.getElem?_replicate_of_lt hlt] at hblocks
    obtain ⟨id, bl⟩ := x
    simp only at hid
    cases hblocks
    exact ⟨rfl, hmem.1, hmem.2, hlt, by rw [hid]⟩
  · cases h

theorem rebuildReqs_mem {r : ChildReq}
    (h : r ∈ rebuildReqs n skip off (numbered b (List.replicate (n - 1) blocks))) :
    r.kind = .rebuild ∧ r.disk < n ∧ r.disk ≠ skip ∧ b ≤ r.io.mem ∧ r.io.mem < b + (n - 1) ∧
      r.io.offsetBlocks = off ∧ r.io.numBlocks = blocks := by
  obtain ⟨i, hi⟩ := List.mem_iff_getElem?.mp h
  obtain ⟨hk, hd, hs, hlt, hio⟩ := rebuildReqs_get hi
  rw [hio]
  exact ⟨hk, hd, hs, Nat.le_add_right .., by simp only [Io.newBuf, Io.mem]; omega, rfl, rfl⟩

theorem rebuildReqs_ok {E : Setting B} (hoff : ∀ j < blocks, E.Row (off + j)) :
    ReqsOk E (b + (E.dev.diskCount - 1))
      (rebuildReqs E.dev.diskCount skip off
        (numbered b (List.replicate (E.dev.diskCount - 1) blocks))) := by
  refine ⟨fun r hr => (rebuildReqs_mem hr).2.1, fun r hr j hj => ?_,
    fun r hr => (rebuildReqs_mem hr).2.2.2.2.1, ?_, ?_⟩
  · obtain ⟨_, _, _, _, _, ho, hn⟩ := rebuildReqs_mem hr
    rw [ho]
    exact hoff j (hn ▸ hj)
  · refine List.pairwise_iff_getElem.mpr fun i j hi hj hlt _ _ => apart_of_mem_ne ?_
    have hi' := rebuildReqs_get (List.getElem?_eq_getElem hi)
    have hj' := rebuildReqs_get (List.getElem?_eq_getElem hj)
    rw [hi'.2.2.2.2, hj'.2.2.2.2]
    simp only [Io.newBuf, Io.mem]
    omega
  · refine List.Pairwise.imp_of_mem ?_ (List.pairwise_of_forall fun _ _ => trivial)
    intro r r' hr _ _ hst
    rw [(rebuildReqs_mem hr).1] at hst
    cases hst

/-- The buffers of the reads, in their order. -/
theorem rebuildReqs_io (h : skip < n) :
    (rebuildReqs n skip off (numbered b (List.replicate (n - 1) blocks))).map (·.io) =
      (numbered b (List.replicate (n - 1) blocks)).map (Io.newBuf · off) := by
  rw [rebuildReqs, List.map_zipWith]
  refine zipWith_right ?_ fun _ _ => rfl
  rw [length_others h, length_numbered, List.length_replicate]

/-- The disks of the reads, in their order. -/
theorem rebuildReqs_disk (h : skip < n) :
    (rebuildReqs n skip off (numbered b (List.replicate (n - 1) blocks))).map (·.disk) =
      (List.range n).filter (· ≠ skip) := by
  rw [rebuildReqs, List.map_zipWith]
  refine (zipWith_left (g := id) ?_ fun _ _ => rfl).trans (List.map_id _)
  rw [length_others h, length_numbered, List.length_replicate]

end

/-- Combining the encodings of all disks but one gives the encoding of that one. -/
theorem sum_others [XorGroup B] (dev : Raid5Bdev) (flat : Nat → B) {skip : Nat}
    (h : skip < dev.diskCount) (row : Nat) :
    (((List.range dev.diskCount).filter (· ≠ skip)).map (dev.encode flat · row)).sum =
      dev.encode flat skip row := by
  rw [encode_eq_sum_erase dev flat h row, ← List.sum_toFinset _ (List.nodup_range.filter _)]
  congr 1
  ext x
  simp [and_comm]

/-! ## The rule -/

section rules
variable [XorGroup B] {E : Setting B} {sender : SpdkThread} {result : IoStatus → Proc B → Prop}
  {Q : α → Proc B → Prop} {s : Proc B}

theorem wp_awaitUntilFailure {cs : List Nat} {k : Bool → Task α} (h : Inv E s)
    (hcs : ∀ c ∈ cs, c < s.ios.length)
    (hok : ∀ t, Inv E t → Ext s t → (∀ c ∈ cs, t.Done c true) → E.wp sender result (k true) Q t)
    (hfail : ∀ t, ∀ c ∈ cs, Inv E t → Ext s t → t.Done c false → (E.prompt → PromptAt t c) →
      E.wp sender result (k false) Q t) :
    E.wp sender result (awaitUntilFailure cs >>= k) Q s := by
  induction cs generalizing s with
  | nil => exact hok s h (Ext.refl s) (by simp)
  | cons c cs ih =>
    rw [awaitUntilFailure, Prog.bind_assoc']
    refine wp_await h (hcs c (by simp)) fun t b ht hext hd hp => ?_
    cases b with
    | true =>
      have hcs' : ∀ d ∈ cs, d < t.ios.length := by
        rw [← length_reqs, hext.reqs, length_reqs]
        exact fun d hd => hcs d (by simp [hd])
      refine ih ht hcs' (fun u hu hext' hall => ?_) fun u d hd' hu hext' => ?_
      · refine hok u hu (hext.trans hext') fun d hd' => ?_
        rcases List.mem_cons.mp hd' with rfl | hd'
        · exact hext'.done' hd
        · exact hall d hd'
      · exact hfail u d (by simp [hd']) hu (hext.trans hext')
    | false => exact hfail t c (by simp) ht hext hd hp

/-- What `reconstruct` leaves behind: its reads, in buffers of its own. -/
structure Rebuilt (s t : Proc B) : Prop where
  reqs : ∃ rs, t.reqs = s.reqs ++ rs ∧ ∀ r ∈ rs, r.kind = .rebuild ∧ s.bufs ≤ r.io.mem
  bufs : s.bufs ≤ t.bufs
  completions : t.completions = s.completions
  done : ∀ c b, s.Done c b → t.Done c b
  mem : ∀ m < s.bufs, t.mem m = s.mem m

omit [XorGroup B] in
theorem Rebuilt.extends {t : Proc B} (h : Rebuilt s t) : s.reqs <+: t.reqs := by
  obtain ⟨rs, hr, _⟩ := h.reqs
  exact ⟨rs, hr.symm⟩

omit [XorGroup B] in
theorem Rebuilt.noStore {t : Proc B} (h : Rebuilt s t) (hno : ∀ r ∈ s.reqs, r.kind ≠ .store) :
    ∀ r ∈ t.reqs, r.kind ≠ .store := by
  obtain ⟨rs, hr, hrs⟩ := h.reqs
  intro r hmem
  rw [hr] at hmem
  rcases List.mem_append.mp hmem with hmem | hmem
  · exact hno r hmem
  · rw [(hrs r hmem).1]
    exact Kind.rebuild_ne_store

/-- The reads `rs` of a reconstruction are out, in buffers of their own; before them, in `s`,
every child I/O had ended. -/
structure Reading (E : Setting B) (skip off blocks : Nat) (rs : List ChildReq) (s t : Proc B) :
    Prop where
  ended : s.AllDone
  skip_lt : skip < E.dev.diskCount
  list : rs = rebuildReqs E.dev.diskCount skip off
    (numbered s.bufs (List.replicate (E.dev.diskCount - 1) blocks))
  reqs : t.reqs = s.reqs ++ rs
  bufs : t.bufs = s.bufs + (E.dev.diskCount - 1)
  adv : Adv s t

section reading
variable {skip off blocks : Nat} {rs : List ChildReq} {t u : Proc B}

omit [XorGroup B] in
theorem Reading.of_mem (h : Reading E skip off blocks rs s t) {r : ChildReq} (hr : r ∈ rs) :
    r.kind = .rebuild ∧ r.disk < E.dev.diskCount ∧ r.disk ≠ skip ∧ s.bufs ≤ r.io.mem ∧
      r.io.mem < s.bufs + (E.dev.diskCount - 1) ∧ r.io.offsetBlocks = off ∧
      r.io.numBlocks = blocks :=
  rebuildReqs_mem (h.list ▸ hr)

omit [XorGroup B] in
theorem Reading.length_ios (h : Reading E skip off blocks rs s t) (hu : u.reqs = t.reqs) :
    u.ios.length = s.ios.length + rs.length := by
  rw [← length_reqs, hu, h.reqs, List.length_append, length_reqs]

omit [XorGroup B] in
theorem Reading.read_at (h : Reading E skip off blocks rs s t) (hu : u.reqs = t.reqs) {c : Nat}
    {x : ChildIo B} (hx : u.ios[c]? = some x) (hc : s.ios.length ≤ c) :
    rs[c - s.ios.length]? = some x.req := by
  have hat := reqs_at hx
  rwa [hu, h.reqs, List.getElem?_append_right (by rwa [length_reqs]), length_reqs] at hat

omit [XorGroup B] in
/-- The child I/Os of the reads, in a state that has them. -/
theorem Reading.exists_at (h : Reading E skip off blocks rs s t) (hu : u.reqs = t.reqs) {c : Nat}
    (hc : c ∈ List.range' s.ios.length rs.length) :
    ∃ x, u.ios[c]? = some x ∧ x.req ∈ rs := by
  obtain ⟨hge, hlt⟩ := List.mem_range'_1.mp hc
  have hget := List.getElem?_eq_getElem (h.length_ios hu ▸ hlt)
  exact ⟨_, hget, List.mem_of_getElem? (h.read_at hu hget hge)⟩

omit [XorGroup B] in
/-- The reads write to their own buffers only. -/
theorem Reading.mem_old (h : Reading E skip off blocks rs s t) {m : Nat} (hm : m < s.bufs) :
    t.mem m = s.mem m := by
  funext i
  refine h.adv.mem m hm i ?_ fun c r hc hr _ hcov => ?_
  · rintro ⟨c, x, hx, _, hp, _⟩
    obtain ⟨b, hb⟩ := h.ended.at hx
    exact hp b hb
  · rw [h.reqs, List.getElem?_append_right hc] at hr
    have := (h.of_mem (List.mem_of_getElem? hr)).2.2.2.1
    have := hcov.1
    omega

omit [XorGroup B] in
theorem Reading.old_done (h : Reading E skip off blocks rs s t) (ext : Ext t u) {c : Nat}
    (hc : c < s.ios.length) : ∃ b, u.Done c b := by
  obtain ⟨b, hb⟩ := h.ended c hc
  exact ⟨b, ext.done' (h.adv.done c b hb)⟩

omit [XorGroup B] in
theorem Reading.rebuilt (h : Reading E skip off blocks rs s t) (ext : Ext t u) : Rebuilt s u := by
  refine ⟨⟨rs, by rw [ext.reqs, h.reqs], fun r hr => ⟨(h.of_mem hr).1, (h.of_mem hr).2.2.2.1⟩⟩,
    by rw [ext.bufs, h.bufs]; omega, ext.completions.trans h.adv.completions,
    fun c b hd => ext.done' (h.adv.done c b hd), fun m hm => ?_⟩
  rw [← h.mem_old hm]
  funext i
  refine ext.mem m i fun c x hx _ hp hcov => ?_
  by_cases hc : c < s.ios.length
  · -- an older child I/O has ended
    obtain ⟨b, hb⟩ := h.ended c hc
    obtain ⟨z, hz, hzb⟩ := h.adv.done c b hb
    cases hx.symm.trans hz
    exact hp b hzb
  · have hr := List.mem_of_getElem? (h.read_at rfl hx (Nat.le_of_not_lt hc))
    have := (h.of_mem hr).2.2.2.1
    have := hcov.1
    omega

omit [XorGroup B] in
theorem Reading.allDone (h : Reading E skip off blocks rs s t) (ext : Ext t u)
    (hnew : ∀ c ∈ List.range' s.ios.length rs.length, ∃ b, u.Done c b) : u.AllDone := by
  intro c hc
  rw [h.length_ios ext.reqs] at hc
  by_cases hlt : c < s.ios.length
  · exact h.old_done ext hlt
  · exact hnew c (List.mem_range'_1.mpr ⟨Nat.le_of_not_lt hlt, hc⟩)

omit [XorGroup B] in
/-- On prompt schedules a read is seen to have failed when all of them have ended. -/
theorem Reading.allDone_of_failed (h : Reading E skip off blocks rs s t) (ext : Ext t u) {c : Nat}
    (hc : c ∈ List.range' s.ios.length rs.length) (hd : u.Done c false) (hp : PromptAt u c) :
    u.AllDone := by
  obtain ⟨x, hx, hxb⟩ := hd
  obtain ⟨z, hz, hzr⟩ := h.exists_at ext.reqs hc
  cases hx.symm.trans hz
  refine h.allDone ext fun d hd => ?_
  obtain ⟨y, hy, hyr⟩ := h.exists_at ext.reqs hd
  obtain ⟨b, hb⟩ := hp x hx (h.of_mem hzr).1 hxb d y hy (h.of_mem hyr).1
  exact ⟨b, y, hy, hb⟩

omit [XorGroup B] in
theorem Reading.failed (h : Reading E skip off blocks rs s t) (hu : u.reqs = t.reqs)
    (hi : ∀ (c : Nat) (x : ChildIo B), u.ios[c]? = some x →
      x.phase = .done false → E.children.allow x.req.disk false) {c : Nat}
    (hc : c ∈ List.range' s.ios.length rs.length) (hd : u.Done c false) :
    ∃ x, x ≠ skip ∧ E.Failed u x := by
  obtain ⟨x, hx, hxb⟩ := hd
  obtain ⟨z, hz, hzr⟩ := h.exists_at hu hc
  cases hx.symm.trans hz
  exact ⟨x.req.disk, (h.of_mem hzr).2.2.1, hi c x hx hxb, c, x, hx, rfl, hxb⟩

omit [XorGroup B] in
/-- The resources of the reads may go when nothing is out, which only prompt schedules ask. -/
theorem Reading.dropOk (h : Reading E skip off blocks rs s t) (hu : u.reqs = t.reqs)
    (hall : E.prompt → u.AllDone) {r : Resource}
    (hr : r ∈ (List.range' s.ios.length rs.length).map .ctx ++
      (List.range' s.ios.length rs.length).map .io) : DropOk E u r := by
  rcases List.mem_append.mp hr with hr | hr <;> obtain ⟨c, hc, rfl⟩ := List.mem_map.mp hr
  · obtain ⟨x, hx, _⟩ := h.exists_at hu hc
    exact ⟨x, hx, hall⟩
  · obtain ⟨x, hx, hxr⟩ := h.exists_at hu hc
    refine ⟨x, hx, fun hst => ?_, fun _ => hall⟩
    rw [(h.of_mem hxr).1] at hst
    cases hst

/-- When every read has succeeded, the buffers add up to what the skipped disk should hold. -/
theorem Reading.sum_loads (h : Reading E skip off blocks rs s t) (hi : Inv E u)
    (hu : u.reqs = t.reqs) (hall : ∀ c ∈ List.range' s.ios.length rs.length, u.Done c true)
    (hlive : E.Live) {j : Nat} (hj : j < blocks) :
    ((rs.map (·.io)).map (load · u.mem j)).sum = E.dev.encode E.flat skip (off + j) := by
  rw [List.map_map, ← sum_others E.dev E.flat h.skip_lt (off + j),
    ← rebuildReqs_disk h.skip_lt, ← h.list, List.map_map]
  refine congrArg List.sum (List.map_congr_left fun r hr => ?_)
  -- each read has landed on a disk that is not dead
  obtain ⟨i, hi'⟩ := List.mem_iff_getElem?.mp hr
  obtain ⟨hk, _, _, _, _, ho, hn⟩ := h.of_mem hr
  have hlt := (List.getElem?_eq_some_iff.mp hi').1
  obtain ⟨x, hx, hxb⟩ := hall (s.ios.length + i) (List.mem_range'_1.mpr (by omega))
  have hat := h.read_at hu hx (Nat.le_add_right ..)
  rw [Nat.add_sub_cancel_left, hi'] at hat
  cases hat
  have hland : x.phase.Landed := Or.inr hxb
  have := hi.landed _ x hx (by rw [hk]; exact Kind.rebuild_ne_store) hland
    (hlive.answers _ ((hi.permitted _ x hx).1 hland)) j (hn ▸ hj)
  rw [ho] at this
  exact this

end reading

/-- The buffers of a reconstruction are allocated, and its reads submitted. -/
theorem wp_submitReads {skip off blocks : Nat} {k : List DmaBuf → List Nat → Task α} (h : Inv E s)
    (hs : s.AllDone) (hno : ∀ r ∈ s.reqs, r.kind ≠ .store) (hskip : skip < E.dev.diskCount)
    (hoff : ∀ j < blocks, E.Row (off + j))
    (hk : ∀ t rs, Inv E t → Reading E skip off blocks rs s t →
      E.wp sender result (k (numbered s.bufs (List.replicate (E.dev.diskCount - 1) blocks))
        (List.range' s.ios.length rs.length)) Q t) :
    E.wp sender result (newBufs (List.replicate (E.dev.diskCount - 1) blocks) >>= fun bufs =>
      submitAll (rebuildReqs E.dev.diskCount skip off bufs) >>= k bufs) Q s := by
  refine wp_newBufs h fun t1 h1 adv1 hr1 hb1 => ?_
  rw [List.length_replicate] at hb1
  obtain ⟨rs, hrs⟩ : ∃ rs, rs = rebuildReqs E.dev.diskCount skip off
    (numbered s.bufs (List.replicate (E.dev.diskCount - 1) blocks)) := ⟨_, rfl⟩
  have hmem : ∀ r ∈ rs, r.kind = .rebuild ∧ s.bufs ≤ r.io.mem := by
    intro r hr
    rw [hrs] at hr
    exact ⟨(rebuildReqs_mem hr).1, (rebuildReqs_mem hr).2.2.2.1⟩
  rw [← hrs]
  refine wp_submitAll h1 ?_ ?_
    (Or.inr fun r hr => by rw [(hmem r hr).1]; exact Kind.rebuild_ne_store)
    fun t2 h2 adv2 hr2 hb2 => ?_
  · rw [hr1, hb1]
    refine h.reqs.append (Nat.le_add_right ..) (hrs ▸ rebuildReqs_ok hoff) ?_ ?_
    · intro r hr r' hr' _ _
      have hlt := h.reqs.owned r hr
      have hge := (hmem r' hr').2
      exact apart_of_mem_ne (by omega)
    · intro r hr r' _ hst
      exact absurd hst (hno r hr)
  · intro r hr
    refine ⟨fun hk => ?_, fun _ => hr1 ▸ hno⟩
    rw [(hmem r hr).1] at hk
    cases hk
  · have hlen1 : t1.ios.length = s.ios.length := by rw [← length_reqs, hr1, length_reqs]
    rw [hlen1]
    exact hk t2 rs h2 ⟨hs, hskip, hrs, by rw [hr2, hr1], by rw [hb2, hb1], adv1.trans adv2⟩

/-- All reads have succeeded: their buffers are combined in a new one. -/
theorem wp_combine {skip off blocks : Nat} {rs : List ChildReq} {t u : Proc B}
    {k : Option DmaBuf → Task α} (h : Inv E u) (hr : Reading E skip off blocks rs s t)
    (ext : Ext t u) (hall : ∀ c ∈ List.range' s.ios.length rs.length, u.Done c true)
    (hok : ∀ t buf, Inv E t → Rebuilt s t → t.AllDone → buf.blocks = blocks → s.bufs ≤ buf.id →
      buf.id < t.bufs → (∀ r ∈ t.reqs, r.io.mem ≠ buf.id) →
      (E.Live → ∀ j < blocks, t.mem buf.id j = E.dev.encode E.flat skip (off + j)) →
      E.wp sender result (k (some buf)) Q t) :
    E.wp sender result ((do
      let outbuf ← DmaBuf.newZeroed blocks
      xorAll outbuf ((numbered s.bufs (List.replicate (E.dev.diskCount - 1) blocks)).map
        (Io.newBuf · off))
      dropAll ((List.range' s.ios.length rs.length).map .ctx ++
        (List.range' s.ios.length rs.length).map .io)
      return some outbuf) >>= k) Q u := by
  have hdone := hr.allDone ext fun c hc => ⟨true, hall c hc⟩
  rw [Prog.bind_assoc']
  refine wp_newZeroed h fun t4 h4 adv4 hr4 _ hz => ?_
  have hdone4 := hdone.adv adv4 hr4
  have hreqs4 : t4.reqs = t.reqs := hr4.trans ext.reqs
  have howned : ∀ r ∈ t4.reqs, r.io.mem < u.bufs := fun r hr => h.reqs.owned r (hr4 ▸ hr)
  rw [Prog.bind_assoc', ← rebuildReqs_io hr.skip_lt, ← hr.list]
  refine wp_xorAll h4 hdone4 (fun r hr => (howned r hr).ne) ?_ fun t5 h5 calc5 hsum => ?_
  · intro io hio
    obtain ⟨r, hmem, rfl⟩ := List.mem_map.mp hio
    refine ⟨(hr.of_mem hmem).2.2.2.2.2.2, (howned r ?_).ne⟩
    rw [hreqs4, hr.reqs]
    exact List.mem_append_right _ hmem
  have hdone5 := calc5.allDone hdone4
  have hreqs5 : t5.reqs = t.reqs := calc5.reqs.trans hreqs4
  rw [Prog.bind_assoc']
  refine wp_dropAll h5 (fun r hmem v _ hext => ?_) fun t6 h6 ext6 => ?_
  · exact hr.dropOk (hext.reqs.trans hreqs5) (fun _ => hdone5.adv hext.adv hext.reqs) hmem
  · obtain ⟨_, hmem6⟩ := ext6.same hdone5
    have reb := hr.rebuilt ext
    have hreqs6 : t6.reqs = u.reqs := by rw [ext6.reqs, calc5.reqs, hr4]
    have hbufs6 : u.bufs < t6.bufs := by
      rw [ext6.bufs, calc5.bufs]
      omega
    -- the older buffers have not changed since the reads ended
    have hold : ∀ m < u.bufs, t6.mem m = u.mem m := by
      intro m hm
      rw [hmem6, calc5.mem m hm.ne]
      funext i
      refine adv4.mem m hm i ?_ fun c r hc hr => ?_
      · rintro ⟨c, x, hx, _, hp, _⟩
        obtain ⟨b, hb⟩ := hdone.at hx
        exact absurd hb (hp b)
      · rw [hr4, List.getElem?_eq_none hc] at hr
        cases hr
    refine hok t6 ⟨u.bufs, blocks⟩ h6 ⟨?_, ?_, ?_, ?_, ?_⟩ (hdone5.adv ext6.adv ext6.reqs) rfl
      reb.bufs hbufs6 ?_ ?_
    · rw [hreqs6]
      exact reb.reqs
    · exact reb.bufs.trans hbufs6.le
    · rw [ext6.completions, calc5.completions, adv4.completions, reb.completions]
    · intro c b hd
      obtain ⟨x, hx, hb⟩ := adv4.done c b (reb.done c b hd)
      exact ext6.done' ⟨x, calc5.ios ▸ hx, hb⟩
    · intro m hm
      rw [← reb.mem m hm]
      exact hold m (hm.trans_le reb.bufs)
    · intro r hmem
      exact (h.reqs.owned r (hreqs6 ▸ hmem)).ne
    · intro hlive j hj
      rw [hmem6, hsum j hj, hz j, zero_add]
      exact hr.sum_loads h4 hreqs4 (fun c hc => adv4.done c true (hall c hc)) hlive hj

/-- **What `reconstruct` returns.** Called when no child I/O is out and no write has been
submitted, it returns a buffer with the encoding of the skipped disk, or gives up because
another disk failed a read; on prompt schedules none of its reads is left behind. -/
theorem wp_reconstruct {skip off blocks : Nat} {k : Option DmaBuf → Task α} (h : Inv E s)
    (hs : s.AllDone) (hno : ∀ r ∈ s.reqs, r.kind ≠ .store) (hskip : skip < E.dev.diskCount)
    (hoff : ∀ j < blocks, E.Row (off + j))
    (hok : ∀ t buf, Inv E t → Rebuilt s t → t.AllDone → buf.blocks = blocks → s.bufs ≤ buf.id →
      buf.id < t.bufs → (∀ r ∈ t.reqs, r.io.mem ≠ buf.id) →
      (E.Live → ∀ j < blocks, t.mem buf.id j = E.dev.encode E.flat skip (off + j)) →
      E.wp sender result (k (some buf)) Q t)
    (hfail : ∀ t, Inv E t → Rebuilt s t → (E.prompt → t.AllDone) → (∃ x, x ≠ skip ∧ E.Failed t x) →
      E.wp sender result (k none) Q t) :
    E.wp sender result (reconstruct E.dev skip off blocks >>= k) Q s := by
  simp only [reconstruct, Prog.bind_assoc']
  refine wp_submitReads h hs hno hskip hoff fun t rs ht hr => ?_
  refine wp_awaitUntilFailure ht (fun c hc => ?_) (fun u hu ext hall => ?_)
    fun u c hc hu ext hd hprompt => ?_
  · rw [hr.length_ios rfl]
    exact (List.mem_range'_1.mp hc).2
  · exact wp_combine hu hr ext hall hok
  · -- a read has failed: on prompt schedules the others have ended
    have hall : E.prompt → u.AllDone := fun hp => hr.allDone_of_failed ext hc hd (hprompt hp)
    rw [if_neg Bool.false_ne_true, Prog.bind_assoc']
    refine wp_dropAll hu (fun r hmem v _ hext => ?_) fun v hv hext => ?_
    · exact hr.dropOk (hext.reqs.trans ext.reqs) (fun hp => (hall hp).adv hext.adv hext.reqs) hmem
    · have hfailed := hr.failed ext.reqs (fun c x hx => (hu.permitted c x hx).2) hc hd
      obtain ⟨x, hx, hf⟩ := hfailed
      exact hfail v hv (hr.rebuilt (ext.trans hext)) (fun hp => (hall hp).adv hext.adv hext.reqs)
        ⟨x, hx, hf.adv (hext.reqs ▸ List.prefix_refl _) fun c b => hext.done'⟩

end rules

end Ironspdk.Raid5
