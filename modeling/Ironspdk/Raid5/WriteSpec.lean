import Ironspdk.Raid5.ReadSpec

/-! # What a write does

Both write paths end alike: every strip and the parity have been submitted once, the
parity fits the new contents, and all of them are awaited. What was stored is then the
encoding of the overwritten device, on every disk that failed no write. -/
namespace Ironspdk.Raid5
open Ironspdk.Lib Ironspdk.Runtime

variable {B : Type} {α β γ : Type}

/-! ## Counting failures -/

theorem countFailure_fold (f : Failures) (i : Nat) {disks cs : List Nat} {oks : List Bool}
    (hc : cs.length = disks.length) (h : oks.length = disks.length) {g : Failures}
    (hg : g = ((disks.zip cs).zip oks).foldl (fun f x => if x.2 then f else
      { nfailures := f.nfailures + 1
        lastFailedDiskIdx := some x.1.1
        failMask := f.failMask ||| 1 <<< (x.1.1 % 64) }) f) :
    g.nfailures = f.nfailures + (failedFrom i oks).length ∧
      (failedFrom i oks = [] → g.lastFailedDiskIdx = f.lastFailedDiskIdx) ∧
      ∀ k, failedFrom i oks = [k] → g.lastFailedDiskIdx = disks[k - i]? := by
  induction oks generalizing f i disks cs with
  | nil =>
    simp [failedFrom] at *
    simp [hg]
  | cons ok oks ih =>
    obtain ⟨d, disks, rfl⟩ := List.exists_cons_of_length_pos (l := disks) (by simp at h; omega)
    obtain ⟨c, cs, rfl⟩ := List.exists_cons_of_length_pos (l := cs) (by simp at hc; omega)
    simp only [List.length_cons, Nat.add_right_cancel_iff] at h hc
    rw [List.zip_cons_cons, List.zip_cons_cons, List.foldl_cons] at hg
    obtain ⟨hn, hlast, hone⟩ := ih _ (i + 1) hc h hg
    cases ok with
    | true =>
      refine ⟨hn, hlast, fun k hk => ?_⟩
      have hk' : failedFrom (i + 1) oks = [k] := hk
      have hmem : k ∈ failedFrom (i + 1) oks := by rw [hk']; exact List.mem_singleton_self k
      have hsub : k - i = k - (i + 1) + 1 := by
        have := (mem_failedFrom.mp hmem).1
        omega
      rw [hone k hk, hsub, List.getElem?_cons_succ]
    | false =>
      refine ⟨?_, fun h => absurd h (List.cons_ne_nil _ _), fun k hk => ?_⟩
      · rw [hn, failedFrom, List.length_cons]
        simp only [if_neg (Bool.false_ne_true)]
        omega
      · obtain ⟨rfl, hnil⟩ := List.cons.inj hk
        rw [hlast hnil, Nat.sub_self]
        rfl

theorem completeWrite_eq (sender : SpdkThread) {f : Failures}
    (h : f.nfailures = 1 → f.lastFailedDiskIdx.isSome) : completeWrite sender f =
      completeOn sender (if f.nfailures = 0 then .success else .failure) := by
  unfold completeWrite
  split
  · rfl
  · split
    · rename_i h1
      obtain ⟨d, hd⟩ := Option.isSome_iff_exists.mp (h h1)
      rw [hd]
    · rfl

/-- No shift of `fail_mask` overflows, or a build that checks for it may abort. -/
def Setting.ShiftOk (E : Setting B) (overflowChecks : Bool) : Prop :=
  overflowChecks = true → E.mayAbort ∨ ∀ x < E.dev.diskCount, E.children.allow x false → x < 64

section rules
variable [XorGroup B] {E : Setting B} {sender : SpdkThread} {result : IoStatus → Proc B → Prop}
  {Q : α → Proc B → Prop} {s : Proc B}

/-- What the counters of an await loop say about the statuses. -/
structure Counted (disks failed : List Nat) (f : Failures) : Prop where
  nfailures : f.nfailures = failed.length
  last : ∀ k, failed = [k] → f.lastFailedDiskIdx = disks[k]?

theorem wp_awaitCount {overflowChecks : Bool} {disks : List Nat} {base n : Nat}
    {k : Failures → Task α} (h : Inv E s) (hn : disks.length = n)
    (hshift : E.ShiftOk overflowChecks)
    (hdisks : ∀ (i d : Nat), disks[i]? = some d → s.reqs[base + i]?.map (·.disk) = some d)
    (hk : ∀ t failed f, Inv E t → Ext s t → Awaited t base n failed → Counted disks failed f →
      E.wp sender result (k f) Q t) :
    E.wp sender result (awaitEach (countFailure overflowChecks)
      (disks.zip (List.range' base n)) {} >>= k) Q s := by
  have hlenz : (disks.zip (List.range' base n)).length = n := by simp [hn]
  have hget : ∀ (i : Nat) (f : Nat × Nat), (disks.zip (List.range' base n))[i]? = some f →
      disks[i]? = some f.1 ∧ f.2 = base + i := by
    intro i f hf
    obtain ⟨hd, hc⟩ := List.getElem?_zip_eq_some.mp hf
    have hi := (List.getElem?_eq_some_iff.mp hd).1
    rw [List.getElem?_range' (hn ▸ hi), Nat.one_mul] at hc
    exact ⟨hd, (Option.some.inj hc).symm⟩
  refine wp_awaitEach (g := fun f d ok => if ok then f else
      { nfailures := f.nfailures + 1
        lastFailedDiskIdx := some d
        failMask := f.failMask ||| 1 <<< (d % 64) }) h ?_ ?_ fun t oks ht hext hlen hdone => ?_
  · intro f hf
    obtain ⟨i, hi⟩ := List.mem_iff_getElem?.mp hf
    obtain ⟨hd, hc⟩ := hget i f hi
    obtain ⟨r, hr, _⟩ := Option.map_eq_some_iff.mp (hdisks i f.1 hd)
    rw [hc, ← length_reqs]
    exact (List.getElem?_eq_some_iff.mp hr).1
  · intro f hf b ok hmay
    obtain ⟨i, hi⟩ := List.mem_iff_getElem?.mp hf
    obtain ⟨hd, hc⟩ := hget i f hi
    have hreq := hdisks i f.1 hd
    cases ok with
    | true => exact Or.inl rfl
    | false =>
      rcases hmay with hmay | hmay
      · cases hmay
      obtain ⟨r, hr, hrd⟩ := Option.map_eq_some_iff.mp hreq
      rw [hc, hr] at hmay
      by_cases hover : overflowChecks = true ∧ 64 ≤ f.1
      · refine Or.inr ⟨?_, "attempt to shift left with overflow", ?_⟩
        · rcases hshift hover.1 with habort | hlt
          · exact habort
          · have := hlt f.1 (hrd ▸ h.reqs.disk r (List.mem_of_getElem? hr)) (hrd ▸ hmay)
            omega
        · rw [countFailure, if_neg Bool.false_ne_true, shlOne, if_pos hover, panic_bind]
      · left
        simp only [countFailure, shlOne, if_neg hover]
        rfl
  · rw [hlenz] at hlen
    have hcs : (List.range' base n).length = disks.length := by simp [hn]
    obtain ⟨hcount, _, hone⟩ := countFailure_fold {} 0 hcs (hlen.trans hn.symm) rfl
    refine hk t (failedFrom 0 oks) _ ht hext (Awaited.of_oks hlen fun i ok hok => ?_)
      ⟨hcount.trans (Nat.zero_add _), fun k hk => hone k hk⟩
    have hi := (List.getElem?_eq_some_iff.mp hok).1
    obtain ⟨f, hz⟩ : ∃ f, (disks.zip (List.range' base n))[i]? = some f :=
      ⟨_, List.getElem?_eq_getElem (by omega)⟩
    have := hdone i f ok hz hok
    rwa [(hget i f hz).2] at this

/-! ## What the stores leave -/

/-- The child writes among the child I/Os of a request: one for each strip, and `p` for the
parity. -/
structure Stores (E : Setting B) (strips : List Strip) (p : Io) (rs : List ChildReq) : Prop where
  strip : ∀ y ∈ strips, ⟨.store, y.disk, y.io⟩ ∈ rs
  parity : ⟨.store, E.dev.parityDiskIdx E.stripe, p⟩ ∈ rs
  only : ∀ r ∈ rs, r.kind = .store → r = ⟨.store, E.dev.parityDiskIdx E.stripe, p⟩ ∨
    ∃ y ∈ strips, r = ⟨.store, y.disk, y.io⟩
  offset : p.offsetBlocks = E.stripe * E.dev.stripBlocks
  blocks : p.numBlocks = E.dev.stripBlocks

theorem Inv.stored_at (h : Inv E s) (he : E.held) (hall : s.AllDone) {r : ChildReq}
    (hr : r ∈ s.reqs) (hk : r.kind = .store)
    (hgood : ∀ (c : Nat) (w : ChildIo B), s.ios[c]? = some w → w.req.kind = .store →
      w.req.disk = r.disk → w.phase ≠ .done false) {j : Nat} (hj : j < r.io.numBlocks) :
    s.disks r.disk (r.io.offsetBlocks + j) = load r.io s.mem j := by
  obtain ⟨x, hx, rfl⟩ := List.mem_map.mp hr
  obtain ⟨c, hc⟩ := List.mem_iff_getElem?.mp hx
  obtain ⟨b, hb⟩ := hall.at hc
  cases b with
  | false => exact absurd hb (hgood c x hc hk rfl)
  | true => rw [h.stored he c x hc hk (Or.inr hb) j hj, h.shown c x hc hk j hj]

/-- When the parity fits the new contents, the stores leave the encoding of these. -/
theorem Inv.leaves_written (h : Inv E s) (he : E.held) (hall : s.AllDone) {io : BdevIo}
    {strips : List Strip} {p : Io} (hs : Split E.dev E.stripe io strips)
    (hst : Stores E strips p s.reqs) {data : Nat → B}
    (hdata : ∀ j < io.numBlocks, s.mem 0 j = data j)
    (hpar : ∀ r < E.dev.stripBlocks, load p s.mem r =
      E.dev.encode (overwrite E.flat io.offsetBlocks io.numBlocks data)
        (E.dev.parityDiskIdx E.stripe) (E.stripe * E.dev.stripBlocks + r)) :
    E.Leaves (overwrite E.flat io.offsetBlocks io.numBlocks data) s := by
  intro x hx hd hgood row hrow
  by_cases hp : x = E.dev.parityDiskIdx E.stripe
  · subst hp
    have hr := Nat.mod_lt row E.dev.strip_pos
    have hsplit : E.stripe * E.dev.stripBlocks + row % E.dev.stripBlocks = row := by
      rw [← hrow]
      exact Nat.div_add_mod' _ _
    have hj : row % E.dev.stripBlocks < p.numBlocks := hst.blocks.symm ▸ hr
    have := h.stored_at he hall hst.parity rfl hgood hj
    simp only [hst.offset, hpar _ hr, hsplit] at this
    exact this
  · obtain ⟨b, hb, _⟩ := exists_block E.dev hx hp hrow
    have henc : ∀ f : Nat → B, E.dev.encode f x row = f b := by
      intro f
      have := encode_locate E.dev f b
      rwa [hb] at this
    rw [henc]
    by_cases hin : io.offsetBlocks ≤ b ∧ b < io.offsetBlocks + io.numBlocks
    · obtain ⟨j, rfl⟩ : ∃ j, b = io.offsetBlocks + j := ⟨b - io.offsetBlocks, by omega⟩
      rw [overwrite_in (by omega)]
      -- the strip that the block lies in
      obtain ⟨y, hy, hge, hlt⟩ := hs.covers j (by omega)
      have hfor := hs.all_for y hy
      obtain ⟨i, rfl⟩ : ∃ i, j = y.io.start + i := ⟨j - y.io.start, by omega⟩
      have hloc := hfor.locate (show i < y.blocks by omega)
      rw [Nat.add_assoc, hb, Prod.mk.injEq] at hloc
      obtain ⟨rfl, rfl⟩ := hloc
      have hj : i < y.io.numBlocks := by rw [hfor.numBlocks_eq]; omega
      have := h.stored_at he hall (hst.strip y hy) rfl hgood hj
      simp only [load, hfor.mem_eq] at this
      rw [this, hdata _ (by omega)]
    · rw [overwrite_out (by omega), ← henc E.flat]
      refine h.kept x hx hd row hrow fun c w hw hk hwd => ⟨hgood c w hw hk hwd, fun _ hhit => ?_⟩
      rcases hst.only w.req (reqs_mem hw) hk with heq | ⟨y, hy, heq⟩
      · exact hp (by rw [← hwd, heq])
      · have hfor := hs.all_for y hy
        rw [heq] at hhit
        obtain ⟨hyd, hge, hlt⟩ := hhit
        simp only [hfor.numBlocks_eq] at hge hlt hyd
        obtain ⟨i, rfl⟩ : ∃ i, row = y.io.offsetBlocks + i := ⟨row - y.io.offsetBlocks, by omega⟩
        have hloc := hfor.locate (show i < y.blocks by omega)
        rw [hyd, ← hb] at hloc
        have hbeq := E.dev.locate_inj hloc
        have := hfor.inRequest
        omega

/-! ## The end of a write -/

/-- What a completed write has to have done. -/
def Setting.WriteResult (E : Setting B) (io : BdevIo) (data : Nat → B) (st : IoStatus)
    (s : Proc B) : Prop :=
  match st with
  | .success => (∀ (c : Nat) (x : ChildIo B), s.ios[c]? = some x → x.req.kind = .store →
      x.phase = .done true) ∧
    (E.Live → E.Leaves (overwrite E.flat io.offsetBlocks io.numBlocks data) s)
  | .failure => ∃ x, E.Failed s x

theorem wp_finishWrite {io : BdevIo} {strips : List Strip} {p : Io} {data : Nat → B}
    {disks failed : List Nat} {base n : Nat} {f : Failures} {rs : List Resource} (h : Inv E s)
    (hall : s.AllDone) (hc : s.completions = []) (hs : Split E.dev E.stripe io strips)
    (hst : Stores E strips p s.reqs) (hdata : ∀ j < io.numBlocks, s.mem 0 j = data j)
    (hpar : E.Live → ∀ r < E.dev.stripBlocks, load p s.mem r =
      E.dev.encode (overwrite E.flat io.offsetBlocks io.numBlocks data)
        (E.dev.parityDiskIdx E.stripe) (E.stripe * E.dev.stripBlocks + r))
    (hn : disks.length = n) (haw : Awaited s base n failed) (hcnt : Counted disks failed f)
    (hbase : ∀ (c : Nat) (r : ChildReq), s.reqs[c]? = some r → r.kind = .store →
      ∃ i < n, c = base + i)
    (hrs : ∀ r ∈ rs, ∃ c b, s.Done c b ∧ (r = .ctx c ∨ r = .io c)) :
    E.wp sender (E.WriteResult io data) (completeWrite sender f >>= fun _ => dropAll rs)
      (fun _ t => E.End sender (overwrite E.flat io.offsetBlocks io.numBlocks data) t) s := by
  have hleaves : ∀ {t : Proc B}, Inv E t → t.reqs = s.reqs → t.AllDone → t.mem = s.mem →
      E.Live → E.Leaves (overwrite E.flat io.offsetBlocks io.numBlocks data) t :=
    fun ht hr hd hm hlive =>
      ht.leaves_written hlive.held hd hs (hr ▸ hst) (hm ▸ hdata) (hm ▸ hpar hlive)
  rw [completeWrite_eq]
  · refine wp_finish h hc (fun _ => hall) (fun t ht hext => ?_) hrs fun t ht hr hd hct hm =>
      ⟨ht, ⟨_, hct⟩, fun c x hx _ => (hall.of_done hr hd).at hx,
        Or.inr (hleaves ht hr (hall.of_done hr hd) (hm hall))⟩
    obtain ⟨hios, hmem⟩ := hext.same hall
    rw [hcnt.nfailures]
    split
    · rename_i h0
      refine ⟨fun c x hx hk => ?_, hleaves ht hext.reqs (hall.adv hext.adv hext.reqs) hmem⟩
      rw [hios] at hx
      obtain ⟨i, hi, rfl⟩ := hbase c x.req (reqs_at hx) hk
      obtain ⟨y, hy, hb⟩ := haw.good i hi (by rw [List.length_eq_zero_iff.mp h0]; simp)
      cases hx.symm.trans hy
      exact hb
    · rename_i h0
      obtain ⟨i, hi⟩ := List.exists_mem_of_length_pos (Nat.pos_of_ne_zero h0)
      obtain ⟨x, hx, hb⟩ := (haw.bad i hi).2
      exact ⟨_, (h.failed (reqs_at hx) ⟨x, hx, hb⟩).adv (by rw [hext.reqs]) fun c b => hext.done'⟩
  · intro h1
    obtain ⟨k, hk⟩ := List.length_eq_one_iff.mp (hcnt.nfailures ▸ h1)
    rw [hcnt.last k hk, List.getElem?_eq_getElem (hn.symm ▸ (haw.bad k (by simp [hk])).1)]
    rfl

/-! ## Phases 2 and 3 of a partial write -/

/-- The old contents of the strips and of the parity, in buffers of the request. -/
structure OldData (E : Setting B) (io : BdevIo) (strips : List Strip) (olds : List Io) (par : Io)
    (s : Proc B) : Prop where
  length : olds.length = strips.length
  blocks : ∀ x ∈ strips.zip olds, x.2.numBlocks = x.1.blocks
  owned : ∀ o ∈ olds, o.mem < s.bufs
  par_blocks : par.numBlocks = E.dev.stripBlocks
  par_owned : par.mem < s.bufs
  strip : E.Live → ∀ x ∈ strips.zip olds, ∀ j < x.1.blocks,
    load x.2 s.mem j = E.flat (io.offsetBlocks + (x.1.io.start + j))
  parity : E.Live → ∀ r < E.dev.stripBlocks, load par s.mem r =
    E.dev.encode E.flat (E.dev.parityDiskIdx E.stripe) (E.stripe * E.dev.stripBlocks + r)

/-- Old parity, old strips and new strips make the new parity. -/
theorem OldData.new_parity {io : BdevIo} {strips : List Strip} {olds : List Io} {par : Io}
    (h : OldData E io strips olds par s) (hs : Split E.dev E.stripe io strips) {data : Nat → B}
    (hdata : ∀ j < io.numBlocks, s.mem 0 j = data j) (hlive : E.Live) {r : Nat}
    (hr : r < E.dev.stripBlocks) :
    load par s.mem r + ((strips.zip olds).map (stripTerm s.mem r)).sum =
      E.dev.encode (overwrite E.flat io.offsetBlocks io.numBlocks data)
        (E.dev.parityDiskIdx E.stripe) (E.stripe * E.dev.stripBlocks + r) := by
  have henc := hs.tiles.encode_overwrite (Nat.le_refl _) hs.all_for E.flat data hr
  rw [Nat.sub_self, Nat.zero_add, overwrite_zero] at henc
  have hfst : strips = (strips.zip olds).map Prod.fst :=
    (List.map_fst_zip h.length.ge).symm
  rw [henc, h.parity hlive r hr]
  conv_rhs => rw [hfst, List.map_map]
  congr 2
  refine List.map_congr_left fun x hx => ?_
  have hfor := hs.all_for x.1 (List.of_mem_zip hx).1
  have := hfor.inRequest
  unfold stripTerm Strip.delta Function.comp
  split
  · rename_i hin
    simp only [if_pos hin]
    rw [h.strip hlive x hx _ (by omega), load, hfor.mem_eq, hdata _ (by omega)]
  · rename_i hin
    simp only [if_neg hin]

omit [XorGroup B] in
/-- The memory of a request stands still while only writes are out. -/
theorem Adv.mem_eq {t : Proc B} (h : Adv s t) (hs : s.AllDone)
    (hnew : ∀ (c : Nat) (r : ChildReq), s.reqs.length ≤ c → t.reqs[c]? = some r → r.kind = .store)
    {m : Nat} (hm : m < s.bufs) : t.mem m = s.mem m := by
  refine funext fun i => h.mem m hm i ?_ fun c r hc hr hk => absurd (hnew c r hc hr) hk
  rintro ⟨c, x, hx, _, hp, _⟩
  obtain ⟨b, hb⟩ := hs.at hx
  exact hp b hb

omit [XorGroup B] in
theorem Proc.AllDone.drops (hs : s.AllDone) {rs : List Resource}
    (h : ∀ r ∈ rs, ∃ c < s.ios.length, r = .ctx c ∨ r = .io c) :
    ∀ r ∈ rs, ∃ c b, s.Done c b ∧ (r = .ctx c ∨ r = .io c) := by
  intro r hr
  obtain ⟨c, hc, he⟩ := h r hr
  obtain ⟨b, hb⟩ := hs c hc
  exact ⟨c, b, hb, he⟩

/-- The child writes of a partial write, the parity last. -/
def Setting.storeReqs (E : Setting B) (strips : List Strip) (p : Io) : List ChildReq :=
  (strips.map fun x => ⟨.store, x.disk, x.io⟩) ++ [⟨.store, E.dev.parityDiskIdx E.stripe, p⟩]

omit [XorGroup B] in
theorem mem_storeReqs {strips : List Strip} {p : Io} {r : ChildReq} :
    r ∈ E.storeReqs strips p ↔ r = ⟨.store, E.dev.parityDiskIdx E.stripe, p⟩ ∨
      ∃ y ∈ strips, r = ⟨.store, y.disk, y.io⟩ := by
  rw [Setting.storeReqs, List.mem_append, List.mem_map, List.mem_singleton, or_comm]
  exact or_congr_right ⟨fun ⟨y, hy, he⟩ => ⟨y, hy, he.symm⟩, fun ⟨y, hy, he⟩ => ⟨y, hy, he.symm⟩⟩

omit [XorGroup B] in
theorem storeReqs_store {strips : List Strip} {p : Io} {r : ChildReq}
    (h : r ∈ E.storeReqs strips p) : r.kind = .store := by
  rcases mem_storeReqs.mp h with rfl | ⟨y, _, rfl⟩ <;> rfl

omit [XorGroup B] in
theorem storeReqs_disks (strips : List Strip) (p : Io) : (E.storeReqs strips p).map (·.disk) =
    strips.map (·.disk) ++ [E.dev.parityDiskIdx E.stripe] := by
  simp [Setting.storeReqs]

omit [XorGroup B] in
/-- The child writes of a request go to different disks of its stripe. -/
theorem storeReqs_ok {io : BdevIo} {strips : List Strip} (hs : Split E.dev E.stripe io strips)
    {p : Io} {b : Nat} (hb : 0 < b) (hp : p.mem < b)
    (hoff : p.offsetBlocks = E.stripe * E.dev.stripBlocks)
    (hnum : p.numBlocks = E.dev.stripBlocks) : ReqsOk E b (E.storeReqs strips p) := by
  refine (stripReqs_ok hs .store hb).append (Nat.le_refl b) ⟨?_, ?_, ?_, ?_, ?_⟩ ?_ ?_
  · simp only [List.mem_singleton, forall_eq]
    exact E.dev.parityDiskIdx_lt _
  · simp only [List.mem_singleton, forall_eq, hoff, hnum]
    exact fun j hj => row_div E.dev hj
  · simp only [List.mem_singleton, forall_eq, hp]
  · exact List.pairwise_singleton ..
  · exact List.pairwise_singleton ..
  · intro r hr r' hr' hk
    obtain ⟨x, _, rfl⟩ := List.mem_map.mp hr
    exact absurd rfl hk
  · intro r hr r' hr' _ _
    obtain ⟨x, hx, rfl⟩ := List.mem_map.mp hr
    rw [List.mem_singleton.mp hr']
    exact (hs.all_for x hx).disk_ne

/-- The new parity is made in a buffer of its own. -/
theorem wp_newParity {io : BdevIo} {strips : List Strip} {olds : List Io} {par : Io}
    {data : Nat → B} {k : DmaBuf → Task α} (h : Inv E s) (hs : s.AllDone) (hb : 0 < s.bufs)
    (hsplit : Split E.dev E.stripe io strips) (hold : OldData E io strips olds par s)
    (hdata : ∀ j < io.numBlocks, s.mem 0 j = data j)
    (hk : ∀ t, Inv E t → t.AllDone → t.reqs = s.reqs → t.bufs = s.bufs + 1 →
      t.completions = s.completions → (∀ m < s.bufs, t.mem m = s.mem m) →
      (E.Live → ∀ r < E.dev.stripBlocks, t.mem s.bufs r =
        E.dev.encode (overwrite E.flat io.offsetBlocks io.numBlocks data)
          (E.dev.parityDiskIdx E.stripe) (E.stripe * E.dev.stripBlocks + r)) →
      E.wp sender result (k ⟨s.bufs, E.dev.stripBlocks⟩) Q t) :
    E.wp sender result (DmaBuf.newZeroed E.dev.stripBlocks >>= fun newParity =>
      xor newParity 0 E.dev.stripBlocks par >>= fun _ =>
        xorStrips newParity (strips.zip olds) >>= fun _ => k newParity) Q s := by
  refine wp_newZeroed h fun t1 h1 adv1 hr1 hb1 hz => ?_
  have hs1 := hs.adv adv1 hr1
  have hdst : ∀ r ∈ t1.reqs, r.io.mem ≠ s.bufs := fun r hr => (h.reqs.owned r (hr1 ▸ hr)).ne
  have hmem1 : ∀ {m : Nat}, m < s.bufs → t1.mem m = s.mem m := fun hm =>
    adv1.mem_eq hs (fun c r hc hr => by rw [hr1, List.getElem?_eq_none hc] at hr; cases hr) hm
  refine wp_xor h1 hs1 hdst (Nat.zero_add _).le hold.par_blocks fun t2 h2 calc2 hm2 => ?_
  refine wp_xorStrips h2 (calc2.allDone hs1) (calc2.reqs ▸ hdst) (fun x hx => ?_)
    fun t3 h3 calc3 hm3 => ?_
  · have hfor := hsplit.all_for x.1 (List.of_mem_zip hx).1
    exact ⟨hfor.inStrip, hold.blocks x hx, hfor.numBlocks_eq,
      (hold.owned _ (List.of_mem_zip hx).2).ne, hfor.mem_eq ▸ hb.ne⟩
  have hcalc := calc2.trans calc3
  refine hk t3 h3 (hcalc.allDone hs1) (by rw [hcalc.reqs, hr1]) (by rw [hcalc.bufs, hb1])
    (hcalc.completions.trans adv1.completions)
    (fun m hm => (hcalc.mem _ hm.ne).trans (hmem1 hm)) fun hlive r hr => ?_
  rw [hm3, hm2, if_pos ⟨Nat.zero_le r, by omega⟩, hz, zero_add, Nat.sub_zero,
    ← hold.new_parity hsplit hdata hlive hr, load, hmem1 hold.par_owned, load]
  congr 2
  refine List.map_congr_left fun x hx => ?_
  have hfor := hsplit.all_for x.1 (List.of_mem_zip hx).1
  have hx2 := hold.owned _ (List.of_mem_zip hx).2
  have hx1 : x.1.io.mem < s.bufs := hfor.mem_eq ▸ hb
  unfold stripTerm load
  rw [calc2.mem _ hx2.ne, calc2.mem _ hx1.ne, hmem1 hx2, hmem1 hx1]

theorem wp_writeBack {overflowChecks : Bool} {io : BdevIo} {strips : List Strip} {olds : List Io}
    {par : Io} {cs held : List Nat} {data : Nat → B} (h : Inv E s) (hs : s.AllDone)
    (hno : ∀ r ∈ s.reqs, r.kind ≠ .store) (hc : s.completions = []) (hb : 0 < s.bufs)
    (hshift : E.ShiftOk overflowChecks)
    (hsplit : Split E.dev E.stripe io strips) (hold : OldData E io strips olds par s)
    (hdata : ∀ j < io.numBlocks, s.mem 0 j = data j)
    (hcs : ∀ c ∈ cs, c < s.ios.length) (hheld : ∀ c ∈ held, c < s.ios.length) :
    E.wp sender (E.WriteResult io data)
      (writeBack E.dev overflowChecks sender E.stripe strips olds par cs held)
      (fun _ t => E.End sender (overwrite E.flat io.offsetBlocks io.numBlocks data) t) s := by
  unfold writeBack
  refine wp_newParity h hs hb hsplit hold hdata
    fun t3 h3 hs3 hreqs3 hbufs3 hcomp3 hmem3 hpar3 => ?_
  -- the writes
  obtain ⟨p, hp⟩ : ∃ p, p = Io.newBuf ⟨s.bufs, E.dev.stripBlocks⟩ (E.stripe * E.dev.stripBlocks) :=
    ⟨_, rfl⟩
  have hoff : p.offsetBlocks = E.stripe * E.dev.stripBlocks := by rw [hp]; rfl
  have hnum : p.numBlocks = E.dev.stripBlocks := by rw [hp]; rfl
  have hlenrs : (E.storeReqs strips p).length = strips.length + 1 := by simp [Setting.storeReqs]
  show E.wp sender _ (submitAll (E.storeReqs strips _) >>= _) _ t3
  rw [← hp]
  refine wp_submitAll h3 ?_ (fun r hr => ⟨fun _ c x hx _ => hs3.at hx, fun hk =>
    absurd (storeReqs_store hr) hk⟩) (Or.inl fun r => storeReqs_store) fun t4 h4 adv4 hr4 hb4 => ?_
  · refine h3.reqs.append (Nat.le_refl _) (storeReqs_ok hsplit (by omega) ?_ hoff hnum) ?_ ?_
    · rw [hp, hbufs3]
      exact Nat.lt_succ_self _
    · exact fun r _ r' hr' _ hk => absurd (storeReqs_store hr') hk
    · exact fun r hr r' _ hk => absurd hk (hno r (hreqs3 ▸ hr))
  have hlen3 : t3.reqs.length = t3.ios.length := length_reqs t3
  have hdn : (strips.map (·.disk) ++ [E.dev.parityDiskIdx E.stripe]).length =
      strips.length + 1 := by simp
  rw [hlenrs]
  refine wp_awaitCount h4 hdn hshift (fun i d hd => ?_) fun t5 failed f h5 ext5 haw hcnt => ?_
  · rw [hr4, List.getElem?_append_right (by omega), ← hlen3, Nat.add_sub_cancel_left,
      ← List.getElem?_map, storeReqs_disks, hd]
  have hreqs5 : t5.reqs = s.reqs ++ E.storeReqs strips p := by rw [ext5.reqs, hr4, hreqs3]
  have hlen5 : t5.ios.length = t3.ios.length + (strips.length + 1) := by
    rw [← length_reqs, ext5.reqs, hr4, List.length_append, hlenrs, hlen3]
  have hs5 : t5.AllDone := by
    intro c hc
    by_cases hlt : c < t3.ios.length
    · obtain ⟨b, hb⟩ := hs3 c hlt
      exact ⟨b, ext5.done' (adv4.done c b hb)⟩
    · exact haw.done (List.mem_range'_1.mpr ⟨by omega, by omega⟩)
  have hmem5 : ∀ {m : Nat}, m < t3.bufs → t5.mem m = t3.mem m := by
    intro m hm
    refine (adv4.trans ext5.adv).mem_eq hs3 (fun c r hc hr => ?_) hm
    rw [hreqs5, ← hreqs3, List.getElem?_append_right hc] at hr
    exact storeReqs_store (List.mem_of_getElem? hr)
  refine wp_finishWrite h5 hs5 ?_ hsplit ⟨?_, ?_, ?_, hoff, hnum⟩ ?_ ?_ hdn haw hcnt ?_ ?_
  · rw [ext5.completions, adv4.completions, hcomp3, hc]
  · intro y hy
    rw [hreqs5]
    exact List.mem_append_right _ (mem_storeReqs.mpr (Or.inr ⟨y, hy, rfl⟩))
  · rw [hreqs5]
    exact List.mem_append_right _ (mem_storeReqs.mpr (Or.inl rfl))
  · intro r hr hk
    rw [hreqs5] at hr
    rcases List.mem_append.mp hr with hr | hr
    · exact absurd hk (hno r hr)
    · exact mem_storeReqs.mp hr
  · intro j hj
    rw [hmem5 (by omega), hmem3 0 hb, hdata j hj]
  · intro hlive r hr
    rw [← hpar3 hlive r hr, load, hp]
    show t5.mem s.bufs (0 + r) = _
    rw [hmem5 (by omega), Nat.zero_add]
  · intro c r hr hk
    have hlt := (List.getElem?_eq_some_iff.mp hr).1
    rw [length_reqs, hlen5] at hlt
    by_cases hc : c < s.reqs.length
    · rw [hreqs5, List.getElem?_append_left hc] at hr
      exact absurd hk (hno r (List.mem_of_getElem? hr))
    · rw [← hreqs3, hlen3] at hc
      exact ⟨c - t3.ios.length, by omega, by omega⟩
  · have hw : ∀ c ∈ List.range' t3.ios.length (strips.length + 1), c < t5.ios.length := by
      intro c hc
      have := (List.mem_range'_1.mp hc).2
      omega
    have hle : s.ios.length ≤ t5.ios.length := by
      rw [hlen5, ← hlen3, hreqs3, length_reqs]
      exact Nat.le_add_right ..
    refine hs5.drops fun r hr => ?_
    simp only [List.mem_append, List.mem_map] at hr
    rcases hr with (((⟨c, hc, rfl⟩ | ⟨c, hc, rfl⟩) | ⟨c, hc, rfl⟩) | ⟨c, hc, rfl⟩) | ⟨c, hc, rfl⟩
    · exact ⟨c, hw c (List.mem_of_mem_drop hc), Or.inr rfl⟩
    · exact ⟨c, hw c hc, Or.inl rfl⟩
    · exact ⟨c, (hcs c hc).trans_le hle, Or.inl rfl⟩
    · exact ⟨c, (hheld c hc).trans_le hle, Or.inr rfl⟩
    · exact ⟨c, hw c (List.mem_of_mem_take hc), Or.inr rfl⟩

/-! ## Phase 1 of a partial write -/

omit [XorGroup B] in
theorem oldIos_get {base b i : Nat} {strips : List Strip} {x : Strip} {o : Io}
    (hx : strips[i]? = some x)
    (ho : (List.zipWith (fun (s : Strip) c => Io.newBuf c (base + s.offsetInStrip)) strips
      (numbered b (strips.map (·.blocks))))[i]? = some o) :
    o = Io.newBuf ⟨b + i, x.blocks⟩ (base + x.offsetInStrip) := by
  rw [List.getElem?_zipWith, hx] at ho
  split at ho
  · rename_i y c hy hc
    cases hy
    obtain ⟨hid, hblocks⟩ := numbered_get hc
    rw [List.getElem?_map, hx] at hblocks
    obtain ⟨id, blocks⟩ := c
    cases hblocks
    cases hid
    exact (Option.some.inj ho).symm
  · cases ho

/-- The buffers for the old contents, as they are allocated from number `b` on. -/
structure OldBufs (E : Setting B) (strips : List Strip) (b : Nat) (olds : List Io) (par : Io) :
    Prop where
  length : olds.length = strips.length
  strip : ∀ (i : Nat) (x : Strip) (o : Io), strips[i]? = some x → olds[i]? = some o →
    o = Io.newBuf ⟨b + i, x.blocks⟩ (E.stripe * E.dev.stripBlocks + x.offsetInStrip)
  parity : par = Io.newBuf ⟨b + strips.length, E.dev.stripBlocks⟩ (E.stripe * E.dev.stripBlocks)

namespace OldBufs
variable {io : BdevIo} {strips : List Strip} {b : Nat} {olds : List Io} {par : Io}

omit [XorGroup B] in
theorem req_strip (h : OldBufs E strips b olds par) {i : Nat} {x : Strip}
    (hx : strips[i]? = some x) :
    (oldReqs E.dev E.stripe strips olds par)[i]? = some ⟨.fetch, x.disk,
      Io.newBuf ⟨b + i, x.blocks⟩ (E.stripe * E.dev.stripBlocks + x.offsetInStrip)⟩ := by
  have hi := (List.getElem?_eq_some_iff.mp hx).1
  obtain ⟨o, ho⟩ : ∃ o, olds[i]? = some o := ⟨_, List.getElem?_eq_getElem (h.length.symm ▸ hi)⟩
  rw [oldReqs, List.getElem?_append_left (by simp [h.length, hi]), List.getElem?_zipWith, hx, ho,
    ← h.strip i x o hx ho]

omit [XorGroup B] in
theorem req_parity (h : OldBufs E strips b olds par) :
    (oldReqs E.dev E.stripe strips olds par)[strips.length]? =
      some ⟨.fetch, E.dev.parityDiskIdx E.stripe,
        Io.newBuf ⟨b + strips.length, E.dev.stripBlocks⟩ (E.stripe * E.dev.stripBlocks)⟩ := by
  have hlen : (List.zipWith (fun (s : Strip) io => (⟨.fetch, s.disk, io⟩ : ChildReq)) strips
      olds).length = strips.length := by simp [h.length]
  rw [oldReqs, List.getElem?_append_right hlen.le, hlen, Nat.sub_self, h.parity]
  rfl

omit [XorGroup B] in
theorem length_reqs (h : OldBufs E strips b olds par) :
    (oldReqs E.dev E.stripe strips olds par).length = strips.length + 1 := by
  simp [oldReqs, h.length]

omit [XorGroup B] in
theorem req_cases (h : OldBufs E strips b olds par) {i : Nat} {r : ChildReq}
    (hr : (oldReqs E.dev E.stripe strips olds par)[i]? = some r) :
    (∃ x, strips[i]? = some x ∧ r = ⟨.fetch, x.disk,
        Io.newBuf ⟨b + i, x.blocks⟩ (E.stripe * E.dev.stripBlocks + x.offsetInStrip)⟩) ∨
      (i = strips.length ∧ r = ⟨.fetch, E.dev.parityDiskIdx E.stripe,
        Io.newBuf ⟨b + i, E.dev.stripBlocks⟩ (E.stripe * E.dev.stripBlocks)⟩) := by
  have hi := (List.getElem?_eq_some_iff.mp hr).1
  rw [h.length_reqs] at hi
  rcases Nat.lt_succ_iff_lt_or_eq.mp hi with hlt | rfl
  · have hx : strips[i]? = some strips[i] := List.getElem?_eq_getElem hlt
    rw [h.req_strip hx] at hr
    exact Or.inl ⟨_, hx, (Option.some.inj hr).symm⟩
  · rw [h.req_parity] at hr
    exact Or.inr ⟨rfl, (Option.some.inj hr).symm⟩

omit [XorGroup B] in
theorem disks (h : OldBufs E strips b olds par) :
    (oldReqs E.dev E.stripe strips olds par).map (·.disk) =
      strips.map (·.disk) ++ [E.dev.parityDiskIdx E.stripe] := by
  rw [oldReqs, List.map_append, List.map_zipWith]
  exact congrArg (· ++ _) (zipWith_left h.length.symm fun _ _ => rfl)

omit [XorGroup B] in
theorem fetch (h : OldBufs E strips b olds par) :
    ∀ r ∈ oldReqs E.dev E.stripe strips olds par, r.kind ≠ .store := by
  intro r hr
  obtain ⟨i, hi⟩ := List.mem_iff_getElem?.mp hr
  rcases h.req_cases hi with ⟨x, _, rfl⟩ | ⟨_, rfl⟩ <;> exact Kind.fetch_ne_store

omit [XorGroup B] in
theorem reqs_ok (h : OldBufs E strips b olds par) (hs : Split E.dev E.stripe io strips) :
    ReqsOk E (b + strips.length + 1) (oldReqs E.dev E.stripe strips olds par) := by
  have hmem : ∀ {i : Nat} {r : ChildReq}, (oldReqs E.dev E.stripe strips olds par)[i]? = some r →
      r.io.mem = b + i ∧ i < strips.length + 1 := by
    intro i r hr
    refine ⟨?_, h.length_reqs ▸ (List.getElem?_eq_some_iff.mp hr).1⟩
    rcases h.req_cases hr with ⟨x, _, rfl⟩ | ⟨_, rfl⟩ <;> rfl
  refine ⟨fun r hr => ?_, fun r hr j hj => ?_, fun r hr => ?_, ?_, ?_⟩
  · obtain ⟨i, hi⟩ := List.mem_iff_getElem?.mp hr
    rcases h.req_cases hi with ⟨x, hx, rfl⟩ | ⟨_, rfl⟩
    · exact (hs.all_for x (List.mem_of_getElem? hx)).disk_lt
    · exact E.dev.parityDiskIdx_lt _
  · obtain ⟨i, hi⟩ := List.mem_iff_getElem?.mp hr
    rcases h.req_cases hi with ⟨x, hx, rfl⟩ | ⟨_, rfl⟩
    · have hfor := hs.all_for x (List.mem_of_getElem? hx)
      exact hfor.offset_eq ▸ hfor.row hj
    · exact row_div E.dev hj
  · obtain ⟨i, hi⟩ := List.mem_iff_getElem?.mp hr
    have := hmem hi
    omega
  · refine List.pairwise_iff_getElem.mpr fun i j hi hj hlt _ _ => apart_of_mem_ne ?_
    have hi' := (hmem (List.getElem?_eq_getElem hi)).1
    have hj' := (hmem (List.getElem?_eq_getElem hj)).1
    omega
  · refine List.Pairwise.imp_of_mem ?_ (List.pairwise_of_forall fun _ _ => trivial)
    intro r r' hr _ _ hst
    exact absurd hst (h.fetch r hr)

end OldBufs

theorem Inv.landed_at (h : Inv E s) (hlive : E.Live) {c : Nat} {r : ChildReq}
    (hr : s.reqs[c]? = some r) (hk : r.kind ≠ .store) (hd : s.Done c true) {j : Nat}
    (hj : j < r.io.numBlocks) :
    load r.io s.mem j = E.dev.encode E.flat r.disk (r.io.offsetBlocks + j) := by
  obtain ⟨x, hx, rfl, hb⟩ := Proc.done_at hr hd
  have hl : x.phase.Landed := Or.inr hb
  exact h.landed c x hx hk hl (hlive.answers _ ((h.permitted c x hx).1 hl)) j hj

/-- The child reads of phase 1 have all ended. -/
structure Loaded (E : Setting B) (io : BdevIo) (strips : List Strip) (b : Nat) (olds : List Io)
    (par : Io) (failed : List Nat) (data : Nat → B) (s : Proc B) : Prop where
  inv : Inv E s
  split : Split E.dev E.stripe io strips
  bufs : OldBufs E strips b olds par
  room : b + strips.length < s.bufs
  zero : 0 < b
  reqs : s.reqs = oldReqs E.dev E.stripe strips olds par
  awaited : Awaited s 0 (strips.length + 1) failed
  completions : s.completions = []
  data : ∀ j < io.numBlocks, s.mem 0 j = data j

namespace Loaded
variable {io : BdevIo} {strips : List Strip} {b : Nat} {olds : List Io} {par : Io}
  {failed : List Nat} {data : Nat → B} {t : Proc B}

theorem length_ios (h : Loaded E io strips b olds par failed data s) :
    s.ios.length = strips.length + 1 := by
  rw [← Raid5.length_reqs, h.reqs, h.bufs.length_reqs]

theorem allDone (h : Loaded E io strips b olds par failed data s) : s.AllDone := fun c hc =>
  h.awaited.done (List.mem_range'_1.mpr ⟨Nat.zero_le c, by rw [h.length_ios] at hc; omega⟩)

theorem noStore (h : Loaded E io strips b olds par failed data s) :
    ∀ r ∈ s.reqs, r.kind ≠ .store := by
  rw [h.reqs]
  exact h.bufs.fetch

theorem strip_shown (h : Loaded E io strips b olds par failed data s) (ht : Inv E t)
    (hpre : s.reqs <+: t.reqs) (hd : ∀ c b, s.Done c b → t.Done c b) (hlive : E.Live) {i : Nat}
    {x : Strip} {o : Io} (hx : strips[i]? = some x) (ho : olds[i]? = some o) (hi : i ∉ failed)
    {j : Nat} (hj : j < x.blocks) :
    load o t.mem j = E.flat (io.offsetBlocks + (x.io.start + j)) := by
  have hfor := h.split.all_for x (List.mem_of_getElem? hx)
  have hdone := h.awaited.good i (Nat.lt_succ_of_lt (List.getElem?_eq_some_iff.mp hx).1) hi
  rw [Nat.zero_add] at hdone
  have hat := h.bufs.req_strip hx
  rw [← h.bufs.strip i x o hx ho, ← h.reqs] at hat
  have := ht.landed_at hlive (prefix_get hpre hat) Kind.fetch_ne_store (hd i true hdone) (j := j)
    (by rw [h.bufs.strip i x o hx ho]; exact hj)
  rw [this, h.bufs.strip i x o hx ho]
  show E.dev.encode E.flat x.disk (E.stripe * E.dev.stripBlocks + x.offsetInStrip + j) = _
  rw [← hfor.offset_eq, hfor.encode_eq E.flat hj, Nat.add_assoc]

theorem parity_shown (h : Loaded E io strips b olds par failed data s) (ht : Inv E t)
    (hpre : s.reqs <+: t.reqs) (hd : ∀ c b, s.Done c b → t.Done c b) (hlive : E.Live)
    (hi : strips.length ∉ failed) {r : Nat} (hr : r < E.dev.stripBlocks) : load par t.mem r =
      E.dev.encode E.flat (E.dev.parityDiskIdx E.stripe) (E.stripe * E.dev.stripBlocks + r) := by
  have hdone := h.awaited.good strips.length (Nat.lt_succ_self _) hi
  rw [Nat.zero_add] at hdone
  have hat := h.bufs.req_parity
  rw [← h.bufs.parity, ← h.reqs] at hat
  have := ht.landed_at hlive (prefix_get hpre hat) Kind.fetch_ne_store (hd _ true hdone) (j := r)
    (by rw [h.bufs.parity]; exact hr)
  rw [this, h.bufs.parity]
  rfl

/-- The old contents for phase 2: what was read, and what was reconstructed instead. -/
theorem oldData (h : Loaded E io strips b olds par failed data s) (ht : Inv E t)
    (hpre : s.reqs <+: t.reqs) (hd : ∀ c b, s.Done c b → t.Done c b) (hb : s.bufs ≤ t.bufs)
    {olds' : List Io} {par' : Io} (hlen : olds'.length = strips.length)
    (hstrip : ∀ (i : Nat) (x : Strip) (o : Io), strips[i]? = some x → olds'[i]? = some o →
      (i ∉ failed ∧ olds[i]? = some o) ∨ (o.numBlocks = x.blocks ∧ o.mem < t.bufs ∧
        (E.Live → ∀ j < x.blocks,
          load o t.mem j = E.flat (io.offsetBlocks + (x.io.start + j)))))
    (hpar : (strips.length ∉ failed ∧ par' = par) ∨ (par'.numBlocks = E.dev.stripBlocks ∧
      par'.mem < t.bufs ∧ (E.Live → ∀ r < E.dev.stripBlocks, load par' t.mem r =
        E.dev.encode E.flat (E.dev.parityDiskIdx E.stripe)
          (E.stripe * E.dev.stripBlocks + r)))) :
    OldData E io strips olds' par' t := by
  have hroom := h.room
  have hzip : ∀ x ∈ strips.zip olds', ∃ i : Nat, strips[i]? = some x.1 ∧ olds'[i]? = some x.2 := by
    intro x hx
    obtain ⟨i, hi⟩ := List.mem_iff_getElem?.mp hx
    exact ⟨i, List.getElem?_zip_eq_some.mp hi⟩
  refine ⟨hlen, fun x hx => ?_, fun o ho => ?_, ?_, ?_, fun hlive x hx j hj => ?_,
    fun hlive r hr => ?_⟩
  · obtain ⟨i, hx1, hx2⟩ := hzip x hx
    rcases hstrip i x.1 x.2 hx1 hx2 with ⟨_, ho⟩ | ⟨hn, _⟩
    · rw [h.bufs.strip i x.1 x.2 hx1 ho]
      rfl
    · exact hn
  · obtain ⟨i, hi⟩ := List.mem_iff_getElem?.mp ho
    have hlt := (List.getElem?_eq_some_iff.mp hi).1
    obtain ⟨x, hx⟩ : ∃ x, strips[i]? = some x := ⟨_, List.getElem?_eq_getElem (hlen ▸ hlt)⟩
    rcases hstrip i x o hx hi with ⟨_, ho'⟩ | ⟨_, hm, _⟩
    · rw [h.bufs.strip i x o hx ho']
      show b + i < t.bufs
      omega
    · exact hm
  · rcases hpar with ⟨_, rfl⟩ | ⟨hn, _⟩
    · rw [h.bufs.parity]
      rfl
    · exact hn
  · rcases hpar with ⟨_, rfl⟩ | ⟨_, hm, _⟩
    · rw [h.bufs.parity]
      show b + strips.length < t.bufs
      omega
    · exact hm
  · obtain ⟨i, hx1, hx2⟩ := hzip x hx
    rcases hstrip i x.1 x.2 hx1 hx2 with ⟨hi, ho⟩ | ⟨_, _, hs⟩
    · exact h.strip_shown ht hpre hd hlive hx1 ho hi hj
    · exact hs hlive j hj
  · rcases hpar with ⟨hi, rfl⟩ | ⟨_, _, hs⟩
    · exact h.parity_shown ht hpre hd hlive hi hr
    · exact hs hlive r hr

/-- The disk of the child read at place `k`. -/
theorem failed_at (h : Loaded E io strips b olds par failed data s) {k : Nat} (hk : k ∈ failed) :
    ∃ d, (strips.map (·.disk) ++ [E.dev.parityDiskIdx E.stripe])[k]? = some d ∧ E.Failed s d := by
  obtain ⟨hlt, hd⟩ := h.awaited.bad k hk
  rw [Nat.zero_add] at hd
  obtain ⟨x, hx, hb⟩ := hd
  refine ⟨x.req.disk, ?_, h.inv.failed (reqs_at hx) ⟨x, hx, hb⟩⟩
  rw [← h.bufs.disks, ← h.reqs, List.getElem?_map, reqs_at hx]
  rfl

theorem disks_ne (h : Loaded E io strips b olds par failed data s) {i j x y : Nat}
    (hx : (strips.map (·.disk) ++ [E.dev.parityDiskIdx E.stripe])[i]? = some x)
    (hy : (strips.map (·.disk) ++ [E.dev.parityDiskIdx E.stripe])[j]? = some y) (hne : i ≠ j) :
    x ≠ y := by
  refine pairwise_at (R := (· ≠ ·)) ?_ (fun _ _ => Ne.symm) hx hy hne
  refine List.pairwise_append.mpr ⟨?_, List.pairwise_singleton .., ?_⟩
  · exact List.pairwise_map.mpr (h.split.disks.imp fun hlt => Nat.ne_of_lt hlt)
  · intro d hd p hp
    obtain ⟨x, hx, rfl⟩ := List.mem_map.mp hd
    rw [List.mem_singleton.mp hp]
    exact (h.split.all_for x hx).disk_ne

/-- The end of a write that two disks have failed before it wrote anything. -/
theorem wp_giveUp (h : Loaded E io strips b olds par failed data s) (ht : Inv E t)
    (hd : ∀ c b, s.Done c b → t.Done c b) (hno : ∀ r ∈ t.reqs, r.kind ≠ .store)
    (hc : t.completions = []) (hall : E.prompt → t.AllDone) {x y : Nat} (hne : x ≠ y)
    (hx : E.Failed t x) (hy : E.Failed t y) :
    E.wp sender (E.WriteResult io data) (completeOn sender .failure >>= fun _ =>
      dropAll ((List.range' 0 (strips.length + 1)).map .ctx ++
        (List.range' 0 (strips.length + 1)).map .io))
      (fun _ u => E.End sender (overwrite E.flat io.offsetBlocks io.numBlocks data) u) t := by
  refine wp_finish ht hc hall
    (fun u _ hext => ⟨x, hx.adv (by rw [hext.reqs]) fun c b => hext.done'⟩)
    (fun r hr => ?_) fun u hu hr hdu hcu _ =>
      ⟨hu, ⟨_, hcu⟩, fun c z hz hk => absurd hk (hno _ (hr ▸ reqs_mem hz)),
        Or.inl ⟨hu.leaves_flat (hr ▸ hno), x, y, hne, hx.adv (by rw [hr]) hdu,
          hy.adv (by rw [hr]) hdu⟩⟩
  rcases List.mem_append.mp hr with hr | hr <;> obtain ⟨c, hc, rfl⟩ := List.mem_map.mp hr
  · obtain ⟨b, hb⟩ := h.awaited.done hc
    exact ⟨c, b, hd c b hb, Or.inl rfl⟩
  · obtain ⟨b, hb⟩ := h.awaited.done hc
    exact ⟨c, b, hd c b hb, Or.inr rfl⟩

/-- Phases 2 and 3 once the reconstruction of the one failed strip has succeeded. -/
theorem wp_resume (h : Loaded E io strips b olds par failed data s) {overflowChecks : Bool}
    (hshift : E.ShiftOk overflowChecks)
    (ht : Inv E t) (reb : Rebuilt s t) (hall : t.AllDone) {olds' : List Io} {par' : Io}
    (hold : OldData E io strips olds' par' t) {gone held : List Nat}
    (hgone : ∀ c ∈ gone, c < strips.length + 1) (hheld : ∀ c ∈ held, c < strips.length + 1) :
    E.wp sender (E.WriteResult io data) (dropAll (gone.map .io) >>= fun _ =>
      writeBack E.dev overflowChecks sender E.stripe strips olds' par'
        (List.range' 0 (strips.length + 1)) held)
      (fun _ u => E.End sender (overwrite E.flat io.offsetBlocks io.numBlocks data) u) t := by
  have hle : strips.length + 1 ≤ t.ios.length := by
    obtain ⟨rs, hr, _⟩ := reb.reqs
    rw [← Raid5.length_reqs, hr, List.length_append, Raid5.length_reqs, h.length_ios]
    exact Nat.le_add_right ..
  refine wp_dropAll ht (fun r hr u _ hext => ?_) fun u hu hext => ?_
  · obtain ⟨c, hc, rfl⟩ := List.mem_map.mp hr
    obtain ⟨b, hb⟩ := hall c ((hgone c hc).trans_le hle)
    exact ((hext.done' hb).dropOk fun _ => hall.adv hext.adv hext.reqs).2
  · obtain ⟨hios, hmem⟩ := hext.same hall
    have hno : ∀ r ∈ u.reqs, r.kind ≠ .store := hext.reqs ▸ reb.noStore h.noStore
    have hbufs : 0 < s.bufs := by have := h.room; omega
    have hold' : OldData E io strips olds' par' u := by
      obtain ⟨h1, h2, h3, h4, h5, h6, h7⟩ := hold
      exact ⟨h1, h2, hext.bufs.symm ▸ h3, h4, hext.bufs.symm ▸ h5, hmem.symm ▸ h6, hmem.symm ▸ h7⟩
    refine wp_writeBack hu (hall.adv hext.adv hext.reqs) hno ?_ ?_ hshift h.split hold' ?_ ?_ ?_
    · rw [hext.completions, reb.completions, h.completions]
    · rw [hext.bufs]
      exact hbufs.trans_le reb.bufs
    · rw [hmem, reb.mem 0 hbufs]
      exact h.data
    · intro c hc
      rw [hios]
      have := (List.mem_range'_1.mp hc).2
      omega
    · intro c hc
      rw [hios]
      exact (hheld c hc).trans_le hle

/-- The rest of a partial write when one child read of phase 1 has failed, of disk `d`. -/
theorem wp_oneFailed {k d : Nat} (h : Loaded E io strips b olds par [k] data s)
    {overflowChecks : Bool}
    (hshift : E.ShiftOk overflowChecks)
    (hd : (strips.map (·.disk) ++ [E.dev.parityDiskIdx E.stripe])[k]? = some d)
    (hf : E.Failed s d) :
    E.wp sender (E.WriteResult io data)
      (writeReconstructed E.dev overflowChecks sender E.stripe strips olds par
        (List.range' 0 (strips.length + 1)) d)
      (fun _ u => E.End sender (overwrite E.flat io.offsetBlocks io.numBlocks data) u) s := by
  unfold writeReconstructed
  have hlt := (List.getElem?_eq_some_iff.mp hd).1
  rw [List.length_append, List.length_map, List.length_singleton] at hlt
  have hroom := h.room
  split
  · rename_i hp
    subst hp
    have hk : k = strips.length := by
      by_contra hne
      refine h.disks_ne hd (y := E.dev.parityDiskIdx E.stripe) ?_ hne rfl
      simp
    subst hk
    refine wp_reconstruct h.inv h.allDone h.noStore (E.dev.parityDiskIdx_lt _)
      (fun j hj => row_div E.dev hj) (fun t buf ht reb hall hlen hge hlt _ hdata => ?_)
      fun t ht reb hall hbad => ?_
    · refine h.wp_resume hshift ht reb hall ?_ ?_ ?_
      · refine h.oldData ht reb.extends reb.done reb.bufs h.bufs.length
          (fun i x o hx ho => Or.inl ⟨?_, ho⟩) (Or.inr ⟨hlen, hlt, fun hlive r hr => ?_⟩)
        · have := (List.getElem?_eq_some_iff.mp hx).1
          simp
          omega
        · rw [← hdata hlive r hr]
          show t.mem buf.id (0 + r) = _
          rw [Nat.zero_add]
      · exact fun c hc => (List.mem_range'_1.mp (List.mem_of_mem_drop hc)).2.trans_eq (by simp)
      · exact fun c hc => (List.mem_range'_1.mp (List.mem_of_mem_take hc)).2.trans_eq (by simp)
    · obtain ⟨x, hne, hx⟩ := hbad
      exact h.wp_giveUp ht reb.done (reb.noStore h.noStore) (reb.completions.trans h.completions)
        hall hne.symm (hf.adv reb.extends reb.done) hx
  · rename_i hp
    -- a data strip: its place among the strips is that of the failed read
    have hk : k < strips.length := by
      by_contra hge
      have hkn : k = strips.length := by omega
      rw [hkn] at hd
      simp at hd
      exact hp hd.symm
    obtain ⟨x, hx⟩ : ∃ x, strips[k]? = some x := ⟨_, List.getElem?_eq_getElem hk⟩
    have hxd : x.disk = d := by
      rw [List.getElem?_append_left (by simpa using hk), List.getElem?_map, hx] at hd
      exact Option.some.inj hd
    have hfind : strips.findIdx? (·.disk = d) = some k := by
      refine List.findIdx?_eq_some_iff_getElem.mpr ⟨hk, ?_, fun i hi => ?_⟩
      · have := (List.getElem?_eq_some_iff.mp hx).2
        simp [this, hxd]
      · have hxi : strips[i]? = some strips[i] := List.getElem?_eq_getElem (hi.trans hk)
        have := h.split.disk_ne hxi hx (Nat.ne_of_lt hi)
        simpa [hxd] using this
    have hfor := h.split.all_for x (List.mem_of_getElem? hx)
    simp only [hfind, hx]
    refine wp_reconstruct h.inv h.allDone h.noStore (hxd ▸ hfor.disk_lt)
      (fun j hj => hfor.offset_eq ▸ hfor.row hj) (fun t buf ht reb hall hlen hge hid _ hdata => ?_)
      fun t ht reb hall hbad => ?_
    · refine h.wp_resume hshift ht reb hall ?_ ?_ ?_
      · refine h.oldData ht reb.extends reb.done reb.bufs (by rw [List.length_set, h.bufs.length])
          (fun i y o hy ho => ?_) (Or.inl ⟨by simp; omega, rfl⟩)
        by_cases hik : i = k
        · subst hik
          cases hx.symm.trans hy
          rw [List.getElem?_set_self (h.bufs.length ▸ hk)] at ho
          cases ho
          refine Or.inr ⟨hlen, hid, fun hlive j hj => ?_⟩
          show t.mem buf.id (0 + j) = _
          rw [Nat.zero_add, hdata hlive j hj, ← hfor.offset_eq, ← hxd, hfor.encode_eq E.flat hj,
            Nat.add_assoc]
        · rw [List.getElem?_set_ne (Ne.symm hik)] at ho
          exact Or.inl ⟨by simpa using hik, ho⟩
      · exact fun c hc => (List.mem_range'_1.mp
          (List.mem_of_mem_drop (List.mem_of_mem_take hc))).2.trans_eq (by simp)
      · exact fun c hc => (List.mem_range'_1.mp (List.mem_of_mem_eraseIdx hc)).2.trans_eq (by simp)
    · obtain ⟨y, hne, hy⟩ := hbad
      exact h.wp_giveUp ht reb.done (reb.noStore h.noStore) (reb.completions.trans h.completions)
        hall hne.symm (hf.adv reb.extends reb.done) hy

end Loaded

/-- **A partial write.** It completes once; unless two disks fail its reads, the new
contents are then in place on every disk that failed no write. -/
theorem wp_writePartialStripe {overflowChecks : Bool} {io : BdevIo} {data : Nat → B}
    (h : Inv E s) (hios : s.ios = []) (hc : s.completions = []) (hb : 0 < s.bufs)
    (hk : E.dev.stripeIdx io.offsetBlocks = E.stripe) (hfit : ¬ E.dev.crossesStripe io)
    (hshift : E.ShiftOk overflowChecks)
    (hdata : ∀ j < io.numBlocks, s.mem 0 j = data j) :
    E.wp sender (E.WriteResult io data)
      (writePartialStripe E.dev overflowChecks sender io E.stripe)
      (fun _ t => E.End sender (overwrite E.flat io.offsetBlocks io.numBlocks data) t) s := by
  obtain ⟨strips, hsplit, hs⟩ := split_request E.dev hfit
  rw [hk] at hsplit hs
  have hreqs : s.reqs = [] := by rw [Proc.reqs, hios]; rfl
  have hall : s.AllDone := fun c hc => by simp [hios] at hc
  unfold writePartialStripe
  simp only [hsplit]
  refine wp_newBufs h fun t1 h1 adv1 hr1 hb1 => ?_
  rw [List.length_map] at hb1
  refine wp_new h1 fun t2 h2 adv2 hr2 hb2 => ?_
  rw [hb1]
  obtain ⟨olds, holds⟩ : ∃ olds, olds = List.zipWith (fun (s : Strip) c =>
    Io.newBuf c (E.stripe * E.dev.stripBlocks + s.offsetInStrip)) strips
      (numbered s.bufs (strips.map (·.blocks))) := ⟨_, rfl⟩
  obtain ⟨par, hpar⟩ : ∃ par, par = Io.newBuf ⟨s.bufs + strips.length, E.dev.stripBlocks⟩
    (E.stripe * E.dev.stripBlocks) := ⟨_, rfl⟩
  have hob : OldBufs E strips s.bufs olds par := by
    refine ⟨by rw [holds, List.length_zipWith, length_numbered, List.length_map, Nat.min_self],
      fun i x o hx ho => oldIos_get hx (holds ▸ ho), hpar⟩
  rw [← holds, ← hpar]
  have hreqs2 : t2.reqs = [] := by rw [hr2, hr1, hreqs]
  have hall1 := hall.adv adv1 hr1
  refine wp_submitAll h2 ?_ (fun r hr => ⟨fun hst => absurd hst (hob.fetch r hr), fun _ => by
    simp [hreqs2]⟩) (Or.inr hob.fetch) fun t3 h3 adv3 hr3 hb3 => ?_
  · rw [hreqs2, List.nil_append, hb2, hb1]
    exact hob.reqs_ok hs
  have hlen2 : t2.ios.length = 0 := by rw [← length_reqs, hreqs2]; rfl
  rw [hreqs2, List.nil_append] at hr3
  rw [hlen2, hob.length_reqs]
  refine wp_awaitCount h3 (by simp) hshift (fun i d hd => ?_) fun t failed f ht ext3 haw hcnt => ?_
  · rw [hr3, Nat.zero_add, ← List.getElem?_map, hob.disks, hd]
  have hreqst : t.reqs = oldReqs E.dev E.stripe strips olds par := by rw [ext3.reqs, hr3]
  have hadv := ((adv1.trans adv2).trans adv3).trans ext3.adv
  have hl : Loaded E io strips s.bufs olds par failed data t := by
    refine ⟨ht, hs, hob, ?_, hb, hreqst, haw, hadv.completions.trans hc, fun j hj => ?_⟩
    · rw [ext3.bufs, hb3, hb2, hb1]
      exact Nat.lt_succ_self _
    · rw [hadv.mem 0 hb j ?_ fun c r _ hr _ hcov => ?_, hdata j hj]
      · rintro ⟨c, x, hx, _⟩
        rw [hios] at hx
        cases hx
      · rw [hreqst] at hr
        rcases hob.req_cases hr with ⟨x, _, rfl⟩ | ⟨_, rfl⟩
        all_goals
          have hm : s.bufs + c = 0 := hcov.1
          omega
  rcases failed with _ | ⟨k1, _ | ⟨k2, rest⟩⟩
  · rw [if_neg (by rw [hcnt.nfailures]; simp), if_neg (by rw [hcnt.nfailures]; simp)]
    have hcs : ∀ c ∈ List.range' 0 (strips.length + 1), c < t.ios.length := fun c hc => by
      rw [hl.length_ios]
      have := (List.mem_range'_1.mp hc).2
      omega
    refine wp_writeBack ht hl.allDone hl.noStore hl.completions (by have := hl.room; omega) hshift
      hs ?_ hl.data hcs hcs
    exact hl.oldData ht (List.prefix_refl _) (fun _ _ => id) (Nat.le_refl _) hob.length
      (fun i x o _ ho => Or.inl ⟨by simp, ho⟩) (Or.inl ⟨by simp, rfl⟩)
  · rw [if_neg (by rw [hcnt.nfailures]; simp), if_pos (by rw [hcnt.nfailures]; simp)]
    obtain ⟨d, hd, hfd⟩ := hl.failed_at (k := k1) (by simp)
    rw [hcnt.last k1 rfl, hd]
    exact hl.wp_oneFailed hshift hd hfd
  · rw [if_pos (by rw [hcnt.nfailures]; simp), completeWrite_eq sender
      (fun h1 => by rw [hcnt.nfailures] at h1; simp at h1), if_neg (by rw [hcnt.nfailures]; simp)]
    have hlt := (List.pairwise_cons.mp hl.awaited.sorted).1 k2 (by simp)
    obtain ⟨x, hx, hfx⟩ := hl.failed_at (k := k1) (by simp)
    obtain ⟨y, hy, hfy⟩ := hl.failed_at (k := k2) (by simp)
    exact hl.wp_giveUp ht (fun _ _ => id) hl.noStore hl.completions (fun _ => hl.allDone)
      (hl.disks_ne hx hy (Nat.ne_of_lt hlt)) hfx hfy

end rules

end Ironspdk.Raid5
