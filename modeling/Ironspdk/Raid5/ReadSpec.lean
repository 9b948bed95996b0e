import Ironspdk.Raid5.Reconstruct

/-! # What a read does

Whatever the children do, `read` completes once. With `Success` the request's memory
holds the logical contents of its range, be it read from the disks or reconstructed;
with `Failure` two disks have failed it. -/
namespace Ironspdk.Raid5
open Ironspdk.Lib Ironspdk.Runtime

variable {B : Type} {α β γ : Type}

/-! ## Which futures failed -/

/-- The places of the failures in a list of statuses that starts at place `i`. -/
def failedFrom : Nat → List Bool → List Nat
  | _, [] => []
  | i, true :: oks => failedFrom (i + 1) oks
  | i, false :: oks => i :: failedFrom (i + 1) oks

theorem mem_failedFrom {i k : Nat} {oks : List Bool} :
    k ∈ failedFrom i oks ↔ i ≤ k ∧ oks[k - i]? = some false := by
  induction oks generalizing i with
  | nil => simp [failedFrom]
  | cons ok oks ih =>
    have hmem : k ∈ failedFrom i (ok :: oks) ↔
        (k = i ∧ ok = false) ∨ k ∈ failedFrom (i + 1) oks := by
      cases ok <;> simp [failedFrom]
    rw [hmem, ih, List.getElem?_cons]
    rcases Nat.lt_trichotomy k i with hlt | rfl | hgt
    · rw [if_pos (by omega)]
      constructor
      · rintro (⟨he, _⟩ | ⟨he, _⟩) <;> omega
      · rintro ⟨he, _⟩
        omega
    · simp
    · rw [if_neg (by omega), Nat.sub_sub]
      constructor
      · rintro (⟨he, _⟩ | ⟨_, he⟩)
        · omega
        · exact ⟨by omega, he⟩
      · rintro ⟨_, he⟩
        exact Or.inr ⟨hgt, he⟩

theorem failedFrom_sorted (i : Nat) (oks : List Bool) : (failedFrom i oks).Pairwise (· < ·) := by
  induction oks generalizing i with
  | nil => exact List.Pairwise.nil
  | cons ok oks ih =>
    cases ok with
    | true => exact ih (i + 1)
    | false => exact List.pairwise_cons.mpr ⟨fun k hk => (mem_failedFrom.mp hk).1, ih (i + 1)⟩

theorem pushFailed_fold (b : List Nat) (i : Nat) {cs : List Nat} {oks : List Bool}
    (h : oks.length = cs.length) :
    (((List.range' i cs.length).zip cs).zip oks).foldl
      (fun b f => if f.2 then b else b ++ [f.1.1]) b = b ++ failedFrom i oks := by
  induction oks generalizing b i cs with
  | nil => simp [failedFrom]
  | cons ok oks ih =>
    cases cs with
    | nil => cases h
    | cons c cs =>
      rw [List.length_cons, List.range'_succ, List.zip_cons_cons, List.zip_cons_cons,
        List.foldl_cons, ih _ _ (Nat.succ.inj h)]
      cases ok <;> simp [failedFrom]

/-- The `n` child I/Os from `base` on have ended; `failed` are the places, from `base`,
of those that failed. -/
structure Awaited (s : Proc B) (base n : Nat) (failed : List Nat) : Prop where
  good : ∀ i < n, i ∉ failed → s.Done (base + i) true
  bad : ∀ i ∈ failed, i < n ∧ s.Done (base + i) false
  sorted : failed.Pairwise (· < ·)

theorem Awaited.of_oks {s : Proc B} {base n : Nat} {oks : List Bool} (hlen : oks.length = n)
    (h : ∀ (i : Nat) (ok : Bool), oks[i]? = some ok → s.Done (base + i) ok) :
    Awaited s base n (failedFrom 0 oks) := by
  refine ⟨fun i hi hgood => ?_, fun i hi => ?_, failedFrom_sorted 0 oks⟩
  · have hget : oks[i]? = some oks[i] := List.getElem?_eq_getElem (hlen ▸ hi)
    rw [mem_failedFrom, Nat.sub_zero, hget] at hgood
    cases hok : oks[i] with
    | true => exact h i true (hok ▸ hget)
    | false => simp [hok] at hgood
  · have hf := (mem_failedFrom.mp hi).2
    rw [Nat.sub_zero] at hf
    exact ⟨hlen ▸ (List.getElem?_eq_some_iff.mp hf).1, h i false hf⟩

theorem Awaited.done {s : Proc B} {base n : Nat} {failed : List Nat} (h : Awaited s base n failed)
    {c : Nat} (hc : c ∈ List.range' base n) : ∃ b, s.Done c b := by
  obtain ⟨hge, hlt⟩ := List.mem_range'_1.mp hc
  obtain ⟨i, rfl⟩ : ∃ i, c = base + i := ⟨c - base, by omega⟩
  by_cases hi : i ∈ failed
  · exact ⟨false, (h.bad i hi).2⟩
  · exact ⟨true, h.good i (by omega) hi⟩

/-! ## The child I/Os of the strips -/

section
variable {E : Setting B} {io : BdevIo} {strips : List Strip}

theorem stripReqs_ok (h : Split E.dev E.stripe io strips) (kind : Kind) {b : Nat} (hb : 0 < b) :
    ReqsOk E b (strips.map fun s => ⟨kind, s.disk, s.io⟩) := by
  refine ⟨?_, ?_, ?_, ?_, ?_⟩
  · intro r hr
    obtain ⟨s, hs, rfl⟩ := List.mem_map.mp hr
    exact (h.all_for s hs).disk_lt
  · intro r hr j hj
    obtain ⟨s, hs, rfl⟩ := List.mem_map.mp hr
    have hfor := h.all_for s hs
    exact hfor.row (hfor.numBlocks_eq ▸ hj)
  · intro r hr
    obtain ⟨s, hs, rfl⟩ := List.mem_map.mp hr
    exact (h.all_for s hs).mem_eq ▸ hb
  · refine List.pairwise_map.mpr (h.starts.imp_of_mem fun {s t} hs _ hlt _ _ m i hc hc' => ?_)
    have hn := (h.all_for s hs).numBlocks_eq
    obtain ⟨_, _, hc⟩ := hc
    obtain ⟨_, hc', _⟩ := hc'
    simp only [hn] at hc
    simp only at hc'
    omega
  · exact List.pairwise_map.mpr (h.disks.imp fun hlt _ _ => Nat.ne_of_lt hlt)

end

/-! ## Read -/

/-- What a completed read has to show. -/
def Setting.ReadResult (E : Setting B) (io : BdevIo) (st : IoStatus) (s : Proc B) : Prop :=
  match st with
  | .success => E.Live → ∀ j < io.numBlocks, s.mem 0 j = E.flat (io.offsetBlocks + j)
  | .failure => ∃ x y, x ≠ y ∧ E.Failed s x ∧ E.Failed s y

/-- The stripe holds `flat` on every disk that is not dead and failed no write. -/
def Setting.Leaves [XorGroup B] (E : Setting B) (flat : Nat → B) (s : Proc B) : Prop :=
  ∀ x < E.dev.diskCount, ¬ E.dead x →
    (∀ (c : Nat) (w : ChildIo B), s.ios[c]? = some w → w.req.kind = .store → w.req.disk = x →
      w.phase ≠ .done false) →
    ∀ row, E.Row row → s.disks x row = E.dev.encode flat x row

/-- How a request ends: completed once, with no write still out, and `flat'` in place, or the
old contents when two disks have failed it. -/
structure Setting.End [XorGroup B] (E : Setting B) (sender : SpdkThread) (flat' : Nat → B)
    (s : Proc B) : Prop where
  inv : Inv E s
  completed : ∃ st, s.completions = [(sender, st)]
  quiet : ∀ (c : Nat) (x : ChildIo B), s.ios[c]? = some x → x.req.kind = .store →
    ∃ b, x.phase = .done b
  leaves : E.Leaves E.flat s ∧ (∃ x y, x ≠ y ∧ E.Failed s x ∧ E.Failed s y) ∨
    (E.Live → E.Leaves flat' s)

section rules
variable [XorGroup B] {E : Setting B} {sender : SpdkThread} {result : IoStatus → Proc B → Prop}
  {Q : α → Proc B → Prop} {s : Proc B}

/-- A request that has submitted no write leaves the stripe as it was. -/
theorem Inv.leaves_flat (h : Inv E s) (hno : ∀ r ∈ s.reqs, r.kind ≠ .store) :
    E.Leaves E.flat s := by
  intro x hx hd _ row hrow
  exact h.kept x hx hd row hrow fun c w hw hk _ => absurd hk (hno _ (reqs_mem hw))

theorem Inv.end_flat (h : Inv E s) (hno : ∀ r ∈ s.reqs, r.kind ≠ .store) {st : IoStatus}
    (hc : s.completions = [(sender, st)]) : E.End sender E.flat s :=
  ⟨h, ⟨st, hc⟩, fun _ _ hx hk => absurd hk (hno _ (reqs_mem hx)), Or.inr fun _ => h.leaves_flat hno⟩

/-- A strip whose read has succeeded shows the logical contents. -/
theorem Inv.strip_read (h : Inv E s) (hlive : E.Live) {io : BdevIo} {strip : Strip} {c : Nat}
    {x : ChildIo B} (hfor : strip.For E.dev E.stripe io.offsetBlocks io.numBlocks)
    (hx : s.ios[c]? = some x) (hreq : x.req = ⟨.fetch, strip.disk, strip.io⟩)
    (hb : x.phase = .done true) {j : Nat} (hj : j < strip.blocks) :
    s.mem 0 (strip.io.start + j) = E.flat (io.offsetBlocks + (strip.io.start + j)) := by
  have hl : x.phase.Landed := Or.inr hb
  have := h.landed c x hx (by rw [hreq]; exact Kind.fetch_ne_store) hl
    (hlive.answers _ ((h.permitted c x hx).1 hl)) j (by rw [hreq, hfor.numBlocks_eq]; exact hj)
  rw [hreq, hfor.encode_eq E.flat hj, load, hfor.mem_eq] at this
  rw [this, Nat.add_assoc]

omit [XorGroup B] in
theorem Proc.Done.dropOk {t : Proc B} {c : Nat} {b : Bool} (h : t.Done c b)
    (hall : E.prompt → t.AllDone) : DropOk E t (.ctx c) ∧ DropOk E t (.io c) := by
  obtain ⟨x, hx, hb⟩ := h
  exact ⟨⟨x, hx, hall⟩, ⟨x, hx, fun _ _ _ => ⟨b, hb⟩, fun _ => hall⟩⟩

/-- The end of every path: the request is completed, then what it has awaited is dropped. -/
theorem wp_finish {st : IoStatus} {rs : List Resource} {Q : Unit → Proc B → Prop} (h : Inv E s)
    (hc : s.completions = []) (hall : E.prompt → s.AllDone)
    (hres : ∀ t, Inv E t → Ext s t → result st t)
    (hrs : ∀ r ∈ rs, ∃ c b, s.Done c b ∧ (r = .ctx c ∨ r = .io c))
    (hQ : ∀ t, Inv E t → t.reqs = s.reqs → (∀ c b, s.Done c b → t.Done c b) →
      t.completions = [(sender, st)] → (s.AllDone → t.mem = s.mem) → Q () t) :
    E.wp sender result (completeOn sender st >>= fun _ => dropAll rs) Q s := by
  refine wp_completeOn h hc hall hres fun t ht hr hd _ hm hcomp => ?_
  rw [← Prog.bind_pure' (dropAll rs)]
  refine wp_dropAll ht ?_ fun u hu hext => ?_
  · intro r hr' u _ hext
    have hallu : E.prompt → u.AllDone := fun hp =>
      ((hall hp).of_done hr hd).adv hext.adv hext.reqs
    obtain ⟨c, b, hdone, rfl | rfl⟩ := hrs r hr'
    · exact ((hext.done' (hd c b hdone)).dropOk hallu).1
    · exact ((hext.done' (hd c b hdone)).dropOk hallu).2
  · refine (stable E).wp_ret hu fun v hv hext' => hQ v hv ?_ ?_ ?_ fun hdone => ?_
    · rw [hext'.reqs, hext.reqs, hr]
    · exact fun c b hdone => hext'.done' (hext.done' (hd c b hdone))
    · rw [hext'.completions, hext.completions, hcomp]
    · have ht' : t.AllDone := hdone.of_done hr hd
      rw [((Ext.trans hext hext').same ht').2]
      refine funext fun m => funext fun i => hm m i fun c x hx _ hp => ?_
      obtain ⟨b, hb⟩ := hdone.at hx
      exact absurd hb (hp b)

omit [XorGroup B] in
theorem Proc.done_at {c : Nat} {r : ChildReq} {b : Bool} (hr : s.reqs[c]? = some r)
    (hd : s.Done c b) : ∃ x, s.ios[c]? = some x ∧ x.req = r ∧ x.phase = .done b := by
  obtain ⟨x, hx, hb⟩ := hd
  have := reqs_at hx
  rw [hr] at this
  exact ⟨x, hx, (Option.some.inj this).symm, hb⟩

omit [XorGroup B] in
theorem prefix_get {rs rs' : List ChildReq} (h : rs <+: rs') {c : Nat} {r : ChildReq}
    (hr : rs[c]? = some r) : rs'[c]? = some r := by
  obtain ⟨t, rfl⟩ := h
  rw [List.getElem?_append_left (List.getElem?_eq_some_iff.mp hr).1, hr]

theorem Inv.failed (h : Inv E s) {c : Nat} {r : ChildReq} (hr : s.reqs[c]? = some r)
    (hd : s.Done c false) : E.Failed s r.disk := by
  obtain ⟨x, hx, hreq, hb⟩ := Proc.done_at hr hd
  exact ⟨hreq ▸ (h.permitted c x hx).2 hb, c, x, hx, by rw [hreq], hb⟩

omit [XorGroup B] in
/-- A request of which every strip shows the logical contents shows them all. -/
theorem Split.shows {E : Setting B} {io : BdevIo} {strips : List Strip}
    (h : Split E.dev E.stripe io strips) {mem : Nat → Nat → B}
    (hmem : ∀ (i : Nat) (x : Strip), strips[i]? = some x → ∀ j < x.blocks,
      mem 0 (x.io.start + j) = E.flat (io.offsetBlocks + (x.io.start + j))) :
    ∀ j < io.numBlocks, mem 0 j = E.flat (io.offsetBlocks + j) := by
  intro j hj
  obtain ⟨x, hx, hge, hlt⟩ := h.covers j hj
  obtain ⟨i, hi⟩ := List.mem_iff_getElem?.mp hx
  have := hmem i x hi (j - x.io.start) (by omega)
  rwa [Nat.add_sub_cancel' hge] at this

omit [XorGroup B] in
theorem Split.disk_ne {E : Setting B} {io : BdevIo} {strips : List Strip}
    (h : Split E.dev E.stripe io strips) {i j : Nat} {x y : Strip} (hx : strips[i]? = some x)
    (hy : strips[j]? = some y) (hne : i ≠ j) : x.disk ≠ y.disk :=
  pairwise_at (h.disks.imp fun hlt => Nat.ne_of_lt hlt) (fun _ _ => Ne.symm) hx hy hne

/-- The one strip that could not be read, once its reconstructed contents are copied. -/
theorem shows_copied {E : Setting B} {io : BdevIo} {x : Strip}
    (hfor : x.For E.dev E.stripe io.offsetBlocks io.numBlocks) {mem : Nat → Nat → B} {b j : Nat}
    (hj : j < x.blocks)
    (hbuf : mem b j =
      E.dev.encode E.flat x.disk (E.stripe * E.dev.stripBlocks + x.offsetInStrip + j)) :
    store x.io (mem b) mem 0 (x.io.start + j) = E.flat (io.offsetBlocks + (x.io.start + j)) := by
  have : load x.io (store x.io (mem b) mem) j = mem b j :=
    load_store_same (hfor.numBlocks_eq ▸ hj)
  rw [load, hfor.mem_eq] at this
  rw [this, hbuf, ← hfor.offset_eq, hfor.encode_eq E.flat hj, Nat.add_assoc]

theorem wp_awaitFailed {base n : Nat} {k : List Nat → Task α} (h : Inv E s)
    (hn : base + n ≤ s.ios.length)
    (hk : ∀ t failed, Inv E t → Ext s t → Awaited t base n failed →
      E.wp sender result (k failed) Q t) :
    E.wp sender result
      (awaitEach pushFailed ((List.range n).zip (List.range' base n)) [] >>= k) Q s := by
  have hfuts : ∀ f ∈ (List.range n).zip (List.range' base n), f.2 < s.ios.length := by
    intro f hf
    have := (List.mem_range'_1.mp (List.of_mem_zip hf).2).2
    omega
  refine wp_awaitEach (g := fun b k ok => if ok then b else b ++ [k]) h hfuts
    (fun _ _ _ _ _ => Or.inl rfl) fun t oks ht hext hlen hdone => ?_
  have hlenz : ((List.range n).zip (List.range' base n)).length = n := by simp
  have hcs : oks.length = (List.range' base n).length := by simp [hlen]
  have hfold := pushFailed_fold [] 0 hcs
  rw [List.length_range', ← List.range_eq_range', List.nil_append] at hfold
  rw [hfold]
  refine hk t _ ht hext (Awaited.of_oks (hlen.trans hlenz) fun i ok hok => ?_)
  have hi : i < n := by
    have := (List.getElem?_eq_some_iff.mp hok).1
    omega
  refine hdone i (i, base + i) ok (List.getElem?_zip_eq_some.mpr ⟨?_, ?_⟩) hok
  · rw [List.getElem?_range hi]
  · rw [List.getElem?_range' hi, Nat.one_mul]

/-- The child reads of a read request have all ended. -/
structure Fetched (E : Setting B) (io : BdevIo) (strips : List Strip) (failed : List Nat)
    (t : Proc B) : Prop where
  inv : Inv E t
  split : Split E.dev E.stripe io strips
  reqs : t.reqs = strips.map fun x => ⟨.fetch, x.disk, x.io⟩
  completions : t.completions = []
  bufs : 0 < t.bufs
  awaited : Awaited t 0 strips.length failed

namespace Fetched
variable {io : BdevIo} {strips : List Strip} {failed : List Nat} {t u : Proc B}

theorem req_at (h : Fetched E io strips failed t) {i : Nat} {x : Strip} (hx : strips[i]? = some x) :
    t.reqs[i]? = some ⟨.fetch, x.disk, x.io⟩ := by
  rw [h.reqs, List.getElem?_map, hx]
  rfl

theorem noStore (h : Fetched E io strips failed t) : ∀ r ∈ t.reqs, r.kind ≠ .store := by
  intro r hr
  rw [h.reqs] at hr
  obtain ⟨x, _, rfl⟩ := List.mem_map.mp hr
  exact Kind.fetch_ne_store

theorem allDone (h : Fetched E io strips failed t) : t.AllDone := by
  intro c hc
  rw [← length_reqs, h.reqs, List.length_map] at hc
  exact h.awaited.done (List.mem_range'_1.mpr ⟨Nat.zero_le c, by omega⟩)

/-- What is dropped at the end has been awaited. -/
theorem drops (h : Fetched E io strips failed t) (hu : ∀ c b, t.Done c b → u.Done c b) :
    ∀ r ∈ (List.range' 0 strips.length).map Resource.ctx ++
      (List.range' 0 strips.length).map Resource.io,
      ∃ c b, u.Done c b ∧ (r = .ctx c ∨ r = .io c) := by
  intro r hr
  rcases List.mem_append.mp hr with hr | hr <;> obtain ⟨c, hc, rfl⟩ := List.mem_map.mp hr
  · obtain ⟨b, hb⟩ := h.awaited.done hc
    exact ⟨c, b, hu c b hb, Or.inl rfl⟩
  · obtain ⟨b, hb⟩ := h.awaited.done hc
    exact ⟨c, b, hu c b hb, Or.inr rfl⟩

/-- A strip whose read succeeded shows the logical contents, also later. -/
theorem shown (h : Fetched E io strips failed t) (hu : Inv E u) (hr : t.reqs <+: u.reqs)
    (hd : ∀ c b, t.Done c b → u.Done c b) (hlive : E.Live) {i : Nat} {x : Strip}
    (hx : strips[i]? = some x) (hi : i ∉ failed) {j : Nat} (hj : j < x.blocks) :
    u.mem 0 (x.io.start + j) = E.flat (io.offsetBlocks + (x.io.start + j)) := by
  have hdone := h.awaited.good i (List.getElem?_eq_some_iff.mp hx).1 hi
  rw [Nat.zero_add] at hdone
  obtain ⟨y, hy, hreq, hb⟩ := Proc.done_at (prefix_get hr (h.req_at hx)) (hd i true hdone)
  exact hu.strip_read hlive (h.split.all_for x (List.mem_of_getElem? hx)) hy hreq hb hj

/-- Two strips that could not be read are of two disks. -/
theorem two_failed {k k' : Nat} {rest : List Nat} (h : Fetched E io strips (k :: k' :: rest) t)
    (hr : t.reqs <+: u.reqs) (hd : ∀ c b, t.Done c b → u.Done c b) :
    ∃ x y, x ≠ y ∧ E.Failed u x ∧ E.Failed u y := by
  have hlt := (List.pairwise_cons.mp h.awaited.sorted).1 k' (by simp)
  obtain ⟨hk, hd1⟩ := h.awaited.bad k (by simp)
  obtain ⟨hk', hd2⟩ := h.awaited.bad k' (by simp)
  rw [Nat.zero_add] at hd1 hd2
  have hx1 : strips[k]? = some strips[k] := List.getElem?_eq_getElem hk
  have hx2 : strips[k']? = some strips[k'] := List.getElem?_eq_getElem hk'
  exact ⟨_, _, h.split.disk_ne hx1 hx2 (Nat.ne_of_lt hlt),
    (h.inv.failed (h.req_at hx1) hd1).adv hr hd, (h.inv.failed (h.req_at hx2) hd2).adv hr hd⟩

/-- The window of a strip whose read failed is not one that a landed read has filled. -/
theorem window_free {k : Nat} {x : Strip} (h : Fetched E io strips [k] t) (hx : strips[k]? = some x)
    (hu : Inv E u) (hr : t.reqs <+: u.reqs) (hd : ∀ c b, t.Done c b → u.Done c b)
    (hno : ∀ r ∈ u.reqs, r.kind ≠ .store) {c : Nat} {y : ChildIo B} (hy : u.ios[c]? = some y)
    (hl : y.phase.Landed) : x.io.Apart y.req.io := by
  obtain ⟨_, hdk⟩ := h.awaited.bad k (by simp)
  rw [Nat.zero_add] at hdk
  obtain ⟨z, hz, hzreq, hzb⟩ := Proc.done_at (prefix_get hr (h.req_at hx)) (hd k false hdk)
  by_cases hck : c = k
  · subst hck
    cases hz.symm.trans hy
    rcases hl with hl | hl <;> rw [hzb] at hl <;> cases hl
  · have := hu.reqs.apart_at hz hy (Ne.symm hck) (by rw [hzreq]; exact Kind.fetch_ne_store)
      (hno _ (reqs_mem hy))
    rwa [hzreq] at this

end Fetched

/-- **A read.** It completes once, and leaves the stripe as it was. -/
theorem wp_read {io : BdevIo} (h : Inv E s) (hios : s.ios = []) (hc : s.completions = [])
    (hb : 0 < s.bufs) (hk : E.dev.stripeIdx io.offsetBlocks = E.stripe)
    (hfit : ¬ E.dev.crossesStripe io) :
    E.wp sender (E.ReadResult io) (read E.dev sender io E.stripe)
      (fun _ t => E.End sender E.flat t) s := by
  obtain ⟨strips, hsplit, hs⟩ := split_request E.dev hfit
  rw [hk] at hsplit hs
  have hreqs : s.reqs = [] := by rw [Proc.reqs, hios]; rfl
  unfold read
  simp only [hsplit]
  have hfetch : ∀ r ∈ strips.map fun x => (⟨.fetch, x.disk, x.io⟩ : ChildReq), r.kind ≠ .store := by
    intro r hr
    obtain ⟨x, _, rfl⟩ := List.mem_map.mp hr
    exact Kind.fetch_ne_store
  refine wp_submitAll h ?_
    (fun r hr => ⟨fun hst => absurd hst (hfetch r hr), fun _ => by simp [hreqs]⟩) (Or.inr hfetch)
    fun t1 h1 adv1 hr1 hb1 => ?_
  · rw [hreqs]
    exact stripReqs_ok hs .fetch hb
  rw [hios, List.length_nil, List.length_map]
  have hlen1 : 0 + strips.length ≤ t1.ios.length := by
    rw [← length_reqs, hr1, hreqs]
    simp
  refine wp_awaitFailed h1 hlen1 fun t failed ht ext1 haw => ?_
  have hf : Fetched E io strips failed t := by
    refine ⟨ht, hs, by rw [ext1.reqs, hr1, hreqs]; rfl, ?_, by rw [ext1.bufs, hb1]; exact hb, haw⟩
    rw [ext1.completions, adv1.completions, hc]
  have hend : ∀ {st : IoStatus} {u v : Proc B}, (∀ r ∈ u.reqs, r.kind ≠ .store) → Inv E v →
      v.reqs = u.reqs → v.completions = [(sender, st)] → E.End sender E.flat v :=
    fun hu hv hr hcv => hv.end_flat (hr ▸ hu) hcv
  rcases failed with _ | ⟨k, _ | ⟨k', rest⟩⟩
  · refine wp_finish ht hf.completions (fun _ => hf.allDone) (fun u hu hext => ?_)
      (hf.drops fun _ _ => id) fun u hu hr _ hcu _ => hend hf.noStore hu hr hcu
    exact fun hlive => hs.shows fun i x hx j hj =>
      hf.shown hu (by rw [hext.reqs]) (fun c b => hext.done') hlive hx List.not_mem_nil hj
  · obtain ⟨hk, hdk⟩ := hf.awaited.bad k (by simp)
    rw [Nat.zero_add] at hdk
    obtain ⟨x, hx⟩ : ∃ x, strips[k]? = some x := ⟨_, List.getElem?_eq_getElem hk⟩
    have hfor := hs.all_for x (List.mem_of_getElem? hx)
    have hfail := ht.failed (hf.req_at hx) hdk
    simp only [hx]
    refine wp_reconstruct ht hf.allDone hf.noStore hfor.disk_lt
      (fun j hj => hfor.offset_eq ▸ hfor.row hj) (fun u buf hu reb hall hlen hge _ _ hdata => ?_)
      fun u hu reb hall hbad => ?_
    all_goals
      have hnou := reb.noStore hf.noStore
      have hpre := reb.extends
    · simp only
      rw [hfor.view]
      refine wp_copyFromSlice hu hall hlen hnou (fun c y hy hl => ?_)
        fun v hv hiosv hbv hcv hmemv => ?_
      · rw [← hfor.view]
        exact hf.window_free hx hu hpre reb.done hnou hy hl
      · rw [← hfor.view] at hmemv
        have hreqsv : v.reqs = u.reqs := by rw [Proc.reqs, hiosv, Proc.reqs]
        have hdonev : ∀ c b, u.Done c b → v.Done c b := by
          rintro c b ⟨y, hy, hyb⟩
          exact ⟨y, hiosv ▸ hy, hyb⟩
        have hallv : v.AllDone := fun c hc => by
          obtain ⟨b, hb⟩ := hall c (hiosv ▸ hc)
          exact ⟨b, hdonev c b hb⟩
        refine wp_finish hv (hcv.trans (reb.completions.trans hf.completions)) (fun _ => hallv)
          (fun w hw hext => ?_) (hf.drops fun c b hd => hdonev c b (reb.done c b hd))
          fun w hw hr _ hcw _ => hend (hreqsv ▸ hnou) hw hr hcw
        intro hlive
        refine hs.shows fun i x' hx' j hj => ?_
        by_cases hik : i = k
        · subst hik
          cases hx.symm.trans hx'
          rw [(hext.same hallv).2, hmemv]
          exact shows_copied hfor hj (hdata hlive j hj)
        · exact hf.shown hw (by rw [hext.reqs, hreqsv]; exact hpre)
            (fun c b hd => hext.done' (hdonev c b (reb.done c b hd))) hlive hx'
            (by simpa using hik) hj
    · refine wp_finish hu (reb.completions.trans hf.completions) hall (fun v hv hext => ?_)
        (hf.drops reb.done) fun v hv hr _ hcv _ => hend hnou hv hr hcv
      obtain ⟨y, hne, hy⟩ := hbad
      have hpre' : u.reqs <+: v.reqs := by rw [hext.reqs]
      exact ⟨_, y, hne.symm, (hfail.adv hpre reb.done).adv hpre' fun c b => hext.done',
        hy.adv hpre' fun c b => hext.done'⟩
  · refine wp_finish ht hf.completions (fun _ => hf.allDone) (fun u hu hext => ?_)
      (hf.drops fun _ _ => id) fun u hu hr _ hcu _ => hend hf.noStore hu hr hcu
    exact hf.two_failed (by rw [hext.reqs]) fun c b => hext.done'

end rules

end Ironspdk.Raid5
