import Ironspdk.Lib.Lockstep
import Ironspdk.Raid1.Memory

/-! # The mirror on memory that is lent to it

The mirror on its client's memory does what the coarser mirror does, in which every request has
a buffer of its own, as long as the client leaves alone what it has lent. Until a request is
completed its segments show what that buffer holds. All its child I/Os have ended by then, so
that nothing touches its memory afterwards. -/
namespace Ironspdk.Raid1.Scattered
open Ironspdk.Lib Ironspdk.Runtime
open Ironspdk.Raid5 (append_get)
open Ironspdk.Raid5.Scattered (Block Segments memBlocks toBlocks toBytes toBlocks_toBytes
  length_toBytes eq_toBytes)

variable {n : Nat}

/-! ## One request -/

/-- The same request in both models. -/
structure Same (ram : Nat → Byte) (x : Req n) (q : Raid1.Req (Block n)) : Prop where
  io : q.io = x.io
  ch : q.ch = x.ch
  ios : q.ios = x.ios
  next : q.next = x.next
  phase : q.phase = x.phase
  mem : ¬ x.phase.Ended → ∀ i < memBlocks x.io, q.mem i = x.data ram i

namespace Same
variable {ram ram' : Nat → Byte} {x : Req n} {q : Raid1.Req (Block n)}

/-- Memory that the request does not depend on may change. -/
theorem frame (h : Same ram x q)
    (hsame : ¬ x.phase.Ended → ∀ a ∈ x.seg.addrs, ram' a = ram a) : Same ram' x q := by
  refine { h with mem := fun hp i hi => ?_ }
  rw [h.mem hp i hi, Req.data, Req.data, gather_congr (hsame hp)]

/-- A child I/O moves on; `mem` is what the buffer holds then. -/
theorem setIo (h : Same ram x q) (c : Nat) (i : ChildIo) {mem : Nat → Block n}
    (hmem : ¬ x.phase.Ended → ∀ i < memBlocks x.io, mem i = x.data ram' i) :
    Same ram' (x.setIo c i) (q.setIo c i mem) :=
  ⟨h.io, h.ch, by simp only [Req.setIo, Raid1.Req.setIo, h.ios], h.next, h.phase, hmem⟩

/-- What is read into the segments is found there. -/
theorem data_fill (x : Req n) (hown : x.seg.Disjoint) (ram : Nat → Byte) (blocks : Nat → Block n)
    {i : Nat} (hi : i < memBlocks x.io) : x.data (x.fill ram blocks) i = blocks i := by
  have hlen : x.seg.addrs.length = (toBytes (memBlocks x.io) blocks).length := by
    rw [x.seg.length_addrs, length_toBytes]
  rw [Req.data, Req.fill, gather_scatter ram hown.nodup hlen, toBlocks_toBytes hi]

theorem store (h : Same ram x q) (hp : ¬ x.phase.Ended) (hty : x.io.ioType = .write)
    (disk : Nat → Block n) : q.store disk = x.store ram disk := by
  have hnum : memBlocks x.io = x.io.numBlocks := by rw [memBlocks, hty]
  funext b
  rw [Raid1.Req.store, Req.store]
  by_cases hb : x.io.offsetBlocks ≤ b ∧ b < x.io.offsetBlocks + x.io.numBlocks
  · rw [if_pos (by rwa [Raid1.Req.Covers, h.io]), if_pos hb, Raid1.Req.dataOf, h.io]
    exact h.mem hp _ (by omega)
  · rw [if_neg (by rwa [Raid1.Req.Covers, h.io]), if_neg hb]

theorem fetch (h : Same ram x q) (hown : x.seg.Disjoint) (hty : x.io.ioType = .read)
    (disk : Nat → Block n) {i : Nat} (hi : i < memBlocks x.io) :
    q.fetch disk i = x.data (x.fill ram fun i => disk (x.io.offsetBlocks + i)) i := by
  have hnum : memBlocks x.io = x.io.numBlocks := by rw [memBlocks, hty]
  rw [data_fill x hown ram _ hi, Raid1.Req.fetch, h.io, if_pos (hnum ▸ hi)]

theorem readOn (h : Same ram x q) (hp : ¬ x.phase.Ended) (p : ReadPhase) :
    Same ram (x.readOn p) (q.readOn p) := by
  cases p with
  | awaiting left c answer =>
    exact ⟨h.io, h.ch, by simp only [Req.readOn, Raid1.Req.readOn, h.ios], rfl, rfl,
      fun _ => h.mem hp⟩
  | completed status =>
    exact ⟨h.io, h.ch, h.ios, h.next, rfl, fun _ => h.mem hp⟩

end Same

/-! ## The mirrors side by side -/

/-- What an answer says of the request in the coarser model. -/
def Told (s : Mirror n) (d : Raid1.Mirror (Block n)) (a : Answer) : Prop :=
  ∃ x, s.reqs[a.req]? = some x ∧ x.phase = .completed a.status ∧
    a.bytes = toBytes (memBlocks x.io) (d.req a.req).mem

structure Matches (s : Mirror n) (d : Raid1.Mirror (Block n)) : Prop where
  checks : d.overflowChecks = s.overflowChecks
  disks : d.disks = s.disks
  chans : d.chans = s.chans
  count : d.count = s.reqs.length
  panicked : d.panicked = s.panicked
  reqs : ∀ (r : Nat) (x : Req n), s.reqs[r]? = some x → Same s.ram x (d.req r)
  log : ∀ a ∈ s.log, Told s d a
  answered : ∀ (r : Nat) (x : Req n) status, s.reqs[r]? = some x →
    x.phase = .completed status → ∃ a ∈ s.log, a.req = r ∧ a.status = status
  once : (s.log.map (·.req)).Nodup

/-- Requests that are open have their memory to themselves. -/
structure Lent (s : Mirror n) : Prop where
  apart : ∀ r x r' x', r ≠ r' → s.Open r x → s.Open r' x' →
    Apart x.toRequest x'.toRequest
  own : ∀ (r : Nat) (x : Req n), s.reqs[r]? = some x → x.io.ioType = .read → x.seg.Disjoint

section steps
variable {s s' : Mirror n} {d d' : Raid1.Mirror (Block n)} {r : Nat} {x x' : Req n}
  {q' : Raid1.Req (Block n)} {ram : Nat → Byte}

theorem answers_of {a : Answer} (h : a ∈ answers r ram x) :
    a.req = r ∧ x.phase = .completed a.status ∧ a.bytes = gather ram x.seg.addrs := by
  unfold answers at h
  split at h
  · rename_i status hp
    obtain rfl := List.mem_singleton.mp h
    exact ⟨rfl, hp, rfl⟩
  · cases h

theorem answers_nil (h : ¬ x.phase.Ended) : answers r ram x = [] := by
  unfold answers
  split
  · rename_i status hp
    exact absurd ⟨status, hp⟩ h
  · rfl

theorem answers_nodup (r : Nat) (ram : Nat → Byte) (x : Req n) :
    ((answers r ram x).map (·.req)).Nodup := by
  unfold answers
  split
  · exact List.nodup_singleton _
  · exact List.nodup_nil

/-- What an answer says when its request's buffer is as its memory. -/
theorem bytes_of {blocks : Nat → Block n}
    (hmem : ∀ i < memBlocks x.io, blocks i = x.data ram i) :
    gather ram x.seg.addrs = toBytes (memBlocks x.io) blocks := by
  refine eq_toBytes ?_ fun i hi => (hmem i hi).symm
  rw [length_gather, x.seg.length_addrs]

/-- An answered request has ended. -/
theorem Matches.not_logged (h : Matches s d) (hx : s.reqs[r]? = some x) (hp : ¬ x.phase.Ended) :
    ∀ a ∈ s.log, a.req ≠ r := by
  rintro a ha rfl
  obtain ⟨y, hy, hended, _⟩ := h.log a ha
  cases hx.symm.trans hy
  exact hp ⟨_, hended⟩

/-- **One request moves on.** -/
theorem Matches.move (h : Matches s d) (hx : s.reqs[r]? = some x) (hp : ¬ x.phase.Ended)
    (hreqs : s'.reqs = s.reqs.set r x') (hreq : d'.req = Function.update d.req r q')
    (hlog : s'.log = s.log ++ answers r s'.ram x') (hsame : Same s'.ram x' q')
    (hmem : ∀ i < memBlocks x'.io, q'.mem i = x'.data s'.ram i)
    (hothers : ∀ r' y, r' ≠ r → s.Open r' y → ∀ a ∈ y.seg.addrs, s'.ram a = s.ram a)
    (hchecks : d'.overflowChecks = s'.overflowChecks) (hdisks : d'.disks = s'.disks)
    (hchans : d'.chans = s'.chans) (hcount : d'.count = d.count)
    (hpanicked : d'.panicked = s'.panicked) : Matches s' d' := by
  have hlt : r < s.reqs.length := (List.getElem?_eq_some_iff.mp hx).1
  have hself : s'.reqs[r]? = some x' := by rw [hreqs, List.getElem?_set_self hlt]
  have hother : ∀ {t : Nat}, t ≠ r → s'.reqs[t]? = s.reqs[t]? ∧ d'.req t = d.req t := fun ht =>
    ⟨by rw [hreqs, List.getElem?_set_ne (Ne.symm ht)], by rw [hreq, Function.update_of_ne ht]⟩
  refine ⟨hchecks, hdisks, hchans, by rw [hcount, hreqs, List.length_set, h.count], hpanicked,
    fun t y hy => ?_, fun a ha => ?_, fun t y status hy hstatus => ?_, ?_⟩
  · by_cases ht : t = r
    · subst ht
      cases hself.symm.trans hy
      rw [hreq, Function.update_self]
      exact hsame
    · rw [(hother ht).1] at hy
      rw [(hother ht).2]
      exact (h.reqs t y hy).frame fun hopen => hothers t y ht ⟨hy, hopen⟩
  · rw [hlog] at ha
    rcases List.mem_append.mp ha with ha | ha
    · have hne := h.not_logged hx hp a ha
      obtain ⟨y, hy, hended, hbytes⟩ := h.log a ha
      refine ⟨y, (hother hne).1.trans hy, hended, ?_⟩
      rw [(hother hne).2]
      exact hbytes
    · obtain ⟨rfl, hended, hbytes⟩ := answers_of ha
      refine ⟨x', hself, hended, ?_⟩
      rw [hbytes, hreq, Function.update_self]
      exact bytes_of hmem
  · by_cases ht : t = r
    · subst ht
      cases hself.symm.trans hy
      refine ⟨⟨t, status, gather s'.ram x'.seg.addrs⟩, ?_, rfl, rfl⟩
      rw [hlog, answers, hstatus]
      exact List.mem_append_right _ (List.mem_singleton_self _)
    · rw [(hother ht).1] at hy
      obtain ⟨a, ha, heq⟩ := h.answered t y status hy hstatus
      exact ⟨a, by rw [hlog]; exact List.mem_append_left _ ha, heq⟩
  · rw [hlog, List.map_append]
    refine h.once.append (answers_nodup _ _ _) fun t ht hnew => ?_
    obtain ⟨a, ha, rfl⟩ := List.mem_map.mp ht
    obtain ⟨c, hc, he⟩ := List.mem_map.mp hnew
    exact h.not_logged hx hp a ha (he.symm.trans (answers_of hc).1)

/-- A request keeps its memory while it moves on. -/
theorem Lent.move (h : Lent s) (hx : s.reqs[r]? = some x) (hp : ¬ x.phase.Ended)
    (hreqs : s'.reqs = s.reqs.set r x') (hsame : x'.toRequest = x.toRequest) : Lent s' := by
  have hback : ∀ {t : Nat} {y : Req n}, s'.reqs[t]? = some y →
      ∃ z, s.reqs[t]? = some z ∧ z.toRequest = y.toRequest ∧
        (¬ y.phase.Ended → ¬ z.phase.Ended) := by
    intro t y hy
    rw [hreqs, List.getElem?_set] at hy
    split at hy
    · rename_i he
      subst he
      split at hy
      · cases hy
        exact ⟨x, hx, hsame.symm, fun _ => hp⟩
      · cases hy
    · exact ⟨y, hy, rfl, id⟩
  refine ⟨fun t y t' y' hne ho ho' => ?_, fun t y hy hty => ?_⟩
  · obtain ⟨z, hz, he, hopen⟩ := hback ho.1
    obtain ⟨z', hz', he', hopen'⟩ := hback ho'.1
    rw [← he, ← he']
    exact h.apart t z t' z' hne ⟨hz, hopen ho.2⟩ ⟨hz', hopen' ho'.2⟩
  · obtain ⟨z, hz, he, _⟩ := hback hy
    have hown := h.own t z hz
    rw [he] at hown
    exact hown hty

/-- What is read into the memory of an open read, no other open request sees. -/
theorem Lent.others (h : Lent s) (hx : s.Open r x) (hty : x.io.ioType = .read)
    (blocks : Nat → Block n) : ∀ r' y, r' ≠ r → s.Open r' y → ∀ a ∈ y.seg.addrs,
      x.fill s.ram blocks a = s.ram a := by
  intro r' y hne hy a ha
  rcases h.apart r' y r x hne hy hx with ⟨_, hno⟩ | hapart
  · exact absurd hty hno
  · exact scatter_frame _ _ (hapart a ha)

/-- **A request comes in.** -/
theorem Matches.add (h : Matches s d) (hreqs : s'.reqs = s.reqs ++ [x'])
    (hreq : d'.req = Function.update d.req s.reqs.length q') (hram : s'.ram = s.ram)
    (hlog : s'.log = s.log ++ answers s.reqs.length s.ram x') (hsame : Same s.ram x' q')
    (hmem : ∀ i < memBlocks x'.io, q'.mem i = x'.data s.ram i)
    (hchecks : d'.overflowChecks = s'.overflowChecks) (hdisks : d'.disks = s'.disks)
    (hchans : d'.chans = s'.chans) (hcount : d'.count = d.count + 1)
    (hpanicked : d'.panicked = s'.panicked) : Matches s' d' := by
  have hself : s'.reqs[s.reqs.length]? = some x' := by rw [hreqs, List.getElem?_concat_length]
  have hold : ∀ {t : Nat} {y : Req n}, s.reqs[t]? = some y →
      s'.reqs[t]? = some y ∧ d'.req t = d.req t := by
    intro t y hy
    have hlt := (List.getElem?_eq_some_iff.mp hy).1
    rw [hreqs, hreq, Function.update_of_ne hlt.ne, List.getElem?_append_left hlt]
    exact ⟨hy, rfl⟩
  refine ⟨hchecks, hdisks, hchans, by rw [hcount, hreqs, h.count, List.length_append]; rfl,
    hpanicked, fun t y hy => ?_, fun a ha => ?_, fun t y status hy hstatus => ?_, ?_⟩
  · rw [hram]
    rw [hreqs] at hy
    rcases append_get hy with hy | ⟨rfl, rfl⟩
    · rw [(hold hy).2]
      exact h.reqs t y hy
    · rw [hreq, Function.update_self]
      exact hsame
  · rw [hlog] at ha
    rcases List.mem_append.mp ha with ha | ha
    · obtain ⟨y, hy, hended, hbytes⟩ := h.log a ha
      refine ⟨y, (hold hy).1, hended, ?_⟩
      rw [(hold hy).2]
      exact hbytes
    · obtain ⟨hr, hended, hbytes⟩ := answers_of ha
      refine ⟨x', hr ▸ hself, hended, ?_⟩
      rw [hbytes, hr, hreq, Function.update_self]
      exact bytes_of hmem
  · rw [hreqs] at hy
    rcases append_get hy with hy | ⟨rfl, rfl⟩
    · obtain ⟨a, ha, heq⟩ := h.answered t y status hy hstatus
      exact ⟨a, by rw [hlog]; exact List.mem_append_left _ ha, heq⟩
    · refine ⟨⟨s.reqs.length, status, gather s.ram y.seg.addrs⟩, ?_, rfl, rfl⟩
      rw [hlog, answers, hstatus]
      exact List.mem_append_right _ (List.mem_singleton_self _)
  · rw [hlog, List.map_append]
    refine h.once.append (answers_nodup _ _ _) fun t ht hnew => ?_
    obtain ⟨a, ha, rfl⟩ := List.mem_map.mp ht
    obtain ⟨c, hc, he⟩ := List.mem_map.mp hnew
    obtain ⟨y, hy, _⟩ := h.log a ha
    have hlt := (List.getElem?_eq_some_iff.mp hy).1
    rw [← he, (answers_of hc).1] at hlt
    exact absurd hlt (Nat.lt_irrefl _)

theorem Apart.symm {x y : Request n} (h : Apart x y) : Apart y x := by
  rcases h with ⟨hx, hy⟩ | h
  · exact Or.inl ⟨hy, hx⟩
  · exact Or.inr fun a hy hx => h a hx hy

theorem Lent.add (h : Lent s) {req : Request n} (hlends : Lends s (.submit req))
    (hreqs : s'.reqs = s.reqs ++ [x']) (hsame : x'.toRequest = req) : Lent s' := by
  obtain ⟨hown, hapart⟩ := hlends
  have hnew : ∀ {t : Nat} {y : Req n}, s'.Open t y →
      s.Open t y ∨ t = s.reqs.length ∧ y.toRequest = req := by
    rintro t y ⟨hy, hp⟩
    rw [hreqs] at hy
    rcases append_get hy with hy | ⟨ht, rfl⟩
    · exact Or.inl ⟨hy, hp⟩
    · exact Or.inr ⟨ht, hsame⟩
  refine ⟨fun t y t' y' hne ho ho' => ?_, fun t y hy hty => ?_⟩
  · rcases hnew ho with hold | ⟨ht, hy⟩
    · rcases hnew ho' with hold' | ⟨_, hy'⟩
      · exact h.apart t y t' y' hne hold hold'
      · rw [hy']
        exact (hapart t y hold).symm
    · rcases hnew ho' with hold' | ⟨ht', _⟩
      · rw [hy]
        exact hapart t' y' hold'
      · exact absurd (ht.trans ht'.symm) hne
  · rw [hreqs] at hy
    rcases append_get hy with hy | ⟨_, rfl⟩
    · exact h.own t y hy hty
    · rw [← hsame] at hown
      exact hown hty

end steps

/-! ## Step by step -/

/-- The same event of the coarser mirror; a step of the client is none. -/
def MirrorEvent.shown (ram : Nat → Byte) : MirrorEvent n → Option (Raid1.MirrorEvent (Block n))
  | .submit req => some (.submit req.ch req.io (toBlocks n (gather ram req.seg.addrs)))
  | .serve r c => some (.serve r c)
  | .finish r c => some (.finish r c)
  | .fail r c junk => some (.fail r c junk)
  | .resume r => some (.resume r)
  | .client _ _ => none

/-- The two mirrors are in the same state. -/
structure Related (children : Nat) (s : Mirror n) (d : Raid1.Mirror (Block n)) : Prop where
  ok : d.Ok children
  same : Matches s d
  lent : Lent s

namespace Related
variable {children : Nat} {s : Mirror n} {d : Raid1.Mirror (Block n)} {r c : Nat} {x : Req n}

/-- A request that the one mirror does not know has ended in the other. -/
theorem unknown (h : Related children s d) (hr : s.reqs[r]? = none) :
    ∃ mem, d.req r = Raid1.Mirror.noReq mem := by
  refine h.ok.unused r ?_
  rw [h.same.count]
  exact List.getElem?_eq_none_iff.mp hr

/-- A request with a child I/O on its way is open; it is a read or a write. -/
theorem open_of_io (h : Related children s d) (hx : s.reqs[r]? = some x)
    (hio : ¬ (x.ios c).Ended) : ¬ x.phase.Ended ∧ (x.io.ioType ≠ .write → x.io.ioType = .read) := by
  have hsame := h.same.reqs r x hx
  have hp : ¬ x.phase.Ended := by
    rintro ⟨status, hp⟩
    exact h.ok.live (hsame.ios ▸ hio) status (hsame.phase.trans hp)
  refine ⟨hp, fun hty => ?_⟩
  cases hph : x.phase with
  | reading left =>
    rw [← hsame.io]
    exact ((h.ok.reqs r).reading left (hsame.phase.trans hph)).1
  | writing idx status failMask =>
    refine absurd ?_ hty
    rw [← hsame.io]
    exact ((h.ok.reqs r).writing idx status failMask (hsame.phase.trans hph)).1
  | completed status => exact absurd ⟨status, hph⟩ hp

/-- A child I/O of an open request moves on; nothing is answered. -/
theorem child (h : Related children s d) (hx : s.reqs[r]? = some x) (hp : ¬ x.phase.Ended)
    {i : ChildIo} {mem : Nat → Block n} {s' : Mirror n} {d' : Raid1.Mirror (Block n)}
    (hreqs : s'.reqs = s.reqs.set r (x.setIo c i))
    (hreq : d'.req = Function.update d.req r ((d.req r).setIo c i mem)) (hlog : s'.log = s.log)
    (hmem : ∀ i < memBlocks x.io, mem i = x.data s'.ram i)
    (hothers : ∀ r' y, r' ≠ r → s.Open r' y → ∀ a ∈ y.seg.addrs, s'.ram a = s.ram a)
    (hdisks : d'.disks = s'.disks) (hchecks : d'.overflowChecks = s'.overflowChecks)
    (hchans : d'.chans = s'.chans) (hcount : d'.count = d.count)
    (hpanicked : d'.panicked = s'.panicked) : Matches s' d' ∧ Lent s' := by
  have hnil : answers r s'.ram (x.setIo c i) = [] := answers_nil hp
  exact ⟨h.same.move hx hp hreqs hreq (by rw [hlog, hnil, List.append_nil])
    ((h.same.reqs r x hx).setIo c i fun _ => hmem) hmem hothers hchecks hdisks hchans hcount
    hpanicked, h.lent.move hx hp hreqs rfl⟩

theorem serve (h : Related children s d) (hx : s.reqs[r]? = some x)
    (hio : x.ios c = .inFlight) :
    Matches (s.serve r x c) (d.serve r c) ∧ Lent (s.serve r x c) := by
  obtain ⟨hp, hread⟩ := h.open_of_io hx (ChildIo.inFlight_open hio)
  have hsame := h.same.reqs r x hx
  unfold Mirror.serve Raid1.Mirror.serve
  simp only [hsame.io]
  split
  · rename_i hty
    refine h.child hx hp rfl rfl rfl (hsame.mem hp) (fun _ _ _ _ _ _ => rfl) ?_ h.same.checks
      h.same.chans rfl h.same.panicked
    show Function.update d.disks c _ = Function.update s.disks c _
    rw [h.same.disks, hsame.store hp hty]
  · rename_i hty
    have hown := h.lent.own r x hx (hread hty)
    have hmem : ∀ i < memBlocks x.io, (d.req r).fetch (d.disks c) i =
        x.data (x.fill s.ram fun i => s.disks c (x.io.offsetBlocks + i)) i := by
      intro i hi
      rw [h.same.disks]
      exact hsame.fetch hown (hread hty) _ hi
    exact h.child hx hp rfl rfl rfl hmem (h.lent.others ⟨hx, hp⟩ (hread hty) _) h.same.disks
      h.same.checks h.same.chans rfl h.same.panicked

theorem finish (h : Related children s d) (hx : s.reqs[r]? = some x)
    (hio : x.ios c = .served) :
    Matches (s.setReq r (x.setIo c (.ended true)))
        (d.setReq r ((d.req r).setIo c (.ended true) (d.req r).mem)) ∧
      Lent (s.setReq r (x.setIo c (.ended true))) := by
  obtain ⟨hp, _⟩ := h.open_of_io hx (ChildIo.served_open hio)
  exact h.child hx hp rfl rfl rfl ((h.same.reqs r x hx).mem hp) (fun _ _ _ _ _ _ => rfl)
    h.same.disks h.same.checks h.same.chans rfl h.same.panicked

theorem fail (h : Related children s d) (hx : s.reqs[r]? = some x) (hio : x.ios c = .inFlight)
    (junk : Nat → Block n) :
    Matches (s.fail r x c junk) (d.fail r c junk) ∧ Lent (s.fail r x c junk) := by
  obtain ⟨hp, hread⟩ := h.open_of_io hx (ChildIo.inFlight_open hio)
  have hsame := h.same.reqs r x hx
  unfold Mirror.fail Raid1.Mirror.fail
  simp only [hsame.io]
  split
  · exact h.child hx hp rfl rfl rfl (hsame.mem hp) (fun _ _ _ _ _ _ => rfl) h.same.disks
      h.same.checks h.same.chans rfl h.same.panicked
  · rename_i hty
    have hown := h.lent.own r x hx (hread hty)
    exact h.child hx hp rfl rfl rfl (fun i hi => (Same.data_fill x hown s.ram junk hi).symm)
      (h.lent.others ⟨hx, hp⟩ (hread hty) _) h.same.disks h.same.checks h.same.chans rfl
      h.same.panicked

theorem resumeRead (h : Related children s d) (hx : s.reqs[r]? = some x)
    (hp : ¬ x.phase.Ended) (left : Nat) (success : Bool) :
    Matches (s.resumeRead r x left success) (d.resumeRead r left success) ∧
      Lent (s.resumeRead r x left success) := by
  have hsame := h.same.reqs r x hx
  have hdata : ∀ p, (x.readOn p).toRequest = x.toRequest := fun p => by cases p <;> rfl
  have hmem : ∀ p, ∀ i < memBlocks (x.readOn p).io,
      ((d.req r).readOn p).mem i = (x.readOn p).data s.ram i := fun p => by
    cases p <;> exact hsame.mem hp
  unfold Mirror.resumeRead Raid1.Mirror.resumeRead
  simp only [hsame.ch, h.same.chans]
  exact ⟨h.same.move hx hp rfl rfl rfl (hsame.readOn hp _) (hmem _) (fun _ _ _ _ _ _ => rfl)
    h.same.checks h.same.disks (by simp only [Raid1.Mirror.setReq, Raid1.Mirror.setChan,
      Mirror.goOn, Mirror.setChan, h.same.chans]) rfl h.same.panicked,
    h.lent.move hx hp rfl (hdata _)⟩

theorem resume (h : Related children s d) (hx : s.reqs[r]? = some x) :
    Option.Rel (fun s' d' => Matches s' d' ∧ Lent s') (s.resume r x) (d.step (.resume r)) := by
  have hsame := h.same.reqs r x hx
  unfold Mirror.resume Raid1.Mirror.step
  simp only [hsame.phase, hsame.ios, hsame.next, hsame.ch, h.same.checks, h.same.chans]
  cases hph : x.phase with
  | reading left =>
    have hp : ¬ x.phase.Ended := by
      rintro ⟨_, he⟩
      cases hph.symm.trans he
    simp only
    cases x.ios x.next with
    | ended b => exact .some (h.resumeRead hx hp left b)
    | _ => exact .none
  | writing idx status failMask =>
    have hp : ¬ x.phase.Ended := by
      rintro ⟨_, he⟩
      cases hph.symm.trans he
    simp only
    cases x.ios idx with
    | ended b =>
      simp only
      generalize writeResume s.overflowChecks (s.chans x.ch).children idx status failMask b = p
      cases p with
      | some p =>
        refine .some ?_
        exact ⟨h.same.move hx hp rfl rfl rfl
          ⟨hsame.io, rfl, rfl, rfl, rfl, fun _ => hsame.mem hp⟩ (hsame.mem hp)
          (fun _ _ _ _ _ _ => rfl) h.same.checks h.same.disks h.same.chans rfl h.same.panicked,
          h.lent.move hx hp rfl rfl⟩
      | none =>
        refine .some ?_
        exact ⟨⟨rfl, h.same.disks, rfl, h.same.count, rfl, h.same.reqs,
          h.same.log, h.same.answered, h.same.once⟩, ⟨h.lent.apart, h.lent.own⟩⟩
    | _ => exact .none
  | completed status => exact .none

theorem submit (h : Related children s d) {req : Request n} (hlends : Lends s (.submit req)) :
    Matches (s.submitIo req)
        (d.submitIo req.ch req.io (toBlocks n (gather s.ram req.seg.addrs))) ∧
      Lent (s.submitIo req) := by
  have hcount : ∀ q, Function.update d.req d.count q = Function.update d.req s.reqs.length q :=
    fun q => by rw [h.same.count]
  have hbuffer : ∀ i < memBlocks req.io, toBlocks n (gather s.ram req.seg.addrs) i =
      (newReq req).data s.ram i := fun _ _ => rfl
  unfold Mirror.submitIo Raid1.Mirror.submitIo
  simp only [h.same.chans]
  cases req.io.ioType with
  | read =>
    generalize read (s.chans req.ch) = p
    refine ⟨h.same.add rfl (hcount _) rfl rfl ?_ ?_ h.same.checks h.same.disks ?_ rfl
      h.same.panicked, h.lent.add hlends rfl ?_⟩
    · cases p.2 <;> exact ⟨rfl, rfl, rfl, rfl, rfl, fun _ => hbuffer⟩
    · cases p.2 <;> exact hbuffer
    · simp only [Raid1.Mirror.setReq, Raid1.Mirror.setChan, Mirror.add, Mirror.setChan]
    · cases p.2 <;> rfl
  | write =>
    exact ⟨h.same.add rfl (hcount _) rfl rfl ⟨rfl, rfl, rfl, rfl, rfl, fun _ => hbuffer⟩ hbuffer
      h.same.checks h.same.disks rfl rfl h.same.panicked, h.lent.add hlends rfl rfl⟩
  | _ =>
    exact ⟨h.same.add rfl (hcount _) rfl rfl ⟨rfl, rfl, rfl, rfl, rfl, fun _ => hbuffer⟩ hbuffer
      h.same.checks h.same.disks rfl rfl h.same.panicked, h.lent.add hlends rfl rfl⟩

/-- What happens to child I/Os in a phase that they have not ended in. -/
theorem on_io (h : Related children s d) {i : ChildIo} (hi : i ≠ .ended false)
    {R : Mirror n → Raid1.Mirror (Block n) → Prop} {f : Req n → Mirror n}
    {g : Raid1.Mirror (Block n)}
    (hstep : ∀ x, s.reqs[r]? = some x → x.ios c = i → R (f x) g) :
    Option.Rel R ((s.reqs[r]?).bind fun x => if x.ios c = i then some (f x) else none)
      (if (d.req r).ios c = i then some g else none) := by
  cases hx : s.reqs[r]? with
  | none =>
    obtain ⟨mem, hreq⟩ := h.unknown hx
    have hio : (d.req r).ios c ≠ i := by
      rw [hreq]
      exact Ne.symm hi
    rw [if_neg hio]
    exact .none
  | some x =>
    rw [(h.same.reqs r x hx).ios, Option.bind_some]
    split
    · rename_i hio
      exact .some (hstep x hx hio)
    · exact .none

/-- **Both mirrors take the same step.** -/
theorem next (h : Related children s d) (hn : 0 < children) {e : MirrorEvent n}
    (hlends : Lends s e) {e' : Raid1.MirrorEvent (Block n)} (he : e.shown s.ram = some e') :
    Option.Rel (Related children) (s.next e) (d.next e') := by
  have hstep : Option.Rel (fun s' d' => Matches s' d' ∧ Lent s') (s.step e) (d.step e') := by
    cases e with
    | submit req =>
      cases he
      exact .some (h.submit hlends)
    | client a b => cases he
    | serve r c =>
      cases he
      exact h.on_io (fun hi => by cases hi) fun x hx hio => h.serve hx hio
    | finish r c =>
      cases he
      exact h.on_io (fun hi => by cases hi) fun x hx hio => h.finish hx hio
    | fail r c junk =>
      cases he
      exact h.on_io (fun hi => by cases hi) fun x hx hio => h.fail hx hio junk
    | resume r =>
      cases he
      simp only [Mirror.step]
      cases hx : s.reqs[r]? with
      | none =>
        obtain ⟨mem, hreq⟩ := h.unknown hx
        simp only [Raid1.Mirror.step, hreq]
        exact .none
      | some x => exact h.resume hx
  have hok : ∀ u, d.next e' = some u → u.Ok children := fun u hu =>
    (Raid1.Mirror.next_step hu).ok h.ok hn
  unfold Mirror.next
  unfold Raid1.Mirror.next at hok ⊢
  rw [h.same.panicked] at hok ⊢
  split
  · exact .none
  · rename_i hpanicked
    rw [if_neg hpanicked] at hok
    rcases rel_cases hstep with ⟨hs, hd⟩ | ⟨u, v, hs, hd, hmatch, hlent⟩
    · rw [hs, hd]
      exact .none
    · rw [hs, hd]
      exact .some ⟨hok v hd, hmatch, hlent⟩

/-- A step of the client, which leaves alone what it has lent. -/
theorem client (h : Related children s d) {a : Nat} {b : Byte} (hlends : Lends s (.client a b)) :
    Related children { s with ram := Function.update s.ram a b } d := by
  have hm := h.same
  refine ⟨h.ok, ⟨hm.checks, hm.disks, hm.chans, hm.count, hm.panicked, fun r x hx => ?_, hm.log,
    hm.answered, hm.once⟩, ⟨h.lent.apart, h.lent.own⟩⟩
  refine (hm.reqs r x hx).frame fun hp c hc => Function.update_of_ne ?_ _ _
  rintro rfl
  exact hlends r x ⟨hx, hp⟩ hc

/-- What a child read leaves in the segments stays in them. -/
theorem filled (h : Related children s d) (hx : s.reqs[r]? = some x) (hio : x.ios c = .inFlight)
    (hty : x.io.ioType ≠ .write) {blocks : Nat → Block n} {a : Nat}
    (hne : x.fill s.ram blocks a ≠ s.ram a) :
    ∃ r x, s.Open r x ∧ x.io.ioType = .read ∧ a ∈ x.seg.addrs := by
  obtain ⟨hp, hread⟩ := h.open_of_io hx (ChildIo.inFlight_open hio)
  refine ⟨r, x, ⟨hx, hp⟩, hread hty, ?_⟩
  by_contra ha
  exact hne (scatter_frame _ _ ha)

/-- **What the mirror changes in the client's memory.** -/
theorem touches (h : Related children s d) {e : MirrorEvent n} {s' : Mirror n}
    (hn : s.next e = some s') (hmirror : ∀ a b, e ≠ .client a b) {a : Nat}
    (hne : s'.ram a ≠ s.ram a) :
    ∃ r x, s.Open r x ∧ x.io.ioType = .read ∧ a ∈ x.seg.addrs := by
  have hsame : s'.ram = s.ram → ∃ r x, s.Open r x ∧ x.io.ioType = .read ∧ a ∈ x.seg.addrs :=
    fun he => absurd (congrFun he a) hne
  unfold Mirror.next at hn
  split at hn
  · cases hn
  cases e with
  | submit req =>
    cases hn
    refine hsame ?_
    unfold Mirror.submitIo
    split <;> rfl
  | serve r c =>
    obtain ⟨x, hx, hn⟩ := Option.bind_eq_some_iff.mp hn
    obtain ⟨hio, hn⟩ := Option.ite_none_right_eq_some.mp hn
    cases hn
    unfold Mirror.serve at hne hsame
    split at hne
    · rename_i hty
      exact hsame (by rw [if_pos hty]; rfl)
    · rename_i hty
      exact h.filled hx hio hty hne
  | finish r c =>
    obtain ⟨x, hx, hn⟩ := Option.bind_eq_some_iff.mp hn
    obtain ⟨_, hn⟩ := Option.ite_none_right_eq_some.mp hn
    cases hn
    exact hsame rfl
  | fail r c junk =>
    obtain ⟨x, hx, hn⟩ := Option.bind_eq_some_iff.mp hn
    obtain ⟨hio, hn⟩ := Option.ite_none_right_eq_some.mp hn
    cases hn
    by_cases hty : x.io.ioType = .write
    · exact hsame (if_pos hty)
    · have hram : (s.fail r x c junk).ram = x.fill s.ram junk := if_neg hty
      rw [hram] at hne
      exact h.filled hx hio hty hne
  | resume r =>
    obtain ⟨x, hx, hn⟩ := Option.bind_eq_some_iff.mp hn
    refine hsame ?_
    unfold Mirror.resume at hn
    split at hn
    · split at hn
      · cases hn
        rfl
      · cases hn
    · split at hn
      · split at hn
        · cases hn
          rfl
        · cases hn
          rfl
      · cases hn
    · cases hn
  | client c b => exact absurd rfl (hmirror c b)

end Related

/-! ## Runs -/

/-- The events of a run, as the coarser mirror has them. -/
def shownRun : Mirror n → List (MirrorEvent n) → List (Raid1.MirrorEvent (Block n))
  | _, [] => []
  | s, e :: es =>
    match s.next e with
    | some t => (e.shown s.ram).toList ++ shownRun t es
    | none => []

theorem Related.run {children : Nat} {s s' : Mirror n} {d : Raid1.Mirror (Block n)}
    (h : Related children s d) (hn : 0 < children) {es : List (MirrorEvent n)}
    (hrun : Lib.run Mirror.next s es = some s') (hlends : Along Mirror.next Lends s es) :
    ∃ d', Lib.run Raid1.Mirror.next d (shownRun s es) = some d' ∧ Related children s' d' := by
  induction es generalizing s d with
  | nil =>
    cases hrun
    exact ⟨d, rfl, h⟩
  | cons e es ih =>
    obtain ⟨t, ht, hrun⟩ := Option.bind_eq_some_iff.mp hrun
    obtain ⟨he, hlends⟩ := hlends t ht
    simp only [shownRun, ht]
    cases hshown : e.shown s.ram with
    | none =>
      cases e with
      | client a b =>
        have hclient : t = { s with ram := Function.update s.ram a b } := by
          unfold Mirror.next at ht
          split at ht
          · cases ht
          · exact (Option.some.inj ht).symm
        subst hclient
        exact ih (h.client he) hrun hlends
      | _ => cases hshown
    | some e' =>
      rcases rel_cases (h.next hn he hshown) with ⟨hnone, _⟩ | ⟨u, d₁, hu, hd₁, hrel⟩
      · cases hnone.symm.trans ht
      · cases hu.symm.trans ht
        obtain ⟨d', hd', hrel'⟩ := ih hrel hrun hlends
        exact ⟨d', by rw [Option.toList_some, List.singleton_append, run_cons, hd₁]; exact hd',
          hrel'⟩

theorem related_start (children : Nat) (overflowChecks : Bool) (ram : Nat → Byte)
    (disks : Nat → Nat → Block n) : Related children
      (Mirror.start children overflowChecks ram disks)
      (Raid1.Mirror.start children overflowChecks disks) :=
  ⟨Raid1.Mirror.ok_start _ _ _,
    ⟨rfl, rfl, rfl, rfl, rfl, fun _ _ hx => (by cases hx), fun _ ha => absurd ha List.not_mem_nil,
      fun _ _ _ hx => (by cases hx), List.nodup_nil⟩,
    ⟨fun _ _ _ _ _ hx => (by cases hx.1), fun _ _ hx => (by cases hx)⟩⟩

/-- **The mirror and its client share memory safely.** As long as the client leaves alone the
memory of requests that have not been completed, and lends no memory of such a request to a
read: a run on the client's memory is one of the mirror in which every request has a buffer of
its own, step by step, and it never has to stop where that one does not. A request is answered
once, when it is completed there, with the bytes that its buffer holds there. And the mirror
changes only the memory of reads that have not been completed. -/
theorem memory_refines_mirror (children : Nat) (hn : 0 < children) (overflowChecks : Bool)
    (ram : Nat → Byte) (disks : Nat → Nat → Block n) (es : List (MirrorEvent n)) (s : Mirror n)
    (hrun : run Mirror.next (Mirror.start children overflowChecks ram disks) es = some s)
    (hlends : Along Mirror.next Lends (Mirror.start children overflowChecks ram disks) es) :
    (∃ d, run Raid1.Mirror.next (Raid1.Mirror.start children overflowChecks disks)
        (shownRun (Mirror.start children overflowChecks ram disks) es) = some d ∧
      d.disks = s.disks ∧ d.count = s.reqs.length ∧ d.panicked = s.panicked ∧
      (∀ (r : Nat) (x : Req n), s.reqs[r]? = some x →
        (d.req r).io = x.io ∧ (d.req r).phase = x.phase ∧
          ∀ status, x.phase = .completed status → ∃ a ∈ s.log, a.req = r ∧ a.status = status) ∧
      (∀ a ∈ s.log, Told s d a) ∧ (s.log.map (·.req)).Nodup ∧
      ∀ e e', Lends s e → e.shown s.ram = some e' → ((s.next e).isSome ↔ (d.next e').isSome)) ∧
    ∀ e s', s.next e = some s' → (∀ a b, e ≠ .client a b) →
      ∀ a, s'.ram a ≠ s.ram a → ∃ r x, s.Open r x ∧ x.io.ioType = .read ∧ a ∈ x.seg.addrs := by
  obtain ⟨d, hd, hrel⟩ := (related_start children overflowChecks ram disks).run hn hrun hlends
  have hm := hrel.same
  refine ⟨⟨d, hd, hm.disks, hm.count, hm.panicked, fun r x hx => ?_, hm.log, hm.once,
    fun e e' he hshown => ?_⟩, fun e s' hs' hmirror a hne => hrel.touches hs' hmirror hne⟩
  · exact ⟨(hm.reqs r x hx).io, (hm.reqs r x hx).phase, fun status => hm.answered r x status hx⟩
  · rcases rel_cases (hrel.next hn he hshown) with ⟨hs, hd⟩ | ⟨u, v, hs, hd, _⟩
    · rw [hs, hd]
      rfl
    · rw [hs, hd]
      rfl

/-- One block of five bytes, in two segments. -/
def fiveBytes : Segments 5 1 where
  view := ⟨[⟨100, 2⟩, ⟨200, 3⟩], 0, 0, 1, 5⟩
  numBlocks := rfl
  blockLen := rfl
  pos := Nat.succ_pos 4
  wf := ⟨rfl, by decide⟩

/-- A read that child 1 fails and child 0 serves; then the client uses its memory again. -/
def readRetried : List (MirrorEvent 5) :=
  [.submit ⟨⟨.read, 0, 1⟩, 0, fiveBytes⟩, .client 300 ⟨1⟩, .fail 0 1 (fun _ _ => ⟨9⟩), .resume 0,
    .serve 0 0, .finish 0 0, .resume 0, .client 100 ⟨8⟩]

theorem memory_refines_mirror_readRetried : ∃ s d,
    run Mirror.next (Mirror.start 2 true (fun _ => ⟨3⟩) fun _ _ _ => ⟨5⟩) readRetried = some s ∧
      (s.ram 100, s.ram 200, s.ram 300) = (⟨8⟩, ⟨5⟩, ⟨1⟩) ∧
      s.log.map (·.bytes) = [[⟨5⟩, ⟨5⟩, ⟨5⟩, ⟨5⟩, ⟨5⟩]] ∧
      run Raid1.Mirror.next (Raid1.Mirror.start 2 true fun _ _ _ => ⟨5⟩)
        (shownRun (Mirror.start 2 true (fun _ => ⟨3⟩) fun _ _ _ => ⟨5⟩) readRetried) = some d ∧
      ∀ a ∈ s.log, Told s d a := by
  have hview : (run Mirror.next (Mirror.start 2 true (fun _ => ⟨3⟩) fun _ _ _ => ⟨5⟩)
      readRetried).map (fun s => ((s.ram 100, s.ram 200, s.ram 300), s.log.map (·.bytes))) =
      some ((⟨8⟩, ⟨5⟩, ⟨1⟩), [[⟨5⟩, ⟨5⟩, ⟨5⟩, ⟨5⟩, ⟨5⟩]]) := by decide +kernel
  obtain ⟨s, hs, hl⟩ := Option.map_eq_some_iff.mp hview
  obtain ⟨⟨d, hd, _, _, _, _, hlog, _⟩, _⟩ := memory_refines_mirror 2 (by decide) true
    (fun _ => ⟨3⟩) (fun _ _ _ => ⟨5⟩) readRetried s hs (by decide +kernel)
  exact ⟨s, d, hs, congrArg Prod.fst hl, congrArg Prod.snd hl, hd, hlog⟩

end Ironspdk.Raid1.Scattered
