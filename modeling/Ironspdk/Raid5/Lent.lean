import Ironspdk.Raid5.Contained
import Ironspdk.Raid5.GiveBack
import Ironspdk.Raid5.Memory

/-! # Memory that is lent to the device

A request in service, on the memory of the client and in the coarser model, where it has a buffer
of its own: until the request is completed its segments show what that buffer holds, and after
that nothing it does depends on them or changes them. -/
namespace Ironspdk.Raid5.Scattered
open Ironspdk.Lib
open Ironspdk.Runtime (Build BdevIo IoStatus addrsOf)

variable {n num : Nat}

/-! ## What one step changes in the client's memory -/

section ram
variable {seg : Segments n num} {fills : Prop} {s t : Proc n}

theorem slice_addrs {r : Raid5.IoRef} (h : Fits num (.ref r)) {a : Nat}
    (ha : a ∈ addrsOf (seg.slice r).iovs) : a ∈ seg.addrs := by
  rw [Segments.addrs_slice h] at ha
  exact List.mem_of_mem_drop (List.mem_of_mem_take ha)

/-- Only the memory of a request that may be filled changes. -/
def Within (seg : Segments n num) (fills : Prop) (ram ram' : Nat → Byte) : Prop :=
  ram' = ram ∨ fills ∧ ∀ a, a ∉ seg.addrs → ram' a = ram a

theorem store_within {io : Io} (hfit : Fits num io) (hfill : Fillable fills io)
    (data : Nat → Block n) : Within seg fills s.ram (s.store seg data io).ram := by
  cases io with
  | ref r =>
    exact Or.inr ⟨hfill, fun a ha => scatter_frame _ _ fun hin => ha (slice_addrs hfit hin)⟩
  | buf b => exact Or.inl rfl

theorem perform_within {b : Build} {o : Op} {res : Res o} (hdisjoint : fills → seg.Disjoint)
    (h : Scattered.perform b seg o s = some (res, t)) (hfit : OpFits num fills o) :
    Within seg fills s.ram t.ram := by
  cases o with
  | copy io src =>
    obtain ⟨⟨r, rfl⟩, hio, hfill, _⟩ := hfit
    have hdata : (toBytes r.numBlocks (s.mem src)).length =
        (addrsOf (seg.slice r).iovs).length := by
      have hbytes := seg.fit_bytes hio
      rw [length_toBytes, Segments.addrs_slice hio, List.length_take, List.length_drop,
        Nat.min_eq_left (by omega)]
    have hseg : (seg.slice r).Segmented b := Segments.segmented_slice b (hdisjoint hfill) hio
    obtain ⟨ram, hram, hout⟩ := Option.map_eq_some_iff.mp h
    rw [hseg.copyFromSlice s.ram hdata] at hram
    cases hram
    cases hout
    exact Or.inr ⟨hfill, fun a ha => scatter_frame _ _ fun hin => ha (slice_addrs hio hin)⟩
  | await c =>
    obtain ⟨_, _, hout⟩ := Option.map_eq_some_iff.mp h
    cases hout
    exact Or.inl rfl
  | panic msg => cases h
  | _ =>
    cases h
    exact Or.inl rfl

theorem react_within {ch : Children} {e : ChildEvent (Block n)}
    (h : Scattered.react ch seg s e = some t) (hfit : ∀ x ∈ s.ios, ReqFits num fills x.req) :
    Within seg fills s.ram t.ram := by
  have hput : ∀ {x : ChildIo (Block n)} {c : Nat}, s.ios[c]? = some x → ∀ d m : Nat → Block n,
      Within seg fills s.ram (s.put seg x.req d m).ram := by
    intro x c hx d m
    have hx := hfit x (List.mem_of_getElem? hx)
    unfold Proc.put
    split
    · exact Or.inl rfl
    · rename_i hk
      exact store_within hx.1 (hx.2 (hk ▸ Kind.fetch_ne_store)) m
    · rename_i hk
      exact store_within hx.1 (hx.2 (hk ▸ Kind.rebuild_ne_store)) m
  cases e with
  | apply c junk =>
    obtain ⟨x, hx, h⟩ := Option.bind_eq_some_iff.mp h
    obtain ⟨_, h⟩ := Option.ite_none_right_eq_some.mp h
    cases h
    exact hput hx _ _
  | finish c =>
    obtain ⟨x, hx, h⟩ := Option.bind_eq_some_iff.mp h
    obtain ⟨_, h⟩ := Option.ite_none_right_eq_some.mp h
    cases h
    exact Or.inl rfl
  | fail c junk =>
    obtain ⟨x, hx, h⟩ := Option.bind_eq_some_iff.mp h
    obtain ⟨_, h⟩ := Option.ite_none_right_eq_some.mp h
    cases h
    exact hput hx _ _

/-- On a buffer of the allocator the two models are the same. -/
theorem put_buffer {p : Raid5.Proc (Block n)} {ram : Nat → Byte} {r : ChildReq} {d : IoBuf}
    (hio : r.io = .buf d) (toDisk toMem : Nat → Block n) :
    Proc.put seg ⟨p, ram⟩ r toDisk toMem = ⟨p.put r toDisk toMem, ram⟩ := by
  unfold Proc.put Raid5.Proc.put
  cases r.kind with
  | store => rfl
  | fetch => rw [hio]; rfl
  | rebuild => rw [hio]; rfl

theorem sample_buffer (ch : Children) {p : Raid5.Proc (Block n)} {ram : Nat → Byte} {c : Nat}
    {x : ChildIo (Block n)} {d : IoBuf} (hio : x.req.io = .buf d) (junk : Nat → Block n) :
    Scattered.sample ch seg ⟨p, ram⟩ c x junk = ch.sample p c x junk := by
  unfold Scattered.sample Children.sample
  rw [hio]
  rfl

theorem react_buffers (ch : Children) {p : Raid5.Proc (Block n)} (ram : Nat → Byte)
    (h : ∀ x ∈ p.ios, x.Open → ∃ d, x.req.io = .buf d) (e : ChildEvent (Block n)) :
    Scattered.react ch seg ⟨p, ram⟩ e = (ch.react p e).map fun q => ⟨q, ram⟩ := by
  have hbuf : ∀ {c : Nat} {x : ChildIo (Block n)}, p.ios[c]? = some x → x.phase = .inFlight →
      ∃ d, x.req.io = .buf d := fun hx hp =>
    h _ (List.mem_of_getElem? hx) fun ok hok => by cases hp.symm.trans hok
  cases e with
  | apply c junk =>
    simp only [Scattered.react, Children.react]
    cases hx : p.ios[c]? with
    | none => rfl
    | some x =>
      simp only [Option.bind_eq_bind, Option.bind_some]
      split
      · rename_i hp
        obtain ⟨d, hd⟩ := hbuf hx hp.1
        rw [sample_buffer ch hd, put_buffer hd]
        rfl
      · rfl
  | finish c =>
    simp only [Scattered.react, Children.react]
    cases hx : p.ios[c]? with
    | none => rfl
    | some x =>
      simp only [Option.bind_eq_bind, Option.bind_some]
      split <;> rfl
  | fail c junk =>
    simp only [Scattered.react, Children.react]
    cases hx : p.ios[c]? with
    | none => rfl
    | some x =>
      simp only [Option.bind_eq_bind, Option.bind_some]
      split
      · rename_i hp
        obtain ⟨d, hd⟩ := hbuf hx hp.1
        rw [put_buffer hd]
        rfl
      · rfl

end ram

/-! ## A request in service -/

theorem Fillable.mono {fills fills' : Prop} {io : Io} (h : Fillable fills io)
    (himp : fills → fills') : Fillable fills' io := by
  cases io with
  | ref r => exact himp h
  | buf b => trivial

theorem OpFits.mono {fills fills' : Prop} {o : Op} (h : OpFits num fills o)
    (himp : fills → fills') : OpFits num fills' o := by
  cases o with
  | copy io src => exact ⟨h.1, h.2.1, h.2.2.1.mono himp, h.2.2.2⟩
  | submit req => exact ⟨h.1, fun hk => (h.2 hk).mono himp⟩
  | _ => exact h

/-- What a request does with its memory: only a read fills it. -/
theorem inside_request (dev : Raid5Bdev) (overflowChecks : Bool) {req : QueuedIo} {k : Nat}
    (hk : dev.stripeIdx req.io.offsetBlocks = k) : Inside (memBlocks req.io)
      (req.io.ioType = .read) (processReq dev overflowChecks k req) fun _ => True := by
  unfold processReq
  split
  · exact ⟨trivial, fun _ _ => trivial⟩
  · rename_i hfit
    split
    · rename_i hty
      rw [show memBlocks req.io = req.io.numBlocks by simp [memBlocks, hty], ← hk]
      exact inside_read dev _ hfit hty
    · rename_i hty
      rw [show memBlocks req.io = req.io.numBlocks by simp [memBlocks, hty]]
      unfold write
      split
      · rename_i hfull
        exact inside_writeFullStripe _ dev overflowChecks _ hk hfull.1 hfull.2
      · exact inside_writePartialStripe _ dev overflowChecks _ hk hfit
    · exact ⟨trivial, fun _ _ => trivial⟩
    · exact ⟨trivial, fun _ _ => trivial⟩

/-- The request in the coarser model. -/
def Submitted.shown (x : Submitted n) : Raid5.Request (Block n) :=
  ⟨x.toQueuedIo, toBlocks n x.given⟩

/-- The same request in service in both models; once it is answered its buffer shows what its
memory has held. -/
structure InService (x : Submitted n) (ram : Nat → Byte) (prog : Task Unit)
    (f g : Frame (Block n)) : Prop where
  shows : ∃ held, (f.completions = [] → held = ram) ∧
    ∀ disks, Shows x.seg ⟨⟨f, disks⟩, held⟩ ⟨g, disks⟩
  asks : Inside (memBlocks x.io) (x.io.ioType = .read) prog fun _ => True
  ios : ∀ y ∈ g.ios, ReqFits (memBlocks x.io) (x.io.ioType = .read) y.req
  accounted : ∃ d, Accounted prog g d

namespace InService
variable {x : Submitted n} {ram : Nat → Byte} {prog : Task Unit} {f g : Frame (Block n)}

theorem start (dev : Raid5Bdev) (overflowChecks : Bool) (heap : Nat → Nat → Block n)
    (hgiven : gather ram x.seg.addrs = x.given) :
    InService x ram (processReq dev overflowChecks (x.stripe dev) x.toQueuedIo) (frameOf heap)
      (Frame.start x.shown heap) := by
  refine ⟨⟨ram, fun _ => rfl, fun disks => ?_⟩, inside_request dev overflowChecks rfl,
    fun y hy => by simp [Frame.start] at hy, _,
      @Accounted.start _ dev overflowChecks (x.stripe dev) x.shown heap⟩
  refine ⟨fun i _ => ?_, fun b hb => Function.update_of_ne hb _ _, rfl, .nil, rfl, rfl, rfl,
    Nat.one_pos⟩
  simp only [Frame.start, Function.update_self, Submitted.shown, hgiven]

/-- The memory of other requests may change, and its own once it is answered. -/
theorem frame (h : InService x ram prog f g) {ram' : Nat → Byte}
    (hsame : f.completions = [] → ∀ a ∈ x.seg.addrs, ram' a = ram a) :
    InService x ram' prog f g := by
  refine { h with shows := ?_ }
  obtain ⟨held, hheld, hshows⟩ := h.shows
  by_cases ha : f.completions = []
  · refine ⟨ram', fun _ => rfl, fun disks => { hshows disks with request := fun i hi => ?_ }⟩
    rw [(hshows disks).request i hi, hheld ha]
    exact congrArg (toBlocks n · i) (gather_congr fun a hmem => (hsame ha a hmem).symm)
  · exact ⟨held, fun hnone => absurd hnone ha, hshows⟩

theorem completions_eq (h : InService x ram prog f g) : g.completions = f.completions := by
  obtain ⟨_, _, hshows⟩ := h.shows
  exact (hshows 0).completions

/-- The child I/Os of the one are those of the other. -/
theorem io_of (h : InService x ram prog f g) {y : ChildIo (Block n)} (hy : y ∈ f.ios) :
    ∃ z ∈ g.ios, z.req = y.req ∧ z.phase = y.phase := by
  obtain ⟨_, _, hshows⟩ := h.shows
  obtain ⟨c, hc⟩ := List.mem_iff_getElem?.mp hy
  have hrel := rel_getElem? (hshows 0).ios c
  simp only at hrel
  rw [hc] at hrel
  generalize hz : g.ios[c]? = z at hrel
  cases hrel with
  | some hsame => exact ⟨_, List.mem_of_getElem? hz, hsame.req, hsame.phase⟩

/-- **One operation.** -/
theorem perform (h : InService x ram prog f g) (b : Build)
    (hdisjoint : x.io.ioType = .read → x.seg.Disjoint) {o : Op} {k : Res o → Task Unit}
    (hprog : prog = .op o k) (disks : Nat → Nat → Block n) :
    Option.Rel (fun p q => p.1 = q.1 ∧ p.2.disks = q.2.disks ∧
        InService x p.2.ram (k p.1) p.2.toFrame q.2.toFrame ∧
        Within x.seg (x.io.ioType = .read) ram p.2.ram ∧
        (f.completions ≠ [] → p.2.ram = ram) ∧ p.2.completions = f.completions ++ o.completion)
      (Scattered.perform b x.seg o ⟨⟨f, disks⟩, ram⟩) (Raid5.perform o ⟨g, disks⟩) := by
  subst hprog
  obtain ⟨held, hheld, hshows⟩ := h.shows
  obtain ⟨hfit, hrest⟩ := h.asks
  obtain ⟨d, hacc⟩ := h.accounted
  by_cases ha : f.completions = []
  · obtain rfl := hheld ha
    have hop := (hshows disks).perform b (hfit.mono hdisjoint)
    rcases rel_cases hop with ⟨hp, hq⟩ | ⟨⟨res, p⟩, ⟨res', q⟩, hp, hq, hres, hgranted, hp'⟩
    · rw [hp, hq]
      exact .none
    · obtain rfl : res = res' := hres
      rw [hp, hq]
      refine .some ⟨rfl, hp'.disks.symm, ⟨⟨p.ram, fun _ => rfl, fun D => ?_⟩, hrest res hgranted,
        ?_, _, hacc.perform hq⟩, perform_within hdisjoint hp hfit, fun hno => absurd ha hno, ?_⟩
      · exact { hp' with disks := rfl }
      · intro y hy
        have hmem : y.req ∈ q.reqs := List.mem_map_of_mem hy
        rw [perform_reqs hq] at hmem
        rcases List.mem_append.mp hmem with hmem | hmem
        · obtain ⟨z, hz, he⟩ := List.mem_map.mp hmem
          exact he ▸ h.ios z hz
        · cases o with
          | submit req => exact List.mem_singleton.mp hmem ▸ hfit
          | _ => cases hmem
      · rw [← hp'.completions, (perform_frame hq).2]
        exact congrArg (· ++ _) h.completions_eq
  · obtain ⟨r, rfl⟩ := hacc.drops (h.completions_eq ▸ ha)
    have hdrop : Raid5.perform (.drop r) ⟨g, disks⟩ =
        some ((), ⟨{ g with trace := g.trace ++ [.drop r] }, disks⟩) := rfl
    refine .some ⟨rfl, rfl, ⟨⟨held, fun hnone => absurd hnone ha, fun D => ?_⟩, hrest () trivial,
      h.ios, _, hacc.perform hdrop⟩, Or.inl rfl, fun _ => rfl,
      (List.append_nil _).symm⟩
    exact { hshows D with trace := congrArg (· ++ _) (hshows D).trace }

/-- **A child I/O moves on.** -/
theorem react (h : InService x ram prog f g) (ch : Children) (e : ChildEvent (Block n))
    (disks : Nat → Nat → Block n) :
    Option.Rel (fun p q => p.disks = q.disks ∧
        InService x p.ram prog p.toFrame q.toFrame ∧
        Within x.seg (x.io.ioType = .read) ram p.ram ∧
        (f.completions ≠ [] → p.ram = ram) ∧ p.completions = f.completions)
      (Scattered.react ch x.seg ⟨⟨f, disks⟩, ram⟩ e) (ch.react ⟨g, disks⟩ e) := by
  obtain ⟨held, hheld, hshows⟩ := h.shows
  obtain ⟨d, hacc⟩ := h.accounted
  have hfits : ∀ y ∈ f.ios, ReqFits (memBlocks x.io) (x.io.ioType = .read) y.req := by
    intro y hy
    obtain ⟨z, hz, hreq, _⟩ := h.io_of hy
    exact hreq ▸ h.ios z hz
  have hios : ∀ {q : Raid5.Proc (Block n)}, ch.react ⟨g, disks⟩ e = some q →
      ∀ y ∈ q.ios, ReqFits (memBlocks x.io) (x.io.ioType = .read) y.req := by
    intro q hq y hy
    obtain ⟨c, hc⟩ := List.mem_iff_getElem?.mp hy
    obtain ⟨z, hz, hreq⟩ := get_of_reqs (ext_react hq).reqs hc
    exact hreq ▸ h.ios z (List.mem_of_getElem? hz)
  have hop := (hshows disks).react ch e
  by_cases ha : f.completions = []
  · obtain rfl := hheld ha
    rcases rel_cases hop with ⟨hp, hq⟩ | ⟨p, q, hp, hq, hp'⟩
    · rw [hp, hq]
      exact .none
    · rw [hp, hq]
      refine .some ⟨hp'.disks.symm, ⟨⟨p.ram, fun _ => rfl, fun D => { hp' with disks := rfl }⟩,
        h.asks, hios hq, d, hacc.react hq⟩, react_within hp hfits, fun hno => absurd ha hno, ?_⟩
      rw [← hp'.completions, (ext_react hq).completions]
      exact h.completions_eq
  · -- its own child I/Os have ended, so nothing depends on the client's memory
    have hbuf : ∀ y ∈ f.ios, y.Open → ∃ d, y.req.io = .buf d := by
      intro y hy ho
      obtain ⟨z, hz, hreq, hphase⟩ := h.io_of hy
      cases hio : y.req.io with
      | buf d => exact ⟨d, rfl⟩
      | ref r =>
        refine absurd (fun ok hok => ho ok (hphase ▸ hok))
          (hacc.ended (h.completions_eq ▸ ha) hz ?_)
        rw [hreq, hio]
        rfl
    rw [react_buffers ch held hbuf] at hop
    rw [react_buffers ch ram hbuf]
    cases hf : ch.react ⟨f, disks⟩ e with
    | none =>
      rw [hf] at hop
      generalize ch.react ⟨g, disks⟩ e = q at hop
      cases hop
      exact .none
    | some p =>
      rw [hf] at hop
      generalize hq : ch.react ⟨g, disks⟩ e = q at hop
      cases hop with
      | some hp' =>
        have hcomp : p.completions = f.completions := (ext_react hf).completions
        refine .some ⟨hp'.disks.symm, ⟨⟨held, fun hnone => ?_, fun D => { hp' with disks := rfl }⟩,
          h.asks, hios hq, d, hacc.react hq⟩, Or.inl rfl, fun _ => rfl, hcomp⟩
        exact absurd (hcomp.symm.trans hnone) ha

end InService

end Ironspdk.Raid5.Scattered
