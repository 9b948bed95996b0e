import Ironspdk.Lib.Replay
import Ironspdk.Raid5.Placement

/-! # Forgetting the segments

A program whose views lie inside the request does the same on the segments of the request as
in the coarser model, where the memory of a request is one buffer: whatever the segments are,
the two run in lockstep, and the buffer shows the bytes that the segments refer to. -/
namespace Ironspdk.Raid5.Scattered
open Ironspdk.Lib
open Ironspdk.Runtime (Build addrsOf)

variable {n num : Nat}

/-! ## Views inside the request -/

/-- A view of the request that lies inside it, or of a buffer of the allocator. -/
def Fits (num : Nat) : Io → Prop
  | .ref r => r.refOffset + r.numBlocks ≤ num
  | .buf b => b.data.id ≠ 0

/-- A view that may be filled: of the request only when `fills` holds. -/
def Fillable (fills : Prop) : Io → Prop
  | .ref _ => fills
  | .buf _ => True

/-- A child I/O on a view that fits, which a read may fill. -/
def ReqFits (num : Nat) (fills : Prop) (req : ChildReq) : Prop :=
  Fits num req.io ∧ (req.kind ≠ .store → Fillable fills req.io)

/-- An operation on views that fit. -/
def OpFits (num : Nat) (fills : Prop) : Op → Prop
  | .xor dst _ io => dst ≠ 0 ∧ Fits num io
  | .copy io src => (∃ r, io = .ref r) ∧ Fits num io ∧ Fillable fills io ∧ src ≠ 0
  | .submit req => ReqFits num fills req
  | _ => True

/-- Number 0 is not given to a buffer of the allocator. -/
def Granted : (o : Op) → Res o → Prop
  | .alloc _, (id : Nat) => id ≠ 0
  | _, _ => True

/-! ## What the coarser model shows -/

/-- The same child I/O, as far as its view goes. -/
structure SameIo (num : Nat) (fills : Prop) {B : Type} (x y : ChildIo B) : Prop where
  fits : ReqFits num fills x.req
  req : y.req = x.req
  phase : y.phase = x.phase
  data : ∀ j < x.req.io.numBlocks, y.data j = x.data j

/-- Buffer 0 shows the bytes of the request, in the order of its segments. -/
structure Shows (seg : Segments n num) (s : Proc n) (a : Raid5.Proc (Block n)) : Prop where
  request : ∀ i < num, a.mem 0 i = toBlocks n (gather s.ram seg.addrs) i
  buffers : ∀ b, b ≠ 0 → a.mem b = s.mem b
  bufs : a.bufs = s.bufs
  ios : List.Forall₂ (SameIo num seg.Disjoint) s.ios a.ios
  completions : a.completions = s.completions
  trace : a.trace = s.trace
  disks : a.disks = s.disks
  pos : 0 < s.bufs

namespace Shows
variable {seg : Segments n num} {s : Proc n} {a : Raid5.Proc (Block n)} {io : Io}

theorem load (h : Shows seg s a) (hfit : Fits num io) {j : Nat} (hj : j < io.numBlocks) :
    Raid5.load io a.mem j = s.load seg io j := by
  cases io with
  | ref r =>
    have hview : j < r.numBlocks := hj
    have hinside : r.refOffset + r.numBlocks ≤ num := hfit
    rw [Proc.load, Segments.addrs_slice hfit, gather_take, gather_drop, toBlocks_slice hview]
    refine h.request (r.refOffset + j) ?_
    omega
  | buf b => exact congrFun (h.buffers _ hfit) _

/-- Putting data into a view. -/
theorem store (h : Shows seg s a) (hfit : Fits num io) (hfill : Fillable seg.Disjoint io)
    (data : Nat → Block n) :
    Shows seg (s.store seg data io) { a with mem := Raid5.store io data a.mem } := by
  cases io with
  | ref r =>
    refine { h with request := fun i hi => ?_, buffers := fun b hb => ?_ }
    · have hbytes := seg.fit_bytes hfit
      have hpatched : r.refOffset * n + (toBytes r.numBlocks data).length ≤ seg.addrs.length := by
        rwa [length_toBytes]
      have hpatch := gather_scatter_slice s.ram (Segments.Disjoint.nodup hfill) hpatched
      rw [length_toBytes, ← Segments.addrs_slice hfit] at hpatch
      rw [Proc.store, hpatch, toBlocks_patch (by rwa [length_gather]), ← h.request i hi]
      simp [Raid5.store, Io.Covers, Io.mem, Io.start, Io.numBlocks]
    · have hother : ∀ i, ¬ (Io.ref r).Covers b i := fun i hc => hb hc.1.symm
      funext i
      simp only [Raid5.store, if_neg (hother i)]
      exact congrFun (h.buffers b hb) i
  | buf b =>
    refine { h with request := fun i hi => ?_, buffers := fun x hx => ?_ }
    · have hother : ¬ (Io.buf b).Covers 0 i := fun hc => hfit hc.1
      simp only [Raid5.store, if_neg hother]
      exact h.request i hi
    · funext i
      simp only [Proc.store, Raid5.store, h.buffers x hx]

theorem setMem (h : Shows seg s a) {f g : Nat → Nat → Block n} (hzero : f 0 = a.mem 0)
    (hbuffers : ∀ b, b ≠ 0 → f b = g b) :
    Shows seg { s with mem := g } { a with mem := f } :=
  { h with request := fun i hi => (congrFun hzero i).trans (h.request i hi), buffers := hbuffers }

/-- **One operation.** -/
theorem perform (h : Shows seg s a) (b : Build) {o : Op} (hfit : OpFits num seg.Disjoint o) :
    Option.Rel (fun x y => x.1 = y.1 ∧ Granted o x.1 ∧ Shows seg x.2 y.2)
      (Scattered.perform b seg o s) (Raid5.perform o a) := by
  cases o with
  | alloc zeroed =>
    refine .some ⟨h.bufs.symm, h.pos.ne', ?_⟩
    have hset : ∀ x, x ≠ 0 → (if zeroed then Function.update a.mem a.bufs 0 else a.mem) x =
        (if zeroed then Function.update s.mem s.bufs 0 else s.mem) x := by
      intro x hx
      split
      · rw [h.bufs, Function.update_apply, Function.update_apply, h.buffers x hx]
      · exact h.buffers x hx
    have hzero : (if zeroed then Function.update a.mem a.bufs 0 else a.mem) 0 = a.mem 0 := by
      split
      · rw [Function.update_of_ne (h.bufs ▸ h.pos.ne)]
      · rfl
    exact { h.setMem hzero hset with bufs := congrArg (· + 1) h.bufs, pos := Nat.succ_pos _ }
  | xor dst start io =>
    obtain ⟨hdst, hio⟩ := hfit
    refine .some ⟨rfl, trivial, h.setMem ?_ fun x hx => ?_⟩
    · funext i
      exact if_neg fun hin => hdst hin.1.symm
    · funext i
      simp only [xorInto, h.buffers x hx]
      by_cases hin : x = dst ∧ start ≤ i ∧ i < start + io.numBlocks
      · rw [if_pos hin, if_pos hin, h.load hio (show i - start < io.numBlocks by omega)]
      · rw [if_neg hin, if_neg hin]
  | copy io src =>
    obtain ⟨⟨r, rfl⟩, hio, hfill, hsrc⟩ := hfit
    have hdata : (toBytes r.numBlocks (s.mem src)).length =
        (addrsOf (seg.slice r).iovs).length := by
      have hbytes := seg.fit_bytes hio
      rw [length_toBytes, Segments.addrs_slice hio, List.length_take, List.length_drop,
        Nat.min_eq_left (by omega)]
    have hseg : (seg.slice r).Segmented b := Segments.segmented_slice b hfill hio
    have hcopy := hseg.copyFromSlice s.ram hdata
    simp only [Scattered.perform, hcopy, Raid5.perform, h.buffers src hsrc]
    exact .some ⟨trivial, trivial, h.store hio hfill (s.mem src)⟩
  | submit req =>
    have hlen : a.ios.length = s.ios.length := h.ios.length_eq.symm
    have hnew : SameIo num seg.Disjoint (⟨req, s.load seg req.io, .inFlight⟩ : ChildIo (Block n))
        ⟨req, Raid5.load req.io a.mem, .inFlight⟩ :=
      ⟨hfit, rfl, rfl, fun j hj => h.load hfit.1 hj⟩
    refine .some ⟨hlen.symm, trivial, { h with ios := ?_, trace := ?_ }⟩
    · exact List.rel_append h.ios (.cons hnew .nil)
    · exact congrArg₂ (fun t c => t ++ [.submit c]) h.trace hlen
  | await c =>
    have hio := rel_getElem? h.ios c
    simp only [Scattered.perform, Raid5.perform]
    rcases rel_cases hio with ⟨hx, hy⟩ | ⟨x, y, hx, hy, hsame⟩
    · rw [hx, hy]
      exact .none
    · obtain ⟨req, data, phase⟩ := x
      obtain ⟨req', data', phase'⟩ := y
      cases hsame.phase
      rw [hx, hy]
      cases phase with
      | done ok => exact .some ⟨rfl, trivial, h⟩
      | _ => exact .none
  | drop r => exact .some ⟨rfl, trivial, { h with trace := congrArg (· ++ _) h.trace }⟩
  | complete sender status =>
    exact .some ⟨rfl, trivial, { h with completions := congrArg (· ++ _) h.completions }⟩
  | panic msg => exact .none

/-- The effect of a child I/O. -/
theorem put (h : Shows seg s a) {r : ChildReq} (hfit : ReqFits num seg.Disjoint r)
    {toDisk toDisk' : Nat → Block n} (hdisk : ∀ j < r.io.numBlocks, toDisk' j = toDisk j)
    (toMem : Nat → Block n) : Shows seg (s.put seg r toDisk toMem) (a.put r toDisk' toMem) := by
  have hread : r.kind ≠ .store → Shows seg (s.store seg toMem r.io)
      { a with mem := Raid5.store r.io toMem a.mem } :=
    fun hk => h.store hfit.1 (hfit.2 hk) toMem
  unfold Proc.put Raid5.Proc.put
  cases hk : r.kind with
  | store =>
    refine { h with disks := ?_ }
    funext x row
    simp only [writeDisk, h.disks]
    by_cases hhit : r.Hits x row
    · rw [if_pos hhit, if_pos hhit]
      obtain ⟨_, hge, hlt⟩ := hhit
      exact hdisk _ (by omega)
    · rw [if_neg hhit, if_neg hhit]
  | fetch => exact hread (hk ▸ Kind.fetch_ne_store)
  | rebuild => exact hread (hk ▸ Kind.rebuild_ne_store)

theorem setPhase (h : Shows seg s a) {x y : ChildIo (Block n)} (hsame : SameIo num seg.Disjoint x y)
    (c : Nat)
    (p : Phase) : Shows seg (s.setPhase c x p) (a.setPhase c y p) :=
  { h with ios := forall₂_set h.ios c ⟨hsame.fits, hsame.req, rfl, hsame.data⟩ }

theorem sample (h : Shows seg s a) {x y : ChildIo (Block n)} (hsame : SameIo num seg.Disjoint x y)
    (ch : Children) (c : Nat) (junk : Nat → Block n) : ∀ j < x.req.io.numBlocks,
      ch.sample a c y junk j = Scattered.sample ch seg s c x junk j := by
  intro j hj
  unfold Children.sample Scattered.sample
  split
  · rw [h.trace]
    split
    · rfl
    · rw [hsame.req, h.load hsame.fits.1 hj]
  · exact hsame.data j hj

/-- **One step of a child.** -/
theorem react (h : Shows seg s a) (ch : Children) (e : ChildEvent (Block n)) :
    Option.Rel (Shows seg) (Scattered.react ch seg s e) (ch.react a e) := by
  cases e with
  | apply c junk =>
    refine rel_bind (rel_getElem? h.ios c) fun x y hsame => ?_
    rw [hsame.req, hsame.phase, h.disks]
    split
    · exact .some ((h.put hsame.fits (h.sample hsame ch c junk) _).setPhase hsame c .applied)
    · exact .none
  | finish c =>
    refine rel_bind (rel_getElem? h.ios c) fun x y hsame => ?_
    rw [hsame.phase]
    split
    · exact .some { h.setPhase hsame c (.done true) with
                      trace := congrArg (· ++ [.complete c true]) h.trace }
    · exact .none
  | fail c junk =>
    refine rel_bind (rel_getElem? h.ios c) fun x y hsame => ?_
    rw [hsame.req, hsame.phase]
    split
    · have hdisk : ∀ j < x.req.io.numBlocks, junk j = junk j := fun _ _ => rfl
      have hput := (h.put hsame.fits hdisk junk).setPhase hsame c (.done false)
      exact .some { hput with trace := congrArg (· ++ [.complete c false]) h.trace }
    · exact .none

end Shows

/-! ## Runs -/

/-- The two are at the same place of a program whose operations fit. -/
def Forgets (seg : Segments n num) (c : Running n) (d : Raid5.Running (Block n)) : Prop :=
  c.1 = d.1 ∧ c.1.Asks (OpFits num seg.Disjoint) Granted (fun _ => True) ∧ Shows seg c.2 d.2

/-- **The segments can be forgotten.** -/
theorem forget_lockstep (b : Build) (seg : Segments n num) (dev : Raid5Bdev) (ch : Children)
    (stripe : Nat) : Lockstep (Running.next b seg dev ch stripe)
      (Raid5.Running.next dev ch stripe) (Forgets seg) := by
  rintro ⟨p, s⟩ ⟨q, a⟩ e ⟨hprog, hasks, hshows⟩
  obtain rfl : p = q := hprog
  cases e with
  | step =>
    cases p with
    | ret x => exact .none
    | op o k =>
      obtain ⟨hfit, hrest⟩ := hasks
      have hop := hshows.perform b hfit
      show Option.Rel _ ((Scattered.perform b seg o s).map _) ((Raid5.perform o a).map _)
      rcases rel_cases hop with ⟨hx, hy⟩ | ⟨⟨r, t⟩, ⟨r', u⟩, hx, hy, hr, hgranted, ht⟩
      · rw [hx, hy]
        exact .none
      · obtain rfl : r = r' := hr
        rw [hx, hy]
        exact .some ⟨rfl, hrest r hgranted, ht⟩
  | child e =>
    have hchild := hshows.react ch e
    show Option.Rel _ ((react ch seg s e).map _) ((ch.react a e).map _)
    rcases rel_cases hchild with ⟨hx, hy⟩ | ⟨t, u, hx, hy, ht⟩
    · rw [hx, hy]
      exact .none
    · rw [hx, hy]
      exact .some ⟨rfl, hasks, ht⟩
  | others disk row x =>
    have hdisks : a.disks = s.disks := hshows.disks
    simp only [Running.next, Raid5.Running.next]
    split
    · exact .none
    · refine .some ⟨rfl, hasks, { hshows with disks := ?_ }⟩
      simp only [hdisks]

theorem forgets_start (seg : Segments n num) {p : Task Unit}
    (hfit : p.Asks (OpFits num seg.Disjoint) Granted fun _ => True) (ram : Nat → Byte)
    (mem disks : Nat → Nat → Block n) :
    Forgets seg (p, Proc.start ram mem disks)
      (p, Raid5.Proc.start (Function.update mem 0 (toBlocks n (gather ram seg.addrs))) disks) := by
  refine ⟨rfl, hfit, ⟨fun i _ => ?_, fun b hb => ?_, rfl, .nil, rfl, rfl, rfl, Nat.one_pos⟩⟩
  · simp only [Raid5.Proc.start, Function.update_self]
    rfl
  · simp only [Raid5.Proc.start, Function.update_of_ne hb]
    rfl

end Ironspdk.Raid5.Scattered
