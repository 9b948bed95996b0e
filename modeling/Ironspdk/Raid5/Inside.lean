import Ironspdk.Raid5.Forget
import Ironspdk.Raid5.FullStripe

/-! # Programs that keep to the request

Whatever their operations return, the programs of a read and of the two write paths use views
of the request that lie inside it, and buffers of the allocator. Only a read fills the memory of
the request, so that the segments of a write may share bytes. -/
namespace Ironspdk.Raid5.Scattered
open Ironspdk.Lib Ironspdk.Runtime

variable {α β γ : Type} {num : Nat} {fills : Prop}

/-- Every operation of the program fits a request of `num` blocks, whose memory it fills only when
`fills` holds. -/
abbrev Inside (num : Nat) (fills : Prop) (p : Task α) (Q : α → Prop) : Prop :=
  p.Asks (OpFits num fills) Granted Q

/-! ## The loops -/

section loops

theorem inside_panic {msg : String} {Q : α → Prop} : Inside num fills (panic msg : Task α) Q :=
  ⟨trivial, fun r => r.elim⟩

theorem inside_new (blocks : Nat) : Inside num fills (DmaBuf.new blocks) (·.id ≠ 0) :=
  ⟨trivial, fun _ hr => hr⟩

theorem inside_newZeroed (blocks : Nat) : Inside num fills (DmaBuf.newZeroed blocks) (·.id ≠ 0) :=
  ⟨trivial, fun _ hr => hr⟩

theorem inside_newBufs (sizes : List Nat) :
    Inside num fills (newBufs sizes) fun bufs => ∀ d ∈ bufs, d.id ≠ 0 := by
  induction sizes with
  | nil => exact Prog.asks_pure (List.forall_mem_nil _)
  | cons blocks sizes ih =>
    refine (inside_new blocks).bind fun d hd => ih.bind fun bufs hbufs => ?_
    exact Prog.asks_pure (List.forall_mem_cons.mpr ⟨hd, hbufs⟩)

theorem inside_xor {dst : DmaBuf} {io : Io} (hdst : dst.id ≠ 0) (hio : Fits num io)
    (start len : Nat) : Inside num fills (xor dst start len io) fun _ => True := by
  unfold xor
  split
  · exact ⟨⟨hdst, hio⟩, fun _ _ => trivial⟩
  · exact inside_panic

theorem inside_copyFromSlice {io : Io} {data : DmaBuf} (hio : Fits num io)
    (hfill : Fillable fills io) (hdata : data.id ≠ 0) :
    Inside num fills (copyFromSlice io data) fun _ => True := by
  cases io with
  | ref r =>
    simp only [copyFromSlice]
    split
    · exact ⟨⟨⟨r, rfl⟩, hio, hfill, hdata⟩, fun _ _ => trivial⟩
    · exact inside_panic
  | buf b => exact Prog.asks_pure trivial

theorem inside_completeOn (sender : SpdkThread) (status : IoStatus) :
    Inside num fills (completeOn sender status) fun _ => True :=
  ⟨trivial, fun _ _ => trivial⟩

theorem inside_submitAll {rs : List ChildReq} (h : ∀ r ∈ rs, ReqFits num fills r) :
    Inside num fills (submitAll rs) fun _ => True := by
  induction rs with
  | nil => exact Prog.asks_pure trivial
  | cons r rs ih =>
    obtain ⟨hr, hrs⟩ := List.forall_mem_cons.mp h
    exact Prog.asks_perform hr fun c _ => (ih hrs).bind fun cs _ => Prog.asks_pure trivial

theorem reqFits_store {disk : Nat} {io : Io} (h : Fits num io) :
    ReqFits num fills ⟨.store, disk, io⟩ := ⟨h, fun hne => absurd rfl hne⟩

theorem inside_submitByValue {ios : List (Nat × Io)} (h : ∀ x ∈ ios, Fits num x.2) :
    Inside num fills (submitByValue ios) fun _ => True := by
  induction ios with
  | nil => exact Prog.asks_pure trivial
  | cons x ios ih =>
    obtain ⟨hx, hios⟩ := List.forall_mem_cons.mp h
    exact Prog.asks_perform (reqFits_store hx) fun c _ => Prog.asks_perform trivial fun _ _ =>
      (ih hios).bind fun cs _ => Prog.asks_pure trivial

theorem inside_awaitEach {step : β → γ → Bool → Task β}
    (h : ∀ b x ok, Inside num fills (step b x ok) fun _ => True) (futs : List (γ × Nat)) (b : β) :
    Inside num fills (awaitEach step futs b) fun _ => True := by
  induction futs generalizing b with
  | nil => exact Prog.asks_pure trivial
  | cons f futs ih =>
    exact Prog.asks_perform trivial fun ok _ => (h b f.1 ok).bind fun b _ => ih b

theorem inside_dropAll (rs : List Resource) : Inside num fills (dropAll rs) fun _ => True := by
  induction rs with
  | nil => exact Prog.asks_pure trivial
  | cons r rs ih => exact Prog.asks_perform trivial fun _ _ => ih

theorem inside_awaitUntilFailure (cs : List Nat) :
    Inside num fills (awaitUntilFailure cs) fun _ => True := by
  induction cs with
  | nil => exact Prog.asks_pure trivial
  | cons c cs ih =>
    refine Prog.asks_perform trivial fun ok _ => ?_
    cases ok with
    | true => exact ih
    | false => exact Prog.asks_pure trivial

theorem inside_xorAll {dst : DmaBuf} {ios : List Io} (hdst : dst.id ≠ 0)
    (h : ∀ io ∈ ios, Fits num io) : Inside num fills (xorAll dst ios) fun _ => True := by
  induction ios with
  | nil => exact Prog.asks_pure trivial
  | cons io ios ih =>
    obtain ⟨hio, hios⟩ := List.forall_mem_cons.mp h
    exact (inside_xor hdst hio 0 dst.blocks).bind fun _ _ => ih hios

theorem inside_xorStrips {dst : DmaBuf} {segs : List (Raid5.Strip × Io)} (hdst : dst.id ≠ 0)
    (h : ∀ x ∈ segs, Fits num x.1.io ∧ Fits num x.2) :
    Inside num fills (xorStrips dst segs) fun _ => True := by
  induction segs with
  | nil => exact Prog.asks_pure trivial
  | cons x segs ih =>
    obtain ⟨⟨hnew, hold⟩, hsegs⟩ := List.forall_mem_cons.mp h
    exact (inside_xor hdst hold _ _).bind fun _ _ => (inside_xor hdst hnew _ _).bind fun _ _ =>
      ih hsegs

/-! ## The paths -/

theorem fits_newBuf {d : DmaBuf} (hd : d.id ≠ 0) (off : Nat) : Fits num (Io.newBuf d off) := hd

theorem reqFits_newBuf {kind : Kind} {disk : Nat} {d : DmaBuf} (hd : d.id ≠ 0) (off : Nat) :
    ReqFits num fills ⟨kind, disk, Io.newBuf d off⟩ := ⟨hd, fun _ => trivial⟩

theorem inside_reconstruct (dev : Raid5Bdev) (skip off blocks : Nat) :
    Inside num fills (reconstruct dev skip off blocks) fun buf => ∀ d ∈ buf, d.id ≠ 0 := by
  refine (inside_newBufs _).bind fun bufs hbufs => ?_
  have hreqs : ∀ r ∈ rebuildReqs dev.diskCount skip off bufs, ReqFits num fills r := by
    intro r hr
    obtain ⟨i, hi⟩ := List.mem_iff_getElem?.mp hr
    rw [rebuildReqs, List.getElem?_zipWith] at hi
    split at hi
    · rename_i d buf _ hbuf
      cases hi
      exact reqFits_newBuf (hbufs buf (List.mem_of_getElem? hbuf)) off
    · cases hi
  refine (inside_submitAll hreqs).bind fun cs _ => (inside_awaitUntilFailure cs).bind fun ok _ => ?_
  cases ok with
  | true =>
    refine (inside_newZeroed blocks).bind fun out hout => ?_
    have hios : ∀ io ∈ bufs.map (Io.newBuf · off), Fits num io := by
      intro io hio
      obtain ⟨buf, hbuf, rfl⟩ := List.mem_map.mp hio
      exact fits_newBuf (hbufs buf hbuf) off
    refine (inside_xorAll hout hios).bind fun _ _ => (inside_dropAll _).bind fun _ _ => ?_
    refine Prog.asks_pure fun d hd => ?_
    cases hd
    exact hout
  | false => exact (inside_dropAll _).bind fun _ _ => Prog.asks_pure fun d hd => by cases hd

/-- The strips of a request lie inside it. -/
theorem fits_strip {dev : Raid5Bdev} {k base : Nat} {s : Raid5.Strip} (h : s.For dev k base num) :
    Fits num s.io := by
  rw [h.view]
  exact h.inRequest

theorem fillable_of (h : fills) (io : Io) : Fillable fills io := by
  cases io with
  | ref r => exact h
  | buf b => trivial

theorem inside_read (dev : Raid5Bdev) (sender : SpdkThread) {io : BdevIo}
    (hfit : ¬ dev.crossesStripe io) (hfills : fills) :
    Inside io.numBlocks fills (read dev sender io (dev.stripeIdx io.offsetBlocks))
      fun _ => True := by
  obtain ⟨strips, hstrips, hsplit⟩ := split_request dev hfit
  have hfits : ∀ s ∈ strips, Fits io.numBlocks s.io := fun s hs => fits_strip (hsplit.all_for s hs)
  unfold read
  simp only [hstrips]
  refine (inside_submitAll fun r hr => ?_).bind fun cs _ => ?_
  · obtain ⟨s, hs, rfl⟩ := List.mem_map.mp hr
    exact ⟨hfits s hs, fun _ => fillable_of hfills s.io⟩
  refine (inside_awaitEach (fun _ _ _ => Prog.asks_pure trivial) _ _).bind fun failed _ => ?_
  have hdrops := @inside_dropAll io.numBlocks fills (cs.map .ctx ++ cs.map .io)
  have hend : ∀ status, Inside io.numBlocks fills (completeOn sender status >>= fun _ =>
      dropAll (cs.map .ctx ++ cs.map .io)) fun _ => True := fun status =>
    (inside_completeOn sender status).bind fun _ _ => hdrops
  split
  · exact hend .success
  · split
    · exact inside_panic.bind (Q := fun _ => True) fun _ _ => hdrops
    · rename_i s hs
      refine (inside_reconstruct _ _ _ _).bind fun buf hbuf => ?_
      cases buf with
      | none => exact hend .failure
      | some buf =>
        exact (inside_copyFromSlice (hfits s (List.mem_of_getElem? hs)) (fillable_of hfills s.io)
          (hbuf buf rfl)).bind fun _ _ => hend .success
  · exact hend .failure

theorem inside_countFailure (overflowChecks : Bool) (f : Failures) (disk : Nat) (ok : Bool) :
    Inside num fills (countFailure overflowChecks f disk ok) fun _ => True := by
  unfold countFailure
  split
  · exact Prog.asks_pure trivial
  · unfold shlOne
    split
    · exact inside_panic.bind (Q := fun _ => True) fun _ _ => Prog.asks_pure trivial
    · exact Prog.asks_pure trivial

theorem inside_completeWrite (sender : SpdkThread) (f : Failures) :
    Inside num fills (completeWrite sender f) fun _ => True := by
  unfold completeWrite
  split
  · exact inside_completeOn _ _
  · split
    · split
      · exact inside_panic
      · exact inside_completeOn _ _
    · exact inside_completeOn _ _

theorem inside_writeBack (dev : Raid5Bdev) (overflowChecks : Bool) (sender : SpdkThread) (k : Nat)
    {strips : List Raid5.Strip} {olds : List Io} {par : Io} (cs held : List Nat)
    (hstrips : ∀ s ∈ strips, Fits num s.io) (holds : ∀ io ∈ olds, Fits num io)
    (hpar : Fits num par) :
    Inside num fills (writeBack dev overflowChecks sender k strips olds par cs held)
      fun _ => True := by
  refine (inside_newZeroed _).bind fun parity hparity => ?_
  refine (inside_xor hparity hpar _ _).bind fun _ _ => ?_
  refine (inside_xorStrips hparity fun x hx => ?_).bind fun _ _ => ?_
  · have hzip := List.of_mem_zip hx
    exact ⟨hstrips _ hzip.1, holds _ hzip.2⟩
  refine (inside_submitAll fun r hr => ?_).bind fun wcs _ => ?_
  · rcases List.mem_append.mp hr with hr | hr
    · obtain ⟨s, hs, rfl⟩ := List.mem_map.mp hr
      exact reqFits_store (hstrips s hs)
    · rw [List.mem_singleton.mp hr]
      exact reqFits_newBuf hparity _
  refine (inside_awaitEach (inside_countFailure overflowChecks) _ _).bind fun f _ => ?_
  exact (inside_completeWrite sender f).bind fun _ _ => inside_dropAll _

theorem inside_writeReconstructed (dev : Raid5Bdev) (overflowChecks : Bool) (sender : SpdkThread)
    (k : Nat) {strips : List Raid5.Strip} {olds : List Io} {par : Io} (cs : List Nat)
    (failed : Nat) (hstrips : ∀ s ∈ strips, Fits num s.io) (holds : ∀ io ∈ olds, Fits num io)
    (hpar : Fits num par) :
    Inside num fills (writeReconstructed dev overflowChecks sender k strips olds par cs failed)
      fun _ => True := by
  have hend : Inside num fills (completeOn sender .failure >>= fun _ =>
      dropAll (cs.map .ctx ++ cs.map .io)) fun _ => True :=
    (inside_completeOn sender .failure).bind fun _ _ => inside_dropAll _
  unfold writeReconstructed
  split
  · refine (inside_reconstruct _ _ _ _).bind fun buf hbuf => ?_
    cases buf with
    | none => exact hend
    | some buf =>
      exact (inside_dropAll _).bind fun _ _ => inside_writeBack dev overflowChecks sender k _ _
        hstrips holds (fits_newBuf (hbuf buf rfl) _)
  · split
    · exact inside_panic
    · split
      · exact inside_panic
      · refine (inside_reconstruct _ _ _ _).bind fun buf hbuf => ?_
        cases buf with
        | none => exact hend
        | some buf =>
          refine (inside_dropAll _).bind fun _ _ => inside_writeBack dev overflowChecks sender k _ _
            hstrips (fun io hio => ?_) hpar
          rcases List.mem_or_eq_of_mem_set hio with hio | rfl
          · exact holds io hio
          · exact fits_newBuf (hbuf buf rfl) _

theorem inside_writePartialStripe (fills : Prop) (dev : Raid5Bdev) (overflowChecks : Bool)
    (sender : SpdkThread) {io : BdevIo} {k : Nat} (hk : dev.stripeIdx io.offsetBlocks = k)
    (hfit : ¬ dev.crossesStripe io) : Inside io.numBlocks fills
      (writePartialStripe dev overflowChecks sender io k) fun _ => True := by
  subst hk
  obtain ⟨strips, hstrips, hsplit⟩ := split_request dev hfit
  have hfits : ∀ s ∈ strips, Fits io.numBlocks s.io := fun s hs => fits_strip (hsplit.all_for s hs)
  unfold writePartialStripe
  simp only [hstrips]
  refine (inside_newBufs _).bind fun bufs hbufs => ?_
  refine (inside_new _).bind fun par hpar => ?_
  obtain ⟨olds, holds⟩ : ∃ olds, olds = List.zipWith (fun (s : Raid5.Strip) c => Io.newBuf c
    (dev.stripeIdx io.offsetBlocks * dev.stripBlocks + s.offsetInStrip)) strips bufs := ⟨_, rfl⟩
  have hold : ∀ x ∈ olds, Fits io.numBlocks x ∧ Fillable fills x := by
    intro x hx
    obtain ⟨i, hi⟩ := List.mem_iff_getElem?.mp hx
    rw [holds, List.getElem?_zipWith] at hi
    split at hi
    · rename_i hbuf
      cases hi
      exact ⟨fits_newBuf (hbufs _ (List.mem_of_getElem? hbuf)) _, trivial⟩
    · cases hi
  have hinside : ∀ x ∈ olds, Fits io.numBlocks x := fun x hx => (hold x hx).1
  rw [← holds]
  refine (inside_submitAll fun r hr => ?_).bind fun cs _ => ?_
  · rcases List.mem_append.mp hr with hr | hr
    · obtain ⟨i, hi⟩ := List.mem_iff_getElem?.mp hr
      rw [List.getElem?_zipWith] at hi
      split at hi
      · rename_i hio
        cases hi
        obtain ⟨hin, hfill⟩ := hold _ (List.mem_of_getElem? hio)
        exact ⟨hin, fun _ => hfill⟩
      · cases hi
    · rw [List.mem_singleton.mp hr]
      exact reqFits_newBuf hpar _
  refine (inside_awaitEach (inside_countFailure overflowChecks) _ _).bind fun f _ => ?_
  split
  · exact (inside_completeWrite sender f).bind fun _ _ => inside_dropAll _
  · split
    · split
      · exact inside_panic
      · exact inside_writeReconstructed dev overflowChecks sender _ cs _ hfits hinside
          (fits_newBuf hpar _)
    · exact inside_writeBack dev overflowChecks sender _ cs cs hfits hinside (fits_newBuf hpar _)

theorem inside_writeFullStripe (fills : Prop) (dev : Raid5Bdev) (overflowChecks : Bool)
    (sender : SpdkThread) {io : BdevIo} {k : Nat} (hk : dev.stripeIdx io.offsetBlocks = k)
    (hoff : dev.stripeOffset io.offsetBlocks = 0) (hnum : io.numBlocks = dev.stripeBlocks) :
    Inside io.numBlocks fills (writeFullStripe dev overflowChecks sender io k) fun _ => True := by
  subst hk
  obtain ⟨strips, hstrips, hsplit, hfull, hpairs⟩ := split_full dev hoff hnum rfl
  have hfits : ∀ s ∈ strips, Fits io.numBlocks s.io := fun s hs => fits_strip (hsplit.all_for s hs)
  unfold writeFullStripe
  simp only [hstrips, hpairs]
  refine (inside_newZeroed _).bind fun parity hparity => ?_
  refine (inside_xorAll hparity fun x hx => ?_).bind fun _ _ => ?_
  · obtain ⟨s, hs, rfl⟩ := List.mem_map.mp hx
    exact hfits s hs
  refine (inside_submitByValue fun x hx => ?_).bind fun cs _ => ?_
  · obtain ⟨d, hd, rfl⟩ := List.mem_map.mp hx
    unfold Raid5Bdev.fullIo
    by_cases hp : d = dev.parityDiskIdx (dev.stripeIdx io.offsetBlocks)
    · rw [if_pos hp]
      exact fits_newBuf hparity _
    · rw [if_neg hp]
      have hlt := stripOf_lt (by simpa using hd) (dev.parityDiskIdx_lt _) hp
      refine hfits _ ?_
      rw [hfull]
      exact List.mem_map_of_mem (by simpa using hlt)
  refine (inside_awaitEach (inside_countFailure overflowChecks) _ _).bind fun f _ => ?_
  exact (inside_completeWrite sender f).bind fun _ _ => inside_dropAll _

end loops

end Ironspdk.Raid5.Scattered
