import Ironspdk.Lib.Replay
import Ironspdk.Raid5.FullStripe

/-! # Where a request stores

Whatever the answers of its operations, the program of a request submits child writes only if
it is a write, and then each is of a strip of the request, to where the layout sends it, or of
the parity. Once it has completed the request it only lets its values go. -/
namespace Ironspdk.Raid5
open Ironspdk.Lib Ironspdk.Runtime

variable {α β γ : Type} {good : ChildReq → Prop}

/-- What a request may do: child writes that are good, and nothing but drop values once it is
answered. -/
def Op.Allowed (good : ChildReq → Prop) (answered : Bool) : Op → Prop
  | .drop _ => True
  | .submit r => answered = false ∧ (r.kind = .store → good r)
  | _ => answered = false

/-- Whether the request is answered after the operation. -/
def Op.answered (before : Bool) : Op → Bool
  | .complete _ _ => true
  | _ => before

/-- The program does what it may. -/
def StoresOnly (good : ChildReq → Prop) (answered : Bool) (p : Task α) : Prop :=
  p.Follows (Op.Allowed good) Op.answered answered fun _ _ => True

theorem StoresOnly.next {answered : Bool} {o : Op} {k : Res o → Task α}
    (h : StoresOnly good answered (.op o k)) :
    o.Allowed good answered ∧ ∀ r, StoresOnly good (o.answered answered) (k r) :=
  h

/-- A part of the program before its request is answered. -/
def Unanswered (good : ChildReq → Prop) (p : Task α) : Prop :=
  p.Follows (Op.Allowed good) Op.answered false fun _ answered => answered = false

/-! ## The loops -/

section loops

theorem Unanswered.bind {Q : β → Bool → Prop} {p : Task α} {f : α → Task β}
    (h : Unanswered good p) (hf : ∀ a, (f a).Follows (Op.Allowed good) Op.answered false Q) :
    (p >>= f).Follows (Op.Allowed good) Op.answered false Q :=
  Prog.Follows.bind h fun a _ hq => hq ▸ hf a

theorem stores_pure (a : α) : Unanswered good (pure a : Task α) := Prog.follows_pure rfl

theorem stores_panic {Q : α → Bool → Prop} {msg : String} :
    (panic msg : Task α).Follows (Op.Allowed good) Op.answered false Q :=
  ⟨rfl, fun r => r.elim⟩

theorem stores_new (blocks : Nat) : Unanswered good (DmaBuf.new blocks) :=
  Prog.follows_perform rfl fun _ => stores_pure _

theorem stores_newZeroed (blocks : Nat) : Unanswered good (DmaBuf.newZeroed blocks) :=
  Prog.follows_perform rfl fun _ => stores_pure _

theorem stores_newBufs (sizes : List Nat) : Unanswered good (newBufs sizes) := by
  induction sizes with
  | nil => exact stores_pure _
  | cons blocks sizes ih =>
    exact (stores_new blocks).bind fun _ => ih.bind fun _ => stores_pure _

theorem stores_xor (dst : DmaBuf) (start len : Nat) (io : Io) :
    Unanswered good (xor dst start len io) := by
  unfold xor
  split
  · exact ⟨rfl, fun _ => rfl⟩
  · exact stores_panic

theorem stores_xorAll (dst : DmaBuf) (ios : List Io) : Unanswered good (xorAll dst ios) := by
  induction ios with
  | nil => exact stores_pure _
  | cons io ios ih => exact (stores_xor _ _ _ _).bind fun _ => ih

theorem stores_xorStrips (dst : DmaBuf) (segs : List (Strip × Io)) :
    Unanswered good (xorStrips dst segs) := by
  induction segs with
  | nil => exact stores_pure _
  | cons x segs ih =>
    exact (stores_xor _ _ _ _).bind fun _ => (stores_xor _ _ _ _).bind fun _ => ih

theorem stores_copyFromSlice (io : Io) (data : DmaBuf) :
    Unanswered good (copyFromSlice io data) := by
  unfold copyFromSlice
  split
  · split
    · exact ⟨rfl, fun _ => rfl⟩
    · exact stores_panic
  · exact stores_pure _

theorem stores_submitAll {rs : List ChildReq} (h : ∀ r ∈ rs, r.kind = .store → good r) :
    Unanswered good (submitAll rs) := by
  induction rs with
  | nil => exact stores_pure _
  | cons r rs ih =>
    obtain ⟨hr, hrs⟩ := List.forall_mem_cons.mp h
    exact Prog.follows_perform ⟨rfl, hr⟩ fun _ => (ih hrs).bind fun _ => stores_pure _

theorem stores_submitByValue {ios : List (Nat × Io)} (h : ∀ x ∈ ios, good ⟨.store, x.1, x.2⟩) :
    Unanswered good (submitByValue ios) := by
  induction ios with
  | nil => exact stores_pure _
  | cons x ios ih =>
    obtain ⟨hx, hios⟩ := List.forall_mem_cons.mp h
    exact Prog.follows_perform ⟨rfl, fun _ => hx⟩ fun _ => Prog.follows_perform trivial fun _ =>
      (ih hios).bind fun _ => stores_pure _

theorem stores_awaitEach {step : β → γ → Bool → Task β}
    (h : ∀ b x ok, Unanswered good (step b x ok)) (futs : List (γ × Nat)) (b : β) :
    Unanswered good (awaitEach step futs b) := by
  induction futs generalizing b with
  | nil => exact stores_pure _
  | cons f futs ih => exact Prog.follows_perform rfl fun ok => (h b f.1 ok).bind fun b => ih b

theorem stores_awaitUntilFailure (cs : List Nat) : Unanswered good (awaitUntilFailure cs) := by
  induction cs with
  | nil => exact stores_pure _
  | cons c cs ih =>
    refine Prog.follows_perform rfl fun ok => ?_
    cases ok with
    | true => exact ih
    | false => exact stores_pure _

theorem stores_dropAll (rs : List Resource) (answered : Bool) :
    (dropAll rs).Follows (Op.Allowed good) Op.answered answered fun _ q => q = answered := by
  induction rs with
  | nil => exact Prog.follows_pure rfl
  | cons r rs ih => exact Prog.follows_perform trivial fun _ => ih

/-- The completion of a request, with what it drops after it. -/
theorem stores_completeOn (sender : SpdkThread) (status : IoStatus) (rs : List Resource) :
    StoresOnly good false (completeOn sender status >>= fun _ => dropAll rs) :=
  Prog.follows_perform rfl fun _ => (stores_dropAll rs true).mono fun _ _ _ => trivial

/-! ## The paths -/

theorem stores_reconstruct (dev : Raid5Bdev) (skip off blocks : Nat) :
    Unanswered good (reconstruct dev skip off blocks) := by
  refine (stores_newBufs _).bind fun bufs => (stores_submitAll fun r hr hk => ?_).bind fun cs =>
    (stores_awaitUntilFailure cs).bind fun ok => ?_
  · obtain ⟨i, hi⟩ := List.mem_iff_getElem?.mp hr
    rw [rebuildReqs, List.getElem?_zipWith] at hi
    split at hi
    · cases hi
      exact absurd hk Kind.rebuild_ne_store
    · cases hi
  · cases ok with
    | true =>
      exact (stores_newZeroed _).bind fun _ => (stores_xorAll _ _).bind fun _ =>
        Unanswered.bind (stores_dropAll _ false) fun _ => stores_pure _
    | false => exact Unanswered.bind (stores_dropAll _ false) fun _ => stores_pure _

theorem stores_read (dev : Raid5Bdev) (sender : SpdkThread) (io : BdevIo) (k : Nat) :
    StoresOnly good false (read dev sender io k) := by
  unfold read
  simp only
  split
  · exact stores_panic
  · rename_i strips _
    refine (stores_submitAll fun r hr hk => ?_).bind fun cs => ?_
    · obtain ⟨s, _, rfl⟩ := List.mem_map.mp hr
      exact absurd hk Kind.fetch_ne_store
    refine (stores_awaitEach (fun _ _ _ => stores_pure _) _ _).bind fun failed => ?_
    split
    · exact stores_completeOn _ _ _
    · split
      · exact ⟨rfl, fun r => r.elim⟩
      · refine (stores_reconstruct _ _ _ _).bind fun buf => ?_
        cases buf with
        | none => exact stores_completeOn _ _ _
        | some buf => exact (stores_copyFromSlice _ _).bind fun _ => stores_completeOn _ _ _
    · exact stores_completeOn _ _ _

theorem stores_countFailure (overflowChecks : Bool) (f : Failures) (disk : Nat) (ok : Bool) :
    Unanswered good (countFailure overflowChecks f disk ok) := by
  unfold countFailure
  split
  · exact stores_pure _
  · unfold shlOne
    split
    · exact ⟨rfl, fun r => r.elim⟩
    · exact stores_pure _

theorem stores_completeWrite (sender : SpdkThread) (f : Failures) (rs : List Resource) :
    StoresOnly good false (completeWrite sender f >>= fun _ => dropAll rs) := by
  unfold completeWrite
  split
  · exact stores_completeOn _ _ _
  · split
    · split
      · exact ⟨rfl, fun r => r.elim⟩
      · exact stores_completeOn _ _ _
    · exact stores_completeOn _ _ _

theorem stores_writeBack (dev : Raid5Bdev) (overflowChecks : Bool) (sender : SpdkThread) (k : Nat)
    {strips : List Strip} (olds : List Io) (par : Io) (cs held : List Nat)
    (hstrips : ∀ s ∈ strips, good ⟨.store, s.disk, s.io⟩)
    (hparity : ∀ io, good ⟨.store, dev.parityDiskIdx k, io⟩) :
    StoresOnly good false (writeBack dev overflowChecks sender k strips olds par cs held) := by
  refine (stores_newZeroed _).bind fun parity => (stores_xor _ _ _ _).bind fun _ =>
    (stores_xorStrips _ _).bind fun _ => (stores_submitAll fun r hr _ => ?_).bind fun wcs =>
    (stores_awaitEach (stores_countFailure overflowChecks) _ _).bind fun f =>
    stores_completeWrite sender f _
  rcases List.mem_append.mp hr with hr | hr
  · obtain ⟨s, hs, rfl⟩ := List.mem_map.mp hr
    exact hstrips s hs
  · rw [List.mem_singleton.mp hr]
    exact hparity _

theorem stores_writeReconstructed (dev : Raid5Bdev) (overflowChecks : Bool) (sender : SpdkThread)
    (k : Nat) {strips : List Strip} (olds : List Io) (par : Io) (cs : List Nat) (failed : Nat)
    (hstrips : ∀ s ∈ strips, good ⟨.store, s.disk, s.io⟩)
    (hparity : ∀ io, good ⟨.store, dev.parityDiskIdx k, io⟩) : StoresOnly good false
      (writeReconstructed dev overflowChecks sender k strips olds par cs failed) := by
  have hback : ∀ {held : List Nat} {gone : List Resource} {olds' : List Io} {par' : Io},
      StoresOnly good false (dropAll gone >>= fun _ =>
        writeBack dev overflowChecks sender k strips olds' par' cs held) := fun {_ gone _ _} =>
    Unanswered.bind (stores_dropAll gone false) fun _ =>
      stores_writeBack dev overflowChecks sender k _ _ _ _ hstrips hparity
  unfold writeReconstructed
  split
  · refine (stores_reconstruct _ _ _ _).bind fun buf => ?_
    cases buf with
    | none => exact stores_completeOn _ _ _
    | some buf => exact hback
  · split
    · exact stores_panic
    · split
      · exact stores_panic
      · refine (stores_reconstruct _ _ _ _).bind fun buf => ?_
        cases buf with
        | none => exact stores_completeOn _ _ _
        | some buf => exact hback

end loops

/-! ## Requests -/

/-- A child write of the request `io` for stripe `k`: of a strip of it, to where the layout
sends the strip, or of the parity. -/
def ChildReq.Placed (dev : Raid5Bdev) (k : Nat) (io : BdevIo) (r : ChildReq) : Prop :=
  io.ioType = .write ∧ ¬ dev.crossesStripe io ∧
    (r.disk = dev.parityDiskIdx k ∨
      ∃ s : Strip, s.For dev k io.offsetBlocks io.numBlocks ∧ r = ⟨.store, s.disk, s.io⟩)

section requests
variable {dev : Raid5Bdev} {io : BdevIo} {k : Nat}

theorem stores_writePartialStripe (overflowChecks : Bool) (sender : SpdkThread)
    (hk : dev.stripeIdx io.offsetBlocks = k) (hty : io.ioType = .write)
    (hfit : ¬ dev.crossesStripe io) : StoresOnly (ChildReq.Placed dev k io) false
      (writePartialStripe dev overflowChecks sender io k) := by
  subst hk
  obtain ⟨strips, hstrips, hsplit⟩ := split_request dev hfit
  have hgood : ∀ s ∈ strips, (⟨.store, s.disk, s.io⟩ : ChildReq).Placed dev
      (dev.stripeIdx io.offsetBlocks) io :=
    fun s hs => ⟨hty, hfit, Or.inr ⟨s, hsplit.all_for s hs, rfl⟩⟩
  have hparity : ∀ p, (⟨.store, dev.parityDiskIdx (dev.stripeIdx io.offsetBlocks), p⟩ :
      ChildReq).Placed dev (dev.stripeIdx io.offsetBlocks) io := fun p => ⟨hty, hfit, Or.inl rfl⟩
  unfold writePartialStripe
  simp only [hstrips]
  refine (stores_newBufs _).bind fun bufs => (stores_new _).bind fun par =>
    (stores_submitAll fun r hr hstore => ?_).bind fun cs =>
    (stores_awaitEach (stores_countFailure overflowChecks) _ _).bind fun f => ?_
  · rcases List.mem_append.mp hr with hr | hr
    · obtain ⟨i, hi⟩ := List.mem_iff_getElem?.mp hr
      rw [List.getElem?_zipWith] at hi
      split at hi
      · cases hi
        exact absurd hstore Kind.fetch_ne_store
      · cases hi
    · rw [List.mem_singleton.mp hr] at hstore
      exact absurd hstore Kind.fetch_ne_store
  split
  · exact stores_completeWrite sender f _
  · split
    · split
      · exact stores_panic
      · exact stores_writeReconstructed dev overflowChecks sender _ _ _ _ _ hgood hparity
    · exact stores_writeBack dev overflowChecks sender _ _ _ _ _ hgood hparity

theorem stores_writeFullStripe (overflowChecks : Bool) (sender : SpdkThread)
    (hk : dev.stripeIdx io.offsetBlocks = k) (hty : io.ioType = .write)
    (hoff : dev.stripeOffset io.offsetBlocks = 0) (hnum : io.numBlocks = dev.stripeBlocks) :
    StoresOnly (ChildReq.Placed dev k io) false
      (writeFullStripe dev overflowChecks sender io k) := by
  subst hk
  have hfit : ¬ dev.crossesStripe io := by
    rw [Raid5Bdev.crossesStripe, hoff, hnum]
    omega
  obtain ⟨strips, hstrips, hsplit, hfull, hpairs⟩ := split_full dev hoff hnum rfl
  unfold writeFullStripe
  simp only [hstrips, hpairs]
  refine (stores_newZeroed _).bind fun parity => (stores_xorAll _ _).bind fun _ =>
    (stores_submitByValue fun x hx => ⟨hty, hfit, ?_⟩).bind fun cs =>
    (stores_awaitEach (stores_countFailure overflowChecks) _ _).bind fun f =>
    stores_completeWrite sender f _
  obtain ⟨d, hd, rfl⟩ := List.mem_map.mp hx
  by_cases hp : d = dev.parityDiskIdx (dev.stripeIdx io.offsetBlocks)
  · exact Or.inl hp
  · refine Or.inr ⟨dev.fullStrip (dev.stripeIdx io.offsetBlocks)
      (stripOf d (dev.parityDiskIdx (dev.stripeIdx io.offsetBlocks))), hsplit.all_for _ ?_, ?_⟩
    · have hlt := stripOf_lt (by simpa using hd) (dev.parityDiskIdx_lt _) hp
      rw [hfull]
      exact List.mem_map_of_mem (by simpa using hlt)
    · simp only [Raid5Bdev.fullIo, if_neg hp, Raid5Bdev.fullStrip, dataDiskIdx_stripOf hp]

/-- **Where a request stores.** -/
theorem stores_processReq (overflowChecks : Bool) {req : QueuedIo}
    (hk : dev.stripeIdx req.io.offsetBlocks = k) :
    StoresOnly (ChildReq.Placed dev k req.io) false (processReq dev overflowChecks k req) := by
  unfold processReq
  split
  · exact ⟨rfl, fun _ => trivial⟩
  · rename_i hfit
    split
    · exact stores_read _ _ _ _
    · rename_i hty
      unfold write
      split
      · rename_i hfull
        exact stores_writeFullStripe overflowChecks _ hk hty hfull.1 hfull.2
      · exact stores_writePartialStripe overflowChecks _ hk hty hfit
    · exact ⟨rfl, fun _ => trivial⟩
    · exact ⟨rfl, fun _ => trivial⟩

/-- A child write that hits a data block is of a strip that has it. -/
theorem ChildReq.Placed.hits {r : ChildReq} (h : r.Placed dev k io) {b : Nat}
    (hk : dev.stripeIdx b = k) (hhit : r.Hits (dev.locate b).1 (dev.locate b).2) :
    ∃ j < io.numBlocks, b = io.offsetBlocks + j ∧ r.io.mem = 0 ∧
      r.io.start + ((dev.locate b).2 - r.io.offsetBlocks) = j := by
  obtain ⟨_, _, hpar | ⟨s, hs, rfl⟩⟩ := h
  · refine absurd (hpar.symm.trans hhit.1) ?_
    rw [← hk]
    exact (dataDiskIdx_ne _ _).symm
  · obtain ⟨hd, hge, hlt⟩ := hhit
    have hblocks : s.io.numBlocks = s.blocks := hs.numBlocks_eq
    obtain ⟨j, hj⟩ := Nat.exists_eq_add_of_le hge
    have hjlt : j < s.blocks := by
      simp only at hj hlt
      omega
    have hloc := hs.locate hjlt
    have hb : b = io.offsetBlocks + s.io.start + j := by
      refine dev.locate_inj (Prod.ext_iff.mpr ⟨?_, ?_⟩)
      · rw [hloc]
        exact hd.symm
      · rw [hloc]
        exact hj
    have hin := hs.inRequest
    refine ⟨s.io.start + j, by omega, by omega, hs.mem_eq, ?_⟩
    rw [hj, Nat.add_sub_cancel_left]

end requests

end Ironspdk.Raid5
