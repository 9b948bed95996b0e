import Mathlib.Data.Set.Insert
import Ironspdk.Raid5.Forget
import Ironspdk.Raid5.Serving

/-! # When a request gives its memory back

The early return of `reconstruct` leaves child I/Os behind that outlive the request. They read
into buffers of `reconstruct` only: whatever the children do, every other child I/O of a
request has ended when the request is completed, and after that its task does nothing but let
values go. So the memory of a request is left alone from its completion on. -/
namespace Ironspdk.Raid5
open Ironspdk.Lib Ironspdk.Runtime Scattered

variable {α β γ : Type}

/-! ## What a program still owes -/

/-- The child I/Os that an unanswered request has submitted and not awaited, those of
`reconstruct` left out; `none` once the request is answered. -/
abbrev Debt := Option (Set Nat)

/-- What a program may do with a debt: it completes the request when it owes nothing, it
lets `reconstruct` read into buffers of the allocator, and after the completion it drops. -/
def Op.Honest : Debt → Op → Prop
  | some owed, .complete _ _ => owed = ∅
  | some _, .submit r => r.kind = .rebuild → r.io.mem ≠ 0
  | some _, _ => True
  | none, .drop _ => True
  | none, _ => False

def Debt.after : Debt → (o : Op) → Res o → Debt
  | some owed, .submit r, (c : Nat) => some (if r.kind = .rebuild then owed else insert c owed)
  | some owed, .await c, _ => some (owed \ {c})
  | _, .complete _ _, _ => none
  | d, _, _ => d

/-- Whatever its operations return, the program keeps to what it owes. -/
abbrev Pays (p : Task α) (d : Debt) (Q : α → Debt → Prop) : Prop :=
  p.Tracks Op.Honest Granted Debt.after d Q

/-- A part of a program that owes nothing new. -/
def Quiet (p : Task α) (R : α → Prop) : Prop :=
  ∀ owed, Pays p (some owed) fun a d => R a ∧ ∃ rest ⊆ owed, d = some rest

/-- A program that owes nothing. -/
def Settled (p : Task α) : Prop := Pays p (some ∅) fun _ _ => True

/-! ## The loops -/

section loops
variable {R : α → Prop} {R' : β → Prop}

theorem Quiet.bind {p : Task α} {f : α → Task β} (h : Quiet p R)
    (hf : ∀ a, R a → Quiet (f a) R') : Quiet (p >>= f) R' := by
  refine fun owed => (h owed).bind ?_
  rintro a _ ⟨ha, rest, hrest, rfl⟩
  refine (hf a ha rest).mono ?_
  rintro b d ⟨hb, last, hlast, rfl⟩
  exact ⟨hb, last, hlast.trans hrest, rfl⟩

theorem Quiet.settled {p : Task α} {f : α → Task β} (h : Quiet p R)
    (hf : ∀ a, R a → Settled (f a)) : Settled (p >>= f) := by
  refine (h ∅).bind ?_
  rintro a _ ⟨ha, rest, hrest, rfl⟩
  rw [Set.subset_empty_iff.mp hrest]
  exact hf a ha

theorem quiet_pure {a : α} (h : R a) : Quiet (pure a : Task α) R :=
  fun owed => Prog.tracks_pure ⟨h, owed, subset_rfl, rfl⟩

theorem pays_panic {msg : String} {d : Set Nat} {Q : α → Debt → Prop} :
    Pays (panic msg : Task α) (some d) Q :=
  ⟨trivial, fun r => r.elim⟩

theorem quiet_panic {msg : String} : Quiet (panic msg : Task α) R := fun _ => pays_panic

theorem settled_panic {msg : String} : Settled (panic msg : Task α) := pays_panic

/-- An operation that neither submits nor completes. -/
theorem quiet_perform {o : Op} {f : Res o → α} (ho : ∀ owed, o.Honest (some owed))
    (hafter : ∀ owed r, ∃ rest ⊆ owed, Debt.after (some owed) o r = some rest)
    (hf : ∀ r, Granted o r → R (f r)) : Quiet (Prog.perform o >>= fun r => pure (f r)) R :=
  fun owed => Prog.tracks_perform (ho owed) fun r hr => ⟨hf r hr, hafter owed r⟩

theorem quiet_new (blocks : Nat) : Quiet (DmaBuf.new blocks) (·.id ≠ 0) :=
  quiet_perform (fun _ => trivial) (fun owed _ => ⟨owed, subset_rfl, rfl⟩) fun _ h => h

theorem quiet_newZeroed (blocks : Nat) : Quiet (DmaBuf.newZeroed blocks) (·.id ≠ 0) :=
  quiet_perform (fun _ => trivial) (fun owed _ => ⟨owed, subset_rfl, rfl⟩) fun _ h => h

theorem quiet_newBufs (sizes : List Nat) :
    Quiet (newBufs sizes) fun bufs => bufs.length = sizes.length ∧ ∀ d ∈ bufs, d.id ≠ 0 := by
  induction sizes with
  | nil => exact quiet_pure ⟨rfl, List.forall_mem_nil _⟩
  | cons blocks sizes ih =>
    refine (quiet_new blocks).bind fun d hd => ih.bind fun bufs hbufs => quiet_pure ?_
    exact ⟨congrArg (· + 1) hbufs.1, List.forall_mem_cons.mpr ⟨hd, hbufs.2⟩⟩

theorem quiet_xor (dst : DmaBuf) (start len : Nat) (io : Io) :
    Quiet (xor dst start len io) fun _ => True := by
  unfold xor
  split
  · exact fun owed => ⟨trivial, fun _ _ => ⟨trivial, owed, subset_rfl, rfl⟩⟩
  · exact quiet_panic

theorem quiet_xorAll (dst : DmaBuf) (ios : List Io) : Quiet (xorAll dst ios) fun _ => True := by
  induction ios with
  | nil => exact quiet_pure trivial
  | cons io ios ih => exact (quiet_xor _ _ _ _).bind fun _ _ => ih

theorem quiet_xorStrips (dst : DmaBuf) (segs : List (Raid5.Strip × Io)) :
    Quiet (xorStrips dst segs) fun _ => True := by
  induction segs with
  | nil => exact quiet_pure trivial
  | cons x segs ih =>
    exact (quiet_xor _ _ _ _).bind fun _ _ => (quiet_xor _ _ _ _).bind fun _ _ => ih

theorem quiet_copyFromSlice (io : Io) (data : DmaBuf) :
    Quiet (copyFromSlice io data) fun _ => True := by
  unfold copyFromSlice
  split
  · split
    · exact fun owed => ⟨trivial, fun _ _ => ⟨trivial, owed, subset_rfl, rfl⟩⟩
    · exact quiet_panic
  · exact quiet_pure trivial

theorem quiet_dropAll (rs : List Resource) : Quiet (dropAll rs) fun _ => True := by
  induction rs with
  | nil => exact quiet_pure trivial
  | cons r rs ih => exact fun owed => Prog.tracks_perform trivial fun _ _ => ih owed

/-- The reads of `reconstruct`, on buffers of the allocator. -/
theorem quiet_submitAll {rs : List ChildReq} (h : ∀ r ∈ rs, r.kind = .rebuild ∧ r.io.mem ≠ 0) :
    Quiet (submitAll rs) fun _ => True := by
  induction rs with
  | nil => exact quiet_pure trivial
  | cons r rs ih =>
    obtain ⟨⟨hk, hr⟩, hrs⟩ := List.forall_mem_cons.mp h
    refine fun owed => Prog.tracks_perform (fun _ => hr) fun c _ => ?_
    rw [show Debt.after (some owed) (.submit r) c = some owed from congrArg some (if_pos hk)]
    exact (ih hrs).bind (fun cs _ => quiet_pure trivial) owed

theorem quiet_awaitUntilFailure (cs : List Nat) : Quiet (awaitUntilFailure cs) fun _ => True := by
  induction cs with
  | nil => exact quiet_pure trivial
  | cons c cs ih =>
    intro owed
    refine Prog.tracks_perform trivial fun ok _ => ?_
    cases ok with
    | true =>
      refine (ih (owed \ {c})).mono ?_
      rintro b d ⟨hb, rest, hrest, rfl⟩
      exact ⟨hb, rest, hrest.trans Set.sdiff_subset, rfl⟩
    | false => exact ⟨trivial, _, Set.sdiff_subset, rfl⟩

/-- Child I/O `c` has been submitted, and a loop submits `N` others. -/
theorem pays_cons {p : Task (List Nat)} {c N : Nat} {owed : Set Nat}
    (h : Pays p (some (insert c owed)) fun cs d => cs.length = N ∧
      ∃ rest ⊆ insert c owed ∪ {c | c ∈ cs}, d = some rest) :
    Pays (p >>= fun cs => pure (c :: cs)) (some (insert c owed)) fun cs d => cs.length = N + 1 ∧
      ∃ rest ⊆ owed ∪ {c | c ∈ cs}, d = some rest := by
  refine h.bind ?_
  rintro cs _ ⟨hlen, rest, hrest, rfl⟩
  refine ⟨congrArg (· + 1) hlen, rest, fun d hd => ?_, rfl⟩
  rcases hrest hd with (rfl | hd) | hd
  · exact Or.inr (List.mem_cons_self ..)
  · exact Or.inl hd
  · exact Or.inr (List.mem_cons_of_mem _ hd)

/-- Reads and writes of the request: all of them are owed. -/
theorem pays_submitAll {rs : List ChildReq} (h : ∀ r ∈ rs, r.kind ≠ .rebuild) (owed : Set Nat) :
    Pays (submitAll rs) (some owed) fun cs d => cs.length = rs.length ∧
      ∃ rest ⊆ owed ∪ {c | c ∈ cs}, d = some rest := by
  induction rs generalizing owed with
  | nil => exact ⟨rfl, owed, Set.subset_union_left, rfl⟩
  | cons r rs ih =>
    obtain ⟨hr, hrs⟩ := List.forall_mem_cons.mp h
    refine Prog.tracks_perform (fun hk => absurd hk hr) fun c _ => ?_
    rw [show Debt.after (some owed) (.submit r) c = some (insert c owed) from
      congrArg some (if_neg hr)]
    exact pays_cons (ih hrs (insert c owed))

/-- The submission loop of a full-stripe write. -/
theorem pays_submitByValue (ios : List (Nat × Io)) (owed : Set Nat) :
    Pays (submitByValue ios) (some owed) fun cs d => cs.length = ios.length ∧
      ∃ rest ⊆ owed ∪ {c | c ∈ cs}, d = some rest := by
  induction ios generalizing owed with
  | nil => exact ⟨rfl, owed, Set.subset_union_left, rfl⟩
  | cons x ios ih =>
    refine Prog.tracks_perform (absurd · Kind.rebuild_ne_store.symm) fun c _ =>
      Prog.tracks_perform trivial fun _ _ => ?_
    exact pays_cons (ih (insert c owed))

/-- Awaited child I/Os are owed no longer. -/
theorem pays_awaitEach {step : β → γ → Bool → Task β}
    (h : ∀ b x ok, Quiet (step b x ok) fun _ => True) (futs : List (γ × Nat)) (b : β)
    (owed : Set Nat) : Pays (awaitEach step futs b) (some owed) fun _ d =>
      ∃ rest ⊆ owed \ {c | c ∈ futs.map Prod.snd}, d = some rest := by
  induction futs generalizing b owed with
  | nil => exact ⟨owed, fun c hc => ⟨hc, List.not_mem_nil⟩, rfl⟩
  | cons f futs ih =>
    refine Prog.tracks_perform trivial fun ok _ => (h b f.1 ok (owed \ {f.2})).bind ?_
    rintro b _ ⟨_, rest, hrest, rfl⟩
    refine (ih b rest).mono ?_
    rintro _ _ ⟨last, hlast, rfl⟩
    refine ⟨last, fun c hc => ?_, rfl⟩
    obtain ⟨hc, hlater⟩ := hlast hc
    obtain ⟨hc, hne⟩ := hrest hc
    exact ⟨hc, fun hmem => (List.mem_cons.mp hmem).elim hne hlater⟩

/-- What a loop submits is awaited, all of it. -/
theorem settled_awaitEach {p : Task (List Nat)} {N : Nat}
    (hp : Pays p (some ∅) fun cs d => cs.length = N ∧ ∃ rest ⊆ ∅ ∪ {c | c ∈ cs}, d = some rest)
    {step : β → γ → Bool → Task β} (h : ∀ b x ok, Quiet (step b x ok) fun _ => True)
    {labels : List γ} (hlen : N ≤ labels.length) (b : β) {f : List Nat → β → Task α}
    (hf : ∀ cs b, Settled (f cs b)) :
    Settled (p >>= fun cs => awaitEach step (labels.zip cs) b >>= f cs) := by
  refine hp.bind ?_
  rintro cs _ ⟨rfl, owed, howed, rfl⟩
  refine (pays_awaitEach h _ b owed).bind ?_
  rintro b _ ⟨rest, hrest, rfl⟩
  have hnone : rest ⊆ ∅ := by
    intro c hc
    obtain ⟨hin, hout⟩ := hrest hc
    refine absurd ?_ hout
    rw [Set.mem_ofPred_eq, List.map_snd_zip hlen]
    exact (howed hin).resolve_left id
  rw [Set.subset_empty_iff.mp hnone]
  exact hf cs b

/-- The completion of a request, with what it drops after it. -/
theorem settled_completeOn (sender : SpdkThread) (status : IoStatus) (rs : List Resource) :
    Settled (completeOn sender status >>= fun _ => dropAll rs) := by
  refine Prog.tracks_perform rfl fun _ _ => ?_
  induction rs with
  | nil => trivial
  | cons r rs ih => exact Prog.tracks_perform trivial fun _ _ => ih

/-! ## The paths -/

theorem quiet_reconstruct (dev : Raid5Bdev) (skip off blocks : Nat) :
    Quiet (reconstruct dev skip off blocks) fun _ => True := by
  refine (quiet_newBufs _).bind fun bufs hbufs => ?_
  have hreqs : ∀ r ∈ rebuildReqs dev.diskCount skip off bufs,
      r.kind = .rebuild ∧ r.io.mem ≠ 0 := by
    intro r hr
    obtain ⟨i, hi⟩ := List.mem_iff_getElem?.mp hr
    rw [rebuildReqs, List.getElem?_zipWith] at hi
    split at hi
    · rename_i hbuf
      cases hi
      exact ⟨rfl, hbufs.2 _ (List.mem_of_getElem? hbuf)⟩
    · cases hi
  refine (quiet_submitAll hreqs).bind fun cs _ => (quiet_awaitUntilFailure cs).bind fun ok _ => ?_
  cases ok with
  | true =>
    exact (quiet_newZeroed _).bind fun _ _ => (quiet_xorAll _ _).bind fun _ _ =>
      (quiet_dropAll _).bind fun _ _ => quiet_pure trivial
  | false => exact (quiet_dropAll _).bind fun _ _ => quiet_pure trivial

theorem settled_read (dev : Raid5Bdev) (sender : SpdkThread) (io : BdevIo) (k : Nat) :
    Settled (read dev sender io k) := by
  unfold read
  simp only
  split
  · exact settled_panic
  · rename_i strips _
    refine settled_awaitEach (pays_submitAll (fun r hr => ?_) ∅) (fun _ _ _ => quiet_pure trivial)
      (by simp) [] fun cs failed => ?_
    · obtain ⟨s, _, rfl⟩ := List.mem_map.mp hr
      exact fun h => by cases h
    split
    · exact settled_completeOn _ _ _
    · split
      · exact ⟨trivial, fun r => r.elim⟩
      · refine (quiet_reconstruct _ _ _ _).settled fun buf _ => ?_
        cases buf with
        | none => exact settled_completeOn _ _ _
        | some buf => exact (quiet_copyFromSlice _ _).settled fun _ _ => settled_completeOn _ _ _
    · exact settled_completeOn _ _ _

theorem quiet_countFailure (overflowChecks : Bool) (f : Failures) (disk : Nat) (ok : Bool) :
    Quiet (countFailure overflowChecks f disk ok) fun _ => True := by
  unfold countFailure
  split
  · exact quiet_pure trivial
  · unfold shlOne
    split
    · exact fun _ => ⟨trivial, fun r => r.elim⟩
    · exact quiet_pure trivial

theorem settled_completeWrite (sender : SpdkThread) (f : Failures) (rs : List Resource) :
    Settled (completeWrite sender f >>= fun _ => dropAll rs) := by
  unfold completeWrite
  split
  · exact settled_completeOn _ _ _
  · split
    · split
      · exact ⟨trivial, fun r => r.elim⟩
      · exact settled_completeOn _ _ _
    · exact settled_completeOn _ _ _

theorem settled_writeBack (dev : Raid5Bdev) (overflowChecks : Bool) (sender : SpdkThread) (k : Nat)
    (strips : List Raid5.Strip) (olds : List Io) (par : Io) (cs held : List Nat) :
    Settled (writeBack dev overflowChecks sender k strips olds par cs held) := by
  refine (quiet_newZeroed _).settled fun parity _ => (quiet_xor _ _ _ _).settled fun _ _ =>
    (quiet_xorStrips _ _).settled fun _ _ => settled_awaitEach (pays_submitAll (fun r hr => ?_) ∅)
    (quiet_countFailure overflowChecks) (by simp) _ fun wcs f => settled_completeWrite sender f _
  rcases List.mem_append.mp hr with hr | hr
  · obtain ⟨s, _, rfl⟩ := List.mem_map.mp hr
    exact Kind.rebuild_ne_store.symm
  · rw [List.mem_singleton.mp hr]
    exact Kind.rebuild_ne_store.symm

theorem settled_writeReconstructed (dev : Raid5Bdev) (overflowChecks : Bool) (sender : SpdkThread)
    (k : Nat) (strips : List Raid5.Strip) (olds : List Io) (par : Io) (cs : List Nat)
    (failed : Nat) :
    Settled (writeReconstructed dev overflowChecks sender k strips olds par cs failed) := by
  unfold writeReconstructed
  split
  · refine (quiet_reconstruct _ _ _ _).settled fun buf _ => ?_
    cases buf with
    | none => exact settled_completeOn _ _ _
    | some buf => exact (quiet_dropAll _).settled fun _ _ => settled_writeBack _ _ _ _ _ _ _ _ _
  · split
    · exact settled_panic
    · split
      · exact settled_panic
      · refine (quiet_reconstruct _ _ _ _).settled fun buf _ => ?_
        cases buf with
        | none => exact settled_completeOn _ _ _
        | some buf =>
          exact (quiet_dropAll _).settled fun _ _ => settled_writeBack _ _ _ _ _ _ _ _ _

theorem oldReqs_kind {dev : Raid5Bdev} {k : Nat} {strips : List Raid5.Strip} {olds : List Io}
    {par : Io} : ∀ r ∈ oldReqs dev k strips olds par, r.kind ≠ .rebuild := by
  intro r hr
  rcases List.mem_append.mp hr with hr | hr
  · obtain ⟨i, hi⟩ := List.mem_iff_getElem?.mp hr
    rw [List.getElem?_zipWith] at hi
    split at hi
    · cases hi
      exact fun h => by cases h
    · cases hi
  · rw [List.mem_singleton.mp hr]
    exact fun h => by cases h

theorem settled_writePartialStripe (dev : Raid5Bdev) (overflowChecks : Bool) (sender : SpdkThread)
    (io : BdevIo) (k : Nat) : Settled (writePartialStripe dev overflowChecks sender io k) := by
  unfold writePartialStripe
  simp only
  split
  · exact settled_panic
  · rename_i strips _
    refine (quiet_newBufs _).settled fun bufs _ => (quiet_new _).settled fun par _ =>
      settled_awaitEach (pays_submitAll oldReqs_kind ∅) (quiet_countFailure overflowChecks)
        (by simp [oldReqs]) _ fun cs f => ?_
    split
    · exact settled_completeWrite sender f _
    · split
      · split
        · exact settled_panic
        · exact settled_writeReconstructed _ _ _ _ _ _ _ _ _
      · exact settled_writeBack _ _ _ _ _ _ _ _ _

theorem length_diskIos {parityDiskIdx : Nat} {ds : List Nat} {parityIo : Option Io}
    {strips : List Raid5.Strip} {ios : List (Nat × Io)}
    (h : diskIos parityDiskIdx ds parityIo strips = some ios) : ios.length = ds.length := by
  induction ds generalizing parityIo strips ios with
  | nil =>
    cases h
    rfl
  | cons d ds ih =>
    unfold diskIos at h
    split at h
    · obtain ⟨_, _, h⟩ := Option.bind_eq_some_iff.mp h
      obtain ⟨rest, hrest, h⟩ := Option.bind_eq_some_iff.mp h
      cases h
      exact congrArg (· + 1) (ih hrest)
    · split at h
      · cases h
      · obtain ⟨rest, hrest, h⟩ := Option.bind_eq_some_iff.mp h
        cases h
        exact congrArg (· + 1) (ih hrest)

theorem settled_writeFullStripe (dev : Raid5Bdev) (overflowChecks : Bool) (sender : SpdkThread)
    (io : BdevIo) (k : Nat) : Settled (writeFullStripe dev overflowChecks sender io k) := by
  unfold writeFullStripe
  simp only
  split
  · exact settled_panic
  · refine (quiet_newZeroed _).settled fun parity _ => (quiet_xorAll _ _).settled fun _ _ => ?_
    split
    · exact settled_panic
    · rename_i hios
      exact settled_awaitEach (pays_submitByValue _ ∅) (quiet_countFailure overflowChecks)
        (by rw [length_diskIos hios]) _ fun cs f => settled_completeWrite sender f _

/-- **What a request owes is paid at its completion.** -/
theorem settled_processReq (dev : Raid5Bdev) (overflowChecks : Bool) (k : Nat) (req : QueuedIo) :
    Settled (processReq dev overflowChecks k req) := by
  have hcomplete : ∀ sender status, Settled (completeOn sender status) := fun _ _ =>
    ⟨rfl, fun _ _ => trivial⟩
  unfold processReq
  split
  · exact hcomplete _ _
  · split
    · exact settled_read _ _ _ _
    · unfold write
      split
      · exact settled_writeFullStripe _ _ _ _ _
      · exact settled_writePartialStripe _ _ _ _ _
    · exact hcomplete _ _
    · exact hcomplete _ _

end loops

/-! ## Child I/Os in progress -/

variable {B : Type}

/-- Has neither succeeded nor failed yet. -/
def ChildIo.Open (x : ChildIo B) : Prop := ∀ ok, x.phase ≠ .done ok

/-- The debt counts every child I/O that is open, those of `reconstruct` left out. -/
def Debt.Covers (frame : Frame B) : Debt → Prop
  | some owed => frame.completions = [] ∧ ∀ (c : Nat) (x : ChildIo B), frame.ios[c]? = some x →
      x.req.kind ≠ .rebuild → x.Open → c ∈ owed
  | none => frame.completions ≠ [] ∧ ∀ x ∈ frame.ios, x.req.kind ≠ .rebuild → ¬ x.Open

/-- The debt of a request in progress is accounted for. -/
structure Accounted (prog : Task Unit) (frame : Frame B) (d : Debt) : Prop where
  pays : Pays prog d fun _ _ => True
  covers : d.Covers frame
  rebuild : ∀ x ∈ frame.ios, x.req.kind = .rebuild → x.req.io.mem ≠ 0
  bufs : 0 < frame.bufs

namespace Accounted
variable {dev : Raid5Bdev} {overflowChecks : Bool} {k : Nat} {req : Request B}
  {prog : Task Unit} {frame : Frame B} {d : Debt} {disks : Nat → Nat → B} {u : Proc B}

theorem start (heap : Nat → Nat → B) : Accounted
    (processReq dev overflowChecks k req.toQueuedIo) (Frame.start req heap) (some ∅) :=
  ⟨settled_processReq .., ⟨rfl, fun c x hx => by simp [Frame.start] at hx⟩,
    fun x hx => by simp [Frame.start] at hx, Nat.one_pos⟩

theorem answered (h : Accounted prog frame d) (ha : frame.completions ≠ []) : d = none := by
  cases d with
  | none => rfl
  | some owed => exact absurd h.covers.1 ha

/-- Every child I/O on the memory of an answered request has ended. -/
theorem ended (h : Accounted prog frame d) (ha : frame.completions ≠ []) {x : ChildIo B}
    (hx : x ∈ frame.ios) (hmem : x.req.io.mem = 0) : ¬ x.Open := by
  have hcovers := h.covers
  rw [h.answered ha] at hcovers
  exact hcovers.2 x hx fun hk => h.rebuild x hx hk hmem

/-- An answered request only lets values go. -/
theorem drops {o : Op} {next : Res o → Task Unit} (h : Accounted (.op o next) frame d)
    (ha : frame.completions ≠ []) : ∃ r, o = .drop r := by
  have hpays := h.pays
  rw [h.answered ha] at hpays
  cases o with
  | drop r => exact ⟨r, rfl⟩
  | _ => exact hpays.1.elim

theorem granted [Add B] [Zero B] {o : Op} {s : Proc B} {r : Res o}
    (hp : Raid5.perform o s = some (r, u)) (hpos : 0 < s.bufs) :
    Granted o r ∧ 0 < u.bufs := by
  cases o with
  | alloc zeroed =>
    cases hp
    exact ⟨hpos.ne', Nat.succ_pos _⟩
  | await c =>
    simp only [Raid5.perform] at hp
    split at hp
    · cases hp
      exact ⟨trivial, hpos⟩
    · cases hp
  | panic msg => cases hp
  | _ =>
    cases hp
    exact ⟨trivial, hpos⟩

/-- **One operation.** -/
theorem perform [Add B] [Zero B] {o : Op} {next : Res o → Task Unit} {r : Res o}
    (h : Accounted (.op o next) frame d) (hp : Raid5.perform o ⟨frame, disks⟩ = some (r, u)) :
    Accounted (next r) u.toFrame (d.after o r) := by
  obtain ⟨hgranted, hpos⟩ := granted hp h.bufs
  have hpays := h.pays.2 r hgranted
  have hhonest := h.pays.1
  have hcovers := h.covers
  cases d with
  | none =>
    cases o with
    | drop r =>
      cases hp
      exact ⟨hpays, hcovers, h.rebuild, hpos⟩
    | _ => exact hhonest.elim
  | some owed =>
    obtain ⟨hopen, howed⟩ := hcovers
    cases o with
    | await c =>
      simp only [Raid5.perform] at hp
      split at hp
      · rename_i hc
        cases hp
        refine ⟨hpays, ⟨hopen, fun c' x hx hk ho => ⟨howed c' x hx hk ho, ?_⟩⟩, h.rebuild, hpos⟩
        rintro rfl
        cases hc.symm.trans hx
        exact ho _ rfl
      · cases hp
    | submit req =>
      cases hp
      refine ⟨hpays, ⟨hopen, fun c x hx hk ho => ?_⟩, fun x hx hk => ?_, hpos⟩
      · rcases append_get hx with hx | ⟨rfl, rfl⟩
        · have hin := howed c x hx hk ho
          split
          · exact hin
          · exact Set.mem_insert_of_mem _ hin
        · rw [if_neg hk]
          exact Set.mem_insert _ _
      · rcases List.mem_append.mp hx with hx | hx
        · exact h.rebuild x hx hk
        · obtain rfl := List.mem_singleton.mp hx
          exact hhonest hk
    | complete sender status =>
      cases hp
      refine ⟨hpays, ⟨by simp, fun x hx hk ho => ?_⟩, h.rebuild, hpos⟩
      obtain ⟨c, hc⟩ := List.mem_iff_getElem?.mp hx
      have hin := howed c x hc hk ho
      rw [show owed = ∅ from hhonest] at hin
      exact hin
    | panic msg => cases hp
    | _ =>
      cases hp
      exact ⟨hpays, ⟨hopen, howed⟩, h.rebuild, hpos⟩

/-- A child I/O that is open was open before. -/
theorem open_before {s t : Proc B} (h : Ext s t) {c : Nat} {x : ChildIo B}
    (hx : t.ios[c]? = some x) (ho : x.Open) :
    ∃ y, s.ios[c]? = some y ∧ y.req = x.req ∧ y.Open := by
  obtain ⟨y, hy, hreq⟩ := get_of_reqs h.reqs hx
  refine ⟨y, hy, hreq, fun ok hok => ?_⟩
  cases hx.symm.trans (h.done c y ok hy hok)
  exact ho ok hok

/-- **A child I/O moves on.** -/
theorem react {ch : Children} {e : ChildEvent B} (h : Accounted prog frame d)
    (hr : ch.react ⟨frame, disks⟩ e = some u) : Accounted prog u.toFrame d := by
  have hext := ext_react hr
  refine ⟨h.pays, ?_, fun x hx hk => ?_, hext.bufs ▸ h.bufs⟩
  · have hcovers := h.covers
    cases d with
    | none =>
      refine ⟨by rw [hext.completions]; exact hcovers.1, fun x hx hk ho => ?_⟩
      obtain ⟨c, hc⟩ := List.mem_iff_getElem?.mp hx
      obtain ⟨y, hy, hreq, hyo⟩ := open_before hext hc ho
      exact hcovers.2 y (List.mem_of_getElem? hy) (hreq ▸ hk) hyo
    | some owed =>
      refine ⟨hext.completions.trans hcovers.1, fun c x hx hk ho => ?_⟩
      obtain ⟨y, hy, hreq, hyo⟩ := open_before hext hx ho
      exact hcovers.2 c y hy (hreq ▸ hk) hyo
  · obtain ⟨c, hc⟩ := List.mem_iff_getElem?.mp hx
    obtain ⟨y, hy, hreq⟩ := get_of_reqs hext.reqs hc
    rw [← hreq] at hk ⊢
    exact h.rebuild y (List.mem_of_getElem? hy) hk

/-- A child leaves the memory of an answered request alone. -/
theorem react_mem {ch : Children} {e : ChildEvent B} (h : Accounted prog frame d)
    (ha : frame.completions ≠ []) (hr : ch.react ⟨frame, disks⟩ e = some u) :
    u.mem 0 = frame.mem 0 := by
  funext i
  refine (ext_react hr).mem 0 i fun c x hx _ ho hcov => ?_
  exact h.ended ha (List.mem_of_getElem? hx) hcov.1 ho

end Accounted

/-! ## Runs -/

/-- A request in progress is accounted for, and an answered one still holds what its answer
says. -/
def Stage.GivesBack (log : List (Answer B)) : Stage B → Prop
  | .processing req prog frame => (∃ d, Accounted prog frame d) ∧ (frame.completions ≠ [] →
      ∃ a ∈ log, a.req = req ∧ a.mem = frame.mem 0)
  | _ => True

section runs
variable [Add B] [Zero B] {dev : Raid5Bdev} {ch : Children} {overflowChecks : Bool}
  {s s' : Device B} {e : DevEvent B}

omit [Add B] [Zero B] in
theorem Stage.GivesBack.mono {log : List (Answer B)} {stage : Stage B} (h : stage.GivesBack log)
    (more : List (Answer B)) : stage.GivesBack (log ++ more) := by
  cases stage with
  | processing req prog frame =>
    refine ⟨h.1, fun ha => ?_⟩
    obtain ⟨a, hin, heq⟩ := h.2 ha
    exact ⟨a, List.mem_append_left _ hin, heq⟩
  | _ => trivial

omit [Add B] [Zero B] in
/-- The head of the drain loop leads its task to the end of it or to a new request. -/
theorem tasks_drain (dev : Raid5Bdev) (overflowChecks : Bool) (s : Device B) (t : Nat)
    (task : IoTask B) (heap : Nat → Nat → B) : ∃ stage,
      (s.drain dev overflowChecks t task heap).tasks = s.tasks.set t { task with stage := stage } ∧
      (s.drain dev overflowChecks t task heap).log = s.log ∧
      ∀ req prog frame, stage = .processing req prog frame → frame = Frame.start req heap ∧
        prog = processReq dev overflowChecks (task.req.stripe dev) req.toQueuedIo := by
  unfold Device.drain
  simp only
  split
  · exact ⟨_, rfl, rfl, fun _ _ _ h => by cases h⟩
  · exact ⟨_, rfl, rfl, fun _ _ _ h => by cases h⟩
  · refine ⟨_, rfl, rfl, fun _ _ _ h => ?_⟩
    cases h
    exact ⟨rfl, rfl⟩

/-- All tasks of the device keep to it. -/
def Device.GivesBack (s : Device B) : Prop :=
  ∀ (t : Nat) (task : IoTask B), s.tasks[t]? = some task → task.stage.GivesBack s.log

omit [Add B] [Zero B] in
/-- The stage of one task changes. -/
theorem Device.GivesBack.set (h : s.GivesBack) {t : Nat} {task : IoTask B}
    (ht : s.tasks[t]? = some task) {stage : Stage B} {more : List (Answer B)}
    (htasks : s'.tasks = s.tasks.set t { task with stage := stage }) (hlog : s'.log = s.log ++ more)
    (hstage : stage.GivesBack s'.log) : s'.GivesBack := by
  intro t' task' ht'
  rw [htasks, getElem?_setTask ht] at ht'
  split at ht'
  · cases ht'
    exact hstage
  · rw [hlog]
    exact (h t' task' ht').mono more

theorem answers_mem {req : Request B} {frame : Frame B} {o : Op} {r : Res o} {u : Proc B}
    {disks : Nat → Nat → B} (hp : Raid5.perform o ⟨frame, disks⟩ = some (r, u))
    (hbefore : frame.completions = []) (hafter : u.completions ≠ []) :
    ∃ a ∈ answers req frame o, a.req = req ∧ a.mem = u.mem 0 := by
  cases o with
  | complete sender status =>
    cases hp
    exact ⟨_, List.mem_singleton_self _, rfl, rfl⟩
  | _ =>
    refine absurd ?_ hafter
    rw [(perform_frame hp).2]
    exact (List.append_nil _).trans hbefore

theorem Stage.GivesBack.perform {req : Request B} {frame : Frame B} {o : Op}
    {next : Res o → Task Unit} {r : Res o} {u : Proc B} {disks : Nat → Nat → B}
    {log : List (Answer B)} (h : (Stage.processing req (.op o next) frame).GivesBack log)
    (hp : Raid5.perform o ⟨frame, disks⟩ = some (r, u)) :
    (Stage.processing req (next r) u.toFrame).GivesBack (log ++ answers req frame o) := by
  obtain ⟨⟨d, hacc⟩, hlog⟩ := h
  refine ⟨⟨_, hacc.perform hp⟩, fun ha => ?_⟩
  by_cases hbefore : frame.completions = []
  · obtain ⟨a, hin, heq⟩ : ∃ a ∈ answers req frame o, a.req = req ∧ a.mem = u.mem 0 :=
      answers_mem hp hbefore ha
    exact ⟨a, List.mem_append_right _ hin, heq⟩
  · obtain ⟨a, hin, hreq, hmem⟩ := hlog hbefore
    obtain ⟨res, rfl⟩ := hacc.drops hbefore
    cases hp
    exact ⟨a, List.mem_append_left _ hin, hreq, hmem⟩

theorem Device.GivesBack.step (h : s.GivesBack) (hs : s.Step dev ch overflowChecks e s') :
    s'.GivesBack := by
  cases hs with
  | submit req =>
    intro t task ht
    rcases append_get ht with ht | ⟨_, rfl⟩
    · exact h t task ht
    · trivial
  | start hbox ht =>
    rename_i worker t rest task
    obtain ⟨stage, hstage, htasks⟩ := tasks_begin dev s worker t rest task
    refine h.set ht htasks (List.append_nil _).symm ?_
    rcases hstage with rfl | rfl <;> trivial
  | drain ht hst =>
    rename_i t task heap
    obtain ⟨stage, htasks, hlog, hstart⟩ := tasks_drain dev overflowChecks s t task heap
    refine h.set ht htasks (hlog.trans (List.append_nil _).symm) ?_
    cases stage with
    | processing req prog frame =>
      obtain ⟨rfl, rfl⟩ := hstart req prog frame rfl
      exact ⟨⟨_, Accounted.start heap⟩, fun ha => absurd rfl ha⟩
    | _ => trivial
  | ret ht hst => exact h.set ht rfl (List.append_nil _).symm trivial
  | panic ht hst => exact h.set ht rfl (List.append_nil _).symm trivial
  | perform ht hst hp =>
    have hgives := h _ _ ht
    rw [hst] at hgives
    exact h.set ht rfl rfl (hgives.perform hp)
  | child ht hst hr =>
    have hgives := h _ _ ht
    rw [hst] at hgives
    obtain ⟨⟨d, hacc⟩, hlog⟩ := hgives
    refine h.set ht rfl (List.append_nil _).symm ⟨⟨d, hacc.react hr⟩, fun ha => ?_⟩
    rw [(ext_react hr).completions] at ha
    rw [hacc.react_mem ha hr]
    exact hlog ha

/-- A step of any task leaves the memory of an answered request as it is. -/
theorem Device.GivesBack.keeps (h : s.GivesBack) (hs : s.Step dev ch overflowChecks e s') {t : Nat}
    {task task' : IoTask B} (ht : s.tasks[t]? = some task) (ht' : s'.tasks[t]? = some task')
    {req req' : Request B} {prog prog' : Task Unit} {frame frame' : Frame B}
    (hst : task.stage = .processing req prog frame) (ha : frame.completions ≠ [])
    (hst' : task'.stage = .processing req' prog' frame') (ha' : frame'.completions ≠ []) :
    frame'.mem 0 = frame.mem 0 := by
  have hsame : task' = task → frame'.mem 0 = frame.mem 0 := by
    rintro rfl
    cases hst.symm.trans hst'
    rfl
  -- a step of task `u`, which leaves it at `stage`
  have hset : ∀ {u : Nat} {task₀ : IoTask B} {stage : Stage B}, s.tasks[u]? = some task₀ →
      s'.tasks = s.tasks.set u { task₀ with stage := stage } →
      (task₀ = task → stage = .processing req' prog' frame' → frame'.mem 0 = frame.mem 0) →
      frame'.mem 0 = frame.mem 0 := by
    intro u task₀ stage hu htasks hown
    rw [htasks, getElem?_setTask hu] at ht'
    split at ht'
    · rename_i he
      subst he
      cases ht'
      exact hown (Option.some.inj (hu.symm.trans ht)) hst'
    · exact hsame (Option.some.inj (ht'.symm.trans ht))
  cases hs with
  | submit req =>
    rcases append_get ht' with ht' | ⟨_, rfl⟩
    · exact hsame (Option.some.inj (ht'.symm.trans ht))
    · cases hst'
  | start hbox hu =>
    rename_i worker u rest task₀
    obtain ⟨stage, hstage, htasks⟩ := tasks_begin dev s worker u rest task₀
    refine hset hu htasks fun _ hstage' => ?_
    rcases hstage with rfl | rfl <;> cases hstage'
  | drain hu hst₀ =>
    rename_i u task₀ heap
    obtain ⟨stage, htasks, _, hstart⟩ := tasks_drain dev overflowChecks s u task₀ heap
    refine hset hu htasks fun _ hstage => ?_
    obtain ⟨rfl, _⟩ := hstart _ _ _ hstage
    exact absurd rfl ha'
  | ret hu hst₀ => exact hset hu rfl fun _ hstage => by cases hstage
  | panic hu hst₀ => exact hset hu rfl fun _ hstage => by cases hstage
  | perform hu hst₀ hp =>
    refine hset hu rfl fun he hstage => ?_
    subst he
    cases hst.symm.trans hst₀
    cases hstage
    have hgives := h _ _ ht
    rw [hst] at hgives
    obtain ⟨⟨d, hacc⟩, _⟩ := hgives
    obtain ⟨res, rfl⟩ := hacc.drops ha
    cases hp
    rfl
  | child hu hst₀ hr =>
    refine hset hu rfl fun he hstage => ?_
    subst he
    cases hst.symm.trans hst₀
    cases hstage
    have hgives := h _ _ ht
    rw [hst] at hgives
    obtain ⟨⟨d, hacc⟩, _⟩ := hgives
    exact hacc.react_mem ha hr

/-- **A request gives its memory back when it is completed.** Whatever the children do and
however the tasks interleave, while the task of an answered request goes on: the only child
I/Os that are still open are reads of `reconstruct`, into buffers of the allocator; the memory
of the request holds what it held when it was answered, and no step changes it; and the task
only lets values go. -/
theorem memory_given_back (dev : Raid5Bdev) (ch : Children) (overflowChecks : Bool)
    (disks : Nat → Nat → B) (es : List (DevEvent B)) (s : Device B)
    (hrun : run (Device.next dev ch overflowChecks) (Device.start disks) es = some s)
    (t : Nat) (task : IoTask B) (ht : s.tasks[t]? = some task) (req : Request B)
    (prog : Task Unit) (frame : Frame B) (hst : task.stage = .processing req prog frame)
    (ha : frame.completions ≠ []) :
    (∀ x ∈ frame.ios, x.Open → x.req.kind = .rebuild ∧ x.req.io.mem ≠ 0) ∧
      (∃ a ∈ s.log, a.req = req ∧ a.mem = frame.mem 0) ∧
      (∀ o next, prog = .op o next → ∃ r, o = .drop r) ∧
      ∀ e s', s.next dev ch overflowChecks e = some s' → ∀ task' req' prog' frame',
        s'.tasks[t]? = some task' → task'.stage = .processing req' prog' frame' →
        frame'.completions ≠ [] → frame'.mem 0 = frame.mem 0 := by
  have hgives : s.GivesBack := by
    refine run_always (I := Device.GivesBack) ?_ (fun s e u h hn => h.step (Device.next_step hn))
      hrun
    intro t task ht
    simp [Device.start] at ht
  have hstage := hgives t task ht
  rw [hst] at hstage
  obtain ⟨⟨d, hacc⟩, hlog⟩ := hstage
  refine ⟨fun x hx ho => ?_, hlog ha, fun o next hprog => ?_, fun e s' hn task' req' prog' frame'
    ht' hst' ha' => hgives.keeps (Device.next_step hn) ht ht' hst ha hst' ha'⟩
  · by_contra hno
    have hcovers := hacc.covers
    rw [hacc.answered ha] at hcovers
    refine hcovers.2 x hx (fun hk => hno ⟨hk, hacc.rebuild x hx hk⟩) ho
  · subst hprog
    exact hacc.drops ha

end runs

/-- A read of one block of the small array on which every child fails, up to its completion;
the second read of `reconstruct` is still out. -/
def answeredEarly : List (DevEvent Byte) :=
  [.submit ⟨⟨⟨.read, 0, 1⟩, 7⟩, fun _ => ⟨5⟩⟩, .start 0, .dequeue 0 0, .step 0,
    .child 0 (.fail 0 0)] ++ List.replicate 5 (.step 0) ++ [.child 0 (.fail 1 0)] ++
    List.replicate 6 (.step 0)

/-- The frame of a request in progress. -/
def Stage.frame? : Stage B → Option (Frame B)
  | .processing _ _ frame => some frame
  | _ => none

theorem memory_given_back_answeredEarly :
    ∃ s task req prog frame,
      run (Device.next smallArray ⟨fun _ _ => true, true⟩ true) (Device.start 0) answeredEarly =
        some s ∧ s.tasks[0]? = some task ∧ task.stage = .processing req prog frame ∧
      frame.completions = [(7, .failure)] ∧
      frame.ios.map (·.phase) = [.done false, .done false, .inFlight] ∧
      ∀ x ∈ frame.ios, x.Open → x.req.kind = .rebuild ∧ x.req.io.mem ≠ 0 := by
  have hview : ((run (Device.next smallArray ⟨fun _ _ => true, true⟩ true) (Device.start 0)
      answeredEarly).bind fun s => s.tasks[0]?.bind fun task => task.stage.frame?.map fun frame =>
        (frame.completions, frame.ios.map (·.phase))) =
      some ([(7, .failure)], [.done false, .done false, .inFlight]) := by
    decide
  obtain ⟨s, hs, hview⟩ := Option.bind_eq_some_iff.mp hview
  obtain ⟨task, ht, hview⟩ := Option.bind_eq_some_iff.mp hview
  obtain ⟨frame, hframe, hl⟩ := Option.map_eq_some_iff.mp hview
  obtain ⟨req, prog, hst⟩ : ∃ req prog, task.stage = .processing req prog frame := by
    cases hstage : task.stage with
    | processing req prog f =>
      rw [hstage] at hframe
      cases hframe
      exact ⟨req, prog, rfl⟩
    | _ =>
      rw [hstage] at hframe
      cases hframe
  have hcompleted : frame.completions = [(7, .failure)] := congrArg Prod.fst hl
  refine ⟨s, task, req, prog, frame, hs, ht, hst, hcompleted, congrArg Prod.snd hl, ?_⟩
  exact (memory_given_back smallArray ⟨fun _ _ => true, true⟩ true 0 answeredEarly s hs 0 task ht
    req prog frame hst (by rw [hcompleted]; exact List.cons_ne_nil _ _)).1

end Ironspdk.Raid5
