import Ironspdk.Raid1.Read

/-! # The RAID1 mirror

`Raid1Bdev` with its channels, the contents of its children and the requests submitted to
it: `submit_io`, `read` and `write`. A child stores the data of a write, or fetches those of
a read, at a moment of its own while the child I/O is in flight, and reports its end later.
Between two awaits a request runs in a single step. Blocks are the unit of data; the
segments of the buffers and the log messages are left out. -/
namespace Ironspdk.Raid1
open Ironspdk.Lib Ironspdk.Runtime

/-- A child I/O: submitted, served by the child (stored or fetched), reported. -/
inductive ChildIo
  | inFlight | served | ended (success : Bool)
  deriving DecidableEq, Repr

def ChildIo.Ended (i : ChildIo) : Prop := ∃ b, i = .ended b

theorem ChildIo.inFlight_open {i : ChildIo} (h : i = .inFlight) : ¬ i.Ended :=
  fun ⟨_, hb⟩ => by cases h.symm.trans hb

theorem ChildIo.served_open {i : ChildIo} (h : i = .served) : ¬ i.Ended :=
  fun ⟨_, hb⟩ => by cases h.symm.trans hb

/-- The child has stored or fetched the data. -/
def ChildIo.took : ChildIo → Bool
  | .inFlight => false
  | .served => true
  | .ended success => success

/-- Where a request stands: at the await of the read of one child, with `left` iterations
after this one, at the await of the write of child `idx`, or at its end. -/
inductive Phase
  | reading (left : Nat)
  | writing (idx : Nat) (status : IoStatus) (failMask : Nat)
  | completed (status : IoStatus)
  deriving DecidableEq, Repr

/-- A request with its buffer `mem` (the data to write, or those read so far) and one child
I/O for each child; `next` is the child its latest read went to. -/
structure Req (B : Type*) where
  io : BdevIo
  ch : Nat
  mem : Nat → B
  ios : Nat → ChildIo
  next : Nat
  phase : Phase

variable {B : Type*}

namespace Req

def Covers (q : Req B) (b : Nat) : Prop :=
  q.io.offsetBlocks ≤ b ∧ b < q.io.offsetBlocks + q.io.numBlocks

instance (q : Req B) (b : Nat) : Decidable (q.Covers b) := inferInstanceAs (Decidable (_ ∧ _))

/-- The block of the request's buffer that belongs to block `b` of the device. -/
def dataOf (q : Req B) (b : Nat) : B := q.mem (b - q.io.offsetBlocks)

/-- What a child holds once it has stored the data of the request. -/
def store (q : Req B) (disk : Nat → B) : Nat → B := fun b =>
  if q.Covers b then q.dataOf b else disk b

/-- What the buffer holds once a child has fetched the data of the request. -/
def fetch (q : Req B) (disk : Nat → B) : Nat → B := fun i =>
  if i < q.io.numBlocks then disk (q.io.offsetBlocks + i) else q.mem i

def setIo (q : Req B) (c : Nat) (i : ChildIo) (mem : Nat → B) : Req B :=
  { q with ios := Function.update q.ios c i, mem := mem }

/-- The loop of `Raid1Bdev::read` has come to its next await, or to its end. -/
def readOn (q : Req B) : ReadPhase → Req B
  | .awaiting left c _ =>
    { q with phase := .reading left, next := c, ios := Function.update q.ios c .inFlight }
  | .completed status => { q with phase := .completed status }

theorem store_in {q : Req B} {b : Nat} (h : q.Covers b) (disk : Nat → B) :
    q.store disk b = q.dataOf b := if_pos h

theorem store_out {q : Req B} {b : Nat} (h : ¬ q.Covers b) (disk : Nat → B) :
    q.store disk b = disk b := if_neg h

theorem store_congr {q q' : Req B} (hio : q'.io = q.io) (hmem : q'.mem = q.mem)
    (disk : Nat → B) : q'.store disk = q.store disk := by
  have hcov : ∀ b, q'.Covers b ↔ q.Covers b := fun b => by rw [Covers, Covers, hio]
  funext b
  by_cases hb : q.Covers b
  · rw [store_in hb, store_in ((hcov b).mpr hb), dataOf, dataOf, hio, hmem]
  · rw [store_out hb, store_out (mt (hcov b).mp hb)]

theorem readOn_io (q : Req B) (p : ReadPhase) : (q.readOn p).io = q.io := by
  cases p <;> rfl

theorem readOn_took {q : Req B} (h : ∀ c, (q.ios c).took = false) (p : ReadPhase) (c : Nat) :
    ((q.readOn p).ios c).took = false := by
  cases p with
  | completed status => exact h c
  | awaiting left d answer =>
    show (Function.update q.ios d .inFlight c).took = false
    by_cases he : c = d
    · rw [he, Function.update_self]
      rfl
    · rw [Function.update_of_ne he]
      exact h c

end Req

/-- The loop of `Raid1Bdev::write` over its futures, from the head of an iteration. -/
def writeLoop (ndisks idx : Nat) (status : IoStatus) (failMask : Nat) : Phase :=
  if idx < ndisks then .writing idx status failMask else .completed status

/-- From the answer of the write of child `idx` to the next await. `1 << idx` does not fit
`fail_mask` from the 65th child on: with overflow checks that panics, without them the shift
is taken modulo 64. -/
def writeResume (overflowChecks : Bool) (ndisks idx : Nat) (status : IoStatus) (failMask : Nat)
    (success : Bool) : Option Phase :=
  if success then some (writeLoop ndisks (idx + 1) .success failMask)
  else if overflowChecks && decide (64 ≤ idx) then none
  else some (writeLoop ndisks (idx + 1) status (failMask ||| 1 <<< (idx % 64)))

/-- The mirror: contents of the children, channels, and requests numbered as submitted.
A panic ends the process. -/
structure Mirror (B : Type*) where
  overflowChecks : Bool
  disks : Nat → Nat → B
  chans : Nat → Raid1IoChannel
  count : Nat
  req : Nat → Req B
  panicked : Bool

inductive MirrorEvent (B : Type*)
  | submit (ch : Nat) (io : BdevIo) (mem : Nat → B)
  | serve (r c : Nat)
  | finish (r c : Nat)
  | fail (r c : Nat) (junk : Nat → B)
  | resume (r : Nat)

namespace Mirror

def noReq (mem : Nat → B) : Req B :=
  ⟨⟨.invalid, 0, 0⟩, 0, mem, fun _ => .ended false, 0, .completed .failure⟩

/-- A request of channel `k` with no child I/O yet; of a type the driver does not support,
it ends here. -/
def newReq (k : Nat) (io : BdevIo) (mem : Nat → B) : Req B := { noReq mem with io := io, ch := k }

/-- Any number of channels on `n` children that hold `disks`. -/
def start (n : Nat) (overflowChecks : Bool) (disks : Nat → Nat → B) : Mirror B :=
  ⟨overflowChecks, disks, fun _ => ⟨n, 0⟩, 0, fun _ => noReq (disks 0), false⟩

def setReq (s : Mirror B) (r : Nat) (q : Req B) : Mirror B :=
  { s with req := Function.update s.req r q }

def setChan (s : Mirror B) (k : Nat) (ch : Raid1IoChannel) : Mirror B :=
  { s with chans := Function.update s.chans k ch }

/-- `submit_io`, up to the first await of the request. -/
def submitIo (s : Mirror B) (k : Nat) (io : BdevIo) (mem : Nat → B) : Mirror B :=
  let s' := { s with count := s.count + 1 }
  match io.ioType with
  | .read =>
    let (ch, p) := read (s.chans k)
    (s'.setChan k ch).setReq s.count ((newReq k io mem).readOn p)
  | .write =>
    let ndisks := (s.chans k).children
    s'.setReq s.count { newReq k io mem with
      ios := fun c => if c < ndisks then .inFlight else .ended false
      phase := writeLoop ndisks 0 .failure 0 }
  | _ => s'.setReq s.count (newReq k io mem)

/-- Child `c` stores the data of a write or fetches those of a read. -/
def serve (s : Mirror B) (r c : Nat) : Mirror B :=
  let q := s.req r
  if q.io.ioType = .write then
    { s with disks := Function.update s.disks c (q.store (s.disks c)) }.setReq r
      (q.setIo c .served q.mem)
  else s.setReq r (q.setIo c .served (q.fetch (s.disks c)))

/-- A failed child read may leave anything in the buffer; a failed child write leaves the
child as it was. -/
def fail (s : Mirror B) (r c : Nat) (junk : Nat → B) : Mirror B :=
  let q := s.req r
  s.setReq r (q.setIo c (.ended false) (if q.io.ioType = .write then q.mem else junk))

/-- A read whose child I/O has ended goes on. -/
def resumeRead (s : Mirror B) (r left : Nat) (success : Bool) : Mirror B :=
  let q := s.req r
  let (ch, p) := readResume left success (s.chans q.ch)
  (s.setChan q.ch ch).setReq r (q.readOn p)

def step (s : Mirror B) : MirrorEvent B → Option (Mirror B)
  | .submit k io mem => some (s.submitIo k io mem)
  | .serve r c => if (s.req r).ios c = .inFlight then some (s.serve r c) else none
  | .finish r c =>
    if (s.req r).ios c = .served then
      some (s.setReq r ((s.req r).setIo c (.ended true) (s.req r).mem))
    else none
  | .fail r c junk => if (s.req r).ios c = .inFlight then some (s.fail r c junk) else none
  | .resume r =>
    match (s.req r).phase with
    | .reading left =>
      match (s.req r).ios (s.req r).next with
      | .ended b => some (s.resumeRead r left b)
      | _ => none
    | .writing idx status failMask =>
      match (s.req r).ios idx with
      | .ended b =>
        let ndisks := (s.chans (s.req r).ch).children
        match writeResume s.overflowChecks ndisks idx status failMask b with
        | some p => some (s.setReq r { s.req r with phase := p })
        | none => some { s with panicked := true }
      | _ => none
    | .completed _ => none

def next (s : Mirror B) (e : MirrorEvent B) : Option (Mirror B) :=
  if s.panicked then none else s.step e

inductive Step (s : Mirror B) : MirrorEvent B → Mirror B → Prop
  | submit {k : Nat} {io : BdevIo} {mem : Nat → B} :
      Step s (.submit k io mem) (s.submitIo k io mem)
  | serve {r c : Nat} (hi : (s.req r).ios c = .inFlight) : Step s (.serve r c) (s.serve r c)
  | finish {r c : Nat} (hi : (s.req r).ios c = .served) :
      Step s (.finish r c) (s.setReq r ((s.req r).setIo c (.ended true) (s.req r).mem))
  | fail {r c : Nat} {junk : Nat → B} (hi : (s.req r).ios c = .inFlight) :
      Step s (.fail r c junk) (s.fail r c junk)
  | resumeRead {r left : Nat} {b : Bool} (hp : (s.req r).phase = .reading left)
      (hi : (s.req r).ios (s.req r).next = .ended b) :
      Step s (.resume r) (s.resumeRead r left b)
  | resumeWrite {r idx failMask : Nat} {status : IoStatus} {b : Bool} {p : Phase}
      (hp : (s.req r).phase = .writing idx status failMask) (hi : (s.req r).ios idx = .ended b)
      (hw : writeResume s.overflowChecks (s.chans (s.req r).ch).children idx status failMask b =
        some p) : Step s (.resume r) (s.setReq r { s.req r with phase := p })
  | panic {r : Nat} : Step s (.resume r) { s with panicked := true }

theorem step_cases {s u : Mirror B} {e : MirrorEvent B} (h : s.step e = some u) : Step s e u := by
  cases e with
  | submit k io mem =>
    cases h
    exact .submit
  | serve r c =>
    simp only [step, Option.ite_none_right_eq_some, Option.some.injEq] at h
    obtain ⟨hi, rfl⟩ := h
    exact .serve hi
  | finish r c =>
    simp only [step, Option.ite_none_right_eq_some, Option.some.injEq] at h
    obtain ⟨hi, rfl⟩ := h
    exact .finish hi
  | fail r c junk =>
    simp only [step, Option.ite_none_right_eq_some, Option.some.injEq] at h
    obtain ⟨hi, rfl⟩ := h
    exact .fail hi
  | resume r =>
    simp only [step] at h
    split at h
    · rename_i left hp
      split at h
      · rename_i b hi
        cases h
        exact .resumeRead hp hi
      · cases h
    · rename_i idx status failMask hp
      split at h
      · rename_i b hi
        split at h
        · rename_i p hw
          cases h
          exact .resumeWrite hp hi hw
        · cases h
          exact .panic
      · cases h
    · cases h

theorem next_step {s u : Mirror B} {e : MirrorEvent B} (h : s.next e = some u) : Step s e u := by
  unfold next at h
  split at h
  · cases h
  · exact step_cases h

end Mirror

/-! ## One request -/

/-- What a request of an `n`-way mirror satisfies at every moment. -/
structure Req.Ok (n : Nat) (q : Req B) : Prop where
  outside : ∀ c, n ≤ c → q.ios c = .ended false
  reading : ∀ left, q.phase = .reading left →
    q.io.ioType = .read ∧ ∀ c, c ≠ q.next → (q.ios c).Ended
  writing : ∀ idx status failMask, q.phase = .writing idx status failMask →
    q.io.ioType = .write ∧ idx < n ∧ (∀ c < idx, (q.ios c).Ended) ∧
      (status = .success ↔ ∃ c < idx, q.ios c = .ended true)
  ended : ∀ status, q.phase = .completed status → ∀ c, (q.ios c).Ended
  wrote : ∀ status, q.phase = .completed status → q.io.ioType = .write →
    (status = .success ↔ ∃ c < n, q.ios c = .ended true)
  got : q.io.ioType = .read → q.phase = .completed .success → q.ios q.next = .ended true

namespace Req.Ok
variable {n : Nat} {q : Req B}

theorem newReq (n k : Nat) (io : BdevIo) (mem : Nat → B) (h : io.ioType ≠ .write) :
    (Mirror.newReq k io mem).Ok n :=
  ⟨fun _ _ => rfl, fun _ h => (by cases h), fun _ _ _ h => (by cases h), fun _ _ _ => ⟨_, rfl⟩,
    fun _ _ hw => absurd hw h, fun _ h => (by cases h)⟩

/-- A child I/O of a request that has not ended is one it still has to await. -/
theorem setIo (h : q.Ok n) {c : Nat} (hopen : ¬ (q.ios c).Ended) (i : ChildIo) (mem : Nat → B) :
    (q.setIo c i mem).Ok n := by
  have other : ∀ {d : Nat}, (q.ios d).Ended → Function.update q.ios c i d = q.ios d := by
    intro d hd
    have hne : d ≠ c := by
      intro he
      exact hopen (he ▸ hd)
    exact Function.update_of_ne hne ..
  refine ⟨fun d hd => ?_, fun left hp => ?_, fun idx status m hp => ?_, fun status hp => ?_,
    fun status hp => ?_, fun ht hp => ?_⟩
  · have hout := h.outside d hd
    exact (other ⟨_, hout⟩).trans hout
  · obtain ⟨ht, hrest⟩ := h.reading left hp
    refine ⟨ht, fun d hd => ?_⟩
    show (Function.update q.ios c i d).Ended
    rw [other (hrest d hd)]
    exact hrest d hd
  · obtain ⟨ht, hidx, hrest, hst⟩ := h.writing idx status m hp
    have hsame : ∀ d < idx, (q.setIo c i mem).ios d = q.ios d := fun d hd => other (hrest d hd)
    refine ⟨ht, hidx, fun d hd => hsame d hd ▸ hrest d hd, hst.trans ?_⟩
    exact exists_congr fun d => and_congr_right fun hd => by rw [hsame d hd]
  · exact absurd (h.ended status hp c) hopen
  · exact absurd (h.ended status hp c) hopen
  · exact absurd (h.ended .success hp c) hopen

/-- The read loop, entered while no child I/O of the request is in flight. -/
theorem readLoop (h : ∀ c, n ≤ c → q.ios c = .ended false) (ht : q.io.ioType = .read)
    (hend : ∀ c, (q.ios c).Ended) {ch : Raid1IoChannel} (hn : 0 < n) (hc : ch.children = n)
    (left : Nat) : (q.readOn (readLoop left ch).2).Ok n := by
  cases left with
  | zero =>
    exact ⟨h, fun _ hp => (by cases hp), fun _ _ _ hp => (by cases hp), fun _ _ => hend,
      fun _ _ hw => (by cases ht.symm.trans hw), fun _ hp => (by cases hp)⟩
  | succ left =>
    refine ⟨fun c hc' => ?_, fun _ _ => ⟨ht, fun c hne => ?_⟩, fun _ _ _ hp => (by cases hp),
      fun _ hp => (by cases hp), fun _ hp => (by cases hp), fun _ hp => (by cases hp)⟩
    · have hlt : (ch.nextRead + 1) % ch.children < n := hc ▸ Nat.mod_lt _ (hc ▸ hn)
      have hne : c ≠ (ch.nextRead + 1) % ch.children := by omega
      exact (Function.update_of_ne hne ..).trans (h c hc')
    · have hne : c ≠ (ch.nextRead + 1) % ch.children := hne
      show (Function.update q.ios _ .inFlight c).Ended
      rw [Function.update_of_ne hne]
      exact hend c

theorem readResume (h : q.Ok n) {left : Nat} (hp : q.phase = .reading left) {b : Bool}
    (hi : q.ios q.next = .ended b) {ch : Raid1IoChannel} (hn : 0 < n) (hc : ch.children = n) :
    (q.readOn (readResume left b ch).2).Ok n := by
  obtain ⟨ht, hrest⟩ := h.reading left hp
  have hend : ∀ c, (q.ios c).Ended := by
    intro c
    by_cases he : c = q.next
    · exact ⟨b, he ▸ hi⟩
    · exact hrest c he
  unfold Raid1.readResume
  split
  · rename_i hb
    exact ⟨h.outside, fun _ hp => (by cases hp), fun _ _ _ hp => (by cases hp), fun _ _ => hend,
      fun _ _ hw => (by cases ht.symm.trans hw), fun _ _ => hb ▸ hi⟩
  · exact readLoop h.outside ht hend hn hc left

/-- The write loop at the head of an iteration. -/
theorem writeLoop (h : ∀ c, n ≤ c → q.ios c = .ended false) (ht : q.io.ioType = .write) {idx : Nat}
    (hidx : idx ≤ n) {status : IoStatus} (hend : ∀ c < idx, (q.ios c).Ended)
    (hst : status = .success ↔ ∃ c < idx, q.ios c = .ended true) (failMask : Nat) :
    Req.Ok n { q with phase := writeLoop n idx status failMask } := by
  unfold Raid1.writeLoop
  split
  · exact ⟨h, fun _ hp => (by cases hp), fun _ _ _ hp => by cases hp; exact ⟨ht, ‹_›, hend, hst⟩,
      fun _ hp => (by cases hp), fun _ hp => (by cases hp), fun _ hp => (by cases hp)⟩
  · have he : idx = n := by omega
    subst he
    refine ⟨h, fun _ hp => (by cases hp), fun _ _ _ hp => (by cases hp), fun _ _ c => ?_,
      fun _ hp _ => by cases hp; exact hst, fun hr _ => (by cases ht.symm.trans hr)⟩
    rcases Nat.lt_or_ge c idx with hc | hc
    · exact hend c hc
    · exact ⟨_, h c hc⟩

theorem writeResume (h : q.Ok n) {idx failMask : Nat} {status : IoStatus} {b checks : Bool}
    {p : Phase} (hp : q.phase = .writing idx status failMask)
    (hi : q.ios idx = .ended b) (hw : writeResume checks n idx status failMask b = some p) :
    Req.Ok n { q with phase := p } := by
  obtain ⟨ht, hidx, hend, hst⟩ := h.writing idx status failMask hp
  have hend' : ∀ c < idx + 1, (q.ios c).Ended := by
    intro c hc
    rcases Nat.lt_succ_iff_lt_or_eq.mp hc with hc | rfl
    · exact hend c hc
    · exact ⟨b, hi⟩
  have hmore : ∀ {c}, c < idx → c < idx + 1 := fun hc => Nat.lt_succ_of_lt hc
  unfold Raid1.writeResume at hw
  split at hw
  · rename_i hb
    cases hw
    exact writeLoop h.outside ht hidx hend'
      ⟨fun _ => ⟨idx, Nat.lt_succ_self _, hb ▸ hi⟩, fun _ => rfl⟩ failMask
  · rename_i hb
    split at hw
    · cases hw
    · cases hw
      refine writeLoop h.outside ht hidx hend' (hst.trans ⟨?_, ?_⟩) _
      · intro ⟨c, hc, hok⟩
        exact ⟨c, hmore hc, hok⟩
      · intro ⟨c, hc, hok⟩
        rcases Nat.lt_succ_iff_lt_or_eq.mp hc with hc | rfl
        · exact ⟨c, hc, hok⟩
        · cases hi.symm.trans hok
          exact absurd rfl hb

end Req.Ok

/-! ## What a step does -/

namespace Mirror

structure Ok (n : Nat) (s : Mirror B) : Prop where
  chans : ∀ k, (s.chans k).children = n
  reqs : ∀ r, (s.req r).Ok n
  unused : ∀ r, s.count ≤ r → ∃ mem, s.req r = noReq mem

theorem ok_start (n : Nat) (overflowChecks : Bool) (disks : Nat → Nat → B) :
    (start n overflowChecks disks).Ok n :=
  ⟨fun _ => rfl, fun _ => Req.Ok.newReq n 0 ⟨.invalid, 0, 0⟩ (disks 0) (fun h => by cases h),
    fun _ _ => ⟨_, rfl⟩⟩

namespace Ok
variable {n : Nat} {s u : Mirror B} {r c : Nat}

theorem started (h : s.Ok n) (hp : ∀ status, (s.req r).phase ≠ .completed status) :
    r < s.count := by
  by_contra hr
  obtain ⟨mem, hreq⟩ := h.unused r (by omega)
  exact hp .failure (by rw [hreq]; rfl)

/-- A child I/O that has not ended belongs to a request in progress. -/
theorem live (h : s.Ok n) (hi : ¬ ((s.req r).ios c).Ended) (status : IoStatus) :
    (s.req r).phase ≠ .completed status :=
  fun hp => hi ((h.reqs r).ended status hp c)

theorem setReq (h : s.Ok n) {q : Req B} (hr : r < s.count) (hq : q.Ok n) :
    (s.setReq r q).Ok n := by
  refine ⟨h.chans, fun t => ?_, fun t ht => ?_⟩
  · by_cases he : t = r
    · subst he
      simpa [Mirror.setReq] using hq
    · simpa [Mirror.setReq, Function.update_of_ne he] using h.reqs t
  · have ht : s.count ≤ t := ht
    have he : t ≠ r := by omega
    simpa [Mirror.setReq, Function.update_of_ne he] using h.unused t ht

theorem setChan (h : s.Ok n) (k : Nat) {ch : Raid1IoChannel} (hch : ch.children = n) :
    (s.setChan k ch).Ok n := by
  refine ⟨fun j => ?_, h.reqs, h.unused⟩
  by_cases he : j = k
  · subst he
    simpa [Mirror.setChan] using hch
  · simpa [Mirror.setChan, Function.update_of_ne he] using h.chans j

theorem submitIo (h : s.Ok n) (hn : 0 < n) (k : Nat) (io : BdevIo) (mem : Nat → B) :
    (s.submitIo k io mem).Ok n := by
  have hmore : Ok n { s with count := s.count + 1 } := by
    refine ⟨h.chans, h.reqs, fun t ht => ?_⟩
    have ht : s.count + 1 ≤ t := ht
    exact h.unused t (by omega)
  have hlt : s.count < s.count + 1 := Nat.lt_succ_self _
  unfold Mirror.submitIo
  split
  · rename_i ht
    have hch : (read (s.chans k)).1.children = n := (readLoop_children _ _).trans (h.chans k)
    refine (hmore.setChan k hch).setReq hlt ?_
    exact Req.Ok.readLoop (fun _ _ => rfl) ht (fun _ => ⟨_, rfl⟩) hn (h.chans k) _
  · rename_i ht
    have hch := h.chans k
    subst hch
    let q : Req B := { newReq k io mem with
      ios := fun c => if c < (s.chans k).children then .inFlight else .ended false }
    have hout : ∀ c, (s.chans k).children ≤ c → q.ios c = .ended false :=
      fun c hc => if_neg (by omega)
    have hst : IoStatus.failure = .success ↔ ∃ c < 0, q.ios c = .ended true :=
      ⟨fun he => (by cases he), fun ⟨c, hc, _⟩ => absurd hc (Nat.not_lt_zero c)⟩
    exact hmore.setReq hlt (Req.Ok.writeLoop hout ht (Nat.zero_le _)
      (fun c hc => absurd hc (Nat.not_lt_zero c)) hst 0)
  · rename_i _ hw
    exact hmore.setReq hlt (Req.Ok.newReq n k io mem hw)

end Ok

theorem Step.ok {n : Nat} {s u : Mirror B} {e : MirrorEvent B} (hs : Step s e u) (h : s.Ok n)
    (hn : 0 < n) : u.Ok n := by
  cases hs with
  | submit => exact h.submitIo hn _ _ _
  | serve hi =>
    rename_i r c
    have hopen := ChildIo.inFlight_open hi
    have hr := h.started (h.live hopen)
    unfold Mirror.serve
    simp only
    split
    · have hdisks :
          Ok n { s with disks := Function.update s.disks c ((s.req r).store (s.disks c)) } :=
        ⟨h.chans, h.reqs, h.unused⟩
      exact hdisks.setReq hr ((h.reqs r).setIo hopen _ _)
    · exact h.setReq hr ((h.reqs r).setIo hopen _ _)
  | finish hi =>
    rename_i r c
    have hopen := ChildIo.served_open hi
    exact h.setReq (h.started (h.live hopen)) ((h.reqs r).setIo hopen _ _)
  | fail hi =>
    rename_i r c junk
    have hopen := ChildIo.inFlight_open hi
    exact h.setReq (h.started (h.live hopen)) ((h.reqs r).setIo hopen _ _)
  | resumeRead hp hi =>
    rename_i r left b
    have hr : r < s.count := h.started fun status he => by cases hp.symm.trans he
    have hch : (readResume left b (s.chans (s.req r).ch)).1.children = n :=
      (readResume_children _ _ _).trans (h.chans _)
    exact (h.setChan _ hch).setReq hr ((h.reqs r).readResume hp hi hn (h.chans _))
  | resumeWrite hp hi hw =>
    rename_i r idx failMask status b p
    have hr : r < s.count := h.started fun status he => by cases hp.symm.trans he
    rw [h.chans] at hw
    exact h.setReq hr ((h.reqs r).writeResume hp hi hw)
  | panic => exact ⟨h.chans, h.reqs, h.unused⟩

/-- A request moves on without a child storing or fetching anything for it. -/
structure Quiet (e : MirrorEvent B) (q q' : Req B) : Prop where
  io : q'.io = q.io
  write : q.io.ioType = .write → q'.mem = q.mem ∧ ∀ c, (q'.ios c).took = (q.ios c).took ∧
    (q'.ios c = .ended false → q.ios c = .ended false ∨ ∃ r junk, e = .fail r c junk)
  read : q.io.ioType = .read → (q'.ios q'.next).took = true →
    q'.next = q.next ∧ q'.mem = q.mem ∧ (q.ios q.next).took = true

/-- What a step does to the contents of the children and to the buffers of the requests. -/
inductive Effect (n : Nat) (s : Mirror B) : MirrorEvent B → Mirror B → Prop
  | submit {k : Nat} {io : BdevIo} {mem : Nat → B} {u : Mirror B} (q : Req B) (hio : q.io = io)
      (hnone : ∀ c, (q.ios c).took = false)
      (hall : io.ioType = .write → ∀ c < n, q.ios c = .inFlight)
      (hdisks : u.disks = s.disks) (hcount : u.count = s.count + 1)
      (hreq : u.req = Function.update s.req s.count q) : Effect n s (.submit k io mem) u
  | store {r c : Nat} {u : Mirror B} (hi : (s.req r).ios c = .inFlight)
      (ht : (s.req r).io.ioType = .write)
      (hdisks : u.disks = Function.update s.disks c ((s.req r).store (s.disks c)))
      (hcount : u.count = s.count)
      (hreq : u.req = Function.update s.req r ((s.req r).setIo c .served (s.req r).mem)) :
      Effect n s (.serve r c) u
  | fetch {r : Nat} {u : Mirror B} (hi : (s.req r).ios (s.req r).next = .inFlight)
      (ht : (s.req r).io.ioType = .read) (hdisks : u.disks = s.disks) (hcount : u.count = s.count)
      (hreq : u.req = Function.update s.req r ((s.req r).setIo (s.req r).next .served
        ((s.req r).fetch (s.disks (s.req r).next)))) : Effect n s (.serve r (s.req r).next) u
  | quiet {e : MirrorEvent B} {u : Mirror B} (r : Nat) (q' : Req B)
      (hp : ∀ status, (s.req r).phase ≠ .completed status) (hq : Quiet e (s.req r) q')
      (hdisks : u.disks = s.disks) (hcount : u.count = s.count)
      (hreq : u.req = Function.update s.req r q') : Effect n s e u
  | panic {r : Nat} : Effect n s (.resume r) { s with panicked := true }

/-- A child I/O that has been submitted and is now reported changes nothing else. -/
theorem Quiet.setIo {n : Nat} {e : MirrorEvent B} {q : Req B} (h : q.Ok n) {c : Nat}
    (hopen : ¬ (q.ios c).Ended) (i : ChildIo) (mem : Nat → B) (htook : i.took = (q.ios c).took)
    (hmem : q.io.ioType = .write ∨ (q.ios c).took = true → mem = q.mem)
    (hfail : i = .ended false → ∃ r junk, e = .fail r c junk) :
    Quiet e q (q.setIo c i mem) := by
  have hios : ∀ d, ((q.setIo c i mem).ios d).took = (q.ios d).took := by
    intro d
    show (Function.update q.ios c i d).took = _
    by_cases he : d = c
    · rw [he, Function.update_self, htook]
    · rw [Function.update_of_ne he]
  refine ⟨rfl, fun ht => ⟨hmem (Or.inl ht), fun d => ⟨hios d, fun hd => ?_⟩⟩, fun ht htk => ?_⟩
  · have hd : Function.update q.ios c i d = .ended false := hd
    by_cases he : d = c
    · subst he
      rw [Function.update_self] at hd
      exact Or.inr (hfail hd)
    · rw [Function.update_of_ne he] at hd
      exact Or.inl hd
  · have hnext : (q.ios q.next).took = true := (hios q.next).symm.trans htk
    refine ⟨rfl, hmem (Or.inr ?_), hnext⟩
    -- the child I/O of a read that is open is the one it waits for
    cases hp : q.phase with
    | reading left =>
      by_cases he : c = q.next
      · rw [he]
        exact hnext
      · exact absurd ((h.reading left hp).2 c he) hopen
    | writing idx status failMask =>
      cases ht.symm.trans (h.writing idx status failMask hp).1
    | completed status => exact absurd (h.ended status hp c) hopen

theorem Quiet.readOn {e : MirrorEvent B} {q : Req B} (ht : q.io.ioType = .read) {left : Nat}
    {b : Bool} (ch : Raid1IoChannel) : Quiet e q (q.readOn (readResume left b ch).2) := by
  have hdone : ∀ status, Quiet e q (q.readOn (.completed status)) := fun status =>
    ⟨rfl, fun hw => (by cases ht.symm.trans hw), fun _ htk => ⟨rfl, rfl, htk⟩⟩
  unfold readResume
  split
  · exact hdone .success
  · cases left with
    | zero => exact hdone .failure
    | succ left =>
      refine ⟨rfl, fun hw => (by cases ht.symm.trans hw), fun _ htk => ?_⟩
      simp [readLoop, Req.readOn, ChildIo.took] at htk

theorem Step.effect {n : Nat} {s u : Mirror B} {e : MirrorEvent B} (hs : Step s e u)
    (h : s.Ok n) : Effect n s e u := by
  cases hs with
  | submit =>
    rename_i k io mem
    unfold Mirror.submitIo
    split
    · rename_i ht
      exact .submit _ (Req.readOn_io _ _) (fun c => Req.readOn_took (fun _ => rfl) _ c)
        (fun hw => by cases ht.symm.trans hw) rfl rfl rfl
    · rename_i ht
      refine .submit _ rfl (fun c => ?_) (fun _ c hc => ?_) rfl rfl rfl
      · simp only
        split <;> rfl
      · exact if_pos (h.chans k ▸ hc)
    · rename_i _ hw
      exact .submit _ rfl (fun _ => rfl) (fun ht => absurd ht hw) rfl rfl rfl
  | serve hi =>
    rename_i r c
    have hopen := ChildIo.inFlight_open hi
    unfold Mirror.serve
    simp only
    split
    · rename_i ht
      exact .store hi ht rfl rfl rfl
    · rename_i hw
      cases hp : (s.req r).phase with
      | reading left =>
        obtain ⟨ht, hrest⟩ := (h.reqs r).reading left hp
        have hc : c = (s.req r).next := by
          by_contra hne
          exact hopen (hrest c hne)
        subst hc
        exact .fetch hi ht rfl rfl rfl
      | writing idx status failMask =>
        exact absurd ((h.reqs r).writing idx status failMask hp).1 hw
      | completed status => exact absurd hp (h.live hopen status)
  | finish hi =>
    rename_i r c
    have hopen := ChildIo.served_open hi
    exact .quiet r _ (h.live hopen) (Quiet.setIo (h.reqs r) hopen _ _ (by rw [hi]; rfl)
      (fun _ => rfl) fun he => by cases he) rfl rfl rfl
  | fail hi =>
    rename_i r c junk
    have hopen := ChildIo.inFlight_open hi
    refine .quiet r _ (h.live hopen) (Quiet.setIo (h.reqs r) hopen _ _ (by rw [hi]; rfl)
      (fun hm => ?_) fun _ => ⟨r, junk, rfl⟩) rfl rfl rfl
    rcases hm with ht | htk
    · exact if_pos ht
    · rw [hi] at htk
      cases htk
  | resumeRead hp hi =>
    rename_i r left b
    have hlive : ∀ status, (s.req r).phase ≠ .completed status := fun status he => by
      cases hp.symm.trans he
    exact .quiet r _ hlive (Quiet.readOn ((h.reqs r).reading left hp).1 _) rfl rfl rfl
  | resumeWrite hp hi hw =>
    rename_i r idx failMask status b p
    have hlive : ∀ status, (s.req r).phase ≠ .completed status := fun status he => by
      cases hp.symm.trans he
    exact .quiet r { s.req r with phase := p } hlive ⟨rfl,
      fun _ => ⟨rfl, fun _ => ⟨rfl, Or.inl⟩⟩, fun _ htk => ⟨rfl, rfl, htk⟩⟩ rfl rfl rfl
  | panic => exact .panic

end Mirror

end Ironspdk.Raid1
