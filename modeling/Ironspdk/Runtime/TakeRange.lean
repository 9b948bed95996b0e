import Ironspdk.Runtime.IoRef

/-! # What a splitter accepts

The range check of `IoRefSplitter::take` is made on machine integers, and `slice_iovs` makes a
second one. Together they accept a take whose length, modulo `2 ^ 64`, fits behind a cursor
that is not at the end. -/
namespace Ironspdk.Runtime
open Ironspdk.Lib

theorem Build.fit_some {b : Build} {bits n m : Nat} (h : b.fit bits n = some m) :
    m = n % 2 ^ bits := by
  unfold Build.fit at h
  split at h
  · rename_i hlt
    cases h
    exact (Nat.mod_eq_of_lt hlt).symm
  · split at h
    · cases h
    · cases h
      rfl

theorem Build.fit_lt {b : Build} {bits n m : Nat} (h : b.fit bits n = some m) : m < 2 ^ bits := by
  rw [Build.fit_some h]
  exact Nat.mod_lt n (Nat.two_pow_pos bits)

theorem release_fit (bits n : Nat) : release.fit bits n = some (n % 2 ^ bits) := by
  unfold Build.fit
  split
  · rename_i hlt
    rw [Nat.mod_eq_of_lt hlt]
  · rfl

/-! ## The check of `slice_iovs` -/

theorem sliceIovs_error {iovs : List Iovec} {offset len : Nat} {e : Error}
    (h : sliceIovs iovs offset len = .error e) : e = .outOfRange := by
  induction iovs generalizing offset len with
  | nil =>
    cases h
    rfl
  | cons iov iovs ih =>
    rw [sliceIovs] at h
    split at h
    · exact ih h
    · simp only at h
      split at h
      · cases h
      · cases hrec : sliceIovs iovs 0 (len - min (iov.len - offset) len) with
        | error e' =>
          rw [hrec] at h
          cases h
          exact ih hrec
        | ok tail =>
          rw [hrec] at h
          cases h

/-- It accepts the ranges that start before the end of the list and stop there at the latest;
the empty range at the end is not one of them. -/
theorem sliceIovs_accepts (iovs : List Iovec) (offset len : Nat) :
    (∃ res, sliceIovs iovs offset len = .ok res) ↔
      offset < (iovs.map (·.len)).sum ∧ offset + len ≤ (iovs.map (·.len)).sum := by
  induction iovs generalizing offset len with
  | nil => simp [sliceIovs]
  | cons iov iovs ih =>
    rw [sliceIovs, List.map_cons, List.sum_cons]
    split
    · rw [ih]
      omega
    · simp only
      split
      · refine ⟨fun _ => by omega, fun _ => ⟨_, rfl⟩⟩
      · have hmap : (∃ res, (sliceIovs iovs 0 (len - min (iov.len - offset) len)).map
            ((⟨iov.base + offset, min (iov.len - offset) len⟩ : Iovec) :: ·) = .ok res) ↔
            ∃ res, sliceIovs iovs 0 (len - min (iov.len - offset) len) = .ok res := by
          cases sliceIovs iovs 0 (len - min (iov.len - offset) len) with
          | error e => simp [Except.map]
          | ok tail => simp [Except.map]
        rw [hmap, ih]
        omega

/-! ## A take -/

namespace IoRefSplitter

/-- A splitter of the bytes of `iovs` into blocks of `len` bytes. -/
structure Cuts (iovs : List Iovec) (len : Nat) (s : IoRefSplitter) : Prop where
  parentIovs : s.parentIovs = iovs
  total : s.parentTotalBytes = (addrsOf iovs).length
  lt : s.parentTotalBytes < 2 ^ 64
  blockLen : s.childBlockLen = len
  cursor : s.cursorBytes ≤ s.parentTotalBytes

/-- `n` bytes can be cut off at the cursor. -/
def Accepts (s : IoRefSplitter) (n : Nat) : Prop :=
  s.cursorBytes < s.parentTotalBytes ∧ s.cursorBytes + n ≤ s.parentTotalBytes

/-- The child that a take of `blocks` blocks returns. -/
def child (s : IoRefSplitter) (iovs : List Iovec) (blocks : Nat) : IoRef :=
  ⟨iovs, 0, s.cursorBytes / s.childBlockLen, blocks, s.childBlockLen⟩

variable {iovs : List Iovec} {len : Nat} {s : IoRefSplitter} {b : Build} {blocks : Nat}

theorem Cuts.new {io : IoRef} {childBlockLen : Option Nat}
    (hsum : b.fit 64 io.totalBytes = some (addrsOf io.iovs).length)
    (hnew : IoRefSplitter.new b io childBlockLen = some s) : Cuts io.iovs s.childBlockLen s := by
  obtain ⟨total, htotal, hnew⟩ := Option.bind_eq_some_iff.mp hnew
  cases htotal.symm.trans hsum
  cases hnew
  exact ⟨rfl, rfl, Build.fit_lt htotal, rfl, Nat.zero_le _⟩

/-- What a take that does not panic comes to. -/
theorem Cuts.take_cases (h : Cuts iovs len s) {r : Except Error IoRef} {s' : IoRefSplitter}
    (ht : s.take b blocks = some (r, s')) :
    (∃ bytes res, b.fit 64 (blocks * len) = some bytes ∧ s.Accepts bytes ∧
      sliceIovs iovs s.cursorBytes bytes = .ok res ∧ r = .ok (s.child res blocks) ∧
      s' = { s with cursorBytes := s.cursorBytes + bytes }) ∨
    ¬ s.Accepts (blocks * len % 2 ^ 64) ∧ r = .error .outOfRange ∧ s' = s := by
  have hlt := h.lt
  unfold IoRefSplitter.take at ht
  rw [h.blockLen, h.parentIovs] at ht
  obtain ⟨bytes, hbytes, ht⟩ := Option.bind_eq_some_iff.mp ht
  obtain ⟨stop, hstop, ht⟩ := Option.bind_eq_some_iff.mp ht
  have haccepts := sliceIovs_accepts iovs s.cursorBytes bytes
  rw [← length_addrsOf, ← h.total] at haccepts
  split at ht
  · -- past the end by the first check
    rename_i hpast
    cases ht
    refine Or.inr ⟨fun hacc => ?_, rfl, rfl⟩
    rw [← Build.fit_some hbytes] at hacc
    have hfit : s.cursorBytes + bytes < 2 ^ 64 := by
      have := hacc.2
      omega
    rw [Build.fit_some hstop, Nat.mod_eq_of_lt hfit] at hpast
    exact Nat.not_lt.mpr hacc.2 hpast
  · split at ht
    · -- past the end by the second
      rename_i e hslice
      cases ht
      refine Or.inr ⟨fun hacc => ?_, by rw [sliceIovs_error hslice], rfl⟩
      rw [← Build.fit_some hbytes] at hacc
      obtain ⟨res, hres⟩ := haccepts.mpr hacc
      rw [hslice] at hres
      cases hres
    · rename_i res hslice
      split at ht
      · cases ht
      · have hacc : s.Accepts bytes := haccepts.mp ⟨res, hslice⟩
        have hfit : s.cursorBytes + bytes < 2 ^ 64 := by
          have := hacc.2
          omega
        rw [b.fit_of_lt hfit] at ht
        cases ht
        refine Or.inl ⟨bytes, res, hbytes, hacc, hslice, by rw [child, h.blockLen], ?_⟩
        simp only [h.blockLen, h.parentIovs]

/-- A release build does not panic in a take. -/
theorem take_release (s : IoRefSplitter) (hlen : 0 < s.childBlockLen) (blocks : Nat) :
    ∃ r s', s.take release blocks = some (r, s') := by
  unfold IoRefSplitter.take
  simp only [release_fit, Option.bind_eq_bind, Option.bind_some]
  split
  · exact ⟨_, _, rfl⟩
  · split
    · exact ⟨_, _, rfl⟩
    · split
      · rename_i hor
        rcases hor with ⟨hdebug, _⟩ | hzero
        · cases hdebug
        · exact absurd hzero hlen.ne'
      · exact ⟨_, _, rfl⟩

theorem Cuts.take (h : Cuts iovs len s) {r : Except Error IoRef} {s' : IoRefSplitter}
    (ht : s.take b blocks = some (r, s')) : Cuts iovs len s' := by
  rcases h.take_cases ht with ⟨bytes, res, _, hacc, _, _, rfl⟩ | ⟨_, _, rfl⟩
  · exact ⟨h.parentIovs, h.total, h.lt, h.blockLen, hacc.2⟩
  · exact h

theorem Cuts.run {u v : Splitting} (h : Cuts iovs len u.splitter) {takes : List Nat}
    (hrun : run (Splitting.next b) u takes = some v) : Cuts iovs len v.splitter := by
  refine run_always (I := fun w : Splitting => Cuts iovs len w.splitter) h ?_ hrun
  intro t blocks w ht hn
  obtain ⟨⟨r, s'⟩, htake, rfl⟩ := Option.map_eq_some_iff.mp hn
  cases r with
  | ok child => exact ht.take htake
  | error e => exact ht.take htake

theorem Cuts.ok_iff (h : Cuts iovs len s) (hlen : 0 < len) (blocks : Nat) :
    (∃ child s', s.take release blocks = some (.ok child, s')) ↔
      s.Accepts (blocks * len % 2 ^ 64) := by
  constructor
  · rintro ⟨child, s', ht⟩
    rcases h.take_cases ht with ⟨bytes, res, hbytes, hacc, _⟩ | ⟨_, hr, _⟩
    · rw [← Build.fit_some hbytes]
      exact hacc
    · cases hr
  · intro hacc
    obtain ⟨r, s', ht⟩ := s.take_release (by rw [h.blockLen]; exact hlen) blocks
    rcases h.take_cases ht with ⟨bytes, res, _, _, _, rfl, _⟩ | ⟨hno, _⟩
    · exact ⟨_, _, ht⟩
    · exact absurd hacc hno

/-- The bytes a take cuts off are those of its child. -/
theorem Cuts.addrs_child (h : Cuts iovs len s) {child : IoRef} {s' : IoRefSplitter}
    (ht : s.take b blocks = some (.ok child, s')) : ∃ bytes, b.fit 64 (blocks * len) = some bytes ∧
      child.totalBytes = blocks * len ∧ (addrsOf child.iovs).length = bytes ∧
      addrsOf child.iovs = ((addrsOf iovs).drop s.cursorBytes).take bytes := by
  rcases h.take_cases ht with ⟨bytes, res, hbytes, hacc, hslice, hr, _⟩ | ⟨_, hr, _⟩
  · cases hr
    obtain ⟨haddrs, hend⟩ := sliceIovs_ok hslice
    refine ⟨bytes, hbytes, congrArg (blocks * ·) h.blockLen, ?_, haddrs⟩
    rw [child, haddrs, List.length_take, List.length_drop]
    omega
  · cases hr

/-- The take of `blocks` blocks goes by the exact product: it returns a child if that many
bytes are left, and else an error that leaves the splitter as it was; and a child does not
claim more bytes than its segments hold. -/
structure TakesExactly (s : IoRefSplitter) (blocks : Nat) : Prop where
  returns : ∃ r s', s.take release blocks = some (r, s')
  ok : (∃ child s', s.take release blocks = some (.ok child, s')) ↔
    blocks * s.childBlockLen ≤ s.parentTotalBytes - s.cursorBytes
  error : ∀ e s', s.take release blocks = some (.error e, s') → e = .outOfRange ∧ s' = s
  backed : ∀ child s', s.take release blocks = some (.ok child, s') →
    child.totalBytes ≤ (addrsOf child.iovs).length

end IoRefSplitter

/-- **Which takes are exact.** All but two kinds, for every parent whose segments hold its
bytes, every length of the child blocks and every cursor that takes lead to: the empty take at
the end of the parent, which is refused, and one whose length wraps to one that fits, which is
accepted. -/
theorem takes_exactly_iff {io : IoRef} (hio : io.Wf) {childBlockLen : Option Nat}
    {splitter : IoRefSplitter} (hnew : IoRefSplitter.new release io childBlockLen = some splitter)
    (hlen : 1 ≤ splitter.childBlockLen) {takes : List Nat} {s : Splitting}
    (h : run (Splitting.next release) ⟨splitter, []⟩ takes = some s) (blocks : Nat) :
    s.splitter.TakesExactly blocks ↔
      ¬ (blocks = 0 ∧ s.splitter.cursorBytes = io.totalBytes) ∧
      ¬ (2 ^ 64 ≤ blocks * splitter.childBlockLen ∧ s.splitter.cursorBytes < io.totalBytes ∧
        s.splitter.cursorBytes + blocks * splitter.childBlockLen % 2 ^ 64 ≤ io.totalBytes) := by
  have hsum : (addrsOf io.iovs).length = io.totalBytes := by rw [length_addrsOf, hio.sum]
  have hfit : release.fit 64 io.totalBytes = some (addrsOf io.iovs).length := by
    rw [release.fit_of_lt hio.lt, hsum]
  have hcuts := IoRefSplitter.Cuts.run (u := ⟨splitter, []⟩) (IoRefSplitter.Cuts.new hfit hnew) h
  rw [← hsum, ← hcuts.total]
  generalize splitter.childBlockLen = len at hcuts hlen ⊢
  have hlt := hcuts.lt
  have hcursor := hcuts.cursor
  have hok := hcuts.ok_iff hlen blocks
  constructor
  · intro hexact
    have hiff := hok.symm.trans hexact.ok
    rw [hcuts.blockLen] at hiff
    refine ⟨?_, ?_⟩
    · rintro ⟨rfl, hend⟩
      have hacc := hiff.mpr (by omega)
      exact absurd hacc.1 (by omega)
    · rintro ⟨hwraps, hbefore, hfits⟩
      have := hiff.mp ⟨hbefore, hfits⟩
      omega
  · rintro ⟨hempty, hwraps⟩
    have hexact : s.splitter.Accepts (blocks * len % 2 ^ 64) ↔
        blocks * len ≤ s.splitter.parentTotalBytes - s.splitter.cursorBytes := by
      rcases Nat.lt_or_ge (blocks * len) (2 ^ 64) with hsmall | hlarge
      · rw [Nat.mod_eq_of_lt hsmall]
        refine ⟨fun hacc => Nat.le_sub_of_add_le' hacc.2, fun hle => ⟨?_, by omega⟩⟩
        refine lt_of_le_of_ne hcursor fun hend => hempty ⟨?_, hend⟩
        have hzero : blocks * len = 0 := by omega
        exact (Nat.mul_eq_zero.mp hzero).resolve_right (Nat.ne_of_gt hlen)
      · refine ⟨fun hacc => absurd ⟨hlarge, hacc⟩ hwraps, fun hle => ?_⟩
        omega
    refine ⟨s.splitter.take_release (by rw [hcuts.blockLen]; exact hlen) blocks, ?_, ?_, ?_⟩
    · rw [hok, hcuts.blockLen]
      exact hexact
    · intro e s' ht
      rcases hcuts.take_cases ht with ⟨_, _, _, _, _, hr, _⟩ | ⟨_, hr, hsame⟩
      · cases hr
      · cases hr
        exact ⟨rfl, hsame⟩
    · intro child s' ht
      obtain ⟨bytes, hbytes, htotal, hlength, _⟩ := hcuts.addrs_child ht
      have hleft := hexact.mp (hok.mp ⟨child, s', ht⟩)
      rw [hlength, htotal, Build.fit_some hbytes, Nat.mod_eq_of_lt (by omega)]

/-- With the parent used up, one more block is refused rightly, and no block wrongly. -/
theorem takes_exactly_iff_scattered :
    ∃ s, run (Splitting.next release) ⟨⟨scattered.iovs, 8, 4, 0⟩, []⟩ [1, 3, 1] = some s ∧
      s.splitter.cursorBytes = 8 ∧ s.splitter.TakesExactly 1 ∧ ¬ s.splitter.TakesExactly 0 := by
  have hio : scattered.Wf := ⟨rfl, by decide⟩
  have hnew : IoRefSplitter.new release scattered none = some ⟨scattered.iovs, 8, 4, 0⟩ := rfl
  have hrun : run (Splitting.next release) ⟨⟨scattered.iovs, 8, 4, 0⟩, []⟩ [1, 3, 1] =
      some ⟨⟨scattered.iovs, 8, 4, 8⟩, [⟨[⟨100, 3⟩, ⟨300, 1⟩], 0, 0, 1, 4⟩,
        ⟨[⟨301, 4⟩], 0, 1, 1, 4⟩]⟩ := rfl
  have hiff := takes_exactly_iff hio hnew (by decide) hrun
  exact ⟨_, hrun, rfl, (hiff 1).mpr (by decide), fun h => ((hiff 0).mp h).1 ⟨rfl, rfl⟩⟩

/-- A take of `2 ^ 63` blocks of two bytes is accepted, as an empty one. -/
theorem take_wraps : ¬ ∀ (io : IoRef) (childBlockLen : Option Nat) (splitter : IoRefSplitter)
    (takes : List Nat) (s : Splitting) (blocks : Nat), io.Wf →
    IoRefSplitter.new release io childBlockLen = some splitter → 1 ≤ splitter.childBlockLen →
    run (Splitting.next release) ⟨splitter, []⟩ takes = some s → blocks < 2 ^ 64 →
    s.splitter.TakesExactly blocks := by
  intro h
  have hexact := h scattered (some 2) ⟨scattered.iovs, 8, 2, 0⟩ [] ⟨⟨scattered.iovs, 8, 2, 0⟩, []⟩
    (2 ^ 63) ⟨rfl, by decide⟩ rfl (by decide) rfl (by decide)
  have hbacked := hexact.backed ⟨[⟨100, 0⟩], 0, 0, 2 ^ 63, 2⟩ ⟨scattered.iovs, 8, 2, 0⟩ rfl
  exact absurd hbacked (by decide)

end Ironspdk.Runtime
