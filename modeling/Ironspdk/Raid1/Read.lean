import Mathlib.Data.List.Perm.Subperm
import Mathlib.Data.Nat.ModEq
import Ironspdk.Lib.Runs
import Ironspdk.Runtime.BdevIo

/-! # RAID1 reads on one channel

`Raid1Bdev::read` as tasks that share the cursor `next_read` of their channel. A task
runs from one await to the next in a single step; child reads end in any order, with
any outcome. Every retry moves the shared cursor on, so another read in flight can make
a request come back to a child it has already tried and give up without having tried
them all. The results below say when that cannot happen. -/
namespace Ironspdk.Raid1
open Ironspdk.Lib Ironspdk.Runtime

/-- `children` counts the open child devices. -/
structure Raid1IoChannel where
  children : Nat
  nextRead : Nat
  deriving DecidableEq, Repr

/-- Where a read task stands: at the await of its current child read, with `left`
iterations after this one and the child's answer once it is there, or at the end. -/
inductive ReadPhase
  | awaiting (left child : Nat) (answer : Option Bool)
  | completed (status : IoStatus)
  deriving DecidableEq, Repr

/-- A read request; `tried` lists the child reads it has been answered, latest first. -/
structure ReadReq where
  tried : List (Nat × Bool)
  phase : ReadPhase
  deriving DecidableEq, Repr

/-- The loop of `Raid1Bdev::read`, from the head of an iteration to the next await. -/
def readLoop : Nat → Raid1IoChannel → Raid1IoChannel × ReadPhase
  | 0, ch => (ch, .completed .failure)
  | left + 1, ch =>
    let next := (ch.nextRead + 1) % ch.children
    ({ ch with nextRead := next }, .awaiting left next none)

/-- `Raid1Bdev::read` up to its first await. -/
def read (ch : Raid1IoChannel) : Raid1IoChannel × ReadPhase := readLoop ch.children ch

/-- From the answer of a child read to the next await: stop at the first success. -/
def readResume (left : Nat) (success : Bool) (ch : Raid1IoChannel) : Raid1IoChannel × ReadPhase :=
  if success then (ch, .completed .success) else readLoop left ch

/-- A channel with the read requests submitted to it so far. -/
structure Reads where
  ch : Raid1IoChannel
  count : Nat
  req : Nat → ReadReq

/-- `create_io_channel` -/
def Reads.new (n : Nat) : Reads := ⟨⟨n, 0⟩, 0, fun _ => ⟨[], .completed .failure⟩⟩

inductive ReadEvent
  | submit
  | childDone (r : Nat) (success : Bool)
  | resume (r : Nat)
  deriving DecidableEq, Repr

def next (s : Reads) : ReadEvent → Option Reads
  | .submit =>
    let (ch, p) := read s.ch
    some ⟨ch, s.count + 1, Function.update s.req s.count ⟨[], p⟩⟩
  | .childDone r b =>
    match (s.req r).phase with
    | .awaiting left c none =>
      some { s with req := Function.update s.req r ⟨(s.req r).tried, .awaiting left c (some b)⟩ }
    | _ => none
  | .resume r =>
    match (s.req r).phase with
    | .awaiting left c (some b) =>
      let (ch, p) := readResume left b s.ch
      some { s with ch := ch, req := Function.update s.req r ⟨(c, b) :: (s.req r).tried, p⟩ }
    | _ => none

/-- The children a request has read from, the current one included, latest first. -/
def ReadReq.visited (r : ReadReq) : List Nat :=
  match r.phase with
  | .awaiting _ c _ => c :: r.tried.map Prod.fst
  | .completed _ => r.tried.map Prod.fst

/-- A request that moves on to another child finds the cursor at one it has not tried. -/
def FreshChild (s : Reads) : ReadEvent → Prop
  | .resume r =>
    match (s.req r).phase with
    | .awaiting (_ + 1) _ (some false) =>
      (s.ch.nextRead + 1) % s.ch.children ∉ (s.req r).visited
    | _ => True
  | _ => True

instance (s : Reads) : (e : ReadEvent) → Decidable (FreshChild s e)
  | .resume r =>
    match h : (s.req r).phase with
    | .awaiting (_ + 1) _ (some false) =>
      decidable_of_iff ((s.ch.nextRead + 1) % s.ch.children ∉ (s.req r).visited)
        (by simp [FreshChild, h])
    | .awaiting 0 _ _ | .awaiting _ _ none | .awaiting _ _ (some true) | .completed _ =>
      isTrue (by simp [FreshChild, h])
  | .submit | .childDone _ _ => isTrue trivial

/-! ## One step of a request -/

/-- What a request of an `n`-way mirror satisfies when it never comes back to a child. -/
structure ReadReq.Sound (n : Nat) (r : ReadReq) : Prop where
  range : ∀ c ∈ r.visited, c < n
  distinct : r.visited.Nodup
  budget : ∀ left c b, r.phase = .awaiting left c b → r.visited.length + left = n
  exhausted : r.phase = .completed .failure → r.visited.length = n
  failed : ∀ c, (c, true) ∈ r.tried → r.phase = .completed .success

/-- Entering an iteration keeps a request sound when the cursor moves to a fresh child. -/
theorem readLoop_sound {ch : Raid1IoChannel} {tried : List (Nat × Bool)} {left : Nat}
    (hn : 0 < ch.children) (hr : ∀ c ∈ tried.map Prod.fst, c < ch.children)
    (hd : (tried.map Prod.fst).Nodup) (hl : tried.length + left = ch.children)
    (hf : ∀ c, (c, true) ∉ tried)
    (hfresh : left ≠ 0 → (ch.nextRead + 1) % ch.children ∉ tried.map Prod.fst) :
    ReadReq.Sound ch.children ⟨tried, (readLoop left ch).2⟩ := by
  cases left with
  | zero =>
    refine ⟨hr, hd, fun _ _ _ h => (by cases h), fun _ => ?_, fun c hc => absurd hc (hf c)⟩
    simpa [ReadReq.visited, readLoop] using hl
  | succ left =>
    refine ⟨?_, ?_, ?_, fun h => (by cases h), fun c hc => absurd hc (hf c)⟩
    · intro c hc
      rcases List.mem_cons.mp hc with rfl | hc
      · exact Nat.mod_lt _ hn
      · exact hr c hc
    · exact List.nodup_cons.mpr ⟨hfresh (by omega), hd⟩
    · rintro l c b h
      cases h
      simp only [ReadReq.visited, readLoop, List.length_cons, List.length_map]
      omega

theorem readLoop_children (left : Nat) (ch : Raid1IoChannel) :
    (readLoop left ch).1.children = ch.children := by
  cases left <;> rfl

theorem readResume_children (left : Nat) (b : Bool) (ch : Raid1IoChannel) :
    (readResume left b ch).1.children = ch.children := by
  unfold readResume
  split
  · rfl
  · exact readLoop_children left ch

theorem ReadReq.Sound.answer {n left c : Nat} {b : Bool} {r : ReadReq} (h : r.Sound n)
    (hp : r.phase = .awaiting left c none) :
    ReadReq.Sound n ⟨r.tried, .awaiting left c (some b)⟩ := by
  have hv : ReadReq.visited ⟨r.tried, .awaiting left c (some b)⟩ = r.visited := by
    simp [ReadReq.visited, hp]
  refine ⟨hv ▸ h.range, hv ▸ h.distinct, ?_, fun he => (by cases he), ?_⟩
  · rintro l d a he
    cases he
    rw [hv]
    exact h.budget _ _ _ hp
  · intro d hd
    have := h.failed d hd
    rw [hp] at this
    cases this

theorem ReadReq.Sound.resume {left c : Nat} {b : Bool} {r : ReadReq} {ch : Raid1IoChannel}
    (hn : 0 < ch.children) (h : r.Sound ch.children) (hp : r.phase = .awaiting left c (some b))
    (hfresh : b = false → left ≠ 0 → (ch.nextRead + 1) % ch.children ∉ r.visited) :
    ReadReq.Sound ch.children ⟨(c, b) :: r.tried, (readResume left b ch).2⟩ := by
  have hv : r.visited = ((c, b) :: r.tried).map Prod.fst := by simp [ReadReq.visited, hp]
  have hf : ∀ d, (d, true) ∉ r.tried := by
    intro d hd
    have := h.failed d hd
    rw [hp] at this
    cases this
  cases b with
  | true =>
    have hu : ReadReq.visited ⟨(c, true) :: r.tried, (readResume left true ch).2⟩ = r.visited :=
      hv.symm
    exact ⟨hu ▸ h.range, hu ▸ h.distinct, fun _ _ _ he => (by cases he), fun he => (by cases he),
      fun _ _ => rfl⟩
  | false =>
    have hl := h.budget _ _ _ hp
    rw [hv, List.length_map] at hl
    have hrange := h.range
    have hdist := h.distinct
    rw [hv] at hrange hdist hfresh
    exact readLoop_sound hn hrange hdist hl (fun d hd => hf d (by simpa using hd)) (hfresh rfl)

/-! ## Runs -/

structure Reads.Sound (n : Nat) (s : Reads) : Prop where
  children : s.ch.children = n
  reqs : ∀ r, r < s.count → (s.req r).Sound n
  unused : ∀ r, s.count ≤ r → (s.req r).phase = .completed .failure

theorem sound_new (n : Nat) : (Reads.new n).Sound n :=
  ⟨rfl, fun r hr => absurd hr (Nat.not_lt_zero r), fun _ _ => rfl⟩

/-- Replacing one request that is waiting by a sound one. -/
theorem Reads.Sound.update {n r left c : Nat} {a : Option Bool} {s : Reads} {ch : Raid1IoChannel}
    {q : ReadReq} (h : s.Sound n) (hp : (s.req r).phase = .awaiting left c a)
    (hch : ch.children = n) (hq : (s.req r).Sound n → q.Sound n) :
    Reads.Sound n ⟨ch, s.count, Function.update s.req r q⟩ := by
  have hr : r < s.count := by
    by_contra hle
    rw [h.unused r (by omega)] at hp
    cases hp
  refine ⟨hch, fun t ht => ?_, fun t ht => ?_⟩
  · by_cases he : t = r
    · subst he
      simpa using hq (h.reqs t ht)
    · simpa [Function.update_of_ne he] using h.reqs t ht
  · have he : t ≠ r := by have : s.count ≤ t := ht; omega
    simpa [Function.update_of_ne he] using h.unused t ht

theorem sound_next {n : Nat} (hn : 0 < n) {s u : Reads} {e : ReadEvent} (h : s.Sound n)
    (hf : FreshChild s e) (hx : next s e = some u) : u.Sound n := by
  cases e with
  | submit =>
    simp only [next, Option.some.injEq] at hx
    subst hx
    have hch := h.children
    subst hch
    have hq : ReadReq.Sound s.ch.children ⟨[], (read s.ch).2⟩ :=
      readLoop_sound hn (by simp) (by simp) (by simp) (by simp) (by simp)
    refine ⟨readLoop_children _ _, fun r hr => ?_, fun r hr => ?_⟩
    · by_cases he : r = s.count
      · simpa [he] using hq
      · have hr : r < s.count + 1 := hr
        simpa [Function.update_of_ne he] using h.reqs r (by omega)
    · have hr : s.count + 1 ≤ r := hr
      have he : r ≠ s.count := by omega
      simpa [Function.update_of_ne he] using h.unused r (by omega)
  | childDone r b =>
    simp only [next] at hx
    split at hx
    · rename_i left c hp
      cases hx
      exact h.update hp h.children (fun hq => hq.answer hp)
    · cases hx
  | resume r =>
    simp only [next] at hx
    split at hx
    · rename_i left c b hp
      cases hx
      have hch := h.children
      subst hch
      refine h.update hp (readResume_children _ _ _) (fun hq => hq.resume hn hp ?_)
      rintro rfl hl
      obtain ⟨left, rfl⟩ := Nat.exists_eq_succ_of_ne_zero hl
      simpa [FreshChild, hp] using hf
    · cases hx

/-- A request that gave up has been refused by every child. -/
theorem ReadReq.Sound.all_failed {n : Nat} {r : ReadReq} (h : r.Sound n)
    (hp : r.phase = .completed .failure) {c : Nat} (hc : c < n) : (c, false) ∈ r.tried := by
  have hsub : r.visited ⊆ List.range n := fun d hd => List.mem_range.mpr (h.range d hd)
  have hperm : r.visited.Perm (List.range n) :=
    (h.distinct.subperm hsub).perm_of_length_le (by simp [h.exhausted hp])
  have hmem : c ∈ r.visited := hperm.mem_iff.mpr (List.mem_range.mpr hc)
  simp only [ReadReq.visited, hp, List.mem_map] at hmem
  obtain ⟨⟨d, b⟩, hb, rfl⟩ := hmem
  cases b with
  | false => exact hb
  | true =>
    have := h.failed _ hb
    rw [hp] at this
    cases this

/-- **When RAID1 reads fall back to every child.** In any run of concurrent reads on a
channel with `n` children in which each retry finds the cursor at a child its request
has not tried, a request completes with `Failure` only after all `n` children failed it;
so if one child fails no read, every request either waits for a child read, with fewer
than `n` answered, or has completed with `Success`. -/
theorem read_fails_only_if_all_fail {n : Nat} (hn : 0 < n) {es : List ReadEvent} {s : Reads}
    (h : run next (Reads.new n) es = some s) (ha : Along next FreshChild (Reads.new n) es) :
    (∀ r < s.count, (s.req r).phase = .completed .failure →
        ∀ c < n, (c, false) ∈ (s.req r).tried) ∧
      ∀ c < n, (∀ r < s.count, (c, false) ∉ (s.req r).tried) → ∀ r < s.count,
        (s.req r).phase = .completed .success ∨
          ∃ left d a, (s.req r).phase = .awaiting left d a ∧ (s.req r).tried.length < n := by
  have hs : s.Sound n :=
    run_invariant (sound_new n) (fun _ _ _ h hf hx => sound_next hn h hf hx) h ha
  have hall : ∀ r < s.count, (s.req r).phase = .completed .failure →
      ∀ c < n, (c, false) ∈ (s.req r).tried :=
    fun r hr hp c hc => (hs.reqs r hr).all_failed hp hc
  refine ⟨hall, fun c hc hok r hr => ?_⟩
  cases hp : (s.req r).phase with
  | awaiting left d a =>
    have hb := (hs.reqs r hr).budget left d a hp
    simp only [ReadReq.visited, hp, List.length_cons, List.length_map] at hb
    exact Or.inr ⟨left, d, a, rfl, by omega⟩
  | completed st =>
    cases st with
    | success => exact Or.inl rfl
    | failure => exact absurd (hall r hr hp c hc) (hok r hr)

/-- Reads of a two-way mirror that overlap, the retry finding the other child. -/
def overlapping : List ReadEvent :=
  [.submit, .childDone 0 false, .submit, .childDone 1 true, .submit, .childDone 2 false,
   .resume 0, .resume 1, .childDone 0 true]

theorem read_fails_only_if_all_fail_overlapping :
    Along next FreshChild (Reads.new 2) overlapping ∧
      ∀ s, run next (Reads.new 2) overlapping = some s → ∀ r < s.count,
        (s.req r).phase = .completed .failure → ∀ c < 2, (c, false) ∈ (s.req r).tried :=
  have ha : Along next FreshChild (Reads.new 2) overlapping := by decide
  ⟨ha, fun _ hs => (read_fails_only_if_all_fail (by decide) hs ha).1⟩

/-- Child 1 fails and child 0 works. The second read moves the cursor past child 0, so
the first one tries child 1 twice and completes with `Failure`. -/
theorem read_fails_with_working_child : ∃ s, run next (Reads.new 2)
      [.submit, .submit, .childDone 0 false, .resume 0, .childDone 1 true, .resume 1,
       .childDone 0 false, .resume 0] = some s ∧
    s.req 0 = ⟨[(1, false), (1, false)], .completed .failure⟩ ∧
    s.req 1 = ⟨[(0, true)], .completed .success⟩ ∧ (0, false) ∉ (s.req 0).tried := by
  refine ⟨(run next (Reads.new 2) _).get (by decide), (Option.some_get _).symm, ?_, ?_, ?_⟩ <;>
    decide

/-! ## Reads that leave each other's cursor alone -/

/-- A request that moves on finds the cursor where it left it. -/
def CursorKept (s : Reads) : ReadEvent → Prop
  | .resume r => ∀ left c, (s.req r).phase = .awaiting left c (some false) → s.ch.nextRead = c
  | _ => True

/-- The children are visited in turn. -/
def InTurn (n : Nat) (cs : List Nat) : Prop := cs.IsChain (fun c d => c = (d + 1) % n)

theorem InTurn.back {n c : Nat} {cs : List Nat} (h : InTurn n (c :: cs)) {i : Nat}
    (hi : i < (c :: cs).length) : (c :: cs)[i] + i ≡ c [MOD n] := by
  induction i with
  | zero => exact Nat.ModEq.refl _
  | succ i ih =>
    have hstep := List.isChain_iff_getElem.mp h i hi
    have hmod : (c :: cs)[i] ≡ (c :: cs)[i + 1] + 1 [MOD n] := by
      rw [hstep]; exact Nat.mod_modEq _ _
    have := (hmod.symm.add_right i).trans (ih (by omega))
    rwa [Nat.add_assoc, Nat.add_comm 1 i] at this

/-- Going round, the next child is a new one until all have been visited. -/
theorem InTurn.next_fresh {n c : Nat} {cs : List Nat} (h : InTurn n (c :: cs))
    (hl : (c :: cs).length < n) : (c + 1) % n ∉ c :: cs := by
  intro hm
  obtain ⟨i, hi, he⟩ := List.mem_iff_getElem.mp hm
  have hb := h.back hi
  rw [he] at hb
  have h0 : c + (i + 1) ≡ c + 0 [MOD n] := by
    have := ((Nat.mod_modEq (c + 1) n).add_right i).symm.trans hb
    rwa [Nat.add_assoc, Nat.add_comm 1 i] at this
  have h1 : i + 1 ≡ 0 [MOD n] := Nat.ModEq.add_left_cancel' c h0
  have h2 : (i + 1) % n = 0 % n := h1
  rw [Nat.mod_eq_of_lt (by omega), Nat.zero_mod] at h2
  omega

/-- Every request goes round the children in turn. -/
def Reads.InTurn (n : Nat) (s : Reads) : Prop :=
  ∀ r < s.count, Raid1.InTurn n (s.req r).visited

theorem fresh_of_cursor_kept {n : Nat} {s : Reads} {e : ReadEvent} (h : s.Sound n)
    (ht : s.InTurn n) (hk : CursorKept s e) : FreshChild s e := by
  cases e with
  | submit => trivial
  | childDone r b => trivial
  | resume r =>
    simp only [FreshChild]
    split
    · rename_i left c hp
      have hr : r < s.count := by
        by_contra hle
        rw [h.unused r (by omega)] at hp
        cases hp
      have hv : (s.req r).visited = c :: (s.req r).tried.map Prod.fst := by
        simp [ReadReq.visited, hp]
      have hb := (h.reqs r hr).budget _ _ _ hp
      have hturn := ht r hr
      rw [hv] at hb hturn ⊢
      rw [hk _ _ hp, h.children]
      exact hturn.next_fresh (by omega)
    · trivial

theorem in_turn_next {n : Nat} {s u : Reads} {e : ReadEvent} (h : s.Sound n) (ht : s.InTurn n)
    (hk : CursorKept s e) (hx : next s e = some u) : u.InTurn n := by
  have update : ∀ {r : Nat} {ch : Raid1IoChannel} {q : ReadReq},
      (r < s.count → Raid1.InTurn n q.visited) →
      Reads.InTurn n ⟨ch, s.count, Function.update s.req r q⟩ := by
    intro r ch q hq t htc
    by_cases he : t = r
    · subst he
      simpa using hq htc
    · simpa [Function.update_of_ne he] using ht t htc
  cases e with
  | submit =>
    simp only [next, Option.some.injEq] at hx
    subst hx
    intro t htc
    by_cases he : t = s.count
    · have : ReadReq.visited ⟨[], (read s.ch).2⟩ = [] ∨
          ∃ c, ReadReq.visited ⟨[], (read s.ch).2⟩ = [c] := by
        unfold read readLoop
        split
        · exact Or.inl rfl
        · exact Or.inr ⟨_, rfl⟩
      rcases this with hv | ⟨c, hv⟩ <;> simp [he, hv, Raid1.InTurn]
    · have htc : t < s.count + 1 := htc
      simpa [Function.update_of_ne he] using ht t (by omega)
  | childDone r b =>
    simp only [next] at hx
    split at hx
    · rename_i left c hp
      cases hx
      exact update fun hr => by simpa [ReadReq.visited, hp] using ht r hr
    · cases hx
  | resume r =>
    simp only [next] at hx
    split at hx
    · rename_i left c b hp
      cases hx
      refine update fun hr => ?_
      have hturn := ht r hr
      simp only [ReadReq.visited, hp] at hturn
      cases b with
      | true => exact hturn
      | false =>
        cases left with
        | zero => exact hturn
        | succ left =>
          refine List.isChain_cons_cons.mpr ⟨?_, hturn⟩
          rw [hk _ _ hp, h.children]
    · cases hx

/-- Reads that do not move the cursor between two attempts of another read never bring
one back to a child it has tried; reads made one after another are of this kind. -/
theorem along_fresh_of_cursor_kept {n : Nat} (hn : 0 < n) {es : List ReadEvent}
    (ha : Along next CursorKept (Reads.new n) es) : Along next FreshChild (Reads.new n) es :=
  along_of_invariant (I := fun s => s.Sound n ∧ s.InTurn n)
    (fun _ _ _ h hk hx => ⟨sound_next hn h.1 (fresh_of_cursor_kept h.1 h.2 hk) hx,
      in_turn_next h.1 h.2 hk hx⟩)
    (fun _ _ _ h hk _ => fresh_of_cursor_kept h.1 h.2 hk)
    ⟨sound_new n, fun r hr => absurd hr (Nat.not_lt_zero r)⟩ ha

end Ironspdk.Raid1
