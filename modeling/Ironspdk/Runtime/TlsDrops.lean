import Ironspdk.Runtime.Tls

/-! # Destructors that use the storage

`Tls::clear_slot` calls the drop function of a slot before it empties it, and the value's
destructor may come back to the storage from there. Calls are taken apart at that point: a
frame on the stack is a `clear_slot` whose destructor runs, with what its caller does next.
Every stored value is a box of its own, known by its number. -/
namespace Ironspdk.Runtime
open Ironspdk.Lib

variable {ι : Type}

/-- What follows a `clear_slot`: the store of `set`, nothing, or the `n` slots that `clear_all`
has left. -/
inductive AfterClear (ι : Type)
  | set (key : TlsKey ι)
  | clear
  | clearAll (n : Nat)

structure Frame (ι : Type) where
  index : Nat
  after : AfterClear ι

/-- `slots` and `drop_fns`, with the types of the boxes made so far, the calls of drop
functions, oldest first, and the stack. `down` says that `Tcb::shutdown` has begun. -/
structure TlsCalls (ι : Type) where
  slots : Nat → Option Nat
  dropFns : Nat → Option ι
  boxes : List ι
  started : List (Nat × ι)
  frames : List (Frame ι)
  down : Bool

namespace TlsCalls

def new : TlsCalls ι := ⟨fun _ => none, fun _ => none, [], [], [], false⟩

/-- The end of `set`. -/
def store (key : TlsKey ι) (s : TlsCalls ι) : TlsCalls ι :=
  { s with
    slots := Function.update s.slots key.slot (some s.boxes.length)
    dropFns := Function.update s.dropFns key.slot (some key.type)
    boxes := s.boxes ++ [key.type] }

/-- The end of `clear_slot`. -/
def empty (index : Nat) (s : TlsCalls ι) : TlsCalls ι :=
  { s with
    slots := Function.update s.slots index none
    dropFns := Function.update s.dropFns index none }

/-- The call of a drop function. -/
def enter (f : Frame ι) (ptr : Nat) (dropFn : ι) (s : TlsCalls ι) : TlsCalls ι :=
  { s with started := s.started ++ [(ptr, dropFn)], frames := f :: s.frames }

/-- `clear_slot`, up to the call of the drop function; without one `resume` follows at once. -/
def clearSlot (f : Frame ι) (resume : TlsCalls ι → TlsCalls ι) (s : TlsCalls ι) : TlsCalls ι :=
  match s.slots f.index with
  | none => resume s
  | some ptr =>
    match s.dropFns f.index with
    | none => resume (s.empty f.index)
    | some dropFn => s.enter f ptr dropFn

/-- The last `n` iterations of `clear_all`. -/
def clearAll : Nat → TlsCalls ι → TlsCalls ι
  | 0, s => s
  | n + 1, s => s.clearSlot ⟨tlsSlots - (n + 1), .clearAll n⟩ (clearAll n)

def resume : AfterClear ι → TlsCalls ι → TlsCalls ι
  | .set key, s => s.store key
  | .clear, s => s
  | .clearAll n, s => s.clearAll n

end TlsCalls

/-- Calls through a key, of the program or of a destructor; `clear_all`; `Tcb::shutdown`, as far
as the storage goes; the return of the innermost destructor. -/
inductive TlsCall (ι : Type)
  | set (key : TlsKey ι)
  | get (key : TlsKey ι)
  | clear (key : TlsKey ι)
  | clearAll
  | shutdown
  | ret

namespace TlsCalls

/-- The thread runs code that can use its keys: before the shutdown, or inside a destructor. -/
def Live (s : TlsCalls ι) : Prop := s.frames ≠ [] ∨ s.down = false

instance (s : TlsCalls ι) : Decidable s.Live :=
  decidable_of_iff (s.frames.isEmpty = false ∨ s.down = false) (by
    cases hs : s.frames <;> simp [Live, hs])

def next (s : TlsCalls ι) : TlsCall ι → Option (TlsCalls ι)
  | .set key => if s.Live then some (s.clearSlot ⟨key.slot, .set key⟩ (store key)) else none
  | .get _ => if s.Live then some s else none
  | .clear key => if s.Live then some (s.clearSlot ⟨key.slot, .clear⟩ id) else none
  | .clearAll =>
    if s.frames.isEmpty ∧ s.down = false then some (s.clearAll tlsSlots) else none
  | .shutdown =>
    if s.frames.isEmpty ∧ s.down = false then some ({ s with down := true }.clearAll tlsSlots)
    else none
  | .ret =>
    match s.frames with
    | [] => none
    | f :: fs => some (({ s with frames := fs }.empty f.index).resume f.after)

/-! ## What holds while no destructor meddles -/

/-- The boxes whose destructor has started. -/
def dropped (s : TlsCalls ι) : List Nat := s.started.map Prod.fst

/-- The slots that are being cleared. -/
def clearing (s : TlsCalls ι) : List Nat := s.frames.map Frame.index

/-- A frame goes on with the slot it clears. -/
def Fits (f : Frame ι) : Prop :=
  match f.after with
  | .set key => key.slot = f.index
  | .clear => f.index < tlsSlots
  | .clearAll n => n < tlsSlots ∧ f.index = tlsSlots - (n + 1)

theorem Fits.index_lt {f : Frame ι} (h : Fits f) : f.index < tlsSlots := by
  unfold Fits at h
  split at h
  · rename_i key _
    exact h ▸ key.slot_lt
  · exact h
  · omega

/-- Every box is in one slot, or its destructor has started; of those only the ones whose slot
is being cleared are still in it. -/
structure Sound (s : TlsCalls ι) : Prop where
  once : s.dropped.Nodup
  own : ∀ d ∈ s.started, s.boxes[d.1]? = some d.2
  filled : ∀ i ptr, s.slots i = some ptr → ∃ f, s.boxes[ptr]? = some f ∧ s.dropFns i = some f
  apart : ∀ i j ptr, s.slots i = some ptr → s.slots j = some ptr → i = j
  dying : ∀ i ptr, s.slots i = some ptr → (ptr ∈ s.dropped ↔ i ∈ s.clearing)
  full : ∀ i ∈ s.clearing, s.slots i ≠ none
  nested : s.clearing.Nodup
  fits : ∀ f ∈ s.frames, Fits f
  bottom : ∀ f ∈ s.frames.dropLast, ∀ n, f.after ≠ .clearAll n
  kept : ∀ p < s.boxes.length, p ∈ s.dropped ∨ ∃ i < tlsSlots, s.slots i = some p

theorem sound_new : (new : TlsCalls ι).Sound := by
  refine ⟨List.nodup_nil, ?_, ?_, ?_, ?_, ?_, List.nodup_nil, ?_, ?_, ?_⟩ <;>
    simp [new, clearing]

variable {s u : TlsCalls ι}

theorem Sound.store (h : s.Sound) {key : TlsKey ι} (hnone : s.slots key.slot = none) :
    (s.store key).Sound := by
  have hfresh : ∀ i ptr, s.slots i = some ptr → ptr < s.boxes.length := by
    intro i ptr hptr
    obtain ⟨f, hf, _⟩ := h.filled i ptr hptr
    exact (List.getElem?_eq_some_iff.mp hf).1
  have hslot : ∀ i ptr, (s.store key).slots i = some ptr →
      i = key.slot ∧ ptr = s.boxes.length ∨ i ≠ key.slot ∧ s.slots i = some ptr := by
    intro i ptr hptr
    simp only [TlsCalls.store] at hptr
    by_cases hi : i = key.slot
    · rw [hi, Function.update_self] at hptr
      exact Or.inl ⟨hi, (Option.some.inj hptr).symm⟩
    · rw [Function.update_of_ne hi] at hptr
      exact Or.inr ⟨hi, hptr⟩
  have hidle : key.slot ∉ s.clearing := fun hmem => h.full _ hmem hnone
  refine ⟨h.once, fun d hd => ?_, fun i ptr hptr => ?_, fun i j ptr hi hj => ?_,
    fun i ptr hptr => ?_, fun i hi => ?_, h.nested, h.fits, h.bottom, fun p hp => ?_⟩
  · have hd := h.own d hd
    have hlt := (List.getElem?_eq_some_iff.mp hd).1
    simpa only [TlsCalls.store, List.getElem?_append_left hlt] using hd
  · rcases hslot i ptr hptr with ⟨rfl, rfl⟩ | ⟨hi, hptr⟩
    · exact ⟨key.type, by simp [TlsCalls.store], by simp [TlsCalls.store]⟩
    · obtain ⟨f, hf, hfn⟩ := h.filled i ptr hptr
      refine ⟨f, ?_, ?_⟩
      · simpa only [TlsCalls.store, List.getElem?_append_left (hfresh i ptr hptr)] using hf
      · simpa only [TlsCalls.store, Function.update_of_ne hi] using hfn
  · rcases hslot i ptr hi with ⟨rfl, rfl⟩ | ⟨hne, hi⟩
    · rcases hslot j _ hj with ⟨rfl, _⟩ | ⟨_, hj⟩
      · rfl
      · exact absurd (hfresh j _ hj) (Nat.lt_irrefl _)
    · rcases hslot j ptr hj with ⟨rfl, rfl⟩ | ⟨_, hj⟩
      · exact absurd (hfresh i _ hi) (Nat.lt_irrefl _)
      · exact h.apart i j ptr hi hj
  · rcases hslot i ptr hptr with ⟨rfl, rfl⟩ | ⟨_, hptr⟩
    · refine iff_of_false (fun hmem => ?_) hidle
      obtain ⟨d, hd, heq⟩ := List.mem_map.mp hmem
      have hlt := (List.getElem?_eq_some_iff.mp (h.own d hd)).1
      omega
    · exact h.dying i ptr hptr
  · have hne : i ≠ key.slot := fun he => hidle (he ▸ hi)
    simpa only [TlsCalls.store, Function.update_of_ne hne] using h.full i hi
  · simp only [TlsCalls.store, List.length_append, List.length_singleton] at hp
    rcases Nat.lt_or_ge p s.boxes.length with hlt | hge
    · rcases h.kept p hlt with hdropped | ⟨i, hi, hslots⟩
      · exact Or.inl hdropped
      · have hne : i ≠ key.slot := fun he => by rw [he, hnone] at hslots; cases hslots
        refine Or.inr ⟨i, hi, ?_⟩
        simpa only [TlsCalls.store, Function.update_of_ne hne] using hslots
    · have hp : p = s.boxes.length := by omega
      exact Or.inr ⟨key.slot, key.slot_lt, by simp [TlsCalls.store, hp]⟩

/-- The destructor of an idle slot is called. -/
theorem Sound.enter (h : s.Sound) {f : Frame ι} {ptr : Nat} {dropFn : ι} (hfits : Fits f)
    (hidle : f.index ∉ s.clearing) (hbottom : s.frames ≠ [] → ∀ n, f.after ≠ .clearAll n)
    (hslot : s.slots f.index = some ptr) (hfn : s.dropFns f.index = some dropFn) :
    (s.enter f ptr dropFn).Sound := by
  have hdropped : (s.enter f ptr dropFn).dropped = s.dropped ++ [ptr] := by
    simp [TlsCalls.enter, dropped]
  have hnew : ptr ∉ s.dropped := fun hmem => hidle ((h.dying _ _ hslot).mp hmem)
  refine ⟨?_, fun d hd => ?_, h.filled, h.apart, fun i p hp => ?_, fun i hi => ?_,
    List.nodup_cons.mpr ⟨hidle, h.nested⟩, fun g hg => ?_, fun g hg => ?_, fun p hp => ?_⟩
  · rw [hdropped]
    exact List.concat_eq_append ▸ h.once.concat hnew
  · rcases List.mem_append.mp hd with hd | hd
    · exact h.own d hd
    · rw [List.mem_singleton.mp hd]
      obtain ⟨g, hg, hgfn⟩ := h.filled _ _ hslot
      cases hgfn.symm.trans hfn
      exact hg
  · have hsame : p = ptr ↔ i = f.index :=
      ⟨fun he => h.apart i f.index ptr (he ▸ hp) hslot,
        fun he => Option.some.inj (hp.symm.trans (he ▸ hslot))⟩
    have hold := h.dying i p hp
    simp only [hdropped, List.mem_append, List.mem_singleton, hsame, hold]
    simp only [TlsCalls.enter, clearing, List.map_cons, List.mem_cons]
    exact or_comm
  · rcases List.mem_cons.mp hi with rfl | hi
    · intro hnone
      rw [TlsCalls.enter, hslot] at hnone
      cases hnone
    · exact h.full i hi
  · rcases List.mem_cons.mp hg with rfl | hg
    · exact hfits
    · exact h.fits g hg
  · cases hfs : s.frames with
    | nil =>
      rw [TlsCalls.enter, hfs] at hg
      cases hg
    | cons g' gs =>
      rw [TlsCalls.enter, List.dropLast_cons_of_ne_nil (by rw [hfs]; exact List.cons_ne_nil _ _)]
        at hg
      rcases List.mem_cons.mp hg with rfl | hg
      · exact hbottom (by rw [hfs]; exact List.cons_ne_nil _ _)
      · exact h.bottom g hg
  · rw [hdropped]
    exact (h.kept p hp).imp_left (List.mem_append_left _)

/-- The innermost destructor returns. -/
theorem Sound.leave (h : s.Sound) {f : Frame ι} {fs : List (Frame ι)} (hs : s.frames = f :: fs) :
    ({ s with frames := fs }.empty f.index).Sound := by
  have hnested := h.nested
  have hclearing : s.clearing = f.index :: fs.map Frame.index := by rw [clearing, hs]; rfl
  rw [hclearing, List.nodup_cons] at hnested
  have hslot : ∀ i ptr, ({ s with frames := fs }.empty f.index).slots i = some ptr →
      i ≠ f.index ∧ s.slots i = some ptr := by
    intro i ptr hptr
    simp only [TlsCalls.empty] at hptr
    by_cases hi : i = f.index
    · rw [hi, Function.update_self] at hptr
      cases hptr
    · rw [Function.update_of_ne hi] at hptr
      exact ⟨hi, hptr⟩
  have hmem : ∀ g ∈ fs, g ∈ s.frames := fun g hg => hs ▸ List.mem_cons_of_mem f hg
  refine ⟨h.once, h.own, fun i ptr hptr => ?_, fun i j ptr hi hj => ?_, fun i ptr hptr => ?_,
    fun i hi => ?_, hnested.2, fun g hg => h.fits g (hmem g hg), fun g hg => ?_,
    fun p hp => ?_⟩
  · obtain ⟨hi, hptr⟩ := hslot i ptr hptr
    obtain ⟨g, hg, hgfn⟩ := h.filled i ptr hptr
    exact ⟨g, hg, by simpa only [TlsCalls.empty, Function.update_of_ne hi] using hgfn⟩
  · exact h.apart i j ptr (hslot i ptr hi).2 (hslot j ptr hj).2
  · obtain ⟨hi, hptr⟩ := hslot i ptr hptr
    have hold := h.dying i ptr hptr
    rw [hclearing, List.mem_cons, or_iff_right hi] at hold
    exact hold
  · have hne : i ≠ f.index := fun he => hnested.1 (he ▸ hi)
    have hfull := h.full i (by rw [hclearing]; exact List.mem_cons_of_mem _ hi)
    simpa only [TlsCalls.empty, Function.update_of_ne hne] using hfull
  · have hne : fs ≠ [] := fun he => by rw [TlsCalls.empty, he] at hg; cases hg
    refine h.bottom g ?_
    rw [hs, List.dropLast_cons_of_ne_nil hne]
    exact List.mem_cons_of_mem f hg
  · rcases h.kept p hp with hdropped | ⟨i, hi, hptr⟩
    · exact Or.inl hdropped
    · by_cases he : i = f.index
      · refine Or.inl ((h.dying i p hptr).mpr ?_)
        rw [hclearing, he]
        exact List.mem_cons_self
      · refine Or.inr ⟨i, hi, ?_⟩
        simpa only [TlsCalls.empty, Function.update_of_ne he] using hptr

/-- What `clear_slot` does to a slot that is not being cleared. -/
theorem Sound.clearSlot_cases (h : s.Sound) {f : Frame ι} (hidle : f.index ∉ s.clearing)
    (resume : TlsCalls ι → TlsCalls ι) :
    s.slots f.index = none ∧ s.clearSlot f resume = resume s ∨
      ∃ ptr dropFn, s.slots f.index = some ptr ∧ s.dropFns f.index = some dropFn ∧
        ptr ∉ s.dropped ∧ s.clearSlot f resume = s.enter f ptr dropFn := by
  unfold clearSlot
  cases hslot : s.slots f.index with
  | none => exact Or.inl ⟨rfl, rfl⟩
  | some ptr =>
    obtain ⟨dropFn, _, hfn⟩ := h.filled _ _ hslot
    have hnew : ptr ∉ s.dropped := fun hmem => hidle ((h.dying _ _ hslot).mp hmem)
    exact Or.inr ⟨ptr, dropFn, rfl, hfn, hnew, by simp only [hfn]⟩

/-! ## The shutdown -/

/-- The slot `clear_all` has come to, the first destructor on the stack being one of its calls. -/
def position (s : TlsCalls ι) : Nat :=
  match s.frames.getLast? with
  | some ⟨_, .clearAll n⟩ => tlsSlots - (n + 1)
  | _ => tlsSlots

/-- The slots before `p` are empty. -/
def Swept (s : TlsCalls ι) (p : Nat) : Prop := ∀ i < p, s.slots i = none

/-- In the shutdown the slots behind `clear_all` are empty. -/
structure Inv (s : TlsCalls ι) : Prop where
  sound : s.Sound
  swept : s.down = true → s.Swept s.position

theorem position_push {f : Frame ι} {ptr : Nat} {dropFn : ι} (h : s.frames ≠ []) :
    (s.enter f ptr dropFn).position = s.position := by
  unfold position enter
  cases hs : s.frames with
  | nil => exact absurd hs h
  | cons g gs => rw [List.getLast?_cons_cons]

theorem clearAll_inv {n : Nat} (h : s.Sound) (hframes : s.frames = []) (hn : n ≤ tlsSlots)
    (hswept : s.down = true → s.Swept (tlsSlots - n)) : (s.clearAll n).Inv := by
  induction n with
  | zero =>
    refine ⟨h, fun hdown => ?_⟩
    simp only [clearAll, position, hframes, List.getLast?_nil]
    exact hswept hdown
  | succ n ih =>
    have hidle : tlsSlots - (n + 1) ∉ s.clearing := by simp [clearing, hframes]
    rcases h.clearSlot_cases (f := ⟨tlsSlots - (n + 1), .clearAll n⟩) hidle (clearAll n) with
      ⟨hnone, heq⟩ | ⟨ptr, dropFn, hslot, hfn, _, heq⟩
    · rw [clearAll, heq]
      refine ih (Nat.le_of_succ_le hn) fun hdown i hi => ?_
      rcases Nat.lt_or_ge i (tlsSlots - (n + 1)) with hlt | hge
      · exact hswept hdown i hlt
      · have hi : i = tlsSlots - (n + 1) := by omega
        exact hi ▸ hnone
    · rw [clearAll, heq]
      refine ⟨h.enter ⟨hn, rfl⟩ hidle (fun hne => absurd hframes hne) hslot hfn, fun hdown => ?_⟩
      simp only [position, enter, hframes, List.getLast?_singleton]
      exact hswept hdown

/-- The call leaves alone the slots that are being cleared. -/
def Apart (s : TlsCalls ι) : TlsCall ι → Prop
  | .set key | .get key | .clear key => key.slot ∉ s.clearing
  | .clearAll | .shutdown | .ret => True

/-- In the shutdown nothing is set into a slot behind `clear_all`. -/
def Ahead (s : TlsCalls ι) : TlsCall ι → Prop
  | .set key => s.down = true → s.position ≤ key.slot
  | .get _ | .clear _ | .clearAll | .shutdown | .ret => True

instance (s : TlsCalls ι) : (e : TlsCall ι) → Decidable (s.Apart e)
  | .set _ | .get _ | .clear _ => inferInstanceAs (Decidable (_ ∉ _))
  | .clearAll | .shutdown | .ret => isTrue trivial

instance (s : TlsCalls ι) : (e : TlsCall ι) → Decidable (s.Ahead e)
  | .set _ => inferInstanceAs (Decidable (_ → _))
  | .get _ | .clear _ | .clearAll | .shutdown | .ret => isTrue trivial

theorem Live.push (hlive : s.Live) (hdown : s.down = true) : s.frames ≠ [] := by
  rcases hlive with hne | hup
  · exact hne
  · rw [hdown] at hup
    cases hup

theorem Inv.clearSlot (h : s.Inv) (hlive : s.Live) {f : Frame ι} (hfits : Fits f)
    (hidle : f.index ∉ s.clearing) (hnot : ∀ n, f.after ≠ .clearAll n)
    {resume : TlsCalls ι → TlsCalls ι} (hresume : s.slots f.index = none → (resume s).Inv) :
    (s.clearSlot f resume).Inv := by
  rcases h.sound.clearSlot_cases hidle resume with ⟨hnone, heq⟩ | ⟨ptr, dropFn, hslot, hfn, _, heq⟩
  · rw [heq]
    exact hresume hnone
  · rw [heq]
    refine ⟨h.sound.enter hfits hidle (fun _ => hnot) hslot hfn, fun hdown => ?_⟩
    rw [position_push (hlive.push hdown)]
    exact h.swept hdown

theorem Inv.store (h : s.Inv) {key : TlsKey ι} (hnone : s.slots key.slot = none)
    (hahead : s.down = true → s.position ≤ key.slot) : (s.store key).Inv := by
  refine ⟨h.sound.store hnone, fun hdown i hi => ?_⟩
  have hne : i ≠ key.slot := fun he => Nat.not_lt.mpr (hahead hdown) (he ▸ hi)
  simpa only [TlsCalls.store, Function.update_of_ne hne] using h.swept hdown i hi

theorem empty_self (s : TlsCalls ι) (i : Nat) : (s.empty i).slots i = none :=
  Function.update_self ..

theorem empty_none {i j : Nat} (h : s.slots i = none) : (s.empty j).slots i = none := by
  by_cases he : i = j
  · rw [he, empty_self]
  · simpa only [TlsCalls.empty, Function.update_of_ne he] using h

/-- The bottom of the stack in a shutdown is a call of `clear_all`. -/
theorem Inv.under (h : s.Inv) {f : Frame ι} {fs : List (Frame ι)} (hs : s.frames = f :: fs)
    (hnot : ∀ n, f.after ≠ .clearAll n) (hdown : s.down = true) :
    fs ≠ [] ∧ s.position ≤ f.index := by
  have hfits := h.sound.fits f (by rw [hs]; exact List.mem_cons_self)
  have hfull := h.sound.full f.index (by rw [clearing, hs]; exact List.mem_cons_self)
  have hbehind : s.position ≤ f.index :=
    Nat.le_of_not_lt fun hlt => hfull (h.swept hdown f.index hlt)
  refine ⟨fun he => ?_, hbehind⟩
  have hend : s.position = tlsSlots := by
    unfold position
    rw [hs, he, List.getLast?_singleton]
    split
    · rename_i n heq
      cases heq
      exact absurd rfl (hnot n)
    · rfl
  exact Nat.not_lt.mpr (hend ▸ hbehind) hfits.index_lt

theorem position_leave {f : Frame ι} {fs : List (Frame ι)} (hs : s.frames = f :: fs)
    (hne : fs ≠ []) : ({ s with frames := fs }.empty f.index).position = s.position := by
  obtain ⟨g, gs, rfl⟩ := List.exists_cons_of_ne_nil hne
  simp only [position, TlsCalls.empty, hs, List.getLast?_cons_cons]

theorem Inv.leave (h : s.Inv) {f : Frame ι} {fs : List (Frame ι)} (hs : s.frames = f :: fs)
    (hnot : ∀ n, f.after ≠ .clearAll n) : ({ s with frames := fs }.empty f.index).Inv := by
  refine ⟨h.sound.leave hs, fun hdown => ?_⟩
  rw [position_leave hs (h.under hs hnot hdown).1]
  exact fun i hi => empty_none (h.swept hdown i hi)

theorem Inv.ret (h : s.Inv) {f : Frame ι} {fs : List (Frame ι)} (hs : s.frames = f :: fs) :
    (({ s with frames := fs }.empty f.index).resume f.after).Inv := by
  have hfits := h.sound.fits f (by rw [hs]; exact List.mem_cons_self)
  cases hafter : f.after with
  | clear => exact h.leave hs (by simp [hafter])
  | set key =>
    simp only [Fits, hafter] at hfits
    refine (h.leave hs (by simp [hafter])).store (hfits ▸ empty_self _ _) fun hdown => ?_
    obtain ⟨hne, hbehind⟩ := h.under hs (by simp [hafter]) hdown
    rw [position_leave hs hne, hfits]
    exact hbehind
  | clearAll n =>
    simp only [Fits, hafter] at hfits
    have hbottom : fs = [] := by
      by_contra hne
      refine h.sound.bottom f ?_ n hafter
      rw [hs, List.dropLast_cons_of_ne_nil hne]
      exact List.mem_cons_self
    refine clearAll_inv (h.sound.leave hs) hbottom (Nat.le_of_lt hfits.1) fun hdown i hi => ?_
    have hposition : s.position = tlsSlots - (n + 1) := by
      unfold position
      obtain ⟨index, after⟩ := f
      cases hafter
      rw [hs, hbottom, List.getLast?_singleton]
    rcases Nat.lt_or_ge i (tlsSlots - (n + 1)) with hlt | hge
    · exact empty_none (h.swept hdown i (by rw [hposition]; exact hlt))
    · have hi : i = f.index := by omega
      rw [hi, empty_self]

theorem inv_next {e : TlsCall ι} (h : s.Inv) (hapart : s.Apart e) (hahead : s.Ahead e)
    (hn : next s e = some u) : u.Inv := by
  cases e with
  | set key =>
    simp only [next, Option.ite_none_right_eq_some, Option.some.injEq] at hn
    obtain ⟨hlive, rfl⟩ := hn
    exact h.clearSlot (f := ⟨key.slot, .set key⟩) hlive rfl hapart (by simp)
      fun hnone => h.store hnone hahead
  | get key =>
    simp only [next, Option.ite_none_right_eq_some, Option.some.injEq] at hn
    exact hn.2 ▸ h
  | clear key =>
    simp only [next, Option.ite_none_right_eq_some, Option.some.injEq] at hn
    obtain ⟨hlive, rfl⟩ := hn
    exact h.clearSlot (f := ⟨key.slot, .clear⟩) hlive key.slot_lt hapart (by simp) fun _ => h
  | clearAll =>
    simp only [next, Option.ite_none_right_eq_some, Option.some.injEq] at hn
    obtain ⟨⟨hframes, hup⟩, rfl⟩ := hn
    refine clearAll_inv h.sound (List.isEmpty_iff.mp hframes) (Nat.le_refl _) fun hdown => ?_
    rw [hup] at hdown
    cases hdown
  | shutdown =>
    simp only [next, Option.ite_none_right_eq_some, Option.some.injEq] at hn
    obtain ⟨⟨hframes, _⟩, rfl⟩ := hn
    have hsound : ({ s with down := true } : TlsCalls ι).Sound :=
      ⟨h.sound.once, h.sound.own, h.sound.filled, h.sound.apart, h.sound.dying, h.sound.full,
        h.sound.nested, h.sound.fits, h.sound.bottom, h.sound.kept⟩
    refine clearAll_inv hsound (List.isEmpty_iff.mp hframes) (Nat.le_refl _) fun _ i hi => ?_
    rw [Nat.sub_self] at hi
    cases hi
  | ret =>
    simp only [next] at hn
    split at hn
    · cases hn
    · rename_i f fs hs
      cases hn
      exact h.ret hs

/-! ## Exactly once -/

/-- The call does not return a value whose destructor has started. -/
def GetsLive (s : TlsCalls ι) (e : TlsCall ι) : Prop :=
  ∀ key, e = .get key → ∀ ptr, s.slots key.slot = some ptr → ptr ∉ s.dropped

/-- The drop function of each stored value has been called exactly once, and it was its own. -/
structure DropsOnce (s : TlsCalls ι) : Prop where
  once : ∀ p < s.boxes.length, s.dropped.count p = 1
  own : ∀ d ∈ s.started, s.boxes[d.1]? = some d.2

/-- Clearing a slot that is being cleared calls its drop function again. -/
theorem Sound.again (h : s.Sound) {f : Frame ι} (hmem : f.index ∈ s.clearing)
    (resume : TlsCalls ι → TlsCalls ι) : ¬ (s.clearSlot f resume).dropped.Nodup := by
  obtain ⟨ptr, hslot⟩ := Option.ne_none_iff_exists'.mp (h.full _ hmem)
  obtain ⟨dropFn, _, hfn⟩ := h.filled _ _ hslot
  have hdying := (h.dying _ _ hslot).mpr hmem
  have heq : (s.clearSlot f resume).dropped = s.dropped ++ [ptr] := by
    simp [clearSlot, hslot, hfn, TlsCalls.enter, dropped]
  rw [heq, List.nodup_append']
  rintro ⟨_, _, hdisjoint⟩
  exact hdisjoint hdying (List.mem_singleton.mpr rfl)

/-- A call that meddles with a slot that is being cleared returns a dying value or calls its
drop function again. -/
theorem Inv.apart_of_good (h : s.Inv) {e : TlsCall ι} (hn : next s e = some u)
    (hlive : s.GetsLive e) (honce : u.dropped.Nodup) : s.Apart e := by
  cases e with
  | set key =>
    simp only [next, Option.ite_none_right_eq_some, Option.some.injEq] at hn
    intro hmem
    exact h.sound.again (f := ⟨key.slot, .set key⟩) hmem _ (hn.2 ▸ honce)
  | get key =>
    intro hmem
    obtain ⟨ptr, hslot⟩ := Option.ne_none_iff_exists'.mp (h.sound.full _ hmem)
    exact hlive key rfl ptr hslot ((h.sound.dying _ _ hslot).mpr hmem)
  | clear key =>
    simp only [next, Option.ite_none_right_eq_some, Option.some.injEq] at hn
    intro hmem
    exact h.sound.again (f := ⟨key.slot, .clear⟩) hmem _ (hn.2 ▸ honce)
  | clearAll | shutdown | ret => trivial

theorem clearSlot_prefix (s : TlsCalls ι) (f : Frame ι) {resume : TlsCalls ι → TlsCalls ι}
    (hresume : ∀ t : TlsCalls ι, t.dropped <+: (resume t).dropped) :
    s.dropped <+: (s.clearSlot f resume).dropped := by
  unfold clearSlot
  split
  · exact hresume s
  · split
    · exact hresume (s.empty f.index)
    · simp [TlsCalls.enter, dropped]

theorem clearAll_prefix (n : Nat) (s : TlsCalls ι) : s.dropped <+: (s.clearAll n).dropped := by
  induction n generalizing s with
  | zero => exact List.prefix_refl _
  | succ n ih => exact s.clearSlot_prefix _ ih

/-- Calls of drop functions are not taken back. -/
theorem dropped_next {e : TlsCall ι} (hn : next s e = some u) : s.dropped <+: u.dropped := by
  cases e with
  | set key =>
    simp only [next, Option.ite_none_right_eq_some, Option.some.injEq] at hn
    exact hn.2 ▸ s.clearSlot_prefix _ fun t => List.prefix_refl _
  | get key =>
    simp only [next, Option.ite_none_right_eq_some, Option.some.injEq] at hn
    exact hn.2 ▸ List.prefix_refl _
  | clear key =>
    simp only [next, Option.ite_none_right_eq_some, Option.some.injEq] at hn
    exact hn.2 ▸ s.clearSlot_prefix _ fun t => List.prefix_refl _
  | clearAll =>
    simp only [next, Option.ite_none_right_eq_some, Option.some.injEq] at hn
    exact hn.2 ▸ clearAll_prefix _ s
  | shutdown =>
    simp only [next, Option.ite_none_right_eq_some, Option.some.injEq] at hn
    exact hn.2 ▸ clearAll_prefix tlsSlots { s with down := true }
  | ret =>
    simp only [next] at hn
    split at hn
    · cases hn
    · rename_i f fs _
      cases hn
      cases f.after with
      | set key | clear => exact List.prefix_refl _
      | clearAll n => exact clearAll_prefix n ({ s with frames := fs }.empty f.index)

theorem inv_new : (new : TlsCalls ι).Inv := by
  refine ⟨sound_new, fun hdown => ?_⟩
  cases hdown

theorem inv_keep (s : TlsCalls ι) (e : TlsCall ι) (u : TlsCalls ι) (h : s.Inv)
    (he : s.Apart e ∧ s.Ahead e) (hn : next s e = some u) : u.Inv :=
  inv_next h he.1 he.2 hn

theorem inv_run {es : List (TlsCall ι)} (h : run next new es = some s)
    (hapart : Along next Apart new es) (hahead : Along next Ahead new es) : s.Inv :=
  run_invariant inv_new inv_keep h (along_and hapart hahead)

/-- While no call meddles, no `get` returns a dying value. -/
theorem Inv.gets_live (h : s.Inv) {e : TlsCall ι} (hapart : s.Apart e) : s.GetsLive e := by
  rintro key rfl ptr hslot hdropped
  exact hapart ((h.sound.dying _ _ hslot).mp hdropped)

/-- **Values are dropped exactly once.** For every sequence of calls that ends with a complete
shutdown, destructors that call back included, in which nothing is set into a slot that the
`clear_all` of the shutdown has left behind: each stored value is dropped exactly once, with
its own drop function, and no `get` returns a value whose destructor has started, if and only
if no destructor calls `get`, `set` or `clear` on a slot that is being cleared. -/
theorem drops_once_iff {es : List (TlsCall ι)} {s : TlsCalls ι} (h : run next new es = some s)
    (hahead : Along next Ahead new es) (hdown : s.down = true) (hframes : s.frames = []) :
    s.DropsOnce ∧ Along next GetsLive new es ↔ Along next Apart new es := by
  constructor
  · rintro ⟨honce, hlive⟩
    have hnodup : s.dropped.Nodup := by
      refine List.nodup_iff_count_le_one.mpr fun p => ?_
      by_cases hp : p < s.boxes.length
      · exact Nat.le_of_eq (honce.once p hp)
      · have hnot : p ∉ s.dropped := fun hmem => by
          obtain ⟨d, hd, rfl⟩ := List.mem_map.mp hmem
          exact hp (List.getElem?_eq_some_iff.mp (honce.own d hd)).1
        rw [List.count_eq_zero_of_not_mem hnot]
        exact Nat.zero_le 1
    clear honce hdown hframes
    -- the first call that meddles shows
    induction es using List.reverseRecOn generalizing s with
    | nil => trivial
    | append_singleton es e ih =>
      obtain ⟨t, ht, hn⟩ := run_snoc h
      obtain ⟨hahead, _⟩ := along_snoc.mp hahead
      obtain ⟨hlive, hlast⟩ := along_snoc.mp hlive
      have hapart := ih ht hahead hlive (hnodup.sublist (dropped_next hn).sublist)
      refine along_snoc.mpr ⟨hapart, fun t' u' ht' hn' => ?_⟩
      cases ht.symm.trans ht'
      exact (inv_run ht hapart hahead).apart_of_good hn (hlast t s ht hn) hnodup
  · intro hapart
    have hinv := inv_run h hapart hahead
    refine ⟨⟨fun p hp => ?_, hinv.sound.own⟩, ?_⟩
    · refine List.count_eq_one_of_mem hinv.sound.once ?_
      refine (hinv.sound.kept p hp).resolve_right ?_
      rintro ⟨i, hi, hslot⟩
      have hend : s.position = tlsSlots := by simp [position, hframes]
      rw [hinv.swept hdown i (hend ▸ hi)] at hslot
      cases hslot
    · exact along_of_invariant inv_keep (fun _ _ _ ht hp _ => ht.gets_live hp.1) inv_new
        (along_and hapart hahead)

def keyAt (slot : Nat) (h : slot < tlsSlots := by decide) : TlsKey Bool := ⟨slot, true, h⟩

/-- The destructor of the value in slot 0 replaces the value in slot 1, to which `clear_all`
comes after that. -/
def replaced : List (TlsCall Bool) :=
  [.set (keyAt 0), .set (keyAt 1), .shutdown, .get (keyAt 1), .set (keyAt 1), .ret, .ret, .ret]

theorem drops_once_iff_replaced :
    ∃ s, run next new replaced = some s ∧ s.dropped = [0, 1, 2] ∧ s.DropsOnce := by
  have hrun : (run next new replaced).isSome := by decide
  have hiff := drops_once_iff (Option.some_get hrun).symm (by decide) rfl rfl
  exact ⟨_, (Option.some_get hrun).symm, rfl, (hiff.mpr (by decide)).1⟩

/-- A destructor that sets its own key is run twice, and the new value never dropped. -/
theorem dropped_twice : ¬ ∀ (es : List (TlsCall Bool)) (s : TlsCalls Bool),
    run next new es = some s → s.down = true → s.frames = [] →
    s.DropsOnce ∧ Along next GetsLive new es := by
  intro h
  have hrun : (run next new [.set (keyAt 0), .shutdown, .set (keyAt 0), .ret, .ret]).isSome := by
    decide
  obtain ⟨hdrops, _⟩ := h _ _ (Option.some_get hrun).symm rfl rfl
  have htwice : (2 : Nat) = 1 := hdrops.once 0 (Nat.succ_pos 1)
  exact absurd htwice (by decide)

end TlsCalls
end Ironspdk.Runtime
