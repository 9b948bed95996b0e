import Mathlib.Data.List.Nodup
import Mathlib.Logic.Function.Basic
import Ironspdk.Lib.Runs

/-! # Thread-local storage

`TlsKey` and the `Tls` of one SPDK thread. Keys are made anywhere in the program, with a
slot of the programmer's choice or with the next one of a global counter; the counter knows
nothing of the explicit slots. Values are boxed, their types erased in the slots: a box
keeps here the type it was made with. Destructors that use the storage themselves are left
out. -/
namespace Ironspdk.Runtime
open Ironspdk.Lib

/-- `TLS_SLOTS` -/
def tlsSlots : Nat := 4

/-- A key for values of type `type`; clones share the slot. -/
structure TlsKey (ι : Type*) where
  slot : Nat
  type : ι
  slot_lt : slot < tlsSlots
  deriving DecidableEq

inductive KeyCreation (ι : Type*)
  | new (slot : Nat) (type : ι)
  | alloc (type : ι)
  deriving DecidableEq, Repr

structure Boxed (ι V : Type*) where
  type : ι
  value : V
  deriving DecidableEq, Repr

variable {ι V : Type*}

/-- `TlsKey::new`; the assertion fails with `none`. -/
def TlsKey.new (slot : Nat) (type : ι) : Option (TlsKey ι) :=
  if h : slot < tlsSlots then some ⟨slot, type, h⟩ else none

theorem TlsKey.slot_new {slot : Nat} {type : ι} {key : TlsKey ι}
    (h : TlsKey.new slot type = some key) : key.slot = slot := by
  unfold TlsKey.new at h
  split at h
  · cases h
    rfl
  · cases h

/-- The keys of the program, in the order they were made, with the counter `NEXT`. -/
structure Keys (ι : Type*) where
  nextSlot : Nat
  keys : List (TlsKey ι)

namespace Keys

def start : Keys ι := ⟨0, []⟩

def create (s : Keys ι) : KeyCreation ι → Option (Keys ι)
  | .new slot type => (TlsKey.new slot type).map fun key => { s with keys := s.keys ++ [key] }
  | .alloc type => (TlsKey.new s.nextSlot type).map fun key =>
    ⟨s.nextSlot + 1, s.keys ++ [key]⟩

end Keys

/-- `slots` and `drop_fns` of a thread, and the destructors that have run. A destructor is
known by the type it was made for. -/
structure Tls (ι V : Type*) where
  slots : Nat → Option (Boxed ι V)
  dropFns : Nat → Option ι
  dropped : List (ι × Boxed ι V)

namespace Tls

def new : Tls ι V := ⟨fun _ => none, fun _ => none, []⟩

def clearSlot (s : Tls ι V) (index : Nat) : Tls ι V :=
  match s.slots index with
  | none => s
  | some ptr =>
    { slots := Function.update s.slots index none
      dropFns := Function.update s.dropFns index none
      dropped := match s.dropFns index with
        | some dropFn => s.dropped ++ [(dropFn, ptr)]
        | none => s.dropped }

def set (s : Tls ι V) (key : TlsKey ι) (value : V) : Tls ι V :=
  let s := s.clearSlot key.slot
  { s with
    slots := Function.update s.slots key.slot (some ⟨key.type, value⟩)
    dropFns := Function.update s.dropFns key.slot (some key.type) }

def get (s : Tls ι V) (key : TlsKey ι) : Option (Boxed ι V) := s.slots key.slot

/-- What the caller of `get_mut` may do with the reference: overwrite the value in place. -/
def write (s : Tls ι V) (key : TlsKey ι) (value : V) : Tls ι V :=
  let ptr := (s.slots key.slot).map fun ptr => { ptr with value := value }
  { s with slots := Function.update s.slots key.slot ptr }

theorem clearSlot_slots (s : Tls ι V) (index : Nat) :
    (s.clearSlot index).slots = Function.update s.slots index none := by
  unfold clearSlot
  split
  · rename_i h
    exact (Function.update_eq_self_iff.mpr h.symm).symm
  · rfl

theorem set_slots (s : Tls ι V) (key : TlsKey ι) (value : V) :
    (s.set key value).slots = Function.update s.slots key.slot (some ⟨key.type, value⟩) := by
  simp only [set, clearSlot_slots, Function.update_idem]

end Tls

/-- Creations and, on one thread, uses of keys; a key is known by the number of its creation. -/
inductive TlsEvent (ι V : Type*)
  | create (c : KeyCreation ι)
  | set (k : Nat) (value : V)
  | get (k : Nat)
  | getMut (k : Nat) (write : Option V)
  | clear (k : Nat)

structure TlsUse (ι V : Type*) extends Keys ι where
  tls : Tls ι V

namespace TlsUse

def start : TlsUse ι V := ⟨Keys.start, Tls.new⟩

def next (s : TlsUse ι V) : TlsEvent ι V → Option (TlsUse ι V)
  | .create c => (s.toKeys.create c).map fun keys => ⟨keys, s.tls⟩
  | .set k value => s.keys[k]?.map fun key => { s with tls := s.tls.set key value }
  | .get k => s.keys[k]?.map fun _ => s
  | .getMut k none => s.keys[k]?.map fun _ => s
  | .getMut k (some value) => s.keys[k]?.map fun key => { s with tls := s.tls.write key value }
  | .clear k => s.keys[k]?.map fun key => { s with tls := s.tls.clearSlot key.slot }

/-! ## What a key should show -/

/-- The value last set through key `k` since its last clear, one event further. -/
def lastSetStep (k : Nat) (last : Option V) : TlsEvent ι V → Option V
  | .set j value => if j = k then some value else last
  | .getMut j (some value) => if j = k then last.map fun _ => value else last
  | .clear j => if j = k then none else last
  | _ => last

def lastSet (es : List (TlsEvent ι V)) (k : Nat) : Option V := es.foldl (lastSetStep k) none

theorem lastSet_snoc (es : List (TlsEvent ι V)) (e : TlsEvent ι V) (k : Nat) :
    lastSet (es ++ [e]) k = lastSetStep k (lastSet es k) e := by
  simp [lastSet]

def creations (es : List (TlsEvent ι V)) : List (KeyCreation ι) :=
  es.filterMap fun
    | .create c => some c
    | _ => none

/-- After any use of keys made by the first of the creations `cs`, every key shows what was
last set through it, with its own type. -/
def NoInterference (ι V : Type*) (cs : List (KeyCreation ι)) : Prop :=
  ∀ (es : List (TlsEvent ι V)) (s : TlsUse ι V), run next start es = some s →
    creations es <+: cs → ∀ k key, s.keys[k]? = some key →
      s.tls.get key = (lastSet es k).map (Boxed.mk key.type)

end TlsUse

/-! ## The slots of keys -/

namespace Keys

/-- The slots of the keys that `cs` makes, from counter `n` on. -/
def slotsOf : Nat → List (KeyCreation ι) → List Nat
  | _, [] => []
  | n, .new slot _ :: cs => slot :: slotsOf n cs
  | n, .alloc _ :: cs => n :: slotsOf (n + 1) cs

def explicitSlots (cs : List (KeyCreation ι)) : List Nat :=
  cs.filterMap fun
    | .new slot _ => some slot
    | .alloc _ => none

def allocs (cs : List (KeyCreation ι)) : Nat :=
  cs.countP fun
    | .new _ _ => false
    | .alloc _ => true

variable {cs : List (KeyCreation ι)}

theorem slotsOf_append (n : Nat) (cs ds : List (KeyCreation ι)) :
    slotsOf n (cs ++ ds) = slotsOf n cs ++ slotsOf (n + allocs cs) ds := by
  induction cs generalizing n with
  | nil => rfl
  | cons c cs ih =>
    cases c with
    | new slot type => simp [slotsOf, allocs, ih]
    | alloc type =>
      have harith : n + 1 + allocs cs = n + (allocs cs + 1) := by omega
      simp only [List.cons_append, slotsOf, ih, harith]
      simp [allocs]

theorem mem_slotsOf {n i : Nat} :
    i ∈ slotsOf n cs ↔ i ∈ explicitSlots cs ∨ n ≤ i ∧ i < n + allocs cs := by
  induction cs generalizing n with
  | nil => simp [slotsOf, explicitSlots, allocs]
  | cons c cs ih =>
    cases c with
    | new slot type => simp [slotsOf, ih, explicitSlots, allocs, or_assoc]
    | alloc type =>
      have hexpl : explicitSlots (.alloc type :: cs) = explicitSlots cs := rfl
      have hallocs : allocs (.alloc type :: cs) = allocs cs + 1 := by simp [allocs]
      have hrange : i = n ∨ n + 1 ≤ i ∧ i < n + 1 + allocs cs ↔
          n ≤ i ∧ i < n + (allocs cs + 1) := by omega
      rw [slotsOf, List.mem_cons, ih, hexpl, hallocs, or_left_comm, hrange]

/-- The slots are different if the explicit ones are and none of them is below the counter. -/
theorem nodup_slotsOf {n : Nat} : (slotsOf n cs).Nodup ↔
    (explicitSlots cs).Nodup ∧ ∀ i ∈ explicitSlots cs, ¬ (n ≤ i ∧ i < n + allocs cs) := by
  induction cs generalizing n with
  | nil => simp [slotsOf, explicitSlots]
  | cons c cs ih =>
    cases c with
    | new slot type =>
      have hexpl : explicitSlots (.new slot type :: cs) = slot :: explicitSlots cs := rfl
      have hallocs : allocs (.new slot type :: cs) = allocs cs := by simp [allocs]
      rw [slotsOf, List.nodup_cons, ih, mem_slotsOf, hexpl, hallocs, List.nodup_cons]
      simp only [List.forall_mem_cons]
      tauto
    | alloc type =>
      have hexpl : explicitSlots (.alloc type :: cs) = explicitSlots cs := rfl
      have hallocs : allocs (.alloc type :: cs) = allocs cs + 1 := by simp [allocs]
      rw [slotsOf, List.nodup_cons, ih, mem_slotsOf, hexpl, hallocs]
      constructor
      · intro ⟨hn, hnodup, hall⟩
        refine ⟨hnodup, fun i hi hr => ?_⟩
        have hne : i ≠ n := fun he => hn (Or.inl (he ▸ hi))
        exact hall i hi (by omega)
      · intro ⟨hnodup, hall⟩
        refine ⟨fun hn => ?_, hnodup, fun i hi hr => hall i hi (by omega)⟩
        rcases hn with hn | hn
        · exact hall n hn (by omega)
        · omega

/-- The keys are those that have been created. -/
structure From (s : Keys ι) (cs : List (KeyCreation ι)) : Prop where
  counter : s.nextSlot = allocs cs
  slots : s.keys.map (·.slot) = slotsOf 0 cs

theorem from_start : (start : Keys ι).From [] := ⟨rfl, rfl⟩

theorem From.create {s u : Keys ι} {c : KeyCreation ι} (h : s.From cs)
    (hc : s.create c = some u) : u.From (cs ++ [c]) ∧
      ∃ key, u.keys = s.keys ++ [key] ∧ slotsOf 0 (cs ++ [c]) = slotsOf 0 cs ++ [key.slot] := by
  obtain ⟨hcounter, hslots⟩ := h
  rw [slotsOf_append, Nat.zero_add, ← hcounter, ← hslots]
  cases c with
  | new slot type =>
    obtain ⟨key, hkey, rfl⟩ := Option.map_eq_some_iff.mp hc
    have hslot : key.slot = slot := TlsKey.slot_new hkey
    refine ⟨⟨by simp [hcounter, allocs], ?_⟩, key, rfl, by simp [slotsOf, hslot]⟩
    rw [slotsOf_append, Nat.zero_add, List.map_append, hslots]
    simp [slotsOf, hslot]
  | alloc type =>
    obtain ⟨key, hkey, rfl⟩ := Option.map_eq_some_iff.mp hc
    have hslot : key.slot = s.nextSlot := TlsKey.slot_new hkey
    refine ⟨⟨by simp [hcounter, allocs], ?_⟩, key, rfl, by simp [slotsOf, hslot]⟩
    rw [slotsOf_append, Nat.zero_add, List.map_append, hslots]
    simp [slotsOf, hslot, hcounter]

end Keys

namespace TlsUse

/-! ## Keys with slots of their own -/

theorem creations_snoc (es : List (TlsEvent ι V)) (e : TlsEvent ι V) :
    creations (es ++ [e]) = creations es ++ creations [e] := List.filterMap_append ..

/-- Every key shows what it should; slots in use have a key, keys not made yet no value. -/
structure Own (es : List (TlsEvent ι V)) (s : TlsUse ι V) : Prop where
  keys : s.toKeys.From (creations es)
  occupied : ∀ i, s.tls.slots i ≠ none → i ∈ s.keys.map (·.slot)
  unused : ∀ k, s.keys.length ≤ k → lastSet es k = none
  shows : ∀ k key, s.keys[k]? = some key →
    s.tls.slots key.slot = (lastSet es k).map (Boxed.mk key.type)

theorem own_start : Own [] (start : TlsUse ι V) :=
  ⟨Keys.from_start, fun _ h => absurd rfl h, fun _ _ => rfl, fun _ _ _ => rfl⟩

section steps
variable {es : List (TlsEvent ι V)} {s u : TlsUse ι V} {k j : Nat} {key : TlsKey ι}

/-- Keys with a slot of their own are told apart by it. -/
theorem slot_inj (hnodup : (s.keys.map (·.slot)).Nodup) {key' : TlsKey ι}
    (hk : s.keys[k]? = some key) (hj : s.keys[j]? = some key') (he : key'.slot = key.slot) :
    j = k := by
  obtain ⟨hlt, rfl⟩ := List.getElem?_eq_some_iff.mp hk
  obtain ⟨hlt', rfl⟩ := List.getElem?_eq_some_iff.mp hj
  have hj : j < (s.keys.map (·.slot)).length := by rwa [List.length_map]
  have hk : k < (s.keys.map (·.slot)).length := by rwa [List.length_map]
  have hslot : (s.keys.map (·.slot))[j] = (s.keys.map (·.slot))[k] := by
    rwa [List.getElem_map, List.getElem_map]
  exact hnodup.getElem_inj_iff.mp hslot

/-- A use of one key that leaves its slot with `p`. -/
theorem Own.use (h : Own es s) (hnodup : (s.keys.map (·.slot)).Nodup) {e : TlsEvent ι V}
    (hk : s.keys[k]? = some key) (hkeys : u.toKeys = s.toKeys) {p : Option (Boxed ι V)}
    (hslots : u.tls.slots = Function.update s.tls.slots key.slot p)
    (hcreate : creations [e] = []) (hother : ∀ j ≠ k, ∀ last, lastSetStep j last e = last)
    (hself : p = (lastSetStep k (lastSet es k) e).map (Boxed.mk key.type)) :
    Own (es ++ [e]) u := by
  have hlt : k < s.keys.length := (List.getElem?_eq_some_iff.mp hk).1
  refine ⟨?_, fun i hi => ?_, fun j hj => ?_, fun j key' hj => ?_⟩
  · rw [creations_snoc, hcreate, List.append_nil, hkeys]
    exact h.keys
  · rw [hkeys]
    rw [hslots] at hi
    by_cases he : i = key.slot
    · exact List.mem_map.mpr ⟨key, List.mem_of_getElem? hk, he.symm⟩
    · rw [Function.update_of_ne he] at hi
      exact h.occupied i hi
  · rw [hkeys] at hj
    rw [lastSet_snoc, hother j (by omega)]
    exact h.unused j hj
  · rw [hkeys] at hj
    rw [hslots, lastSet_snoc]
    by_cases he : j = k
    · subst he
      cases hk.symm.trans hj
      rw [Function.update_self]
      exact hself
    · have hne : key'.slot ≠ key.slot := fun hs => he (slot_inj hnodup hk hj hs)
      rw [Function.update_of_ne hne, hother j he]
      exact h.shows j key' hj

/-- A new key: nothing is in its slot. -/
theorem Own.create (h : Own es s) {c : KeyCreation ι} {keys : Keys ι}
    (hc : s.toKeys.create c = some keys)
    (hnodup : (Keys.slotsOf 0 (creations es ++ [c])).Nodup) :
    Own (es ++ [.create c]) (⟨keys, s.tls⟩ : TlsUse ι V) := by
  obtain ⟨hfrom, key, hkeys, hslots⟩ := h.keys.create hc
  have hnew : key.slot ∉ s.keys.map (·.slot) := by
    rw [h.keys.slots]
    rw [hslots, List.nodup_append] at hnodup
    intro hm
    exact hnodup.2.2 _ hm _ (List.mem_singleton_self _) rfl
  refine ⟨?_, fun i hi => ?_, fun k hk => ?_, fun k key' hk => ?_⟩
  · rw [creations_snoc]
    exact hfrom
  · show i ∈ keys.keys.map (·.slot)
    rw [hkeys, List.map_append]
    exact List.mem_append_left _ (h.occupied i hi)
  · have hk : keys.keys.length ≤ k := hk
    rw [hkeys, List.length_append] at hk
    rw [lastSet_snoc]
    exact h.unused k (by omega)
  · have hk : keys.keys[k]? = some key' := hk
    rw [lastSet_snoc]
    show s.tls.slots key'.slot = (lastSet es k).map _
    rw [hkeys] at hk
    by_cases hlt : k < s.keys.length
    · rw [List.getElem?_append_left hlt] at hk
      exact h.shows k key' hk
    · rw [List.getElem?_append_right (by omega)] at hk
      have hkey : key' = key := by
        obtain ⟨_, he⟩ := List.getElem?_eq_some_iff.mp hk
        simpa using he.symm
      rw [h.unused k (by omega), hkey]
      by_contra hne
      exact hnew (h.occupied _ hne)

theorem Own.step (h : Own es s) {e : TlsEvent ι V} (hn : s.next e = some u)
    (hnodup : (Keys.slotsOf 0 (creations (es ++ [e]))).Nodup) : Own (es ++ [e]) u := by
  rw [creations_snoc] at hnodup
  have hkeys : (s.keys.map (·.slot)).Nodup := by
    rw [h.keys.slots]
    rw [Keys.slotsOf_append] at hnodup
    exact hnodup.of_append_left
  cases e with
  | create c =>
    obtain ⟨keys, hc, rfl⟩ := Option.map_eq_some_iff.mp hn
    exact h.create hc hnodup
  | set k value =>
    obtain ⟨key, hk, rfl⟩ := Option.map_eq_some_iff.mp hn
    exact h.use hkeys hk rfl (Tls.set_slots _ _ _) rfl
      (fun j hj last => if_neg (Ne.symm hj)) (by simp [lastSetStep])
  | get k =>
    obtain ⟨key, hk, rfl⟩ := Option.map_eq_some_iff.mp hn
    exact h.use hkeys hk rfl (Function.update_eq_self _ _).symm rfl (fun _ _ _ => rfl)
      (h.shows k key hk)
  | getMut k write =>
    cases write with
    | none =>
      obtain ⟨key, hk, rfl⟩ := Option.map_eq_some_iff.mp hn
      exact h.use hkeys hk rfl (Function.update_eq_self _ _).symm rfl (fun _ _ _ => rfl)
        (h.shows k key hk)
    | some value =>
      obtain ⟨key, hk, rfl⟩ := Option.map_eq_some_iff.mp hn
      refine h.use hkeys hk rfl rfl rfl (fun j hj last => if_neg (Ne.symm hj)) ?_
      rw [h.shows k key hk]
      cases lastSet es k <;> simp [lastSetStep]
  | clear k =>
    obtain ⟨key, hk, rfl⟩ := Option.map_eq_some_iff.mp hn
    exact h.use hkeys hk rfl (Tls.clearSlot_slots _ _) rfl
      (fun j hj last => if_neg (Ne.symm hj)) (by simp [lastSetStep])

end steps

theorem own_run {cs : List (KeyCreation ι)} (hnodup : (Keys.slotsOf 0 cs).Nodup)
    {es : List (TlsEvent ι V)} {s : TlsUse ι V} (h : run next start es = some s)
    (hcs : creations es <+: cs) : Own es s := by
  induction es using List.reverseRecOn generalizing s with
  | nil =>
    cases h
    exact own_start
  | append_singleton es e ih =>
    obtain ⟨t, ht, hn⟩ := run_snoc h
    have hpre : creations es <+: cs := by
      rw [creations_snoc] at hcs
      exact (List.prefix_append _ _).trans hcs
    obtain ⟨ds, hds⟩ := hcs
    refine (ih ht hpre).step hn ?_
    rw [← hds, Keys.slotsOf_append] at hnodup
    exact hnodup.of_append_left

/-! ## Keys that share a slot -/

theorem from_run {cs : List (KeyCreation ι)} {keys : Keys ι}
    (h : run Keys.create Keys.start cs = some keys) : keys.From cs :=
  run_history (P := fun _ _ => True) (I := fun cs keys => keys.From cs) Keys.from_start
    (fun _ _ _ _ hf _ hc => (hf.create hc).1) h (along_of_forall (fun _ _ => trivial) _ _)

/-- The keys are made first, before any of them is used. -/
theorem run_creates (cs : List (KeyCreation ι)) (s : TlsUse ι V) :
    run next s (cs.map .create) = (run Keys.create s.toKeys cs).map (⟨·, s.tls⟩) := by
  induction cs generalizing s with
  | nil => rfl
  | cons c cs ih =>
    rw [List.map_cons, run_cons, run_cons]
    cases hc : s.toKeys.create c with
    | none => simp [next, hc]
    | some keys => simp [next, hc, ih]

theorem creations_creates (cs : List (KeyCreation ι)) :
    creations (cs.map (TlsEvent.create (V := V))) = cs := by
  induction cs with
  | nil => rfl
  | cons c cs ih => exact congrArg (c :: ·) ih

theorem lastSet_creates (cs : List (KeyCreation ι)) (k : Nat) :
    lastSet (cs.map (TlsEvent.create (V := V))) k = none := by
  induction cs using List.reverseRecOn with
  | nil => rfl
  | append_singleton cs c ih =>
    rw [List.map_append]
    exact (lastSet_snoc _ _ _).trans ih

/-- A value set through one of two keys with the same slot shows through the other. -/
theorem interferes {cs : List (KeyCreation ι)} {keys : Keys ι}
    (h : run Keys.create Keys.start cs = some keys) (value : V)
    (hdup : ¬ (keys.keys.map (·.slot)).Nodup) : ¬ NoInterference ι V cs := by
  obtain ⟨i, j, hij, hj, hsame⟩ : ∃ i j, i < j ∧ ∃ hj : j < keys.keys.length,
      ∀ hi : i < keys.keys.length, keys.keys[i].slot = keys.keys[j].slot := by
    rw [List.Nodup, List.pairwise_iff_getElem] at hdup
    simp only [List.getElem_map, List.length_map, not_forall, not_not] at hdup
    obtain ⟨i, j, hi, hj, hij, hsame⟩ := hdup
    exact ⟨i, j, hij, hj, fun _ => hsame⟩
  intro hno
  have hi : i < keys.keys.length := Nat.lt_trans hij hj
  let u : TlsUse ι V := ⟨keys, Tls.new.set keys.keys[j] value⟩
  have hrun : run next (start : TlsUse ι V) (cs.map .create ++ [.set j value]) = some u := by
    rw [run_append, run_creates]
    simp [h, run_cons, next, hj, u, start]
  have hpre : creations (cs.map .create ++ [TlsEvent.set j value]) <+: cs := by
    rw [creations_snoc, creations_creates]
    simp [creations]
  have hget := hno _ u hrun hpre i keys.keys[i] (List.getElem?_eq_getElem hi)
  have hlast : lastSet (cs.map .create ++ [TlsEvent.set j value]) i = (none : Option V) := by
    rw [lastSet_snoc, lastSet_creates]
    exact if_neg (by omega)
  rw [hlast] at hget
  have hshows : u.tls.get keys.keys[i] = some ⟨keys.keys[j].type, value⟩ := by
    show (Tls.new.set keys.keys[j] value).slots keys.keys[i].slot = _
    rw [Tls.set_slots, hsame hi, Function.update_self]
  rw [hshows] at hget
  cases hget

/-- **When thread-local keys do not interfere.** For creations that do not panic, with
different explicit slots: every key shows what was last set through it, after every sequence
of uses of the keys, if and only if no explicit slot is below the number of keys that the
program allocates. -/
theorem no_interference_iff [Inhabited V] {cs : List (KeyCreation ι)}
    (hcs : (run Keys.create Keys.start cs).isSome) (hexpl : (Keys.explicitSlots cs).Nodup) :
    NoInterference ι V cs ↔ ∀ i ∈ Keys.explicitSlots cs, Keys.allocs cs ≤ i := by
  obtain ⟨keys, hkeys⟩ := Option.isSome_iff_exists.mp hcs
  have hslots := (from_run hkeys).slots
  have hiff : (Keys.slotsOf 0 cs).Nodup ↔ ∀ i ∈ Keys.explicitSlots cs, Keys.allocs cs ≤ i := by
    rw [Keys.nodup_slotsOf, and_iff_right hexpl]
    refine forall_congr' fun i => forall_congr' fun _ => ?_
    omega
  rw [← hiff]
  constructor
  · intro hno
    by_contra hdup
    exact interferes hkeys default (hslots ▸ hdup) hno
  · intro hnodup es s hrun hpre
    exact (own_run hnodup hrun hpre).shows

/-- One key allocated, one in slot 1. -/
def apart : List (KeyCreation String) := [.alloc "Counter", .new 1 "MyIoChannel"]

theorem no_interference_iff_apart : NoInterference String Nat apart :=
  (no_interference_iff (by decide) (by decide)).mpr (by decide)

/-- Slot 0 taken explicitly, then allocated: a value set through the first key shows through
the second one, which is for values of another type. -/
def collision : List (TlsEvent String Nat) :=
  [.create (.new 0 "MyIoChannel"), .create (.alloc "Counter"), .set 0 7]

theorem keys_collide : ∃ s, run next start collision = some s ∧
    s.keys[1]?.map (·.type) = some "Counter" ∧ lastSet collision 1 = none ∧
    s.keys[1]?.bind s.tls.get = some ⟨"MyIoChannel", 7⟩ ∧
    ¬ NoInterference String Nat (creations collision) := by
  let s := (run next start collision).get (by decide)
  have hs : run next start collision = some s := (Option.some_get _).symm
  refine ⟨s, hs, by decide, by decide, by decide, fun hno => ?_⟩
  have hshows := hno collision s hs (List.prefix_refl _) 1 ⟨0, "Counter", by decide⟩ (by decide)
  cases hshows

end TlsUse

end Ironspdk.Runtime
