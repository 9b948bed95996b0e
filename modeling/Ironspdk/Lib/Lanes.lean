import Mathlib.Logic.Function.Basic
import Mathlib.Data.List.Perm.Subperm
import Ironspdk.Lib.Runs

/-! # Serving requests key by key

What a component is for that serves the requests of a key one at a time, in the order in
which they arrive, and those of different keys independently of each other: a lane for
each key, and the requests in the order in which they have arrived, have been taken up
and have been answered. -/
namespace Ironspdk.Lib

variable {K R : Type*}

/-- How far a lane has come with the request it has taken up. -/
inductive Turn (R : Type*)
  | next
  | serving (r : R)
  | served (r : R)

inductive Lane (R : Type*)
  | idle
  | active (turn : Turn R) (waiting : List R)

namespace Lane

def waiting : Lane R → List R
  | idle => []
  | active _ ws => ws

/-- The request that is taken up and not yet answered. -/
def current : Lane R → List R
  | active (.serving r) _ => [r]
  | _ => []

def arrive (r : R) : Lane R → Lane R
  | idle => active .next [r]
  | active turn ws => active turn (ws ++ [r])

theorem waiting_arrive (r : R) (l : Lane R) : (l.arrive r).waiting = l.waiting ++ [r] := by
  cases l <;> rfl

theorem current_arrive (r : R) (l : Lane R) : (l.arrive r).current = l.current := by
  cases l with
  | idle => rfl
  | active turn ws => cases turn <;> rfl

end Lane

structure Lanes (K R : Type*) where
  lane : K → Lane R
  arrived : List R
  taken : List R
  answered : List R

inductive LaneEvent (K R : Type*)
  | arrive (r : R)
  | take (k : K)
  | answer (k : K)
  | finish (k : K)

/-- The requests of one key. -/
def onKey [DecidableEq K] (key : R → K) (k : K) (rs : List R) : List R :=
  rs.filter (key · = k)

namespace Lanes
variable [DecidableEq K]

def start : Lanes K R := ⟨fun _ => .idle, [], [], []⟩

/-- The lane of `k` moves on; the lists are what has arrived, been taken up and been answered. -/
def move (l : Lanes K R) (k : K) (lane : Lane R) (arrived taken answered : List R) : Lanes K R :=
  { lane := Function.update l.lane k lane
    arrived := l.arrived ++ arrived
    taken := l.taken ++ taken
    answered := l.answered ++ answered }

@[simp] theorem move_self (l : Lanes K R) (k : K) (lane : Lane R) (as ts ns : List R) :
    (l.move k lane as ts ns).lane k = lane := Function.update_self ..

theorem move_other (l : Lanes K R) {k k' : K} (lane : Lane R) (as ts ns : List R) (h : k' ≠ k) :
    (l.move k lane as ts ns).lane k' = l.lane k' := Function.update_of_ne h ..

def next (key : R → K) (l : Lanes K R) : LaneEvent K R → Option (Lanes K R)
  | .arrive r => some (l.move (key r) ((l.lane (key r)).arrive r) [r] [] [])
  | .take k =>
    match l.lane k with
    | .active .next (r :: ws) => some (l.move k (.active (.serving r) ws) [] [r] [])
    | .active .next [] => some (l.move k .idle [] [] [])
    | _ => none
  | .answer k =>
    match l.lane k with
    | .active (.serving r) ws => some (l.move k (.active (.served r) ws) [] [] [r])
    | _ => none
  | .finish k =>
    match l.lane k with
    | .active (.served _) ws => some (l.move k (.active .next ws) [] [] [])
    | _ => none

/-- The requests of a key are taken up in the order they arrive, each once, and answered
in the order they are taken up, each once. -/
structure Inv (key : R → K) (l : Lanes K R) : Prop where
  taken : ∀ k, onKey key k l.arrived = onKey key k l.taken ++ (l.lane k).waiting
  answered : ∀ k, onKey key k l.taken = onKey key k l.answered ++ (l.lane k).current

end Lanes

section onKey
variable [DecidableEq K] {key : R → K} {k : K} {r : R}

theorem mem_onKey {rs : List R} : r ∈ onKey key k rs ↔ r ∈ rs ∧ key r = k := by
  simp [onKey]

theorem onKey_append (rs rs' : List R) :
    onKey key k (rs ++ rs') = onKey key k rs ++ onKey key k rs' := List.filter_append ..

/-- Lists that are prefixes of others, key by key, are no longer than these. -/
theorem length_le_of_onKey (key : R → K) {xs ys : List R}
    (h : ∀ k, onKey key k xs <+: onKey key k ys) : xs.length ≤ ys.length := by
  classical
  refine (List.subperm_ext_iff.mpr fun r _ => ?_).length_le
  have hcount : ∀ rs : List R, (onKey key (key r) rs).count r = rs.count r := fun rs =>
    List.count_filter (by simp)
  rw [← hcount xs, ← hcount ys]
  exact (h (key r)).sublist.count_le r

end onKey

namespace Lanes.Inv
variable [DecidableEq K] {key : R → K} {l l' : Lanes K R} {k : K} {r : R}

theorem start : Inv key (Lanes.start : Lanes K R) := ⟨fun _ => rfl, fun _ => rfl⟩

/-- What waits in a lane belongs there. -/
theorem key_waiting (h : Inv key l) (hr : r ∈ (l.lane k).waiting) : key r = k := by
  have : r ∈ onKey key k l.arrived := by
    rw [h.taken]
    exact List.mem_append_right _ hr
  exact (mem_onKey.mp this).2

theorem key_current (h : Inv key l) (hr : r ∈ (l.lane k).current) : key r = k := by
  have : r ∈ onKey key k l.taken := by
    rw [h.answered]
    exact List.mem_append_right _ hr
  exact (mem_onKey.mp this).2

/-- A step at one key: the lanes of the other keys have nothing new. -/
theorem move (h : Inv key l) {lane : Lane R} {as ts ns : List R}
    (has : ∀ r ∈ as, key r = k) (hts : ∀ r ∈ ts, key r = k) (hns : ∀ r ∈ ns, key r = k)
    (hw : (l.lane k).waiting ++ as = ts ++ lane.waiting)
    (hc : (l.lane k).current ++ ts = ns ++ lane.current) : Inv key (l.move k lane as ts ns) := by
  have same : ∀ {rs : List R}, (∀ r ∈ rs, key r = k) → onKey key k rs = rs := fun hrs =>
    List.filter_eq_self.mpr fun r hr => by simp [hrs r hr]
  have other : ∀ {rs : List R} {k' : K}, (∀ r ∈ rs, key r = k) → k' ≠ k → onKey key k' rs = [] :=
    fun hrs hne => List.filter_eq_nil_iff.mpr fun r hr => by simp [hrs r hr, hne.symm]
  refine ⟨fun k' => ?_, fun k' => ?_⟩ <;> by_cases hk : k' = k
  · subst hk
    rw [Lanes.move_self]
    simp only [Lanes.move, onKey_append, same has, same hts, h.taken, List.append_assoc, hw]
  · rw [l.move_other _ _ _ _ hk]
    simp only [Lanes.move, onKey_append, other has hk, other hts hk, h.taken, List.append_nil]
  · subst hk
    rw [Lanes.move_self]
    simp only [Lanes.move, onKey_append, same hts, same hns, h.answered, List.append_assoc, hc]
  · rw [l.move_other _ _ _ _ hk]
    simp only [Lanes.move, onKey_append, other hts hk, other hns hk, h.answered, List.append_nil]

theorem step (h : Inv key l) {e : LaneEvent K R} (hn : l.next key e = some l') : Inv key l' := by
  cases e with
  | arrive r =>
    cases hn
    refine h.move (by simp) nofun nofun (Lane.waiting_arrive r _).symm ?_
    rw [List.append_nil, Lane.current_arrive, List.nil_append]
  | take k =>
    simp only [Lanes.next] at hn
    split at hn
    · rename_i r ws hl
      cases hn
      have hk : key r = k := h.key_waiting (by rw [hl]; exact List.mem_cons_self ..)
      exact h.move nofun (by simpa using hk) nofun (by simp [hl, Lane.waiting])
        (by simp [hl, Lane.current])
    · rename_i hl
      cases hn
      exact h.move nofun nofun nofun (by simp [hl, Lane.waiting]) (by simp [hl, Lane.current])
    · cases hn
  | answer k =>
    simp only [Lanes.next] at hn
    split at hn
    · rename_i r ws hl
      cases hn
      have hk : key r = k := h.key_current (by rw [hl]; exact List.mem_cons_self ..)
      exact h.move nofun nofun (by simpa using hk) (by simp [hl, Lane.waiting])
        (by simp [hl, Lane.current])
    · cases hn
  | finish k =>
    simp only [Lanes.next] at hn
    split at hn
    · rename_i r ws hl
      cases hn
      exact h.move nofun nofun nofun (by simp [hl, Lane.waiting]) (by simp [hl, Lane.current])
    · cases hn

/-- The requests of a key, in the order they arrived: those answered, the one being served,
those that wait. -/
theorem arrived_eq (h : Inv key l) (k : K) : onKey key k l.arrived =
    onKey key k l.answered ++ (l.lane k).current ++ (l.lane k).waiting := by
  rw [h.taken, h.answered]

end Lanes.Inv

end Ironspdk.Lib
