import Mathlib.Logic.Function.Basic
import Mathlib.Data.List.Nodup
import Mathlib.Tactic.Common

/-! # Gather and scatter

Memory as a function of addresses, and a list of addresses as a window onto it: `gather`
reads the window out, `scatter` writes values into it from left to right. Nothing is assumed
of the addresses until a lemma needs them distinct. -/
namespace Ironspdk.Lib

variable {ι α : Type*}

def gather (mem : ι → α) (addrs : List ι) : List α := addrs.map mem

def scatter [DecidableEq ι] (mem : ι → α) : List ι → List α → ι → α
  | a :: as, x :: xs => scatter (Function.update mem a x) as xs
  | _, _ => mem

@[simp] theorem length_gather (mem : ι → α) (addrs : List ι) :
    (gather mem addrs).length = addrs.length := List.length_map _

theorem gather_append (mem : ι → α) (as bs : List ι) :
    gather mem (as ++ bs) = gather mem as ++ gather mem bs := List.map_append

theorem gather_take (mem : ι → α) (addrs : List ι) (n : Nat) :
    gather mem (addrs.take n) = (gather mem addrs).take n := List.map_take

theorem gather_drop (mem : ι → α) (addrs : List ι) (n : Nat) :
    gather mem (addrs.drop n) = (gather mem addrs).drop n := List.map_drop

/-- A window is read alike from two memories that agree on it. -/
theorem gather_congr {mem mem' : ι → α} {addrs : List ι} (h : ∀ a ∈ addrs, mem a = mem' a) :
    gather mem addrs = gather mem' addrs := List.map_congr_left h

variable [DecidableEq ι]

theorem scatter_cons (mem : ι → α) (a : ι) (as : List ι) (x : α) (xs : List α) :
    scatter mem (a :: as) (x :: xs) = scatter (Function.update mem a x) as xs := rfl

/-- Two windows written one after the other are one. -/
theorem scatter_append (mem : ι → α) {as bs : List ι} {xs ys : List α}
    (h : as.length = xs.length) :
    scatter mem (as ++ bs) (xs ++ ys) = scatter (scatter mem as xs) bs ys := by
  induction as generalizing mem xs with
  | nil =>
    cases xs with
    | nil => rfl
    | cons x xs => cases h
  | cons a as ih =>
    cases xs with
    | nil => cases h
    | cons x xs => exact ih (Function.update mem a x) (Nat.succ.inj h)

/-- **Frame.** Outside of the window nothing changes. -/
theorem scatter_frame (mem : ι → α) {as : List ι} (xs : List α) {a : ι} (h : a ∉ as) :
    scatter mem as xs a = mem a := by
  induction as generalizing mem xs with
  | nil => rfl
  | cons b as ih =>
    obtain ⟨hne, has⟩ := not_or.mp (mt List.mem_cons.mpr h)
    cases xs with
    | nil => rfl
    | cons x xs => rw [scatter_cons, ih _ xs has, Function.update_of_ne hne]

theorem gather_scatter_frame (mem : ι → α) {as bs : List ι} (xs : List α)
    (h : ∀ a ∈ bs, a ∉ as) : gather (scatter mem as xs) bs = gather mem bs :=
  gather_congr fun a ha => scatter_frame mem xs (h a ha)

/-- **Reading a window back.** -/
theorem gather_scatter (mem : ι → α) {as : List ι} {xs : List α} (hnodup : as.Nodup)
    (h : as.length = xs.length) : gather (scatter mem as xs) as = xs := by
  induction as generalizing mem xs with
  | nil =>
    cases xs with
    | nil => rfl
    | cons x xs => cases h
  | cons a as ih =>
    obtain ⟨ha, hnodup⟩ := List.nodup_cons.mp hnodup
    cases xs with
    | nil => cases h
    | cons x xs =>
      have hhead : scatter (Function.update mem a x) as xs a = x := by
        rw [scatter_frame _ _ ha, Function.update_self]
      have htail := ih (Function.update mem a x) hnodup (Nat.succ.inj h)
      rw [scatter_cons, gather, List.map_cons, hhead]
      exact congrArg (x :: ·) htail

/-- **Writing back what was read.** The addresses may repeat. -/
theorem scatter_gather (mem : ι → α) (as : List ι) : scatter mem as (gather mem as) = mem := by
  induction as with
  | nil => rfl
  | cons a as ih =>
    rw [gather, List.map_cons, scatter_cons, Function.update_eq_self]
    exact ih

/-- **Writing a part of a window.** The rest of it is as before. -/
theorem gather_scatter_slice (mem : ι → α) {as : List ι} {xs : List α} {start : Nat}
    (hnodup : as.Nodup) (h : start + xs.length ≤ as.length) :
    gather (scatter mem ((as.drop start).take xs.length) xs) as =
      (gather mem as).take start ++ xs ++ (gather mem as).drop (start + xs.length) := by
  have hparts : as = as.take start ++ ((as.drop start).take xs.length ++
      as.drop (start + xs.length)) := by
    rw [← List.drop_drop, List.take_append_drop, List.take_append_drop]
  have hlen : ((as.drop start).take xs.length).length = xs.length := by
    rw [List.length_take, List.length_drop]
    omega
  have hsplit := hnodup
  rw [hparts, List.nodup_append', List.nodup_append'] at hsplit
  obtain ⟨_, ⟨hmid, _, hafter⟩, hbefore⟩ := hsplit
  have hfirst : ∀ a ∈ as.take start, a ∉ (as.drop start).take xs.length :=
    fun a ha hin => hbefore ha (List.mem_append_left _ hin)
  have hlast : ∀ a ∈ as.drop (start + xs.length), a ∉ (as.drop start).take xs.length :=
    fun a ha hin => hafter hin ha
  have hwhole : ∀ mem' : ι → α, gather mem' as = gather mem' (as.take start) ++
      (gather mem' ((as.drop start).take xs.length) ++
        gather mem' (as.drop (start + xs.length))) := by
    intro mem'
    rw [← gather_append, ← gather_append, ← hparts]
  rw [hwhole, gather_scatter_frame mem xs hfirst, gather_scatter mem hmid hlen,
    gather_scatter_frame mem xs hlast, gather_take, gather_drop, List.append_assoc]

/-- What one piece of a row holds once it is written. -/
theorem scatter_range' (mem : Nat → α) (start : Nat) (xs : List α) (a : Nat) :
    scatter mem (List.range' start xs.length) xs a =
      if start ≤ a then (xs[a - start]?).getD (mem a) else mem a := by
  induction xs generalizing mem start with
  | nil => simp [scatter]
  | cons x xs ih =>
    rw [List.length_cons, List.range'_succ, scatter_cons, ih]
    rcases Nat.lt_trichotomy a start with hlt | rfl | hlt
    · rw [if_neg (by omega), if_neg (by omega), Function.update_of_ne (Nat.ne_of_lt hlt)]
    · rw [if_neg (by omega), if_pos (Nat.le_refl _), Function.update_self, Nat.sub_self]
      rfl
    · have hsub : a - start = a - (start + 1) + 1 := by omega
      rw [if_pos (by omega), if_pos (by omega), Function.update_of_ne (Nat.ne_of_gt hlt), hsub,
        List.getElem?_cons_succ]

end Ironspdk.Lib
