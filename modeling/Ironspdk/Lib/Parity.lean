import Mathlib.Algebra.BigOperators.Group.Finset.Basic
import Mathlib.Algebra.BigOperators.Group.List.Basic
import Mathlib.Algebra.BigOperators.Intervals
import Mathlib.Algebra.Group.Pi.Basic

/-! # XOR parity

Values under exclusive or form a commutative group in which every element is its own
inverse; `+` is the exclusive or. A column of such values is consistent when its sum is
zero, and then each entry is the sum of the others. -/
namespace Ironspdk.Lib

class XorGroup (B : Type*) extends AddCommGroup B where
  add_self : ∀ x : B, x + x = 0

variable {ι B : Type*} [XorGroup B]

@[simp] theorem xor_self (x : B) : x + x = 0 := XorGroup.add_self x

@[simp] theorem xor_cancel_right (x y : B) : x + y + y = x := by
  rw [add_assoc, xor_self, add_zero]

theorem xor_eq_zero {x y : B} : x + y = 0 ↔ x = y := by
  refine ⟨fun h => ?_, fun h => by rw [h, xor_self]⟩
  rw [← xor_cancel_right x y, h, zero_add]

/-- In a consistent column an entry is the sum of the others. -/
theorem eq_sum_erase [DecidableEq ι] {s : Finset ι} {f : ι → B} {a : ι} (ha : a ∈ s)
    (h : ∑ i ∈ s, f i = 0) : f a = ∑ i ∈ s.erase a, f i := by
  rw [← Finset.add_sum_erase s f ha] at h
  exact xor_eq_zero.mp h

/-- Changing one entry changes the sum by the old and the new value. -/
theorem sum_change_one [DecidableEq ι] {s : Finset ι} {f g : ι → B} {a : ι} (ha : a ∈ s)
    (h : ∀ i ∈ s, i ≠ a → f i = g i) : ∑ i ∈ s, g i = ∑ i ∈ s, f i + f a + g a := by
  have hrest : ∑ i ∈ s.erase a, f i = ∑ i ∈ s.erase a, g i :=
    Finset.sum_congr rfl fun i hi => h i (Finset.mem_of_mem_erase hi) (Finset.ne_of_mem_erase hi)
  rw [← Finset.add_sum_erase s g ha, ← Finset.add_sum_erase s f ha, hrest]
  rw [add_comm (f a) (∑ i ∈ s.erase a, g i), xor_cancel_right, add_comm]

/-! ## Strips -/

/-- The sum of the `i`-th entries of some strips. -/
def columnSum (strips : List (List B)) (i : Nat) : B := (strips.map (·.getD i 0)).sum

/-- Adding strips to a list of their length, one after the other. -/
theorem foldl_zipWith_add {acc : List B} {strips : List (List B)}
    (h : ∀ s ∈ strips, s.length = acc.length) :
    (strips.foldl (List.zipWith (· + ·)) acc).length = acc.length ∧
    ∀ i < acc.length, (strips.foldl (List.zipWith (· + ·)) acc).getD i 0 =
      acc.getD i 0 + columnSum strips i := by
  induction strips generalizing acc with
  | nil =>
    refine ⟨rfl, fun i _ => ?_⟩
    rw [columnSum, List.map_nil, List.sum_nil, add_zero]
    rfl
  | cons s strips ih =>
    obtain ⟨hs, hstrips⟩ := List.forall_mem_cons.mp h
    have hlen : (List.zipWith (· + ·) acc s).length = acc.length := by
      rw [List.length_zipWith, hs, Nat.min_self]
    obtain ⟨hfold, hentry⟩ := @ih (List.zipWith (· + ·) acc s) (by rwa [hlen])
    rw [hlen] at hfold hentry
    refine ⟨hfold, fun i hi => ?_⟩
    have hadd : (List.zipWith (· + ·) acc s).getD i 0 = acc.getD i 0 + s.getD i 0 := by
      have his : i < s.length := hs ▸ hi
      simp [List.getD, List.getElem?_zipWith, List.getElem?_eq_getElem hi,
        List.getElem?_eq_getElem his]
    rw [List.foldl_cons, hentry i hi, hadd, columnSum, columnSum, List.map_cons, List.sum_cons,
      add_assoc]

/-- **A strip is the sum of the others**, added up in any order, if all of them sum to zero. -/
theorem foldl_others {len k : Nat} {strips others : List (List B)} {missing : List B}
    (hlen : ∀ s ∈ strips, s.length = len) (hzero : ∀ i < len, columnSum strips i = 0)
    (hk : strips[k]? = some missing) (hothers : others.Perm (strips.eraseIdx k)) :
    others.foldl (List.zipWith (· + ·)) (List.replicate len 0) = missing := by
  obtain ⟨hlt, hget⟩ := List.getElem?_eq_some_iff.mp hk
  have hmissing : missing.length = len := hlen missing (List.mem_of_getElem? hk)
  have hperm : strips.Perm (missing :: others) := by
    rw [← hget]
    exact (List.getElem_cons_eraseIdx_perm hlt).symm.trans (hothers.symm.cons _)
  have hfit : ∀ s ∈ others, s.length = (List.replicate len (0 : B)).length := by
    intro s hs
    rw [List.length_replicate]
    exact hlen s (hperm.mem_iff.mpr (List.mem_cons_of_mem _ hs))
  obtain ⟨hfold, hentry⟩ := foldl_zipWith_add hfit
  rw [List.length_replicate] at hfold hentry
  refine List.ext_getElem (hfold.trans hmissing.symm) fun i hi hi' => ?_
  have hin : i < len := hfold ▸ hi
  have hperms : columnSum strips i = columnSum (missing :: others) i := (hperm.map _).sum_eq
  have hsum : missing.getD i 0 = columnSum others i := by
    rw [hzero i hin, columnSum, List.map_cons, List.sum_cons] at hperms
    exact xor_eq_zero.mp hperms.symm
  have hstart : (List.replicate len (0 : B)).getD i 0 = 0 := by simp [hin]
  have hsame := (hentry i hin).trans (by rw [hstart, zero_add, ← hsum])
  simpa [List.getD, List.getElem?_eq_getElem hi, List.getElem?_eq_getElem hi'] using hsame

/-! ## Blocks of bytes -/

/-- A byte under exclusive or. -/
@[ext] structure Byte where
  bits : BitVec 8
  deriving DecidableEq, Repr

instance : Zero Byte := ⟨⟨0⟩⟩
instance : Add Byte := ⟨fun x y => ⟨x.bits ^^^ y.bits⟩⟩
instance : Neg Byte := ⟨id⟩

instance : XorGroup Byte where
  add_assoc x y z := Byte.ext (BitVec.xor_assoc _ _ _)
  zero_add x := Byte.ext BitVec.zero_xor
  add_zero x := Byte.ext BitVec.xor_zero
  add_comm x y := Byte.ext (BitVec.xor_comm _ _)
  neg_add_cancel x := Byte.ext BitVec.xor_self
  add_self x := Byte.ext BitVec.xor_self
  nsmul := nsmulRec
  zsmul := zsmulRec

instance {κ : Type*} : XorGroup (κ → B) where
  add_self f := funext fun i => xor_self (f i)

end Ironspdk.Lib
