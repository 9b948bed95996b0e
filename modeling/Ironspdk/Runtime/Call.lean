import Mathlib.Tactic.Common
import Mathlib.Data.Nat.ModEq

/-! # What calls come to

`Error`, and the outcome of a call: a value, an `Err` or a panic. -/
namespace Ironspdk.Runtime

inductive Error
  | alreadyExists
  | spdkBdevNotFound (name : String)
  | spdkBdevDelete (rc : Int)
  | spdkBdevCreate (rc : Int)
  | spdkBdevOpen (rc : Int)
  | rpcCmdUnknown (cmd : String)
  | invalidArguments
  | invalidField (field : String)
  | noMemory
  | unsupportedFeature
  | sharedBufferModification
  | unsupportedOperation
  | outOfRange
  | intDowncast
  | intParseError
  deriving DecidableEq, Repr

/-- The settings of a build that decide what panics; cargo's dev profile has both. -/
structure Build where
  debugAssertions : Bool
  overflowChecks : Bool
  deriving DecidableEq, Repr

def release : Build := ⟨false, false⟩

/-- `n` as the result of an operation on an unsigned type of `bits` bits; `none` is a panic. -/
def Build.fit (b : Build) (bits n : Nat) : Option Nat :=
  if n < 2 ^ bits then some n else if b.overflowChecks then none else some (n % 2 ^ bits)

theorem Build.fit_of_lt (b : Build) {bits n : Nat} (h : n < 2 ^ bits) : b.fit bits n = some n :=
  if_pos h

/-- What a call comes to; `none` is a panic. -/
abbrev Call (α : Type) := ExceptT Error Option α

def Call.panic {α : Type} : Call α := ExceptT.mk none

theorem Call.bind_ok {α β : Type} {x : Call α} {f : α → Call β} {b : β}
    (h : (x >>= f).run = some (.ok b)) : ∃ a, x.run = some (.ok a) ∧ (f a).run = some (.ok b) := by
  rw [ExceptT.run_bind] at h
  cases hx : x.run with
  | none =>
    rw [hx] at h
    cases h
  | some r =>
    rw [hx] at h
    cases r with
    | error e => cases h
    | ok a => exact ⟨a, rfl, h⟩

end Ironspdk.Runtime
