import Mathlib.Tactic.Common

/-! # Requests of the block device layer

`IoType`, `IoStatus` and the fields of `BdevIo` that the drivers read. -/
namespace Ironspdk.Runtime

inductive IoType
  | invalid | read | write | unmap | flush | reset | nvmeAdmin | nvmeIo | nvmeIoMd | writeZeroes
  | zcopy | genZoneInfo | zoneManagement | zoneAppend | compare | compareAndWrite | abort
  | seekHole | seekData | copy | nvmeIovMd | nvmeNssr | writeUncorrectable
  deriving DecidableEq, Repr

inductive IoStatus
  | success | failure
  deriving DecidableEq, Repr

/-- What `BdevIo` reports of a request: `io_type`, `offset_blocks` and `num_blocks`. -/
structure BdevIo where
  ioType : IoType
  offsetBlocks : Nat
  numBlocks : Nat
  deriving DecidableEq, Repr

end Ironspdk.Runtime
