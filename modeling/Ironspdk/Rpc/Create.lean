import Ironspdk.Rpc.Args
import Ironspdk.Raid5.Layout

/-! # The create commands

`rpc_rs_raid1_create` and `rpc_rs_raid5_create` up to the point where they take the name of
the new device, and the options they go on to work out. -/
namespace Ironspdk.Rpc
open Ironspdk.Runtime

/-! ## RAID1 -/

structure Raid1BdevOpts where
  blocklen : Nat := 512
  blockcnt : Nat := 64 * 1024 * 1024 / 512
  writeCache : Bool := false
  deriving DecidableEq, Repr

def Raid1BdevOpts.fromRpc (args : RpcCmdArgs) : Except Error Raid1BdevOpts := do
  let blocklen ← optField args "blocklen" (parseUint 32) 512
  let blockcnt ← optField args "blockcnt" (parseUint 64) (64 * 1024 * 1024 / 512)
  let writeCache ← optField args "write_cache" parseBool false
  return ⟨blocklen, blockcnt, writeCache⟩

def Raid1BdevOpts.toC (opts : Raid1BdevOpts) : SpdkBdevOptsC :=
  { blocklen := opts.blocklen, blockcnt := opts.blockcnt, writeCache := opts.writeCache }

/-- `opts` of `rpc_rs_raid1_create`; `as u32` cuts the block length off. -/
def raid1Opts (args : RpcCmdArgs) (child : BdevDesc) : Except Error SpdkBdevOptsC := do
  let opts ← Raid1BdevOpts.fromRpc args
  let opts := { opts with blockcnt := child.numberOfBlocks, blocklen := child.blockLen % 2 ^ 32 }
  return opts.toC

/-- `rpc_rs_raid1_create` before it takes the name. -/
def raid1Creation (args : RpcCmdArgs) (opened : Nat → Except Int BdevDesc) : Call Creation := do
  let name ← require args "name"
  let children ← require args "children"
  let child ← parseChildren opened (splitNames children)
  return ⟨name, "RAID1", raid1Opts args child⟩

/-! ## RAID5 -/

def raid5FromRpc (args : RpcCmdArgs) : Except Error Raid5.Raid5BdevOpts := do
  let blocklen ← optField args "blocklen" (parseUint 32) 512
  let blockcnt ← optField args "blockcnt" (parseUint 64) (64 * 1024 * 1024 / 512)
  let writeCache ← optField args "write_cache" parseBool false
  let writeUnitSize ← optField args "write_unit_size" (parseUint 32) 0
  let optimalIoBoundary ← optField args "optimal_io_boundary" (parseUint 32) 0
  let splitOnWriteUnit ← optField args "split_on_write_unit" (parseUint 32) 0
  let splitOnOptimalIoBoundary ← optField args "split_on_optimal_io_boundary" (parseUint 32) 0
  return ⟨blocklen, blockcnt, writeCache, writeUnitSize, optimalIoBoundary, splitOnWriteUnit,
    splitOnOptimalIoBoundary⟩

def raid5ToC (opts : Raid5.Raid5BdevOpts) : SpdkBdevOptsC :=
  { blocklen := opts.blocklen
    blockcnt := opts.blockcnt
    writeCache := opts.writeCache
    splitOnWriteUnit := opts.splitOnWriteUnit
    splitOnOptimalIoBoundary := opts.splitOnOptimalIoBoundary
    writeUnitSize := opts.writeUnitSize
    optimalIoBoundary := opts.optimalIoBoundary }

/-- The sizes a RAID5 device reports fit their types, or the request is refused. -/
def raid5Geometry (dev : Raid5.Raid5Bdev) (child : BdevDesc) (opts : Raid5.Raid5BdevOpts) :
    Except Error Raid5.Raid5BdevOpts :=
  match dev.reportGeometry child.blockLen child.numberOfBlocks opts with
  | .ok opts => .ok opts
  | .error .invalidArguments => .error .invalidArguments

/-- `opts` of `rpc_rs_raid5_create`. -/
def raid5Opts (args : RpcCmdArgs) (dev : Raid5.Raid5Bdev) (child : BdevDesc) :
    Except Error SpdkBdevOptsC := do
  let opts ← raid5FromRpc args
  let opts ← raid5Geometry dev child opts
  return raid5ToC opts

def stripSizeKb (args : RpcCmdArgs) : Call Nat :=
  match args "strip_size_kb" with
  | none => pure 0
  | some v =>
    match parseUint 32 v with
    | some kb => pure kb
    | none => throw .intParseError

def parseStripSize (b : Build) (args : RpcCmdArgs) (blocklen : Nat) : Call Nat := do
  let kb ← stripSizeKb args
  let stripSize ← ExceptT.lift (b.fit 32 (kb * 1024))
  if stripSize = 0 then throw .invalidArguments
  else if stripSize % blocklen = 0 then pure stripSize
  else throw .invalidArguments

/-- `parse_children` of RAID5 also refuses empty blocks. -/
def raid5ParseChildren (opened : Nat → Except Int BdevDesc) (names : List String) :
    Call BdevDesc := do
  let child ← parseChildren opened names
  if child.blockLen = 0 then throw .invalidArguments else pure child

/-- What the surroundings make of a RAID5 create: the outcome of each open, the number of
cores, and whether SPDK has room for the worker threads. -/
structure Raid5Env where
  opened : Nat → Except Int BdevDesc
  cores : Nat
  cores_pos : 0 < cores
  spawned : Bool

/-- `Raid5Bdev::new` starts a worker on each core, named after the device. -/
def newRaid5 (name : String) (ndisks stripBlocks : Nat) (env : Raid5Env) :
    Call Raid5.Raid5Bdev :=
  if hasNul name ∨ env.spawned = false then Call.panic
  else
    match Raid5.Raid5Bdev.new ndisks env.cores stripBlocks with
    | some dev => pure dev
    | none => Call.panic

/-- `rpc_rs_raid5_create` before it takes the name. -/
def raid5Creation (b : Build) (args : RpcCmdArgs) (env : Raid5Env) : Call Creation := do
  let name ← require args "name"
  let children ← require args "children"
  let childrenNames := splitNames children
  let ndisks := childrenNames.length
  if ndisks < 3 then throw .invalidArguments
  else
    let child ← raid5ParseChildren env.opened childrenNames
    let stripSize ← parseStripSize b args child.blockLen
    let dev ← newRaid5 name ndisks (stripSize / child.blockLen) env
    return ⟨name, "RAID5", raid5Opts args dev child⟩

/-! ## The checks before `Raid5Bdev::new` -/

theorem parseStripSize_ok {b : Build} {args : RpcCmdArgs} {blocklen stripSize : Nat}
    (h : (parseStripSize b args blocklen).run = some (.ok stripSize)) :
    0 < stripSize ∧ stripSize % blocklen = 0 := by
  obtain ⟨kb, _, h⟩ := Call.bind_ok h
  obtain ⟨size, _, h⟩ := Call.bind_ok h
  split at h
  · cases h
  · rename_i hpos
    split at h
    · rename_i hmod
      cases h
      exact ⟨Nat.pos_of_ne_zero hpos, hmod⟩
    · cases h

theorem raid5ParseChildren_ok {opened : Nat → Except Int BdevDesc} {names : List String}
    {child : BdevDesc} (h : (raid5ParseChildren opened names).run = some (.ok child)) :
    0 < child.blockLen := by
  obtain ⟨c, _, h⟩ := Call.bind_ok h
  split at h
  · cases h
  · rename_i hpos
    cases h
    exact Nat.pos_of_ne_zero hpos

/-- Behind the checks of the create command there is an array to build. -/
theorem newRaid5_total {b : Build} {args : RpcCmdArgs} {env : Raid5Env} {names : List String}
    {child : BdevDesc} {stripSize : Nat} (hn : ¬ names.length < 3)
    (hc : (raid5ParseChildren env.opened names).run = some (.ok child))
    (hs : (parseStripSize b args child.blockLen).run = some (.ok stripSize)) :
    (Raid5.Raid5Bdev.new names.length env.cores (stripSize / child.blockLen)).isSome := by
  obtain ⟨hpos, hmod⟩ := parseStripSize_ok hs
  have hblock := raid5ParseChildren_ok hc
  have hstrip : 0 < stripSize / child.blockLen :=
    Nat.div_pos (Nat.le_of_dvd hpos (Nat.dvd_of_mod_eq_zero hmod)) hblock
  have hok : 3 ≤ names.length ∧ 0 < env.cores ∧ 0 < stripSize / child.blockLen :=
    ⟨by omega, env.cores_pos, hstrip⟩
  simp [Raid5.Raid5Bdev.new, hok]

end Ironspdk.Rpc
