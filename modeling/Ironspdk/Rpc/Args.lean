import Ironspdk.Runtime.Call

/-! # Arguments of RPC commands

The argument map of a command, and what the handlers do with its texts: `str::parse` for
integers and booleans, the fields of `define_bdev_opts!`, the names of the children and what
opening them shows. -/
namespace Ironspdk.Rpc
open Ironspdk.Runtime

/-! ## Texts -/

abbrev RpcCmdArgs := String → Option String

def require (args : RpcCmdArgs) (field : String) : Call String :=
  match args field with
  | some v => pure v
  | none => throw .invalidArguments

def parseDigits (bits acc : Nat) : List Char → Option Nat
  | [] => some acc
  | c :: cs =>
    let n := acc * 10 + (c.toNat - 48)
    if c.isDigit ∧ n < 2 ^ bits then parseDigits bits n cs else none

/-- `str::parse` for an unsigned integer type: decimal digits, perhaps after a plus sign. -/
def parseUint (bits : Nat) (s : String) : Option Nat :=
  match s.toList with
  | [] | ['+'] => none
  | '+' :: cs => parseDigits bits 0 cs
  | cs => parseDigits bits 0 cs

def parseBool (s : String) : Option Bool :=
  if s = "true" then some true else if s = "false" then some false else none

/-- A text that `CString::new` refuses. -/
def hasNul (s : String) : Bool := s.toList.contains (Char.ofNat 0)

/-- The names of the children: the words of a text, separated by blanks. -/
def splitNames (s : String) : List String :=
  ((s.toList.splitOn (Char.ofNat 32)).filter (!·.isEmpty)).map String.ofList

/-- A field of `define_bdev_opts!` in `from_rpc`. -/
def optField {α : Type} (args : RpcCmdArgs) (field : String) (parse : String → Option α)
    (default : α) : Except Error α :=
  match args field with
  | none => .ok default
  | some v =>
    match parse v with
    | some a => .ok a
    | none => .error (.invalidField field)

/-- The options passed to C: the fields that some driver sets. -/
structure SpdkBdevOptsC where
  blocklen : Nat := 0
  blockcnt : Nat := 0
  writeCache : Bool := false
  splitOnWriteUnit : Nat := 0
  splitOnOptimalIoBoundary : Nat := 0
  writeUnitSize : Nat := 0
  optimalIoBoundary : Nat := 0
  deriving DecidableEq, Repr

/-! ## Children -/

/-- What a descriptor shows of its device. -/
structure BdevDesc where
  blockLen : Nat
  numberOfBlocks : Nat
  deriving DecidableEq, Repr

/-- `Lbdev::open`; the outcome is the descriptor or the return code of SPDK. -/
def lbdevOpen (name : String) (outcome : Except Int BdevDesc) : Call BdevDesc :=
  if hasNul name then Call.panic
  else
    match outcome with
    | .ok desc => pure desc
    | .error rc => throw (.spdkBdevOpen rc)

/-- The loop of `parse_children`, with the sizes of the children opened so far. `opened` has
the outcome of each open, by position. -/
def parseChildrenLoop (opened : Nat → Except Int BdevDesc) :
    Nat → Option BdevDesc → List String → Call (Option BdevDesc)
  | _, seen, [] => pure seen
  | i, seen, name :: names => do
    let dev ← lbdevOpen name (opened i)
    match seen with
    | none => parseChildrenLoop opened (i + 1) (some dev) names
    | some existing =>
      if existing.blockLen ≠ dev.blockLen then throw .invalidArguments
      else if existing.numberOfBlocks ≠ dev.numberOfBlocks then throw .invalidArguments
      else parseChildrenLoop opened (i + 1) seen names

/-- `parse_children`: the common sizes of all children. -/
def parseChildren (opened : Nat → Except Int BdevDesc) (names : List String) : Call BdevDesc :=
  if names = [] then throw .invalidArguments
  else do
    match ← parseChildrenLoop opened 0 none names with
    | some desc => pure desc
    | none => Call.panic

/-! ## Creation -/

/-- A device that a create command is about to register: its name, the kind of its driver,
and the options, which are worked out once the name has been taken. -/
structure Creation where
  name : String
  driver : String
  opts : Except Error SpdkBdevOptsC

end Ironspdk.Rpc
