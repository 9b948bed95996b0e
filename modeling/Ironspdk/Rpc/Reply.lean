import Ironspdk.Rpc.Geometry
import Ironspdk.Rpc.Registry

/-! # Replies to RPC commands

`rs_handle_rpc_cmd` with the texts of the errors. Here the create commands also run what the
driver does with its worker threads: a message to each of them when the device is initialised,
and another when its object is dropped. `send_msg` panics where SPDK refuses the message. -/
namespace Ironspdk.Rpc
open Ironspdk.Runtime

/-! ## Texts -/

/-- `Display` of `Error`. -/
def display : Error → String
  | .alreadyExists => "This entity already exists"
  | .spdkBdevNotFound name => "SPDK block device '" ++ name ++ "' not found"
  | .spdkBdevDelete rc => "Failed to delete SPDK block device: " ++ toString rc
  | .spdkBdevCreate rc => "Failed to create SPDK block device: " ++ toString rc
  | .spdkBdevOpen rc => "Failed to open SPDK block device: " ++ toString rc
  | .rpcCmdUnknown cmd => "Unknown RPC command '" ++ cmd
  | .invalidArguments => "Invalid arguments"
  | .invalidField field => "Invalid field '" ++ field ++ "'"
  | .noMemory => "Out of memory"
  | .unsupportedFeature => "Unsupported feature"
  | .sharedBufferModification => "Attempt to modify shared buffer"
  | .unsupportedOperation => "Unsupported operation"
  | .outOfRange => "Out of range"
  | .intDowncast => "Integer downcast error"
  | .intParseError => "Integer parse error"

/-- The text of the reply. -/
def replyText : Except Error String → String
  | .ok result => result
  | .error e => "Error: " ++ display e

/-! ## Drivers -/

/-- `send_msg` to every worker; `none` is a panic. -/
def sendMsgs (rc : Nat → Int) (workers : Nat) : Option Unit :=
  if ∀ i < workers, rc i = 0 then some () else none

/-- What `Bdev::init` and the drop of the driver object come to. -/
structure Driver where
  init : Option Unit
  drop : Option Unit
  deriving DecidableEq, Repr

def raid1Driver : Driver := ⟨some (), some ()⟩

/-- What SPDK answers to the messages to each worker. -/
structure Sends where
  init : Nat → Int
  exit : Nat → Int

def raid5Driver (env : Raid5Env) (sends : Sends) : Driver :=
  ⟨sendMsgs sends.init env.cores, sendMsgs sends.exit env.cores⟩

/-! ## Handlers -/

namespace Bdevs

/-- `finishCreate` with the driver: `u_bdev_register` calls `Bdev::init`, and where the name is
not left in the registry an error drops the last handle of the driver object. -/
def finishCreateWith (b : Build) (s : Bdevs) (c : Creation) (out : CreateOutcome)
    (driver : Driver) : Call String × Bdevs :=
  let bdevh := s.handles
  let s := { s with handles := bdevh + 1 }
  match s.bdevRegistryAdd c.name bdevh with
  | .error e => (do ExceptT.lift driver.drop; throw e, s)
  | .ok t =>
    match c.opts with
    | .error e => (if dropPanics b false then Call.panic else throw e, t)
    | .ok opts =>
      if hasNul c.name then (Call.panic, t)
      else if out.allocated ∧ driver.init = none then (Call.panic, t)
      else
        let (rc, hasSpdkBdev) := bdevCreate out
        if rc = 0 then
          (pure ("Successfully created " ++ c.driver ++ " bdev: '" ++ c.name ++ "'"),
            { t with registered := ⟨c.name, bdevh, opts⟩ :: t.registered })
        else if dropPanics b hasSpdkBdev then (Call.panic, t)
        else
          match t.bdevRegistryRemove c.name with
          | .error e => (do ExceptT.lift driver.drop; throw e, t)
          | .ok (_, t) => (do ExceptT.lift driver.drop; throw (.spdkBdevCreate rc), t)

def createWith (b : Build) (s : Bdevs) (x : Call Creation) (out : CreateOutcome)
    (driver : Driver) : Call String × Bdevs :=
  match x.run with
  | none => (Call.panic, s)
  | some (.error e) => (throw e, s)
  | some (.ok c) => s.finishCreateWith b c out driver

/-- What SPDK makes of a command: the opens of the children and the worker threads, the
messages to these, the new device, and the deletion. -/
structure Env where
  raid5 : Raid5Env
  sends : Sends
  out : CreateOutcome
  deleteRc : Int

/-- The handler that the dispatch table has for the command. -/
def handleRpcCmd (b : Build) (s : Bdevs) (cmd : String) (args : RpcCmdArgs) (env : Env) :
    Call String × Bdevs :=
  if cmd = "rs_bdev_delete" then (s.rpcRsBdevDelete args env.deleteRc, s)
  else if cmd = "rs_raid1_create" then
    s.createWith b (raid1Creation args env.raid5.opened) env.out raid1Driver
  else if cmd = "rs_raid5_create" then
    s.createWith b (raid5Creation b args env.raid5) env.out (raid5Driver env.raid5 env.sends)
  else (throw (.rpcCmdUnknown cmd), s)

/-- The reply of `rs_handle_rpc_cmd`; `none` is a panic. -/
def rsHandleRpcCmd (b : Build) (s : Bdevs) (cmd : String) (args : RpcCmdArgs) (env : Env) :
    Option String := do
  let result ← (s.handleRpcCmd b cmd args env).1.run
  let out := replyText result
  if hasNul out then none else some out

/-- As long as SPDK takes the messages, a create command does what the registry shows of it. -/
theorem createWith_silent (b : Build) (s : Bdevs) (x : Call Creation) (out : CreateOutcome) :
    s.createWith b x out ⟨some (), some ()⟩ = s.create b x out := by
  unfold createWith create
  cases x.run with
  | none => rfl
  | some r =>
    cases r with
    | error e => rfl
    | ok c =>
      unfold finishCreateWith finishCreate
      simp only [and_false, reduceCtorEq, if_false]
      rfl

end Bdevs

end Ironspdk.Rpc
