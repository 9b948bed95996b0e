import Mathlib.Data.List.Nodup
import Mathlib.Logic.Function.Basic
import Ironspdk.Lib.Runs
import Ironspdk.Rpc.Create

/-! # The bdev registry

The create and delete commands and the destructions of devices, in any order, with the
outcome of every step that can fail left open. A create takes the name in the registry
before it parses the options: an error there leaves the name behind, unless the build has
debug assertions, which end the process. A device counts as registered until SPDK calls its
destructor. -/
namespace Ironspdk.Rpc
open Ironspdk.Lib Ironspdk.Runtime

/-- Driver objects, in the order `Arc::new` creates them. -/
abbrev BdevHandle := Nat

/-- A registered device, which owns the `BdevCtx` of its name and handle. -/
structure SpdkBdev where
  name : String
  bdev : BdevHandle
  opts : SpdkBdevOptsC
  deriving DecidableEq, Repr

/-- The registry with the registered devices. A panic ends the process. -/
structure Bdevs where
  registry : String → Option BdevHandle
  handles : Nat
  registered : List SpdkBdev
  aborted : Bool

/-- The outcome of the C side of a create: whether memory is left for the `spdk_bdev`, and
what SPDK answers to its registration. -/
structure CreateOutcome where
  allocated : Bool
  rc : Int
  deriving DecidableEq, Repr

inductive Request
  | raid1Create (args : RpcCmdArgs) (opened : Nat → Except Int BdevDesc) (out : CreateOutcome)
  | raid5Create (args : RpcCmdArgs) (env : Raid5Env) (out : CreateOutcome)
  | delete (args : RpcCmdArgs) (rc : Int)
  | destruct (bdev : SpdkBdev)

namespace Bdevs

def start : Bdevs := ⟨fun _ => none, 0, [], false⟩

def bdevRegistryAdd (s : Bdevs) (name : String) (bdevh : BdevHandle) : Except Error Bdevs :=
  match s.registry name with
  | some _ => .error .alreadyExists
  | none => .ok { s with registry := Function.update s.registry name (some bdevh) }

def bdevRegistryRemove (s : Bdevs) (name : String) : Except Error (BdevHandle × Bdevs) :=
  match s.registry name with
  | some bdevh => .ok (bdevh, { s with registry := Function.update s.registry name none })
  | none => .error (.spdkBdevNotFound name)

/-- `raid1_bdev_create` and `raid5_bdev_create`: the return code, and whether the `BdevCtx` has
got its `spdk_bdev`. -/
def bdevCreate (out : CreateOutcome) : Int × Bool :=
  if out.allocated then (out.rc, true) else (-12, false)

/-- `BdevCtx::drop` asserts that the context has its `spdk_bdev`. -/
def dropPanics (b : Build) (hasSpdkBdev : Bool) : Bool := b.debugAssertions && !hasSpdkBdev

/-- The rest of a create command: take the name, work out the options, create the device. -/
def finishCreate (b : Build) (s : Bdevs) (c : Creation) (out : CreateOutcome) :
    Call String × Bdevs :=
  let bdevh := s.handles
  let s := { s with handles := bdevh + 1 }
  match s.bdevRegistryAdd c.name bdevh with
  | .error e => (throw e, s)
  | .ok t =>
    match c.opts with
    | .error e => (if dropPanics b false then Call.panic else throw e, t)
    | .ok opts =>
      if hasNul c.name then (Call.panic, t)
      else
        let (rc, hasSpdkBdev) := bdevCreate out
        if rc = 0 then
          (pure ("Successfully created " ++ c.driver ++ " bdev: '" ++ c.name ++ "'"),
            { t with registered := ⟨c.name, bdevh, opts⟩ :: t.registered })
        else if dropPanics b hasSpdkBdev then (Call.panic, t)
        else
          match t.bdevRegistryRemove c.name with
          | .error e => (throw e, t)
          | .ok (_, t) => (throw (.spdkBdevCreate rc), t)

def create (b : Build) (s : Bdevs) (x : Call Creation) (out : CreateOutcome) :
    Call String × Bdevs :=
  match x.run with
  | none => (Call.panic, s)
  | some (.error e) => (throw e, s)
  | some (.ok c) => s.finishCreate b c out

def rpcRsRaid1Create (b : Build) (s : Bdevs) (args : RpcCmdArgs)
    (opened : Nat → Except Int BdevDesc) (out : CreateOutcome) : Call String × Bdevs :=
  s.create b (raid1Creation args opened) out

def rpcRsRaid5Create (b : Build) (s : Bdevs) (args : RpcCmdArgs) (env : Raid5Env)
    (out : CreateOutcome) : Call String × Bdevs :=
  s.create b (raid5Creation b args env) out

/-- `rpc_rs_bdev_delete`; `rc` is what SPDK answers. The device goes away later. -/
def rpcRsBdevDelete (s : Bdevs) (args : RpcCmdArgs) (rc : Int) : Call String :=
  match args "name" with
  | none => Call.panic
  | some name =>
    if s.registry name = none then throw (.spdkBdevNotFound name)
    else if hasNul name then Call.panic
    else if rc ≠ 0 then throw (.spdkBdevDelete rc)
    else pure ("Successfully deleted bdev '" ++ name ++ "'")

/-- `u_bdev_destruct` with `rsu_bdev_ctx_drop`. -/
def destruct (s : Bdevs) (d : SpdkBdev) : Bdevs :=
  let s := { s with registered := s.registered.erase d }
  match s.bdevRegistryRemove d.name with
  | .ok (_, s) => s
  | .error _ => s

/-- The reply to a request, and the state after it; a destruction has no reply. -/
def handle (b : Build) (s : Bdevs) : Request → Call String × Bdevs
  | .raid1Create args opened out => s.rpcRsRaid1Create b args opened out
  | .raid5Create args env out => s.rpcRsRaid5Create b args env out
  | .delete args rc => (s.rpcRsBdevDelete args rc, s)
  | .destruct d => (pure "", s.destruct d)

/-- A call that panics ends the process. -/
def after (r : Call String × Bdevs) : Bdevs := { r.2 with aborted := r.1.run.isNone }

/-- SPDK destructs registered devices only. -/
def Enabled (s : Bdevs) : Request → Prop
  | .destruct d => d ∈ s.registered
  | _ => True

instance (s : Bdevs) : (q : Request) → Decidable (s.Enabled q)
  | .destruct d => inferInstanceAs (Decidable (d ∈ s.registered))
  | .raid1Create _ _ _ | .raid5Create _ _ _ | .delete _ _ => isTrue trivial

def next (b : Build) (s : Bdevs) (q : Request) : Option Bdevs :=
  if s.aborted = false ∧ s.Enabled q then some (after (s.handle b q)) else none

/-! ## What the registry shows -/

/-- The registry has the names and the handles of the registered devices. -/
def Mirrors (s : Bdevs) : Prop :=
  ∀ name bdevh, s.registry name = some bdevh ↔ ∃ d ∈ s.registered, d.name = name ∧ d.bdev = bdevh

/-- The reply is an `Err`. -/
def Fails (x : Call String) : Prop := ∃ e, x.run = some (.error e)

/-- Once a call has returned, the registry shows the registered devices, and a call that has
returned `Err` has left it as it was. -/
def MirrorsAfter (b : Build) (s : Bdevs) (q : Request) : Prop :=
  ∀ u ∈ s.next b q, u.aborted = false →
    u.Mirrors ∧ (Fails (s.handle b q).1 → u.registry = s.registry)

/-- A create that takes its name finds options it can use, or the build has debug assertions. -/
def Fits (b : Build) (s : Bdevs) (x : Call Creation) : Prop :=
  ∀ c, x.run = some (.ok c) → s.registry c.name = none →
    b.debugAssertions = true ∨ ∃ opts, c.opts = .ok opts

def OptionsFit (b : Build) (s : Bdevs) : Request → Prop
  | .raid1Create args opened _ => s.Fits b (raid1Creation args opened)
  | .raid5Create args env _ => s.Fits b (raid5Creation b args env)
  | .delete _ _ | .destruct _ => True

/-- Registered devices have different names, and the registry shows them. -/
structure Inv (s : Bdevs) : Prop where
  names : (s.registered.map (·.name)).Nodup
  mirrors : s.Mirrors

theorem inv_start : start.Inv := ⟨List.nodup_nil, by simp [Mirrors, start]⟩

variable {b : Build} {s : Bdevs}

theorem Mirrors.none_iff (h : s.Mirrors) {name : String} :
    s.registry name = none ↔ ∀ d ∈ s.registered, d.name ≠ name := by
  constructor
  · intro hn d hd he
    have := (h name d.bdev).mpr ⟨d, hd, he, rfl⟩
    rw [hn] at this
    cases this
  · intro hall
    cases hr : s.registry name with
    | none => rfl
    | some bdevh =>
      obtain ⟨d, hd, he, _⟩ := (h name bdevh).mp hr
      exact absurd he (hall d hd)

/-- Devices and registry are untouched. -/
theorem Inv.same {u : Bdevs} (h : s.Inv) (hr : u.registry = s.registry)
    (hd : u.registered = s.registered) : u.Inv :=
  ⟨hd ▸ h.names, fun name bdevh => by rw [hr, hd]; exact h.mirrors name bdevh⟩

theorem Inv.register (h : s.Inv) {d : SpdkBdev} (hfree : s.registry d.name = none) (n : Nat)
    (a : Bool) :
    Inv ⟨Function.update s.registry d.name (some d.bdev), n, d :: s.registered, a⟩ := by
  have hnew : ∀ d' ∈ s.registered, d'.name ≠ d.name := h.mirrors.none_iff.mp hfree
  refine ⟨List.nodup_cons.mpr ⟨?_, h.names⟩, fun name bdevh => ?_⟩
  · intro hm
    obtain ⟨d', hd', he⟩ := List.mem_map.mp hm
    exact hnew d' hd' he
  · by_cases he : name = d.name
    · subst he
      simp only [Function.update_self, Option.some.injEq, List.mem_cons]
      constructor
      · intro hb
        exact ⟨d, Or.inl rfl, rfl, hb⟩
      · intro ⟨d', hd', hn, hb⟩
        rcases hd' with rfl | hd'
        · exact hb
        · exact absurd hn (hnew d' hd')
    · simp only [Function.update_of_ne he, List.mem_cons]
      refine (h.mirrors name bdevh).trans ⟨?_, ?_⟩
      · intro ⟨d', hd', hn⟩
        exact ⟨d', Or.inr hd', hn⟩
      · intro ⟨d', hd', hn, hb⟩
        rcases hd' with rfl | hd'
        · exact absurd hn.symm he
        · exact ⟨d', hd', hn, hb⟩

theorem Inv.destruct (h : s.Inv) {d : SpdkBdev} (hd : d ∈ s.registered) : (s.destruct d).Inv := by
  have hr : s.registry d.name = some d.bdev := (h.mirrors d.name d.bdev).mpr ⟨d, hd, rfl, rfl⟩
  have hu : s.destruct d = { s with
      registered := s.registered.erase d, registry := Function.update s.registry d.name none } := by
    simp [Bdevs.destruct, bdevRegistryRemove, hr]
  have hnodup : s.registered.Nodup := List.Nodup.of_map _ h.names
  have hname : ∀ d' ∈ s.registered, d'.name = d.name → d' = d := fun d' hd' he =>
    List.inj_on_of_nodup_map h.names hd' hd he
  rw [hu]
  refine ⟨h.names.sublist (List.erase_sublist.map _), fun name bdevh => ?_⟩
  simp only [hnodup.mem_erase_iff]
  by_cases he : name = d.name
  · subst he
    rw [Function.update_self]
    constructor
    · intro hb
      cases hb
    · intro ⟨d', ⟨hne, hd'⟩, hn, _⟩
      exact absurd (hname d' hd' hn) hne
  · rw [Function.update_of_ne he]
    refine (h.mirrors name bdevh).trans ⟨?_, ?_⟩
    · intro ⟨d', hd', hn, hb⟩
      have hne : d' ≠ d := by
        intro hdd
        rw [hdd] at hn
        exact he hn.symm
      exact ⟨d', ⟨hne, hd'⟩, hn, hb⟩
    · intro ⟨d', ⟨_, hd'⟩, hn⟩
      exact ⟨d', hd', hn⟩

/-! ## What a create does -/

/-- A create panics, or fails and changes nothing, or registers a device, or fails with the
name left behind. -/
inductive Created (b : Build) (s : Bdevs) (x : Call Creation) : Call String × Bdevs → Prop
  | panicked {t : Bdevs} (hfit : s.Fits b x) : Created b s x (Call.panic, t)
  | refused {e : Error} {t : Bdevs} (hr : t.registry = s.registry)
      (hd : t.registered = s.registered) (hfit : s.Fits b x) : Created b s x (throw e, t)
  | registered {d : SpdkBdev} {msg : String} {n : Nat} {a : Bool}
      (hfree : s.registry d.name = none) (hfit : s.Fits b x) : Created b s x (pure msg,
        ⟨Function.update s.registry d.name (some d.bdev), n, d :: s.registered, a⟩)
  | leaked {c : Creation} {e : Error} {t : Bdevs} (hx : x.run = some (.ok c))
      (hopts : c.opts = .error e) (hb : b.debugAssertions = false)
      (hfree : s.registry c.name = none)
      (hr : t.registry = Function.update s.registry c.name (some s.handles))
      (hd : t.registered = s.registered) : Created b s x (throw e, t)

theorem fits_of_opts {x : Call Creation} {c : Creation} {opts : SpdkBdevOptsC}
    (hx : x.run = some (.ok c)) (hopts : c.opts = .ok opts) : s.Fits b x := by
  intro c' hc' _
  cases hx.symm.trans hc'
  exact Or.inr ⟨opts, hopts⟩

theorem fits_of_taken {x : Call Creation} {c : Creation} {bdevh : BdevHandle}
    (hx : x.run = some (.ok c)) (htaken : s.registry c.name = some bdevh) : s.Fits b x := by
  intro c' hc' hfree
  cases hx.symm.trans hc'
  cases htaken.symm.trans hfree

theorem finishCreate_created {x : Call Creation} {c : Creation} (hx : x.run = some (.ok c))
    (out : CreateOutcome) : Created b s x (s.finishCreate b c out) := by
  unfold finishCreate bdevRegistryAdd
  simp only
  cases hreg : s.registry c.name with
  | some bdevh => exact .refused rfl rfl (fits_of_taken hx hreg)
  | none =>
    simp only
    cases hopts : c.opts with
    | error e =>
      simp only
      by_cases hb : b.debugAssertions = true
      · rw [if_pos (by simp [dropPanics, hb])]
        exact .panicked fun _ _ _ => Or.inl hb
      · have hb : b.debugAssertions = false := Bool.eq_false_iff.mpr hb
        rw [if_neg (by simp [dropPanics, hb])]
        exact .leaked hx hopts hb hreg rfl rfl
    | ok opts =>
      have hfit : s.Fits b x := fits_of_opts hx hopts
      simp only
      split
      · exact .panicked hfit
      · split
        · exact .registered (d := ⟨c.name, s.handles, opts⟩) hreg hfit
        · split
          · exact .panicked hfit
          · -- the name that is removed is the one just taken
            have hback : Function.update (Function.update s.registry c.name (some s.handles))
                c.name none = s.registry := by
              rw [Function.update_idem, ← hreg, Function.update_eq_self]
            simp only [bdevRegistryRemove, Function.update_self, hback]
            exact .refused rfl rfl hfit

theorem create_created (b : Build) (s : Bdevs) (x : Call Creation) (out : CreateOutcome) :
    Created b s x (s.create b x out) := by
  unfold create
  cases hx : x.run with
  | none => exact .panicked fun c hc _ => by cases hx.symm.trans hc
  | some r =>
    cases r with
    | error e =>
      refine .refused rfl rfl fun c hc _ => ?_
      cases hx.symm.trans hc
    | ok c => exact finishCreate_created hx out

/-- What is known between two calls. -/
def Sound (s : Bdevs) : Prop := s.aborted = false → s.Inv

/-- A returned call that shows the registered devices and, if it failed, changed nothing. -/
def Exact (s : Bdevs) (r : Call String × Bdevs) : Prop :=
  (after r).aborted = false →
    (after r).Mirrors ∧ (Fails r.1 → (after r).registry = s.registry)

/-- A create keeps the registry exact if and only if it takes no name in vain. -/
theorem Created.exact_iff {x : Call Creation} {r : Call String × Bdevs} (hc : Created b s x r)
    (h : s.Inv) : (s.Exact r ↔ s.Fits b x) ∧ (s.Fits b x → (after r).Sound) := by
  cases hc with
  | panicked hfit => exact ⟨iff_of_true (fun ha => (by cases ha)) hfit, fun _ ha => by cases ha⟩
  | refused hr hd hfit =>
    rename_i e t
    have hsame : (after (throw e, t)).Inv := h.same hr hd
    exact ⟨iff_of_true (fun _ => ⟨hsame.mirrors, fun _ => hr⟩) hfit, fun _ _ => hsame⟩
  | registered hfree hfit =>
    rename_i d msg n a
    have hnew := h.register hfree n false
    refine ⟨iff_of_true (fun _ => ⟨hnew.mirrors, fun ⟨e, he⟩ => ?_⟩) hfit, fun _ _ => hnew⟩
    cases he
  | leaked hx hopts hb hfree hr hd =>
    rename_i c e t
    have hno : ¬ s.Fits b x := by
      intro hfit
      rcases hfit c hx hfree with hdebug | ⟨opts, hok⟩
      · cases hb.symm.trans hdebug
      · cases hopts.symm.trans hok
    refine ⟨iff_of_false (fun hexact => ?_) hno, fun hfit => absurd hfit hno⟩
    have hkept : t.registry c.name = s.registry c.name :=
      congrFun ((hexact rfl).2 ⟨e, rfl⟩) c.name
    rw [hr, Function.update_self, hfree] at hkept
    cases hkept

theorem step_iff {q : Request} {u : Bdevs} (h : s.Sound) (hn : s.next b q = some u) :
    (s.MirrorsAfter b q ↔ s.OptionsFit b q) ∧ (s.OptionsFit b q → u.Sound) := by
  unfold next at hn
  split at hn
  · rename_i hen
    obtain ⟨ha, hen⟩ := hen
    cases hn
    have hexact : s.MirrorsAfter b q ↔ s.Exact (s.handle b q) := by
      simp [MirrorsAfter, Exact, next, ha, hen]
    rw [hexact]
    cases q with
    | raid1Create args opened out => exact (create_created b s _ out).exact_iff (h ha)
    | raid5Create args env out => exact (create_created b s _ out).exact_iff (h ha)
    | delete args rc =>
      have hsame : (after (s.handle b (.delete args rc))).Inv := (h ha).same rfl rfl
      exact ⟨iff_of_true (fun _ => ⟨hsame.mirrors, fun _ => rfl⟩) trivial, fun _ _ => hsame⟩
    | destruct d =>
      have hgone : (after (s.handle b (.destruct d))).Inv := ((h ha).destruct hen).same rfl rfl
      refine ⟨iff_of_true (fun _ => ⟨hgone.mirrors, fun ⟨e, he⟩ => ?_⟩) trivial, fun _ _ => hgone⟩
      cases he
  · cases hn

/-- **When the registry mirrors the devices.** In any sequence of create and delete commands
and destructions of devices, with any arguments and any outcome of each step that can fail:
the registry has the names and handles of the registered devices after every call, and calls
that return `Err` leave it as it was, if and only if every create that takes its name in the
registry finds options that parse and sizes that fit (or the build has debug assertions, and
the process ends there). -/
theorem registry_mirrors_iff (b : Build) (qs : List Request) :
    Along (next b) (MirrorsAfter b) start qs ↔ Along (next b) (OptionsFit b) start qs := by
  have hstart : start.Sound := fun _ => inv_start
  constructor
  · exact along_of_invariant
      (fun _ _ _ h hm hn => (step_iff h hn).2 ((step_iff h hn).1.mp hm))
      (fun _ _ _ h hm hn => (step_iff h hn).1.mp hm) hstart
  · exact along_of_invariant (fun _ _ _ h hf hn => (step_iff h hn).2 hf)
      (fun _ _ _ h hf hn => (step_iff h hn).1.mpr hf) hstart

/-- One child of 8 blocks, and a block length that is no number. -/
def badOptions : RpcCmdArgs := fun field =>
  if field = "name" then some "mirror"
  else if field = "children" then some "disk0"
  else if field = "blocklen" then some "x"
  else none

/-- The create returns an error, and its name stays in the registry without a device. -/
theorem name_leaked :
    ¬ Along (next release) (MirrorsAfter release) start
      [.raid1Create badOptions (fun _ => .ok ⟨512, 8⟩) ⟨true, 0⟩] ∧
    ∃ s, start.next release (.raid1Create badOptions (fun _ => .ok ⟨512, 8⟩) ⟨true, 0⟩) = some s ∧
      (start.rpcRsRaid1Create release badOptions (fun _ => .ok ⟨512, 8⟩) ⟨true, 0⟩).1.run =
        some (.error (.invalidField "blocklen")) ∧
      s.registry "mirror" = some 0 ∧ s.registered = [] := by
  let q : Request := .raid1Create badOptions (fun _ => .ok ⟨512, 8⟩) ⟨true, 0⟩
  let s := after (start.handle release q)
  have hn : start.next release q = some s := rfl
  have hreg : s.registry "mirror" = some 0 := by decide
  refine ⟨fun h => ?_, s, hn, by decide, hreg, by decide⟩
  obtain ⟨hm, _⟩ := h s hn
  obtain ⟨d, hd, _⟩ := ((hm s hn (by decide)).1 "mirror" 0).mp hreg
  cases hd

end Bdevs

end Ironspdk.Rpc
