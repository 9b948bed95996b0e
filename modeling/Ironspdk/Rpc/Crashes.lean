import Ironspdk.Rpc.Reply

/-! # Which commands crash the process

A panic in a handler crosses an `extern "C"` boundary. Each part of a handler gets two facts,
when it panics and when it returns a value; the handlers are put together from these. -/
namespace Ironspdk.Rpc
open Ironspdk.Runtime

/-! ## Calls -/

@[simp] theorem run_panic {α : Type} : (Call.panic : Call α).run = none := rfl

theorem panics_bind {α β : Type} {x : Call α} {f : α → Call β} :
    (x >>= f).run = none ↔ x.run = none ∨ ∃ a, x.run = some (.ok a) ∧ (f a).run = none := by
  rw [ExceptT.run_bind]
  cases x.run with
  | none => simp
  | some r =>
    cases r with
    | error e => simp
    | ok a => simp

theorem ok_bind {α β : Type} {x : Call α} {f : α → Call β} {b : β} :
    (x >>= f).run = some (.ok b) ↔ ∃ a, x.run = some (.ok a) ∧ (f a).run = some (.ok b) := by
  refine ⟨Call.bind_ok, ?_⟩
  intro h
  obtain ⟨a, ha, hb⟩ := h
  rw [ExceptT.run_bind, ha]
  exact hb

theorem require_panics {args : RpcCmdArgs} {field : String} :
    (require args field).run = none ↔ False := by
  unfold require
  split
  · exact iff_of_false (fun h => by cases h) id
  · exact iff_of_false (fun h => by cases h) id

theorem require_ok_iff {args : RpcCmdArgs} {field v : String} :
    (require args field).run = some (.ok v) ↔ args field = some v :=
  ⟨require_ok, require_run⟩

/-! ## The children -/

/-- The children up to the `n`-th open, and all show the sizes `desc`. -/
def Agree (opened : Nat → Except Int BdevDesc) (n : Nat) (desc : BdevDesc) : Prop :=
  ∀ i < n, opened i = .ok desc

/-- Some name has a NUL, and the children before it are accepted. -/
def ReachesNul (opened : Nat → Except Int BdevDesc) (names : List String) : Prop :=
  ∃ before name after desc, names = before ++ name :: after ∧ hasNul name = true ∧
    (∀ n ∈ before, hasNul n = false) ∧ Agree opened before.length desc

/-- The children are accepted. -/
structure Accepts (opened : Nat → Except Int BdevDesc) (names : List String) (child : BdevDesc) :
    Prop where
  ne_nil : names ≠ []
  noNul : ∀ n ∈ names, hasNul n = false
  agree : Agree opened names.length child

variable {opened : Nat → Except Int BdevDesc} {names : List String} {child desc : BdevDesc}

theorem lbdevOpen_panics {name : String} {outcome : Except Int BdevDesc} :
    (lbdevOpen name outcome).run = none ↔ hasNul name = true := by
  unfold lbdevOpen
  split
  · rename_i hnul
    exact iff_of_true rfl hnul
  · rename_i hnul
    refine iff_of_false (fun h => ?_) hnul
    split at h
    · cases h
    · cases h

theorem lbdevOpen_ok {name : String} {outcome : Except Int BdevDesc} :
    (lbdevOpen name outcome).run = some (.ok desc) ↔ hasNul name = false ∧ outcome = .ok desc := by
  unfold lbdevOpen
  cases hasNul name with
  | true => exact iff_of_false (fun h => by cases h) (fun h => by cases h.1)
  | false =>
    cases outcome with
    | error rc => exact iff_of_false (fun h => by cases h) (fun h => by cases h.2)
    | ok desc' =>
      refine ⟨fun h => ?_, fun h => ?_⟩
      · cases h
        exact ⟨rfl, rfl⟩
      · cases h.2
        rfl

/-- A child is taken if it has the sizes of those before it. -/
theorem parseChildrenLoop_cons (i : Nat) (seen : Option BdevDesc) (name : String)
    (names : List String) : parseChildrenLoop opened i seen (name :: names) =
      lbdevOpen name (opened i) >>= fun dev =>
        if ∀ d ∈ seen, d = dev then parseChildrenLoop opened (i + 1) (some dev) names
        else throw .invalidArguments := by
  rw [parseChildrenLoop]
  congr 1
  funext dev
  cases seen with
  | none => rw [if_pos (by simp)]
  | some d =>
    obtain ⟨blockLen, numberOfBlocks⟩ := d
    obtain ⟨blockLen', numberOfBlocks'⟩ := dev
    by_cases hlen : blockLen = blockLen'
    · by_cases hnum : numberOfBlocks = numberOfBlocks'
      · simp [hlen, hnum]
      · simp [hlen, hnum]
    · simp [hlen]

theorem agree_succ {i n : Nat} : (∀ j < n + 1, opened (i + j) = .ok desc) ↔
    opened i = .ok desc ∧ ∀ j < n, opened (i + 1 + j) = .ok desc := by
  constructor
  · intro h
    refine ⟨h 0 (Nat.succ_pos n), fun j hj => ?_⟩
    rw [Nat.add_right_comm]
    exact h (j + 1) (Nat.succ_lt_succ hj)
  · intro h j hj
    obtain ⟨hfirst, hrest⟩ := h
    cases j with
    | zero => exact hfirst
    | succ j =>
      have hj' := hrest j (Nat.lt_of_succ_lt_succ hj)
      rwa [Nat.add_right_comm] at hj'

theorem parseChildrenLoop_panics {i : Nat} {seen : Option BdevDesc} :
    (parseChildrenLoop opened i seen names).run = none ↔ ∃ before name after desc,
      names = before ++ name :: after ∧ hasNul name = true ∧ (∀ n ∈ before, hasNul n = false) ∧
      (∀ j < before.length, opened (i + j) = .ok desc) ∧ ∀ d ∈ seen, d = desc := by
  induction names generalizing i seen with
  | nil => simp [parseChildrenLoop]
  | cons n names ih =>
    rw [parseChildrenLoop_cons, panics_bind, lbdevOpen_panics]
    constructor
    · intro h
      rcases h with hnul | ⟨dev, hopen, hrest⟩
      · refine ⟨[], n, names, seen.getD ⟨0, 0⟩, rfl, hnul, by simp, by simp, fun d hd => ?_⟩
        rw [hd]
        rfl
      · obtain ⟨hn, hdev⟩ := lbdevOpen_ok.mp hopen
        split at hrest
        · rename_i hseen
          obtain ⟨before, name, after, desc, rfl, hnul, hbefore, hagree, hsame⟩ := ih.mp hrest
          cases hsame dev rfl
          exact ⟨n :: before, name, after, dev, rfl, hnul,
            List.forall_mem_cons.mpr ⟨hn, hbefore⟩, agree_succ.mpr ⟨hdev, hagree⟩, hseen⟩
        · cases hrest
    · intro h
      obtain ⟨before, name, after, desc, hsplit, hnul, hbefore, hagree, hsame⟩ := h
      cases before with
      | nil =>
        cases hsplit
        exact Or.inl hnul
      | cons n' before =>
        cases hsplit
        obtain ⟨hn, hbefore⟩ := List.forall_mem_cons.mp hbefore
        obtain ⟨hdev, hagree⟩ := agree_succ.mp hagree
        refine Or.inr ⟨desc, lbdevOpen_ok.mpr ⟨hn, hdev⟩, ?_⟩
        rw [if_pos hsame]
        exact ih.mpr ⟨before, name, after, desc, rfl, hnul, hbefore, hagree, by simp⟩

theorem parseChildrenLoop_ok {i : Nat} {seen : Option BdevDesc} :
    (parseChildrenLoop opened i seen names).run = some (.ok (some child)) ↔
      (∀ n ∈ names, hasNul n = false) ∧ (∀ j < names.length, opened (i + j) = .ok child) ∧
      (∀ d ∈ seen, d = child) ∧ (names = [] → seen = some child) := by
  induction names generalizing i seen with
  | nil =>
    have hrun : (parseChildrenLoop opened i seen []).run = some (.ok seen) := rfl
    rw [hrun]
    constructor
    · intro h
      cases h
      simp
    · intro h
      obtain ⟨_, _, _, hseen⟩ := h
      rw [hseen rfl]
  | cons n names ih =>
    rw [parseChildrenLoop_cons, ok_bind]
    constructor
    · intro h
      obtain ⟨dev, hopen, hrest⟩ := h
      obtain ⟨hn, hdev⟩ := lbdevOpen_ok.mp hopen
      split at hrest
      · rename_i hseen
        obtain ⟨hnames, hagree, hsame, _⟩ := ih.mp hrest
        cases hsame dev rfl
        exact ⟨List.forall_mem_cons.mpr ⟨hn, hnames⟩, agree_succ.mpr ⟨hdev, hagree⟩, hseen,
          by simp⟩
      · cases hrest
    · intro h
      obtain ⟨hnames, hagree, hseen, _⟩ := h
      obtain ⟨hn, hnames⟩ := List.forall_mem_cons.mp hnames
      obtain ⟨hdev, hagree⟩ := agree_succ.mp hagree
      refine ⟨child, lbdevOpen_ok.mpr ⟨hn, hdev⟩, ?_⟩
      rw [if_pos hseen]
      exact ih.mpr ⟨hnames, hagree, by simp, fun _ => rfl⟩

/-- The loop does not end without sizes once there was a child. -/
theorem parseChildrenLoop_seen {i : Nat} {seen : Option BdevDesc}
    (h : names ≠ [] ∨ seen.isSome = true) :
    (parseChildrenLoop opened i seen names).run ≠ some (.ok none) := by
  induction names generalizing i seen with
  | nil =>
    rintro hrun
    cases hrun
    simp at h
  | cons n names ih =>
    rw [parseChildrenLoop_cons]
    intro hrun
    obtain ⟨dev, _, hrest⟩ := ok_bind.mp hrun
    split at hrest
    · exact ih (Or.inr rfl) hrest
    · cases hrest

theorem parseChildren_panics :
    (parseChildren opened names).run = none ↔ ReachesNul opened names := by
  unfold parseChildren
  split
  · rename_i hnil
    refine iff_of_false (fun h => by cases h) ?_
    intro h
    obtain ⟨before, name, after, desc, hsplit, _⟩ := h
    rw [hnil] at hsplit
    simp at hsplit
  · rename_i hne
    rw [panics_bind, parseChildrenLoop_panics]
    refine Iff.trans (or_iff_left ?_) (by simp [ReachesNul, Agree])
    intro h
    obtain ⟨seen, hseen, hpanic⟩ := h
    cases seen with
    | none => exact parseChildrenLoop_seen (Or.inl hne) hseen
    | some desc => cases hpanic

theorem parseChildren_ok :
    (parseChildren opened names).run = some (.ok child) ↔ Accepts opened names child := by
  unfold parseChildren
  split
  · rename_i hnil
    exact iff_of_false (fun h => by cases h) fun h => h.ne_nil hnil
  · rename_i hne
    rw [ok_bind]
    constructor
    · intro h
      obtain ⟨seen, hseen, hok⟩ := h
      cases seen with
      | none => cases hok
      | some desc =>
        cases hok
        obtain ⟨hnul, hagree, _⟩ := parseChildrenLoop_ok.mp hseen
        exact ⟨hne, hnul, fun i hi => by simpa using hagree i hi⟩
    · intro h
      obtain ⟨_, hnul, hagree⟩ := h
      refine ⟨some child, parseChildrenLoop_ok.mpr ⟨hnul, fun j hj => ?_, by simp, ?_⟩, rfl⟩
      · simpa using hagree j hj
      · exact fun hnil => absurd hnil hne

/-! ## The create commands -/

/-- `finishCreateWith` panics: on a taken name, where the driver object is dropped at once; on
options that do not fit, with debug assertions; and on the way through SPDK and back. -/
def FinishCrashes (b : Build) (s : Bdevs) (name : String) (fit : Prop) (out : CreateOutcome)
    (driver : Driver) : Prop :=
  s.registry name ≠ none ∧ driver.drop = none ∨
  s.registry name = none ∧
    (¬ fit ∧ b.debugAssertions = true ∨
      fit ∧ (hasNul name = true ∨ out.allocated = true ∧ driver.init = none ∨
        out.allocated = false ∧ b.debugAssertions = true ∨
        (out.allocated = false ∨ out.rc ≠ 0) ∧ driver.drop = none))

theorem driver_drop {α : Type} (drop : Option Unit) (e : Error) :
    (do ExceptT.lift drop; throw e : Call α).run = none ↔ drop = none := by
  cases drop with
  | none => exact iff_of_true rfl rfl
  | some u => exact iff_of_false (fun h => by cases h) (fun h => by cases h)

theorem finishCreateWith_panics {b : Build} {s : Bdevs} {c : Creation} {out : CreateOutcome}
    {driver : Driver} : (s.finishCreateWith b c out driver).1.run = none ↔
      FinishCrashes b s c.name (∃ opts, c.opts = .ok opts) out driver := by
  unfold Bdevs.finishCreateWith Bdevs.bdevRegistryAdd FinishCrashes
  simp only
  cases hreg : s.registry c.name with
  | some bdevh =>
    refine (driver_drop driver.drop _).trans ?_
    simp
  | none =>
    simp only
    cases hopts : c.opts with
    | error e =>
      cases hb : b.debugAssertions with
      | true => simp [Bdevs.dropPanics, hb]
      | false => simp [Bdevs.dropPanics, hb]
    | ok opts =>
      simp only [ne_eq, not_true, false_and, false_or, true_and, Except.ok.injEq, exists_eq']
      cases hnul : hasNul c.name with
      | true => simp
      | false =>
        simp only [Bool.false_eq_true, if_false, false_or]
        split
        · rename_i hinit
          exact iff_of_true rfl (Or.inl hinit)
        · rename_i hinit
          rw [or_iff_right hinit]
          cases halloc : out.allocated with
          | true =>
            by_cases hrc : out.rc = 0
            · simp [Bdevs.bdevCreate, halloc, hrc]
            · simpa [Bdevs.bdevCreate, halloc, hrc, Bdevs.dropPanics, Bdevs.bdevRegistryRemove]
                using driver_drop (α := String) driver.drop (.spdkBdevCreate out.rc)
          | false =>
            cases hb : b.debugAssertions with
            | true => simp [Bdevs.bdevCreate, halloc, Bdevs.dropPanics, hb]
            | false =>
              simpa [Bdevs.bdevCreate, halloc, Bdevs.dropPanics, hb, Bdevs.bdevRegistryRemove]
                using driver_drop (α := String) driver.drop (.spdkBdevCreate (-12))

theorem createWith_panics {b : Build} {s : Bdevs} {x : Call Creation} {out : CreateOutcome}
    {driver : Driver} : (s.createWith b x out driver).1.run = none ↔
      x.run = none ∨ ∃ c, x.run = some (.ok c) ∧
        FinishCrashes b s c.name (∃ opts, c.opts = .ok opts) out driver := by
  unfold Bdevs.createWith
  cases hx : x.run with
  | none => simp [Call.panic]
  | some r =>
    cases r with
    | error e => simp
    | ok c =>
      simp only
      rw [finishCreateWith_panics]
      simp

theorem raid1Creation_panics {args : RpcCmdArgs} :
    (raid1Creation args opened).run = none ↔ ∃ name children, args "name" = some name ∧
      args "children" = some children ∧ ReachesNul opened (splitNames children) := by
  simp only [raid1Creation, panics_bind, require_ok_iff, parseChildren_panics, require_panics,
    ExceptT.run_pure, Option.pure_def, reduceCtorEq, and_false, exists_false, or_false, false_or]
  exact ⟨fun ⟨name, hname, children, hchildren, h⟩ => ⟨name, children, hname, hchildren, h⟩,
    fun ⟨name, children, hname, hchildren, h⟩ => ⟨name, hname, children, hchildren, h⟩⟩

theorem raid1Creation_ok {args : RpcCmdArgs} {c : Creation} :
    (raid1Creation args opened).run = some (.ok c) ↔ ∃ name children child,
      args "name" = some name ∧ args "children" = some children ∧
      Accepts opened (splitNames children) child ∧ c = ⟨name, "RAID1", raid1Opts args child⟩ := by
  simp only [raid1Creation, ok_bind, require_ok_iff, parseChildren_ok]
  simp [eq_comm]

theorem raid1Opts_ok {args : RpcCmdArgs} :
    (∃ opts, raid1Opts args child = .ok opts) ↔ ∃ opts, Raid1BdevOpts.fromRpc args = .ok opts := by
  unfold raid1Opts
  cases Raid1BdevOpts.fromRpc args with
  | error e => exact iff_of_false (fun ⟨_, h⟩ => by cases h) (fun ⟨_, h⟩ => by cases h)
  | ok opts => exact iff_of_true ⟨_, rfl⟩ ⟨_, rfl⟩

theorem raid5ParseChildren_panics :
    (raid5ParseChildren opened names).run = none ↔ ReachesNul opened names := by
  unfold raid5ParseChildren
  rw [panics_bind, parseChildren_panics]
  refine or_iff_left ?_
  intro h
  obtain ⟨child, _, hpanic⟩ := h
  split at hpanic
  · cases hpanic
  · cases hpanic

theorem raid5ParseChildren_iff : (raid5ParseChildren opened names).run = some (.ok child) ↔
    Accepts opened names child ∧ child.blockLen ≠ 0 := by
  unfold raid5ParseChildren
  rw [ok_bind]
  constructor
  · intro h
    obtain ⟨desc, hdesc, hok⟩ := h
    split at hok
    · cases hok
    · rename_i hpos
      cases hok
      exact ⟨parseChildren_ok.mp hdesc, hpos⟩
  · intro h
    obtain ⟨haccepts, hpos⟩ := h
    refine ⟨child, parseChildren_ok.mpr haccepts, ?_⟩
    rw [if_neg hpos]
    rfl

/-- The strip size in bytes does not fit 32 bits. -/
def StripOverflows (b : Build) (args : RpcCmdArgs) : Prop :=
  b.overflowChecks = true ∧ ∃ v kb, args "strip_size_kb" = some v ∧ parseUint 32 v = some kb ∧
    2 ^ 32 ≤ kb * 1024

theorem fit_none {b : Build} {bits n : Nat} :
    b.fit bits n = none ↔ b.overflowChecks = true ∧ 2 ^ bits ≤ n := by
  unfold Build.fit
  split
  · rename_i hlt
    exact iff_of_false (fun h => by cases h) fun h => absurd hlt (Nat.not_lt.mpr h.2)
  · rename_i hge
    cases b.overflowChecks with
    | true => exact iff_of_true rfl ⟨rfl, Nat.le_of_not_lt hge⟩
    | false => exact iff_of_false (fun h => by cases h) fun h => by cases h.1

theorem parseStripSize_panics {b : Build} {args : RpcCmdArgs} {blocklen : Nat} :
    (parseStripSize b args blocklen).run = none ↔ StripOverflows b args := by
  unfold StripOverflows
  cases hv : args "strip_size_kb" with
  | none =>
    have hkb : (stripSizeKb args).run = some (.ok 0) := by
      unfold stripSizeKb
      rw [hv]
      rfl
    rw [parseStripSize_run blocklen hkb, Option.map_eq_none_iff, fit_none]
    simp
  | some v =>
    have hkb := stripSizeKb_of_text hv
    cases hk : parseUint 32 v with
    | none =>
      rw [hk] at hkb
      have hrun : (parseStripSize b args blocklen).run = some (.error .intParseError) := by
        unfold parseStripSize
        rw [ExceptT.run_bind, hkb]
        rfl
      simp [hrun, hk]
    | some kb =>
      rw [hk] at hkb
      rw [parseStripSize_run blocklen hkb, Option.map_eq_none_iff, fit_none]
      simp [hk]

/-- Threads named after the device can be started on every core. -/
theorem newRaid5_panics {name : String} {ndisks stripBlocks : Nat} {env : Raid5Env}
    (hnew : (Raid5.Raid5Bdev.new ndisks env.cores stripBlocks).isSome) :
    (newRaid5 name ndisks stripBlocks env).run = none ↔
      hasNul name = true ∨ env.spawned = false := by
  obtain ⟨dev, hdev⟩ := Option.isSome_iff_exists.mp hnew
  unfold newRaid5
  rw [hdev]
  split
  · rename_i hbad
    exact iff_of_true rfl hbad
  · rename_i hbad
    exact iff_of_false (fun h => by cases h) hbad

theorem newRaid5_ok {name : String} {ndisks stripBlocks : Nat} {env : Raid5Env}
    {dev : Raid5.Raid5Bdev} : (newRaid5 name ndisks stripBlocks env).run = some (.ok dev) ↔
      hasNul name = false ∧ env.spawned = true ∧
        Raid5.Raid5Bdev.new ndisks env.cores stripBlocks = some dev := by
  unfold newRaid5
  split
  · rename_i hbad
    refine iff_of_false (fun h => by cases h) fun ⟨hnul, hspawned, _⟩ => ?_
    simp [hnul, hspawned] at hbad
  · rename_i hgood
    obtain ⟨hnul, hspawned⟩ := not_or.mp hgood
    rw [Bool.not_eq_true] at hnul
    rw [Bool.not_eq_false] at hspawned
    cases Raid5.Raid5Bdev.new ndisks env.cores stripBlocks with
    | none => exact iff_of_false (fun h => by cases h) (fun h => by cases h.2.2)
    | some dev' => simp [hnul, hspawned]

/-- The sizes of the array fit their types. -/
def GeometryFits (ndisks stripBlocks : Nat) (child : BdevDesc) : Prop :=
  (ndisks - 1) * (child.numberOfBlocks / stripBlocks * stripBlocks) < 2 ^ 64 ∧
    child.blockLen < 2 ^ 32 ∧ (ndisks - 1) * stripBlocks < 2 ^ 32

theorem reportGeometry_fits {dev : Raid5.Raid5Bdev} (opts : Raid5.Raid5BdevOpts) :
    (∃ opts', dev.reportGeometry child.blockLen child.numberOfBlocks opts = .ok opts') ↔
      GeometryFits dev.diskCount dev.stripBlocks child := by
  unfold GeometryFits
  constructor
  · intro h
    obtain ⟨opts', h⟩ := h
    obtain ⟨cnt, hcnt, h⟩ := Raid5.bind_ok h
    obtain ⟨len, hlen, h⟩ := Raid5.bind_ok h
    obtain ⟨wide, hwide, h⟩ := Raid5.bind_ok h
    obtain ⟨boundary, hboundary, _⟩ := Raid5.bind_ok h
    cases Raid5.checkedMul_ok hwide
    simp only [Raid5.checkedMul, Raid5.tryIntoU32] at hcnt hlen hboundary
    split at hcnt
    · split at hlen
      · split at hboundary
        · rename_i h₁ h₂ h₃
          exact ⟨h₁, h₂, h₃⟩
        · cases hboundary
      · cases hlen
    · cases hcnt
  · intro h
    obtain ⟨hcnt, hlen, hboundary⟩ := h
    have hwide : (dev.diskCount - 1) * dev.stripBlocks < 2 ^ 64 :=
      hboundary.trans (by decide)
    have hcnt' : Raid5.checkedMul (dev.diskCount - 1)
        (dev.usableChildBlocks child.numberOfBlocks) = .ok _ := if_pos hcnt
    have hlen' : Raid5.tryIntoU32 child.blockLen = .ok _ := if_pos hlen
    have hwide' : Raid5.checkedMul (dev.diskCount - 1) dev.stripBlocks = .ok _ := if_pos hwide
    have hboundary' : Raid5.tryIntoU32 ((dev.diskCount - 1) * dev.stripBlocks) = .ok _ :=
      if_pos hboundary
    refine ⟨{ opts with
      blockcnt := (dev.diskCount - 1) * dev.usableChildBlocks child.numberOfBlocks
      blocklen := child.blockLen
      optimalIoBoundary := (dev.diskCount - 1) * dev.stripBlocks
      splitOnOptimalIoBoundary := 1 }, ?_⟩
    unfold Raid5.Raid5Bdev.reportGeometry
    rw [hcnt', hlen', hwide']
    simp only [bind, Except.bind, hboundary']
    rfl

theorem raid5Opts_fit {args : RpcCmdArgs} {ndisks workers stripBlocks : Nat}
    {dev : Raid5.Raid5Bdev} (hnew : Raid5.Raid5Bdev.new ndisks workers stripBlocks = some dev) :
    (∃ opts, raid5Opts args dev child = .ok opts) ↔
      (∃ opts, raid5FromRpc args = .ok opts) ∧ GeometryFits ndisks stripBlocks child := by
  obtain ⟨rfl, rfl⟩ := raid5Bdev_new hnew
  unfold raid5Opts
  cases hfrom : raid5FromRpc args with
  | error e => exact iff_of_false (fun ⟨_, h⟩ => by cases h) (fun ⟨⟨_, h⟩, _⟩ => by cases h)
  | ok opts =>
    rw [← reportGeometry_fits opts]
    simp only [bind, Except.bind, raid5Geometry]
    cases hgeom : dev.reportGeometry child.blockLen child.numberOfBlocks opts with
    | error e =>
      cases e
      exact iff_of_false (fun ⟨_, h⟩ => by cases h) (fun ⟨_, _, h⟩ => by cases h)
    | ok opts' => exact iff_of_true ⟨_, rfl⟩ ⟨⟨_, rfl⟩, _, rfl⟩

theorem raid5Creation_panics {b : Build} {args : RpcCmdArgs} {env : Raid5Env} :
    (raid5Creation b args env).run = none ↔ ∃ name children, args "name" = some name ∧
      args "children" = some children ∧ 3 ≤ (splitNames children).length ∧
      (ReachesNul env.opened (splitNames children) ∨
        ∃ child, Accepts env.opened (splitNames children) child ∧ child.blockLen ≠ 0 ∧
          (StripOverflows b args ∨ ∃ stripSize,
            (parseStripSize b args child.blockLen).run = some (.ok stripSize) ∧
            (hasNul name = true ∨ env.spawned = false))) := by
  simp only [raid5Creation, panics_bind, require_ok_iff, require_panics, false_or]
  refine exists_congr fun name => ?_
  rw [exists_and_left]
  refine and_congr_right fun _ => exists_congr fun children => and_congr_right fun _ => ?_
  by_cases hn : (splitNames children).length < 3
  · rw [if_pos hn]
    exact iff_of_false (fun h => by cases h) fun h => absurd hn (Nat.not_lt.mpr h.1)
  · rw [if_neg hn, panics_bind, raid5ParseChildren_panics, and_iff_right (Nat.le_of_not_lt hn)]
    refine or_congr_right (exists_congr fun child => ?_)
    rw [raid5ParseChildren_iff, and_assoc]
    refine and_congr_right fun haccepts => and_congr_right fun hlen => ?_
    rw [panics_bind, parseStripSize_panics]
    refine or_congr_right (exists_congr fun stripSize => and_congr_right fun hsize => ?_)
    have hchild := raid5ParseChildren_iff.mpr ⟨haccepts, hlen⟩
    rw [panics_bind, newRaid5_panics (newRaid5_total hn hchild hsize)]
    exact or_iff_left fun ⟨_, _, hpure⟩ => by cases hpure

theorem raid5Creation_iff {b : Build} {args : RpcCmdArgs} {env : Raid5Env} {c : Creation} :
    (raid5Creation b args env).run = some (.ok c) ↔ ∃ name children, args "name" = some name ∧
      args "children" = some children ∧ 3 ≤ (splitNames children).length ∧
      ∃ child, Accepts env.opened (splitNames children) child ∧ child.blockLen ≠ 0 ∧
        ∃ stripSize, (parseStripSize b args child.blockLen).run = some (.ok stripSize) ∧
        ∃ dev, (hasNul name = false ∧ env.spawned = true ∧ Raid5.Raid5Bdev.new
          (splitNames children).length env.cores (stripSize / child.blockLen) = some dev) ∧
          c = ⟨name, "RAID5", raid5Opts args dev child⟩ := by
  simp only [raid5Creation, ok_bind, require_ok_iff]
  refine exists_congr fun name => ?_
  rw [exists_and_left]
  refine and_congr_right fun _ => exists_congr fun children => and_congr_right fun _ => ?_
  by_cases hn : (splitNames children).length < 3
  · rw [if_pos hn]
    exact iff_of_false (fun h => by cases h) fun h => absurd hn (Nat.not_lt.mpr h.1)
  · rw [if_neg hn, ok_bind, and_iff_right (Nat.le_of_not_lt hn)]
    refine exists_congr fun child => ?_
    rw [raid5ParseChildren_iff, and_assoc, ok_bind]
    refine and_congr_right fun _ => and_congr_right fun _ => exists_congr fun stripSize => ?_
    rw [ok_bind]
    refine and_congr_right fun _ => exists_congr fun dev => ?_
    rw [newRaid5_ok]
    refine and_congr_right fun _ => ?_
    simp [eq_comm]

end Ironspdk.Rpc
