import Ironspdk.Rpc.Create

/-! # The geometry of a new RAID5 device

`rpc_rs_raid5_create` computes the strip size from `strip_size_kb` in 32 bits, unchecked; the
sizes after it are checked or cannot overflow. So what goes wrong goes wrong there: a strip
size that does not fit is not always refused. -/
namespace Ironspdk.Rpc
open Ironspdk.Runtime

/-! ## Decimal texts -/

theorem parseDigits_ge {bits acc k : Nat} {cs : List Char} (h : parseDigits bits acc cs = some k) :
    acc ≤ k := by
  induction cs generalizing acc with
  | nil =>
    cases h
    exact Nat.le_refl _
  | cons c cs ih =>
    simp only [parseDigits, Option.ite_none_right_eq_some] at h
    have := ih h.2
    omega

/-- A text of digits has one value, if it fits. -/
theorem parseDigits_narrow {bits bits' acc k : Nat} {cs : List Char} (hacc : acc < 2 ^ bits')
    (h : parseDigits bits acc cs = some k) :
    parseDigits bits' acc cs = if k < 2 ^ bits' then some k else none := by
  induction cs generalizing acc with
  | nil =>
    cases h
    rw [if_pos hacc]
    rfl
  | cons c cs ih =>
    simp only [parseDigits, Option.ite_none_right_eq_some] at h ⊢
    obtain ⟨⟨hdigit, _⟩, hrest⟩ := h
    have hge := parseDigits_ge hrest
    by_cases hfits : acc * 10 + (c.toNat - 48) < 2 ^ bits'
    · rw [if_pos ⟨hdigit, hfits⟩, ih hfits hrest]
    · rw [if_neg (fun hand => hfits hand.2), if_neg (by omega)]

theorem parseUint_narrow (bits' : Nat) {bits k : Nat} {s : String} (h : parseUint bits s = some k) :
    parseUint bits' s = if k < 2 ^ bits' then some k else none := by
  have hzero : 0 < 2 ^ bits' := Nat.two_pow_pos bits'
  unfold parseUint at h ⊢
  split at h
  · cases h
  · cases h
  · exact parseDigits_narrow hzero h
  · exact parseDigits_narrow hzero h

/-! ## The strip size -/

theorem stripSizeKb_ok {args : RpcCmdArgs} {kb : Nat}
    (h : (stripSizeKb args).run = some (.ok kb)) (hpos : kb ≠ 0) :
    ∃ v, args "strip_size_kb" = some v ∧ parseUint 32 v = some kb := by
  unfold stripSizeKb at h
  split at h
  · cases h
    exact absurd rfl hpos
  · rename_i v hv
    split at h
    · rename_i k hk
      cases h
      exact ⟨v, hv, hk⟩
    · cases h

theorem stripSizeKb_of_text {args : RpcCmdArgs} {v : String} (hv : args "strip_size_kb" = some v) :
    (stripSizeKb args).run = some (match parseUint 32 v with
      | some kb => .ok kb
      | none => .error .intParseError) := by
  unfold stripSizeKb
  simp only [hv]
  cases parseUint 32 v with
  | none => rfl
  | some kb => rfl

theorem parseStripSize_run {b : Build} {args : RpcCmdArgs} {kb : Nat} (blocklen : Nat)
    (h : (stripSizeKb args).run = some (.ok kb)) :
    (parseStripSize b args blocklen).run = (b.fit 32 (kb * 1024)).map fun size =>
      if size ≠ 0 ∧ blocklen ∣ size then .ok size else .error .invalidArguments := by
  unfold parseStripSize
  rw [ExceptT.run_bind, h]
  cases hfit : b.fit 32 (kb * 1024) with
  | none => simp [ExceptT.run_bind, hfit]
  | some size =>
    by_cases hzero : size = 0
    · simp [ExceptT.run_bind, hfit, hzero]
    · by_cases hdvd : blocklen ∣ size
      · simp [ExceptT.run_bind, hfit, hzero, hdvd, Nat.mod_eq_zero_of_dvd hdvd]
      · have hmod : size % blocklen ≠ 0 := fun hm => hdvd (Nat.dvd_of_mod_eq_zero hm)
        simp [ExceptT.run_bind, hfit, hzero, hdvd, hmod]

/-! ## The request -/

/-- The request has a name, and at least three children that open with the sizes `child`: it
comes to the strip size. -/
def Reaches (args : RpcCmdArgs) (env : Raid5Env) (child : BdevDesc) : Prop :=
  ∃ name children, args "name" = some name ∧ args "children" = some children ∧
    3 ≤ (splitNames children).length ∧
    (raid5ParseChildren env.opened (splitNames children)).run = some (.ok child)

/-- The device that the request builds. -/
def Builds (b : Build) (args : RpcCmdArgs) (env : Raid5Env) (child : BdevDesc)
    (dev : Raid5.Raid5Bdev) : Prop :=
  ∃ children stripSize, args "children" = some children ∧
    (parseStripSize b args child.blockLen).run = some (.ok stripSize) ∧
    Raid5.Raid5Bdev.new (splitNames children).length env.cores (stripSize / child.blockLen) =
      some dev

theorem require_run {args : RpcCmdArgs} {field v : String} (h : args field = some v) :
    (require args field).run = some (.ok v) := by
  unfold require
  rw [h]
  rfl

theorem require_ok {args : RpcCmdArgs} {field v : String}
    (h : (require args field).run = some (.ok v)) : args field = some v := by
  unfold require at h
  split at h
  · rename_i w hw
    cases h
    exact hw
  · cases h

/-- What comes of a request that comes to the strip size. -/
theorem raid5Creation_reached {b : Build} {args : RpcCmdArgs} {env : Raid5Env} {child : BdevDesc}
    (h : Reaches args env child) : ∃ name children, args "children" = some children ∧
    (raid5Creation b args env).run = (parseStripSize b args child.blockLen >>= fun stripSize =>
      newRaid5 name (splitNames children).length (stripSize / child.blockLen) env >>= fun dev =>
        pure ⟨name, "RAID5", raid5Opts args dev child⟩ : Call Creation).run := by
  obtain ⟨name, children, hname, hchildren, hn, hchild⟩ := h
  refine ⟨name, children, hchildren, ?_⟩
  unfold raid5Creation
  rw [ExceptT.run_bind, require_run hname]
  simp only [Option.bind_eq_bind, Option.bind_some]
  rw [ExceptT.run_bind, require_run hchildren]
  simp only [Option.bind_eq_bind, Option.bind_some, if_neg (Nat.not_lt.mpr hn)]
  rw [ExceptT.run_bind, hchild]
  rfl

/-- A request that is accepted has come to the strip size, and builds a device. -/
theorem raid5Creation_ok {b : Build} {args : RpcCmdArgs} {env : Raid5Env} {c : Creation}
    (h : (raid5Creation b args env).run = some (.ok c)) : ∃ child dev, Reaches args env child ∧
    Builds b args env child dev ∧ c.opts = raid5Opts args dev child := by
  obtain ⟨name, hname, h⟩ := Call.bind_ok h
  obtain ⟨children, hchildren, h⟩ := Call.bind_ok h
  dsimp only at h
  split at h
  · cases h
  · rename_i hn
    obtain ⟨child, hchild, h⟩ := Call.bind_ok h
    obtain ⟨stripSize, hsize, h⟩ := Call.bind_ok h
    obtain ⟨dev, hdev, h⟩ := Call.bind_ok h
    cases h
    refine ⟨child, dev, ⟨name, children, require_ok hname, require_ok hchildren,
      Nat.le_of_not_lt hn, hchild⟩, ⟨children, stripSize, require_ok hchildren, hsize, ?_⟩, rfl⟩
    unfold newRaid5 at hdev
    split at hdev
    · cases hdev
    · split at hdev
      · rename_i d hd
        cases hdev
        exact hd
      · cases hdev

/-! ## What is accepted -/

/-- The geometry of a device is the one asked for: its strips are of `k` KB exactly, and the
sizes it reports are those of its strips. -/
structure AsRequested (args : RpcCmdArgs) (child : BdevDesc) (dev : Raid5.Raid5Bdev)
    (opts : SpdkBdevOptsC) : Prop where
  children : ∃ children, args "children" = some children ∧
    dev.diskCount = (splitNames children).length
  stripSize : ∃ v k, args "strip_size_kb" = some v ∧ parseUint 32 v = some k ∧ 1 ≤ k ∧
    dev.stripBlocks * child.blockLen = k * 1024
  blockcnt : opts.blockcnt =
    (dev.diskCount - 1) * (child.numberOfBlocks / dev.stripBlocks * dev.stripBlocks)
  boundary : opts.optimalIoBoundary = (dev.diskCount - 1) * dev.stripBlocks

/-- What is accepted is as requested, and a strip size that does not fit is refused. -/
structure ExactGeometry (b : Build) (args : RpcCmdArgs) (env : Raid5Env) : Prop where
  accepted : ∀ c opts, (raid5Creation b args env).run = some (.ok c) → c.opts = .ok opts →
    ∃ child dev, Reaches args env child ∧ Builds b args env child dev ∧
      AsRequested args child dev opts
  refused : ∀ child v bits k, Reaches args env child → args "strip_size_kb" = some v →
    parseUint bits v = some k → 2 ^ 32 ≤ k * 1024 →
    ∃ e, (raid5Creation b args env).run = some (.error e)

theorem raid5Opts_ok {args : RpcCmdArgs} {dev : Raid5.Raid5Bdev} {child : BdevDesc}
    {opts : SpdkBdevOptsC} (h : raid5Opts args dev child = .ok opts) :
    opts.blockcnt =
        (dev.diskCount - 1) * (child.numberOfBlocks / dev.stripBlocks * dev.stripBlocks) ∧
      opts.optimalIoBoundary = (dev.diskCount - 1) * dev.stripBlocks := by
  unfold raid5Opts at h
  cases hfrom : raid5FromRpc args with
  | error e =>
    rw [hfrom] at h
    cases h
  | ok opts₀ =>
    cases hgeom : raid5Geometry dev child opts₀ with
    | error e =>
      rw [hfrom] at h
      simp only [bind, Except.bind, hgeom] at h
      cases h
    | ok opts₁ =>
      rw [hfrom] at h
      simp only [bind, Except.bind, hgeom] at h
      cases h
      unfold raid5Geometry at hgeom
      split at hgeom
      · rename_i opts₂ hreport
        cases hgeom
        obtain ⟨hcnt, hboundary⟩ := Raid5.reportGeometry_ok hreport
        refine ⟨?_, ?_⟩
        · rw [raid5ToC, hcnt, dev.stripe_eq]
          exact Nat.mul_left_comm _ _ _
        · rw [raid5ToC, hboundary, dev.stripe_eq]
      · cases hgeom

theorem raid5Bdev_new {ndisks workers stripBlocks : Nat} {dev : Raid5.Raid5Bdev}
    (h : Raid5.Raid5Bdev.new ndisks workers stripBlocks = some dev) :
    dev.diskCount = ndisks ∧ dev.stripBlocks = stripBlocks := by
  unfold Raid5.Raid5Bdev.new at h
  split at h
  · cases h
    exact ⟨rfl, rfl⟩
  · cases h

/-- Past the strip size the request is not refused any more. -/
theorem newRaid5_run (name : String) (ndisks stripBlocks : Nat) (env : Raid5Env) :
    (newRaid5 name ndisks stripBlocks env).run = none ∨
      ∃ dev, (newRaid5 name ndisks stripBlocks env).run = some (.ok dev) := by
  unfold newRaid5
  split
  · exact Or.inl rfl
  · split
    · exact Or.inr ⟨_, rfl⟩
    · exact Or.inl rfl

/-- A request is refused where its strip size is. -/
theorem raid5Creation_refused {b : Build} {args : RpcCmdArgs} {env : Raid5Env} {child : BdevDesc}
    (h : Reaches args env child) : (∃ e, (raid5Creation b args env).run = some (.error e)) ↔
      ∃ e, (parseStripSize b args child.blockLen).run = some (.error e) := by
  obtain ⟨name, children, _, hrun⟩ := raid5Creation_reached (b := b) h
  rw [hrun, ExceptT.run_bind]
  cases hsize : (parseStripSize b args child.blockLen).run with
  | none => simp
  | some r =>
    cases r with
    | error e => exact ⟨fun _ => ⟨e, rfl⟩, fun _ => ⟨e, rfl⟩⟩
    | ok stripSize =>
      refine iff_of_false ?_ (by simp)
      rintro ⟨e, he⟩
      simp only [Option.bind_eq_bind, Option.bind_some, ExceptT.run_bind] at he
      rcases newRaid5_run name (splitNames children).length (stripSize / child.blockLen) env with
        hnew | ⟨dev, hnew⟩
      · rw [hnew] at he
        cases he
      · rw [hnew] at he
        cases he

/-- **When the geometry is the requested one.** For every argument map, every children and every
build: what `rs_raid5_create` accepts has exactly the strips asked for and reports their sizes,
and a strip size that does not fit is refused with an error, if and only if the strip size of
the request fits, or wraps in silence to one that the next checks refuse. -/
theorem exact_geometry_iff (b : Build) (args : RpcCmdArgs) (env : Raid5Env) :
    ExactGeometry b args env ↔ ∀ child v k, Reaches args env child →
      args "strip_size_kb" = some v → parseUint 32 v = some k → 2 ^ 32 ≤ k * 1024 →
      b.overflowChecks = false ∧
        ¬ (k * 1024 % 2 ^ 32 ≠ 0 ∧ child.blockLen ∣ k * 1024 % 2 ^ 32) := by
  have hrun : ∀ (child : BdevDesc) (v : String) (k : Nat),
      args "strip_size_kb" = some v → parseUint 32 v = some k →
      (parseStripSize b args child.blockLen).run = (b.fit 32 (k * 1024)).map fun size =>
        if size ≠ 0 ∧ child.blockLen ∣ size then .ok size else .error .invalidArguments := by
    intro child v k hv hk
    refine parseStripSize_run child.blockLen ?_
    rw [stripSizeKb_of_text hv, hk]
  constructor
  · intro h child v k hreach hv hk hlarge
    obtain ⟨e, he⟩ := (raid5Creation_refused hreach).mp (h.refused child v 32 k hreach hv hk hlarge)
    rw [hrun child v k hv hk, Build.fit, if_neg (Nat.not_lt.mpr hlarge)] at he
    cases hchecks : b.overflowChecks with
    | true =>
      rw [hchecks] at he
      cases he
    | false =>
      refine ⟨rfl, fun hwraps => ?_⟩
      simp only [hchecks, Bool.false_eq_true, if_false, Option.map_some, if_pos hwraps] at he
      cases he
  · intro hcond
    refine ⟨fun c opts hc hopts => ?_, fun child v bits k hreach hv hk hlarge => ?_⟩
    · obtain ⟨child, dev, hreach, hbuilds, hwork⟩ := raid5Creation_ok hc
      refine ⟨child, dev, hreach, hbuilds, ?_⟩
      obtain ⟨hcnt, hboundary⟩ := raid5Opts_ok (hwork.symm.trans hopts)
      obtain ⟨children, stripSize, hchildren, hsize, hnew⟩ := hbuilds
      obtain ⟨hcount, hstrip⟩ := raid5Bdev_new hnew
      refine ⟨⟨children, hchildren, hcount⟩, ?_, hcnt, hboundary⟩
      obtain ⟨kb, hkb, _⟩ := Call.bind_ok hsize
      rw [parseStripSize_run child.blockLen hkb] at hsize
      obtain ⟨size, hfit, hchecked⟩ := Option.map_eq_some_iff.mp hsize
      split at hchecked
      · rename_i hvalid
        cases hchecked
        have hpos : kb ≠ 0 := by
          rintro rfl
          rw [Nat.zero_mul, b.fit_of_lt (Nat.two_pow_pos 32)] at hfit
          exact hvalid.1 (Option.some.inj hfit).symm
        obtain ⟨v, hv, hk⟩ := stripSizeKb_ok hkb hpos
        refine ⟨v, kb, hv, hk, Nat.pos_of_ne_zero hpos, ?_⟩
        rw [hstrip, Nat.div_mul_cancel hvalid.2]
        unfold Build.fit at hfit
        split at hfit
        · exact (Option.some.inj hfit).symm
        · -- a wrapped size is refused
          rename_i hlarge
          obtain ⟨hchecks, hnot⟩ := hcond child v kb hreach hv hk (Nat.le_of_not_lt hlarge)
          simp only [hchecks, Bool.false_eq_true, if_false, Option.some.injEq] at hfit
          exact absurd (hfit ▸ hvalid) hnot
      · cases hchecked
    · refine (raid5Creation_refused hreach).mpr ?_
      have hnarrow := parseUint_narrow 32 hk
      split at hnarrow
      · obtain ⟨hchecks, hnot⟩ := hcond child v k hreach hv hnarrow hlarge
        rw [hrun child v k hv hnarrow, Build.fit, if_neg (Nat.not_lt.mpr hlarge)]
        simp only [hchecks, Bool.false_eq_true, if_false, Option.map_some, if_neg hnot]
        exact ⟨_, rfl⟩
      · -- not even a `u32`
        refine ⟨.intParseError, ?_⟩
        unfold parseStripSize
        rw [ExceptT.run_bind, stripSizeKb_of_text hv, hnarrow]
        rfl

/-- Three children of 4096 blocks of 512 bytes. -/
def geometryEnv : Raid5Env := ⟨fun _ => .ok ⟨512, 4096⟩, 1, Nat.one_pos, true⟩

/-- A request for strips of 4 GB and 4 KB. -/
def geometryArgs : RpcCmdArgs := fun field =>
  if field = "name" then some "r5" else if field = "children" then some "a b c"
  else if field = "strip_size_kb" then some "4194308" else none

/-- Without overflow checks it gets strips of 4 KB. -/
theorem strip_size_wraps :
    ¬ ∀ (b : Build) (args : RpcCmdArgs) (env : Raid5Env), ExactGeometry b args env := by
  intro h
  have hreach : Reaches geometryArgs geometryEnv ⟨512, 4096⟩ := by
    refine ⟨"r5", "a b c", rfl, rfl, by decide, ?_⟩
    rfl
  have hexact := h release geometryArgs geometryEnv
  obtain ⟨e, he⟩ := hexact.refused ⟨512, 4096⟩ "4194308" 32 4194308 hreach rfl (by decide)
    (by decide)
  cases he

end Ironspdk.Rpc
