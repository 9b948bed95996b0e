import Ironspdk.Rpc.Crashes

/-! # Which commands are answered

The reply goes back as a C string, so its text must not have a NUL either. The texts of the
create commands never do. -/
namespace Ironspdk.Rpc
open Ironspdk.Runtime

/-! ## Texts without a NUL -/

theorem hasNul_append (s t : String) : hasNul (s ++ t) = (hasNul s || hasNul t) := by
  simp [hasNul, String.toList_append, Bool.decide_or]

theorem hasNul_natRepr (n : Nat) : hasNul (Nat.repr n) = false := by
  rw [hasNul, Nat.toList_repr, List.contains_eq_mem]
  refine decide_eq_false fun hm => ?_
  have hdigit := Nat.isDigit_of_mem_toDigits (by decide) (by decide) hm
  exact absurd hdigit (by decide)

theorem hasNul_intRepr (n : Int) : hasNul (toString n) = false := by
  have hrepr : toString n = Int.repr n := rfl
  rw [hrepr, Int.repr_eq_if]
  split
  · exact hasNul_natRepr _
  · rw [hasNul_append, hasNul_natRepr, Bool.or_false]
    decide

/-- What a reply adds to the text of an error has no NUL. -/
theorem hasNul_error (e : Error) : hasNul (replyText (.error e)) = hasNul (display e) := by
  have hstart : hasNul "Error: " = false := by decide
  rw [replyText, hasNul_append, hstart, Bool.false_or]

/-- The errors of a computation can be sent. -/
def Printable {α : Type} (x : Except Error α) : Prop :=
  ∀ e, x = .error e → hasNul (display e) = false

theorem Printable.bind {α β : Type} {x : Except Error α} {f : α → Except Error β}
    (hx : Printable x) (hf : ∀ a, x = .ok a → Printable (f a)) : Printable (x >>= f) := by
  cases x with
  | error e =>
    intro e' he'
    cases he'
    exact hx e rfl
  | ok a => exact hf a rfl

theorem printable_ok {α : Type} (a : α) : Printable (.ok a) := fun _ h => by cases h

/-- So can those of a call. -/
def PrintableCall {α : Type} (x : Call α) : Prop :=
  ∀ e, x.run = some (.error e) → hasNul (display e) = false

theorem PrintableCall.bind {α β : Type} {x : Call α} {f : α → Call β} (hx : PrintableCall x)
    (hf : ∀ a, PrintableCall (f a)) : PrintableCall (x >>= f) := by
  intro e he
  rw [ExceptT.run_bind] at he
  cases hrun : x.run with
  | none =>
    rw [hrun] at he
    cases he
  | some r =>
    rw [hrun] at he
    cases r with
    | error e' =>
      cases he
      exact hx e hrun
    | ok a => exact hf a e he

theorem printable_pure {α : Type} (a : α) : PrintableCall (pure a) := fun _ h => by cases h

theorem printable_panic {α : Type} : PrintableCall (Call.panic : Call α) := fun _ h => by cases h

theorem printable_throw {α : Type} {e : Error} (h : hasNul (display e) = false) :
    PrintableCall (throw e : Call α) := by
  intro e' he'
  cases he'
  exact h

theorem printable_lift {α : Type} (x : Option α) : PrintableCall (ExceptT.lift x : Call α) := by
  intro e he
  cases x with
  | none => cases he
  | some a => cases he

/-! ## Errors of the create commands -/

theorem hasNul_append_rc {text : String} (h : hasNul text = false) (rc : Int) :
    hasNul (text ++ toString rc) = false := by
  rw [hasNul_append, h, hasNul_intRepr]
  rfl

theorem printable_rc (rc : Int) : hasNul (display (.spdkBdevOpen rc)) = false ∧
    hasNul (display (.spdkBdevCreate rc)) = false ∧
    hasNul (display (.spdkBdevDelete rc)) = false :=
  ⟨hasNul_append_rc (by decide) rc, hasNul_append_rc (by decide) rc,
    hasNul_append_rc (by decide) rc⟩

theorem printable_invalidArguments {α : Type} :
    PrintableCall (throw .invalidArguments : Call α) :=
  printable_throw (by decide)

theorem printable_require (args : RpcCmdArgs) (field : String) :
    PrintableCall (require args field) := by
  unfold require
  split
  · exact printable_pure _
  · exact printable_invalidArguments

theorem printable_parseChildrenLoop (opened : Nat → Except Int BdevDesc) (names : List String)
    (i : Nat) (seen : Option BdevDesc) : PrintableCall (parseChildrenLoop opened i seen names) := by
  induction names generalizing i seen with
  | nil => exact printable_pure _
  | cons n names ih =>
    rw [parseChildrenLoop_cons]
    refine PrintableCall.bind ?_ fun dev => ?_
    · unfold lbdevOpen
      split
      · exact printable_panic
      · split
        · exact printable_pure _
        · exact printable_throw (printable_rc _).1
    · split
      · exact ih _ _
      · exact printable_invalidArguments

theorem printable_parseChildren (opened : Nat → Except Int BdevDesc) (names : List String) :
    PrintableCall (parseChildren opened names) := by
  unfold parseChildren
  split
  · exact printable_invalidArguments
  · refine (printable_parseChildrenLoop opened names 0 none).bind fun seen => ?_
    cases seen with
    | none => exact printable_panic
    | some desc => exact printable_pure _

theorem printable_raid1Creation (args : RpcCmdArgs) (opened : Nat → Except Int BdevDesc) :
    PrintableCall (raid1Creation args opened) :=
  (printable_require args _).bind fun _ => (printable_require args _).bind fun _ =>
    (printable_parseChildren opened _).bind fun _ => printable_pure _

theorem printable_parseStripSize (b : Build) (args : RpcCmdArgs) (blocklen : Nat) :
    PrintableCall (parseStripSize b args blocklen) := by
  unfold parseStripSize stripSizeKb
  refine PrintableCall.bind ?_ fun kb => (printable_lift _).bind fun stripSize => ?_
  · split
    · exact printable_pure _
    · split
      · exact printable_pure _
      · exact printable_throw (by decide)
  · split
    · exact printable_invalidArguments
    · split
      · exact printable_pure _
      · exact printable_invalidArguments

theorem printable_raid5Creation (b : Build) (args : RpcCmdArgs) (env : Raid5Env) :
    PrintableCall (raid5Creation b args env) := by
  unfold raid5Creation
  refine (printable_require args _).bind fun name => (printable_require args _).bind
    fun children => ?_
  simp only
  split
  · exact printable_invalidArguments
  · refine PrintableCall.bind ?_ fun child => (printable_parseStripSize b args _).bind
      fun stripSize => PrintableCall.bind ?_ fun dev => printable_pure _
    · unfold raid5ParseChildren
      refine (printable_parseChildren env.opened _).bind fun child => ?_
      split
      · exact printable_invalidArguments
      · exact printable_pure _
    · unfold newRaid5
      split
      · exact printable_panic
      · split
        · exact printable_pure _
        · exact printable_panic

theorem hasNul_invalidField (field : String) :
    hasNul (display (.invalidField field)) = hasNul field := by
  have hbefore : hasNul "Invalid field '" = false := by decide
  have hafter : hasNul "'" = false := by decide
  have htext : display (.invalidField field) = "Invalid field '" ++ field ++ "'" := rfl
  rw [htext, hasNul_append, hasNul_append, hbefore, hafter, Bool.or_false, Bool.false_or]

theorem printable_optField {α : Type} (args : RpcCmdArgs) {field : String}
    (parse : String → Option α) (default : α) (h : hasNul field = false) :
    Printable (optField args field parse default) := by
  unfold optField
  split
  · exact printable_ok _
  · split
    · exact printable_ok _
    · intro e he
      cases he
      exact (hasNul_invalidField field).trans h

theorem printable_raid1FromRpc (args : RpcCmdArgs) : Printable (Raid1BdevOpts.fromRpc args) :=
  (printable_optField args _ _ (by decide)).bind fun _ _ =>
    (printable_optField args _ _ (by decide)).bind fun _ _ =>
      (printable_optField args _ _ (by decide)).bind fun _ _ => printable_ok _

theorem printable_raid5FromRpc (args : RpcCmdArgs) : Printable (raid5FromRpc args) :=
  (printable_optField args _ _ (by decide)).bind fun _ _ =>
    (printable_optField args _ _ (by decide)).bind fun _ _ =>
      (printable_optField args _ _ (by decide)).bind fun _ _ =>
        (printable_optField args _ _ (by decide)).bind fun _ _ =>
          (printable_optField args _ _ (by decide)).bind fun _ _ =>
            (printable_optField args _ _ (by decide)).bind fun _ _ =>
              (printable_optField args _ _ (by decide)).bind fun _ _ => printable_ok _

theorem printable_raid5Opts (args : RpcCmdArgs) (dev : Raid5.Raid5Bdev) (child : BdevDesc) :
    Printable (raid5Opts args dev child) := by
  refine (printable_raid5FromRpc args).bind fun opts _ => ?_
  refine Printable.bind ?_ fun opts' _ => printable_ok _
  unfold raid5Geometry
  split
  · exact printable_ok _
  · intro e he
    cases he
    decide

/-! ## What a create replies -/

/-- What a create comes to once it has a name and options to work with. -/
inductive Finished (c : Creation) : Option (Except Error String) → Prop
  | panicked : Finished c none
  | refused {e : Error}
      (he : e = .alreadyExists ∨ c.opts = .error e ∨ ∃ rc, e = .spdkBdevCreate rc) :
      Finished c (some (.error e))
  | created {opts : SpdkBdevOptsC} (hopts : c.opts = .ok opts) (hname : hasNul c.name = false) :
      Finished c (some (.ok ("Successfully created " ++ c.driver ++ " bdev: '" ++ c.name ++ "'")))

theorem Finished.driver_error {c : Creation} (drop : Option Unit) {e : Error}
    (he : e = .alreadyExists ∨ c.opts = .error e ∨ ∃ rc, e = .spdkBdevCreate rc) :
    Finished c (do ExceptT.lift drop; throw e : Call String).run := by
  cases drop with
  | none => exact .panicked
  | some u => exact .refused he

theorem finishCreateWith_finished (b : Build) (s : Bdevs) (c : Creation) (out : CreateOutcome)
    (driver : Driver) : Finished c (s.finishCreateWith b c out driver).1.run := by
  unfold Bdevs.finishCreateWith Bdevs.bdevRegistryAdd
  simp only
  cases hreg : s.registry c.name with
  | some bdevh => exact .driver_error driver.drop (Or.inl rfl)
  | none =>
    simp only
    cases hopts : c.opts with
    | error e =>
      simp only
      split
      · exact .panicked
      · exact .refused (Or.inr (Or.inl hopts))
    | ok opts =>
      simp only
      split
      · exact .panicked
      · rename_i hname
        split
        · exact .panicked
        · split
          · exact .created hopts (Bool.eq_false_iff.mpr hname)
          · split
            · exact .panicked
            · simp only [Bdevs.bdevRegistryRemove, Function.update_self]
              exact .driver_error driver.drop (Or.inr (Or.inr ⟨_, rfl⟩))

theorem createWith_result (b : Build) (s : Bdevs) (x : Call Creation) (out : CreateOutcome)
    (driver : Driver) : (s.createWith b x out driver).1.run = none ∨
      (∃ e, x.run = some (.error e) ∧ (s.createWith b x out driver).1.run = some (.error e)) ∨
      ∃ c, x.run = some (.ok c) ∧ Finished c (s.createWith b x out driver).1.run := by
  unfold Bdevs.createWith
  cases hrun : x.run with
  | none => exact Or.inl rfl
  | some r =>
    cases r with
    | error e => exact Or.inr (Or.inl ⟨e, rfl, rfl⟩)
    | ok c => exact Or.inr (Or.inr ⟨c, rfl, finishCreateWith_finished b s c out driver⟩)

/-- A create that is accepted has a name without a NUL and options. -/
theorem createWith_ok {b : Build} {s : Bdevs} {x : Call Creation} {out : CreateOutcome}
    {driver : Driver} {msg : String} (h : (s.createWith b x out driver).1.run = some (.ok msg)) :
    ∃ c opts, x.run = some (.ok c) ∧ c.opts = .ok opts ∧ hasNul c.name = false ∧
      msg = "Successfully created " ++ c.driver ++ " bdev: '" ++ c.name ++ "'" := by
  rcases createWith_result b s x out driver with hr | ⟨e, _, hr⟩ | ⟨c, hx, hr⟩
  · cases hr.symm.trans h
  · cases hr.symm.trans h
  · rw [h] at hr
    cases hr with
    | created hopts hname => exact ⟨c, _, hx, hopts, hname, rfl⟩

/-- The text of a create's reply has no NUL. -/
theorem createWith_noNul {b : Build} {s : Bdevs} {x : Call Creation} {out : CreateOutcome}
    {driver : Driver} (hx : PrintableCall x) (hc : ∀ c, x.run = some (.ok c) →
      Printable c.opts ∧ hasNul c.driver = false) {r : Except Error String}
    (h : (s.createWith b x out driver).1.run = some r) : hasNul (replyText r) = false := by
  rcases createWith_result b s x out driver with hr | ⟨e, hxe, hr⟩ | ⟨c, hxc, hr⟩
  · cases hr.symm.trans h
  · cases hr.symm.trans h
    exact (hasNul_error e).trans (hx e hxe)
  · rw [h] at hr
    obtain ⟨hopts, hdriver⟩ := hc c hxc
    cases hr with
    | refused he =>
      rcases he with rfl | he | ⟨rc, rfl⟩
      · decide
      · exact (hasNul_error _).trans (hopts _ he)
      · exact (hasNul_error _).trans (printable_rc rc).2.1
    | created _ hname =>
      simp only [replyText, hasNul_append, hdriver, hname, Bool.or_false]
      decide

/-! ## The commands -/

/-- The arguments that a create command of any driver needs. -/
def Named (args : RpcCmdArgs) (name children : String) : Prop :=
  args "name" = some name ∧ args "children" = some children

/-- Arguments that some state of SPDK accepts. -/
def Usable (cmd : String) (args : RpcCmdArgs) : Prop :=
  if cmd = "rs_bdev_delete" then ∃ name, args "name" = some name ∧ hasNul name = false
  else if cmd = "rs_raid1_create" then
    ∃ name children, Named args name children ∧ hasNul name = false ∧ splitNames children ≠ [] ∧
      (∀ n ∈ splitNames children, hasNul n = false) ∧
      ∃ opts, Raid1BdevOpts.fromRpc args = .ok opts
  else if cmd = "rs_raid5_create" then
    ∃ name children, Named args name children ∧ hasNul name = false ∧
      3 ≤ (splitNames children).length ∧ (∀ n ∈ splitNames children, hasNul n = false) ∧
      (∃ opts, raid5FromRpc args = .ok opts) ∧
      ∃ v kb, args "strip_size_kb" = some v ∧ parseUint 32 v = some kb ∧ kb ≠ 0
  else False

namespace Bdevs

/-- The command comes back with a reply, which is an error if the arguments are unusable. -/
def Answers (b : Build) (s : Bdevs) (cmd : String) (args : RpcCmdArgs) (env : Env) : Prop :=
  ∃ reply, s.rsHandleRpcCmd b cmd args env = some reply ∧
    (¬ Usable cmd args → ∃ text, reply = "Error: " ++ text)

/-- A name that is missing, or has a NUL. -/
def DeleteCrashes (args : RpcCmdArgs) : Prop :=
  ∀ name, args "name" = some name → hasNul name = true

/-- A child name with a NUL that is reached; or children that are accepted, and a panic later. -/
def Raid1Crashes (b : Build) (s : Bdevs) (args : RpcCmdArgs) (env : Env) : Prop :=
  ∃ name children, Named args name children ∧
    (ReachesNul env.raid5.opened (splitNames children) ∨
      ∃ child, Accepts env.raid5.opened (splitNames children) child ∧
        FinishCrashes b s name (∃ opts, Raid1BdevOpts.fromRpc args = .ok opts) env.out raid1Driver)

/-- Besides, a strip size that overflows, and worker threads that are not to be had. -/
def Raid5Crashes (b : Build) (s : Bdevs) (args : RpcCmdArgs) (env : Env) : Prop :=
  ∃ name children, Named args name children ∧ 3 ≤ (splitNames children).length ∧
    (ReachesNul env.raid5.opened (splitNames children) ∨
      ∃ child, Accepts env.raid5.opened (splitNames children) child ∧ child.blockLen ≠ 0 ∧
        (StripOverflows b args ∨ ∃ stripSize,
          (parseStripSize b args child.blockLen).run = some (.ok stripSize) ∧
          (hasNul name = true ∨ env.raid5.spawned = false ∨
            FinishCrashes b s name ((∃ opts, raid5FromRpc args = .ok opts) ∧
              GeometryFits (splitNames children).length (stripSize / child.blockLen) child)
              env.out (raid5Driver env.raid5 env.sends))))

def Crashes (b : Build) (s : Bdevs) (cmd : String) (args : RpcCmdArgs) (env : Env) : Prop :=
  if cmd = "rs_bdev_delete" then DeleteCrashes args
  else if cmd = "rs_raid1_create" then Raid1Crashes b s args env
  else if cmd = "rs_raid5_create" then Raid5Crashes b s args env
  else hasNul cmd = true

variable {b : Build} {s : Bdevs} {args : RpcCmdArgs} {env : Env}

theorem raid1Create_panics : (s.createWith b (raid1Creation args env.raid5.opened) env.out
      raid1Driver).1.run = none ↔ Raid1Crashes b s args env := by
  rw [createWith_panics, raid1Creation_panics]
  simp only [raid1Creation_ok, Raid1Crashes, Named]
  constructor
  · rintro (⟨name, children, hname, hchildren, hnul⟩ |
      ⟨c, ⟨name, children, child, hname, hchildren, haccepts, rfl⟩, hcrash⟩)
    · exact ⟨name, children, ⟨hname, hchildren⟩, Or.inl hnul⟩
    · rw [raid1Opts_ok] at hcrash
      exact ⟨name, children, ⟨hname, hchildren⟩, Or.inr ⟨child, haccepts, hcrash⟩⟩
  · rintro ⟨name, children, ⟨hname, hchildren⟩, hnul | ⟨child, haccepts, hcrash⟩⟩
    · exact Or.inl ⟨name, children, hname, hchildren, hnul⟩
    · refine Or.inr ⟨_, ⟨name, children, child, hname, hchildren, haccepts, rfl⟩, ?_⟩
      rw [raid1Opts_ok]
      exact hcrash

theorem raid5Create_panics : (s.createWith b (raid5Creation b args env.raid5) env.out
      (raid5Driver env.raid5 env.sends)).1.run = none ↔ Raid5Crashes b s args env := by
  rw [createWith_panics, raid5Creation_panics]
  simp only [raid5Creation_iff, Raid5Crashes, Named]
  constructor
  · rintro (⟨name, children, hname, hchildren, hn, hnul | ⟨child, haccepts, hlen, hcrash⟩⟩ |
      ⟨c, ⟨name, children, hname, hchildren, hn, child, haccepts, hlen, stripSize, hsize, dev,
        ⟨_, _, hnew⟩, rfl⟩, hcrash⟩)
    · exact ⟨name, children, ⟨hname, hchildren⟩, hn, Or.inl hnul⟩
    · refine ⟨name, children, ⟨hname, hchildren⟩, hn, Or.inr ⟨child, haccepts, hlen, ?_⟩⟩
      rcases hcrash with hover | ⟨stripSize, hsize, hbad⟩
      · exact Or.inl hover
      · refine Or.inr ⟨stripSize, hsize, ?_⟩
        rcases hbad with hnul | hspawned
        · exact Or.inl hnul
        · exact Or.inr (Or.inl hspawned)
    · rw [raid5Opts_fit hnew] at hcrash
      exact ⟨name, children, ⟨hname, hchildren⟩, hn, Or.inr ⟨child, haccepts, hlen,
        Or.inr ⟨stripSize, hsize, Or.inr (Or.inr hcrash)⟩⟩⟩
  · rintro ⟨name, children, ⟨hname, hchildren⟩, hn, hnul | ⟨child, haccepts, hlen, hover |
      ⟨stripSize, hsize, hcrash⟩⟩⟩
    · exact Or.inl ⟨name, children, hname, hchildren, hn, Or.inl hnul⟩
    · exact Or.inl ⟨name, children, hname, hchildren, hn, Or.inr ⟨child, haccepts, hlen,
        Or.inl hover⟩⟩
    · by_cases hbad : hasNul name = true ∨ env.raid5.spawned = false
      · exact Or.inl ⟨name, children, hname, hchildren, hn, Or.inr ⟨child, haccepts, hlen,
          Or.inr ⟨stripSize, hsize, hbad⟩⟩⟩
      · obtain ⟨hnul, hspawned⟩ := not_or.mp hbad
        have hchild := raid5ParseChildren_iff.mpr ⟨haccepts, hlen⟩
        obtain ⟨dev, hnew⟩ :=
          Option.isSome_iff_exists.mp (newRaid5_total (Nat.not_lt.mpr hn) hchild hsize)
        refine Or.inr ⟨_, ⟨name, children, hname, hchildren, hn, child, haccepts, hlen, stripSize,
          hsize, dev, ⟨Bool.eq_false_iff.mpr hnul, ?_, hnew⟩, rfl⟩, ?_⟩
        · simpa using hspawned
        · rw [raid5Opts_fit hnew]
          exact (hcrash.resolve_left hnul).resolve_left hspawned

/-- A handler whose replies have no NUL, and which accepts usable arguments only, is as good as
one that does not panic. -/
theorem answers_of_handler {cmd : String} {x : Call String}
    (hx : (s.handleRpcCmd b cmd args env).1 = x)
    (hnul : ∀ r, x.run = some r → hasNul (replyText r) = false)
    (hok : ∀ msg, x.run = some (.ok msg) → Usable cmd args) :
    Answers b s cmd args env ↔ x.run ≠ none := by
  unfold Answers rsHandleRpcCmd
  rw [hx]
  cases hrun : x.run with
  | none => simp
  | some r =>
    refine iff_of_true ⟨replyText r, ?_, fun hbad => ?_⟩ (by simp)
    · simp [hnul r hrun]
    · cases r with
      | ok msg => exact absurd (hok msg hrun) hbad
      | error e => exact ⟨display e, rfl⟩

theorem raid1Create_answers :
    Answers b s "rs_raid1_create" args env ↔ ¬ Raid1Crashes b s args env := by
  rw [← raid1Create_panics]
  refine answers_of_handler rfl (fun r hr => createWith_noNul (printable_raid1Creation args _)
    (fun c hc => ?_) hr) fun msg hmsg => ?_
  · obtain ⟨name, children, child, _, _, _, rfl⟩ := raid1Creation_ok.mp hc
    have hdriver : hasNul "RAID1" = false := by decide
    exact ⟨(printable_raid1FromRpc args).bind fun _ _ => printable_ok _, hdriver⟩
  · obtain ⟨c, opts, hc, hopts, hname, _⟩ := createWith_ok hmsg
    obtain ⟨name, children, child, hn, hch, haccepts, rfl⟩ := raid1Creation_ok.mp hc
    exact ⟨name, children, ⟨hn, hch⟩, hname, haccepts.ne_nil, haccepts.noNul,
      raid1Opts_ok.mp ⟨opts, hopts⟩⟩

theorem raid5Create_answers :
    Answers b s "rs_raid5_create" args env ↔ ¬ Raid5Crashes b s args env := by
  rw [← raid5Create_panics]
  refine answers_of_handler rfl (fun r hr => createWith_noNul (printable_raid5Creation b args _)
    (fun c hc => ?_) hr) fun msg hmsg => ?_
  · obtain ⟨_, _, _, _, _, child, _, _, _, _, dev, _, rfl⟩ := raid5Creation_iff.mp hc
    have hdriver : hasNul "RAID5" = false := by decide
    exact ⟨printable_raid5Opts args dev child, hdriver⟩
  · obtain ⟨c, opts, hc, hopts, hname, _⟩ := createWith_ok hmsg
    obtain ⟨name, children, hn, hch, hthree, child, haccepts, _, stripSize, hsize, dev,
      ⟨_, _, hnew⟩, rfl⟩ := raid5Creation_iff.mp hc
    obtain ⟨hfrom, _⟩ := (raid5Opts_fit hnew).mp ⟨opts, hopts⟩
    refine ⟨name, children, ⟨hn, hch⟩, hname, hthree, haccepts.noNul, hfrom, ?_⟩
    obtain ⟨kb, hkb, _⟩ := Call.bind_ok hsize
    have hpos : kb ≠ 0 := by
      rintro rfl
      rw [parseStripSize_run child.blockLen hkb, Nat.zero_mul,
        b.fit_of_lt (Nat.two_pow_pos 32)] at hsize
      simp at hsize
    obtain ⟨v, hv, hk⟩ := stripSizeKb_ok hkb hpos
    exact ⟨v, kb, hv, hk, hpos⟩

theorem hasNul_notFound (name : String) :
    hasNul (display (.spdkBdevNotFound name)) = hasNul name := by
  have hbefore : hasNul "SPDK block device '" = false := by decide
  have hafter : hasNul "' not found" = false := by decide
  have htext : display (.spdkBdevNotFound name) =
    "SPDK block device '" ++ name ++ "' not found" := rfl
  rw [htext]
  simp only [hasNul_append, hbefore, hafter, Bool.or_false, Bool.false_or]

theorem hasNul_unknown (cmd : String) : hasNul (display (.rpcCmdUnknown cmd)) = hasNul cmd := by
  have hbefore : hasNul "Unknown RPC command '" = false := by decide
  have htext : display (.rpcCmdUnknown cmd) = "Unknown RPC command '" ++ cmd := rfl
  rw [htext, hasNul_append, hbefore, Bool.false_or]

/-- A name with a NUL gets no answer, whether it is registered or not. -/
theorem delete_nul {name : String} (hname : args "name" = some name) (hnul : hasNul name = true) :
    s.rsHandleRpcCmd b "rs_bdev_delete" args env = none := by
  have hx : (s.handleRpcCmd b "rs_bdev_delete" args env).1 =
    s.rpcRsBdevDelete args env.deleteRc := rfl
  unfold rsHandleRpcCmd
  rw [hx, rpcRsBdevDelete, hname]
  simp only
  cases hreg : s.registry name with
  | none =>
    have htext := (hasNul_error _).trans ((hasNul_notFound name).trans hnul)
    simp [htext]
  | some bdevh => simp [hnul]

theorem delete_run {name : String} (hname : args "name" = some name) (hnul : hasNul name = false)
    (rc : Int) : (s.rpcRsBdevDelete args rc).run = some (if s.registry name = none then
      .error (.spdkBdevNotFound name)
      else if rc ≠ 0 then .error (.spdkBdevDelete rc)
      else .ok ("Successfully deleted bdev '" ++ name ++ "'")) := by
  rw [rpcRsBdevDelete, hname]
  simp only [hnul, Bool.false_eq_true, if_false]
  split
  · rfl
  · split
    · rfl
    · rfl

theorem delete_answers : Answers b s "rs_bdev_delete" args env ↔ ¬ DeleteCrashes args := by
  unfold DeleteCrashes
  cases hname : args "name" with
  | none =>
    refine iff_of_false ?_ (by simp)
    intro h
    obtain ⟨reply, hreply, _⟩ := h
    have hpanic : (s.rpcRsBdevDelete args env.deleteRc).run = none := by
      rw [rpcRsBdevDelete, hname]
      rfl
    obtain ⟨r, hr, _⟩ := Option.bind_eq_some_iff.mp hreply
    cases hr.symm.trans hpanic
  | some name =>
    cases hnul : hasNul name with
    | true =>
      refine iff_of_false ?_ (by simp [hnul])
      intro h
      obtain ⟨reply, hreply, _⟩ := h
      cases hreply.symm.trans (delete_nul hname hnul)
    | false =>
      refine iff_of_true ?_ (by simp [hnul])
      have hrun := delete_run (s := s) hname hnul env.deleteRc
      have husable : Usable "rs_bdev_delete" args := ⟨name, hname, hnul⟩
      refine (answers_of_handler (x := s.rpcRsBdevDelete args env.deleteRc) rfl ?_
        fun _ _ => husable).mpr (by simp [hrun])
      intro r hr
      cases Option.some.inj (hrun.symm.trans hr)
      split
      · exact (hasNul_error _).trans ((hasNul_notFound name).trans hnul)
      · have hdone : hasNul "Successfully deleted bdev '" = false := by decide
        have hquote : hasNul "'" = false := by decide
        split
        · exact (hasNul_error _).trans (printable_rc env.deleteRc).2.2
        · simp only [replyText, hasNul_append, hdone, hnul, hquote, Bool.or_false]

theorem unknown_answers {cmd : String} (hdelete : cmd ≠ "rs_bdev_delete")
    (hraid1 : cmd ≠ "rs_raid1_create") (hraid5 : cmd ≠ "rs_raid5_create") :
    Answers b s cmd args env ↔ ¬ hasNul cmd = true := by
  have hx : (s.handleRpcCmd b cmd args env).1 = throw (.rpcCmdUnknown cmd) := by
    unfold handleRpcCmd
    rw [if_neg hdelete, if_neg hraid1, if_neg hraid5]
  have htext := (hasNul_error (.rpcCmdUnknown cmd)).trans (hasNul_unknown cmd)
  cases hnul : hasNul cmd with
  | true =>
    refine iff_of_false ?_ (by simp)
    intro h
    obtain ⟨reply, hreply, _⟩ := h
    unfold rsHandleRpcCmd at hreply
    simp [hx, htext, hnul] at hreply
  | false =>
    refine iff_of_true ((answers_of_handler hx ?_ ?_).mpr (by simp)) (by simp)
    · intro r hr
      cases hr
      exact htext.trans hnul
    · intro msg hmsg
      cases hmsg

/-- **Which commands are answered.** For every command, all arguments, any registry and any
outcome of the SPDK calls: `rs_handle_rpc_cmd` comes back with a reply, which is an error if the
arguments are unusable, if and only if none of the panics is reached. -/
theorem answers_iff (b : Build) (s : Bdevs) (cmd : String) (args : RpcCmdArgs) (env : Env) :
    Answers b s cmd args env ↔ ¬ Crashes b s cmd args env := by
  unfold Crashes
  split
  · rename_i hcmd
    rw [hcmd]
    exact delete_answers
  · split
    · rename_i hcmd
      rw [hcmd]
      exact raid1Create_answers
    · split
      · rename_i hcmd
        rw [hcmd]
        exact raid5Create_answers
      · rename_i hdelete hraid1 hraid5
        exact unknown_answers hdelete hraid1 hraid5

/-- A deletion without a name is not answered: the handler unwraps it. -/
theorem delete_without_name : ¬ ∀ (b : Build) (s : Bdevs) (cmd : String) (args : RpcCmdArgs)
    (env : Env), Answers b s cmd args env := by
  intro h
  obtain ⟨reply, hreply, _⟩ := h release start "rs_bdev_delete" (fun _ => none)
    ⟨geometryEnv, ⟨fun _ => 0, fun _ => 0⟩, ⟨true, 0⟩, 0⟩
  cases hreply

end Bdevs

end Ironspdk.Rpc
