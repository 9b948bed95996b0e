import Ironspdk.Rpc.Geometry
import Ironspdk.Rpc.Registry

/-! # Redundancy and the names of the children

The layout goes by the index of a child; where a block lies goes by its name, as
`create_io_channel` opens the children. The create command counts names and never compares
them, so that one bdev named several times passes for several disks. -/
namespace Ironspdk.Rpc
open Ironspdk.Runtime
open Ironspdk.Raid5 (Raid5Bdev Slot place_inj place_surj)

/-- The bdev and the block of it that hold a slot of the layout. -/
def stored (names : List String) (dev : Raid5Bdev) (x : Slot) : Option String × Nat :=
  (names[(x.place dev).1]?, (x.place dev).2)

/-- No two logical blocks share their storage, and none shares it with the parity of its
stripe. -/
def Separate (names : List String) (dev : Raid5Bdev) (blockcnt : Nat) : Prop :=
  (∀ b b', b < blockcnt → b' < blockcnt → b ≠ b' →
    stored names dev (.data b) ≠ stored names dev (.data b')) ∧
  ∀ b r, b < blockcnt → r < dev.stripBlocks →
    stored names dev (.data b) ≠ stored names dev (.parity (dev.stripeIdx b) r)

/-- A bdev holds one column of a stripe at most. -/
def OneColumn (names : List String) (dev : Raid5Bdev) (blockcnt : Nat) : Prop :=
  ∀ stripeIdx i j, stripeIdx * dev.stripeBlocks < blockcnt → i < dev.diskCount →
    j < dev.diskCount → names[i]? = names[j]? → i = j

structure Redundant (names : List String) (dev : Raid5Bdev) (blockcnt : Nat) : Prop where
  separate : Separate names dev blockcnt
  oneColumn : OneColumn names dev blockcnt

variable {names : List String} {dev : Raid5Bdev} {k : Nat}

theorem names_inj (hn : names.Nodup) (hlen : names.length = dev.diskCount) {i j : Nat}
    (hi : i < dev.diskCount) (h : names[i]? = names[j]?) : i = j :=
  (List.getElem?_inj (hlen ▸ hi) hn).mp h

theorem place_lt (x : Slot) : (x.place dev).1 < dev.diskCount := by
  cases x with
  | data b =>
    obtain ⟨s, i, r, hi, hr, _, rfl⟩ := dev.exists_coordinates b
    rw [Slot.place, dev.locate_logicalBlock hi hr]
    exact Raid5.dataDiskIdx_lt hi
  | parity s r => exact dev.parityDiskIdx_lt s

/-- Under different names the storage is that of the layout. -/
theorem stored_inj (hn : names.Nodup) (hlen : names.length = dev.diskCount) {x y : Slot}
    (h : stored names dev x = stored names dev y) : x.place dev = y.place dev := by
  obtain ⟨hname, hrow⟩ := Prod.mk.inj h
  exact Prod.ext (names_inj hn hlen (place_lt x) hname) hrow

theorem separate_of_nodup (hn : names.Nodup) (hlen : names.length = dev.diskCount)
    (blockcnt : Nat) : Separate names dev blockcnt := by
  refine ⟨fun b b' hb hb' hne h => ?_, fun b r hb hr h => ?_⟩
  · have hslot := place_inj (x := .data b) (y := .data b') hb hb' (stored_inj hn hlen h)
    cases hslot
    exact hne rfl
  · have hstripe : dev.stripeIdx b * dev.stripeBlocks < blockcnt :=
      lt_of_le_of_lt (Nat.div_mul_le_self _ _) hb
    have hslot := place_inj (x := .data b) (y := .parity (dev.stripeIdx b) r) hb ⟨hstripe, hr⟩
      (stored_inj hn hlen h)
    cases hslot

/-- The slot of a disk in the first row of the array. -/
theorem first_row (hk : 0 < k) {disk : Nat} (hd : disk < dev.diskCount) :
    ∃ x : Slot, x.Valid dev (k * dev.stripeBlocks) ∧ x.place dev = (disk, 0) ∧
      ((∃ b, x = .data b ∧ dev.stripeIdx b = 0) ∨ x = .parity 0 0) := by
  have hrow : 0 < k * dev.stripBlocks := Nat.mul_pos hk dev.strip_pos
  obtain ⟨x, hv, hx⟩ := place_surj hd hrow
  refine ⟨x, hv, hx, ?_⟩
  cases x with
  | data b =>
    refine Or.inl ⟨b, rfl, ?_⟩
    have hzero : dev.stripeIdx b * dev.stripBlocks + dev.stripeOffset b % dev.stripBlocks = 0 :=
      congrArg Prod.snd hx
    have hmul : dev.stripeIdx b * dev.stripBlocks = 0 := by omega
    exact (Nat.mul_eq_zero.mp hmul).resolve_right dev.strip_pos.ne'
  | parity s r =>
    have hzero : s * dev.stripBlocks + r = 0 := congrArg Prod.snd hx
    have hmul : s * dev.stripBlocks = 0 := by omega
    have hs : s = 0 := (Nat.mul_eq_zero.mp hmul).resolve_right dev.strip_pos.ne'
    have hr : r = 0 := by omega
    exact Or.inr (by rw [hs, hr])

/-- A name that occurs twice puts two blocks of the first row in one place. -/
theorem not_separate (hlen : names.length = dev.diskCount) (hk : 0 < k) {i j : Nat} (hij : i < j)
    (hj : j < names.length) (hname : names[i]? = names[j]?) :
    ¬ Separate names dev (k * dev.stripeBlocks) := by
  intro h
  obtain ⟨hdata, hparity⟩ := h
  rw [hlen] at hj
  obtain ⟨x, hx, hxi, hxkind⟩ := first_row hk (hij.trans hj)
  obtain ⟨y, hy, hyj, hykind⟩ := first_row hk hj
  have hsame : stored names dev x = stored names dev y := by
    rw [stored, stored, hxi, hyj, hname]
  have hne : x ≠ y := by
    rintro rfl
    have := congrArg Prod.fst (hxi.symm.trans hyj)
    exact hij.ne this
  rcases hxkind with ⟨b, rfl, hb⟩ | rfl
  · rcases hykind with ⟨b', rfl, hb'⟩ | rfl
    · exact hdata b b' hx hy (fun he => hne (by rw [he])) hsame
    · refine hparity b 0 hx dev.strip_pos ?_
      rw [hb]
      exact hsame
  · rcases hykind with ⟨b', rfl, hb'⟩ | rfl
    · refine hparity b' 0 hy dev.strip_pos ?_
      rw [hb']
      exact hsame.symm
    · exact hne rfl

/-- An array of whole stripes is redundant if its names are different, or it is empty. -/
theorem redundant_stripes (hlen : names.length = dev.diskCount) :
    Redundant names dev (k * dev.stripeBlocks) ↔ names.Nodup ∨ k = 0 := by
  constructor
  · intro h
    by_contra hno
    obtain ⟨hdup, hk⟩ := not_or.mp hno
    rw [List.nodup_iff_getElem?_ne_getElem?] at hdup
    push Not at hdup
    obtain ⟨i, j, hij, hj, hname⟩ := hdup
    exact not_separate hlen (Nat.pos_of_ne_zero hk) hij hj hname h.separate
  · intro h
    rcases h with hn | rfl
    · exact ⟨separate_of_nodup hn hlen _, fun _ i j _ hi _ h => names_inj hn hlen hi h⟩
    · rw [Nat.zero_mul]
      have hnone : ∀ {n : Nat}, ¬ n < 0 := Nat.not_lt_zero _
      exact ⟨⟨fun _ _ hb => absurd hb hnone, fun _ _ hb => absurd hb hnone⟩,
        fun _ _ _ hs => absurd hs hnone⟩

/-! ## What the command accepts -/

theorem finishCreate_ok {b : Build} {s : Bdevs} {c : Creation} {out : CreateOutcome} {msg : String}
    (h : (s.finishCreate b c out).1.run = some (.ok msg)) : ∃ opts, c.opts = .ok opts ∧
      (s.finishCreate b c out).2.registered = ⟨c.name, s.handles, opts⟩ :: s.registered := by
  unfold Bdevs.finishCreate Bdevs.bdevRegistryAdd at h ⊢
  simp only at h ⊢
  cases hreg : s.registry c.name with
  | some bdevh =>
    rw [hreg] at h
    cases h
  | none =>
    rw [hreg] at h
    cases hopts : c.opts with
    | error e =>
      rw [hopts] at h
      simp only at h
      split at h
      · cases h
      · cases h
    | ok opts =>
      rw [hopts] at h
      simp only at h ⊢
      refine ⟨opts, rfl, ?_⟩
      split at h
      · cases h
      · rename_i hnul
        rw [if_neg hnul]
        split at h
        · rename_i hrc
          rw [if_pos hrc]
        · split at h
          · cases h
          · split at h
            · cases h
            · cases h

/-- An accepted create has registered a device with the options it worked out. -/
theorem create_ok {b : Build} {s : Bdevs} {x : Call Creation} {out : CreateOutcome} {msg : String}
    (h : (s.create b x out).1.run = some (.ok msg)) : ∃ c opts, x.run = some (.ok c) ∧
      c.opts = .ok opts ∧
      (s.create b x out).2.registered = ⟨c.name, s.handles, opts⟩ :: s.registered := by
  unfold Bdevs.create at h ⊢
  cases hx : x.run with
  | none =>
    rw [hx] at h
    cases h
  | some r =>
    rw [hx] at h
    cases r with
    | error e => cases h
    | ok c =>
      obtain ⟨opts, hopts, hreg⟩ := finishCreate_ok h
      exact ⟨c, opts, rfl, hopts, hreg⟩

/-- **When the redundancy is physical.** For every argument map that `rs_raid5_create` accepts,
in any state of the registry: different logical blocks, and a logical block and the parity of
its stripe, are stored in different places, and every child bdev holds one column of a stripe at
most, if and only if no child is named twice or the children are smaller than a strip, so that
the device has no blocks. -/
theorem redundant_iff {b : Build} {s : Bdevs} {args : RpcCmdArgs} {env : Raid5Env}
    {out : CreateOutcome} {msg : String}
    (h : (s.rpcRsRaid5Create b args env out).1.run = some (.ok msg)) :
    ∃ children child dev d, args "children" = some children ∧ Reaches args env child ∧
      Builds b args env child dev ∧ dev.diskCount = (splitNames children).length ∧
      (s.rpcRsRaid5Create b args env out).2.registered.head? = some d ∧
      (Redundant (splitNames children) dev d.opts.blockcnt ↔
        (splitNames children).Nodup ∨ child.numberOfBlocks < dev.stripBlocks) := by
  obtain ⟨c, opts, hc, hopts, hreg⟩ := create_ok h
  obtain ⟨child, dev, hreach, hbuilds, hwork⟩ := raid5Creation_ok hc
  have hbuilds' := hbuilds
  obtain ⟨children, stripSize, hchildren, _, hnew⟩ := hbuilds
  obtain ⟨hcount, _⟩ := raid5Bdev_new hnew
  obtain ⟨hcnt, _⟩ := raid5Opts_ok (hwork.symm.trans hopts)
  refine ⟨children, child, dev, ⟨c.name, s.handles, opts⟩, hchildren, hreach, hbuilds', hcount,
    congrArg List.head? hreg, ?_⟩
  have hstripes : opts.blockcnt = child.numberOfBlocks / dev.stripBlocks * dev.stripeBlocks := by
    rw [hcnt, dev.stripe_eq, Nat.mul_left_comm]
  rw [hstripes, redundant_stripes hcount.symm, Nat.div_eq_zero_iff_lt dev.strip_pos]

/-- A request for strips of 4 KB. -/
def redundantArgs (children : String) : RpcCmdArgs := fun field =>
  if field = "name" then some "r5" else if field = "children" then some children
  else if field = "strip_size_kb" then some "4" else none

theorem redundant_iff_differentNames : ∃ dev d,
    (Bdevs.start.rpcRsRaid5Create release (redundantArgs "a b c") geometryEnv
      ⟨true, 0⟩).2.registered.head? = some d ∧
    Redundant ["a", "b", "c"] dev d.opts.blockcnt := by
  have h : (Bdevs.start.rpcRsRaid5Create release (redundantArgs "a b c") geometryEnv
      ⟨true, 0⟩).1.run = some (.ok "Successfully created RAID5 bdev: 'r5'") := by decide
  obtain ⟨children, _, dev, d, hchildren, _, _, _, hd, hiff⟩ := redundant_iff h
  cases hchildren
  exact ⟨dev, d, hd, hiff.mpr (Or.inl (by decide))⟩

/-- With one bdev named three times, logical blocks 0 and 8 share their storage. -/
theorem same_child_thrice : ¬ ∀ (b : Build) (s : Bdevs) (args : RpcCmdArgs) (env : Raid5Env)
    (out : CreateOutcome) (msg children : String) (child : BdevDesc) (dev : Raid5Bdev)
    (d : SpdkBdev), (s.rpcRsRaid5Create b args env out).1.run = some (.ok msg) →
    args "children" = some children → Reaches args env child → Builds b args env child dev →
    (s.rpcRsRaid5Create b args env out).2.registered.head? = some d →
    Redundant (splitNames children) dev d.opts.blockcnt := by
  intro h
  have hreach : Reaches (redundantArgs "a a a") geometryEnv ⟨512, 4096⟩ :=
    ⟨"r5", "a a a", rfl, rfl, by decide, rfl⟩
  have hbuilds : Builds release (redundantArgs "a a a") geometryEnv ⟨512, 4096⟩
      ⟨3, 1, 8, 16, by decide, by decide, by decide, rfl⟩ := ⟨"a a a", 4096, rfl, by decide, rfl⟩
  have hredundant := h release Bdevs.start (redundantArgs "a a a") geometryEnv ⟨true, 0⟩
    "Successfully created RAID5 bdev: 'r5'" "a a a" ⟨512, 4096⟩ _ _ (by decide) rfl hreach hbuilds
    rfl
  exact hredundant.separate.1 0 8 (by decide) (by decide) (by decide) rfl

end Ironspdk.Rpc
