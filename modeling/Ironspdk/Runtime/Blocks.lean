import Mathlib.Logic.Function.Basic
import Mathlib.Tactic.Common

/-! # Control blocks of SPDK threads

Which control block a thread works with: `TCB_REGISTRY`, which finds it by the address of
the thread, and the cache of each reactor, which finds it by the id of the thread that the
reactor called `Tcb::current` for last. Threads come and go and move between reactors; ids
are given out once, addresses again after a thread is gone. A control block has a poller
from its creation to its shutdown, and its memory is never freed. -/
namespace Ironspdk.Runtime

/-- Thread ids start at 1; 0 in a cache means that nothing is cached. -/
abbrev ThreadId := Nat

abbrev ReactorId := Nat

/-- The address of a `struct spdk_thread`. -/
abbrev ThreadKey := Nat

/-- Control blocks in the order in which `Tcb::new` makes them. -/
abbrev TcbPtr := Nat

/-- `on` is the current thread of a reactor, `reactor` says the same from the thread's side.
`home` is the thread on which a control block was made, and its poller registered. `torn`
lists the calls of `Tcb::shutdown`, each with the registry entry that it has removed. -/
structure Blocks where
  created : Nat
  alive : ThreadId → Bool
  running : ThreadId → Bool
  key : ThreadId → ThreadKey
  on : ReactorId → Option ThreadId
  reactor : ThreadId → Option ReactorId
  cache : ReactorId → ThreadId × TcbPtr
  registry : ThreadKey → Option TcbPtr
  tcbs : Nat
  home : TcbPtr → ThreadId
  torn : List (TcbPtr × Option TcbPtr)

namespace Blocks

def start : Blocks :=
  { created := 0, alive := fun _ => false, running := fun _ => false, key := fun _ => 0
    on := fun _ => none, reactor := fun _ => none, cache := fun _ => (0, 0)
    registry := fun _ => none, tcbs := 0, home := fun _ => 0, torn := [] }

/-- The control block has been made and not been shut down: its poller is registered. -/
def Registered (b : Blocks) (p : TcbPtr) : Prop := p < b.tcbs ∧ p ∉ b.torn.map Prod.fst

instance (b : Blocks) (p : TcbPtr) : Decidable (b.Registered p) :=
  inferInstanceAs (Decidable (_ ∧ _))

/-- A call of `Tcb::shutdown` has found no registry entry: 'TCB not found in registry'. -/
def Panicked (b : Blocks) : Prop := ∃ x ∈ b.torn, x.2 = none

instance (b : Blocks) : Decidable b.Panicked :=
  inferInstanceAs (Decidable (∃ x ∈ b.torn, x.2 = none))

/-- `spdk_thread_create` at an address that no thread occupies. -/
def create (key : ThreadKey) (b : Blocks) : Option Blocks :=
  if ∀ θ ≤ b.created, b.alive θ = true → b.key θ ≠ key then
    some { b with
      created := b.created + 1
      alive := Function.update b.alive (b.created + 1) true
      running := Function.update b.running (b.created + 1) true
      key := Function.update b.key (b.created + 1) key
      reactor := Function.update b.reactor (b.created + 1) none }
  else none

/-- The reactor has no current thread any more. -/
def leave (r : ReactorId) (b : Blocks) : Blocks :=
  match b.on r with
  | none => b
  | some θ =>
    { b with on := Function.update b.on r none, reactor := Function.update b.reactor θ none }

/-- The thread becomes the current one of a reactor that has none. -/
def enter (r : ReactorId) (θ : ThreadId) (b : Blocks) : Option Blocks :=
  if b.alive θ = true ∧ b.reactor θ = none ∧ b.on r = none then
    some { b with on := Function.update b.on r (some θ)
                  reactor := Function.update b.reactor θ (some r) }
  else none

/-- `spdk_thread_exit`: the thread is exiting from now on. -/
def exit (θ : ThreadId) (b : Blocks) : Blocks :=
  { b with running := Function.update b.running θ false }

/-- An exiting thread goes away, once no poller of it is registered. -/
def destroy (θ : ThreadId) (b : Blocks) : Option Blocks :=
  if b.alive θ = true ∧ b.running θ = false ∧ b.reactor θ = none ∧
      ∀ p < b.tcbs, b.Registered p → b.home p ≠ θ then
    some { b with alive := Function.update b.alive θ false }
  else none

/-- `Tcb::new` with the registry entry for it. -/
def newTcb (θ : ThreadId) (b : Blocks) : Blocks :=
  { b with tcbs := b.tcbs + 1
           home := Function.update b.home b.tcbs θ
           registry := Function.update b.registry (b.key θ) (some b.tcbs) }

/-- `Tcb::tcb_ptr_from_registry` -/
def tcbPtrFromRegistry (θ : ThreadId) (b : Blocks) : TcbPtr × Blocks :=
  match b.registry (b.key θ) with
  | some p => (p, b)
  | none => (b.tcbs, b.newTcb θ)

/-- `Tcb::current_slow` -/
def currentSlow (r : ReactorId) (θ : ThreadId) (b : Blocks) : TcbPtr × Blocks :=
  let (p, b) := b.tcbPtrFromRegistry θ
  (p, { b with cache := Function.update b.cache r (θ, p) })

/-- `Tcb::current` on a reactor whose current thread is `θ`. -/
def current (r : ReactorId) (θ : ThreadId) (b : Blocks) : TcbPtr × Blocks :=
  if (b.cache r).1 = θ then ((b.cache r).2, b) else b.currentSlow r θ

/-- `Tcb::shutdown` of `p`, called on thread `θ`: it unregisters the poller of `p` and
removes the registry entry of `θ`. -/
def shutdown (p : TcbPtr) (θ : ThreadId) (b : Blocks) : Blocks :=
  { b with registry := Function.update b.registry (b.key θ) none
           torn := b.torn ++ [(p, b.registry (b.key θ))] }

/-! ## What holds of every run -/

/-- What the registry and the caches hold fits the threads. -/
structure Wf (b : Blocks) : Prop where
  created : ∀ θ, b.alive θ = true → 0 < θ ∧ θ ≤ b.created
  keys : ∀ θ η, b.alive θ = true → b.alive η = true → b.key θ = b.key η → θ = η
  reactors : ∀ r θ, b.on r = some θ → b.alive θ = true ∧ b.reactor θ = some r
  registry : ∀ k p, b.registry k = some p →
    b.Registered p ∧ b.alive (b.home p) = true ∧ b.key (b.home p) = k
  cache : ∀ r, (b.cache r).1 ≠ 0 → (b.cache r).2 < b.tcbs ∧ b.home (b.cache r).2 = (b.cache r).1
  torn : ∀ x ∈ b.torn, x.1 < b.tcbs

theorem wf_start : start.Wf :=
  ⟨by simp [start], by simp [start], by simp [start], by simp [start], by simp [start],
    by simp [start]⟩

theorem Wf.pos {b : Blocks} (h : b.Wf) {r : ReactorId} {θ : ThreadId} (hr : b.on r = some θ) :
    0 < θ :=
  (h.created θ (h.reactors r θ hr).1).1

theorem Wf.create {b c : Blocks} {key : ThreadKey} (h : b.Wf) (hc : b.create key = some c) :
    c.Wf := by
  unfold Blocks.create at hc
  split at hc
  · rename_i hfree
    cases hc
    have hne : ∀ θ, b.alive θ = true → θ ≠ b.created + 1 := fun θ hθ he =>
      Nat.not_succ_le_self _ (he ▸ (h.created θ hθ).2)
    have old : ∀ {θ}, θ ≠ b.created + 1 →
        Function.update b.alive (b.created + 1) true θ = true → b.alive θ = true := fun he hθ => by
      rwa [Function.update_of_ne he] at hθ
    have hkey : ∀ {θ}, θ ≠ b.created + 1 →
        Function.update b.alive (b.created + 1) true θ = true → b.key θ ≠ key := fun he hθ =>
      hfree _ (h.created _ (old he hθ)).2 (old he hθ)
    refine ⟨fun θ hθ => ?_, fun θ η hθ hη hk => ?_, fun r θ hr => ?_, fun k p hp => ?_, h.cache,
      h.torn⟩
    · by_cases he : θ = b.created + 1
      · rw [he]
        exact ⟨Nat.succ_pos _, Nat.le_refl _⟩
      · have := h.created θ (old he hθ)
        exact ⟨this.1, Nat.le_succ_of_le this.2⟩
    · by_cases he : θ = b.created + 1 <;> by_cases hf : η = b.created + 1
      · rw [he, hf]
      · rw [he] at hk
        simp only [Function.update_self, Function.update_of_ne hf] at hk
        exact absurd hk.symm (hkey hf hη)
      · rw [hf] at hk
        simp only [Function.update_self, Function.update_of_ne he] at hk
        exact absurd hk (hkey he hθ)
      · simp only [Function.update_of_ne he, Function.update_of_ne hf] at hk
        exact h.keys θ η (old he hθ) (old hf hη) hk
    · obtain ⟨ha, hr'⟩ := h.reactors r θ hr
      simp only [Function.update_of_ne (hne θ ha)]
      exact ⟨ha, hr'⟩
    · obtain ⟨hp, ha, hk⟩ := h.registry k p hp
      refine ⟨hp, ?_⟩
      simp only [Function.update_of_ne (hne _ ha)]
      exact ⟨ha, hk⟩
  · cases hc

theorem Wf.leave {b : Blocks} (h : b.Wf) (r : ReactorId) : (b.leave r).Wf := by
  unfold Blocks.leave
  cases hr : b.on r with
  | none => exact h
  | some θ =>
    refine ⟨h.created, h.keys, fun r' η hη => ?_, h.registry, h.cache, h.torn⟩
    by_cases he : r' = r
    · rw [he] at hη
      simp at hη
    · simp only [Function.update_of_ne he] at hη
      obtain ⟨ha, hr'⟩ := h.reactors r' η hη
      have hne : η ≠ θ := by
        rintro rfl
        exact he (Option.some.inj (hr'.symm.trans (h.reactors r η hr).2))
      simp only [Function.update_of_ne hne]
      exact ⟨ha, hr'⟩

theorem Wf.enter {b c : Blocks} {r : ReactorId} {θ : ThreadId} (h : b.Wf)
    (hc : b.enter r θ = some c) : c.Wf := by
  unfold Blocks.enter at hc
  split at hc
  · rename_i hguard
    obtain ⟨ha, hfree, _⟩ := hguard
    cases hc
    refine ⟨h.created, h.keys, fun r' η hη => ?_, h.registry, h.cache, h.torn⟩
    by_cases he : r' = r
    · rw [he] at hη ⊢
      simp only [Function.update_self, Option.some.injEq] at hη
      rw [← hη]
      exact ⟨ha, Function.update_self ..⟩
    · simp only [Function.update_of_ne he] at hη
      obtain ⟨ha', hr'⟩ := h.reactors r' η hη
      have hne : η ≠ θ := by
        rintro rfl
        rw [hfree] at hr'
        cases hr'
      simp only [Function.update_of_ne hne]
      exact ⟨ha', hr'⟩
  · cases hc

theorem Wf.exit {b : Blocks} (h : b.Wf) (θ : ThreadId) : (b.exit θ).Wf :=
  ⟨h.created, h.keys, h.reactors, h.registry, h.cache, h.torn⟩

theorem Wf.destroy {b c : Blocks} {θ : ThreadId} (h : b.Wf) (hc : b.destroy θ = some c) : c.Wf := by
  unfold Blocks.destroy at hc
  split at hc
  · rename_i hguard
    obtain ⟨_, _, hfree, hpollers⟩ := hguard
    cases hc
    have old : ∀ {η}, Function.update b.alive θ false η = true → η ≠ θ ∧ b.alive η = true := by
      intro η hη
      by_cases he : η = θ
      · rw [he, Function.update_self] at hη
        cases hη
      · exact ⟨he, by rwa [Function.update_of_ne he] at hη⟩
    refine ⟨fun η hη => h.created η (old hη).2,
      fun η ζ hη hζ hk => h.keys η ζ (old hη).2 (old hζ).2 hk, fun r η hη => ?_, fun k p hp => ?_,
      h.cache, h.torn⟩
    · obtain ⟨ha, hr⟩ := h.reactors r η hη
      have hne : η ≠ θ := by
        rintro rfl
        rw [hfree] at hr
        cases hr
      exact ⟨by simpa only [Function.update_of_ne hne] using ha, hr⟩
    · obtain ⟨hreg, ha, hk⟩ := h.registry k p hp
      have hne : b.home p ≠ θ := hpollers p hreg.1 hreg
      exact ⟨hreg, by simpa only [Function.update_of_ne hne] using ha, hk⟩
  · cases hc

theorem Wf.newTcb {b : Blocks} (h : b.Wf) {θ : ThreadId} (ha : b.alive θ = true) :
    (b.newTcb θ).Wf := by
  have hfresh : b.tcbs ∉ b.torn.map Prod.fst := fun hm => by
    obtain ⟨x, hx, he⟩ := List.mem_map.mp hm
    exact Nat.lt_irrefl _ (he ▸ h.torn x hx)
  refine ⟨h.created, h.keys, h.reactors, fun k p hp => ?_, fun r hr => ?_,
    fun x hx => Nat.lt_succ_of_lt (h.torn x hx)⟩
  · by_cases hk : k = b.key θ
    · subst hk
      simp only [Blocks.newTcb, Function.update_self, Option.some.injEq] at hp
      subst hp
      simp only [Blocks.newTcb, Function.update_self]
      exact ⟨⟨Nat.lt_succ_self _, hfresh⟩, ha, trivial⟩
    · simp only [Blocks.newTcb, Function.update_of_ne hk] at hp
      obtain ⟨⟨hlt, ht⟩, ha, hkey⟩ := h.registry k p hp
      have hne : p ≠ b.tcbs := Nat.ne_of_lt hlt
      simp only [Blocks.newTcb, Function.update_of_ne hne]
      exact ⟨⟨Nat.lt_succ_of_lt hlt, ht⟩, ha, hkey⟩
  · obtain ⟨hlt, hhome⟩ := h.cache r hr
    have hne : (b.cache r).2 ≠ b.tcbs := Nat.ne_of_lt hlt
    exact ⟨Nat.lt_succ_of_lt hlt, (Function.update_of_ne hne _ _).trans hhome⟩

/-- The slow path leaves the registry entry of the thread as it returns it. -/
theorem Wf.tcbPtrFromRegistry {b : Blocks} (h : b.Wf) {θ : ThreadId} (ha : b.alive θ = true) :
    (b.tcbPtrFromRegistry θ).2.Wf ∧
      (b.tcbPtrFromRegistry θ).2.registry ((b.tcbPtrFromRegistry θ).2.key θ) =
        some (b.tcbPtrFromRegistry θ).1 := by
  unfold Blocks.tcbPtrFromRegistry
  split
  · rename_i p hp
    exact ⟨h, hp⟩
  · exact ⟨h.newTcb ha, Function.update_self ..⟩

/-- What the registry holds for a thread was made on this thread. -/
theorem Wf.home_eq {b : Blocks} (h : b.Wf) {θ : ThreadId} (ha : b.alive θ = true) {p : TcbPtr}
    (hp : b.registry (b.key θ) = some p) : b.home p = θ := by
  obtain ⟨_, ha', hk⟩ := h.registry _ p hp
  exact h.keys _ _ ha' ha hk

theorem tcbPtrFromRegistry_alive (θ : ThreadId) (b : Blocks) :
    (b.tcbPtrFromRegistry θ).2.alive = b.alive := by
  unfold Blocks.tcbPtrFromRegistry
  split <;> rfl

theorem Wf.currentSlow {b : Blocks} (h : b.Wf) (r : ReactorId) {θ : ThreadId}
    (ha : b.alive θ = true) : (b.currentSlow r θ).2.Wf := by
  obtain ⟨hw, hreg⟩ := h.tcbPtrFromRegistry ha
  have ha' : (b.tcbPtrFromRegistry θ).2.alive θ = true := by rwa [tcbPtrFromRegistry_alive]
  refine ⟨hw.created, hw.keys, hw.reactors, hw.registry, fun r' hr => ?_, hw.torn⟩
  by_cases he : r' = r
  · subst he
    simp only [Blocks.currentSlow, Function.update_self]
    exact ⟨(hw.registry _ _ hreg).1.1, hw.home_eq ha' hreg⟩
  · simp only [Blocks.currentSlow, Function.update_of_ne he] at hr ⊢
    exact hw.cache r' hr

theorem Wf.current {b : Blocks} (h : b.Wf) (r : ReactorId) {θ : ThreadId}
    (ha : b.alive θ = true) : (b.current r θ).2.Wf := by
  unfold Blocks.current
  split
  · exact h
  · exact h.currentSlow r ha

/-- `Tcb::current` returns a control block that was made on the current thread. -/
theorem Wf.current_home {b : Blocks} (h : b.Wf) (r : ReactorId) {θ : ThreadId}
    (ha : b.alive θ = true) : (b.current r θ).1 < (b.current r θ).2.tcbs ∧
      (b.current r θ).2.home (b.current r θ).1 = θ := by
  unfold Blocks.current
  split
  · rename_i hid
    have hpos : (b.cache r).1 ≠ 0 := by
      rw [hid]
      exact Nat.ne_of_gt (h.created θ ha).1
    exact ⟨(h.cache r hpos).1, (h.cache r hpos).2.trans hid⟩
  · obtain ⟨hw, hreg⟩ := h.tcbPtrFromRegistry ha
    have ha' : (b.tcbPtrFromRegistry θ).2.alive θ = true := by rwa [tcbPtrFromRegistry_alive]
    exact ⟨(hw.registry _ _ hreg).1.1, hw.home_eq ha' hreg⟩

/-- `Tcb::current` leaves the control blocks that exist where they are. -/
theorem current_old (r : ReactorId) (θ : ThreadId) {b : Blocks} {p : TcbPtr} (hp : p < b.tcbs) :
    p < (b.current r θ).2.tcbs ∧ (b.current r θ).2.home p = b.home p := by
  unfold Blocks.current
  split
  · exact ⟨hp, rfl⟩
  · unfold Blocks.currentSlow Blocks.tcbPtrFromRegistry
    cases b.registry (b.key θ) with
    | some q => exact ⟨hp, rfl⟩
    | none => exact ⟨Nat.lt_succ_of_lt hp, Function.update_of_ne (Nat.ne_of_lt hp) _ _⟩

/-- `Tcb::current` changes nothing that is known of the threads. -/
theorem current_threads (r : ReactorId) (θ : ThreadId) (b : Blocks) :
    (b.current r θ).2.alive = b.alive ∧ (b.current r θ).2.running = b.running ∧
      (b.current r θ).2.key = b.key ∧ (b.current r θ).2.on = b.on ∧
      (b.current r θ).2.torn = b.torn := by
  unfold Blocks.current
  split
  · exact ⟨rfl, rfl, rfl, rfl, rfl⟩
  · unfold Blocks.currentSlow Blocks.tcbPtrFromRegistry
    cases b.registry (b.key θ) with
    | some q => exact ⟨rfl, rfl, rfl, rfl, rfl⟩
    | none => exact ⟨rfl, rfl, rfl, rfl, rfl⟩

theorem Wf.shutdown {b : Blocks} (h : b.Wf) {θ : ThreadId} {p : TcbPtr} (hlt : p < b.tcbs)
    (hhome : b.home p = θ) : (b.shutdown p θ).Wf := by
  refine ⟨h.created, h.keys, h.reactors, fun k q hq => ?_, h.cache, fun x hx => ?_⟩
  · by_cases hk : k = b.key θ
    · rw [hk] at hq
      simp [Blocks.shutdown] at hq
    · simp only [Blocks.shutdown, Function.update_of_ne hk] at hq
      obtain ⟨⟨hql, hqt⟩, ha, hkey⟩ := h.registry k q hq
      have hne : q ≠ p := by
        rintro rfl
        rw [hhome] at hkey
        exact hk hkey.symm
      exact ⟨⟨hql, by simpa [Blocks.shutdown, hne] using hqt⟩, ha, hkey⟩
  · rcases List.mem_append.mp hx with hx | hx
    · exact h.torn x hx
    · rw [List.mem_singleton.mp hx]
      exact hlt

/-! ## While no control block is used after its shutdown -/

/-- Every control block that has a poller is in the registry, and the others have been shut
down once, which took their own entry out. -/
structure Sole (b : Blocks) : Prop where
  wf : b.Wf
  kept : ∀ p, b.Registered p → b.registry (b.key (b.home p)) = some p
  once : (b.torn.map Prod.fst).Nodup
  own : ∀ x ∈ b.torn, x.2 = some x.1

theorem sole_start : start.Sole :=
  ⟨wf_start, by simp [start, Registered], by simp [start], by simp [start]⟩

/-- Threads that come, go and move leave the control blocks as they are. -/
theorem Sole.same {b c : Blocks} (h : b.Sole) (hw : c.Wf) (ht : c.torn = b.torn)
    (hn : c.tcbs = b.tcbs) (hh : c.home = b.home) (hr : c.registry = b.registry)
    (hk : ∀ p, b.Registered p → c.key (b.home p) = b.key (b.home p)) : c.Sole := by
  refine ⟨hw, fun p hp => ?_, ht ▸ h.once, ht ▸ h.own⟩
  have hp : b.Registered p := by rwa [Registered, ht, hn] at hp
  rw [hr, hh, hk p hp]
  exact h.kept p hp

theorem Sole.create {b c : Blocks} {key : ThreadKey} (h : b.Sole) (hc : b.create key = some c) :
    c.Sole := by
  have hw := h.wf.create hc
  unfold Blocks.create at hc
  split at hc <;> cases hc
  refine h.same hw rfl rfl rfl rfl fun p hp => Function.update_of_ne (fun he => ?_) _ _
  have ha := (h.wf.registry _ _ (h.kept p hp)).2.1
  exact Nat.not_succ_le_self _ (he ▸ (h.wf.created _ ha).2)

theorem Sole.destroy {b c : Blocks} {θ : ThreadId} (h : b.Sole) (hc : b.destroy θ = some c) :
    c.Sole := by
  have hw := h.wf.destroy hc
  unfold Blocks.destroy at hc
  split at hc <;> cases hc
  exact h.same hw rfl rfl rfl rfl fun _ _ => rfl

theorem Sole.enter {b c : Blocks} {r : ReactorId} {θ : ThreadId} (h : b.Sole)
    (hc : b.enter r θ = some c) : c.Sole := by
  have hw := h.wf.enter hc
  unfold Blocks.enter at hc
  split at hc <;> cases hc
  exact h.same hw rfl rfl rfl rfl fun _ _ => rfl

theorem Sole.leave {b : Blocks} (h : b.Sole) (r : ReactorId) : (b.leave r).Sole := by
  have hw := h.wf.leave r
  unfold Blocks.leave at hw ⊢
  split at hw
  · exact h
  · exact h.same hw rfl rfl rfl rfl fun _ _ => rfl

theorem Sole.exit {b : Blocks} (h : b.Sole) (θ : ThreadId) : (b.exit θ).Sole :=
  h.same (h.wf.exit θ) rfl rfl rfl rfl fun _ _ => rfl

theorem Sole.newTcb {b : Blocks} (h : b.Sole) {θ : ThreadId} (ha : b.alive θ = true)
    (hnone : b.registry (b.key θ) = none) : (b.newTcb θ).Sole := by
  refine ⟨h.wf.newTcb ha, fun p hp => ?_, h.once, h.own⟩
  by_cases he : p = b.tcbs
  · subst he
    simp [Blocks.newTcb]
  · have hp : b.Registered p := ⟨Nat.lt_of_le_of_ne (Nat.lt_succ_iff.mp hp.1) he, hp.2⟩
    have hk : b.key (b.home p) ≠ b.key θ := fun hk => by
      rw [← hk, h.kept p hp] at hnone
      cases hnone
    simp only [Blocks.newTcb, Function.update_of_ne he, Function.update_of_ne hk]
    exact h.kept p hp

theorem Sole.tcbPtrFromRegistry {b : Blocks} (h : b.Sole) {θ : ThreadId} (ha : b.alive θ = true) :
    (b.tcbPtrFromRegistry θ).2.Sole := by
  unfold Blocks.tcbPtrFromRegistry
  split
  · exact h
  · rename_i hnone
    exact h.newTcb ha hnone

theorem Sole.current {b : Blocks} (h : b.Sole) (r : ReactorId) {θ : ThreadId}
    (ha : b.alive θ = true) : (b.current r θ).2.Sole := by
  have hw := h.wf.current r ha
  unfold Blocks.current at hw ⊢
  split at hw
  · rename_i hid
    rwa [if_pos hid]
  · rename_i hid
    rw [if_neg hid]
    exact (h.tcbPtrFromRegistry ha).same hw rfl rfl rfl rfl fun _ _ => rfl

/-- What `Tcb::current` takes from the cache has not been shut down. -/
def Fresh (b : Blocks) (r : ReactorId) (θ : ThreadId) : Prop :=
  (b.cache r).1 = θ → (b.cache r).2 ∉ b.torn.map Prod.fst

instance (b : Blocks) (r : ReactorId) (θ : ThreadId) : Decidable (b.Fresh r θ) :=
  inferInstanceAs (Decidable (_ → _))

/-- What `Tcb::current` returns is what the registry then holds for the current thread, and
its poller is registered. -/
def Agrees (b : Blocks) (r : ReactorId) (θ : ThreadId) : Prop :=
  (b.current r θ).2.registry ((b.current r θ).2.key θ) = some (b.current r θ).1 ∧
    (b.current r θ).2.Registered (b.current r θ).1

instance (b : Blocks) (r : ReactorId) (θ : ThreadId) : Decidable (b.Agrees r θ) :=
  inferInstanceAs (Decidable (_ ∧ _))

theorem Agrees.fresh {b : Blocks} {r : ReactorId} {θ : ThreadId} (h : b.Agrees r θ) :
    b.Fresh r θ := by
  intro hid
  have hp := h.2.2
  rwa [show b.current r θ = ((b.cache r).2, b) from if_pos hid] at hp

theorem Sole.agrees {b : Blocks} (h : b.Sole) {r : ReactorId} {θ : ThreadId}
    (ha : b.alive θ = true) (hf : b.Fresh r θ) : b.Agrees r θ := by
  have hs := h.current r ha
  obtain ⟨hlt, hhome⟩ := h.wf.current_home r ha
  have hp : (b.current r θ).2.Registered (b.current r θ).1 := by
    refine ⟨hlt, ?_⟩
    unfold Blocks.current
    split
    · rename_i hid
      exact hf hid
    · obtain ⟨hw, hreg⟩ := h.wf.tcbPtrFromRegistry ha
      exact (hw.registry _ _ hreg).1.2
  have hk := hs.kept _ hp
  rw [hhome] at hk
  exact ⟨hk, hp⟩

/-- The shutdown of a control block that has its poller. -/
theorem Sole.shutdown {b : Blocks} (h : b.Sole) {θ : ThreadId} {p : TcbPtr}
    (hp : b.Registered p) (hhome : b.home p = θ) : (b.shutdown p θ).Sole := by
  have hreg : b.registry (b.key θ) = some p := by
    rw [← hhome]
    exact h.kept p hp
  refine ⟨h.wf.shutdown hp.1 hhome, fun q hq => ?_, ?_, fun x hx => ?_⟩
  · obtain ⟨hql, hqt⟩ := hq
    simp only [Blocks.shutdown, List.map_append, List.map_cons, List.map_nil, List.mem_append,
      List.mem_singleton, not_or] at hqt
    have hq' := h.kept q ⟨hql, hqt.1⟩
    have hk : b.key (b.home q) ≠ b.key θ := fun hk => by
      rw [hk, hreg] at hq'
      exact hqt.2 (Option.some.inj hq').symm
    exact (Function.update_of_ne hk _ _).trans hq'
  · simp only [Blocks.shutdown, List.map_append, List.map_cons, List.map_nil]
    exact List.nodup_append.mpr ⟨h.once, by simp, fun x hx y hy he => by
      rw [List.mem_singleton.mp hy] at he
      exact hp.2 (he ▸ hx)⟩
  · rcases List.mem_append.mp hx with hx | hx
    · exact h.own x hx
    · rw [List.mem_singleton.mp hx]
      exact hreg

end Blocks

end Ironspdk.Runtime
