import Ironspdk.Lib.Async

/-! # Programs and the answers they get

What a program does depends on nothing but the answers to its operations. `replay` runs it on
given answers, without surroundings: where the answers of a run are known, so is its end.
`Asks` says what a program asks for, whatever it is answered; `Follows`, in which order;
`Tracks`, how that depends on the answers. -/
namespace Ironspdk.Lib.Prog

variable {Op : Type} {Res : Op → Type} {σ α β : Type}

/-- How a program ends on the answers of `f`: with a value, or where there is no answer. -/
def replay (f : (o : Op) → σ → Option (Res o × σ)) : Prog Op Res α → σ → Option α × σ
  | ret a, s => (some a, s)
  | op o k, s =>
    match f o s with
    | some (r, t) => (k r).replay f t
    | none => (none, s)

section replay
variable {f : (o : Op) → σ → Option (Res o × σ)} {o : Op} {s t : σ}

@[simp] theorem replay_pure (a : α) : (pure a : Prog Op Res α).replay f s = (some a, s) := rfl

theorem replay_op {k : Res o → Prog Op Res α} {r : Res o} (h : f o s = some (r, t)) :
    (op o k).replay f s = (k r).replay f t := by
  rw [replay, h]

theorem replay_halt {k : Res o → Prog Op Res α} (h : f o s = none) :
    (op o k).replay f s = (none, s) := by
  rw [replay, h]

theorem replay_perform {k : Res o → Prog Op Res α} {r : Res o} (h : f o s = some (r, t)) :
    (perform o >>= k).replay f s = (k r).replay f t :=
  replay_op h

end replay

/-- Whatever the answers, as long as they are in `R`: each operation is in `P`, and the value
the program ends with in `Q`. -/
def Asks (P : Op → Prop) (R : (o : Op) → Res o → Prop) : Prog Op Res α → (α → Prop) → Prop
  | ret a, Q => Q a
  | op o k, Q => P o ∧ ∀ r, R o r → (k r).Asks P R Q

section asks
variable {P : Op → Prop} {R : (o : Op) → Res o → Prop} {Q : α → Prop} {Q' : β → Prop}

theorem asks_pure {a : α} (h : Q a) : (pure a : Prog Op Res α).Asks P R Q := h

theorem asks_perform {o : Op} {k : Res o → Prog Op Res α} (ho : P o)
    (hk : ∀ r, R o r → (k r).Asks P R Q) : (perform o >>= k).Asks P R Q :=
  ⟨ho, hk⟩

theorem Asks.bind {p : Prog Op Res α} {f : α → Prog Op Res β} (h : p.Asks P R Q)
    (hf : ∀ a, Q a → (f a).Asks P R Q') : (p >>= f).Asks P R Q' := by
  induction p with
  | ret a => exact hf a h
  | op o k ih => exact ⟨h.1, fun r hr => ih r (h.2 r hr)⟩

end asks

/-- Whatever the answers: each operation is in `P` at the state that those before it have led
to by `step`, from `q` on; the value the program ends with is in `Q` at the last one. -/
def Follows {τ : Type} (P : τ → Op → Prop) (step : τ → Op → τ) :
    Prog Op Res α → τ → (α → τ → Prop) → Prop
  | ret a, q, Q => Q a q
  | op o k, q, Q => P q o ∧ ∀ r, (k r).Follows P step (step q o) Q

section follows
variable {τ : Type} {P : τ → Op → Prop} {step : τ → Op → τ} {q : τ} {Q Q' : α → τ → Prop}
  {R : β → τ → Prop}

theorem follows_pure {a : α} (h : Q a q) : (pure a : Prog Op Res α).Follows P step q Q := h

theorem follows_perform {o : Op} {k : Res o → Prog Op Res α} (ho : P q o)
    (hk : ∀ r, (k r).Follows P step (step q o) Q) :
    (perform o >>= k).Follows P step q Q :=
  ⟨ho, hk⟩

theorem Follows.mono {p : Prog Op Res α} (h : p.Follows P step q Q)
    (hQ : ∀ a q', Q a q' → Q' a q') : p.Follows P step q Q' := by
  induction p generalizing q with
  | ret a => exact hQ a q h
  | op o k ih => exact ⟨h.1, fun r => ih r (h.2 r)⟩

theorem Follows.bind {p : Prog Op Res α} {f : α → Prog Op Res β} (h : p.Follows P step q Q)
    (hf : ∀ a q', Q a q' → (f a).Follows P step q' R) : (p >>= f).Follows P step q R := by
  induction p generalizing q with
  | ret a => exact hf a q h
  | op o k ih => exact ⟨h.1, fun r => ih r (h.2 r)⟩

end follows

/-- Whatever the answers, as long as they are in `R`: each operation is in `P` at the state
that those before it have led to, with their answers, from `q` on; the value the program ends
with is in `Q` at the last one. -/
def Tracks {τ : Type} (P : τ → Op → Prop) (R : (o : Op) → Res o → Prop)
    (step : τ → (o : Op) → Res o → τ) : Prog Op Res α → τ → (α → τ → Prop) → Prop
  | ret a, q, Q => Q a q
  | op o k, q, Q => P q o ∧ ∀ r, R o r → (k r).Tracks P R step (step q o r) Q

section tracks
variable {τ : Type} {P : τ → Op → Prop} {R : (o : Op) → Res o → Prop}
  {step : τ → (o : Op) → Res o → τ} {q : τ} {Q : α → τ → Prop} {Q' : β → τ → Prop}

theorem tracks_pure {a : α} (h : Q a q) : (pure a : Prog Op Res α).Tracks P R step q Q := h

theorem tracks_perform {o : Op} {k : Res o → Prog Op Res α} (ho : P q o)
    (hk : ∀ r, R o r → (k r).Tracks P R step (step q o r) Q) :
    (perform o >>= k).Tracks P R step q Q :=
  ⟨ho, hk⟩

theorem Tracks.mono {p : Prog Op Res α} {Q' : α → τ → Prop} (h : p.Tracks P R step q Q)
    (hQ : ∀ a q', Q a q' → Q' a q') : p.Tracks P R step q Q' := by
  induction p generalizing q with
  | ret a => exact hQ a q h
  | op o k ih => exact ⟨h.1, fun r hr => ih r (h.2 r hr)⟩

theorem Tracks.bind {p : Prog Op Res α} {f : α → Prog Op Res β} (h : p.Tracks P R step q Q)
    (hf : ∀ a q', Q a q' → (f a).Tracks P R step q' Q') : (p >>= f).Tracks P R step q Q' := by
  induction p generalizing q with
  | ret a => exact hf a q h
  | op o k ih => exact ⟨h.1, fun r hr => ih r (h.2 r hr)⟩

end tracks

end Ironspdk.Lib.Prog
