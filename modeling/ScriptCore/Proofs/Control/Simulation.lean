import ScriptCore.Proofs.Control.Completion
import ScriptCore.Proofs.Scope.Suspension
import ScriptCore.Proofs.Session.Execution

/-!
# One run that follows another

`Session.Follows` relates two actions. The first one runs on a session as it is and may leave
signals pending; the second one runs on the session without its signals. The first follows the
second if it comes to an end whenever the second does, in a session that is the same but for the
signals.

The rules below take two actions apart step by step: steps on both sides (`Follows.bind`), steps on
the first side only that deal with signals (`Follows.left`), and scopes that are entered on both
sides (`Follows.inScope`).
-/

namespace ScriptCore

variable {α β γ δ : Type}

namespace Session

open Run

/-! ## The relation -/

/-- The session without its pending signals. -/
def calm (S : Session) : Session := { S with arena := S.arena.calm }

/-- Whenever `y` ends without the signals of `S`, so does `x` with them, in the same session but
for the signals, and `Q` holds then. Whenever `y` is cut off by the bound on evaluation, so is `x`.
And `y` only faults if `faulty` says that something can. -/
structure Follows (faulty : Prop) (S : Session) (x : Run α) (y : Run β)
    (Q : α → β → Session → Prop) : Prop where
  ok : ∀ {b T}, y.exec S.calm = (.ok b, T) → ∃ a S', x.exec S = (.ok a, S') ∧ S'.calm = T ∧ Q a b S'
  exhausted : ∀ {T}, y.exec S.calm = (.error .exhausted, T) →
    ∃ S', x.exec S = (.error .exhausted, S')
  fault : ∀ {cause T}, y.exec S.calm = (.error (.fault cause), T) → faulty

namespace Follows

variable {faulty : Prop} {S S' : Session} {x : Run α} {y : Run β} {Q : α → β → Session → Prop}

/-- Two actions that both end. -/
theorem of_exec {a : α} {b : β} (hx : x.exec S = (.ok a, S'))
    (hy : y.exec S.calm = (.ok b, S'.calm)) (h : Q a b S') : Follows faulty S x y Q where
  ok hT := by
    rw [hy] at hT
    cases hT
    exact ⟨a, S', hx, rfl, h⟩
  exhausted hT := by
    rw [hy] at hT
    cases hT
  fault hT := by
    rw [hy] at hT
    cases hT

theorem pure {a : α} {b : β} (h : Q a b S) : Follows faulty S (Pure.pure a) (Pure.pure b) Q :=
  of_exec (exec_pure a S) (exec_pure b S.calm) h

theorem throw_exhausted :
    Follows faulty S (throw .exhausted : Run α) (throw .exhausted : Run β) Q where
  ok hT := by cases hT
  exhausted _ := ⟨S, rfl⟩
  fault hT := by cases hT

theorem mono {Q' : α → β → Session → Prop} (h : Follows faulty S x y Q)
    (himp : ∀ {a b S'}, Q a b S' → Q' a b S') : Follows faulty S x y Q' where
  ok hT := by
    obtain ⟨a, S', hx, hcalm, hQ⟩ := h.ok hT
    exact ⟨a, S', hx, hcalm, himp hQ⟩
  exhausted := h.exhausted
  fault := h.fault

/-- A step on both sides. -/
theorem bind {f : α → Run γ} {g : β → Run δ} {R : γ → δ → Session → Prop}
    (h : Follows faulty S x y Q)
    (hnext : ∀ {a b S'}, Q a b S' → Follows faulty S' (f a) (g b) R) :
    Follows faulty S (x >>= f) (y >>= g) R where
  ok hT := by
    obtain ⟨b, T, hy, hg⟩ := exec_bind_eq_ok hT
    obtain ⟨a, S', hx, rfl, hQ⟩ := h.ok hy
    obtain ⟨c, S'', hf, hcalm, hR⟩ := (hnext hQ).ok hg
    exact ⟨c, S'', (exec_bind_ok hx f).trans hf, hcalm, hR⟩
  exhausted hT := by
    rcases exec_bind_eq_error hT with hy | ⟨b, T, hy, hg⟩
    · obtain ⟨S', hx⟩ := h.exhausted hy
      exact ⟨S', exec_bind_error hx f⟩
    · obtain ⟨a, S', hx, rfl, hQ⟩ := h.ok hy
      obtain ⟨S'', hf⟩ := (hnext hQ).exhausted hg
      exact ⟨S'', (exec_bind_ok hx f).trans hf⟩
  fault hT := by
    rcases exec_bind_eq_error hT with hy | ⟨b, T, hy, hg⟩
    · exact h.fault hy
    · obtain ⟨a, S', hx, rfl, hQ⟩ := h.ok hy
      exact (hnext hQ).fault hg

/-- A step that only deals with signals, on the first side. -/
theorem left {a : α} {f : α → Run γ} {R : γ → β → Session → Prop} (hx : x.exec S = (.ok a, S'))
    (hcalm : S'.calm = S.calm) (h : Follows faulty S' (f a) y R) :
    Follows faulty S (x >>= f) y R where
  ok hT := by
    obtain ⟨c, S'', hf, hcalm', hR⟩ := h.ok (hcalm ▸ hT)
    exact ⟨c, S'', (exec_bind_ok hx f).trans hf, hcalm', hR⟩
  exhausted hT := by
    obtain ⟨S'', hf⟩ := h.exhausted (hcalm ▸ hT)
    exact ⟨S'', (exec_bind_ok hx f).trans hf⟩
  fault hT := h.fault (hcalm ▸ hT)

/-- A step that looks at the session, on the first side. -/
theorem read {a : α} {f : α → Run γ} {R : γ → β → Session → Prop} (hx : x.exec S = (.ok a, S))
    (h : Follows faulty S (f a) y R) : Follows faulty S (x >>= f) y R :=
  left hx rfl h

/-- Two actions of which the second one gives another result at the end. -/
theorem mapRight {g : β → δ} {R : α → δ → Session → Prop} (h : Follows faulty S x y Q)
    (himp : ∀ {a b S'}, Q a b S' → R a (g b) S') : Follows faulty S x (do return g (← y)) R := by
  rw [← bind_pure x]
  exact h.bind fun hQ => .pure (himp hQ)

/-- Two actions of which the first one gives another result at the end. -/
theorem mapLeft {f : α → γ} {R : γ → β → Session → Prop} (h : Follows faulty S x y Q)
    (himp : ∀ {a b S'}, Q a b S' → R (f a) b S') : Follows faulty S (do return f (← x)) y R := by
  rw [← bind_pure y]
  exact h.bind fun hQ => .pure (himp hQ)

/-- A change of the scopes that is the same whether signals are pending or not, and may fail. -/
theorem modifyScopes {f g : Arena → Except Fault Arena} {Q : Unit → Unit → Session → Prop}
    (hfaulty : faulty) (hcalm : g S.arena.calm = (f S.arena).map Arena.calm)
    (h : ∀ arena, f S.arena = .ok arena → Q () () { S with arena }) :
    Follows faulty S (Run.modifyScopes f) (Run.modifyScopes g) Q := by
  cases hf : f S.arena with
  | ok arena =>
    rw [hf] at hcalm
    have hg : g S.calm.arena = .ok arena.calm := hcalm
    exact of_exec (exec_modifyScopes hf) (exec_modifyScopes hg) (h arena hf)
  | error fault =>
    rw [hf] at hcalm
    have hg : g S.calm.arena = .error fault := hcalm
    have hrun := exec_modifyScopes_error hg
    refine ⟨fun hT => ?_, fun hT => ?_, fun _ => hfaulty⟩
    · cases hrun.symm.trans hT
    · cases hrun.symm.trans hT

/-- A step on both sides, after which something is done on the first side however the step ends. -/
theorem cleanup {z : Run γ} {f : α → γ → Run δ} {ε : Type} {g : β → Run ε}
    {R : δ → ε → Session → Prop} (h : Follows faulty S x y Q)
    (hz : ∀ S', ∃ c S'', z.exec S' = (.ok c, S''))
    (hnext : ∀ {a b S'}, Q a b S' → Follows faulty S' (z >>= f a) (g b) R) :
    Follows faulty S (do let result ← Run.outcome x; let c ← z; let a ← Run.ofOutcome result; f a c)
      (y >>= g) R := by
  have hrun : ∀ {S' : Session}, (x.exec S).2 = S' →
      (do let result ← Run.outcome x; let c ← z; let a ← Run.ofOutcome result; f a c : Run δ).exec S
        = (z >>= fun c => Run.ofOutcome (x.exec S).1 >>= fun a => f a c).exec S' := by
    intro S' hS'
    rw [exec_bind_ok (exec_outcome x S), hS']
  refine ⟨fun {e T} hT => ?_, fun {T} hT => ?_, (h.bind hnext).fault⟩
  · obtain ⟨b, T, hy, hg⟩ := exec_bind_eq_ok hT
    obtain ⟨a, S', hx, rfl, hQ⟩ := h.ok hy
    obtain ⟨d, S'', hf, hcalm, hR⟩ := (hnext hQ).ok hg
    refine ⟨d, S'', ?_, hcalm, hR⟩
    rw [hrun rfl, hx]
    exact hf
  · rcases exec_bind_eq_error hT with hy | ⟨b, T, hy, hg⟩
    · obtain ⟨S', hx⟩ := h.exhausted hy
      obtain ⟨c, S'', hz⟩ := hz S'
      refine ⟨S'', ?_⟩
      rw [hrun rfl, hx, exec_bind_ok hz]
      rfl
    · obtain ⟨a, S', hx, rfl, hQ⟩ := h.ok hy
      obtain ⟨S'', hf⟩ := (hnext hQ).exhausted hg
      refine ⟨S'', ?_⟩
      rw [hrun rfl, hx]
      exact hf

end Follows

/-! ## Evaluating nodes and entering scopes -/

/-- A fault that is thrown is none of the first side's business. -/
theorem Follows.evaluate {faulty : Prop} {S : Session} {ev : Evaluator} {node : Node}
    {id : ScopeId} {y : Run β} {Q : Value → β → Session → Prop}
    (h : Follows faulty S (ev node id) y Q) :
    Follows faulty S (Session.evaluate ev node id) y Q where
  ok hT := by
    obtain ⟨v, S', hx, hcalm, hQ⟩ := h.ok hT
    refine ⟨v, S', ?_, hcalm, hQ⟩
    unfold Session.evaluate
    rw [exec_bind_ok (exec_outcome _ S), hx]
    rfl
  exhausted hT := by
    obtain ⟨S', hx⟩ := h.exhausted hT
    refine ⟨S', ?_⟩
    unfold Session.evaluate
    rw [exec_bind_ok (exec_outcome _ S), hx]
    rfl
  fault := h.fault

/-- The index that the next scope gets. -/
def newScope (S : Session) (state : ScopeState) (outer : ScopeId) : ScopeId :=
  (S.arena.create state (some outer)).1

/-- The session in which a new scope has been entered. -/
def opened (S : Session) (state : ScopeState) (outer : ScopeId) : Session :=
  { S with
    arena := (S.arena.create state (some outer)).2
    entered := S.newScope state outer :: S.entered
    events := S.events.push (.enteredScope (S.newScope state outer) outer) }

/-- The session in which a scope has been left. -/
def closed (S : Session) (id : ScopeId) : Session :=
  { S with entered := S.entered.erase id, events := S.events.push (.exitedScope id) }

theorem exec_inScope (state : ScopeState) (outer : ScopeId) (f : ScopeId → Run α) (S : Session) :
    (inScope state outer f).exec S
      = (((f (S.newScope state outer)).exec (S.opened state outer)).1,
        ((f (S.newScope state outer)).exec (S.opened state outer)).2.closed
          (S.newScope state outer)) := by
  have henter : (enterScope state outer).exec S
      = (.ok (S.newScope state outer), S.opened state outer) := rfl
  unfold inScope
  rw [exec_bind_ok henter, exec_bind_ok (exec_outcome _ _)]
  generalize (f (S.newScope state outer)).exec (S.opened state outer) = result
  have hexit : (exitScope (S.newScope state outer)).exec result.2
      = (.ok (), result.2.closed (S.newScope state outer)) := rfl
  rw [exec_bind_ok hexit, exec_ofOutcome]

theorem newScope_calm {S : Session} {state : ScopeState} (outer : ScopeId)
    (hs : state.skeleton = state) : S.calm.newScope state outer = S.newScope state outer := by
  have hcreate := @Arena.create_calm S.arena state (some outer) (ScopeState.cleared_of_skeleton hs)
  simp only [newScope, calm, hcreate]

theorem opened_calm {S : Session} {state : ScopeState} (outer : ScopeId)
    (hs : state.skeleton = state) : S.calm.opened state outer = (S.opened state outer).calm := by
  have hcreate := @Arena.create_calm S.arena state (some outer) (ScopeState.cleared_of_skeleton hs)
  simp only [opened, newScope, calm, hcreate]

/-- A new scope on both sides. -/
theorem Follows.inScope {faulty : Prop} {S : Session} {state : ScopeState} {outer : ScopeId}
    {f : ScopeId → Run α} {g : ScopeId → Run β} {Q R : α → β → Session → Prop}
    (hs : state.skeleton = state)
    (h : Follows faulty (S.opened state outer) (f (S.newScope state outer))
      (g (S.newScope state outer)) Q)
    (hclose : ∀ {a b S'}, Q a b S' → R a b (S'.closed (S.newScope state outer))) :
    Follows faulty S (Session.inScope state outer f) (Session.inScope state outer g) R where
  ok hT := by
    rw [exec_inScope, newScope_calm outer hs, opened_calm outer hs, Prod.mk.injEq] at hT
    obtain ⟨hresult, rfl⟩ := hT
    obtain ⟨a, S', hx, hcalm, hQ⟩ := h.ok (Prod.ext hresult rfl)
    refine ⟨a, S'.closed (S.newScope state outer), ?_, ?_, hclose hQ⟩
    · rw [exec_inScope, hx]
    · exact congrArg (fun T => closed T (S.newScope state outer)) hcalm
  exhausted hT := by
    rw [exec_inScope, newScope_calm outer hs, opened_calm outer hs, Prod.mk.injEq] at hT
    obtain ⟨S', hx⟩ := h.exhausted (Prod.ext hT.1 rfl)
    exact ⟨S'.closed (S.newScope state outer), by rw [exec_inScope, hx]⟩
  fault hT := by
    rw [exec_inScope, newScope_calm outer hs, opened_calm outer hs, Prod.mk.injEq] at hT
    exact h.fault (Prod.ext hT.1 rfl)

end Session

end ScriptCore
