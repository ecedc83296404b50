import ScriptCore.Proofs.Scope.Signals

/-!
# Arenas without pending signals

`Arena.calm` is an arena with its signals taken away: control state is as in new scopes, and
nothing is set aside. Signals that hold a reference stay, since they keep an object alive.

Recording a signal that holds no reference makes no difference to it (`Arena.calm_setControl`), nor
does setting one aside (`Arena.calm_setSuspended_cons`). Making scopes and changing bindings is the
same before and after (`Arena.create_calm`, `Arena.calm_modify`).
-/

namespace ScriptCore

/-! ## Calm scopes -/

/-- Whether control state holds no reference. -/
def Control.plain (c : Control) : Bool := c.values.all fun v => v.reference?.isNone

@[simp] theorem Control.plain_cleared (c : Control) : c.cleared.plain = true := by
  cases c <;> rfl

@[simp] theorem Control.cleared_cleared (c : Control) : c.cleared.cleared = c.cleared := by
  cases c <;> rfl

namespace Scope

/-- A scope without its pending signals, unless these hold a reference. -/
def calm (s : Scope) : Scope :=
  match s.control? with
  | some c => if c.plain then s.setControl c.cleared else s
  | none => s

/-- Of two changes of control state the later one counts. -/
theorem setControl_idem (s : Scope) (c k : Control) (h : k.cleared = c.cleared) :
    (s.setControl c).setControl k = s.setControl k := by
  obtain ⟨state, outer, bindings, namespaces, serial⟩ := s
  cases state <;> cases c <;> cases k <;>
    first | rfl | simp [Control.cleared] at h

theorem calm_setControl {s : Scope} {c k : Control} (hc : s.control? = some c)
    (hk : k.cleared = c.cleared) (hp : c.plain = true) (hp' : k.plain = true) :
    (s.setControl k).calm = s.calm := by
  have hk' : (s.setControl k).control? = some k := control?_setControl hc hk
  unfold calm
  simp only [hk', hc, hp, hp', if_true]
  rw [setControl_idem s k k.cleared k.cleared_cleared, hk]

theorem calm_of_cleared {s : Scope} (h : ∀ c, s.control? = some c → c = c.cleared) :
    s.calm = s := by
  unfold calm
  split
  · rename_i c hc
    split
    · rw [← h c hc]
      unfold Scope.setControl
      rw [ScopeState.setControl_control? s.state hc]
    · rfl
  · rfl

theorem calm_bindings (s : Scope) (table : Bindings) :
    Scope.calm { s with bindings := table } = { s.calm with bindings := table } := by
  unfold calm
  cases hc : s.control? with
  | none => simp_all [Scope.control?]
  | some c =>
    have hc' : Scope.control? { s with bindings := table } = some c := hc
    simp only [hc']
    split <;> rfl

@[simp] theorem bindings_calm (s : Scope) : s.calm.bindings = s.bindings := by
  unfold calm
  split
  · split <;> rfl
  · rfl

@[simp] theorem outer_calm (s : Scope) : s.calm.outer = s.outer := by
  unfold calm
  split
  · split <;> rfl
  · rfl

@[simp] theorem namespaces_calm (s : Scope) : s.calm.namespaces = s.namespaces := by
  unfold calm
  split
  · split <;> rfl
  · rfl

@[simp] theorem table?_calm (s : Scope) (partition : Partition) :
    s.calm.table? partition = s.table? partition := by
  unfold calm
  split
  · split
    · exact s.table?_setControl _ partition
    · rfl
  · rfl

@[simp] theorem parent?_calm (s : Scope) : s.calm.parent? = s.parent? := by
  simp [parent?]

/-- The state of a calm scope differs in control state at most. -/
theorem state_calm (s : Scope) :
    s.calm.state = s.state ∨ ∃ c, s.calm.state = s.state.setControl c := by
  unfold calm
  split
  · split
    · exact .inr ⟨_, rfl⟩
    · exact .inl rfl
  · exact .inl rfl

@[simp] theorem binds_calm (s : Scope) (name : String) : s.calm.binds name = s.binds name := by
  simp [binds]

@[simp] theorem isMain_calm (s : Scope) : s.calm.isMain = s.isMain := by
  rcases s.state_calm with h | ⟨c, h⟩ <;> simp [isMain, kind, h]

theorem calm_setTable (s : Scope) (partition : Partition) (table : Bindings) :
    (s.setTable partition table).calm = s.calm.setTable partition table := by
  cases partition with
  | pub => exact s.calm_bindings table
  | generic | priv | prot =>
    cases hstate : s.state with
    | instance_ fields =>
      -- an instance has no control state
      simp [setTable, hstate, calm, control?, ScopeState.control?]
    | _ =>
      rcases s.state_calm with h | ⟨c, h⟩
      · simp [setTable, h, hstate]
      · cases c <;> simp [setTable, h, hstate, ScopeState.setControl]

end Scope

/-- Whether control state that has been set aside holds no reference. -/
def Suspended.plain (s : Suspended) : Bool := s.values.all fun v => v.reference?.isNone

namespace Arena

variable {a : Arena} {x : ScopeId} {c k : Control}

/-- An arena without its pending signals, those that hold a reference excepted. -/
def calm (a : Arena) : Arena :=
  { a with
    scopes := a.scopes.map (·.map Scope.calm)
    suspended := a.suspended.filter fun s => !s.plain }

theorem get?_calm (a : Arena) (x : ScopeId) : a.calm.get? x = (a.get? x).map Scope.calm := by
  simp only [get?, calm, Array.getElem?_map]
  cases a.scopes[x.index]? <;> rfl

/-- Making a scope is the same in the calm arena. -/
theorem create_calm {state : ScopeState} (outer : Option ScopeId)
    (h : ∀ c, state.control? = some c → c = c.cleared) :
    a.calm.create state outer = ((a.create state outer).1, (a.create state outer).2.calm) := by
  have hcalm : Scope.calm { state, outer, serial := a.nextSerial }
      = { state, outer, serial := a.nextSerial } := Scope.calm_of_cleared h
  unfold create
  cases hv : a.vacant with
  | nil => simp [calm, hv, hcalm]
  | cons i vacant => simp [calm, hv, hcalm, Array.map_setIfInBounds]

/-- A change of a scope that does not touch its control state is the same in the calm arena. -/
theorem calm_modify {f : Scope → Scope} (h : ∀ s : Scope, (f s).calm = f s.calm) :
    (a.modify x f).calm = a.calm.modify x f := by
  simp only [modify, calm, mk.injEq, and_true]
  apply Array.ext_getElem?
  intro i
  simp only [Array.getElem?_map, Array.getElem?_modify]
  split
  · cases a.scopes[i]? with
    | none => rfl
    | some o =>
      cases o with
      | none => rfl
      | some s => simp [h]
  · rfl

theorem calm_modifyTable (a : Arena) (place : Place) (f : Bindings → Bindings) :
    (a.modifyTable place f).calm = a.calm.modifyTable place f := by
  refine calm_modify fun s => ?_
  rw [Scope.table?_calm]
  cases s.table? place.2 with
  | none => rfl
  | some table => exact s.calm_setTable place.2 (f table)

/-- A signal that holds no reference makes no difference to the calm arena. -/
theorem calm_setControl (hc : a.control? x = some c) (hk : k.cleared = c.cleared)
    (hp : c.plain = true) (hp' : k.plain = true) : (a.setControl x k).calm = a.calm := by
  obtain ⟨t, ht, hc⟩ := control?_eq_some.mp hc
  simp only [setControl, modify, calm, mk.injEq, and_true]
  apply Array.ext_getElem?
  intro i
  simp only [Array.getElem?_map, Array.getElem?_modify]
  split
  · rename_i hi
    subst hi
    cases ho : a.scopes[x.index]? with
    | none => rfl
    | some o =>
      cases o with
      | none => rfl
      | some s =>
        have hs : s = t := by simpa [get?, ho] using ht
        subst hs
        simp [Scope.calm_setControl hc hk hp hp']
  · rfl

/-- Replace what has been set aside. -/
def setSuspended (a : Arena) (suspended : List Suspended) : Arena := { a with suspended }

theorem calm_setSuspended_cons {s : Suspended} (rest : List Suspended) (h : s.plain = true) :
    (a.setSuspended (s :: rest)).calm = (a.setSuspended rest).calm := by
  simp [setSuspended, calm, h]

end Arena

end ScriptCore
