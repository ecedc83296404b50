import ScriptCore.Scope.Basic

/-!
# The arena of scopes

All scopes of a session live in one arena and name each other by index. The index of a reclaimed
scope is used again, the most recently reclaimed first; its serial number never is.

Chains of scopes are followed by `Arena.walk`. A chain that visits no scope twice is no longer
than the arena, which bounds the walk.
-/

namespace ScriptCore

/-- Control state that has been set aside. -/
structure Suspended where
  /-- The scopes whose control state was looked at. -/
  owners : List ScopeId := []
  /-- Those of them at which something was pending, each with its state at the time. -/
  parked : List (ScopeId × Control) := []
  deriving DecidableEq, Repr

namespace Suspended

/-- The values held. -/
def values (s : Suspended) : List Value := s.parked.flatMap fun (_, control) => control.values

/-- Replace every reference held. -/
def mapRefs (f : Ref → Ref) (s : Suspended) : Suspended :=
  { s with parked := s.parked.map fun (id, control) => (id, control.mapRefs f) }

end Suspended

/-- All scopes of a session. -/
structure Arena where
  /-- The scopes by index. -/
  scopes : Array (Option Scope)
  /-- Indices without a scope, the next one to be used first. -/
  vacant : List Nat
  /-- The serial number of the next scope. -/
  nextSerial : Nat
  /-- The outermost scope. -/
  global : ScopeId
  /-- Control state set aside while final blocks run, the innermost first. -/
  suspended : List Suspended

namespace Arena

/-- An arena that holds the global scope only. -/
def new : Arena where
  scopes := #[some { state := .global none, outer := none, serial := 0 }]
  vacant := []
  nextSerial := 1
  global := ⟨0⟩
  suspended := []

/-- The scope at `id`. -/
def get? (a : Arena) (id : ScopeId) : Option Scope := a.scopes[id.index]?.join

/-- The scope at `id`, or a fault. -/
def get (a : Arena) (id : ScopeId) : Except Fault Scope :=
  match a.get? id with
  | some scope => .ok scope
  | none => .error (.unknownScope id)

/-- Whether there is a scope at `id`. -/
def contains (a : Arena) (id : ScopeId) : Bool := (a.get? id).isSome

/-- Change the scope at `id`, if there is one. -/
def modify (a : Arena) (id : ScopeId) (f : Scope → Scope) : Arena :=
  { a with scopes := a.scopes.modify id.index (·.map f) }

/-- Make a scope with the given parent. -/
def create (a : Arena) (state : ScopeState) (outer : Option ScopeId) : ScopeId × Arena :=
  let scope : Scope := { state, outer, serial := a.nextSerial }
  match a.vacant with
  | index :: vacant =>
    (⟨index⟩, { a with
      scopes := a.scopes.setIfInBounds index (some scope)
      vacant
      nextSerial := a.nextSerial + 1 })
  | [] =>
    (⟨a.scopes.size⟩, { a with
      scopes := a.scopes.push (some scope)
      nextSerial := a.nextSerial + 1 })

/-- Reclaim the scope at `id`. -/
def release (a : Arena) (id : ScopeId) : Arena :=
  if a.contains id then
    { a with scopes := a.scopes.setIfInBounds id.index none, vacant := id.index :: a.vacant }
  else a

/-- The scopes there are, in the order of their indices. -/
def ids (a : Arena) : List ScopeId :=
  ((List.range a.scopes.size).map ScopeId.mk).filter a.contains

/-- The number of scopes. -/
def liveCount (a : Arena) : Nat := a.scopes.countP Option.isSome

/-- Replace every reference that the scopes and the suspended control state hold. -/
def mapRefs (f : Ref → Ref) (a : Arena) : Arena :=
  { a with
    scopes := a.scopes.map (·.map (·.mapRefs f))
    suspended := a.suspended.map (·.mapRefs f) }

/-! ## What the operations do to the scopes -/

theorem get?_modify (a : Arena) (id : ScopeId) (f : Scope → Scope) (other : ScopeId) :
    (a.modify id f).get? other = if other = id then (a.get? id).map f else a.get? other := by
  obtain ⟨i⟩ := id
  obtain ⟨j⟩ := other
  simp only [get?, modify, Array.getElem?_modify, ScopeId.mk.injEq]
  by_cases h : i = j
  · subst h
    cases a.scopes[i]? <;> simp
  · simp [h, Ne.symm h]

@[simp] theorem contains_modify (a : Arena) (id : ScopeId) (f : Scope → Scope)
    (other : ScopeId) : (a.modify id f).contains other = a.contains other := by
  simp only [contains, get?_modify]
  split
  · subst other
    cases a.get? id <;> rfl
  · rfl

theorem get?_mapRefs (f : Ref → Ref) (a : Arena) (id : ScopeId) :
    (a.mapRefs f).get? id = (a.get? id).map (·.mapRefs f) := by
  simp only [get?, mapRefs, Array.getElem?_map]
  cases a.scopes[id.index]? <;> rfl

/-- A reclaimed scope is gone, and all others stay. -/
theorem get?_release (a : Arena) (id other : ScopeId) :
    (a.release id).get? other = if other = id then none else a.get? other := by
  obtain ⟨i⟩ := id
  obtain ⟨j⟩ := other
  simp only [release, ScopeId.mk.injEq]
  by_cases hlive : a.contains ⟨i⟩ = true
  · rw [if_pos hlive]
    simp only [get?, Array.getElem?_setIfInBounds]
    by_cases hij : j = i
    · subst hij
      rw [if_pos rfl, if_pos rfl]
      split <;> rfl
    · rw [if_neg (Ne.symm hij), if_neg hij]
  · rw [if_neg hlive]
    by_cases hij : j = i
    · subst hij
      rw [if_pos rfl]
      cases hget : a.get? ⟨j⟩ with
      | none => rfl
      | some scope => exact absurd (by rw [contains, hget]; rfl) hlive
    · rw [if_neg hij]

/-- Making a scope leaves the others as they are. -/
theorem get?_create_of_ne {a : Arena} {state : ScopeState} {outer : Option ScopeId}
    {other : ScopeId} (h : other ≠ (a.create state outer).1) :
    (a.create state outer).2.get? other = a.get? other := by
  obtain ⟨j⟩ := other
  unfold create at h ⊢
  cases hv : a.vacant with
  | nil =>
    simp only [hv] at h ⊢
    have hj : j ≠ a.scopes.size := fun e => h (congrArg ScopeId.mk e)
    simp only [get?, Array.getElem?_push, if_neg hj]
  | cons index vacant =>
    simp only [hv] at h ⊢
    have hj : index ≠ j := fun e => h (congrArg ScopeId.mk e.symm)
    simp only [get?, Array.getElem?_setIfInBounds, if_neg hj]

/-! ## Walks -/

/-- What to do at a scope of a walk. -/
inductive Visit (β : Type)
  /-- The walk ends here. -/
  | done (answer : β)
  /-- The walk goes on at another scope. -/
  | next (id : ScopeId)

/-- Follow scopes from `id` on until one has an answer, over at most `bound` scopes. -/
def walk {β : Type} (a : Arena) (visit : ScopeId → Scope → Visit β) :
    (bound : Nat) → ScopeId → Except Fault β
  | 0, id => .error (.unknownScope id)
  | bound + 1, id =>
    match a.get? id with
    | none => .error (.unknownScope id)
    | some scope =>
      match visit id scope with
      | .done answer => .ok answer
      | .next id => a.walk visit bound id

/-- Follow scopes from `id` on until one has an answer. -/
def follow {β : Type} (a : Arena) (visit : ScopeId → Scope → Visit β) (id : ScopeId) :
    Except Fault β :=
  a.walk visit a.scopes.size id

/-- Go on at the enclosing scope, or end with `answer` if there is none. -/
def Visit.outward {β : Type} (scope : Scope) (answer : β) : Visit β :=
  match scope.outer with
  | some id => .next id
  | none => .done answer

/-- The nearest scope of the main category, or the last one if there is none. -/
def nearestMain (a : Arena) (id : ScopeId) : Except Fault ScopeId :=
  a.follow (fun id scope => if scope.isMain then .done id else .outward scope id) id

/-- Import the module scope `target` into the nearest main scope. -/
def attachNamespace (a : Arena) (id target : ScopeId) : Except Fault Arena := do
  let _ ← a.get target
  let main ← a.nearestMain id
  return a.modify main fun scope =>
    if scope.namespaces.contains target then scope
    else { scope with namespaces := scope.namespaces ++ [target] }

end Arena

end ScriptCore
