import ScriptCore.Session.Basic

/-!
# Running an action

`Run.exec` runs an action on a session and gives its outcome together with the session it leaves.
The lemmas here take a run apart: `Run.exec_bind_ok` and `Run.exec_bind_eq_ok` for a sequence of
two actions, and one equation for each of the small actions that the others are made of.
-/

namespace ScriptCore

variable {α β : Type}

namespace Run

/-- The outcome of an action, and the session it leaves. -/
def exec (x : Run α) (S : Session) : Except Stop α × Session := x.run.run S

theorem exec_bind (x : Run α) (f : α → Run β) (S : Session) :
    (x >>= f).exec S = match x.exec S with
      | (.ok a, S') => (f a).exec S'
      | (.error stop, S') => (.error stop, S') := by
  unfold exec
  rw [ExceptT.run_bind, StateT.run_bind]
  rcases x.run.run S with ⟨_ | a, S'⟩ <;> rfl

theorem exec_bind_ok {x : Run α} {a : α} {S S' : Session} (h : x.exec S = (.ok a, S'))
    (f : α → Run β) : (x >>= f).exec S = (f a).exec S' := by
  rw [exec_bind, h]

theorem exec_bind_error {x : Run α} {stop : Stop} {S S' : Session}
    (h : x.exec S = (.error stop, S')) (f : α → Run β) : (x >>= f).exec S = (.error stop, S') := by
  rw [exec_bind, h]

/-- A run of two actions that ends is a run of the first that ends and a run of the second. -/
theorem exec_bind_eq_ok {x : Run α} {f : α → Run β} {b : β} {S S'' : Session}
    (h : (x >>= f).exec S = (.ok b, S'')) :
    ∃ a S', x.exec S = (.ok a, S') ∧ (f a).exec S' = (.ok b, S'') := by
  rw [exec_bind] at h
  split at h
  · exact ⟨_, _, ‹_›, h⟩
  · cases h

theorem exec_bind_eq_error {x : Run α} {f : α → Run β} {stop : Stop} {S S'' : Session}
    (h : (x >>= f).exec S = (.error stop, S'')) :
    x.exec S = (.error stop, S'') ∨
      ∃ a S', x.exec S = (.ok a, S') ∧ (f a).exec S' = (.error stop, S'') := by
  rw [exec_bind] at h
  split at h
  · exact .inr ⟨_, _, ‹_›, h⟩
  · cases h
    exact .inl ‹_›

@[simp] theorem exec_pure (a : α) (S : Session) : (pure a : Run α).exec S = (.ok a, S) := rfl

@[simp] theorem exec_get (S : Session) : (get : Run Session).exec S = (.ok S, S) := rfl

@[simp] theorem exec_modify (f : Session → Session) (S : Session) :
    (modify f : Run Unit).exec S = (.ok (), f S) := rfl

@[simp] theorem exec_set (T S : Session) : (set T : Run Unit).exec S = (.ok (), T) := rfl

@[simp] theorem exec_modifyGet (f : Session → α × Session) (S : Session) :
    (modifyGet f : Run α).exec S = (.ok (f S).1, (f S).2) := rfl

@[simp] theorem exec_fail (fault : Fault) (S : Session) :
    (fail fault : Run α).exec S = (.error (.fault fault), S) := rfl

@[simp] theorem exec_outcome (x : Run α) (S : Session) :
    (outcome x).exec S = (.ok (x.exec S).1, (x.exec S).2) := by
  unfold exec
  rfl

@[simp] theorem exec_ofOutcome (r : Except Stop α) (S : Session) :
    (ofOutcome r).exec S = (r, S) := by
  cases r <;> rfl

@[simp] theorem exec_ofExcept_ok (a : α) (S : Session) :
    (ofExcept (.ok a)).exec S = (.ok a, S) := rfl

@[simp] theorem exec_ofExcept_error (fault : Fault) (S : Session) :
    (ofExcept (.error fault) : Run α).exec S = (.error (.fault fault), S) := rfl

@[simp] theorem exec_report (e : Event) (S : Session) :
    (report e).exec S = (.ok (), { S with events := S.events.push e }) := rfl

@[simp] theorem exec_scopes (f : Arena → α) (S : Session) :
    (scopes f).exec S = (.ok (f S.arena), S) := rfl

@[simp] theorem exec_takeScopes (f : Arena → α × Arena) (S : Session) :
    (takeScopes f).exec S = (.ok (f S.arena).1, { S with arena := (f S.arena).2 }) := rfl

theorem exec_modifyScopes {f : Arena → Except Fault Arena} {S : Session} {a : Arena}
    (h : f S.arena = .ok a) : (modifyScopes f).exec S = (.ok (), { S with arena := a }) := by
  unfold modifyScopes
  rw [exec_bind_ok (exec_get S), h, exec_bind_ok (exec_ofExcept_ok a S), exec_modify]

theorem exec_modifyScopes_error {f : Arena → Except Fault Arena} {S : Session} {fault : Fault}
    (h : f S.arena = .error fault) : (modifyScopes f).exec S = (.error (.fault fault), S) := by
  unfold modifyScopes
  rw [exec_bind_ok (exec_get S), h]
  rfl

theorem exec_memory {f : Memory → Except Fault α} {S : Session} {a : α} (h : f S.memory = .ok a) :
    (memory f).exec S = (.ok a, S) := by
  unfold memory
  rw [exec_bind_ok (exec_get S), h, exec_ofExcept_ok]

theorem exec_memory_error {f : Memory → Except Fault α} {S : Session} {fault : Fault}
    (h : f S.memory = .error fault) : (memory f).exec S = (.error (.fault fault), S) := by
  unfold memory
  rw [exec_bind_ok (exec_get S), h, exec_ofExcept_error]

theorem exec_modifyMemory {f : Memory → Except Fault Memory} {S : Session} {m : Memory}
    (h : f S.memory = .ok m) : (modifyMemory f).exec S = (.ok (), { S with memory := m }) := by
  unfold modifyMemory
  rw [exec_bind_ok (exec_get S), h, exec_bind_ok (exec_ofExcept_ok m S), exec_modify]

theorem exec_modifyMemory_error {f : Memory → Except Fault Memory} {S : Session} {fault : Fault}
    (h : f S.memory = .error fault) : (modifyMemory f).exec S = (.error (.fault fault), S) := by
  unfold modifyMemory
  rw [exec_bind_ok (exec_get S), h]
  rfl

end Run

end ScriptCore
