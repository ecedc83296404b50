import ScriptCore.Proofs.Scope.Declarations
import ScriptCore.Proofs.Session.Execution
import ScriptCore.Session.Scopes

/-!
# Assignments and lookups

A name is assigned where it is looked up, and only its value there changes. It is read back from
wherever the same binding is found, and nothing else that can be read has changed
(`assignment_read_back`): a search looks at no value but that of `super`, so that it finds what it
found before (`Arena.findsAlike_assign`).

`Access` stands for the two ways to a binding, by a name in a scope and by a member of an instance.
-/

namespace ScriptCore

/-! ## Assignments and searches -/

namespace Scope

variable {s : Scope} {p : Partition} {table : Bindings}

theorem table?_setTable (ht : s.table? p = some table) (table' : Bindings) (q : Partition) :
    (s.setTable p table').table? q = if q = p then some table' else s.table? q := by
  obtain ⟨state, outer, bindings, namespaces, serial⟩ := s
  cases p <;> cases state <;> cases ht <;> cases q <;> rfl

theorem namespaces_setTable (s : Scope) (p : Partition) (table : Bindings) :
    (s.setTable p table).namespaces = s.namespaces := by
  obtain ⟨state, outer, bindings, namespaces, serial⟩ := s
  cases p <;> cases state <;> rfl

/-- The state of a scope changes with a table if that is one of the fields of an instance. -/
theorem state_setTable (s : Scope) (p : Partition) (table : Bindings) :
    (∃ fields fields', s.state = .instance_ fields ∧
      (s.setTable p table).state = .instance_ fields') ∨
    (s.setTable p table).state = s.state := by
  obtain ⟨state, outer, bindings, namespaces, serial⟩ := s
  cases p <;> cases state <;> first | exact .inr rfl | exact .inl ⟨_, _, rfl, rfl⟩

theorem skeleton_setTable (s : Scope) (p : Partition) (table : Bindings) :
    (s.setTable p table).state.skeleton = s.state.skeleton := by
  rcases s.state_setTable p table with ⟨fields, fields', hs, hs'⟩ | hs
  · rw [hs, hs']
    rfl
  · rw [hs]

/-- The value of a binding has been replaced. -/
theorem binding?_assign (ht : s.table? p = some table) (key : String) (v : Value) (q : Partition)
    (name : String) : (s.setTable p (table.assign key v)).binding? q name =
      if q = p ∧ name = key then (s.binding? p key).map ({ · with value := v })
      else s.binding? q name := by
  rw [binding?_setTable ht, Bindings.get?_assign]
  by_cases hq : q = p
  · subst hq
    rw [if_pos rfl, binding?_eq_get? ht, binding?_eq_get? ht]
    by_cases hname : name = key
    · simp [hname]
    · simp [hname]
  · simp [hq]

/-- Names other than `super` can be assigned without a change to where names are found. -/
theorem findsAlike_assign (ht : s.table? p = some table) {name : String} (hname : name ≠ superName)
    (v : Value) : s.FindsAlike (s.setTable p (table.assign name v)) := by
  have htables : ∀ q key, ((s.setTable p (table.assign name v)).table? q).any (·.contains key) =
      (s.table? q).any (·.contains key) := by
    intro q key
    rw [table?_setTable ht]
    split
    · subst q
      rw [ht, Option.any_some, Option.any_some, Bindings.contains_assign]
    · rfl
  have hcontains : ∀ key, (s.setTable p (table.assign name v)).bindings.contains key =
      s.bindings.contains key := fun key => htables .pub key
  have hparent : (s.setTable p (table.assign name v)).parent? = s.parent? := by
    have hsuper := binding?_assign ht name v .pub superName
    rw [if_neg fun h => hname h.2.symm] at hsuper
    exact congrArg (Option.bind · _) hsuper
  refine ⟨(s.kin_setTable p _).1.outer, s.namespaces_setTable p _, hcontains,
    fun private_ key => ?_, ?_⟩
  · unfold found?
    simp only [htables, hcontains]
    rcases s.state_setTable p (table.assign name v) with ⟨fields, fields', hs, hs'⟩ | hs
    · rw [hs, hs']
    · rw [hs]
  · unfold behind?
    rw [hparent]
    rcases s.state_setTable p (table.assign name v) with ⟨fields, fields', hs, hs'⟩ | hs
    · rw [hs, hs']
    · rw [hs]

end Scope

namespace Arena

variable {a a' : Arena} {heap : Heap} {place : Place} {key : String} {b : Binding} {v : Value}

theorem entry_eq_ok_iff : a.entry place key = .ok b ↔
    ∃ s table, a.get? place.1 = some s ∧ s.table? place.2 = some table ∧
      table.get? key = some b := by
  unfold entry get
  cases a.get? place.1 with
  | none => simp [bind, Except.bind]
  | some s =>
    simp only [bind, Except.bind, Option.some.injEq, exists_and_left, exists_eq_left']
    cases s.table? place.2 with
    | none => simp [throw, throwThe, MonadExceptOf.throw]
    | some table =>
      cases hb : table.get? key <;>
        simp [hb, throw, throwThe, MonadExceptOf.throw, pure, Except.pure]

/-- **A search finds what it found before an assignment**, unless that was to `super`. -/
theorem findsAlike_assign (hkey : key ≠ superName) (place : Place) (v : Value) :
    a.FindsAlike (a.modifyTable place (·.assign key v)) where
  size := Array.size_modify
  scope id := by
    unfold modifyTable
    rw [get?_modify]
    split
    · subst id
      cases a.get? place.1 with
      | none => exact .none
      | some s =>
        refine .some ?_
        dsimp only
        split
        · exact Scope.findsAlike_assign ‹_› hkey v
        · exact .refl s
    · cases a.get? id with
      | none => exact .none
      | some s => exact .some (.refl s)

/-- **The value of one binding has been replaced.** -/
structure Assigned (a : Arena) (place : Place) (key : String) (v : Value) (a' : Arena) : Prop where
  scope : ∃ s s' b, a.get? place.1 = some s ∧ a'.get? place.1 = some s' ∧
    s.binding? place.2 key = some b ∧
    (∀ p name, s'.binding? p name =
      if p = place.2 ∧ name = key then some { b with value := v } else s.binding? p name) ∧
    s'.outer = s.outer ∧ s'.namespaces = s.namespaces ∧ s'.serial = s.serial ∧
    s'.state.skeleton = s.state.skeleton ∧ s'.control? = s.control?
  others : ∀ x, x ≠ place.1 → a'.get? x = a.get? x
  rest : a' = { a with scopes := a'.scopes }

/-- The scopes after a table of one of them has been changed. -/
theorem get?_modifyTable {s : Scope} {table : Bindings} (hs : a.get? place.1 = some s)
    (ht : s.table? place.2 = some table) (f : Bindings → Bindings) (x : ScopeId) :
    (a.modifyTable place f).get? x =
      if x = place.1 then some (s.setTable place.2 (f table)) else a.get? x := by
  unfold modifyTable
  rw [get?_modify, hs]
  simp only [Option.map_some, ht]

theorem assigned_modifyTable (hb : a.entry place key = .ok b) (v : Value) :
    a.Assigned place key v (a.modifyTable place (·.assign key v)) := by
  obtain ⟨s, table, hs, ht, hget⟩ := entry_eq_ok_iff.mp hb
  have hbinding : s.binding? place.2 key = some b := (Scope.binding?_eq_get? ht key).trans hget
  refine ⟨⟨s, s.setTable place.2 (table.assign key v), b, hs, ?_, hbinding, fun p name => ?_, ?_⟩,
    fun x hx => ?_, rfl⟩
  · rw [get?_modifyTable hs ht, if_pos rfl]
  · rw [Scope.binding?_assign ht, hbinding, Option.map_some]
  · obtain ⟨hkin, hcontrol⟩ := s.kin_setTable place.2 (table.assign key v)
    exact ⟨hkin.outer, s.namespaces_setTable _ _, hkin.serial, s.skeleton_setTable _ _, hcontrol⟩
  · rw [get?_modifyTable hs ht, if_neg hx]

/-- Variables are assigned, and constants as long as they have no value. -/
theorem assignAt_eq (hb : a.entry place key = .ok b) (v : Value) : a.assignAt place key v =
    if b.constant = true ∧ b.value ≠ .undefined then .error (.constReassignment key)
    else .ok (a.modifyTable place (·.assign key v)) := by
  have hundefined : (!b.value.isUndefined) = true ↔ b.value ≠ .undefined := by
    cases b.value <;> simp [Value.isUndefined]
  simp only [assignAt, hb, bind, Except.bind, Bool.and_eq_true, hundefined]
  rfl

/-- What is to be read at a place after an assignment. -/
theorem entry_assign (hb : a.entry place key = .ok b) (v : Value) (other : Place) (name : String) :
    (a.modifyTable place (·.assign key v)).entry other name =
      if other = place ∧ name = key then .ok { b with value := v } else a.entry other name := by
  obtain ⟨s, table, hs, ht, hget⟩ := entry_eq_ok_iff.mp hb
  obtain ⟨x, p⟩ := place
  obtain ⟨y, q⟩ := other
  unfold entry get
  rw [get?_modifyTable hs ht]
  by_cases hy : y = x
  · subst hy
    rw [if_pos rfl, hs]
    dsimp only [bind, Except.bind]
    rw [Scope.table?_setTable ht]
    by_cases hq : q = p
    · subst hq
      rw [if_pos rfl, ht]
      by_cases hname : name = key
      · subst hname
        simp [Bindings.get?_assign, hget, pure, Except.pure]
      · simp [Bindings.get?_assign, hname]
    · simp [hq]
  · simp [hy]

end Arena

/-! ## Ways to a binding -/

/-- A way to a binding: a name in a scope, or a member of an instance. -/
inductive Access
  | name (id : ScopeId) (key : String)
  | member (r : Ref) (key : String)

namespace Access

/-- The name that is looked for. -/
def key : Access → String
  | name _ key | member _ key => key

/-- The fault if it is not found. -/
def missing : Access → Fault
  | name _ key => .undefinedVariable key
  | member _ key => .attributeNotFound key

variable (access : Access) (heap : Heap) (a : Arena)

/-- Where it is found. -/
def locate : Except Fault (Option Place) :=
  match access with
  | name id key => a.locate heap id key
  | member r key => a.locateMember heap r key

/-- Read the value. -/
def read : Except Fault Value :=
  match access with
  | name id key => a.lookup heap id key
  | member r key => a.member heap r key

/-- Assign a value. -/
def write (v : Value) : Except Fault Arena :=
  match access with
  | name id key => a.assign heap id key v
  | member r key => a.assignMember heap r key v

/-- Assign a value, in a session. -/
def run (v : Value) : Run Unit :=
  match access with
  | name id key => Session.assign id key v
  | member r key => Session.assignMember r key v

variable {access heap a}

theorem read_eq : access.read heap a = access.locate heap a >>= fun found =>
    match found with
    | some place => (a.entry place access.key).map (·.value)
    | none => .error access.missing := by
  have hvalue : ∀ place key, (do return (← a.entry place key).value : Except Fault Value) =
      (a.entry place key).map (·.value) := by
    intro place key
    cases a.entry place key <;> rfl
  cases access with
  | name id key => simp only [read, Arena.lookup, hvalue]; rfl
  | member r key => simp only [read, Arena.member, hvalue]; rfl

theorem write_eq (v : Value) : access.write heap a v = access.locate heap a >>= fun found =>
    match found with
    | some place => a.assignAt place access.key v
    | none => .error access.missing := by
  cases access <;> rfl

/-- A refused assignment leaves the session as it was. -/
theorem exec_run_error {v : Value} {fault : Fault} {S : Session}
    (h : access.write S.memory.heap S.arena v = .error fault) :
    (access.run v).exec S = (.error (.fault fault), S) := by
  cases access with
  | name id key =>
    unfold run Session.assign
    rw [Run.exec_bind_ok (Run.exec_get S)]
    exact Run.exec_modifyScopes_error h
  | member r key =>
    unfold run Session.assignMember
    rw [Run.exec_bind_ok (Run.exec_get S)]
    exact Run.exec_modifyScopes_error h

theorem locate_of_findsAlike {a' : Arena} (h : a.FindsAlike a') :
    access.locate heap a' = access.locate heap a := by
  cases access with
  | name id key => exact h.locate heap key id
  | member r key => exact h.locateMember heap key r

/-- An assignment succeeds where it finds a variable, or a constant without a value. -/
theorem write_eq_ok {v : Value} {a' : Arena} (h : access.write heap a v = .ok a') :
    ∃ place b, access.locate heap a = .ok (some place) ∧ a.entry place access.key = .ok b ∧
      a' = a.modifyTable place (·.assign access.key v) := by
  rw [write_eq] at h
  obtain ⟨found, hlocate, h⟩ := Memory.bind_eq_ok.mp h
  cases found with
  | none => cases h
  | some place =>
    obtain ⟨b, hb, -⟩ := Memory.bind_eq_ok.mp h
    dsimp only at h
    rw [Arena.assignAt_eq hb] at h
    split at h
    · cases h
    · cases h
      exact ⟨place, b, hlocate, hb, rfl⟩

/-- An assignment fails where there is nothing to read, or a constant that has a value. -/
theorem write_eq_error_iff {v : Value} {fault : Fault} : access.write heap a v = .error fault ↔
    access.read heap a = .error fault ∨
      ∃ place b, access.locate heap a = .ok (some place) ∧ a.entry place access.key = .ok b ∧
        b.constant = true ∧ b.value ≠ .undefined ∧ fault = .constReassignment access.key := by
  rw [write_eq, read_eq]
  rcases access.locate heap a with other | _ | place
  · simp [bind, Except.bind]
  · simp [bind, Except.bind]
  · cases hb : a.entry place access.key with
    | error other => simp [bind, Except.bind, Arena.assignAt, hb, Except.map]
    | ok b =>
      simp only [bind, Except.bind, Arena.assignAt_eq hb, hb, Except.map, reduceCtorEq, false_or,
        Except.ok.injEq, Option.some.injEq]
      constructor
      · intro h
        split at h
        · rename_i hconst
          cases h
          exact ⟨place, b, rfl, hb, hconst.1, hconst.2, rfl⟩
        · cases h
      · rintro ⟨place', b', rfl, hb', hconst, hvalue, rfl⟩
        cases hb.symm.trans hb'
        rw [if_pos ⟨hconst, hvalue⟩]

end Access

/-- **What is assigned is read back, and nothing else changes.** An assignment to a name other than
`super` that succeeds replaces the value of the binding that a lookup finds. Afterwards this value
is read on every way that leads to this binding, and on every other way what was read before. An
assignment fails exactly if the lookup does, with the same fault, or if it finds a constant that has
a value, and then nothing has changed. -/
theorem assignment_read_back (heap : Heap) (a : Arena) (access : Access) (v : Value)
    (hkey : access.key ≠ superName) :
    (∀ a', access.write heap a v = .ok a' → ∃ place,
      access.locate heap a = .ok (some place) ∧ a.Assigned place access.key v a' ∧
      ∀ other : Access,
        (other.locate heap a = .ok (some place) ∧ other.key = access.key →
          other.read heap a' = .ok v) ∧
        (¬ (other.locate heap a = .ok (some place) ∧ other.key = access.key) →
          other.read heap a' = other.read heap a)) ∧
    ∀ fault, (access.write heap a v = .error fault ↔ access.read heap a = .error fault ∨
        ∃ place b, access.locate heap a = .ok (some place) ∧ a.entry place access.key = .ok b ∧
          b.constant = true ∧ b.value ≠ .undefined ∧ fault = .constReassignment access.key) ∧
      ∀ S : Session, S.arena = a → S.memory.heap = heap → access.write heap a v = .error fault →
        (access.run v).exec S = (.error (.fault fault), S) := by
  refine ⟨fun a' h => ?_, fun fault => ⟨Access.write_eq_error_iff, ?_⟩⟩
  · obtain ⟨place, b, hlocate, hb, rfl⟩ := Access.write_eq_ok h
    refine ⟨place, hlocate, Arena.assigned_modifyTable hb v, fun other => ?_⟩
    have hfound := Arena.findsAlike_assign (a := a) hkey place v
    rw [Access.read_eq, Access.locate_of_findsAlike hfound]
    refine ⟨?_, fun hother => ?_⟩
    · rintro ⟨hplace, hsame⟩
      rw [hplace]
      dsimp only [bind, Except.bind]
      rw [Arena.entry_assign hb, if_pos ⟨rfl, hsame⟩]
      rfl
    · rw [Access.read_eq]
      rcases hplace : other.locate heap a with fault | _ | place'
      · rfl
      · rfl
      · dsimp only [bind, Except.bind]
        rw [Arena.entry_assign hb, if_neg]
        rintro ⟨rfl, hsame⟩
        exact hother ⟨hplace, hsame⟩
  · rintro S rfl rfl herror
    exact Access.exec_run_error herror

/-- An object whose fields are in the scope at `1`. -/
def receiver : Heap where
  slots := #[.empty, .object ⟨.instanceOf .null ⟨1⟩, false⟩]
  free := ⟨[]⟩

/-- An instance with a private field, and a block of a method that it has received. -/
def methodBlock : Arena :=
  let a := (Arena.new.create (.instance_ { priv := ⟨[("count", ⟨.null, false⟩)]⟩ }) (some ⟨0⟩)).2
  let a := (a.create (.method none {} ⟨1⟩) (some ⟨0⟩)).2
  (a.create .block (some ⟨2⟩)).2

/-- A field that is assigned in the method is read back as a member. -/
theorem assignment_read_back_methodBlock :
    ∃ a', (Access.name ⟨3⟩ "count").write receiver methodBlock (.bool true) = .ok a' ∧
      (Access.member ⟨1⟩ "count").read receiver a' = .ok (.bool true) := by
  obtain ⟨hok, -⟩ := assignment_read_back receiver methodBlock (.name ⟨3⟩ "count") (.bool true)
    (by decide)
  refine ⟨_, rfl, ?_⟩
  obtain ⟨place, hplace, -, hread⟩ := hok _ rfl
  refine (hread (.member ⟨1⟩ "count")).1 ⟨?_, rfl⟩
  rw [← hplace]
  rfl

end ScriptCore
