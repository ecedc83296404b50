import ScriptCore.Proofs.Scope.Shelter

/-!
# Bindings in the course of time

A name that is bound in a table of a scope stays bound there, constants stay constants, and a
constant that has a value keeps it. `Scope.Abides` says so of a scope at two times and
`Arena.Abides` of all scopes that are still there, which serial numbers tell.

A `ScopeRequest` is an operation on the scopes, or one on the memory that they refer to. Each
abides by the bindings (`ScopeRequest.apply_abides`), and so does every run; `bindings_abide` says
what follows for a scope from one point of a run to a later one.
-/

namespace ScriptCore

/-! ## Bindings of one scope -/

/-- What may become of a binding when references are replaced by `f`. -/
structure Binding.Abides (f : Ref → Ref) (b b' : Binding) : Prop where
  constant : b'.constant = b.constant
  value : b.constant = true → b.value ≠ .undefined → b'.value = b.value.mapRef f

theorem Binding.abides_mapRef (f : Ref → Ref) (b : Binding) : b.Abides f (b.mapRef f) :=
  ⟨rfl, fun _ _ => rfl⟩

theorem Binding.Abides.refl (b : Binding) : b.Abides id b :=
  ⟨rfl, fun _ _ => (Value.mapRef_id _).symm⟩

theorem Binding.Abides.trans {f g : Ref → Ref} {b b' b'' : Binding} (h : b.Abides f b')
    (h' : b'.Abides g b'') : b.Abides (g ∘ f) b'' where
  constant := h'.constant.trans h.constant
  value hconst hvalue := by
    have hb' := h.value hconst hvalue
    have hdefined : b'.value ≠ .undefined := by
      rw [hb']
      revert hvalue
      cases b.value <;> simp [Value.mapRef]
    rw [h'.value (h.constant.trans hconst) hdefined, hb', Value.mapRef_mapRef]

namespace Scope

/-- The binding of `name` in a table of the scope. -/
def binding? (s : Scope) (partition : Partition) (name : String) : Option Binding :=
  (s.table? partition).bind (·.get? name)

theorem binding?_eq_get? {s : Scope} {p : Partition} {table : Bindings}
    (ht : s.table? p = some table) (name : String) : s.binding? p name = table.get? name := by
  rw [binding?, ht, Option.bind_some]

theorem binding?_setControl (s : Scope) (c : Control) (p : Partition) (name : String) :
    (s.setControl c).binding? p name = s.binding? p name := by
  rw [binding?, table?_setControl, binding?]

theorem binding?_mapRefs (f : Ref → Ref) (s : Scope) (p : Partition) (name : String) :
    (s.mapRefs f).binding? p name = (s.binding? p name).map (·.mapRef f) := by
  rw [binding?, table?_mapRefs, binding?]
  cases s.table? p with
  | none => rfl
  | some table => exact table.get?_mapRefs f name

theorem binding?_setTable {s : Scope} {p : Partition} {table : Bindings}
    (ht : s.table? p = some table) (table' : Bindings) (q : Partition) (name : String) :
    (s.setTable p table').binding? q name =
      if q = p then table'.get? name else s.binding? q name := by
  obtain ⟨state, outer, bindings, namespaces, serial⟩ := s
  cases p <;> cases state <;> cases ht <;> cases q <;> rfl

theorem binds_eq_false_iff {s : Scope} {name : String} :
    s.binds name = false ↔ ∀ p, s.binding? p name = none := by
  have htable : ∀ p, (s.table? p).any (·.contains name) = false ↔ s.binding? p name = none := by
    intro p
    unfold binding? Bindings.contains
    cases s.table? p <;> simp
  unfold binds
  rw [List.any_eq_false]
  constructor
  · intro h p
    rw [← htable]
    cases p <;> simpa using h _ (by decide)
  · intro h p _
    simpa using (htable p).mpr (h p)

/-- The scope is the same one, each name is bound in the table in which it was, and a name that two
tables bind was bound in both of them. -/
structure Abides (f : Ref → Ref) (s s' : Scope) : Prop where
  serial : s'.serial = s.serial
  entry : ∀ {p name b}, s.binding? p name = some b →
    ∃ b', s'.binding? p name = some b' ∧ b.Abides f b'
  shared : ∀ {p q name}, p ≠ q → (s'.binding? p name).isSome = true →
    (s'.binding? q name).isSome = true →
    (s.binding? p name).isSome = true ∧ (s.binding? q name).isSome = true

theorem Abides.trans {f g : Ref → Ref} {s s' s'' : Scope} (h : s.Abides f s')
    (h' : s'.Abides g s'') : s.Abides (g ∘ f) s'' where
  serial := h'.serial.trans h.serial
  entry hb := by
    obtain ⟨b', hb', hab⟩ := h.entry hb
    obtain ⟨b'', hb'', hab'⟩ := h'.entry hb'
    exact ⟨b'', hb'', hab.trans hab'⟩
  shared hne hp hq :=
    have ⟨hp', hq'⟩ := h'.shared hne hp hq
    h.shared hne hp' hq'

/-- A scope whose tables have not been changed. -/
theorem abides_of_binding? {s s' : Scope} (hserial : s'.serial = s.serial)
    (hentry : ∀ p name, s'.binding? p name = s.binding? p name) : s.Abides id s' where
  serial := hserial
  entry {p name b} hb := ⟨b, (hentry p name).trans hb, .refl b⟩
  shared _ hp hq := ⟨hentry _ _ ▸ hp, hentry _ _ ▸ hq⟩

theorem Abides.refl (s : Scope) : s.Abides id s := abides_of_binding? rfl fun _ _ => rfl

theorem abides_mapRefs (f : Ref → Ref) (s : Scope) : s.Abides f (s.mapRefs f) where
  serial := rfl
  entry {p name b} hb := ⟨b.mapRef f, by rw [binding?_mapRefs, hb]; rfl, b.abides_mapRef f⟩
  shared _ hp hq := by
    rw [binding?_mapRefs, Option.isSome_map] at hp hq
    exact ⟨hp, hq⟩

/-- An assignment abides if it is to a variable or to a constant without a value. -/
theorem abides_assign {s : Scope} {p : Partition} {table : Bindings} (ht : s.table? p = some table)
    {name : String} {b : Binding} (hb : table.get? name = some b)
    (hfree : b.constant = true → b.value = .undefined) (v : Value) :
    s.Abides id (s.setTable p (table.assign name v)) where
  serial := s.serial_setTable _ _
  entry {q key c} hc := by
    rw [binding?_setTable ht]
    split
    · rename_i hq
      subst hq
      rw [binding?_eq_get? ht] at hc
      rw [Bindings.get?_assign, hc, Option.map_some]
      refine ⟨_, rfl, ?_⟩
      split
      · rename_i hkey
        obtain rfl := eq_of_beq hkey
        obtain rfl := Option.some.inj (hb.symm.trans hc)
        exact ⟨rfl, fun hconst hvalue => absurd (hfree hconst) hvalue⟩
      · exact .refl c
    · exact ⟨c, hc, .refl c⟩
  shared {q q' key} hne hq hq' := by
    have hsame : ∀ q, ((s.setTable p (table.assign name v)).binding? q key).isSome =
        (s.binding? q key).isSome := by
      intro q
      rw [binding?_setTable ht]
      split
      · rename_i hq
        rw [Bindings.get?_assign, Option.isSome_map, hq, binding?_eq_get? ht]
      · rfl
    rw [hsame] at hq hq'
    exact ⟨hq, hq'⟩

/-- A declaration abides if no table binds the name. -/
theorem abides_insert {s : Scope} {p : Partition} {table : Bindings} (ht : s.table? p = some table)
    {name : String} (hnew : s.binds name = false) (b : Binding) :
    s.Abides id (s.setTable p (table.insert name b)) := by
  have hnone := binds_eq_false_iff.mp hnew
  have hentry : ∀ q key, (s.setTable p (table.insert name b)).binding? q key =
      if q = p ∧ key = name then some b else s.binding? q key := by
    intro q key
    rw [binding?_setTable ht, Bindings.get?_insert]
    by_cases hq : q = p
    · subst hq
      simp only [true_and, if_true, binding?_eq_get? ht]
    · simp only [hq, false_and, if_false]
  refine ⟨s.serial_setTable _ _, fun {q key c} hc => ?_, fun {q q' key} hne hq hq' => ?_⟩
  · refine ⟨c, ?_, .refl c⟩
    rw [hentry, if_neg, hc]
    rintro ⟨rfl, rfl⟩
    rw [hnone] at hc
    cases hc
  · -- the new name is in one table only
    rw [hentry] at hq hq'
    have hkey : key ≠ name := by
      rintro rfl
      rw [hnone] at hq hq'
      simp only [and_true] at hq hq'
      split at hq
      · rw [if_neg (by rintro rfl; exact hne ‹_›)] at hq'
        cases hq'
      · cases hq
    rw [if_neg (fun h => hkey h.2)] at hq hq'
    exact ⟨hq, hq'⟩

end Scope

/-! ## Bindings of all scopes -/

namespace Arena

variable {f g : Ref → Ref} {born : ScopeState → Option ScopeId → Prop}
  {a a' a'' : Arena} {x : ScopeId}

/-- An arena in good order in which no serial number is given twice. -/
structure Numbered (a : Arena) : Prop where
  orderly : a.Orderly
  eq_of_serial : ∀ {x y s t}, a.get? x = some s → a.get? y = some t → s.serial = t.serial → x = y

theorem numbered_new : Arena.new.Numbered where
  orderly := orderly_new
  eq_of_serial hs ht _ := (get?_new hs).1.trans (get?_new ht).1.symm

/-- The arena `a'` is a later one than `a`. A scope was there and abides by its bindings, or it has
been made since, with a state and a parent that are `born`. -/
structure Abides (f : Ref → Ref) (born : ScopeState → Option ScopeId → Prop) (a a' : Arena) :
    Prop where
  nextSerial_le : a.nextSerial ≤ a'.nextSerial
  numbered : a'.Numbered
  scope : ∀ {id s'}, a'.get? id = some s' → (∃ s, a.get? id = some s ∧ s.Abides f s') ∨
    a.nextSerial ≤ s'.serial ∧
      ∃ state outer serial h, born state outer ∧ Scope.Abides h { state, outer, serial } s'

theorem Abides.mono {born' : ScopeState → Option ScopeId → Prop} (h : a.Abides f born a')
    (hborn : ∀ {state outer}, born state outer → born' state outer) : a.Abides f born' a' where
  nextSerial_le := h.nextSerial_le
  numbered := h.numbered
  scope hs' := (h.scope hs').imp_right fun ⟨hnew, state, outer, serial, k, hstate, hab⟩ =>
    ⟨hnew, state, outer, serial, k, hborn hstate, hab⟩

theorem Abides.trans (h : a.Abides f born a') (h' : a'.Abides g born a'') :
    a.Abides (g ∘ f) born a'' where
  nextSerial_le := Nat.le_trans h.nextSerial_le h'.nextSerial_le
  numbered := h'.numbered
  scope {id s''} hs'' := by
    rcases h'.scope hs'' with ⟨s', hs', hab'⟩ | ⟨hnew, hborn⟩
    · rcases h.scope hs' with ⟨s, hs, hab⟩ | ⟨hnew, state, outer, serial, k, hborn, hab⟩
      · exact .inl ⟨s, hs, hab.trans hab'⟩
      · exact .inr ⟨hab'.serial ▸ hnew, state, outer, serial, _, hborn, hab.trans hab'⟩
    · exact .inr ⟨Nat.le_trans h.nextSerial_le hnew, hborn⟩

/-- No scope has been made. -/
theorem abides_of_scopes (ha : a.Numbered) (ho : a'.Orderly)
    (hserial : a'.nextSerial = a.nextSerial)
    (h : ∀ {id s'}, a'.get? id = some s' → ∃ s, a.get? id = some s ∧ s.Abides f s') :
    a.Abides f born a' where
  nextSerial_le := hserial.ge
  numbered := by
    refine ⟨ho, fun {x y s' t'} hs' ht' heq => ?_⟩
    obtain ⟨s, hs, hab⟩ := h hs'
    obtain ⟨t, ht, hab'⟩ := h ht'
    exact ha.eq_of_serial hs ht (by rw [← hab.serial, heq, hab'.serial])
  scope hs' := .inl (h hs')

theorem Abides.refl (ha : a.Numbered) : a.Abides id born a :=
  abides_of_scopes ha ha.orderly rfl fun {_ s} hs => ⟨s, hs, .refl s⟩

theorem abides_modify (ha : a.Numbered) {h : Scope → Scope} (hserial : ∀ s, (h s).serial = s.serial)
    (hab : ∀ {s}, a.get? x = some s → s.Abides id (h s)) : a.Abides id born (a.modify x h) := by
  refine abides_of_scopes ha (ha.orderly.modify x hserial) rfl fun {y s'} hs' => ?_
  rw [get?_modify] at hs'
  split at hs'
  · subst y
    obtain ⟨s, hs, rfl⟩ := Option.map_eq_some_iff.mp hs'
    exact ⟨s, hs, hab hs⟩
  · exact ⟨s', hs', .refl s'⟩

/-! ### Names -/

theorem serial_modifyTable (p : Partition) (h : Bindings → Bindings) (s : Scope) :
    (match s.table? p with
      | some table => s.setTable p (h table)
      | none => s).serial = s.serial := by
  split
  · exact s.serial_setTable _ _
  · rfl

theorem abides_defineField (ha : a.Numbered) {p : Partition} {name : String} {b : Binding}
    (h : a.defineField x p name b = .ok a') : a.Abides id born a' := by
  obtain ⟨hdeclared, rfl⟩ := defineField_spec h
  refine abides_modify ha (serial_modifyTable p _) fun {s} hs => ?_
  have hnew : s.binds name = false := by
    cases isDeclared_eq_false_iff.mp hdeclared with
    | boundary hs' hb _ | outward hs' hb _ _ _ =>
      cases hs.symm.trans hs'
      exact hb
  split
  · exact Scope.abides_insert ‹_› hnew b
  · exact .refl s

theorem abides_assignAt (ha : a.Numbered) {place : Place} {name : String} {v : Value}
    (h : a.assignAt place name v = .ok a') : a.Abides id born a' := by
  obtain ⟨b, hb, h⟩ := Memory.bind_eq_ok.mp h
  split at h
  · cases h
  rename_i hfree
  cases h
  refine abides_modify ha (serial_modifyTable place.2 _) fun {s} hs => ?_
  split
  · rename_i table ht
    obtain ⟨t, hget, hb⟩ := Memory.bind_eq_ok.mp hb
    cases hs.symm.trans (get_eq_ok.mp hget)
    rw [ht] at hb
    dsimp only at hb
    split at hb
    · cases hb
    · rename_i entry hentry
      cases hb
      refine Scope.abides_assign ht hentry (fun hconst => ?_) v
      have hundefined : b.value.isUndefined = true := by simpa [hconst] using hfree
      cases hvalue : b.value with
      | undefined => rfl
      | _ => simp [hvalue, Value.isUndefined] at hundefined
  · exact .refl s

theorem abides_assign (ha : a.Numbered) {heap : Heap} {name : String} {v : Value}
    (h : a.assign heap x name v = .ok a') : a.Abides id born a' := by
  obtain ⟨place, -, h⟩ := Memory.bind_eq_ok.mp h
  cases place with
  | none => cases h
  | some place => exact abides_assignAt ha h

theorem abides_assignMember (ha : a.Numbered) {heap : Heap} {r : Ref} {name : String} {v : Value}
    (h : a.assignMember heap r name v = .ok a') : a.Abides id born a' := by
  obtain ⟨place, -, h⟩ := Memory.bind_eq_ok.mp h
  cases place with
  | none => cases h
  | some place => exact abides_assignAt ha h

theorem abides_attachNamespace (ha : a.Numbered) {target : ScopeId}
    (h : a.attachNamespace x target = .ok a') : a.Abides id born a' := by
  obtain ⟨-, -, h⟩ := Memory.bind_eq_ok.mp h
  obtain ⟨main, -, h⟩ := Memory.bind_eq_ok.mp h
  cases h
  refine abides_modify ha (fun s => ?_) fun {s} _ => ?_
  · split <;> rfl
  · split
    · exact .refl s
    · exact Scope.abides_of_binding? rfl fun p name => by cases p <;> rfl

/-! ### Control state -/

theorem abides_setControl (ha : a.Numbered) (x : ScopeId) (c : Control) :
    a.Abides id born (a.setControl x c) :=
  abides_modify ha (fun _ => rfl) fun _ =>
    Scope.abides_of_binding? rfl (Scope.binding?_setControl _ c)

theorem Signals.abides (h : a.Signals x a') (ha : a.Numbered) : a.Abides id born a' := by
  rcases h with rfl | ⟨owner, c, -, rfl⟩
  · exact .refl ha
  · exact abides_setControl ha owner c

theorem abides_setSuspended (ha : a.Numbered) (l : List Suspended) :
    a.Abides id born (a.setSuspended l) :=
  abides_of_scopes ha ⟨ha.orderly.vacant_nodup, ha.orderly.vacant_free, ha.orderly.serial_lt⟩ rfl
    fun {_ s} hs => ⟨s, hs, .refl s⟩

theorem abides_foldl_setControl (ha : a.Numbered) (k : Control → Control)
    (parked : List (ScopeId × Control)) :
    a.Abides id born (parked.foldl (fun a p => a.setControl p.1 (k p.2)) a) := by
  induction parked generalizing a with
  | nil => exact .refl ha
  | cons p parked ih =>
    have hfirst : a.Abides id born (a.setControl p.1 (k p.2)) := abides_setControl ha _ _
    exact hfirst.trans (ih hfirst.numbered)

theorem abides_suspendControl (ha : a.Numbered) (x : ScopeId) :
    a.Abides id born (a.suspendControl x) :=
  have h : a.Abides id born _ := abides_foldl_setControl ha Control.cleared _
  h.trans (abides_setSuspended h.numbered _)

theorem abides_restoreControl (ha : a.Numbered) : a.Abides id born a.restoreControl := by
  unfold restoreControl
  split
  · exact .refl ha
  · rename_i owners parked rest _
    have h : a.Abides id born (a.setSuspended rest) := abides_setSuspended ha rest
    dsimp only
    split
    · exact h
    · exact h.trans (abides_foldl_setControl h.numbered (fun c => c) parked)

/-! ### Making, reclaiming and moving -/

theorem abides_create (ha : a.Numbered) {state : ScopeState} {outer : Option ScopeId}
    (hborn : born state outer) : a.Abides id born (a.create state outer).2 where
  nextSerial_le := by
    rw [nextSerial_create]
    exact Nat.le_succ _
  numbered := by
    refine ⟨ha.orderly.create state outer, fun {x y s t} hs ht heq => ?_⟩
    rcases ha.orderly.eq_of_get?_create hs with ⟨rfl, rfl⟩ | hs
    · rcases ha.orderly.eq_of_get?_create ht with ⟨rfl, -⟩ | ht
      · rfl
      · exact absurd heq (Nat.ne_of_gt (ha.orderly.serial_lt ht))
    · rcases ha.orderly.eq_of_get?_create ht with ⟨-, rfl⟩ | ht
      · exact absurd heq (Nat.ne_of_lt (ha.orderly.serial_lt hs))
      · exact ha.eq_of_serial hs ht heq
  scope {x s} hs := by
    rcases ha.orderly.eq_of_get?_create hs with ⟨-, rfl⟩ | hs
    · exact .inr ⟨Nat.le_refl _, state, outer, _, id, hborn, .refl _⟩
    · exact .inl ⟨s, hs, .refl s⟩

theorem abides_sweep (ha : a.Numbered) (u : Unreached) : a.Abides id born (a.sweep u) := by
  refine abides_of_scopes ha (ha.orderly.sweep u) (a.frame_sweep u).2.1 fun {x s} hs => ?_
  rw [get?_sweep] at hs
  split at hs
  · cases hs
  · exact ⟨s, hs, .refl s⟩

theorem abides_mapRefs (ha : a.Numbered) (f : Ref → Ref) : a.Abides f born (a.mapRefs f) := by
  refine abides_of_scopes ha (ha.orderly.mapRefs f) rfl fun {x s'} hs' => ?_
  rw [get?_mapRefs] at hs'
  obtain ⟨s, hs, rfl⟩ := Option.map_eq_some_iff.mp hs'
  exact ⟨s, hs, s.abides_mapRefs f⟩

theorem exists_of_map_snd {α : Type} {result : Except Fault (α × Arena)}
    (h : result.map Prod.snd = .ok a') : ∃ v, result = .ok (v, a') := by
  cases result with
  | error _ => cases h
  | ok p =>
    cases h
    exact ⟨p.1, rfl⟩

/-- The scopes after an operation that may have been refused. -/
def orKeep (a : Arena) : Except Fault Arena → Arena
  | .ok a' => a'
  | .error _ => a

theorem abides_orKeep (ha : a.Numbered) {result : Except Fault Arena}
    (h : ∀ {a'}, result = .ok a' → a.Abides f born a') (hf : f = id) :
    a.Abides f born (a.orKeep result) := by
  cases result with
  | ok a' => exact h rfl
  | error _ => exact hf ▸ .refl ha

end Arena

/-! ## Requests -/

/-- An operation on the scopes, or on the memory beside them. -/
inductive ScopeRequest
  /-- Make a scope. -/
  | create (state : ScopeState) (outer : Option ScopeId)
  /-- Declare a variable. -/
  | defineVar (id : ScopeId) (name : String) (v : Value)
  /-- Declare a constant. -/
  | defineConst (id : ScopeId) (name : String) (v : Value)
  /-- Declare a name in a table. -/
  | defineField (id : ScopeId) (partition : Partition) (name : String) (b : Binding)
  /-- Assign to a name. -/
  | assign (id : ScopeId) (name : String) (v : Value)
  /-- Assign to a member of an instance. -/
  | assignMember (r : Ref) (name : String) (v : Value)
  /-- Let an instance extend another one. -/
  | bindSuper (child parent : Ref)
  /-- Import a module. -/
  | attachNamespace (id target : ScopeId)
  /-- Return a value. -/
  | setReturn (id : ScopeId) (v : Value)
  /-- Take the value returned. -/
  | takeReturn (id : ScopeId)
  /-- Leave a loop. -/
  | breakLoop (id : ScopeId) (label : Option String)
  /-- Cut an iteration short. -/
  | pauseLoop (id : ScopeId) (label : Option String)
  /-- Let a loop go on. -/
  | resumeLoop (id : ScopeId)
  /-- Go on with the next arm. -/
  | fallthrough (id : ScopeId)
  /-- Take the fallthrough flag. -/
  | takeFallthrough (id : ScopeId)
  /-- Give a case construct its value. -/
  | yieldValue (id : ScopeId) (v : Value)
  /-- Take the value of a case construct. -/
  | takeYield (id : ScopeId)
  /-- Throw an exception. -/
  | throwException (id : ScopeId) (pending : Pending)
  /-- Take an exception. -/
  | takeException (id : ScopeId)
  /-- Set control state aside. -/
  | suspendControl (id : ScopeId)
  /-- Put control state back. -/
  | restoreControl
  /-- Collect. -/
  | collect (extra : RootSet)
  /-- Compact. -/
  | compact
  /-- Do anything to the memory. -/
  | memory (update : Memory → Memory)

namespace ScopeRequest

/-- Carry out a request; one that is refused changes nothing. -/
def apply : ScopeRequest → Memory × Arena → Memory × Arena
  | create state outer, (m, a) => (m, (a.create state outer).2)
  | defineVar id name v, (m, a) => (m, a.orKeep (a.defineVar id name v))
  | defineConst id name v, (m, a) => (m, a.orKeep (a.defineConst id name v))
  | defineField id partition name b, (m, a) => (m, a.orKeep (a.defineField id partition name b))
  | assign id name v, (m, a) => (m, a.orKeep (a.assign m.heap id name v))
  | assignMember r name v, (m, a) => (m, a.orKeep (a.assignMember m.heap r name v))
  | bindSuper child parent, (m, a) => (m, a.orKeep do
      let scope ← m.heap.instanceScope child
      let _ ← m.heap.instanceScope parent
      a.defineVar scope superName (.ref parent))
  | attachNamespace id target, (m, a) => (m, a.orKeep (a.attachNamespace id target))
  | setReturn id v, (m, a) => (m, a.orKeep (a.setReturn id v))
  | takeReturn id, (m, a) => (m, (a.takeReturn id).2)
  | breakLoop id label, (m, a) => (m, a.orKeep (a.breakLoop id label))
  | pauseLoop id label, (m, a) => (m, a.orKeep (a.pauseLoop id label))
  | resumeLoop id, (m, a) => (m, a.orKeep (a.resumeLoop id))
  | fallthrough id, (m, a) => (m, a.orKeep (a.fallthrough id))
  | takeFallthrough id, (m, a) => (m, a.orKeep ((a.takeFallthrough id).map Prod.snd))
  | yieldValue id v, (m, a) => (m, a.orKeep (a.yieldValue id v))
  | takeYield id, (m, a) => (m, a.orKeep ((a.takeYield id).map Prod.snd))
  | throwException id pending, (m, a) => (m, a.orKeep (a.throwException id pending))
  | takeException id, (m, a) => (m, (a.takeException id).2)
  | suspendControl id, (m, a) => (m, a.suspendControl id)
  | restoreControl, (m, a) => (m, a.restoreControl)
  | collect extra, (m, a) => (ScriptCore.collect m a extra).2
  | compact, (m, a) => (ScriptCore.compact m a).2
  | memory update, (m, a) => (update m, a)

/-- Where references go when the request is carried out. -/
def moved (s : Memory × Arena) : ScopeRequest → Ref → Ref
  | compact => (ScriptCore.compact s.1 s.2).1.resolve
  | _ => id

/-- Carry out requests one after the other. -/
def run (requests : List ScopeRequest) (s : Memory × Arena) : Memory × Arena :=
  requests.foldl (fun s request => request.apply s) s

/-- Where references go in a run. -/
def track : List ScopeRequest → Memory × Arena → Ref → Ref
  | [], _ => id
  | request :: rest, s => track rest (request.apply s) ∘ request.moved s

/-- **Every request abides by the bindings.** -/
theorem apply_abides (request : ScopeRequest) {s : Memory × Arena} (hs : s.2.Numbered) :
    s.2.Abides (request.moved s) (fun state outer => request = .create state outer)
      (request.apply s).2 := by
  obtain ⟨m, a⟩ := s
  cases request with
  | create state outer => exact Arena.abides_create hs rfl
  | defineVar _ _ _ | defineConst _ _ _ | defineField _ _ _ _ =>
    exact Arena.abides_orKeep hs (Arena.abides_defineField hs) rfl
  | assign _ _ _ => exact Arena.abides_orKeep hs (Arena.abides_assign hs) rfl
  | assignMember _ _ _ => exact Arena.abides_orKeep hs (Arena.abides_assignMember hs) rfl
  | bindSuper _ _ =>
    refine Arena.abides_orKeep hs (fun h => ?_) rfl
    obtain ⟨scope, -, h⟩ := Memory.bind_eq_ok.mp h
    obtain ⟨-, -, h⟩ := Memory.bind_eq_ok.mp h
    exact Arena.abides_defineField hs h
  | attachNamespace _ _ => exact Arena.abides_orKeep hs (Arena.abides_attachNamespace hs) rfl
  | setReturn _ _ | breakLoop _ _ | pauseLoop _ _ | resumeLoop _ | fallthrough _ | yieldValue _ _
  | throwException _ _ =>
    exact Arena.abides_orKeep hs (fun h => (Arena.signals_raise h).abides hs) rfl
  | takeReturn id => exact (a.signals_takeReturn id).abides hs
  | takeException id => exact (a.signals_takeException id).abides hs
  | takeFallthrough _ =>
    refine Arena.abides_orKeep hs (fun h => ?_) rfl
    obtain ⟨flag, h⟩ := Arena.exists_of_map_snd h
    exact (Arena.signals_takeFallthrough h).abides hs
  | takeYield _ =>
    refine Arena.abides_orKeep hs (fun h => ?_) rfl
    obtain ⟨v, h⟩ := Arena.exists_of_map_snd h
    exact (Arena.signals_takeYield h).abides hs
  | suspendControl id => exact Arena.abides_suspendControl hs id
  | restoreControl => exact Arena.abides_restoreControl hs
  | collect extra => exact Arena.abides_sweep hs _
  | compact => exact Arena.abides_mapRefs hs _
  | memory _ => exact .refl hs

theorem run_abides (requests : List ScopeRequest) {s : Memory × Arena} (hs : s.2.Numbered) :
    s.2.Abides (track requests s) (fun state outer => .create state outer ∈ requests)
      (run requests s).2 := by
  induction requests generalizing s with
  | nil => exact .refl hs
  | cons request rest ih =>
    have hfirst := request.apply_abides hs
    refine (hfirst.mono ?_).trans ((ih hfirst.numbered).mono ?_)
    · rintro state outer rfl
      exact List.mem_cons_self
    · intro state outer hmem
      exact List.mem_cons_of_mem _ hmem

end ScopeRequest

/-- **Bindings abide.** Take any run of requests on new scopes beside any memory. A name is in two
tables of a scope only if some scope was made with that name in both, so an instance that is made
with empty tables never has a name twice. And take a scope at one point of the run and the scope
with its serial number at a later one: they are at one index, each name is bound in the table in
which it was, constants are those that were, and a constant that had a value has it still, with the
reference in it as the compactions have moved it. -/
theorem bindings_abide (m : Memory) (before after : List ScopeRequest) :
    let s := ScopeRequest.run before (m, Arena.new)
    let t := ScopeRequest.run after s
    (∀ x scope p q name b c, s.2.get? x = some scope → p ≠ q → scope.binding? p name = some b →
      scope.binding? q name = some c → ∃ state outer, .create state outer ∈ before ∧
        ∃ serial, (Scope.binding? { state, outer, serial } p name).isSome = true ∧
          (Scope.binding? { state, outer, serial } q name).isSome = true) ∧
    ∀ x y scope scope', s.2.get? x = some scope → t.2.get? y = some scope' →
      scope'.serial = scope.serial → y = x ∧ ∀ p name b, scope.binding? p name = some b →
        ∃ b', scope'.binding? p name = some b' ∧ b'.constant = b.constant ∧
          (b.constant = true → b.value ≠ .undefined →
            b'.value = b.value.mapRef (ScopeRequest.track after s)) := by
  intro s t
  have hs := ScopeRequest.run_abides before (s := (m, Arena.new)) Arena.numbered_new
  have ht := ScopeRequest.run_abides after hs.numbered
  refine ⟨fun x scope p q name b c hscope hne hp hq => ?_, fun x y scope scope' hx hy heq => ?_⟩
  · rcases hs.scope hscope with ⟨first, hfirst, hab⟩ | ⟨-, state, outer, serial, f, hborn, hab⟩
    · have hshared := (hab.shared hne (by rw [hp]; rfl) (by rw [hq]; rfl)).1
      rw [(Arena.get?_new hfirst).2] at hshared
      cases p <;> cases hshared
    · obtain ⟨hp', hq'⟩ := hab.shared hne (by rw [hp]; rfl) (by rw [hq]; rfl)
      exact ⟨state, outer, hborn, serial, hp', hq'⟩
  · rcases ht.scope hy with ⟨old, hold, hab⟩ | ⟨hnew, -⟩
    · obtain rfl := hs.numbered.eq_of_serial hold hx (hab.serial.symm.trans heq)
      cases hold.symm.trans hx
      refine ⟨rfl, fun p name b hb => ?_⟩
      obtain ⟨b', hb', habides⟩ := hab.entry hb
      exact ⟨b', hb', habides.constant, habides.value⟩
    · have hlt := hs.numbered.orderly.serial_lt hx
      omega

end ScriptCore
