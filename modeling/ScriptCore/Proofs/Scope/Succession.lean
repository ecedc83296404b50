import ScriptCore.Proofs.Scope.Holdings
import ScriptCore.Proofs.Scope.Mirrors

/-!
# Arenas in the course of time

An arena is told from an earlier one by serial numbers: a scope that is still there has the serial
number it had, at the same index, and every scope made since has a higher one. `Arena.Ages` says
that an arena follows another one. Of the control state it says as much as is wanted: scopes that
were made before the serial number `floor` keep it, those that catch exceptions only if `exceptions`
says so. References in it are replaced by `f`, which stands for the compactions on the way.

Below are the steps that all operations on scopes are made of: scopes are changed
(`Arena.ages_modify`), made (`Arena.ages_create`), and have their references replaced
(`Arena.ages_mapRefs`). `Arena.ages_collect` is about a collection, which keeps a scope around each
scope that it keeps.
-/

namespace ScriptCore

/-! ## The same scope at two times -/

/-- The scope has the serial number, the kind and the links that it had. -/
structure Scope.Kin (s s' : Scope) : Prop where
  serial : s'.serial = s.serial
  outer : s'.outer = s.outer
  kind : s'.kind = s.kind
  route : ∀ signal, s'.route signal = s.route signal

namespace Scope.Kin

theorem refl (s : Scope) : s.Kin s := ⟨rfl, rfl, rfl, fun _ => rfl⟩

theorem trans {s s' s'' : Scope} (h : s.Kin s') (h' : s'.Kin s'') : s.Kin s'' :=
  ⟨h'.serial.trans h.serial, h'.outer.trans h.outer, h'.kind.trans h.kind,
    fun signal => (h'.route signal).trans (h.route signal)⟩

theorem isMain {s s' : Scope} (h : s.Kin s') : s'.isMain = s.isMain := by
  rw [Scope.isMain, h.kind, Scope.isMain]

end Scope.Kin

namespace Scope

theorem kin_setControl (s : Scope) (c : Control) : s.Kin (s.setControl c) :=
  ⟨rfl, rfl, ScopeState.kind_setControl c s.state, (s.alike_setControl [] c).route⟩

theorem kind_mapRefs (f : Ref → Ref) (s : Scope) : (s.mapRefs f).kind = s.kind := by
  obtain ⟨state, outer, bindings, namespaces, serial⟩ := s
  cases state with
  | loop title flags => cases title <;> rfl
  | _ => rfl

theorem kin_mapRefs (f : Ref → Ref) (s : Scope) : s.Kin (s.mapRefs f) :=
  ⟨rfl, rfl, s.kind_mapRefs f, s.route_mapRefs f⟩

/-- A table can be replaced without a change of links and control state. -/
theorem kin_setTable (s : Scope) (partition : Partition) (table : Bindings) :
    s.Kin (s.setTable partition table) ∧ (s.setTable partition table).control? = s.control? := by
  obtain ⟨state, outer, bindings, namespaces, serial⟩ := s
  cases partition <;> cases state <;> exact ⟨⟨rfl, rfl, rfl, fun _ => rfl⟩, rfl⟩

/-- The scope takes exceptions. -/
def catches (s : Scope) : Prop := s.route .throwing = .owns

/-- The scope was made before the serial number `floor` and does not take exceptions, unless these
count too: its control state is to be kept. -/
def Spared (floor : Nat) (exceptions : Bool) (s : Scope) : Prop :=
  s.serial < floor ∧ (exceptions = true ∨ ¬ s.catches)

theorem Kin.spared {s s' : Scope} {floor : Nat} {exceptions : Bool} (h : s.Kin s')
    (hs : s.Spared floor exceptions) : s'.Spared floor exceptions := by
  unfold Spared catches
  rw [h.serial, h.route]
  exact hs

end Scope

namespace Arena

variable {floor : Nat} {exceptions : Bool} {f g : Ref → Ref} {a a' a'' : Arena} {x : ScopeId}

/-! ## The relation -/

/-- The arena `a'` is a later one than `a`. -/
structure Ages (floor : Nat) (exceptions : Bool) (f : Ref → Ref) (a a' : Arena) : Prop where
  nextSerial_le : a.nextSerial ≤ a'.nextSerial
  global : a'.global = a.global
  orderly : a'.Orderly
  /-- A scope is new or was there before, and has its control state if that is to be kept. -/
  scope : ∀ {id s'}, a'.get? id = some s' → a.nextSerial ≤ s'.serial ∨
    ∃ s, a.get? id = some s ∧ s.Kin s' ∧
      (s.Spared floor exceptions → s'.control? = s.control?.map (·.mapRefs f))
  /-- With a scope that is still there the scope around it is there. -/
  outer : ∀ {id s' o t}, a'.get? id = some s' → s'.serial < a.nextSerial → s'.outer = some o →
    a.get? o = some t → ∃ t', a'.get? o = some t' ∧ t.Kin t'
  /-- The outermost scope is always there. -/
  outermost : ∀ {s}, a.get? a.global = some s → ∃ s', a'.get? a.global = some s' ∧ s.Kin s'

namespace Ages

/-- A scope that was made before the other arena was there already. -/
theorem before (h : Ages floor exceptions f a a') {s' : Scope} (hs' : a'.get? x = some s')
    (hlt : s'.serial < a.nextSerial) : ∃ s, a.get? x = some s ∧ s.Kin s' ∧
      (s.Spared floor exceptions → s'.control? = s.control?.map (·.mapRefs f)) :=
  (h.scope hs').resolve_left (by omega)

theorem trans (h : Ages floor exceptions f a a') (h' : Ages floor exceptions g a' a'') :
    Ages floor exceptions (g ∘ f) a a'' where
  nextSerial_le := Nat.le_trans h.nextSerial_le h'.nextSerial_le
  global := h'.global.trans h.global
  orderly := h'.orderly
  scope {id s''} hs'' := by
    rcases h'.scope hs'' with hnew | ⟨s', hs', hkin', hcontrol'⟩
    · exact .inl (Nat.le_trans h.nextSerial_le hnew)
    · rcases h.scope hs' with hnew | ⟨s, hs, hkin, hcontrol⟩
      · exact .inl (hkin'.serial ▸ hnew)
      · refine .inr ⟨s, hs, hkin.trans hkin', fun hspared => ?_⟩
        rw [hcontrol' (hkin.spared hspared), hcontrol hspared, Option.map_map]
        exact congrArg (Option.map · s.control?) (funext fun c => c.mapRefs_mapRefs f g)
  outer {id s'' o t} hs'' hlt ho ht := by
    obtain ⟨s', hs', hkin', -⟩ := h'.before hs'' (Nat.lt_of_lt_of_le hlt h.nextSerial_le)
    obtain ⟨t', ht', hkin⟩ := h.outer hs' (hkin'.serial ▸ hlt) (hkin'.outer ▸ ho) ht
    obtain ⟨t'', ht'', hkin''⟩ :=
      h'.outer hs'' (Nat.lt_of_lt_of_le hlt h.nextSerial_le) ho ht'
    exact ⟨t'', ht'', hkin.trans hkin''⟩
  outermost hs := by
    obtain ⟨s', hs', hkin⟩ := h.outermost hs
    obtain ⟨s'', hs'', hkin'⟩ := h'.outermost (h.global.symm ▸ hs')
    exact ⟨s'', h.global ▸ hs'', hkin.trans hkin'⟩

end Ages

/-! ## Changing scopes that are there -/

/-- An arena with the scopes of another one, each of them changed at most by `f` where its control
state is to be kept. -/
theorem ages_of_forall (ha : a'.Orderly) (hserial : a'.nextSerial = a.nextSerial)
    (hglobal : a'.global = a.global)
    (hget : ∀ id, (a'.get? id = none ∧ a.get? id = none) ∨
      ∃ s s', a.get? id = some s ∧ a'.get? id = some s' ∧ s.Kin s' ∧
        (s.Spared floor exceptions → s'.control? = s.control?.map (·.mapRefs f))) :
    Ages floor exceptions f a a' := by
  have hkept : ∀ {id s}, a.get? id = some s → ∃ s', a'.get? id = some s' ∧ s.Kin s' := by
    intro id s hs
    rcases hget id with ⟨-, hnone⟩ | ⟨t, s', ht, hs', hkin, -⟩
    · cases hnone.symm.trans hs
    · obtain rfl := Option.some.inj (ht.symm.trans hs)
      exact ⟨s', hs', hkin⟩
  refine ⟨hserial.ge, hglobal, ha, fun {id s'} hs' => .inr ?_, fun _ _ _ ht => hkept ht,
    fun hs => hkept hs⟩
  rcases hget id with ⟨hnone, -⟩ | ⟨s, t', hs, ht', hkin, hcontrol⟩
  · cases hnone.symm.trans hs'
  · obtain rfl := Option.some.inj (ht'.symm.trans hs')
    exact ⟨s, hs, hkin, hcontrol⟩

/-- The control state of a scope that has not been touched. -/
theorem map_mapRefs_id (o : Option Control) : o.map (·.mapRefs id) = o := by
  cases o <;> simp

theorem Ages.refl (ha : a.Orderly) : Ages floor exceptions id a a := by
  refine ages_of_forall ha rfl rfl fun x => ?_
  cases hs : a.get? x with
  | none => exact .inl ⟨rfl, rfl⟩
  | some s => exact .inr ⟨s, s, rfl, rfl, .refl s, fun _ => (map_mapRefs_id _).symm⟩

/-- One scope has been changed, and its control state only if it need not be kept. -/
theorem ages_modify (ha : a.Orderly) {h : Scope → Scope} (hkin : ∀ s : Scope, s.Kin (h s))
    (hcontrol : ∀ {s}, a.get? x = some s → s.Spared floor exceptions →
      (h s).control? = s.control?) : Ages floor exceptions id a (a.modify x h) := by
  refine ages_of_forall (ha.modify x fun s => (hkin s).serial) rfl rfl fun y => ?_
  rw [get?_modify]
  by_cases hy : y = x
  · subst hy
    rw [if_pos rfl]
    cases hs : a.get? y with
    | none => exact .inl ⟨rfl, rfl⟩
    | some s =>
      refine .inr ⟨s, h s, rfl, rfl, hkin s, fun hspared => ?_⟩
      rw [map_mapRefs_id]
      exact hcontrol hs hspared
  · rw [if_neg hy]
    cases hs : a.get? y with
    | none => exact .inl ⟨rfl, rfl⟩
    | some s => exact .inr ⟨s, s, rfl, rfl, .refl s, fun _ => (map_mapRefs_id _).symm⟩

/-- All scopes are still there. -/
def Stays (a a' : Arena) : Prop :=
  ∀ ⦃x s⦄, a.get? x = some s → ∃ s', a'.get? x = some s' ∧ s.Kin s'

theorem Stays.refl (a : Arena) : Stays a a := fun _ s hs => ⟨s, hs, .refl s⟩

theorem Stays.trans (h : Stays a a') (h' : Stays a' a'') : Stays a a'' := by
  intro x s hs
  obtain ⟨s', hs', hkin⟩ := h hs
  obtain ⟨s'', hs'', hkin'⟩ := h' hs'
  exact ⟨s'', hs'', hkin.trans hkin'⟩

theorem stays_modify (a : Arena) (x : ScopeId) {h : Scope → Scope}
    (hkin : ∀ s : Scope, s.Kin (h s)) : Stays a (a.modify x h) := by
  intro y s hs
  rw [get?_modify]
  split
  · subst y
    rw [hs]
    exact ⟨h s, rfl, hkin s⟩
  · exact ⟨s, hs, .refl s⟩

/-- Names have been bound or assigned, or a module has been imported, in one scope. -/
def Rebound (a a' : Arena) : Prop :=
  ∃ x, ∃ h : Scope → Scope, (∀ s, s.Kin (h s) ∧ (h s).control? = s.control?) ∧ a' = a.modify x h

theorem Rebound.ages (h : Rebound a a') (ha : a.Orderly) : Ages floor exceptions id a a' := by
  obtain ⟨x, h, hh, rfl⟩ := h
  exact ages_modify ha (fun s => (hh s).1) fun _ _ => (hh _).2

theorem Rebound.stays (h : Rebound a a') : Stays a a' := by
  obtain ⟨x, h, hh, rfl⟩ := h
  exact a.stays_modify x fun s => (hh s).1

theorem Rebound.frame (h : Rebound a a') :
    a'.suspended = a.suspended ∧ a'.nextSerial = a.nextSerial := by
  obtain ⟨x, h, -, rfl⟩ := h
  exact ⟨rfl, rfl⟩

theorem rebound_modifyTable (a : Arena) (place : Place) (f : Bindings → Bindings) :
    Rebound a (a.modifyTable place f) := by
  refine ⟨place.1, _, fun s => ?_, rfl⟩
  split
  · exact s.kin_setTable _ _
  · exact ⟨.refl s, rfl⟩

theorem rebound_assignAt {place : Place} {name : String} {v : Value}
    (h : a.assignAt place name v = .ok a') : Rebound a a' := by
  obtain ⟨entry, -, h⟩ := Memory.bind_eq_ok.mp h
  split at h
  · cases h
  · cases h
    exact a.rebound_modifyTable place _

theorem rebound_assign {heap : Heap} {name : String} {v : Value}
    (h : a.assign heap x name v = .ok a') : Rebound a a' := by
  obtain ⟨place, -, h⟩ := Memory.bind_eq_ok.mp h
  cases place with
  | none => cases h
  | some place => exact rebound_assignAt h

theorem rebound_assignMember {heap : Heap} {r : Ref} {name : String} {v : Value}
    (h : a.assignMember heap r name v = .ok a') : Rebound a a' := by
  obtain ⟨place, -, h⟩ := Memory.bind_eq_ok.mp h
  cases place with
  | none => cases h
  | some place => exact rebound_assignAt h

theorem rebound_defineField {partition : Partition} {name : String} {entry : Binding}
    (h : a.defineField x partition name entry = .ok a') : Rebound a a' := by
  rw [(defineField_spec h).2]
  exact a.rebound_modifyTable _ _

theorem rebound_attachNamespace {target : ScopeId} (h : a.attachNamespace x target = .ok a') :
    Rebound a a' := by
  obtain ⟨-, -, h⟩ := Memory.bind_eq_ok.mp h
  obtain ⟨main, -, h⟩ := Memory.bind_eq_ok.mp h
  cases h
  refine ⟨main, _, fun s => ?_, rfl⟩
  split
  · exact ⟨.refl s, rfl⟩
  · exact ⟨⟨rfl, rfl, rfl, fun _ => rfl⟩, rfl⟩

/-! ## Making scopes -/

theorem nextSerial_create (a : Arena) (state : ScopeState) (outer : Option ScopeId) :
    (a.create state outer).2.nextSerial = a.nextSerial + 1 := by
  unfold create
  cases a.vacant <;> rfl

theorem frame_create (a : Arena) (state : ScopeState) (outer : Option ScopeId) :
    (a.create state outer).2.global = a.global ∧
      (a.create state outer).2.suspended = a.suspended := by
  unfold create
  cases a.vacant <;> exact ⟨rfl, rfl⟩

/-- A scope that was there is there after another one has been made. -/
theorem Orderly.get?_create_of_get? (ha : a.Orderly) (state : ScopeState) (outer : Option ScopeId)
    {s : Scope} (hs : a.get? x = some s) : (a.create state outer).2.get? x = some s := by
  refine (get?_create_of_ne ?_).trans hs
  rintro rfl
  rw [(ha.get?_create state outer).1] at hs
  cases hs

/-- The scopes after one has been made: the new one and those that were there. -/
theorem Orderly.eq_of_get?_create (ha : a.Orderly) {state : ScopeState} {outer : Option ScopeId}
    {s : Scope} (hs : (a.create state outer).2.get? x = some s) :
    (x = (a.create state outer).1 ∧ s = { state, outer, serial := a.nextSerial }) ∨
      a.get? x = some s := by
  by_cases hx : x = (a.create state outer).1
  · subst hx
    exact .inl ⟨rfl, Option.some.inj (hs.symm.trans (ha.get?_create state outer).2)⟩
  · exact .inr ((get?_create_of_ne hx).symm.trans hs)

theorem Orderly.stays_create (ha : a.Orderly) (state : ScopeState) (outer : Option ScopeId) :
    Stays a (a.create state outer).2 :=
  fun _ s hs => ⟨s, ha.get?_create_of_get? state outer hs, .refl s⟩

theorem ages_create (ha : a.Orderly) (state : ScopeState) (outer : Option ScopeId) :
    Ages floor exceptions id a (a.create state outer).2 := by
  have hstays := ha.stays_create state outer
  refine ⟨?_, (a.frame_create state outer).1, ha.create state outer, fun {x s} hs => ?_,
    fun _ _ _ ht => hstays ht, fun hs => hstays hs⟩
  · rw [nextSerial_create]
    exact Nat.le_succ _
  · rcases ha.eq_of_get?_create hs with ⟨-, rfl⟩ | hs
    · exact .inl (Nat.le_refl _)
    · exact .inr ⟨s, hs, .refl s, fun _ => (map_mapRefs_id _).symm⟩

/-! ## Compactions and collections -/

theorem stays_mapRefs (a : Arena) (f : Ref → Ref) : Stays a (a.mapRefs f) := by
  intro x s hs
  rw [get?_mapRefs, hs]
  exact ⟨_, rfl, s.kin_mapRefs f⟩

theorem ages_mapRefs (ha : a.Orderly) (f : Ref → Ref) :
    Ages floor exceptions f a (a.mapRefs f) := by
  refine ages_of_forall (ha.mapRefs f) rfl rfl fun x => ?_
  rw [get?_mapRefs]
  cases hs : a.get? x with
  | none => exact .inl ⟨rfl, rfl⟩
  | some s => exact .inr ⟨s, _, rfl, rfl, s.kin_mapRefs f, fun _ => s.control?_mapRefs f⟩

/-- A collection keeps the scope around each scope that it keeps. -/
theorem ages_collect {m : Memory} (hw : m.heap.WellFormed) (ha : a.Orderly) (extra : RootSet) :
    Ages floor exceptions id a (collect m a extra).2.2 := by
  obtain ⟨hglobal, hserial, -⟩ := a.frame_sweep (garbage m a extra)
  refine ⟨hserial.ge, hglobal, ha.sweep _, fun {x s} hs => ?_, fun {x s o t} hs _ ho ht => ?_,
    fun {s} hs => ?_⟩
  · obtain ⟨hs, -⟩ := (get?_collect a extra hw).mp hs
    exact .inr ⟨s, hs, .refl s, fun _ => (map_mapRefs_id _).symm⟩
  · obtain ⟨hs, hreach⟩ := (get?_collect a extra hw).mp hs
    have hlive : Cell.Live m.heap a (.scope o) := Option.isSome_iff_exists.mpr ⟨t, ht⟩
    have hreach' := hreach.step (.outer hs ho) hlive
    exact ⟨t, (get?_collect a extra hw).mpr ⟨ht, hreach'⟩, .refl t⟩
  · have hlive : Cell.Live m.heap a (.scope a.global) := Option.isSome_iff_exists.mpr ⟨s, hs⟩
    exact ⟨s, (get?_collect a extra hw).mpr ⟨hs, .root .global hlive⟩, .refl s⟩

end Arena

end ScriptCore
