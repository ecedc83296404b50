import ScriptCore.Proofs.Collect.Sweeping
import ScriptCore.Proofs.Compact.Renaming
import ScriptCore.Proofs.Memory.Runs
import ScriptCore.Proofs.Scope.Nesting

/-!
# What scopes refer to after a change

Every operation on the scopes but the making of a new one changes scopes that are there, and the
cells that a changed scope refers to are those it referred to and those that the operation was
given. `Arena.Edited` says so of two arenas, and the lemmas after it prove it of the operations.

The last part shows that collection and compaction leave an arena in good order.
-/

namespace ScriptCore

/-! ## Tables and control state -/

theorem Cell.mem_ofValues {values : List Value} {c : Cell} :
    c ∈ Cell.ofValues values ↔ ∃ r, c = .object r ∧ ∃ v ∈ values, v.reference? = some r := by
  simp only [ofValues, List.mem_map, List.mem_filterMap]
  grind

theorem Cell.ofValues_subset {values values' : List Value} (h : ∀ v ∈ values, v ∈ values')
    {c : Cell}
    (hc : c ∈ Cell.ofValues values) : c ∈ Cell.ofValues values' := by
  obtain ⟨r, rfl, v, hv, hr⟩ := Cell.mem_ofValues.mp hc
  exact Cell.object_mem_ofValues.mpr ⟨v, h v hv, hr⟩

/-- Values from two lists refer to what the values of one of the lists refer to. -/
theorem Cell.ofValues_or {values values' values'' : List Value}
    (h : ∀ v ∈ values, v ∈ values' ∨ v ∈ values'') {c : Cell} (hc : c ∈ Cell.ofValues values) :
    c ∈ Cell.ofValues values' ∨ c ∈ Cell.ofValues values'' := by
  obtain ⟨r, rfl, v, hv, hr⟩ := Cell.mem_ofValues.mp hc
  rcases h v hv with hv | hv
  · exact .inl (Cell.object_mem_ofValues.mpr ⟨v, hv, hr⟩)
  · exact .inr (Cell.object_mem_ofValues.mpr ⟨v, hv, hr⟩)

namespace Bindings

theorem mem_values_insert {b : Bindings} {name : String} {entry : Binding} {v : Value}
    (h : v ∈ (b.insert name entry).values) : v ∈ b.values ∨ v ∈ [entry.value] := by
  simp only [values, insert, List.map_append, List.mem_append, List.mem_map, List.mem_filter] at h
  rcases h with ⟨e, ⟨he, -⟩, rfl⟩ | ⟨e, he, rfl⟩
  · exact .inl (List.mem_map_of_mem he)
  · obtain rfl := List.mem_singleton.mp he
    exact .inr (List.mem_singleton_self _)

theorem mem_values_assign {b : Bindings} {name : String} {w v : Value}
    (h : v ∈ (b.assign name w).values) : v ∈ b.values ∨ v ∈ [w] := by
  simp only [values, assign, List.map_map, List.mem_map, Function.comp_apply] at h
  obtain ⟨e, he, rfl⟩ := h
  split
  · exact .inr (List.mem_singleton_self _)
  · exact .inl (List.mem_map_of_mem he)

end Bindings

theorem ScopeState.calling?_setControl (s : ScopeState) (k : Control) :
    (s.setControl k).calling? = s.calling? := by
  cases k <;> cases s <;> rfl

theorem ScopeState.mem_values_setControl {s : ScopeState} {k : Control} {v : Value}
    (h : v ∈ (s.setControl k).values) : v ∈ s.values ∨ v ∈ k.values := by
  cases k <;> cases s <;> simp_all [setControl, values, control?, Control.values]
  grind

theorem ScopeState.values_of_control? {s : ScopeState} {c : Control} (hc : s.control? = some c)
    {v : Value} (hv : v ∈ c.values) : v ∈ s.values := by
  cases s <;> cases hc <;> simp_all [values, control?, Control.values]

namespace Scope

variable {s : Scope} {c : Cell}

theorem mem_successors_iff : c ∈ s.successors ↔
    c ∈ Cell.ofScopes (s.outer.toList ++ s.state.calling?.toList ++ s.namespaces) ∨
      c ∈ Cell.ofValues s.values :=
  List.mem_append

theorem mem_successors_of_control? {k : Control} (hk : s.control? = some k)
    (hc : c ∈ Cell.ofValues k.values) : c ∈ s.successors :=
  mem_successors_iff.mpr (.inr (Cell.ofValues_subset
    (fun _ hv => List.mem_append_right _ (ScopeState.values_of_control? hk hv)) hc))

theorem mem_successors_setControl {k : Control} (hc : c ∈ (s.setControl k).successors) :
    c ∈ s.successors ∨ c ∈ Cell.ofValues k.values := by
  rw [mem_successors_iff] at hc
  rcases hc with hc | hc
  · refine .inl (mem_successors_iff.mpr (.inl ?_))
    rwa [setControl, ScopeState.calling?_setControl] at hc
  · refine (Cell.ofValues_or (fun v hv => ?_) hc).imp_left
      fun hc => mem_successors_iff.mpr (.inr hc)
    rcases List.mem_append.mp hv with hv | hv
    · exact .inl (List.mem_append_left _ hv)
    · exact (ScopeState.mem_values_setControl hv).imp_left (List.mem_append_right _)

theorem mem_values_of_table? {partition : Partition} {table : Bindings}
    (ht : s.table? partition = some table) {v : Value} (hv : v ∈ table.values) : v ∈ s.values := by
  obtain ⟨state, outer, bindings, namespaces, serial⟩ := s
  cases partition <;> cases state <;> cases ht <;>
    simp [values, ScopeState.values, hv]

theorem mem_values_setTable {partition : Partition} {table table' : Bindings}
    (ht : s.table? partition = some table) {v : Value}
    (hv : v ∈ (s.setTable partition table').values) : v ∈ s.values ∨ v ∈ table'.values := by
  obtain ⟨state, outer, bindings, namespaces, serial⟩ := s
  cases partition <;> cases state <;> cases ht <;>
    simp_all [values, setTable, ScopeState.values] <;> grind

theorem serial_setTable (s : Scope) (partition : Partition) (table : Bindings) :
    (s.setTable partition table).serial = s.serial := by
  unfold setTable
  split <;> rfl

/-- A scope with another table refers to what it referred to and what the table refers to. -/
theorem mem_successors_setTable {partition : Partition} {table table' : Bindings}
    (ht : s.table? partition = some table) (hc : c ∈ (s.setTable partition table').successors) :
    c ∈ s.successors ∨ c ∈ Cell.ofValues table'.values := by
  rw [mem_successors_iff] at hc
  rcases hc with hc | hc
  · refine .inl (mem_successors_iff.mpr (.inl ?_))
    obtain ⟨state, outer, bindings, namespaces, serial⟩ := s
    cases partition <;> cases state <;> cases ht <;> exact hc
  · exact (Cell.ofValues_or (fun _ hv => mem_values_setTable ht hv) hc).imp_left
      fun hc => mem_successors_iff.mpr (.inr hc)

end Scope

/-! ## Operations on scopes that are there -/

namespace Arena

variable {extra : List Cell} {a a' a'' : Arena} {id : ScopeId}

/-- The arenas have the same scopes, and what a scope refers to in the second one it refers to in
the first one or it is among the cells `extra`. -/
structure Edited (extra : List Cell) (a a' : Arena) : Prop where
  orderly : a.Orderly → a'.Orderly
  contains : ∀ id, a'.contains id = a.contains id
  successors : ∀ {id s'}, a'.get? id = some s' →
    ∃ s, a.get? id = some s ∧ ∀ c ∈ s'.successors, c ∈ s.successors ∨ c ∈ extra
  global : a'.global = a.global
  suspended : a'.suspended = a.suspended

namespace Edited

theorem refl (extra : List Cell) (a : Arena) : Edited extra a a :=
  ⟨fun h => h, fun _ => rfl, fun hs => ⟨_, hs, fun _ hc => .inl hc⟩, rfl, rfl⟩

theorem trans (h : Edited extra a a') (h' : Edited extra a' a'') : Edited extra a a'' where
  orderly ha := h'.orderly (h.orderly ha)
  contains id := (h'.contains id).trans (h.contains id)
  successors hs := by
    obtain ⟨s', hs', hsub'⟩ := h'.successors hs
    obtain ⟨s, hs, hsub⟩ := h.successors hs'
    refine ⟨s, hs, fun c hc => ?_⟩
    rcases hsub' c hc with hc | hc
    · exact hsub c hc
    · exact .inr hc
  global := h'.global.trans h.global
  suspended := h'.suspended.trans h.suspended

end Edited

theorem get_eq_ok {s : Scope} : a.get id = .ok s ↔ a.get? id = some s := by
  unfold get
  split <;> simp_all

/-- A change of one scope. -/
theorem edited_modify {f : Scope → Scope} (hserial : ∀ s, (f s).serial = s.serial)
    (hf : ∀ {s}, a.get? id = some s → ∀ c ∈ (f s).successors, c ∈ s.successors ∨ c ∈ extra) :
    Edited extra a (a.modify id f) where
  orderly h := h.modify id hserial
  contains := a.contains_modify id f
  successors {x s'} hs' := by
    rw [get?_modify] at hs'
    split at hs'
    · subst x
      obtain ⟨s, hs, rfl⟩ := Option.map_eq_some_iff.mp hs'
      exact ⟨s, hs, hf hs⟩
    · exact ⟨s', hs', fun _ hc => .inl hc⟩
  global := rfl
  suspended := rfl

theorem edited_setControl {k : Control}
    (hk : ∀ c ∈ Cell.ofValues k.values, (∃ s, a.get? id = some s ∧ c ∈ s.successors) ∨ c ∈ extra) :
    Edited extra a (a.setControl id k) := by
  refine edited_modify (fun _ => rfl) fun {s} hs c hc => ?_
  rcases Scope.mem_successors_setControl hc with hc | hc
  · exact .inl hc
  · rcases hk c hc with ⟨t, ht, hc⟩ | hc
    · obtain rfl := Option.some.inj (hs.symm.trans ht)
      exact .inl hc
    · exact .inr hc

/-- What control state refers to, its scope refers to. -/
theorem exists_successor_of_control? {k : Control} (hk : a.control? id = some k) {c : Cell}
    (hc : c ∈ Cell.ofValues k.values) : ∃ s, a.get? id = some s ∧ c ∈ s.successors := by
  obtain ⟨s, hs, hk⟩ := Option.bind_eq_some_iff.mp hk
  exact ⟨s, hs, Scope.mem_successors_of_control? hk hc⟩

/-! ### Signals -/

/-- A signal changes the control state of its owner. -/
theorem edited_raise {signal : Signal} {f : Control → Control} (values : List Value)
    (h : a.raise id signal f = .ok a')
    (hf : ∀ k, ∀ v ∈ (f k).values, v ∈ k.values ∨ v ∈ values) :
    Edited (Cell.ofValues values) a a' := by
  obtain ⟨owner, -, h⟩ := Memory.bind_eq_ok.mp h
  cases h
  split
  · rename_i k hk
    refine edited_setControl fun c hc => ?_
    exact (Cell.ofValues_or (hf k) hc).imp_left (exists_successor_of_control? hk)
  · exact .refl _ a

theorem edited_setReturn {v : Value} (h : a.setReturn id v = .ok a') :
    Edited (Cell.ofValues [v]) a a' :=
  edited_raise [v] h fun _ _ hw => .inr hw

theorem mem_values_mapFlags {f : LoopFlags → LoopFlags} {k : Control} {v : Value}
    (h : v ∈ (mapFlags f k).values) : v ∈ k.values := by
  cases k <;> exact h

theorem edited_breakLoop {label : Option String} (h : a.breakLoop id label = .ok a') :
    Edited [] a a' :=
  edited_raise [] h fun _ _ hw => .inl (mem_values_mapFlags hw)

theorem edited_pauseLoop {label : Option String} (h : a.pauseLoop id label = .ok a') :
    Edited [] a a' :=
  edited_raise [] h fun _ _ hw => .inl (mem_values_mapFlags hw)

theorem edited_resumeLoop (h : a.resumeLoop id = .ok a') : Edited [] a a' :=
  edited_raise [] h fun _ _ hw => .inl (mem_values_mapFlags hw)

theorem edited_fallthrough (h : a.fallthrough id = .ok a') : Edited [] a a' := by
  refine edited_raise [] h fun k v hv => .inl ?_
  cases k <;> exact hv

theorem edited_yieldValue {v : Value} (h : a.yieldValue id v = .ok a') :
    Edited (Cell.ofValues [v]) a a' := by
  refine edited_raise [v] h fun k w hw => ?_
  cases k with
  | selecting state => exact .inr hw
  | _ => exact .inl hw

theorem edited_throwException {pending : Pending} (h : a.throwException id pending = .ok a') :
    Edited (Cell.ofValues [pending.value]) a a' :=
  edited_raise [pending.value] h fun _ _ hw => .inr hw

/-- Control state that refers to nothing can be put anywhere. -/
theorem edited_setControl_empty {k : Control} (hk : Cell.ofValues k.values = []) :
    Edited [] a (a.setControl id k) :=
  edited_setControl fun c hc => by rw [hk] at hc; cases hc

theorem edited_takeReturn : Edited [] a (a.takeReturn id).2 := by
  unfold takeReturn
  split
  · exact edited_setControl_empty rfl
  · exact .refl _ a

theorem edited_takeException : Edited [] a (a.takeException id).2 := by
  unfold takeException
  split
  · exact edited_setControl_empty rfl
  · exact .refl _ a

theorem edited_takeFallthrough {flag : Bool} (h : a.takeFallthrough id = .ok (flag, a')) :
    Edited [] a a' := by
  obtain ⟨s, hs, h⟩ := Memory.bind_eq_ok.mp h
  split at h
  · rename_i state hstate
    cases h
    have hcontrol : a.control? id = some (.selecting state) := by
      rw [control?, get_eq_ok.mp hs, Option.bind_some, hstate]
    exact edited_setControl fun c hc => .inl (exists_successor_of_control? hcontrol hc)
  · cases h

theorem edited_takeYield {v : Option Value} (h : a.takeYield id = .ok (v, a')) :
    Edited [] a a' := by
  obtain ⟨s, -, h⟩ := Memory.bind_eq_ok.mp h
  split at h
  · cases h
    exact edited_setControl_empty rfl
  · cases h

/-! ### Names -/

theorem edited_modifyTable {place : Place} {f : Bindings → Bindings} {values : List Value}
    (hf : ∀ table, ∀ v ∈ (f table).values, v ∈ table.values ∨ v ∈ values) :
    Edited (Cell.ofValues values) a (a.modifyTable place f) := by
  refine edited_modify (fun s => ?_) fun {s} _ c hc => ?_
  · split
    · exact s.serial_setTable _ _
    · rfl
  · split at hc
    · rename_i table ht
      rcases Scope.mem_successors_setTable ht hc with hc | hc
      · exact .inl hc
      · refine (Cell.ofValues_or (hf table) hc).imp_left fun hc => ?_
        exact Scope.mem_successors_iff.mpr
          (.inr (Cell.ofValues_subset (fun _ hv => Scope.mem_values_of_table? ht hv) hc))
    · exact .inl hc

theorem edited_assignAt {place : Place} {name : String} {v : Value}
    (h : a.assignAt place name v = .ok a') : Edited (Cell.ofValues [v]) a a' := by
  obtain ⟨entry, -, h⟩ := Memory.bind_eq_ok.mp h
  split at h
  · cases h
  · cases h
    exact edited_modifyTable fun _ _ hw => Bindings.mem_values_assign hw

theorem edited_assign {heap : Heap} {name : String} {v : Value}
    (h : a.assign heap id name v = .ok a') : Edited (Cell.ofValues [v]) a a' := by
  obtain ⟨place, -, h⟩ := Memory.bind_eq_ok.mp h
  cases place with
  | none => cases h
  | some place => exact edited_assignAt h

theorem edited_assignMember {heap : Heap} {r : Ref} {name : String} {v : Value}
    (h : a.assignMember heap r name v = .ok a') : Edited (Cell.ofValues [v]) a a' := by
  obtain ⟨place, -, h⟩ := Memory.bind_eq_ok.mp h
  cases place with
  | none => cases h
  | some place => exact edited_assignAt h

/-- A declaration that succeeds is of a new name and adds an entry to a table. -/
theorem defineField_spec {partition : Partition} {name : String} {entry : Binding}
    (h : a.defineField id partition name entry = .ok a') :
    a.isDeclared id name = .ok false ∧
      a' = a.modifyTable (id, partition) (·.insert name entry) := by
  -- the two ways to the declaration end alike
  have hlast : (do
      if ← a.isDeclared id name then throw (.nameRedefinition name)
      return a.modifyTable (id, partition) (·.insert name entry)) = Except.ok a' →
      a.isDeclared id name = .ok false ∧
        a' = a.modifyTable (id, partition) (·.insert name entry) := by
    intro h
    obtain ⟨declared, hdeclared, h⟩ := Memory.bind_eq_ok.mp h
    split at h
    · cases h
    · cases h
      exact ⟨hdeclared.trans (congrArg Except.ok (Bool.eq_false_iff.mpr ‹_›)), rfl⟩
  unfold defineField at h
  split at h
  · obtain ⟨s, -, h⟩ := Memory.bind_eq_ok.mp h
    split at h
    · cases h
    · exact hlast h
  · exact hlast h

theorem edited_defineField {partition : Partition} {name : String} {entry : Binding}
    (h : a.defineField id partition name entry = .ok a') :
    Edited (Cell.ofValues [entry.value]) a a' := by
  rw [(defineField_spec h).2]
  exact edited_modifyTable fun _ _ hw => Bindings.mem_values_insert hw

/-- A module that is imported is the one thing more that a scope refers to. -/
theorem edited_attachNamespace {target : ScopeId} (h : a.attachNamespace id target = .ok a') :
    Edited [.scope target] a a' := by
  obtain ⟨-, -, h⟩ := Memory.bind_eq_ok.mp h
  obtain ⟨main, -, h⟩ := Memory.bind_eq_ok.mp h
  cases h
  refine edited_modify (fun s => ?_) fun {s} _ c hc => ?_
  · split <;> rfl
  · split at hc
    · exact .inl hc
    · simp only [Scope.mem_successors_iff, Cell.ofScopes, List.map_append, List.mem_append,
        List.map_cons, List.map_nil] at hc ⊢
      rcases hc with ((hc | hc) | hc | hc) | hc
      · exact .inl (.inl (.inl (.inl hc)))
      · exact .inl (.inl (.inl (.inr hc)))
      · exact .inl (.inl (.inr hc))
      · exact .inr hc
      · exact .inl (.inr hc)

/-! ### Control state set aside -/

theorem edited_foldl_setControl {parked : List (ScopeId × Control)}
    (h : ∀ p ∈ parked, ∀ c ∈ Cell.ofValues p.2.values, c ∈ extra) :
    Edited extra a (parked.foldl (fun a p => a.setControl p.1 p.2) a) := by
  induction parked generalizing a with
  | nil => exact .refl _ a
  | cons p rest ih =>
    refine .trans (edited_setControl fun c hc => .inr (h p List.mem_cons_self c hc)) (ih ?_)
    exact fun q hq => h q (List.mem_cons_of_mem p hq)

/-- Setting control state aside takes it from the scopes. -/
theorem edited_suspendControl (a : Arena) (id : ScopeId) : ∃ cleared,
    Edited [] a cleared ∧
      a.suspendControl id = { cleared with
        suspended := ⟨a.controlOwners id, a.pendingAt (a.controlOwners id)⟩ :: a.suspended } := by
  refine ⟨_, ?_, rfl⟩
  have hfold : ∀ parked : List (ScopeId × Control),
      parked.foldl (fun a p => a.setControl p.1 p.2.cleared) a =
        (parked.map fun p => (p.1, p.2.cleared)).foldl (fun a p => a.setControl p.1 p.2) a :=
    fun parked => by rw [List.foldl_map]
  refine (hfold _).symm ▸ edited_foldl_setControl fun p hp c hc => ?_
  obtain ⟨⟨owner, k⟩, -, rfl⟩ := List.mem_map.mp hp
  cases k <;> cases hc

/-- What is set aside is the control state of scopes. -/
theorem exists_successor_of_pendingAt {owners : List ScopeId} {p : ScopeId × Control}
    (hp : p ∈ a.pendingAt owners) {c : Cell} (hc : c ∈ Cell.ofValues p.2.values) :
    ∃ s, a.get? p.1 = some s ∧ c ∈ s.successors := by
  obtain ⟨owner, -, hp⟩ := List.mem_filterMap.mp hp
  obtain ⟨k, hk, rfl⟩ := Option.map_eq_some_iff.mp hp
  exact exists_successor_of_control? (Option.filter_eq_some_iff.mp hk).1 hc

/-- Putting control state back gives it to the scopes. -/
theorem edited_restoreControl {s : Suspended} {rest : List Suspended}
    (h : a.suspended = s :: rest) :
    Edited (Cell.ofValues s.values) { a with suspended := rest } a.restoreControl := by
  unfold restoreControl
  rw [h]
  dsimp only
  split
  · exact .refl _ _
  · refine edited_foldl_setControl fun p hp c hc => Cell.ofValues_subset (fun v hv => ?_) hc
    exact List.mem_flatMap.mpr ⟨p, hp, hv⟩

/-! ## Good order -/

theorem Orderly.mapRefs (h : a.Orderly) (f : Ref → Ref) : (a.mapRefs f).Orderly where
  vacant_nodup := h.vacant_nodup
  vacant_free i hi := by
    obtain ⟨hlt, hnone⟩ := h.vacant_free i hi
    refine ⟨by simpa [Arena.mapRefs] using hlt, ?_⟩
    rw [get?_mapRefs, hnone]
    rfl
  serial_lt hs := by
    rw [get?_mapRefs] at hs
    obtain ⟨s, hget, rfl⟩ := Option.map_eq_some_iff.mp hs
    have hlt : s.serial < a.nextSerial := h.serial_lt hget
    exact hlt

theorem Orderly.release (h : a.Orderly) (id : ScopeId) : (a.release id).Orderly := by
  by_cases hlive : a.contains id = true
  · obtain ⟨s, hs⟩ := Option.isSome_iff_exists.mp hlive
    have hsize : id.index < a.scopes.size := by
      apply Nat.lt_of_not_le
      intro hle
      rw [show id = ⟨id.index⟩ from rfl, get?_eq_none_of_size_le hle] at hs
      cases hs
    have hvacant : (a.release id).vacant = id.index :: a.vacant := by
      rw [Arena.release, if_pos hlive]
    have hscopes : (a.release id).scopes.size = a.scopes.size := by
      rw [Arena.release, if_pos hlive, Array.size_setIfInBounds]
    refine ⟨?_, fun i hi => ?_, fun {x t} ht => ?_⟩
    · rw [hvacant, List.nodup_cons]
      refine ⟨fun hmem => ?_, h.vacant_nodup⟩
      rw [show id = ⟨id.index⟩ from rfl, (h.vacant_free _ hmem).2] at hs
      cases hs
    · rw [hvacant, List.mem_cons] at hi
      rw [hscopes, get?_release]
      rcases hi with rfl | hi
      · exact ⟨hsize, if_pos rfl⟩
      · obtain ⟨hlt, hnone⟩ := h.vacant_free i hi
        refine ⟨hlt, ?_⟩
        rw [hnone]
        split <;> rfl
    · rw [get?_release] at ht
      split at ht
      · cases ht
      · rw [nextSerial_release]
        exact h.serial_lt ht
  · rw [Arena.release, if_neg hlive]
    exact h

theorem Orderly.sweep (h : a.Orderly) (u : Unreached) : (a.sweep u).Orderly := by
  unfold Arena.sweep
  generalize a.ids.filter _ = dead
  induction dead generalizing a with
  | nil => exact h
  | cons id rest ih => exact ih (h.release id)

end Arena

end ScriptCore
