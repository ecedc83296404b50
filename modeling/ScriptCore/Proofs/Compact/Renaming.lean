import ScriptCore.Collect.Reach
import ScriptCore.ThreadTable

/-!
# Replacing references

Whatever can hold references has a list of the cells it refers to, which the collector follows, and
a way to replace its references, which the compactor uses. The two go together: the cells that a
thing refers to after a replacement are the replaced ones, as long as null stays null
(`Scope.successors_mapRefs`, `ObjectData.references_mapRefs`, `Suspended.values_mapRefs`), and a
replacement is told by what it makes of the references that are listed, and of null
(`Scope.mapRefs_congr`, `ObjectData.mapRefs_congr`). Replacing every reference by itself changes
nothing, and two replacements one after the other come to one.
-/

namespace ScriptCore

/-- Where a cell is when objects have moved; scopes stay where they are. -/
def Cell.map (f : Ref → Ref) : Cell → Cell
  | scope id => scope id
  | object r => object (f r)

/-! ## Replacing references by themselves -/

@[simp] theorem Binding.mapRef_id (b : Binding) : b.mapRef id = b := by
  simp [mapRef]

@[simp] theorem Bindings.mapRefs_id (b : Bindings) : b.mapRefs id = b := by
  simp [mapRefs]

@[simp] theorem Control.mapRefs_id (c : Control) : c.mapRefs id = c := by
  cases c with
  | returning state => simp [mapRefs]
  | looping flags => rfl
  | selecting state => simp [mapRefs]
  | catching exception => simp [mapRefs]

@[simp] theorem ScopeState.mapRefs_id (s : ScopeState) : s.mapRefs id = s := by
  cases s with
  | instance_ fields => simp [mapRefs]
  | method calling ret this => simp [mapRefs]
  | global _ | module _ | function _ _ | block | loop _ _ | select _ | attempt _ | thread _ =>
    simp [mapRefs, control?, setControl]

@[simp] theorem Scope.mapRefs_id (s : Scope) : s.mapRefs id = s := by
  simp [mapRefs]

@[simp] theorem Suspended.mapRefs_id (s : Suspended) : s.mapRefs id = s := by
  simp [mapRefs]

@[simp] theorem ObjectData.mapRefs_id (d : ObjectData) : d.mapRefs id = d := by
  cases d <;> simp [mapRefs]

@[simp] theorem Slot.mapRefs_id (cell : Slot) : cell.mapRefs id = cell := by
  cases cell <;> simp [mapRefs]

@[simp] theorem ThreadRequest.mapRefs_id (r : ThreadRequest) : r.mapRefs id = r := by
  simp [mapRefs]

@[simp] theorem ThreadTable.mapRefs_id (t : ThreadTable) : t.mapRefs id = t := by
  simp [mapRefs]

/-! ## Replacing references one after the other -/

section Twice

variable (f g : Ref → Ref)

theorem Bindings.mapRefs_mapRefs (b : Bindings) :
    (b.mapRefs f).mapRefs g = b.mapRefs (g ∘ f) := by
  simp [mapRefs, Binding.mapRef, Function.comp_def]

@[simp] theorem Control.mapRefs_mapRefs (c : Control) :
    (c.mapRefs f).mapRefs g = c.mapRefs (g ∘ f) := by
  cases c with
  | returning state => simp [mapRefs]
  | looping flags => rfl
  | selecting state => simp [mapRefs, Function.comp_def]
  | catching exception => simp [mapRefs, Function.comp_def]

theorem ScopeState.mapRefs_mapRefs (s : ScopeState) :
    (s.mapRefs f).mapRefs g = s.mapRefs (g ∘ f) := by
  have hcontrol : ∀ c : Control, (c.mapRefs f).mapRefs g = c.mapRefs (g ∘ f) :=
    Control.mapRefs_mapRefs f g
  cases s with
  | instance_ fields => simp [mapRefs, Bindings.mapRefs_mapRefs]
  | method calling ret this => simp [mapRefs]
  | module _ | block | loop _ _ => rfl
  | global e => exact congrArg (setControl · (.global e)) (hcontrol (.catching e))
  | function calling ret =>
    exact congrArg (setControl · (.function calling ret)) (hcontrol (.returning ret))
  | select state => exact congrArg (setControl · (.select state)) (hcontrol (.selecting state))
  | attempt e => exact congrArg (setControl · (.attempt e)) (hcontrol (.catching e))
  | thread e => exact congrArg (setControl · (.thread e)) (hcontrol (.catching e))

theorem Scope.mapRefs_mapRefs (s : Scope) : (s.mapRefs f).mapRefs g = s.mapRefs (g ∘ f) := by
  simp [mapRefs, Bindings.mapRefs_mapRefs, ScopeState.mapRefs_mapRefs]

theorem Suspended.mapRefs_mapRefs (s : Suspended) :
    (s.mapRefs f).mapRefs g = s.mapRefs (g ∘ f) := by
  simp [mapRefs, Function.comp_def]

@[simp] theorem ObjectData.mapRefs_mapRefs (d : ObjectData) :
    (d.mapRefs f).mapRefs g = d.mapRefs (g ∘ f) := by
  cases d <;> simp [mapRefs, Function.comp_def]

@[simp] theorem Slot.mapRefs_mapRefs (cell : Slot) :
    (cell.mapRefs f).mapRefs g = cell.mapRefs (g ∘ f) := by
  cases cell <;> simp [mapRefs]

theorem ThreadRequest.mapRefs_mapRefs (r : ThreadRequest) :
    (r.mapRefs f).mapRefs g = r.mapRefs (g ∘ f) := by
  simp [mapRefs]

theorem ThreadTable.mapRefs_mapRefs (t : ThreadTable) :
    (t.mapRefs f).mapRefs g = t.mapRefs (g ∘ f) := by
  simp [mapRefs, ThreadRequest.mapRefs_mapRefs, Function.comp_def]

end Twice

/-! ## What things refer to when references have been replaced -/

section Replaced

variable (f : Ref → Ref)

theorem Bindings.values_mapRefs (b : Bindings) :
    (b.mapRefs f).values = b.values.map (·.mapRef f) := by
  simp [values, mapRefs, Binding.mapRef, Function.comp_def]

theorem Control.values_mapRefs (c : Control) :
    (c.mapRefs f).values = c.values.map (·.mapRef f) := by
  cases c with
  | returning state => rfl
  | looping flags => rfl
  | selecting state => cases h : state.yielded <;> simp [mapRefs, values, h]
  | catching exception => cases exception <;> rfl

theorem Suspended.values_mapRefs (s : Suspended) :
    (s.mapRefs f).values = s.values.map (·.mapRef f) := by
  simp [values, mapRefs, List.flatMap_map, List.map_flatMap, Control.values_mapRefs]

theorem ThreadTable.values_mapRefs (t : ThreadTable) :
    (t.mapRefs f).values = t.values.map (·.mapRef f) := by
  simp [values, mapRefs, List.flatMap_map, List.map_flatMap, ThreadRequest.values,
    ThreadRequest.mapRefs]

theorem ScopeState.calling?_mapRefs (s : ScopeState) : (s.mapRefs f).calling? = s.calling? := by
  cases s <;> rfl

variable {f} (hf : ∀ r, (f r).isNull = r.isNull)
include hf

theorem Value.mapRef_ofRef (r : Ref) : (Value.ofRef r).mapRef f = Value.ofRef (f r) := by
  unfold ofRef
  rw [hf]
  split <;> rfl

theorem ScopeState.values_mapRefs (s : ScopeState) :
    (s.mapRefs f).values = s.values.map (·.mapRef f) := by
  cases s with
  | instance_ fields => simp [mapRefs, values, Bindings.values_mapRefs]
  | method calling ret this => simp [mapRefs, values, Value.mapRef_ofRef hf]
  | module _ | block => rfl
  | global e => exact Control.values_mapRefs f (.catching e)
  | function calling ret => exact Control.values_mapRefs f (.returning ret)
  | loop title flags => exact Control.values_mapRefs f (.looping flags)
  | select state => exact Control.values_mapRefs f (.selecting state)
  | attempt e => exact Control.values_mapRefs f (.catching e)
  | thread e => exact Control.values_mapRefs f (.catching e)

theorem Scope.values_mapRefs (s : Scope) : (s.mapRefs f).values = s.values.map (·.mapRef f) := by
  simp [values, mapRefs, Bindings.values_mapRefs, ScopeState.values_mapRefs hf]

theorem Value.filterMap_reference?_map (values : List Value) :
    (values.map (·.mapRef f)).filterMap reference? = (values.filterMap reference?).map f := by
  rw [List.filterMap_map, List.map_filterMap]
  exact congrArg (List.filterMap · values) (funext fun v => reference?_mapRef hf v)

theorem Cell.ofValues_map (values : List Value) :
    Cell.ofValues (values.map (·.mapRef f)) = (Cell.ofValues values).map (Cell.map f) := by
  rw [ofValues, Value.filterMap_reference?_map hf, ofValues, List.map_map, List.map_map]
  rfl

/-- The cells that a scope refers to move along with its references. -/
theorem Scope.successors_mapRefs (s : Scope) :
    (s.mapRefs f).successors = s.successors.map (Cell.map f) := by
  have hscopes : ∀ ids, (Cell.ofScopes ids).map (Cell.map f) = Cell.ofScopes ids := fun ids => by
    simp [Cell.ofScopes, Cell.map]
  have hcalling : (s.mapRefs f).state.calling? = s.state.calling? := s.state.calling?_mapRefs f
  rw [successors, successors, values_mapRefs hf, Cell.ofValues_map hf, List.map_append, hscopes,
    hcalling]
  rfl

/-- The references that a header holds are replaced one by one. -/
theorem ObjectData.references_mapRefs (d : ObjectData) :
    (d.mapRefs f).references = d.references.map f := by
  cases d with
  | array length => rfl
  | instanceOf classRef scope => rfl
  | classDef c => cases h : c.superclass <;> simp [mapRefs, references, h]
  | moduleOf name scope => rfl
  | callable c => cases h : c.this <;> simp [mapRefs, references, h]
  | native typeName payload =>
    simp only [mapRefs, references, Value.reference?_mapRef hf]
    cases payload.reference? <;> rfl

end Replaced

/-! ## Which references are replaced -/

section Congr

variable {f g : Ref → Ref}

theorem Value.mapRef_congr (hnull : f .null = g .null) {v : Value}
    (h : ∀ r, v.reference? = some r → f r = g r) : v.mapRef f = v.mapRef g := by
  cases v with
  | ref r =>
    by_cases hr : r.isNull = true
    · obtain rfl := Ref.isNull_iff.mp hr
      rw [mapRef, mapRef, hnull]
    · rw [mapRef, mapRef, h r (by simp [reference?, hr])]
  | _ => rfl

theorem Bindings.mapRefs_congr {b : Bindings} (h : ∀ v ∈ b.values, v.mapRef f = v.mapRef g) :
    b.mapRefs f = b.mapRefs g := by
  refine congrArg Bindings.mk (List.map_congr_left fun e he => ?_)
  have hvalue := h e.2.value (List.mem_map_of_mem he)
  simp only [Binding.mapRef, hvalue]

theorem Control.mapRefs_congr {c : Control} (h : ∀ v ∈ c.values, v.mapRef f = v.mapRef g) :
    c.mapRefs f = c.mapRefs g := by
  cases c with
  | returning state => simp only [mapRefs, h state.value (List.mem_singleton_self _)]
  | looping flags => rfl
  | selecting state =>
    have hyielded : state.yielded.map (·.mapRef f) = state.yielded.map (·.mapRef g) :=
      Option.map_congr fun v hv => h v (Option.mem_toList.mpr hv)
    simp only [mapRefs, hyielded]
  | catching exception =>
    cases exception with
    | none => rfl
    | some pending => simp only [mapRefs, Option.map_some, h pending.value (by simp [values])]

theorem ScopeState.mapRefs_congr (hnull : f .null = g .null) {s : ScopeState}
    (h : ∀ v ∈ s.values, v.mapRef f = v.mapRef g) : s.mapRefs f = s.mapRefs g := by
  cases s with
  | instance_ fields =>
    simp only [values, List.mem_append] at h
    have hgenerics := Bindings.mapRefs_congr fun v hv => h v (.inl (.inl hv))
    have hpriv := Bindings.mapRefs_congr fun v hv => h v (.inl (.inr hv))
    have hprot := Bindings.mapRefs_congr fun v hv => h v (.inr hv)
    simp only [mapRefs, hgenerics, hpriv, hprot]
  | method calling ret this =>
    have hret := h ret.value List.mem_cons_self
    have hthis : f this = g this := by
      have hvalue := h (Value.ofRef this) (List.mem_cons_of_mem _ (List.mem_singleton_self _))
      by_cases hr : this.isNull = true
      · rw [Ref.isNull_iff.mp hr, hnull]
      · simpa [Value.ofRef, hr, Value.mapRef] using hvalue
    simp only [mapRefs, hret, hthis]
  | module _ | block | loop _ _ => rfl
  | global e =>
    exact congrArg (setControl · (.global e)) (Control.mapRefs_congr (c := .catching e) h)
  | function calling ret =>
    exact congrArg (setControl · (.function calling ret))
      (Control.mapRefs_congr (c := .returning ret) h)
  | select state =>
    exact congrArg (setControl · (.select state)) (Control.mapRefs_congr (c := .selecting state) h)
  | attempt e =>
    exact congrArg (setControl · (.attempt e)) (Control.mapRefs_congr (c := .catching e) h)
  | thread e =>
    exact congrArg (setControl · (.thread e)) (Control.mapRefs_congr (c := .catching e) h)

/-- The references of a scope are those of its values, and null. -/
theorem Scope.mapRefs_congr (hnull : f .null = g .null) {s : Scope}
    (h : ∀ v ∈ s.values, v.mapRef f = v.mapRef g) : s.mapRefs f = s.mapRefs g := by
  have hbindings := Bindings.mapRefs_congr fun v hv => h v (List.mem_append_left _ hv)
  have hstate := ScopeState.mapRefs_congr hnull fun v hv => h v (List.mem_append_right _ hv)
  simp only [mapRefs, hbindings, hstate]

theorem Suspended.mapRefs_congr {s : Suspended} (h : ∀ v ∈ s.values, v.mapRef f = v.mapRef g) :
    s.mapRefs f = s.mapRefs g := by
  refine congrArg (Suspended.mk s.owners) (List.map_congr_left fun p hp => ?_)
  exact congrArg (Prod.mk p.1)
    (Control.mapRefs_congr fun v hv => h v (List.mem_flatMap.mpr ⟨p, hp, hv⟩))

theorem ThreadTable.mapRefs_congr {t : ThreadTable}
    (h : ∀ v ∈ t.values, v.mapRef f = v.mapRef g) : t.mapRefs f = t.mapRefs g := by
  have hpending : ∀ p ∈ t.pending, p.2.mapRefs f = p.2.mapRefs g := by
    intro p hp
    have hmem : ∀ v ∈ p.2.values, v.mapRef f = v.mapRef g := fun v hv =>
      h v (List.mem_flatMap.mpr ⟨p, hp, hv⟩)
    have hargs := List.map_congr_left fun v hv => hmem v (List.mem_cons_of_mem _ hv)
    simp only [ThreadRequest.mapRefs, hmem p.2.callee List.mem_cons_self, hargs]
  simp only [mapRefs, List.map_congr_left fun p hp => congrArg (Prod.mk p.1) (hpending p hp)]

/-- The references of a header are those it lists and null. -/
theorem ObjectData.mapRefs_congr {d : ObjectData} (h : ∀ r ∈ d.references, f r = g r)
    (hnull : f .null = g .null) : d.mapRefs f = d.mapRefs g := by
  cases d with
  | array length => rfl
  | instanceOf classRef scope => simp [mapRefs, h classRef (List.mem_singleton_self _)]
  | classDef c =>
    simp only [references, List.mem_append, Option.mem_toList] at h
    have hsuper : c.superclass.map f = c.superclass.map g :=
      Option.map_congr fun r hr => h r (.inl hr)
    have hattributes : c.attributes.map f = c.attributes.map g :=
      List.map_congr_left fun r hr => h r (.inr hr)
    simp only [mapRefs, hsuper, hattributes]
  | moduleOf name scope => rfl
  | callable c =>
    have hthis : c.this.map f = c.this.map g :=
      Option.map_congr fun r hr => h r (Option.mem_toList.mpr hr)
    simp only [mapRefs, hthis]
  | native typeName payload =>
    have hpayload := Value.mapRef_congr hnull fun r hr => h r (Option.mem_toList.mpr hr)
    simp only [mapRefs, hpayload]

end Congr

end ScriptCore
