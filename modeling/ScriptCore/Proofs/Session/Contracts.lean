import ScriptCore.Proofs.Session.Links
import ScriptCore.Session.Statements

/-!
# What actions do to linked sessions

`Run.Links` is the contract of an action: on a linked session in which the `given` cells are valid
it leaves a linked session however it ends, and if it ends with a value then the cells that the
value stands for are valid. Actions are put together with `Run.Links.bind`.

There is a contract for each action of a session that takes or stores references and scopes. Those
that allocate (`Session.links_newArray`, `Session.links_newObject`) may collect and compact on the
way; what they were given is valid where it is afterwards because it was guarded.
-/

namespace ScriptCore

open Session

/-! ## The contract of an action -/

namespace Run

variable {α β : Type} {given given' : List Cell} {x : Run α} {left left' : α → List Cell}

/-- On a linked session with the cells `given`, the action leaves a linked session, with the cells
`left` if it ends with a value. -/
def Links (given : List Cell) (x : Run α) (left : α → List Cell) : Prop :=
  ∀ S : Session, S.Linked → (∀ c ∈ given, S.Valid c) →
    (x.exec S).2.Linked ∧ ∀ a, (x.exec S).1 = .ok a → ∀ c ∈ left a, (x.exec S).2.Valid c

theorem links_pure {a : α} (h : ∀ c ∈ left a, c ∈ given) : Links given (pure a) left :=
  fun _ hS hgiven => ⟨hS, fun _ ha c hc => by cases ha; exact hgiven c (h c hc)⟩

namespace Links

theorem bind {f : α → Run β} {right : β → List Cell} (hx : Links given x left)
    (hf : ∀ a, Links (left a) (f a) right) : Links given (x >>= f) right := by
  intro S hS hgiven
  obtain ⟨hlinked, hvalid⟩ := hx S hS hgiven
  rcases hexec : x.exec S with ⟨stop | a, T⟩
  · rw [exec_bind_error hexec]
    rw [hexec] at hlinked
    exact ⟨hlinked, fun _ h => nomatch h⟩
  · rw [exec_bind_ok hexec]
    rw [hexec] at hlinked hvalid
    exact hf a T hlinked (hvalid a rfl)

theorem mono (hx : Links given x left) (hgiven : ∀ c ∈ given, c ∈ given')
    (hleft : ∀ a, ∀ c ∈ left' a, c ∈ left a) : Links given' x left' := by
  intro S hS hvalid
  obtain ⟨hlinked, hright⟩ := hx S hS fun c hc => hvalid c (hgiven c hc)
  exact ⟨hlinked, fun a ha c hc => hright a ha c (hleft a c hc)⟩

/-- The value of an action need not be used. -/
theorem discard (hx : Links given x left) :
    Links given (do let _ ← x) (fun _ : Unit => []) :=
  hx.bind fun _ => links_pure fun _ hc => nomatch hc

end Links

theorem links_fail (fault : Fault) : Links given (fail fault : Run α) left :=
  fun _ hS _ => ⟨hS, fun _ h => nomatch h⟩

/-- An action may look at the session, if it does not matter what it sees. -/
theorem links_get_bind {f : Session → Run α} (hf : ∀ S, Links given (f S) left) :
    Links given (get >>= f) left :=
  fun S hS hgiven => hf S S hS hgiven

theorem links_ofExcept_bind {y : Except Fault β} {f : β → Run α}
    (hf : ∀ b, y = .ok b → Links given (f b) left) : Links given (ofExcept y >>= f) left := by
  cases y with
  | error fault => exact fun _ hS _ => ⟨hS, fun _ h => nomatch h⟩
  | ok b => exact fun S hS hgiven => hf b rfl S hS hgiven

/-- A change that takes nothing away. -/
theorem links_modify {f : Session → Session}
    (hf : ∀ {S : Session}, S.Linked → (∀ c ∈ given, S.Valid c) → S.Grows (f S)) :
    Links given (modify f) fun _ => given :=
  fun _ hS hgiven =>
    ⟨(hf hS hgiven).linked, fun _ _ c hc => (hf hS hgiven).valid (hgiven c hc)⟩

theorem links_report (e : Event) : Links given (report e) fun _ => given :=
  links_modify fun hS _ => hS.report e

theorem links_modifyScopes {f : Arena → Except Fault Arena}
    (hf : ∀ {S : Session} {a : Arena}, S.Linked → (∀ c ∈ given, S.Valid c) → f S.arena = .ok a →
      S.Grows { S with arena := a }) : Links given (modifyScopes f) fun _ => given := by
  intro S hS hgiven
  cases ha : f S.arena with
  | error fault =>
    rw [exec_modifyScopes_error ha]
    exact ⟨hS, fun _ h => nomatch h⟩
  | ok a =>
    rw [exec_modifyScopes ha]
    have hgrows := hf hS hgiven ha
    exact ⟨hgrows.linked, fun _ _ c hc => hgrows.valid (hgiven c hc)⟩

/-- Scopes are changed, and what they refer to more is given. -/
theorem links_edit {f : Arena → Except Fault Arena} {extra : List Cell}
    (hf : ∀ {a a' : Arena}, f a = .ok a' → a.Edited extra a') (hextra : ∀ c ∈ extra, c ∈ given) :
    Links given (modifyScopes f) fun _ => given :=
  links_modifyScopes fun hS hgiven ha => hS.edit (hf ha) fun c hc => hgiven c (hextra c hc)

theorem links_takeScopes {f : Arena → α × Arena} (hf : ∀ {a : Arena}, a.Edited [] (f a).2) :
    Links given (takeScopes f) fun _ => given := by
  intro S hS hgiven
  have hgrows := hS.edit (hf (a := S.arena)) fun c hc => nomatch hc
  exact ⟨hgrows.linked, fun _ _ c hc => hgrows.valid (hgiven c hc)⟩

theorem links_modifyMemory {f : Memory → Except Fault Memory}
    (hf : ∀ {S : Session} {m : Memory}, S.Linked → (∀ c ∈ given, S.Valid c) → f S.memory = .ok m →
      S.Grows { S with memory := m }) : Links given (modifyMemory f) fun _ => given := by
  intro S hS hgiven
  cases hm : f S.memory with
  | error fault =>
    rw [exec_modifyMemory_error hm]
    exact ⟨hS, fun _ h => nomatch h⟩
  | ok m =>
    rw [exec_modifyMemory hm]
    have hgrows := hf hS hgiven hm
    exact ⟨hgrows.linked, fun _ _ c hc => hgrows.valid (hgiven c hc)⟩

end Run

namespace Session

open Run

/-! ## Allocation -/

variable {S T : Session}

theorem Linked.attempt (h : S.Linked) {n : Nat} (hT : S.Attempt n T) : T.Linked := by
  have hswept : (S.swept n).Linked := (h.report _).linked.collected none
  cases hT with
  | first => exact h
  | swept => exact hswept
  | tidied =>
    unfold Session.tidied
    split
    · exact hswept.slid
    · exact hswept

theorem links_allocate (size : Nat) : Links [] (allocate size) fun r => [.object r] := by
  intro S hS _
  rcases allocate_cases hS.wellFormed size with ⟨T, r, m, hT, htaken, hexec⟩ | ⟨-, hexec⟩
  · obtain ⟨heap, hres, rfl⟩ := Memory.tryAllocate_eq_some.mp htaken
    obtain ⟨hgrows, hvalid⟩ := (hS.attempt hT).reserve hres
    rw [hexec]
    refine ⟨hgrows.linked, fun _ ha c hc => ?_⟩
    cases ha
    obtain rfl := List.mem_singleton.mp hc
    exact hvalid
  · rw [hexec]
    exact ⟨hS.attempt .tidied, fun _ h => nomatch h⟩

theorem links_collectFrom (extra : Option ScopeId) : Links [] (collectFrom extra) fun _ => [] := by
  intro S hS _
  rw [exec_collectFrom hS.wellFormed]
  exact ⟨hS.collected extra, fun _ _ _ hc => nomatch hc⟩

theorem links_collectAndSlide : Links [] collectAndSlide fun _ => [] := by
  refine (links_collectFrom none).bind fun _ => ?_
  intro S hS _
  rw [exec_slide hS.wellFormed]
  exact ⟨hS.slid, fun _ _ _ hc => nomatch hc⟩

theorem entered_allocate (hw : S.memory.heap.WellFormed) (size : Nat) :
    ((allocate size).exec S).2.entered = S.entered := by
  obtain ⟨f, T, hcarried, -, ⟨r, hexec, -⟩ | ⟨available, hexec⟩⟩ := allocate_spec hw size
  all_goals
    rw [hexec]
    exact hcarried.entered

/-- Values and a scope that are there can be held. -/
theorem Linked.guarding (h : S.Linked) {values : List Value} {scope : Option ScopeId}
    (hvalues : ∀ c ∈ Cell.ofValues values, S.Valid c)
    (hscope : ∀ c ∈ Cell.ofScopes scope.toList, S.Valid c) : S.Grows (S.guarding values scope) := by
  refine h.outside rfl rfl rfl (fun id hid => ?_) (fun v hv => ?_) (fun _ hr => .inl hr)
    fun _ hr => .inl hr
  · simp only [Session.guarding, List.mem_append] at hid ⊢
    rcases hid with hid | hid | hid
    · exact .inl (.inl hid)
    · exact .inr (hscope _ (Cell.scope_mem_ofScopes.mpr hid))
    · exact .inl (.inr hid)
  · refine (List.mem_append.mp hv).imp_right fun hv c hc => hvalues c ?_
    refine Cell.ofValues_subset (fun w hw => ?_) hc
    exact List.mem_singleton.mp hw ▸ hv

/-- Once the guards are released, what is left was held before. -/
theorem Linked.released (h : T.Linked) (hentered : ∀ id ∈ S.entered, id ∈ T.entered) :
    T.Grows (S.released T) :=
  h.outside rfl rfl rfl
    (fun _ hid => .inl (List.mem_append.mpr ((List.mem_append.mp hid).imp_right (hentered _))))
    (fun _ hv => .inl (List.mem_of_mem_take hv)) (fun _ hr => .inl hr) fun _ hr => .inl hr

theorem links_allocateHolding (size : Nat) (values : List Value) (scope : Option ScopeId) :
    Links (Cell.ofValues values ++ Cell.ofScopes scope.toList) (allocateHolding size values scope)
      fun result =>
        .object result.1 :: Cell.ofValues result.2 ++ Cell.ofScopes scope.toList := by
  intro S hS hgiven
  have hG := hS.guarding (fun c hc => hgiven c (List.mem_append_left _ hc))
    fun c hc => hgiven c (List.mem_append_right _ hc)
  obtain ⟨hlinked, hvalid⟩ := links_allocate size _ hG.linked fun c hc => nomatch hc
  have hentered := entered_allocate hG.linked.wellFormed size
  rcases hexec : (allocate size).exec (S.guarding values scope) with ⟨outcome, T⟩
  rw [hexec] at hlinked hvalid hentered
  dsimp only at hlinked hvalid hentered
  rw [exec_allocateHolding hexec]
  have hreleased : T.Grows (S.released T) :=
    hlinked.released fun id hid => hentered ▸ List.mem_append_right _ hid
  refine ⟨hreleased.linked, fun a ha c hc => hreleased.valid ?_⟩
  cases outcome with
  | error stop => cases ha
  | ok r =>
    cases ha
    rcases List.mem_append.mp hc with hc | hc
    · rcases List.mem_cons.mp hc with rfl | hc
      · exact hvalid r rfl _ (List.mem_singleton_self _)
      · exact valid_of_mem_ofValues
          (fun hv hr => hlinked.root (.guarded (List.mem_of_mem_drop hv) hr)) hc
    · obtain ⟨id, hid, rfl⟩ := List.mem_map.mp hc
      refine hlinked.root (.scope (List.mem_append_left _ (List.mem_append_right _ ?_)))
      exact hentered ▸ List.mem_append_left _ hid

/-- A new array can be filled with values that are there. -/
theorem Linked.fillArray (h : S.Linked) {r : Ref} (values : List Value)
    (hr : S.memory.heap.header? r = some ⟨.array values.length, false⟩)
    (hvalues : ∀ c ∈ Cell.ofValues values, S.Valid c) :
    ∃ T, (fillArray r values).exec S = (.ok (), T) ∧ S.Grows T := by
  obtain ⟨heap, hexec, hw, hheader, helement, hout⟩ := exec_fillArray h.wellFormed hr
  refine ⟨_, hexec, h.change hr hw hheader rfl hout fun c hc => .inr ?_⟩
  rcases Heap.mem_successors_iff.mp hc with hc | hc | ⟨k, v, hpos, hk, hslot, hc⟩
  · cases hc
  · cases hc
  · obtain ⟨k, rfl⟩ : ∃ j, k = j + 1 := ⟨k - 1, by omega⟩
    have hlt : k < values.length := by
      simp only [Header.span, ObjectData.span] at hk
      omega
    rw [helement (List.getElem?_eq_getElem hlt)] at hslot
    cases hslot
    refine hvalues c (Cell.ofValues_subset (fun w hw => ?_) hc)
    obtain rfl := List.mem_singleton.mp hw
    exact List.getElem_mem hlt

/-- A new object can be given data that refers to what is there. -/
theorem Linked.init (h : S.Linked) {r : Ref} (data : ObjectData)
    (hr : S.memory.heap.header? r = some ⟨.array 0, false⟩) (hspan : data.span = 1)
    (hrefs : ∀ r' ∈ data.references, S.Valid (.object r'))
    (hscope : ∀ c ∈ Cell.ofScopes data.scope?.toList, S.Valid c) :
    ∃ T, (Run.modifyMemory fun m => m.init r ⟨data, false⟩).exec S = (.ok (), T) ∧ S.Grows T := by
  obtain ⟨heap, hexec, hw, hheader, hout⟩ := exec_init h.wellFormed data hr hspan
  refine ⟨_, hexec, h.change hr hw hheader hspan hout fun c hc => .inr ?_⟩
  rcases Heap.mem_successors_iff.mp hc with hc | hc | ⟨k, v, hpos, hk, -⟩
  · obtain ⟨r', hr', rfl⟩ := List.mem_map.mp hc
    exact hrefs r' hr'
  · exact hscope c hc
  · have hone : Header.span ⟨data, false⟩ = 1 := hspan
    omega

theorem links_newArray (elements : List Value) :
    Links (Cell.ofValues elements) (newArray elements) fun r => [.object r] := by
  intro S hS hgiven
  obtain ⟨f, T, now, -, -, hnow, hexec⟩ :=
    allocateHolding_spec hS.wellFormed (Nat.succ_pos elements.length) elements none
  obtain ⟨hlinked, hvalid⟩ := links_allocateHolding (elements.length + 1) elements none S hS
    fun c hc => hgiven c (by simpa [Cell.ofScopes] using hc)
  unfold newArray
  rcases hexec with ⟨r, hexec, hfresh⟩ | ⟨available, hexec⟩
  · rw [hexec] at hlinked hvalid
    have hheld := hvalid (r, now) rfl
    obtain ⟨U, hfill, hgrows⟩ := hlinked.fillArray now
      (by rw [hfresh.header, ← hnow.length_eq]; rfl)
      fun c hc => hheld c (List.mem_append_left _ (List.mem_cons_of_mem _ hc))
    have hreported := hgrows.trans (hgrows.linked.report (.allocatedArray r now.length))
    rw [exec_bind_ok hexec]
    dsimp only
    rw [exec_bind_ok hfill, exec_bind_ok (exec_report _ _), exec_pure]
    refine ⟨hreported.linked, fun a ha c hc => hreported.valid ?_⟩
    cases ha
    obtain rfl := List.mem_singleton.mp hc
    exact hheld _ List.mem_cons_self
  · rw [hexec] at hlinked
    rw [exec_bind_error hexec]
    exact ⟨hlinked, fun _ h => by cases h⟩

/-- What the data of an object refers to. -/
def cells (data : ObjectData) : List Cell :=
  data.references.map Cell.object ++ Cell.ofScopes data.scope?.toList

theorem mem_cells_of_held {data : ObjectData} {c : Cell}
    (hc : c ∈ Cell.ofValues (data.references.map Value.ref) ++ Cell.ofScopes data.scope?.toList) :
    c ∈ cells data := by
  rcases List.mem_append.mp hc with hc | hc
  · obtain ⟨r, rfl, v, hv, hr⟩ := Cell.mem_ofValues.mp hc
    obtain ⟨r', hr', rfl⟩ := List.mem_map.mp hv
    simp only [Value.reference?] at hr
    split at hr
    · cases hr
    · cases hr
      exact List.mem_append_left _ (List.mem_map_of_mem hr')
  · exact List.mem_append_right _ hc

theorem links_newObject (data : ObjectData) :
    Links (cells data) (newObject data) fun r => [.object r] := by
  by_cases harray : ∃ length, data = .array length
  · obtain ⟨length, rfl⟩ := harray
    refine (links_newArray (List.replicate length .null)).mono (fun c hc => ?_) fun _ _ hc => hc
    obtain ⟨r, rfl, v, hv, hr⟩ := Cell.mem_ofValues.mp hc
    rw [List.eq_of_mem_replicate hv] at hr
    cases hr
  · obtain ⟨hspan, -, hnew⟩ := newObject_of_span fun length h => harray ⟨length, h⟩
    intro S hS hgiven
    obtain ⟨f, T, now, hcarried, -, hnow, hexec⟩ :=
      allocateHolding_spec hS.wellFormed Nat.one_pos (data.references.map Value.ref) data.scope?
    obtain ⟨hlinked, hvalid⟩ := links_allocateHolding 1 (data.references.map Value.ref) data.scope?
      S hS fun c hc => hgiven c (mem_cells_of_held hc)
    rw [hnew]
    rcases hexec with ⟨r, hexec, hfresh⟩ | ⟨available, hexec⟩
    · rw [hexec] at hlinked hvalid
      have hheld := hvalid (r, now) rfl
      have hdata : data.mapRefs (relocated data.references now) = data.mapRefs f :=
        ObjectData.mapRefs_congr (fun _ => relocated_eq hnow)
          ((relocated_null hnow hcarried.null).trans hcarried.null.symm)
      have hrefs : ∀ r' ∈ (data.mapRefs f).references, T.Valid (.object r') := by
        intro r' hr'
        obtain ⟨r₀, hr₀, rfl⟩ := ObjectData.exists_of_mem_references_mapRefs hcarried.null hr'
        by_cases hnull : (f r₀).isNull = true
        · exact .inl (congrArg Cell.object (Ref.isNull_iff.mp hnull))
        · refine hheld _ (List.mem_append_left _ (List.mem_cons_of_mem _ ?_))
          exact Cell.object_mem_ofValues.mpr
            ⟨.ref (f r₀), ref_mem_of_held hnow hr₀, by simp [Value.reference?, hnull]⟩
      obtain ⟨U, hinit, hgrows⟩ := hlinked.init (data.mapRefs f) hfresh.header
        (by rw [ObjectData.span_mapRefs, hspan]) hrefs
        (by rw [ObjectData.scope?_mapRefs]; exact fun c hc => hheld c (List.mem_append_right _ hc))
      have hreported := hgrows.trans (hgrows.linked.report (.allocatedObject r))
      rw [exec_bind_ok hexec]
      dsimp only
      rw [hdata, exec_bind_ok hinit, exec_bind_ok (exec_report _ _), exec_pure]
      refine ⟨hreported.linked, fun a ha c hc => hreported.valid ?_⟩
      cases ha
      obtain rfl := List.mem_singleton.mp hc
      exact hheld _ List.mem_cons_self
    · rw [hexec] at hlinked
      rw [exec_bind_error hexec]
      exact ⟨hlinked, fun _ h => by cases h⟩

/-! ## Scopes, names and signals -/

/-- What a new scope refers to. -/
def stateCells (state : ScopeState) (outer : Option ScopeId) : List Cell :=
  Cell.ofScopes (outer.toList ++ state.calling?.toList) ++ Cell.ofValues state.values

theorem mem_stateCells {state : ScopeState} {outer : Option ScopeId} {serial : Nat} {c : Cell}
    (hc : c ∈ Scope.successors { state, outer, serial }) : c ∈ stateCells state outer := by
  simpa [Scope.successors, stateCells, Scope.values, Bindings.values] using hc

theorem links_createScope {given : List Cell} {state : ScopeState} {outer : Option ScopeId}
    (hstate : ∀ c ∈ stateCells state outer, c ∈ given) :
    Links given (createScope state outer) fun id => .scope id :: given := by
  intro S hS hgiven
  obtain ⟨hgrows, hnew⟩ := hS.create state outer
    fun c hc => hgiven c (hstate c (mem_stateCells hc))
  refine ⟨hgrows.linked, fun id hid c hc => ?_⟩
  cases hid
  rcases List.mem_cons.mp hc with rfl | hc
  · exact hnew
  · exact hgrows.valid (hgiven c hc)

theorem links_enterScope (state : ScopeState) (outer : ScopeId) :
    Links (stateCells state (some outer)) (enterScope state outer) fun _ => [] := by
  refine (links_createScope fun c hc => hc).bind fun id => ?_
  refine (links_modify fun {S} hS hgiven => ?_).bind fun _ =>
    (links_report _).bind fun _ => links_pure fun _ hc => nomatch hc
  refine hS.outside rfl rfl rfl (fun x hx => ?_) (fun _ hv => .inl hv) (fun _ hr => .inl hr)
    fun _ hr => .inl hr
  simp only [List.mem_append, List.mem_cons] at hx ⊢
  rcases hx with hx | rfl | hx
  · exact .inl (.inl hx)
  · exact .inr (hgiven _ List.mem_cons_self)
  · exact .inl (.inr hx)

theorem links_exitScope (id : ScopeId) : Links [] (exitScope id) fun _ => [] := by
  refine (links_modify fun {S} hS _ => ?_).bind fun _ => links_report _
  refine hS.outside rfl rfl rfl (fun x hx => .inl ?_) (fun _ hv => .inl hv) (fun _ hr => .inl hr)
    fun _ hr => .inl hr
  exact List.mem_append.mpr ((List.mem_append.mp hx).imp_right List.mem_of_mem_erase)

theorem links_pushFrame (frame : Frame) :
    Links [.scope frame.scope] (pushFrame frame) fun _ => [] := by
  intro S hS hgiven
  unfold pushFrame
  rw [exec_bind_ok (exec_get S)]
  cases hpush : S.stack.push frame with
  | error fault => exact ⟨hS, fun _ h => nomatch h⟩
  | ok stack =>
    rw [exec_bind_ok (exec_ofExcept_ok stack S), exec_modify]
    refine ⟨(hS.outside rfl rfl rfl (fun x hx => ?_) (fun _ hv => .inl hv) (fun _ hr => .inl hr)
      fun _ hr => .inl hr : S.Grows { S with stack }).linked, fun _ _ _ hc => nomatch hc⟩
    unfold CallStack.push at hpush
    split at hpush
    · cases hpush
    · cases hpush
      rcases List.mem_cons.mp hx with rfl | hx
      · exact .inr (hgiven _ (List.mem_singleton_self _))
      · exact .inl hx

theorem links_popFrame : Links [] popFrame fun _ => [] := by
  intro S hS _
  refine ⟨(hS.outside rfl rfl rfl (fun x hx => .inl ?_) (fun _ hv => .inl hv) (fun _ hr => .inl hr)
    fun _ hr => .inl hr : S.Grows { S with stack := S.stack.pop.2 }).linked,
    fun _ _ _ hc => nomatch hc⟩
  refine List.mem_append.mpr ((List.mem_append.mp hx).imp_left fun hx => ?_)
  obtain ⟨frame, hframe, rfl⟩ := List.mem_map.mp hx
  exact List.mem_map_of_mem (List.mem_of_mem_tail hframe)

/-- A new scope that is made with nothing in it. -/
theorem stateCells_instance (outer : Option ScopeId) :
    stateCells (.instance_ {}) outer = Cell.ofScopes outer.toList := by
  simp [stateCells, ScopeState.calling?, ScopeState.values, Bindings.values, Cell.ofValues]

theorem stateCells_module (name : String) (outer : Option ScopeId) :
    stateCells (.module name) outer = Cell.ofScopes outer.toList := by
  simp [stateCells, ScopeState.calling?, ScopeState.values, ScopeState.control?, Cell.ofValues]

theorem links_newInstance (classRef : Ref) (outer : ScopeId) :
    Links [.object classRef, .scope outer] (newInstance classRef outer) fun _ => [] := by
  refine (links_createScope ?_).bind fun scope =>
    ((links_newObject (.instanceOf classRef scope)).mono ?_ fun _ _ hc => hc).bind fun r =>
      links_pure fun _ hc => nomatch hc
  · simp [stateCells_instance, Cell.ofScopes]
  · simp [cells, ObjectData.references, ObjectData.scope?, Cell.ofScopes]

theorem links_newModule (name : String) (outer : ScopeId) :
    Links [.scope outer] (newModule name outer) fun _ => [] := by
  refine (links_createScope ?_).bind fun scope =>
    ((links_newObject (.moduleOf name scope)).mono ?_ fun _ _ hc => hc).bind fun r =>
      links_pure fun _ hc => nomatch hc
  · simp [stateCells_module, Cell.ofScopes]
  · simp [cells, ObjectData.references, ObjectData.scope?, Cell.ofScopes]

theorem links_takePair {α : Type} {given : List Cell} {f : Arena → Except Fault (α × Arena)}
    (hf : ∀ {a b a'}, f a = .ok (b, a') → a.Edited [] a') :
    Links given (do
      let (value, arena) ← Run.ofExcept (f (← get).arena)
      modify fun s => { s with arena }
      return value) fun _ => given := by
  intro S hS hgiven
  rw [exec_bind_ok (exec_get S)]
  cases h : f S.arena with
  | error fault => exact ⟨hS, fun _ h => nomatch h⟩
  | ok result =>
    have hgrows := hS.edit (hf h) fun c hc => nomatch hc
    exact ⟨hgrows.linked, fun _ _ c hc => hgrows.valid (hgiven c hc)⟩

theorem links_defineField (id : ScopeId) (partition : Partition) (name : String) (entry : Binding) :
    Links (Cell.ofValues [entry.value])
      (Run.modifyScopes fun a => a.defineField id partition name entry)
      fun _ => Cell.ofValues [entry.value] :=
  links_edit Arena.edited_defineField fun _ hc => hc

theorem mem_ofValues_ref {r : Ref} {c : Cell} (hc : c ∈ Cell.ofValues [.ref r]) :
    c = .object r := by
  obtain ⟨r', rfl, v, hv, hr⟩ := Cell.mem_ofValues.mp hc
  obtain rfl := List.mem_singleton.mp hv
  simp only [Value.reference?] at hr
  split at hr
  · cases hr
  · exact congrArg Cell.object (Option.some.inj hr).symm

theorem links_bindSuper (child parent : Ref) :
    Links [.object child, .object parent] (bindSuper child parent) fun _ => [] := by
  refine links_get_bind fun S => links_ofExcept_bind fun scope _ =>
    links_ofExcept_bind fun _ _ => ?_
  refine (links_defineField scope .pub superName ⟨.ref parent, false⟩).mono (fun c hc => ?_)
    fun _ _ hc => nomatch hc
  rw [mem_ofValues_ref hc]
  exact List.mem_cons_of_mem _ (List.mem_singleton_self _)

/-- The module that is imported is there because the module object refers to it. -/
theorem links_importModule (id : ScopeId) (target : Ref) :
    Links [] (importModule id target) fun _ => [] := by
  intro S hS hgiven
  unfold importModule
  cases hread : S.memory.header target with
  | error fault =>
    rw [exec_bind_error (exec_memory_error hread)]
    exact ⟨hS, fun _ h => nomatch h⟩
  | ok header =>
    rw [exec_bind_ok (exec_memory hread)]
    split
    · rename_i name scope hdata
      have hscope : S.Valid (.scope scope) :=
        hS.edge (.scope (Memory.header_eq_ok.mp hread) (by rw [hdata]; rfl))
      have hattach : Links [.scope scope]
          (Run.modifyScopes fun a => a.attachNamespace id scope) fun _ => [.scope scope] :=
        links_edit Arena.edited_attachNamespace fun _ hc => hc
      obtain ⟨hlinked, -⟩ := hattach S hS fun c hc => List.mem_singleton.mp hc ▸ hscope
      exact ⟨hlinked, fun _ _ _ hc => nomatch hc⟩
    · exact ⟨hS, fun _ h => nomatch h⟩

theorem links_throwValue (id : ScopeId) (v : Value) :
    Links (Cell.ofValues [v]) (throwValue id v) fun _ => [] := by
  refine links_get_bind fun S => (links_report _).bind fun _ => ?_
  exact (links_edit Arena.edited_throwException fun c hc => hc).mono (fun c hc => hc)
    fun _ _ hc => nomatch hc

theorem links_raise (id : ScopeId) (fault : Fault) : Links [] (raise id fault) fun _ => [] := by
  unfold raise
  split
  · have hnew := links_newObject (.native fault.scriptType (.str fault.message))
    refine hnew.bind fun error => (links_throwValue id (.ref error)).mono (fun c hc => ?_)
      fun _ _ hc => hc
    rw [mem_ofValues_ref hc]
    exact List.mem_singleton_self _
  · exact links_fail fault

/-! ## Elements and headers -/

theorem links_writeElement (r : Ref) (index : Int64) (v : Value) :
    Links (Cell.ofValues [v]) (Run.modifyMemory (·.writeElement r index v))
      fun _ => Cell.ofValues [v] := by
  refine links_modifyMemory fun {S m} hS hgiven hm => ?_
  obtain ⟨header, k, heap, hr, -, hk, hwrite, rfl⟩ := Memory.writeElement_eq_ok hm
  obtain ⟨-, -, hslots⟩ := Heap.write_eq_ok hwrite
  obtain ⟨hpos, hat⟩ := Heap.header?_eq_some.mp hr
  have hr' : heap.header? r = some header := by
    rw [Heap.header?_eq_some, hslots, if_neg (by omega)]
    exact ⟨hpos, hat⟩
  refine hS.change hr (hS.wellFormed.write hwrite) hr' rfl (fun hi => ?_) fun c hc => ?_
  · rw [hslots, if_neg (by omega)]
  · rw [Heap.mem_successors_iff] at hc ⊢
    rcases hc with hc | hc | ⟨j, w, hj, hlt, hw, hc⟩
    · exact .inl (.inl hc)
    · exact .inl (.inr (.inl hc))
    · rw [hslots] at hw
      split at hw
      · cases hw
        exact .inr (hgiven c hc)
      · exact .inl (.inr (.inr ⟨j, w, hj, hlt, hw, hc⟩))

theorem links_setData (r : Ref) (data : ObjectData) :
    Links (cells data) (Run.modifyMemory (·.setData r data)) fun _ => cells data := by
  refine links_modifyMemory fun {S m} hS hgiven hm => ?_
  obtain ⟨old, hr, hspan, rfl⟩ := Memory.setData_eq_ok hm
  have hmarked : old.marked = false := hS.wellFormed.unmarked hr
  have hslot := Heap.slot?_setHeader hr { old with data }
  have hpos := old.data.span_pos
  have hnew : (S.memory.heap.setHeader r { old with data }).header? r = some { old with data } := by
    rw [Heap.header?_setHeader hr, if_pos rfl]
  refine hS.change hr (hS.wellFormed.setHeader hr hspan.symm hmarked) hnew hspan (fun hi => ?_)
    fun c hc => ?_
  · rw [hslot, if_neg (by rw [Header.span] at hi; omega)]
  · rw [Heap.mem_successors_iff] at hc ⊢
    rcases hc with hc | hc | ⟨k, v, hk, hlt, hv, hc⟩
    · exact .inr (hgiven c (List.mem_append_left _ hc))
    · exact .inr (hgiven c (List.mem_append_right _ hc))
    · rw [hslot, if_neg (by omega)] at hv
      exact .inl (.inr (.inr ⟨k, v, hk, hspan ▸ hlt, hv, hc⟩))

end Session

end ScriptCore
