import ScriptCore.Collect.Collection
import ScriptCore.Proofs.Heap.Tiling

/-!
# Reachability

`Reachable` is what the collector has to find: the cells to which a path leads from a root. The
edges of the graph are spelled out one by one in `Refers`, and what a scope or a piece of control
state holds in `Scope.Holds` and `Control.Holds`, without the lists that the collector goes through.

* `mem_successors_iff` and `mem_roots_iff` say that these lists have the edges and the roots,
  neither more nor less.
* `Unreached.has_search_iff` is the law of the search: what is left is what was there and cannot be
  reached from the worklist through cells that were there.
* `has_search_roots_iff` puts them together: from the roots, the search leaves the live cells that
  are not reachable.
-/

namespace ScriptCore

/-! ## The graph of scopes and objects -/

/-- The values that control state holds. -/
inductive Control.Holds : Control → Value → Prop
  | returned (ret : ReturnState) : Holds (.returning ret) ret.value
  | yielded {state : CaseState} {v : Value} (h : state.yielded = some v) :
      Holds (.selecting state) v
  | thrown (p : Pending) : Holds (.catching (some p)) p.value

/-- The values that a scope holds: in its bindings and, if it is an instance, in its partitions, in
its control state, and as the receiver of a method. -/
inductive Scope.Holds (s : Scope) : Value → Prop
  | binding {e : String × Binding} (h : e ∈ s.bindings.entries) : Holds s e.2.value
  | generic {fields : InstanceFields} (hs : s.state = .instance_ fields) {e : String × Binding}
      (h : e ∈ fields.generics.entries) : Holds s e.2.value
  | priv {fields : InstanceFields} (hs : s.state = .instance_ fields) {e : String × Binding}
      (h : e ∈ fields.priv.entries) : Holds s e.2.value
  | prot {fields : InstanceFields} (hs : s.state = .instance_ fields) {e : String × Binding}
      (h : e ∈ fields.prot.entries) : Holds s e.2.value
  | control {c : Control} (hc : s.control? = some c) {v : Value} (h : c.Holds v) : Holds s v
  | receiver {calling : Option ScopeId} {ret : ReturnState} {this : Ref}
      (hs : s.state = .method calling ret this) : Holds s (.ref this)

/-- One cell refers to another. -/
inductive Refers (h : Heap) (a : Arena) : Cell → Cell → Prop
  | outer {id outer : ScopeId} {s : Scope} (hs : a.get? id = some s) (ho : s.outer = some outer) :
      Refers h a (.scope id) (.scope outer)
  | calling {id caller : ScopeId} {s : Scope} (hs : a.get? id = some s)
      (hc : s.state.calling? = some caller) : Refers h a (.scope id) (.scope caller)
  | imported {id target : ScopeId} {s : Scope} (hs : a.get? id = some s)
      (ht : target ∈ s.namespaces) : Refers h a (.scope id) (.scope target)
  | value {id : ScopeId} {s : Scope} (hs : a.get? id = some s) {v : Value} (hv : s.Holds v)
      {r : Ref} (hr : v.reference? = some r) : Refers h a (.scope id) (.object r)
  | reference {r r' : Ref} {header : Header} (hh : h.header? r = some header)
      (hr : r' ∈ header.data.references) : Refers h a (.object r) (.object r')
  | scope {r : Ref} {header : Header} (hh : h.header? r = some header) {id : ScopeId}
      (hs : header.data.scope? = some id) : Refers h a (.object r) (.scope id)
  | element {r r' : Ref} {header : Header} (hh : h.header? r = some header) {k : Nat}
      (hpos : 0 < k) (hk : k < header.span) {v : Value}
      (hv : h.slot? (r.slot + k) = some (.data v)) (hr : v.reference? = some r') :
      Refers h a (.object r) (.object r')

/-- The cells in use from outside. -/
inductive Root (m : Memory) (a : Arena) (extra : RootSet) : Cell → Prop
  | global : Root m a extra (.scope a.global)
  | scope {id : ScopeId} (h : id ∈ extra.scopes) : Root m a extra (.scope id)
  | value {v : Value} (h : v ∈ extra.values) {r : Ref} (hr : v.reference? = some r) :
      Root m a extra (.object r)
  | guarded {v : Value} (h : v ∈ m.guarded) {r : Ref} (hr : v.reference? = some r) :
      Root m a extra (.object r)
  | managed {r : Ref} (h : r ∈ m.managed) : Root m a extra (.object r)
  | permanent {r : Ref} (h : r ∈ m.permanent) : Root m a extra (.object r)
  | parked {s : Suspended} (hs : s ∈ a.suspended) {id : ScopeId} {c : Control}
      (hc : (id, c) ∈ s.parked) {v : Value} (hv : c.Holds v) {r : Ref}
      (hr : v.reference? = some r) : Root m a extra (.object r)

/-- There is a scope at the index, or a header at the slot. -/
def Cell.Live (h : Heap) (a : Arena) : Cell → Prop
  | .scope id => a.contains id = true
  | .object r => (h.header? r).isSome = true

/-- The live cells to which a path leads from a root. -/
inductive Reachable (m : Memory) (a : Arena) (extra : RootSet) : Cell → Prop
  | root {c : Cell} (hc : Root m a extra c) (hl : c.Live m.heap a) : Reachable m a extra c
  | step {c d : Cell} (hc : Reachable m a extra c) (hd : Refers m.heap a c d)
      (hl : d.Live m.heap a) : Reachable m a extra d

theorem Reachable.live {m : Memory} {a : Arena} {extra : RootSet} {c : Cell}
    (h : Reachable m a extra c) : c.Live m.heap a := by
  cases h <;> assumption

/-- A cell from which a reference goes is live. -/
theorem Refers.live {heap : Heap} {a : Arena} {c d : Cell} (h : Refers heap a c d) :
    c.Live heap a := by
  cases h with
  | outer hs _ | calling hs _ | imported hs _ | value hs _ _ =>
    exact Option.isSome_iff_exists.mpr ⟨_, hs⟩
  | reference hr _ | scope hr _ | element hr _ _ _ _ => exact Option.isSome_iff_exists.mpr ⟨_, hr⟩

/-! ## The lists that the collector goes through -/

theorem Control.mem_values_iff {c : Control} {v : Value} : v ∈ c.values ↔ c.Holds v := by
  constructor
  · intro h
    cases c with
    | returning ret =>
      obtain rfl := List.mem_singleton.mp h
      exact .returned ret
    | looping flags => cases h
    | selecting state => exact .yielded (Option.mem_toList.mp h)
    | catching exception =>
      cases exception with
      | none => cases h
      | some p =>
        obtain rfl := List.mem_singleton.mp h
        exact .thrown p
  · intro h
    cases h with
    | returned ret => exact List.mem_singleton_self _
    | yielded h => exact Option.mem_toList.mpr h
    | thrown p => exact List.mem_singleton_self _

@[simp] theorem Value.reference?_ofRef (r : Ref) :
    (Value.ofRef r).reference? = (Value.ref r).reference? := by
  unfold Value.ofRef
  split
  · rename_i hnull
    simp [reference?, hnull]
  · rfl

/-- Up to the value that stands for the receiver of a method, `Scope.values` lists what is held. -/
theorem Scope.exists_mem_values_iff {s : Scope} {r : Ref} :
    (∃ v ∈ s.values, v.reference? = some r) ↔ ∃ v, s.Holds v ∧ v.reference? = some r := by
  constructor
  · rintro ⟨v, hv, hr⟩
    rcases List.mem_append.mp hv with hv | hv
    · obtain ⟨e, he, rfl⟩ := List.mem_map.mp hv
      exact ⟨_, .binding he, hr⟩
    · cases hs : s.state with
      | instance_ fields =>
        rw [hs] at hv
        simp only [ScopeState.values, Bindings.values, List.append_assoc, List.mem_append,
          List.mem_map] at hv
        rcases hv with ⟨e, he, rfl⟩ | ⟨e, he, rfl⟩ | ⟨e, he, rfl⟩
        · exact ⟨_, .generic hs he, hr⟩
        · exact ⟨_, .priv hs he, hr⟩
        · exact ⟨_, .prot hs he, hr⟩
      | method calling ret this =>
        rw [hs] at hv
        rcases List.mem_cons.mp hv with rfl | hv
        · exact ⟨_, .control (by rw [control?, hs]; rfl) (.returned ret), hr⟩
        · obtain rfl := List.mem_singleton.mp hv
          exact ⟨_, .receiver hs, by rwa [Value.reference?_ofRef] at hr⟩
      | module _ | block =>
        rw [hs] at hv
        cases hv
      | global _ | function _ _ | loop _ _ | select _ | attempt _ | thread _ =>
        rw [hs] at hv
        exact ⟨v, .control (congrArg ScopeState.control? hs) (Control.mem_values_iff.mp hv), hr⟩
  · rintro ⟨v, hv, hr⟩
    cases hv with
    | binding he => exact ⟨_, List.mem_append_left _ (List.mem_map_of_mem he), hr⟩
    | generic hs he | priv hs he | prot hs he =>
      refine ⟨_, List.mem_append_right _ ?_, hr⟩
      rw [hs]
      simp only [ScopeState.values, Bindings.values, List.append_assoc, List.mem_append,
        List.mem_map]
      grind
    | @control c hc v h =>
      refine ⟨v, List.mem_append_right _ ?_, hr⟩
      have hmem := Control.mem_values_iff.mpr h
      unfold control? at hc
      cases hs : s.state <;> rw [hs] at hc <;> cases hc <;> first
        | exact hmem
        | exact List.mem_cons.mpr (.inl (List.mem_singleton.mp hmem))
    | @receiver calling ret this hs =>
      refine ⟨_, List.mem_append_right _ ?_, (Value.reference?_ofRef this).trans hr⟩
      rw [hs]
      exact List.mem_cons_of_mem _ (List.mem_singleton_self _)

theorem Heap.mem_elements_iff {h : Heap} {r : Ref} {span : Nat} {v : Value} :
    v ∈ h.elements r span ↔ ∃ k, 0 < k ∧ k < span ∧ h.slot? (r.slot + k) = some (.data v) := by
  have hvalue : ∀ cell : Slot, cell.value? = some v ↔ cell = .data v := by
    intro cell
    cases cell <;> simp [Slot.value?]
  simp only [elements, List.mem_filterMap, hvalue, exists_eq_right, slot?]
  rw [Array.mem_toList_iff, Array.mem_iff_getElem?]
  constructor
  · rintro ⟨i, hi⟩
    rw [Array.getElem?_extract] at hi
    split at hi
    · exact ⟨i + 1, by omega, by omega, by rw [← hi]; congr 1; omega⟩
    · cases hi
  · rintro ⟨k, hpos, hk, hv⟩
    have hlt := (Array.getElem?_eq_some_iff.mp hv).1
    refine ⟨k - 1, ?_⟩
    rw [Array.getElem?_extract, if_pos (by omega), ← hv]
    congr 1
    omega

theorem Cell.scope_mem_ofScopes {ids : List ScopeId} {id : ScopeId} :
    .scope id ∈ Cell.ofScopes ids ↔ id ∈ ids := by
  simp [ofScopes]

theorem Cell.object_mem_ofValues {values : List Value} {r : Ref} :
    .object r ∈ Cell.ofValues values ↔ ∃ v ∈ values, v.reference? = some r := by
  simp [ofValues]

theorem Cell.object_mem_map {refs : List Ref} {r : Ref} :
    .object r ∈ refs.map Cell.object ↔ r ∈ refs := by
  simp

theorem Cell.object_not_mem_ofScopes {ids : List ScopeId} {r : Ref} :
    .object r ∉ Cell.ofScopes ids := by
  simp [ofScopes]

theorem Cell.scope_not_mem_ofValues {values : List Value} {id : ScopeId} :
    .scope id ∉ Cell.ofValues values := by
  simp [ofValues]

/-- **The successors of a cell are the cells that it refers to.** -/
theorem mem_successors_iff {h : Heap} {a : Arena} {c d : Cell} :
    d ∈ successors h a c ↔ Refers h a c d := by
  cases c with
  | scope id =>
    cases hs : a.get? id with
    | none =>
      constructor
      · intro hd
        simp [successors, hs] at hd
      · intro hd
        cases hd <;> simp_all
    | some s =>
      rw [successors, hs, Option.map_some, Option.getD_some, Scope.successors, List.mem_append]
      cases d with
      | scope target =>
        rw [or_iff_left Cell.scope_not_mem_ofValues, Cell.scope_mem_ofScopes, List.mem_append,
          List.mem_append, Option.mem_toList, Option.mem_toList, or_assoc]
        constructor
        · rintro (ho | hc | ht)
          · exact .outer hs ho
          · exact .calling hs hc
          · exact .imported hs ht
        · intro hd
          cases hd with
          | outer hs' ho => exact .inl (by rwa [← Option.some.inj (hs.symm.trans hs')] at ho)
          | calling hs' hc =>
            exact .inr (.inl (by rwa [← Option.some.inj (hs.symm.trans hs')] at hc))
          | imported hs' ht =>
            exact .inr (.inr (by rwa [← Option.some.inj (hs.symm.trans hs')] at ht))
      | object r =>
        rw [or_iff_right Cell.object_not_mem_ofScopes, Cell.object_mem_ofValues,
          Scope.exists_mem_values_iff]
        constructor
        · rintro ⟨v, hv, hr⟩
          exact .value hs hv hr
        · intro hd
          cases hd with
          | value hs' hv hr =>
            rw [← Option.some.inj (hs.symm.trans hs')] at hv
            exact ⟨_, hv, hr⟩
  | object r =>
    cases hh : h.header? r with
    | none =>
      constructor
      · intro hd
        simp [successors, hh] at hd
      · intro hd
        cases hd <;> simp_all
    | some header =>
      rw [successors, hh, Option.map_some, Option.getD_some, Heap.successors, List.mem_append,
        List.mem_append]
      cases d with
      | scope id =>
        rw [or_iff_left Cell.scope_not_mem_ofValues, Cell.scope_mem_ofScopes,
          or_iff_right (by simp), Option.mem_toList]
        constructor
        · exact .scope hh
        · intro hd
          cases hd with
          | scope hh' hs => rwa [← Option.some.inj (hh.symm.trans hh')] at hs
      | object r' =>
        rw [or_iff_left Cell.object_not_mem_ofScopes, Cell.object_mem_ofValues,
          Cell.object_mem_map]
        constructor
        · rintro (hr | ⟨v, hv, hr⟩)
          · exact .reference hh hr
          · obtain ⟨k, hpos, hk, hv⟩ := Heap.mem_elements_iff.mp hv
            exact .element hh hpos hk hv hr
        · intro hd
          cases hd with
          | reference hh' hr => exact .inl (by rwa [← Option.some.inj (hh.symm.trans hh')] at hr)
          | element hh' hpos hk hv hr =>
            rw [← Option.some.inj (hh.symm.trans hh')] at hk
            exact .inr ⟨_, Heap.mem_elements_iff.mpr ⟨_, hpos, hk, hv⟩, hr⟩

/-- **The list of roots has the cells in use from outside.** -/
theorem mem_roots_iff {m : Memory} {a : Arena} {extra : RootSet} {c : Cell} :
    c ∈ roots m a extra ↔ Root m a extra c := by
  simp only [roots, List.mem_append]
  cases c with
  | scope id =>
    simp only [Cell.scope_mem_ofScopes, Cell.scope_not_mem_ofValues, List.mem_map, reduceCtorEq,
      and_false, exists_false, or_false, List.mem_cons]
    constructor
    · rintro (rfl | hid)
      · exact .global
      · exact .scope hid
    · intro hc
      cases hc with
      | global => exact .inl rfl
      | scope h => exact .inr h
  | object r =>
    simp only [Cell.object_not_mem_ofScopes, Cell.object_mem_ofValues, List.mem_flatMap,
      Cell.object_mem_map, false_or, or_assoc]
    constructor
    · rintro (⟨v, hv, hr⟩ | ⟨v, hv, hr⟩ | h | h | ⟨v, ⟨s, hs, hv⟩, hr⟩)
      · exact .value hv hr
      · exact .guarded hv hr
      · exact .managed h
      · exact .permanent h
      · obtain ⟨⟨id, c⟩, hc, hv⟩ := List.mem_flatMap.mp hv
        exact .parked hs hc (Control.mem_values_iff.mp hv) hr
    · intro hc
      cases hc with
      | value h hr => exact .inl ⟨_, h, hr⟩
      | guarded h hr => exact .inr (.inl ⟨_, h, hr⟩)
      | managed h => exact .inr (.inr (.inl h))
      | permanent h => exact .inr (.inr (.inr (.inl h)))
      | parked hs hc hv hr =>
        refine .inr (.inr (.inr (.inr ⟨_, ⟨_, hs, ?_⟩, hr⟩)))
        exact List.mem_flatMap.mpr ⟨_, hc, Control.mem_values_iff.mpr hv⟩

/-! ## The search -/

namespace Unreached

/-- The cells of `u` to which a path through cells of `u` leads from a worklist. -/
inductive Leads (next : Cell → List Cell) (u : Unreached) (work : List Cell) : Cell → Prop
  | here {c : Cell} (hc : c ∈ work) (hu : u.has c = true) : Leads next u work c
  | onward {c d : Cell} (hc : Leads next u work c) (hd : d ∈ next c) (hu : u.has d = true) :
      Leads next u work d

variable {next : Cell → List Cell} {u : Unreached} {work : List Cell} {c d : Cell}

theorem not_leads_nil : ¬ Leads next u [] c := by
  intro h
  induction h with
  | here hc _ => cases hc
  | onward _ _ _ ih => exact ih

theorem has_remove_iff : (u.remove c).has d = true ↔ d ≠ c ∧ u.has d = true := by
  have htable : ∀ (table : Array Bool) (i j : Nat),
      (table.setIfInBounds i false)[j]?.getD false = true ↔
        j ≠ i ∧ table[j]?.getD false = true := by
    intro table i j
    rw [Array.getElem?_setIfInBounds]
    by_cases hij : i = j
    · subst hij
      by_cases hi : i < table.size <;> simp [hi]
    · simp [hij, Ne.symm hij]
  cases c with
  | scope id =>
    cases d with
    | scope other =>
      obtain ⟨i⟩ := id
      obtain ⟨j⟩ := other
      simpa [has, remove] using htable u.scopes i j
    | object r => simp [has, remove]
  | object r =>
    cases d with
    | scope id => simp [has, remove]
    | object other =>
      obtain ⟨i⟩ := r
      obtain ⟨j⟩ := other
      simpa [has, remove] using htable u.slots i j

theorem leads_cons_of_not_has (hc : ¬ u.has c = true) :
    Leads next u (c :: work) d ↔ Leads next u work d := by
  constructor
  · intro h
    induction h with
    | here hd hu =>
      rcases List.mem_cons.mp hd with rfl | hd
      · exact absurd hu hc
      · exact .here hd hu
    | onward _ hd hu ih => exact .onward ih hd hu
  · intro h
    induction h with
    | here hd hu => exact .here (List.mem_cons_of_mem _ hd) hu
    | onward _ hd hu ih => exact .onward ih hd hu

/-- A path from a worklist ends at its first cell, or leads on from its successors or from the rest
of the list without coming back to that cell. -/
theorem leads_cons_of_has (hc : u.has c = true) :
    Leads next u (c :: work) d ↔ d = c ∨ Leads next (u.remove c) (next c ++ work) d := by
  constructor
  · intro h
    induction h with
    | @here d hd hu =>
      by_cases hdc : d = c
      · exact .inl hdc
      · have hmem := (List.mem_cons.mp hd).resolve_left hdc
        exact .inr (.here (List.mem_append_right _ hmem) (has_remove_iff.mpr ⟨hdc, hu⟩))
    | @onward e d _ hd hu ih =>
      by_cases hdc : d = c
      · exact .inl hdc
      · have hu' := has_remove_iff.mpr ⟨hdc, hu⟩
        rcases ih with rfl | he
        · exact .inr (.here (List.mem_append_left _ hd) hu')
        · exact .inr (.onward he hd hu')
  · rintro (rfl | h)
    · exact .here List.mem_cons_self hc
    · induction h with
      | here hd hu =>
        have hu' := (has_remove_iff.mp hu).2
        rcases List.mem_append.mp hd with hd | hd
        · exact .onward (.here List.mem_cons_self hc) hd hu'
        · exact .here (List.mem_cons_of_mem _ hd) hu'
      | onward _ hd hu ih => exact .onward ih hd (has_remove_iff.mp hu).2

/-- **What a search leaves** is what was there and cannot be reached from the worklist. -/
theorem has_search_iff :
    (search next u work).has d = true ↔ u.has d = true ∧ ¬ Leads next u work d := by
  induction u, work using search.induct next with
  | case1 u =>
    rw [search]
    exact ⟨fun h => ⟨h, not_leads_nil⟩, fun h => h.1⟩
  | case2 u c work hc ih =>
    rw [search, if_pos hc, ih, leads_cons_of_has hc, has_remove_iff]
    grind
  | case3 u c work hc ih =>
    rw [search, if_neg hc, ih, leads_cons_of_not_has hc]

/-- At the start every scope and every object without a mark is unreached. -/
theorem has_all_iff {h : Heap} {a : Arena} (hm : ∀ {r header}, h.header? r = some header →
    header.marked = false) : (all h a).has c = true ↔ c.Live h a := by
  cases c with
  | scope id =>
    simp only [has, all, Cell.Live, Arena.contains, Arena.get?, Array.getElem?_map]
    cases a.scopes[id.index]? <;> simp
  | object r =>
    have hslot : (all h a).has (.object r) = (r.slot != 0 &&
        ((h.slot? r.slot).bind Slot.header?).any fun header => !header.marked) := by
      simp only [has, all, Array.getElem?_mapIdx, Heap.slot?]
      cases h.slots[r.slot]? <;> simp
    have hheader : h.header? r =
        if r.isNull then none else (h.slot? r.slot).bind Slot.header? := rfl
    rw [hslot, Cell.Live]
    by_cases h0 : r.slot = 0
    · simp [hheader, Ref.isNull, h0]
    · have hnull : r.isNull = false := by simpa [Ref.isNull] using h0
      rw [hnull, if_neg Bool.false_ne_true] at hheader
      rw [← hheader]
      cases hr : h.header? r with
      | none => simp
      | some header => simp [hm hr, h0]

end Unreached

/-- **From the roots, the search leaves the live cells that are not reachable.** -/
theorem has_search_roots_iff {m : Memory} {a : Arena} {extra : RootSet}
    (hm : ∀ {r header}, m.heap.header? r = some header → header.marked = false) {c : Cell} :
    ((Unreached.all m.heap a).search (successors m.heap a) (roots m a extra)).has c = true ↔
      c.Live m.heap a ∧ ¬ Reachable m a extra c := by
  have hleads : Unreached.Leads (successors m.heap a) (Unreached.all m.heap a) (roots m a extra) c ↔
      Reachable m a extra c := by
    constructor
    · intro h
      induction h with
      | here hc hu => exact .root (mem_roots_iff.mp hc) ((Unreached.has_all_iff hm).mp hu)
      | onward _ hd hu ih =>
        exact .step ih (mem_successors_iff.mp hd) ((Unreached.has_all_iff hm).mp hu)
    · intro h
      induction h with
      | root hc hl => exact .here (mem_roots_iff.mpr hc) ((Unreached.has_all_iff hm).mpr hl)
      | step _ hd hl ih =>
        exact .onward ih (mem_successors_iff.mpr hd) ((Unreached.has_all_iff hm).mpr hl)
  rw [Unreached.has_search_iff, Unreached.has_all_iff hm, hleads]

end ScriptCore
