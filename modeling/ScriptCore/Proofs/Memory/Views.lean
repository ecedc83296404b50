import ScriptCore.Proofs.Compact.Moving
import ScriptCore.Proofs.Scope.Mirrors

/-!
# Collection and compaction cannot be seen

Running code sees the memory and the scopes through lookups, members, array elements, pending
exceptions, interruptions and returned values. `LooksAlike` says that all of these are the same in
two states, up to the places of objects. `collect_and_compact_invisible` proves it of the states
before and after a collection, seen from what is reachable, and before and after a compaction, seen
from whatever is live.
-/

namespace ScriptCore

/-- What is seen from the cells in `view` is the same in two states when references are replaced by
`f`; faults are the same. -/
structure LooksAlike (f : Ref → Ref) (view : Cell → Prop) (m : Memory) (a : Arena) (m' : Memory)
    (a' : Arena) : Prop where
  lookup : ∀ {e}, view (.scope e) → ∀ name,
    a'.lookup m'.heap e name = (a.lookup m.heap e name).map (·.mapRef f)
  hasName : ∀ {e}, view (.scope e) → ∀ name, a'.hasName m'.heap e name = a.hasName m.heap e name
  exception : ∀ {e}, view (.scope e) → a'.exception e =
    (a.exception e).map fun pending => { pending with value := pending.value.mapRef f }
  interrupted : ∀ {e}, view (.scope e) → a'.interrupted e = a.interrupted e
  returnValue : ∀ {e}, view (.scope e) → a'.returnValue e = (a.returnValue e).map (·.mapRef f)
  member : ∀ {r}, view (.object r) → ∀ name,
    a'.member m'.heap (f r) name = (a.member m.heap r name).map (·.mapRef f)
  readElement : ∀ {r}, view (.object r) → ∀ index,
    m'.readElement (f r) index = (m.readElement r index).map (·.mapRef f)

theorem Mirrors.looksAlike {f : Ref → Ref} {seen view : Cell → Prop} {m m' : Memory} {a a' : Arena}
    (h : Mirrors f seen m.heap a m'.heap a') (hseen : ∀ {c}, view c → seen c)
    (hlive : ∀ {c}, view c → c.Live m.heap a) : LooksAlike f view m a m' a' where
  lookup he _ := h.lookup (hseen he)
  hasName he _ := h.hasName (hseen he)
  exception he := h.exception (hseen he)
  interrupted he := h.interrupted (hseen he)
  returnValue he := h.returnValue (hseen he)
  member hr _ := by
    obtain ⟨header, hheader⟩ := Option.isSome_iff_exists.mp (hlive hr)
    exact h.member (hseen hr) hheader
  readElement hr index := by
    obtain ⟨header, hheader⟩ := Option.isSome_iff_exists.mp (hlive hr)
    exact h.readElement (hseen hr) hheader index

variable {m : Memory} (a : Arena)

/-- After a collection everything is as it was, except what was live and could not be reached. -/
theorem mirrors_collect (hw : m.heap.WellFormed) (extra : RootSet) :
    Mirrors id (fun c => c.Live m.heap a → Reachable m a extra c) m.heap a
      (collect m a extra).2.1.heap (collect m a extra).2.2 where
  isNull _ := rfl
  seen_null hlive := nomatch hlive
  seen_refers hc hd hlive := .step (hc hd.live) hd hlive
  scope := by
    intro id hseen
    cases hs : a.get? id with
    | some s =>
      have hreach := hseen (Option.isSome_iff_exists.mpr ⟨s, hs⟩)
      simpa using (get?_collect a extra hw).mpr ⟨hs, hreach⟩
    | none =>
      refine Option.eq_none_iff_forall_ne_some.mpr fun s hs' => ?_
      exact absurd ((get?_collect a extra hw).mp hs').1 (by simp [hs])
  header := by
    intro r hseen
    cases hr : m.heap.header? r with
    | some header =>
      have hreach := hseen (Option.isSome_iff_exists.mpr ⟨header, hr⟩)
      simpa using (header?_collect a extra hw).mpr ⟨hr, hreach⟩
    | none =>
      refine Option.eq_none_iff_forall_ne_some.mpr fun header hr' => ?_
      exact absurd ((header?_collect a extra hw).mp hr').1 (by simp [hr])
  element := by
    intro r header k hseen hr hpos hk
    have hreach := hseen (Option.isSome_iff_exists.mpr ⟨header, hr⟩)
    obtain ⟨v, hv⟩ := hw.tiled.coherent.body (Heap.header?_eq_some.mp hr).2 hpos hk
    refine ⟨v, hv, ?_⟩
    rw [id_eq, slot?_collect a extra hw ((header?_collect a extra hw).mpr ⟨hr, hreach⟩) hk, hv,
      Value.mapRef_id]
  size := a.size_sweep _

/-- After a compaction everything is as it was but for the places of objects, as long as each
reference is null or names an object. -/
theorem mirrors_compact (hw : m.heap.WellFormed)
    (hrefs : ∀ {c r}, Refers m.heap a c (.object r) →
      r = .null ∨ (m.heap.header? r).isSome = true) :
    Mirrors (compact m a).1.resolve
      (fun c => ∀ r, c = .object r → r = .null ∨ (m.heap.header? r).isSome = true) m.heap a
      (compact m a).2.1.heap (compact m a).2.2 where
  isNull := hw.tiled.isNull_resolve
  seen_null _ hr := .inl (Cell.object.inj hr).symm
  seen_refers _ hd r hr := hrefs (hr ▸ hd)
  scope _ := get?_compact m a _
  header := by
    intro r hseen
    rcases hseen r rfl with rfl | hlive
    · rw [show (compact m a).1.resolve .null = .null from hw.tiled.resolve_null]
      rfl
    · obtain ⟨header, hr⟩ := Option.isSome_iff_exists.mp hlive
      rw [header?_compact_resolve a hw hr, hr]
      rfl
  element := by
    intro r header k _ hr hpos hk
    obtain ⟨v, hv⟩ := hw.tiled.coherent.body (Heap.header?_eq_some.mp hr).2 hpos hk
    refine ⟨v, hv, ?_⟩
    rw [slot?_compact_resolve a hw hr hk, hv]
    rfl
  size := Array.size_map

/-- **Collection and compaction cannot be seen.** Take any well-formed memory, any scopes and any
outside roots. From every reachable scope a name has the same value or gives the same fault after a
collection as before, the same exception waits, the same signals stop statements and the same value
is returned, and every reachable object has the same members and elements. After a compaction it is
so for all live scopes and objects, up to the places to which objects have moved, if each reference
that is stored is null or names an object. -/
theorem collect_and_compact_invisible (hw : m.heap.WellFormed) :
    (∀ extra, LooksAlike id (Reachable m a extra) m a (collect m a extra).2.1
      (collect m a extra).2.2) ∧
    ((∀ {c r}, Refers m.heap a c (.object r) → r = .null ∨ (m.heap.header? r).isSome = true) →
      LooksAlike (compact m a).1.resolve (Cell.Live m.heap a) m a (compact m a).2.1
        (compact m a).2.2) := by
  constructor
  · intro extra
    exact (mirrors_collect a hw extra).looksAlike (fun hreach _ => hreach) Reachable.live
  · intro hrefs
    refine (mirrors_compact a hw hrefs).looksAlike (fun hlive r hr => ?_) id
    subst hr
    exact .inr hlive

/-- An arena in which a variable has the first object of `Heap.gapped`. -/
def Arena.naming : Arena :=
  { Arena.new with
    scopes := #[some {
      state := .global none
      outer := none
      bindings := ⟨[("first", ⟨.ref ⟨1⟩, false⟩)]⟩
      serial := 0 }] }

theorem refs_naming {c : Cell} {r : Ref} (h : Refers Heap.gapped Arena.naming c (.object r)) :
    r = .null ∨ (Heap.gapped.header? r).isSome = true := by
  rw [← mem_successors_iff] at h
  -- the variable refers to the first object, and this one to the object behind the gap
  match c, h with
  | .scope ⟨0⟩, h | .object ⟨1⟩, h =>
    cases List.mem_singleton.mp h
    exact .inr rfl
  | .object ⟨0⟩, h | .object ⟨2⟩, h | .object ⟨3⟩, h | .object ⟨4⟩, h | .object ⟨5⟩, h
  | .object ⟨6⟩, h | .object ⟨7⟩, h => cases h
  | .scope ⟨i + 1⟩, h => simp [successors, Arena.get?, Arena.naming] at h
  | .object ⟨i + 8⟩, h => simp [successors, Heap.header?, Heap.slot?, Heap.gapped] at h

theorem collect_and_compact_invisible_gapped : Heap.gapped.WellFormed ∧
    LooksAlike id (Reachable { heap := Heap.gapped } Arena.naming {}) { heap := Heap.gapped }
      Arena.naming (collect { heap := Heap.gapped } Arena.naming {}).2.1
      (collect { heap := Heap.gapped } Arena.naming {}).2.2 ∧
    LooksAlike (compact { heap := Heap.gapped } Arena.naming).1.resolve
      (Cell.Live Heap.gapped Arena.naming) { heap := Heap.gapped } Arena.naming
      (compact { heap := Heap.gapped } Arena.naming).2.1
      (compact { heap := Heap.gapped } Arena.naming).2.2 :=
  ⟨Heap.gapped_wellFormed,
    (collect_and_compact_invisible (m := { heap := Heap.gapped }) Arena.naming
      Heap.gapped_wellFormed).1 {},
    (collect_and_compact_invisible (m := { heap := Heap.gapped }) Arena.naming
      Heap.gapped_wellFormed).2 refs_naming⟩

end ScriptCore
