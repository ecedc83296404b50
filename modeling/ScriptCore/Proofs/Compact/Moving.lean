import ScriptCore.Proofs.Compact.Isomorphism
import ScriptCore.Proofs.Compact.Renaming

/-!
# Where compaction puts things

An object that is at `r` before a compaction is at `resolve r` afterwards, with its references
replaced (`header?_compact_resolve`, `slot?_compact_resolve`), and there are no other objects
(`exists_of_header?_compact`). Different objects go to different places, and null stays null.
-/

namespace ScriptCore

namespace Heap.Tiled

variable {h : Heap} (ht : h.Tiled)
include ht

/-- Objects never go to the null slot. -/
theorem isNull_resolve (r : Ref) : (h.slide.1.resolve r).isNull = r.isNull := by
  cases hr : h.header? r with
  | none => rw [ht.resolve_of_header?_eq_none hr]
  | some header =>
    have hpos := (header?_eq_some.mp hr).1
    have hpos' := (header?_eq_some.mp (ht.header?_slide.mpr ⟨r, hr, rfl⟩)).1
    simp [Ref.isNull, hpos, hpos']

theorem resolve_null : h.slide.1.resolve .null = .null :=
  ht.resolve_of_header?_eq_none rfl

theorem resolve_injective {r r' : Ref} {header header' : Header} (hr : h.header? r = some header)
    (hr' : h.header? r' = some header') (heq : h.slide.1.resolve r = h.slide.1.resolve r') :
    r = r' := by
  have hpos := header.data.span_pos
  have hpos' := header'.data.span_pos
  rcases Nat.lt_trichotomy r.slot r'.slot with hlt | hslot | hlt
  · have hle := ht.resolve_add_span_le hr hr' hlt
    rw [heq, Header.span] at hle
    omega
  · cases r
    cases r'
    exact congrArg Ref.mk hslot
  · have hle := ht.resolve_add_span_le hr' hr hlt
    rw [heq, Header.span] at hle
    omega

end Heap.Tiled

section Compact

variable {m : Memory} (a : Arena) (hw : m.heap.WellFormed)
include hw

theorem header?_compact_resolve {r : Ref} {header : Header} (hr : m.heap.header? r = some header) :
    (compact m a).2.1.heap.header? ((compact m a).1.resolve r) =
      some { header with data := header.data.mapRefs (compact m a).1.resolve } := by
  rw [compact_heap, compact_forwarding, Heap.header?_mapRefs,
    hw.tiled.header?_slide.mpr ⟨r, hr, rfl⟩]
  rfl

theorem exists_of_header?_compact {r' : Ref} {header' : Header}
    (hr : (compact m a).2.1.heap.header? r' = some header') :
    ∃ r header, m.heap.header? r = some header ∧ (compact m a).1.resolve r = r' ∧
      header' = { header with data := header.data.mapRefs (compact m a).1.resolve } := by
  rw [compact_heap, Heap.header?_mapRefs] at hr
  obtain ⟨header, hheader, rfl⟩ := Option.map_eq_some_iff.mp hr
  obtain ⟨r, hr, hresolve⟩ := hw.tiled.header?_slide.mp hheader
  exact ⟨r, header, hr, hresolve, rfl⟩

theorem slot?_compact_resolve {r : Ref} {header : Header} (hr : m.heap.header? r = some header)
    {k : Nat} (hk : k < header.span) :
    (compact m a).2.1.heap.slot? (((compact m a).1.resolve r).slot + k) =
      (m.heap.slot? (r.slot + k)).map (·.mapRefs (compact m a).1.resolve) := by
  rw [compact_heap, compact_forwarding, Heap.slot?_mapRefs, hw.tiled.slot?_slide hr hk]

end Compact

theorem get?_compact (m : Memory) (a : Arena) (id : ScopeId) :
    (compact m a).2.2.get? id = (a.get? id).map (·.mapRefs (compact m a).1.resolve) :=
  a.get?_mapRefs _ id

end ScriptCore
