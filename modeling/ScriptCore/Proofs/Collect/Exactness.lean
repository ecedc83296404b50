import ScriptCore.Proofs.Collect.Sweeping

/-!
# Collection is exact

A collection of a well-formed memory keeps the reachable objects and scopes as they are and frees
all others. `Collected` lists what that comes to, and `collect_exact` proves it of `collect` for
every well-formed memory, every arena and every set of roots.
-/

namespace ScriptCore

/-- What a collection does to a memory and an arena. -/
structure Collected (m : Memory) (a : Arena) (extra : RootSet) (report : CollectionReport)
    (m' : Memory) (a' : Arena) : Prop where
  /-- An object is left if and only if it is reachable. -/
  objects : ∀ r, (m'.heap.header? r).isSome = true ↔ Reachable m a extra (.object r)
  /-- A scope is left if and only if it is reachable. -/
  scopes : ∀ id, a'.contains id = true ↔ Reachable m a extra (.scope id)
  /-- The objects that are left have the headers they had. -/
  header_kept : ∀ {r header}, m'.heap.header? r = some header → m.heap.header? r = some header
  /-- They have the elements they had. -/
  slot_kept : ∀ {r header}, m'.heap.header? r = some header → ∀ k, k < header.span →
    m'.heap.slot? (r.slot + k) = m.heap.slot? (r.slot + k)
  /-- The scopes that are left are what they were. -/
  scope_kept : ∀ {id s}, a'.get? id = some s → a.get? id = some s
  /-- The heap is well formed again, and no slot has been lost. -/
  wellFormed : m'.heap.WellFormed
  capacity : m'.heap.capacity = m.heap.capacity
  /-- The free list is in ascending order. -/
  free_ascending : m'.heap.free.slots.Pairwise (· < ·)
  /-- Nothing else of the memory and the arena has changed. -/
  managed : m'.managed = m.managed
  permanent : m'.permanent = m.permanent
  guarded : m'.guarded = m.guarded
  checked : m'.checked = m.checked
  global : a'.global = a.global
  nextSerial : a'.nextSerial = a.nextSerial
  suspended : a'.suspended = a.suspended
  /-- The report counts what is gone, and the free slots afterwards. -/
  freedObjects : report.freedObjects + m'.heap.headers.length = m.heap.headers.length
  freedSlots : report.freedSlots + m'.heap.used = m.heap.used
  freedScopes : report.freedScopes + a'.liveCount = a.liveCount
  available : report.available = m'.available

section Collect

variable {m : Memory} (a : Arena) (extra : RootSet)

/-- The cells that the search from the roots leaves. -/
def garbage (m : Memory) (a : Arena) (extra : RootSet) : Unreached :=
  (Unreached.all m.heap a).search (successors m.heap a) (roots m a extra)

theorem collect_heap : (collect m a extra).2.1.heap = (m.heap.mark (garbage m a extra)).sweep := rfl

theorem collect_arena : (collect m a extra).2.2 = a.sweep (garbage m a extra) := rfl

variable (hw : m.heap.WellFormed)
include hw

theorem garbage_has_eq_false {c : Cell} (hl : c.Live m.heap a) :
    (garbage m a extra).has c = false ↔ Reachable m a extra c := by
  rw [← Bool.not_eq_true, garbage, has_search_roots_iff hw.unmarked]
  grind

/-- The headers after a collection are the reachable ones. -/
theorem header?_collect {r : Ref} {header : Header} :
    (collect m a extra).2.1.heap.header? r = some header ↔
      m.heap.header? r = some header ∧ Reachable m a extra (.object r) := by
  rw [collect_heap, (hw.tiled.mark _).header?_sweep]
  constructor
  · rintro ⟨old, hold, hmarked, rfl⟩
    rw [Heap.header?_mark] at hold
    obtain ⟨first, hfirst, rfl⟩ := Option.map_eq_some_iff.mp hold
    have hl : Cell.Live m.heap a (.object r) := by simp [Cell.Live, hfirst]
    refine ⟨?_, (garbage_has_eq_false a extra hw hl).mp (by simpa using hmarked)⟩
    rw [hfirst, ← hw.unmarked hfirst]
  · rintro ⟨hheader, hreach⟩
    have hfalse := (garbage_has_eq_false a extra hw hreach.live).mpr hreach
    refine ⟨{ header with marked := true }, ?_, rfl, ?_⟩
    · rw [Heap.header?_mark, hheader, Option.map_some, hfalse]
      rfl
    · rw [← hw.unmarked hheader]

theorem slot?_collect {r : Ref} {header : Header}
    (hr : (collect m a extra).2.1.heap.header? r = some header) {k : Nat} (hk : k < header.span) :
    (collect m a extra).2.1.heap.slot? (r.slot + k) = m.heap.slot? (r.slot + k) := by
  obtain ⟨hold, hreach⟩ := (header?_collect a extra hw).mp hr
  rcases Nat.eq_zero_or_pos k with rfl | hpos
  · rw [Nat.add_zero, (Heap.header?_eq_some.mp hr).2, (Heap.header?_eq_some.mp hold).2]
  · have hfalse := (garbage_has_eq_false a extra hw hreach.live).mpr hreach
    have hmark : (m.heap.mark (garbage m a extra)).header? r =
        some { header with marked := true } := by
      rw [Heap.header?_mark, hold, Option.map_some, hfalse]
      rfl
    rw [collect_heap, (hw.tiled.mark _).slot?_sweep hmark rfl hpos hk, Heap.slot?_mark]
    obtain ⟨v, hv⟩ := hw.tiled.coherent.body (Heap.header?_eq_some.mp hold).2 hpos hk
    rw [hv]
    rfl

/-- The scopes after a collection are the reachable ones. -/
theorem get?_collect {id : ScopeId} {s : Scope} :
    (collect m a extra).2.2.get? id = some s ↔
      a.get? id = some s ∧ Reachable m a extra (.scope id) := by
  have hlive : a.get? id = some s → Cell.Live m.heap a (.scope id) := fun hs => by
    simp [Cell.Live, Arena.contains, hs]
  rw [collect_arena, Arena.get?_sweep]
  constructor
  · intro h
    split at h
    · cases h
    · rename_i hnot
      refine ⟨h, ?_⟩
      by_cases hglobal : id = a.global
      · subst hglobal
        exact .root .global (hlive h)
      · refine (garbage_has_eq_false a extra hw (hlive h)).mp ?_
        rw [← Bool.not_eq_true]
        exact fun htrue => hnot ⟨htrue, hglobal⟩
  · rintro ⟨hs, hreach⟩
    have hfalse := (garbage_has_eq_false a extra hw hreach.live).mpr hreach
    rw [if_neg (by simp [hfalse]), hs]

end Collect

/-- **Collection is exact: what is left is what can be reached, and it is as it was.** -/
theorem collect_exact {m : Memory} (hw : m.heap.WellFormed) (a : Arena) (extra : RootSet) :
    Collected m a extra (collect m a extra).1 (collect m a extra).2.1 (collect m a extra).2.2 := by
  have ht := hw.tiled.mark (garbage m a extra)
  have hframe := a.frame_sweep (garbage m a extra)
  refine {
    objects := ?_, scopes := ?_
    header_kept := fun hr => ((header?_collect a extra hw).mp hr).1
    slot_kept := fun hr k hk => slot?_collect a extra hw hr hk
    scope_kept := fun hs => ((get?_collect a extra hw).mp hs).1
    wellFormed := ht.wellFormed_sweep
    capacity := (Heap.capacity_sweep _).trans (Heap.capacity_mark _ _)
    free_ascending := Heap.pairwise_free_sweep _
    managed := rfl, permanent := rfl, guarded := rfl, checked := rfl
    global := hframe.1, nextSerial := hframe.2.1, suspended := hframe.2.2
    freedObjects := ht.length_headers_sweep.trans (Heap.length_headers_mark _ _)
    freedSlots := ht.used_sweep.trans (Heap.used_mark _ _)
    freedScopes := Nat.sub_add_cancel (a.liveCount_sweep_le _)
    available := rfl }
  · intro r
    constructor
    · intro hsome
      obtain ⟨header, hr⟩ := Option.isSome_iff_exists.mp hsome
      exact ((header?_collect a extra hw).mp hr).2
    · intro hreach
      obtain ⟨header, hr⟩ := Option.isSome_iff_exists.mp hreach.live
      exact Option.isSome_iff_exists.mpr ⟨header, (header?_collect a extra hw).mpr ⟨hr, hreach⟩⟩
  · intro id
    constructor
    · intro hsome
      obtain ⟨s, hs⟩ := Option.isSome_iff_exists.mp hsome
      exact ((get?_collect a extra hw).mp hs).2
    · intro hreach
      obtain ⟨s, hs⟩ := Option.isSome_iff_exists.mp hreach.live
      exact Option.isSome_iff_exists.mpr ⟨s, (get?_collect a extra hw).mpr ⟨hs, hreach⟩⟩

/-- A collection that has to tell the managed array and what it refers to from the other array. -/
theorem collect_exact_gapped : Heap.gapped.WellFormed ∧
    Collected { heap := Heap.gapped, managed := [⟨1⟩] } Arena.new {}
      (collect { heap := Heap.gapped, managed := [⟨1⟩] } Arena.new {}).1
      (collect { heap := Heap.gapped, managed := [⟨1⟩] } Arena.new {}).2.1
      (collect { heap := Heap.gapped, managed := [⟨1⟩] } Arena.new {}).2.2 :=
  ⟨Heap.gapped_wellFormed, collect_exact Heap.gapped_wellFormed _ _⟩

end ScriptCore
