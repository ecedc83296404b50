import ScriptCore.Proofs.Collect.Exactness
import ScriptCore.Proofs.Compact.Moving
import ScriptCore.Proofs.Heap.Auditing
import ScriptCore.Proofs.Session.Execution
import ScriptCore.Session.Allocate

/-!
# Collecting and compacting in a session

On a well-formed heap the audit after a collection or a compaction finds nothing, so both come to an
end: `Session.collected` and `Session.slid` are the sessions they leave.

`Session.Carried` says what such a change leaves of a session: the cells that are kept are still
there, objects where a function on references says, and everything that holds references follows.
`Session.retained_collected` and `Session.Retained.carried_slid` prove it of the two.
-/

namespace ScriptCore

namespace Session

open Run

/-! ## The sessions left -/

/-- The session after a collection. -/
def collected (S : Session) (extra : Option ScopeId) : Session :=
  { S with
    memory := (collect S.memory S.arena (S.rootSet extra)).2.1
    arena := (collect S.memory S.arena (S.rootSet extra)).2.2
    events := S.events.push (.collected (collect S.memory S.arena (S.rootSet extra)).1) }

/-- The session after a compaction. -/
def slid (S : Session) : Session :=
  { S with
    memory := (compact S.memory S.arena).2.1
    arena := (compact S.memory S.arena).2.2
    threads := S.threads.mapRefs (compact S.memory S.arena).1.resolve
    events := S.events.push (.compacted (compact S.memory S.arena).1.length
      (compact S.memory S.arena).2.1.available) }

section WellFormed

variable {S : Session} (hw : S.memory.heap.WellFormed)
include hw

theorem wellFormed_collected (extra : Option ScopeId) :
    (S.collected extra).memory.heap.WellFormed :=
  (hw.tiled.mark _).wellFormed_sweep

theorem wellFormed_slid : S.slid.memory.heap.WellFormed := wellFormed_compact hw S.arena

theorem exec_verifyIfChecked : verifyIfChecked.exec S = (.ok (), S) := by
  unfold verifyIfChecked
  rw [exec_bind_ok (exec_get S)]
  dsimp only
  split
  · rw [Memory.verify_eq_ok hw, exec_ofExcept_ok]
  · rfl

theorem exec_collectFrom (extra : Option ScopeId) :
    (collectFrom extra).exec S =
      (.ok (collect S.memory S.arena (S.rootSet extra)).1, S.collected extra) := by
  have hverify : (collectFrom extra).exec S = (do
      verifyIfChecked
      return (collect S.memory S.arena (S.rootSet extra)).1 : Run _).exec (S.collected extra) := rfl
  rw [hverify, exec_bind_ok (exec_verifyIfChecked (wellFormed_collected hw extra)), exec_pure]

theorem exec_slide : slide.exec S = (.ok (compact S.memory S.arena).1.length, S.slid) := by
  have hverify : slide.exec S = (do
      verifyIfChecked
      return (compact S.memory S.arena).1.length : Run _).exec S.slid := rfl
  rw [hverify, exec_bind_ok (exec_verifyIfChecked (wellFormed_slid hw)), exec_pure]

end WellFormed

/-! ## What is carried over -/

end Session

theorem ObjectData.Renamed.span_eq {f : Ref → Ref} {d d' : ObjectData} (h : d.Renamed f d') :
    d'.span = d.span := by
  cases h <;> rfl

namespace Session

/-- Of one session another one has the cells that are `kept`: objects at the places that `f` gives
them, no two at one place, and scopes where they were. They and all outside roots have their
references replaced along `f`. -/
structure Carried (f : Ref → Ref) (kept : Cell → Prop) (S T : Session) : Prop where
  null : f .null = .null
  injective : ∀ {r r'}, kept (.object r) → kept (.object r') → f r = f r' → r = r'
  header : ∀ {r header}, kept (.object r) → S.memory.heap.header? r = some header →
    ∃ header', T.memory.heap.header? (f r) = some header' ∧ header'.marked = header.marked ∧
      header.data.Renamed f header'.data
  element : ∀ {r header k v}, kept (.object r) → S.memory.heap.header? r = some header → 0 < k →
    k < header.span → S.memory.heap.slot? (r.slot + k) = some (.data v) →
    ∃ v', T.memory.heap.slot? ((f r).slot + k) = some (.data v') ∧ v.Renamed f v'
  scope : ∀ {id s}, kept (.scope id) → S.arena.get? id = some s →
    ∃ s', T.arena.get? id = some s' ∧ s.Renamed f s'
  suspended : List.Forall₂ (Suspended.Renamed f) S.arena.suspended T.arena.suspended
  managed : T.memory.managed = S.memory.managed.map f
  permanent : T.memory.permanent = S.memory.permanent.map f
  guarded : List.Forall₂ (Value.Renamed f) S.memory.guarded T.memory.guarded
  threads : T.threads = S.threads.mapRefs f
  stack : T.stack = S.stack
  entered : T.entered = S.entered
  options : T.options = S.options

/-- Of one session another one has the cells that are `kept` as they were, and all outside roots. -/
structure Retained (kept : Cell → Prop) (S T : Session) : Prop where
  header : ∀ {r header}, kept (.object r) → S.memory.heap.header? r = some header →
    T.memory.heap.header? r = some header
  slot : ∀ {r header k}, kept (.object r) → S.memory.heap.header? r = some header →
    k < header.span → T.memory.heap.slot? (r.slot + k) = S.memory.heap.slot? (r.slot + k)
  scope : ∀ {id s}, kept (.scope id) → S.arena.get? id = some s → T.arena.get? id = some s
  suspended : T.arena.suspended = S.arena.suspended
  managed : T.memory.managed = S.memory.managed
  permanent : T.memory.permanent = S.memory.permanent
  guarded : T.memory.guarded = S.memory.guarded
  threads : T.threads = S.threads
  stack : T.stack = S.stack
  entered : T.entered = S.entered
  options : T.options = S.options

theorem Retained.refl (kept : Cell → Prop) (S : Session) : Retained kept S S :=
  ⟨fun _ h => h, fun _ _ _ => rfl, fun _ h => h, rfl, rfl, rfl, rfl, rfl, rfl, rfl, rfl⟩

/-- A collection retains what can be reached. -/
theorem retained_collected {S : Session} (hw : S.memory.heap.WellFormed) (extra : Option ScopeId) :
    Retained (Reachable S.memory S.arena (S.rootSet extra)) S (S.collected extra) where
  header hkept hr := (header?_collect S.arena _ hw).mpr ⟨hr, hkept⟩
  slot hkept hr hk := slot?_collect S.arena _ hw ((header?_collect S.arena _ hw).mpr ⟨hr, hkept⟩) hk
  scope hkept hs := (get?_collect S.arena _ hw).mpr ⟨hs, hkept⟩
  suspended := (S.arena.frame_sweep _).2.2
  managed := rfl
  permanent := rfl
  guarded := rfl
  threads := rfl
  stack := rfl
  entered := rfl
  options := rfl

/-- Something that is retained is carried over to where it was. -/
theorem Retained.carried {kept : Cell → Prop} {S T : Session} (h : Retained kept S T) :
    Carried id kept S T where
  null := rfl
  injective _ _ heq := heq
  header {r header} hkept hr :=
    ⟨header, h.header hkept hr, rfl, by simpa using header.data.renamed_mapRefs id⟩
  element {r header k v} hkept hr _ hk hv :=
    ⟨v, (h.slot hkept hr hk).trans hv, by simpa using v.renamed_mapRef id⟩
  scope {x s} hkept hs := ⟨s, h.scope hkept hs, by simpa using s.renamed_mapRefs id⟩
  suspended := by
    rw [h.suspended, List.forall₂_same]
    exact fun s _ => by simpa using s.renamed_mapRefs id
  managed := by rw [h.managed, List.map_id]
  permanent := by rw [h.permanent, List.map_id]
  guarded := by
    rw [h.guarded, List.forall₂_same]
    exact fun v _ => by simpa using v.renamed_mapRef id
  threads := by rw [h.threads, ThreadTable.mapRefs_id]
  stack := h.stack
  entered := h.entered
  options := h.options

/-- Something that is retained and then moved by a compaction is carried over. -/
theorem Retained.carried_slid {kept : Cell → Prop} {S T : Session} (h : Retained kept S T)
    (hlive : ∀ {c}, kept c → c.Live S.memory.heap S.arena) (hw : T.memory.heap.WellFormed) :
    Carried (compact T.memory T.arena).1.resolve kept S T.slid where
  null := hw.tiled.resolve_null
  injective hkept hkept' heq := by
    obtain ⟨header, hr⟩ := Option.isSome_iff_exists.mp (hlive hkept)
    obtain ⟨header', hr'⟩ := Option.isSome_iff_exists.mp (hlive hkept')
    exact hw.tiled.resolve_injective (h.header hkept hr) (h.header hkept' hr') heq
  header {r header} hkept hr :=
    ⟨_, header?_compact_resolve T.arena hw (h.header hkept hr), rfl, header.data.renamed_mapRefs _⟩
  element {r header k v} hkept hr _ hk hv := by
    refine ⟨_, ?_, v.renamed_mapRef _⟩
    rw [slid, slot?_compact_resolve T.arena hw (h.header hkept hr) hk, h.slot hkept hr hk, hv]
    rfl
  scope {id s} hkept hs := by
    refine ⟨_, ?_, s.renamed_mapRefs _⟩
    rw [slid, get?_compact, h.scope hkept hs]
    rfl
  suspended := by
    change List.Forall₂ _ _ (T.arena.suspended.map _)
    rw [h.suspended, List.forall₂_map_right_iff, List.forall₂_same]
    exact fun s _ => s.renamed_mapRefs _
  managed := congrArg (List.map _) h.managed
  permanent := congrArg (List.map _) h.permanent
  guarded := by
    change List.Forall₂ _ _ (T.memory.guarded.map _)
    rw [h.guarded, List.forall₂_map_right_iff, List.forall₂_same]
    exact fun v _ => v.renamed_mapRef _
  threads := congrArg (ThreadTable.mapRefs _) h.threads
  stack := h.stack
  entered := h.entered
  options := h.options

/-- What is carried over and then retained is carried over. -/
theorem Carried.retained {f : Ref → Ref} {kept kept' : Cell → Prop} {S T U : Session}
    (h : Carried f kept S T) (h' : Retained kept' T U)
    (hkept : ∀ {c}, kept c → kept' (c.map f)) : Carried f kept S U where
  null := h.null
  injective := h.injective
  header hr hheader := by
    obtain ⟨header', hheader', hrest⟩ := h.header hr hheader
    exact ⟨header', h'.header (hkept hr) hheader', hrest⟩
  element {r header k v} hr hheader hpos hk hv := by
    obtain ⟨header', hheader', -, hdata⟩ := h.header hr hheader
    obtain ⟨v', hv', hrenamed⟩ := h.element hr hheader hpos hk hv
    have hspan : header'.span = header.span := hdata.span_eq
    exact ⟨v', (h'.slot (hkept hr) hheader' (by rwa [hspan])).trans hv', hrenamed⟩
  scope hid hs := by
    obtain ⟨s', hs', hrenamed⟩ := h.scope hid hs
    exact ⟨s', h'.scope (hkept hid) hs', hrenamed⟩
  suspended := h'.suspended ▸ h.suspended
  managed := h'.managed.trans h.managed
  permanent := h'.permanent.trans h.permanent
  guarded := h'.guarded ▸ h.guarded
  threads := h'.threads.trans h.threads
  stack := h'.stack.trans h.stack
  entered := h'.entered.trans h.entered
  options := h'.options.trans h.options

/-- The cells that can be reached from what the session has in use. -/
def Reaches (S : Session) : Cell → Prop := Reachable S.memory S.arena (S.rootSet none)

end Session

end ScriptCore
