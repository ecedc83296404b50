import ScriptCore.Proofs.Scope.Holdings
import ScriptCore.Proofs.Session.Guarding

/-!
# Sessions without dangling links

In a session that is `Session.Linked` everything that refers to something refers to something that
is there: every scope that a scope, an object, a call or the list of entered scopes names is live,
and every reference in an object, in a scope or among the outside roots is null or names a header.

This module has the steps that the operations on sessions are made of, one lemma for each. Most of
them take nothing away (`Session.Grows`); a collection and a compaction do, and keep what is linked.
-/

namespace ScriptCore

/-! ## Edges by cell -/

theorem refers_scope_iff {h : Heap} {a : Arena} {id : ScopeId} {d : Cell} :
    Refers h a (.scope id) d ↔ ∃ s, a.get? id = some s ∧ d ∈ s.successors := by
  rw [← mem_successors_iff, successors]
  cases a.get? id <;> simp

theorem refers_object_iff {h : Heap} {a : Arena} {r : Ref} {d : Cell} :
    Refers h a (.object r) d ↔ ∃ header, h.header? r = some header ∧ d ∈ h.successors r header := by
  rw [← mem_successors_iff, successors]
  cases h.header? r <;> simp

theorem Heap.mem_successors_iff {h : Heap} {r : Ref} {header : Header} {d : Cell} :
    d ∈ h.successors r header ↔
      d ∈ header.data.references.map Cell.object ∨ d ∈ Cell.ofScopes header.data.scope?.toList ∨
        ∃ k v, 0 < k ∧ k < header.span ∧ h.slot? (r.slot + k) = some (.data v) ∧
          d ∈ Cell.ofValues [v] := by
  rw [Heap.successors, List.mem_append, List.mem_append, or_assoc]
  refine or_congr_right (or_congr_right ?_)
  rw [Cell.mem_ofValues]
  constructor
  · rintro ⟨r', rfl, v, hv, hr⟩
    obtain ⟨k, hpos, hk, hslot⟩ := Heap.mem_elements_iff.mp hv
    exact ⟨k, v, hpos, hk, hslot, Cell.object_mem_ofValues.mpr ⟨v, List.mem_singleton_self v, hr⟩⟩
  · rintro ⟨k, v, hpos, hk, hslot, hd⟩
    obtain ⟨r', rfl, w, hw, hr⟩ := Cell.mem_ofValues.mp hd
    obtain rfl := List.mem_singleton.mp hw
    exact ⟨r', rfl, w, Heap.mem_elements_iff.mpr ⟨k, hpos, hk, hslot⟩, hr⟩

/-- Being a root is a matter of the lists that the collector starts from. -/
theorem Root.of_roots_eq {m m' : Memory} {a a' : Arena} {extra extra' : RootSet} {c : Cell}
    (hc : Root m' a' extra' c) (h : roots m' a' extra' = roots m a extra) : Root m a extra c := by
  rwa [← mem_roots_iff, h, mem_roots_iff] at hc

/-- The roots on account of control state that has been set aside. -/
theorem root_suspended_iff {m : Memory} {a : Arena} {extra : RootSet} {l : List Suspended}
    {c : Cell} : Root m { a with suspended := l } extra c ↔
      Root m { a with suspended := [] } extra c ∨ ∃ s ∈ l, c ∈ Cell.ofValues s.values := by
  have hroots : ∀ l, Root m { a with suspended := l } extra c ↔
      c ∈ Cell.ofScopes (a.global :: extra.scopes) ++ Cell.ofValues extra.values
        ++ Cell.ofValues m.guarded ++ m.managed.map Cell.object ++ m.permanent.map Cell.object ∨
      c ∈ Cell.ofValues (l.flatMap Suspended.values) := fun l => by
    rw [← mem_roots_iff]
    exact List.mem_append
  have hvalues : c ∈ Cell.ofValues (l.flatMap Suspended.values) ↔
      ∃ s ∈ l, c ∈ Cell.ofValues s.values := by
    simp only [Cell.mem_ofValues, List.mem_flatMap]
    grind
  have hnil : c ∉ Cell.ofValues (([] : List Suspended).flatMap Suspended.values) := by
    simp [Cell.ofValues]
  rw [hroots, hroots, hvalues, or_iff_left hnil]

namespace Session

/-! ## Linked sessions -/

/-- A cell is there, or it is the null reference. -/
def Valid (S : Session) (c : Cell) : Prop := c = .object .null ∨ c.Live S.memory.heap S.arena

/-- Whatever is referred to is there, in memory and scopes that are in good order. -/
structure Linked (S : Session) : Prop where
  wellFormed : S.memory.heap.WellFormed
  orderly : S.arena.Orderly
  /-- What scopes and objects refer to. -/
  edge : ∀ {c d}, Refers S.memory.heap S.arena c d → S.Valid d
  /-- What is in use from outside. -/
  root : ∀ {c}, Root S.memory S.arena (S.rootSet none) c → S.Valid c

/-- The session `T` is linked and has what `S` has. -/
structure Grows (S T : Session) : Prop where
  linked : T.Linked
  valid : ∀ {c}, S.Valid c → T.Valid c

theorem Grows.trans {S T U : Session} (h : S.Grows T) (h' : T.Grows U) : S.Grows U :=
  ⟨h'.linked, fun hc => h'.valid (h.valid hc)⟩

variable {S T : Session}

theorem valid_of_mem_ofValues {values : List Value} (h : ∀ {v r}, v ∈ values →
    v.reference? = some r → S.Valid (.object r)) {c : Cell} (hc : c ∈ Cell.ofValues values) :
    S.Valid c := by
  obtain ⟨r, rfl, v, hv, hr⟩ := Cell.mem_ofValues.mp hc
  exact h hv hr

namespace Linked

/-- A session that has what a linked one has, and whose edges and roots are those of the other one
or lead to something that is there. -/
theorem grows (h : S.Linked) (hw : T.memory.heap.WellFormed) (ho : T.arena.Orderly)
    (hvalid : ∀ {c}, S.Valid c → T.Valid c)
    (hedge : ∀ {c d}, Refers T.memory.heap T.arena c d →
      Refers S.memory.heap S.arena c d ∨ T.Valid d)
    (hroot : ∀ {c}, Root T.memory T.arena (T.rootSet none) c →
      Root S.memory S.arena (S.rootSet none) c ∨ T.Valid c) : S.Grows T where
  linked := {
    wellFormed := hw
    orderly := ho
    edge := fun hd => (hedge hd).elim (fun hd => hvalid (h.edge hd)) id
    root := fun hc => (hroot hc).elim (fun hc => hvalid (h.root hc)) id }
  valid := hvalid

/-- Nothing has changed but the roots. -/
theorem reroot (h : S.Linked) (hheap : T.memory.heap = S.memory.heap) (ho : T.arena.Orderly)
    (hget : ∀ id, T.arena.get? id = S.arena.get? id)
    (hroot : ∀ {c}, Root T.memory T.arena (T.rootSet none) c →
      Root S.memory S.arena (S.rootSet none) c ∨ S.Valid c) : S.Grows T := by
  have hvalid : ∀ {c}, S.Valid c → T.Valid c := by
    rintro c (hnull | hlive)
    · exact .inl hnull
    · refine .inr ?_
      cases c with
      | scope id => exact (congrArg Option.isSome (hget id)).trans hlive
      | object r => rwa [hheap]
  refine h.grows (hheap ▸ h.wellFormed) ho hvalid (fun {c d} hd => .inl ?_)
    fun hc => (hroot hc).imp_right hvalid
  rw [hheap] at hd
  cases c with
  | scope id => rwa [refers_scope_iff, hget, ← refers_scope_iff] at hd
  | object r => exact refers_object_iff.mpr (refers_object_iff.mp hd)

/-- Scopes in use, guards and registered references have been changed. -/
theorem outside (h : S.Linked) (hheap : T.memory.heap = S.memory.heap) (harena : T.arena = S.arena)
    (hthreads : T.threads = S.threads)
    (hscopes : ∀ id ∈ T.stack.frames.map (·.scope) ++ T.entered,
      id ∈ S.stack.frames.map (·.scope) ++ S.entered ∨ S.Valid (.scope id))
    (hguarded : ∀ v ∈ T.memory.guarded,
      v ∈ S.memory.guarded ∨ ∀ c ∈ Cell.ofValues [v], S.Valid c)
    (hmanaged : ∀ r ∈ T.memory.managed, r ∈ S.memory.managed ∨ S.Valid (.object r))
    (hpermanent : ∀ r ∈ T.memory.permanent, r ∈ S.memory.permanent ∨ S.Valid (.object r)) :
    S.Grows T := by
  refine h.reroot hheap (harena ▸ h.orderly) (fun _ => harena ▸ rfl) fun hc => ?_
  cases hc with
  | global => exact .inl (harena ▸ .global)
  | scope hid =>
    simp only [rootSet, Option.toList_none, List.append_nil] at hid
    exact (hscopes _ hid).imp_left fun hid => .scope (List.mem_append_left _ hid)
  | value hv hr =>
    simp only [rootSet, hthreads] at hv
    have hheld : _ ∈ (S.rootSet none).values := hv
    exact .inl (.value hheld hr)
  | guarded hv hr =>
    refine (hguarded _ hv).imp (fun hv => .guarded hv hr) fun hvalid => hvalid _ ?_
    exact Cell.object_mem_ofValues.mpr ⟨_, List.mem_singleton_self _, hr⟩
  | managed hr => exact (hmanaged _ hr).imp_left .managed
  | permanent hr => exact (hpermanent _ hr).imp_left .permanent
  | parked hs hc hv hr => exact .inl (.parked (harena ▸ hs) hc hv hr)

/-- Something has been reported. -/
theorem report (h : S.Linked) (e : Event) : S.Grows { S with events := S.events.push e } :=
  h.reroot rfl h.orderly (fun _ => rfl) fun hc => .inl (hc.of_roots_eq rfl)

/-- Scopes have been changed. -/
theorem edit (h : S.Linked) {extra : List Cell} {a : Arena} (ha : S.arena.Edited extra a)
    (hextra : ∀ c ∈ extra, S.Valid c) : S.Grows { S with arena := a } := by
  have hvalid : ∀ {c}, S.Valid c → Valid { S with arena := a } c := by
    rintro c (hnull | hlive)
    · exact .inl hnull
    · refine .inr ?_
      cases c with
      | scope id => exact (ha.contains id).trans hlive
      | object r => exact hlive
  refine h.grows h.wellFormed (ha.orderly h.orderly) hvalid ?_ ?_
  · intro c d hd
    cases c with
    | scope id =>
      obtain ⟨s', hs', hd⟩ := refers_scope_iff.mp hd
      obtain ⟨s, hs, hsub⟩ := ha.successors hs'
      rcases hsub d hd with hd | hd
      · exact .inl (refers_scope_iff.mpr ⟨s, hs, hd⟩)
      · exact .inr (hvalid (hextra d hd))
    | object r => exact .inl (refers_object_iff.mpr (refers_object_iff.mp hd))
  · intro c hc
    refine .inl (hc.of_roots_eq ?_)
    simp only [roots, ha.global, ha.suspended, rootSet]

/-- A scope has been made. -/
theorem create (h : S.Linked) (state : ScopeState) (outer : Option ScopeId)
    (hstate : ∀ c ∈ Scope.successors { state, outer, serial := S.arena.nextSerial }, S.Valid c) :
    S.Grows { S with arena := (S.arena.create state outer).2 } ∧
      Valid { S with arena := (S.arena.create state outer).2 }
        (.scope (S.arena.create state outer).1) := by
  obtain ⟨hfresh, hnew⟩ := h.orderly.get?_create state outer
  have hframe : (S.arena.create state outer).2.global = S.arena.global ∧
      (S.arena.create state outer).2.suspended = S.arena.suspended := by
    unfold Arena.create
    cases S.arena.vacant <;> exact ⟨rfl, rfl⟩
  have hvalid : ∀ {c}, S.Valid c → Valid { S with arena := (S.arena.create state outer).2 } c := by
    rintro c (hnull | hlive)
    · exact .inl hnull
    · refine .inr ?_
      cases c with
      | scope id =>
        obtain ⟨s, hs⟩ := Option.isSome_iff_exists.mp hlive
        have hne : id ≠ (S.arena.create state outer).1 := by
          rintro rfl
          rw [hfresh] at hs
          cases hs
        exact Option.isSome_iff_exists.mpr ⟨s, (Arena.get?_create_of_ne hne).trans hs⟩
      | object r => exact hlive
  refine ⟨h.grows h.wellFormed (h.orderly.create state outer) hvalid ?_ ?_,
    .inr (Option.isSome_iff_exists.mpr ⟨_, hnew⟩)⟩
  · intro c d hd
    cases c with
    | scope id =>
      obtain ⟨s, hs, hd⟩ := refers_scope_iff.mp hd
      by_cases hid : id = (S.arena.create state outer).1
      · subst hid
        obtain rfl := Option.some.inj (hs.symm.trans hnew)
        exact .inr (hvalid (hstate d hd))
      · exact .inl (refers_scope_iff.mpr ⟨s, (Arena.get?_create_of_ne hid).symm.trans hs, hd⟩)
    | object r => exact .inl (refers_object_iff.mpr (refers_object_iff.mp hd))
  · intro c hc
    refine .inl (hc.of_roots_eq ?_)
    simp only [roots, hframe, rootSet]

/-- Control state has been set aside. -/
theorem suspend (h : S.Linked) (id : ScopeId) :
    S.Grows { S with arena := S.arena.suspendControl id } := by
  obtain ⟨cleared, hedited, heq⟩ := S.arena.edited_suspendControl id
  have hgrows := h.edit hedited fun c hc => nomatch hc
  refine hgrows.trans (hgrows.linked.reroot rfl ?_ (fun id => by rw [heq]; rfl) ?_)
  · rw [heq]
    exact ⟨hgrows.linked.orderly.vacant_nodup, hgrows.linked.orderly.vacant_free,
      hgrows.linked.orderly.serial_lt⟩
  · intro c hc
    rw [heq, root_suspended_iff] at hc
    rcases hc with hc | ⟨s, hs, hc⟩
    · exact .inl (root_suspended_iff.mpr (.inl hc))
    · rcases List.mem_cons.mp hs with rfl | hs
      · -- what has been set aside was held by a scope
        obtain ⟨r, rfl, v, hv, hr⟩ := Cell.mem_ofValues.mp hc
        obtain ⟨p, hp, hv⟩ := List.mem_flatMap.mp hv
        obtain ⟨s, hs, hd⟩ := Arena.exists_successor_of_pendingAt hp
          (Cell.object_mem_ofValues.mpr ⟨v, hv, hr⟩)
        exact .inr (hgrows.valid (h.edge (refers_scope_iff.mpr ⟨s, hs, hd⟩)))
      · exact .inl (root_suspended_iff.mpr (.inr ⟨s, hedited.suspended ▸ hs, hc⟩))

/-- Control state has been put back. -/
theorem restore (h : S.Linked) : S.Grows { S with arena := S.arena.restoreControl } := by
  cases hsuspended : S.arena.suspended with
  | nil =>
    have heq : S.arena.restoreControl = S.arena := by rw [Arena.restoreControl, hsuspended]
    rw [heq]
    exact ⟨h, fun hc => hc⟩
  | cons s rest =>
    have hdropped : S.Grows { S with arena := { S.arena with suspended := rest } } := by
      refine h.reroot rfl ⟨h.orderly.vacant_nodup, h.orderly.vacant_free, h.orderly.serial_lt⟩
        (fun _ => rfl) fun hc => .inl ?_
      refine root_suspended_iff.mpr ((root_suspended_iff.mp hc).imp_right ?_)
      rintro ⟨t, ht, hc⟩
      exact ⟨t, hsuspended ▸ List.mem_cons_of_mem s ht, hc⟩
    refine hdropped.trans (hdropped.linked.edit (Arena.edited_restoreControl hsuspended) ?_)
    refine fun c hc => hdropped.valid (h.root (root_suspended_iff.mpr (.inr ⟨s, ?_, hc⟩)))
    rw [hsuspended]
    exact List.mem_cons_self

/-! ### Objects -/

/-- Slots have been taken. -/
theorem reserve (h : S.Linked) {n : Nat} {r : Ref} {heap : Heap}
    (hres : S.memory.heap.reserve n = some (r, heap)) :
    S.Grows { S with memory := { S.memory with heap } } ∧
      Valid { S with memory := { S.memory with heap } } (.object r) := by
  have hreserved := h.wellFormed.reserved hres
  have hvalid : ∀ {c}, S.Valid c → Valid { S with memory := { S.memory with heap } } c := by
    rintro c (hnull | hlive)
    · exact .inl hnull
    · refine .inr ?_
      cases c with
      | scope id => exact hlive
      | object r' =>
        have hne : r' ≠ r := by
          rintro rfl
          rw [Cell.Live, hreserved.header?_eq_none] at hlive
          cases hlive
        exact (congrArg Option.isSome (hreserved.header?_of_ne hne)).trans hlive
  refine ⟨h.grows hreserved.wellFormed h.orderly hvalid ?_ fun hc => .inl (hc.of_roots_eq rfl),
    .inr (by rw [Cell.Live, hreserved.header]; rfl)⟩
  · intro c d hd
    cases c with
    | scope id => exact .inl (refers_scope_iff.mpr (refers_scope_iff.mp hd))
    | object r' =>
      obtain ⟨header, hr, hd⟩ := refers_object_iff.mp hd
      by_cases hne : r' = r
      · -- the new array holds nulls
        subst hne
        obtain rfl := Option.some.inj (hr.symm.trans hreserved.header)
        rcases Heap.mem_successors_iff.mp hd with hd | hd | ⟨k, v, hpos, hk, hslot, hd⟩
        · cases hd
        · cases hd
        · have hspan : k < n := by
            simp only [Header.span, ObjectData.span] at hk
            have := hreserved.pos
            omega
          rw [hreserved.element hpos hspan] at hslot
          cases hslot
          cases hd
      · have hold := (hreserved.header?_of_ne hne).symm.trans hr
        refine .inl (refers_object_iff.mpr ⟨header, hold, ?_⟩)
        rw [Heap.mem_successors_iff] at hd ⊢
        refine hd.imp_right (Or.imp_right ?_)
        rintro ⟨k, v, hpos, hk, hslot, hd⟩
        exact ⟨k, v, hpos, hk, (hreserved.slot?_kept h.wellFormed hold hk).symm.trans hslot, hd⟩

/-- An object has been changed. -/
theorem change (h : S.Linked) {r : Ref} {header header' : Header}
    (hr : S.memory.heap.header? r = some header) {heap : Heap} (hw : heap.WellFormed)
    (hr' : heap.header? r = some header') (hspan : header'.span = header.span)
    (hout : ∀ {i}, ¬ (r.slot ≤ i ∧ i < r.slot + header.span) →
      heap.slot? i = S.memory.heap.slot? i)
    (hedge : ∀ c ∈ heap.successors r header', c ∈ S.memory.heap.successors r header ∨ S.Valid c) :
    S.Grows { S with memory := { S.memory with heap } } := by
  have hretained := retained_of_within h.wellFormed hr hout
  have hvalid : ∀ {c}, S.Valid c → Valid { S with memory := { S.memory with heap } } c := by
    rintro c (hnull | hlive)
    · exact .inl hnull
    · refine .inr ?_
      cases c with
      | scope id => exact hlive
      | object r' =>
        obtain ⟨old, hold⟩ := Option.isSome_iff_exists.mp hlive
        by_cases hne : r' = r
        · subst hne
          exact Option.isSome_iff_exists.mpr ⟨header', hr'⟩
        · refine Option.isSome_iff_exists.mpr ⟨old, hretained.header (fun heq => ?_) hold⟩
          exact hne (Cell.object.inj heq)
  refine h.grows hw h.orderly hvalid ?_ fun hc => .inl (hc.of_roots_eq rfl)
  intro c d hd
  cases c with
  | scope id => exact .inl (refers_scope_iff.mpr (refers_scope_iff.mp hd))
  | object r' =>
    obtain ⟨new, hnew, hd⟩ := refers_object_iff.mp hd
    by_cases hne : r' = r
    · subst hne
      obtain rfl := Option.some.inj (hnew.symm.trans hr')
      exact (hedge d hd).imp (fun hd => refers_object_iff.mpr ⟨header, hr, hd⟩) hvalid
    · -- the other objects are those there were, since none of their slots is in the changed one
      have hslot : ∀ {k}, k < new.span →
          heap.slot? (r'.slot + k) = S.memory.heap.slot? (r'.slot + k) := by
        intro k hk
        have hdisjoint := hw.disjoint hr' hnew (Ne.symm hne) (r'.slot + k)
        exact hout (by omega)
      obtain ⟨hpos, hat⟩ := Heap.header?_eq_some.mp hnew
      have hold : S.memory.heap.header? r' = some new :=
        Heap.header?_eq_some.mpr ⟨hpos, (hslot (k := 0) new.data.span_pos).symm.trans hat⟩
      refine .inl (refers_object_iff.mpr ⟨new, hold, ?_⟩)
      rw [Heap.mem_successors_iff] at hd ⊢
      refine hd.imp_right (Or.imp_right ?_)
      rintro ⟨k, v, hk, hlt, hv, hd⟩
      exact ⟨k, v, hk, hlt, (hslot hlt).symm.trans hv, hd⟩

/-! ### Collection and compaction -/

/-- What is left by a collection is what could be reached. -/
theorem live_collected (hw : S.memory.heap.WellFormed) (extra : Option ScopeId) {c : Cell} :
    c.Live (S.collected extra).memory.heap (S.collected extra).arena ↔
      Reachable S.memory S.arena (S.rootSet extra) c := by
  constructor
  · intro hlive
    cases c with
    | scope id =>
      obtain ⟨s, hs⟩ := Option.isSome_iff_exists.mp hlive
      exact ((get?_collect S.arena _ hw).mp hs).2
    | object r =>
      obtain ⟨header, hr⟩ := Option.isSome_iff_exists.mp hlive
      exact ((header?_collect S.arena _ hw).mp hr).2
  · intro hreach
    cases c with
    | scope id =>
      obtain ⟨s, hs⟩ := Option.isSome_iff_exists.mp hreach.live
      exact Option.isSome_iff_exists.mpr ⟨s, (get?_collect S.arena _ hw).mpr ⟨hs, hreach⟩⟩
    | object r =>
      obtain ⟨header, hr⟩ := Option.isSome_iff_exists.mp hreach.live
      exact Option.isSome_iff_exists.mpr ⟨header, (header?_collect S.arena _ hw).mpr ⟨hr, hreach⟩⟩

/-- An edge that is left by a collection starts at something that could be reached. -/
theorem refers_collected (hw : S.memory.heap.WellFormed) (extra : Option ScopeId) {c d : Cell}
    (h : Refers (S.collected extra).memory.heap (S.collected extra).arena c d) :
    Refers S.memory.heap S.arena c d ∧ Reachable S.memory S.arena (S.rootSet extra) c := by
  cases c with
  | scope id =>
    obtain ⟨s, hs, hd⟩ := refers_scope_iff.mp h
    obtain ⟨hs, hreach⟩ := (get?_collect S.arena _ hw).mp hs
    exact ⟨refers_scope_iff.mpr ⟨s, hs, hd⟩, hreach⟩
  | object r =>
    obtain ⟨header, hr, hd⟩ := refers_object_iff.mp h
    obtain ⟨hold, hreach⟩ := (header?_collect S.arena _ hw).mp hr
    refine ⟨refers_object_iff.mpr ⟨header, hold, ?_⟩, hreach⟩
    rw [Heap.mem_successors_iff] at hd ⊢
    refine hd.imp_right (Or.imp_right ?_)
    rintro ⟨k, v, hpos, hk, hv, hd⟩
    exact ⟨k, v, hpos, hk, (slot?_collect S.arena _ hw hr hk).symm.trans hv, hd⟩

/-- What a session has in use is in use when a scope is named besides. -/
theorem root_rootSet (extra : Option ScopeId) {c : Cell}
    (h : Root S.memory S.arena (S.rootSet none) c) :
    Root S.memory S.arena (S.rootSet extra) c := by
  cases h with
  | global => exact .global
  | scope hid =>
    refine .scope ?_
    simp only [rootSet, Option.toList_none, List.append_nil] at hid
    exact List.mem_append_left _ hid
  | value hv hr =>
    have hheld : _ ∈ (S.rootSet extra).values := hv
    exact .value hheld hr
  | guarded hv hr => exact .guarded hv hr
  | managed hr => exact .managed hr
  | permanent hr => exact .permanent hr
  | parked hs hc hv hr => exact .parked hs hc hv hr

/-- A collection keeps whatever is still referred to. -/
theorem collected (h : S.Linked) (extra : Option ScopeId) : (S.collected extra).Linked where
  wellFormed := wellFormed_collected h.wellFormed extra
  orderly := h.orderly.sweep _
  edge hd := by
    obtain ⟨hd, hreach⟩ := refers_collected h.wellFormed extra hd
    exact (h.edge hd).imp_right fun hlive =>
      (live_collected h.wellFormed extra).mpr (.step hreach hd hlive)
  root {c} hc := by
    have hframe := S.arena.frame_sweep (garbage S.memory S.arena (S.rootSet extra))
    have hglobal : (S.collected extra).arena.global = S.arena.global := hframe.1
    have hsuspended : (S.collected extra).arena.suspended = S.arena.suspended := hframe.2.2
    have hroot : Root S.memory S.arena (S.rootSet none) c := by
      refine hc.of_roots_eq ?_
      rw [roots, hglobal, hsuspended]
      rfl
    exact (h.root hroot).imp_right fun hlive =>
      (live_collected h.wellFormed extra).mpr (.root (root_rootSet extra hroot) hlive)

/-- The edges after a compaction are those before it, moved. -/
theorem refers_slid (hw : S.memory.heap.WellFormed) {c' d' : Cell}
    (h : Refers S.slid.memory.heap S.slid.arena c' d') :
    ∃ c d, Refers S.memory.heap S.arena c d ∧ d' = d.map S.memory.heap.slide.1.resolve := by
  have hnull := hw.tiled.isNull_resolve
  cases c' with
  | scope id =>
    obtain ⟨s', hs', hd⟩ := refers_scope_iff.mp h
    rw [slid, get?_compact] at hs'
    obtain ⟨s, hs, rfl⟩ := Option.map_eq_some_iff.mp hs'
    rw [compact_forwarding, Scope.successors_mapRefs hnull] at hd
    obtain ⟨d, hmem, rfl⟩ := List.mem_map.mp hd
    exact ⟨.scope id, d, refers_scope_iff.mpr ⟨s, hs, hmem⟩, rfl⟩
  | object r' =>
    obtain ⟨header', hr', hd⟩ := refers_object_iff.mp h
    obtain ⟨r, header, hr, rfl, rfl⟩ := exists_of_header?_compact S.arena hw hr'
    rw [compact_forwarding] at hd
    rw [Heap.mem_successors_iff, ObjectData.references_mapRefs hnull,
      ObjectData.scope?_mapRefs] at hd
    refine ⟨.object r, ?_⟩
    simp only [refers_object_iff, hr, Option.some.injEq, exists_eq_left', Heap.mem_successors_iff]
    rcases hd with hd | hd | ⟨k, v', hpos, hk, hv', hd⟩
    · rw [List.map_map] at hd
      obtain ⟨r', hr', rfl⟩ := List.mem_map.mp hd
      exact ⟨.object r', .inl (List.mem_map_of_mem hr'), rfl⟩
    · obtain ⟨id, hid, rfl⟩ := List.mem_map.mp hd
      exact ⟨.scope id, .inr (.inl (List.mem_map_of_mem hid)), rfl⟩
    · rw [Header.span, ObjectData.span_mapRefs] at hk
      rw [slid, ← compact_forwarding S.memory S.arena,
        slot?_compact_resolve S.arena hw hr hk] at hv'
      obtain ⟨cell, hcell, hmap⟩ := Option.map_eq_some_iff.mp hv'
      cases cell with
      | empty => cases hmap
      | object _ => cases hmap
      | data v =>
        cases hmap
        rw [show [v.mapRef (compact S.memory S.arena).1.resolve] =
          [v].map (·.mapRef S.memory.heap.slide.1.resolve) from rfl, Cell.ofValues_map hnull] at hd
        obtain ⟨d, hmem, rfl⟩ := List.mem_map.mp hd
        exact ⟨d, .inr (.inr ⟨k, v, hpos, hk, hcell, hmem⟩), rfl⟩

/-- The roots after a compaction are those before it, moved. -/
theorem roots_slid (hw : S.memory.heap.WellFormed) :
    roots S.slid.memory S.slid.arena (S.slid.rootSet none) =
      (roots S.memory S.arena (S.rootSet none)).map (Cell.map S.memory.heap.slide.1.resolve) := by
  have hnull := hw.tiled.isNull_resolve
  have hscopes : ∀ ids, (Cell.ofScopes ids).map (Cell.map S.memory.heap.slide.1.resolve) =
      Cell.ofScopes ids := fun ids => by simp [Cell.ofScopes, Cell.map]
  have hobjects : ∀ refs : List Ref, (refs.map S.memory.heap.slide.1.resolve).map Cell.object =
      (refs.map Cell.object).map (Cell.map S.memory.heap.slide.1.resolve) := fun refs => by
    simp [Cell.map]
  have hsuspended : S.slid.arena.suspended.flatMap Suspended.values =
      (S.arena.suspended.flatMap Suspended.values).map
        (·.mapRef S.memory.heap.slide.1.resolve) := by
    change (S.arena.suspended.map _).flatMap _ = _
    rw [List.flatMap_map, List.map_flatMap]
    exact List.flatMap_congr fun s _ => s.values_mapRefs _
  simp only [roots, List.map_append, hscopes, ← Cell.ofValues_map hnull, ← hobjects, ← hsuspended]
  rw [rootSet, rootSet, ← ThreadTable.values_mapRefs]
  rfl

/-- A compaction keeps whatever is referred to. -/
theorem slid (h : S.Linked) : S.slid.Linked := by
  have hw := h.wellFormed
  have hvalid : ∀ {c}, S.Valid c → S.slid.Valid (c.map S.memory.heap.slide.1.resolve) := by
    rintro c (rfl | hlive)
    · exact .inl (congrArg Cell.object hw.tiled.resolve_null)
    · refine .inr ?_
      cases c with
      | scope id =>
        obtain ⟨s, hs⟩ := Option.isSome_iff_exists.mp hlive
        have hget := get?_compact S.memory S.arena id
        rw [hs] at hget
        exact Option.isSome_iff_exists.mpr ⟨_, hget⟩
      | object r =>
        obtain ⟨header, hr⟩ := Option.isSome_iff_exists.mp hlive
        exact Option.isSome_iff_exists.mpr ⟨_, header?_compact_resolve S.arena hw hr⟩
  refine ⟨wellFormed_slid hw, h.orderly.mapRefs _, fun hd => ?_, fun hc => ?_⟩
  · obtain ⟨c, d, hold, rfl⟩ := refers_slid hw hd
    exact hvalid (h.edge hold)
  · rw [← mem_roots_iff, roots_slid hw] at hc
    obtain ⟨c, hold, rfl⟩ := List.mem_map.mp hc
    exact hvalid (h.root (mem_roots_iff.mp hold))

end Linked

end Session

end ScriptCore
