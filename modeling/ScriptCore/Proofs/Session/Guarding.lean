import ScriptCore.Proofs.Session.Allocation

/-!
# Guarded allocation

While memory is taken for a new object, the references and the scope that it will hold are roots,
and the references are read back afterwards. Whatever the allocation does, there is a function `f`
on references along which everything that can be reached from the session or from the new object's
data is carried over (`Session.Carried`), and the references read back are the replaced ones
(`Session.allocateHolding_spec`). So a new object is written with the right references:
`Session.newArray_guarded` and `Session.newObject_guarded`, put together in
`Session.guarded_allocation`.
-/

namespace ScriptCore

/-! ## More roots reach more -/

/-- Reachability depends on the roots only through the cells that are roots. -/
theorem Reachable.mono {m m' : Memory} {a : Arena} {extra extra' : RootSet}
    (hheap : m'.heap = m.heap) (hroot : ∀ {c}, Root m a extra c → Root m' a extra' c) {c : Cell}
    (h : Reachable m a extra c) : Reachable m' a extra' c := by
  induction h with
  | root hc hl => exact .root (hroot hc) (hheap ▸ hl)
  | step _ hd hl ih => exact .step ih (hheap ▸ hd) (hheap ▸ hl)

namespace Session

open Run

/-- The roots of a session together with the given values and the given scope. -/
def rootsWith (S : Session) (values : List Value) (scope : Option ScopeId) : RootSet :=
  { S.rootSet scope with values := S.threads.values ++ values }

/-- The cells that can be reached from a session, from the given values or from the given scope. -/
def ReachesWith (S : Session) (values : List Value) (scope : Option ScopeId) : Cell → Prop :=
  Reachable S.memory S.arena (S.rootsWith values scope)

theorem ReachesWith.mono {S : Session} {values values' : List Value} {scope : Option ScopeId}
    (hvalues : ∀ {v}, v ∈ values' → v ∈ values) {c : Cell} (h : S.ReachesWith values' scope c) :
    S.ReachesWith values scope c := by
  refine Reachable.mono rfl (fun {c} hc => ?_) h
  cases hc with
  | global => exact .global
  | scope hid => exact .scope hid
  | value hv hr =>
    refine .value ?_ hr
    rcases List.mem_append.mp hv with hv | hv
    · exact List.mem_append_left _ hv
    · exact List.mem_append_right _ (hvalues hv)
  | guarded hv hr => exact .guarded hv hr
  | managed hr => exact .managed hr
  | permanent hr => exact .permanent hr
  | parked hs hc hv hr => exact .parked hs hc hv hr

/-- The session while memory is taken: the values are guarded and the scope is in use. -/
def guarding (S : Session) (values : List Value) (scope : Option ScopeId) : Session :=
  { S with memory := S.memory.guard values, entered := scope.toList ++ S.entered }

theorem reaches_guarding_of_reachesWith {S : Session} {values : List Value} {scope : Option ScopeId}
    {c : Cell} (h : S.ReachesWith values scope c) : (S.guarding values scope).Reaches c := by
  have hheap : (S.memory.guard values).heap = S.memory.heap := rfl
  refine Reachable.mono hheap (fun {c} hc => ?_) h
  cases hc with
  | global => exact .global
  | scope hid =>
    refine .scope ?_
    simp only [rootsWith, rootSet, guarding, List.mem_append] at hid ⊢
    grind
  | value hv hr =>
    rcases List.mem_append.mp hv with hv | hv
    · exact .value hv hr
    · exact .guarded (List.mem_append_right _ hv) hr
  | guarded hv hr => exact .guarded (List.mem_append_left _ hv) hr
  | managed hr => exact .managed hr
  | permanent hr => exact .permanent hr
  | parked hs hc hv hr => exact .parked hs hc hv hr

/-! ## What an allocation carries over -/

/-- Less is carried over as well. -/
theorem Carried.mono {f : Ref → Ref} {kept kept' : Cell → Prop} {S T : Session}
    (h : Carried f kept S T) (hkept : ∀ {c}, kept' c → kept c) : Carried f kept' S T :=
  { h with
    injective := fun hr hr' => h.injective (hkept hr) (hkept hr')
    header := fun hr => h.header (hkept hr)
    element := fun hr => h.element (hkept hr)
    scope := fun hid => h.scope (hkept hid) }

/-- Live cells that are carried over are live where they are. -/
theorem Carried.live {f : Ref → Ref} {kept : Cell → Prop} {S T : Session} (h : Carried f kept S T)
    {c : Cell} (hkept : kept c) (hlive : c.Live S.memory.heap S.arena) :
    (c.map f).Live T.memory.heap T.arena := by
  cases c with
  | scope id =>
    obtain ⟨s, hs⟩ := Option.isSome_iff_exists.mp hlive
    obtain ⟨s', hs', -⟩ := h.scope hkept hs
    exact Option.isSome_iff_exists.mpr ⟨s', hs'⟩
  | object r =>
    obtain ⟨header, hr⟩ := Option.isSome_iff_exists.mp hlive
    obtain ⟨header', hr', -⟩ := h.header hkept hr
    exact Option.isSome_iff_exists.mpr ⟨header', hr'⟩

theorem retained_swept {S : Session} (hw : S.memory.heap.WellFormed) (n : Nat) :
    Retained S.Reaches S (S.swept n) :=
  let h := retained_collected
    (S := { S with events := S.events.push (.heapExhausted n S.memory.available) }) hw none
  ⟨h.header, h.slot, h.scope, h.suspended, rfl, rfl, rfl, rfl, rfl, rfl, rfl⟩

/-- Every attempt of an allocation has all that could be reached. -/
theorem Attempt.carried {S T : Session} {n : Nat} (h : S.Attempt n T)
    (hw : S.memory.heap.WellFormed) : ∃ f, Carried f S.Reaches S T := by
  have hswept := retained_swept hw n
  cases h with
  | first => exact ⟨id, (Retained.refl _ S).carried⟩
  | swept => exact ⟨id, hswept.carried⟩
  | tidied =>
    unfold Session.tidied
    split
    · exact ⟨_, hswept.carried_slid Reachable.live (wellFormed_swept hw n)⟩
    · exact ⟨id, hswept.carried⟩

/-- Taking slots changes no object that is there. -/
theorem retained_reserve {S : Session} (hw : S.memory.heap.WellFormed) {n : Nat} {r : Ref}
    {heap : Heap} (hres : S.memory.heap.reserve n = some (r, heap)) :
    Retained (Cell.Live S.memory.heap S.arena) S { S with memory := { S.memory with heap } } where
  header {r' header} _ hr := by
    have hreserved := hw.reserved hres
    have hne : r' ≠ r := by
      rintro rfl
      rw [hreserved.header?_eq_none] at hr
      cases hr
    exact (hreserved.header?_of_ne hne).trans hr
  slot _ hr hk := (hw.reserved hres).slot?_kept hw hr hk
  scope _ hs := hs
  suspended := rfl
  managed := rfl
  permanent := rfl
  guarded := rfl
  threads := rfl
  stack := rfl
  entered := rfl
  options := rfl

/-- There is an array of `n - 1` nulls at `r`, which is nothing that was carried over. -/
structure Fresh (f : Ref → Ref) (kept : Cell → Prop) (T : Session) (n : Nat) (r : Ref) : Prop where
  header : T.memory.heap.header? r = some ⟨.array (n - 1), false⟩
  element : ∀ {k}, 0 < k → k < n → T.memory.heap.slot? (r.slot + k) = some (.data .null)
  new : ∀ {h}, kept (.object h) → f h ≠ r

/-- **What an allocation comes to**: all that could be reached is carried over, and there is a new
block or no memory. -/
theorem allocate_spec {S : Session} (hw : S.memory.heap.WellFormed) (size : Nat) :
    ∃ f T, Carried f S.Reaches S T ∧ T.memory.heap.WellFormed ∧
      ((∃ r, (allocate size).exec S = (.ok r, T) ∧ Fresh f S.Reaches T (max size 1) r) ∨
        ∃ available, (allocate size).exec S =
          (.error (.fault (.outOfMemory (max size 1) available)), T)) := by
  rcases allocate_cases hw size with ⟨T, r, m, hT, htaken, hexec⟩ | ⟨-, hexec⟩
  · obtain ⟨f, hcarried⟩ := hT.carried hw
    obtain ⟨heap, hres, rfl⟩ := Memory.tryAllocate_eq_some.mp htaken
    have hwT := hT.wellFormed hw
    have hreserved := hwT.reserved hres
    refine ⟨f, _, hcarried.retained (retained_reserve hwT hres) (fun hc => ?_),
      hreserved.wellFormed, .inl ⟨r, hexec, hreserved.header, hreserved.element, ?_⟩⟩
    · exact hcarried.live hc hc.live
    · rintro h hreach rfl
      have hlive : (T.memory.heap.header? (f h)).isSome = true :=
        hcarried.live hreach hreach.live
      rw [hreserved.header?_eq_none] at hlive
      cases hlive
  · obtain ⟨f, hcarried⟩ := (Attempt.tidied (S := S) (n := max size 1)).carried hw
    exact ⟨f, _, hcarried, wellFormed_tidied hw _, .inr ⟨_, hexec⟩⟩

/-! ## Holding on to values -/

/-- The session `T` when `S` has been guarded and the guards are released. -/
def released (S T : Session) : Session :=
  { T with
    memory := { T.memory with guarded := T.memory.guarded.take S.memory.guarded.length }
    entered := S.entered }

theorem exec_allocateHolding {S T : Session} {size : Nat} {values : List Value}
    {scope : Option ScopeId} {outcome : Except Stop Ref}
    (h : (allocate size).exec (S.guarding values scope) = (outcome, T)) :
    (allocateHolding size values scope).exec S =
      (outcome.map (·, T.memory.guarded.drop S.memory.guarded.length), S.released T) := by
  unfold allocateHolding
  rw [exec_bind_ok (exec_get S), exec_bind_ok (exec_set _ _), exec_bind_ok (exec_outcome _ _)]
  unfold guarding at h
  rw [h]
  cases outcome <;> rfl

/-- Once the guards are released, a session that was carried over has its own ones. -/
theorem Carried.release {f : Ref → Ref} {S T : Session} {values : List Value}
    {scope : Option ScopeId}
    (h : Carried f (S.guarding values scope).Reaches (S.guarding values scope) T) :
    Carried f (S.ReachesWith values scope) S (S.released T) ∧
      List.Forall₂ (Value.Renamed f) values
        (T.memory.guarded.drop S.memory.guarded.length) := by
  have hkept : ∀ {c}, S.ReachesWith values scope c → (S.guarding values scope).Reaches c :=
    reaches_guarding_of_reachesWith
  have hguarded : List.Forall₂ (Value.Renamed f) (S.memory.guarded ++ values) T.memory.guarded :=
    h.guarded
  refine ⟨{
    null := h.null
    injective := fun hr hr' => h.injective (hkept hr) (hkept hr')
    header := fun hr => h.header (hkept hr)
    element := fun hr => h.element (hkept hr)
    scope := fun hid => h.scope (hkept hid)
    suspended := h.suspended, managed := h.managed, permanent := h.permanent
    guarded := ?_
    threads := h.threads, stack := h.stack, entered := rfl, options := h.options }, ?_⟩
  · simpa [released] using List.forall₂_take S.memory.guarded.length hguarded
  · simpa using List.forall₂_drop S.memory.guarded.length hguarded

/-- **Values that are held during an allocation follow what happens to the heap.** -/
theorem allocateHolding_spec {S : Session} (hw : S.memory.heap.WellFormed) {size : Nat}
    (hsize : 0 < size) (values : List Value) (scope : Option ScopeId) :
    ∃ f T now, Carried f (S.ReachesWith values scope) S T ∧ T.memory.heap.WellFormed ∧
      List.Forall₂ (Value.Renamed f) values now ∧
      ((∃ r, (allocateHolding size values scope).exec S = (.ok (r, now), T) ∧
          Fresh f (S.ReachesWith values scope) T size r) ∨
        ∃ available, (allocateHolding size values scope).exec S =
          (.error (.fault (.outOfMemory size available)), T)) := by
  have hwG : (S.guarding values scope).memory.heap.WellFormed := hw
  obtain ⟨f, T, hcarried, hwT, hexec⟩ := allocate_spec hwG size
  rw [Nat.max_eq_left hsize] at hexec
  obtain ⟨hrest, hnow⟩ := hcarried.release
  refine ⟨f, S.released T, _, hrest, hwT, hnow, ?_⟩
  rcases hexec with ⟨r, hexec, hfresh⟩ | ⟨available, hexec⟩
  · refine .inl ⟨r, exec_allocateHolding hexec, hfresh.header, hfresh.element, fun hr => ?_⟩
    exact hfresh.new (reaches_guarding_of_reachesWith hr)
  · exact .inr ⟨available, exec_allocateHolding hexec⟩

end Session

/-! ## Writing the elements of a new array -/

namespace Heap

/-- Values written one after the other to slots that hold elements. -/
theorem foldlM_write {h : Heap} (hw : h.WellFormed) (r : Ref) (values : List Value) (k : Nat)
    (hdata : ∀ j, j < values.length → ∃ v, h.slot? (r.slot + (k + j + 1)) = some (.data v)) :
    ∃ h', (values.zipIdx k).foldlM
        (fun heap (v, index) => heap.write (r.slot + (index + 1)) v) h = (.ok h' : Except Fault Heap) ∧
      h'.WellFormed ∧ ∀ i, h'.slot? i =
        if r.slot + k < i ∧ i ≤ r.slot + k + values.length then
          values[i - (r.slot + k + 1)]?.map Slot.data
        else h.slot? i := by
  induction values generalizing h k with
  | nil => exact ⟨h, rfl, hw, fun i => by rw [if_neg (by simp)]⟩
  | cons v rest ih =>
    obtain ⟨w, hfirst⟩ := hdata 0 (Nat.succ_pos _)
    obtain ⟨h₁, hwrite⟩ := exists_write hfirst v
    obtain ⟨-, -, hslot⟩ := write_eq_ok hwrite
    rw [Nat.add_zero] at hwrite hslot
    obtain ⟨h', hfold, hw', hslot'⟩ := ih (hw.write hwrite) (k + 1) fun j hj => by
      obtain ⟨w', hw'⟩ := hdata (j + 1) (Nat.succ_lt_succ hj)
      refine ⟨w', ?_⟩
      rw [hslot, if_neg (by omega), ← hw']
      congr 1
      omega
    refine ⟨h', ?_, hw', fun i => ?_⟩
    · rw [List.zipIdx_cons, List.foldlM_cons]
      dsimp only
      rw [hwrite]
      exact hfold
    · rw [hslot', hslot, List.length_cons]
      by_cases hi : i = r.slot + (k + 1)
      · rw [if_neg (by omega), if_pos hi, if_pos (by omega),
          show i - (r.slot + k + 1) = 0 by omega]
        rfl
      · by_cases hin : r.slot + (k + 1) < i ∧ i ≤ r.slot + (k + 1) + rest.length
        · rw [if_pos hin, if_pos (by omega),
            show i - (r.slot + k + 1) = i - (r.slot + (k + 1) + 1) + 1 by omega,
            List.getElem?_cons_succ]
        · rw [if_neg hin, if_neg hi, if_neg (by omega)]

end Heap

namespace Session

open Run

/-- A change within one object leaves the others as they are. -/
theorem retained_of_within {S : Session} (hw : S.memory.heap.WellFormed) {r : Ref} {header : Header}
    (hr : S.memory.heap.header? r = some header) {heap : Heap}
    (hout : ∀ {i}, ¬ (r.slot ≤ i ∧ i < r.slot + header.span) →
      heap.slot? i = S.memory.heap.slot? i) :
    Retained (· ≠ .object r) S { S with memory := { S.memory with heap } } where
  header {r' header'} hne hr' := by
    have hdisjoint := hw.disjoint hr hr' (fun heq => hne (congrArg _ heq.symm)) r'.slot
    obtain ⟨hpos, hslot⟩ := Heap.header?_eq_some.mp hr'
    have hspan : 0 < header'.span := header'.data.span_pos
    exact Heap.header?_eq_some.mpr ⟨hpos, (hout (by omega)).trans hslot⟩
  slot {r' header' k} hne hr' hk := by
    have hdisjoint := hw.disjoint hr hr' (fun heq => hne (congrArg _ heq.symm)) (r'.slot + k)
    exact hout (by omega)
  scope _ hs := hs
  suspended := rfl
  managed := rfl
  permanent := rfl
  guarded := rfl
  threads := rfl
  stack := rfl
  entered := rfl
  options := rfl

/-- Filling an array writes its elements and nothing else. -/
theorem exec_fillArray {S : Session} (hw : S.memory.heap.WellFormed) {r : Ref} {values : List Value}
    (hr : S.memory.heap.header? r = some ⟨.array values.length, false⟩) :
    ∃ heap, (fillArray r values).exec S = (.ok (), { S with memory := { S.memory with heap } }) ∧
      heap.WellFormed ∧ heap.header? r = some ⟨.array values.length, false⟩ ∧
      (∀ {k v}, values[k]? = some v → heap.slot? (r.slot + (k + 1)) = some (.data v)) ∧
      ∀ {i}, ¬ (r.slot ≤ i ∧ i < r.slot + (values.length + 1)) →
        heap.slot? i = S.memory.heap.slot? i := by
  have hslot := Heap.header?_eq_some.mp hr
  obtain ⟨heap, hfold, hw', hslots⟩ := Heap.foldlM_write hw r values 0 fun j hj =>
    hw.tiled.coherent.body hslot.2 (by omega) (by simp only [Header.span, ObjectData.span]; omega)
  refine ⟨heap, ?_, hw', ?_, fun {k v} hk => ?_, fun hi => ?_⟩
  · refine exec_modifyMemory ?_
    rw [hfold]
    rfl
  · exact Heap.header?_eq_some.mpr ⟨hslot.1, (by rw [hslots, if_neg (by omega), hslot.2])⟩
  · have hlt := (List.getElem?_eq_some_iff.mp hk).1
    rw [hslots, if_pos (by omega), show r.slot + (k + 1) - (r.slot + 0 + 1) = k by omega, hk]
    rfl
  · rw [hslots, if_neg (by omega)]

/-! ## New objects -/

/-- What making an object comes to, when `values` and `scope` are held meanwhile. -/
structure Makes (S : Session) (values : List Value) (scope : Option ScopeId) (data : ObjectData)
    (elements : List Value) (f : Ref → Ref) (outcome : Except Stop Ref) (T : Session) : Prop where
  /-- What can be reached from the session or from what is held is carried over along `f`. -/
  carried : Carried f (S.ReachesWith values scope) S T
  wellFormed : T.memory.heap.WellFormed
  /-- The only way to fail is that there is no memory. -/
  stopped : ∀ {stop}, outcome = .error stop →
    ∃ available, stop = .fault (.outOfMemory data.span available)
  /-- The new object is none of those carried over. -/
  new : ∀ {r}, outcome = .ok r → ∀ {h}, S.ReachesWith values scope (.object h) → f h ≠ r
  /-- It has the data and the elements that were given, with their references replaced. -/
  header : ∀ {r}, outcome = .ok r →
    ∃ data', T.memory.heap.header? r = some ⟨data', false⟩ ∧ data.Renamed f data'
  element : ∀ {r}, outcome = .ok r → ∀ {k v}, elements[k]? = some v →
    ∃ v', T.memory.heap.slot? (r.slot + (k + 1)) = some (.data v') ∧ v.Renamed f v'

section Makes

variable {S T U : Session} {values elements : List Value} {scope : Option ScopeId}
  {data : ObjectData} {f : Ref → Ref} {r : Ref} {n : Nat}

/-- An allocation that fails makes nothing. -/
theorem Carried.makes_nothing (hcarried : Carried f (S.ReachesWith values scope) S T)
    (hw : T.memory.heap.WellFormed) (available : Nat) :
    Makes S values scope data elements f (.error (.fault (.outOfMemory data.span available))) T where
  carried := hcarried
  wellFormed := hw
  stopped h := ⟨available, (Except.error.inj h).symm⟩
  new h := nomatch h
  header h := nomatch h
  element h := nomatch h

/-- A new block that is written makes an object. -/
theorem Fresh.makes (hfresh : Fresh f (S.ReachesWith values scope) T n r)
    (hcarried : Carried f (S.ReachesWith values scope) S T)
    (hretained : Retained (· ≠ .object r) T U) (hw : U.memory.heap.WellFormed)
    {data' : ObjectData} (hheader : U.memory.heap.header? r = some ⟨data', false⟩)
    (hdata : data.Renamed f data')
    (helement : ∀ {k v}, elements[k]? = some v →
      ∃ v', U.memory.heap.slot? (r.slot + (k + 1)) = some (.data v') ∧ v.Renamed f v') :
    Makes S values scope data elements f (.ok r) U where
  carried := by
    refine hcarried.retained hretained fun {c} hc => ?_
    cases c with
    | scope id => exact fun h => nomatch h
    | object h => exact fun heq => hfresh.new hc (Cell.object.inj heq)
  wellFormed := hw
  stopped h := nomatch h
  new h := by cases h; exact hfresh.new
  header h := by cases h; exact ⟨data', hheader, hdata⟩
  element h := by cases h; exact helement

/-- Reports do not count. -/
theorem Makes.report {outcome : Except Stop Ref} (h : Makes S values scope data elements f outcome T)
    (e : Event) :
    Makes S values scope data elements f outcome { T with events := T.events.push e } where
  carried :=
    let h := h.carried
    ⟨h.null, h.injective, h.header, h.element, h.scope, h.suspended, h.managed, h.permanent,
      h.guarded, h.threads, h.stack, h.entered, h.options⟩
  wellFormed := h.wellFormed
  stopped := h.stopped
  new := h.new
  header := h.header
  element := h.element

/-- It is enough to know more of what is held. -/
theorem Makes.mono {outcome : Except Stop Ref} {values' : List Value}
    (h : Makes S values scope data elements f outcome T)
    (hvalues : ∀ {v}, v ∈ values' → v ∈ values) :
    Makes S values' scope data elements f outcome T where
  carried := h.carried.mono (ReachesWith.mono hvalues)
  wellFormed := h.wellFormed
  stopped := h.stopped
  new h' _ hr := h.new h' (hr.mono hvalues)
  header := h.header
  element := h.element

end Makes

theorem newArray_guarded {S : Session} (hw : S.memory.heap.WellFormed) (elements : List Value) :
    ∃ f, Makes S elements none (.array elements.length) elements f
      ((newArray elements).exec S).1 ((newArray elements).exec S).2 := by
  obtain ⟨f, T, now, hcarried, hwT, hnow, hexec⟩ :=
    allocateHolding_spec hw (Nat.succ_pos elements.length) elements none
  refine ⟨f, ?_⟩
  unfold newArray
  rcases hexec with ⟨r, hexec, hfresh⟩ | ⟨available, hexec⟩
  · have hlength : elements.length = now.length := hnow.length_eq
    have hblank : T.memory.heap.header? r = some ⟨.array now.length, false⟩ := by
      rw [hfresh.header, ← hlength]
      rfl
    obtain ⟨heap, hfill, hwheap, hheader, helement, hout⟩ := exec_fillArray hwT hblank
    have hretained := retained_of_within hwT hblank hout
    rw [exec_bind_ok hexec]
    dsimp only
    rw [exec_bind_ok hfill, exec_bind_ok (exec_report _ _), exec_pure]
    refine (hfresh.makes hcarried hretained hwheap hheader ?_ fun {k v} hk => ?_).report _
    · rw [← hlength]
      exact .array _
    · have hlt : k < now.length := hlength ▸ (List.getElem?_eq_some_iff.mp hk).1
      have hv := (List.getElem?_eq_some_iff.mp hk).2
      refine ⟨now[k], helement (List.getElem?_eq_getElem hlt), ?_⟩
      rw [← hv]
      exact hnow.get _ _
  · rw [exec_bind_error hexec]
    exact hcarried.makes_nothing hwT available

theorem lookup_zip_of_mem {f : Ref → Ref} {held : List Ref} {now : List Value}
    (h : List.Forall₂ (Value.Renamed f) (held.map Value.ref) now) {r : Ref} (hr : r ∈ held) :
    (held.zip now).lookup r = some (.ref (f r)) := by
  induction held generalizing now with
  | nil => cases hr
  | cons first rest ih =>
    obtain ⟨v, now, hv, hrest, rfl⟩ := List.forall₂_cons_left_iff.mp h
    rw [List.zip_cons_cons, List.lookup_cons]
    by_cases heq : r = first
    · subst heq
      cases hv with
      | ref => simp
      | plain hplain => exact absurd rfl (hplain r)
    · rw [beq_false_of_ne heq]
      exact ih hrest ((List.mem_cons.mp hr).resolve_left heq)

theorem lookup_zip_of_not_mem {held : List Ref} (now : List Value) {r : Ref} (hr : r ∉ held) :
    (held.zip now).lookup r = none := by
  rw [List.lookup_eq_none_iff]
  intro p hp
  exact bne_iff_ne.mpr fun heq => hr (heq ▸ (List.of_mem_zip hp).1)

/-- The references read back after an allocation are those it has moved the held ones to. -/
theorem relocated_eq {f : Ref → Ref} {held : List Ref} {now : List Value}
    (h : List.Forall₂ (Value.Renamed f) (held.map Value.ref) now) {r : Ref} (hr : r ∈ held) :
    relocated held now r = f r := by
  rw [relocated, lookup_zip_of_mem h hr]

theorem ref_mem_of_held {f : Ref → Ref} {held : List Ref} {now : List Value}
    (h : List.Forall₂ (Value.Renamed f) (held.map Value.ref) now) {r : Ref} (hr : r ∈ held) :
    .ref (f r) ∈ now := by
  obtain ⟨before, after, hzip, -⟩ := List.lookup_eq_some_iff.mp (lookup_zip_of_mem h hr)
  have hmem : (r, Value.ref (f r)) ∈ held.zip now := by
    rw [hzip]
    exact List.mem_append_right _ List.mem_cons_self
  exact (List.of_mem_zip hmem).2

theorem relocated_null {f : Ref → Ref} {held : List Ref} {now : List Value}
    (h : List.Forall₂ (Value.Renamed f) (held.map Value.ref) now) (hnull : f .null = .null) :
    relocated held now .null = .null := by
  by_cases hr : Ref.null ∈ held
  · rw [relocated_eq h hr, hnull]
  · rw [relocated, lookup_zip_of_not_mem now hr]

end Session

/-- The references of a header that have been replaced were there before. -/
theorem ObjectData.exists_of_mem_references_mapRefs {f : Ref → Ref} (hnull : f .null = .null)
    {d : ObjectData} {r' : Ref} (h : r' ∈ (d.mapRefs f).references) :
    ∃ r ∈ d.references, f r = r' := by
  cases d with
  | array length => cases h
  | instanceOf classRef scope =>
    exact ⟨classRef, List.mem_singleton_self _, (List.mem_singleton.mp h).symm⟩
  | classDef c =>
    simp only [mapRefs, references, List.mem_append, Option.mem_toList, Option.map_eq_some_iff,
      List.mem_map] at h ⊢
    grind
  | moduleOf name scope => cases h
  | callable c =>
    simp only [mapRefs, references, Option.mem_toList, Option.map_eq_some_iff] at h ⊢
    exact h
  | native typeName payload =>
    cases payload with
    | ref r =>
      by_cases hr : r.isNull = true
      · obtain rfl := Ref.isNull_iff.mp hr
        simp [mapRefs, references, Value.mapRef, Value.reference?, hnull] at h
      · simp only [mapRefs, references, Value.mapRef, Value.reference?, hr] at h ⊢
        split at h
        · cases h
        · exact ⟨r, List.mem_singleton_self _, (List.mem_singleton.mp h).symm⟩
    | _ => cases h

namespace Session

open Run

/-- The elements that a new object has. -/
def initialElements : ObjectData → List Value
  | .array length => List.replicate length .null
  | _ => []

theorem exec_init {S : Session} (hw : S.memory.heap.WellFormed) {r : Ref} (data : ObjectData)
    (hr : S.memory.heap.header? r = some ⟨.array 0, false⟩) (hspan : data.span = 1) :
    ∃ heap, (Run.modifyMemory fun m => m.init r ⟨data, false⟩).exec S =
        (.ok (), { S with memory := { S.memory with heap } }) ∧
      heap.WellFormed ∧ heap.header? r = some ⟨data, false⟩ ∧
      ∀ {i}, ¬ (r.slot ≤ i ∧ i < r.slot + 1) → heap.slot? i = S.memory.heap.slot? i := by
  have hsame : Header.span ⟨.array 0, false⟩ = Header.span ⟨data, false⟩ := hspan.symm
  refine ⟨S.memory.heap.setHeader r ⟨data, false⟩, exec_modifyMemory ?_,
    hw.setHeader hr hsame rfl, ?_, fun hi => ?_⟩
  · have hheader : S.memory.header r = .ok ⟨.array 0, false⟩ := by
      rw [Memory.header, Heap.header, hr]
    rw [Memory.init, hheader]
    change (if Header.span ⟨.array 0, false⟩ = Header.span ⟨data, false⟩ then _ else _) = _
    rw [if_pos hsame]
    rfl
  · rw [Heap.header?_setHeader hr, if_pos rfl]
  · rw [Heap.slot?_setHeader hr, if_neg (by omega)]

theorem newObject_of_span {data : ObjectData} (h : ∀ length, data ≠ .array length) :
    data.span = 1 ∧ initialElements data = [] ∧ newObject data = do
      let (r, now) ← allocateHolding 1 (data.references.map Value.ref) data.scope?
      Run.modifyMemory fun m => m.init r ⟨data.mapRefs (relocated data.references now), false⟩
      Run.report (.allocatedObject r)
      return r := by
  unfold newObject
  cases data with
  | array length => exact absurd rfl (h length)
  | _ => exact ⟨rfl, rfl, rfl⟩

theorem newObject_guarded {S : Session} (hw : S.memory.heap.WellFormed) (data : ObjectData) :
    ∃ f, Makes S (data.references.map Value.ref) data.scope? data (initialElements data) f
      ((newObject data).exec S).1 ((newObject data).exec S).2 := by
  by_cases harray : ∃ length, data = .array length
  · obtain ⟨length, rfl⟩ := harray
    obtain ⟨f, hmakes⟩ := newArray_guarded hw (List.replicate length .null)
    rw [List.length_replicate] at hmakes
    exact ⟨f, hmakes.mono fun hv => nomatch hv⟩
  · obtain ⟨hspan, helements, hnew⟩ := newObject_of_span fun length h => harray ⟨length, h⟩
    obtain ⟨f, T, now, hcarried, hwT, hnow, hexec⟩ :=
      allocateHolding_spec hw Nat.one_pos (data.references.map Value.ref) data.scope?
    refine ⟨f, ?_⟩
    rw [hnew, helements]
    rcases hexec with ⟨r, hexec, hfresh⟩ | ⟨available, hexec⟩
    · have hdata : data.mapRefs (relocated data.references now) = data.mapRefs f :=
        ObjectData.mapRefs_congr (fun _ => relocated_eq hnow)
          ((relocated_null hnow hcarried.null).trans hcarried.null.symm)
      obtain ⟨heap, hinit, hwheap, hheader, hout⟩ := exec_init hwT (data.mapRefs f)
        hfresh.header (by rw [ObjectData.span_mapRefs, hspan])
      have hretained := retained_of_within hwT hfresh.header hout
      rw [exec_bind_ok hexec]
      dsimp only
      rw [hdata, exec_bind_ok hinit, exec_bind_ok (exec_report _ _), exec_pure]
      exact (hfresh.makes hcarried hretained hwheap hheader (data.renamed_mapRefs f)
        fun h => by simp at h).report _
    · rw [exec_bind_error hexec, ← hspan]
      exact hcarried.makes_nothing hwT available

/-- **Guarded allocation never strands its inputs.** Whatever an allocation has to do to find room
and however it ends, all that could be reached from the session, from the elements or from the data
of the new object is carried over along one function, and the new object is written with references
replaced along it. -/
theorem guarded_allocation {S : Session} (hw : S.memory.heap.WellFormed) :
    (∀ elements, ∃ f, Makes S elements none (.array elements.length) elements f
      ((newArray elements).exec S).1 ((newArray elements).exec S).2) ∧
    ∀ data, ∃ f, Makes S (data.references.map Value.ref) data.scope? data (initialElements data) f
      ((newObject data).exec S).1 ((newObject data).exec S).2 :=
  ⟨newArray_guarded hw, newObject_guarded hw⟩

/-- On a heap with gaps, a new array that holds an object that may be moved. -/
theorem guarded_allocation_gapped : gapped.memory.heap.WellFormed ∧
    ∃ f, Makes gapped [.ref ⟨5⟩] none (.array 1) [.ref ⟨5⟩] f
      ((newArray [.ref ⟨5⟩]).exec gapped).1 ((newArray [.ref ⟨5⟩]).exec gapped).2 :=
  ⟨Heap.gapped_wellFormed, (guarded_allocation Heap.gapped_wellFormed).1 [.ref ⟨5⟩]⟩

end Session

end ScriptCore
