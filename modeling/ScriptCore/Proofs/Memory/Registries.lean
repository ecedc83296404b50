import ScriptCore.Proofs.Compact.Moving
import ScriptCore.Proofs.Heap.Fitting
import ScriptCore.Proofs.Memory.Runs
import Mathlib.Data.List.Nodup

/-!
# The registries of outside roots

The managed and the permanent references of a memory are lists of slot numbers beside a heap whose
slots are freed, taken again and renumbered. `Heap.Keeps` says that an object is still there, at the
place to which a function sends its reference. `Request.keeps` proves that a request keeps every
object that it neither frees nor finds unreachable, `Request.Revised` says what a request makes of a
registry, and `registries_exact` puts the two together for whole runs.
-/

namespace ScriptCore

/-! ## Objects that stay -/

namespace Heap

/-- The object at `r` in `h` is the one at `f r` in `h'`. It has as many slots, and each cell,
except the `written` ones, holds what it held, with references replaced by `f`. -/
structure Keeps (f : Ref → Ref) (written : Nat → Prop) (r : Ref) (h h' : Heap) : Prop where
  object : ∃ header header', h.header? r = some header ∧ h'.header? (f r) = some header' ∧
    header'.span = header.span
  cell : ∀ {header}, h.header? r = some header → ∀ {k}, k < header.span → ¬ written k →
    h'.slot? ((f r).slot + k) = (h.slot? (r.slot + k)).map (·.mapRefs f)

theorem Keeps.live {f : Ref → Ref} {written : Nat → Prop} {r : Ref} {h h' : Heap}
    (hk : Keeps f written r h h') : (h'.header? (f r)).isSome = true := by
  obtain ⟨-, header', -, hr', -⟩ := hk.object
  rw [hr']
  rfl

theorem Keeps.trans {f g : Ref → Ref} {written written' : Nat → Prop} {r : Ref} {h h' h'' : Heap}
    (hk : Keeps f written r h h') (hk' : Keeps g written' (f r) h' h'') :
    Keeps (g ∘ f) (fun k => written k ∨ written' k) r h h'' := by
  obtain ⟨header, header', hr, hr', hspan⟩ := hk.object
  obtain ⟨first, header'', hfirst, hr'', hspan'⟩ := hk'.object
  obtain rfl : first = header' := Option.some.inj (hfirst.symm.trans hr')
  refine ⟨⟨header, header'', hr, hr'', hspan'.trans hspan⟩, ?_⟩
  intro old hold k hk₀ hwritten
  obtain rfl : old = header := Option.some.inj (hold.symm.trans hr)
  rw [not_or] at hwritten
  rw [Function.comp_apply, hk'.cell hr' (by omega) hwritten.2, hk.cell hr hk₀ hwritten.1,
    Option.map_map]
  exact congrArg (Option.map · _) (funext fun cell => cell.mapRefs_mapRefs f g)

/-- An object stays where it is if a header of its size does and its unwritten cells do. -/
theorem Keeps.of_slot? {written : Nat → Prop} {r : Ref} {h h' : Heap} {header header' : Header}
    (hr : h.header? r = some header) (hr' : h'.header? r = some header')
    (hspan : header'.span = header.span)
    (hslot : ∀ k, k < header.span → ¬ written k → h'.slot? (r.slot + k) = h.slot? (r.slot + k)) :
    Keeps id written r h h' := by
  refine ⟨⟨header, header', hr, hr', hspan⟩, ?_⟩
  intro old hold k hk hwritten
  obtain rfl : old = header := Option.some.inj (hold.symm.trans hr)
  rw [id_eq, hslot k hk hwritten]
  cases h.slot? (r.slot + k) with
  | none => rfl
  | some cell => rw [Option.map_some, Slot.mapRefs_id]

theorem Keeps.refl {written : Nat → Prop} {r : Ref} {h : Heap} (hr : (h.header? r).isSome = true) :
    Keeps id written r h h := by
  obtain ⟨header, hr⟩ := Option.isSome_iff_exists.mp hr
  exact .of_slot? hr hr rfl fun _ _ _ => rfl

variable {h h' : Heap} (hw : h.WellFormed) {r : Ref} {header : Header}
  (hr : h.header? r = some header)
include hw hr

theorem WellFormed.keeps_reserve {n : Nat} {new : Ref} (hres : h.reserve n = some (new, h'))
    (written : Nat → Prop) : Keeps id written r h h' := by
  have hreserved := hw.reserved hres
  have hne : r ≠ new := by
    rintro rfl
    rw [hreserved.header?_eq_none] at hr
    cases hr
  exact .of_slot? hr ((hreserved.header?_of_ne hne).trans hr) rfl
    fun k hk _ => hreserved.slot?_kept hw hr hk

theorem WellFormed.keeps_release {other : Ref} {header' : Header}
    (hother : h.header? other = some header') (hne : other ≠ r) (written : Nat → Prop) :
    Keeps id written r h (h.release other header'.span) := by
  obtain ⟨hpos, hslot⟩ := header?_eq_some.mp hr
  have hkept : ∀ k, k < header.span →
      (h.release other header'.span).slot? (r.slot + k) = h.slot? (r.slot + k) := by
    intro k hk
    rw [hw.tiled.coherent.slot?_release (header?_eq_some.mp hother).2, if_neg]
    exact fun hi => hw.disjoint hother hr hne _ ⟨hi, by omega, by omega⟩
  refine .of_slot? hr (header?_eq_some.mpr ⟨hpos, ?_⟩) rfl fun k hk _ => hkept k hk
  rw [← hslot]
  exact hkept 0 header.data.span_pos

theorem WellFormed.keeps_setHeader {other : Ref} {old new : Header}
    (hother : h.header? other = some old) (hspan : new.span = old.span) :
    Keeps id (fun k => other = r ∧ k = 0) r h (h.setHeader other new) := by
  have hslot : ∀ k, k < header.span → ¬ (other = r ∧ k = 0) →
      (h.setHeader other new).slot? (r.slot + k) = h.slot? (r.slot + k) := by
    intro k hk hwritten
    rw [slot?_setHeader hother, if_neg]
    -- within an object there is one header only
    intro hi
    have heq := hw.tiled.coherent.eq_of_slot?_object (header?_eq_some.mp hr).2
      (header?_eq_some.mp hother).2 (by omega) (by omega)
    exact hwritten ⟨congrArg Ref.mk heq, by omega⟩
  by_cases heq : r = other
  · subst heq
    obtain rfl : old = header := Option.some.inj (hother.symm.trans hr)
    exact .of_slot? hr (by rw [header?_setHeader hother, if_pos rfl]) hspan hslot
  · exact .of_slot? hr (by rw [header?_setHeader hother, if_neg heq, hr]) rfl hslot

theorem WellFormed.keeps_write {other : Ref} {old : Header} (hother : h.header? other = some old)
    {j : Nat} (hj : j + 1 < old.span) {v : Value}
    (hwrite : h.write (other.slot + (j + 1)) v = .ok h') :
    Keeps id (fun k => other = r ∧ k = j + 1) r h h' := by
  obtain ⟨-, -, hslots⟩ := write_eq_ok hwrite
  obtain ⟨hpos, hat⟩ := header?_eq_some.mp hr
  have hslot : ∀ k, k < header.span → ¬ (other = r ∧ k = j + 1) →
      h'.slot? (r.slot + k) = h.slot? (r.slot + k) := by
    intro k hk hwritten
    rw [hslots, if_neg]
    intro hi
    by_cases heq : other = r
    · subst heq
      exact hwritten ⟨rfl, by omega⟩
    · exact hw.disjoint hother hr heq (r.slot + k) ⟨⟨by omega, by omega⟩, by omega, by omega⟩
  refine .of_slot? hr (header?_eq_some.mpr ⟨hpos, ?_⟩) rfl hslot
  rw [← hat]
  exact hslot 0 header.data.span_pos (by omega)

end Heap

/-! ## What a request does to an object -/

namespace Request

/-- Where an object is once the request has been carried out. -/
def moved (s : Memory × Arena) : Request → Ref → Ref
  | compact => (ScriptCore.compact s.1 s.2).1.resolve
  | _ => id

/-- The request is to free the whole object at `r`, and it is not refused. -/
def Frees (m : Memory) (r : Ref) (request : Request) : Prop :=
  ∃ header m', m.heap.header? r = some header ∧ request = .free r header.span ∧
    m.free r header.span = .ok m'

/-- The request is to write to cell `k` of the object at `r`. -/
def Writes (r : Ref) (k : Nat) : Request → Prop
  | init other _ | set other _ => other = r ∧ k = 0
  | writeElement other index _ => other = r ∧ index.toInt = (k : Int) - 1
  | _ => False

variable {s : Memory × Arena} (hs : s.1.Sound)
include hs

/-- With checking on, what is freed is an object in its full length. -/
theorem frees_of_free_eq_ok {r : Ref} {length : Nat} {m' : Memory}
    (h : s.1.free r length = .ok m') :
    (Request.free r length).Frees s.1 r ∧ ∃ header, s.1.heap.header? r = some header ∧
      m'.heap = s.1.heap.release r header.span := by
  obtain ⟨⟨⟩, hcheck, hm'⟩ := Memory.bind_eq_ok.mp h
  obtain ⟨header, hr, rfl⟩ := hs.checkFree hcheck
  cases hm'
  exact ⟨⟨header, _, hr, rfl, h⟩, header, hr, rfl⟩

/-- **A request keeps an object**, at the place it is moved to, if it does not free it and does not
collect it as unreachable. -/
theorem keeps (request : Request) {r : Ref} (hlive : (s.1.heap.header? r).isSome = true)
    (hfree : ¬ request.Frees s.1 r)
    (hreach : ∀ extra, request = .collect extra → Reachable s.1 s.2 extra (.object r)) :
    Heap.Keeps (request.moved s) (request.Writes r) r s.1.heap (request.apply s).1.heap := by
  obtain ⟨m, a⟩ := s
  have hw : m.heap.WellFormed := hs.wellFormed
  obtain ⟨header, hr⟩ := Option.isSome_iff_exists.mp hlive
  cases request with
  | allocate size =>
    rw [apply]
    cases h : m.tryAllocate size with
    | none => exact .refl hlive
    | some result =>
      obtain ⟨heap, hres, hm⟩ := Memory.tryAllocate_eq_some.mp h
      rw [Option.map_some, Option.getD_some, hm]
      exact hw.keeps_reserve hr hres _
  | init other data =>
    rw [apply]
    cases h : m.init other ⟨data, false⟩ with
    | error _ => exact .refl hlive
    | ok m' =>
      obtain ⟨old, hold, hspan, rfl⟩ := Memory.init_eq_ok h
      exact hw.keeps_setHeader hr hold hspan.symm
  | set other data =>
    rw [apply]
    cases h : m.setData other data with
    | error _ => exact .refl hlive
    | ok m' =>
      obtain ⟨old, hold, hspan, rfl⟩ := Memory.setData_eq_ok h
      exact hw.keeps_setHeader hr hold hspan
  | free other length =>
    rw [apply]
    cases h : m.free other length with
    | error _ => exact .refl hlive
    | ok m' =>
      obtain ⟨hfrees, header', hother, hheap⟩ := frees_of_free_eq_ok hs h
      have hne : other ≠ r := by
        rintro rfl
        exact hfree hfrees
      rw [Memory.orKeep, hheap]
      exact hw.keeps_release hr hother hne _
  | writeElement other index v =>
    rw [apply]
    cases h : m.writeElement other index v with
    | error _ => exact .refl hlive
    | ok m' =>
      obtain ⟨old, j, heap, hother, hindex, hj, hwrite, rfl⟩ := Memory.writeElement_eq_ok h
      have hwritten : (Request.writeElement other index v).Writes r = fun k =>
          other = r ∧ k = j + 1 := by
        funext k
        simp only [Writes, hindex, eq_iff_iff, and_congr_right_iff]
        omega
      rw [hwritten]
      exact hw.keeps_write hr hother hj hwrite
  | manage _ | unmanage _ | makePermanent _ | scopes _ => exact .refl hlive
  | collect extra =>
    have hr' := (header?_collect a extra hw).mpr ⟨hr, hreach extra rfl⟩
    exact .of_slot? hr hr' rfl fun k hk _ => slot?_collect a extra hw hr' hk
  | compact =>
    refine ⟨⟨header, _, hr, header?_compact_resolve a hw hr, ObjectData.span_mapRefs _ _⟩, ?_⟩
    intro old hold k hk _
    exact slot?_compact_resolve a hw hold hk

/-- Different objects are not moved to one place. -/
theorem moved_injective (request : Request) {r r' : Ref}
    (hr : (s.1.heap.header? r).isSome = true) (hr' : (s.1.heap.header? r').isSome = true)
    (h : request.moved s r = request.moved s r') : r = r' := by
  obtain ⟨header, hr⟩ := Option.isSome_iff_exists.mp hr
  obtain ⟨header', hr'⟩ := Option.isSome_iff_exists.mp hr'
  cases request with
  | compact => exact hs.wellFormed.tiled.resolve_injective hr hr' h
  | _ => exact h

end Request

/-! ## What a request does to a registry -/

/-- The entries of a list are objects, each listed once. -/
structure Heap.Roster (h : Heap) (refs : List Ref) : Prop where
  nodup : refs.Nodup
  live : ∀ {r}, r ∈ refs → (h.header? r).isSome = true

theorem Memory.mem_register_iff {r r' : Ref} {refs : List Ref} :
    r' ∈ Memory.register r refs ↔ r' ∈ refs ∨ r' = r ∧ r ≠ .null := by
  unfold Memory.register
  split
  · rename_i h
    rw [Bool.or_eq_true, Ref.isNull_iff, List.contains_iff_mem] at h
    grind
  · rename_i h
    rw [Bool.or_eq_true, not_or, Ref.isNull_iff] at h
    simp [h.1]

theorem Heap.Roster.register {h : Heap} {refs : List Ref} (hrefs : h.Roster refs) {r : Ref}
    (hr : r = .null ∨ (h.header? r).isSome = true) : h.Roster (Memory.register r refs) where
  nodup := by
    unfold Memory.register
    split
    · exact hrefs.nodup
    · rename_i hnew
      rw [Bool.or_eq_true, not_or, List.contains_iff_mem] at hnew
      refine List.nodup_append.mpr ⟨hrefs.nodup, List.pairwise_singleton _ r, ?_⟩
      rintro r' hr' _ hr rfl
      exact hnew.2 (List.mem_singleton.mp hr ▸ hr')
  live := by
    intro r' hr'
    rcases Memory.mem_register_iff.mp hr' with hr' | ⟨rfl, hnull⟩
    · exact hrefs.live hr'
    · exact hr.resolve_left hnull

namespace Request

/-- What a request makes of a registry: some entries are `gone` and the others follow their objects,
or an entry is added and all else stays. -/
inductive Revised (request : Request) (s : Memory × Arena) (add : Ref → Request)
    (gone : Ref → Prop) (refs : List Ref) : List Ref → Prop
  | follow {kept : List Ref} (hsub : kept.Sublist refs)
      (hmem : ∀ {r}, r ∈ kept ↔ r ∈ refs ∧ ¬ gone r) (hadd : ∀ r, request ≠ add r) :
      Revised request s add gone refs (kept.map (request.moved s))
  | enter {r : Ref} (hadd : request = add r) (hmoved : request.moved s = id)
      (hgone : ∀ r, ¬ gone r) (hheap : (request.apply s).1.heap = s.1.heap) :
      Revised request s add gone refs (Memory.register r refs)

namespace Revised

variable {request : Request} {s : Memory × Arena} {add : Ref → Request} {gone : Ref → Prop}
  {refs refs' : List Ref}

/-- Nothing is gone and nothing has moved. -/
theorem stay (hrefs : refs' = refs) (hmoved : request.moved s = id) (hgone : ∀ r, ¬ gone r)
    (hadd : ∀ r, request ≠ add r) : request.Revised s add gone refs refs' := by
  subst hrefs
  have h : request.Revised s add gone refs' (refs'.map (request.moved s)) :=
    .follow (List.Sublist.refl _) (fun {r} => by simp [hgone r]) hadd
  rwa [hmoved, List.map_id] at h

/-- One entry is gone. -/
theorem remove {r : Ref} (hmoved : request.moved s = id) (hgone : ∀ r', gone r' ↔ r' = r)
    (hadd : ∀ r, request ≠ add r) : request.Revised s add gone refs (refs.filter (· != r)) := by
  have h : request.Revised s add gone refs ((refs.filter (· != r)).map (request.moved s)) :=
    .follow List.filter_sublist (fun {r'} => by simp [hgone r']) hadd
  rwa [hmoved, List.map_id] at h

theorem mem_iff (h : request.Revised s add gone refs refs') (hinj : Function.Injective add)
    {r' : Ref} : r' ∈ refs' ↔
      (∃ r ∈ refs, ¬ gone r ∧ request.moved s r = r') ∨ (request = add r' ∧ r' ≠ .null) := by
  cases h with
  | follow hsub hmem hadd =>
    rw [List.mem_map]
    constructor
    · rintro ⟨r, hr, rfl⟩
      obtain ⟨hr, hkept⟩ := hmem.mp hr
      exact .inl ⟨r, hr, hkept, rfl⟩
    · rintro (⟨r, hr, hkept, rfl⟩ | ⟨h, -⟩)
      · exact ⟨r, hmem.mpr ⟨hr, hkept⟩, rfl⟩
      · exact absurd h (hadd r')
  | enter hadd hmoved hgone _ =>
    rw [Memory.mem_register_iff]
    constructor
    · rintro (hr | ⟨rfl, hnull⟩)
      · exact .inl ⟨r', hr, hgone r', congrFun hmoved r'⟩
      · exact .inr ⟨hadd, hnull⟩
    · rintro (⟨r, hr, -, rfl⟩ | ⟨h, hnull⟩)
      · rw [hmoved]
        exact .inl hr
      · obtain rfl := hinj (hadd.symm.trans h)
        exact .inr ⟨rfl, hnull⟩

end Revised

/-- A request to free takes one entry off or is refused. -/
theorem revised_free {s : Memory × Arena} (hs : s.1.Sound) {add : Ref → Request} {r : Ref}
    {length : Nat} (hadd : ∀ r', Request.free r length ≠ add r') {gone : Ref → Prop}
    (hgone : ∀ r', gone r' ↔ (Request.free r length).Frees s.1 r') {refs refs' : List Ref}
    (hfreed : ∀ {m'}, s.1.free r length = .ok m' → refs' = refs.filter (· != r))
    (hrefused : ∀ {fault}, s.1.free r length = .error fault → refs' = refs) :
    (Request.free r length).Revised s add gone refs refs' := by
  cases h : s.1.free r length with
  | ok m' =>
    rw [hfreed h]
    refine .remove rfl (fun r' => ?_) hadd
    rw [hgone]
    constructor
    · rintro ⟨header, -, -, heq, -⟩
      exact (Request.free.inj heq).1.symm
    · rintro rfl
      exact (frees_of_free_eq_ok hs h).1
  | error fault =>
    refine .stay (hrefused h) rfl (fun r' => ?_) hadd
    rw [hgone]
    rintro ⟨header, m', -, heq, hok⟩
    obtain ⟨rfl, rfl⟩ := Request.free.inj heq
    rw [h] at hok
    cases hok

/-- Whether the request is none of those that change registries. -/
def Plain : Request → Prop
  | free .. | manage _ | unmanage _ | makePermanent _ | compact => False
  | _ => True

theorem Plain.apply {request : Request} (h : request.Plain) (s : Memory × Arena) :
    (request.apply s).1.managed = s.1.managed ∧ (request.apply s).1.permanent = s.1.permanent := by
  obtain ⟨m, a⟩ := s
  cases request with
  | allocate size =>
    rw [Request.apply]
    cases hres : m.tryAllocate size with
    | none => exact ⟨rfl, rfl⟩
    | some result =>
      obtain ⟨heap, -, hm⟩ := Memory.tryAllocate_eq_some.mp hres
      rw [Option.map_some, Option.getD_some, hm]
      exact ⟨rfl, rfl⟩
  | init r data =>
    rw [Request.apply]
    cases hres : m.init r ⟨data, false⟩ with
    | error _ => exact ⟨rfl, rfl⟩
    | ok m' =>
      obtain ⟨old, -, -, rfl⟩ := Memory.init_eq_ok hres
      exact ⟨rfl, rfl⟩
  | set r data =>
    rw [Request.apply]
    cases hres : m.setData r data with
    | error _ => exact ⟨rfl, rfl⟩
    | ok m' =>
      obtain ⟨old, -, -, rfl⟩ := Memory.setData_eq_ok hres
      exact ⟨rfl, rfl⟩
  | writeElement r index v =>
    rw [Request.apply]
    cases hres : m.writeElement r index v with
    | error _ => exact ⟨rfl, rfl⟩
    | ok m' =>
      obtain ⟨header, k, heap, -, -, -, -, rfl⟩ := Memory.writeElement_eq_ok hres
      exact ⟨rfl, rfl⟩
  | collect _ | scopes _ => exact ⟨rfl, rfl⟩
  | free _ _ | manage _ | unmanage _ | makePermanent _ | compact => exact h.elim

end Request

/-- A memory that checks frees, with a well-formed heap, in whose registries there are objects only,
each listed once. -/
structure Memory.Registered (m : Memory) : Prop where
  sound : m.Sound
  managed : m.heap.Roster m.managed
  permanent : m.heap.Roster m.permanent

theorem Memory.registered_new (size : Nat) : (Memory.new size true).Registered :=
  ⟨sound_new size, ⟨List.nodup_nil, nofun⟩, ⟨List.nodup_nil, nofun⟩⟩

/-- A list of roots in a memory, with the request that adds to it and those that take from it. -/
structure Registry where
  /-- The entries. -/
  entries : Memory → List Ref
  /-- The request that adds an entry. -/
  add : Ref → Request
  /-- Whether a request takes an entry off the list. -/
  Drops : Memory → Ref → Request → Prop
  add_injective : Function.Injective add
  drops_of_frees : ∀ {m r request}, Request.Frees m r request → Drops m r request
  root : ∀ {m a extra r}, r ∈ entries m → Root m a extra (.object r)
  roster : ∀ {m : Memory}, m.Registered → m.heap.Roster (entries m)
  revised : ∀ {s : Memory × Arena}, s.1.Sound → ∀ request : Request,
    request.Revised s add (Drops s.1 · request) (entries s.1) (entries (request.apply s).1)

namespace Registry

/-- The references that are managed. A request to unmanage or to free takes one off. -/
def managed : Registry where
  entries m := m.managed
  add := .manage
  Drops m r request := request = .unmanage r ∨ request.Frees m r
  add_injective _ _ h := Request.manage.inj h
  drops_of_frees := .inr
  root := .managed
  roster := Memory.Registered.managed
  revised := by
    rintro ⟨m, a⟩ hs request
    cases request with
    | manage r => exact .enter rfl rfl (by simp [Request.Frees]) rfl
    | unmanage r => exact .remove rfl (by simp [Request.Frees, eq_comm]) (by simp)
    | compact => exact .follow (List.Sublist.refl _) (by simp [Request.Frees]) (by simp)
    | free r length =>
      refine Request.revised_free hs (by simp) (by simp) (fun h => ?_) (fun h => ?_)
      · obtain ⟨⟨⟩, -, hm⟩ := Memory.bind_eq_ok.mp h
        rw [Request.apply, h, ← Except.ok.inj hm]
        rfl
      · rw [Request.apply, h]
        rfl
    | makePermanent r => exact .stay rfl rfl (by simp [Request.Frees]) (by simp)
    | allocate _ | init _ _ | set _ _ | writeElement _ _ _ | collect _ | scopes _ =>
      refine .stay (Request.Plain.apply ?_ (m, a)).1 rfl (by simp [Request.Frees]) (by simp)
      trivial

/-- The references that are kept for good. Only a request to free takes one off. -/
def permanent : Registry where
  entries m := m.permanent
  add := .makePermanent
  Drops m r request := request.Frees m r
  add_injective _ _ h := Request.makePermanent.inj h
  drops_of_frees := id
  root := .permanent
  roster := Memory.Registered.permanent
  revised := by
    rintro ⟨m, a⟩ hs request
    cases request with
    | makePermanent r => exact .enter rfl rfl (by simp [Request.Frees]) rfl
    | compact => exact .follow (List.Sublist.refl _) (by simp [Request.Frees]) (by simp)
    | free r length =>
      refine Request.revised_free hs (by simp) (by simp) (fun h => ?_) (fun h => ?_)
      · obtain ⟨⟨⟩, -, hm⟩ := Memory.bind_eq_ok.mp h
        rw [Request.apply, h, ← Except.ok.inj hm]
        rfl
      · rw [Request.apply, h]
        rfl
    | manage r | unmanage r => exact .stay rfl rfl (by simp [Request.Frees]) (by simp)
    | allocate _ | init _ _ | set _ _ | writeElement _ _ _ | collect _ | scopes _ =>
      refine .stay (Request.Plain.apply ?_ (m, a)).2 rfl (by simp [Request.Frees]) (by simp)
      trivial

/-! ## One request -/

variable (g : Registry) {s : Memory × Arena} (hs : s.1.Registered) {request : Request}
include hs

theorem mem_apply_iff {r' : Ref} : r' ∈ g.entries (request.apply s).1 ↔
    (∃ r ∈ g.entries s.1, ¬ g.Drops s.1 r request ∧ request.moved s r = r') ∨
      (request = g.add r' ∧ r' ≠ .null) :=
  (g.revised hs.sound request).mem_iff g.add_injective

/-- The object of an entry stays unless the entry is dropped. -/
theorem keeps {r : Ref} (hr : r ∈ g.entries s.1) (hkept : ¬ g.Drops s.1 r request) :
    Heap.Keeps (request.moved s) (request.Writes r) r s.1.heap (request.apply s).1.heap :=
  have hlive := (g.roster hs).live hr
  request.keeps hs.sound hlive (fun hfrees => hkept (g.drops_of_frees hfrees))
    fun _ _ => .root (g.root hr) hlive

/-- A request leaves a registry with objects only, each listed once, if what it adds is one. -/
theorem roster_apply
    (hadd : ∀ r, request = g.add r → r = .null ∨ (s.1.heap.header? r).isSome = true) :
    (request.apply s).1.heap.Roster (g.entries (request.apply s).1) := by
  have hg := g.roster hs
  have hrevised := g.revised hs.sound request
  generalize g.entries (request.apply s).1 = refs' at hrevised
  cases hrevised with
  | follow hsub hmem _ =>
    refine ⟨?_, fun {r'} hr' => ?_⟩
    · refine List.Nodup.map_on (fun r hr r' hr' => ?_) (hg.nodup.sublist hsub)
      exact request.moved_injective hs.sound (hg.live (hsub.subset hr)) (hg.live (hsub.subset hr'))
    · obtain ⟨r, hr, rfl⟩ := List.mem_map.mp hr'
      obtain ⟨hr, hkept⟩ := hmem.mp hr
      exact (g.keeps hs hr hkept).live
  | enter hrequest _ _ hheap =>
    rw [hheap]
    exact hg.register (hadd _ hrequest)

end Registry

/-! ## Runs -/

/-- Whether the request registers null or an object, if it registers anything. -/
def Request.Careful (m : Memory) : Request → Prop
  | manage r | makePermanent r => r = .null ∨ (m.heap.header? r).isSome = true
  | _ => True

/-- Every request of a run is careful when it is made. -/
def Careful : List Request → Memory × Arena → Prop
  | [], _ => True
  | request :: rest, s => request.Careful s.1 ∧ Careful rest (request.apply s)

/-- Where an object is after a run. -/
def track : List Request → Memory × Arena → Ref → Ref
  | [], _ => id
  | request :: rest, s => track rest (request.apply s) ∘ request.moved s

/-- At some point of a run a request does something to the object that was at `r` at first. -/
def Befalls (event : Memory → Ref → Request → Prop) : List Request → Memory × Arena → Ref → Prop
  | [], _, _ => False
  | request :: rest, s, r =>
    event s.1 r request ∨ Befalls event rest (request.apply s) (request.moved s r)

theorem careful_append {before after : List Request} {s : Memory × Arena} :
    Careful (before ++ after) s ↔ Careful before s ∧ Careful after (serve before s) := by
  induction before generalizing s with
  | nil => simp [Careful, serve]
  | cons request rest ih =>
    rw [List.cons_append, Careful, Careful, ih, and_assoc]
    rfl

theorem Request.apply_registered {request : Request} {s : Memory × Arena} (hs : s.1.Registered)
    (hcareful : request.Careful s.1) : (request.apply s).1.Registered where
  sound := request.apply_sound hs.sound
  managed := Registry.managed.roster_apply hs (by rintro r rfl; exact hcareful)
  permanent := Registry.permanent.roster_apply hs (by rintro r rfl; exact hcareful)

theorem serve_registered {requests : List Request} {s : Memory × Arena} (hs : s.1.Registered)
    (hcareful : Careful requests s) : (serve requests s).1.Registered := by
  induction requests generalizing s with
  | nil => exact hs
  | cons request rest ih => exact ih (request.apply_registered hs hcareful.1) hcareful.2

/-- **An entry stays and names the same object until it is dropped.** -/
theorem Registry.serve_keeps (g : Registry) {requests : List Request} {s : Memory × Arena}
    (hs : s.1.Registered) (hcareful : Careful requests s) {r : Ref} (hr : r ∈ g.entries s.1)
    (hkept : ¬ Befalls g.Drops requests s r) :
    track requests s r ∈ g.entries (serve requests s).1 ∧
      Heap.Keeps (track requests s)
        (fun k => Befalls (fun _ r => Request.Writes r k) requests s r) r
        s.1.heap (serve requests s).1.heap := by
  induction requests generalizing s r with
  | nil => exact ⟨hr, .refl ((g.roster hs).live hr)⟩
  | cons request rest ih =>
    rw [Befalls, not_or] at hkept
    have hmem := (g.mem_apply_iff hs).mpr (.inl ⟨r, hr, hkept.1, rfl⟩)
    obtain ⟨hmem', hkeeps⟩ := ih (request.apply_registered hs hcareful.1) hcareful.2 hmem hkept.2
    exact ⟨hmem', (g.keeps hs hr hkept.1).trans hkeeps⟩

/-- **The registries are exact.** Take any run on a new memory in which only null and objects are
registered. At each point of the run no reference is listed twice, none is null and each names an
object. From one point to a later one an entry that is neither unmanaged nor freed in between stays
in the list, follows its object through compactions and names the same object; an entry of the
permanent list goes by being freed alone. A request adds no entries but the one it registers. -/
theorem registries_exact (size : Nat) (a : Arena) (before after : List Request)
    (hcareful : Careful (before ++ after) (Memory.new size true, a)) :
    let s := serve before (Memory.new size true, a)
    let t := serve after s
    (t.1.managed.Nodup ∧ t.1.permanent.Nodup) ∧
    (∀ r, r ∈ t.1.managed ∨ r ∈ t.1.permanent → r ≠ .null ∧ ∃ header, t.1.header r = .ok header) ∧
    (∀ r ∈ s.1.managed,
      ¬ Befalls (fun m r request => request = .unmanage r ∨ request.Frees m r) after s r →
      track after s r ∈ t.1.managed ∧
        Heap.Keeps (track after s) (fun k => Befalls (fun _ r => Request.Writes r k) after s r) r
          s.1.heap t.1.heap) ∧
    (∀ r ∈ s.1.permanent, ¬ Befalls Request.Frees after s r →
      track after s r ∈ t.1.permanent ∧
        Heap.Keeps (track after s) (fun k => Befalls (fun _ r => Request.Writes r k) after s r) r
          s.1.heap t.1.heap) ∧
    ∀ (request : Request) (r' : Ref),
      (r' ∈ (request.apply t).1.managed ↔
        (∃ r ∈ t.1.managed, ¬ (request = .unmanage r ∨ request.Frees t.1 r) ∧
          request.moved t r = r') ∨ (request = .manage r' ∧ r' ≠ .null)) ∧
      (r' ∈ (request.apply t).1.permanent ↔
        (∃ r ∈ t.1.permanent, ¬ request.Frees t.1 r ∧ request.moved t r = r') ∨
          (request = .makePermanent r' ∧ r' ≠ .null)) := by
  intro s t
  obtain ⟨hbefore, hafter⟩ := careful_append.mp hcareful
  have hs : s.1.Registered := serve_registered (Memory.registered_new size) hbefore
  have ht : t.1.Registered := serve_registered hs hafter
  refine ⟨⟨ht.managed.nodup, ht.permanent.nodup⟩, ?_, ?_, ?_, ?_⟩
  · intro r hr
    have hlive : (t.1.heap.header? r).isSome = true :=
      hr.elim (fun hr => ht.managed.live hr) fun hr => ht.permanent.live hr
    obtain ⟨header, hheader⟩ := Option.isSome_iff_exists.mp hlive
    refine ⟨?_, header, Memory.header_eq_ok.mpr hheader⟩
    rintro rfl
    cases hheader
  · exact fun r hr hkept => Registry.managed.serve_keeps hs hafter hr hkept
  · exact fun r hr hkept => Registry.permanent.serve_keeps hs hafter hr hkept
  · exact fun request r' =>
      ⟨Registry.managed.mem_apply_iff ht, Registry.permanent.mem_apply_iff ht⟩

/-- The object in slot `2` is managed; then slot `1` is freed and a compaction moves the object
there. -/
theorem registries_exact_moved :
    let before : List Request := [.allocate 1, .allocate 1, .manage ⟨2⟩]
    let after : List Request := [.free ⟨1⟩ 1, .collect {}, .compact]
    let s := serve before (Memory.new 8 true, Arena.new)
    Careful (before ++ after) (Memory.new 8 true, Arena.new) ∧ (⟨2⟩ : Ref) ∈ s.1.managed ∧
      track after s ⟨2⟩ ∈ (serve after s).1.managed := by
  intro before after s
  have hcareful : Careful (before ++ after) (Memory.new 8 true, Arena.new) :=
    ⟨trivial, trivial, .inr (by decide), trivial, trivial, trivial, trivial⟩
  have hmem : (⟨2⟩ : Ref) ∈ s.1.managed := by decide
  refine ⟨hcareful, hmem, ?_⟩
  refine ((registries_exact 8 Arena.new before after hcareful).2.2.1 ⟨2⟩ hmem ?_).1
  simp [after, Befalls, Request.Frees, Request.moved]

end ScriptCore
