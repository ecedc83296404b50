import ScriptCore.Proofs.Collect.Exactness
import ScriptCore.Proofs.Compact.Isomorphism
import ScriptCore.Proofs.Heap.Auditing
import ScriptCore.Proofs.Heap.Operations

/-!
# Runs of memory operations

A `Request` is one operation on a memory and an arena. Requests may be refused, and a refused one
changes nothing. `Request.apply_sound` says that each request keeps a memory sound, and
`serve_sound` that a run does; `serve_wellFormed` is what follows for every run that starts with a
new memory.
-/

namespace ScriptCore

/-- An operation on a memory and an arena. -/
inductive Request
  /-- Take so many slots. -/
  | allocate (size : Nat)
  /-- Write the header of a newly allocated object. -/
  | init (r : Ref) (data : ObjectData)
  /-- Replace the data of an object. -/
  | set (r : Ref) (data : ObjectData)
  /-- Give slots back. -/
  | free (r : Ref) (length : Nat)
  /-- Assign to an array element. -/
  | writeElement (r : Ref) (index : Int64) (v : Value)
  /-- Keep an object alive for a while. -/
  | manage (r : Ref)
  /-- Give up a managed reference. -/
  | unmanage (r : Ref)
  /-- Keep an object alive for good. -/
  | makePermanent (r : Ref)
  /-- Collect. -/
  | collect (extra : RootSet)
  /-- Compact. -/
  | compact
  /-- Do anything to the scopes. -/
  | scopes (update : Memory → Arena → Arena)

/-- The memory after an operation that may have been refused. -/
def Memory.orKeep (m : Memory) : Except Fault Memory → Memory
  | .ok m' => m'
  | .error _ => m

/-- Carry out a request. -/
def Request.apply : Request → Memory × Arena → Memory × Arena
  | allocate size, (m, a) => (((m.tryAllocate size).map Prod.snd).getD m, a)
  | init r data, (m, a) => (m.orKeep (m.init r ⟨data, false⟩), a)
  | set r data, (m, a) => (m.orKeep (m.setData r data), a)
  | free r length, (m, a) => (m.orKeep (m.free r length), a)
  | writeElement r index v, (m, a) => (m.orKeep (m.writeElement r index v), a)
  | manage r, (m, a) => (m.manage r, a)
  | unmanage r, (m, a) => (m.unmanage r, a)
  | makePermanent r, (m, a) => (m.makePermanent r, a)
  | collect extra, (m, a) => (ScriptCore.collect m a extra).2
  | compact, (m, a) => (ScriptCore.compact m a).2
  | scopes update, (m, a) => (m, update m a)

/-- Carry out requests one after the other. -/
def serve (requests : List Request) (s : Memory × Arena) : Memory × Arena :=
  requests.foldl (fun s request => request.apply s) s

/-- A memory that checks frees and whose heap is well formed. -/
structure Memory.Sound (m : Memory) : Prop where
  wellFormed : m.heap.WellFormed
  checked : m.checked = true

namespace Memory

theorem sound_new (size : Nat) : (Memory.new size true).Sound := ⟨Heap.wellFormed_new size, rfl⟩

/-! ## One request -/

theorem bind_eq_ok {α β : Type} {x : Except Fault α} {f : α → Except Fault β} {b : β} :
    (x >>= f) = .ok b ↔ ∃ a, x = .ok a ∧ f a = .ok b := by
  cases x <;> simp [bind, Except.bind]

theorem header_eq_ok {m : Memory} {r : Ref} {header : Header} :
    m.header r = .ok header ↔ m.heap.header? r = some header := by
  unfold Memory.header Heap.header
  cases m.heap.header? r <;> simp

/-- The slot of an element is behind the header, within the object. -/
theorem elementSlot_eq_ok {m : Memory} {r : Ref} {index : Int64} {slot : Nat}
    (h : m.elementSlot r index = .ok slot) :
    ∃ header k, m.heap.header? r = some header ∧ index.toInt = (k : Nat) ∧ k + 1 < header.span ∧
      slot = r.slot + (k + 1) := by
  obtain ⟨length, hlength, h⟩ := bind_eq_ok.mp h
  obtain ⟨header, hheader, hlength⟩ := bind_eq_ok.mp hlength
  split at hlength
  · rename_i len hdata
    cases hlength
    split at h
    · rename_i hindex
      cases h
      refine ⟨header, index.toInt.toNat, header_eq_ok.mp hheader, by omega, ?_, rfl⟩
      rw [Header.span, hdata, ObjectData.span]
      omega
    · cases h
  · cases hlength

/-- A header is written over one of the same size. -/
theorem init_eq_ok {m m' : Memory} {r : Ref} {header : Header} (h : m.init r header = .ok m') :
    ∃ old, m.heap.header? r = some old ∧ old.span = header.span ∧
      m' = { m with heap := m.heap.setHeader r header } := by
  obtain ⟨old, hold, h⟩ := bind_eq_ok.mp h
  split at h
  · cases h
    exact ⟨old, header_eq_ok.mp hold, ‹_›, rfl⟩
  · cases h

theorem setData_eq_ok {m m' : Memory} {r : Ref} {data : ObjectData}
    (h : m.setData r data = .ok m') :
    ∃ old : Header, m.heap.header? r = some old ∧ data.span = old.span ∧
      m' = { m with heap := m.heap.setHeader r { old with data } } := by
  obtain ⟨old, hold, h⟩ := bind_eq_ok.mp h
  split at h
  · cases h
    exact ⟨old, header_eq_ok.mp hold, ‹_›, rfl⟩
  · cases h

theorem writeElement_eq_ok {m m' : Memory} {r : Ref} {index : Int64} {v : Value}
    (h : m.writeElement r index v = .ok m') :
    ∃ header k heap, m.heap.header? r = some header ∧ index.toInt = (k : Nat) ∧
      k + 1 < header.span ∧ m.heap.write (r.slot + (k + 1)) v = .ok heap ∧
      m' = { m with heap } := by
  obtain ⟨slot, hslot, h⟩ := bind_eq_ok.mp h
  obtain ⟨heap, hwrite, h⟩ := bind_eq_ok.mp h
  cases h
  obtain ⟨header, k, hr, hindex, hk, rfl⟩ := elementSlot_eq_ok hslot
  exact ⟨header, k, heap, hr, hindex, hk, hwrite, rfl⟩

namespace Sound

variable {m : Memory} (hs : m.Sound)
include hs

theorem orKeep {result : Except Fault Memory} (h : ∀ m', result = .ok m' → m'.Sound) :
    (m.orKeep result).Sound := by
  cases result with
  | ok m' => exact h m' rfl
  | error _ => exact hs

theorem tryAllocate {size : Nat} {r : Ref} {m' : Memory} (h : m.tryAllocate size = some (r, m')) :
    m'.Sound := by
  obtain ⟨⟨r', heap⟩, hres, heq⟩ := Option.map_eq_some_iff.mp h
  cases heq
  exact ⟨hs.wellFormed.reserve hres, hs.checked⟩

theorem init {r : Ref} {header : Header} {m' : Memory} (hmarked : header.marked = false)
    (h : m.init r header = .ok m') : m'.Sound := by
  obtain ⟨old, hold, hspan, rfl⟩ := init_eq_ok h
  exact ⟨hs.wellFormed.setHeader hold hspan hmarked, hs.checked⟩

theorem setData {r : Ref} {data : ObjectData} {m' : Memory} (h : m.setData r data = .ok m') :
    m'.Sound := by
  obtain ⟨old, hold, hspan, rfl⟩ := setData_eq_ok h
  have hmarked : old.marked = false := hs.wellFormed.unmarked hold
  exact ⟨hs.wellFormed.setHeader hold hspan.symm hmarked, hs.checked⟩

/-- With checking on, the runs that may be freed are the objects. -/
theorem checkFree {r : Ref} {length : Nat} (h : m.checkFree r length = .ok ()) :
    ∃ header, m.heap.header? r = some header ∧ header.span = length := by
  unfold Memory.checkFree at h
  split at h
  · cases h
  · rw [if_pos hs.checked] at h
    split at h
    · cases h
    · rename_i header hr
      split at h
      · exact ⟨header, hr, ‹_›⟩
      · cases h

theorem free {r : Ref} {length : Nat} {m' : Memory} (h : m.free r length = .ok m') :
    m'.Sound := by
  obtain ⟨⟨⟩, hcheck, h⟩ := bind_eq_ok.mp h
  obtain ⟨header, hr, rfl⟩ := hs.checkFree hcheck
  cases h
  exact ⟨hs.wellFormed.release hr, hs.checked⟩

theorem writeElement {r : Ref} {index : Int64} {v : Value} {m' : Memory}
    (h : m.writeElement r index v = .ok m') : m'.Sound := by
  obtain ⟨header, k, heap, -, -, -, hwrite, rfl⟩ := writeElement_eq_ok h
  exact ⟨hs.wellFormed.write hwrite, hs.checked⟩

end Sound

end Memory

/-- **No request makes a sound memory unsound.** -/
theorem Request.apply_sound (request : Request) {s : Memory × Arena} (hs : s.1.Sound) :
    (request.apply s).1.Sound := by
  obtain ⟨m, a⟩ := s
  cases request with
  | allocate size =>
    rw [apply]
    cases h : m.tryAllocate size with
    | none => exact hs
    | some result => exact hs.tryAllocate h
  | init r data => exact hs.orKeep fun _ h => hs.init rfl h
  | set r data => exact hs.orKeep fun _ h => hs.setData h
  | free r length => exact hs.orKeep fun _ h => hs.free h
  | writeElement r index v => exact hs.orKeep fun _ h => hs.writeElement h
  | manage r | unmanage r | makePermanent r => exact ⟨hs.wellFormed, hs.checked⟩
  | collect extra =>
    exact ⟨(hs.wellFormed.tiled.mark _).wellFormed_sweep, hs.checked⟩
  | compact => exact ⟨wellFormed_compact hs.wellFormed a, hs.checked⟩
  | scopes update => exact hs

/-! ## Runs -/

theorem serve_sound (requests : List Request) {s : Memory × Arena} (hs : s.1.Sound) :
    (serve requests s).1.Sound := by
  induction requests generalizing s with
  | nil => exact hs
  | cons request rest ih => exact ih (request.apply_sound hs)

/-- **Whatever the requests, the heap of a memory that starts out new is well formed.** The audit
of the free list finds nothing, and the objects that are accepted have slots of their own, none of
which is free. -/
theorem serve_wellFormed (size : Nat) (requests : List Request) :
    let m := (serve requests (Memory.new size true, Arena.new)).1
    m.heap.WellFormed ∧ m.verify = .ok () ∧
      (∀ r header, m.header r = .ok header → ∀ i, r.slot ≤ i → i < r.slot + header.span →
        i < m.capacity ∧ i ∉ m.heap.free.slots) ∧
      ∀ r r' header header', m.header r = .ok header → m.header r' = .ok header' → r ≠ r' →
        ∀ i, ¬ ((r.slot ≤ i ∧ i < r.slot + header.span) ∧
          r'.slot ≤ i ∧ i < r'.slot + header'.span) := by
  intro m
  have hs : m.Sound := serve_sound requests (Memory.sound_new size)
  refine ⟨hs.wellFormed, Memory.verify_eq_ok hs.wellFormed, ?_, ?_⟩
  · intro r header hr i hle hlt
    have hr := Memory.header_eq_ok.mp hr
    obtain ⟨cell, hcell, -⟩ :=
      hs.wellFormed.tiled.coherent.exists_slot? (Heap.header?_eq_some.mp hr).2 ⟨hle, hlt⟩
    exact ⟨Heap.lt_capacity_of_slot? hcell, hs.wellFormed.not_mem_free hr ⟨hle, hlt⟩⟩
  · intro r r' header header' hr hr' hne i
    exact hs.wellFormed.disjoint (Memory.header_eq_ok.mp hr) (Memory.header_eq_ok.mp hr') hne i

end ScriptCore
