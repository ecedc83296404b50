import ScriptCore.Proofs.Memory.Runs
import ScriptCore.Proofs.Session.Execution

/-!
# The elements of arrays

The elements of an array stand in the slots behind its header, next to the slots of other objects.
In a heap that is made up of whole blocks they are nevertheless cells of their own: there is an
element at every index below the length, a write to one of them changes no other one and no header
(`array_elements_independent`), and a read or a write fails only for the reasons that
`Memory.NoElement` lists. That the slot of an element has no element in it is none of them.
-/

namespace ScriptCore

theorem Heap.read_eq_ok_iff {h : Heap} {index : Nat} {v : Value} :
    h.read index = .ok v ↔ h.slot? index = some (.data v) := by
  unfold Heap.read
  cases h.slot? index with
  | none => simp
  | some cell => cases cell <;> simp [Slot.value?]

namespace Memory

variable {m m' : Memory} {r r' : Ref} {i j : Int64} {v : Value} {fault : Fault}

/-! ## Which elements there are -/

/-- There is an array at `r`, and it has an element with the index `i`. -/
def HasElement (m : Memory) (r : Ref) (i : Int64) : Prop :=
  ∃ (length : Nat) (marked : Bool), m.heap.header? r = some ⟨.array length, marked⟩ ∧
    0 ≤ i.toInt ∧ i.toInt < length

/-- Why there is no such element, and the fault that tells it. -/
inductive NoElement (m : Memory) (r : Ref) (i : Int64) : Fault → Prop
  /-- There is no object at `r`. -/
  | noObject (hr : m.heap.header? r = none) : NoElement m r i (.invalidReference r.slot)
  /-- The object is no array. -/
  | noArray {header : Header} (hr : m.heap.header? r = some header)
      (hdata : ∀ length, header.data ≠ .array length) :
      NoElement m r i (.typeError "Array" header.data.kindName)
  /-- The array has no such index. -/
  | outside {length : Nat} {marked : Bool} (hr : m.heap.header? r = some ⟨.array length, marked⟩)
      (hi : ¬ (0 ≤ i.toInt ∧ i.toInt < length)) : NoElement m r i (.indexOutOfBounds i length)

theorem hasElement_or_noElement (m : Memory) (r : Ref) (i : Int64) :
    m.HasElement r i ∨ ∃ fault, m.NoElement r i fault := by
  cases hr : m.heap.header? r with
  | none => exact .inr ⟨_, .noObject hr⟩
  | some header =>
    obtain ⟨data, marked⟩ := header
    cases data with
    | array length =>
      by_cases hi : 0 ≤ i.toInt ∧ i.toInt < length
      · exact .inl ⟨length, marked, hr, hi⟩
      · exact .inr ⟨_, .outside hr hi⟩
    | _ => exact .inr ⟨_, .noArray hr fun length => by simp⟩

theorem HasElement.elementSlot (h : m.HasElement r i) :
    m.elementSlot r i = .ok (r.slot + (i.toInt.toNat + 1)) := by
  obtain ⟨length, marked, hr, hi⟩ := h
  unfold Memory.elementSlot arrayLength
  rw [header_eq_ok.mpr hr]
  dsimp only [bind, Except.bind, pure, Except.pure]
  rw [if_pos hi]

theorem NoElement.elementSlot (h : m.NoElement r i fault) : m.elementSlot r i = .error fault := by
  unfold Memory.elementSlot arrayLength
  cases h with
  | noObject hr =>
    unfold Memory.header Heap.header
    rw [hr]
    rfl
  | @noArray header hr hdata =>
    rw [header_eq_ok.mpr hr]
    obtain ⟨data, marked⟩ := header
    cases data with
    | array length => exact absurd rfl (hdata length)
    | _ => rfl
  | outside hr hi =>
    rw [header_eq_ok.mpr hr]
    dsimp only [bind, Except.bind, pure, Except.pure]
    rw [if_neg hi]
    rfl

/-- What succeeds where there is an element, and fails with the fault that tells why there is none,
does so exactly then. -/
theorem ok_iff_and_error_iff {α : Type} {result : Except Fault α}
    (hok : m.HasElement r i → ∃ a, result = .ok a)
    (herror : ∀ fault, m.NoElement r i fault → result = .error fault) :
    ((∃ a, result = .ok a) ↔ m.HasElement r i) ∧
      ∀ fault, result = .error fault ↔ m.NoElement r i fault := by
  rcases m.hasElement_or_noElement r i with h | ⟨fault, h⟩
  · obtain ⟨a, rfl⟩ := hok h
    refine ⟨⟨fun _ => h, fun _ => ⟨a, rfl⟩⟩, fun fault => ⟨fun heq => ?_, fun hno => ?_⟩⟩
    · cases heq
    · cases herror fault hno
  · obtain rfl := herror fault h
    refine ⟨⟨fun ⟨a, ha⟩ => ?_, fun hhas => ?_⟩, fun other => ⟨fun heq => ?_, herror other⟩⟩
    · cases ha
    · obtain ⟨a, ha⟩ := hok hhas
      cases ha
    · cases heq
      exact h

theorem NoElement.readElement (h : m.NoElement r i fault) : m.readElement r i = .error fault := by
  rw [Memory.readElement, h.elementSlot]
  rfl

theorem NoElement.writeElement (h : m.NoElement r i fault) (v : Value) :
    m.writeElement r i v = .error fault := by
  rw [Memory.writeElement, h.elementSlot]
  rfl

theorem elementSlot_congr (h : m'.heap.header? r = m.heap.header? r) (i : Int64) :
    m'.elementSlot r i = m.elementSlot r i := by
  unfold Memory.elementSlot arrayLength Memory.header Heap.header
  rw [h]

/-! ## Elements in whole blocks -/

theorem HasElement.exists_slot? (ht : m.heap.Tiled) (h : m.HasElement r i) :
    ∃ v, m.heap.slot? (r.slot + (i.toInt.toNat + 1)) = some (.data v) := by
  obtain ⟨length, marked, hr, hi⟩ := h
  refine ht.coherent.body (Heap.header?_eq_some.mp hr).2 (Nat.succ_pos _) ?_
  rw [Header.span, ObjectData.span]
  omega

theorem HasElement.readElement (ht : m.heap.Tiled) (h : m.HasElement r i) :
    ∃ v, m.readElement r i = .ok v := by
  obtain ⟨v, hv⟩ := h.exists_slot? ht
  refine ⟨v, ?_⟩
  rw [Memory.readElement, h.elementSlot]
  exact Heap.read_eq_ok_iff.mpr hv

/-- **Different elements are in different slots.** -/
theorem HasElement.eq_of_slot_eq (ht : m.heap.Tiled) (h : m.HasElement r i)
    (h' : m.HasElement r' j)
    (hslot : r.slot + (i.toInt.toNat + 1) = r'.slot + (j.toInt.toNat + 1)) : r = r' ∧ i = j := by
  obtain ⟨length, marked, hr, hi⟩ := h
  obtain ⟨length', marked', hr', hj⟩ := h'
  -- the slot that they share is in the span of both headers
  have hsame : r.slot = r'.slot := by
    refine (ht.coherent.eq_of_overlap (i := r.slot + (i.toInt.toNat + 1))
      (Heap.header?_eq_some.mp hr).2 (Heap.header?_eq_some.mp hr').2 ⟨by omega, ?_⟩
      ⟨by omega, ?_⟩).symm
    · rw [Header.span, ObjectData.span]
      omega
    · rw [Header.span, ObjectData.span]
      omega
  have hindex : i.toInt = j.toInt := by omega
  refine ⟨?_, Int64.toInt_inj.mp hindex⟩
  cases r
  cases r'
  exact congrArg Ref.mk hsame

/-- **One element has been replaced.** -/
structure Replaced (m : Memory) (r : Ref) (i : Int64) (v : Value) (m' : Memory) : Prop where
  /-- It is read back. -/
  here : m'.readElement r i = .ok v
  /-- All others are read as before, or fail to be read as before. -/
  others : ∀ r' j, (r', j) ≠ (r, i) → m'.readElement r' j = m.readElement r' j
  headers : ∀ r', m'.heap.header? r' = m.heap.header? r'
  slots : ∀ s, s ≠ r.slot + (i.toInt.toNat + 1) → m'.heap.slot? s = m.heap.slot? s
  /-- The free list and the registries are what they were. -/
  rest : m' = { m with heap := { m.heap with slots := m'.heap.slots } }
  tiled : m'.heap.Tiled

/-- A write to the slot of an element replaces this element. -/
theorem replaced_of_write (ht : m.heap.Tiled) (h : m.HasElement r i) {heap : Heap}
    (hwrite : m.heap.write (r.slot + (i.toInt.toNat + 1)) v = .ok heap) :
    m.Replaced r i v { m with heap } := by
  obtain ⟨hfree, ⟨w, hold⟩, hslot⟩ := Heap.write_eq_ok hwrite
  have hheaders : ∀ r', heap.header? r' = m.heap.header? r' := by
    intro r'
    unfold Heap.header?
    rw [hslot]
    split
    · rfl
    · split
      · rename_i heq
        rw [heq, hold]
        rfl
      · rfl
  have hread : ∀ r' j, ({ m with heap } : Memory).readElement r' j =
      m.elementSlot r' j >>= heap.read := fun r' j => by
    rw [readElement, elementSlot_congr (m := m) (hheaders r')]
  refine ⟨?_, fun r' j hne => ?_, hheaders, fun s hs => ?_, ?_, ?_⟩
  · rw [hread, h.elementSlot]
    exact Heap.read_eq_ok_iff.mpr (by rw [hslot, if_pos rfl])
  · rw [hread, readElement]
    rcases m.hasElement_or_noElement r' j with h' | ⟨fault, h'⟩
    · rw [h'.elementSlot]
      dsimp only [bind, Except.bind]
      unfold Heap.read
      rw [hslot, if_neg]
      intro heq
      obtain ⟨rfl, rfl⟩ := h'.eq_of_slot_eq ht h heq
      exact hne rfl
    · rw [h'.elementSlot]
      rfl
  · rw [hslot, if_neg hs]
  · obtain ⟨slots, free⟩ := heap
    cases hfree
    rfl
  · refine (ht.coherent.congr fun s => ?_).tiled
    rw [hslot]
    split
    · subst s
      rw [hold]
      rfl
    · rfl

theorem HasElement.writeElement (ht : m.heap.Tiled) (h : m.HasElement r i) (v : Value) :
    ∃ m', m.writeElement r i v = .ok m' ∧ m.Replaced r i v m' := by
  obtain ⟨w, hw⟩ := h.exists_slot? ht
  obtain ⟨heap, hwrite⟩ := Heap.exists_write hw v
  refine ⟨{ m with heap }, ?_, replaced_of_write ht h hwrite⟩
  rw [Memory.writeElement, h.elementSlot]
  dsimp only [bind, Except.bind]
  rw [hwrite]
  rfl

end Memory

/-- **The elements of arrays are cells of their own.** In a heap that is made up of whole blocks an
element can be read, and written, exactly if there is an array at the reference that has the index,
and otherwise the fault tells what is missing. After a write the element is read back, every other
element of every array is read as before, and nothing else of the memory has changed. A write that
fails changes nothing. -/
theorem array_elements_independent {m : Memory} (ht : m.heap.Tiled) (r : Ref) (i : Int64) :
    ((∃ v, m.readElement r i = .ok v) ↔ m.HasElement r i) ∧
    (∀ fault, m.readElement r i = .error fault ↔ m.NoElement r i fault) ∧
    ∀ v, ((∃ m', m.writeElement r i v = .ok m') ↔ m.HasElement r i) ∧
      (∀ m', m.writeElement r i v = .ok m' → m.Replaced r i v m') ∧
      ∀ fault, (m.writeElement r i v = .error fault ↔ m.NoElement r i fault) ∧
        ∀ S : Session, S.memory = m → m.writeElement r i v = .error fault →
          (Run.modifyMemory (·.writeElement r i v)).exec S = (.error (.fault fault), S) := by
  obtain ⟨hreads, hreadFails⟩ := Memory.ok_iff_and_error_iff (fun h => h.readElement ht)
    fun fault (h : m.NoElement r i fault) => h.readElement
  refine ⟨hreads, hreadFails, fun v => ?_⟩
  obtain ⟨hwrites, hwriteFails⟩ := Memory.ok_iff_and_error_iff
    (fun h => (h.writeElement ht v).imp fun _ => And.left)
    fun fault (h : m.NoElement r i fault) => h.writeElement v
  refine ⟨hwrites, fun m' hm' => ?_, fun fault => ⟨hwriteFails fault, ?_⟩⟩
  · obtain ⟨m'', hm'', hreplaced⟩ := (hwrites.mp ⟨m', hm'⟩).writeElement ht v
    cases hm'.symm.trans hm''
    exact hreplaced
  · rintro S rfl herror
    exact Run.exec_modifyMemory_error herror

/-- The two arrays of the heap with gaps are written and read apart from each other. -/
theorem array_elements_independent_gapped :
    ∃ m', ({ heap := Heap.gapped } : Memory).writeElement ⟨1⟩ 0 (.bool true) = .ok m' ∧
      m'.readElement ⟨1⟩ 0 = .ok (.bool true) ∧ m'.readElement ⟨5⟩ 0 = .ok .null := by
  have ht : ({ heap := Heap.gapped } : Memory).heap.Tiled := Heap.gapped_wellFormed.tiled
  obtain ⟨-, -, hwrite⟩ := array_elements_independent ht ⟨1⟩ 0
  obtain ⟨hwrites, hreplaced, -⟩ := hwrite (.bool true)
  obtain ⟨m', hm'⟩ := hwrites.mpr ⟨1, false, rfl, by decide, by decide⟩
  refine ⟨m', hm', (hreplaced m' hm').here, ?_⟩
  rw [(hreplaced m' hm').others ⟨5⟩ 0 (by decide)]
  rfl

end ScriptCore
