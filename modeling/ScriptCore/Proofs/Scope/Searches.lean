import ScriptCore.Proofs.Scope.Walks

/-!
# The bound on searches

The search for a name through the instances behind a scope is cut off after one scope more than
there are scopes. Where it goes next depends on the scope it has come to and not on the way there,
so by then it has seen all it will ever see: `Arena.searchScope_of_le` says that with a higher bound
it finds nothing else. The number of scopes may therefore change, in a collection say, without a
change to what is found.

What values the bindings have makes no difference to a search, but for those of `super`:
`Arena.FindsAlike.locate`.
-/

namespace ScriptCore

/-! ## One scope, and the scopes behind it -/

/-- The table of a scope in which a search finds `name`. -/
def Scope.found? (s : Scope) (private_ : Bool) (name : String) : Option Partition :=
  match s.state with
  | .instance_ _ => (Scope.searchOrder private_).find? fun partition =>
      (s.table? partition).any (·.contains name)
  | _ => if s.bindings.contains name then some .pub else none

/-- The instance behind a scope, and whether its private fields count. -/
def Scope.behind? (s : Scope) : Option (Ref × Bool) :=
  match s.state with
  | .instance_ _ => s.parent?.map (·, false)
  | .method _ _ this => some (this, true)
  | _ => none

namespace Arena

variable {a : Arena} {heap : Heap} {name : String} {n m : Nat} {id : ScopeId} {private_ : Bool}

/-- Where a search goes from a scope that does not have the name. -/
def onward (a : Arena) (heap : Heap) (id : ScopeId) : Option (ScopeId × Bool) :=
  ((a.get? id).bind Scope.behind?).bind fun behind =>
    (heap.instanceScope behind.1).toOption.map (·, behind.2)

/-- Search at most `n` scopes behind the one at `id`. -/
def searchOnward (a : Arena) (heap : Heap) (name : String) (n : Nat) (id : ScopeId) :
    Except Fault (Option Place) :=
  match a.onward heap id with
  | none => .ok none
  | some (next, private_) => a.searchScope heap name n private_ next

/-- Search one scope and then those behind it. -/
theorem searchScope_succ : a.searchScope heap name (n + 1) private_ id =
    match a.get? id with
    | none => .error (.unknownScope id)
    | some s =>
      match s.found? private_ name with
      | some partition => .ok (some (id, partition))
      | none => a.searchOnward heap name n id := by
  rw [searchScope, get]
  unfold searchOnward onward
  cases a.get? id with
  | none => rfl
  | some s =>
    dsimp only [bind, Except.bind, Option.bind_some]
    unfold Scope.found? Scope.behind?
    cases s.state with
    | instance_ fields =>
      dsimp only
      cases (Scope.searchOrder private_).find? _ with
      | some partition => rfl
      | none =>
        cases s.parent? with
        | none => rfl
        | some parent =>
          dsimp only [Option.map_some, Option.bind_some]
          cases heap.instanceScope parent <;> rfl
    | method calling ret this =>
      dsimp only [Option.bind_some]
      split
      · rfl
      · cases heap.instanceScope this <;> rfl
    | _ =>
      dsimp only
      split <;> rfl

/-- An answer stays when more scopes are searched. -/
theorem searchScope_mono (hnm : n ≤ m) (h : a.searchScope heap name n private_ id ≠ .ok none) :
    a.searchScope heap name m private_ id = a.searchScope heap name n private_ id := by
  induction n generalizing m private_ id with
  | zero => exact absurd rfl h
  | succ n ih =>
    obtain ⟨m, rfl⟩ := Nat.exists_eq_add_of_le' (Nat.lt_of_lt_of_le (Nat.succ_pos n) hnm)
    rw [searchScope_succ] at h
    rw [searchScope_succ, searchScope_succ (n := n)]
    cases hs : a.get? id with
    | none => rfl
    | some s =>
      dsimp only
      cases hfound : s.found? private_ name with
      | some partition => rfl
      | none =>
        simp only [hs, hfound] at h
        unfold searchOnward at h ⊢
        cases hnext : a.onward heap id with
        | none => rfl
        | some next =>
          rw [hnext] at h
          exact ih (by omega) h

theorem searchOnward_mono (hnm : n ≤ m) (h : a.searchOnward heap name n id ≠ .ok none) :
    a.searchOnward heap name m id = a.searchOnward heap name n id := by
  unfold searchOnward at h ⊢
  cases hnext : a.onward heap id with
  | none => rfl
  | some next =>
    rw [hnext] at h
    exact searchScope_mono hnm h

/-! ## The bound suffices -/

/-- Whether a search has come to an end with a place or a fault. -/
def isAnswer : Except Fault (Option Place) → Bool
  | .ok none => false
  | _ => true

theorem isAnswer_iff {answer : Except Fault (Option Place)} :
    isAnswer answer = true ↔ answer ≠ .ok none := by
  rcases answer with _ | _ | _ <;> simp [isAnswer]

/-- The indices of the scopes that are there. -/
def liveIndices (a : Arena) : Finset Nat :=
  ((List.range a.scopes.size).filter fun i => (a.get? ⟨i⟩).isSome).toFinset

theorem mem_liveIndices : id.index ∈ a.liveIndices ↔ ∃ s, a.get? id = some s := by
  simp only [liveIndices, List.mem_toFinset, List.mem_filter, List.mem_range,
    Option.isSome_iff_exists]
  refine and_iff_right_of_imp fun ⟨s, hs⟩ => Nat.lt_of_not_le fun hle => ?_
  simp [get?, Array.getElem?_eq_none hle] at hs

theorem toList_scopes (a : Arena) :
    a.scopes.toList = (List.range a.scopes.size).map fun i => a.get? ⟨i⟩ := by
  refine List.ext_getElem (by simp) fun i hi _ => ?_
  have hsize : i < a.scopes.size := hi
  simp [get?, hsize]

theorem card_liveIndices (a : Arena) : a.liveIndices.card = a.liveCount := by
  rw [liveIndices, List.toFinset_card_of_nodup (List.nodup_range.filter _), liveCount,
    ← Array.countP_toList, toList_scopes, List.countP_map, List.countP_eq_length_filter]
  rfl

/-- The indices of the scopes behind which `n` scopes are enough for an answer. -/
def answered (a : Arena) (heap : Heap) (name : String) (n : Nat) : Finset Nat :=
  a.liveIndices.filter fun i => isAnswer (a.searchOnward heap name n ⟨i⟩)

theorem mem_answered (id : ScopeId) : id.index ∈ a.answered heap name n ↔
    a.searchOnward heap name n id ≠ .ok none := by
  simp only [answered, Finset.mem_filter, isAnswer_iff, mem_liveIndices]
  refine and_iff_right_of_imp fun h => ?_
  cases hs : a.get? id with
  | none => exact absurd (by rw [searchOnward, onward, hs]; rfl) h
  | some s => exact ⟨s, rfl⟩

theorem answered_mono (n : Nat) : a.answered heap name n ⊆ a.answered heap name (n + 1) := by
  intro i hi
  have h := (mem_answered ⟨i⟩).mp hi
  refine (mem_answered ⟨i⟩).mpr ?_
  rwa [searchOnward_mono (Nat.le_succ n) h]

/-- If one scope more gives no further answer, then neither do two. -/
theorem answered_stable (n : Nat) (h : a.answered heap name (n + 1) ⊆ a.answered heap name n) :
    a.answered heap name (n + 2) ⊆ a.answered heap name (n + 1) := by
  intro i hi
  have hanswer := (mem_answered ⟨i⟩).mp hi
  refine (mem_answered ⟨i⟩).mpr ?_
  unfold searchOnward at hanswer ⊢
  cases hnext : a.onward heap ⟨i⟩ with
  | none =>
    rw [hnext] at hanswer
    exact hanswer
  | some next =>
    simp only [hnext, searchScope_succ] at hanswer ⊢
    cases hs : a.get? next.1 with
    | none => simp
    | some s =>
      cases hfound : s.found? next.2 name with
      | some partition => simp [hfound]
      | none =>
        simp only [hs, hfound] at hanswer ⊢
        exact (mem_answered _).mp (h ((mem_answered _).mpr hanswer))

theorem card_answered_le (n : Nat) : (a.answered heap name n).card ≤ a.liveCount :=
  (Finset.card_le_card (Finset.filter_subset _ _)).trans_eq a.card_liveIndices

/-- **A search finds all there is to find.** With a higher bound it finds the same. -/
theorem searchScope_of_le (h : a.searchBound ≤ n) :
    a.searchScope heap name n private_ id = a.searchScope heap name a.searchBound private_ id := by
  obtain ⟨n, rfl⟩ := Nat.exists_eq_add_of_le' (Nat.lt_of_lt_of_le (Nat.succ_pos _) h)
  have hle : a.liveCount ≤ n := Nat.le_of_succ_le_succ h
  have honward : a.searchOnward heap name n id = a.searchOnward heap name a.liveCount id := by
    by_cases hanswer : a.searchOnward heap name a.liveCount id = .ok none
    · rw [hanswer]
      by_contra hnew
      have hmem := (mem_answered id).mpr hnew
      rw [eq_of_stable answered_mono answered_stable card_answered_le hle] at hmem
      exact (mem_answered id).mp hmem hanswer
    · exact searchOnward_mono hle hanswer
  rw [searchBound, searchScope_succ, searchScope_succ, honward]

end Arena

/-! ## Arenas in which names are found alike -/

/-- The scopes bind the same names in the same tables, and searches go on from them alike. -/
structure Scope.FindsAlike (s s' : Scope) : Prop where
  outer : s'.outer = s.outer
  namespaces : s'.namespaces = s.namespaces
  contains : ∀ name, s'.bindings.contains name = s.bindings.contains name
  found : ∀ private_ name, s'.found? private_ name = s.found? private_ name
  behind : s'.behind? = s.behind?

theorem Scope.FindsAlike.refl (s : Scope) : s.FindsAlike s :=
  ⟨rfl, rfl, fun _ => rfl, fun _ _ => rfl, rfl⟩

theorem Bindings.contains_assign (b : Bindings) (name : String) (v : Value) (other : String) :
    (b.assign name v).contains other = b.contains other := by
  simp [contains, get?_assign]

/-- The arenas have scopes at the same places, in which names are found alike. -/
structure Arena.FindsAlike (a a' : Arena) : Prop where
  size : a'.scopes.size = a.scopes.size
  scope : ∀ id, Option.Rel Scope.FindsAlike (a.get? id) (a'.get? id)

namespace Arena.FindsAlike

variable {a a' : Arena} (h : a.FindsAlike a')
include h

theorem follow {β : Type} {visit visit' : ScopeId → Scope → Visit β}
    (hvisit : ∀ id s s', Scope.FindsAlike s s' → visit' id s' = visit id s) (id : ScopeId) :
    a'.follow visit' id = a.follow visit id := by
  unfold Arena.follow
  rw [h.size]
  exact walk_congr h.scope hvisit _ id

theorem onward (heap : Heap) (id : ScopeId) : a'.onward heap id = a.onward heap id := by
  have hid := h.scope id
  unfold Arena.onward
  generalize a.get? id = o, a'.get? id = o' at hid ⊢
  cases hid with
  | none => rfl
  | some hs => rw [Option.bind_some, Option.bind_some, hs.behind]

variable (heap : Heap) (name : String)

theorem searchScope_le (n : Nat) (private_ : Bool) (id : ScopeId) :
    a'.searchScope heap name n private_ id = a.searchScope heap name n private_ id := by
  induction n generalizing private_ id with
  | zero => rfl
  | succ n ih =>
    have hid := h.scope id
    rw [searchScope_succ, searchScope_succ, searchOnward, searchOnward, h.onward]
    generalize a.get? id = o, a'.get? id = o' at hid ⊢
    cases hid with
    | none => rfl
    | some hs => simp only [hs.found, ih]

/-- Both searches see all there is to see. -/
theorem searchScope (private_ : Bool) (id : ScopeId) :
    a'.searchScope heap name a'.searchBound private_ id =
      a.searchScope heap name a.searchBound private_ id := by
  rw [← searchScope_of_le (Nat.le_max_left a'.searchBound a.searchBound),
    ← searchScope_of_le (Nat.le_max_right a'.searchBound a.searchBound)]
  exact h.searchScope_le heap name _ private_ id

theorem searchNamespaces (targets : List ScopeId) :
    a'.searchNamespaces name targets = a.searchNamespaces name targets := by
  induction targets with
  | nil => rfl
  | cons target rest ih =>
    have htarget := h.scope target
    rw [Arena.searchNamespaces, Arena.searchNamespaces, ih, get, get]
    generalize a.get? target = o, a'.get? target = o' at htarget ⊢
    cases htarget with
    | none => rfl
    | some hs => simp only [bind, Except.bind, hs.contains]

theorem searchOutward {search search' : ScopeId → Scope → Except Fault (Option Place)}
    (hsearch : ∀ id s s', Scope.FindsAlike s s' → search' id s' = search id s) (id : ScopeId) :
    a'.searchOutward search' id = a.searchOutward search id := by
  unfold Arena.searchOutward
  rw [h.follow fun id s s' hs => ?_]
  simp only [hsearch id s s' hs, Visit.outward, hs.outer]

/-- **Names are found at the same places.** -/
theorem locate (id : ScopeId) : a'.locate heap id name = a.locate heap id name := by
  have hscopes : a'.searchOutward (fun id _ => a'.searchScope heap name a'.searchBound true id) id =
      a.searchOutward (fun id _ => a.searchScope heap name a.searchBound true id) id :=
    h.searchOutward (fun id _ _ _ => h.searchScope heap name true id) id
  have hnamespaces :
      a'.searchOutward (fun _ scope => a'.searchNamespaces name scope.namespaces) id =
        a.searchOutward (fun _ scope => a.searchNamespaces name scope.namespaces) id := by
    refine h.searchOutward (fun _ _ _ hs => ?_) id
    rw [hs.namespaces, h.searchNamespaces]
  unfold Arena.locate
  simp only [hscopes, hnamespaces]

theorem locateMember (r : Ref) : a'.locateMember heap r name = a.locateMember heap r name := by
  unfold Arena.locateMember
  simp only [h.searchScope]

end Arena.FindsAlike

end ScriptCore
