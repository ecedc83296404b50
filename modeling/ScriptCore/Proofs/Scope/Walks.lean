import ScriptCore.Scope.Lookup
import ScriptCore.Scope.Suspend
import Mathlib.Data.Finset.Card
import Mathlib.Data.Finset.Range
import Mathlib.Order.Monotone.Basic

/-!
# Walks along scopes

Walks are bounded by the size of the arena. The bound is never what ends a walk that has an answer:
a scope's next step depends on the scope alone, so a walk that gets somewhere does so without
seeing a scope twice. `Arena.follow_eq_ok_iff` states it with `Arena.Arrives`, the same walk
without a bound.

For the walks of the control protocol it gives relations to reason with in place of the bounded
functions:

* `Arena.Owns`, which scope takes a signal (`Arena.owner_eq_ok_iff`);
* `Arena.Stopped`, whether a signal stops the statements of a scope (`Arena.interrupted_iff`);
* `Arena.Encloses`, the loops and case constructs around a scope (`Arena.mem_enclosing_iff`);
* `Arena.Undeclared`, whether a name can be declared (`Arena.isDeclared_eq_false_iff`).
-/

namespace ScriptCore.Arena

/-! ## Walks without a bound -/

section Walk

variable {β : Type} {a : Arena} {visit : ScopeId → Scope → Visit β}

/-- The walk from `id` ends with `answer`. -/
inductive Arrives (a : Arena) (visit : ScopeId → Scope → Visit β) (answer : β) : ScopeId → Prop
  | done {id : ScopeId} {s : Scope} (hs : a.get? id = some s) (hv : visit id s = .done answer) :
      Arrives a visit answer id
  | next {id next : ScopeId} {s : Scope} (hs : a.get? id = some s) (hv : visit id s = .next next)
      (h : Arrives a visit answer next) : Arrives a visit answer id

theorem walk_done {id : ScopeId} {s : Scope} {answer : β} (n : Nat) (hs : a.get? id = some s)
    (hv : visit id s = .done answer) : a.walk visit (n + 1) id = .ok answer := by
  simp [walk, hs, hv]

theorem walk_next {id next : ScopeId} {s : Scope} (n : Nat) (hs : a.get? id = some s)
    (hv : visit id s = .next next) : a.walk visit (n + 1) id = a.walk visit n next := by
  simp [walk, hs, hv]

theorem exists_get?_of_walk {n : Nat} {id : ScopeId} {answer : β}
    (h : a.walk visit n id = .ok answer) : ∃ s, a.get? id = some s := by
  cases n with
  | zero => cases h
  | succ n =>
    rw [walk] at h
    cases hs : a.get? id with
    | none => simp [hs] at h
    | some s => exact ⟨s, rfl⟩

theorem Arrives.of_walk {n : Nat} {id : ScopeId} {answer : β}
    (h : a.walk visit n id = .ok answer) : Arrives a visit answer id := by
  induction n generalizing id with
  | zero => cases h
  | succ n ih =>
    obtain ⟨s, hs⟩ := exists_get?_of_walk h
    cases hv : visit id s with
    | done b =>
      rw [walk_done n hs hv] at h
      cases h
      exact .done hs hv
    | next next =>
      rw [walk_next n hs hv] at h
      exact .next hs hv (ih h)

theorem Arrives.exists_walk {id : ScopeId} {answer : β} (h : Arrives a visit answer id) :
    ∃ n, a.walk visit n id = .ok answer := by
  induction h with
  | done hs hv => exact ⟨1, walk_done 0 hs hv⟩
  | next hs hv _ ih =>
    obtain ⟨n, hn⟩ := ih
    exact ⟨n + 1, (walk_next n hs hv).trans hn⟩

/-- More steps do no harm. -/
theorem walk_mono {n m : Nat} (hnm : n ≤ m) {id : ScopeId} {answer : β}
    (h : a.walk visit n id = .ok answer) : a.walk visit m id = .ok answer := by
  induction n generalizing m id with
  | zero => cases h
  | succ n ih =>
    obtain ⟨m, rfl⟩ := Nat.exists_eq_add_of_le' (Nat.lt_of_lt_of_le (Nat.succ_pos n) hnm)
    obtain ⟨s, hs⟩ := exists_get?_of_walk h
    cases hv : visit id s with
    | done b =>
      rw [walk_done _ hs hv] at h ⊢
      exact h
    | next next =>
      rw [walk_next _ hs hv] at h ⊢
      exact ih (by omega) h

/-- Walks through scopes that are related, and do the same at them, end alike. -/
theorem walk_congr {a' : Arena} {visit' : ScopeId → Scope → Visit β} {r : Scope → Scope → Prop}
    (h : ∀ id, Option.Rel r (a.get? id) (a'.get? id))
    (hvisit : ∀ id s s', r s s' → visit' id s' = visit id s) (n : Nat) (id : ScopeId) :
    a'.walk visit' n id = a.walk visit n id := by
  induction n generalizing id with
  | zero => rfl
  | succ n ih =>
    have hid := h id
    rw [walk, walk]
    generalize a.get? id = o, a'.get? id = o' at hid ⊢
    cases hid with
    | none => rfl
    | @some s s' hr =>
      simp only [hvisit id s s' hr]
      cases visit id s with
      | done answer => rfl
      | next next => exact ih next

/-! ## The bound suffices -/

/-- Sets that grow from step to step until a step adds nothing do not grow after as many steps as
they can have elements. -/
theorem eq_of_stable {s : Nat → Finset Nat} {size n : Nat} (hmono : ∀ n, s n ⊆ s (n + 1))
    (hstable : ∀ n, s (n + 1) ⊆ s n → s (n + 2) ⊆ s (n + 1)) (hcard : ∀ n, (s n).card ≤ size)
    (h : size ≤ n) : s n = s size := by
  have hle : Monotone s := monotone_nat_of_le_succ hmono
  have hsame := Nat.stabilises_of_monotone (f := fun n => (s n).card)
    (fun n m hnm => Finset.card_le_card (hle hnm)) hcard (fun n hn => ?_) h
  · exact (Finset.eq_of_subset_of_card_le (hle h) hsame.le).symm
  · have hback := Finset.eq_of_subset_of_card_le (hmono n) hn.ge
    exact Nat.le_antisymm (Finset.card_le_card (hmono (n + 1)))
      (Finset.card_le_card (hstable n hback.ge))

/-- The walk from `id` ends within `n` steps. -/
def Ends (a : Arena) (visit : ScopeId → Scope → Visit β) (n : Nat) (id : ScopeId) : Prop :=
  ∃ answer, a.walk visit n id = .ok answer

theorem Ends.index_lt {n : Nat} {id : ScopeId} (h : Ends a visit n id) :
    id.index < a.scopes.size := by
  obtain ⟨answer, h⟩ := h
  obtain ⟨s, hs⟩ := exists_get?_of_walk h
  apply Nat.lt_of_not_le
  intro hle
  simp [get?, Array.getElem?_eq_none hle] at hs

/-- The indices from which the walk ends within `n` steps. -/
def ended (a : Arena) (visit : ScopeId → Scope → Visit β) (n : Nat) : Finset Nat :=
  (Finset.range a.scopes.size).filter fun i => (a.walk visit n ⟨i⟩).toOption.isSome

theorem mem_ended {n : Nat} (id : ScopeId) : id.index ∈ a.ended visit n ↔ Ends a visit n id := by
  have hsome : (a.walk visit n id).toOption.isSome = true ↔ Ends a visit n id := by
    unfold Ends
    cases a.walk visit n id <;> simp [Except.toOption]
  simp only [ended, Finset.mem_filter, Finset.mem_range, hsome, and_iff_right_iff_imp]
  exact Ends.index_lt

theorem card_ended_le (n : Nat) : (a.ended visit n).card ≤ a.scopes.size := by
  unfold ended
  exact (Finset.card_le_card (Finset.filter_subset _ _)).trans_eq (Finset.card_range _)

theorem ended_mono (n : Nat) : a.ended visit n ⊆ a.ended visit (n + 1) := by
  intro i hi
  obtain ⟨answer, h⟩ := (mem_ended ⟨i⟩).mp hi
  exact (mem_ended ⟨i⟩).mpr ⟨answer, walk_mono (Nat.le_succ n) h⟩

/-- If one step more ends no further walk, then neither do two. -/
theorem ended_stable (n : Nat) (h : a.ended visit (n + 1) ⊆ a.ended visit n) :
    a.ended visit (n + 2) ⊆ a.ended visit (n + 1) := by
  intro i hi
  obtain ⟨answer, hwalk⟩ := (mem_ended ⟨i⟩).mp hi
  obtain ⟨s, hs⟩ := exists_get?_of_walk hwalk
  refine (mem_ended ⟨i⟩).mpr ?_
  cases hv : visit ⟨i⟩ s with
  | done b => exact ⟨b, walk_done n hs hv⟩
  | next next =>
    rw [walk_next _ hs hv] at hwalk
    obtain ⟨b, hb⟩ := (mem_ended next).mp (h ((mem_ended next).mpr ⟨answer, hwalk⟩))
    exact ⟨b, (walk_next n hs hv).trans hb⟩

theorem ends_size {n : Nat} {id : ScopeId} (h : Ends a visit n id) :
    Ends a visit a.scopes.size id := by
  obtain ⟨answer, h⟩ := h
  have hlong := (mem_ended id).mpr ⟨answer, walk_mono (Nat.le_max_left n a.scopes.size) h⟩
  rw [eq_of_stable ended_mono ended_stable card_ended_le (Nat.le_max_right n _)] at hlong
  exact (mem_ended id).mp hlong

/-- **A bounded walk has an answer exactly if the walk without a bound has it.** -/
theorem follow_eq_ok_iff {id : ScopeId} {answer : β} :
    a.follow visit id = .ok answer ↔ Arrives a visit answer id := by
  constructor
  · exact Arrives.of_walk
  · intro h
    obtain ⟨n, hn⟩ := h.exists_walk
    obtain ⟨b, hb⟩ := ends_size ⟨answer, hn⟩
    -- both walks go through the longer of the two bounds
    have h₁ := walk_mono (Nat.le_max_left n a.scopes.size) hn
    have h₂ := walk_mono (Nat.le_max_right n a.scopes.size) hb
    rw [h₁] at h₂
    cases h₂
    exact hb

end Walk

/-! ## Who takes a signal -/

/-- The scope `owner` takes a signal raised in `id`. -/
inductive Owns (a : Arena) (signal : Signal) (owner : ScopeId) : ScopeId → Prop
  | here {s : Scope} (hs : a.get? owner = some s) (hr : s.route signal = .owns) :
      Owns a signal owner owner
  | pass {id next : ScopeId} {s : Scope} (hs : a.get? id = some s)
      (hr : s.route signal = .passes (some next)) (h : Owns a signal owner next) :
      Owns a signal owner id

/-- The walk to the scope that takes a signal. -/
def visitOwner (signal : Signal) (id : ScopeId) (scope : Scope) : Visit (Except Fault ScopeId) :=
  match scope.route signal with
  | .owns => .done (.ok id)
  | .passes (some next) => .next next
  | .passes none => .done (.error (signal.misuse id))

theorem owner_eq (a : Arena) (id : ScopeId) (signal : Signal) :
    a.owner id signal = a.follow (visitOwner signal) id >>= fun answer => answer := rfl

theorem owns_iff_arrives {a : Arena} {signal : Signal} {id owner : ScopeId} :
    a.Owns signal owner id ↔ a.Arrives (visitOwner signal) (.ok owner) id := by
  constructor
  · intro h
    induction h with
    | here hs hr => exact .done hs (by rw [visitOwner, hr])
    | pass hs hr _ ih => exact .next hs (by rw [visitOwner, hr]) ih
  · intro h
    induction h with
    | done hs hv =>
      unfold visitOwner at hv
      split at hv
      · cases hv
        exact .here hs ‹_›
      · cases hv
      · cases hv
    | next hs hv _ ih =>
      unfold visitOwner at hv
      split at hv
      · cases hv
      · cases hv
        exact .pass hs ‹_› ih
      · cases hv

theorem owner_eq_ok_iff {a : Arena} {signal : Signal} {id owner : ScopeId} :
    a.owner id signal = .ok owner ↔ a.Owns signal owner id := by
  rw [owner_eq, owns_iff_arrives, ← follow_eq_ok_iff]
  cases a.follow (visitOwner signal) id <;> simp [bind, Except.bind]

theorem Owns.unique {a : Arena} {signal : Signal} {id owner owner' : ScopeId}
    (h : a.Owns signal owner id) (h' : a.Owns signal owner' id) : owner = owner' := by
  have heq := (owner_eq_ok_iff.mpr h).symm.trans (owner_eq_ok_iff.mpr h')
  exact Except.ok.inj heq

/-- The owner of a signal is a scope that takes it. -/
theorem Owns.exists_route {a : Arena} {signal : Signal} {id owner : ScopeId}
    (h : a.Owns signal owner id) : ∃ s, a.get? owner = some s ∧ s.route signal = .owns := by
  induction h with
  | here hs hr => exact ⟨_, hs, hr⟩
  | pass _ _ _ ih => exact ih

/-! ## What stops statements -/

/-- A signal other than an exception stops the statements of `id`. -/
inductive Stopped (a : Arena) : ScopeId → Prop
  | here {id : ScopeId} {s : Scope} (hs : a.get? id = some s)
      (hv : visitInterrupted id s = .done true) : Stopped a id
  | outward {id next : ScopeId} {s : Scope} (hs : a.get? id = some s)
      (hv : visitInterrupted id s = .next next) (h : Stopped a next) : Stopped a id

theorem interrupted_iff {a : Arena} {id : ScopeId} : a.interrupted id = true ↔ a.Stopped id := by
  have harrives : a.Stopped id ↔ a.Arrives visitInterrupted true id := by
    constructor
    · intro h
      induction h with
      | here hs hv => exact .done hs hv
      | outward hs hv _ ih => exact .next hs hv ih
    · intro h
      induction h with
      | done hs hv => exact .here hs hv
      | next hs hv _ ih => exact .outward hs hv ih
  rw [harrives, ← follow_eq_ok_iff, interrupted]
  cases a.follow visitInterrupted id <;> simp [Except.toOption]

/-! ## The loops and case constructs around a scope -/

/-- Whether a scope is a loop or a case construct. -/
def ownsJumps (s : Scope) : Bool :=
  match s.state with
  | .loop .. | .select _ => true
  | _ => false

/-- The loop or case construct `owner` is around `id` within the nearest main scope. -/
inductive Encloses (a : Arena) (owner : ScopeId) : ScopeId → Prop
  | here {s : Scope} (hs : a.get? owner = some s) (hj : ownsJumps s = true) :
      Encloses a owner owner
  | outward {id next : ScopeId} {s : Scope} (hs : a.get? id = some s) (hm : s.isMain = false)
      (ho : s.outer = some next) (h : Encloses a owner next) : Encloses a owner id

theorem ownsJumps_eq_true_iff {s : Scope} :
    ownsJumps s = true ↔
      (∃ title flags, s.state = .loop title flags) ∨ ∃ c, s.state = .select c := by
  unfold ownsJumps
  cases s.state <;> simp

theorem isMain_of_ownsJumps {s : Scope} (h : ownsJumps s = true) : s.isMain = false := by
  rcases ownsJumps_eq_true_iff.mp h with ⟨title, flags, hs⟩ | ⟨c, hs⟩
  · cases title <;> simp [Scope.isMain, Scope.kind, hs, ScopeState.kind, ScopeKind.category]
  · simp [Scope.isMain, Scope.kind, hs, ScopeState.kind, ScopeKind.category]

/-- One step of the search for the enclosing loops and case constructs. -/
theorem mem_enclosing_succ {a : Arena} {n : Nat} {id owner : ScopeId} {s : Scope}
    (hs : a.get? id = some s) :
    owner ∈ a.enclosing (n + 1) id ↔ s.isMain = false ∧
      ((ownsJumps s = true ∧ owner = id) ∨
        ∃ next, s.outer = some next ∧ owner ∈ a.enclosing n next) := by
  simp only [enclosing, hs, ownsJumps]
  by_cases hm : s.isMain = true
  · simp [hm]
  · cases s.state <;> cases s.outer <;> simp [hm]

theorem encloses_of_mem_enclosing {a : Arena} {n : Nat} {id owner : ScopeId}
    (h : owner ∈ a.enclosing n id) : a.Encloses owner id := by
  induction n generalizing id with
  | zero => cases h
  | succ n ih =>
    cases hs : a.get? id with
    | none => simp [enclosing, hs] at h
    | some s =>
      obtain ⟨hm, ⟨hj, rfl⟩ | ⟨next, ho, h⟩⟩ := (mem_enclosing_succ hs).mp h
      · exact .here hs hj
      · exact .outward hs hm ho (ih h)

/-- The walk outward to `owner`. -/
def visitUpTo (owner : ScopeId) (id : ScopeId) (s : Scope) : Visit Unit :=
  if id = owner then .done () else .outward s ()

theorem mem_enclosing_of_walk {a : Arena} {n : Nat} {id owner : ScopeId}
    (h : a.Encloses owner id) (hwalk : a.walk (visitUpTo owner) n id = .ok ()) :
    owner ∈ a.enclosing n id := by
  induction n generalizing id with
  | zero => cases hwalk
  | succ n ih =>
    cases h with
    | here hs hj => exact (mem_enclosing_succ hs).mpr ⟨isMain_of_ownsJumps hj, .inl ⟨hj, rfl⟩⟩
    | @outward id next s hs hm ho h =>
      by_cases hid : id = owner
      · subst hid
        -- the owner itself is passed on the way to it: it is listed where it is met first
        have hj : ownsJumps s = true := by
          clear ih hwalk ho hm
          induction h with
          | here hs' hj => rwa [Option.some.inj (hs.symm.trans hs')]
          | outward _ _ _ _ ih => exact ih
        exact (mem_enclosing_succ hs).mpr ⟨hm, .inl ⟨hj, rfl⟩⟩
      · have hv : visitUpTo owner id s = .next next := by simp [visitUpTo, hid, Visit.outward, ho]
        rw [walk_next n hs hv] at hwalk
        exact (mem_enclosing_succ hs).mpr ⟨hm, .inr ⟨next, ho, ih h hwalk⟩⟩

theorem mem_enclosing_iff {a : Arena} {id owner : ScopeId} :
    owner ∈ a.enclosing a.scopes.size id ↔ a.Encloses owner id := by
  refine ⟨encloses_of_mem_enclosing, fun h => mem_enclosing_of_walk h ?_⟩
  refine follow_eq_ok_iff.mpr ?_
  induction h with
  | here hs _ => exact .done hs (by simp [visitUpTo])
  | @outward id next s hs _ ho _ ih =>
    by_cases hid : id = owner
    · exact .done hs (by simp [visitUpTo, hid])
    · exact .next hs (by simp [visitUpTo, hid, Visit.outward, ho]) ih

/-! ## Names that can be declared -/

/-- No scope from `id` to its declaration boundary binds `name`. -/
inductive Undeclared (a : Arena) (name : String) : ScopeId → Prop
  | boundary {id : ScopeId} {s : Scope} (hs : a.get? id = some s) (hb : s.binds name = false)
      (hm : s.isMain = true ∨ s.outer = none) : Undeclared a name id
  | outward {id next : ScopeId} {s : Scope} (hs : a.get? id = some s) (hb : s.binds name = false)
      (hm : s.isMain = false) (ho : s.outer = some next) (h : Undeclared a name next) :
      Undeclared a name id

theorem isDeclared_eq_false_iff {a : Arena} {id : ScopeId} {name : String} :
    a.isDeclared id name = .ok false ↔ a.Undeclared name id := by
  rw [isDeclared, follow_eq_ok_iff]
  constructor
  · intro h
    induction h with
    | @done id s hs hv =>
      cases hb : s.binds name with
      | true => simp [hb] at hv
      | false =>
        refine .boundary hs hb ?_
        cases hm : s.isMain with
        | true => exact .inl rfl
        | false =>
          cases ho : s.outer with
          | none => exact .inr rfl
          | some next => simp [hb, hm, Visit.outward, ho] at hv
    | @next id next s hs hv _ ih =>
      cases hb : s.binds name with
      | true => simp [hb] at hv
      | false =>
        cases hm : s.isMain with
        | true => simp [hb, hm] at hv
        | false =>
          cases ho : s.outer with
          | none => simp [hb, hm, Visit.outward, ho] at hv
          | some outer =>
            have heq : outer = next := by simpa [hb, hm, Visit.outward, ho] using hv
            exact .outward hs hb hm (heq ▸ ho) ih
  · intro h
    induction h with
    | @boundary id s hs hb hm =>
      refine .done hs ?_
      cases hmain : s.isMain with
      | true => simp [hb]
      | false =>
        have ho : s.outer = none := by simpa [hmain] using hm
        simp [hb, Visit.outward, ho]
    | outward hs hb hm ho _ ih => exact .next hs (by simp [hb, hm, Visit.outward, ho]) ih

end ScriptCore.Arena
