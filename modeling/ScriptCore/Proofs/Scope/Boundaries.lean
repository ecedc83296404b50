import ScriptCore.Proofs.Scope.Assignment
import ScriptCore.Proofs.Scope.Descent

/-!
# The boundary of declarations

A name can be declared in a scope if the scope has the table for it and none of the scopes up to
the nearest main scope binds the name in any of its tables (`Arena.Unbound`). The declaration adds
one binding to the table, which hides every binding of the name further out. What there is beyond
the boundary makes no difference (`Arena.defineField_modify`).

`Declaration` stands for the three ways to declare a name: as a variable, as a constant, and as a
field of an instance. The main result is `declaration_boundary`.
-/

namespace ScriptCore

/-! ## Tables -/

/-- A new name goes to the end of a table. -/
theorem Bindings.insert_of_get?_eq_none {table : Bindings} {key : String}
    (h : table.get? key = none) (b : Binding) :
    table.insert key b = ⟨table.entries ++ [(key, b)]⟩ := by
  have hkeys : ∀ entry ∈ table.entries, (entry.1 != key) = true := by
    intro entry hentry
    have hne := List.lookup_eq_none_iff.mp h entry hentry
    rw [bne_iff_ne]
    exact (bne_iff_ne.mp hne).symm
  rw [insert, List.filter_eq_self.mpr hkeys]

namespace Scope

variable {s : Scope} {p : Partition} {name : String}

/-- Names can be declared as public ones in every scope, and otherwise in an instance. -/
def Offers (s : Scope) (p : Partition) : Prop := p = .pub ∨ s.kind = .instance_

theorem table?_eq_none_iff : s.table? p = none ↔ ¬ s.Offers p := by
  unfold Offers kind table?
  cases p <;> cases s.state <;> simp [ScopeState.kind]
  all_goals grind [ScopeState.kind]

/-- A name that one table alone binds is found there. -/
theorem found?_eq_some (h : ∀ q, (s.table? q).any (·.contains name) = decide (q = p)) :
    s.found? true name = some p := by
  unfold found?
  cases hstate : s.state with
  | instance_ fields =>
    simp only [searchOrder, if_true, h]
    cases p <;> rfl
  | _ =>
    -- there is no table but the public one
    have hp := h p
    have hpub := h .pub
    cases p <;> simp_all [table?]

end Scope

namespace Arena

variable {a a' : Arena} {heap : Heap} {x y : ScopeId} {s : Scope} {p : Partition} {name : String}
  {b : Binding}

/-! ## The scopes up to the boundary -/

/-- No scope from `x` up to its nearest main scope binds `name`, in whichever of its tables. -/
def Unbound (a : Arena) (name : String) (x : ScopeId) : Prop :=
  ∀ y s p, a.Within y x → a.get? y = some s → s.binding? p name = none

theorem Undeclared.unbound (h : a.Undeclared name x) : a.Unbound name x := by
  intro y t p hy ht
  induction h with
  | @boundary x s hs hb hm =>
    rcases hy.cases_head with rfl | ⟨next, ⟨s', hs', hmain, houter⟩, -⟩
    · cases hs.symm.trans ht
      exact Scope.binds_eq_false_iff.mp hb p
    · cases hs.symm.trans hs'
      simp [hmain, houter] at hm
  | @outward x next s hs hb hm ho _ ih =>
    rcases hy.cases_head with rfl | ⟨next', ⟨s', hs', -, houter⟩, hnext⟩
    · cases hs.symm.trans ht
      exact Scope.binds_eq_false_iff.mp hb p
    · cases hs.symm.trans hs'
      cases ho.symm.trans houter
      exact ih hnext

theorem Unbound.undeclared (h : a.FiniteAlong fun s next => s.outer = some next)
    (hu : a.Unbound name x) (hs : a.get? x = some s) : a.Undeclared name x := by
  induction x using h.finite.induction generalizing s with
  | _ x ih =>
    have hb : s.binds name = false :=
      Scope.binds_eq_false_iff.mpr fun p => hu x s p .refl hs
    cases hm : s.isMain with
    | true => exact .boundary hs hb (.inl hm)
    | false =>
      cases ho : s.outer with
      | none => exact .boundary hs hb (.inr ho)
      | some next =>
        obtain ⟨t, ht⟩ := Option.isSome_iff_exists.mp (h.linked hs ho)
        refine .outward hs hb hm ho (ih next ⟨s, hs, ho⟩ (fun y t p hy => ?_) ht)
        exact hu y t p (.head ⟨s, hs, hm, ho⟩ hy)

/-- The search for a declared name has an end, and finds one unless there is none up to the
boundary. -/
theorem FiniteAlong.exists_isDeclared (h : a.FiniteAlong fun s next => s.outer = some next)
    (hs : a.get? x = some s) (name : String) :
    ∃ declared, a.isDeclared x name = .ok declared ∧ (declared = false ↔ a.Unbound name x) := by
  have hx : a.contains x = true := Option.isSome_iff_exists.mpr ⟨s, hs⟩
  obtain ⟨declared, harrives⟩ := h.exists_arrives (visitDeclared name) visitDeclared_eq_next hx
  have hdeclared : a.isDeclared x name = .ok declared := follow_eq_ok_iff.mpr harrives
  refine ⟨declared, hdeclared, fun hfalse => ?_, fun hu => ?_⟩
  · exact (isDeclared_eq_false_iff.mp (hfalse ▸ hdeclared)).unbound
  · have hfalse := isDeclared_eq_false_iff.mpr (hu.undeclared h hs)
    exact Except.ok.inj (hdeclared.symm.trans hfalse)

/-! ## One binding more -/

/-- **One binding has been added**, at the end of a table. -/
structure Declared (a : Arena) (place : Place) (key : String) (b : Binding) (a' : Arena) :
    Prop where
  scope : ∃ s s' table, a.get? place.1 = some s ∧ a'.get? place.1 = some s' ∧
    s.table? place.2 = some table ∧
    (∀ p, s'.table? p =
      if p = place.2 then some ⟨table.entries ++ [(key, b)]⟩ else s.table? p) ∧
    s'.outer = s.outer ∧ s'.namespaces = s.namespaces ∧ s'.serial = s.serial ∧
    s'.state.skeleton = s.state.skeleton ∧ s'.control? = s.control?
  others : ∀ x, x ≠ place.1 → a'.get? x = a.get? x
  rest : a' = { a with scopes := a'.scopes }

theorem declared_modifyTable {table : Bindings} (hs : a.get? x = some s)
    (ht : s.table? p = some table) (hnew : table.get? name = none) :
    a.Declared (x, p) name b (a.modifyTable (x, p) (·.insert name b)) := by
  refine ⟨⟨s, s.setTable p (table.insert name b), table, hs, ?_, ht, fun q => ?_, ?_⟩,
    fun y hy => ?_, rfl⟩
  · rw [get?_modifyTable hs ht, if_pos rfl]
  · rw [Scope.table?_setTable ht, Bindings.insert_of_get?_eq_none hnew]
  · obtain ⟨hkin, hcontrol⟩ := s.kin_setTable p (table.insert name b)
    exact ⟨hkin.outer, s.namespaces_setTable _ _, hkin.serial, s.skeleton_setTable _ _, hcontrol⟩
  · rw [get?_modifyTable hs ht, if_neg hy]

/-- A name that the scope itself has is found there. -/
theorem locate_of_found? (hs : a.get? x = some s) (hfound : s.found? true name = some p) :
    a.locate heap x name = .ok (some (x, p)) := by
  have hsearch : a.searchScope heap name a.searchBound true x = .ok (some (x, p)) := by
    rw [searchBound, searchScope_succ, hs]
    simp only [hfound]
  have harrives : a.Arrives (visitSearch fun y _ => a.searchScope heap name a.searchBound true y)
      (.ok (some (x, p))) x :=
    .done hs (by rw [visitSearch, hsearch])
  unfold locate
  dsimp only
  rw [searchOutward_eq, follow_eq_ok_iff.mpr harrives]
  rfl

/-- **What has been declared is found**, if the name was new in all tables of the scope. -/
theorem Declared.lookup (h : a.Declared (x, p) name b a')
    (hnew : ∀ s q, a.get? x = some s → s.binding? q name = none) (heap : Heap) :
    a'.lookup heap x name = .ok b.value := by
  obtain ⟨s, s', table, hs, hs', ht, htables, -⟩ := h.scope
  have hget : Bindings.get? ⟨table.entries ++ [(name, b)]⟩ name = some b := by
    have hnone := (Scope.binding?_eq_get? ht name).symm.trans (hnew s p hs)
    rw [← Bindings.insert_of_get?_eq_none hnone, Bindings.get?_insert, if_pos rfl]
  have hplaces : ∀ q, (s'.table? q).any (·.contains name) = decide (q = p) := by
    intro q
    rw [htables q]
    by_cases hq : q = p
    · simp [hq, Bindings.contains, hget]
    · have hnone := hnew s q hs
      unfold Scope.binding? at hnone
      cases htable : s.table? q <;> simp_all [Bindings.contains]
  have hentry : a'.entry (x, p) name = .ok b :=
    entry_eq_ok_iff.mpr ⟨s', _, hs', by rw [htables p, if_pos rfl], hget⟩
  unfold Arena.lookup
  rw [locate_of_found? hs' (Scope.found?_eq_some hplaces)]
  dsimp only [bind, Except.bind]
  rw [hentry]
  rfl

/-- **A declaration ends in one of three ways.** -/
theorem FiniteAlong.defineField_cases (h : a.FiniteAlong fun s next => s.outer = some next)
    (hs : a.get? x = some s) (p : Partition) (name : String) (b : Binding) :
    (¬ s.Offers p ∧ a.defineField x p name b = .error (.notAnInstance x)) ∨
    (s.Offers p ∧ ¬ a.Unbound name x ∧
      a.defineField x p name b = .error (.nameRedefinition name)) ∨
    (s.Offers p ∧ a.Unbound name x ∧ ∃ a', a.defineField x p name b = .ok a' ∧
      a.Declared (x, p) name b a' ∧ ∀ heap, a'.lookup heap x name = .ok b.value) := by
  obtain ⟨declared, hdeclared, hunbound⟩ := h.exists_isDeclared hs name
  rw [defineField_eq hs hdeclared]
  cases htable : s.table? p with
  | none => exact .inl ⟨Scope.table?_eq_none_iff.mp htable, rfl⟩
  | some table =>
    have hoffers : s.Offers p := by
      by_contra hno
      cases htable.symm.trans (Scope.table?_eq_none_iff.mpr hno)
    cases declared with
    | true => exact .inr (.inl ⟨hoffers, fun hu => Bool.noConfusion (hunbound.mpr hu), rfl⟩)
    | false =>
      have hu : a.Unbound name x := hunbound.mp rfl
      have hnew : ∀ t q, a.get? x = some t → t.binding? q name = none :=
        fun t q ht => hu x t q .refl ht
      have hnone := (Scope.binding?_eq_get? htable name).symm.trans (hnew s p hs)
      have hadded := declared_modifyTable (b := b) hs htable hnone
      exact .inr (.inr ⟨hoffers, hu, _, rfl, hadded, hadded.lookup hnew⟩)

/-! ## Beyond the boundary -/

theorem arrives_modify (f : Scope → Scope) {declared : Bool} (hy : ¬ a.Within y x)
    (h : a.Arrives (visitDeclared name) declared x) :
    (a.modify y f).Arrives (visitDeclared name) declared x := by
  have hget : ∀ {z s}, ¬ a.Within y z → a.get? z = some s → (a.modify y f).get? z = some s := by
    intro z s hz hs
    rw [get?_modify, if_neg, hs]
    rintro rfl
    exact hz .refl
  induction h with
  | done hs hv => exact .done (hget hy hs) hv
  | @next x next s hs hv _ ih =>
    refine .next (hget hy hs) hv (ih fun hnext => hy (.head ⟨s, hs, ?_, ?_⟩ hnext))
    on_goal 2 => exact visitDeclared_eq_next hv
    -- the walk does not go on from a main scope
    cases hmain : s.isMain with
    | false => rfl
    | true =>
      simp only [visitDeclared, hmain, if_true] at hv
      split at hv <;> cases hv

theorem modify_comm (a : Arena) (hne : x ≠ y) (f g : Scope → Scope) :
    (a.modify y f).modify x g = (a.modify x g).modify y f := by
  simp only [modify, mk.injEq, and_true]
  apply Array.ext_getElem?
  intro i
  simp only [Array.getElem?_modify]
  have hindex : x.index ≠ y.index := by
    intro heq
    cases x
    cases y
    exact hne (congrArg ScopeId.mk heq)
  by_cases hx : x.index = i
  · have hy : y.index ≠ i := fun hy => hindex (hx.trans hy.symm)
    simp only [if_pos hx, if_neg hy]
  · simp only [if_neg hx]

/-- **What there is beyond the boundary makes no difference to a declaration**, and stays as it
is. -/
theorem FiniteAlong.defineField_modify (h : a.FiniteAlong fun s next => s.outer = some next)
    (hs : a.get? x = some s) (hy : ¬ a.Within y x) (f : Scope → Scope) (p : Partition)
    (name : String) (b : Binding) : (a.modify y f).defineField x p name b =
      (a.defineField x p name b).map (·.modify y f) := by
  have hne : x ≠ y := by
    rintro rfl
    exact hy .refl
  have hs' : (a.modify y f).get? x = some s := by rw [get?_modify, if_neg hne, hs]
  have hx : a.contains x = true := Option.isSome_iff_exists.mpr ⟨s, hs⟩
  obtain ⟨declared, harrives⟩ := h.exists_arrives (visitDeclared name) visitDeclared_eq_next hx
  rw [defineField_eq hs (follow_eq_ok_iff.mpr harrives),
    defineField_eq hs' (follow_eq_ok_iff.mpr (arrives_modify f hy harrives))]
  split
  · rfl
  · split
    · rfl
    · exact congrArg Except.ok (a.modify_comm hne f _)

end Arena

/-! ## Ways to declare a name -/

/-- A declaration: of a variable, of a constant, or of a field. -/
inductive Declaration
  | var (key : String) (v : Value)
  | const (key : String) (v : Value)
  | field (partition : Partition) (key : String) (b : Binding)

namespace Declaration

/-- The table for it. -/
def partition : Declaration → Partition
  | var _ _ | const _ _ => .pub
  | field partition _ _ => partition

/-- The name that is declared. -/
def key : Declaration → String
  | var key _ | const key _ | field _ key _ => key

/-- What the name is bound to. -/
def binding : Declaration → Binding
  | var _ v => ⟨v, false⟩
  | const _ v => ⟨v, true⟩
  | field _ _ b => b

/-- Make the declaration in the scope at `x`. -/
def apply (d : Declaration) (a : Arena) (x : ScopeId) : Except Fault Arena :=
  match d with
  | var key v => a.defineVar x key v
  | const key v => a.defineConst x key v
  | field partition key b => a.defineField x partition key b

/-- Make the declaration, in a session. -/
def run (d : Declaration) (x : ScopeId) : Run Unit :=
  match d with
  | var key v => Session.defineVar x key v
  | const key v => Session.defineConst x key v
  | field partition key b => Run.modifyScopes fun a => a.defineField x partition key b

/-- Variables and constants are public fields. -/
theorem apply_eq (d : Declaration) (a : Arena) (x : ScopeId) :
    d.apply a x = a.defineField x d.partition d.key d.binding := by
  cases d <;> rfl

/-- A refused declaration leaves the session as it was. -/
theorem exec_run_error {d : Declaration} {x : ScopeId} {S : Session} {fault : Fault}
    (h : d.apply S.arena x = .error fault) : (d.run x).exec S = (.error (.fault fault), S) := by
  cases d with
  | var key v => exact Run.exec_modifyScopes_error (f := fun a => a.defineVar x key v) h
  | const key v => exact Run.exec_modifyScopes_error (f := fun a => a.defineConst x key v) h
  | field p key b => exact Run.exec_modifyScopes_error (f := fun a => a.defineField x p key b) h

end Declaration

/-- **Names are declared up to a boundary.** Where chains of scopes are finite, a declaration
succeeds exactly if the scope has the table for it and no scope up to the nearest main scope binds
the name. It adds one binding to the table and changes nothing else, and the name is looked up there
at once. Whatever scope there is beyond the boundary, and whatever it binds, the declaration does
the same. If it fails, nothing has changed, and the fault tells which of the two was missing. -/
theorem declaration_boundary {a : Arena} {x : ScopeId} {s : Scope}
    (h : a.FiniteAlong fun s next => s.outer = some next) (hs : a.get? x = some s)
    (d : Declaration) :
    ((∃ a', d.apply a x = .ok a') ↔ s.Offers d.partition ∧ a.Unbound d.key x) ∧
    (∀ a', d.apply a x = .ok a' → a.Declared (x, d.partition) d.key d.binding a' ∧
      ∀ heap, a'.lookup heap x d.key = .ok d.binding.value) ∧
    (∀ y f, ¬ a.Within y x → d.apply (a.modify y f) x = (d.apply a x).map (·.modify y f)) ∧
    ∀ fault, (d.apply a x = .error fault ↔
        ¬ s.Offers d.partition ∧ fault = .notAnInstance x ∨
          s.Offers d.partition ∧ ¬ a.Unbound d.key x ∧ fault = .nameRedefinition d.key) ∧
      ∀ S : Session, S.arena = a → d.apply a x = .error fault →
        (d.run x).exec S = (.error (.fault fault), S) := by
  refine ⟨?_, fun a' ha' => ?_, fun y f hy => ?_, fun fault => ⟨?_, ?_⟩⟩
  · rw [d.apply_eq]
    rcases h.defineField_cases hs d.partition d.key d.binding with
      ⟨ho, heq⟩ | ⟨ho, hu, heq⟩ | ⟨ho, hu, a', heq, -⟩
    · simp [heq, ho]
    · simp [heq, ho, hu]
    · simp [heq, ho, hu]
  · rw [d.apply_eq] at ha'
    rcases h.defineField_cases hs d.partition d.key d.binding with
      ⟨-, heq⟩ | ⟨-, -, heq⟩ | ⟨-, -, a'', heq, hadded⟩
    all_goals cases heq.symm.trans ha'
    exact hadded
  · rw [d.apply_eq, d.apply_eq]
    exact h.defineField_modify hs hy f _ _ _
  · rw [d.apply_eq]
    rcases h.defineField_cases hs d.partition d.key d.binding with
      ⟨ho, heq⟩ | ⟨ho, hu, heq⟩ | ⟨ho, hu, a', heq, -⟩
    · simp [heq, ho, eq_comm]
    · simp [heq, ho, hu, eq_comm]
    · simp [heq, ho, hu]
  · rintro S rfl herror
    exact Declaration.exec_run_error herror

theorem founded_methodBlock : methodBlock.Founded := by
  intro x s hs p hp
  obtain ⟨i⟩ := x
  rcases i with _ | _ | _ | _ | i
  on_goal 5 => cases (Arena.get?_eq_none_of_size_le (Nat.le_add_left 4 i)).symm.trans hs
  all_goals
    cases hs
    rcases hp with hp | hp <;> cases hp
    try exact ⟨_, rfl, by decide⟩

/-- In the block of the method a name can be declared that the receiver has as a private field, and
from then on it is the one that is read. In the receiver it cannot be declared once more, not even
as a public field. -/
theorem declaration_boundary_methodBlock :
    (∃ a', (Declaration.var "count" (.bool true)).apply methodBlock ⟨3⟩ = .ok a' ∧
      a'.lookup receiver ⟨3⟩ "count" = .ok (.bool true)) ∧
    ¬ methodBlock.Unbound "count" ⟨1⟩ := by
  have hfinite : methodBlock.FiniteAlong fun s next => s.outer = some next :=
    founded_methodBlock.finiteAlong.mono fun _ _ => .inl
  refine ⟨⟨_, rfl, ?_⟩, ?_⟩
  · exact ((declaration_boundary hfinite rfl (.var "count" (.bool true))).2.1 _ rfl).2 receiver
  · intro hunbound
    obtain ⟨a', ha'⟩ := (declaration_boundary (x := ⟨1⟩) hfinite rfl (.var "count" .null)).1.mpr
      ⟨.inl rfl, hunbound⟩
    cases ha'

end ScriptCore
