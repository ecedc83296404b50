import ScriptCore.Proofs.Control.Programs
import ScriptCore.Proofs.Scope.Searches

/-!
# Nodes that leave control state alone

Names are looked up and assigned in the same way whether signals are pending or not
(`Arena.lookup_calm`, `Arena.assign_calm`). So the nodes that write a line, compare a variable with
a number or add one to it are quiet, and so are literals that are no references.
-/

namespace ScriptCore

open Run

/-! ## Names and pending signals -/

theorem Scope.findsAlike_calm (s : Scope) : s.FindsAlike s.calm where
  outer := s.outer_calm
  namespaces := s.namespaces_calm
  contains name := by rw [s.bindings_calm]
  found private_ name := by
    unfold found?
    simp only [table?_calm, bindings_calm]
    rcases s.state_calm with h | ⟨c, h⟩
    · rw [h]
    · rw [h]
      cases s.state <;> cases c <;> rfl
  behind := by
    unfold behind?
    rw [parent?_calm]
    rcases s.state_calm with h | ⟨c, h⟩
    · rw [h]
    · rw [h]
      cases s.state <;> cases c <;> rfl

namespace Arena

variable {a : Arena}

theorem get_calm (a : Arena) (id : ScopeId) : a.calm.get id = (a.get id).map Scope.calm := by
  unfold get
  rw [get?_calm]
  cases a.get? id <;> rfl

theorem size_calm (a : Arena) : a.calm.scopes.size = a.scopes.size := by
  simp [calm]

theorem rel_calm {r : Scope → Scope → Prop} (a : Arena) (h : ∀ s : Scope, r s s.calm)
    (id : ScopeId) : Option.Rel r (a.get? id) (a.calm.get? id) := by
  rw [get?_calm]
  cases a.get? id with
  | none => exact .none
  | some s => exact .some (h s)

theorem findsAlike_calm (a : Arena) : a.FindsAlike a.calm :=
  ⟨a.size_calm, a.rel_calm Scope.findsAlike_calm⟩

theorem locate_calm (heap : Heap) (id : ScopeId) (name : String) :
    a.calm.locate heap id name = a.locate heap id name :=
  a.findsAlike_calm.locate heap name id

theorem entry_calm (place : Place) (name : String) :
    a.calm.entry place name = a.entry place name := by
  unfold entry
  rw [get_calm]
  cases a.get place.1 with
  | error fault => rfl
  | ok s => simp only [Except.map, bind, Except.bind, Scope.table?_calm]

/-- Names have the same values whether signals are pending or not. -/
theorem lookup_calm (heap : Heap) (id : ScopeId) (name : String) :
    a.calm.lookup heap id name = a.lookup heap id name := by
  unfold lookup
  rw [locate_calm]
  simp only [entry_calm]

/-- An assignment is the same whether signals are pending or not. -/
theorem assign_calm (heap : Heap) (id : ScopeId) (name : String) (v : Value) :
    a.calm.assign heap id name v = (a.assign heap id name v).map calm := by
  unfold assign
  rw [locate_calm]
  cases a.locate heap id name with
  | error fault => rfl
  | ok place =>
    cases place with
    | none => rfl
    | some place =>
      simp only [bind, Except.bind]
      unfold assignAt
      rw [entry_calm]
      cases a.entry place name with
      | error fault => rfl
      | ok entry =>
        simp only [bind, Except.bind]
        split
        · rfl
        · exact congrArg Except.ok (a.calm_modifyTable place (·.assign name v)).symm

theorem isDeclared_calm (id : ScopeId) (name : String) :
    a.calm.isDeclared id name = a.isDeclared id name := by
  unfold isDeclared follow
  rw [size_calm]
  refine walk_congr (a.rel_calm (r := fun s s' => s' = s.calm) fun _ => rfl) ?_ _ id
  rintro id s - rfl
  simp only [Scope.binds_calm, Scope.isMain_calm, Visit.outward, Scope.outer_calm]

/-- A declaration is the same whether signals are pending or not. -/
theorem defineField_calm (id : ScopeId) (name : String) (entry : Binding) :
    a.calm.defineField id .pub name entry = (a.defineField id .pub name entry).map calm := by
  unfold defineField
  rw [isDeclared_calm]
  cases a.isDeclared id name with
  | error fault => rfl
  | ok declared =>
    cases declared with
    | true => rfl
    | false => exact congrArg Except.ok (a.calm_modifyTable (id, .pub) (·.insert name entry)).symm

end Arena

/-! ## Assignments, declarations and links -/

/-- Replacing a table by one that binds the same names makes no difference but to the values. -/
theorem Scope.setTable_spec (s : Scope) {partition : Partition} {table table' : Bindings}
    (ht : s.table? partition = some table) (hb : ∀ name, table'.contains name = table.contains name)
    (names : List String) :
    (s.setTable partition table').serial = s.serial ∧ s.Alike names (s.setTable partition table') ∧
      (s.setTable partition table').control? = s.control? := by
  obtain ⟨state, outer, bindings, namespaces, serial⟩ := s
  cases partition <;> cases state <;> cases ht <;>
    exact ⟨rfl, ⟨rfl, rfl, fun name _ => by
      simp [Scope.binds, Scope.table?, Scope.setTable, hb]⟩, rfl⟩

namespace Arena

variable {a a' : Arena} {names : List String} {id : ScopeId}

theorem assign_eq_ok {heap : Heap} {name : String} {v : Value}
    (h : a.assign heap id name v = .ok a') :
    ∃ place, a' = a.modifyTable place (·.assign name v) := by
  unfold assign at h
  cases hplace : a.locate heap id name with
  | error fault => simp [hplace, bind, Except.bind] at h
  | ok place =>
    cases place with
    | none => simp [hplace, bind, Except.bind, throw, throwThe, MonadExceptOf.throw] at h
    | some place =>
      refine ⟨place, ?_⟩
      simp only [hplace, bind, Except.bind, assignAt] at h
      cases hentry : a.entry place name with
      | error fault => simp [hentry] at h
      | ok entry =>
        simp only [hentry] at h
        split at h
        · cases h
        · cases h
          rfl

/-- An assignment makes no difference to links and control state. -/
theorem keeps_assign {heap : Heap} {x : ScopeId} {name : String} {v : Value} (ha : a.Orderly)
    (hg : a.Grounded id) (h : a.assign heap x name v = .ok a') : Keeps names id a a' := by
  obtain ⟨place, rfl⟩ := assign_eq_ok h
  have hspec : ∀ (s : Scope) {table : Bindings}, s.table? place.2 = some table → _ :=
    fun s table ht => s.setTable_spec ht (table.contains_assign name v) names
  refine keeps_modify ha hg place.1 (fun s => ?_) fun s => ?_
  · cases ht : s.table? place.2 with
    | none => exact ⟨rfl, .refl names s⟩
    | some table => exact ⟨(hspec s ht).1, (hspec s ht).2.1⟩
  · cases ht : s.table? place.2 with
    | none => rfl
    | some table => exact (hspec s ht).2.2

theorem defineField_eq_ok {name : String} {entry : Binding}
    (h : a.defineField id .pub name entry = .ok a') :
    a' = a.modify id fun s => { s with bindings := s.bindings.insert name entry } := by
  unfold defineField at h
  cases hdeclared : a.isDeclared id name with
  | error fault => simp [hdeclared, bind, Except.bind] at h
  | ok declared =>
    cases declared with
    | true => simp [hdeclared, bind, Except.bind, throw, throwThe, MonadExceptOf.throw] at h
    | false =>
      rw [hdeclared] at h
      cases h
      rfl

/-- A declaration makes no difference to links, control state and other names. -/
theorem keeps_defineField {x : ScopeId} {name : String} {entry : Binding} (ha : a.Orderly)
    (hg : a.Grounded id) (hn : name ∉ names) (h : a.defineField x .pub name entry = .ok a') :
    Keeps names id a a' := by
  obtain rfl := defineField_eq_ok h
  refine keeps_modify ha hg x (fun s => ⟨rfl, rfl, rfl, fun other ho => ?_⟩) fun s => rfl
  have hne : other ≠ name := by
    rintro rfl
    exact hn ho
  exact s.binds_insert name entry hne

end Arena

/-! ## Quiet nodes -/

namespace Session

variable {faulty : Prop} {names : List String}

/-- A node that only reads the session, and reads the same whether signals are pending or not. -/
theorem quiet_of_read {node : Node} (result : Session → ScopeId → Except Stop Value)
    (hexec : ∀ bound S id, (eval (bound + 1) node id).exec S = (result S id, S))
    (hcalm : ∀ S id, result S.calm id = result S id)
    (hplain : ∀ S id v, result S id = .ok v → v.reference? = none)
    (hfault : ∀ S id cause, result S id = .error (.fault cause) → faulty) :
    Quiet faulty names node := by
  intro bound S id hr
  cases bound with
  | zero => exact .throw_exhausted
  | succ bound =>
    refine ⟨fun {v T} hT => ?_, fun {T} hT => ?_, fun {cause T} hT => ?_⟩
    · rw [hexec, hcalm] at hT
      cases hresult : result S id with
      | error stop => simp [hresult] at hT
      | ok w =>
        rw [hresult] at hT
        cases hT
        exact ⟨v, S, by rw [hexec, hresult], rfl, rfl, hplain S id v hresult, .refl names hr⟩
    · rw [hexec, hcalm, Prod.mk.injEq] at hT
      exact ⟨S, by rw [hexec, hT.1]⟩
    · rw [hexec, hcalm, Prod.mk.injEq] at hT
      exact hfault S id cause hT.1

theorem quiet_lit {v : Value} (hv : v.reference? = none) : Quiet faulty names (.lit v) := by
  refine quiet_of_read (fun _ _ => .ok v) (fun _ _ _ => rfl) (fun _ _ => rfl) ?_ ?_
  · rintro S id w h
    cases h
    exact hv
  · intro S id cause h
    cases h

/-- The value of an integer variable, or why there is none. -/
def intValue (S : Session) (id : ScopeId) (name : String) : Except Stop Int64 :=
  match S.arena.lookup S.memory.heap id name with
  | .error fault => .error (.fault fault)
  | .ok v =>
    match v.int? with
    | some n => .ok n
    | none => .error (.fault (.typeError "int" v.typeName))

theorem intValue_calm (S : Session) (id : ScopeId) (name : String) :
    S.calm.intValue id name = S.intValue id name := by
  have hlookup : S.calm.arena.lookup S.calm.memory.heap id name
      = S.arena.lookup S.memory.heap id name := Arena.lookup_calm _ id name
  unfold intValue
  rw [hlookup]

theorem exec_intVariable (S : Session) (id : ScopeId) (name : String) :
    (intVariable id name).exec S = (S.intValue id name, S) := by
  unfold intVariable intValue lookup
  rw [bind_assoc, exec_bind_ok (exec_get S)]
  cases S.arena.lookup S.memory.heap id name with
  | error fault => rfl
  | ok v =>
    rw [exec_bind_ok (exec_ofExcept_ok v S)]
    unfold asInt
    dsimp only
    cases v.int? <;> rfl

/-- A node that tests the value of an integer variable; there may be none. -/
theorem quiet_of_test (hfaulty : faulty) {node : Node} {name : String} (test : Int64 → Bool)
    (hnode : ∀ bound id, eval (bound + 1) node id = do
      return .bool (test (← intVariable id name))) : Quiet faulty names node := by
  refine quiet_of_read (fun S id => (S.intValue id name).map fun n => .bool (test n))
    (fun bound S id => ?_) (fun S id => by rw [intValue_calm]) (fun S id v h => ?_)
    fun _ _ _ _ => hfaulty
  · rw [hnode, exec_bind, exec_intVariable]
    cases S.intValue id name <;> rfl
  · cases hn : S.intValue id name with
    | error stop => simp [hn, Except.map] at h
    | ok n =>
      rw [hn] at h
      cases h
      rfl

theorem quiet_less (hfaulty : faulty) (name : String) (limit : Int64) :
    Quiet faulty names (.less name limit) :=
  quiet_of_test hfaulty (fun n => decide (n < limit)) fun _ _ => rfl

theorem quiet_equal (hfaulty : faulty) (name : String) (number : Int64) :
    Quiet faulty names (.equal name number) :=
  quiet_of_test hfaulty (fun n => n == number) fun _ _ => rfl

theorem quiet_emit (line : String) : Quiet faulty names (.emit line) := by
  intro bound S id hr
  cases bound with
  | zero => exact .throw_exhausted
  | succ bound =>
    have hexec : ∀ R : Session, (eval (bound + 1) (.emit line) id).exec R
        = (.ok .null, { R with output := R.output.push line }) := fun _ => rfl
    have hk : Kept names id S { S with output := S.output.push line } :=
      ⟨.refl names hr.orderly hr.grounded, rfl, rfl⟩
    exact .of_exec (hexec S) (hexec S.calm) ⟨rfl, rfl, hk⟩

/-- An assignment on both sides. -/
theorem Ready.assign (hfaulty : faulty) {S : Session} {id : ScopeId} (hr : S.Ready id)
    (name : String) (v : Value) :
    Follows faulty S (assign id name v) (assign id name v) fun _ _ S' => Kept names id S S' := by
  refine Follows.bind (Q := fun s t S' => s = S ∧ t = S.calm ∧ S' = S)
    (.of_exec (exec_get S) (exec_get S.calm) ⟨rfl, rfl, rfl⟩) ?_
  rintro _ _ _ ⟨rfl, rfl, rfl⟩
  exact .modifyScopes hfaulty (Arena.assign_calm _ id name v) fun arena h =>
    ⟨Arena.keeps_assign hr.orderly hr.grounded h, rfl, rfl⟩

theorem quiet_increment (hfaulty : faulty) (name : String) :
    Quiet faulty names (.increment name) := by
  intro bound S id hr
  cases bound with
  | zero => exact .throw_exhausted
  | succ bound =>
    have hread : Follows faulty S (intVariable id name) (intVariable id name)
        fun n n' S' => n = n' ∧ S' = S := by
      refine ⟨fun {n T} hT => ?_, fun {T} hT => ?_, fun _ => hfaulty⟩
      · rw [exec_intVariable, intValue_calm, Prod.mk.injEq] at hT
        exact ⟨n, S, by rw [exec_intVariable, hT.1], hT.2, rfl, rfl⟩
      · rw [exec_intVariable, intValue_calm, Prod.mk.injEq] at hT
        exact ⟨S, by rw [exec_intVariable, hT.1]⟩
    refine hread.bind ?_
    rintro n _ S' ⟨rfl, rfl⟩
    exact (hr.assign hfaulty name (.int (n + 1))).bind fun hk => .pure ⟨rfl, rfl, hk⟩

/-- A declaration on both sides. -/
theorem Ready.define (hfaulty : faulty) {S : Session} {id : ScopeId} (hr : S.Ready id)
    {name : String} (hn : name ∉ names) (entry : Binding) :
    Follows faulty S (Run.modifyScopes fun a => a.defineField id .pub name entry)
      (Run.modifyScopes fun a => a.defineField id .pub name entry)
      fun _ _ S' => Kept names id S S' :=
  .modifyScopes hfaulty (Arena.defineField_calm id name entry) fun _ h =>
    ⟨Arena.keeps_defineField hr.orderly hr.grounded hn h, rfl, rfl⟩

/-- Declaring a name that is not watched. -/
theorem quiet_define (hfaulty : faulty) (constant : Bool) {name : String} (v : Value)
    (hn : name ∉ names) :
    Quiet faulty names (.define constant name (.lit v)) := by
  intro bound S id hr
  match bound with
  | 0 => exact .throw_exhausted
  | 1 => exact ⟨nofun, fun _ => ⟨S, rfl⟩, nofun⟩
  | bound + 2 =>
    have hlit : ∀ R : Session, (eval (bound + 1) (.lit v) id).exec R = (.ok v, R) := fun _ => rfl
    refine Follows.bind (Q := fun w w' S' => w = v ∧ w' = v ∧ S' = S)
      (.of_exec (hlit S) (hlit S.calm) ⟨rfl, rfl, rfl⟩) ?_
    rintro _ _ _ ⟨rfl, rfl, rfl⟩
    cases constant with
    | true => exact (hr.define hfaulty hn ⟨_, true⟩).bind fun hk => .pure ⟨rfl, rfl, hk⟩
    | false => exact (hr.define hfaulty hn ⟨_, false⟩).bind fun hk => .pure ⟨rfl, rfl, hk⟩

end Session

end ScriptCore
