import ScriptCore.Proofs.Scope.Walks

/-!
# What a scope can see

Statements that run in a scope depend on the scopes above it: those around it, those it was called
from, and so on. `Arena.Above` names them. Two relations say what may happen to an arena while
statements run in `id`:

* `Arena.Carries`: the scopes above `id` are still there, and every scope that is still there has
  the links it had and binds none of certain names anew;
* `Arena.Keeps`: besides, every scope that is still there has the control state it had.

Scopes that are not above `id` may go, and their indices may be used again; whether a scope is still
there is told by its serial number. All that the control protocol looks at is settled by the scopes
above, so it is the same before and after (`Arena.Parallel.owns_iff` and the lemmas next to it).
-/

namespace ScriptCore

/-! ## The links of a scope -/

/-- The state of a scope without control state and fields. -/
def ScopeState.skeleton : ScopeState → ScopeState
  | global _ => global none
  | module name => module name
  | function calling _ => function calling {}
  | method calling _ this => method calling {} this
  | instance_ _ => instance_ {}
  | block => block
  | loop title _ => loop title {}
  | select _ => select {}
  | attempt _ => attempt none
  | thread _ => thread none

@[simp] theorem ScopeState.skeleton_setControl (s : ScopeState) (c : Control) :
    (s.setControl c).skeleton = s.skeleton := by
  cases s <;> cases c <;> rfl

/-- Two scopes with the same links, of which the same of `names` are bound. -/
structure Scope.Alike (names : List String) (s s' : Scope) : Prop where
  outer : s'.outer = s.outer
  skeleton : s'.state.skeleton = s.state.skeleton
  binds : ∀ name ∈ names, s'.binds name = s.binds name

namespace Scope.Alike

variable {names : List String} {s s' s'' : Scope}

theorem refl (names : List String) (s : Scope) : s.Alike names s := ⟨rfl, rfl, fun _ _ => rfl⟩

theorem symm (h : s.Alike names s') : s'.Alike names s :=
  ⟨h.outer.symm, h.skeleton.symm, fun name hn => (h.binds name hn).symm⟩

theorem trans (h : s.Alike names s') (h' : s'.Alike names s'') : s.Alike names s'' :=
  ⟨h'.outer.trans h.outer, h'.skeleton.trans h.skeleton,
    fun name hn => (h'.binds name hn).trans (h.binds name hn)⟩

theorem route (h : s.Alike names s') (signal : Signal) : s'.route signal = s.route signal := by
  have hroute : ∀ t : Scope,
      t.route signal = Scope.route { t with state := t.state.skeleton } signal := by
    intro t
    cases hstate : t.state <;> cases signal <;> simp [Scope.route, hstate, ScopeState.skeleton]
  rw [hroute, hroute s]
  unfold Scope.route
  rw [h.skeleton, h.outer]

theorem isMain (h : s.Alike names s') : s'.isMain = s.isMain := by
  have hkind : ∀ state : ScopeState, state.kind = state.skeleton.kind := by
    intro state
    cases state with
    | loop title flags => cases title <;> rfl
    | _ => rfl
  rw [Scope.isMain, Scope.isMain, Scope.kind, Scope.kind, hkind, h.skeleton, ← hkind]

theorem calling? (h : s.Alike names s') : s'.state.calling? = s.state.calling? := by
  have hcalling : ∀ state : ScopeState, state.calling? = state.skeleton.calling? := by
    intro state
    cases state <;> rfl
  rw [hcalling, h.skeleton, ← hcalling]

theorem ownsJumps (h : s.Alike names s') : Arena.ownsJumps s' = Arena.ownsJumps s := by
  have hjumps : ∀ t : Scope,
      Arena.ownsJumps t = Arena.ownsJumps { t with state := t.state.skeleton } := by
    intro t
    unfold Arena.ownsJumps
    cases t.state <;> rfl
  rw [hjumps, hjumps s]
  unfold Arena.ownsJumps
  rw [h.skeleton]

end Scope.Alike

/-- A scope hands a signal to the scope around it or to the scope it was called from. -/
theorem Scope.route_eq_passes {s : Scope} {signal : Signal} {next : ScopeId}
    (h : s.route signal = .passes (some next)) :
    s.outer = some next ∨ s.state.calling? = some next := by
  unfold Scope.route at h
  cases signal <;> cases hstate : s.state <;> simp_all [ScopeState.calling?] <;> grind

/-- A return passes through every scope of the sub category. -/
theorem Scope.route_returning (s : Scope) (h : s.isMain = false) :
    s.route .returning = .passes s.outer := by
  cases hstate : s.state <;>
    simp_all [Scope.route, Scope.isMain, Scope.kind, ScopeState.kind, ScopeKind.category]

namespace Arena

/-! ## The scopes above a scope -/

/-- The scopes around `id` and those it was called from, in any number of steps. -/
inductive Above (a : Arena) (id : ScopeId) : ScopeId → Prop
  | self : Above a id id
  | outer {x y : ScopeId} {s : Scope} (h : Above a id x) (hs : a.get? x = some s)
      (ho : s.outer = some y) : Above a id y
  | calling {x y : ScopeId} {s : Scope} (h : Above a id x) (hs : a.get? x = some s)
      (hc : s.state.calling? = some y) : Above a id y

theorem Above.trans {a : Arena} {x y z : ScopeId} (h : a.Above x y) (h' : a.Above y z) :
    a.Above x z := by
  induction h' with
  | self => exact h
  | outer _ hs ho ih => exact .outer ih hs ho
  | calling _ hs hc ih => exact .calling ih hs hc

theorem Owns.above {a : Arena} {signal : Signal} {id owner : ScopeId}
    (h : a.Owns signal owner id) : a.Above id owner := by
  induction h with
  | here => exact .self
  | pass hs hr _ ih =>
    rcases Scope.route_eq_passes hr with ho | hc
    · exact (Above.outer .self hs ho).trans ih
    · exact (Above.calling .self hs hc).trans ih

theorem Encloses.above {a : Arena} {id owner : ScopeId} (h : a.Encloses owner id) :
    a.Above id owner := by
  induction h with
  | here => exact .self
  | outward hs _ ho _ ih => exact (Above.outer .self hs ho).trans ih

/-! ## Arenas with the same links above a scope -/

/-- The scopes above `id` are in both arenas, with the same links. -/
def Parallel (names : List String) (id : ScopeId) (a a' : Arena) : Prop :=
  ∀ x, a.Above id x → ∃ s s', a.get? x = some s ∧ a'.get? x = some s' ∧ s.Alike names s'

namespace Parallel

variable {names : List String} {id x o : ScopeId} {a a' : Arena}

theorem above_iff (h : Parallel names id a a') : a'.Above id x ↔ a.Above id x := by
  constructor
  · intro hx
    induction hx with
    | self => exact .self
    | outer _ hs ho ih =>
      obtain ⟨t, t', ht, ht', hlike⟩ := h _ ih
      obtain rfl := Option.some.inj (hs.symm.trans ht')
      exact .outer ih ht (hlike.outer ▸ ho)
    | calling _ hs hc ih =>
      obtain ⟨t, t', ht, ht', hlike⟩ := h _ ih
      obtain rfl := Option.some.inj (hs.symm.trans ht')
      exact .calling ih ht (hlike.calling? ▸ hc)
  · intro hx
    induction hx with
    | self => exact .self
    | outer hx hs ho ih =>
      obtain ⟨t, t', ht, ht', hlike⟩ := h _ hx
      obtain rfl := Option.some.inj (hs.symm.trans ht)
      exact .outer ih ht' (hlike.outer.trans ho)
    | calling hx hs hc ih =>
      obtain ⟨t, t', ht, ht', hlike⟩ := h _ hx
      obtain rfl := Option.some.inj (hs.symm.trans ht)
      exact .calling ih ht' (hlike.calling?.trans hc)

theorem symm (h : Parallel names id a a') : Parallel names id a' a := by
  intro x hx
  obtain ⟨s, s', hs, hs', hlike⟩ := h x (h.above_iff.mp hx)
  exact ⟨s', s, hs', hs, hlike.symm⟩

theorem up (h : Parallel names id a a') (hx : a.Above id x) : Parallel names x a a' :=
  fun y hy => h y (hx.trans hy)

theorem owns (h : Parallel names x a a') {signal : Signal} (ho : a.Owns signal o x) :
    a'.Owns signal o x := by
  induction ho with
  | here hs hr =>
    obtain ⟨t, t', ht, ht', hlike⟩ := h _ .self
    obtain rfl := Option.some.inj (hs.symm.trans ht)
    exact .here ht' ((hlike.route signal).trans hr)
  | pass hs hr ho ih =>
    obtain ⟨t, t', ht, ht', hlike⟩ := h _ .self
    obtain rfl := Option.some.inj (hs.symm.trans ht)
    refine .pass ht' ((hlike.route signal).trans hr) (ih (h.up ?_))
    rcases Scope.route_eq_passes hr with ho | hc
    · exact .outer .self hs ho
    · exact .calling .self hs hc

theorem encloses (h : Parallel names x a a') (ho : a.Encloses o x) : a'.Encloses o x := by
  induction ho with
  | here hs hj =>
    obtain ⟨t, t', ht, ht', hlike⟩ := h _ .self
    obtain rfl := Option.some.inj (hs.symm.trans ht)
    exact .here ht' (hlike.ownsJumps.trans hj)
  | outward hs hm ho _ ih =>
    obtain ⟨t, t', ht, ht', hlike⟩ := h _ .self
    obtain rfl := Option.some.inj (hs.symm.trans ht)
    exact .outward ht' (hlike.isMain.trans hm) (hlike.outer.trans ho)
      (ih (h.up (.outer .self hs ho)))

theorem undeclared (h : Parallel names x a a') {name : String} (hn : name ∈ names)
    (hu : a.Undeclared name x) : a'.Undeclared name x := by
  induction hu with
  | boundary hs hb hm =>
    obtain ⟨t, t', ht, ht', hlike⟩ := h _ .self
    obtain rfl := Option.some.inj (hs.symm.trans ht)
    exact .boundary ht' ((hlike.binds name hn).trans hb) (by rwa [hlike.isMain, hlike.outer])
  | outward hs hb hm ho _ ih =>
    obtain ⟨t, t', ht, ht', hlike⟩ := h _ .self
    obtain rfl := Option.some.inj (hs.symm.trans ht)
    exact .outward ht' ((hlike.binds name hn).trans hb) (hlike.isMain.trans hm)
      (hlike.outer.trans ho) (ih (h.up (.outer .self hs ho)))

theorem owns_iff (h : Parallel names id a a') {signal : Signal} :
    a'.Owns signal o id ↔ a.Owns signal o id :=
  ⟨h.symm.owns, h.owns⟩

theorem encloses_iff (h : Parallel names id a a') : a'.Encloses o id ↔ a.Encloses o id :=
  ⟨h.symm.encloses, h.encloses⟩

end Parallel

/-! ## Arenas in good order -/

/-- Vacant indices have no scope and are listed once, and serial numbers are given out in order. -/
structure Orderly (a : Arena) : Prop where
  vacant_nodup : a.vacant.Nodup
  vacant_free : ∀ i ∈ a.vacant, i < a.scopes.size ∧ a.get? ⟨i⟩ = none
  serial_lt : ∀ {x s}, a.get? x = some s → s.serial < a.nextSerial

/-- A new arena has the outermost scope only. -/
theorem get?_new {x : ScopeId} {s : Scope} (h : Arena.new.get? x = some s) :
    x = ⟨0⟩ ∧ s = { state := .global none, outer := none, serial := 0 } := by
  obtain ⟨i⟩ := x
  cases i with
  | zero => exact ⟨rfl, (Option.some.inj h).symm⟩
  | succ i => simp [Arena.get?, Arena.new] at h

theorem orderly_new : Arena.new.Orderly where
  vacant_nodup := List.nodup_nil
  vacant_free := nofun
  serial_lt := fun hs => by
    rw [(get?_new hs).2]
    exact Nat.zero_lt_one

/-- Every scope above `id` is there. -/
def Grounded (a : Arena) (id : ScopeId) : Prop := ∀ x, a.Above id x → ∃ s, a.get? x = some s

/-- The scope at `x` is the same one in both arenas. -/
def SameAt (a a' : Arena) (x : ScopeId) (s s' : Scope) : Prop :=
  a.get? x = some s ∧ a'.get? x = some s' ∧ s'.serial = s.serial

/-- The scopes above `id` are still there, and every scope that is still there has its links and
binds the same of `names`. -/
structure Carries (names : List String) (id : ScopeId) (a a' : Arena) : Prop where
  stays : ∀ {x}, a.Above id x → ∃ s s', SameAt a a' x s s'
  alike : ∀ {x s s'}, SameAt a a' x s s' → s.Alike names s'
  young : ∀ {x s'}, a'.get? x = some s' → (∃ s, SameAt a a' x s s') ∨ a.nextSerial ≤ s'.serial
  nextSerial_le : a.nextSerial ≤ a'.nextSerial
  global : a'.global = a.global
  orderly : a'.Orderly

/-- Besides, every scope that is still there has its control state, and no more or less has been set
aside. -/
structure Keeps (names : List String) (id : ScopeId) (a a' : Arena) : Prop
    extends Carries names id a a' where
  control : ∀ {x s s'}, SameAt a a' x s s' → s'.control? = s.control?
  suspended : a'.suspended = a.suspended

variable {names : List String} {id : ScopeId} {a a' a'' : Arena}

theorem SameAt.refl {x : ScopeId} {s : Scope} (h : a.get? x = some s) : SameAt a a x s s :=
  ⟨h, h, rfl⟩

theorem SameAt.eq {x : ScopeId} {s s' : Scope} (h : SameAt a a x s s') : s' = s :=
  Option.some.inj (h.2.1.symm.trans h.1)

theorem SameAt.trans {x : ScopeId} {s s' s'' : Scope} (h : SameAt a a' x s s')
    (h' : SameAt a' a'' x s' s'') : SameAt a a'' x s s'' :=
  ⟨h.1, h'.2.1, h'.2.2.trans h.2.2⟩

namespace Carries

theorem refl (names : List String) (ha : a.Orderly) (hg : a.Grounded id) :
    Carries names id a a where
  stays hx := by
    obtain ⟨s, hs⟩ := hg _ hx
    exact ⟨s, s, .refl hs⟩
  alike h := h.eq ▸ .refl names _
  young hs := .inl ⟨_, .refl hs⟩
  nextSerial_le := Nat.le_refl _
  global := rfl
  orderly := ha

/-- A scope that is there before and after is there in between. -/
theorem between (h' : Carries names id a' a'') (hle : a.nextSerial ≤ a'.nextSerial)
    (ha : a.Orderly) {x : ScopeId} {s s'' : Scope} (hs : SameAt a a'' x s s'') :
    ∃ s', SameAt a a' x s s' ∧ SameAt a' a'' x s' s'' := by
  rcases h'.young hs.2.1 with ⟨s', hs'⟩ | hyoung
  · exact ⟨s', ⟨hs.1, hs'.1, hs'.2.2.symm.trans hs.2.2⟩, hs'⟩
  · have hlt := ha.serial_lt hs.1
    have heq := hs.2.2
    omega

theorem parallel (h : Carries names id a a') : Parallel names id a a' := by
  intro x hx
  obtain ⟨s, s', hs⟩ := h.stays hx
  exact ⟨s, s', hs.1, hs.2.1, h.alike hs⟩

theorem above_iff (h : Carries names id a a') {x : ScopeId} : a'.Above id x ↔ a.Above id x :=
  h.parallel.above_iff

theorem grounded (h : Carries names id a a') : a'.Grounded id := by
  intro x hx
  obtain ⟨s, s', hs⟩ := h.stays (h.above_iff.mp hx)
  exact ⟨s', hs.2.1⟩

theorem trans (ha : a.Orderly) (h : Carries names id a a') (h' : Carries names id a' a'') :
    Carries names id a a'' where
  stays hx := by
    obtain ⟨s, s', hs⟩ := h.stays hx
    obtain ⟨t', s'', hs'⟩ := h'.stays (h.above_iff.mpr hx)
    obtain rfl := Option.some.inj (hs.2.1.symm.trans hs'.1)
    exact ⟨s, s'', hs.trans hs'⟩
  alike hs := by
    obtain ⟨s', hs₁, hs₂⟩ := h'.between h.nextSerial_le ha hs
    exact (h.alike hs₁).trans (h'.alike hs₂)
  young hs := by
    rcases h'.young hs with ⟨s', hs'⟩ | hyoung
    · rcases h.young hs'.1 with ⟨s, hs''⟩ | hyoung
      · exact .inl ⟨s, hs''.trans hs'⟩
      · exact .inr (hs'.2.2 ▸ hyoung)
    · exact .inr (Nat.le_trans h.nextSerial_le hyoung)
  nextSerial_le := Nat.le_trans h.nextSerial_le h'.nextSerial_le
  global := h'.global.trans h.global
  orderly := h'.orderly

end Carries

namespace Keeps

theorem refl (names : List String) (ha : a.Orderly) (hg : a.Grounded id) : Keeps names id a a where
  toCarries := .refl names ha hg
  control h := by rw [h.eq]
  suspended := rfl

theorem trans (ha : a.Orderly) (h : Keeps names id a a') (h' : Keeps names id a' a'') :
    Keeps names id a a'' where
  toCarries := h.toCarries.trans ha h'.toCarries
  control hs := by
    obtain ⟨s', hs₁, hs₂⟩ := h'.between h.nextSerial_le ha hs
    exact (h'.control hs₂).trans (h.control hs₁)
  suspended := h'.suspended.trans h.suspended

theorem weaken {inner : ScopeId} (h : Keeps names inner a a') (ha : a.Above inner id) :
    Keeps names id a a' :=
  { h with stays := fun hx => h.stays (ha.trans hx) }

/-- The control state above `id` is kept. -/
theorem control?_eq (h : Keeps names id a a') {x : ScopeId} (hx : a.Above id x) :
    a'.control? x = a.control? x := by
  obtain ⟨s, s', hs⟩ := h.stays hx
  simp [control?, hs.1, hs.2.1, h.control hs]

end Keeps

/-! ## Nothing pending in sight -/

/-- The control state of `owner` can be seen from `id`. -/
def Sees (a : Arena) (id owner : ScopeId) : Prop :=
  a.Owns .returning owner id ∨ a.Owns .throwing owner id ∨ a.Encloses owner id

theorem mem_controlOwners_iff {owner : ScopeId} : owner ∈ a.controlOwners id ↔ a.Sees id owner := by
  have howner : ∀ signal, owner ∈ (a.owner id signal).toOption.toList ↔ a.Owns signal owner id := by
    intro signal
    rw [← owner_eq_ok_iff, Option.mem_toList]
    cases a.owner id signal <;> simp [Except.toOption]
  rw [controlOwners, List.mem_append, List.mem_append, howner, howner, mem_enclosing_iff, or_assoc]
  rfl

theorem Sees.above {owner : ScopeId} (h : a.Sees id owner) : a.Above id owner := by
  rcases h with h | h | h
  · exact h.above
  · exact h.above
  · exact h.above

theorem Parallel.sees_iff (h : Parallel names id a a') {owner : ScopeId} :
    a'.Sees id owner ↔ a.Sees id owner := by
  rw [Sees, Sees, h.owns_iff, h.owns_iff, h.encloses_iff]

/-- The control state that can be seen from `id` is that of new scopes. -/
def Clear (a : Arena) (id : ScopeId) : Prop :=
  ∀ owner, a.Sees id owner → ∀ c, a.control? owner = some c → c = c.cleared

theorem Keeps.clear (h : Keeps names id a a') (hc : a.Clear id) : a'.Clear id := by
  intro owner hsees c hcontrol
  rw [h.parallel.sees_iff] at hsees
  rw [h.control?_eq hsees.above] at hcontrol
  exact hc owner hsees c hcontrol

theorem Visit.outward_eq_next {β : Type} {s : Scope} {answer : β} {next : ScopeId} :
    Visit.outward s answer = .next next ↔ s.outer = some next := by
  unfold Visit.outward
  cases s.outer <;> simp

end Arena

/-- Whether control state stops the statements of the scopes nested in its owner. -/
def Control.stops : Control → Bool
  | .catching _ => false
  | control => control.isPending

namespace Arena

variable {id : ScopeId} {a : Arena}

/-- One look for pending signals, by the control state and the category of a scope. -/
theorem visitInterrupted_eq (x : ScopeId) (s : Scope) :
    visitInterrupted x s = if s.control?.any Control.stops then .done true
      else if s.isMain then .done false else .outward s false := by
  unfold visitInterrupted Scope.isMain Scope.kind Scope.control?
  cases s.state with
  | loop title flags =>
    cases title <;>
      simp [ScopeState.control?, Control.stops, Control.isPending, ScopeState.kind,
        ScopeKind.category]
  | function _ ret | method _ ret _ =>
    cases hret : ret.returned <;>
      simp [ScopeState.control?, Control.stops, Control.isPending, hret, ScopeState.kind,
        ScopeKind.category]
  | _ =>
    simp [ScopeState.control?, Control.stops, Control.isPending, ScopeState.kind,
      ScopeKind.category]

/-- The look for pending signals goes outward, and only from scopes of the sub category. -/
theorem visitInterrupted_eq_next {x next : ScopeId} {s : Scope}
    (h : visitInterrupted x s = .next next) : s.outer = some next ∧ s.isMain = false := by
  rw [visitInterrupted_eq] at h
  split at h
  · cases h
  · split at h
    · cases h
    · exact ⟨Visit.outward_eq_next.mp h, Bool.eq_false_iff.mpr ‹_›⟩

end Arena

end ScriptCore
