import ScriptCore.Proofs.Scope.Shelter

/-!
# Walks that come to an end

A scope leads to the scope around it and, if it is an activation, to the scope that it was called
from. In an arena that is `Arena.Founded` these are there and have lower serial numbers. It stays so
as the arena ages (`Arena.Tends.founded`), as long as the scopes that are made are given parents
that are there: a collection keeps the parents of what it keeps, and an index is used again only
when nothing leads to it.

Every walk along parents then has an end and visits no scope twice (`Arena.Founded.exists_walks`).
`Arena.Navigable` is what follows for the walks that there are. That walks have an end needs no more
than that chains are finite, in whatever order their scopes were made (`Arena.FiniteAlong`).
-/

namespace ScriptCore

/-! ## Parents -/

/-- The scope at `p` is around the scope, or the scope was called from it. -/
def Scope.Parent (s : Scope) (p : ScopeId) : Prop :=
  s.outer = some p ∨ s.state.calling? = some p

theorem Scope.route_throwing_of_calling {s : Scope} {p : ScopeId}
    (h : s.state.calling? = some p) : s.route .throwing = .passes (some p) := by
  cases hstate : s.state <;> simp_all [ScopeState.calling?, Scope.route]

/-- A scope gets no parents in the course of time. -/
theorem Scope.Kin.parent {s s' : Scope} (h : s.Kin s') {p : ScopeId} (hp : s'.Parent p) :
    s.Parent p := by
  rcases hp with houter | hcalling
  · exact .inl (h.outer ▸ houter)
  · -- the caller is where exceptions go
    exact route_eq_passes ((h.route .throwing).symm.trans (route_throwing_of_calling hcalling))

namespace Arena

variable {a a' : Arena} {x : ScopeId}

/-- The parents of every scope are there, and were made before it. -/
def Founded (a : Arena) : Prop :=
  ∀ ⦃x s⦄, a.get? x = some s → ∀ ⦃p⦄, s.Parent p → ∃ t, a.get? p = some t ∧ t.serial < s.serial

theorem founded_new : Arena.new.Founded := by
  intro x s hs p hp
  rw [(get?_new hs).2] at hp
  rcases hp with houter | hcalling
  · cases houter
  · cases hcalling

/-- The arena `a'` is a later one than `a`, and no parent of its scopes has been reclaimed. -/
structure Tends (a a' : Arena) : Prop where
  ages : ∃ f, Ages 0 false f a a'
  parent : ∀ {x s p t}, a'.get? x = some s → s.Parent p → a.get? p = some t →
    ∃ t', a'.get? p = some t' ∧ t.Kin t'

/-- The scopes that have been made since `a` were given parents that were there. -/
def Bears (a a' : Arena) : Prop :=
  ∀ ⦃x s⦄, a'.get? x = some s → a.nextSerial ≤ s.serial → ∀ ⦃p⦄, s.Parent p →
    a.contains p = true

/-- **An arena stays founded** if scopes are given parents that are there. -/
theorem Tends.founded (h : Tends a a') (ha : a.Orderly) (hbears : Bears a a')
    (hfounded : a.Founded) : a'.Founded := by
  obtain ⟨f, hages⟩ := h.ages
  intro x s' hs' p hp
  rcases hages.scope hs' with hnew | ⟨s, hs, hkin, -⟩
  · obtain ⟨t, ht⟩ := Option.isSome_iff_exists.mp (hbears hs' hnew hp)
    obtain ⟨t', ht', hkin⟩ := h.parent hs' hp ht
    exact ⟨t', ht', hkin.serial ▸ Nat.lt_of_lt_of_le (ha.serial_lt ht) hnew⟩
  · obtain ⟨t, ht, hlt⟩ := hfounded hs (hkin.parent hp)
    obtain ⟨t', ht', hkin'⟩ := h.parent hs' hp ht
    exact ⟨t', ht', by rw [hkin'.serial, hkin.serial]; exact hlt⟩

/-- No scope has been made. -/
theorem bears_of_nextSerial_eq (ha : a'.Orderly) (h : a'.nextSerial = a.nextSerial) :
    Bears a a' := by
  intro x s hs hle
  exact absurd (h ▸ ha.serial_lt hs) (Nat.not_lt.mpr hle)

theorem Orderly.bears_create (ha : a.Orderly) {state : ScopeState} {outer : Option ScopeId}
    (h : ∀ p ∈ outer.toList ++ state.calling?.toList, a.contains p = true) :
    Bears a (a.create state outer).2 := by
  intro x s hs hle p hp
  rcases ha.eq_of_get?_create hs with ⟨-, rfl⟩ | hs
  · refine h p (List.mem_append.mpr (hp.imp (fun houter => ?_) fun hcalling => ?_))
    · exact Option.mem_toList.mpr houter
    · exact Option.mem_toList.mpr hcalling
  · exact absurd (ha.serial_lt hs) (Nat.not_lt.mpr hle)

/-! ### How arenas change -/

/-- Nothing has been reclaimed. -/
theorem Stays.tends {f : Ref → Ref} (h : Stays a a') (hages : Ages 0 false f a a') :
    Tends a a' :=
  ⟨⟨f, hages⟩, fun _ _ ht => h ht⟩

theorem Tends.refl (ha : a.Orderly) : Tends a a := (Stays.refl a).tends (.refl ha)

theorem Rebound.tends (h : Rebound a a') (ha : a.Orderly) : Tends a a' := h.stays.tends (h.ages ha)

theorem Signals.tends (h : a.Signals x a') (ha : a.Orderly) : Tends a a' :=
  h.stays.tends (h.ages ha (shields_zero false a) (a.young_zero x))

theorem tends_create (ha : a.Orderly) (state : ScopeState) (outer : Option ScopeId) :
    Tends a (a.create state outer).2 :=
  (ha.stays_create state outer).tends (ages_create ha state outer)

/-- A founded arena stays so when a scope is made whose parents are there. -/
theorem Founded.create (h : a.Founded) (ha : a.Orderly) {state : ScopeState}
    {outer : Option ScopeId}
    (hparents : ∀ p ∈ outer.toList ++ state.calling?.toList, a.contains p = true) :
    (a.create state outer).2.Founded :=
  (tends_create ha state outer).founded ha (ha.bears_create hparents) h

theorem tends_suspendControl (ha : a.Orderly) (x : ScopeId) : Tends a (a.suspendControl x) := by
  obtain ⟨-, -, -, hages, hstays, -⟩ :=
    (shields_zero false a).suspend ha (Nat.zero_le _) (a.young_zero x)
  exact hstays.tends hages

theorem tends_restoreControl (ha : a.Orderly) : Tends a a.restoreControl := by
  cases hsuspended : a.suspended with
  | nil =>
    have hsame : a.restoreControl = a := by rw [restoreControl, hsuspended]
    rw [hsame]
    exact .refl ha
  | cons s rest =>
    obtain ⟨hages, hstays, -⟩ := ages_restoreControl ha (Nat.zero_le _) hsuspended
      fun p _ => (a.young_zero p.1).loose
    exact hstays.tends hages

theorem tends_mapRefs (ha : a.Orderly) (f : Ref → Ref) : Tends a (a.mapRefs f) :=
  (a.stays_mapRefs f).tends (ages_mapRefs ha f)

/-- A collection keeps the parents of each scope that it keeps. -/
theorem tends_collect {m : Memory} (hw : m.heap.WellFormed) (ha : a.Orderly) (extra : RootSet) :
    Tends a (collect m a extra).2.2 where
  ages := ⟨id, ages_collect hw ha extra⟩
  parent {x s p t} hs hp ht := by
    obtain ⟨hs, hreach⟩ := (get?_collect a extra hw).mp hs
    have hlive : Cell.Live m.heap a (.scope p) := Option.isSome_iff_exists.mpr ⟨t, ht⟩
    have hedge : Refers m.heap a (.scope x) (.scope p) := hp.elim (.outer hs) (.calling hs)
    exact ⟨t, (get?_collect a extra hw).mpr ⟨ht, hreach.step hedge hlive⟩, .refl t⟩

/-! ## Walks and the scopes that they visit -/

variable {β : Type} {visit : ScopeId → Scope → Visit β}

/-- The walk from a scope visits the scopes `path` in this order and ends with `answer`. -/
inductive Walks (a : Arena) (visit : ScopeId → Scope → Visit β) (answer : β) :
    ScopeId → List ScopeId → Prop
  | done {x : ScopeId} {s : Scope} (hs : a.get? x = some s) (hv : visit x s = .done answer) :
      Walks a visit answer x [x]
  | next {x next : ScopeId} {s : Scope} {path : List ScopeId} (hs : a.get? x = some s)
      (hv : visit x s = .next next) (h : Walks a visit answer next path) :
      Walks a visit answer x (x :: path)

theorem Walks.arrives {answer : β} {path : List ScopeId} (h : a.Walks visit answer x path) :
    a.Arrives visit answer x := by
  induction h with
  | done hs hv => exact .done hs hv
  | next hs hv _ ih => exact .next hs hv ih

/-- A walk ends at a scope that has the answer. -/
theorem Walks.exists_done {answer : β} {path : List ScopeId} (h : a.Walks visit answer x path) :
    ∃ y s, a.get? y = some s ∧ visit y s = .done answer := by
  induction h with
  | done hs hv => exact ⟨_, _, hs, hv⟩
  | next _ _ _ ih => exact ih

theorem Walks.get? {answer : β} {path : List ScopeId} (h : a.Walks visit answer x path) :
    ∀ y ∈ path, ∃ s, a.get? y = some s := by
  induction h with
  | done hs _ => exact fun y hy => List.mem_singleton.mp hy ▸ ⟨_, hs⟩
  | next hs _ _ ih =>
    intro y hy
    rcases List.mem_cons.mp hy with rfl | hy
    · exact ⟨_, hs⟩
    · exact ih y hy

/-- The walk from `x` has an end, at which it has visited no scope twice. -/
def Completes (a : Arena) (visit : ScopeId → Scope → Visit β) (x : ScopeId) (answer : β) : Prop :=
  ∃ path, a.Walks visit answer x path ∧ path.Nodup

theorem Completes.follow {answer : β} (h : a.Completes visit x answer) :
    a.follow visit x = .ok answer := by
  obtain ⟨path, hwalks, -⟩ := h
  exact follow_eq_ok_iff.mpr hwalks.arrives

/-- **A walk along parents has an end.** The serial numbers on the way go down. -/
theorem Founded.exists_walks (h : a.Founded)
    (hvisit : ∀ {y s next}, visit y s = .next next → s.Parent next) {s : Scope}
    (hs : a.get? x = some s) : ∃ answer path, a.Walks visit answer x path ∧ path.Nodup ∧
      ∀ y ∈ path, ∀ t, a.get? y = some t → t.serial ≤ s.serial := by
  induction hn : s.serial using Nat.strong_induction_on generalizing x s with
  | _ n ih =>
    subst hn
    have hself : ∀ t, a.get? x = some t → t.serial ≤ s.serial := by
      intro t ht
      cases hs.symm.trans ht
      exact Nat.le_refl _
    cases hv : visit x s with
    | done answer =>
      exact ⟨answer, [x], .done hs hv, List.nodup_singleton x,
        fun y hy => List.mem_singleton.mp hy ▸ hself⟩
    | next next =>
      obtain ⟨t, ht, hlt⟩ := h hs (hvisit hv)
      obtain ⟨answer, path, hwalks, hnodup, hle⟩ := ih t.serial hlt ht rfl
      refine ⟨answer, x :: path, .next hs hv hwalks, List.nodup_cons.mpr ⟨fun hx => ?_, hnodup⟩,
        fun y hy => ?_⟩
      · exact Nat.not_le.mpr hlt (hle x hx s hs)
      · rcases List.mem_cons.mp hy with rfl | hy
        · exact hself
        · exact fun u hu => Nat.le_trans (hle y hy u hu) (Nat.le_of_lt hlt)

theorem Founded.completes (h : a.Founded) (visit : ScopeId → Scope → Visit β)
    (hvisit : ∀ {y s next}, visit y s = .next next → s.Parent next) (hx : a.contains x = true) :
    ∃ answer, a.Completes visit x answer := by
  obtain ⟨s, hs⟩ := Option.isSome_iff_exists.mp hx
  obtain ⟨answer, path, hwalks, hnodup, -⟩ := h.exists_walks hvisit hs
  exact ⟨answer, path, hwalks, hnodup⟩

/-! ## Finite chains -/

/-- Chains of links are finite, and what a scope is linked to is there. -/
structure FiniteAlong (a : Arena) (link : Scope → ScopeId → Prop) : Prop where
  finite : WellFounded fun next x => ∃ s, a.get? x = some s ∧ link s next
  linked : ∀ {x s next}, a.get? x = some s → link s next → a.contains next = true

/-- Chains of fewer links are finite too. -/
theorem FiniteAlong.mono {link link' : Scope → ScopeId → Prop} (h : a.FiniteAlong link)
    (hlink : ∀ s next, link' s next → link s next) : a.FiniteAlong link' where
  finite := Subrelation.wf (fun ⟨s, hs, hnext⟩ => ⟨s, hs, hlink s _ hnext⟩) h.finite
  linked hs hnext := h.linked hs (hlink _ _ hnext)

/-- A walk along finite chains has an end. -/
theorem FiniteAlong.exists_arrives {link : Scope → ScopeId → Prop} (h : a.FiniteAlong link)
    (visit : ScopeId → Scope → Visit β)
    (hvisit : ∀ {y s next}, visit y s = .next next → link s next) (hx : a.contains x = true) :
    ∃ answer, a.Arrives visit answer x := by
  induction x using h.finite.induction with
  | _ x ih =>
    obtain ⟨s, hs⟩ := Option.isSome_iff_exists.mp hx
    cases hv : visit x s with
    | done answer => exact ⟨answer, .done hs hv⟩
    | next next =>
      have hlink := hvisit hv
      obtain ⟨answer, hnext⟩ := ih next ⟨s, hs, hlink⟩ (h.linked hs hlink)
      exact ⟨answer, .next hs hv hnext⟩

/-- Serial numbers go down along parents, so there is no infinite chain of them. -/
theorem Founded.finiteAlong (h : a.Founded) : a.FiniteAlong Scope.Parent where
  finite := by
    refine Subrelation.wf (r := InvImage (· < ·) fun x => ((a.get? x).map (·.serial + 1)).getD 0)
      ?_ (InvImage.wf _ wellFounded_lt)
    rintro next x ⟨s, hs, hparent⟩
    obtain ⟨t, ht, hlt⟩ := h hs hparent
    simpa [InvImage, hs, ht] using hlt
  linked hs hparent := by
    obtain ⟨t, ht, -⟩ := h hs hparent
    exact Option.isSome_iff_exists.mpr ⟨t, ht⟩

/-! ## The walks there are -/

/-- The walk to the nearest main scope. -/
def visitMain (x : ScopeId) (s : Scope) : Visit ScopeId :=
  if s.isMain then .done x else .outward s x

/-- The walk to a scope that binds a name, or to the nearest main scope. -/
def visitDeclared (name : String) (_ : ScopeId) (s : Scope) : Visit Bool :=
  if s.binds name then .done true else if s.isMain then .done false else .outward s false

theorem visitMain_eq_next {s : Scope} {next : ScopeId} :
    visitMain x s = .next next ↔ s.isMain = false ∧ s.outer = some next := by
  unfold visitMain
  cases s.isMain <;> simp [Visit.outward_eq_next]

theorem visitMain_eq_done {s : Scope} {main : ScopeId} :
    visitMain x s = .done main ↔ x = main ∧ (s.isMain = true ∨ s.outer = none) := by
  unfold visitMain Visit.outward
  cases s.isMain <;> cases s.outer <;> simp

theorem visitDeclared_eq_next {name : String} {s : Scope} {next : ScopeId}
    (h : visitDeclared name x s = .next next) : s.outer = some next := by
  unfold visitDeclared at h
  split at h
  · cases h
  · split at h
    · cases h
    · exact Visit.outward_eq_next.mp h

theorem visitOwner_eq_next {signal : Signal} {s : Scope} {next : ScopeId}
    (h : visitOwner signal x s = .next next) : s.route signal = .passes (some next) := by
  unfold visitOwner at h
  split at h
  · cases h
  · cases h
    assumption
  · cases h

theorem visitOwner_eq_done_error {signal : Signal} {s : Scope} {fault : Fault}
    (h : visitOwner signal x s = .done (.error fault)) :
    s.route signal = .passes none ∧ fault = signal.misuse x := by
  unfold visitOwner at h
  split at h
  · cases h
  · cases h
  · cases h
    exact ⟨‹_›, rfl⟩

/-- Whether there is a loop or a case construct at `x`. -/
def jumpsAt (a : Arena) (x : ScopeId) : Bool := (a.get? x).any ownsJumps

theorem jumpsAt_of_isMain {s : Scope} (hs : a.get? x = some s) (hmain : s.isMain = true) :
    a.jumpsAt x = false := by
  rw [jumpsAt, hs, Option.any_some, Bool.eq_false_iff]
  intro hjumps
  rw [isMain_of_ownsJumps hjumps] at hmain
  cases hmain

/-- One step of the search for the enclosing loops and case constructs. -/
theorem enclosing_succ {s : Scope} (hs : a.get? x = some s) (n : Nat) :
    a.enclosing (n + 1) x = if s.isMain then [] else
      [x].filter a.jumpsAt ++ (s.outer.map (a.enclosing n)).getD [] := by
  have hjumps : a.jumpsAt x = ownsJumps s := by rw [jumpsAt, hs, Option.any_some]
  rw [enclosing, hs, List.filter_singleton, hjumps]
  dsimp only
  split
  · rfl
  · unfold ownsJumps
    cases s.state <;> cases s.outer <;> simp

/-- The enclosing loops and case constructs are on the walk to the nearest main scope. -/
theorem Walks.enclosing {main : ScopeId} {path : List ScopeId}
    (h : a.Walks visitMain main x path) {n : Nat} (hn : path.length ≤ n) :
    a.enclosing n x = path.filter a.jumpsAt := by
  induction h generalizing n with
  | @done x s hs hv =>
    obtain ⟨n, rfl⟩ := Nat.exists_eq_add_of_le' hn
    rw [List.length_singleton, enclosing_succ hs]
    by_cases hmain : s.isMain = true
    · rw [if_pos hmain, List.filter_singleton, jumpsAt_of_isMain hs hmain]
      rfl
    · have houter : s.outer = none := (visitMain_eq_done.mp hv).2.resolve_left hmain
      rw [if_neg hmain, houter, Option.map_none, Option.getD_none, List.append_nil]
  | @next x next s path hs hv _ ih =>
    obtain ⟨n, rfl⟩ := Nat.exists_eq_add_of_le' (Nat.le_trans (Nat.succ_pos _) hn)
    obtain ⟨hmain, houter⟩ := visitMain_eq_next.mp hv
    rw [enclosing_succ hs, if_neg (by simp [hmain]), houter, Option.map_some, Option.getD_some,
      ih (Nat.le_of_succ_le_succ hn), ← List.filter_append, List.singleton_append]

/-- A walk that visits no scope twice is not longer than the arena. -/
theorem Walks.length_le {answer : β} {path : List ScopeId} (h : a.Walks visit answer x path)
    (hnodup : path.Nodup) : path.length ≤ a.scopes.size := by
  have hindices : (path.map (·.index)).Nodup :=
    hnodup.map_on fun y _ z _ heq => by cases y; cases z; cases heq; rfl
  have hsub : path.map (·.index) ⊆ List.range a.scopes.size := by
    intro i hi
    obtain ⟨y, hy, rfl⟩ := List.mem_map.mp hi
    obtain ⟨s, hs⟩ := h.get? y hy
    refine List.mem_range.mpr (Nat.lt_of_not_le fun hle => ?_)
    simp [Arena.get?, Array.getElem?_eq_none hle] at hs
  simpa using (hindices.subperm hsub).length_le

/-- Every walk from `x` has an end and visits no scope twice, and none fails for want of a scope to
go on to. -/
structure Navigable (a : Arena) (x : ScopeId) : Prop where
  nearestMain : ∃ main, a.Completes visitMain x main ∧ a.nearestMain x = .ok main
  /-- Names can be declared, unless they are declared already or there is no such table. -/
  declared : ∀ name, ∃ answer, a.Completes (visitDeclared name) x answer ∧
    a.isDeclared x name = .ok answer ∧ ∀ partition entry fault,
      a.defineField x partition name entry = .error fault →
        fault = .nameRedefinition name ∨ fault = .notAnInstance x
  /-- Names can be located. A fault is one of the search in the instances behind a scope that is
  there or in the modules imported into it. -/
  located : ∀ heap name,
    (∃ answer, a.Completes
        (visitSearch fun y _ => a.searchScope heap name a.searchBound true y) x answer) ∧
      (∃ answer, a.Completes
        (visitSearch fun _ s => a.searchNamespaces name s.namespaces) x answer) ∧
      ∀ fault, a.locate heap x name = .error fault → ∃ y s, a.get? y = some s ∧
        (a.searchOnward heap name a.liveCount y = .error fault ∨
          a.searchNamespaces name s.namespaces = .error fault)
  interrupted : ∃ answer, a.Completes visitInterrupted x answer ∧ a.interrupted x = answer
  /-- The loops and case constructs whose control state is set aside. -/
  enclosing : ∃ main path, a.Walks visitMain main x path ∧ path.Nodup ∧
    a.enclosing a.scopes.size x = path.filter a.jumpsAt
  /-- The scope that takes a signal. A fault is that of a scope that is there and hands the signal
  to no other one. -/
  owner : ∀ signal, ∃ answer, a.Completes (visitOwner signal) x answer ∧
    a.owner x signal = answer ∧ ∀ fault, answer = .error fault →
      ∃ y s, a.get? y = some s ∧ s.route signal = .passes none ∧ fault = signal.misuse y

/-- What a search outward answers when the walk has an end. -/
theorem Completes.searchOutward {search : ScopeId → Scope → Except Fault (Option Place)}
    {answer : Except Fault (Option Place)} (h : a.Completes (visitSearch search) x answer) :
    a.searchOutward search x = answer ∧ ∃ y s, a.get? y = some s ∧ search y s = answer := by
  refine ⟨by rw [searchOutward_eq, h.follow]; rfl, ?_⟩
  obtain ⟨path, hwalks, -⟩ := h
  obtain ⟨y, s, hs, hv⟩ := hwalks.exists_done
  exact ⟨y, s, hs, visitSearch_eq_done hv⟩

/-- A search from a scope that is there can only fail behind it. -/
theorem searchOnward_of_searchScope {heap : Heap} {name : String} {private_ : Bool} {s : Scope}
    (hs : a.get? x = some s) {fault : Fault}
    (h : a.searchScope heap name a.searchBound private_ x = .error fault) :
    a.searchOnward heap name a.liveCount x = .error fault := by
  rw [searchBound, searchScope_succ, hs] at h
  dsimp only at h
  split at h
  · cases h
  · exact h

/-- What a declaration does in a scope that is there. -/
theorem defineField_eq {name : String} {s : Scope} {declared : Bool} (hs : a.get? x = some s)
    (hdeclared : a.isDeclared x name = .ok declared) (p : Partition) (b : Binding) :
    a.defineField x p name b =
      if s.table? p = none then .error (.notAnInstance x)
      else if declared = true then .error (.nameRedefinition name)
      else .ok (a.modifyTable (x, p) (·.insert name b)) := by
  unfold defineField
  rw [get_eq_ok.mpr hs, hdeclared]
  dsimp only [bind, Except.bind, pure, Except.pure]
  cases p with
  | pub =>
    have htable : s.table? .pub ≠ none := by simp [Scope.table?]
    rw [if_neg htable]
    rfl
  | _ => cases s.table? _ <;> rfl

/-- Why a name cannot be declared in a scope that is there. -/
theorem eq_of_defineField_error {partition : Partition} {name : String} {entry : Binding}
    {declared : Bool} {fault : Fault} (hx : a.contains x = true)
    (hdeclared : a.isDeclared x name = .ok declared)
    (h : a.defineField x partition name entry = .error fault) :
    fault = .nameRedefinition name ∨ fault = .notAnInstance x := by
  obtain ⟨s, hs⟩ := Option.isSome_iff_exists.mp hx
  rw [defineField_eq hs hdeclared] at h
  split at h
  · cases h
    exact .inr rfl
  · split at h
    · cases h
      exact .inl rfl
    · cases h

/-- **In a founded arena all walks have an end.** -/
theorem Founded.navigable (h : a.Founded) (hx : a.contains x = true) : a.Navigable x where
  nearestMain := by
    obtain ⟨main, hmain⟩ := h.completes visitMain (fun hv => .inl (visitMain_eq_next.mp hv).2) hx
    exact ⟨main, hmain, hmain.follow⟩
  declared name := by
    obtain ⟨answer, hanswer⟩ :=
      h.completes (visitDeclared name) (fun hv => .inl (visitDeclared_eq_next hv)) hx
    refine ⟨answer, hanswer, hanswer.follow, fun partition entry fault hfault => ?_⟩
    exact eq_of_defineField_error hx hanswer.follow hfault
  located heap name := by
    obtain ⟨first, hfirst⟩ := h.completes
      (visitSearch fun y _ => a.searchScope heap name a.searchBound true y)
      (fun hv => .inl (visitSearch_eq_next hv)) hx
    obtain ⟨second, hsecond⟩ := h.completes
      (visitSearch fun _ s => a.searchNamespaces name s.namespaces)
      (fun hv => .inl (visitSearch_eq_next hv)) hx
    refine ⟨⟨first, hfirst⟩, ⟨second, hsecond⟩, fun fault hfault => ?_⟩
    obtain ⟨hsearch, y, s, hs, hy⟩ := hfirst.searchOutward
    obtain ⟨hsearch', z, t, ht, hz⟩ := hsecond.searchOutward
    unfold locate at hfault
    dsimp only at hfault
    rw [hsearch, hsearch'] at hfault
    rcases first with other | _ | place
    · cases hfault
      exact ⟨y, s, hs, .inl (searchOnward_of_searchScope hs hy)⟩
    · exact ⟨z, t, ht, .inr (hz.trans hfault)⟩
    · cases hfault
  interrupted := by
    obtain ⟨answer, hanswer⟩ :=
      h.completes visitInterrupted (fun hv => .inl (visitInterrupted_eq_next hv).1) hx
    refine ⟨answer, hanswer, ?_⟩
    rw [Arena.interrupted, hanswer.follow]
    rfl
  enclosing := by
    obtain ⟨main, path, hwalks, hnodup⟩ :=
      h.completes visitMain (fun hv => .inl (visitMain_eq_next.mp hv).2) hx
    exact ⟨main, path, hwalks, hnodup, hwalks.enclosing (hwalks.length_le hnodup)⟩
  owner signal := by
    obtain ⟨answer, hanswer⟩ :=
      h.completes (visitOwner signal) (fun hv => Scope.route_eq_passes (visitOwner_eq_next hv)) hx
    refine ⟨answer, hanswer, by rw [owner_eq, hanswer.follow]; rfl, ?_⟩
    rintro fault rfl
    obtain ⟨path, hwalks, -⟩ := hanswer
    obtain ⟨y, s, hs, hv⟩ := hwalks.exists_done
    exact ⟨y, s, hs, visitOwner_eq_done_error hv⟩

end Arena

end ScriptCore
