import ScriptCore.Proofs.Scope.Assignment
import ScriptCore.Proofs.Scope.Descent

/-!
# The order in which names are searched

Finding a name is two nested searches, along the scopes around and behind each of them along the
instances that extend each other. Both together are one search through a list of places
(`Arena.searchPlaces`): the tables of the scopes from the inside out, those of an instance followed
by the tables of the instances that it extends, and after them all the imported modules.

Instances may extend each other in a circle, and then there is no last one. The list has the first
`n` of them, and the answer is the same for every `n` that is not less than the number of scopes
(`resolution_follows_search_order`): where the search of the code is cut off it has seen all tables.
-/

namespace ScriptCore

namespace Arena

/-! ## The places -/

/-- The binding of `name` at a place. -/
def binding? (a : Arena) (name : String) (place : Place) : Option Binding :=
  (a.get? place.1).bind fun s => s.binding? place.2 name

/-- Whether `name` is bound at a place. -/
def bindsAt (a : Arena) (name : String) (place : Place) : Bool := (a.binding? name place).isSome

/-- The scope of the instance that the instance scope `x` extends. -/
def base? (a : Arena) (heap : Heap) (x : ScopeId) : Option ScopeId :=
  ((a.get? x).bind Scope.parent?).bind fun r => (heap.instanceScope r).toOption

/-- The first `n` instances that the instance scope `x` extends, the nearest one first. -/
def bases (a : Arena) (heap : Heap) : (n : Nat) → (x : ScopeId) → List ScopeId
  | 0, _ => []
  | n + 1, x =>
    match a.base? heap x with
    | none => []
    | some y => y :: a.bases heap n y

/-- The tables of an instance, and then those that are not private of the first `n` instances that
it extends. -/
def instancePlaces (a : Arena) (heap : Heap) (n : Nat) (x : ScopeId) : List Place :=
  [Partition.generic, .priv, .prot, .pub].map (x, ·) ++
    (a.bases heap n x).flatMap fun y => [Partition.generic, .prot, .pub].map (y, ·)

/-- The places of one scope. A method has those of its receiver after its own. -/
def scopePlaces (a : Arena) (heap : Heap) (n : Nat) : ScopeId × Scope → List Place
  | (x, s) =>
    match s.state with
    | .instance_ _ => a.instancePlaces heap n x
    | .method _ _ this =>
      (x, .pub) :: match heap.instanceScope this with
        | .ok receiver => a.instancePlaces heap n receiver
        | .error _ => []
    | _ => [(x, .pub)]

/-- All places that are searched from the first of the scopes `path`, which are around each
other. -/
def searchPlaces (a : Arena) (heap : Heap) (n : Nat) (path : List (ScopeId × Scope)) :
    List Place :=
  path.flatMap (a.scopePlaces heap n) ++ path.flatMap fun (_, s) => s.namespaces.map (·, .pub)

/-- The scopes `path` are those around `x`, from the inside out. -/
inductive Outward (a : Arena) : ScopeId → List (ScopeId × Scope) → Prop
  | last {x : ScopeId} {s : Scope} (hs : a.get? x = some s) (ho : s.outer = none) :
      Outward a x [(x, s)]
  | next {x next : ScopeId} {s : Scope} {path : List (ScopeId × Scope)} (hs : a.get? x = some s)
      (ho : s.outer = some next) (h : Outward a next path) : Outward a x ((x, s) :: path)

/-- The scopes around a scope are finitely many, all scopes that are linked are there, and what
instances refer to are instance scopes. Instances may extend each other in any way. -/
structure Resolvable (a : Arena) (heap : Heap) : Prop where
  outer : a.FiniteAlong fun s next => s.outer = some next
  namespaces : ∀ {x s target}, a.get? x = some s → target ∈ s.namespaces →
    a.contains target = true
  instances : ∀ {r x}, heap.instanceScope r = .ok x →
    ∃ s fields, a.get? x = some s ∧ s.state = .instance_ fields

variable {a : Arena} {heap : Heap} {name : String} {x : ScopeId} {s : Scope}
  {path : List (ScopeId × Scope)}

theorem Resolvable.exists_outward (h : a.Resolvable heap) (hx : a.contains x = true) :
    ∃ path, a.Outward x path := by
  induction x using h.outer.finite.induction with
  | _ x ih =>
    obtain ⟨s, hs⟩ := Option.isSome_iff_exists.mp hx
    cases ho : s.outer with
    | none => exact ⟨_, .last hs ho⟩
    | some next =>
      obtain ⟨path, hpath⟩ := ih next ⟨s, hs, ho⟩ (h.outer.linked hs ho)
      exact ⟨_, .next hs ho hpath⟩

/-! ## Searches through lists of places -/

theorem bindsAt_eq (hs : a.get? x = some s) (p : Partition) :
    a.bindsAt name (x, p) = (s.table? p).any (·.contains name) := by
  unfold bindsAt binding?
  rw [hs, Option.bind_some, Scope.binding?]
  cases s.table? p <;> rfl

theorem find?_tables (hs : a.get? x = some s) (partitions : List Partition) :
    (partitions.map ((x, ·) : Partition → Place)).find? (a.bindsAt name) =
      (partitions.find? fun p => (s.table? p).any (·.contains name)).map (x, ·) := by
  rw [List.find?_map]
  exact congrArg (Option.map _ <| List.find? · partitions) (funext fun p => bindsAt_eq hs p)

/-- What an instance extends is an instance. -/
theorem exists_of_base? {y : ScopeId} (h : a.base? heap x = some y) :
    ∃ r, heap.instanceScope r = .ok y := by
  obtain ⟨r, -, hr⟩ := Option.bind_eq_some_iff.mp h
  refine ⟨r, ?_⟩
  cases hscope : heap.instanceScope r with
  | error fault => simp [hscope, Except.toOption] at hr
  | ok z => simpa [hscope, Except.toOption] using hr

theorem onward_instance {fields : InstanceFields} (hs : a.get? x = some s)
    (hstate : s.state = .instance_ fields) :
    a.onward heap x = (a.base? heap x).map (·, false) := by
  unfold onward base?
  rw [hs, Option.bind_some, Option.bind_some, Scope.behind?, hstate]
  cases s.parent? <;> rfl

/-- **Searching an instance and those behind it is searching their tables.** -/
theorem Resolvable.searchScope_instance (h : a.Resolvable heap) (n : Nat) (private_ : Bool)
    {fields : InstanceFields} (hs : a.get? x = some s) (hstate : s.state = .instance_ fields) :
    a.searchScope heap name (n + 1) private_ x =
      .ok (((Scope.searchOrder private_).map (x, ·) ++
        (a.bases heap n x).flatMap fun y => (Scope.searchOrder false).map (y, ·)).find?
          (a.bindsAt name)) := by
  -- along the instances that are extended, each of which is searched without private fields
  induction n generalizing x s fields private_ with
  | zero =>
    rw [searchScope_succ, hs, List.find?_append, find?_tables hs]
    simp only [Scope.found?, hstate, searchOnward]
    cases (Scope.searchOrder private_).find? _ with
    | some p => rfl
    | none => cases a.onward heap x <;> rfl
  | succ n ih =>
    rw [searchScope_succ, hs, List.find?_append, find?_tables hs, bases]
    simp only [Scope.found?, hstate, searchOnward, onward_instance hs hstate]
    cases (Scope.searchOrder private_).find? _ with
    | some p => rfl
    | none =>
      cases hbase : a.base? heap x with
      | none => rfl
      | some y =>
        obtain ⟨r, hr⟩ := exists_of_base? hbase
        obtain ⟨t, fields', ht, hstate'⟩ := h.instances hr
        simp only [Option.map_some, ih false ht hstate']
        rfl

/-- A scope that is there is searched at its places. -/
theorem Resolvable.searchScope_eq (h : a.Resolvable heap) {n : Nat} (hn : a.liveCount ≤ n)
    (hs : a.get? x = some s) : a.searchScope heap name a.searchBound true x =
      .ok ((a.scopePlaces heap n (x, s)).find? (a.bindsAt name)) := by
  have hpub : a.bindsAt name (x, .pub) = s.bindings.contains name := bindsAt_eq hs .pub
  rw [scopePlaces]
  cases hstate : s.state with
  | instance_ fields =>
    rw [← searchScope_of_le (Nat.succ_le_succ hn)]
    exact h.searchScope_instance n true hs hstate
  | method calling ret this =>
    rw [← searchScope_of_le (Nat.le_succ_of_le (Nat.succ_le_succ hn)), searchScope_succ, hs]
    simp only [Scope.found?, hstate, List.find?_cons, hpub]
    cases s.bindings.contains name with
    | true => rfl
    | false =>
      simp only [searchOnward, onward, hs, Option.bind_some, Scope.behind?, hstate]
      cases hreceiver : heap.instanceScope this with
      | error fault => rfl
      | ok y =>
        obtain ⟨t, fields, ht, hfields⟩ := h.instances hreceiver
        exact h.searchScope_instance n true ht hfields
  | _ =>
    rw [searchBound, searchScope_succ, hs]
    simp only [Scope.found?, hstate, List.find?_cons, hpub]
    cases s.bindings.contains name with
    | true => rfl
    | false => simp [searchOnward, onward, hs, Scope.behind?, hstate]

theorem searchNamespaces_eq {targets : List ScopeId}
    (h : ∀ target ∈ targets, a.contains target = true) :
    a.searchNamespaces name targets =
      .ok ((targets.map ((·, .pub) : ScopeId → Place)).find? (a.bindsAt name)) := by
  induction targets with
  | nil => rfl
  | cons target rest ih =>
    obtain ⟨htarget, hrest⟩ := List.forall_mem_cons.mp h
    obtain ⟨s, hs⟩ := Option.isSome_iff_exists.mp htarget
    have hpub : a.bindsAt name (target, .pub) = s.bindings.contains name := bindsAt_eq hs .pub
    rw [searchNamespaces, get_eq_ok.mpr hs, ih hrest, List.map_cons, List.find?_cons, hpub]
    dsimp only [bind, Except.bind]
    cases s.bindings.contains name <;> rfl

/-- A search outward that looks through a list of places at each scope looks through all of them in
the order of the scopes. -/
theorem Outward.searchOutward_eq (h : a.Outward x path)
    {search : ScopeId → Scope → Except Fault (Option Place)} (places : ScopeId × Scope → List Place)
    (hit : Place → Bool) (hsearch : ∀ y t, a.get? y = some t →
      search y t = .ok ((places (y, t)).find? hit)) :
    a.searchOutward search x = .ok ((path.flatMap places).find? hit) := by
  have harrives : a.Arrives (visitSearch search) (.ok ((path.flatMap places).find? hit)) x := by
    induction h with
    | @last x s hs ho =>
      refine .done hs ?_
      rw [visitSearch, hsearch x s hs, List.flatMap_cons, List.flatMap_nil, List.append_nil]
      cases (places (x, s)).find? hit <;> simp [Visit.outward, ho]
    | @next x next s path hs ho _ ih =>
      rw [List.flatMap_cons, List.find?_append]
      cases hfound : (places (x, s)).find? hit with
      | some place => exact .done hs (by rw [visitSearch, hsearch x s hs, hfound]; rfl)
      | none =>
        refine .next hs ?_ ih
        rw [visitSearch, hsearch x s hs, hfound]
        exact Visit.outward_eq_next.mpr ho
  rw [Arena.searchOutward_eq, follow_eq_ok_iff.mpr harrives]
  rfl

/-- **A name is at the first place that has it.** -/
theorem Resolvable.locate_eq (h : a.Resolvable heap) (hpath : a.Outward x path) {n : Nat}
    (hn : a.liveCount ≤ n) : a.locate heap x name =
      .ok ((a.searchPlaces heap n path).find? (a.bindsAt name)) := by
  have hscopes := hpath.searchOutward_eq (a.scopePlaces heap n) (a.bindsAt name)
    fun y t ht => h.searchScope_eq hn ht
  have hnamespaces := hpath.searchOutward_eq (fun p => p.2.namespaces.map (·, .pub))
    (a.bindsAt name) fun y t ht => searchNamespaces_eq fun target htarget =>
      h.namespaces ht htarget
  unfold locate searchPlaces
  rw [List.find?_append]
  dsimp only
  rw [hscopes, hnamespaces]
  cases (path.flatMap (a.scopePlaces heap n)).find? (a.bindsAt name) <;> rfl

/-- What is at the first place that has a name is the first binding of it. -/
theorem findSome?_binding? (places : List Place) : places.findSome? (a.binding? name) =
    (places.find? (a.bindsAt name)).bind (a.binding? name) := by
  induction places with
  | nil => rfl
  | cons place rest ih =>
    rw [List.findSome?_cons, List.find?_cons, bindsAt]
    cases hbinding : a.binding? name place with
    | some b => simp [hbinding]
    | none => simpa using ih

theorem entry_of_bindsAt {place : Place} (h : a.bindsAt name place = true) :
    ∃ b, a.binding? name place = some b ∧ a.entry place name = .ok b := by
  obtain ⟨b, hb⟩ := Option.isSome_iff_exists.mp h
  obtain ⟨s, hs, hbinding⟩ := Option.bind_eq_some_iff.mp hb
  obtain ⟨table, ht, hget⟩ := Option.bind_eq_some_iff.mp hbinding
  exact ⟨b, hb, entry_eq_ok_iff.mpr ⟨s, table, hs, ht, hget⟩⟩

end Arena

/-- What is read on a way that leads through a list of places is the first binding there. -/
theorem Access.read_of_locate (access : Access) {heap : Heap} {a : Arena} {places : List Place}
    (h : access.locate heap a = .ok (places.find? (a.bindsAt access.key))) :
    access.read heap a = match places.findSome? (a.binding? access.key) with
      | some b => .ok b.value
      | none => .error access.missing := by
  rw [read_eq, h, Arena.findSome?_binding?]
  cases hfound : places.find? (a.bindsAt access.key) with
  | none => rfl
  | some place =>
    obtain ⟨b, hb, hentry⟩ := Arena.entry_of_bindsAt (List.find?_some hfound)
    simp [bind, Except.bind, hentry, hb, Except.map]

/-- **Names are resolved in the order of one list of places.** For a name in a scope these are the
tables of the scopes around with those of the instances behind them, and then the imported modules;
for a member of an instance they are the tables of the instance and of those that it extends. The
first place that binds the name is where it is found, its binding is what is read, and there is a
fault if there is no such place. It makes no difference how many instances that extend each other
are listed, as long as they are as many as there are scopes. -/
theorem resolution_follows_search_order {a : Arena} {heap : Heap} (h : a.Resolvable heap) :
    (∀ x, a.contains x = true → ∃ path, a.Outward x path ∧ ∀ name n, a.liveCount ≤ n →
      let places := a.searchPlaces heap n path
      a.locate heap x name = .ok (places.find? (a.bindsAt name)) ∧
      a.hasName heap x name = places.any (a.bindsAt name) ∧
      a.lookup heap x name = match places.findSome? (a.binding? name) with
        | some b => .ok b.value
        | none => .error (.undefinedVariable name)) ∧
    ∀ r x, heap.instanceScope r = .ok x → ∀ name n, a.liveCount ≤ n →
      let places := a.instancePlaces heap n x
      a.locateMember heap r name = .ok (places.find? (a.bindsAt name)) ∧
      a.member heap r name = match places.findSome? (a.binding? name) with
        | some b => .ok b.value
        | none => .error (.attributeNotFound name) := by
  refine ⟨fun x hx => ?_, fun r x hr name n hn => ?_⟩
  · obtain ⟨path, hpath⟩ := h.exists_outward hx
    refine ⟨path, hpath, fun name n hn => ?_⟩
    have hlocate : a.locate heap x name =
        .ok ((a.searchPlaces heap n path).find? (a.bindsAt name)) :=
      h.locate_eq hpath hn
    refine ⟨hlocate, ?_, Access.read_of_locate (.name x name) hlocate⟩
    rw [Arena.hasName, hlocate, Bool.eq_iff_iff, List.any_eq_true, ← List.find?_isSome]
    cases (a.searchPlaces heap n path).find? (a.bindsAt name) <;> simp
  · obtain ⟨s, fields, hs, hstate⟩ := h.instances hr
    have hlocate : a.locateMember heap r name =
        .ok ((a.instancePlaces heap n x).find? (a.bindsAt name)) := by
      unfold Arena.locateMember
      rw [hr]
      dsimp only [bind, Except.bind]
      rw [← Arena.searchScope_of_le (Nat.succ_le_succ hn)]
      exact h.searchScope_instance n true hs hstate
    exact ⟨hlocate, Access.read_of_locate (.member r name) hlocate⟩

/-- Two instances, with their fields in the scopes at `1` and `2`. -/
def twoInstances : Heap where
  slots := #[.empty, .object ⟨.instanceOf .null ⟨1⟩, false⟩, .object ⟨.instanceOf .null ⟨2⟩, false⟩]
  free := ⟨[]⟩

/-- The instances extend each other, and one of them receives a method. -/
def circle : Arena :=
  let a := (Arena.new.create (.instance_ {}) (some ⟨0⟩)).2
  let a := (a.create (.instance_ { prot := ⟨[("hidden", ⟨.bool true, false⟩)]⟩ }) (some ⟨0⟩)).2
  let a := (a.create (.method none {} ⟨1⟩) (some ⟨0⟩)).2
  let a := a.modifyTable (⟨1⟩, .pub) (·.insert superName ⟨.ref ⟨2⟩, false⟩)
  a.modifyTable (⟨2⟩, .pub) (·.insert superName ⟨.ref ⟨1⟩, false⟩)

theorem get?_circle {x : ScopeId} {s : Scope} (hs : circle.get? x = some s) :
    s.namespaces = [] ∧ s.state.calling? = none ∧
      (s.outer = none ∨ s.outer = some ⟨0⟩ ∧ 0 < s.serial) := by
  obtain ⟨i⟩ := x
  rcases i with _ | _ | _ | _ | i
  on_goal 5 => cases (Arena.get?_eq_none_of_size_le (Nat.le_add_left 4 i)).symm.trans hs
  · cases hs
    exact ⟨rfl, rfl, .inl rfl⟩
  all_goals
    cases hs
    exact ⟨rfl, rfl, .inr ⟨rfl, by decide⟩⟩

theorem founded_circle : circle.Founded := by
  intro x s hs p hp
  obtain ⟨-, hcalling, houter⟩ := get?_circle hs
  rcases hp with hp | hp
  · rcases houter with hnone | ⟨hglobal, hserial⟩
    · cases hnone.symm.trans hp
    · cases hglobal.symm.trans hp
      exact ⟨_, rfl, hserial⟩
  · cases hcalling.symm.trans hp

theorem resolvable_circle : circle.Resolvable twoInstances where
  outer := founded_circle.finiteAlong.mono fun _ _ => .inl
  namespaces hs htarget := by
    rw [(get?_circle hs).1] at htarget
    cases htarget
  instances {r x} hr := by
    obtain ⟨i⟩ := r
    rcases i with _ | _ | _ | i
    · cases hr
    · cases hr
      exact ⟨_, _, rfl, rfl⟩
    · cases hr
      exact ⟨_, _, rfl, rfl⟩
    · cases hr

/-- The method finds the fields that its receiver inherits, and a name that there is nowhere is not
searched for without end. -/
theorem resolution_follows_search_order_circle :
    ∃ path, circle.Outward ⟨3⟩ path ∧ ∀ n, circle.liveCount ≤ n →
      let places := circle.searchPlaces twoInstances n path
      places.find? (circle.bindsAt "hidden") = some (⟨2⟩, .prot) ∧
        places.find? (circle.bindsAt "missing") = none := by
  obtain ⟨path, hpath, hsearch⟩ := (resolution_follows_search_order resolvable_circle).1 ⟨3⟩ rfl
  refine ⟨path, hpath, fun n hn => ⟨?_, ?_⟩⟩
  · exact (Except.ok.inj (hsearch "hidden" n hn).1).symm
  · exact (Except.ok.inj (hsearch "missing" n hn).1).symm

end ScriptCore
