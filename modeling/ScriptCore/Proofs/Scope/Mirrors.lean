import ScriptCore.Proofs.Compact.Renaming
import ScriptCore.Proofs.Memory.Runs
import ScriptCore.Proofs.Scope.Searches
import ScriptCore.Proofs.Scope.Sight

/-!
# Scopes and objects that look alike

`Mirrors f seen` relates a heap and an arena to another heap and arena in which what is `seen` is
the same with references replaced by `f`, where all that something seen refers to is seen as well.
Then whoever starts at something seen finds the same on both sides: walks along scopes end alike
(`Mirrors.follow`), names are found at the same places (`Mirrors.locate`), and values are the
replaced ones (`Mirrors.lookup`, `Mirrors.member`, `Mirrors.exception`, `Mirrors.readElement`).

The two arenas may have different numbers of scopes.
-/

namespace ScriptCore

/-! ## Scopes with replaced references -/

section Replaced

variable (f : Ref → Ref) (s : Scope)

@[simp] theorem Bindings.contains_mapRefs (b : Bindings) (name : String) :
    (b.mapRefs f).contains name = b.contains name := by
  rw [contains, get?_mapRefs, Option.isSome_map, contains]

theorem Scope.table?_mapRefs (partition : Partition) :
    (s.mapRefs f).table? partition = (s.table? partition).map (·.mapRefs f) := by
  obtain ⟨state, outer, bindings, namespaces, serial⟩ := s
  cases partition with
  | pub => rfl
  | generic | priv | prot => cases state <;> rfl

theorem Scope.found?_mapRefs (private_ : Bool) (name : String) :
    (s.mapRefs f).found? private_ name = s.found? private_ name := by
  have htables : (fun partition => ((s.mapRefs f).table? partition).any (·.contains name)) =
      fun partition => (s.table? partition).any (·.contains name) := by
    funext partition
    rw [table?_mapRefs]
    cases s.table? partition <;> simp
  have hbindings : (s.mapRefs f).bindings.contains name = s.bindings.contains name :=
    Bindings.contains_mapRefs f _ name
  unfold found?
  rw [htables, hbindings]
  obtain ⟨state, outer, bindings, namespaces, serial⟩ := s
  cases state <;> rfl

theorem Scope.route_mapRefs (signal : Signal) : (s.mapRefs f).route signal = s.route signal := by
  obtain ⟨state, outer, bindings, namespaces, serial⟩ := s
  cases state <;> rfl

theorem Scope.control?_mapRefs : (s.mapRefs f).control? = s.control?.map (·.mapRefs f) := by
  obtain ⟨state, outer, bindings, namespaces, serial⟩ := s
  cases state <;> rfl

theorem Arena.visitInterrupted_mapRefs (id : ScopeId) :
    visitInterrupted id (s.mapRefs f) = visitInterrupted id s := by
  obtain ⟨state, outer, bindings, namespaces, serial⟩ := s
  cases state with
  | select state =>
    obtain ⟨fallthrough, _ | v⟩ := state
    · rfl
    · rfl
  | _ => rfl

theorem Scope.behind?_mapRefs {f : Ref → Ref} (hf : ∀ r, (f r).isNull = r.isNull) (s : Scope) :
    (s.mapRefs f).behind? = s.behind?.map fun behind => (f behind.1, behind.2) := by
  have hparent : (s.mapRefs f).parent? = s.parent?.map f := by
    unfold parent?
    rw [show (s.mapRefs f).bindings = s.bindings.mapRefs f from rfl, Bindings.get?_mapRefs]
    cases s.bindings.get? superName with
    | none => rfl
    | some entry => exact Value.reference?_mapRef hf entry.value
  unfold behind?
  rw [hparent]
  generalize s.parent? = parent
  obtain ⟨state, outer, bindings, namespaces, serial⟩ := s
  cases state with
  | instance_ fields => cases parent <;> rfl
  | _ => rfl

end Replaced

/-! ## The walk of a search -/

/-- The walk outward to a scope that has an answer. -/
def Arena.visitSearch (search : ScopeId → Scope → Except Fault (Option Place)) (id : ScopeId)
    (scope : Scope) : Visit (Except Fault (Option Place)) :=
  match search id scope with
  | .ok none => .outward scope (.ok none)
  | answer => .done answer

theorem Arena.searchOutward_eq (a : Arena)
    (search : ScopeId → Scope → Except Fault (Option Place)) (id : ScopeId) :
    a.searchOutward search id = a.follow (visitSearch search) id >>= fun answer => answer := by
  unfold searchOutward
  congr 2
  funext id scope
  unfold visitSearch
  rcases search id scope with _ | _ | _ <;> rfl

theorem Arena.visitSearch_eq_next {search : ScopeId → Scope → Except Fault (Option Place)}
    {id next : ScopeId} {s : Scope} (h : visitSearch search id s = .next next) :
    s.outer = some next := by
  unfold visitSearch at h
  split at h
  · exact Visit.outward_eq_next.mp h
  · cases h

theorem Arena.visitSearch_eq_done {search : ScopeId → Scope → Except Fault (Option Place)}
    {id : ScopeId} {s : Scope} {answer : Except Fault (Option Place)}
    (h : visitSearch search id s = .done answer) : search id s = answer := by
  unfold visitSearch Visit.outward at h
  split at h
  · rename_i hnone
    split at h
    · cases h
    · cases h
      exact hnone
  · cases h
    rfl

/-! ## Images -/

/-- What is `seen` in the first heap and arena is the same in the second ones, with references
replaced by `f`. -/
structure Mirrors (f : Ref → Ref) (seen : Cell → Prop) (heap : Heap) (a : Arena) (heap' : Heap)
    (a' : Arena) : Prop where
  isNull : ∀ r, (f r).isNull = r.isNull
  seen_null : seen (.object .null)
  /-- Whatever is referred to by something seen is seen, be it there or not. -/
  seen_refers : ∀ {c d}, seen c → Refers heap a c d → seen d
  scope : ∀ {id}, seen (.scope id) → a'.get? id = (a.get? id).map (·.mapRefs f)
  header : ∀ {r}, seen (.object r) → heap'.header? (f r) =
    (heap.header? r).map fun header => { header with data := header.data.mapRefs f }
  element : ∀ {r header k}, seen (.object r) → heap.header? r = some header → 0 < k →
    k < header.span → ∃ v, heap.slot? (r.slot + k) = some (.data v) ∧
      heap'.slot? ((f r).slot + k) = some (.data (v.mapRef f))
  size : a'.scopes.size = a.scopes.size

namespace Mirrors

variable {f : Ref → Ref} {seen : Cell → Prop} {heap heap' : Heap} {a a' : Arena}
  (h : Mirrors f seen heap a heap' a')
include h

variable {id : ScopeId} {s : Scope} {name : String}

theorem get (hid : seen (.scope id)) : a'.get id = (a.get id).map (·.mapRefs f) := by
  unfold Arena.get
  rw [h.scope hid]
  cases a.get? id <;> rfl

theorem seen_outer (hid : seen (.scope id)) (hs : a.get? id = some s) {next : ScopeId}
    (ho : s.outer = some next) : seen (.scope next) :=
  h.seen_refers hid (.outer hs ho)

/-- Walks that do the same at scopes that are alike, and stay among what is seen, end alike. -/
theorem follow {β : Type} {visit visit' : ScopeId → Scope → Arena.Visit β} (good : β → Prop)
    (hvisit : ∀ {id s}, seen (.scope id) → a.get? id = some s →
      visit' id (s.mapRefs f) = visit id s)
    (hnext : ∀ {id s next}, seen (.scope id) → a.get? id = some s → visit id s = .next next →
      seen (.scope next))
    (hdone : ∀ {id s b}, seen (.scope id) → a.get? id = some s → visit id s = .done b → good b)
    (hid : seen (.scope id)) :
    a'.follow visit' id = a.follow visit id ∧ ∀ b, a.follow visit id = .ok b → good b := by
  unfold Arena.follow
  rw [h.size]
  generalize a.scopes.size = n
  induction n generalizing id with
  | zero => exact ⟨rfl, fun _ hb => by cases hb⟩
  | succ n ih =>
    rw [Arena.walk, Arena.walk, h.scope hid]
    cases hs : a.get? id with
    | none => exact ⟨rfl, fun _ hb => by cases hb⟩
    | some s =>
      simp only [Option.map_some, hvisit hid hs]
      cases hv : visit id s with
      | done b => exact ⟨rfl, fun _ hb => Except.ok.inj hb ▸ hdone hid hs hv⟩
      | next next => exact ih (hnext hid hs hv)

/-! ### Names -/

theorem instanceScope {r : Ref} {header : Header} (hr : seen (.object r))
    (hlive : heap.header? r = some header) : heap'.instanceScope (f r) = heap.instanceScope r := by
  unfold Heap.instanceScope Heap.header
  rw [h.header hr, hlive]
  obtain ⟨data, marked⟩ := header
  cases data <;> rfl

theorem toOption_instanceScope {r : Ref} (hr : seen (.object r)) :
    (heap'.instanceScope (f r)).toOption = (heap.instanceScope r).toOption := by
  cases hlive : heap.header? r with
  | some header => rw [h.instanceScope hr hlive]
  | none =>
    unfold Heap.instanceScope Heap.header
    rw [h.header hr, hlive]
    rfl

theorem seen_instanceScope {r : Ref} (hr : seen (.object r))
    (hscope : heap.instanceScope r = .ok id) : seen (.scope id) := by
  obtain ⟨header, hheader, hscope⟩ := Memory.bind_eq_ok.mp hscope
  split at hscope
  · rename_i classRef scope hdata
    cases hscope
    refine h.seen_refers hr (.scope (Memory.header_eq_ok (m := { heap }) |>.mp hheader) ?_)
    rw [hdata]
    rfl
  · cases hscope

theorem seen_behind? (hid : seen (.scope id)) (hs : a.get? id = some s) {behind : Ref × Bool}
    (hb : s.behind? = some behind) : seen (.object behind.1) := by
  unfold Scope.behind? at hb
  split at hb
  · obtain ⟨r, hr, rfl⟩ := Option.map_eq_some_iff.mp hb
    obtain ⟨entry, hentry, hr⟩ := Option.bind_eq_some_iff.mp hr
    obtain ⟨before, after, hentries, -⟩ := List.lookup_eq_some_iff.mp hentry
    have hmem : (superName, entry) ∈ s.bindings.entries := by simp [hentries]
    exact h.seen_refers hid (.value hs (.binding hmem) hr)
  · rename_i calling ret this hstate
    cases hb
    by_cases hnull : this.isNull = true
    · rw [Ref.isNull_iff.mp hnull]
      exact h.seen_null
    · refine h.seen_refers hid (.value hs (.receiver hstate) ?_)
      simp [Value.reference?, hnull]
  · cases hb

theorem onward (hid : seen (.scope id)) : a'.onward heap' id = a.onward heap id := by
  unfold Arena.onward
  rw [h.scope hid]
  cases hs : a.get? id with
  | none => rfl
  | some s =>
    simp only [Option.map_some, Option.bind_some, Scope.behind?_mapRefs h.isNull]
    cases hb : s.behind? with
    | none => rfl
    | some behind =>
      simp only [Option.map_some, Option.bind_some,
        h.toOption_instanceScope (h.seen_behind? hid hs hb)]

theorem seen_onward (hid : seen (.scope id)) {next : ScopeId × Bool}
    (hnext : a.onward heap id = some next) : seen (.scope next.1) := by
  obtain ⟨behind, hb, hnext⟩ := Option.bind_eq_some_iff.mp hnext
  obtain ⟨s, hs, hb⟩ := Option.bind_eq_some_iff.mp hb
  obtain ⟨scope, hscope, rfl⟩ := Option.map_eq_some_iff.mp hnext
  refine h.seen_instanceScope (h.seen_behind? hid hs hb) ?_
  cases hfound : heap.instanceScope behind.1 with
  | error fault => simp [hfound, Except.toOption] at hscope
  | ok found =>
    rw [hfound] at hscope
    exact congrArg Except.ok (Option.some.inj hscope)

theorem searchScope_le (n : Nat) (private_ : Bool) (hid : seen (.scope id)) :
    a'.searchScope heap' name n private_ id = a.searchScope heap name n private_ id ∧
      ∀ place, a.searchScope heap name n private_ id = .ok (some place) →
        seen (.scope place.1) := by
  induction n generalizing id private_ with
  | zero => exact ⟨rfl, fun _ hp => by cases hp⟩
  | succ n ih =>
    rw [Arena.searchScope_succ, Arena.searchScope_succ, h.scope hid]
    cases hs : a.get? id with
    | none => exact ⟨rfl, fun _ hp => by cases hp⟩
    | some s =>
      simp only [Option.map_some, Scope.found?_mapRefs]
      cases s.found? private_ name with
      | some partition =>
        refine ⟨rfl, fun place hp => ?_⟩
        cases hp
        exact hid
      | none =>
        simp only [Arena.searchOnward, h.onward hid]
        cases hnext : a.onward heap id with
        | none => exact ⟨rfl, fun _ hp => by cases hp⟩
        | some next => exact ih next.2 (h.seen_onward hid hnext)

/-- Both searches see all there is to see, whatever the numbers of scopes. -/
theorem searchScope (private_ : Bool) (hid : seen (.scope id)) :
    a'.searchScope heap' name a'.searchBound private_ id =
      a.searchScope heap name a.searchBound private_ id := by
  rw [← Arena.searchScope_of_le (Nat.le_max_left a'.searchBound a.searchBound),
    ← Arena.searchScope_of_le (Nat.le_max_right a'.searchBound a.searchBound)]
  exact (h.searchScope_le _ private_ hid).1

theorem searchNamespaces {targets : List ScopeId} (ht : ∀ id ∈ targets, seen (.scope id)) :
    a'.searchNamespaces name targets = a.searchNamespaces name targets ∧
      ∀ place, a.searchNamespaces name targets = .ok (some place) → seen (.scope place.1) := by
  induction targets with
  | nil => exact ⟨rfl, by rintro place ⟨⟩⟩
  | cons target rest ih =>
    have htarget := ht target List.mem_cons_self
    rw [Arena.searchNamespaces, Arena.searchNamespaces, h.get htarget]
    cases a.get target with
    | error fault => exact ⟨rfl, by rintro place ⟨⟩⟩
    | ok s =>
      have hbindings : (s.mapRefs f).bindings.contains name = s.bindings.contains name :=
        Bindings.contains_mapRefs f _ name
      simp only [Except.map, bind, Except.bind, hbindings]
      split
      · refine ⟨rfl, fun place hp => ?_⟩
        cases hp
        exact htarget
      · exact ih fun id hid => ht id (List.mem_cons_of_mem _ hid)

theorem searchOutward (search search' : ScopeId → Scope → Except Fault (Option Place))
    (hsearch : ∀ {id s}, seen (.scope id) → a.get? id = some s →
      search' id (s.mapRefs f) = search id s ∧
        ∀ place, search id s = .ok (some place) → seen (.scope place.1))
    (hid : seen (.scope id)) :
    a'.searchOutward search' id = a.searchOutward search id ∧
      ∀ place, a.searchOutward search id = .ok (some place) → seen (.scope place.1) := by
  have hvisit : ∀ {id s}, seen (.scope id) → a.get? id = some s →
      Arena.visitSearch search' id (s.mapRefs f) = Arena.visitSearch search id s := by
    intro id s hid hs
    simp only [Arena.visitSearch, (hsearch hid hs).1]
    rfl
  obtain ⟨heq, hgood⟩ := h.follow
    (fun answer => ∀ place, answer = .ok (some place) → seen (.scope place.1)) hvisit
    (fun hid hs hv => h.seen_outer hid hs (Arena.visitSearch_eq_next hv))
    (fun hid hs hv => Arena.visitSearch_eq_done hv ▸ (hsearch hid hs).2) hid
  rw [Arena.searchOutward_eq, Arena.searchOutward_eq, heq]
  refine ⟨rfl, fun place hp => ?_⟩
  obtain ⟨answer, hanswer, hp⟩ := Memory.bind_eq_ok.mp hp
  exact hgood answer hanswer place hp

theorem locate (name : String) (hid : seen (.scope id)) :
    a'.locate heap' id name = a.locate heap id name ∧
      ∀ place, a.locate heap id name = .ok (some place) → seen (.scope place.1) := by
  have hscopes := h.searchOutward
    (fun id _ => a.searchScope heap name a.searchBound true id)
    (fun id _ => a'.searchScope heap' name a'.searchBound true id)
    (fun hid _ => ⟨h.searchScope true hid, (h.searchScope_le _ true hid).2⟩) hid
  have hnamespaces := h.searchOutward
    (fun _ s => a.searchNamespaces name s.namespaces)
    (fun _ s => a'.searchNamespaces name s.namespaces)
    (fun hid hs => h.searchNamespaces fun target ht => h.seen_refers hid (.imported hs ht)) hid
  unfold Arena.locate
  dsimp only
  rw [hscopes.1]
  cases hfirst : a.searchOutward (fun id _ => a.searchScope heap name a.searchBound true id) id with
  | error fault => exact ⟨rfl, fun _ hp => nomatch hp⟩
  | ok place =>
    cases place with
    | some place =>
      refine ⟨rfl, fun place' hp => ?_⟩
      cases hp
      exact hscopes.2 place hfirst
    | none => exact hnamespaces

theorem entry {place : Place} (hp : seen (.scope place.1)) :
    a'.entry place name = (a.entry place name).map (·.mapRef f) := by
  unfold Arena.entry
  rw [h.get hp]
  cases a.get place.1 with
  | error fault => rfl
  | ok s =>
    simp only [Except.map, bind, Except.bind, Scope.table?_mapRefs]
    cases s.table? place.2 with
    | none => rfl
    | some table =>
      simp only [Option.map_some, Bindings.get?_mapRefs]
      cases table.get? name <;> rfl

theorem lookup (hid : seen (.scope id)) :
    a'.lookup heap' id name = (a.lookup heap id name).map (·.mapRef f) := by
  obtain ⟨heq, hseen⟩ := h.locate name hid
  unfold Arena.lookup
  rw [heq]
  cases hlocated : a.locate heap id name with
  | error fault => rfl
  | ok place =>
    cases place with
    | none => rfl
    | some place =>
      simp only [bind, Except.bind, h.entry (hseen place hlocated)]
      cases a.entry place name <;> rfl

theorem hasName (hid : seen (.scope id)) : a'.hasName heap' id name = a.hasName heap id name := by
  unfold Arena.hasName
  rw [(h.locate name hid).1]

theorem member {r : Ref} {header : Header} (hr : seen (.object r))
    (hlive : heap.header? r = some header) :
    a'.member heap' (f r) name = (a.member heap r name).map (·.mapRef f) := by
  unfold Arena.member Arena.locateMember
  rw [h.instanceScope hr hlive]
  cases hscope : heap.instanceScope r with
  | error fault => rfl
  | ok scope =>
    have hseen := h.seen_instanceScope hr hscope
    simp only [bind, Except.bind, h.searchScope true hseen]
    cases hlocated : a.searchScope heap name a.searchBound true scope with
    | error fault => rfl
    | ok place =>
      cases place with
      | none => rfl
      | some place =>
        simp only [h.entry ((h.searchScope_le _ true hseen).2 place hlocated)]
        cases a.entry place name <;> rfl

/-! ### Signals -/

theorem control? (hid : seen (.scope id)) :
    a'.control? id = (a.control? id).map (·.mapRefs f) := by
  unfold Arena.control?
  rw [h.scope hid]
  cases a.get? id with
  | none => rfl
  | some s => exact s.control?_mapRefs f

theorem owner (signal : Signal) (hid : seen (.scope id)) :
    a'.owner id signal = a.owner id signal ∧
      ∀ owner, a.owner id signal = .ok owner → seen (.scope owner) := by
  have hvisit : ∀ {id s}, seen (.scope id) → a.get? id = some s →
      Arena.visitOwner signal id (s.mapRefs f) = Arena.visitOwner signal id s := by
    intro id s _ _
    simp only [Arena.visitOwner, Scope.route_mapRefs]
  have hnext : ∀ {id s next}, seen (.scope id) → a.get? id = some s →
      Arena.visitOwner signal id s = .next next → seen (.scope next) := by
    intro id s next hid hs hv
    unfold Arena.visitOwner at hv
    split at hv
    · cases hv
    · rename_i hroute
      cases hv
      rcases Scope.route_eq_passes hroute with ho | hc
      · exact h.seen_outer hid hs ho
      · exact h.seen_refers hid (.calling hs hc)
    · cases hv
  have hdone : ∀ {id s answer}, seen (.scope id) → a.get? id = some s →
      Arena.visitOwner signal id s = .done answer →
        ∀ owner, answer = .ok owner → seen (.scope owner) := by
    intro id s answer hid _ hv owner ho
    unfold Arena.visitOwner at hv
    split at hv <;> cases hv
    · cases ho
      exact hid
    · cases ho
  obtain ⟨heq, hgood⟩ := h.follow _ hvisit hnext hdone hid
  rw [Arena.owner_eq, Arena.owner_eq, heq]
  refine ⟨rfl, fun owner ho => ?_⟩
  obtain ⟨answer, hanswer, ho⟩ := Memory.bind_eq_ok.mp ho
  exact hgood answer hanswer owner ho

theorem exception (hid : seen (.scope id)) : a'.exception id =
    (a.exception id).map fun pending => { pending with value := pending.value.mapRef f } := by
  obtain ⟨heq, hseen⟩ := h.owner .throwing hid
  unfold Arena.exception Arena.caught
  rw [heq]
  cases howner : a.owner id .throwing with
  | error fault => rfl
  | ok owner =>
    dsimp only
    rw [h.control? (hseen owner howner)]
    rcases a.control? owner with _ | _ | _ | _ | _ | _ <;> rfl

theorem interrupted (hid : seen (.scope id)) : a'.interrupted id = a.interrupted id := by
  unfold Arena.interrupted
  rw [(h.follow (fun _ => True) (fun _ _ => Arena.visitInterrupted_mapRefs f _ _)
    (fun hid hs hv => ?_) (fun _ _ _ => trivial) hid).1]
  exact h.seen_outer hid hs (Arena.visitInterrupted_eq_next hv).1

theorem returnValue (hid : seen (.scope id)) :
    a'.returnValue id = (a.returnValue id).map (·.mapRef f) := by
  unfold Arena.returnValue
  rw [h.control? hid]
  cases a.control? id with
  | none => rfl
  | some c =>
    cases c with
    | returning ret =>
      simp only [Option.map_some, Control.mapRefs]
      split <;> rfl
    | looping _ | selecting _ | catching _ => rfl

end Mirrors

/-! ### Elements -/

theorem Mirrors.readElement {f : Ref → Ref} {seen : Cell → Prop} {m m' : Memory} {a a' : Arena}
    (h : Mirrors f seen m.heap a m'.heap a') {r : Ref} {header : Header} (hr : seen (.object r))
    (hlive : m.heap.header? r = some header) (index : Int64) :
    m'.readElement (f r) index = (m.readElement r index).map (·.mapRef f) := by
  unfold Memory.readElement Memory.elementSlot Memory.arrayLength Memory.header Heap.header
  rw [h.header hr, hlive]
  obtain ⟨data, marked⟩ := header
  cases data with
  | array length =>
    simp only [Option.map_some, ObjectData.mapRefs, bind, Except.bind, pure, Except.pure]
    by_cases hindex : 0 ≤ index.toInt ∧ index.toInt < length
    · rw [if_pos hindex, if_pos hindex]
      obtain ⟨v, hslot, hslot'⟩ := h.element (k := index.toInt.toNat + 1) hr hlive
        (Nat.succ_pos _) (by simp only [Header.span, ObjectData.span]; omega)
      simp only [Heap.read, hslot, hslot']
      rfl
    · rw [if_neg hindex, if_neg hindex]
      rfl
  | _ => rfl

end ScriptCore
