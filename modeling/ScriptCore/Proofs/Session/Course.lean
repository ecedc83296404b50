import ScriptCore.Proofs.Session.Integrity
import ScriptCore.Proofs.Session.Passage

/-!
# The course of a script

A script that runs in a young scope takes the session to a later one (`Session.Passage`) along one
of its traces, and leaves the control state of old scopes as it is. `Session.Course` adds to this
what an induction needs: old scopes stay shielded from young ones, what was set aside is still so,
and the scopes in use have not been reclaimed. `Session.Scripted.course` is the induction; the cases
that are of use by themselves, calls and thread scopes, stand before it.

With the serial number 0 for `floor` all scopes are young. Then nothing is said about control state,
and it holds of all operations on a session (`Session.Operation.proceeds`).
-/

namespace ScriptCore

namespace Session

open Run

variable {α : Type} {floor : Nat} {exceptions : Bool} {moves moves' : List Forwarding}
  {path path' : List Session} {S T U : Session} {x : ScopeId}

/-- A session in which a script can run: it can make young scopes, and old ones are shielded. -/
structure Fenced (floor : Nat) (exceptions : Bool) (S : Session) : Prop extends S.Sane where
  floor_le : floor ≤ S.arena.nextSerial
  shields : S.arena.Shields floor exceptions

/-- What a script has left of a session. -/
structure Course (floor : Nat) (exceptions : Bool) (moves : List Forwarding)
    (path : List Session) (S T : Session) : Prop extends
    Passage floor exceptions moves path S T where
  shields : T.arena.Shields floor exceptions
  suspended : T.arena.suspended = S.arena.suspended.map (·.mapRefs (relocate moves))
  /-- The scopes in use are still there. -/
  entered : ∀ x ∈ S.entered, ∀ s, S.arena.get? x = some s →
    ∃ s', T.arena.get? x = some s' ∧ s.Kin s'

/-- The action takes such a course from `S` on, along one of its traces. -/
def Courses (floor : Nat) (exceptions : Bool) (S : Session) (y : Run α) : Prop :=
  ∃ path moves, Traces y S path ∧ Course floor exceptions moves path S (y.exec S).2

namespace Course

theorem fenced (h : Course floor exceptions moves path S T) (hS : S.Fenced floor exceptions) :
    T.Fenced floor exceptions :=
  { h.sane with
    floor_le := Nat.le_trans hS.floor_le h.ages.nextSerial_le
    shields := h.shields }

theorem young (h : Course floor exceptions moves path S T) (hS : S.Fenced floor exceptions)
    (hx : S.arena.Young floor x) : T.arena.Young floor x :=
  h.ages.young hS.floor_le hx

theorem trans (h : Course floor exceptions moves path S T) (hS : S.Sane)
    (h' : Course floor exceptions moves' path' T U) (hentered : ∀ x ∈ S.entered, x ∈ T.entered) :
    Course floor exceptions (moves ++ moves') (path ++ path') S U where
  toPassage := h.toPassage.trans hS h'.toPassage
  shields := h'.shields
  suspended := by
    rw [h'.suspended, h.suspended, List.map_map, relocate_append]
    exact congrArg (List.map · _) (funext fun s => s.mapRefs_mapRefs _ _)
  entered x hx s hs := by
    obtain ⟨s', hs', hkin⟩ := h.entered x hx s hs
    obtain ⟨s'', hs'', hkin'⟩ := h'.entered x (hentered x hx) s' hs'
    exact ⟨s'', hs'', hkin.trans hkin'⟩

end Course

/-! ## Changes without a compaction -/

/-- The heap is as it was, and the requests and the scopes are all there. -/
theorem Sane.passage (hS : S.Sane) (hheap : T.memory.heap = S.memory.heap)
    (hthreads : S.threads.Extends T.threads) (hages : S.arena.Ages floor exceptions id T.arena)
    (hstays : S.arena.Stays T.arena) : Passage floor exceptions [] [T] S T where
  sane := by
    obtain ⟨s, hs, hkind⟩ := hS.outermost
    obtain ⟨s', hs', hkin⟩ := hstays hs
    exact ⟨hheap ▸ hS.wellFormed, hages.orderly, ⟨s', hages.global ▸ hs', hkin.kind.trans hkind⟩,
      hthreads.dealt⟩
  trail := .work (.start S) (by rw [hheap]; exact .refl hS.wellFormed)
  nextTicket_le := hthreads.nextTicket_le
  shared := hthreads.shared
  lookup ticket hticket := by
    rw [hthreads.lookup ticket hticket, relocate_nil]
    cases S.threads.pending.lookup ticket <;> simp
  ages := hages

theorem Fenced.course (hS : S.Fenced floor exceptions) (hheap : T.memory.heap = S.memory.heap)
    (hthreads : S.threads.Extends T.threads) (hages : S.arena.Ages floor exceptions id T.arena)
    (hstays : S.arena.Stays T.arena) (hshields : T.arena.Shields floor exceptions)
    (hsuspended : T.arena.suspended = S.arena.suspended) :
    Course floor exceptions [] [T] S T where
  toPassage := hS.passage hheap hthreads hages hstays
  shields := hshields
  suspended := by
    rw [hsuspended, relocate_nil]
    exact (List.map_id'' (fun s => s.mapRefs_id) _).symm
  entered x _ s hs := hstays hs

/-- Neither the heap nor the scopes have changed. -/
theorem Fenced.rest (hS : S.Fenced floor exceptions) (hheap : T.memory.heap = S.memory.heap)
    (harena : T.arena = S.arena) (hthreads : S.threads.Extends T.threads) :
    Course floor exceptions [] [T] S T :=
  hS.course hheap hthreads (by rw [harena]; exact .refl hS.orderly) (by rw [harena]; exact .refl _)
    (harena ▸ hS.shields) (by rw [harena])

theorem Course.refl (hS : S.Fenced floor exceptions) : Course floor exceptions [] [] S S :=
  { hS.rest rfl rfl (.refl hS.dealt) with trail := .start S }

/-- Scopes have been changed, and none has been made. -/
theorem Fenced.edit (hS : S.Fenced floor exceptions) (hheap : T.memory.heap = S.memory.heap)
    (hthreads : T.threads = S.threads) (hages : S.arena.Ages floor exceptions id T.arena)
    (hstays : S.arena.Stays T.arena)
    (hframe : T.arena.suspended = S.arena.suspended ∧ T.arena.nextSerial = S.arena.nextSerial) :
    Course floor exceptions [] [T] S T :=
  hS.course hheap (by rw [hthreads]; exact .refl hS.dealt) hages hstays
    (hages.shields_of_nextSerial_eq hS.floor_le hS.shields hframe.2) hframe.1

theorem Fenced.signal (hS : S.Fenced floor exceptions) (hx : S.arena.Young floor x)
    (hheap : T.memory.heap = S.memory.heap) (hthreads : T.threads = S.threads)
    (h : S.arena.Signals x T.arena) : Course floor exceptions [] [T] S T :=
  hS.edit hheap hthreads (h.ages hS.orderly hS.shields hx) h.stays h.frame

/-- A scope has been made whose signals are at a young scope or at their end. -/
theorem Fenced.create (hS : S.Fenced floor exceptions) {state : ScopeState}
    {outer : Option ScopeId}
    (hroute : ∀ {serial signal next}, (exceptions = true ∨ signal ≠ .throwing) →
      Scope.route { state, outer, serial } signal = .passes (some next) →
        S.arena.Sheltered floor signal next)
    (hheap : T.memory.heap = S.memory.heap) (hthreads : T.threads = S.threads)
    (harena : T.arena = (S.arena.create state outer).2) :
    Course floor exceptions [] [T] S T := by
  refine hS.course hheap (by rw [hthreads]; exact .refl hS.dealt) ?_ ?_ ?_ ?_ <;> rw [harena]
  · exact Arena.ages_create hS.orderly _ _
  · exact hS.orderly.stays_create _ _
  · exact hS.shields.create hS.orderly hS.floor_le hroute
  · exact (S.arena.frame_create _ _).2

/-! ## Small steps -/

/-- A collection spares what requests name and the scopes in use. -/
theorem Fenced.collect (hS : S.Fenced floor exceptions) (extra : Option ScopeId) :
    Course floor exceptions [] [S.collected extra] S (S.collected extra) := by
  have hages : S.arena.Ages floor exceptions id (S.collected extra).arena :=
    Arena.ages_collect hS.wellFormed hS.orderly (S.rootSet extra)
  obtain ⟨hglobal, hserial, hsuspended⟩ :=
    S.arena.frame_sweep (garbage S.memory S.arena (S.rootSet extra))
  have hlookup : ∀ ticket, S.threads.pending.lookup ticket =
      (S.threads.pending.lookup ticket).map (·.mapRefs (relocate [])) := by
    intro ticket
    rw [relocate_nil]
    cases S.threads.pending.lookup ticket <;> simp
  refine ⟨⟨⟨wellFormed_collected hS.wellFormed extra, hages.orderly, ?_, hS.dealt⟩,
    .collect (.start S) extra fun r hr => ?_, Nat.le_refl _, rfl, fun ticket _ => hlookup ticket,
    hages⟩, hages.shields_of_nextSerial_eq hS.floor_le hS.shields hserial, ?_, fun x hx s hs => ?_⟩
  · obtain ⟨s, hs, hkind⟩ := hS.outermost
    obtain ⟨s', hs', hkin⟩ := hages.outermost hs
    exact ⟨s', hages.global.symm ▸ hs', hkin.kind.trans hkind⟩
  · -- what a request names is a root
    obtain ⟨⟨ticket, request, v, hrequest, hv, href⟩, hlive⟩ := hr
    obtain ⟨header, hheader⟩ := Option.isSome_iff_exists.mp hlive
    have hvalue : v ∈ (S.rootSet extra).values :=
      List.mem_flatMap.mpr ⟨_, ThreadTable.mem_pending_of_lookup hrequest, hv⟩
    exact Option.isSome_iff_exists.mpr
      ⟨header, (header?_collect _ _ hS.wellFormed).mpr ⟨hheader, .root (.value hvalue href) hlive⟩⟩
  · refine hsuspended.trans ?_
    rw [relocate_nil]
    exact (List.map_id'' (fun s => s.mapRefs_id) _).symm
  · have hroot : x ∈ (S.rootSet extra).scopes :=
      List.mem_append_left _ (List.mem_append_right _ hx)
    have hlive : Cell.Live S.memory.heap S.arena (.scope x) := Option.isSome_iff_exists.mpr ⟨s, hs⟩
    exact ⟨s, (get?_collect _ _ hS.wellFormed).mpr ⟨hs, .root (.scope hroot) hlive⟩, .refl s⟩

/-- A compaction moves the references along. -/
theorem Fenced.slide (hS : S.Fenced floor exceptions) :
    Course floor exceptions [(compact S.memory S.arena).1] [S.slid] S S.slid := by
  have hages : S.arena.Ages floor exceptions (relocate [(compact S.memory S.arena).1])
      (S.arena.mapRefs (compact S.memory S.arena).1.resolve) :=
    Arena.ages_mapRefs hS.orderly _
  have hstays := S.arena.stays_mapRefs (compact S.memory S.arena).1.resolve
  refine ⟨⟨⟨wellFormed_slid hS.wellFormed, hages.orderly, ?_, hS.dealt.mapRefs _⟩,
    .slide (.start S) hS.wellFormed, Nat.le_refl _, rfl,
    fun ticket _ => S.threads.lookup_mapRefs _ ticket, hages⟩,
    hages.shields_of_nextSerial_eq hS.floor_le hS.shields rfl, rfl, fun x _ s hs => hstays hs⟩
  obtain ⟨s, hs, hkind⟩ := hS.outermost
  obtain ⟨s', hs', hkin⟩ := hstays hs
  exact ⟨s', hs', hkin.kind.trans hkind⟩

theorem Step.course (h : S.Step x T) (hS : S.Fenced floor exceptions)
    (hx : S.arena.Young floor x) : ∃ moves, Course floor exceptions moves [T] S T := by
  cases h with
  | say events output => exact ⟨[], hS.rest rfl rfl (.refl hS.dealt)⟩
  | rebind h => exact ⟨[], hS.edit rfl rfl (h.ages hS.orderly) h.stays h.frame⟩
  | signal h => exact ⟨[], hS.signal hx rfl rfl h⟩
  | heap h =>
    have hpersists := h hS.wellFormed
    have hsame := hS.rest (T := S) rfl rfl (.refl hS.dealt)
    exact ⟨[], { hsame with
      sane := { hsame.sane with wellFormed := hpersists.wellFormed }
      trail := .work (.start S) hpersists }⟩
  | collect extra => exact ⟨[], hS.collect extra⟩
  | slide => exact ⟨_, hS.slide⟩

/-! ## Scopes -/

/-- A scope inside a young one that was not called from elsewhere. -/
theorem sheltered_of_inner (hx : S.arena.Young floor x) {state : ScopeState}
    (hstate : state.calling? = none) {serial : Nat} {signal : Signal} {next : ScopeId}
    (hroute : Scope.route { state, outer := some x, serial } signal = .passes (some next)) :
    S.arena.Sheltered floor signal next := by
  rcases Scope.route_eq_passes hroute with houter | hcalling
  · cases houter
    exact hx.sheltered
  · cases hstate.symm.trans hcalling

/-- A scope has been made and entered. -/
theorem Fenced.opened (hS : S.Fenced floor exceptions) {state : ScopeState} {outer : ScopeId}
    (hroute : ∀ {serial signal next}, (exceptions = true ∨ signal ≠ .throwing) →
      Scope.route { state, outer := some outer, serial } signal = .passes (some next) →
        S.arena.Sheltered floor signal next) :
    Course floor exceptions [] [S.opened state outer] S (S.opened state outer) ∧
      (S.opened state outer).arena.Young floor (S.newScope state outer) :=
  ⟨hS.create hroute rfl rfl rfl, hS.orderly.young_create hS.floor_le state (some outer)⟩

/-- An action in a scope that has been made and entered, and is left again. -/
theorem Fenced.within (hS : S.Fenced floor exceptions) {state : ScopeState} {outer : ScopeId}
    {f : ScopeId → Run α}
    (hf : ∀ {new} {S : Session}, S.Fenced floor exceptions → S.arena.Young floor new →
      S.Courses floor exceptions (f new))
    (hopened : Course floor exceptions [] [S.opened state outer] S (S.opened state outer) ∧
      (S.opened state outer).arena.Young floor (S.newScope state outer)) :
    S.Courses floor exceptions (inScope state outer f) := by
  obtain ⟨hopened, hnew⟩ := hopened
  obtain ⟨path, moves, htraces, hran⟩ := hf (hopened.fenced hS) hnew
  have hall := hopened.trans hS.toSane hran fun y hy => List.mem_cons_of_mem _ hy
  have hclosed := (hall.fenced hS).rest
    (T := ((f (S.newScope state outer)).exec (S.opened state outer)).2.closed
      (S.newScope state outer)) rfl rfl (.refl hall.sane.dealt)
  unfold Courses
  rw [exec_inScope]
  refine ⟨_, _, .inScope htraces, hall.trans hS.toSane hclosed fun y hy => ?_⟩
  rw [htraces.balanced.entered]
  exact List.mem_cons_of_mem _ hy

/-- Only exceptions could leave a thread scope, and it catches them. -/
theorem Fenced.opened_thread (hS : S.Fenced floor exceptions) :
    Course floor exceptions [] [S.opened (.thread none) S.arena.global] S
        (S.opened (.thread none) S.arena.global) ∧
      (S.opened (.thread none) S.arena.global).arena.Young floor
        (S.newScope (.thread none) S.arena.global) := by
  obtain ⟨s, hs, hkind⟩ := hS.outermost
  refine hS.opened fun {serial signal next} _ hroute => ?_
  have hthrow : signal ≠ .throwing := by
    rintro rfl
    cases hroute
  obtain rfl : S.arena.global = next :=
    Option.some.inj (Scope.route_eq_passes_outer hthrow hroute).1
  refine Arena.sheltered_of_global (fun {t} ht => ?_) hthrow
  rw [← Option.some.inj (hs.symm.trans ht), hkind]

/-- An action in a thread scope. -/
theorem Fenced.inThread (hS : S.Fenced floor exceptions) {f : ScopeId → Run α}
    (hf : ∀ {new} {S : Session}, S.Fenced floor exceptions → S.arena.Young floor new →
      S.Courses floor exceptions (f new)) :
    S.Courses floor exceptions
      (get >>= fun S => Session.inScope (.thread none) S.arena.global f) := by
  obtain ⟨path, moves, htraces, hran⟩ := hS.within hf hS.opened_thread
  have hget : Course floor exceptions [] [S] S S := hS.rest rfl rfl (.refl hS.dealt)
  exact ⟨_, _, .bind (.step fun S => .refl ⟨0⟩ S) rfl htraces,
    hget.trans hS.toSane hran fun y hy => hy⟩

/-- A call that has made its scope, and for which there is room on the stack. -/
theorem Fenced.callAccepted (hS : S.Fenced floor exceptions)
    {body : Callable → ScopeId → List Value → Run Value} {callee : Value} {args : List Value}
    {site : Position} {c : Callable} (haccepts : S.Accepts callee args c)
    (hroom : ¬ S.stack.limit < S.stack.depth + 1)
    (hprepared : Course floor exceptions [] [S.prepared c x] S (S.prepared c x))
    (hbody : ∀ {c new} {S : Session}, S.Fenced floor exceptions → S.arena.Young floor new →
      S.Courses floor exceptions (activate body c args new)) :
    S.Courses floor exceptions (callWith body callee args x site) := by
  have hcalling : Course floor exceptions [] [S.prepared c x, S.calling c x site] S
      (S.calling c x site) :=
    hprepared.trans hS.toSane
      ((hprepared.fenced hS).rest rfl rfl (.refl hprepared.sane.dealt)) fun y hy => hy
  have hfenced := hcalling.fenced hS
  have hnew : (S.calling c x site).arena.Young floor (S.activation c x) :=
    hS.orderly.young_create hS.floor_le _ _
  obtain ⟨path, moves, htraces, hran⟩ := hbody (c := c) hfenced hnew
  have hentered := htraces.balanced.entered
  have hlast := hran.young hfenced hnew
  have hexec := exec_callWith body x site haccepts
  rw [if_neg hroom] at hexec
  have hcall := Traces.call haccepts hroom htraces
  unfold Courses
  rw [hexec] at hcall ⊢
  dsimp only at hcall ⊢
  generalize (activate body c args (S.activation c x)).exec (S.calling c x site) = result
    at hran hentered hlast hcall ⊢
  obtain ⟨result, T⟩ := result
  have hT := hran.fenced hfenced
  have hreturned : Course floor exceptions [] [T.returned] T T.returned :=
    hT.rest rfl rfl (.refl hT.dealt)
  have hleft := hreturned.fenced hT
  have hall := hcalling.trans hS.toSane hran fun y hy => hy
  cases result with
  | error stop =>
    have hend : Course floor exceptions [] [T.returned] T.returned T.returned :=
      hleft.rest rfl rfl (.refl hleft.dealt)
    exact ⟨_, _, hcall, hall.trans hS.toSane (hreturned.trans hT.toSane hend fun y hy => hy)
      fun y hy => hentered ▸ hy⟩
  | ok value =>
    -- the value returned is taken from the activation
    have hend := hleft.signal hlast (T := { T.returned with
      arena := (T.arena.takeReturn (S.activation c x)).2 }) rfl rfl
      (T.arena.signals_takeReturn (S.activation c x))
    exact ⟨_, _, hcall, hall.trans hS.toSane (hreturned.trans hT.toSane hend fun y hy => hy)
      fun y hy => hentered ▸ hy⟩

/-- A call. The scope that it is made from need be young only if exceptions count: they are the only
signals that go there. -/
theorem Fenced.call (hS : S.Fenced floor exceptions)
    (hcaller : exceptions = true → S.arena.Young floor x)
    {body : Callable → ScopeId → List Value → Run Value} {args : List Value}
    (hbody : ∀ {c new} {S : Session}, S.Fenced floor exceptions → S.arena.Young floor new →
      S.Courses floor exceptions (activate body c args new))
    (callee : Value) (site : Position) :
    S.Courses floor exceptions (callWith body callee args x site) := by
  by_cases haccepts : ∃ c, S.Accepts callee args c
  · obtain ⟨c, haccepts⟩ := haccepts
    -- jumps end at an activation, and exceptions go to the caller
    have hroute : ∀ {serial signal next}, (exceptions = true ∨ signal ≠ .throwing) →
        Scope.route { state := activationState c x,
                      outer := some (c.closure.getD S.arena.global), serial } signal =
          .passes (some next) → S.arena.Sheltered floor signal next := by
      intro serial signal next hsignal hroute
      unfold activationState at hroute
      cases signal <;> cases hthis : c.this <;> simp only [hthis] at hroute <;>
        simp [Scope.route] at hroute
      all_goals
        obtain rfl := hroute
        exact (hcaller (hsignal.resolve_right (by simp))).sheltered
    have hprepared : Course floor exceptions [] [S.prepared c x] S (S.prepared c x) :=
      hS.create hroute rfl rfl rfl
    by_cases hfull : S.stack.limit < S.stack.depth + 1
    · have hexec := exec_callWith body x site haccepts
      rw [if_pos hfull] at hexec
      unfold Courses
      rw [hexec]
      exact ⟨_, _, .overflow haccepts hfull, hprepared⟩
    · exact hS.callAccepted haccepts hfull hprepared hbody
  · have hrejected := not_exists.mp haccepts
    obtain ⟨fault, -, hexec⟩ := exec_callWith_rejected body x site hrejected
    unfold Courses
    rw [hexec]
    exact ⟨_, _, .reject hrejected, hS.rest rfl rfl (.refl hS.dealt)⟩

/-- An action while control state is set aside. What is put back is the control state of scopes that
may change it. -/
theorem Fenced.aside (hS : S.Fenced floor exceptions) (hx : S.arena.Young floor x) {y : Run α}
    (hy : ∀ {S : Session}, S.Fenced floor exceptions → S.arena.Young floor x →
      S.Courses floor exceptions y) :
    S.Courses floor exceptions (Session.aside x y) := by
  obtain ⟨s, hsuspended, hparked, hages, hstays, hserial⟩ :=
    hS.shields.suspend hS.orderly hS.floor_le hx
  have hparted : Passage floor exceptions [] [S.parted x] S (S.parted x) :=
    hS.passage rfl (.refl hS.dealt) hages hstays
  have hfenced : (S.parted x).Fenced floor exceptions :=
    { hparted.sane with
      floor_le := Nat.le_trans hS.floor_le hages.nextSerial_le
      shields := hages.shields_of_nextSerial_eq hS.floor_le hS.shields hserial }
  obtain ⟨path, moves, htraces, hran⟩ := hy hfenced (hages.young hS.floor_le hx)
  have haside := Traces.aside htraces
  unfold Courses
  rw [exec_aside]
  generalize (y.exec (S.parted x)).2 = T at hran haside ⊢
  have hT := hran.fenced hfenced
  have htop : T.arena.suspended = s.mapRefs (relocate moves) ::
      S.arena.suspended.map (·.mapRefs (relocate moves)) := by
    rw [hran.suspended]
    exact congrArg (List.map _) hsuspended
  have hloose : ∀ p ∈ (s.mapRefs (relocate moves)).parked, T.arena.Loose floor exceptions p.1 := by
    intro p hp
    obtain ⟨q, hq, rfl⟩ := List.mem_map.mp hp
    exact hran.ages.loose hfenced.floor_le (hages.loose hS.floor_le (hparked q hq))
  obtain ⟨hages', hstays', hrest, hserial'⟩ :=
    Arena.ages_restoreControl hT.orderly hT.floor_le htop hloose
  have hrejoined : Passage floor exceptions [] [T.rejoined] T T.rejoined :=
    hT.passage rfl (.refl hT.dealt) hages' hstays'
  refine ⟨_, moves, haside, ?_⟩
  have hall := (hparted.trans hS.toSane hran.toPassage).trans hS.toSane hrejoined
  rw [List.nil_append, List.append_nil] at hall
  refine ⟨hall, hages'.shields_of_nextSerial_eq hT.floor_le hT.shields hserial', hrest,
    fun z hz t ht => ?_⟩
  obtain ⟨t₁, ht₁, hkin₁⟩ := hstays ht
  obtain ⟨t₂, ht₂, hkin₂⟩ := hran.entered z hz t₁ ht₁
  obtain ⟨t₃, ht₃, hkin₃⟩ := hstays' ht₂
  exact ⟨t₃, ht₃, (hkin₁.trans hkin₂).trans hkin₃⟩

/-- A request is parked and, unless the session is shared, taken off the table and served. -/
theorem Fenced.spawn (hS : S.Fenced floor exceptions) (hx : S.arena.Young floor x) {ev : Evaluator}
    (hrun : ∀ ticket request {S : Session}, S.Fenced floor exceptions → S.arena.Young floor x →
      S.Courses floor exceptions (runRequest ev ticket request))
    (callee : Value) (args : List Value) (daemon : Bool) :
    S.Courses floor exceptions (spawnThread ev callee args daemon) := by
  unfold Courses
  rw [exec_spawnThread]
  cases hshared : S.threads.shared with
  | true => exact ⟨_, _, .park hshared, hS.rest rfl rfl (hS.dealt.extends_park _)⟩
  | false =>
    set asked := S.asked ⟨callee, args⟩ (.ranInline S.threads.nextTicket)
    have hticket : asked.threads.pending.lookup S.threads.nextTicket = some ⟨callee, args⟩ :=
      (hS.dealt.lookup_park _ _).trans (if_pos rfl)
    have htrail : Trail S.Awaited [] [asked] S asked := .work (.start S) (.refl hS.wellFormed)
    have htaken : Course floor exceptions [] [asked, asked.taken S.threads.nextTicket] S
        (asked.taken S.threads.nextTicket) :=
      { hS.rest (T := asked.taken S.threads.nextTicket) rfl rfl
          (hS.dealt.extends_take_park ⟨callee, args⟩) with
        trail := htrail.work (.refl hS.wellFormed) }
    obtain ⟨path, moves, htraces, hran⟩ :=
      hrun S.threads.nextTicket ⟨callee, args⟩ (htaken.fenced hS) hx
    refine ⟨_, [] ++ moves, .spawn hshared (.serve hticket htraces), ?_⟩
    rw [exec_runThread, hticket]
    exact htaken.trans hS.toSane hran fun y hy => hy

/-- The request of a ticket is taken off the table and served. -/
theorem Fenced.thread {ev : Evaluator} {ticket : Nat}
    (hS : (S.taken ticket).Fenced floor exceptions)
    (hrun : ∀ request, (S.taken ticket).Courses floor exceptions (runRequest ev ticket request)) :
    ∃ path moves, Traces (runThread ev ticket) S (S.taken ticket :: path) ∧
      Course floor exceptions moves path (S.taken ticket) ((runThread ev ticket).exec S).2 := by
  rw [exec_runThread]
  cases hticket : S.threads.pending.lookup ticket with
  | none => exact ⟨[], [], .absent hticket, .refl hS⟩
  | some request =>
    obtain ⟨path, moves, htraces, hran⟩ := hrun request
    exact ⟨path, moves, .serve hticket htraces, hran⟩

/-- **What a scripted action in a young scope leaves of a session.** -/
theorem Scripted.course {y : Run α} (h : Scripted x y) (hS : S.Fenced floor exceptions)
    (hx : S.arena.Young floor x) : S.Courses floor exceptions y := by
  induction h generalizing S with
  | step h =>
    obtain ⟨moves, hcourse⟩ := (h S).course hS hx
    exact ⟨_, moves, .step h, hcourse⟩
  | @bind _ _ _ y f hy _ ihy ihf =>
    obtain ⟨path, moves, htraces, hfirst⟩ := ihy hS hx
    have hentered := htraces.balanced.entered
    rcases hexec : y.exec S with ⟨stop | a, T⟩
    · rw [hexec] at hfirst
      exact ⟨path, moves, .stop htraces hexec, by rwa [exec_bind_error hexec]⟩
    · rw [hexec] at hfirst hentered
      obtain ⟨path', moves', htraces', hrest⟩ := ihf a (hfirst.fenced hS) (hfirst.young hS hx)
      refine ⟨_, moves ++ moves', .bind htraces hexec htraces', ?_⟩
      rw [exec_bind_ok hexec]
      exact hfirst.trans hS.toSane hrest fun y hy => hentered ▸ hy
  | outcome _ ih =>
    obtain ⟨path, moves, htraces, hran⟩ := ih hS hx
    exact ⟨path, moves, .outcome htraces, by rwa [exec_outcome]⟩
  | @hold _ size h values scope ih =>
    have hguarding : Course floor exceptions [] [S.guarding values scope] S
        (S.guarding values scope) := hS.rest rfl rfl (.refl hS.dealt)
    obtain ⟨path, moves, htraces, hran⟩ := ih (hguarding.fenced hS) hx
    have hall := hguarding.trans hS.toSane hran fun y hy => List.mem_append_right _ hy
    have hreleased := (hall.fenced hS).rest
      (T := S.released ((Session.allocate size).exec (S.guarding values scope)).2) rfl rfl
      (.refl hall.sane.dealt)
    unfold Courses
    rw [exec_allocateHolding rfl]
    refine ⟨_, _, .hold htraces, hall.trans hS.toSane hreleased fun y hy => ?_⟩
    rw [htraces.balanced.entered]
    exact List.mem_append_right _ hy
  | @create x _ state f hstate _ ih =>
    have hmade : Course floor exceptions [] _ S
        { S with arena := (S.arena.create state (some x)).2 } :=
      hS.create (fun _ hroute => sheltered_of_inner hx hstate hroute) rfl rfl rfl
    obtain ⟨path, moves, htraces, hran⟩ := ih _ (hmade.fenced hS)
      (hS.orderly.young_create hS.floor_le state (some x))
    exact ⟨_, _, .bind .create rfl htraces, hmade.trans hS.toSane hran fun y hy => hy⟩
  | inScope hstate hf ih =>
    exact hS.within (ih _) (hS.opened fun _ hroute => sheltered_of_inner hx hstate hroute)
  | aside hy ih => exact hS.aside hx ih
  | call hbody callee site ih => exact hS.call (fun _ => hx) (ih _ _) callee site
  | thread hf ih => exact hS.inThread (ih _)
  | spawn callee args daemon _ ih => exact hS.spawn hx ih callee args daemon

/-! ## Operations -/

/-- When all scopes are young there is nothing to be shielded. -/
theorem Sane.fenced (hS : S.Sane) : S.Fenced 0 false :=
  { hS with floor_le := Nat.zero_le _, shields := Arena.shields_zero false S.arena }

/-- The path along which an action leads that is scripted, or that leaves the heap alone. -/
inductive Leads (y : Run α) (S : Session) : List Session → Prop
  | traces {path : List Session} (h : Traces y S path) : Leads y S path
  | change (h : ∀ S : Session, (y.exec S).2.memory.heap = S.memory.heap) :
      Leads y S [(y.exec S).2]

/-- The action takes the session `S` to a later one. -/
def Proceeds (S : Session) (y : Run α) : Prop :=
  ∃ path moves, Leads y S path ∧ Passage 0 false moves path S (y.exec S).2

theorem Scripted.proceeds {y : Run α} (h : Scripted x y) (hS : S.Sane) : S.Proceeds y := by
  obtain ⟨path, moves, htraces, hcourse⟩ := h.course hS.fenced (S.arena.young_zero x)
  exact ⟨path, moves, .traces htraces, hcourse.toPassage⟩

/-- Scopes of any kind can be made. -/
theorem Sane.create (hS : S.Sane) {state : ScopeState} {outer : Option ScopeId}
    (hheap : T.memory.heap = S.memory.heap) (hthreads : T.threads = S.threads)
    (harena : T.arena = (S.arena.create state outer).2) : Passage 0 false [] [T] S T :=
  (hS.fenced.create (fun _ _ => (S.arena.young_zero _).sheltered) hheap hthreads harena).toPassage

theorem Sane.rest (hS : S.Sane) (hheap : T.memory.heap = S.memory.heap)
    (harena : T.arena = S.arena) (hthreads : S.threads.Extends T.threads) :
    Passage 0 false [] [T] S T :=
  (hS.fenced.rest hheap harena hthreads).toPassage

theorem Sane.suspend (hS : S.Sane) (x : ScopeId) :
    Passage 0 false [] [S.parted x] S (S.parted x) := by
  obtain ⟨-, -, -, hages, hstays, -⟩ :=
    (Arena.shields_zero false S.arena).suspend hS.orderly (Nat.zero_le _) (S.arena.young_zero x)
  exact hS.passage rfl (.refl hS.dealt) hages hstays

theorem Sane.restore (hS : S.Sane) : Passage 0 false [] [S.rejoined] S S.rejoined := by
  cases hsuspended : S.arena.suspended with
  | nil =>
    refine hS.rest rfl ?_ (.refl hS.dealt)
    change S.arena.restoreControl = S.arena
    unfold Arena.restoreControl
    rw [hsuspended]
  | cons s rest =>
    have hloose : ∀ p ∈ s.parked, S.arena.Loose 0 false p.1 :=
      fun p _ => (S.arena.young_zero p.1).loose
    obtain ⟨hages, hstays, -⟩ :=
      Arena.ages_restoreControl hS.orderly (Nat.zero_le _) hsuspended hloose
    exact hS.passage rfl (.refl hS.dealt) hages hstays

/-- What operations do to a session besides steps of scripts. -/
inductive Shift (S : Session) : Session → Prop
  /-- Change registries. -/
  | registry {T : Session} (hheap : T.memory.heap = S.memory.heap) (harena : T.arena = S.arena)
      (hthreads : T.threads = S.threads) : Shift S T
  /-- Make a scope. -/
  | create {T : Session} (state : ScopeState) (outer : Option ScopeId)
      (hheap : T.memory.heap = S.memory.heap) (harena : T.arena = (S.arena.create state outer).2)
      (hthreads : T.threads = S.threads) : Shift S T
  /-- Set control state aside. -/
  | suspend (x : ScopeId) : Shift S (S.parted x)
  /-- Put control state back. -/
  | restore : Shift S S.rejoined

theorem Shift.heap (h : S.Shift T) : T.memory.heap = S.memory.heap := by
  cases h with
  | registry hheap _ _ | create _ _ hheap _ _ => exact hheap
  | suspend _ | restore => rfl

theorem Shift.proceeds {y : Run α} (h : ∀ S : Session, S.Shift (y.exec S).2) (hS : S.Sane) :
    S.Proceeds y := by
  refine ⟨_, [], .change fun S => (h S).heap, ?_⟩
  have hshift := h S
  generalize (y.exec S).2 = T at hshift ⊢
  cases hshift with
  | registry hheap harena hthreads =>
    exact hS.rest hheap harena (by rw [hthreads]; exact .refl hS.dealt)
  | create state outer hheap harena hthreads => exact hS.create hheap hthreads harena
  | suspend x => exact hS.suspend x
  | restore => exact hS.restore

/-- Every operation can be part of a script, or is a change of another kind. -/
theorem Operation.scripted_or_shift (op : Operation) :
    (∃ x, Scripted x op.run) ∨ ∀ S : Session, S.Shift (op.run.exec S).2 := by
  cases op with
  | allocate size => exact .inl ⟨⟨0⟩, (Scripted.allocate size).discard⟩
  | newArray elements => exact .inl ⟨⟨0⟩, (Scripted.newArray elements).discard⟩
  | newObject data => exact .inl ⟨⟨0⟩, (Scripted.newObject data).discard⟩
  | newFunction name params body closure => exact .inl ⟨⟨0⟩, (Scripted.newObject _).discard⟩
  | newMethod name params body closure this => exact .inl ⟨⟨0⟩, (Scripted.newObject _).discard⟩
  | newHost name arity body => exact .inl ⟨⟨0⟩, (Scripted.newObject _).discard⟩
  | newClass name superclass attributes => exact .inl ⟨⟨0⟩, (Scripted.newObject _).discard⟩
  | newInstance classRef outer => exact .inl ⟨outer, (Scripted.newInstance classRef).discard⟩
  | newModule name outer =>
    have hnew : Scripted outer (Session.newModule name outer) :=
      .create rfl fun _ => .bind (.newObject _) fun _ => .pure _
    exact .inl ⟨outer, hnew.discard⟩
  | newError typeName message => exact .inl ⟨⟨0⟩, (Scripted.newObject _).discard⟩
  | bindSuper child parent => exact .inl ⟨⟨0⟩, .bindSuper child parent⟩
  | importModule id target => exact .inl ⟨id, .importModule id target⟩
  | enterScope state outer => exact .inr fun _ => .create state (some outer) rfl rfl rfl
  | exitScope id => exact .inr fun _ => .registry rfl rfl rfl
  | createScope state outer => exact .inr fun _ => .create state outer rfl rfl rfl
  | defineVar id name v => exact .inl ⟨id, .defineVar id name v⟩
  | defineConst id name v => exact .inl ⟨id, .defineConst id name v⟩
  | defineField id partition name entry => exact .inl ⟨id, .rebind Arena.rebound_defineField⟩
  | assign id name v => exact .inl ⟨id, .assign id name v⟩
  | assignMember r name v => exact .inl ⟨⟨0⟩, .assignMember r name v⟩
  | writeElement r index v => exact .inl ⟨⟨0⟩, .writeElement r index v⟩
  | setData r data => exact .inl ⟨⟨0⟩, .setData r data⟩
  | setReturn id v => exact .inl ⟨id, .raise _⟩
  | takeReturn id => exact .inl ⟨id, Scripted.takeReturn.discard⟩
  | breakLoop id label => exact .inl ⟨id, .raise _⟩
  | pauseLoop id label => exact .inl ⟨id, .raise _⟩
  | resumeLoop id => exact .inl ⟨id, .raise _⟩
  | fallthrough id => exact .inl ⟨id, .raise _⟩
  | takeFallthrough id => exact .inl ⟨id, Scripted.takeFallthrough.discard⟩
  | yieldValue id v => exact .inl ⟨id, .raise _⟩
  | takeYield id => exact .inl ⟨id, Scripted.takeYield.discard⟩
  | throwException id pending => exact .inl ⟨id, .raise _⟩
  | takeException id => exact .inl ⟨id, Scripted.takeException.discard⟩
  | throwValue id v => exact .inl ⟨id, .throwValue v⟩
  | raise id fault => exact .inl ⟨id, .raiseFault fault⟩
  | suspendControl id => exact .inr fun _ => .suspend id
  | restoreControl => exact .inr fun _ => .restore
  | pushFrame frame =>
    have hpush : ∀ S : Session, ∃ stack,
        ((Session.pushFrame frame).exec S).2 = { S with stack } := by
      intro S
      unfold Session.pushFrame
      rw [exec_bind_ok (exec_get S)]
      cases S.stack.push frame <;> exact ⟨_, rfl⟩
    refine .inr fun S => ?_
    obtain ⟨stack, hexec⟩ := hpush S
    change S.Shift ((Session.pushFrame frame).exec S).2
    rw [hexec]
    exact .registry rfl rfl rfl
  | popFrame => exact .inr fun _ => .registry rfl rfl rfl
  | manage r => exact .inr fun _ => .registry rfl rfl rfl
  | unmanage r => exact .inr fun _ => .registry rfl rfl rfl
  | makePermanent r => exact .inr fun _ => .registry rfl rfl rfl
  | collect extra => exact .inl ⟨⟨0⟩, (Scripted.collectFrom extra).discard⟩
  | compact => exact .inl ⟨⟨0⟩, Scripted.collectAndSlide.discard⟩

/-- **Every operation takes a session to a later one.** -/
theorem Operation.proceeds (op : Operation) (hS : S.Sane) : S.Proceeds op.run := by
  rcases op.scripted_or_shift with ⟨x, hscripted⟩ | hshift
  · exact hscripted.proceeds hS
  · exact Shift.proceeds hshift hS

theorem Arises.sane {options : Options} (h : Arises options S) : S.Sane := by
  induction h with
  | new => exact sane_new options
  | step _ op _ ih =>
    obtain ⟨path, moves, -, hpassage⟩ := op.proceeds ih
    exact hpassage.sane

end Session

end ScriptCore
