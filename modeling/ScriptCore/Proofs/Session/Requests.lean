import ScriptCore.Proofs.Session.Course

/-!
# Requests that wait

The threads of a session take turns, in any order: one asks for a thread, operates on the session,
carries out any part of a script, or serves a request. `Session.Turns` are these runs. A session can
be shared at any time, and from then on requests wait.

A request waits under its ticket until the turn that starts it. Meanwhile there may be collections
and compactions; the references that the request holds follow the objects that they named when it
was made, and none of these is freed (`Session.Turns.waits`). Once it has been started it is gone
for good, and starting it again does nothing (`Session.Turns.gone`). `Session.requests_kept` puts
this together for a request from the moment that it is made.
-/

namespace ScriptCore

/-- The object at `r` is one of those that the request names. -/
def ThreadRequest.Names (request : ThreadRequest) (r : Ref) : Prop :=
  ∃ v ∈ request.values, v.reference? = some r

namespace Session

open Run

variable {ev : Evaluator} {S T U : Session} {ticket : Nat} {request : ThreadRequest}

/-! ## Turns -/

/-- What a thread can do in its turn. -/
inductive Turn
  /-- Ask for a thread. -/
  | spawn (callee : Value) (args : List Value) (daemon : Bool)
  /-- Put a request on the table, which is how a session that is not shared begins to serve it. -/
  | park (request : ThreadRequest)
  /-- Operate on the session. -/
  | operate (op : Operation)
  /-- Carry out a part of a script in the scope `x`. -/
  | script (x : ScopeId) (y : Run Unit) (hy : Scripted x y)
  /-- Serve the request of a ticket. -/
  | start (ticket : Nat)
  /-- Share the session. -/
  | share

namespace Turn

/-- Take a turn, with `ev` for the nodes. -/
def run (ev : Evaluator) : Turn → Run Unit
  | spawn callee args daemon => do let _ ← spawnThread ev callee args daemon
  | park request => modify fun s => { s with threads := s.threads.park request }
  | operate op => op.run
  | script _ y _ => y
  | start ticket => do let _ ← runThread ev ticket
  | share => modify Session.share

/-- The references and scopes that are handed in. -/
def mentions : Turn → List Cell
  | spawn callee args _ => Cell.ofValues (callee :: args)
  | park request => Cell.ofValues request.values
  | operate op => op.mentions
  | script x _ _ => [.scope x]
  | start _ | share => []

end Turn

/-- Turns are taken one after the other. What is handed in is null or there at the time. -/
inductive Turns (ev : Evaluator) (S : Session) : List Turn → Session → Prop
  | nil : Turns ev S [] S
  | snoc {turns : List Turn} {T : Session} (h : Turns ev S turns T) (turn : Turn)
      (hturn : ∀ c ∈ turn.mentions, T.Valid c) :
      Turns ev S (turns ++ [turn]) ((turn.run ev).exec T).2

/-- The path along which turns lead from the session `S` to another one. -/
inductive TurnsLead (ev : Evaluator) (S : Session) : List Turn → List Session → Session → Prop
  | nil : TurnsLead ev S [] [] S
  | snoc {turns : List Turn} {path path' : List Session} {T : Session}
      (h : TurnsLead ev S turns path T) (turn : Turn) (hturn : Leads (turn.run ev) T path') :
      TurnsLead ev S (turns ++ [turn]) (path ++ path') ((turn.run ev).exec T).2

/-- The sessions that threads can bring about. -/
def Attained (ev : Evaluator) (options : Options) (S : Session) : Prop :=
  ∃ turns, Turns ev (Session.new options) turns S

/-! ## One turn -/

/-- A request waits under the ticket, and the objects that it names are there. -/
structure Holds (S : Session) (ticket : Nat) (request : ThreadRequest) : Prop where
  lookup : S.threads.pending.lookup ticket = some request
  live : ∀ r, request.Names r → (S.memory.heap.header? r).isSome = true

theorem Holds.awaited (h : S.Holds ticket request) {r : Ref} (hr : request.Names r) :
    S.Awaited r := by
  obtain ⟨v, hv, href⟩ := hr
  exact ⟨⟨ticket, request, v, h.lookup, hv, href⟩, h.live r ⟨v, hv, href⟩⟩

/-- What a request names after the objects have been moved is what it named before. -/
theorem exists_names_of_mapRefs {f : Ref → Ref} {r : Ref} (hnull : f .null = .null)
    (h : (request.mapRefs f).Names r) : ∃ r₀, request.Names r₀ ∧ f r₀ = r := by
  obtain ⟨v, hv, href⟩ := h
  obtain ⟨w, hw, rfl⟩ := List.mem_map.mp
    (show v ∈ request.values.map (Value.mapRef f) from hv)
  cases w with
  | ref r₀ =>
    simp only [Value.mapRef, Value.reference?] at href
    split at href
    · cases href
    · rename_i hnotnull
      cases href
      refine ⟨r₀, ⟨_, hw, ?_⟩, rfl⟩
      have hr₀ : r₀.isNull = false := by
        cases h : r₀.isNull with
        | false => rfl
        | true =>
          rw [Ref.isNull_iff.mp h, hnull] at hnotnull
          exact absurd rfl hnotnull
      simp [Value.reference?, hr₀]
  | _ => cases href

/-- As a session goes on a request waits, and its references follow the objects. -/
theorem Passage.holds {moves : List Forwarding} {path : List Session}
    (h : Passage 0 false moves path S T) (hS : S.Sane) (hheld : S.Holds ticket request) :
    Trail request.Names moves path S T ∧ T.Holds ticket (request.mapRefs (relocate moves)) := by
  have htrail : Trail request.Names moves path S T := h.trail.mono fun _ hr => hheld.awaited hr
  refine ⟨htrail, ?_, fun r hr => ?_⟩
  · rw [h.lookup ticket (hS.dealt.lt hheld.lookup), hheld.lookup]
    rfl
  · obtain ⟨r₀, hr₀, rfl⟩ := exists_names_of_mapRefs h.trail.relocate_null hr
    exact htrail.live hr₀ (hheld.live r₀ hr₀)

theorem Sane.taken (hS : S.Sane) (ticket : Nat) : (S.taken ticket).Sane :=
  ⟨hS.wellFormed, hS.orderly, hS.outermost, hS.dealt.take ticket⟩

/-- A session from which nothing is taken. -/
theorem taken_eq_self (h : S.threads.pending.lookup ticket = none) : S.taken ticket = S := by
  have hfilter : S.threads.pending.filter (·.1 != ticket) = S.threads.pending := by
    refine List.filter_eq_self.mpr fun p hp => ?_
    have hne := List.lookup_eq_none_iff.mp h p hp
    simpa [bne_comm] using hne
  unfold taken ThreadTable.take
  rw [hfilter]

/-- The session when a turn has taken a request off the table or has shared it, if it does so. -/
def Turn.opening (S : Session) : Turn → Session
  | start ticket => S.taken ticket
  | share => S.share
  | _ => S

theorem Sane.opening (hS : S.Sane) (turn : Turn) : (turn.opening S).Sane := by
  cases turn with
  | start ticket => exact hS.taken ticket
  | share => exact ⟨hS.wellFormed, hS.orderly, hS.outermost, hS.dealt⟩
  | _ => exact hS

theorem Holds.opening (h : S.Holds ticket request) {turn : Turn} (hturn : turn ≠ .start ticket) :
    (turn.opening S).Holds ticket request := by
  cases turn with
  | start other =>
    have hother : ticket ≠ other := fun heq => hturn (heq ▸ rfl)
    refine ⟨?_, h.live⟩
    rw [← h.lookup]
    exact (S.threads.lookup_take other ticket).trans (if_neg hother)
  | share => exact ⟨h.lookup, h.live⟩
  | _ => exact h

/-- The path to this session. -/
def Turn.entry (S : Session) (turn : Turn) : List Session :=
  match turn with
  | start _ | share => [turn.opening S]
  | _ => []

/-- Nothing is moved or freed on the way there. -/
theorem Sane.trail_opening (hS : S.Sane) (turn : Turn) (Named : Ref → Prop) :
    Trail Named [] (turn.entry S) S (turn.opening S) := by
  cases turn with
  | start _ | share => exact .work (.start S) (.refl hS.wellFormed)
  | _ => exact .start S

/-- A request is served, and its value left out. -/
theorem Sane.passage_start (hS : S.Sane) (hev : Scripting ev) (ticket : Nat) :
    ∃ path moves, Leads ((Turn.start ticket).run ev) S (S.taken ticket :: path) ∧
      Passage 0 false moves path (S.taken ticket) (((Turn.start ticket).run ev).exec S).2 := by
  have htaken := hS.taken ticket
  have hfenced := htaken.fenced
  obtain ⟨path, moves, htraces, hran⟩ := hfenced.thread fun request =>
    (Scripted.runRequest hev ticket request).course hfenced (Arena.young_zero _ S.arena.global)
  unfold Turn.run
  rcases hexec : (runThread ev ticket).exec S with ⟨stop | value, T⟩
  · rw [hexec] at hran
    rw [exec_bind_error hexec]
    exact ⟨path, moves, .traces (.stop htraces hexec), hran.toPassage⟩
  · rw [hexec] at hran
    rw [exec_bind_ok hexec]
    have hrest := hran.sane.rest (T := T) rfl rfl (.refl hran.sane.dealt)
    exact ⟨path ++ [T], _, .traces (.bind htraces hexec (.step fun S => .refl ⟨0⟩ S)),
      hran.toPassage.trans htaken hrest⟩

/-- Whoever's turn it is, the session goes on. -/
theorem Turn.passage (hev : Scripting ev) (turn : Turn) (hS : S.Sane) :
    ∃ path moves, Leads (turn.run ev) S (turn.entry S ++ path) ∧
      Passage 0 false moves path (turn.opening S) ((turn.run ev).exec S).2 := by
  have hopening := hS.opening turn
  cases turn with
  | spawn callee args daemon =>
    exact (Scripted.spawnThread (x := S.arena.global) hev callee args daemon).discard.proceeds hS
  | park request =>
    exact ⟨_, _, .change fun _ => rfl, hS.rest rfl rfl (hS.dealt.extends_park request)⟩
  | operate op => exact op.proceeds hS
  | script x y hy => exact hy.proceeds hS
  | start ticket => exact hS.passage_start hev ticket
  | share => exact ⟨[], [], .change fun _ => rfl, (Course.refl hopening.fenced).toPassage⟩

namespace Turn

variable (hev : Scripting ev) (turn : Turn) (hS : S.Sane)
include hev hS

theorem sane : ((turn.run ev).exec S).2.Sane := by
  obtain ⟨path, moves, -, hpassage⟩ := turn.passage hev hS
  exact hpassage.sane

/-- A session that is shared stays so. -/
theorem shared (hshared : S.threads.shared = true) :
    ((turn.run ev).exec S).2.threads.shared = true := by
  obtain ⟨path, moves, -, hpassage⟩ := turn.passage hev hS
  rw [hpassage.shared]
  cases turn <;> first | exact hshared | rfl

theorem nextTicket_le :
    S.threads.nextTicket ≤ ((turn.run ev).exec S).2.threads.nextTicket := by
  obtain ⟨path, moves, -, hpassage⟩ := turn.passage hev hS
  refine Nat.le_trans (Nat.le_of_eq ?_) hpassage.nextTicket_le
  cases turn <;> rfl

/-- A request waits through the turns that do not start it. -/
theorem waits (hturn : turn ≠ .start ticket) (hheld : S.Holds ticket request) :
    ∃ path moves, Leads (turn.run ev) S path ∧
      Trail request.Names moves path S ((turn.run ev).exec S).2 ∧
      ((turn.run ev).exec S).2.Holds ticket (request.mapRefs (relocate moves)) := by
  obtain ⟨path, moves, hleads, hpassage⟩ := turn.passage hev hS
  obtain ⟨htrail, hholds⟩ := hpassage.holds (hS.opening turn) (hheld.opening hturn)
  exact ⟨_, moves, hleads, (hS.trail_opening turn _).append htrail fun _ hr => hr, hholds⟩

/-- A ticket that has been started, or that had no request any more, has none. -/
theorem gone (hlt : ticket < S.threads.nextTicket)
    (hgone : turn = .start ticket ∨ S.threads.pending.lookup ticket = none) :
    ((turn.run ev).exec S).2.threads.pending.lookup ticket = none := by
  obtain ⟨path, moves, -, hpassage⟩ := turn.passage hev hS
  have hopening : (turn.opening S).threads.pending.lookup ticket = none := by
    cases turn with
    | start other =>
      refine (S.threads.lookup_take other ticket).trans ?_
      split
      · rfl
      · rename_i hother
        refine hgone.resolve_left fun heq => ?_
        cases heq
        exact hother rfl
    | _ => exact hgone.resolve_left nofun
  have hnext : ticket < (turn.opening S).threads.nextTicket := by
    cases turn <;> exact hlt
  rw [hpassage.lookup ticket hnext, hopening]
  rfl

end Turn

/-! ## Whole runs -/

namespace Turns

variable {turns : List Turn} (hev : Scripting ev) (hS : S.Sane) (h : Turns ev S turns T)
include hev hS h

theorem sane : T.Sane := by
  induction h with
  | nil => exact hS
  | snoc _ turn _ ih => exact turn.sane hev ih

theorem shared (hshared : S.threads.shared = true) : T.threads.shared = true := by
  induction h with
  | nil => exact hshared
  | snoc h turn _ ih => exact turn.shared hev (h.sane hev hS) ih

theorem nextTicket_le : S.threads.nextTicket ≤ T.threads.nextTicket := by
  induction h with
  | nil => exact Nat.le_refl _
  | snoc h turn _ ih => exact Nat.le_trans ih (turn.nextTicket_le hev (h.sane hev hS))

/-- **A request waits as long as it is not started**, and names the same objects. -/
theorem waits (hheld : S.Holds ticket request) (hturns : .start ticket ∉ turns) :
    ∃ path moves, TurnsLead ev S turns path T ∧ Trail request.Names moves path S T ∧
      T.Holds ticket (request.mapRefs (relocate moves)) := by
  induction h with
  | nil => exact ⟨[], [], .nil, .start S, by rwa [relocate_nil, ThreadRequest.mapRefs_id]⟩
  | snoc h turn _ ih =>
    rw [List.mem_append, List.mem_singleton, not_or] at hturns
    obtain ⟨path, moves, hlead, htrail, hholds⟩ := ih hturns.1
    obtain ⟨path', moves', hleads, htrail', hholds'⟩ :=
      turn.waits hev (h.sane hev hS) (Ne.symm hturns.2) hholds
    rw [ThreadRequest.mapRefs_mapRefs, ← relocate_append] at hholds'
    refine ⟨_, moves ++ moves', .snoc hlead turn hleads, htrail.append htrail' fun r hr => ?_,
      hholds'⟩
    obtain ⟨v, hv, href⟩ := hr
    exact ⟨v.mapRef (relocate moves), List.mem_map_of_mem hv,
      reference?_mapRef_of_live href (htrail.live ⟨v, hv, href⟩ (hheld.live r ⟨v, hv, href⟩))⟩

/-- **A request that has been started is gone for good.** -/
theorem gone (hlt : ticket < S.threads.nextTicket) (hturns : .start ticket ∈ turns) :
    T.threads.pending.lookup ticket = none := by
  induction h with
  | nil => cases hturns
  | snoc h turn _ ih =>
    refine turn.gone hev (h.sane hev hS) (Nat.lt_of_lt_of_le hlt (h.nextTicket_le hev hS)) ?_
    rcases List.mem_append.mp hturns with hturns | hturns
    · exact .inr (ih hturns)
    · exact .inl (List.mem_singleton.mp hturns).symm

end Turns

theorem Attained.sane (hev : Scripting ev) {options : Options} (h : Attained ev options S) :
    S.Sane := by
  obtain ⟨turns, h⟩ := h
  exact h.sane hev (sane_new options)

/-- What a request names is there if what is handed in is. -/
theorem live_of_names {r : Ref} (hvalid : ∀ c ∈ Cell.ofValues request.values, S.Valid c)
    (hr : request.Names r) : (S.memory.heap.header? r).isSome = true := by
  obtain ⟨v, hv, href⟩ := hr
  rcases hvalid (.object r) (Cell.object_mem_ofValues.mpr ⟨v, hv, href⟩) with hnull | hlive
  · cases hnull
    cases v with
    | ref r' =>
      simp only [Value.reference?] at href
      split at href
      · cases href
      · rename_i hnotnull
        cases href
        exact absurd rfl hnotnull
    | _ => cases href
  · exact hlive

/-- **Requests are neither lost nor served twice, and keep what they name.** Let the threads of a
shared session take turns in any order, and let a thread be asked for whose callee and arguments
are null, plain or name live objects. It gets a ticket that no later one gets. Until the turn that
starts it the request waits under this ticket; its references are then the original ones, moved by
all compactions in between, and name the objects that they named, none of which has been freed.
Starting it takes it off the table and calls what it names. From then on there is no such request,
and starting it does nothing. -/
theorem requests_kept (hev : Scripting ev) {options : Options} (hS : Attained ev options S)
    (hshared : S.threads.shared = true) {callee : Value} {args : List Value} (daemon : Bool)
    (hvalid : ∀ c ∈ Cell.ofValues (callee :: args), S.Valid c) :
    let ticket := S.threads.nextTicket
    ∃ asked, (spawnThread ev callee args daemon).exec S = (.ok ticket, asked) ∧
      ∀ turns T, Turns ev asked turns T →
        (∀ callee' args' daemon', ∃ later > ticket,
          ((spawnThread ev callee' args' daemon').exec T).1 = .ok later) ∧
        (.start ticket ∉ turns → ∃ path moves,
          let request : ThreadRequest :=
            ⟨callee.mapRef (relocate moves), args.map (·.mapRef (relocate moves))⟩
          TurnsLead ev asked turns path T ∧
            Trail (ThreadRequest.Names ⟨callee, args⟩) moves path asked T ∧
            T.Holds ticket request ∧
            (runThread ev ticket).exec T = (runRequest ev ticket request).exec (T.taken ticket) ∧
            (T.taken ticket).threads.pending.lookup ticket = none) ∧
        (.start ticket ∈ turns → T.threads.pending.lookup ticket = none ∧
          (runThread ev ticket).exec T = (.ok none, T)) := by
  intro ticket
  have hsane := hS.sane hev
  have hspawn := exec_spawnThread ev S callee args daemon
  rw [if_pos hshared] at hspawn
  refine ⟨_, hspawn, fun turns T hturns => ?_⟩
  set asked := S.asked ⟨callee, args⟩ (.spawned ticket daemon)
  have hasked : asked.Sane :=
    (hsane.rest (T := asked) rfl rfl (hsane.dealt.extends_park _)).sane
  have hheld : asked.Holds ticket ⟨callee, args⟩ := by
    have hvalues : ∀ c ∈ Cell.ofValues (ThreadRequest.values ⟨callee, args⟩), S.Valid c := hvalid
    have hlive : ∀ r, ThreadRequest.Names ⟨callee, args⟩ r →
        (S.memory.heap.header? r).isSome = true := fun r hr => live_of_names hvalues hr
    exact ⟨(hsane.dealt.lookup_park _ ticket).trans (if_pos rfl), hlive⟩
  have hlt : ticket < T.threads.nextTicket := hturns.nextTicket_le hev hasked
  refine ⟨fun callee' args' daemon' => ⟨T.threads.nextTicket, hlt, ?_⟩, fun hstart => ?_,
    fun hstart => ?_⟩
  · rw [exec_spawnThread, if_pos (hturns.shared hev hasked hshared)]
  · obtain ⟨path, moves, hlead, htrail, hholds⟩ := hturns.waits hev hasked hheld hstart
    refine ⟨path, moves, hlead, htrail, hholds, ?_, ?_⟩
    · rw [exec_runThread, hholds.lookup]
      rfl
    · exact (T.threads.lookup_take ticket ticket).trans (if_pos rfl)
  · have hgone := hturns.gone hev hasked (Nat.lt_succ_self ticket) hstart
    refine ⟨hgone, ?_⟩
    rw [exec_runThread, hgone, taken_eq_self hgone]

/-- There is a function that hands back its argument, and the session has been shared. -/
def echoing : Session :=
  ((Operation.newHost "echo" 1 .echo).run.exec (Session.new { heapSize := 8 })).2.share

theorem echoing_attained : Attained (eval 4) { heapSize := 8 } echoing :=
  ⟨_, .snoc (.snoc .nil (.operate (.newHost "echo" 1 .echo)) fun _ hc => nomatch hc) .share
    fun _ hc => nomatch hc⟩

/-- A thread is asked for, then there is a compaction: its request still waits. -/
theorem requests_kept_echoing :
    let asked := ((spawnThread (eval 4) (.ref ⟨1⟩) [.ref ⟨1⟩] false).exec echoing).2
    let later := (Operation.compact.run.exec asked).2
    ∃ request, later.Holds 0 request := by
  have hvalid : ∀ c ∈ Cell.ofValues [.ref ⟨1⟩, .ref ⟨1⟩], echoing.Valid c := by
    intro c hc
    have hcells : Cell.ofValues [.ref ⟨1⟩, .ref ⟨1⟩] = [.object ⟨1⟩, .object ⟨1⟩] := rfl
    obtain rfl : c = .object ⟨1⟩ := by simpa [hcells] using hc
    exact .inr rfl
  obtain ⟨asked, hasked, h⟩ :=
    requests_kept (scripting_eval 4) echoing_attained rfl false hvalid
  intro asked' later
  have hsame : asked' = asked := by
    change (Run.exec _ echoing).2 = asked
    rw [hasked]
  obtain ⟨-, hwaits, -⟩ := h _ _ (.snoc .nil (.operate .compact) fun _ hc => nomatch hc)
  obtain ⟨path, moves, -, -, hholds, -⟩ := hwaits (by simp)
  exact ⟨_, hsame ▸ hholds⟩

end Session

end ScriptCore
