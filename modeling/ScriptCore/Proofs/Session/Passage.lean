import ScriptCore.Proofs.Session.Balance

/-!
# From one session to a later one

`Session.Passage` says what becomes of a session in the course of time: the thread requests wait
under their tickets, the scopes are as `Arena.Ages` says, and the references in both follow the
objects. Where an object is now is told by the compactions there have been (`relocate`).
`Session.Trail` goes along a path of sessions: from one to the next there is a compaction, a
collection that spares certain objects, or work during which no object goes or moves. So along a
trail that spares an object its reference, relocated, names the same object.
-/

namespace ScriptCore

/-! ## Tables of requests -/

namespace ThreadTable

variable (t : ThreadTable)

theorem lookup_mapRefs (f : Ref → Ref) (ticket : Nat) :
    (t.mapRefs f).pending.lookup ticket = (t.pending.lookup ticket).map (·.mapRefs f) := by
  unfold mapRefs
  dsimp only
  induction t.pending with
  | nil => rfl
  | cons p rest ih =>
    rw [List.map_cons, List.lookup_cons, List.lookup_cons, ih]
    split <;> rfl

/-- Only the ticket that is taken is gone. -/
theorem lookup_take (ticket other : Nat) : (t.take ticket).2.pending.lookup other =
    if other = ticket then none else t.pending.lookup other := by
  unfold take
  dsimp only
  induction t.pending with
  | nil => simp
  | cons p rest ih =>
    by_cases hp : p.1 = ticket
    · rw [List.filter_cons_of_neg (by simp [hp]), ih, List.lookup_cons]
      split
      · rfl
      · rw [show (other == p.1) = false by simp_all]
    · rw [List.filter_cons_of_pos (by simp [hp]), List.lookup_cons, ih, List.lookup_cons]
      by_cases ho : other = p.1
      · rw [show (other == p.1) = true by simp [ho]]
        simp [ho, hp]
      · rw [show (other == p.1) = false by simp [ho]]

/-- Tickets below the next one are in use, others are not. -/
def Dealt : Prop := ∀ p ∈ t.pending, p.1 < t.nextTicket

variable {t}

theorem mem_pending_of_lookup {ticket : Nat} {request : ThreadRequest}
    (h : t.pending.lookup ticket = some request) : (ticket, request) ∈ t.pending := by
  obtain ⟨before, after, hpending, -⟩ := List.lookup_eq_some_iff.mp h
  rw [hpending]
  exact List.mem_append_right _ List.mem_cons_self

theorem Dealt.lt (h : t.Dealt) {ticket : Nat} {request : ThreadRequest}
    (hrequest : t.pending.lookup ticket = some request) : ticket < t.nextTicket :=
  h _ (mem_pending_of_lookup hrequest)

theorem Dealt.lookup_park (h : t.Dealt) (request : ThreadRequest) (ticket : Nat) :
    (t.park request).pending.lookup ticket =
      if ticket = t.nextTicket then some request else t.pending.lookup ticket := by
  have hnew : t.pending.lookup t.nextTicket = none := by
    cases hold : t.pending.lookup t.nextTicket with
    | none => rfl
    | some _ => exact absurd (h.lt hold) (Nat.lt_irrefl _)
  unfold park
  rw [List.lookup_append]
  by_cases hticket : ticket = t.nextTicket
  · simp [hticket, hnew]
  · rw [if_neg hticket, List.lookup_cons, show (ticket == t.nextTicket) = false by simp [hticket]]
    simp

theorem Dealt.park (h : t.Dealt) (request : ThreadRequest) : (t.park request).Dealt := by
  intro p hp
  rcases List.mem_append.mp hp with hp | hp
  · exact Nat.lt_succ_of_lt (h p hp)
  · rw [List.mem_singleton.mp hp]
    exact Nat.lt_succ_self _

theorem Dealt.take (h : t.Dealt) (ticket : Nat) : (t.take ticket).2.Dealt :=
  fun p hp => h p (List.mem_of_mem_filter hp)

theorem Dealt.mapRefs (h : t.Dealt) (f : Ref → Ref) : (t.mapRefs f).Dealt := by
  intro p hp
  obtain ⟨q, hq, rfl⟩ := List.mem_map.mp hp
  exact h q hq

/-- The requests that wait under tickets that were in use are those of the first table. -/
structure Extends (t t' : ThreadTable) : Prop where
  dealt : t'.Dealt
  nextTicket_le : t.nextTicket ≤ t'.nextTicket
  shared : t'.shared = t.shared
  lookup : ∀ ticket < t.nextTicket, t'.pending.lookup ticket = t.pending.lookup ticket

theorem Extends.refl (h : t.Dealt) : t.Extends t := ⟨h, Nat.le_refl _, rfl, fun _ _ => rfl⟩

theorem Dealt.extends_park (h : t.Dealt) (request : ThreadRequest) :
    t.Extends (t.park request) where
  dealt := h.park request
  nextTicket_le := Nat.le_succ _
  shared := rfl
  lookup ticket hticket := by rw [h.lookup_park, if_neg (Nat.ne_of_lt hticket)]

/-- A request that is parked and taken leaves no trace but its ticket. -/
theorem Dealt.extends_take_park (h : t.Dealt) (request : ThreadRequest) :
    t.Extends ((t.park request).take t.nextTicket).2 where
  dealt := (h.park request).take _
  nextTicket_le := Nat.le_succ _
  shared := rfl
  lookup ticket hticket := by
    rw [lookup_take, if_neg (Nat.ne_of_lt hticket), h.lookup_park, if_neg (Nat.ne_of_lt hticket)]

end ThreadTable

/-! ## Where objects are now -/

/-- Where the object is now that was at `r` before the compactions. -/
def relocate (moves : List Forwarding) (r : Ref) : Ref :=
  moves.foldl (fun r forwarding => forwarding.resolve r) r

@[simp] theorem relocate_nil : relocate [] = id := rfl

theorem relocate_append (moves moves' : List Forwarding) :
    relocate (moves ++ moves') = relocate moves' ∘ relocate moves := by
  funext r
  exact List.foldl_append

namespace Session

open Run

variable {S T U : Session} {kept kept' : Ref → Prop} {moves moves' : List Forwarding}
  {path path' : List Session}

/-- The way from one session to another along a path: `moves` are the compactions there have been,
the first one first, and collections have freed none of the objects `kept`. -/
inductive Trail (kept : Ref → Prop) : List Forwarding → List Session → Session → Session → Prop
  | start (S : Session) : Trail kept [] [] S S
  /-- No object has gone or moved. -/
  | work {moves : List Forwarding} {path : List Session} {S T U : Session}
      (h : Trail kept moves path S T) (hT : T.memory.heap.Persists U.memory.heap) :
      Trail kept moves (path ++ [U]) S U
  /-- Garbage has been collected. -/
  | collect {moves : List Forwarding} {path : List Session} {S T : Session}
      (h : Trail kept moves path S T) (extra : Option ScopeId)
      (hkept : ∀ r, kept r →
        ((T.collected extra).memory.heap.header? (relocate moves r)).isSome = true) :
      Trail kept moves (path ++ [T.collected extra]) S (T.collected extra)
  /-- Objects have been slid together. -/
  | slide {moves : List Forwarding} {path : List Session} {S T : Session}
      (h : Trail kept moves path S T) (hw : T.memory.heap.WellFormed) :
      Trail kept (moves ++ [(compact T.memory T.arena).1]) (path ++ [T.slid]) S T.slid

namespace Trail

/-- What is kept is still there, where it has been moved to. -/
theorem live (h : Trail kept moves path S T) {r : Ref} (hr : kept r)
    (hlive : (S.memory.heap.header? r).isSome = true) :
    (T.memory.heap.header? (relocate moves r)).isSome = true := by
  induction h with
  | start => exact hlive
  | work _ hT ih =>
    obtain ⟨header, hheader⟩ := Option.isSome_iff_exists.mp (ih hlive)
    obtain ⟨header', hheader', -⟩ := hT.header hheader
    exact Option.isSome_iff_exists.mpr ⟨header', hheader'⟩
  | collect _ _ hkept _ => exact hkept r hr
  | slide _ hw ih =>
    obtain ⟨header, hheader⟩ := Option.isSome_iff_exists.mp (ih hlive)
    rw [relocate_append]
    exact Option.isSome_iff_exists.mpr ⟨_, header?_compact_resolve _ hw hheader⟩

theorem relocate_null (h : Trail kept moves path S T) : relocate moves .null = .null := by
  induction h with
  | start => rfl
  | work _ _ ih | collect _ _ _ ih => exact ih
  | slide _ hw ih =>
    rw [relocate_append, Function.comp_apply, ih]
    exact hw.tiled.resolve_null

/-- One way after another. -/
theorem append (h : Trail kept moves path S T) (h' : Trail kept' moves' path' T U)
    (hkept : ∀ r, kept r → kept' (relocate moves r)) :
    Trail kept (moves ++ moves') (path ++ path') S U := by
  induction h' with
  | start =>
    rw [List.append_nil, List.append_nil]
    exact h
  | work _ hU ih =>
    rw [← List.append_assoc]
    exact .work (ih h) hU
  | collect _ extra hkept' ih =>
    rw [← List.append_assoc]
    refine .collect (ih h) extra fun r hr => ?_
    rw [relocate_append]
    exact hkept' _ (hkept r hr)
  | slide _ hw ih =>
    rw [← List.append_assoc, ← List.append_assoc]
    exact .slide (ih h) hw

theorem mono (h : Trail kept moves path S T) (hkept : ∀ r, kept' r → kept r) :
    Trail kept' moves path S T :=
  append (.start S) h hkept

end Trail

/-! ## The passage of time -/

/-- What holds of every session there can be. -/
structure Sane (S : Session) : Prop where
  wellFormed : S.memory.heap.WellFormed
  orderly : S.arena.Orderly
  /-- The outermost scope is there. -/
  outermost : ∃ s, S.arena.get? S.arena.global = some s ∧ s.kind = .global
  dealt : S.threads.Dealt

/-- The object at `r` is named by a request that waits. -/
def Awaited (S : Session) (r : Ref) : Prop :=
  (∃ ticket request v, S.threads.pending.lookup ticket = some request ∧ v ∈ request.values ∧
    v.reference? = some r) ∧ (S.memory.heap.header? r).isSome = true

/-- The path leads from the session `S` to `T`. -/
structure Passage (floor : Nat) (exceptions : Bool) (moves : List Forwarding)
    (path : List Session) (S T : Session) : Prop where
  sane : T.Sane
  trail : Trail S.Awaited moves path S T
  nextTicket_le : S.threads.nextTicket ≤ T.threads.nextTicket
  shared : T.threads.shared = S.threads.shared
  /-- The requests that wait under the old tickets are those that waited. -/
  lookup : ∀ ticket < S.threads.nextTicket, T.threads.pending.lookup ticket =
    (S.threads.pending.lookup ticket).map (·.mapRefs (relocate moves))
  ages : S.arena.Ages floor exceptions (relocate moves) T.arena

variable {floor : Nat} {exceptions : Bool}

theorem sane_new (options : Options) : (Session.new options).Sane where
  wellFormed := Heap.wellFormed_new options.heapSize
  orderly := Arena.orderly_new
  outermost := ⟨_, rfl, rfl⟩
  dealt := nofun

/-- A value that names a live object names it after the object has been moved. -/
theorem reference?_mapRef_of_live {f : Ref → Ref} {v : Value} {r : Ref} (hv : v.reference? = some r)
    {heap : Heap} (hlive : (heap.header? (f r)).isSome = true) :
    (v.mapRef f).reference? = some (f r) := by
  cases v with
  | ref r' =>
    simp only [Value.reference?] at hv
    split at hv
    · cases hv
    · cases hv
      have hnull : (f r).isNull = false := by
        cases h : (f r).isNull with
        | false => rfl
        | true =>
          rw [Ref.isNull_iff.mp h] at hlive
          cases hlive
      simp [Value.mapRef, Value.reference?, hnull]
  | _ => cases hv

theorem Passage.awaited (h : Passage floor exceptions moves path S T) (hS : S.Sane) {r : Ref}
    (hr : S.Awaited r) : T.Awaited (relocate moves r) := by
  have hlive := h.trail.live hr hr.2
  obtain ⟨⟨ticket, request, v, hrequest, hv, href⟩, -⟩ := hr
  refine ⟨⟨ticket, request.mapRefs (relocate moves), v.mapRef (relocate moves), ?_, ?_,
    reference?_mapRef_of_live href hlive⟩, hlive⟩
  · rw [h.lookup ticket (hS.dealt.lt hrequest), hrequest]
    rfl
  · exact List.mem_map_of_mem (f := Value.mapRef (relocate moves)) hv

theorem Passage.trans (h : Passage floor exceptions moves path S T) (hS : S.Sane)
    (h' : Passage floor exceptions moves' path' T U) :
    Passage floor exceptions (moves ++ moves') (path ++ path') S U where
  sane := h'.sane
  trail := h.trail.append h'.trail fun _ hr => h.awaited hS hr
  nextTicket_le := Nat.le_trans h.nextTicket_le h'.nextTicket_le
  shared := h'.shared.trans h.shared
  lookup ticket hticket := by
    rw [h'.lookup ticket (Nat.lt_of_lt_of_le hticket h.nextTicket_le), h.lookup ticket hticket,
      relocate_append, Option.map_map]
    exact congrArg (Option.map · _) (funext fun r => r.mapRefs_mapRefs _ _)
  ages := relocate_append moves moves' ▸ h.ages.trans h'.ages

end Session

end ScriptCore
