import ScriptCore.Proofs.Scope.Declarations
import ScriptCore.Proofs.Scope.Ownership

/-!
# What is set aside is put back, or superseded as a whole

`Arena.suspendControl` hides what is pending in sight of a scope and touches nothing else
(`Arena.Hides`). However the scopes are used in between, `Arena.restoreControl` then puts everything
back as it was (`Arena.Resumes`), unless something new is pending in sight; then it puts nothing
back.

The scopes at which control state was set aside must be told from others that are made later:
`Arena.Later` compares two arenas by serial numbers, and holds along every run of requests
(`ScopeRequest.run_later`). That control state is put back to the letter needs that nothing but what
is pending is ever kept in it (`Arena.Settled`, `ScopeRequest.run_settled`).
-/

namespace ScriptCore

/-! ## What control state shows -/

namespace Control

/-- What can be read of control state. The value of an activation that has not returned cannot. -/
def shown (c : Control) : Control := if c.isPending then c else c.cleared

theorem shown_of_isPending {c : Control} (h : c.isPending = true) : c.shown = c := if_pos h

theorem shown_of_not_isPending {c : Control} (h : c.isPending = false) : c.shown = c.cleared :=
  if_neg (by rw [h]; exact Bool.false_ne_true)

@[simp] theorem shown_looping (flags : LoopFlags) : (looping flags).shown = looping flags := by
  obtain ⟨broken, paused⟩ := flags
  cases broken <;> cases paused <;> rfl

@[simp] theorem shown_selecting (state : CaseState) :
    (selecting state).shown = selecting state := by
  obtain ⟨fallthrough, yielded⟩ := state
  cases fallthrough <;> cases yielded <;> rfl

@[simp] theorem shown_catching (exception : Option Pending) :
    (catching exception).shown = catching exception := by
  cases exception <;> rfl

@[simp] theorem shown_cleared (c : Control) : c.cleared.shown = c.cleared := by
  cases c <;> rfl

theorem shown_mapRefs {c : Control} (h : c.shown = c) (f : Ref → Ref) :
    (c.mapRefs f).shown = c.mapRefs f := by
  cases c with
  | returning state =>
    obtain ⟨returned, value⟩ := state
    cases returned with
    | true => rfl
    | false =>
      cases h
      rfl
  | _ => simp [mapRefs]

end Control

/-- The control state of a new scope of this kind. -/
def ScopeKind.blank? : ScopeKind → Option Control
  | global | attempt | thread => some (.catching none)
  | function | method => some (.returning {})
  | loop | titledLoop => some (.looping {})
  | select => some (.selecting {})
  | module | instance_ | block => none

/-- All that is in the control state is to be read. -/
def ScopeState.Settled (s : ScopeState) : Prop := ∀ ⦃c⦄, s.control? = some c → c.shown = c

namespace Scope

theorem map_cleared_control? (s : Scope) : s.control?.map Control.cleared = s.kind.blank? := by
  unfold control? kind
  cases s.state with
  | loop title flags => cases title <;> rfl
  | _ => rfl

/-- The same scope has control state of the same kind at all times. -/
theorem Kin.exists_control {s s' : Scope} (h : s.Kin s') {c : Control} (hc : s.control? = some c) :
    ∃ c', s'.control? = some c' ∧ c'.cleared = c.cleared := by
  have hcleared := s'.map_cleared_control?
  rw [h.kind, ← s.map_cleared_control?, hc, Option.map_some] at hcleared
  exact Option.map_eq_some_iff.mp hcleared

/-- Control state that is not of the kind that the scope owns is not put there. -/
theorem control?_setControl_or (s : Scope) (k : Control) :
    (s.setControl k).control? = some k ∨ s.setControl k = s := by
  obtain ⟨state, outer, bindings, namespaces, serial⟩ := s
  cases state <;> cases k <;> first | exact .inl rfl | exact .inr rfl

theorem settled_setControl {s : Scope} (h : s.state.Settled) {k : Control} (hk : k.shown = k) :
    (s.setControl k).state.Settled := by
  intro c hc
  rcases s.control?_setControl_or k with hset | hsame
  · cases hset.symm.trans hc
    exact hk
  · rw [hsame] at hc
    exact h hc

end Scope

namespace Arena

variable {a a' a'' : Arena} {x owner id : ScopeId} {c k : Control}

/-! ## Later arenas -/

/-- The arena `a'` is a later one than `a`: a scope is new or was there before. -/
structure Later (a a' : Arena) : Prop where
  nextSerial_le : a.nextSerial ≤ a'.nextSerial
  orderly : a'.Orderly
  scope : ∀ {x s'}, a'.get? x = some s' →
    a.nextSerial ≤ s'.serial ∨ ∃ s, a.get? x = some s ∧ s.Kin s'

theorem Later.refl (ha : a.Orderly) : a.Later a :=
  ⟨Nat.le_refl _, ha, fun {_ s} hs => .inr ⟨s, hs, .refl s⟩⟩

theorem Later.trans (h : a.Later a') (h' : a'.Later a'') : a.Later a'' where
  nextSerial_le := Nat.le_trans h.nextSerial_le h'.nextSerial_le
  orderly := h'.orderly
  scope hs'' := by
    rcases h'.scope hs'' with hnew | ⟨s', hs', hkin'⟩
    · exact .inl (Nat.le_trans h.nextSerial_le hnew)
    · rcases h.scope hs' with hnew | ⟨s, hs, hkin⟩
      · exact .inl (hkin'.serial ▸ hnew)
      · exact .inr ⟨s, hs, hkin.trans hkin'⟩

theorem Ages.later {floor : Nat} {exceptions : Bool} {f : Ref → Ref}
    (h : Ages floor exceptions f a a') : a.Later a' where
  nextSerial_le := h.nextSerial_le
  orderly := h.orderly
  scope hs' := (h.scope hs').imp_right fun ⟨s, hs, hkin, _⟩ => ⟨s, hs, hkin⟩

theorem later_sweep (ha : a.Orderly) (u : Unreached) : a.Later (a.sweep u) where
  nextSerial_le := (a.frame_sweep u).2.1.ge
  orderly := ha.sweep u
  scope {x s} hs := by
    rw [get?_sweep] at hs
    split at hs
    · cases hs
    · exact .inr ⟨s, hs, .refl s⟩

/-- A scope that is still there has control state of the same kind. -/
theorem Later.exists_control (h : a.Later a') (ha : a.Orderly) {s s' : Scope}
    (hs : a.get? x = some s) (hs' : a'.get? x = some s') (hserial : s'.serial = s.serial)
    (hc : a.control? x = some c) : ∃ c', a'.control? x = some c' ∧ c'.cleared = c.cleared := by
  rw [control?, hs] at hc
  rw [control?, hs']
  rcases h.scope hs' with hnew | ⟨t, ht, hkin⟩
  · have hlt := ha.serial_lt hs
    omega
  · cases hs.symm.trans ht
    exact hkin.exists_control hc

/-! ## Arenas without hidden values -/

/-- All that is in control state, there or set aside, is to be read. -/
structure Settled (a : Arena) : Prop where
  scope : ∀ {x s}, a.get? x = some s → s.state.Settled
  parked : ∀ entry ∈ a.suspended, ∀ p ∈ entry.parked, p.2.shown = p.2

theorem settled_new : Arena.new.Settled where
  scope hs := by
    rw [(get?_new hs).2]
    rintro c ⟨⟩
    rfl
  parked := nofun

namespace Settled

variable (h : a.Settled)
include h

theorem control? (hc : a.control? x = some c) : c.shown = c := by
  obtain ⟨s, hs, hc⟩ := control?_eq_some.mp hc
  exact h.scope hs hc

theorem setSuspended {l : List Suspended} (hl : ∀ entry ∈ l, ∀ p ∈ entry.parked, p.2.shown = p.2) :
    (a.setSuspended l).Settled :=
  ⟨h.scope, hl⟩

theorem modify {g : Scope → Scope} (hg : ∀ s : Scope, s.state.Settled → (g s).state.Settled) :
    (a.modify x g).Settled where
  scope {y s} hs := by
    rw [get?_modify] at hs
    split at hs
    · obtain ⟨t, ht, rfl⟩ := Option.map_eq_some_iff.mp hs
      exact hg t (h.scope ht)
    · exact h.scope hs
  parked := h.parked

theorem setControl (hk : k.shown = k) : (a.setControl x k).Settled :=
  h.modify fun _ hs => Scope.settled_setControl hs hk

theorem foldl_setControl (g : Control → Control) (parked : List (ScopeId × Control))
    (hparked : ∀ p ∈ parked, (g p.2).shown = g p.2) :
    (parked.foldl (fun a p => a.setControl p.1 (g p.2)) a).Settled := by
  induction parked generalizing a with
  | nil => exact h
  | cons p rest ih =>
    refine ih (h.setControl (hparked p List.mem_cons_self)) fun q hq => ?_
    exact hparked q (List.mem_cons_of_mem p hq)

theorem suspendControl (id : ScopeId) : (a.suspendControl id).Settled := by
  rw [suspendControl_eq]
  refine (h.foldl_setControl Control.cleared _ fun p _ => p.2.shown_cleared).setSuspended
    fun entry hentry p hp => ?_
  rcases List.mem_cons.mp hentry with rfl | hentry
  · exact Control.shown_of_isPending (mem_pendingAt_iff.mp hp).2.2
  · exact h.parked entry hentry p hp

theorem restoreControl : a.restoreControl.Settled := by
  have hparked := h.parked
  unfold Arena.restoreControl
  cases hsuspended : a.suspended with
  | nil => exact h
  | cons entry rest =>
    rw [hsuspended] at hparked
    have hrest : (a.setSuspended rest).Settled :=
      h.setSuspended fun other hother => hparked other (List.mem_cons_of_mem entry hother)
    dsimp only
    split
    · exact hrest
    · exact hrest.foldl_setControl (fun c => c) entry.parked (hparked entry List.mem_cons_self)

end Settled

end Arena

/-! ## What requests do to the scopes -/

namespace ScopeRequest

/-- What may become of the scopes when a request is carried out. -/
inductive Changes (request : ScopeRequest) (a : Arena) : Arena → Prop
  | same : Changes request a a
  | create {state : ScopeState} {outer : Option ScopeId} (h : request = .create state outer) :
      Changes request a (a.create state outer).2
  | rebound {a' : Arena} (h : a.Rebound a') : Changes request a a'
  /-- The new control state has no values that are not to be read, unless the old one has. -/
  | control {owner : ScopeId} {c k : Control} (hc : a.control? owner = some c)
      (hk : c.shown = c → k.shown = k) : Changes request a (a.setControl owner k)
  | suspend (id : ScopeId) : Changes request a (a.suspendControl id)
  | restore : Changes request a a.restoreControl
  | sweep (u : Unreached) : Changes request a (a.sweep u)
  | move (f : Ref → Ref) : Changes request a (a.mapRefs f)

variable {request : ScopeRequest} {a a' : Arena}

theorem Changes.orKeep {result : Except Fault Arena}
    (h : ∀ {a'}, result = .ok a' → Changes request a a') :
    Changes request a (a.orKeep result) := by
  cases result with
  | ok a' => exact h rfl
  | error _ => exact .same

theorem Changes.raise {x : ScopeId} {signal : Signal} {g : Control → Control}
    (hg : ∀ c, c.shown = c → (g c).shown = g c) :
    Changes request a (a.orKeep (a.raise x signal g)) := by
  refine .orKeep fun h => ?_
  obtain ⟨owner, -, h⟩ := Memory.bind_eq_ok.mp h
  cases h
  split
  · exact .control ‹_› (hg _)
  · exact .same

theorem shown_mapFlags (f : LoopFlags → LoopFlags) (c : Control) (h : c.shown = c) :
    (Arena.mapFlags f c).shown = Arena.mapFlags f c := by
  cases c <;> simp_all [Arena.mapFlags]

theorem shown_mapCase (f : CaseState → CaseState) (c : Control) (h : c.shown = c) :
    (Arena.mapCase f c).shown = Arena.mapCase f c := by
  cases c <;> simp_all [Arena.mapCase]

theorem apply_changes (request : ScopeRequest) (s : Memory × Arena) :
    Changes request s.2 (request.apply s).2 := by
  obtain ⟨m, a⟩ := s
  cases request with
  | create state outer => exact .create rfl
  | defineVar _ _ _ | defineConst _ _ _ | defineField _ _ _ _ =>
    exact .orKeep fun h => .rebound (Arena.rebound_defineField h)
  | assign _ _ _ => exact .orKeep fun h => .rebound (Arena.rebound_assign h)
  | assignMember _ _ _ => exact .orKeep fun h => .rebound (Arena.rebound_assignMember h)
  | bindSuper _ _ =>
    refine .orKeep fun h => ?_
    obtain ⟨scope, -, h⟩ := Memory.bind_eq_ok.mp h
    obtain ⟨-, -, h⟩ := Memory.bind_eq_ok.mp h
    exact .rebound (Arena.rebound_defineField h)
  | attachNamespace _ _ => exact .orKeep fun h => .rebound (Arena.rebound_attachNamespace h)
  | setReturn _ _ => exact .raise fun _ _ => rfl
  | throwException _ _ => exact .raise fun _ _ => rfl
  | breakLoop _ _ | pauseLoop _ _ | resumeLoop _ => exact .raise (shown_mapFlags _)
  | fallthrough _ | yieldValue _ _ => exact .raise (shown_mapCase _)
  | takeReturn id =>
    unfold apply Arena.takeReturn
    dsimp only
    split
    · rename_i v hv
      unfold Arena.returnValue at hv
      split at hv
      · exact .control ‹_› fun _ => rfl
      · cases hv
    · exact .same
  | takeException id =>
    unfold apply Arena.takeException
    dsimp only
    split
    · exact .control (Arena.owns_of_caught ‹_›).2 fun _ => rfl
    · exact .same
  | takeFallthrough _ | takeYield _ =>
    refine .orKeep fun h => ?_
    obtain ⟨v, h⟩ := Arena.exists_of_map_snd h
    obtain ⟨s, hs, h⟩ := Memory.bind_eq_ok.mp h
    split at h
    · cases h
      exact .control (Arena.control?_eq_some.mpr ⟨s, Arena.get_eq_ok.mp hs, ‹_›⟩)
        fun _ => Control.shown_selecting _
    · cases h
  | suspendControl id => exact .suspend id
  | restoreControl => exact .restore
  | collect extra => exact .sweep _
  | compact => exact .move _
  | memory _ => exact .same

/-- Scopes are told by their serial numbers after a request. -/
theorem Changes.later (h : Changes request a a') (ha : a.Orderly) : a.Later a' := by
  have htends : ∀ {b}, a.Tends b → a.Later b := fun ⟨⟨f, hages⟩, _⟩ => hages.later
  cases h with
  | same => exact .refl ha
  | create _ => exact htends (Arena.tends_create ha _ _)
  | rebound h => exact htends (h.tends ha)
  | @control owner _ k _ _ =>
    have hages : Arena.Ages 0 false id a (a.setControl owner k) :=
      Arena.ages_setControl ha (a.young_zero owner).loose k
    exact hages.later
  | suspend id => exact htends (Arena.tends_suspendControl ha id)
  | restore => exact htends (Arena.tends_restoreControl ha)
  | sweep u => exact Arena.later_sweep ha u
  | move f => exact htends (Arena.tends_mapRefs ha f)

theorem run_later (requests : List ScopeRequest) {s : Memory × Arena} (hs : s.2.Orderly) :
    s.2.Later (run requests s).2 := by
  induction requests generalizing s with
  | nil => exact .refl hs
  | cons request rest ih =>
    have hfirst := (request.apply_changes s).later hs
    exact hfirst.trans (ih hfirst.orderly)

/-- A request leaves no value that is not to be read, unless it makes a scope with one. -/
theorem Changes.settled (h : Changes request a a') (ha : a.Orderly) (hsettled : a.Settled)
    (hcreate : ∀ {state outer}, request = .create state outer → state.Settled) : a'.Settled := by
  cases h with
  | same => exact hsettled
  | @create state outer hrequest =>
    refine ⟨fun hs => ?_, ?_⟩
    · rcases ha.eq_of_get?_create hs with ⟨-, rfl⟩ | hs
      · exact hcreate hrequest
      · exact hsettled.scope hs
    · rw [(a.frame_create state outer).2]
      exact hsettled.parked
  | rebound h =>
    obtain ⟨x, g, hg, rfl⟩ := h
    refine hsettled.modify fun s hs c hc => hs ?_
    exact (hg s).2.symm.trans hc
  | control hc hk => exact hsettled.setControl (hk (hsettled.control? hc))
  | suspend id => exact hsettled.suspendControl id
  | restore => exact hsettled.restoreControl
  | sweep u =>
    refine ⟨fun hs => ?_, ?_⟩
    · rw [Arena.get?_sweep] at hs
      split at hs
      · cases hs
      · exact hsettled.scope hs
    · rw [(a.frame_sweep u).2.2]
      exact hsettled.parked
  | move f =>
    refine ⟨fun {x s} hs c hc => ?_, fun entry hentry p hp => ?_⟩
    · rw [Arena.get?_mapRefs] at hs
      obtain ⟨t, ht, rfl⟩ := Option.map_eq_some_iff.mp hs
      obtain ⟨k, hk, rfl⟩ := Option.map_eq_some_iff.mp ((t.control?_mapRefs f).symm.trans hc)
      exact Control.shown_mapRefs (hsettled.scope ht hk) f
    · obtain ⟨other, hother, rfl⟩ := List.mem_map.mp hentry
      obtain ⟨q, hq, rfl⟩ := List.mem_map.mp hp
      exact Control.shown_mapRefs (hsettled.parked other hother q hq) f

theorem run_settled (requests : List ScopeRequest) {s : Memory × Arena} (hs : s.2.Orderly)
    (hsettled : s.2.Settled)
    (hcreate : ∀ {state outer}, .create state outer ∈ requests → state.Settled) :
    (run requests s).2.Settled := by
  induction requests generalizing s with
  | nil => exact hsettled
  | cons request rest ih =>
    have hchanges := request.apply_changes s
    refine ih (hchanges.later hs).orderly (hchanges.settled hs hsettled ?_) fun hmem => ?_
    · rintro state outer rfl
      exact hcreate List.mem_cons_self
    · exact hcreate (List.mem_cons_of_mem request hmem)

end ScopeRequest

namespace Arena

variable {a a' b : Arena} {x owner id : ScopeId} {c : Control}

/-! ## What is in sight -/

theorem Alike.encloses (h : a.Alike a') (ho : a.Encloses owner x) : a'.Encloses owner x := by
  induction ho with
  | here hs hj =>
    obtain ⟨s', hs', halike⟩ := h.exists_get? hs
    exact .here hs' (halike.ownsJumps.trans hj)
  | outward hs hm ho _ ih =>
    obtain ⟨s', hs', halike⟩ := h.exists_get? hs
    exact .outward hs' (halike.isMain.trans hm) (halike.outer.trans ho) ih

theorem Alike.sees_iff (h : a.Alike a') : a'.Sees id owner ↔ a.Sees id owner := by
  rw [Sees, Sees, h.owns_iff, h.owns_iff]
  exact or_congr_right (or_congr_right ⟨h.symm.encloses, h.encloses⟩)

theorem Sees.exists_control (h : a.Sees id owner) : ∃ c, a.control? owner = some c := by
  rcases h with howns | howns | hencloses
  · exact howns.exists_control.imp fun _ hc => hc.1
  · exact howns.exists_control.imp fun _ hc => hc.1
  · induction hencloses with
    | here hs hj =>
      simp only [control?, hs, Option.bind_some, Scope.control?]
      rcases ownsJumps_eq_true_iff.mp hj with ⟨title, flags, hstate⟩ | ⟨state, hstate⟩
      · exact ⟨.looping flags, by rw [hstate]; rfl⟩
      · exact ⟨.selecting state, by rw [hstate]; rfl⟩
    | outward _ _ _ _ ih => exact ih

/-! ## Control state at many scopes -/

/-- Control state has been put at the scopes of a list, which lists it once for each scope. -/
theorem get?_foldl_setControl (g : Control → Control) (parked : List (ScopeId × Control))
    (hsame : ∀ p ∈ parked, p.1 = x → p.2 = c) :
    (parked.foldl (fun a p => a.setControl p.1 (g p.2)) a).get? x =
      if x ∈ parked.map Prod.fst then (a.get? x).map (Scope.setControl (g c)) else a.get? x := by
  induction parked generalizing a with
  | nil => rfl
  | cons p rest ih =>
    rw [List.foldl_cons, ih fun q hq => hsame q (List.mem_cons_of_mem p hq), get?_setControl,
      List.map_cons]
    by_cases hp : x = p.1
    · subst hp
      obtain rfl := hsame p List.mem_cons_self rfl
      rw [if_pos rfl, if_pos List.mem_cons_self, Option.map_map]
      split
      · exact congrArg (Option.map · _) (funext fun s => s.setControl_idem _ _ rfl)
      · rfl
    · rw [if_neg hp]
      simp only [List.mem_cons, hp, false_or]

theorem mem_map_pendingAt_iff {owners : List ScopeId} : x ∈ (a.pendingAt owners).map Prod.fst ↔
    x ∈ owners ∧ ∃ c, a.control? x = some c ∧ c.isPending = true := by
  simp only [List.mem_map, Prod.exists, mem_pendingAt_iff, exists_and_right, exists_eq_right,
    exists_and_left]

/-- Where something is pending, it is what is listed. -/
theorem get?_foldl_pendingAt_of_isPending (g : Control → Control) {owners : List ScopeId}
    (hx : x ∈ owners) (hc : a.control? x = some c) (hp : c.isPending = true) :
    ((a.pendingAt owners).foldl (fun a p => a.setControl p.1 (g p.2)) b).get? x =
      (b.get? x).map (Scope.setControl (g c)) := by
  rw [get?_foldl_setControl g (c := c), if_pos (mem_map_pendingAt_iff.mpr ⟨hx, c, hc, hp⟩)]
  rintro ⟨y, k⟩ hy rfl
  exact Option.some.inj ((mem_pendingAt_iff.mp hy).2.1.symm.trans hc)

/-- Where nothing is pending, nothing is listed. -/
theorem get?_foldl_pendingAt_of_not_isPending (g : Control → Control) {owners : List ScopeId}
    (h : x ∈ owners → ∀ c, a.control? x = some c → c.isPending = false) :
    ((a.pendingAt owners).foldl (fun a p => a.setControl p.1 (g p.2)) b).get? x = b.get? x := by
  have hnot : x ∉ (a.pendingAt owners).map Prod.fst := by
    rw [mem_map_pendingAt_iff]
    rintro ⟨hx, c, hc, hp⟩
    rw [h hx c hc] at hp
    cases hp
  rw [get?_foldl_setControl g (c := .catching none), if_neg hnot]
  rintro p hp rfl
  exact absurd (List.mem_map_of_mem hp) hnot

/-- The scopes differ at most in control state after it has been put at some of them. -/
theorem alike_foldl_setControl (a : Arena) (g : Control → Control)
    (parked : List (ScopeId × Control)) :
    a.Alike (parked.foldl (fun a p => a.setControl p.1 (g p.2)) a) := by
  induction parked generalizing a with
  | nil => exact .refl a
  | cons p rest ih => exact (a.alike_setControl p.1 (g p.2)).trans (ih _)

theorem frame_foldl_setControl (a : Arena) (g : Control → Control)
    (parked : List (ScopeId × Control)) :
    let a' := parked.foldl (fun a p => a.setControl p.1 (g p.2)) a
    a' = { a with scopes := a'.scopes } := by
  induction parked generalizing a with
  | nil => rfl
  | cons p rest ih => exact ih (a.setControl p.1 (g p.2))

/-! ## Setting aside and putting back -/

/-- What is pending in sight of `id` has been set aside, and nothing else has happened. -/
structure Hides (a : Arena) (id : ScopeId) (a' : Arena) : Prop where
  interrupted : a'.interrupted id = false
  exception : a'.hasException id = false
  /-- A scope in sight differs in its control state, and only if that was pending. -/
  owners : ∀ owner, a.Sees id owner → ∃ s c, a.get? owner = some s ∧ s.control? = some c ∧
    a'.get? owner = some (if c.isPending then s.setControl c.cleared else s)
  others : ∀ x, ¬ a.Sees id x → a'.get? x = a.get? x
  rest : ∃ entry,
    a' = { a with scopes := a'.scopes, suspended := entry :: a.suspended }

/-- **Setting aside hides what is pending in sight.** -/
theorem hides_suspendControl (a : Arena) (id : ScopeId) : a.Hides id (a.suspendControl id) := by
  have howners : ∀ owner, a.Sees id owner → ∃ s c, a.get? owner = some s ∧ s.control? = some c ∧
      (a.suspendControl id).get? owner =
        some (if c.isPending then s.setControl c.cleared else s) := by
    intro owner hsees
    obtain ⟨c, hc⟩ := hsees.exists_control
    obtain ⟨s, hs, hsc⟩ := control?_eq_some.mp hc
    refine ⟨s, c, hs, hsc, ?_⟩
    split
    · refine (get?_foldl_pendingAt_of_isPending Control.cleared (mem_controlOwners_iff.mpr hsees)
        hc ‹_›).trans ?_
      rw [hs]
      rfl
    · refine (get?_foldl_pendingAt_of_not_isPending Control.cleared fun _ k hk => ?_).trans hs
      cases hc.symm.trans hk
      exact Bool.eq_false_iff.mpr ‹_›
  have halike : a.Alike (a.suspendControl id) := a.alike_foldl_setControl Control.cleared _
  obtain ⟨hinterrupted, hexception⟩ : (a.suspendControl id).interrupted id = false ∧
      (a.suspendControl id).hasException id = false := by
    refine unseen_of_sees fun owner k hsees hk => ?_
    obtain ⟨s, c, -, hsc, hget⟩ := howners owner (halike.sees_iff.mp hsees)
    rw [control?, hget, Option.bind_some] at hk
    split at hk
    · rw [Scope.control?_setControl hsc c.cleared_cleared] at hk
      cases hk
      exact c.isPending_cleared
    · cases hsc.symm.trans hk
      exact Bool.eq_false_iff.mpr ‹_›
  refine ⟨hinterrupted, hexception, howners, fun x hx => ?_,
    ⟨a.controlOwners id, a.pendingAt (a.controlOwners id)⟩, ?_⟩
  · exact get?_foldl_pendingAt_of_not_isPending Control.cleared
      fun hmem => absurd (mem_controlOwners_iff.mp hmem) hx
  · have hframe := a.frame_foldl_setControl Control.cleared (a.pendingAt (a.controlOwners id))
    exact congrArg (·.setSuspended
      (⟨a.controlOwners id, a.pendingAt (a.controlOwners id)⟩ :: a.suspended)) hframe

/-- What was pending in sight of `id` in `a` is pending again, and nothing else has happened since
`b`. -/
structure Resumes (a : Arena) (id : ScopeId) (b b' : Arena) : Prop where
  /-- A scope in sight shows what it showed. -/
  owners : ∀ owner, a.Sees id owner →
    (b'.control? owner).map Control.shown = (a.control? owner).map Control.shown
  /-- It differs at most in its control state. -/
  control : ∀ owner, a.Sees id owner →
    ∃ s k, b.get? owner = some s ∧ b'.get? owner = some (s.setControl k)
  others : ∀ x, ¬ a.Sees id x → b'.get? x = b.get? x
  rest : b' = { b with scopes := b'.scopes, suspended := a.suspended }

/-- **What is pending now supersedes what has been set aside.** -/
theorem restoreControl_of_isPending
    (hsuspended : b.suspended =
      ⟨a.controlOwners id, a.pendingAt (a.controlOwners id)⟩ :: a.suspended)
    (hsees : a.Sees id owner) (hc : b.control? owner = some c) (hpending : c.isPending = true) :
    b.restoreControl = { b with suspended := a.suspended } := by
  have hsome : (a.controlOwners id).any b.hasControl = true :=
    any_hasControl_iff.mpr ⟨owner, mem_controlOwners_iff.mpr hsees, c, hc, hpending⟩
  have hcons := b.restoreControl_cons
    ⟨a.controlOwners id, a.pendingAt (a.controlOwners id)⟩ a.suspended
  rw [← hsuspended, if_pos hsome] at hcons
  exact hcons

/-- **What has been set aside is put back**, if its scopes are there and nothing is pending at
them. -/
theorem resumes_restoreControl
    (hsuspended : b.suspended =
      ⟨a.controlOwners id, a.pendingAt (a.controlOwners id)⟩ :: a.suspended)
    (hkept : ∀ owner c, a.Sees id owner → a.control? owner = some c →
      ∃ c', b.control? owner = some c' ∧ c'.cleared = c.cleared)
    (hquiet : ∀ owner c, a.Sees id owner → b.control? owner = some c → c.isPending = false) :
    a.Resumes id b b.restoreControl := by
  have hnone : (a.controlOwners id).any b.hasControl = false := by
    rw [← Bool.not_eq_true, any_hasControl_iff]
    rintro ⟨owner, howner, c, hc, hpending⟩
    rw [hquiet owner c (mem_controlOwners_iff.mp howner) hc] at hpending
    cases hpending
  have hrestore : b.restoreControl = (a.pendingAt (a.controlOwners id)).foldl
      (fun a p => a.setControl p.1 p.2) (b.setSuspended a.suspended) := by
    have hcons := b.restoreControl_cons
      ⟨a.controlOwners id, a.pendingAt (a.controlOwners id)⟩ a.suspended
    rw [← hsuspended, if_neg (by rw [hnone]; exact Bool.false_ne_true)] at hcons
    exact hcons
  rw [hrestore]
  -- each scope in sight has the control state that was set aside, or else the one that it has now
  have howner : ∀ owner, a.Sees id owner → ∃ c s k, a.control? owner = some c ∧
      b.get? owner = some s ∧ ((a.pendingAt (a.controlOwners id)).foldl
        (fun a p => a.setControl p.1 p.2) (b.setSuspended a.suspended)).get? owner
          = some (s.setControl k) ∧ (s.setControl k).control? = some k ∧ k.shown = c.shown := by
    intro owner hsees
    obtain ⟨c, hc⟩ := hsees.exists_control
    obtain ⟨c', hc', hcleared⟩ := hkept owner c hsees hc
    obtain ⟨s, hs, hsc⟩ := control?_eq_some.mp hc'
    cases hpending : c.isPending with
    | true =>
      refine ⟨c, s, c, hc, hs, ?_, Scope.control?_setControl hsc hcleared.symm, rfl⟩
      refine (get?_foldl_pendingAt_of_isPending (fun c => c) (mem_controlOwners_iff.mpr hsees) hc
        hpending).trans ?_
      exact congrArg (Option.map (Scope.setControl c)) hs
    | false =>
      have hsame : s.setControl c' = s := by
        unfold Scope.setControl
        rw [ScopeState.setControl_control? s.state hsc]
      refine ⟨c, s, c', hc, hs, ?_, by rw [hsame, hsc], ?_⟩
      · rw [hsame]
        refine (get?_foldl_pendingAt_of_not_isPending (fun c => c) fun _ k hk => ?_).trans hs
        cases hc.symm.trans hk
        exact hpending
      · rw [Control.shown_of_not_isPending (hquiet owner c' hsees hc'),
          Control.shown_of_not_isPending hpending, hcleared]
  refine ⟨fun owner hsees => ?_, fun owner hsees => ?_, fun x hx => ?_, ?_⟩
  · obtain ⟨c, s, k, hc, -, hget, hk, hshown⟩ := howner owner hsees
    rw [hc, control?, hget, Option.bind_some, hk, Option.map_some, Option.map_some, hshown]
  · obtain ⟨c, s, k, -, hs, hget, -⟩ := howner owner hsees
    exact ⟨s, k, hs, hget⟩
  · exact get?_foldl_pendingAt_of_not_isPending (fun c => c)
      fun hmem => absurd (mem_controlOwners_iff.mp hmem) hx
  · exact (b.setSuspended a.suspended).frame_foldl_setControl (fun c => c) _

end Arena

/-- **What is set aside for a final block is put back or superseded as a whole.** Take any run of
requests on new scopes, set aside what is pending in sight of `id`, and go on with any requests that
reclaim no scope and leave what has been set aside. Putting back then changes no scope if something
is pending in sight. Otherwise every scope in sight shows what it showed, and has the very control
state it had unless a scope was made with a value that is not to be read. -/
theorem suspended_control_resumes (m : Memory) (before : List ScopeRequest) (id : ScopeId) :
    let s := ScopeRequest.run before (m, Arena.new)
    let a := s.2
    let hidden := a.suspendControl id
    a.Hides id hidden ∧ ∀ between : List ScopeRequest,
      let b := (ScopeRequest.run between (s.1, hidden)).2
      b.suspended = hidden.suspended →
      (∀ x t, hidden.get? x = some t → ∃ t', b.get? x = some t' ∧ t'.serial = t.serial) →
      ((∃ owner c, a.Sees id owner ∧ b.control? owner = some c ∧ c.isPending = true) →
        b.restoreControl = { b with suspended := a.suspended }) ∧
      ((∀ owner c, a.Sees id owner → b.control? owner = some c → c.isPending = false) →
        a.Resumes id b b.restoreControl ∧
        ((∀ state outer, .create state outer ∈ before ++ between → state.Settled) →
          ∀ owner, a.Sees id owner → b.restoreControl.control? owner = a.control? owner)) := by
  intro s a hidden
  have ha : a.Orderly :=
    (ScopeRequest.run_later before (s := (m, Arena.new)) Arena.orderly_new).orderly
  have hhides : a.Hides id hidden := a.hides_suspendControl id
  have hhidden : a.Later hidden := ((ScopeRequest.suspendControl id).apply_changes s).later ha
  refine ⟨hhides, ?_⟩
  intro between b hsuspended hkept
  have hlater : hidden.Later b := ScopeRequest.run_later between (s := (s.1, hidden))
    hhidden.orderly
  refine ⟨?_, fun hquiet => ?_⟩
  · rintro ⟨owner, c, hsees, hc, hpending⟩
    exact Arena.restoreControl_of_isPending hsuspended hsees hc hpending
  · have hresumes : a.Resumes id b b.restoreControl := by
      refine Arena.resumes_restoreControl hsuspended (fun owner c hsees hc => ?_) hquiet
      obtain ⟨t, k, ht, -, hget⟩ := hhides.owners owner hsees
      obtain ⟨t', ht', hserial⟩ := hkept owner _ hget
      refine (hhidden.trans hlater).exists_control ha ht ht' (hserial.trans ?_) hc
      split <;> rfl
    refine ⟨hresumes, fun hcreate owner hsees => ?_⟩
    have hsettled : a.Settled := ScopeRequest.run_settled before (s := (m, Arena.new))
      Arena.orderly_new Arena.settled_new fun hmem => hcreate _ _ (List.mem_append_left _ hmem)
    have hsettled' : b.Settled := ScopeRequest.run_settled between (s := (s.1, hidden))
      hhidden.orderly (hsettled.suspendControl id)
      fun hmem => hcreate _ _ (List.mem_append_right _ hmem)
    obtain ⟨c, hc⟩ := hsees.exists_control
    have hshown := hresumes.owners owner hsees
    rw [hc, Option.map_some, hsettled.control? hc] at hshown
    obtain ⟨k, hk, rfl⟩ := Option.map_eq_some_iff.mp hshown
    rw [hc, hk, hsettled'.restoreControl.control? hk]

/-- A return, a break of the loop around and an exception are pending at once, in a block of a `try`
statement. -/
def allPending : List ScopeRequest :=
  [.create (.function (some ⟨0⟩) {}) (some ⟨0⟩), .create (.loop (some "rows") {}) (some ⟨1⟩),
    .create (.attempt none) (some ⟨2⟩), .create .block (some ⟨3⟩), .setReturn ⟨4⟩ (.bool true),
    .breakLoop ⟨4⟩ (some "rows"), .throwException ⟨4⟩ ⟨.null, []⟩]

/-- A final block that cuts an iteration short and runs another final block, before the loop goes
on. -/
def finalBlock : List ScopeRequest :=
  [.pauseLoop ⟨4⟩ none, .suspendControl ⟨4⟩, .restoreControl, .resumeLoop ⟨4⟩]

/-- The scopes when the final block starts. -/
def beforeFinal : Arena :=
  (ScopeRequest.run allPending (Memory.new 8 false, Arena.new)).2.suspendControl ⟨4⟩

/-- The scopes when the final block has ended. -/
def afterFinal : Arena := (ScopeRequest.run finalBlock (Memory.new 8 false, beforeFinal)).2

theorem afterFinal_keeps (x : ScopeId) (t : Scope) (ht : beforeFinal.get? x = some t) :
    ∃ t', afterFinal.get? x = some t' ∧ t'.serial = t.serial := by
  obtain ⟨i⟩ := x
  rcases i with _ | _ | _ | _ | _ | i
  on_goal 6 => cases (Arena.get?_eq_none_of_size_le (Nat.le_add_left 5 i)).symm.trans ht
  all_goals
    cases ht
    exact ⟨_, rfl, rfl⟩

theorem afterFinal_quiet (owner : ScopeId) (c : Control) (hc : afterFinal.control? owner = some c) :
    c.isPending = false := by
  obtain ⟨i⟩ := owner
  rcases i with _ | _ | _ | _ | _ | i
  on_goal 6 =>
    rw [Arena.control?, Arena.get?_eq_none_of_size_le (Nat.le_add_left 5 i)] at hc
  all_goals cases hc <;> rfl

/-- All that was pending is pending again after the final block. -/
theorem suspended_control_resumes_allPending :
    afterFinal.restoreControl.control? ⟨1⟩ = some (.returning ⟨true, .bool true⟩) ∧
      afterFinal.restoreControl.control? ⟨2⟩ = some (.looping { broken := true }) ∧
      afterFinal.restoreControl.control? ⟨3⟩ = some (.catching (some ⟨.null, []⟩)) := by
  obtain ⟨-, hrest⟩ := suspended_control_resumes (Memory.new 8 false) allPending ⟨4⟩
  obtain ⟨-, hback⟩ :=
    (hrest finalBlock rfl afterFinal_keeps).2 fun owner c _ hc => afterFinal_quiet owner c hc
  have hsame := hback fun state outer hmem => by
    simp only [allPending, finalBlock, List.cons_append, List.nil_append, List.mem_cons,
      ScopeRequest.create.injEq, reduceCtorEq, List.not_mem_nil, or_false] at hmem
    rcases hmem with ⟨rfl, -⟩ | ⟨rfl, -⟩ | ⟨rfl, -⟩ | ⟨rfl, -⟩ <;> rintro c ⟨⟩ <;> rfl
  refine ⟨hsame ⟨1⟩ (.inl ?_), hsame ⟨2⟩ (.inr (.inr ?_)), hsame ⟨3⟩ (.inr (.inl ?_))⟩
  · exact .pass rfl rfl (.pass rfl rfl (.pass rfl rfl (.here rfl rfl)))
  · exact .outward rfl rfl rfl (.outward rfl rfl rfl (.here rfl rfl))
  · exact .pass rfl rfl (.here rfl rfl)

end ScriptCore
