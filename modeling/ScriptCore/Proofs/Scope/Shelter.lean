import ScriptCore.Proofs.Scope.Succession
import ScriptCore.Proofs.Scope.Suspension

/-!
# Old scopes out of reach

Scopes made from the serial number `floor` on are young. In an arena that `Arena.Shields` old
scopes, a signal that leaves the young scopes comes to its end at once: it gets to a scope that does
not take it and has nowhere to hand it on. Exceptions are left out unless they count. So what is
raised, taken or set aside from a young scope changes the control state of young scopes only, or of
scopes that catch exceptions if these do not count (`Arena.Loose`).

A shielded arena stays so when it ages, as long as the scopes that are made are linked to young ones
(`Arena.Ages.shields`, `Arena.Shields.create`).
-/

namespace ScriptCore.Arena

variable {floor : Nat} {exceptions : Bool} {f : Ref → Ref} {a a' : Arena} {x owner : ScopeId}
  {signal : Signal}

/-! ## Young scopes -/

/-- The scope at `x`, if there is one, is young. -/
def Young (floor : Nat) (a : Arena) (x : ScopeId) : Prop :=
  ∀ ⦃s⦄, a.get? x = some s → floor ≤ s.serial

/-- A signal at `x` is at a young scope or at its end. -/
def Sheltered (floor : Nat) (signal : Signal) (a : Arena) (x : ScopeId) : Prop :=
  ∀ ⦃s⦄, a.get? x = some s → floor ≤ s.serial ∨ s.isMain = true ∧ s.route signal = .passes none

/-- The control state at `x` need not be kept. -/
def Loose (floor : Nat) (exceptions : Bool) (a : Arena) (x : ScopeId) : Prop :=
  ∀ ⦃s⦄, a.get? x = some s → ¬ s.Spared floor exceptions

/-- A signal that leaves the young scopes comes to its end. -/
def Shields (floor : Nat) (exceptions : Bool) (a : Arena) : Prop :=
  ∀ ⦃x s⦄, a.get? x = some s → floor ≤ s.serial → ∀ ⦃signal next⦄,
    (exceptions = true ∨ signal ≠ .throwing) → s.route signal = .passes (some next) →
      a.Sheltered floor signal next

theorem Young.sheltered (h : a.Young floor x) : a.Sheltered floor signal x :=
  fun _ hs => .inl (h hs)

theorem Young.loose (h : a.Young floor x) : a.Loose floor exceptions x := by
  intro s hs hspared
  exact Nat.not_lt.mpr (h hs) hspared.1

/-- All scopes are young from the start. -/
theorem young_zero (a : Arena) (x : ScopeId) : a.Young 0 x := fun _ _ => Nat.zero_le _

theorem shields_zero (exceptions : Bool) (a : Arena) : a.Shields 0 exceptions :=
  fun _ _ _ _ _ _ _ _ => (a.young_zero _).sheltered

/-- There are no young scopes yet. -/
theorem Orderly.shields (h : a.Orderly) (exceptions : Bool) :
    a.Shields a.nextSerial exceptions := by
  intro x s hs hle
  exact absurd (h.serial_lt hs) (Nat.not_lt.mpr hle)

/-- An outermost scope ends all signals but exceptions. -/
theorem sheltered_of_global (h : ∀ {s}, a.get? x = some s → s.kind = .global)
    (ht : signal ≠ .throwing) : a.Sheltered floor signal x := by
  intro s hs
  have hkind := h hs
  refine .inr ⟨by rw [Scope.isMain, hkind]; rfl, ?_⟩
  unfold Scope.kind at hkind
  cases hstate : s.state with
  | global exception => cases signal <;> simp_all [Scope.route]
  | loop title flags => cases title <;> simp [hstate, ScopeState.kind] at hkind
  | _ => simp [hstate, ScopeState.kind] at hkind

/-! ## Whom a young scope reaches -/

section Reach

variable (h : a.Shields floor exceptions)
include h

theorem Shields.young_of_owns (hsignal : exceptions = true ∨ signal ≠ .throwing)
    (howns : a.Owns signal owner x) (hx : a.Sheltered floor signal x) : a.Young floor owner := by
  induction howns with
  | here hs hroute =>
    intro s hs'
    rcases hx hs' with hle | ⟨-, hend⟩
    · exact hle
    · rw [Option.some.inj (hs.symm.trans hs'), hend] at hroute
      cases hroute
  | pass hs hroute _ ih =>
    rcases hx hs with hle | ⟨-, hend⟩
    · exact ih (h hs hle hsignal hroute)
    · rw [hend] at hroute
      cases hroute

/-- The loops and case constructs around a young scope are found where returns go. -/
theorem Shields.young_of_encloses (hencloses : a.Encloses owner x)
    (hx : a.Sheltered floor .returning x) : a.Young floor owner := by
  induction hencloses with
  | here hs hjumps =>
    intro s hs'
    rcases hx hs' with hle | ⟨hmain, -⟩
    · exact hle
    · rw [← Option.some.inj (hs.symm.trans hs'), isMain_of_ownsJumps hjumps] at hmain
      cases hmain
  | outward hs hmain houter _ ih =>
    rcases hx hs with hle | ⟨hmain', -⟩
    · refine ih (h hs hle (.inr nofun) ?_)
      rw [Scope.route_returning _ hmain, houter]
    · rw [hmain] at hmain'
      cases hmain'

/-- The scope that takes a signal from a young scope may change its control state. -/
theorem Shields.loose_of_owns (howns : a.Owns signal owner x) (hx : a.Young floor x) :
    a.Loose floor exceptions owner := by
  by_cases hsignal : exceptions = true ∨ signal ≠ .throwing
  · exact (h.young_of_owns hsignal howns hx.sheltered).loose
  · -- exceptions do not count here, and the owner of one catches them
    obtain ⟨hoff, rfl⟩ := not_or.mp hsignal |>.imp_right not_not.mp
    obtain ⟨s, hs, hroute⟩ := howns.exists_route
    intro s' hs' hspared
    obtain rfl := Option.some.inj (hs.symm.trans hs')
    exact hspared.2.elim hoff fun hcatches => hcatches hroute

theorem Shields.loose_of_sees (hsees : a.Sees x owner) (hx : a.Young floor x) :
    a.Loose floor exceptions owner := by
  rcases hsees with howns | howns | hencloses
  · exact h.loose_of_owns howns hx
  · exact h.loose_of_owns howns hx
  · exact (h.young_of_encloses hencloses hx.sheltered).loose

end Reach

/-! ## Later arenas -/

namespace Ages

variable (h : Ages floor exceptions f a a') (hfloor : floor ≤ a.nextSerial)
include h hfloor

theorem young (hx : a.Young floor x) : a'.Young floor x := by
  intro s' hs'
  rcases h.scope hs' with hnew | ⟨s, hs, hkin, -⟩
  · exact Nat.le_trans hfloor hnew
  · rw [hkin.serial]
    exact hx hs

theorem sheltered (hx : a.Sheltered floor signal x) : a'.Sheltered floor signal x := by
  intro s' hs'
  rcases h.scope hs' with hnew | ⟨s, hs, hkin, -⟩
  · exact .inl (Nat.le_trans hfloor hnew)
  · rw [hkin.serial, hkin.isMain, hkin.route]
    exact hx hs

theorem loose (hx : a.Loose floor exceptions x) : a'.Loose floor exceptions x := by
  intro s' hs' hspared
  rcases h.scope hs' with hnew | ⟨s, hs, hkin, -⟩
  · exact Nat.not_lt.mpr (Nat.le_trans hfloor hnew) hspared.1
  · refine hx hs ⟨hkin.serial ▸ hspared.1, hspared.2.imp_right fun hcatches => ?_⟩
    unfold Scope.catches at hcatches ⊢
    rwa [hkin.route] at hcatches

/-- A shielded arena stays so if the scopes that have been made are shielded. -/
theorem shields (hshields : a.Shields floor exceptions)
    (hnew : ∀ {x s}, a'.get? x = some s → a.nextSerial ≤ s.serial → ∀ {signal next},
      (exceptions = true ∨ signal ≠ .throwing) → s.route signal = .passes (some next) →
        a'.Sheltered floor signal next) : a'.Shields floor exceptions := by
  intro x s' hs' hle signal next hsignal hroute
  rcases h.scope hs' with hnew' | ⟨s, hs, hkin, -⟩
  · exact hnew hs' hnew' hsignal hroute
  · rw [hkin.serial] at hle
    rw [hkin.route] at hroute
    exact h.sheltered hfloor (hshields hs hle hsignal hroute)

theorem shields_of_nextSerial_eq (hshields : a.Shields floor exceptions)
    (hserial : a'.nextSerial = a.nextSerial) : a'.Shields floor exceptions := by
  refine h.shields hfloor hshields fun {x s'} hs' hle => ?_
  rw [← hserial] at hle
  exact absurd (h.orderly.serial_lt hs') (Nat.not_lt.mpr hle)

end Ages

/-- A scope can be made if its signals are at a young scope or at their end. -/
theorem Shields.create (h : a.Shields floor exceptions) (ha : a.Orderly)
    (hfloor : floor ≤ a.nextSerial) {state : ScopeState} {outer : Option ScopeId}
    (hroute : ∀ {serial signal next}, (exceptions = true ∨ signal ≠ .throwing) →
      Scope.route { state, outer, serial } signal = .passes (some next) →
        a.Sheltered floor signal next) : (a.create state outer).2.Shields floor exceptions := by
  have hages : Ages floor exceptions id a (a.create state outer).2 := ages_create ha state outer
  refine hages.shields hfloor h fun {x s} hs hle signal next hsignal hr => ?_
  rcases ha.eq_of_get?_create hs with ⟨-, rfl⟩ | hs
  · exact hages.sheltered hfloor (hroute hsignal hr)
  · exact absurd (ha.serial_lt hs) (Nat.not_lt.mpr hle)

theorem Orderly.young_create (ha : a.Orderly) (hfloor : floor ≤ a.nextSerial) (state : ScopeState)
    (outer : Option ScopeId) :
    (a.create state outer).2.Young floor (a.create state outer).1 := by
  intro s hs
  rw [(ha.get?_create state outer).2] at hs
  cases hs
  exact hfloor

/-! ## Raising, taking and setting aside -/

/-- At most the control state of `x` or of a scope that takes a signal from `x` is changed. -/
def Signals (x : ScopeId) (a a' : Arena) : Prop :=
  a' = a ∨ ∃ owner c, (owner = x ∨ ∃ signal, a.Owns signal owner x) ∧ a' = a.setControl owner c

theorem signals_raise {g : Control → Control} (h : a.raise x signal g = .ok a') :
    a.Signals x a' := by
  obtain ⟨owner, howner, h⟩ := Memory.bind_eq_ok.mp h
  cases h
  split
  · exact .inr ⟨owner, _, .inr ⟨signal, owner_eq_ok_iff.mp howner⟩, rfl⟩
  · exact .inl rfl

theorem signals_takeReturn (a : Arena) (x : ScopeId) : a.Signals x (a.takeReturn x).2 := by
  unfold takeReturn
  split
  · exact .inr ⟨x, _, .inl rfl, rfl⟩
  · exact .inl rfl

theorem owns_of_caught {pending : Pending} (h : a.caught x = some (owner, pending)) :
    a.Owns .throwing owner x ∧ a.control? owner = some (.catching (some pending)) := by
  unfold caught at h
  split at h
  · cases h
  · rename_i o ho
    split at h
    · cases h
      exact ⟨owner_eq_ok_iff.mp ho, ‹_›⟩
    · cases h

theorem signals_takeException (a : Arena) (x : ScopeId) : a.Signals x (a.takeException x).2 := by
  unfold takeException
  split
  · exact .inr ⟨_, _, .inr ⟨_, (owns_of_caught ‹_›).1⟩, rfl⟩
  · exact .inl rfl

theorem signals_takeFallthrough {flag : Bool} (h : a.takeFallthrough x = .ok (flag, a')) :
    a.Signals x a' := by
  obtain ⟨s, -, h⟩ := Memory.bind_eq_ok.mp h
  split at h
  · cases h
    exact .inr ⟨x, _, .inl rfl, rfl⟩
  · cases h

theorem signals_takeYield {v : Option Value} (h : a.takeYield x = .ok (v, a')) :
    a.Signals x a' := by
  obtain ⟨s, -, h⟩ := Memory.bind_eq_ok.mp h
  split at h
  · cases h
    exact .inr ⟨x, _, .inl rfl, rfl⟩
  · cases h

theorem Signals.frame (h : a.Signals x a') :
    a'.suspended = a.suspended ∧ a'.nextSerial = a.nextSerial := by
  rcases h with rfl | ⟨owner, c, -, rfl⟩
  · exact ⟨rfl, rfl⟩
  · exact ⟨rfl, rfl⟩

theorem stays_setControl (a : Arena) (x : ScopeId) (c : Control) : Stays a (a.setControl x c) :=
  a.stays_modify x fun s => s.kin_setControl c

theorem Signals.stays (h : a.Signals x a') : Stays a a' := by
  rcases h with rfl | ⟨owner, c, -, rfl⟩
  · exact .refl _
  · exact a.stays_setControl owner c

theorem ages_setControl (ha : a.Orderly) (h : a.Loose floor exceptions x) (c : Control) :
    Ages floor exceptions id a (a.setControl x c) :=
  ages_modify ha (fun s => s.kin_setControl c) fun hs hspared => absurd hspared (h hs)

theorem Signals.ages (h : a.Signals x a') (ha : a.Orderly) (hshields : a.Shields floor exceptions)
    (hx : a.Young floor x) : Ages floor exceptions id a a' := by
  rcases h with rfl | ⟨owner, c, howner, rfl⟩
  · exact .refl ha
  · refine ages_setControl ha ?_ c
    rcases howner with rfl | ⟨signal, howns⟩
    · exact hx.loose
    · exact hshields.loose_of_owns howns hx

theorem ages_setSuspended (ha : a.Orderly) (l : List Suspended) :
    Ages floor exceptions id a (a.setSuspended l) := by
  have hsame : Ages floor exceptions id a a := .refl ha
  exact ⟨Nat.le_refl _, rfl, ⟨ha.vacant_nodup, ha.vacant_free, ha.serial_lt⟩, hsame.scope,
    hsame.outer, hsame.outermost⟩

/-- Control state can be set at many scopes where it need not be kept. -/
theorem ages_foldl_setControl (ha : a.Orderly) (g : Control → Control)
    (parked : List (ScopeId × Control)) (hfloor : floor ≤ a.nextSerial)
    (hparked : ∀ p ∈ parked, a.Loose floor exceptions p.1) :
    let a' := parked.foldl (fun a p => a.setControl p.1 (g p.2)) a
    Ages floor exceptions id a a' ∧ Stays a a' ∧ a'.nextSerial = a.nextSerial ∧
      a'.suspended = a.suspended := by
  induction parked generalizing a with
  | nil => exact ⟨.refl ha, .refl a, rfl, rfl⟩
  | cons p parked ih =>
    have hfirst := ages_setControl ha (hparked p List.mem_cons_self) (g p.2)
    obtain ⟨hrest, hstays, hserial, hsuspended⟩ := ih hfirst.orderly hfloor
      fun q hq => hfirst.loose hfloor (hparked q (List.mem_cons_of_mem p hq))
    exact ⟨hfirst.trans hrest, (a.stays_setControl _ _).trans hstays, hserial, hsuspended⟩

/-- Setting aside what can be seen from a young scope leaves what is to be kept, and so will putting
it back. -/
theorem Shields.suspend (h : a.Shields floor exceptions) (ha : a.Orderly)
    (hfloor : floor ≤ a.nextSerial) (hx : a.Young floor x) :
    ∃ s, (a.suspendControl x).suspended = s :: a.suspended ∧
      (∀ p ∈ s.parked, a.Loose floor exceptions p.1) ∧
      Ages floor exceptions id a (a.suspendControl x) ∧ Stays a (a.suspendControl x) ∧
      (a.suspendControl x).nextSerial = a.nextSerial := by
  have hparked : ∀ p ∈ a.pendingAt (a.controlOwners x), a.Loose floor exceptions p.1 := by
    rintro ⟨owner, c⟩ hp
    exact h.loose_of_sees (mem_controlOwners_iff.mp (mem_pendingAt_iff.mp hp).1) hx
  obtain ⟨hages, hstays, hserial, -⟩ := ages_foldl_setControl ha Control.cleared _ hfloor hparked
  exact ⟨⟨a.controlOwners x, a.pendingAt (a.controlOwners x)⟩, rfl, hparked,
    hages.trans (ages_setSuspended hages.orderly _), hstays, hserial⟩

theorem ages_restoreControl (ha : a.Orderly) (hfloor : floor ≤ a.nextSerial) {s : Suspended}
    {rest : List Suspended} (hsuspended : a.suspended = s :: rest)
    (hparked : ∀ p ∈ s.parked, a.Loose floor exceptions p.1) :
    Ages floor exceptions id a a.restoreControl ∧ Stays a a.restoreControl ∧
      a.restoreControl.suspended = rest ∧ a.restoreControl.nextSerial = a.nextSerial := by
  have hpopped : Ages floor exceptions id a (a.setSuspended rest) := ages_setSuspended ha rest
  unfold restoreControl
  rw [hsuspended]
  dsimp only
  split
  · exact ⟨hpopped, .refl a, rfl, rfl⟩
  · obtain ⟨hages, hstays, hserial, hrest⟩ :=
      ages_foldl_setControl hpopped.orderly (fun c => c) s.parked hfloor hparked
    exact ⟨hpopped.trans hages, hstays, hrest, hserial⟩

end ScriptCore.Arena
