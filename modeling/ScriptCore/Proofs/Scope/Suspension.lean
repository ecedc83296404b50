import ScriptCore.Proofs.Scope.Nesting

/-!
# Final blocks and pending signals

What happens to the signal that a `try` statement leaves while its final block runs. Setting aside
hides the signal, so that the block runs as if nothing were pending (`Arena.Records.suspend`).
Putting back brings the signal to light again if the block ends by itself
(`Arena.Parked.restore_none`), and a signal that the block leaves takes its place
(`Arena.Parked.restore_some`).
-/

namespace ScriptCore.Arena

variable {names : List String} {a a' a'' : Arena} {id owner x : ScopeId} {signal : Signal}
  {c k : Control} {mark : Option (Signal × Control)}

/-! ## What has been set aside, and the scopes -/

theorem carries_setSuspended (names : List String) (ha : a.Orderly) (hg : a.Grounded id)
    (l : List Suspended) : Carries names id a (a.setSuspended l) :=
  { Carries.refl names ha hg with orderly := ⟨ha.vacant_nodup, ha.vacant_free, ha.serial_lt⟩ }

theorem Keeps.setSuspended (h : Keeps names id a a') (ha : a.Orderly) (l : List Suspended) :
    Keeps names id (a.setSuspended l) (a'.setSuspended l) := by
  have hg : a.Grounded id := fun y hy => (h.stays hy).imp fun _ ⟨_, hs⟩ => hs.1
  have hthere := carries_setSuspended names ha hg l
  have hback : Carries names id (a.setSuspended l) a :=
    carries_setSuspended names hthere.orderly hthere.grounded a.suspended
  have hafter := carries_setSuspended names h.orderly h.grounded l
  exact ⟨(hback.trans hthere.orderly h.toCarries).trans hthere.orderly hafter, h.control, rfl⟩

theorem Clear.setSuspended (h : a.Clear id) (ha : a.Orderly) (hg : a.Grounded id)
    (l : List Suspended) : (a.setSuspended l).Clear id := by
  intro owner hsees
  rw [(carries_setSuspended [] ha hg l).parallel.sees_iff] at hsees
  exact h owner hsees

theorem Records.setSuspended (h : Records names id mark a a') (ha : a.Orderly) (hg : a.Grounded id)
    (l : List Suspended) : Records names id mark (a.setSuspended l) (a'.setSuspended l) := by
  cases mark with
  | none => exact Keeps.setSuspended h ha l
  | some mark =>
    obtain ⟨owner, ho, hkeeps⟩ := h
    refine ⟨owner, (carries_setSuspended [] ha hg l).parallel.owns_iff.mpr ho, ?_⟩
    exact hkeeps.setSuspended (ha.setControl owner mark.2) l

theorem Records.suspended (h : Records names id mark a a') : a'.suspended = a.suspended := by
  cases mark with
  | none => exact Keeps.suspended h
  | some mark =>
    obtain ⟨owner, -, hkeeps⟩ := h
    exact hkeeps.suspended

/-- What is recorded after something that is kept is recorded after all of it. -/
theorem Records.after (h : Records names id mark a' a'') (hkeeps : Keeps names id a a')
    (ha : a.Orderly) (hmark : ∀ {signal k}, mark = some (signal, k) → k.takes signal = true) :
    Records names id mark a a'' := by
  cases mark with
  | none => exact hkeeps.trans ha h
  | some mark =>
    obtain ⟨owner, ho, hrec⟩ := h
    have ho := hkeeps.parallel.owns_iff.mp ho
    obtain ⟨c, hc, ht⟩ := ho.exists_control
    have hk := Control.cleared_eq_of_takes ht (hmark rfl)
    exact ⟨owner, ho, (hkeeps.setControl ha ho.above hc hk).trans (ha.setControl owner mark.2) hrec⟩

/-! ## Setting aside -/

theorem filterMap_eq_replicate {α β : Type} [DecidableEq α] {f : α → Option β} {x : α} {y : β}
    (l : List α) (hx : f x = some y) (h : ∀ z ∈ l, z ≠ x → f z = none) :
    l.filterMap f = List.replicate (l.count x) y := by
  induction l with
  | nil => rfl
  | cons z rest ih =>
    have ih := ih fun z' hz' => h z' (List.mem_cons_of_mem z hz')
    by_cases hz : z = x
    · subst hz
      rw [List.filterMap_cons_some hx, ih, List.count_cons_self, List.replicate_succ]
    · rw [List.filterMap_cons_none (h z List.mem_cons_self hz), ih, List.count_cons_of_ne hz]

theorem foldl_setControl (a : Arena) (f : Control → Control) (n : Nat) (x : ScopeId) (k : Control) :
    (List.replicate (n + 1) (x, k)).foldl
      (fun a (owner, control) => a.setControl owner (f control)) a = a.setControl x (f k) := by
  induction n generalizing a with
  | zero => rfl
  | succ n ih =>
    rw [List.replicate_succ, List.foldl_cons, ih]
    unfold Arena.setControl
    rw [modify_modify]
    exact congrArg (a.modify x) (funext fun s => s.setControl_idem (f k) (f k) rfl)

theorem pendingAt_eq_nil {owners : List ScopeId}
    (h : ∀ owner ∈ owners, ∀ c, a.control? owner = some c → c = c.cleared) :
    a.pendingAt owners = [] := by
  refine List.filterMap_eq_nil_iff.mpr fun owner ho => ?_
  cases hc : a.control? owner with
  | none => rfl
  | some c =>
    rw [h owner ho c hc]
    simp [Option.filter]

theorem pendingAt_eq_replicate {owners : List ScopeId} (hc : a.control? x = some k)
    (hk : k.isPending = true)
    (h : ∀ owner ∈ owners, owner ≠ x → ∀ c, a.control? owner = some c → c = c.cleared) :
    a.pendingAt owners = List.replicate (owners.count x) (x, k) := by
  refine filterMap_eq_replicate owners (by simp [hc, hk, Option.filter]) fun owner ho hne => ?_
  cases hc' : a.control? owner with
  | none => rfl
  | some c =>
    rw [h owner ho hne c hc']
    simp [Option.filter]

theorem mem_pendingAt_iff {owners : List ScopeId} : (owner, k) ∈ a.pendingAt owners ↔
    owner ∈ owners ∧ a.control? owner = some k ∧ k.isPending = true := by
  simp only [pendingAt, List.mem_filterMap, Option.map_eq_some_iff, Option.filter_eq_some_iff,
    Prod.mk.injEq]
  grind

/-- What is pending in sight is the signal that has been recorded, at its owner. -/
theorem Records.mem_pendingAt_iff (h : Records names id mark a a') (ha : a.Orderly)
    (hg : a.Grounded id) (hclear : a.Clear id) (hmark : Signalled mark) :
    (owner, k) ∈ a'.pendingAt (a'.controlOwners id) ↔
      ∃ signal, mark = some (signal, k) ∧ a.Owns signal owner id := by
  rw [Arena.mem_pendingAt_iff, mem_controlOwners_iff, (h.carries ha hg).parallel.sees_iff]
  constructor
  · rintro ⟨hsees, hc, hpending⟩
    -- what is pending differs from the control state of new scopes
    have hne : k ≠ k.cleared := by
      intro heq
      rw [heq, Control.isPending_cleared] at hpending
      cases hpending
    cases mark with
    | none =>
      have hsees' := (h.carries ha hg).parallel.sees_iff.mpr hsees
      exact absurd ((h.clear hclear) owner hsees' k hc) hne
    | some mark =>
      obtain ⟨owner', ho, -, hcontrol, hothers⟩ := h.pending ha hg hclear (hmark rfl).1
      by_cases heq : owner = owner'
      · subst heq
        obtain rfl := Option.some.inj (hc.symm.trans hcontrol)
        exact ⟨mark.1, rfl, ho⟩
      · exact absurd (hothers owner hsees heq k hc) hne
  · rintro ⟨signal, rfl, ho⟩
    obtain ⟨hk, hpending, -⟩ := hmark rfl
    obtain ⟨owner', ho', -, hcontrol, -⟩ := h.pending ha hg hclear hk
    obtain rfl := ho.unique ho'
    exact ⟨ho.sees, hcontrol, hpending⟩

/-- What has been set aside for `id` is the signal of `mark`, and nothing else was pending. -/
structure Parked (a : Arena) (id : ScopeId) (mark : Option (Signal × Control)) (s : Suspended) :
    Prop where
  owners : ∀ {owner}, owner ∈ s.owners ↔ a.Sees id owner
  parked : match mark with
    | none => s.parked = []
    | some (signal, k) =>
      ∃ owner n, a.Owns signal owner id ∧ s.parked = List.replicate (n + 1) (owner, k)

theorem Parked.plain {s : Suspended} (h : Parked a id mark s) (hmark : Signalled mark) :
    s.plain = true := by
  cases mark with
  | none =>
    have hparked : s.parked = [] := h.parked
    simp [Suspended.plain, Suspended.values, hparked]
  | some mark =>
    obtain ⟨owner, n, -, hparked⟩ := h.parked
    have hplain : mark.2.plain = true := (hmark rfl).2.2
    rw [Control.plain, List.all_eq_true] at hplain
    simp only [Suspended.plain, Suspended.values, hparked, List.all_eq_true, List.mem_flatMap]
    rintro v ⟨entry, hentry, hv⟩
    obtain rfl := List.eq_of_mem_replicate hentry
    exact hplain v hv

theorem suspendControl_eq (a : Arena) (id : ScopeId) :
    a.suspendControl id
      = ((a.pendingAt (a.controlOwners id)).foldl
          (fun a (owner, control) => a.setControl owner control.cleared) a).setSuspended
        (⟨a.controlOwners id, a.pendingAt (a.controlOwners id)⟩ :: a.suspended) := rfl

/-- **The signal that a run has left is hidden when it is set aside.** -/
theorem Records.suspend (h : Records names id mark a a') (ha : a.Orderly) (hg : a.Grounded id)
    (hclear : a.Clear id) (hmark : Signalled mark) :
    ∃ s hidden, a'.suspendControl id = hidden.setSuspended (s :: a.suspended) ∧
      Keeps names id a hidden ∧ Parked a id mark s ∧ hidden.calm = a'.calm := by
  have howners : ∀ {owner}, owner ∈ a'.controlOwners id ↔ a.Sees id owner :=
    mem_controlOwners_iff.trans (h.carries ha hg).parallel.sees_iff
  have hsuspended := h.suspended
  cases mark with
  | none =>
    have hnil : a'.pendingAt (a'.controlOwners id) = [] :=
      pendingAt_eq_nil fun owner ho => (h.clear hclear) owner (mem_controlOwners_iff.mp ho)
    refine ⟨⟨a'.controlOwners id, []⟩, a', ?_, h, ⟨howners, rfl⟩, rfl⟩
    rw [suspendControl_eq, hnil, hsuspended]
    rfl
  | some mark =>
    obtain ⟨signal, k⟩ := mark
    obtain ⟨hk, hpending, hplain⟩ := hmark rfl
    obtain ⟨owner, ho, hkeeps, hnow, hothers⟩ := h.pending ha hg hclear hk
    obtain ⟨c, hc, ht⟩ := ho.exists_control
    have hkc : k.cleared = c.cleared := Control.cleared_eq_of_takes ht hk
    have hcc : c = c.cleared := hclear owner ho.sees c hc
    have hcarries := carries_setControl names ha hg owner k
    have hchanged : (a.setControl owner k).control? owner = some k := control?_setControl hc hkc
    have habove := hcarries.above_iff.mpr ho.above
    have hparked := pendingAt_eq_replicate hnow hpending fun other hother =>
      hothers other (howners.mp hother)
    obtain ⟨n, hn⟩ := Nat.exists_eq_succ_of_ne_zero
      (List.count_pos_iff.mpr (howners.mpr ho.sees)).ne'
    rw [hn] at hparked
    refine ⟨⟨a'.controlOwners id, a'.pendingAt (a'.controlOwners id)⟩,
      a'.setControl owner k.cleared, ?_, ?_, ⟨howners, owner, n, ho, hparked⟩, ?_⟩
    · rw [suspendControl_eq, hparked, foldl_setControl a' Control.cleared n owner k, hsuspended]
    · have hhidden := hkeeps.setControl hcarries.orderly habove hchanged k.cleared_cleared
      have hkc' : k.cleared = c := hkc.trans hcc.symm
      rw [hkc'] at hhidden ⊢
      rwa [setControl_setControl hc hkc] at hhidden
    · exact calm_setControl hnow k.cleared_cleared hplain k.plain_cleared

/-! ## Putting back -/

theorem restoreControl_cons (a : Arena) (s : Suspended) (rest : List Suspended) :
    (a.setSuspended (s :: rest)).restoreControl
      = if s.owners.any a.hasControl then a.setSuspended rest
        else s.parked.foldl (fun a (owner, control) => a.setControl owner control)
          (a.setSuspended rest) := rfl

theorem any_hasControl_iff {owners : List ScopeId} : owners.any a.hasControl = true ↔
    ∃ owner ∈ owners, ∃ c, a.control? owner = some c ∧ c.isPending = true := by
  simp only [List.any_eq_true, hasControl, Option.any_eq_true]

namespace Parked

variable {s : Suspended}

/-- **The signal that was set aside is back if nothing is pending now.** -/
theorem restore_none (h : Parked a id mark s) (ha : a.Orderly) (hclear : a.Clear id)
    (hmark : Signalled mark) (hkeeps : Keeps names id a a') :
    Records names id mark a (a'.setSuspended (s :: a.suspended)).restoreControl ∧
      (a'.setSuspended (s :: a.suspended)).restoreControl.calm = a'.calm := by
  have hclear' := hkeeps.clear hclear
  have hsame : a'.setSuspended a.suspended = a' := by
    rw [← hkeeps.suspended]
    rfl
  have hnone : s.owners.any a'.hasControl = false := by
    rw [← Bool.not_eq_true, any_hasControl_iff]
    rintro ⟨owner, ho, c, hc, hpending⟩
    rw [hclear' owner (hkeeps.parallel.sees_iff.mpr (h.owners.mp ho)) c hc] at hpending
    simp at hpending
  rw [restoreControl_cons, hnone, hsame]
  cases mark with
  | none =>
    have hparked : s.parked = [] := h.parked
    rw [hparked]
    exact ⟨hkeeps, rfl⟩
  | some mark =>
    obtain ⟨signal, k⟩ := mark
    obtain ⟨hk, -, hplain⟩ := hmark rfl
    obtain ⟨owner, n, ho, hparked⟩ := h.parked
    obtain ⟨c, hc, ht⟩ := ho.exists_control
    have hkc : k.cleared = c.cleared := Control.cleared_eq_of_takes ht hk
    have hcplain : c.plain = true := by
      rw [hclear owner ho.sees c hc]
      exact c.plain_cleared
    have hnow : a'.control? owner = some c := (hkeeps.control?_eq ho.above).trans hc
    have hfold := foldl_setControl a' (fun control => control) n owner k
    rw [hparked, hfold]
    exact ⟨⟨owner, ho, hkeeps.setControl ha ho.above hc hkc⟩,
      calm_setControl hnow hkc hcplain hplain⟩

/-- **A signal that is pending now takes the place of what was set aside.** -/
theorem restore_some (h : Parked a id mark s) (ha : a.Orderly) (hg : a.Grounded id)
    (hclear : a.Clear id) (hk : k.takes signal = true) (hpending : k.isPending = true)
    (hrec : Records names id (some (signal, k)) a a') :
    (a'.setSuspended (s :: a.suspended)).restoreControl = a' := by
  obtain ⟨owner, ho, -, hcontrol, -⟩ := hrec.pending ha hg hclear hk
  have hsome : s.owners.any a'.hasControl = true :=
    any_hasControl_iff.mpr ⟨owner, h.owners.mpr ho.sees, k, hcontrol, hpending⟩
  rw [restoreControl_cons, hsome, if_pos rfl, ← hrec.suspended]
  rfl

/-- **After a final block the signal that it has left is there, or else the one that was set
aside.** -/
theorem restore {hidden : Arena} {final : Option (Signal × Control)} (h : Parked a id mark s)
    (ha : a.Orderly) (hg : a.Grounded id) (hclear : a.Clear id) (hmark : Signalled mark)
    (hfinal : Signalled final) (hkeeps : Keeps names id a hidden)
    (hrec : Records names id final (hidden.setSuspended (s :: a.suspended)) a') :
    Records names id (final.or mark) a a'.restoreControl ∧ a'.restoreControl.calm = a'.calm := by
  -- the run of the block, without what was set aside before it
  have hcarries := carries_setSuspended [] hkeeps.orderly hkeeps.grounded (s :: a.suspended)
  have hrec' : Records names id final a (a'.setSuspended a.suspended) := by
    have hbare := hrec.setSuspended hcarries.orderly hcarries.grounded hidden.suspended
    rw [← hkeeps.suspended]
    exact Records.after hbare hkeeps ha fun hf => (hfinal hf).1
  have hsame : a' = (a'.setSuspended a.suspended).setSuspended (s :: a.suspended) := by
    have hsuspended : a'.suspended = s :: a.suspended := hrec.suspended
    rw [← hsuspended]
    rfl
  have hcalm : a'.calm = (a'.setSuspended a.suspended).calm := by
    rw [hsame, calm_setSuspended_cons _ (h.plain hmark)]
    rfl
  cases final with
  | none =>
    have hback := h.restore_none ha hclear hmark hrec'
    rw [← hsame, ← hcalm] at hback
    exact hback
  | some final =>
    obtain ⟨hk, hpending, -⟩ := hfinal rfl
    have hback := h.restore_some ha hg hclear hk hpending hrec'
    rw [← hsame] at hback
    rw [hback]
    exact ⟨hrec', hcalm.symm⟩

end Parked

end ScriptCore.Arena
