import ScriptCore.Proofs.Control.Simulation

/-!
# Programs whose signals have owners

When a program is well formed in a scope. `Context` says which signals have an owner there and
which names can be declared. `Sound` goes through a program and keeps track of the context: a loop
owns the jumps meant for it and lets no fallthrough or yield out, a case construct owns these, a
`try` body with a handler owns exceptions, and a handler declares its name.

The parts of a program that are no statements have to be `Quiet`: they give a value that is no
reference and leave control state alone.
-/

namespace ScriptCore

/-! ## The signal of a completion -/

/-- The signal of a completion, and the control state that records it at the owner. -/
def Completion.mark : Completion → Option (Signal × Control)
  | normal _ => none
  | returning v => some (.returning, .returning ⟨true, v⟩)
  | breaking label => some (.breaking label, .looping { broken := true })
  | continuing label => some (.continuing label, .looping { paused := true })
  | fallthrough => some (.fallthrough, .selecting { fallthrough := true })
  | yielding v => some (.yielding, .selecting { yielded := some v })
  | throwing pending => some (.throwing, .catching (some pending))

/-- Whether a completion holds no reference. -/
def Completion.plain : Completion → Bool
  | returning v | yielding v => v.reference?.isNone
  | throwing pending => pending.value.reference?.isNone
  | _ => true

namespace Completion

variable {c : Completion}

@[simp] theorem mark_void (c : Completion) : c.void.mark = c.mark := by
  cases c <;> rfl

@[simp] theorem value_void (c : Completion) : c.void.value = .null := by
  cases c <;> rfl

@[simp] theorem plain_void (c : Completion) : c.void.plain = c.plain := by
  cases c <;> rfl

theorem mark_override (c d : Completion) : (c.override d).mark = d.mark.or c.mark := by
  cases d <;> rfl

theorem value_override {c : Completion} (h : c.value = .null) (d : Completion) :
    (c.override d).value = .null := by
  cases d <;> first | exact h | rfl

theorem plain_override {c d : Completion} (hc : c.plain = true) (hd : d.plain = true) :
    (c.override d).plain = true := by
  cases d <;> assumption

/-- A completion that is not normal has no value. -/
theorem value_of_mark {mark : Signal × Control} (h : c.mark = some mark) : c.value = .null := by
  cases c <;> first | rfl | cases h

theorem value_ofRound {title : Option String} {c' : Completion} (h : c.ofRound title = some c') :
    c'.value = .null := by
  unfold ofRound at h
  split at h <;> grind [value]

theorem takes_of_mark {signal : Signal} {k : Control} (h : c.mark = some (signal, k)) :
    k.takes signal = true ∧ k.isPending = true := by
  cases c <;> cases h <;> exact ⟨rfl, rfl⟩

theorem signalled (hp : c.plain = true) : Arena.Signalled c.mark := by
  intro signal k h
  refine ⟨(takes_of_mark h).1, (takes_of_mark h).2, ?_⟩
  cases c <;> cases h <;> simp_all [plain, Control.plain, Control.values]

end Completion

namespace Session

/-! ## Sessions that are ready to run statements -/

/-- Statements can run in `id`: the scopes above it are there, it is in use, and nothing is
pending. -/
structure Ready (S : Session) (id : ScopeId) : Prop where
  orderly : S.arena.Orderly
  grounded : S.arena.Grounded id
  inUse : id = S.arena.global ∨ id ∈ S.entered ∨ id ∈ S.stack.frames.map (·.scope)
  clear : S.arena.Clear id

/-- What is above `id` and the scopes in use are the same in both sessions. -/
structure Kept (names : List String) (id : ScopeId) (S S' : Session) : Prop where
  arena : S.arena.Keeps names id S'.arena
  entered : S'.entered = S.entered
  stack : S'.stack = S.stack

namespace Kept

variable {names : List String} {id : ScopeId} {S S' S'' : Session}

theorem refl (names : List String) (h : S.Ready id) : Kept names id S S :=
  ⟨.refl names h.orderly h.grounded, rfl, rfl⟩

theorem trans (hr : S.Ready id) (h : Kept names id S S') (h' : Kept names id S' S'') :
    Kept names id S S'' :=
  ⟨h.arena.trans hr.orderly h'.arena, h'.entered.trans h.entered, h'.stack.trans h.stack⟩

theorem ready (h : Kept names id S S') (hr : S.Ready id) : S'.Ready id where
  orderly := h.arena.orderly
  grounded := h.arena.grounded
  inUse := by
    rw [h.arena.global, h.entered, h.stack]
    exact hr.inUse
  clear := h.arena.clear hr.clear

end Kept

/-- Evaluating `node` gives a value that is no reference, makes no difference to control state, and
binds none of `names`; and what it does does not depend on signals that are pending elsewhere. It
may fault only if `faulty` holds. -/
def Quiet (faulty : Prop) (names : List String) (node : Node) : Prop :=
  ∀ (bound : Nat) (S : Session) (id : ScopeId), S.Ready id →
    Follows faulty S (eval bound node id) (eval bound node id) fun v w S' =>
      v = w ∧ w.reference? = none ∧ Kept names id S S'

end Session

/-! ## Contexts -/

/-- What can be relied on in a scope. -/
structure Context where
  /-- The signals that have an owner. -/
  owned : Signal → Prop
  /-- The names that can be declared. -/
  free : String → Prop

namespace Context

/-- What is so at a scope of an arena. -/
def of (a : Arena) (id : ScopeId) : Context where
  owned signal := ∃ owner, a.owner id signal = .ok owner
  free name := a.isDeclared id name = .ok false

/-- In the body of a loop. -/
def inLoop (ctx : Context) (title : Option String) : Context where
  owned
    | .breaking label => labelMatches label title = true ∨ ctx.owned (.breaking label)
    | .continuing label => labelMatches label title = true ∨ ctx.owned (.continuing label)
    | .fallthrough | .yielding => False
    | signal => ctx.owned signal
  free := ctx.free

/-- In an arm of a case construct. -/
def inCase (ctx : Context) : Context where
  owned
    | .fallthrough | .yielding => True
    | signal => ctx.owned signal
  free := ctx.free

/-- In the body of a `try` statement, with a handler or without. An exception that is not handled is
thrown on from the statement. -/
def inTry (ctx : Context) (handled : Bool) : Context where
  owned
    | .throwing => handled = true ∨ ctx.owned .throwing
    | signal => ctx.owned signal
  free := ctx.free

/-- Where `name` has been declared. -/
def declaring (ctx : Context) (name : String) : Context where
  owned := ctx.owned
  free other := ctx.free other ∧ other ≠ name

end Context

/-! ## Sound programs -/

/-- Whether a node is none of the statements that deal with control. -/
def Node.isEffect : Node → Bool
  | .cond .. | .seq _ | .block _ | .loop .. | .leave _ | .skip _ | .fallthrough | .ret _ | .raise _
  | .attempt .. | .select .. | .yield _ => false
  | _ => true

/-- A statement is well formed in a context: each of its signals has an owner, each of its handlers
declares a name that can be declared and is one of `names`, and its other parts are quiet. -/
inductive Sound (faulty : Prop) (names : List String) : Context → Node → Prop
  | effect {ctx : Context} {node : Node} (hn : node.isEffect = true)
      (hq : Session.Quiet faulty names node) : Sound faulty names ctx node
  | cond {ctx : Context} {condition : Node} {yes no : List Node}
      (hc : Session.Quiet faulty names condition) (hyes : ∀ s ∈ yes, Sound faulty names ctx s)
      (hno : ∀ s ∈ no, Sound faulty names ctx s) : Sound faulty names ctx (.cond condition yes no)
  | seq {ctx : Context} {body : List Node} (h : ∀ s ∈ body, Sound faulty names ctx s) :
      Sound faulty names ctx (.seq body)
  | block {ctx : Context} {body : List Node} (h : ∀ s ∈ body, Sound faulty names ctx s) :
      Sound faulty names ctx (.block body)
  | loop {ctx : Context} {title : Option String} {condition action : Option Node} {body : List Node}
      (hc : ∀ node ∈ condition, Session.Quiet faulty names node)
      (ha : ∀ node ∈ action, Session.Quiet faulty names node)
      (h : ∀ s ∈ body, Sound faulty names (ctx.inLoop title) s) :
      Sound faulty names ctx (.loop title condition action body)
  | leave {ctx : Context} {label : Option String} (h : ctx.owned (.breaking label)) :
      Sound faulty names ctx (.leave label)
  | skip {ctx : Context} {label : Option String} (h : ctx.owned (.continuing label)) :
      Sound faulty names ctx (.skip label)
  | fallthrough {ctx : Context} (h : ctx.owned .fallthrough) : Sound faulty names ctx .fallthrough
  | ret {ctx : Context} {value : Option Node} (hq : ∀ node ∈ value, Session.Quiet faulty names node)
      (h : ctx.owned .returning) : Sound faulty names ctx (.ret value)
  | raise {ctx : Context} {value : Node} (hq : Session.Quiet faulty names value)
      (h : ctx.owned .throwing) : Sound faulty names ctx (.raise value)
  | attempt {ctx : Context} {body : List Node} {handler : Option (String × List Node)}
      {final : Option (List Node)}
      (hb : ∀ s ∈ body, Sound faulty names (ctx.inTry handler.isSome) s)
      (hname : ∀ h ∈ handler, h.1 ∈ names ∧ ctx.free h.1)
      (hh : ∀ h ∈ handler, ∀ s ∈ h.2, Sound faulty names (ctx.declaring h.1) s)
      (hf : ∀ f ∈ final, ∀ s ∈ f, Sound faulty names ctx s) :
      Sound faulty names ctx (.attempt body handler final)
  | select {ctx : Context} {subject : Node} {arms : List Arm}
      (hs : Session.Quiet faulty names subject)
      (hp : ∀ arm ∈ arms, ∀ pattern ∈ arm.1, Session.Quiet faulty names pattern)
      (h : ∀ arm ∈ arms, ∀ s ∈ arm.2, Sound faulty names ctx.inCase s) :
      Sound faulty names ctx (.select subject arms)
  | yield {ctx : Context} {value : Node} (hq : Session.Quiet faulty names value)
      (h : ctx.owned .yielding) : Sound faulty names ctx (.yield value)

end ScriptCore
