import ScriptCore.Scope.Arena

/-!
# Control signals

A jump is recorded at the scope that owns it, and the statements in between stop when they see
it there. Each signal travels outward from the scope that raises it, through scopes that pass it
on, to the first one that owns it:

* a return to the function or method activation, through every scope nested in it;
* a break or continue to the loop it names, or to the nearest loop if it names none;
* a fallthrough or yield to the case construct, through blocks and `try` bodies only;
* an exception to a `try` body, a thread or the global scope, and from an activation on to the
  scope that called it.

A signal that no scope takes is a misuse, worded by `Signal.misuse`.
-/

namespace ScriptCore

/-- The control signals. -/
inductive Signal
  /-- Leave a function. -/
  | returning
  /-- Leave a loop, the one with this title if one is given. -/
  | breaking (label : Option String)
  /-- Go on with the next iteration of a loop, the one with this title if one is given. -/
  | continuing (label : Option String)
  /-- Go on with the next arm of a case construct. -/
  | fallthrough
  /-- Give a case construct its value. -/
  | yielding
  /-- Throw an exception. -/
  | throwing
  deriving DecidableEq, Repr

/-- What a scope does with a signal that reaches it. -/
inductive Route
  /-- It takes the signal. -/
  | owns
  /-- It hands the signal on, if there is a scope to hand it to. -/
  | passes (next : Option ScopeId)
  deriving DecidableEq, Repr

/-- The fault of a signal that nothing takes, when `last` was the last scope to pass it on. -/
def Signal.misuse (last : ScopeId) : Signal → Fault
  | returning => .returnOutsideFunction
  | breaking label => .breakOutsideLoop label
  | continuing label => .continueOutsideLoop label
  | fallthrough => .fallthroughOutsideCase
  | yielding => .yieldOutsideCase
  | throwing => .unknownScope last

/-- Whether a jump with this label is meant for a loop with this title. -/
def labelMatches (label title : Option String) : Bool := label.isNone || label == title

/-- What a scope does with a signal. -/
def Scope.route (s : Scope) : Signal → Route
  | .returning =>
    match s.state with
    | .function .. | .method .. => .owns
    | .block | .attempt _ | .loop .. | .select _ | .thread _ => .passes s.outer
    | .global _ | .module _ | .instance_ _ => .passes none
  | .breaking label | .continuing label =>
    match s.state with
    | .loop title _ => if labelMatches label title then .owns else .passes s.outer
    | .block | .attempt _ | .select _ | .thread _ => .passes s.outer
    | .function .. | .method .. | .global _ | .module _ | .instance_ _ => .passes none
  | .fallthrough | .yielding =>
    match s.state with
    | .select _ => .owns
    | .block | .attempt _ => .passes s.outer
    | _ => .passes none
  | .throwing =>
    match s.state with
    | .global _ | .attempt _ | .thread _ => .owns
    | .function calling _ | .method calling _ _ => .passes (calling <|> s.outer)
    | .module _ | .instance_ _ | .block | .loop .. | .select _ => .passes s.outer

namespace Arena

/-- The scope that takes a signal raised in `id`. -/
def owner (a : Arena) (id : ScopeId) (signal : Signal) : Except Fault ScopeId := do
  let answer ← a.follow (fun id scope =>
    match scope.route signal with
    | .owns => .done (.ok id)
    | .passes (some next) => .next next
    | .passes none => .done (.error (signal.misuse id))) id
  answer

/-- The control state at `id`. -/
def control? (a : Arena) (id : ScopeId) : Option Control := (a.get? id).bind Scope.control?

/-- Replace the control state at `id`. -/
def setControl (a : Arena) (id : ScopeId) (control : Control) : Arena :=
  a.modify id (Scope.setControl control)

/-- Raise a signal in `id`: the scope that takes it changes its control state by `f`. -/
def raise (a : Arena) (id : ScopeId) (signal : Signal) (f : Control → Control) :
    Except Fault Arena := do
  let owner ← a.owner id signal
  return match a.control? owner with
    | some control => a.setControl owner (f control)
    | none => a

/-! ## Returns -/

/-- Return `v` from the activation around `id`. -/
def setReturn (a : Arena) (id : ScopeId) (v : Value) : Except Fault Arena :=
  a.raise id .returning fun _ => .returning ⟨true, v⟩

/-- The value returned from the activation `id`, if it has returned. -/
def returnValue (a : Arena) (id : ScopeId) : Option Value :=
  match a.control? id with
  | some (.returning ret) => if ret.returned then some ret.value else none
  | _ => none

/-- Take the value returned from the activation `id`, if it has returned. -/
def takeReturn (a : Arena) (id : ScopeId) : Option Value × Arena :=
  match a.returnValue id with
  | some v => (some v, a.setControl id (.returning {}))
  | none => (none, a)

/-! ## Loops -/

/-- Change the flags of a loop. -/
def mapFlags (f : LoopFlags → LoopFlags) : Control → Control
  | .looping flags => .looping (f flags)
  | control => control

/-- Leave a loop around `id`. -/
def breakLoop (a : Arena) (id : ScopeId) (label : Option String) : Except Fault Arena :=
  a.raise id (.breaking label) (mapFlags fun flags => { flags with broken := true })

/-- Cut short the iteration of a loop around `id`. -/
def pauseLoop (a : Arena) (id : ScopeId) (label : Option String) : Except Fault Arena :=
  a.raise id (.continuing label) (mapFlags fun flags => { flags with paused := true })

/-- Let the nearest loop around `id` go on. -/
def resumeLoop (a : Arena) (id : ScopeId) : Except Fault Arena :=
  a.raise id (.continuing none) (mapFlags fun flags => { flags with paused := false })

/-- The flags of the loop `id`. -/
def loopFlags (a : Arena) (id : ScopeId) : Except Fault LoopFlags := do
  match (← a.get id).control? with
  | some (.looping flags) => return flags
  | _ => throw (.breakOutsideLoop none)

/-! ## Case constructs -/

/-- Change the state of a case construct. -/
def mapCase (f : CaseState → CaseState) : Control → Control
  | .selecting state => .selecting (f state)
  | control => control

/-- Go on with the next arm of the case construct around `id`. -/
def fallthrough (a : Arena) (id : ScopeId) : Except Fault Arena :=
  a.raise id .fallthrough (mapCase fun state => { state with fallthrough := true })

/-- Take the fallthrough flag of the case construct `id`. -/
def takeFallthrough (a : Arena) (id : ScopeId) : Except Fault (Bool × Arena) := do
  match (← a.get id).control? with
  | some (.selecting state) =>
    return (state.fallthrough, a.setControl id (.selecting { state with fallthrough := false }))
  | _ => throw .fallthroughOutsideCase

/-- Give the case construct around `id` its value. -/
def yieldValue (a : Arena) (id : ScopeId) (v : Value) : Except Fault Arena :=
  a.raise id .yielding (mapCase fun state => { state with yielded := some v })

/-- Take the value of the case construct `id`. -/
def takeYield (a : Arena) (id : ScopeId) : Except Fault (Option Value × Arena) := do
  match (← a.get id).control? with
  | some (.selecting state) =>
    return (state.yielded, a.setControl id (.selecting { state with yielded := none }))
  | _ => throw .yieldOutsideCase

/-! ## Exceptions -/

/-- Throw an exception in `id`. -/
def throwException (a : Arena) (id : ScopeId) (pending : Pending) : Except Fault Arena :=
  a.raise id .throwing fun _ => .catching (some pending)

/-- The scope that catches what is thrown in `id`, and the exception that waits there. -/
def caught (a : Arena) (id : ScopeId) : Option (ScopeId × Pending) :=
  match a.owner id .throwing with
  | .error _ => none
  | .ok owner =>
    match a.control? owner with
    | some (.catching (some pending)) => some (owner, pending)
    | _ => none

/-- The exception that waits at the scope that catches what is thrown in `id`. -/
def exception (a : Arena) (id : ScopeId) : Option Pending := (a.caught id).map (·.2)

/-- Whether an exception waits for `id`. -/
def hasException (a : Arena) (id : ScopeId) : Bool := (a.exception id).isSome

/-- Take the exception that waits for `id`. -/
def takeException (a : Arena) (id : ScopeId) : Option Pending × Arena :=
  match a.caught id with
  | some (owner, pending) => (some pending, a.setControl owner (.catching none))
  | none => (none, a)

/-! ## Interruption -/

/-- Whether a signal other than an exception stops the statements of this scope: pending control
state of its own does, and a scope of the sub category asks the scope around it. -/
def visitInterrupted (_ : ScopeId) (scope : Scope) : Visit Bool :=
  match scope.state with
  | .function _ ret | .method _ ret _ => .done ret.returned
  | .global _ | .module _ | .instance_ _ => .done false
  | .loop _ flags => if flags.broken || flags.paused then .done true else .outward scope false
  | .select state =>
    if state.fallthrough || state.yielded.isSome then .done true else .outward scope false
  | .block | .attempt _ | .thread _ => .outward scope false

/-- Whether the statements running in `id` are to stop because of a signal. -/
def interrupted (a : Arena) (id : ScopeId) : Bool :=
  (a.follow visitInterrupted id).toOption.getD false

end Arena

end ScriptCore
