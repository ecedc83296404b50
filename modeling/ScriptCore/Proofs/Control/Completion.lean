import ScriptCore.Session.Eval

/-!
# Completions

A second way to run statements, in which nothing is ever pending. A statement gives its
`Completion`: it ends normally, or it says how control leaves it. The statement around it looks at
the completion and decides:

* a sequence ends at the first statement that does not end normally;
* a loop takes a break or continue that is meant for it, and updates after a continue;
* a case construct takes a yield as its value and runs the next arm on a fallthrough;
* a `try` statement hands an exception to its handler, and a final block that does not end normally
  decides how the statement ends.

`Session.complete` is the evaluator of completions. Every node that is not one of these statements
is run by `Session.step`, so a fault in it is a fault here.
-/

namespace ScriptCore

/-- How a statement ends. -/
inductive Completion
  /-- Normally, with a value. -/
  | normal (v : Value)
  /-- By a return. -/
  | returning (v : Value)
  /-- By leaving a loop. -/
  | breaking (label : Option String)
  /-- By going on with the next iteration of a loop. -/
  | continuing (label : Option String)
  /-- By going on with the next arm of a case construct. -/
  | fallthrough
  /-- By giving a case construct its value. -/
  | yielding (v : Value)
  /-- By an exception. -/
  | throwing (pending : Pending)
  deriving DecidableEq, Repr

namespace Completion

/-- The value of a statement that ends like this; it is null unless the statement ends normally. -/
def value : Completion → Value
  | normal v => v
  | _ => .null

/-- The completion of a statement that has no value. -/
def void : Completion → Completion
  | normal _ => normal .null
  | c => c

/-- How a loop ends when its body ends like this, and `none` if the loop goes on. -/
def ofRound (title : Option String) : Completion → Option Completion
  | normal _ => none
  | breaking label =>
    if labelMatches label title then some (normal .null) else some (breaking label)
  | continuing label => if labelMatches label title then none else some (continuing label)
  | c => some c

/-- How a `try` statement ends whose final block ends with the second completion. -/
def override (c : Completion) : Completion → Completion
  | normal _ => c
  | final => final

end Completion

/-- A way to run a statement in a scope and say how it ends. -/
abbrev Completer := Node → ScopeId → Run Completion

namespace Session

variable (ev : Evaluator) (co : Completer)

/-! ## Sequences and blocks -/

/-- Run statements until one does not end normally. -/
def completeFrom (scope : ScopeId) (last : Value) : List Node → Run Completion
  | [] => return .normal last
  | statement :: rest => do
    match ← co statement scope with
    | .normal v => completeFrom scope v rest
    | c => return c

/-- Run statements in a scope. -/
def completeSequence (scope : ScopeId) (body : List Node) : Run Completion :=
  completeFrom co scope .null body

/-- Run statements in a new block. -/
def completeBlock (scope : ScopeId) (body : List Node) : Run Completion :=
  inScope .block scope fun block => completeSequence co block body

/-! ## Loops -/

/-- Whether the condition of a loop holds. -/
def holds (condition : Option Node) (scope : ScopeId) : Run Bool :=
  match condition with
  | none => return true
  | some condition => do return (← ev condition scope).isTruthy

/-- Run the update of a loop. -/
def runUpdate (action : Option Node) (scope : ScopeId) : Run Unit :=
  match action with
  | none => return ()
  | some action => do let _ ← ev action scope

/-- Run the iterations of a loop, at most `rounds` of them. -/
def completeRounds (scope : ScopeId) (title : Option String) (condition action : Option Node)
    (body : List Node) : (rounds : Nat) → Run Completion
  | 0 => throw .exhausted
  | rounds + 1 => do
    if ← holds ev condition scope then
      match (← completeBlock co scope body).ofRound title with
      | some c => return c
      | none =>
        runUpdate ev action scope
        completeRounds scope title condition action body rounds
    else return .normal .null

/-- Run a loop. -/
def completeLoop (rounds : Nat) (scope : ScopeId) (title : Option String)
    (condition action : Option Node) (body : List Node) : Run Completion :=
  inScope (.loop title {}) scope fun loop =>
    completeRounds ev co loop title condition action body rounds

/-! ## Exceptions -/

/-- Bind a name in a scope. -/
def bindName (scope : ScopeId) (name : String) (v : Value) : Run Unit :=
  modify fun s => { s with
    arena := s.arena.modifyTable (scope, .pub) (·.insert name ⟨v, false⟩) }

/-- Run the handler of a `try` statement whose body has thrown. -/
def completeHandler (scope : ScopeId) (name : String) (body : List Node) (pending : Pending) :
    Run Completion :=
  inScope .block scope fun block => do
    bindName block name pending.value
    completeSequence co block body

/-- What the handler of a `try` statement makes of the completion of the body. -/
def afterGuarded (scope : ScopeId) (handler : Option (String × List Node)) :
    Completion → Run Completion
  | .throwing pending =>
    match handler with
    | some (name, body) => completeHandler co scope name body pending
    | none => return .throwing pending
  | c => return c

/-- Run a `try` statement. -/
def completeTry (scope : ScopeId) (body : List Node) (handler : Option (String × List Node))
    (final : Option (List Node)) : Run Completion := do
  let guarded ← inScope (.attempt none) scope fun guarded => completeSequence co guarded body
  let c ← afterGuarded co scope handler guarded
  match final with
  | none => return c.void
  | some final => return c.void.override (← completeBlock co scope final)

/-! ## Case constructs -/

/-- The arms of a case construct from the one to run on. -/
def chooseArms (scope : ScopeId) (subject : Value) (default : List Arm) : List Arm → Run (List Arm)
  | [] => return default
  | (none, body) :: rest =>
    chooseArms scope subject (if default.isEmpty then (none, body) :: rest else default) rest
  | (some pattern, body) :: rest => do
    let value ← ev pattern scope
    if value.equals subject then return (some pattern, body) :: rest
    chooseArms scope subject default rest

/-- Run the first arm, and the next one as long as an arm falls through. -/
def completeArms (scope : ScopeId) : List Arm → Run Completion
  | [] => return .normal .null
  | (_, body) :: rest => do
    match ← completeBlock co scope body with
    | .yielding v => return .normal v
    | .fallthrough => completeArms scope rest
    | c => return c.void

/-- Run a case construct. -/
def completeCase (scope : ScopeId) (subject : Value) (arms : List Arm) : Run Completion :=
  inScope (.select {}) scope fun case_ => do
    completeArms co case_ (← chooseArms ev case_ subject [] arms)

/-! ## Statements -/

/-- Run a statement and say how it ends, with `co` for the statements in it, `ev` for its other
parts, and at most `rounds` iterations of a loop. -/
def completeStep (rounds : Nat) (node : Node) (scope : ScopeId) : Run Completion := do
  match node with
  | .cond condition yes no =>
    let v ← ev condition scope
    return (← completeBlock co scope (if v.isTruthy then yes else no)).void
  | .seq body => completeSequence co scope body
  | .block body => completeBlock co scope body
  | .loop title condition action body => completeLoop ev co rounds scope title condition action body
  | .leave label => return .breaking label
  | .skip label => return .continuing label
  | .fallthrough => return .fallthrough
  | .ret none => return .returning .null
  | .ret (some value) => return .returning (← ev value scope)
  | .raise value =>
    let v ← ev value scope
    let trace := (← get).stack.trace
    Run.report (.thrown v trace.length)
    return .throwing ⟨v, trace⟩
  | .attempt body handler final => completeTry co scope body handler final
  | .select subject arms =>
    let v ← ev subject scope
    completeCase ev co scope v arms
  | .yield value => return .yielding (← ev value scope)
  | node => return .normal (← step ev rounds node scope)

/-- Run a statement and say how it ends, at most `bound` nodes deep. -/
def complete : (bound : Nat) → Completer
  | 0, _, _ => throw .exhausted
  | bound + 1, node, scope => completeStep (eval bound) (complete bound) bound node scope

end Session

end ScriptCore
