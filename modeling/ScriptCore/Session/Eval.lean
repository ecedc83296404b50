import ScriptCore.Session.Statements
import ScriptCore.Session.Threads

/-!
# Evaluation

What each node does in a scope. Parts of a node are evaluated from left to right, each with
`Session.evaluate`, so that a fault in a part is thrown and leaves null; whether something is
pending is looked at only where it is said.

`Session.step` is one node deep: it takes the evaluation of parts as a parameter.
`Session.eval` repeats it up to a bound on the depth of evaluation and on the iterations of
each loop.
-/

namespace ScriptCore.Session

variable (ev : Evaluator)

/-- Evaluate a node and give the object it refers to. -/
def evaluateRef (node : Node) (scope : ScopeId) : Run Ref := do asRef (← evaluate ev node scope)

/-- The value of an integer variable. -/
def intVariable (scope : ScopeId) (name : String) : Run Int64 := do asInt (← lookup scope name)

/-- Declare a field of the object at `r`: in the scope of an instance, and in `scope` for an object
of another kind. -/
def defineField (scope : ScopeId) (r : Ref) (partition : Partition) (name : String) (v : Value) :
    Run Unit := do
  let target := match (← Run.memory (·.header r)).data with
    | .instanceOf _ fields => fields
    | _ => scope
  Run.modifyScopes fun a => a.defineField target partition name ⟨v, false⟩

/-- Evaluate a node in `scope`, with `ev` for its parts and at most `rounds` iterations of a
loop. -/
def step (rounds : Nat) (node : Node) (scope : ScopeId) : Run Value := do
  match node with
  | .lit v => return v
  | .var name => lookup scope name
  | .define constant name init =>
    let v ← evaluate ev init scope
    if constant then defineConst scope name v else defineVar scope name v
    return .null
  | .declare name =>
    defineConst scope name .undefined
    return .null
  | .assign name value =>
    let v ← evaluate ev value scope
    assign scope name v
    return .null
  | .increment name =>
    let n ← intVariable scope name
    assign scope name (.int (n + 1))
    return .null
  | .less name bound => return .bool (decide ((← intVariable scope name) < bound))
  | .equal name number => return .bool ((← intVariable scope name) == number)
  | .emit line =>
    Run.emit line
    return .null
  | .display value =>
    let v ← evaluate ev value scope
    unless ← halted scope do Run.emit v.text
    return .null
  | .cond condition yes no =>
    let v ← evaluate ev condition scope
    unless ← halted scope do
      let _ ← executeBlock ev scope (if v.isTruthy then yes else no)
    return .null
  | .seq body => executeSequence ev scope body
  | .block body => executeBlock ev scope body
  | .loop title condition action body =>
    executeLoop ev rounds scope title condition action body
    return .null
  | .leave label =>
    Run.modifyScopes fun a => a.breakLoop scope label
    return .null
  | .skip label =>
    Run.modifyScopes fun a => a.pauseLoop scope label
    return .null
  | .fallthrough =>
    Run.modifyScopes fun a => a.fallthrough scope
    return .null
  | .ret none =>
    Run.modifyScopes fun a => a.setReturn scope .null
    return .null
  | .ret (some value) =>
    let v ← evaluate ev value scope
    unless ← halted scope do Run.modifyScopes fun a => a.setReturn scope v
    return .null
  | .raise value =>
    let v ← evaluate ev value scope
    throwValue scope v
    return .null
  | .attempt body handler final =>
    executeTry ev scope body handler final
    return .null
  | .select subject arms =>
    let v ← evaluate ev subject scope
    return (← executeCase ev scope v arms).getD .null
  | .yield value =>
    let v ← evaluate ev value scope
    Run.modifyScopes fun a => a.yieldValue scope v
    return .null
  | .call callee args site =>
    let callee ← evaluate ev callee scope
    let args ← evaluateAll ev args scope
    if ← halted scope then return .null
    call ev callee args scope site
  | .array elements => return .ref (← newArray (← evaluateAll ev elements scope))
  | .index array position =>
    let r ← evaluateRef ev array scope
    Run.memory (·.readElement r position)
  | .setIndex array position value =>
    let r ← evaluateRef ev array scope
    let v ← evaluate ev value scope
    Run.modifyMemory (·.writeElement r position v)
    return .null
  | .function name params body => return .ref (← newFunction name params (.seq body) scope)
  | .method receiver name params body =>
    let this ← evaluateRef ev receiver scope
    return .ref (← newMethod name params (.seq body) scope this)
  | .host name arity body => return .ref (← newHost name arity body)
  | .classDef name parent attributes =>
    let superclass ← parent.mapM fun node => evaluateRef ev node scope
    let attributes ← (← evaluateAll ev attributes scope).mapM asRef
    return .ref (← newClass name superclass attributes)
  | .new classRef =>
    let r ← evaluateRef ev classRef scope
    return .ref (← newInstance r scope).1
  | .field target partition name value =>
    let r ← evaluateRef ev target scope
    let v ← evaluate ev value scope
    defineField scope r partition name v
    return .null
  | .member target name =>
    let r ← evaluateRef ev target scope
    member r name
  | .setMember target name value =>
    let r ← evaluateRef ev target scope
    let v ← evaluate ev value scope
    assignMember r name v
    return .null
  | .extend child parent =>
    let child ← evaluateRef ev child scope
    let parent ← evaluateRef ev parent scope
    bindSuper child parent
    return .null
  | .moduleDef name body =>
    let (r, inner) ← newModule name scope
    let _ ← executeSequence ev inner body
    return .ref r
  | .useModule target =>
    let r ← evaluateRef ev target scope
    importModule scope r
    return .null
  | .error typeName message => return .ref (← newError typeName message)
  | .collect => return .int (Int64.ofNat (← collectFrom none).freedObjects)
  | .compact => return .int (Int64.ofNat (← collectAndSlide))
  | .fail fault => Run.fail fault
  | .spawn callee args daemon =>
    let callee ← evaluate ev callee scope
    let args ← evaluateAll ev args scope
    return .int (Int64.ofNat (← spawnThread ev callee args daemon))
  | .depth => return .int (Int64.ofNat (← get).stack.depth)

/-- Evaluate a node, at most `bound` nodes deep. -/
def eval : (bound : Nat) → Evaluator
  | 0, _, _ => throw .exhausted
  | bound + 1, node, scope => step (eval bound) bound node scope

end ScriptCore.Session
