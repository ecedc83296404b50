import ScriptCore.Scope.Signal

/-!
# Setting control state aside

A final block runs with nothing pending. Before it the control state that its statements could
see is set aside where something is pending: that of the scope that would take a return, of the
scope that would take an exception, and of every loop and case construct up to the nearest main
scope. Afterwards it is put back, unless the block has left control state of its own at one of
these scopes: then that wins and all that was set aside is dropped.
-/

namespace ScriptCore.Arena

/-- The loops and case constructs around `id` within the nearest main scope, over at most `bound`
scopes. -/
def enclosing (a : Arena) : (bound : Nat) → ScopeId → List ScopeId
  | 0, _ => []
  | bound + 1, id =>
    match a.get? id with
    | none => []
    | some scope =>
      if scope.isMain then []
      else
        let here := match scope.state with
          | .loop .. | .select _ => [id]
          | _ => []
        match scope.outer with
        | some outer => here ++ a.enclosing bound outer
        | none => here

/-- The scopes whose control state statements in `id` can see. -/
def controlOwners (a : Arena) (id : ScopeId) : List ScopeId :=
  (a.owner id .returning).toOption.toList ++ (a.owner id .throwing).toOption.toList
    ++ a.enclosing a.scopes.size id

/-- The control state pending at one of `owners`, each with its owner. -/
def pendingAt (a : Arena) (owners : List ScopeId) : List (ScopeId × Control) :=
  owners.filterMap fun owner =>
    ((a.control? owner).filter Control.isPending).map fun control => (owner, control)

/-- Set aside the pending control state that statements in `id` can see. -/
def suspendControl (a : Arena) (id : ScopeId) : Arena :=
  let owners := a.controlOwners id
  let parked := a.pendingAt owners
  let cleared := parked.foldl (fun a (owner, control) => a.setControl owner control.cleared) a
  { cleared with suspended := ⟨owners, parked⟩ :: a.suspended }

/-- Whether control state is pending at `id`. -/
def hasControl (a : Arena) (id : ScopeId) : Bool := (a.control? id).any Control.isPending

/-- Put back the control state that was set aside last, unless new control state is pending at
one of the scopes looked at then. -/
def restoreControl (a : Arena) : Arena :=
  match a.suspended with
  | [] => a
  | ⟨owners, parked⟩ :: suspended =>
    let a := { a with suspended }
    if owners.any a.hasControl then a
    else parked.foldl (fun a (owner, control) => a.setControl owner control) a

end ScriptCore.Arena
