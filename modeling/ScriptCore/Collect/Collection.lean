import ScriptCore.Collect.Sweep

/-!
# Collection

A collection frees the objects and scopes that cannot be reached from the roots: the global
scope, the scopes and values that the caller names, the outside references of the memory, and
the control state that has been set aside.
-/

namespace ScriptCore

/-- The roots that the caller of a collection names. -/
structure RootSet where
  /-- Scopes in use. -/
  scopes : List ScopeId := []
  /-- Values in use. -/
  values : List Value := []

/-- Every cell that is in use from outside. -/
def roots (m : Memory) (a : Arena) (extra : RootSet) : List Cell :=
  Cell.ofScopes (a.global :: extra.scopes) ++ Cell.ofValues extra.values
    ++ Cell.ofValues m.guarded ++ m.managed.map Cell.object ++ m.permanent.map Cell.object
    ++ Cell.ofValues (a.suspended.flatMap Suspended.values)

/-- Free the cells in `unreached`. -/
def reclaim (m : Memory) (a : Arena) (unreached : Unreached) :
    CollectionReport × Memory × Arena :=
  let marked := m.heap.mark unreached
  let blocks := marked.blocks
  let heap := marked.sweepBlocks blocks
  let arena := a.sweep unreached
  let dead := blocks.filter Block.dies
  let report : CollectionReport := {
    freedObjects := dead.length
    freedSlots := dead.foldr (fun block slots => block.size + slots) 0
    freedScopes := a.liveCount - arena.liveCount
    available := heap.available }
  (report, { m with heap }, arena)

/-- Free all that cannot be reached from the roots. -/
def collect (m : Memory) (a : Arena) (extra : RootSet) : CollectionReport × Memory × Arena :=
  reclaim m a ((Unreached.all m.heap a).search (successors m.heap a) (roots m a extra))

end ScriptCore
