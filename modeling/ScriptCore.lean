import ScriptCore.Options
import ScriptCore.Session.Eval
import ScriptCore.Proofs.Collect.Repair
import ScriptCore.Proofs.Compact.Traversal
import ScriptCore.Proofs.Control.Refinement
import ScriptCore.Proofs.Memory.Elements
import ScriptCore.Proofs.Memory.Registries
import ScriptCore.Proofs.Memory.Views
import ScriptCore.Proofs.Scope.Bookkeeping
import ScriptCore.Proofs.Scope.Boundaries
import ScriptCore.Proofs.Scope.SearchOrder
import ScriptCore.Proofs.Session.Isolation
import ScriptCore.Proofs.Session.Lineage
import ScriptCore.Proofs.Session.Selection
