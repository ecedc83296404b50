import ScriptCore.Collect.Collection
import ScriptCore.Options

/-!
# Events

What a session reports about its own work: collections, allocations, scopes, throws and threads.
An event has a level of detail and a line of text, the message followed by its fields.
-/

namespace ScriptCore

/-- How important an event is. -/
inductive Level
  /-- A failure. -/
  | error
  /-- Something doubtful. -/
  | warn
  /-- Something of interest. -/
  | info
  /-- A detail for finding errors. -/
  | debug
  /-- Every step. -/
  | trace
  deriving DecidableEq, Repr

namespace Level

/-- The position of a level, the most important one first. -/
def rank : Level → Nat
  | error => 0
  | warn => 1
  | info => 2
  | debug => 3
  | trace => 4

/-- The name of a level. -/
def text : Level → String
  | error => "ERROR"
  | warn => "WARN"
  | info => "INFO"
  | debug => "DEBUG"
  | trace => "TRACE"

end Level

/-- What can be reported. -/
inductive Event
  /-- An allocation found no room and starts a collection. -/
  | heapExhausted (requested available : Nat)
  /-- A collection has ended. -/
  | collected (report : CollectionReport)
  /-- A compaction has ended. -/
  | compacted (moved available : Nat)
  /-- An object has been allocated. -/
  | allocatedObject (r : Ref)
  /-- An array has been allocated. -/
  | allocatedArray (r : Ref) (length : Nat)
  /-- A scope has been entered. -/
  | enteredScope (id outer : ScopeId)
  /-- A scope has been left. -/
  | exitedScope (id : ScopeId)
  /-- A value is thrown. -/
  | thrown (value : Value) (depth : Nat)
  /-- A thread runs at once. -/
  | ranInline (ticket : Nat)
  /-- A thread has been asked for. -/
  | spawned (ticket : Nat) (daemon : Bool)
  /-- A thread has ended with an exception. -/
  | uncaught (ticket : Nat) (report : String)
  /-- A thread has ended with a fault. -/
  | threadTerminated (ticket : Nat) (cause : String)

namespace Event

/-- The level of an event; two kinds are raised by an option. -/
def level (o : Options) : Event → Level
  | heapExhausted .. => if o.gcTrace then .info else .debug
  | collected _ => if o.gcSummary then .info else .debug
  | compacted .. | thrown .. | ranInline _ | spawned .. => .debug
  | allocatedObject _ | allocatedArray .. | enteredScope .. | exitedScope _ => .trace
  | uncaught .. | threadTerminated .. => .error

/-- The message and the fields of an event. -/
def message : Event → String
  | heapExhausted requested available =>
    s!"heap exhausted, collecting requested={requested} available={available}"
  | collected report => "collection finished report=" ++ report.text
  | compacted moved available => s!"compacted heap moved={moved} available={available}"
  | allocatedObject r => "allocated object reference=" ++ r.text
  | allocatedArray r length => "allocated array reference=" ++ r.text ++ s!" len={length}"
  | enteredScope id outer => "enter scope scope=" ++ id.text ++ " outer=" ++ outer.text
  | exitedScope id => "exit scope scope=" ++ id.text
  | thrown value depth => "throw value=" ++ value.text ++ s!" depth={depth}"
  | ranInline ticket => s!"no session, running thread inline ticket={ticket}"
  | spawned ticket daemon => s!"spawned thread ticket={ticket} daemon={daemon}"
  | uncaught ticket report => s!"{report} ticket={ticket}"
  | threadTerminated ticket cause => s!"thread terminated ticket={ticket} err={cause}"

/-- An event as a line: its level and its message. -/
def text (o : Options) (e : Event) : String := (e.level o).text ++ " " ++ e.message

end Event

end ScriptCore
