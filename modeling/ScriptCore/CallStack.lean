import ScriptCore.Fault

/-!
# The call stack

The active calls and the limit on their number. A call beyond the limit is refused and the stack
stays as it is.
-/

namespace ScriptCore

/-- An active call. -/
structure Frame where
  /-- The name of the function. -/
  name : String
  /-- The scope of the activation. -/
  scope : ScopeId
  /-- Where the call was made. -/
  site : Position
  deriving DecidableEq, Repr

/-- A call as it is shown in a trace. -/
def Frame.text (f : Frame) : String :=
  "at " ++ f.name ++ " (line " ++ toString f.site.line ++ ", column "
    ++ toString f.site.column ++ ")"

/-- The active calls. -/
structure CallStack where
  /-- The calls, the innermost first. -/
  frames : List Frame := []
  /-- The greatest number of calls. -/
  limit : Nat := 1000
  deriving DecidableEq, Repr

namespace CallStack

/-- The number of active calls. -/
def depth (s : CallStack) : Nat := s.frames.length

/-- Enter a call, unless the limit has been reached. -/
def push (s : CallStack) (frame : Frame) : Except Fault CallStack :=
  if s.limit < s.depth + 1 then .error (.stackOverflow (s.depth + 1) s.limit frame.site)
  else .ok { s with frames := frame :: s.frames }

/-- Leave the innermost call. -/
def pop (s : CallStack) : Option Frame × CallStack :=
  (s.frames.head?, { s with frames := s.frames.tail })

/-- The active calls as text, the innermost first. -/
def trace (s : CallStack) : List String := s.frames.map Frame.text

end CallStack

end ScriptCore
