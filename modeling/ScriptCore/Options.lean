/-!
# Options

The settings of a session, and how they are taken from a list of command-line arguments.

`Options.ofArguments` consumes the settings it knows and leaves every other argument where it
is. A setting with a value is a key and the argument after it; the first occurrence of the key
counts, and the pair is removed only once its value has been read. A flag is removed at its
first occurrence. The settings are taken in a fixed order and the first error ends the reading.
-/

namespace ScriptCore

/-- The settings of one session. -/
structure Options where
  /-- The heap size in slots, the null slot included. -/
  heapSize : Nat := 65536
  /-- The greatest number of nested calls. -/
  stackLimit : Nat := 1000
  /-- Report each collection that an allocation triggers at a higher level. -/
  gcTrace : Bool := false
  /-- Report the result of each collection at a higher level. -/
  gcSummary : Bool := false
  /-- Check frees against object headers and audit rebuilt free lists. -/
  checkContracts : Bool := true
  /-- Slide objects together when a collection does not make enough room. -/
  compaction : Bool := true
  deriving DecidableEq, Repr

/-- Why a text is no number. -/
inductive NumberError
  /-- There is no text. -/
  | empty
  /-- A character is no decimal digit. -/
  | invalidDigit
  /-- The number does not fit into 64 bits. -/
  | tooLarge
  deriving DecidableEq, Repr

/-- The wording of a number error. -/
def NumberError.message : NumberError → String
  | .empty => "cannot parse integer from empty string"
  | .invalidDigit => "invalid digit found in string"
  | .tooLarge => "number too large to fit in target type"

/-- Read decimal digits after the value `acc`: the first character that is no digit, or at which
the number leaves 64 bits, decides the error. -/
def readDigits (acc : Nat) : List Char → Except NumberError Nat
  | [] => .ok acc
  | c :: rest =>
    if c.isDigit then
      let next := acc * 10 + (c.toNat - '0'.toNat)
      if next < 2 ^ 64 then readDigits next rest else .error .tooLarge
    else .error .invalidDigit

/-- Read an unsigned 64-bit number: decimal digits, with a plus sign before them or not. -/
def readNumber (s : String) : Except NumberError Nat :=
  match s.toList with
  | [] => .error .empty
  | ['+'] => .error .invalidDigit
  | '+' :: digits => readDigits 0 digits
  | digits => readDigits 0 digits

/-- Why a list of arguments is refused. -/
inductive ArgumentError
  /-- The key is the last argument. -/
  | missingValue (key : String)
  /-- The value of a key is no number. -/
  | badNumber (text : String) (cause : NumberError)
  deriving DecidableEq, Repr

/-- The wording of an argument error. -/
def ArgumentError.message : ArgumentError → String
  | .missingValue key => s!"the '{key}' option doesn't have an associated value"
  | .badNumber text cause => s!"failed to parse '{text}': " ++ cause.message

namespace Options

/-- Reading arguments: the arguments left over, and a result or an error. -/
abbrev Reader := ExceptT ArgumentError (StateM (List String))

/-- Take the value of `key`, if the key occurs. -/
def takeNumber (key : String) : Reader (Option Nat) := do
  let args ← get
  match args.dropWhile (· != key) with
  | [] => return none
  | [_] => throw (.missingValue key)
  | _ :: value :: rest =>
    match readNumber value with
    | .error cause => throw (.badNumber value cause)
    | .ok n =>
      set (args.takeWhile (· != key) ++ rest)
      return some n

/-- Take one occurrence of the flag `key`, and say whether there was one. -/
def takeFlag (key : String) : Reader Bool := do
  let args ← get
  set (args.erase key)
  return args.contains key

/-- Take every setting, with the default for those that do not occur. -/
def reader : Reader Options := do
  let defaults : Options := {}
  let heapSize ← takeNumber "--heap-size"
  let stackLimit ← takeNumber "--stack-limit"
  let gcTrace ← takeFlag "--gc-trace"
  let gcSummary ← takeFlag "--gc-summary"
  let noContracts ← takeFlag "--no-contracts"
  let noCompaction ← takeFlag "--no-compaction"
  return {
    heapSize := heapSize.getD defaults.heapSize
    stackLimit := stackLimit.getD defaults.stackLimit
    gcTrace, gcSummary
    checkContracts := !noContracts
    compaction := !noCompaction }

/-- The options that `args` ask for, and the arguments that are left. -/
def ofArguments (args : List String) : Except ArgumentError Options × List String :=
  reader.run args

end Options

end ScriptCore
