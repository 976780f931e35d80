/-!
# Diagnostics and the log

Two channels report what went on in a run and never stop it.

* A `Warning` is a finding about a template, with a stable `WarningCode`. A compilation unit
  collects its warnings in a `WarningList`, in the order they were found.
* A `Log.Entry` is a line for the person at the terminal, from one of the named parts of the
  compiler. Every warning collected is also a debug entry.

`Logged` is a computation that leaves log entries behind.
-/

namespace Trellis

/-- The kinds of findings about a template. -/
inductive WarningCode where
  | malformedFor
  | emptyFor
  | orphanElse
  | emptyIf
  | unknownDirective
  | emptyBinding
  | malformedTwoWay
  | dangerousBinding
  | unknownPipe
  | emptyPipeName
  | unclosedTag
  | malformedAttribute
  deriving DecidableEq, Repr

/-- The name a code is reported under. -/
def WarningCode.label : WarningCode → String
  | .malformedFor => "INVALID_FOR_SYNTAX"
  | .emptyFor => "EMPTY_FOR_EXPRESSION"
  | .orphanElse => "ORPHAN_ELSE"
  | .emptyIf => "EMPTY_IF_CONDITION"
  | .unknownDirective => "UNKNOWN_DIRECTIVE"
  | .emptyBinding => "EMPTY_BINDING_EXPRESSION"
  | .malformedTwoWay => "INVALID_TWO_WAY_BINDING"
  | .dangerousBinding => "DANGEROUS_BINDING"
  | .unknownPipe => "UNKNOWN_PIPE"
  | .emptyPipeName => "EMPTY_PIPE_NAME"
  | .unclosedTag => "UNCLOSED_TAG"
  | .malformedAttribute => "MALFORMED_ATTRIBUTE"

/-- All codes. -/
def WarningCode.all : List WarningCode :=
  [.malformedFor, .emptyFor, .orphanElse, .emptyIf, .unknownDirective, .emptyBinding,
    .malformedTwoWay, .dangerousBinding, .unknownPipe, .emptyPipeName, .unclosedTag,
    .malformedAttribute]

/-- The code reported under a given name. -/
def WarningCode.ofLabel? (name : String) : Option WarningCode :=
  WarningCode.all.find? (·.label == name)

/-- How much a finding weighs. -/
inductive Severity where
  | warning
  | info
  deriving DecidableEq, Repr

/-- The name of a severity. -/
def Severity.label : Severity → String
  | .warning => "warning"
  | .info => "info"

/-- A finding about a template. -/
structure Warning where
  code : WarningCode
  message : String
  severity : Severity := .warning
  deriving DecidableEq, Repr

/-- The finding in one line. -/
def Warning.text (w : Warning) : String := "[" ++ w.code.label ++ "] " ++ w.message

namespace Log

/-- The levels of log entries, least urgent first. -/
inductive Level where
  | debug
  | info
  | warning
  | error
  deriving DecidableEq, Repr

/-- The name of a level. -/
def Level.label : Level → String
  | .debug => "DEBUG"
  | .info => "INFO"
  | .warning => "WARNING"
  | .error => "ERROR"

/-- The urgency of a level. -/
def Level.rank : Level → Nat
  | .debug => 0
  | .info => 1
  | .warning => 2
  | .error => 3

/-- A line of the log: the part of the compiler that wrote it, its level and its text. -/
structure Entry where
  level : Level
  channel : String
  message : String
  deriving DecidableEq, Repr

/-- The full name of the channel of a part of the compiler; without a part, the compiler's own. -/
def channelName (part : Option String) : String :=
  match part with
  | none => "sprig"
  | some part => if part.isEmpty then "sprig" else "sprig." ++ part

/-- An entry of a part of the compiler. -/
def entry (level : Level) (part message : String) : Entry :=
  ⟨level, channelName (some part), message⟩

/-- The entries at least as urgent as `least`. -/
def atLeast (least : Level) (entries : List Entry) : List Entry :=
  entries.filter fun e => least.rank ≤ e.level.rank

/-- The line that the terminal shows for an entry. -/
def Entry.terminalLine (e : Entry) : String :=
  "[sprig] " ++ e.level.label ++ " " ++ e.message ++ "\n"

/-- The line that a log file holds for an entry, after a time stamp. -/
def Entry.fileLine (stamp : String) (e : Entry) : String :=
  stamp ++ " " ++ e.channel ++ " " ++ e.level.label ++ " " ++ e.message ++ "\n"

/-- The least urgent level shown: debug entries only in a verbose run. -/
def threshold (verbose : Bool) : Level := if verbose then .debug else .info

/-- What the terminal shows of a run. -/
def terminal (verbose : Bool) (entries : List Entry) : String :=
  String.join ((atLeast (threshold verbose) entries).map Entry.terminalLine)

/-- What a log file holds after a run, every line with the same stamp. -/
def file (verbose : Bool) (stamp : String) (entries : List Entry) : String :=
  String.join ((atLeast (threshold verbose) entries).map (Entry.fileLine stamp))

end Log

/-- A value together with the log entries that computing it left behind. -/
structure Logged (α : Type) where
  value : α
  log : List Log.Entry := []

namespace Logged

instance : Monad Logged where
  pure a := ⟨a, []⟩
  bind x f :=
    let y := f x.value
    ⟨y.value, x.log ++ y.log⟩

/-- Leaves one entry behind. -/
def tell (level : Log.Level) (part message : String) : Logged Unit :=
  ⟨(), [Log.entry level part message]⟩

/-- Leaves several entries behind. -/
def tellAll (entries : List Log.Entry) : Logged Unit := ⟨(), entries⟩

end Logged

/-- The debug entry of a collected warning. -/
def Warning.logEntry (w : Warning) : Log.Entry := Log.entry .debug "diagnostics" w.text

/-- The warnings of a compilation unit, in the order they were found. -/
abbrev WarningList := List Warning

/-- The warnings with one more, which also goes to the log. -/
def WarningList.collect (ws : WarningList) (w : Warning) : Logged WarningList :=
  ⟨ws ++ [w], [w.logEntry]⟩

/-- The property names whose values are raw markup. -/
def dangerousBindings : List String := ["innerHTML", "outerHTML", "dangerouslySetInnerHTML"]

/-- Binding to this name can inject markup. -/
def isDangerousBinding (name : String) : Bool := dangerousBindings.contains name

end Trellis
