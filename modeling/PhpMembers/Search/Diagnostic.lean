import PhpMembers.Classes.Hierarchy
import PhpMembers.Text.Lines

/-! # Diagnostics

A search goes on where something is unclear, and notes why it has left out or kept a place. A note becomes
a diagnostic once it is known where the lines of the text begin.

* `Note` : the reasons, with `Note.severity`, `Note.code`, `Note.span` and `Note.message`.
* `Diagnostic`, `Note.diagnostic` : what is shown to a reader.
* `DiagnosticLog` : diagnostics in the order in which they were reported.
-/

namespace PhpMembers

/-- How serious a diagnostic is. -/
inductive Severity
  /-- Something is wrong. -/
  | error
  /-- Something may be wrong. -/
  | warning
  /-- Something is worth knowing. -/
  | info
  /-- Something could be better. -/
  | hint
deriving DecidableEq, Inhabited

/-- The word for a severity. -/
def Severity.display : Severity → String
  | .error => "error"
  | .warning => "warning"
  | .info => "info"
  | .hint => "hint"

/-- Something unclear that a search has come across. -/
inductive Note
  /-- The name in an access is computed at run time. -/
  | computedName (kind : MemberKind) (written : Text) (span : Span)
  /-- The class in a static access is computed at run time. -/
  | computedClass (name : MemberName) (span : Span)
  /-- A declaration has lost its name. -/
  | namelessDeclaration (kind : MemberKind) (span : Span)
  /-- A declaration stands in a class without a name. -/
  | anonymousOwner (kind : MemberKind) (name : MemberName) (span : Span)
  /-- A declaration is left out because its class is not known. -/
  | unknownOwner (owner : ClassName) (name : MemberName) (span : Span)
  /-- An access is kept although the class of its receiver is not known. -/
  | unknownReceiver (owner : ClassName) (name : MemberName) (span : Span)
  /-- The class of the query is not known. -/
  | unknownTarget (target : ClassName)
  /-- The class of the query has the member from several interfaces, of which the first is used. -/
  | severalInterfaces (target : ClassName) (name : MemberName) (first : ClassName)
    (others : List ClassName)
deriving DecidableEq

namespace Note

/-- Notes on what is left out or kept by guess are warnings. -/
def severity : Note → Severity
  | computedName _ _ _ | namelessDeclaration _ _ => .warning
  | unknownOwner _ _ _ | unknownReceiver _ _ _ | unknownTarget _ => .warning
  | computedClass _ _ | anonymousOwner _ _ _ | severalInterfaces _ _ _ _ => .info

/-- The code of a note. -/
def code : Note → String
  | unknownOwner _ _ _ | unknownTarget _ => "W0001"
  | computedName _ _ _ => "W0002"
  | namelessDeclaration _ _ => "W0003"
  | unknownReceiver _ _ _ => "W0004"
  | severalInterfaces _ _ _ _ => "I0001"
  | computedClass _ _ => "I0002"
  | anonymousOwner _ _ _ => "I0003"

/-- The range that a note is about. Notes about the query itself are put at the start of the text. -/
def span : Note → Span
  | computedName _ _ span | computedClass _ span | namelessDeclaration _ span => span
  | anonymousOwner _ _ span | unknownOwner _ _ span | unknownReceiver _ _ span => span
  | unknownTarget _ | severalInterfaces _ _ _ _ => ⟨0, 0⟩

/-- A text in quotes. -/
def quoted (text : Text) : String := "`" ++ String.ofList text ++ "`"

/-- What a note says. -/
def message : Note → String
  | computedName kind written _ =>
    kind.display ++ " name " ++ quoted written ++ " is computed at runtime"
  | computedClass name _ =>
    "static access to " ++ quoted name.text ++ " through an expression is not resolved"
  | namelessDeclaration kind _ => kind.display ++ " declaration without a name"
  | anonymousOwner kind name _ =>
    kind.display ++ " " ++ quoted name.text ++ " is declared in an anonymous class; skipped"
  | unknownOwner owner name _ =>
    owner.notFoundMessage ++ "; skipping declaration of " ++ quoted name.text
  | unknownReceiver owner name _ =>
    owner.notFoundMessage ++ "; accepting " ++ quoted name.text ++ " on " ++ quoted owner.text
      ++ " unverified"
  | unknownTarget target =>
    target.notFoundMessage ++ "; matching declarations against " ++ quoted target.text ++ " textually"
  | severalInterfaces target name first others =>
    let names := (first :: others).map fun c => String.ofList c.text
    quoted name.text ++ " is declared by several interfaces of " ++ quoted target.text ++ " ("
      ++ ", ".intercalate names ++ "); using " ++ quoted first.text

end Note

/-- What is shown to a reader. -/
structure Diagnostic where
  /-- How serious it is. -/
  severity : Severity
  /-- The range of the text that it is about. -/
  span : Span
  /-- The line and column at which the range starts. -/
  position : Position
  /-- Its code. -/
  code : Option String
  /-- What it says. -/
  message : String
deriving DecidableEq

/-- The diagnostic for a note. -/
def Note.diagnostic (lines : LineTable) (note : Note) : Diagnostic :=
  ⟨note.severity, note.span, lines.position note.span.start, some note.code, note.message⟩

/-- Diagnostics in the order in which they were reported. -/
structure DiagnosticLog where
  /-- The diagnostics, the first one first. -/
  entries : List Diagnostic
deriving DecidableEq, Inhabited

namespace DiagnosticLog

/-- Nothing has been reported. -/
def empty : DiagnosticLog := ⟨[]⟩

/-- Add a diagnostic at the end. -/
def report (log : DiagnosticLog) (d : Diagnostic) : DiagnosticLog := ⟨log.entries ++ [d]⟩

/-- Everything that was reported, and the log without it. -/
def take (log : DiagnosticLog) : List Diagnostic × DiagnosticLog := (log.entries, empty)

/-- The number of diagnostics. -/
def size (log : DiagnosticLog) : Nat := log.entries.length

/-- Whether nothing has been reported. -/
def isEmpty (log : DiagnosticLog) : Bool := log.entries.isEmpty

/-- Whether a diagnostic with a code has been reported. -/
def hasCode (log : DiagnosticLog) (code : String) : Bool :=
  log.entries.any fun d => d.code == some code

end DiagnosticLog

end PhpMembers
