/-
  DecafFrontEnd/Diagnostic/Listener.lean --- who is told of a malformed text.

  The first place at which a text is malformed is a `SyntaxEvent`.  It is handed
  to a `Listener`, which may answer with an error of its own.  Whatever the
  listener does, the compilation ends there: where it gives no error, the event's
  own one is taken.

  The usual listener is the reporter.  It answers the first event with the event's
  own error and no event after that.
-/
import DecafFrontEnd.Grammar.Mismatch
import DecafFrontEnd.Diagnostic.Error

set_option autoImplicit false

namespace DecafFrontEnd

/-! ## Events -/

/-- A place at which a text is malformed. -/
structure SyntaxEvent where
  origin : ErrorOrigin
  position : Position
  /-- the character or token at the place, or the sign for the end of the text -/
  offendingText : String
  message : String
  source : Source
  deriving DecidableEq, Repr

namespace SyntaxEvent

/-- The error of an event. Its bytes are those of the offending text; at the end
of the text there are none. -/
def error (e : SyntaxEvent) : SyntaxError :=
  let length :=
    if e.offendingText = endOfInputText then 0 else byteLength e.offendingText.toList
  { origin := e.origin
    message := e.message
    position := e.position
    reportedName := e.source.displayName
    span := e.source.clampSpan ⟨e.position.offset, length⟩ }

end SyntaxEvent

/-- The message for a character that no token begins with. -/
def unrecognizedMessage (offending : String) : String :=
  "syntax error unrecognized token `" ++ offending ++ "`"

/-- The message for a token that the grammar does not allow. -/
def mismatchMessage (detail : String) : String := "syntax error " ++ detail

/-- The event for a character that no token begins with. -/
def LexFailure.event (f : LexFailure) (s : Source) : SyntaxEvent :=
  let offending := String.ofList (f.offendingText s)
  { origin := .lexer
    position := s.positionAt f.offset
    offendingText := offending
    message := unrecognizedMessage offending
    source := s }

/-- The event for a token that the grammar does not allow. -/
def Mismatch.event (m : Mismatch) (s : Source) : SyntaxEvent :=
  { origin := .parser
    position := s.positionAt m.offset
    offendingText := m.found
    message := mismatchMessage m.message
    source := s }

/-! ## Listeners -/

/-- What a listener with states `σ` does at an event: a new state and, if it
likes, an error. -/
abbrev Listener (σ : Type) : Type := σ → SyntaxEvent → σ × Option SyntaxError

/-- Tells a listener of an event and settles on an error. -/
def Listener.halt {σ : Type} (listener : Listener σ) (state : σ) (event : SyntaxEvent) :
    σ × SyntaxError :=
  let (state', answer) := listener state event
  (state', answer.getD event.error)

/-- What a listener does at each of several events, with the state after it. -/
def Listener.answers {σ : Type} (listener : Listener σ) (state : σ) :
    List SyntaxEvent → List (σ × Option SyntaxError)
  | [] => []
  | event :: events =>
      let step := listener state event
      step :: listener.answers step.1 events

/-! ## The reporter -/

/-- The states of the reporter. It is `reporting` only while it answers. -/
inductive ReporterState where
  | listening
  | reporting
  | halted
  deriving DecidableEq, Repr, Inhabited

namespace ReporterState

/-- The name of a state. -/
def name : ReporterState → String
  | listening => "Listening"
  | reporting => "Reporting"
  | halted => "Halted"

/-- Whether no further event is answered. -/
def isHalted (s : ReporterState) : Bool := s = halted

end ReporterState

/-- The usual listener. -/
def reporter : Listener ReporterState := fun state event =>
  if state.isHalted then (state, none) else (.halted, some event.error)

/-- A listener that keeps every event and answers none. -/
def recorder : Listener (List SyntaxEvent) := fun events event => (events ++ [event], none)

/-- A listener that keeps every event and answers with its error under another
message. -/
def renamer (rename : String → String) : Listener (List SyntaxEvent) := fun events event =>
  (events ++ [event], some { event.error with message := rename event.error.message })

end DecafFrontEnd
