/-
  DecafFrontEnd/Compile.lean --- from the text of a program to its tree.

  A text is divided into tokens and parsed.  Both stop at the first place that
  they cannot get past, and of the two places the earlier one is reported; where
  they are the same, it is the character that no token begins with.  A text that
  passes both is lowered.
-/
import DecafFrontEnd.Diagnostic.Listener
import DecafFrontEnd.Lowering.Program

set_option autoImplicit false

namespace DecafFrontEnd

namespace Source

/-- The tree of a text, or the event of the first place at which it is
malformed. -/
def parseOrEvent (s : Source) : Except SyntaxEvent Tree :=
  let lexFailure? := match s.tokenize with
    | .ok _ => none
    | .error f => some f
  match s.parseProgram, lexFailure? with
  | .ok tree, none => .ok tree
  | .ok _, some f => .error (f.event s)
  | .error m, none => .error (m.event s)
  | .error m, some f =>
      if f.offset ≤ m.offset then .error (f.event s) else .error (m.event s)

/-- Compiles a text and tells a listener of it where it is malformed. -/
def compileWith {σ : Type} (s : Source) (listener : Listener σ) (state : σ) :
    σ × Except CompileError Program :=
  match s.parseOrEvent with
  | .ok tree => (state, s.lowerProgram tree)
  | .error event =>
      let (state', error) := listener.halt state event
      (state', .error (.malformed error))

/-- Compiles several texts, one after the other, and tells one listener of those
that are malformed. Each result comes with the state after it. -/
def compileEach {σ : Type} (listener : Listener σ) (state : σ) :
    List Source → List (σ × Except CompileError Program)
  | [] => []
  | s :: ss =>
      let step := s.compileWith listener state
      step :: compileEach listener step.1 ss

/-- Compiles a text. -/
def compile (s : Source) : Except CompileError Program :=
  (s.compileWith reporter .listening).2

/-- The tokens of a text, or the error at the first character that no token
begins with. -/
def tokens (s : Source) : Except CompileError (List Token) :=
  match s.tokenize with
  | .ok ts => .ok ts
  | .error f => .error (.malformed (reporter.halt .listening (f.event s)).2)

end Source

end DecafFrontEnd
