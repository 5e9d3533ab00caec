/-
  DecafFrontEnd/Text/LineBreak/Opportunity.lean --- where a line may end.

  Whether a line may end between two characters depends on the second one and on
  what stands in front of it, which a `BreakContext` keeps.  The rules are asked in
  order, and the first one that speaks of the place decides:

  1. a break follows every line end, and none precedes one, a space or a break
     without a width;
  2. marks and joiners belong to the character before them;
  3. closing marks are not moved to the next line, nor is what follows an opening
     one, even where there are spaces between;
  4. elsewhere spaces are a place for a break;
  5. without spaces a break comes between any two characters that no rule holds
     together: words, numbers with their signs, syllables, pairs of flags.

  They are the rules of the standard as the library of reports follows them (see
  `Text/Wrap.lean`): by pairs of kinds, without tailoring for a language.
-/
import DecafFrontEnd.Text.LineBreak.Kind

set_option autoImplicit false

namespace DecafFrontEnd

/-! ## What stands in front of a place -/

/-- What the rules need to know of the text before a place. -/
structure BreakContext where
  /-- the kind of the last character that is neither a space nor joined to another;
  a space where there is none before the spaces -/
  last : BreakKind
  /-- spaces come after it -/
  spaces : Bool
  /-- the last character is a joiner -/
  joined : Bool
  /-- the last character is a hyphen or the like, after a Hebrew letter -/
  afterHebrew : Bool
  /-- the last characters are an odd number of halves of flags -/
  halfFlag : Bool
  deriving DecidableEq, Repr, Inhabited

namespace BreakKind

/-- Whether a line ends after a character of the kind in any case. -/
def endsLine (k : BreakKind) : Bool :=
  k = mandatory || k = carriageReturn || k = lineFeed || k = nextLine

/-- Whether a character of the kind belongs to the one before it. -/
def isMark (k : BreakKind) : Bool := k = combining || k = joiner

/-- Whether a character of the kind is a letter. -/
def isLetter (k : BreakKind) : Bool := k = alphabetic || k = hebrewLetter

/-- Whether a character of the kind is a picture. -/
def isPicture (k : BreakKind) : Bool := k = ideograph || k = emojiBase || k = emojiModifier

/-- Whether a character of the kind is a Hangul syllable or a part of one. -/
def isHangul (k : BreakKind) : Bool :=
  k = leadingJamo || k = vowelJamo || k = trailingJamo || k = hangulOpen || k = hangulClosed

/-- Whether a character of the kind is a sign that goes with a number. -/
def isUnit (k : BreakKind) : Bool := k = unitAfter || k = unitBefore

/-- Whether a character of the kind closes what another one opens. -/
def isClosing (k : BreakKind) : Bool := k = close || k = closeParenthesis

/-- Whether two characters of these kinds stay together as parts of a number. -/
def joinsNumber (a b : BreakKind) : Bool :=
  (b.isUnit && (a.isClosing || a = numeric)) ||
    (b = opening && a.isUnit) ||
    (b = numeric &&
      (a.isUnit || a = hyphen || a = infixSeparator || a = numeric || a = slash))

/-- Whether two characters of these kinds stay together as parts of a Hangul
syllable. -/
def joinsSyllable (a b : BreakKind) : Bool :=
  (a = leadingJamo &&
      (b = leadingJamo || b = vowelJamo || b = hangulOpen || b = hangulClosed)) ||
    ((a = vowelJamo || a = hangulOpen) && (b = vowelJamo || b = trailingJamo)) ||
    ((a = trailingJamo || a = hangulClosed) && b = trailingJamo)

/-- Whether two neighbours of these kinds stay together, where no other character
matters. -/
def joins (a b : BreakKind) : Bool :=
  -- quotation marks, hyphens and what may not begin a line
  b = quotation || a = quotation ||
    b = breakAfter || b = hyphen || b = nonStarter || a = breakBefore ||
    (a = slash && b = hebrewLetter) || b = inseparable ||
  -- words and numbers
    (a.isLetter && b = numeric) || (a = numeric && b.isLetter) ||
    (a = unitBefore && b.isPicture) || (a.isPicture && b = unitAfter) ||
    (a.isUnit && b.isLetter) || (a.isLetter && b.isUnit) ||
    a.joinsNumber b ||
  -- syllables
    a.joinsSyllable b || (a.isHangul && b = unitAfter) || (a = unitBefore && b.isHangul) ||
  -- letters, and brackets without a space
    (a.isLetter && b.isLetter) || (a = infixSeparator && b.isLetter) ||
    ((a.isLetter || a = numeric) && b = opening) ||
    (a = closeParenthesis && (b.isLetter || b = numeric)) ||
    (a = emojiBase && b = emojiModifier)

end BreakKind

namespace BreakContext

/-- Whether a character of a kind belongs to the one before it: a mark does, unless
that one is a space or ends the line. -/
def attaches (x : BreakContext) (k : BreakKind) : Bool :=
  k.isMark && !x.spaces && !x.last.endsLine && x.last != .zeroWidthSpace

/-- The context after a first character. -/
def start (k : BreakKind) : BreakContext :=
  { last := if k.isMark then .alphabetic else k
    spaces := k = .space
    joined := k = .joiner
    afterHebrew := false
    halfFlag := k = .regional }

/-- The context after one more character. -/
def push (x : BreakContext) (k : BreakKind) : BreakContext :=
  if k = .space then
    if x.last.endsLine then start k else { x with spaces := true, joined := false }
  else if x.attaches k then { x with joined := k = .joiner }
  else
    { start k with
      afterHebrew :=
        x.last = .hebrewLetter && !x.spaces && (k = .hyphen || k = .breakAfter)
      halfFlag := k = .regional && !(x.halfFlag && !x.spaces) }

/-- Whether a line may end in front of a character that is not a mark, where there
are no spaces. -/
def breaksBetween (x : BreakContext) (k : BreakKind) : Bool :=
  if k = .quotation || x.last = .quotation then false
  else if k = .contingent || x.last = .contingent then true
  else !(x.afterHebrew || (x.halfFlag && k = .regional) || x.last.joins k)

/-- Whether a line may end in front of a character of a kind. -/
def breaksBefore (x : BreakContext) (k : BreakKind) : Bool :=
  if x.last.endsLine && !x.spaces then !(x.last = .carriageReturn && k = .lineFeed)
  else if k.endsLine || k = .space || k = .zeroWidthSpace then false
  else if x.last = .zeroWidthSpace then true
  else if x.joined || x.attaches k then false
  else
    let k := if k.isMark then .alphabetic else k
    if k = .wordJoiner then false
    else if !x.spaces && (x.last = .wordJoiner || x.last = .glue) then false
    else if !x.spaces && k = .glue && x.last != .breakAfter && x.last != .hyphen then false
    else if k.isClosing || k = .exclamation || k = .infixSeparator || k = .slash then false
    else if x.last = .opening then false
    else if x.last = .quotation && k = .opening then false
    else if x.last.isClosing && k = .nonStarter then false
    else if x.last = .breakBoth && k = .breakBoth then false
    else if x.spaces then true
    else x.breaksBetween k

end BreakContext

/-! ## Places in a text -/

/-- For each character after the first ones that `x` stands for, whether a line may
end in front of it. -/
def breaksAfter (x : BreakContext) : List Char → List Bool
  | [] => []
  | c :: cs =>
      let k := BreakKind.ofChar c
      x.breaksBefore k :: breaksAfter (x.push k) cs

/-- For each character of a text, whether a line may end in front of it. None ends
in front of the first one. -/
def lineBreaks : List Char → List Bool
  | [] => []
  | c :: cs => false :: breaksAfter (.start (.ofChar c)) cs

theorem length_breaksAfter (x : BreakContext) (cs : List Char) :
    (breaksAfter x cs).length = cs.length := by
  induction cs generalizing x with
  | nil => rfl
  | cons c cs ih => simp [breaksAfter, ih]

@[simp] theorem length_lineBreaks (cs : List Char) : (lineBreaks cs).length = cs.length := by
  cases cs with
  | nil => rfl
  | cons c cs => simp [lineBreaks, length_breaksAfter]

end DecafFrontEnd
