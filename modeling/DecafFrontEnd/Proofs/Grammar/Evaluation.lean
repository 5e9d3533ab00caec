/-
  DecafFrontEnd/Proofs/Grammar/Evaluation.lean --- evaluation is matching.

  A tight rule takes what its primitive scan takes (`Rule.agrees_of_isTight`), and so does
  every primitive scan of a spaced rule (`Primitive.agrees`).  The evaluation of a pattern
  is therefore its match, and by induction on the depth the evaluation of a rule is its
  match wherever it finishes (`Rule.agrees_evaluateWithin`): with the same nodes, at the
  same place, with the same attempts.
-/
import DecafFrontEnd.Proofs.Grammar.WrittenOut

set_option autoImplicit false

namespace DecafFrontEnd

open Element

/-! ## A character literal's inside that is read on its own -/

theorem not_isLineBreak_skipTrivia (cs : List Char) :
    (skipTrivia cs).head?.any isLineBreak = false := by
  have hrested := leadingTrivia_skipTrivia cs
  cases hrest : skipTrivia cs with
  | nil => rfl
  | cons c r =>
      rw [hrest] at hrested
      cases hline : isLineBreak c with
      | false => simp [hline]
      | true => simp [leadingTrivia_of_isBlank (isBlank_of_isLineBreak hline)] at hrested

theorem skipTrivia_skipTrivia (cs : List Char) : skipTrivia (skipTrivia cs) = skipTrivia cs := by
  have happend := leadingTrivia_append_skipTrivia (skipTrivia cs)
  rwa [leadingTrivia_skipTrivia, List.nil_append] at happend

theorem drop_leadingTrivia (cs : List Char) : cs.drop (leadingTrivia cs).length = skipTrivia cs :=
  drop_of_append (leadingTrivia_append_skipTrivia cs)

/-- Trivia may stand in front of the one character that is not of a class. -/
theorem Element.Scans.other_spaced {p : Element} {q : Char → Bool}
    (hp : p.Scans .spaced (unlessChar q)) :
    (Element.seq p any).Scans .spaced fun cs =>
      if cs.head?.any q then none else triviaAndChar cs := by
  refine (hp.seq Spacing.skips_spaced scans_any).congr fun cs => ?_
  unfold scanBehind unlessChar triviaAndChar
  split
  · rfl
  · simp only [Option.bind_some, List.length_nil, List.drop_zero, List.nil_append,
      drop_leadingTrivia]
    cases skipTrivia cs <;> simp [oneChar]

theorem scans_charBody : Rule.charBody.element.Scans .spaced looseCharBody := by
  have hescape := (scans_char '\\').seq Spacing.skips_spaced scans_unlessLineEnd.other_spaced
  refine (hescape.alt (scans_unlessSpecial '\'').other_spaced).congr fun cs => ?_
  cases cs with
  | nil => rfl
  | cons c cs =>
      by_cases hc : c = '\\'
      · subst hc
        have hspecial : oneChar (· = '\\') ('\\' :: cs) = some ['\\'] := by simp [oneChar]
        have hdrop : ('\\' :: cs).drop ('\\' :: leadingTrivia cs).length = skipTrivia cs := by
          rw [List.length_cons, List.drop_succ_cons, drop_leadingTrivia]
        simp only [scanBehind, hspecial, Option.bind_some, List.length_singleton, List.drop_one,
          List.tail_cons, List.singleton_append, hdrop, not_isLineBreak_skipTrivia]
        have hchar : (triviaAndChar (skipTrivia cs)).map (leadingTrivia cs ++ ·) =
            triviaAndChar cs := by
          unfold triviaAndChar
          rw [leadingTrivia_skipTrivia, skipTrivia_skipTrivia]
          cases skipTrivia cs <;> simp
        simp [looseCharBody, ← hchar, Function.comp_def]
      · simp [scanBehind, oneChar, looseCharBody, hc]

/-! ## Primitive scans -/

/-- The match of a primitive scan. -/
def Matcher.primitive (p : Primitive) : Matcher := fun c a =>
  match p.take? c with
  | some text => .matched [] (c.advance text.length) a
  | none => .failed a

/-- An element that scans as a primitive does is matched as that one is. -/
theorem Element.Scans.agrees {s : Spacing} {e : Element} {f : List Char → Option (List Char)}
    {p : Primitive} (h : e.Scans s f) (hp : ∀ c, p.take? c = f c.rest) (depth : Nat) :
    (e.evaluateIn (Rule.evaluateWithin depth) s).Agrees (.primitive p) := by
  intro c a
  have htake : Matcher.primitive p c a = Matcher.taking f c a := by
    unfold Matcher.primitive Matcher.taking
    cases hf : f c.rest <;> simp only [hp, hf]
  rw [htake]
  exact h depth c a

namespace Primitive

/-- The scans that stand in rules that are not tight. -/
def isSpaced : Primitive → Bool
  | inputStart | inputEnd | wordChar | charBody => true
  | lexeme t => !(Rule.terminal t).isTight
  | blank | comment | trivia => false

theorem agrees {p : Primitive} (hp : p.isSpaced = true) (depth : Nat) :
    (p.element.evaluateIn (Rule.evaluateWithin depth) .spaced).Agrees (.primitive p) := by
  cases p with
  | inputStart =>
      intro c a
      right
      unfold evaluateIn element evaluate Matcher.primitive take?
      split <;> simp [Cursor.advance_zero]
  | inputEnd =>
      intro c a
      right
      unfold evaluateIn element evaluate Matcher.primitive take?
      split <;> simp [Cursor.advance_zero]
  | wordChar => exact scans_wordChar.agrees (fun _ => rfl) depth
  | charBody => exact scans_charBody.agrees (fun _ => rfl) depth
  | lexeme t =>
      cases t with
      | keyword _ | ident | intLit | charLit | stringLit => simp [isSpaced, Rule.isTight] at hp
      | _ => exact (scans_anyOf _).agrees (fun _ => rfl) depth
  | blank | comment | trivia => simp [isSpaced] at hp

end Primitive

/-- A tight rule is made of one primitive scan, and is matched as that one is. -/
theorem Rule.agrees_of_isTight {r : Rule} (hr : r.isTight = true) (depth : Nat)
    (call : Rule → Matcher) :
    (r.element.evaluateIn (evaluateWithin depth) .tight).Agrees (r.body.matchWith call) := by
  cases r with
  | blank => exact scans_blank.agrees (p := .blank) (fun _ => rfl) depth
  | comment => exact scans_comment.agrees (p := .comment) (fun _ => rfl) depth
  | trivia => exact scans_trivia.agrees (p := .trivia) (fun _ => rfl) depth
  | terminal t =>
      cases t with
      | keyword k => exact (scans_keyword k).agrees (p := .lexeme _) (fun _ => rfl) depth
      | ident => exact scans_ident.agrees (p := .lexeme _) (fun _ => rfl) depth
      | intLit => exact scans_intLit.agrees (p := .lexeme _) (fun _ => rfl) depth
      | charLit => exact scans_charLit.agrees (p := .lexeme _) (fun _ => rfl) depth
      | stringLit => exact scans_stringLit.agrees (p := .lexeme _) (fun _ => rfl) depth
      | _ => simp [isTight] at hr
  | _ => simp [isTight] at hr

/-! ## Patterns -/

/-- Whether all primitive scans in a pattern may stand in a rule that is not tight. -/
def Pattern.isSpaced : Pattern → Bool
  | prim p => p.isSpaced
  | rule _ => true
  | seq p q | alt p q => p.isSpaced && q.isSpaced
  | opt p | many p => p.isSpaced

theorem Rule.isSpaced_body {r : Rule} (h : r.isTight = false) : r.body.isSpaced = true := by
  have key : ∀ r ∈ all, r.isTight = false → r.body.isSpaced = true := by decide
  exact key r r.mem_all h

/-- A match behind what stands between two parts begins behind the trivia. -/
theorem Matcher.Agrees.behind {step step' : Matcher} (h : step.Agrees step') (depth : Nat) :
    ((Spacing.spaced.gap (Rule.evaluateWithin depth)).behind step).Agrees
      fun c a => step' c.skip a := by
  intro c a
  unfold Matcher.behind
  rcases Spacing.skips_spaced depth c a with hgap | hgap
  · left
    rw [hgap]
  · rw [hgap, taking_some (f := fun cs => some (leadingTrivia cs)) rfl,
      Cursor.advance_leadingTrivia]
    exact h c.skip a

theorem Matcher.again_agrees {step step' : Matcher}
    (h : step.Agrees fun c a => step' c.skip a) :
    ∀ (rounds : Nat) (nodes : List Tree), (again step rounds nodes).Agrees
      (repeatAfter step' rounds nodes) := by
  intro rounds
  induction rounds with
  | zero =>
      intro nodes c a
      exact Or.inl rfl
  | succ rounds ih =>
      intro nodes c a
      unfold again repeatAfter
      rcases h c a with hround | hround
      · left
        rw [hround]
      · simp only [hround]
        cases step' c.skip a with
        | matched more d b => exact ih (nodes ++ more) d b
        | failed b => exact Or.inr rfl
        | unfinished => exact Or.inl rfl

/-- The evaluation of a pattern is its match if the rules that it calls agree. -/
theorem Pattern.agrees_element {depth : Nat} {call : Rule → Matcher}
    (hcall : ∀ r, (Rule.evaluateWithin depth .spaced r).Agrees (call r)) :
    ∀ p : Pattern, p.isSpaced = true →
      (p.element.evaluateIn (Rule.evaluateWithin depth) .spaced).Agrees (p.matchWith call) := by
  intro p
  induction p with
  | prim p => exact fun hp => Primitive.agrees hp depth
  | rule r => exact fun _ => hcall r
  | seq p q ihp ihq =>
      intro hspaced c a
      simp only [isSpaced, Bool.and_eq_true] at hspaced
      have hbehind := (ihq hspaced.2).behind depth
      unfold evaluateIn element evaluate matchWith
      rcases ihp hspaced.1 c a with hfirst | hfirst <;> unfold evaluateIn at hfirst
      · left
        rw [hfirst]
      · rw [hfirst]
        cases p.matchWith call c a with
        | matched first d b =>
            rcases hbehind d b with hsecond | hsecond <;> unfold evaluateIn at hsecond
            · left
              simp only [hsecond]
            · right
              cases hq : q.matchWith call d.skip b <;> simp only [hsecond, hq]
        | failed b => exact Or.inr rfl
        | unfinished => exact Or.inl rfl
  | alt p q ihp ihq =>
      intro hspaced c a
      simp only [isSpaced, Bool.and_eq_true] at hspaced
      unfold evaluateIn element evaluate matchWith
      rcases ihp hspaced.1 c a with hfirst | hfirst <;> unfold evaluateIn at hfirst
      · left
        rw [hfirst]
      · rw [hfirst]
        cases p.matchWith call c a with
        | matched nodes d b => exact Or.inr rfl
        | failed b => exact ihq hspaced.2 c b
        | unfinished => exact Or.inl rfl
  | opt p ih =>
      intro hspaced c a
      unfold evaluateIn element evaluate matchWith
      rcases ih hspaced c a with hfirst | hfirst <;> unfold evaluateIn at hfirst
      · left
        rw [hfirst]
      · right
        cases hp : p.matchWith call c a <;> simp only [hfirst, hp]
  | many p ih =>
      intro hspaced c a
      have hrounds := Matcher.again_agrees ((ih hspaced).behind depth)
      unfold evaluateIn element evaluate matchWith
      rcases ih hspaced c a with hfirst | hfirst <;> unfold evaluateIn at hfirst
      · left
        rw [hfirst]
      · rw [hfirst]
        cases p.matchWith call c a with
        | matched nodes d b => exact hrounds (d.rest.length + 1) nodes d b
        | failed b => exact Or.inr rfl
        | unfinished => exact Or.inl rfl

/-! ## Rules -/

theorem Matcher.Agrees.wrap {m m' : Matcher} (h : m.Agrees m') (r : Rule) :
    (r.wrap m).Agrees (r.wrap m') := by
  intro c a
  unfold Rule.wrap
  rcases h c a with hbody | hbody
  · left
    rw [hbody]
  · right
    rw [hbody]

namespace Rule

/-- Evaluating a rule within some depth matches it within that depth, or does not
finish. -/
theorem agrees_evaluateWithin : ∀ (depth : Nat) (r : Rule),
    (evaluateWithin depth .spaced r).Agrees (r.matchWithin depth) := by
  intro depth
  induction depth with
  | zero =>
      intro r c a
      exact Or.inl rfl
  | succ depth ih =>
      intro r
      -- only the spaced rules go on to the rules that they call
      have hbody : (r.element.evaluateIn (evaluateWithin depth) (Spacing.spaced.within r)).Agrees
          (r.body.matchWith (matchWithin depth)) := by
        unfold Spacing.within
        cases htight : r.isTight with
        | true => exact agrees_of_isTight htight depth _
        | false => exact Pattern.agrees_element ih r.body (isSpaced_body htight)
      exact hbody.wrap r

/-- A match that finishes within some depth is the match. -/
theorem matchWithin_eq_matchAt {r : Rule} {depth : Nat} {c : Cursor}
    (h : r.matchWithin depth c .none ≠ .unfinished) :
    r.matchWithin depth c .none = r.matchAt c :=
  (matchAt_eq (runs_of_matchWithin depth r c .none h)).symm

end Rule

end DecafFrontEnd
