/-
  DecafFrontEnd/Proofs/Grammar/Scans.lean --- elements that match as the scans do.

  A right-hand side that is written out takes what the scan takes for which it stands:
  `Element.Scans` says so of an element and a scan, whatever the depth at which rules are
  matched, as long as the match finishes.  It is closed under what elements are made of,
  so each class of lexemes and the trivia is put together part by part, and what comes out
  is then compared with the scan of the lexer.
-/
import DecafFrontEnd.Proofs.Grammar.Element
import DecafFrontEnd.Proofs.Lexical.Trivia

set_option autoImplicit false

namespace DecafFrontEnd

/-! ## Scans -/

/-- Matches what a scan takes. -/
def Matcher.taking (f : List Char → Option (List Char)) : Matcher := fun c a =>
  match f c.rest with
  | some text => .matched [] (c.advance text.length) a
  | none => .failed a

theorem Matcher.taking_some {f : List Char → Option (List Char)} {c : Cursor}
    {text : List Char} (h : f c.rest = some text) (a : Attempts) :
    taking f c a = .matched [] (c.advance text.length) a := by
  rw [taking, h]

theorem Matcher.taking_none {f : List Char → Option (List Char)} {c : Cursor}
    (h : f c.rest = none) (a : Attempts) : taking f c a = .failed a := by
  rw [taking, h]

/-- A match does what another one does, wherever it finishes. -/
def Matcher.Agrees (m m' : Matcher) : Prop := ∀ c a, m c a = .unfinished ∨ m c a = m' c a

/-- An element takes what a scan does, at whatever depth its match finishes. -/
def Element.Scans (s : Spacing) (e : Element) (f : List Char → Option (List Char)) : Prop :=
  ∀ depth, (e.evaluateIn (Rule.evaluateWithin depth) s).Agrees (.taking f)

/-- What stands between two parts takes what a scan does. -/
def Spacing.Skips (s : Spacing) (f : List Char → List Char) : Prop :=
  ∀ depth, (s.gap (Rule.evaluateWithin depth)).Agrees (.taking fun cs => some (f cs))

/-- A scan behind another one and what is skipped between them. -/
def scanBehind (f : List Char → Option (List Char)) (skipped : List Char → List Char)
    (g : List Char → Option (List Char)) (cs : List Char) : Option (List Char) :=
  (f cs).bind fun first =>
    let front := first ++ skipped (cs.drop first.length)
    (g (cs.drop front.length)).map (front ++ ·)

/-- The scan of one spelling. -/
def spellingScan (w cs : List Char) : Option (List Char) :=
  if w.isPrefixOf cs then some w else none

/-- A scan takes in one go what another one takes in rounds, as often as it fits. -/
def Iterates (f : List Char → Option (List Char)) (g : List Char → List Char) : Prop :=
  ∀ cs, g cs = match f cs with
    | some text => text ++ g (cs.drop text.length)
    | none => []

theorem Spacing.skips_tight : Spacing.tight.Skips fun _ => [] := fun _ _ _ => Or.inr rfl

/-- A round and the others behind it, if it fits, take what all of them do. -/
theorem Iterates.agrees_round {f : List Char → Option (List Char)} {g : List Char → List Char}
    (hg : Iterates f g) {step : Matcher} {others : Cursor → List Tree → Matcher}
    (hstep : step.Agrees (.taking f))
    (hothers : ∀ d, (others d []).Agrees (.taking fun cs => some (g cs))) :
    Matcher.Agrees
      (fun c a => match step c a with
        | .matched nodes d b => others d nodes d b
        | .failed b => .matched [] c b
        | .unfinished => .unfinished)
      (.taking fun cs => some (g cs)) := by
  intro c a
  rcases hstep c a with hround | hround
  · left
    simp only [hround]
  · rw [Matcher.taking_some (f := fun cs => some (g cs)) rfl, hg c.rest]
    cases hf : f c.rest with
    | none =>
        right
        simp only [hround, Matcher.taking_none hf, List.length_nil, Cursor.advance_zero]
    | some text =>
        simp only [hround, Matcher.taking_some hf, List.length_append, ← Cursor.advance_advance,
          ← Cursor.rest_advance]
        exact hothers _ (c.advance text.length) a

namespace Element

variable {s : Spacing} {p q : Element} {r : Rule} {f g : List Char → Option (List Char)}
  {skipped : List Char → List Char}

theorem Scans.congr (h : p.Scans s f) (hfg : ∀ cs, f cs = g cs) : p.Scans s g := by
  rwa [← funext hfg]

theorem scans_word (w : List Char) : (word w).Scans s (spellingScan w) := by
  intro depth c a
  right
  unfold evaluateIn evaluate Matcher.taking spellingScan
  split <;> rfl

theorem scans_one (p : Char → Bool) : (one p).Scans s (oneChar p) := by
  intro depth c a
  right
  unfold evaluateIn evaluate Matcher.taking oneChar
  cases c.rest with
  | nil => rfl
  | cons x cs => by_cases hx : p x = true <;> simp [hx]

/-- Within a tight rule a rule leaves nothing but what its own parts take. -/
theorem scans_rule (h : r.element.Scans .tight f) : (rule r).Scans .tight f := by
  intro depth c a
  cases depth with
  | zero => exact Or.inl rfl
  | succ depth =>
      have hwithin : Spacing.tight.within r = .tight := by
        unfold Spacing.within
        split <;> rfl
      have hbody := h depth c a
      rw [← hwithin] at hbody
      exact hbody

theorem Scans.alt (hp : p.Scans s f) (hq : q.Scans s g) :
    (Element.alt p q).Scans s fun cs => (f cs).or (g cs) := by
  intro depth c a
  unfold evaluateIn evaluate
  rcases hp depth c a with hfirst | hfirst <;> unfold evaluateIn at hfirst
  · left
    rw [hfirst]
  · rw [hfirst]
    cases hf : f c.rest with
    | some text =>
        right
        rw [Matcher.taking_some hf, Matcher.taking_some]
        rw [hf]
        rfl
    | none =>
        -- a scan that does not fit leaves the place and the attempts as they are
        rw [Matcher.taking_none hf]
        have hboth : Matcher.taking (fun cs => (f cs).or (g cs)) c a = Matcher.taking g c a := by
          unfold Matcher.taking
          simp only [hf, Option.none_or]
        rw [hboth]
        exact hq depth c a

theorem Scans.without (hp : p.Scans s f) :
    (Element.without p).Scans s fun cs => if (f cs).isSome then none else some [] := by
  intro depth c a
  unfold evaluateIn evaluate
  rcases hp depth c a with hmatch | hmatch <;> unfold evaluateIn at hmatch
  · left
    rw [hmatch]
  · right
    rw [hmatch]
    unfold Matcher.taking
    cases hf : f c.rest <;> simp only [hf] <;> rfl

theorem Scans.seq (hskips : s.Skips skipped) (hp : p.Scans s f) (hq : q.Scans s g) :
    (Element.seq p q).Scans s (scanBehind f skipped g) := by
  intro depth c a
  unfold evaluateIn evaluate
  rcases hp depth c a with hfirst | hfirst <;> unfold evaluateIn at hfirst
  · left
    rw [hfirst]
  · rw [hfirst]
    unfold Matcher.taking scanBehind
    cases hf : f c.rest with
    | none => exact Or.inr rfl
    | some first =>
        simp only [Option.bind_some]
        unfold Matcher.behind
        rcases hskips depth (c.advance first.length) a with hgap | hgap
        · left
          rw [hgap]
        · rw [hgap, Matcher.taking_some (f := fun cs => some (skipped cs)) rfl,
            Cursor.advance_advance, Cursor.rest_advance, ← List.length_append]
          simp only
          rcases hq depth (c.advance (first ++ skipped (c.rest.drop first.length)).length) a
            with hsecond | hsecond <;> unfold evaluateIn at hsecond
          · left
            rw [hsecond]
          · right
            rw [hsecond]
            unfold Matcher.taking
            rw [Cursor.rest_advance]
            cases g (c.rest.drop (first ++ skipped (c.rest.drop first.length)).length) with
            | none => rfl
            | some second =>
                simp only [Option.map_some, Cursor.advance_advance, ← List.length_append]
                rfl

theorem Scans.many {g : List Char → List Char} (hp : p.Scans .tight f) (hg : Iterates f g) :
    (Element.many p).Scans .tight fun cs => some (g cs) := by
  intro depth
  -- the rounds behind the first; where they run out the match does not finish
  have hagain : ∀ rounds : Nat, (Matcher.again
      (Matcher.nothing.behind (p.evaluateIn (Rule.evaluateWithin depth) .tight)) rounds []).Agrees
        (.taking fun cs => some (g cs)) := by
    intro rounds
    induction rounds with
    | zero => exact fun _ _ => Or.inl rfl
    | succ rounds ih => exact hg.agrees_round (hp depth) fun _ => ih
  exact hg.agrees_round (hp depth) fun d => hagain (d.rest.length + 1)

/-- Where nothing stands between two parts the second scan begins where the first ends. -/
theorem Scans.seq_tight (hp : p.Scans .tight f) (hq : q.Scans .tight g) :
    (Element.seq p q).Scans .tight fun cs =>
      (f cs).bind fun first => (g (cs.drop first.length)).map (first ++ ·) :=
  (hp.seq Spacing.skips_tight hq).congr fun cs => by simp [scanBehind]

end Element

/-! ## Characters and spellings -/

theorem iterates_oneChar (p : Char → Bool) : Iterates (oneChar p) (List.takeWhile p) := by
  intro cs
  cases cs with
  | nil => rfl
  | cons c cs => by_cases hc : p c = true <;> simp [oneChar, hc]

theorem spellingScan_eq_oneChar (x : Char) : spellingScan [x] = oneChar (· = x) := by
  funext cs
  cases cs with
  | nil => rfl
  | cons c cs =>
      by_cases hc : c = x
      · simp [spellingScan, oneChar, hc]
      · have hne : x ≠ c := fun h => hc h.symm
        simp [spellingScan, oneChar, hc, hne]

theorem oneChar_or (p q : Char → Bool) (cs : List Char) :
    (oneChar p cs).or (oneChar q cs) = oneChar (fun c => p c || q c) cs := by
  cases cs with
  | nil => rfl
  | cons c cs => by_cases hc : p c = true <;> simp [oneChar, hc]

theorem isSome_oneChar (p : Char → Bool) (cs : List Char) :
    (oneChar p cs).isSome = cs.head?.any p := by
  cases cs with
  | nil => rfl
  | cons c cs => by_cases hc : p c = true <;> simp [oneChar, hc]

theorem spellingScan_eq (w cs : List Char) :
    spellingScan w cs = (scanSpelling w cs).map Prod.fst := by
  unfold spellingScan scanSpelling
  split <;> rfl

theorem scanAny_cons (w : List Char) (ws : List (List Char)) (cs : List Char) :
    (scanAny (w :: ws) cs).map Prod.fst =
      (spellingScan w cs).or ((scanAny ws cs).map Prod.fst) := by
  rw [scanAny, List.findSome?_cons, spellingScan_eq]
  cases scanSpelling w cs <;> rfl

namespace Element

theorem scans_char {s : Spacing} (x : Char) : (word [x]).Scans s (oneChar (· = x)) := by
  rw [← spellingScan_eq_oneChar]
  exact scans_word [x]

theorem Scans.or {s : Spacing} {p q : Element} {f g : Char → Bool}
    (hp : p.Scans s (oneChar f)) (hq : q.Scans s (oneChar g)) :
    (Element.alt p q).Scans s (oneChar fun c => f c || g c) :=
  (hp.alt hq).congr (oneChar_or f g)

theorem scans_anyOf {s : Spacing} (ws : List (List Char)) :
    (anyOf ws).Scans s fun cs => (scanAny ws cs).map Prod.fst := by
  fun_induction anyOf ws with
  | case1 => exact (scans_word []).without.congr fun cs => by simp [spellingScan, scanAny]
  | case2 w => exact (scans_word w).congr fun cs => by simp [scanAny, spellingScan_eq]
  | case3 w v ws ih => exact ((scans_word w).alt ih).congr fun cs => (scanAny_cons _ _ _).symm

theorem scans_wordChar {s : Spacing} : Rule.wordChar.element.Scans s (oneChar isWordChar) := by
  refine ((scans_one Char.isAlphanum).or (scans_char '_')).congr fun cs => ?_
  rfl

theorem scans_blank {s : Spacing} : Rule.blank.element.Scans s (oneChar isBlank) := by
  have hline := (scans_char (s := s) '\r').or (scans_char '\n')
  refine ((scans_char ' ').or ((scans_char '\t').or hline)).congr fun cs => ?_
  congr
  funext c
  simp [isBlank, Bool.or_assoc]

end Element

end DecafFrontEnd
