/-
  DecafFrontEnd/Proofs/Grammar/Span.lean --- patterns from one resting place to another.

  `Pattern.Spans p c ts e` says what `Covers` says, but between places at which no trivia
  starts and by recursion on the pattern: the parts of a sequence meet at a place, and the
  rounds of a repetition are a `Series`.  A node of a rule `Stands` between two such
  places.  What is covered from a resting place is spanned (`Covers.goalSpans`), so what a
  phrase is made of can be read off its body; and what is spanned is covered
  (`Pattern.Spans.exists_covers`), so a tree can be put together from its parts.
-/
import DecafFrontEnd.Proofs.Grammar.Place
import DecafFrontEnd.Proofs.Lexical.Excerpt

set_option autoImplicit false

namespace DecafFrontEnd

/-! ## Things one behind the other -/

section

variable {α β : Type} {R : Cursor → α → Cursor → Prop} {R' : Cursor → β → Cursor → Prop}

/-- Several things, each where the one before it ends. -/
inductive Series (R : Cursor → α → Cursor → Prop) : Cursor → List α → Cursor → Prop
  | nil (c : Cursor) : Series R c [] c
  | cons {c d e : Cursor} {x : α} {xs : List α} :
      R c x d → Series R d xs e → Series R c (x :: xs) e

namespace Series

theorem append {c d e : Cursor} {xs ys : List α} (h : Series R c xs d) (h' : Series R d ys e) :
    Series R c (xs ++ ys) e := by
  induction h with
  | nil c => exact h'
  | cons hx _ ih => exact .cons hx (ih h')

theorem one {c d : Cursor} {x : α} (h : R c x d) : Series R c [x] d := .cons h (.nil d)

theorem cases_cons {c e : Cursor} {x : α} {xs : List α} (h : Series R c (x :: xs) e) :
    ∃ d, R c x d ∧ Series R d xs e := by
  cases h with
  | cons hx hxs => exact ⟨_, hx, hxs⟩

theorem split {c e : Cursor} {xs ys : List α} (h : Series R c (xs ++ ys) e) :
    ∃ d, Series R c xs d ∧ Series R d ys e := by
  induction xs generalizing c with
  | nil => exact ⟨c, .nil c, h⟩
  | cons x xs ih =>
      obtain ⟨m, hx, h⟩ := h.cases_cons
      obtain ⟨d, hxs, hys⟩ := ih h
      exact ⟨d, .cons hx hxs, hys⟩

end Series

end

/-! ## Patterns between two places -/

/-- A node of a rule that covers the text between two places. -/
def Tree.Stands (t : Tree) (c e : Cursor) : Prop :=
  ∃ d, Covers (.once (.rule t.rule)) c [t] d ∧ d.skip = e

/-- What a pattern covers between two places, trivia skipped behind every part. -/
def Pattern.Spans : Pattern → Cursor → List Tree → Cursor → Prop
  | prim p, c, ts, e => ts = [] ∧ ∃ text, p.take? c = some text ∧ (c.advance text.length).skip = e
  | rule r, c, ts, e => ∃ t, ts = [t] ∧ t.rule = r ∧ t.Stands c e
  | seq p q, c, ts, e =>
      ∃ first second, ts = first ++ second ∧ ∃ m, p.Spans c first m ∧ q.Spans m second e
  | alt p q, c, ts, e => p.Spans c ts e ∨ q.Spans c ts e
  | opt p, c, ts, e => p.Spans c ts e ∨ ts = [] ∧ c = e
  | many p, c, ts, e => ∃ rounds : List (List Tree), ts = rounds.flatten ∧ Series p.Spans c rounds e

/-- What a goal covers between two places. -/
def Goal.Spans : Goal → Cursor → List Tree → Cursor → Prop
  | once p, c, ts, e => c.Rested → p.Spans c ts e
  | again p, c, ts, e => (Pattern.many p).Spans c.skip ts e

/-- What a goal covers it spans, up to the trivia behind it. -/
theorem Covers.goalSpans {g : Goal} {c d : Cursor} {nodes : List Tree} (h : Covers g c nodes d)
    (hg : g.pattern.isSyntactic = true) : g.Spans c nodes d.skip := by
  induction h with
  | prim ht => exact fun _ => ⟨rfl, _, ht, rfl⟩
  | @rule r c d nodes hbody _ =>
      intro _
      have hleave := Rule.leave_eq hg c d nodes
      rw [hleave]
      refine ⟨_, rfl, rfl, d, ?_, rfl⟩
      rw [← hleave]
      exact .rule hbody
  | seq _ _ ihp ihq =>
      simp only [Goal.pattern, Pattern.isSyntactic, Bool.and_eq_true] at hg
      exact fun hc => ⟨_, _, rfl, _, ihp hg.1 hc, ihq hg.2 (Cursor.rested_skip _)⟩
  | left _ ih =>
      simp only [Goal.pattern, Pattern.isSyntactic, Bool.and_eq_true] at hg
      exact fun hc => Or.inl (ih hg.1 hc)
  | right _ ih =>
      simp only [Goal.pattern, Pattern.isSyntactic, Bool.and_eq_true] at hg
      exact fun hc => Or.inr (ih hg.2 hc)
  | present _ ih =>
      simp only [Goal.pattern, Pattern.isSyntactic, Bool.and_eq_true] at hg
      exact fun hc => Or.inl (ih hg.1 hc)
  | absent => exact fun hc => Or.inr ⟨rfl, hc.skip_eq.symm⟩
  | many _ _ ihp ihq =>
      simp only [Goal.pattern, Pattern.isSyntactic, Bool.and_eq_true] at hg
      intro hc
      obtain ⟨rounds, rfl, hrounds⟩ := ihq hg.1
      exact ⟨_ :: rounds, rfl, .cons (ihp hg.1 hc) hrounds⟩
  | never =>
      intro hc
      rw [hc.skip_eq]
      exact ⟨[], rfl, .nil _⟩
  | round _ _ ihp ihq =>
      obtain ⟨rounds, rfl, hrounds⟩ := ihq hg
      exact ⟨_ :: rounds, rfl, .cons (ihp hg (Cursor.rested_skip _)) hrounds⟩
  | stop => exact ⟨[], rfl, .nil _⟩

/-- What spans the text between two places covers it. -/
theorem Pattern.Spans.exists_covers {p : Pattern} {c e : Cursor} {ts : List Tree}
    (h : p.Spans c ts e) (hc : c.Rested) : ∃ d, Covers (.once p) c ts d ∧ d.skip = e := by
  induction p generalizing c e ts with
  | prim p =>
      obtain ⟨rfl, text, ht, rfl⟩ := h
      exact ⟨_, .prim ht, rfl⟩
  | rule r =>
      obtain ⟨t, rfl, rfl, hstands⟩ := h
      exact hstands
  | seq p q ihp ihq =>
      obtain ⟨first, second, rfl, m, hp, hq⟩ := h
      obtain ⟨d, hpc, rfl⟩ := ihp hp hc
      obtain ⟨d', hqc, rfl⟩ := ihq hq d.rested_skip
      exact ⟨d', .seq hpc hqc, rfl⟩
  | alt p q ihp ihq =>
      rcases h with h | h
      · obtain ⟨d, hpc, hd⟩ := ihp h hc
        exact ⟨d, .left hpc, hd⟩
      · obtain ⟨d, hqc, hd⟩ := ihq h hc
        exact ⟨d, .right hqc, hd⟩
  | opt p ih =>
      rcases h with h | ⟨rfl, rfl⟩
      · obtain ⟨d, hpc, hd⟩ := ih h hc
        exact ⟨d, .present hpc, hd⟩
      · exact ⟨c, .absent, hc.skip_eq⟩
  | many p ih =>
      obtain ⟨rounds, rfl, hrounds⟩ := h
      have key : ∀ (rounds : List (List Tree)) {c : Cursor}, Series p.Spans c.skip rounds e →
          ∃ d, Covers (.again p) c rounds.flatten d ∧ d.skip = e := by
        intro rounds
        induction rounds with
        | nil =>
            intro c h
            cases h
            exact ⟨c, .stop, rfl⟩
        | cons round rounds ihr =>
            intro c h
            cases h with
            | cons hfirst hothers =>
                obtain ⟨d, hpc, rfl⟩ := ih hfirst c.rested_skip
                obtain ⟨d', hqc, hd'⟩ := ihr hothers
                exact ⟨d', .round hpc hqc, hd'⟩
      cases hrounds with
      | nil => exact ⟨c, .never, hc.skip_eq⟩
      | cons hfirst hothers =>
          obtain ⟨d, hpc, rfl⟩ := ih hfirst hc
          obtain ⟨d', hqc, hd'⟩ := key _ hothers
          exact ⟨d', .many hpc hqc, hd'⟩

/-! ## Places of a text -/

/-- A place of a text at which no trivia starts. -/
structure Source.IsPlace (s : Source) (c : Cursor) : Prop where
  reaches : (Cursor.start s.chars).Reaches c
  rested : c.Rested

namespace Source

variable {s : Source} {c d : Cursor}

theorem isPlace_firstPlace (s : Source) : s.IsPlace s.firstPlace :=
  ⟨Cursor.reaches_skip _, s.rested_firstPlace⟩

theorem IsPlace.of_reads {ls : List Lexeme} (h : s.IsPlace c) (hreads : c.Reads ls d) :
    s.IsPlace d := ⟨h.reaches.trans hreads.reaches, hreads.rested h.rested⟩

end Source

/-! ## Nodes that stand between two places -/

namespace Tree

/-- The node of a phrase starts where it stands, and its body spans the rest. -/
theorem Stands.of_phrase {p : Phrase} {start : Nat} {text : List Char} {children : List Tree}
    {c e : Cursor} (h : (Tree.node (.phrase p) start text children).Stands c e)
    (hp : p ≠ .program) (hc : c.Rested) : start = c.offset ∧ p.body.Spans c children e := by
  have hsyntactic : (Rule.phrase p).isSyntactic = true := by simpa [Rule.isSyntactic] using hp
  obtain ⟨d, hcovers, rfl⟩ := h
  generalize hts : [Tree.node (.phrase p) start text children] = ts at hcovers
  cases hcovers with
  | rule hbody =>
      simp only [rule, Rule.leave, Rule.isSilent, Bool.false_eq_true, if_false, List.cons.injEq,
        node.injEq, and_true, true_and] at hts
      obtain ⟨rfl, -, rfl⟩ := hts
      exact ⟨rfl, hbody.goalSpans (Rule.isSyntactic_body hsyntactic) hc⟩

theorem Stands.reaches {t : Tree} {c e : Cursor} (h : t.Stands c e) : c.Reaches e := by
  obtain ⟨d, hcovers, rfl⟩ := h
  exact hcovers.reaches.trans (Cursor.reaches_skip d)

/-- The parts of a phrase make a node. -/
theorem exists_stands {p : Phrase} {children : List Tree} {c e : Cursor} (hc : c.Rested)
    (h : p.body.Spans c children e) :
    ∃ text, (Tree.node (.phrase p) c.offset text children).Stands c e := by
  obtain ⟨d, hcovers, hd⟩ := h.exists_covers hc
  exact ⟨_, d, .rule hcovers, hd⟩

/-- The node of a class of lexemes is the lexeme. -/
theorem Stands.of_terminal {t : Terminal} {start : Nat} {text : List Char} {children : List Tree}
    {c e : Cursor} (h : (Tree.node (.terminal t) start text children).Stands c e) :
    start = c.offset ∧ children = [] ∧
      ∃ r, t.scan c.rest = some (text, r) ∧ (c.advance text.length).skip = e := by
  obtain ⟨d, hcovers, rfl⟩ := h
  generalize hts : [Tree.node (.terminal t) start text children] = ts at hcovers
  cases hcovers with
  | rule hbody =>
      obtain ⟨l, r, hscan, rfl, rfl⟩ := hbody.scan_of_lexeme
      have htext := Cursor.takeBytes_advance (Terminal.append_of_scan hscan).symm
      simp only [rule, Rule.leave, Rule.isSilent, Bool.false_eq_true, if_false, List.cons.injEq,
        node.injEq, and_true, true_and, htext] at hts
      obtain ⟨rfl, rfl, rfl⟩ := hts
      exact ⟨rfl, rfl, r, hscan, rfl⟩

end Tree

/-! ## Lexemes between two places -/

/-- A lexeme of a class stands between two places. -/
def Cursor.Passes (c : Cursor) (t : Terminal) (e : Cursor) : Prop :=
  ∃ text, c.Reads [⟨t, text⟩] e

namespace Cursor

variable {c e : Cursor} {t : Terminal} {l r : List Char}

/-- What a scan takes is read, if no longer operator can begin with it. -/
theorem reads_of_scan_of_not_isBlunt (h : t.scan c.rest = some (l, r))
    (ht : (Pattern.mark t).isBlunt = false) : c.Reads [⟨t, l⟩] (c.advance l.length).skip := by
  rcases reads_of_scan h with hreads | ⟨rfl | rfl, -⟩
  · exact hreads
  · simp [Pattern.isBlunt] at ht
  · simp [Pattern.isBlunt] at ht

/-- A sign is read if what follows cannot begin with an `=`. -/
theorem reads_of_scan_of_spans {q : Pattern} {ts : List Tree} (h : t.scan c.rest = some (l, r))
    (hq : q.isSyntactic = true) (hnull : q.nullable = false)
    (hop : Terminal.eqOp ∉ q.starters) (hsign : Terminal.assign ∉ q.starters)
    (hspans : q.Spans (c.advance l.length).skip ts e) :
    c.Reads [⟨t, l⟩] (c.advance l.length).skip := by
  rcases reads_of_scan h with hreads | ⟨-, r', hr'⟩
  · exact hreads
  · obtain ⟨d, hcovers, -⟩ := hspans.exists_covers (rested_skip _)
    rw [(rested_of_head hr' (by decide) (by decide)).skip_eq] at hcovers
    exact (hcovers.not_behind_sign hq hnull hop hsign hr').elim

theorem Passes.length_lt (h : c.Passes t e) : e.rest.length < c.rest.length := by
  obtain ⟨_, hreads⟩ := h
  exact hreads.length_lt

theorem Reads.scan (h : c.Reads [⟨t, l⟩] e) :
    ∃ r, t.scan c.rest = some (l, r) ∧ (c.advance l.length).skip = e := by
  cases h with
  | cons hfirst hrest =>
      cases hrest
      obtain ⟨r, hscan⟩ := Lexeme.scan_of_first? hfirst
      exact ⟨r, hscan, rfl⟩

end Cursor

namespace Pattern

variable {c e : Cursor} {t : Terminal} {ts : List Tree}

theorem Spans.passes (h : (mark t).Spans c ts e) (ht : (mark t).isBlunt = false) :
    ts = [] ∧ c.Passes t e := by
  obtain ⟨rfl, text, htake, rfl⟩ := h
  obtain ⟨r, hscan⟩ := Primitive.take?_lexeme.1 htake
  exact ⟨rfl, text, Cursor.reads_of_scan_of_not_isBlunt hscan ht⟩

theorem spans_mark (h : c.Passes t e) : (mark t).Spans c [] e := by
  obtain ⟨text, hreads⟩ := h
  obtain ⟨r, hscan, rfl⟩ := hreads.scan
  exact ⟨rfl, text, Primitive.take?_lexeme.2 ⟨r, hscan⟩, rfl⟩

end Pattern

namespace Tree

variable {c e : Cursor} {t : Terminal} {text : List Char}

theorem stands_terminal (h : c.Reads [⟨t, text⟩] e) :
    (Tree.node (.terminal t) c.offset text []).Stands c e := by
  obtain ⟨r, hscan, rfl⟩ := h.scan
  have hcovers : Covers (.once (Pattern.mark t)) c [] (c.advance text.length) :=
    .prim (Primitive.take?_lexeme.2 ⟨r, hscan⟩)
  refine ⟨c.advance text.length, ?_, rfl⟩
  have hnode := Covers.rule (r := .terminal t) hcovers
  rwa [Rule.leave_eq rfl, Cursor.takeBytes_advance (Terminal.append_of_scan hscan).symm] at hnode

/-- The node of a class of lexemes is a lexeme that is read. -/
theorem Stands.reads {n : Tree} (h : n.Stands c e) (hrule : n.rule = .terminal t)
    (ht : (Pattern.mark t).isBlunt = false) :
    n = .node (.terminal t) c.offset n.text [] ∧ c.Reads [⟨t, n.text⟩] e := by
  obtain ⟨r, start, text, children⟩ := n
  obtain rfl := hrule
  obtain ⟨rfl, rfl, r, hscan, rfl⟩ := h.of_terminal
  exact ⟨rfl, Cursor.reads_of_scan_of_not_isBlunt hscan ht⟩

end Tree

/-! ## The text of what is covered -/

/-- What holds of the text that a goal covers: nothing is covered, or the last lexeme
ends before the goal does, or the goal ends with a sign taken off the front of an
operator. -/
def Goal.Contains : Goal → Cursor → Cursor → Prop
  | once p, c, d =>
      p.isSyntactic = true → p.isGuarded = true → c.Rested →
        d = c ∨ (∃ text, c.Holds text d.skip ∧ c.offset + byteLength text ≤ d.offset) ∨
          p.isBlunt = true ∧ ∃ r, d.rest = '=' :: r
  | again p, c, d =>
      (Pattern.many p).isSyntactic = true → (Pattern.many p).isGuarded = true →
        d = c ∨ ∃ text, c.skip.Holds text d.skip ∧ c.skip.offset + byteLength text ≤ d.offset

/-- A text is made longer by what follows it. -/
theorem Cursor.Holds.append {c m e : Cursor} {text text' : List Char} (h : c.Holds text m)
    (h' : m.Holds text' e) {n : Nat} (hn : m.offset + byteLength text' ≤ n) :
    ∃ text, c.Holds text e ∧ c.offset + byteLength text ≤ n := by
  obtain ⟨ls, hreads⟩ := h.exists_reads
  obtain ⟨text'', hholds, hend⟩ := h'.prepend hreads
  exact ⟨text'', hholds, by omega⟩

/-- What a part of a pattern contains the pattern does where it is that part. -/
theorem Goal.Contains.mono {p q : Pattern} {c d : Cursor} (h : (once p).Contains c d)
    (hsyntactic : q.isSyntactic = true → p.isSyntactic = true)
    (hguarded : q.isGuarded = true → p.isGuarded = true)
    (hblunt : p.isBlunt = true → q.isBlunt = true) : (once q).Contains c d :=
  fun hq hg hc =>
    (h (hsyntactic hq) (hguarded hg) hc).imp_right (Or.imp_right (And.imp_left hblunt))

theorem Covers.contains_text {g : Goal} {c d : Cursor} {nodes : List Tree}
    (h : Covers g c nodes d) : g.Contains c d := by
  induction h with
  | @prim p c text ht =>
      intro hp _ hc
      cases p with
      | lexeme t =>
          obtain ⟨r, hscan⟩ := Primitive.take?_lexeme.1 ht
          rcases Cursor.reads_of_scan hscan with hreads | ⟨ht, hr⟩
          · have hpast := Cursor.advance_length (Terminal.append_of_scan hscan).symm
            exact Or.inr (Or.inl ⟨text, .last hreads.of_one.1 rfl,
              Nat.le_of_eq (congrArg Cursor.offset hpast).symm⟩)
          · refine Or.inr (Or.inr ⟨?_, hr⟩)
            rcases ht with rfl | rfl <;> rfl
      | _ => simp [Pattern.isSyntactic, Primitive.isSyntactic] at hp
  | @rule r c d nodes hbody ih =>
      intro hp _ hc
      cases r with
      | terminal t =>
          have hsigns : (Pattern.term t).isBlunt = (Pattern.mark t).isBlunt := by cases t <;> rfl
          rw [hsigns]
          exact ih rfl rfl hc
      | phrase p =>
          obtain ⟨hguarded, hblunt⟩ := p.isGuarded_body
          rcases ih (Rule.isSyntactic_body hp) hguarded hc with hd | htext | ⟨hblunt', -⟩
          · exact Or.inl hd
          · exact Or.inr (Or.inl htext)
          · exact absurd (hblunt'.symm.trans hblunt) (by simp)
      | _ => simp [Pattern.isSyntactic, Rule.isSyntactic] at hp
  | @seq p q c d e first second hpc hqc ihp ihq =>
      intro hp hg hc
      simp only [Pattern.isSyntactic, Bool.and_eq_true] at hp
      simp only [Pattern.isGuarded, Bool.and_eq_true] at hg
      obtain ⟨⟨hgp, hgq⟩, hfollow⟩ := hg
      have hsecond := ihq hp.2 hgq d.rested_skip
      rcases ihp hp.1 hgp hc with rfl | ⟨text, htext, hend⟩ | ⟨hblunt, r, hr⟩
      · rw [hc.skip_eq] at hsecond
        rcases hsecond with rfl | htext | ⟨hblunt, hr⟩
        · exact Or.inl rfl
        · exact Or.inr (Or.inl htext)
        · exact Or.inr (Or.inr ⟨by simp [Pattern.isBlunt, hblunt], hr⟩)
      · rcases hsecond with rfl | ⟨text', htext', hend'⟩ | ⟨hblunt, hr⟩
        · have hle := (Cursor.reaches_skip d).offset_le
          rw [Cursor.skip_skip]
          exact Or.inr (Or.inl ⟨text, htext, Nat.le_trans hend hle⟩)
        · exact Or.inr (Or.inl (htext.append htext' hend'))
        · exact Or.inr (Or.inr ⟨by simp [Pattern.isBlunt, hblunt], hr⟩)
      · have hrested : d.Rested := Cursor.rested_of_head hr (by decide) (by decide)
        rw [hrested.skip_eq] at hqc
        simp only [hblunt, Bool.not_true, Bool.false_or, Bool.and_eq_true, Bool.not_eq_true',
          List.contains_eq_mem, decide_eq_false_iff_not] at hfollow
        exact (hqc.not_behind_sign hp.2 hfollow.1.1 hfollow.1.2 hfollow.2 hr).elim
  | left _ ih =>
      refine ih.mono (fun hp => ?_) (fun hg => ?_) fun hblunt => by simp [Pattern.isBlunt, hblunt]
      · exact (Bool.and_eq_true_iff.1 hp).1
      · exact (Bool.and_eq_true_iff.1 hg).1
  | right _ ih =>
      refine ih.mono (fun hp => ?_) (fun hg => ?_) fun hblunt => by simp [Pattern.isBlunt, hblunt]
      · exact (Bool.and_eq_true_iff.1 hp).2
      · exact (Bool.and_eq_true_iff.1 hg).2
  | present _ ih =>
      exact ih.mono (fun hp => (Bool.and_eq_true_iff.1 hp).1) id id
  | absent | never => exact fun _ _ _ => Or.inl rfl
  | @many p c d e _ _ _ _ ihp ihq =>
      intro hp hg hc
      have hothers := ihq hp hg
      simp only [Pattern.isSyntactic, Bool.and_eq_true] at hp
      simp only [Pattern.isGuarded, Bool.and_eq_true, Bool.not_eq_true'] at hg
      rcases ihp hp.1 hg.1 hc with rfl | ⟨text, htext, hend⟩ | ⟨hblunt, -⟩
      · rw [hc.skip_eq] at hothers
        exact hothers.imp_right Or.inl
      · rcases hothers with rfl | ⟨text', htext', hend'⟩
        · exact Or.inr (Or.inl ⟨text, htext, hend⟩)
        · exact Or.inr (Or.inl (htext.append htext' hend'))
      · exact absurd (hblunt.symm.trans hg.2) (by simp)
  | @round p c d e _ _ hpc _ ihp ihq =>
      intro hp hg
      have hothers := ihq hp hg
      simp only [Pattern.isSyntactic, Bool.and_eq_true, Bool.not_eq_true'] at hp
      simp only [Pattern.isGuarded, Bool.and_eq_true, Bool.not_eq_true'] at hg
      rcases ihp hp.1 hg.1 c.rested_skip with rfl | ⟨text, htext, hend⟩ | ⟨hblunt, -⟩
      · exact absurd (hpc.length_lt hp.2) (Nat.lt_irrefl _)
      · rcases hothers with rfl | ⟨text', htext', hend'⟩
        · exact Or.inr ⟨text, htext, hend⟩
        · exact Or.inr (htext.append htext' hend')
      · exact absurd (hblunt.symm.trans hg.2) (by simp)
  | stop => exact fun _ _ => Or.inl rfl

/-- A phrase contains the text between its places. -/
theorem Covers.exists_holds {p : Phrase} {c d : Cursor} {nodes : List Tree}
    (h : Covers (.once (Pattern.phrase p)) c nodes d) (hp : p ≠ .program) (hc : c.Rested) :
    ∃ text, c.Holds text d.skip ∧ c.offset + byteLength text ≤ d.offset := by
  have hsyntactic : (Pattern.phrase p).isSyntactic = true := by
    simpa [Pattern.isSyntactic, Rule.isSyntactic] using hp
  rcases h.contains_text hsyntactic rfl hc with rfl | htext | ⟨hblunt, -⟩
  · exact absurd (h.length_lt rfl) (Nat.lt_irrefl _)
  · exact htext
  · simp [Pattern.isBlunt] at hblunt

/-- What a pattern covers up to the end of the last lexeme leaves nothing of the text. -/
theorem Covers.rest_eq_nil {p : Pattern} {text : List Char} {nodes : List Tree} {e : Cursor}
    (h : Covers (.once p) (Cursor.start text) nodes e) (hp : p.isSyntactic = true)
    (hg : p.isGuarded = true) (hc : (Cursor.start text).Rested)
    (hholds : (Cursor.start text).Holds text e.skip) : e.rest = [] := by
  rcases h.contains_text hp hg hc with rfl | ⟨held, hheld, hlength⟩ | ⟨-, r, hr⟩
  · rw [hc.skip_eq] at hholds
    exact absurd hholds.length_lt (Nat.lt_irrefl _)
  · obtain rfl := hheld.functional hholds
    obtain ⟨before, hsplit, hoffset⟩ := h.reaches
    have hchars : held = before ++ e.rest := hsplit
    have hbytes := congrArg byteLength hchars
    rw [byteLength_append] at hbytes
    cases hrest : e.rest with
    | nil => rfl
    | cons x xs =>
        have hpos := byteLength_pos (List.cons_ne_nil x xs)
        rw [hrest] at hbytes
        omega
  · have hend := hholds.rest_eq_nil rfl
    rw [(Cursor.rested_of_head hr (by decide) (by decide)).skip_eq, hr] at hend
    simp at hend

end DecafFrontEnd
