/-
  DecafFrontEnd/Proofs/Grammar/Cut.lean --- a text cut off where it goes wrong.

  A place blocks a text when no program goes on with the lexeme that stands there.  A
  match takes nothing at such a place but, perhaps, the first sign of an `==` or `!=`;
  and a rule that is tried there, or behind that sign, fails and is recorded.

  A run whose attempts end before the place is therefore the same in the text that is
  cut off there (`Runs.cut`).
-/
import DecafFrontEnd.Proofs.Grammar.Expectation
import DecafFrontEnd.Proofs.Grammar.Opening

set_option autoImplicit false

namespace DecafFrontEnd

open Pattern

/-! ## Places on the way to another one -/

namespace Cursor

variable {b c d e m : Cursor} {l : Lexeme} {ls : List Lexeme} {x z r : List Char}

/-- A place that some lexemes lead to, from which one can read on to the place `e`. -/
def Heads (b e : Cursor) (ls : List Lexeme) (c : Cursor) : Prop :=
  (b.Reads ls c ∧ ∃ more, c.Reads more e) ∨
    (b.Halfway ls c ∧ ∃ m l more, Inside m c ∧ m.Reads (l :: more) e)

/-- No program goes on with the lexeme at a place behind those that are read up to it. -/
def Blocks (b e : Cursor) : Prop :=
  ∀ ls l behind, b.Reads ls e → Lexeme.first? e.rest = some l → (∀ l ∈ behind, l.IsWhole) →
    ¬ Derivable (phrase .program) (ls ++ (l :: behind))

/-- The text behind the place inside an operator ends as that behind the operator does. -/
theorem Inside.rest_of_reads (h : Inside m c) (hreads : m.Reads (l :: ls) e) :
    ∃ z, c.rest = '=' :: z ++ e.rest := by
  obtain ⟨x, r, hrest, hfirst, rfl⟩ := h
  cases hreads with
  | cons hl hmore =>
      obtain rfl := Option.some.inj (hfirst.symm.trans hl)
      obtain ⟨z, hz, -⟩ := hmore.reaches
      obtain ⟨r', hr'⟩ : ∃ r', m.rest = [x, '='] ++ (r' ++ e.rest) := by
        have hsplit := rest_eq_past hl
        rw [hz, ← List.append_assoc (leadingTrivia _)] at hsplit
        exact ⟨_, hsplit⟩
      exact ⟨r', by rw [rest_advance, hr']; rfl⟩

theorem Heads.rest_eq (h : b.Heads e ls c) : ∃ z, c.rest = z ++ e.rest := by
  obtain ⟨-, more, hmore⟩ | ⟨-, m, l, more, hinside, hreads⟩ := h
  · obtain ⟨z, hz, -⟩ := hmore.reaches
    exact ⟨z, hz⟩
  · obtain ⟨z, hz⟩ := hinside.rest_of_reads hreads
    exact ⟨_, hz⟩

theorem Heads.skip_upTo (h : b.Heads e ls c.skip) :
    (c.upTo e.rest).skip = c.skip.upTo e.rest := by
  obtain ⟨z, hz⟩ := h.rest_eq
  exact Cursor.skip_upTo hz

/-- From a place inside an operator one does not come back to its front. -/
theorem Heads.not_inside (h : b.Heads e ls c) : ¬ Inside e c := by
  rintro ⟨x, r, hrest, -, rfl⟩
  obtain ⟨z, hz⟩ := h.rest_eq
  have hlength := congrArg List.length hz
  simp [hrest] at hlength
  omega

theorem advance_upTo (h : c.rest = (x ++ z) ++ r) :
    (c.upTo r).advance x.length = (c.advance x.length).upTo r := by
  have hadvance : (c.advance x.length).rest = z ++ r := by
    rw [rest_advance, h, List.append_assoc, List.drop_left]
  rw [upTo_of_append h, upTo_of_append hadvance, advance_length rfl]
  rw [List.append_assoc] at h
  rw [advance_length h]

/-- Every scan takes the same when the text is cut off behind a lexeme. -/
theorem Reads.first?_upTo (h : c.Reads (l :: ls) e) :
    Lexeme.first? c.rest = Lexeme.first? (c.upTo e.rest).rest := by
  cases h with
  | cons hl hmore =>
      obtain ⟨z, hz, -⟩ := hmore.reaches
      rw [hl, (Cursor.first?_upTo hl hz).1]

/-- A lexeme that fits before the place `e` leads on to it, and it fits in the text that is
cut off there. -/
theorem Reads.next_upTo {t : Terminal} {more : List Lexeme} (h : b.Reads ls c)
    (hmore : c.Reads (l :: more) e) (hscan : t.scan c.rest = some (x, r)) :
    b.Heads e (ls ++ [⟨t, x⟩]) (c.advance x.length).skip ∧
      (∃ r', t.scan (c.upTo e.rest).rest = some (x, r')) ∧
      (c.upTo e.rest).advance x.length = (c.advance x.length).upTo e.rest := by
  obtain ⟨r', hcut⟩ := Lexeme.scan_of_first?_eq hmore.first?_upTo hscan
  have hheads : b.Heads e (ls ++ [⟨t, x⟩]) (c.advance x.length).skip := by
    obtain ⟨hfirst, hnext⟩ | ⟨hinside, -, hnext⟩ := h.leads_next hscan
    · cases hmore with
      | cons hl hrest =>
          obtain rfl := Option.some.inj (hl.symm.trans hfirst)
          exact Or.inl ⟨hnext, more, hrest⟩
    · exact Or.inr ⟨hnext, c, l, more, hinside, hmore⟩
  refine ⟨hheads, ⟨r', hcut⟩, advance_upTo (z := r') ?_⟩
  obtain ⟨z, hz, -⟩ := hmore.reaches
  rw [Terminal.append_of_scan hcut, upTo_of_append hz, hz]

/-- Lexemes lead to one place inside an operator. -/
theorem Halfway.functional (h : b.Halfway ls c) (h' : b.Halfway ls d) : c = d := by
  obtain ⟨before, m, l, rfl, hreads, ⟨_, _, -, -, rfl⟩, -⟩ := h
  obtain ⟨before', m', l', hls, hreads', ⟨_, _, -, -, rfl⟩, -⟩ := h'
  obtain ⟨rfl, -⟩ := List.append_inj' hls rfl
  obtain rfl := hreads.functional hreads'
  rfl

end Cursor

/-! ## Signs and the rules behind them -/

namespace Pattern

/-- Whether a pattern begins with a rule. -/
def beginsWithRule : Pattern → Bool
  | rule _ => true
  | seq p _ => p.beginsWithRule
  | prim _ | alt _ _ | opt _ | many _ => false

/-- Whether a lone `=` or `!` in a pattern is always followed by a rule. -/
def isAnnounced : Pattern → Bool
  | prim _ | rule _ => true
  | seq p q => p.isAnnounced && q.isAnnounced && (!p.isBlunt || q.beginsWithRule)
  | alt p q => p.isAnnounced && q.isAnnounced
  | opt p | many p => p.isAnnounced

theorem isAnnounced_body (r : Rule) : r.body.isAnnounced = true := by
  have key : ∀ r ∈ Rule.all, r.body.isAnnounced = true := by decide
  exact key r (Rule.mem_all r)

variable {b c d e : Cursor} {p q : Pattern} {front ls : List Lexeme} {a : Attempts} {o : Outcome}

theorem isAnnounced_seq (h : (seq p q).isAnnounced = true) :
    p.isAnnounced = true ∧ q.isAnnounced = true := by
  simp only [isAnnounced, Bool.and_eq_true] at h
  exact h.1

theorem isAnnounced_alt (h : (alt p q).isAnnounced = true) :
    p.isAnnounced = true ∧ q.isAnnounced = true := by
  simpa only [isAnnounced, Bool.and_eq_true] using h

/-- A pattern that begins with a rule and does not fit is recorded where it is tried. -/
theorem offset_le_of_beginsWithRule (hq : q.beginsWithRule = true)
    (hsyntactic : q.isSyntactic = true) (hc : c.Rested) (hlacks : c.Lacks q.starters)
    (h : Runs (.once q) c a o) : c.offset ≤ o.attempts.offset := by
  induction q generalizing o with
  | rule r =>
      have hnull : (rule r).nullable = false := Rule.nullable_of_isSyntactic hsyntactic
      have hrefuses : (rule r).Refuses c := refuses_of_lacks hsyntactic hnull hc hlacks
      cases h with
      | rule hbody => exact absurd (Runs.rule hbody).matches (not_matches_of_refuses hrefuses)
      | ruleFails hbody =>
          rw [Outcome.attempts, Rule.offset_blame (Rule.isSilent_of_isSyntactic hsyntactic)]
          exact Nat.le_max_right _ _
  | seq p q ihp _ =>
      simp only [isSyntactic, Bool.and_eq_true] at hsyntactic
      have hp := hlacks.subset (List.subset_append_left _ _)
      cases h with
      | seq hfirst hsecond | secondFails hfirst hsecond =>
          exact Nat.le_trans (ihp hq hsyntactic.1 hp hfirst) hsecond.offset_le
      | firstFails hfirst => exact ihp hq hsyntactic.1 hp hfirst
  | _ => simp [beginsWithRule] at hq

/-- Behind the first sign of the operator at a blocked place a rule is recorded. -/
theorem Passes.offset_lt (hpass : p.Passes b front c ls d)
    (hregular : (Pattern.seq p q).Regular) (hannounced : (Pattern.seq p q).isAnnounced = true)
    (hheads : b.Heads e front c) (hhalfway : b.Halfway (front ++ ls) d)
    (hinside : e.Inside d) (h : Runs (.once q) d a o) : e.offset < o.attempts.offset := by
  have hblunt : p.isBlunt = true := by
    obtain hblunt | ⟨rfl, hc⟩ := hpass.blunt hhalfway
    · exact hblunt
    · rw [List.append_nil] at hhalfway
      rw [← hc.functional hhalfway] at hinside
      exact absurd hinside hheads.not_inside
  have hguard := hregular.2
  simp only [isGuarded, hblunt, Bool.not_true, Bool.false_or, Bool.and_eq_true,
    Bool.not_eq_true', List.contains_eq_mem, decide_eq_false_iff_not] at hguard
  obtain ⟨-, ⟨-, hop⟩, hsign⟩ := hguard
  simp only [isAnnounced, hblunt, Bool.not_true, Bool.false_or, Bool.and_eq_true] at hannounced
  have hlacks : d.Lacks q.starters := by
    rintro t ht ⟨l, r, hscan⟩
    obtain ⟨r', hrest⟩ := hinside.rest_eq
    rw [hrest] at hscan
    obtain rfl | rfl := Terminal.eq_of_scan_eqSign hscan
    · exact hop ht
    · exact hsign ht
  have hle := offset_le_of_beginsWithRule hannounced.2 hregular.seq.2.1 hinside.rested hlacks h
  exact Nat.lt_of_lt_of_le hinside.offset_lt hle

end Pattern

/-! ## Runs before a blocked place -/

/-- What a run comes to in the text that is cut off at `e`: the same.  Or it has passed the
first sign of an operator there. -/
def Goal.Cut (b e : Cursor) (front : List Lexeme) (g : Goal) (c : Cursor) (a : Attempts) :
    Outcome → Prop
  | .matched _ d a' => ∃ ls, g.whole.Passes b front (g.place c) ls d.skip ∧
      ((b.Heads e (front ++ ls) d.skip ∧
          ∃ nodes, Runs g (c.upTo e.rest) a (.matched nodes (d.upTo e.rest) a')) ∨
        b.Halfway (front ++ ls) d.skip ∧ e.Inside d.skip)
  | .failed a' => Runs g (c.upTo e.rest) a (.failed a')
  | .unfinished => True

section

variable {b c e : Cursor} {front : List Lexeme} {t : Terminal} {l r : List Char} {a : Attempts}

/-- An awaited lexeme does not fit where its text would begin with the second sign of an
operator. -/
theorem Pattern.Awaited.scan_eqSign (hc : (mark t).Awaited b front c)
    (hhalfway : b.Halfway front c) (z : List Char) : t.scan ('=' :: z) = none := by
  obtain ⟨hop, hassign⟩ := hc.avoids hhalfway
  cases hscan : t.scan ('=' :: z) with
  | none => rfl
  | some found =>
      obtain rfl | rfl := Terminal.eq_of_scan_eqSign hscan
      · exact absurd (List.mem_singleton_self _) hop
      · exact absurd (List.mem_singleton_self _) hassign

/-- A lexeme that is taken at a place on the way to a blocked one. -/
theorem cut_take (hblocks : b.Blocks e) (hc : (mark t).Awaited b front c)
    (hheads : b.Heads e front c) (hscan : t.scan c.rest = some (l, r)) :
    (Goal.once (mark t)).Cut b e front c a (.matched [] (c.advance l.length) a) := by
  refine ⟨_, hc.lexeme hscan, ?_⟩
  obtain ⟨hreads, more, hmore⟩ | ⟨hhalfway, _, _, _, hinside, -⟩ := hheads
  · cases more with
    | nil =>
        -- at the blocked place nothing but the first sign of an operator is taken
        cases hmore
        obtain ⟨hfirst, -⟩ | ⟨hinside, -, hhalfway⟩ := hreads.leads_next hscan
        · obtain ⟨behind, hwhole, hprogram⟩ := hc.viable _ ⟨[], .lexeme ⟨t, l⟩⟩
          exact absurd hprogram (hblocks front _ behind hreads hfirst hwhole)
        · exact Or.inr ⟨hhalfway, hinside⟩
    | cons l' more =>
        obtain ⟨hnext, hcut, hplace⟩ := hreads.next_upTo hmore hscan
        refine Or.inl ⟨hnext, [], ?_⟩
        rw [← hplace]
        exact .take (Primitive.take?_lexeme.2 hcut)
  · obtain ⟨z, hz⟩ := hinside.rest_eq
    rw [hz, hc.scan_eqSign hhalfway] at hscan
    simp at hscan

/-- A lexeme that is missing at a place on the way to a blocked one. -/
theorem cut_miss (hc : (mark t).Awaited b front c) (hheads : b.Heads e front c)
    (hscan : t.scan c.rest = none) : t.scan (c.upTo e.rest).rest = none := by
  obtain ⟨hreads, more, hmore⟩ | ⟨hhalfway, _, _, _, hinside, hmore⟩ := hheads
  · cases more with
    | nil =>
        cases hmore
        rw [Cursor.upTo_of_append (z := []) rfl]
        cases hnone : t.scan [] with
        | none => rfl
        | some found =>
            exact absurd ⟨_, _, hnone⟩ (Cursor.lacks_of_rest_nil (c := ⟨0, []⟩) rfl [t] t (by simp))
    | cons l' more => exact Lexeme.scan_eq_none_of_first?_eq hmore.first?_upTo hscan
  · obtain ⟨z, hz⟩ := hinside.rest_of_reads hmore
    rw [Cursor.upTo_of_append hz]
    exact hc.scan_eqSign hhalfway z

end

/-- A run whose attempts end before a blocked place is the same in the text that is cut off
there. -/
theorem Runs.cut {s : Source} {e : Cursor} {front : List Lexeme} {g : Goal} {c : Cursor}
    {a : Attempts} {o : Outcome} (hblocks : s.firstPlace.Blocks e) (h : Runs g c a o)
    (hg : g.whole.Regular) (hannounced : g.whole.isAnnounced = true)
    (hc : g.whole.Awaited s.firstPlace front (g.place c))
    (hheads : s.firstPlace.Heads e front (g.place c)) (hquiet : o.attempts.offset < e.offset) :
    g.Cut s.firstPlace e front c a o := by
  induction h generalizing front with
  | @take p c a text ht =>
      cases p with
      | lexeme t =>
          obtain ⟨r, hscan⟩ := Primitive.take?_lexeme.1 ht
          exact cut_take hblocks hc hheads hscan
      | _ => simp [Goal.whole, Regular, isSyntactic, Primitive.isSyntactic] at hg
  | @miss p c a ht =>
      cases p with
      | lexeme t =>
          have hscan : t.scan c.rest = none := by simpa [Primitive.take?] using ht
          have hcut : t.scan (c.upTo e.rest).rest = none := cut_miss hc hheads hscan
          exact .miss (by simp [Primitive.take?, hcut])
      | _ => simp [Goal.whole, Regular, isSyntactic, Primitive.isSyntactic] at hg
  | @rule r c d a b nodes _ ih =>
      obtain ⟨ls, hpass, hcut⟩ := ih (regular_body hg) (isAnnounced_body r) hc.body hheads hquiet
      refine ⟨ls, hpass.body hg.1, hcut.imp_left ?_⟩
      rintro ⟨hd, nodes', hbody⟩
      exact ⟨hd, _, .rule hbody⟩
  | @ruleFails r c a b _ ih =>
      have hle : b.offset ≤ (r.blame c a b).offset := Attempts.offset_le_blame r c a b
      exact .ruleFails (ih (regular_body hg) (isAnnounced_body r) hc.body hheads
        (Nat.lt_of_le_of_lt hle hquiet))
  | @seq p q c d f a b b' first second hp hq ihp ihq =>
      obtain ⟨hgp, hgq⟩ := hg.seq
      obtain ⟨hap, haq⟩ := isAnnounced_seq hannounced
      have hb := Nat.lt_of_le_of_lt hq.offset_le hquiet
      obtain ⟨ls, hfirst, ⟨hd, nodes, hcut⟩ | ⟨hhalfway, hinside⟩⟩ :=
        ihp hgp hap (hc.first (productive hgq.1)) hheads hb
      · obtain ⟨ls', hsecond, hcut'⟩ := ihq hgq haq (hfirst.second hc hg.2) hd hquiet
        refine ⟨_, hfirst.seq hsecond, ?_⟩
        rw [← List.append_assoc]
        refine hcut'.imp_left ?_
        rintro ⟨hf, nodes', hcut'⟩
        rw [← hd.skip_upTo] at hcut'
        exact ⟨hf, _, .seq hcut hcut'⟩
      · have hloud : e.offset < b'.offset :=
          hfirst.offset_lt hg hannounced hheads hhalfway hinside hq
        exact absurd hquiet (Nat.lt_asymm hloud)
  | firstFails _ ihp =>
      obtain ⟨hgp, hgq⟩ := hg.seq
      have hap := (isAnnounced_seq hannounced).1
      exact .firstFails (ihp hgp hap (hc.first (productive hgq.1)) hheads hquiet)
  | @secondFails p q c d a b b' first hp hq ihp ihq =>
      obtain ⟨hgp, hgq⟩ := hg.seq
      obtain ⟨hap, haq⟩ := isAnnounced_seq hannounced
      have hb := Nat.lt_of_le_of_lt hq.offset_le hquiet
      obtain ⟨ls, hfirst, ⟨hd, nodes, hcut⟩ | ⟨hhalfway, hinside⟩⟩ :=
        ihp hgp hap (hc.first (productive hgq.1)) hheads hb
      · have hcut' := ihq hgq haq (hfirst.second hc hg.2) hd hquiet
        rw [Goal.Cut, ← hd.skip_upTo] at hcut'
        exact .secondFails hcut hcut'
      · have hloud : e.offset < b'.offset :=
          hfirst.offset_lt hg hannounced hheads hhalfway hinside hq
        exact absurd hquiet (Nat.lt_asymm hloud)
  | left _ ihp =>
      have hap := (isAnnounced_alt hannounced).1
      obtain ⟨ls, hpass, hcut⟩ := ihp hg.alt.1 hap hc.left hheads hquiet
      refine ⟨ls, hpass.left, hcut.imp_left ?_⟩
      rintro ⟨hd, nodes, hcut⟩
      exact ⟨hd, nodes, .left hcut⟩
  | @right p q c a b o _ hq ihp ihq =>
      obtain ⟨hap, haq⟩ := isAnnounced_alt hannounced
      have hb := Nat.lt_of_le_of_lt hq.offset_le hquiet
      have hfirst := ihp hg.alt.1 hap hc.left hheads hb
      have hsecond := ihq hg.alt.2 haq hc.right hheads hquiet
      cases o with
      | matched nodes d b' =>
          obtain ⟨ls, hpass, hcut⟩ := hsecond
          refine ⟨ls, hpass.right, hcut.imp_left ?_⟩
          rintro ⟨hd, nodes', hcut⟩
          exact ⟨hd, nodes', .right hfirst hcut⟩
      | failed b' => exact .right hfirst hsecond
      | unfinished => trivial
  | present _ ihp =>
      obtain ⟨ls, hpass, hcut⟩ := ihp hg.opt hannounced hc.present hheads hquiet
      refine ⟨ls, hpass.present, hcut.imp_left ?_⟩
      rintro ⟨hd, nodes, hcut⟩
      exact ⟨hd, nodes, .present hcut⟩
  | @absent p c a b _ ihp =>
      have hstay : c.skip = c := hc.leads.skip_eq s
      have hcut := ihp hg.opt hannounced hc.present hheads hquiet
      refine ⟨[], hc.nothing ⟨[], .absent⟩ hstay, Or.inl ⟨?_, [], .absent hcut⟩⟩
      rwa [List.append_nil, hstay]
  | @many p c d f a b b' first others _ hothers ihp ihq =>
      have hb := Nat.lt_of_le_of_lt hothers.offset_le hquiet
      obtain ⟨ls, hfirst, ⟨hd, nodes, hcut⟩ | ⟨hhalfway, -⟩⟩ :=
        ihp hg.many hannounced hc.round hheads hb
      · obtain ⟨ls', hmore, hcut'⟩ := ihq hg hannounced (hfirst.again hc hg) hd hquiet
        refine ⟨_, hfirst.more hmore hg, ?_⟩
        rw [← List.append_assoc]
        refine hcut'.imp_left ?_
        rintro ⟨hf, nodes', hcut'⟩
        exact ⟨hf, _, .many hcut hcut'⟩
      · exact absurd hhalfway (hfirst.not_halfway hg)
  | @round p c d f a b b' first others _ hothers ihp ihq =>
      have hb := Nat.lt_of_le_of_lt hothers.offset_le hquiet
      obtain ⟨ls, hfirst, ⟨hd, nodes, hcut⟩ | ⟨hhalfway, -⟩⟩ :=
        ihp hg.many hannounced hc.round hheads hb
      · obtain ⟨ls', hmore, hcut'⟩ := ihq hg hannounced (hfirst.again hc hg) hd hquiet
        refine ⟨_, hfirst.more hmore hg, ?_⟩
        rw [← List.append_assoc]
        refine hcut'.imp_left ?_
        rintro ⟨hf, nodes', hcut'⟩
        rw [← Cursor.Heads.skip_upTo hheads] at hcut
        exact ⟨hf, _, .round hcut hcut'⟩
      · exact absurd hhalfway (hfirst.not_halfway hg)
  | @never p c a b _ ihp =>
      have hstay : c.skip = c := hc.leads.skip_eq s
      have hcut := ihp hg.many hannounced hc.round hheads hquiet
      refine ⟨[], hc.nothing ⟨[], .none⟩ hstay, Or.inl ⟨?_, [], .never hcut⟩⟩
      rwa [List.append_nil, hstay]
  | @stop p c a b _ ihp =>
      have hcut := ihp hg.many hannounced hc.round hheads hquiet
      rw [Goal.Cut, ← Cursor.Heads.skip_upTo hheads] at hcut
      refine ⟨[], hc.nothing ⟨[], .none⟩ rfl, Or.inl ⟨?_, [], .stop hcut⟩⟩
      rwa [List.append_nil]

end DecafFrontEnd
