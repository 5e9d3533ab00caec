/-
  DecafFrontEnd/Proofs/Grammar/Expectation.lean --- which rules are recorded.

  `b.Leads ls c` says that the lexemes `ls` lead from the place `b` to `c`: they are read
  up to it, or the last of them is a lone `=` or `!` and `c` lies behind it, inside the
  operator that it begins.  Either way the text in front of `c`, on its own, has these
  lexemes (`Cursor.Leads.front`).

  A run from a place that some lexemes lead to, with a pattern that is viable behind
  them, goes only to such places again, and tries only rules that are viable there
  (`Runs.proceeds`).  This holds of the alternatives that are given up as well, so every
  rule that is recorded is one with which a program can go on where it was tried
  (`Source.justified_of_parseProgram_error`), and a program opens with a rule there.
-/
import DecafFrontEnd.Proofs.Grammar.Furthest
import DecafFrontEnd.Proofs.Grammar.Viable
import DecafFrontEnd.Proofs.Lexical.Front

set_option autoImplicit false

namespace DecafFrontEnd

open Pattern

/-! ## Lexemes that lead to a place -/

namespace Cursor

/-- A place inside an operator whose first sign is the last of the lexemes. -/
def Halfway (b : Cursor) (ls : List Lexeme) (c : Cursor) : Prop :=
  ∃ before m l, ls = before ++ [l] ∧ b.Reads before m ∧ Inside m c ∧
    m.rest = l.text ++ c.rest ∧ l.IsWhole

/-- A place that is read up to with these lexemes, or halfway through an operator. -/
def Leads (b : Cursor) (ls : List Lexeme) (c : Cursor) : Prop := b.Reads ls c ∨ b.Halfway ls c

variable {b c : Cursor} {ls : List Lexeme}

theorem Halfway.rest_eq (h : b.Halfway ls c) : ∃ r, c.rest = '=' :: r := by
  obtain ⟨_, _, _, -, -, hinside, -⟩ := h
  exact hinside.rest_eq

theorem Leads.onCourse (h : b.Leads ls c) : b.OnCourse c := by
  rcases h with hreads | ⟨before, m, _, -, hreads, hinside, -⟩
  · exact ⟨ls, c, hreads, Or.inl rfl⟩
  · exact ⟨before, m, hreads, Or.inr hinside⟩

theorem Leads.skip_eq (s : Source) (h : s.firstPlace.Leads ls c) : c.skip = c :=
  (h.onCourse.rested s.rested_firstPlace).skip_eq

/-- The text in front of a place has, on its own, the lexemes that lead to it. -/
theorem Leads.front {cs : List Char} (h : (start cs).skip.Leads ls c) :
    ∃ text e, cs = text ++ c.rest ∧ byteLength text = c.offset ∧
      (start text).skip.Reads ls e ∧ e.rest = [] := by
  obtain ⟨z, hz, -⟩ := h.onCourse.reaches
  obtain ⟨text, hcs, hoffset⟩ := (reaches_skip (start cs)).trans h.onCourse.reaches
  have hstart : (start text).skip = (start cs).skip.upTo c.rest := skip_start_upTo hcs hz
  have htext : byteLength text = c.offset := by simpa [start] using hoffset.symm
  suffices hreads : ∃ e, (start text).skip.Reads ls e ∧ e.rest = [] by
    obtain ⟨e, hreads, hend⟩ := hreads
    exact ⟨text, e, hcs, htext, hreads, hend⟩
  rw [hstart]
  rcases h with hreads | ⟨before, m, l, rfl, hreads, -, hm, hl⟩
  · refine ⟨_, hreads.upTo (z := []) rfl, ?_⟩
    rw [upTo_of_append (z := []) rfl]
  · -- the first sign of the operator ends the text, so that it is a lexeme there
    have hlast : (m.upTo c.rest).rest = l.text := by rw [upTo_of_append hm]
    have hfirst : Lexeme.first? (m.upTo c.rest).rest = some l := by rw [hlast]; exact hl
    refine ⟨_, (hreads.upTo hm).append (.one hfirst), ?_⟩
    have hpast : ((m.upTo c.rest).past l).rest =
        skipTrivia ((m.upTo c.rest).rest.drop l.text.length) := rfl
    rw [hpast, hlast, List.drop_length]
    rfl

/-- The sign in front of a place halfway is no lexeme of the text. -/
theorem Reads.not_halfway (h : b.Reads ls c) : ¬ b.Halfway ls c := by
  rintro ⟨before, m, l, rfl, hbefore, ⟨x, r, hrest, hfirst, rfl⟩, hm, -⟩
  obtain ⟨m', hbefore', hlast⟩ := h.split
  obtain rfl := hbefore.functional hbefore'
  obtain rfl := Option.some.inj (hlast.of_one.1.symm.trans hfirst)
  have hlength := congrArg List.length hm
  simp [hrest] at hlength

/-- A lexeme that fits at a place that is read up to is read, or it is the first sign of
an operator. -/
theorem Reads.leads_next {t : Terminal} {l r : List Char} (h : b.Reads ls c)
    (hscan : t.scan c.rest = some (l, r)) :
    (Lexeme.first? c.rest = some ⟨t, l⟩ ∧ b.Reads (ls ++ [⟨t, l⟩]) (c.advance l.length).skip) ∨
      (Inside c (c.advance l.length).skip ∧ (t = .assign ∨ t = .notOp) ∧
        b.Halfway (ls ++ [⟨t, l⟩]) (c.advance l.length).skip) := by
  rcases Lexeme.first?_of_scan hscan with hfirst | ⟨ht, r', rfl, hfirst⟩
  · exact Or.inl ⟨hfirst, h.append (.one hfirst)⟩
  · obtain ⟨x, hspell, rfl, hrest, -⟩ := Lexeme.scan_lone ht hscan
    have hinside : Inside c (c.advance 1) := ⟨x, r', hrest, hfirst, rfl⟩
    have hwhole : (⟨t, [x]⟩ : Lexeme).IsWhole := Terminal.isWhole [x] (by simp [hspell])
    rw [List.length_singleton, hinside.rested.skip_eq]
    exact Or.inr ⟨hinside, ht, ls, c, ⟨t, [x]⟩, rfl, h, hinside, by simp [hrest], hwhole⟩

end Cursor

/-! ## Rules that are awaited -/

/-- A rule with which a program can go on behind the first bytes of a text. -/
structure Source.Awaits (s : Source) (offset : Nat) (r : Rule) : Prop where
  isPart : r.isPart = true
  front : ∃ ls e, (Cursor.start (takeBytes offset s.chars)).skip.Reads ls e ∧ e.rest = [] ∧
    Viable ls (rule r) ∧ (phrase .program).Opens ls

theorem Source.awaits_of_leads {s : Source} {c : Cursor} {ls : List Lexeme} {r : Rule}
    (hr : r.isPart = true) (hleads : s.firstPlace.Leads ls c) (hviable : Viable ls (rule r))
    (hopens : OpensBehind ls (rule r)) : s.Awaits c.offset r := by
  obtain ⟨text, e, hchars, hoffset, hreads, hend⟩ := hleads.front
  have htext : takeBytes c.offset s.chars = text := by
    rw [← hoffset, hchars, takeBytes_byteLength_append]
  exact ⟨hr, ls, e, by rwa [htext], hend, hviable, hopens.here hr⟩

/-- Attempts with nothing but awaited rules, and some unless none was made. -/
structure Attempts.Justified (s : Source) (a : Attempts) : Prop where
  offset_eq_zero : a.rules = [] → a.offset = 0
  awaits : ∀ r ∈ a.rules, s.Awaits a.offset r

namespace Attempts

variable {s : Source} {a : Attempts} {r : Rule} {offset : Nat}

theorem justified_none (s : Source) : Attempts.none.Justified s :=
  ⟨fun _ => rfl, by simp [none]⟩

theorem Justified.record (h : a.Justified s) (hr : s.Awaits offset r) (before : Nat) :
    (a.record r offset before).Justified s := by
  unfold Attempts.record
  split
  · exact h
  split
  · next hoffset =>
      refine ⟨by simp, fun r' hr' => ?_⟩
      rcases List.mem_append.1 hr' with hold | hnew
      · rw [← hoffset]
        exact h.awaits r' (List.mem_of_mem_take hold)
      · rwa [List.mem_singleton.1 hnew]
  split
  · refine ⟨by simp, fun r' hr' => ?_⟩
    rwa [List.mem_singleton.1 hr']
  · exact h

theorem Justified.blame {a' : Attempts} {c : Cursor} (h : a'.Justified s)
    (hr : s.Awaits c.offset r) : (r.blame c a a').Justified s := by
  unfold Rule.blame
  split
  · exact h
  · exact h.record hr _

/-- A record names a rule. -/
theorem Justified.record_rules_ne_nil (h : a.Justified s) (r : Rule) (before : Nat) :
    (a.record r 0 before).rules ≠ [] := by
  have hrules : a.rules = [] → a.countAt 0 = 0 ∧ a.offset = 0 := fun hnil =>
    ⟨by simp [countAt, hnil], h.offset_eq_zero hnil⟩
  unfold Attempts.record
  split
  · next hcount =>
      intro hnil
      rw [(hrules hnil).1] at hcount
      simp at hcount
  split
  · simp
  split
  · simp
  · next hoffset _ => exact fun hnil => hoffset (hrules hnil).2

end Attempts

/-! ## Patterns at a place that lexemes lead to -/

namespace Pattern

/-- A pattern that does not begin with the second sign of an operator. -/
def AvoidsSign (p : Pattern) : Prop :=
  Terminal.eqOp ∉ p.starters ∧ Terminal.assign ∉ p.starters

theorem AvoidsSign.subset {p q : Pattern} (h : p.AvoidsSign)
    (hpq : q.starters ⊆ p.starters) : q.AvoidsSign :=
  ⟨fun hq => h.1 (hpq hq), fun hq => h.2 (hpq hq)⟩

/-- A pattern at a place that some lexemes lead to, with which a program can go on there. -/
structure Awaited (b : Cursor) (front : List Lexeme) (p : Pattern) (c : Cursor) : Prop where
  leads : b.Leads front c
  viable : Viable front p
  opens : OpensBehind front p
  /-- inside an operator nothing is tried that begins with its second sign -/
  avoids : b.Halfway front c → p.AvoidsSign

/-- A pattern that stands for some lexemes, which lead on from a place to another one. -/
structure Passes (b : Cursor) (front : List Lexeme) (p : Pattern) (c : Cursor)
    (ls : List Lexeme) (e : Cursor) : Prop where
  derivable : Derivable p ls
  leads : b.Leads (front ++ ls) e
  /-- it ends inside an operator with its first sign, or it began there -/
  blunt : b.Halfway (front ++ ls) e → p.isBlunt = true ∨ ls = [] ∧ b.Halfway front c

variable {b c e f : Cursor} {front ls ls' : List Lexeme} {p q : Pattern} {r : Rule}

/-! ### Parts that are awaited -/

namespace Awaited

theorem body (h : (rule r).Awaited b front c) : r.body.Awaited b front c :=
  ⟨h.leads, h.viable.body, h.opens.body, fun hc => (h.avoids hc).subset r.starters_body⟩

theorem first (h : (seq p q).Awaited b front c) (hq : q.Productive) : p.Awaited b front c :=
  ⟨h.leads, h.viable.first hq, h.opens.first,
    fun hc => (h.avoids hc).subset (List.subset_append_left _ _)⟩

theorem left (h : (alt p q).Awaited b front c) : p.Awaited b front c :=
  ⟨h.leads, h.viable.left, h.opens.left,
    fun hc => (h.avoids hc).subset (List.subset_append_left _ _)⟩

theorem right (h : (alt p q).Awaited b front c) : q.Awaited b front c :=
  ⟨h.leads, h.viable.right, h.opens.right,
    fun hc => (h.avoids hc).subset (List.subset_append_right _ _)⟩

theorem present (h : (opt p).Awaited b front c) : p.Awaited b front c :=
  ⟨h.leads, h.viable.present, h.opens.present, h.avoids⟩

theorem round (h : (many p).Awaited b front c) : p.Awaited b front c :=
  ⟨h.leads, h.viable.round, h.opens.round, h.avoids⟩

/-- What takes nothing stays where it is. -/
theorem nothing (h : p.Awaited b front c) (hp : Derivable p []) (he : e = c) :
    p.Passes b front c [] e where
  derivable := hp
  leads := by rw [List.append_nil, he]; exact h.leads
  blunt hc := Or.inr ⟨rfl, by rwa [List.append_nil, he] at hc⟩

/-- A lexeme that fits passes; inside an operator only its second sign fits. -/
theorem lexeme {t : Terminal} {l r : List Char} (h : (mark t).Awaited b front c)
    (hscan : t.scan c.rest = some (l, r)) :
    (mark t).Passes b front c [⟨t, l⟩] (c.advance l.length).skip := by
  have hderives : Derivable (mark t) [⟨t, l⟩] := ⟨[], .lexeme ⟨t, l⟩⟩
  rcases h.leads with hreads | hhalfway
  · rcases hreads.leads_next hscan with ⟨-, hnext⟩ | ⟨-, hsign, hnext⟩
    · exact ⟨hderives, Or.inl hnext, fun hc => absurd hc hnext.not_halfway⟩
    · refine ⟨hderives, Or.inr hnext, fun _ => Or.inl ?_⟩
      rcases hsign with rfl | rfl <;> rfl
  · obtain ⟨r', hr'⟩ := hhalfway.rest_eq
    obtain ⟨hop, hassign⟩ := h.avoids hhalfway
    rw [hr'] at hscan
    rcases Terminal.eq_of_scan_eqSign hscan with rfl | rfl
    · exact absurd (List.mem_singleton_self _) hop
    · exact absurd (List.mem_singleton_self _) hassign

end Awaited

/-! ### Parts that pass -/

namespace Passes

theorem body (h : r.body.Passes b front c ls e) (hr : r.isSyntactic = true) :
    (rule r).Passes b front c ls e := by
  obtain ⟨⟨ts, hts⟩, hleads, hblunt⟩ := h
  exact ⟨⟨_, .rule hts⟩, hleads, fun he => (hblunt he).imp_left (Rule.isGuarded_body hr).2⟩

theorem left (h : p.Passes b front c ls e) : (alt p q).Passes b front c ls e := by
  obtain ⟨⟨ts, hts⟩, hleads, hblunt⟩ := h
  exact ⟨⟨ts, .left hts⟩, hleads, fun he => (hblunt he).imp_left fun hp => by simp [isBlunt, hp]⟩

theorem right (h : q.Passes b front c ls e) : (alt p q).Passes b front c ls e := by
  obtain ⟨⟨ts, hts⟩, hleads, hblunt⟩ := h
  exact ⟨⟨ts, .right hts⟩, hleads, fun he => (hblunt he).imp_left fun hq => by simp [isBlunt, hq]⟩

theorem present (h : p.Passes b front c ls e) : (opt p).Passes b front c ls e := by
  obtain ⟨⟨ts, hts⟩, hleads, hblunt⟩ := h
  exact ⟨⟨ts, .present hts⟩, hleads, hblunt⟩

/-- Behind the first part of a sequence the second one is awaited: a lone sign there is
followed by something that begins otherwise. -/
theorem second (h : p.Passes b front c ls e) (hseq : (seq p q).Awaited b front c)
    (hguarded : (seq p q).isGuarded = true) : q.Awaited b (front ++ ls) e where
  leads := h.leads
  viable := hseq.viable.second h.derivable
  opens := hseq.opens.second h.derivable
  avoids he := by
    rcases h.blunt he with hblunt | ⟨rfl, hc⟩
    · simp only [isGuarded, hblunt, Bool.not_true, Bool.false_or, Bool.and_eq_true,
        Bool.not_eq_true', List.contains_eq_mem, decide_eq_false_iff_not] at hguarded
      exact ⟨hguarded.2.1.2, hguarded.2.2⟩
    · obtain ⟨ts, hts⟩ := h.derivable
      refine (hseq.avoids hc).subset ?_
      rw [starters_seq, if_pos (hts.nullable rfl)]
      exact List.subset_append_right _ _

theorem seq (h : p.Passes b front c ls e) (h' : q.Passes b (front ++ ls) e ls' f) :
    (Pattern.seq p q).Passes b front c (ls ++ ls') f := by
  obtain ⟨⟨ts, hts⟩, -, hblunt⟩ := h
  obtain ⟨⟨ts', hts'⟩, hleads, hblunt'⟩ := h'
  refine ⟨⟨_, .seq hts hts'⟩, by rwa [← List.append_assoc], fun hf => ?_⟩
  rw [← List.append_assoc] at hf
  rcases hblunt' hf with hb | ⟨rfl, he⟩
  · exact Or.inl (by simp [isBlunt, hb])
  · rcases hblunt he with hb | ⟨rfl, hc⟩
    · exact Or.inl (by simp [isBlunt, hb, hts'.nullable rfl])
    · exact Or.inr ⟨rfl, hc⟩

/-- A round of a repetition does not end inside an operator. -/
theorem not_halfway (h : p.Passes b front c ls e) (hmany : (many p).Regular) :
    ¬ b.Halfway (front ++ ls) e := by
  simp only [Regular, isSyntactic, isGuarded, Bool.and_eq_true, Bool.not_eq_true'] at hmany
  obtain ⟨⟨-, hnull⟩, -, hsharp⟩ := hmany
  intro he
  rcases h.blunt he with hblunt | ⟨rfl, -⟩
  · simp [hsharp] at hblunt
  · obtain ⟨ts, hts⟩ := h.derivable
    simp [hts.nullable rfl] at hnull

/-- Behind a round of a repetition another one is awaited. -/
theorem again (h : p.Passes b front c ls e) (hc : (many p).Awaited b front c)
    (hmany : (many p).Regular) : (many p).Awaited b (front ++ ls) e :=
  ⟨h.leads, hc.viable.again h.derivable, hc.opens.again h.derivable,
    fun he => absurd he (h.not_halfway hmany)⟩

theorem more (h : p.Passes b front c ls e) (h' : (many p).Passes b (front ++ ls) e ls' f)
    (hmany : (many p).Regular) : (many p).Passes b front c (ls ++ ls') f := by
  have hnot := h.not_halfway hmany
  obtain ⟨ts, hts⟩ := h.derivable
  obtain ⟨⟨ts', hts'⟩, hleads, hblunt⟩ := h'
  refine ⟨⟨_, .more hts hts'⟩, by rwa [← List.append_assoc], fun hf => ?_⟩
  rw [← List.append_assoc] at hf
  rcases hblunt hf with hb | ⟨-, he⟩
  · exact Or.inl hb
  · exact absurd he hnot

end Passes

end Pattern

/-! ## Runs -/

/-- How a goal proceeds: it passes, or it fails, and what was tried is awaited. -/
def Goal.Proceeds (s : Source) (front : List Lexeme) (g : Goal) (c : Cursor) : Outcome → Prop
  | .matched _ d a => a.Justified s ∧
      ∃ ls, g.whole.Passes s.firstPlace front (g.place c) ls d.skip
  | .failed a => a.Justified s
  | .unfinished => True

/-- A run of an awaited goal proceeds, whatever it tries on its way. -/
theorem Runs.proceeds {s : Source} {front : List Lexeme} {g : Goal} {c : Cursor} {a : Attempts}
    {o : Outcome} (h : Runs g c a o) (hg : g.whole.Regular)
    (hc : g.whole.Awaited s.firstPlace front (g.place c)) (ha : a.Justified s) :
    g.Proceeds s front c o := by
  induction h generalizing front with
  | @take p c a text ht =>
      cases p with
      | lexeme t =>
          obtain ⟨r, hscan⟩ := Primitive.take?_lexeme.1 ht
          exact ⟨ha, _, hc.lexeme hscan⟩
      | _ => simp [Goal.whole, Regular, isSyntactic, Primitive.isSyntactic] at hg
  | miss _ => exact ha
  | rule _ ih =>
      obtain ⟨hb, ls, hpass⟩ := ih (regular_body hg) hc.body ha
      exact ⟨hb, ls, hpass.body hg.1⟩
  | @ruleFails r c a b _ ih =>
      have hb : b.Justified s := ih (regular_body hg) hc.body ha
      have hr : r.isPart = true := r.isPart_of_isSyntactic hg.1
      exact hb.blame (Source.awaits_of_leads hr hc.leads hc.viable hc.opens)
  | seq _ _ ihp ihq =>
      obtain ⟨hgp, hgq⟩ := hg.seq
      obtain ⟨hb, ls, hfirst⟩ := ihp hgp (hc.first (productive hgq.1)) ha
      obtain ⟨hb', ls', hsecond⟩ := ihq hgq (hfirst.second hc hg.2) hb
      exact ⟨hb', _, hfirst.seq hsecond⟩
  | firstFails _ ihp =>
      obtain ⟨hgp, hgq⟩ := hg.seq
      exact ihp hgp (hc.first (productive hgq.1)) ha
  | secondFails _ _ ihp ihq =>
      obtain ⟨hgp, hgq⟩ := hg.seq
      obtain ⟨hb, ls, hfirst⟩ := ihp hgp (hc.first (productive hgq.1)) ha
      exact ihq hgq (hfirst.second hc hg.2) hb
  | left _ ihp =>
      obtain ⟨hb, ls, hpass⟩ := ihp hg.alt.1 hc.left ha
      exact ⟨hb, ls, hpass.left⟩
  | @right p q c a b o _ _ ihp ihq =>
      have hb : b.Justified s := ihp hg.alt.1 hc.left ha
      have hsecond := ihq hg.alt.2 hc.right hb
      cases o with
      | matched nodes d b' =>
          obtain ⟨hb', ls, hpass⟩ := hsecond
          exact ⟨hb', ls, hpass.right⟩
      | failed b' => exact hsecond
      | unfinished => trivial
  | present _ ihp =>
      obtain ⟨hb, ls, hpass⟩ := ihp hg.opt hc.present ha
      exact ⟨hb, ls, hpass.present⟩
  | absent _ ihp =>
      exact ⟨ihp hg.opt hc.present ha, [], hc.nothing ⟨[], .absent⟩ (hc.leads.skip_eq s)⟩
  | many _ _ ihp ihq | round _ _ ihp ihq =>
      obtain ⟨hb, ls, hfirst⟩ := ihp hg.many hc.round ha
      obtain ⟨hb', ls', hothers⟩ := ihq hg (hfirst.again hc hg) hb
      exact ⟨hb', _, hfirst.more hothers hg⟩
  | never _ ihp =>
      exact ⟨ihp hg.many hc.round ha, [], hc.nothing ⟨[], .none⟩ (hc.leads.skip_eq s)⟩
  | stop _ ihp => exact ⟨ihp hg.many hc.round ha, [], hc.nothing ⟨[], .none⟩ rfl⟩

/-! ## Programs that do not parse -/

namespace Source

variable {s : Source} {m : Mismatch}

/-- A program can begin with a program. -/
theorem awaits_program (s : Source) : s.Awaits 0 (.phrase .program) := by
  have hnothing : takeBytes 0 s.chars = [] := takeBytes_byteLength_append [] s.chars
  refine ⟨rfl, [], _, .nil _, ?_, Viable.program, .here rfl⟩
  rw [hnothing]
  rfl

/-- At the front of a text the classes and the end of a program are awaited. -/
theorem awaited_classes_end (s : Source) :
    (seq classes (rule .endOfInput)).Awaited s.firstPlace [] s.firstPlace := by
  have hviable : Viable [] (Rule.phrase .program).body := Viable.program.body
  have hopens : OpensBehind [] (Rule.phrase .program).body := OpensBehind.program.body
  exact ⟨Or.inl (.nil _), hviable.second ⟨[], .inputStart⟩, hopens.second ⟨[], .inputStart⟩,
    fun _ => ⟨by decide, by decide⟩⟩

theorem awaited_classes (s : Source) : classes.Awaited s.firstPlace [] s.firstPlace :=
  s.awaited_classes_end.first (Rule.productive rfl)

/-- The attempts at a program are awaited, and some rule is among them. -/
theorem justified_blame_program {a x : Attempts} (hx : x.Justified s)
    (ha : a = (Rule.phrase .program).blame (Cursor.start s.chars) .none x) :
    a.Justified s ∧ a.rules ≠ [] := by
  subst ha
  exact ⟨hx.blame s.awaits_program, hx.record_rules_ne_nil _ _⟩

/-- A text that does not parse has rules recorded, and only such as are awaited. -/
theorem justified_of_parseProgram_error (h : s.parseProgram = .error m) :
    ∃ a, m = .ofAttempts s a ∧ a.Justified s ∧ a.rules ≠ [] := by
  obtain ⟨a, hrun, rfl⟩ := runs_of_parseProgram_error h
  refine ⟨a, rfl, ?_⟩
  have hnone := Attempts.justified_none s
  rcases blame_of_program_fails rfl hrun with ⟨x, hfails, ha⟩ | ⟨_, d, x, hmatches, -, ha⟩
  · have hx : x.Justified s := hfails.proceeds regular_classes s.awaited_classes hnone
    exact justified_blame_program hx ha
  · obtain ⟨hx, ls, hpass⟩ :=
      hmatches.proceeds regular_classes s.awaited_classes hnone
    have hend := hpass.second s.awaited_classes_end (by decide)
    have hawaits := awaits_of_leads rfl hend.leads hend.viable hend.opens
    exact justified_blame_program (hx.blame hawaits) ha

end Source

end DecafFrontEnd
