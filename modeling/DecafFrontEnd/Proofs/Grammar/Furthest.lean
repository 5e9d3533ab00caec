/-
  DecafFrontEnd/Proofs/Grammar/Furthest.lean --- where attempts can fail.

  `Cursor.OnCourse b c` says that the place `c` is one that lexemes read from `b` on
  lead to, or the place between the two signs of an `==` or `!=` that they lead to.
  A lexeme of any class that fits at a place on course leads to another one
  (`Cursor.OnCourse.next`), also where it is the second sign of an operator.  So a
  match that begins on course stays there, whatever it tries, and records no other
  offset (`Runs.onCourse`).

  A place on course is never beyond the place at which the reading of lexemes comes
  to its end (`Cursor.OnCourse.offset_le`).  A text that does not parse therefore
  fails no later than its tokens do (`Source.offset_le_of_tokenize_error`).
-/
import DecafFrontEnd.Proofs.Grammar.Language

set_option autoImplicit false

namespace DecafFrontEnd

open Pattern

/-! ## Places on course -/

namespace Cursor

/-- A place inside an `==` or `!=` that starts at another one. -/
def Inside (m c : Cursor) : Prop :=
  ∃ x r, m.rest = x :: '=' :: r ∧ Lexeme.first? m.rest = some ⟨.eqOp, [x, '=']⟩ ∧
    c = m.advance 1

/-- A place that is read up to, or inside an operator that is. -/
def OnCourse (b c : Cursor) : Prop :=
  ∃ ls m, b.Reads ls m ∧ (c = m ∨ Inside m c)

theorem Inside.rest_eq {m c : Cursor} (h : Inside m c) : ∃ r, c.rest = '=' :: r := by
  obtain ⟨x, r, hrest, -, rfl⟩ := h
  exact ⟨r, by simp [hrest]⟩

theorem Inside.rested {m c : Cursor} (h : Inside m c) : c.Rested := by
  obtain ⟨r, hr⟩ := h.rest_eq
  exact rested_of_head hr (by decide) (by decide)

theorem OnCourse.rested {b c : Cursor} (h : OnCourse b c) (hb : b.Rested) : c.Rested := by
  obtain ⟨ls, m, hreads, rfl | hinside⟩ := h
  · exact hreads.rested hb
  · exact hinside.rested

theorem OnCourse.skip {b c : Cursor} (h : OnCourse b c) (hb : b.Rested) : OnCourse b c.skip := by
  rw [(h.rested hb).skip_eq]
  exact h

theorem OnCourse.reaches {b c : Cursor} (h : OnCourse b c) : b.Reaches c := by
  obtain ⟨ls, m, hreads, rfl | ⟨_, _, -, -, rfl⟩⟩ := h
  · exact hreads.reaches
  · exact hreads.reaches.trans (reaches_advance _ _)

theorem Reads.onCourse_past {b m : Cursor} {ls : List Lexeme} {l : Lexeme}
    (h : b.Reads ls m) (hl : Lexeme.first? m.rest = some l) : OnCourse b (m.past l) :=
  ⟨ls ++ [l], m.past l, h.append (.one hl), Or.inl rfl⟩

/-- A lexeme that fits at a place that is read up to leads on course. -/
theorem Reads.onCourse_next {b c : Cursor} {ls : List Lexeme} {t : Terminal} {l r : List Char}
    (h : b.Reads ls c) (hscan : t.scan c.rest = some (l, r)) :
    OnCourse b (c.advance l.length).skip := by
  rcases Lexeme.first?_of_scan hscan with hfirst | ⟨ht, r', rfl, hfirst⟩
  · exact h.onCourse_past hfirst
  · obtain ⟨x, -, rfl, hrest, -⟩ := Lexeme.scan_lone ht hscan
    have hinside : Inside c (c.advance 1) := ⟨x, r', hrest, hfirst, rfl⟩
    rw [List.length_singleton, hinside.rested.skip_eq]
    exact ⟨ls, c, h, Or.inr hinside⟩

/-- A lexeme that fits inside an operator is its second sign or begins with it. -/
theorem Inside.onCourse_next {b m c : Cursor} {ls : List Lexeme} {t : Terminal}
    {l r : List Char} (h : Inside m c) (hreads : b.Reads ls m)
    (hscan : t.scan c.rest = some (l, r)) : OnCourse b (c.advance l.length).skip := by
  obtain ⟨x, r', hrest, hfirst, rfl⟩ := h
  have hpast := hreads.append (.one hfirst)
  have hrest' : (m.advance 1).rest = '=' :: r' := by simp [hrest]
  rw [hrest'] at hscan
  rcases Terminal.eq_of_scan_eqSign hscan with rfl | rfl
  · have hop : scanAny [['=', '='], ['!', '=']] ('=' :: r') = some (l, r) := hscan
    obtain ⟨hl, hcs⟩ := append_of_scanAny hop
    simp only [List.mem_cons, List.not_mem_nil, or_false] at hl
    rcases hl with rfl | rfl
    · -- three signs in a row: behind the operator there is one more
      obtain rfl : r' = '=' :: r := (List.cons.inj hcs).2
      have hbehind : (m.advance 2).rest = '=' :: r := by simp [hrest]
      have hk : m.past ⟨.eqOp, [x, '=']⟩ = m.advance 2 :=
        (rested_of_head hbehind (by decide) (by decide)).skip_eq
      rw [hk] at hpast
      have hsign : Terminal.assign.scan (m.advance 2).rest = some (['='], r) := by
        rw [hbehind]
        simp [Terminal.scan, scanAny, scanSpelling, Terminal.spellings]
      have hnext := hpast.onCourse_next hsign
      rw [advance_advance] at hnext ⊢
      exact hnext
    · simp at hcs
  · have hsign : scanAny [['=']] ('=' :: r') = some (l, r) := hscan
    obtain ⟨hl, -⟩ := append_of_scanAny hsign
    obtain rfl : l = ['='] := by simpa using hl
    rw [advance_advance]
    exact hreads.onCourse_past hfirst

/-- A lexeme of any class leads from a place on course to another one. -/
theorem OnCourse.next {b c : Cursor} {t : Terminal} {l r : List Char} (h : OnCourse b c)
    (hscan : t.scan c.rest = some (l, r)) : OnCourse b (c.advance l.length).skip := by
  obtain ⟨ls, m, hreads, rfl | hinside⟩ := h
  · exact hreads.onCourse_next hscan
  · exact hinside.onCourse_next hreads hscan

/-- A place inside an operator lies behind the operator's front. -/
theorem Inside.offset_lt {m c : Cursor} (h : Inside m c) : m.offset < c.offset := by
  obtain ⟨x, r, hrest, -, rfl⟩ := h
  have hsize := x.utf8Size_pos
  simp [advance, hrest]
  omega

/-- A place inside an operator lies before any place behind the operator. -/
theorem Inside.offset_lt_of_reads {m c d : Cursor} {l : Lexeme} {ls : List Lexeme}
    (h : Inside m c) (hreads : m.Reads (l :: ls) d) : c.offset < d.offset := by
  obtain ⟨x, r, hrest, hfirst, rfl⟩ := h
  cases hreads with
  | cons hl hmore =>
      obtain rfl := Option.some.inj (hfirst.symm.trans hl)
      have hsecond : (m.advance 1).offset < (m.advance 2).offset := by
        have hsize := ('=' : Char).utf8Size_pos
        simpa [advance, hrest] using hsize
      have hskip := (reaches_skip (m.advance 2)).offset_le
      exact Nat.lt_of_lt_of_le hsecond (Nat.le_trans hskip hmore.reaches.offset_le)

/-- No place on course lies beyond the end of the reading. -/
theorem OnCourse.offset_le {b c d : Cursor} {ls : List Lexeme} (h : OnCourse b c)
    (hreads : b.Reads ls d) (hend : Lexeme.first? d.rest = none) : c.offset ≤ d.offset := by
  obtain ⟨ls', m, hm, hc⟩ := h
  obtain ⟨more, -, hmore⟩ := hreads.before_end hend hm
  rcases hc with rfl | hinside
  · exact hmore.reaches.offset_le
  · cases more with
    | nil =>
        obtain ⟨x, r, -, hfirst, rfl⟩ := hinside
        cases hmore
        rw [hend] at hfirst
        simp at hfirst
    | cons l more => exact Nat.le_of_lt (hinside.offset_lt_of_reads hmore)

end Cursor

/-! ## Attempts on course -/

/-- The offset of the attempts is the front of the text or a place on course. -/
def Attempts.OnCourse (b : Cursor) (a : Attempts) : Prop :=
  a.offset = 0 ∨ ∃ c, b.OnCourse c ∧ a.offset = c.offset

/-- A record keeps the furthest offset. -/
theorem Attempts.offset_record (a : Attempts) (r : Rule) (offset before : Nat) :
    (a.record r offset before).offset = max a.offset offset := by
  by_cases hsame : a.offset = offset
  · simp only [record, hsame, if_true, Nat.max_self]
    split
    · exact hsame
    · rfl
  · have hcount : a.countAt offset = 0 := if_neg hsame
    simp only [record, hcount, hsame, if_false, Nat.right_eq_add, Nat.add_eq_zero_iff,
      Nat.one_ne_zero, and_false]
    split
    · next hlt => exact (Nat.max_eq_right (Nat.le_of_lt hlt)).symm
    · next hle => exact (Nat.max_eq_left (Nat.le_of_not_lt hle)).symm

theorem Rule.offset_blame {r : Rule} (hr : r.isSilent = false) (c : Cursor) (a a' : Attempts) :
    (r.blame c a a').offset = max a'.offset c.offset := by
  rw [blame, hr]
  exact a'.offset_record _ _ _

theorem Attempts.OnCourse.of_max {b c : Cursor} {a a' : Attempts} (h : a.OnCourse b)
    (hc : b.OnCourse c) (hoffset : a'.offset = max a.offset c.offset) : a'.OnCourse b := by
  rcases Nat.le_total a.offset c.offset with hle | hle
  · exact Or.inr ⟨c, hc, hoffset.trans (Nat.max_eq_right hle)⟩
  · rwa [OnCourse, hoffset, Nat.max_eq_left hle]

theorem Attempts.OnCourse.blame {b c : Cursor} {a a' : Attempts} (h : a'.OnCourse b)
    (hc : b.OnCourse c) (r : Rule) : (r.blame c a a').OnCourse b := by
  cases hr : r.isSilent with
  | true =>
      rw [Rule.blame, if_pos hr]
      exact h
  | false => exact h.of_max hc (Rule.offset_blame hr c a a')

/-- An outcome on course: the attempts are, and the place behind the trivia after a
match is. -/
def Outcome.OnCourse (b : Cursor) : Outcome → Prop
  | matched _ d a => b.OnCourse d.skip ∧ a.OnCourse b
  | failed a => a.OnCourse b
  | unfinished => True

/-- Where the first match of a goal begins. -/
def Goal.place : Goal → Cursor → Cursor
  | once _, c => c
  | again _, c => c.skip

/-- A match that begins on course stays on course. -/
theorem Runs.onCourse {b : Cursor} (hb : b.Rested) {g : Goal} {c : Cursor} {a : Attempts}
    {o : Outcome} (h : Runs g c a o) (hg : g.pattern.isSyntactic = true)
    (hc : b.OnCourse (g.place c)) (ha : a.OnCourse b) : o.OnCourse b := by
  induction h with
  | @take p c a text ht =>
      cases p with
      | lexeme t =>
          obtain ⟨r, hscan⟩ := Primitive.take?_lexeme.1 ht
          exact ⟨hc.next hscan, ha⟩
      | _ => simp [Goal.pattern, Pattern.isSyntactic, Primitive.isSyntactic] at hg
  | miss _ => exact ha
  | rule _ ih => exact ih (Rule.isSyntactic_body hg) hc ha
  | @ruleFails r _ _ _ _ ih =>
      have hb' : Attempts.OnCourse b _ := ih (Rule.isSyntactic_body hg) hc ha
      exact hb'.blame hc r
  | seq _ _ ihp ihq =>
      simp only [Goal.pattern, Pattern.isSyntactic, Bool.and_eq_true] at hg
      obtain ⟨hd, hb'⟩ := ihp hg.1 hc ha
      exact ihq hg.2 hd hb'
  | firstFails _ ihp =>
      simp only [Goal.pattern, Pattern.isSyntactic, Bool.and_eq_true] at hg
      exact ihp hg.1 hc ha
  | secondFails _ _ ihp ihq =>
      simp only [Goal.pattern, Pattern.isSyntactic, Bool.and_eq_true] at hg
      obtain ⟨hd, hb'⟩ := ihp hg.1 hc ha
      exact ihq hg.2 hd hb'
  | left _ ihp =>
      simp only [Goal.pattern, Pattern.isSyntactic, Bool.and_eq_true] at hg
      exact ihp hg.1 hc ha
  | right _ _ ihp ihq =>
      simp only [Goal.pattern, Pattern.isSyntactic, Bool.and_eq_true] at hg
      exact ihq hg.2 hc (ihp hg.1 hc ha)
  | present _ ihp =>
      simp only [Goal.pattern, Pattern.isSyntactic, Bool.and_eq_true] at hg
      exact ihp hg.1 hc ha
  | absent _ ihp =>
      simp only [Goal.pattern, Pattern.isSyntactic, Bool.and_eq_true] at hg
      exact ⟨Cursor.OnCourse.skip hc hb, ihp hg.1 hc ha⟩
  | many _ _ ihp ihq =>
      simp only [Goal.pattern, Pattern.isSyntactic, Bool.and_eq_true] at hg
      obtain ⟨hd, hb'⟩ := ihp hg.1 hc ha
      exact ihq hg.1 hd hb'
  | never _ ihp =>
      simp only [Goal.pattern, Pattern.isSyntactic, Bool.and_eq_true] at hg
      exact ⟨Cursor.OnCourse.skip hc hb, ihp hg.1 hc ha⟩
  | round _ _ ihp ihq =>
      obtain ⟨hd, hb'⟩ := ihp hg hc ha
      exact ihq hg hd hb'
  | stop _ ihp => exact ⟨hc, ihp hg hc ha⟩

/-! ## Programs that do not parse -/

/-- A program fails where its classes do, or where text is left behind them. -/
theorem blame_of_program_fails {c : Cursor} {a : Attempts} (hoffset : c.offset = 0)
    (h : Runs (.once (phrase .program)) c .none (.failed a)) :
    (∃ x, Runs (.once classes) c.skip .none (.failed x) ∧
        a = (Rule.phrase .program).blame c .none x) ∨
      ∃ nodes d x, Runs (.once classes) c.skip .none (.matched nodes d x) ∧ d.skip.rest ≠ [] ∧
        a = (Rule.phrase .program).blame c .none (Rule.endOfInput.blame d.skip x x) := by
  cases h with
  | ruleFails hbody =>
      cases hbody with
      | firstFails hstart =>
          cases hstart with
          | miss htake => simp [Primitive.take?, hoffset] at htake
      | secondFails hstart hrest =>
          cases hstart with
          | take htake =>
              simp only [Primitive.take?, hoffset, if_true, Option.some.injEq] at htake
              subst htake
              rw [List.length_nil, Cursor.advance_zero] at hrest
              cases hrest with
              | firstFails hclasses => exact Or.inl ⟨_, hclasses, rfl⟩
              | secondFails hclasses hend =>
                  cases hend with
                  | ruleFails hmiss =>
                      cases hmiss with
                      | miss htake =>
                          refine Or.inr ⟨_, _, _, hclasses, ?_, rfl⟩
                          simpa [Primitive.take?] using htake

/-- The furthest place at which a program fails. -/
theorem attempts_of_program_fails {c : Cursor} {a : Attempts} (hoffset : c.offset = 0)
    (h : Runs (.once (phrase .program)) c .none (.failed a)) :
    (∃ x, Runs (.once classes) c.skip .none (.failed x) ∧ a.offset = x.offset) ∨
      ∃ nodes d x, Runs (.once classes) c.skip .none (.matched nodes d x) ∧ d.skip.rest ≠ [] ∧
        a.offset = max x.offset d.skip.offset := by
  have hrule : ∀ x, ((Rule.phrase .program).blame c .none x).offset = x.offset := by
    intro x
    rw [Rule.offset_blame rfl, hoffset, Nat.max_zero]
  rcases blame_of_program_fails hoffset h with ⟨x, hclasses, rfl⟩ | ⟨_, _, x, hclasses, hne, rfl⟩
  · exact Or.inl ⟨x, hclasses, hrule x⟩
  · refine Or.inr ⟨_, _, x, hclasses, hne, ?_⟩
    rw [hrule, Rule.offset_blame rfl]

namespace Source

/-- A text that does not parse has a run of the program that fails, whose attempts are
those described. -/
theorem runs_of_parseProgram_error {s : Source} {m : Mismatch} (h : s.parseProgram = .error m) :
    ∃ a, Runs (.once (phrase .program)) (Cursor.start s.chars) .none (.failed a) ∧
      m = .ofAttempts s a := by
  rcases (phrase .program).refuses_or rfl (Cursor.start s.chars) with
    hrefuses | ⟨nodes, d, hmatches⟩
  · obtain ⟨a, ha⟩ := hrefuses .none
    unfold parseProgram parseRule at h
    rw [Rule.matchAt_eq ha] at h
    obtain rfl := Except.error.inj h
    exact ⟨a, ha, rfl⟩
  · obtain ⟨_, _, _, _, _, _, hnodes⟩ := matches_program.1 hmatches
    simp only [Rule.leave, Rule.isSilent, Bool.false_eq_true, if_false] at hnodes
    subst hnodes
    rw [parseProgram_eq_ok_iff.2 ⟨d, hmatches⟩] at h
    simp at h

/-- A text that does not parse fails at its front or at a place on course. -/
theorem offset_of_parseProgram_error {s : Source} {m : Mismatch}
    (h : s.parseProgram = .error m) :
    m.offset = 0 ∨ ∃ c, s.firstPlace.OnCourse c ∧ m.offset = c.offset := by
  have hfront : s.firstPlace.OnCourse s.firstPlace := ⟨[], s.firstPlace, .nil _, Or.inl rfl⟩
  have hnone : Attempts.none.OnCourse s.firstPlace := Or.inl rfl
  obtain ⟨a, hrun, rfl⟩ := runs_of_parseProgram_error h
  obtain ⟨x, hclasses, ha⟩ | ⟨nodes, d, x, hclasses, -, ha⟩ := attempts_of_program_fails rfl hrun
  · have hx := hclasses.onCourse s.rested_firstPlace isSyntactic_classes hfront hnone
    rw [Mismatch.ofAttempts, ha]
    exact hx
  · obtain ⟨hd, hx⟩ := hclasses.onCourse s.rested_firstPlace isSyntactic_classes hfront hnone
    exact Attempts.OnCourse.of_max hx hd ha

/-- A text that does not parse does not fail in front of its first lexeme. -/
theorem firstPlace_le_of_parse_error {s : Source} {m : Mismatch}
    (h : s.parseProgram = .error m) : s.firstPlace.offset ≤ m.offset := by
  obtain ⟨a, hrun, rfl⟩ := runs_of_parseProgram_error h
  obtain ⟨x, hclasses, ha⟩ | ⟨nodes, d, x, hclasses, -, ha⟩ := attempts_of_program_fails rfl hrun
  · -- the first class is tried there
    have hfirst : s.firstPlace.offset ≤ x.offset := by
      cases hclasses with
      | firstFails hclass =>
          cases hclass with
          | ruleFails _ =>
              rw [Rule.offset_blame rfl]
              exact Nat.le_max_right _ _
      | secondFails _ hmore => cases hmore
    exact Nat.le_trans hfirst (Nat.le_of_eq ha.symm)
  · have hplace : s.firstPlace.offset ≤ d.skip.offset :=
      (hclasses.matches.covers.reaches.trans (Cursor.reaches_skip d)).offset_le
    have hd : d.skip.offset ≤ a.offset := by
      rw [ha]
      exact Nat.le_max_right _ _
    exact Nat.le_trans hplace hd

/-- It fails at a place on course. -/
theorem exists_onCourse_of_parse_error {s : Source} {m : Mismatch}
    (h : s.parseProgram = .error m) : ∃ c, s.firstPlace.OnCourse c ∧ m.offset = c.offset := by
  rcases offset_of_parseProgram_error h with hzero | hcourse
  · have hle := firstPlace_le_of_parse_error h
    exact ⟨s.firstPlace, ⟨[], _, .nil _, Or.inl rfl⟩, by omega⟩
  · exact hcourse

/-- The place at which a text does not parse lies between two of its characters. -/
theorem floorBoundary_of_parseProgram_error {s : Source} {m : Mismatch}
    (h : s.parseProgram = .error m) : floorBoundary s.chars m.offset = m.offset := by
  rcases offset_of_parseProgram_error h with hzero | ⟨c, hc, hoffset⟩
  · rw [hzero, floorBoundary]
    exact Nat.le_zero.1 (byteLength_takeBytes_le 0 s.chars)
  · have hreaches := (Cursor.reaches_skip (Cursor.start s.chars)).trans hc.reaches
    rw [hoffset, hreaches.floorBoundary_offset]

/-- A text whose tokens fail does not parse, and it fails no later. -/
theorem offset_le_of_tokenize_error {s : Source} {f : LexFailure}
    (h : s.tokenize = .error f) : ∃ m, s.parseProgram = .error m ∧ m.offset ≤ f.offset := by
  cases hparse : s.parseProgram with
  | ok t =>
      obtain ⟨ts, hts, -⟩ := derives_of_parseProgram hparse
      rw [h] at hts
      simp at hts
  | error m =>
      refine ⟨m, rfl, ?_⟩
      obtain ⟨ls, d, hreads, -, hend, hoffset⟩ := reads_of_tokenize_error h
      rcases offset_of_parseProgram_error hparse with hzero | ⟨c, hc, hm⟩
      · omega
      · have hle := hc.offset_le hreads hend
        omega

end Source

end DecafFrontEnd
