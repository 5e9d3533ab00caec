/-
  DecafFrontEnd/Proofs/Grammar/Twin.lean --- one match in two layouts.

  From two places that are `Cursor.Together` a match runs in step with itself: it fails
  at both or it matches at both, with nodes of the same rules that start at level offsets,
  and the furthest attempts are level too (`Runs.twin`).

  The two runs part from the lexemes only where a lone `=` or `!` is taken off the front
  of an operator.  What follows in the grammar does not begin there, so that both runs go
  on from a place where nothing fits.  `Pattern.Ready` joins the two cases, and
  `Pattern.Ends` says where the matches may end.

  Two texts with the same lexemes therefore parse to twin trees (`Source.twin_of_parse`) or
  fail at level offsets (`Source.level_of_parse_error`).
-/
import Mathlib.Data.List.Forall2
import DecafFrontEnd.Proofs.Grammar.Abreast
import DecafFrontEnd.Proofs.Grammar.Shape

set_option autoImplicit false

namespace DecafFrontEnd

open Pattern

/-! ## Attempts -/

namespace Attempts

/-- Records with level offsets, or without any attempt. -/
def Twin (b b' : Cursor) (a a' : Attempts) : Prop :=
  a.offset = 0 ∧ a'.offset = 0 ∨ b.Level b' a.offset a'.offset

variable {b b' c c' : Cursor} {a a' x x' : Attempts}

/-- Behind attempts further on the offsets are level. -/
theorem Twin.greater {m m' : Nat} (h : Twin b b' a a') (hm : b.Level b' m m') :
    b.Level b' (max a.offset m) (max a'.offset m') := by
  rcases h with ⟨hzero, hzero'⟩ | hlevel
  · rw [hzero, hzero']
    simpa using hm
  · exact hlevel.greater hm

/-- Attempts behind the bases have level offsets. -/
theorem Twin.level (h : Twin b b' a a') (hle : b.offset ≤ a.offset) (hle' : b'.offset ≤ a'.offset) :
    b.Level b' a.offset a'.offset := by
  have hfront := h.greater (Cursor.Together.level ⟨[], .nil b, .nil b'⟩)
  rwa [Nat.max_eq_left hle, Nat.max_eq_left hle'] at hfront

theorem Twin.blame {r : Rule} (h : Twin b b' x x') (hc : b.Level b' c.offset c'.offset) :
    Twin b b' (r.blame c a x) (r.blame c' a' x') := by
  cases hr : r.isSilent with
  | false =>
      refine Or.inr ?_
      rw [Rule.offset_blame hr, Rule.offset_blame hr]
      exact h.greater hc
  | true =>
      rw [Rule.blame, Rule.blame, if_pos hr, if_pos hr]
      exact h

end Attempts

/-! ## Trees and outcomes -/

/-- Trees of the same rules and lexemes, whose nodes start at level offsets. -/
inductive Tree.Twin (b b' : Cursor) : Tree → Tree → Prop
  | node {r : Rule} {start start' : Nat} {text text' : List Char} {ts ts' : List Tree} :
      b.Level b' start start' → (∀ t, r = .terminal t → text = text') →
      List.Forall₂ (Tree.Twin b b') ts ts' →
      Tree.Twin b b' (.node r start text ts) (.node r start' text' ts')

/-- Outcomes of the same sort, with twin nodes and attempts and ends that are related. -/
inductive Outcome.Twin (b b' : Cursor) (ends : Cursor → Cursor → Prop) : Outcome → Outcome → Prop
  | matched {nodes nodes' : List Tree} {d d' : Cursor} {a a' : Attempts} :
      List.Forall₂ (Tree.Twin b b') nodes nodes' → ends d d' → a.Twin b b' a' →
      Outcome.Twin b b' ends (.matched nodes d a) (.matched nodes' d' a')
  | failed {a a' : Attempts} :
      a.Twin b b' a' → Outcome.Twin b b' ends (.failed a) (.failed a')

theorem Outcome.Twin.imp {b b' : Cursor} {ends ends' : Cursor → Cursor → Prop} {o o' : Outcome}
    (h : o.Twin b b' ends o') (himp : ∀ d d', ends d d' → ends' d d') : o.Twin b b' ends' o' := by
  cases h with
  | matched hnodes hends ha => exact .matched hnodes (himp _ _ hends) ha
  | failed ha => exact .failed ha

/-! ## Places at which a run cannot tell two texts apart -/

namespace Pattern

/-- No lexeme that a pattern can begin with stands at a place. -/
def Idle (p : Pattern) (c : Cursor) : Prop := c.Rested ∧ c.Lacks p.starters

/-- Two places at which a pattern is matched alike: the same lexemes lead to them, or at
neither can it begin. -/
def Ready (b b' : Cursor) (p : Pattern) (c c' : Cursor) : Prop :=
  b.Together b' c c' ∨ p.Idle c ∧ p.Idle c' ∧ b.Level b' c.offset c'.offset

/-- Where two matches of a pattern from `c` and `c'` end: where the same lexemes lead to,
inside the operators there, or where they began. -/
def Ends (b b' : Cursor) (p : Pattern) (c c' d d' : Cursor) : Prop :=
  b.Together b' d.skip d'.skip ∨ p.isBlunt = true ∧ b.Astride b' d d' ∨ d = c ∧ d' = c'

variable {b b' c c' d d' e e' : Cursor} {p q : Pattern}

theorem Ready.of_subset (h : p.Ready b b' c c') (hsub : q.starters ⊆ p.starters) :
    q.Ready b b' c c' := by
  rcases h with htogether | ⟨⟨hc, hlacks⟩, ⟨hc', hlacks'⟩, hlevel⟩
  · exact Or.inl htogether
  · exact Or.inr ⟨⟨hc, hlacks.subset hsub⟩, ⟨hc', hlacks'.subset hsub⟩, hlevel⟩

theorem Ready.rested (hb : b.Alike b') (h : p.Ready b b' c c') : c.Rested ∧ c'.Rested := by
  rcases h with htogether | ⟨⟨hc, -⟩, ⟨hc', -⟩, -⟩
  · obtain ⟨hc, hc', -⟩ := hb.together htogether
    exact ⟨hc, hc'⟩
  · exact ⟨hc, hc'⟩

theorem Ready.level (h : p.Ready b b' c c') : b.Level b' c.offset c'.offset := by
  rcases h with htogether | ⟨-, -, hlevel⟩
  · exact htogether.level
  · exact hlevel

/-- A lexeme is taken at both places or at neither. -/
theorem Ready.take {t : Terminal} {l r : List Char} (hb : b.Alike b')
    (h : (mark t).Ready b b' c c') (hscan : t.scan c.rest = some (l, r)) :
    (∃ r', t.scan c'.rest = some (l, r')) ∧
      (mark t).Ends b b' c c' (c.advance l.length) (c'.advance l.length) := by
  rcases h with htogether | ⟨⟨-, hlacks⟩, -, -⟩
  · obtain ⟨hscan', hnext | ⟨ht, hastride⟩⟩ := htogether.scan hb hscan
    · exact ⟨hscan', Or.inl hnext⟩
    · refine ⟨hscan', Or.inr (Or.inl ⟨?_, hastride⟩)⟩
      rcases ht with rfl | rfl <;> rfl
  · exact absurd ⟨l, r, hscan⟩ (hlacks t (by simp [Primitive.starters]))

theorem Ready.miss {t : Terminal} (hb : b.Alike b') (h : (mark t).Ready b b' c c')
    (hscan : t.scan c.rest = none) : t.scan c'.rest = none := by
  rcases h with htogether | ⟨-, ⟨-, hlacks'⟩, -⟩
  · exact (hb.together htogether).scan_none hscan
  · cases hscan' : t.scan c'.rest with
    | none => rfl
    | some lr => exact absurd ⟨_, _, hscan'⟩ (hlacks' t (by simp [Primitive.starters]))

/-- Inside an operator nothing begins that begins otherwise. -/
theorem idle_of_inside {m : Cursor} (h : m.Inside c) (hop : Terminal.eqOp ∉ p.starters)
    (hsign : Terminal.assign ∉ p.starters) : p.Idle c := by
  refine ⟨h.rested, ?_⟩
  rintro t ht ⟨l, r, hscan⟩
  obtain ⟨r', hrest⟩ := h.rest_eq
  rw [hrest] at hscan
  rcases Terminal.eq_of_scan_eqSign hscan with rfl | rfl
  · exact hop ht
  · exact hsign ht

/-- Behind the first part of a sequence the second part is ready. -/
theorem Ends.ready (hb : b.Alike b') (hregular : (seq p q).Regular)
    (hc : (seq p q).Ready b b' c c') (hcovers : ∃ nodes, Covers (.once p) c nodes d)
    (h : p.Ends b b' c c' d d') : q.Ready b b' d.skip d'.skip := by
  rcases h with htogether | ⟨hblunt, ls, m, m', hls, hls', hinside, hinside'⟩ | ⟨rfl, rfl⟩
  · exact Or.inl htogether
  · have hguard := hregular.2
    simp only [isGuarded, hblunt, Bool.not_true, Bool.false_or, Bool.and_eq_true,
      Bool.not_eq_true', List.contains_eq_mem, decide_eq_false_iff_not] at hguard
    obtain ⟨-, ⟨-, hop⟩, hsign⟩ := hguard
    have hlevel := Cursor.Astride.level ⟨ls, m, m', hls, hls', hinside, hinside'⟩
    rw [hinside.rested.skip_eq, hinside'.rested.skip_eq]
    exact Or.inr ⟨idle_of_inside hinside hop hsign, idle_of_inside hinside' hop hsign, hlevel⟩
  · obtain ⟨nodes, hcovers⟩ := hcovers
    obtain ⟨hrested, hrested'⟩ := hc.rested hb
    rw [hrested.skip_eq, hrested'.skip_eq]
    apply hc.of_subset
    rw [starters_seq, hcovers.nullable, if_pos rfl]
    exact List.subset_append_right _ _

/-- Where the second part of a sequence ends the sequence ends. -/
theorem Ends.seq (hb : b.Alike b') (hregular : (seq p q).Regular)
    (hc : (seq p q).Ready b b' c c') (h : p.Ends b b' c c' d d')
    (hcovers : ∃ nodes, Covers (.once q) d.skip nodes e)
    (h' : q.Ends b b' d.skip d'.skip e e') : (seq p q).Ends b b' c c' e e' := by
  rcases h' with htogether | ⟨hblunt, hastride⟩ | ⟨rfl, rfl⟩
  · exact Or.inl htogether
  · exact Or.inr (Or.inl ⟨by simp [isBlunt, hblunt], hastride⟩)
  · obtain ⟨nodes, hcovers⟩ := hcovers
    have hnull := hcovers.nullable
    rcases h with htogether | ⟨hblunt, -⟩ | ⟨rfl, rfl⟩
    · refine Or.inl ?_
      rwa [d.rested_skip.skip_eq, d'.rested_skip.skip_eq]
    · simp [Regular, isGuarded, hblunt, hnull] at hregular
    · obtain ⟨hrested, hrested'⟩ := hc.rested hb
      exact Or.inr (Or.inr ⟨hrested.skip_eq, hrested'.skip_eq⟩)

/-- Behind a round of a repetition the same lexemes lead on. -/
theorem Ends.round (hregular : (many p).Regular) (hcovers : ∃ nodes, Covers (.once p) c nodes d)
    (h : p.Ends b b' c c' d d') : b.Together b' d.skip d'.skip := by
  simp only [Regular, isSyntactic, isGuarded, Bool.and_eq_true, Bool.not_eq_true'] at hregular
  obtain ⟨⟨-, hnull⟩, -, hsharp⟩ := hregular
  rcases h with htogether | ⟨hblunt, -⟩ | ⟨rfl, -⟩
  · exact htogether
  · exact absurd (hblunt.symm.trans hsharp) (by simp)
  · obtain ⟨nodes, hcovers⟩ := hcovers
    exact absurd (hcovers.nullable.symm.trans hnull) (by simp)

/-- Behind a place that the same lexemes lead to it does not matter where the match began. -/
theorem Ends.behind (hd : b.Together b' d.skip d'.skip) (h : p.Ends b b' d d' e e') :
    p.Ends b b' c c' e e' := by
  rcases h with htogether | hastride | ⟨rfl, rfl⟩
  · exact Or.inl htogether
  · exact Or.inr (Or.inl hastride)
  · exact Or.inl hd

theorem Ends.stay : p.Ends b b' c c' c c' := Or.inr (Or.inr ⟨rfl, rfl⟩)

theorem Ends.of_isBlunt (h : p.Ends b b' c c' d d') (hblunt : p.isBlunt = true → q.isBlunt = true) :
    q.Ends b b' c c' d d' := by
  rcases h with htogether | ⟨hp, hastride⟩ | hstay
  · exact Or.inl htogether
  · exact Or.inr (Or.inl ⟨hblunt hp, hastride⟩)
  · exact Or.inr (Or.inr hstay)

end Pattern

/-! ## Twin runs -/

/-- The nodes that a rule leaves at two places are twins. -/
theorem Rule.twin_leave {r : Rule} {b b' c c' d d' : Cursor} {nodes nodes' : List Tree}
    (hb : b.Alike b') (hr : r.isSyntactic = true) (hc : r.body.Ready b b' c c')
    (h : Covers (.once r.body) c nodes d) (h' : Covers (.once r.body) c' nodes' d')
    (hnodes : List.Forall₂ (Tree.Twin b b') nodes nodes') :
    List.Forall₂ (Tree.Twin b b') (r.leave c d nodes) (r.leave c' d' nodes') := by
  rw [leave_eq hr, leave_eq hr]
  refine .cons (.node hc.level ?_ hnodes) .nil
  rintro t rfl
  obtain ⟨l, k, hl, -, rfl⟩ := h.scan_of_lexeme
  obtain ⟨l', k', hl', -, rfl⟩ := h'.scan_of_lexeme
  obtain ⟨⟨k'', hsame⟩, -⟩ := Ready.take hb hc hl
  obtain rfl : l = l' := congrArg Prod.fst (Option.some.inj (hsame.symm.trans hl'))
  rw [Cursor.takeBytes_advance (Terminal.append_of_scan hl).symm,
    Cursor.takeBytes_advance (Terminal.append_of_scan hl').symm]

/-- At two places at which a goal is ready its runs end alike. -/
theorem Runs.twin {b b' : Cursor} (hb : b.Alike b') {g : Goal} {c c' : Cursor} {a a' : Attempts}
    {o : Outcome} (h : Runs g c a o) (hg : g.whole.Regular)
    (hc : g.whole.Ready b b' (g.place c) (g.place c')) (ha : a.Twin b b' a') :
    ∃ o', Runs g c' a' o' ∧ o.Twin b b' (g.whole.Ends b b' c c') o' := by
  induction h generalizing c' a' with
  | @take p c a text ht =>
      cases p with
      | lexeme t =>
          obtain ⟨r, hscan⟩ := Primitive.take?_lexeme.1 ht
          obtain ⟨hscan', hends⟩ := hc.take hb hscan
          exact ⟨_, .take (Primitive.take?_lexeme.2 hscan'), .matched .nil hends ha⟩
      | _ => simp [Goal.whole, Regular, Pattern.isSyntactic, Primitive.isSyntactic] at hg
  | @miss p c a ht =>
      cases p with
      | lexeme t =>
          have hscan : t.scan c.rest = none := by simpa [Primitive.take?] using ht
          have hscan' : t.scan c'.rest = none := hc.miss hb hscan
          exact ⟨_, .miss (by simp [Primitive.take?, hscan']), .failed ha⟩
      | _ => simp [Goal.whole, Regular, Pattern.isSyntactic, Primitive.isSyntactic] at hg
  | @rule r _ _ _ _ _ hbody ih =>
      have hready := hc.of_subset r.starters_body
      obtain ⟨_, hrun, htwin⟩ := ih (regular_body hg) hready ha
      cases htwin with
      | matched hnodes hends hx =>
          have hleave := Rule.twin_leave hb hg.1 hready hbody.covers hrun.covers hnodes
          exact ⟨_, .rule hrun, .matched hleave (hends.of_isBlunt (Rule.isGuarded_body hg.1).2) hx⟩
  | @ruleFails r _ _ _ _ ih =>
      obtain ⟨_, hrun, htwin⟩ := ih (regular_body hg) (hc.of_subset r.starters_body) ha
      cases htwin with
      | failed hx => exact ⟨_, .ruleFails hrun, .failed (hx.blame hc.level)⟩
  | seq hp hq ihp ihq =>
      obtain ⟨hgp, hgq⟩ := hg.seq
      obtain ⟨_, hrun, htwin⟩ := ihp hgp (hc.of_subset (List.subset_append_left _ _)) ha
      cases htwin with
      | matched hnodes hends hx =>
          have hnext := hends.ready hb hg hc ⟨_, hp.covers⟩
          obtain ⟨_, hrun', htwin'⟩ := ihq hgq hnext hx
          cases htwin' with
          | matched hnodes' hends' hy =>
              have hboth := hends.seq hb hg hc ⟨_, hq.covers⟩ hends'
              exact ⟨_, .seq hrun hrun', .matched (List.rel_append hnodes hnodes') hboth hy⟩
  | firstFails _ ihp =>
      obtain ⟨_, hrun, htwin⟩ := ihp hg.seq.1 (hc.of_subset (List.subset_append_left _ _)) ha
      cases htwin with
      | failed hx => exact ⟨_, .firstFails hrun, .failed hx⟩
  | secondFails hp _ ihp ihq =>
      obtain ⟨hgp, hgq⟩ := hg.seq
      obtain ⟨_, hrun, htwin⟩ := ihp hgp (hc.of_subset (List.subset_append_left _ _)) ha
      cases htwin with
      | matched hnodes hends hx =>
          obtain ⟨_, hrun', htwin'⟩ := ihq hgq (hends.ready hb hg hc ⟨_, hp.covers⟩) hx
          cases htwin' with
          | failed hy => exact ⟨_, .secondFails hrun hrun', .failed hy⟩
  | left _ ih =>
      obtain ⟨_, hrun, htwin⟩ := ih hg.alt.1 (hc.of_subset (List.subset_append_left _ _)) ha
      cases htwin with
      | matched hnodes hends hx =>
          refine ⟨_, .left hrun, .matched hnodes (hends.of_isBlunt ?_) hx⟩
          simp +contextual [Goal.whole, isBlunt]
  | @right _ _ _ _ _ o _ _ ihp ihq =>
      obtain ⟨hgp, hgq⟩ := hg.alt
      obtain ⟨_, hrun, htwin⟩ := ihp hgp (hc.of_subset (List.subset_append_left _ _)) ha
      cases htwin with
      | failed hx =>
          obtain ⟨_, hrun', htwin'⟩ := ihq hgq (hc.of_subset (List.subset_append_right _ _)) hx
          refine ⟨_, .right hrun hrun', htwin'.imp fun _ _ hends => hends.of_isBlunt ?_⟩
          simp +contextual [Goal.whole, isBlunt]
  | present _ ih =>
      obtain ⟨_, hrun, htwin⟩ := ih hg.opt hc ha
      cases htwin with
      | matched hnodes hends hx => exact ⟨_, .present hrun, .matched hnodes hends hx⟩
  | absent _ ih =>
      obtain ⟨_, hrun, htwin⟩ := ih hg.opt hc ha
      cases htwin with
      | failed hx => exact ⟨_, .absent hrun, .matched .nil .stay hx⟩
  | many hp _ ihp ihq =>
      obtain ⟨_, hrun, htwin⟩ := ihp hg.many hc ha
      cases htwin with
      | matched hnodes hends hx =>
          have hround := hends.round hg ⟨_, hp.covers⟩
          obtain ⟨_, hrun', htwin'⟩ := ihq hg (Or.inl hround) hx
          cases htwin' with
          | matched hnodes' hends' hy =>
              exact ⟨_, .many hrun hrun',
                .matched (List.rel_append hnodes hnodes') (hends'.behind hround) hy⟩
  | never _ ih =>
      obtain ⟨_, hrun, htwin⟩ := ih hg.many hc ha
      cases htwin with
      | failed hx => exact ⟨_, .never hrun, .matched .nil .stay hx⟩
  | round hp _ ihp ihq =>
      obtain ⟨_, hrun, htwin⟩ := ihp (Regular.many hg) hc ha
      cases htwin with
      | matched hnodes hends hx =>
          have hround := hends.round hg ⟨_, hp.covers⟩
          obtain ⟨_, hrun', htwin'⟩ := ihq hg (Or.inl hround) hx
          cases htwin' with
          | matched hnodes' hends' hy =>
              exact ⟨_, .round hrun hrun',
                .matched (List.rel_append hnodes hnodes') (hends'.behind hround) hy⟩
  | stop _ ih =>
      obtain ⟨_, hrun, htwin⟩ := ih (Regular.many hg) hc ha
      cases htwin with
      | failed hx => exact ⟨_, .stop hrun, .matched .nil .stay hx⟩

/-! ## Programs -/

/-- Classes that fail are recorded where they begin or further on. -/
theorem offset_le_of_classes_fail {c : Cursor} {a x : Attempts}
    (h : Runs (.once classes) c a (.failed x)) : c.offset ≤ x.offset := by
  cases h with
  | firstFails hclass =>
      cases hclass with
      | ruleFails _ =>
          rw [Rule.offset_blame rfl]
          exact Nat.le_max_right _ _
  | secondFails _ hmore => cases hmore

namespace Source

variable {s s' : Source}

/-- The runs of the classes of two texts with the same lexemes end alike. -/
theorem twin_of_classes (hb : s.firstPlace.Alike s'.firstPlace) {o : Outcome}
    (h : Runs (.once classes) s.firstPlace .none o) :
    ∃ o', Runs (.once classes) s'.firstPlace .none o' ∧
      o.Twin s.firstPlace s'.firstPlace
        (fun d d' => s.firstPlace.Together s'.firstPlace d.skip d'.skip) o' := by
  have hfront : s.firstPlace.Together s'.firstPlace s.firstPlace s'.firstPlace :=
    ⟨[], .nil _, .nil _⟩
  have hready : classes.Ready s.firstPlace s'.firstPlace s.firstPlace s'.firstPlace := Or.inl hfront
  have hnone : Attempts.none.Twin s.firstPlace s'.firstPlace .none := Or.inl ⟨rfl, rfl⟩
  obtain ⟨o', hrun, htwin⟩ : ∃ o', Runs (.once classes) s'.firstPlace .none o' ∧
      o.Twin s.firstPlace s'.firstPlace
        (classes.Ends s.firstPlace s'.firstPlace s.firstPlace s'.firstPlace) o' :=
    h.twin hb regular_classes hready hnone
  refine ⟨o', hrun, htwin.imp ?_⟩
  rintro d d' (htogether | ⟨hblunt, -⟩ | ⟨hd, hd'⟩)
  · exact htogether
  · exact absurd hblunt (by decide)
  · rwa [hd, hd', s.rested_firstPlace.skip_eq, s'.rested_firstPlace.skip_eq]

/-- Texts with the same lexemes parse to trees with twin nodes. -/
theorem twin_of_parse (hb : s.firstPlace.Alike s'.firstPlace) {t : Tree}
    (h : s.parseProgram = .ok t) :
    ∃ t', s'.parseProgram = .ok t' ∧
      List.Forall₂ (Tree.Twin s.firstPlace s'.firstPlace) t.children t'.children := by
  obtain ⟨d, hmatches⟩ := parseProgram_eq_ok_iff.1 h
  obtain ⟨-, inner, e, hclasses, hend, rfl, hnodes⟩ := matches_program.1 hmatches
  obtain rfl := List.singleton_inj.1 hnodes
  obtain ⟨x, hrun⟩ := hclasses .none
  obtain ⟨_, hrun', htwin⟩ := twin_of_classes hb hrun
  cases htwin with
  | @matched _ inner' _ e' _ _ hinner htogether _ =>
      have hend' := (hb.together htogether).rest_eq_nil hend
      refine ⟨_, parseProgram_eq_ok_iff.2 ⟨e'.skip, matches_program.2
        ⟨rfl, inner', e', hrun'.matches, hend', rfl, rfl⟩⟩, ?_⟩
      exact List.rel_append hinner (.cons (.node htogether.level (by simp) .nil) .nil)

/-- Texts with the same lexemes that do not parse fail at level offsets. -/
theorem level_of_parse_error (hb : s.firstPlace.Alike s'.firstPlace) {m m' : Mismatch}
    (h : s.parseProgram = .error m) (h' : s'.parseProgram = .error m') :
    s.firstPlace.Level s'.firstPlace m.offset m'.offset := by
  obtain ⟨a, hrun, rfl⟩ := runs_of_parseProgram_error h
  obtain ⟨a', hrun', rfl⟩ := runs_of_parseProgram_error h'
  rw [Mismatch.ofAttempts, Mismatch.ofAttempts]
  obtain ⟨x, hclasses, ha⟩ | ⟨nodes, d, x, hclasses, -, ha⟩ := attempts_of_program_fails rfl hrun
  · obtain ⟨_, hclasses', htwin⟩ := twin_of_classes hb hclasses
    cases htwin with
    | failed hx =>
        obtain ⟨x', hother, ha'⟩ | ⟨nodes', d', x', hother, -, -⟩ :=
          attempts_of_program_fails rfl hrun'
        · obtain rfl := Outcome.failed.inj (hclasses'.functional hother)
          rw [ha, ha']
          exact hx.level (offset_le_of_classes_fail hclasses) (offset_le_of_classes_fail hother)
        · exact absurd (hclasses'.functional hother) (by simp)
  · obtain ⟨_, hclasses', htwin⟩ := twin_of_classes hb hclasses
    cases htwin with
    | matched _ htogether hx =>
        obtain ⟨x', hother, -⟩ | ⟨nodes', d', x', hother, -, ha'⟩ :=
          attempts_of_program_fails rfl hrun'
        · exact absurd (hclasses'.functional hother) (by simp)
        · obtain ⟨-, rfl, rfl⟩ := Outcome.matched.inj (hclasses'.functional hother)
          rw [ha, ha']
          exact hx.greater htogether.level

end Source

end DecafFrontEnd
