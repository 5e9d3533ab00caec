/-
  DecafFrontEnd/Proofs/Grammar/Paths.lean --- what an element may take and which rules it may call.

  `Takes` says what an element may take and `Activates` which rules it may begin to match
  on the way and where, both on all paths: the alternatives of a choice have no order, an
  option or a repetition may stop anywhere, a lookahead lets everything pass, and the
  trivia between two parts is matched by its rules.

  What is not nullable takes at least one character (`Takes.length_lt`), so each round of
  a repetition in the grammar does (`Element.offset_lt_of_mem_repeated`).  A rule that is
  activated at the place where another one began is one of the rules on its left
  (`Activates.length_lt_or`) and has a lower height (`Rule.height_lt`).
-/
import DecafFrontEnd.Proofs.Grammar.Element
import DecafFrontEnd.Proofs.Grammar.Depth

set_option autoImplicit false

namespace DecafFrontEnd

/-! ## All paths -/

/-- What is matched at one go: an element, the rounds of a repetition behind the first,
or what stands between two parts. -/
inductive Portion where
  | once (e : Element)
  | again (e : Element)
  | gap

/-- A portion may take the text between two places. -/
inductive Takes : Spacing → Portion → Cursor → Cursor → Prop
  | inputStart {s : Spacing} {c : Cursor} :
      c.offset = 0 → Takes s (.once .inputStart) c c
  | inputEnd {s : Spacing} {c : Cursor} : c.rest = [] → Takes s (.once .inputEnd) c c
  | word {s : Spacing} {w : List Char} {c : Cursor} :
      w.isPrefixOf c.rest = true → Takes s (.once (.word w)) c (c.advance w.length)
  | one {s : Spacing} {p : Char → Bool} {c : Cursor} :
      c.rest.head?.any p = true → Takes s (.once (.one p)) c (c.advance 1)
  | rule {s : Spacing} {r : Rule} {c d : Cursor} :
      Takes (s.within r) (.once r.element) c d → Takes s (.once (.rule r)) c d
  | seq {s : Spacing} {p q : Element} {c d e f : Cursor} :
      Takes s (.once p) c d → Takes s .gap d e → Takes s (.once q) e f →
      Takes s (.once (.seq p q)) c f
  | left {s : Spacing} {p q : Element} {c d : Cursor} :
      Takes s (.once p) c d → Takes s (.once (.alt p q)) c d
  | right {s : Spacing} {p q : Element} {c d : Cursor} :
      Takes s (.once q) c d → Takes s (.once (.alt p q)) c d
  | present {s : Spacing} {p : Element} {c d : Cursor} :
      Takes s (.once p) c d → Takes s (.once (.opt p)) c d
  | absent {s : Spacing} {p : Element} {c : Cursor} : Takes s (.once (.opt p)) c c
  | many {s : Spacing} {p : Element} {c d e : Cursor} :
      Takes s (.once p) c d → Takes s (.again p) d e → Takes s (.once (.many p)) c e
  | never {s : Spacing} {p : Element} {c : Cursor} : Takes s (.once (.many p)) c c
  | without {s : Spacing} {p : Element} {c : Cursor} : Takes s (.once (.without p)) c c
  | round {s : Spacing} {p : Element} {c d e f : Cursor} :
      Takes s .gap c d → Takes s (.once p) d e → Takes s (.again p) e f →
      Takes s (.again p) c f
  | stop {s : Spacing} {p : Element} {c : Cursor} : Takes s (.again p) c c
  | nothing {c : Cursor} : Takes .tight .gap c c
  | trivia {c d : Cursor} : Takes .tight (.once .between) c d → Takes .spaced .gap c d

/-- A portion, matched at a place, may begin to match a rule at another one, without a
rule in between. -/
inductive Activates : Spacing → Portion → Cursor → Spacing → Rule → Cursor → Prop
  | rule {s : Spacing} {r : Rule} {c : Cursor} : Activates s (.once (.rule r)) c s r c
  | first {s s' : Spacing} {p q : Element} {r : Rule} {c d : Cursor} :
      Activates s (.once p) c s' r d → Activates s (.once (.seq p q)) c s' r d
  | between {s s' : Spacing} {p q : Element} {r : Rule} {c d e : Cursor} :
      Takes s (.once p) c d → Activates s .gap d s' r e →
      Activates s (.once (.seq p q)) c s' r e
  | second {s s' : Spacing} {p q : Element} {r : Rule} {c d e f : Cursor} :
      Takes s (.once p) c d → Takes s .gap d e → Activates s (.once q) e s' r f →
      Activates s (.once (.seq p q)) c s' r f
  | left {s s' : Spacing} {p q : Element} {r : Rule} {c d : Cursor} :
      Activates s (.once p) c s' r d → Activates s (.once (.alt p q)) c s' r d
  | right {s s' : Spacing} {p q : Element} {r : Rule} {c d : Cursor} :
      Activates s (.once q) c s' r d → Activates s (.once (.alt p q)) c s' r d
  | opt {s s' : Spacing} {p : Element} {r : Rule} {c d : Cursor} :
      Activates s (.once p) c s' r d → Activates s (.once (.opt p)) c s' r d
  | many {s s' : Spacing} {p : Element} {r : Rule} {c d : Cursor} :
      Activates s (.once p) c s' r d → Activates s (.once (.many p)) c s' r d
  | others {s s' : Spacing} {p : Element} {r : Rule} {c d e : Cursor} :
      Takes s (.once p) c d → Activates s (.again p) d s' r e →
      Activates s (.once (.many p)) c s' r e
  | without {s s' : Spacing} {p : Element} {r : Rule} {c d : Cursor} :
      Activates s (.once p) c s' r d → Activates s (.once (.without p)) c s' r d
  | beforeRound {s s' : Spacing} {p : Element} {r : Rule} {c d : Cursor} :
      Activates s .gap c s' r d → Activates s (.again p) c s' r d
  | round {s s' : Spacing} {p : Element} {r : Rule} {c d e : Cursor} :
      Takes s .gap c d → Activates s (.once p) d s' r e → Activates s (.again p) c s' r e
  | behindRound {s s' : Spacing} {p : Element} {r : Rule} {c d e f : Cursor} :
      Takes s .gap c d → Takes s (.once p) d e → Activates s (.again p) e s' r f →
      Activates s (.again p) c s' r f
  | trivia {s' : Spacing} {r : Rule} {c d : Cursor} :
      Activates .tight (.once .between) c s' r d → Activates .spaced .gap c s' r d

theorem Takes.reaches {s : Spacing} {g : Portion} {c d : Cursor} (h : Takes s g c d) :
    c.Reaches d := by
  induction h with
  | word _ | one _ => exact Cursor.reaches_advance _ _
  | rule _ ih | left _ ih | right _ ih | present _ ih | trivia _ ih => exact ih
  | seq _ _ _ ihp ihgap ihq => exact (ihp.trans ihgap).trans ihq
  | many _ _ ihp ihothers => exact ihp.trans ihothers
  | round _ _ _ ihgap ihp ihothers => exact (ihgap.trans ihp).trans ihothers
  | inputStart _ | inputEnd _ | absent | never | without | stop | nothing => exact .refl _

theorem Activates.reaches {s s' : Spacing} {g : Portion} {r : Rule} {c d : Cursor}
    (h : Activates s g c s' r d) : c.Reaches d := by
  induction h with
  | rule => exact .refl _
  | first _ ih | left _ ih | right _ ih | opt _ ih | many _ ih | without _ ih
  | beforeRound _ ih | trivia _ ih => exact ih
  | between htakes _ ih | others htakes _ ih | round htakes _ ih =>
      exact htakes.reaches.trans ih
  | second htakes hgap _ ih => exact (htakes.reaches.trans hgap.reaches).trans ih
  | behindRound hgap htakes _ ih => exact (hgap.reaches.trans htakes.reaches).trans ih

/-! ## What takes at least one character -/

/-- Whether an element may take nothing. -/
def Element.nullable : Element → Bool
  | inputStart | inputEnd | without _ | opt _ | many _ => true
  | word w => w.isEmpty
  | one _ => false
  | rule r => r.nullable
  | seq p q => p.nullable && q.nullable
  | alt p q => p.nullable || q.nullable

/-- Whether a portion may take nothing. -/
def Portion.nullable : Portion → Bool
  | once e => e.nullable
  | again _ | gap => true

/-- Whether every repeated element in an element takes something in each round. -/
def Element.solid : Element → Bool
  | inputStart | inputEnd | word _ | one _ | rule _ => true
  | seq p q | alt p q => p.solid && q.solid
  | opt p | without p => p.solid
  | many p => p.solid && !p.nullable

theorem Rule.nullable_of_element {r : Rule} (h : r.element.nullable = true) :
    r.nullable = true := by
  have key : ∀ r ∈ Rule.all, r.element.nullable = true → r.nullable = true := by decide
  exact key r r.mem_all h

theorem Rule.solid_element (r : Rule) : r.element.solid = true := by
  have key : ∀ r ∈ Rule.all, r.element.solid = true := by decide
  exact key r r.mem_all

/-- A portion that is not nullable takes at least one character. -/
theorem Takes.length_lt {s : Spacing} {g : Portion} {c d : Cursor} (h : Takes s g c d)
    (hnull : g.nullable = false) : d.rest.length < c.rest.length := by
  induction h with
  | @word _ w c hfits =>
      have hw : w ≠ [] := by simpa [Portion.nullable, Element.nullable] using hnull
      have hpos := List.length_pos_iff.2 hw
      have hle := (List.isPrefixOf_iff_prefix.1 hfits).length_le
      rw [Cursor.rest_advance, List.length_drop]
      omega
  | @one _ p c hp =>
      rw [Cursor.rest_advance, List.length_drop]
      cases hrest : c.rest with
      | nil => simp [hrest] at hp
      | cons x cs => simp
  | @rule s r _ _ _ ih =>
      apply ih
      cases helement : r.element.nullable with
      | false => exact helement
      | true =>
          have hr : r.nullable = false := hnull
          rw [Rule.nullable_of_element helement] at hr
          exact absurd hr (by simp)
  | seq hp hgap hq ihp ihgap ihq =>
      have h1 := hp.reaches.length_le
      have h2 := hgap.reaches.length_le
      have h3 := hq.reaches.length_le
      simp only [Portion.nullable, Element.nullable, Bool.and_eq_false_iff] at hnull
      rcases hnull with hnull | hnull
      · have hlt := ihp hnull
        omega
      · have hlt := ihq hnull
        omega
  | left _ ih =>
      simp only [Portion.nullable, Element.nullable, Bool.or_eq_false_iff] at hnull
      exact ih hnull.1
  | right _ ih =>
      simp only [Portion.nullable, Element.nullable, Bool.or_eq_false_iff] at hnull
      exact ih hnull.2
  | _ => simp [Portion.nullable, Element.nullable] at hnull

theorem Takes.length_lt_or {s : Spacing} {e : Element} {c d : Cursor}
    (h : Takes s (.once e) c d) :
    d.rest.length < c.rest.length ∨ e.nullable = true ∧ d.rest.length ≤ c.rest.length := by
  cases hnull : e.nullable with
  | false => exact Or.inl (h.length_lt hnull)
  | true => exact Or.inr ⟨rfl, h.reaches.length_le⟩

/-! ## Repetitions -/

namespace Cursor

/-- A later place of a text has a greater offset. -/
theorem Reaches.offset_lt {c d : Cursor} (h : c.Reaches d)
    (hlt : d.rest.length < c.rest.length) : c.offset < d.offset := by
  obtain ⟨text, hrest, hoffset⟩ := h
  have hne : text ≠ [] := by
    rintro rfl
    rw [hrest, List.nil_append] at hlt
    exact Nat.lt_irrefl _ hlt
  have hpos := byteLength_pos hne
  omega

end Cursor

/-- The elements that are repeated in an element. -/
def Element.repeated : Element → List Element
  | inputStart | inputEnd | word _ | one _ | rule _ => []
  | seq p q | alt p q => p.repeated ++ q.repeated
  | opt p | without p => p.repeated
  | many p => p :: p.repeated

theorem Element.nullable_of_mem_repeated {e p : Element} (he : e.solid = true)
    (hp : p ∈ e.repeated) : p.nullable = false := by
  induction e with
  | inputStart | inputEnd | word _ | one _ | rule _ => simp [repeated] at hp
  | seq q r ihq ihr | alt q r ihq ihr =>
      simp only [solid, Bool.and_eq_true] at he
      simp only [repeated, List.mem_append] at hp
      rcases hp with hp | hp
      · exact ihq he.1 hp
      · exact ihr he.2 hp
  | opt q ih | without q ih => exact ih he hp
  | many q ih =>
      simp only [solid, Bool.and_eq_true, Bool.not_eq_true'] at he
      rcases List.mem_cons.1 hp with rfl | hp
      · exact he.2
      · exact ih he.1 hp

/-- Each round of a repetition in an element takes something. -/
theorem Element.offset_lt_of_mem_repeated {e p : Element} (he : e.solid = true)
    (hp : p ∈ e.repeated) {s : Spacing} {c d : Cursor} (h : Takes s (.once p) c d) :
    c.offset < d.offset :=
  h.reaches.offset_lt (h.length_lt (nullable_of_mem_repeated he hp))

/-! ## Rules on the left -/

/-- The rules that an element may activate at the place where its match begins, where
`gap` are those that may be activated between two parts. -/
def Element.leftRules (gap : List Rule) : Element → List Rule
  | inputStart | inputEnd | word _ | one _ => []
  | rule r => [r]
  | seq p q => p.leftRules gap ++ if p.nullable then gap ++ q.leftRules gap else []
  | alt p q => p.leftRules gap ++ q.leftRules gap
  | opt p | without p => p.leftRules gap
  | many p => p.leftRules gap ++ if p.nullable then gap else []

/-- The rules that may be activated at the place behind a part. -/
def Spacing.leftRules : Spacing → List Rule
  | tight => []
  | spaced => Element.between.leftRules []

/-- The rules that a portion may activate at the place where its match begins. -/
def Portion.leftRules (s : Spacing) : Portion → List Rule
  | once e => e.leftRules s.leftRules
  | again e => s.leftRules ++ e.leftRules s.leftRules
  | gap => s.leftRules

/-- A rule is activated at a later place, or it is one of the rules on the left. -/
theorem Activates.length_lt_or {s s' : Spacing} {g : Portion} {r : Rule} {c d : Cursor}
    (h : Activates s g c s' r d) :
    d.rest.length < c.rest.length ∨ r ∈ g.leftRules s := by
  induction h with
  | rule => exact Or.inr (by simp [Portion.leftRules, Element.leftRules])
  | first _ ih | left _ ih | many _ ih =>
      exact ih.imp_right fun hmem => List.mem_append_left _ hmem
  | right _ ih => exact ih.imp_right fun hmem => List.mem_append_right _ hmem
  | opt _ ih | without _ ih | trivia _ ih => exact ih
  | between htakes hgap ih =>
      have hle := hgap.reaches.length_le
      rcases htakes.length_lt_or with hlt | ⟨hnull, hstart⟩
      · exact Or.inl (by omega)
      · rcases ih with hlt | hmem
        · exact Or.inl (by omega)
        · refine Or.inr (List.mem_append_right _ ?_)
          rw [if_pos hnull]
          exact List.mem_append_left _ hmem
  | second htakes hgap hactivates ih =>
      have hle := hgap.reaches.length_le
      have hle' := hactivates.reaches.length_le
      rcases htakes.length_lt_or with hlt | ⟨hnull, hstart⟩
      · exact Or.inl (by omega)
      · rcases ih with hlt | hmem
        · exact Or.inl (by omega)
        · refine Or.inr (List.mem_append_right _ ?_)
          rw [if_pos hnull]
          exact List.mem_append_right _ hmem
  | others htakes hactivates ih =>
      have hle := hactivates.reaches.length_le
      rcases htakes.length_lt_or with hlt | ⟨hnull, hstart⟩
      · exact Or.inl (by omega)
      · rcases ih with hlt | hmem
        · exact Or.inl (by omega)
        · refine Or.inr ?_
          rw [Portion.leftRules, List.mem_append] at hmem
          rw [Portion.leftRules, Element.leftRules, if_pos hnull, List.mem_append]
          exact hmem.symm
  | beforeRound _ ih => exact ih.imp_right fun hmem => List.mem_append_left _ hmem
  | round hgap _ ih =>
      have hle := hgap.reaches.length_le
      rcases ih with hlt | hmem
      · exact Or.inl (by omega)
      · exact Or.inr (List.mem_append_right _ hmem)
  | behindRound hgap htakes _ ih =>
      have hle := hgap.reaches.length_le
      have hle' := htakes.reaches.length_le
      rcases ih with hlt | hmem
      · exact Or.inl (by omega)
      · exact Or.inr hmem

namespace Rule

/-- How long a chain of activations at one place can be that begins with a rule. -/
def height : Rule → Nat
  | endOfInput | blank | comment | wordChar => 0
  | terminal t => if t = .ident then 2 else 0
  | anyKeyword | operator | punctuation | charBody | trivia => 1
  | lexeme => 3
  | phrase p => p.rank + 2

theorem height_lt_length (r : Rule) : r.height < all.length := by
  have key : ∀ r ∈ all, r.height < all.length := by decide
  exact key r r.mem_all

/-- A rule has a greater height than its rules on the left. -/
theorem height_lt {r r' : Rule} {s : Spacing}
    (h : r' ∈ (Portion.once r.element).leftRules (s.within r)) : r'.height < r.height := by
  have key : ∀ s ∈ [Spacing.tight, Spacing.spaced], ∀ r ∈ all,
      ∀ r' ∈ (Portion.once r.element).leftRules (s.within r), r'.height < r.height := by decide
  exact key s (by cases s <;> simp) r r.mem_all r' h

end Rule

end DecafFrontEnd
