/-
  DecafFrontEnd/Proofs/Lexical/Excerpt.lean --- a part of a text read on its own.

  `Cursor.Holds c text d` says that `text` is what stands between the places `c` and
  `d` without the trivia at its end.  Such a part of a text has, on its own, the lexemes
  that it has in the whole (`Cursor.Holds.reads_alone`): a lexeme that ends within a
  part of a text is read there too, and so is trivia with something behind it.  The
  other way round, a text that ends where its last lexeme does is read in front of a
  separator as it is on its own (`Cursor.Holds.reads_before`).
-/
import DecafFrontEnd.Proofs.Lexical.Layout

set_option autoImplicit false

namespace DecafFrontEnd

/-! ## Lexemes in the front of a text -/

theorem takeWhile_of_append {p : Char → Bool} {a b l : List Char}
    (h : (a ++ b).takeWhile p = l) (hlength : l.length ≤ a.length) : a.takeWhile p = l := by
  rw [List.takeWhile_append] at h
  split at h
  · next hall =>
      rw [← h, List.length_append] at hlength
      have hnone : (b.takeWhile p).length = 0 := by omega
      rw [List.length_eq_zero_iff] at hnone
      rw [hnone, List.append_nil] at h
      rw [← h]
      exact (List.takeWhile_prefix p).eq_of_length hall
  · exact h

theorem scanAny_of_append {ss : List (List Char)} {a b l r : List Char}
    (h : scanAny ss (a ++ b) = some (l, r)) (hlength : l.length ≤ a.length) :
    ∃ r', scanAny ss a = some (l, r') := by
  have hfind : ss.find? (·.isPrefixOf (a ++ b)) = some l := by rw [← map_scanAny, h]; rfl
  have hfront : ss.find? (·.isPrefixOf a) = some l := by
    rw [List.find?_eq_some_iff_append] at hfind ⊢
    obtain ⟨hl, before, behind, hss, hbefore⟩ := hfind
    refine ⟨?_, before, behind, hss, fun s hs => ?_⟩
    · rw [List.isPrefixOf_iff_prefix] at hl ⊢
      exact List.prefix_of_prefix_length_le hl (List.prefix_append a b) hlength
    · have hnot := hbefore s hs
      simp only [Bool.not_eq_eq_eq_not, Bool.not_true, ← Bool.not_eq_true,
        List.isPrefixOf_iff_prefix] at hnot ⊢
      exact fun hfront => hnot (hfront.trans (List.prefix_append a b))
  rw [← map_scanAny] at hfront
  obtain ⟨⟨l', r'⟩, hscan, rfl⟩ := Option.map_eq_some_iff.1 hfront
  exact ⟨r', hscan⟩

/-- A text of a sort that stands at the front of a text stands at the front of the part
that it ends in. -/
theorem scan_of_append_of_iff {scan : List Char → Scan} {P : List Char → Prop}
    (hscan : ∀ cs l r, scan cs = some (l, r) ↔ P l ∧ cs = l ++ r) {a b l r : List Char}
    (h : scan (a ++ b) = some (l, r)) (hlength : l.length ≤ a.length) :
    ∃ r', scan a = some (l, r') := by
  obtain ⟨hl, happend⟩ := (hscan _ _ _).1 h
  obtain ⟨r', hr'⟩ : l <+: a :=
    List.prefix_of_prefix_length_le ⟨r, happend.symm⟩ (List.prefix_append a b) hlength
  exact ⟨r', (hscan _ _ _).2 ⟨hl, hr'.symm⟩⟩

namespace Terminal

/-- A scan that ends within the front of a text takes as much from the front alone. -/
theorem scan_of_append {t : Terminal} {a b l r : List Char} (h : t.scan (a ++ b) = some (l, r))
    (hlength : l.length ≤ a.length) : ∃ r', t.scan a = some (l, r') := by
  cases t with
  | keyword k =>
      simp only [scan, scanKeyword, Option.ite_none_right_eq_some, Option.some.injEq,
        Prod.mk.injEq] at h ⊢
      have htake := takeWhile_of_append h.2.1 hlength
      exact ⟨_, by rw [htake, ← h.2.1, h.1], htake, rfl⟩
  | ident =>
      simp only [scan, scanName] at h ⊢
      split at h
      · simp at h
      · next x w hw =>
          simp only [Option.ite_none_right_eq_some, Option.some.injEq, Prod.mk.injEq] at h
          obtain ⟨hname, rfl, -⟩ := h
          refine ⟨a.dropWhile isWordChar, ?_⟩
          simp only [takeWhile_of_append hw hlength]
          rw [if_pos hname]
  | intLit =>
      simp only [scan, scanDigits] at h ⊢
      split at h
      · simp at h
      · next x w hw =>
          simp only [Option.some.injEq, Prod.mk.injEq] at h
          obtain ⟨rfl, -⟩ := h
          rw [takeWhile_of_append hw hlength]
          exact ⟨_, rfl⟩
  | charLit => exact scan_of_append_of_iff scanCharLit_iff h hlength
  | stringLit => exact scan_of_append_of_iff scanStringLit_iff h hlength
  | _ => exact scanAny_of_append h hlength

end Terminal

/-- The lexeme at the front of a text is that of any part of the text that it ends in. -/
theorem Lexeme.first?_of_append {a b : List Char} {l : Lexeme} (h : first? (a ++ b) = some l)
    (hlength : l.text.length ≤ a.length) : first? a = some l := by
  obtain ⟨r, hscan⟩ := scan_of_first? h
  obtain ⟨r', hfront⟩ := Terminal.scan_of_append hscan hlength
  rcases first?_of_scan hfront with hfirst | ⟨ht, r'', rfl, -⟩
  · exact hfirst
  · obtain ⟨x, -, hl, rfl, hlonger⟩ := scan_lone ht hfront
    have hop := first?_eq_of_eqOp (hlonger (r'' ++ b))
    rw [List.cons_append, List.cons_append] at h
    rw [h] at hop
    rw [Option.some.inj hop] at hl
    simp at hl

/-! ## Trivia in the front of a text -/

theorem splitTriviaFrom_of_append {inComment : Bool} {a b : List Char}
    (h : (splitTriviaFrom inComment (a ++ b)).1.length < a.length) :
    splitTriviaFrom inComment (a ++ b) =
      ((splitTriviaFrom inComment a).1, (splitTriviaFrom inComment a).2 ++ b) := by
  fun_induction splitTriviaFrom inComment a with
  | case1 => simp at h
  | case2 c cs t r heq ih =>
      simp only [List.cons_append, splitTriviaFrom, List.length_cons, Nat.add_lt_add_iff_right]
        at h ⊢
      rw [ih h, heq]
  | case3 c cs hblank t r heq ih =>
      simp only [List.cons_append, splitTriviaFrom, hblank, if_true, List.length_cons,
        Nat.add_lt_add_iff_right] at h ⊢
      rw [ih h, heq]
  | case4 c cs hblank hslash t r heq ih =>
      have hslash' : (c = '/' && (cs ++ b).head? = some '/') = true := by
        cases cs <;> simp_all
      simp only [List.cons_append, splitTriviaFrom, hblank, hslash', if_true, List.length_cons,
        Nat.add_lt_add_iff_right, Bool.false_eq_true, if_false] at h ⊢
      rw [ih h, heq]
  | case5 c cs hblank hslash =>
      by_cases hslash' : (c = '/' && (cs ++ b).head? = some '/') = true
      · -- the slash at the end of the front begins a comment that goes on behind it
        cases cs with
        | nil =>
            exfalso
            simp [splitTriviaFrom, hblank] at h
            simp_all
        | cons x cs => simp_all
      · simp only [List.cons_append, splitTriviaFrom, hblank, hslash', Bool.false_eq_true,
          if_false]

theorem splitTriviaFrom_append_of_ne_nil {inComment : Bool} {a b : List Char}
    (hrest : (splitTriviaFrom inComment a).2 ≠ []) (hb : b.head? ≠ some '/') :
    splitTriviaFrom inComment (a ++ b) =
      ((splitTriviaFrom inComment a).1, (splitTriviaFrom inComment a).2 ++ b) := by
  fun_induction splitTriviaFrom inComment a with
  | case1 => exact absurd rfl hrest
  | case2 c cs t r heq ih =>
      rw [heq] at ih
      simp only [List.cons_append, splitTriviaFrom, ih hrest]
  | case3 c cs hblank t r heq ih =>
      rw [heq] at ih
      simp only [List.cons_append, splitTriviaFrom, hblank, if_true, ih hrest]
  | case4 c cs hblank hslash t r heq ih =>
      have hslash' : (c = '/' && (cs ++ b).head? = some '/') = true := by
        cases cs <;> simp_all
      rw [heq] at ih
      simp only [List.cons_append, splitTriviaFrom, hblank, hslash', if_true, ih hrest,
        Bool.false_eq_true, if_false]
  | case5 c cs hblank hslash =>
      have hslash' : (c = '/' && (cs ++ b).head? = some '/') = false := by
        cases cs <;> simp_all
      simp only [List.cons_append, splitTriviaFrom, hblank, hslash', Bool.false_eq_true, if_false]

/-- Trivia that ends within the first of two texts is that of the first. -/
theorem leadingTrivia_of_append {a b : List Char}
    (h : (leadingTrivia (a ++ b)).length < a.length) :
    leadingTrivia (a ++ b) = leadingTrivia a := by
  have hsplit : splitTrivia (a ++ b) = (leadingTrivia a, skipTrivia a ++ b) :=
    splitTriviaFrom_of_append h
  rw [leadingTrivia, hsplit]

theorem splitTrivia_append_of_ne_nil {a b : List Char} (hrest : skipTrivia a ≠ [])
    (hb : b.head? ≠ some '/') : splitTrivia (a ++ b) = (leadingTrivia a, skipTrivia a ++ b) :=
  splitTriviaFrom_append_of_ne_nil hrest hb

/-! ## The text between two places -/

namespace Cursor

/-- The text between two places without the trivia at its end: lexemes with the trivia
between them. -/
inductive Holds : Cursor → List Char → Cursor → Prop
  | last {c d : Cursor} {l : Lexeme} : Lexeme.first? c.rest = some l → d = c.past l →
      Holds c l.text d
  | cons {c d : Cursor} {l : Lexeme} {text : List Char} :
      Lexeme.first? c.rest = some l → Holds (c.past l) text d →
      Holds c (l.text ++ (leadingTrivia (c.rest.drop l.text.length) ++ text)) d

theorem past_length_lt {c : Cursor} {l : Lexeme} (h : Lexeme.first? c.rest = some l) :
    (c.past l).rest.length < c.rest.length := by
  have hlexeme : lexemeBy lineRest c.rest = some l := by rw [lexemeBy_lineRest, h]
  have hlt := length_rest_next_lt hlexeme
  rwa [skipBy_lineRest] at hlt

/-- What holds of a place as soon as it holds behind the lexeme there holds of all places. -/
@[elab_as_elim]
theorem past_induction {P : Cursor → Prop}
    (step : ∀ c, (∀ l, Lexeme.first? c.rest = some l → P (c.past l)) → P c) (c : Cursor) :
    P c := by
  induction hlength : c.rest.length using Nat.strongRecOn generalizing c with
  | _ n ih => exact step c fun l hl => ih _ (hlength ▸ past_length_lt hl) (c.past l) rfl

/-- A place with a lexeme is followed by the lexeme, trivia and the place behind them. -/
theorem rest_eq_past {c : Cursor} {l : Lexeme} (h : Lexeme.first? c.rest = some l) :
    c.rest = l.text ++ (leadingTrivia (c.rest.drop l.text.length) ++ (c.past l).rest) := by
  obtain ⟨r, hscan⟩ := Lexeme.scan_of_first? h
  have happend := Terminal.append_of_scan hscan
  have hpast : (c.past l).rest = skipTrivia (c.rest.drop l.text.length) := rfl
  rw [hpast, leadingTrivia_append_skipTrivia, ← happend, List.drop_left]

/-- What is read of a text is whole lexemes. -/
theorem Reads.isWhole_of_mem {c d : Cursor} {ls : List Lexeme} (h : c.Reads ls d) :
    ∀ l ∈ ls, l.IsWhole := by
  induction h with
  | nil _ => simp
  | @cons c d l ls hl _ ih =>
      rw [List.forall_mem_cons]
      refine ⟨?_, ih⟩
      rw [rest_eq_past hl] at hl
      exact Lexeme.first?_of_append hl (Nat.le_refl _)

theorem offset_past {c : Cursor} {l : Lexeme} (h : Lexeme.first? c.rest = some l) :
    (c.past l).offset =
      c.offset + byteLength l.text + byteLength (leadingTrivia (c.rest.drop l.text.length)) := by
  have htake : c.rest.take l.text.length = l.text := by
    conv => lhs; rw [rest_eq_past h]
    exact List.take_left
  have hpast : (c.past l).offset = c.offset + byteLength (c.rest.take l.text.length) +
      byteLength (leadingTrivia (c.rest.drop l.text.length)) := rfl
  rw [hpast, htake]

theorem Reads.cases {c d : Cursor} {ls : List Lexeme} (h : c.Reads ls d) :
    ls = [] ∧ d = c ∨
      ∃ l ls', ls = l :: ls' ∧ Lexeme.first? c.rest = some l ∧ (c.past l).Reads ls' d := by
  cases h with
  | nil => exact Or.inl ⟨rfl, rfl⟩
  | cons hl hrest => exact Or.inr ⟨_, _, rfl, hl, hrest⟩

theorem Reads.of_one {c d : Cursor} {l : Lexeme} (h : c.Reads [l] d) :
    Lexeme.first? c.rest = some l ∧ d = c.past l := by
  cases h with
  | cons hfirst hrest =>
      cases hrest
      exact ⟨hfirst, rfl⟩

theorem Reads.length_lt {c d : Cursor} {l : Lexeme} {ls : List Lexeme} (h : c.Reads (l :: ls) d) :
    d.rest.length < c.rest.length := by
  cases h with
  | cons hl hrest => exact Nat.lt_of_le_of_lt hrest.reaches.length_le (past_length_lt hl)

theorem Reads.offset_lt {c d : Cursor} {ls : List Lexeme} (h : c.Reads ls d)
    (hls : ls ≠ []) : c.offset < d.offset := by
  cases h with
  | nil => exact absurd rfl hls
  | @cons _ _ l ls hl hrest =>
      have hpos := byteLength_pos (Lexeme.ne_nil_of_first? hl)
      have hpast := offset_past hl
      have hle := hrest.reaches.offset_le
      omega

/-- Nothing is read between a place and itself. -/
theorem Reads.eq_nil {c : Cursor} {ls : List Lexeme} (h : c.Reads ls c) : ls = [] := by
  cases ls with
  | nil => rfl
  | cons l ls => exact absurd h.length_lt (Nat.lt_irrefl _)

/-- Two readings up to one place are of the same lexemes. -/
theorem Reads.unique {c d : Cursor} {ls ls' : List Lexeme} (h : c.Reads ls d)
    (h' : c.Reads ls' d) : ls = ls' := by
  obtain hlength | hlength := Nat.le_total ls.length ls'.length
  · obtain ⟨more, rfl, hmore⟩ := h.of_length_le h' hlength
    rw [hmore.eq_nil, List.append_nil]
  · obtain ⟨more, rfl, hmore⟩ := h'.of_length_le h hlength
    rw [hmore.eq_nil, List.append_nil]

/-- Where no lexeme is cut, the trivia behind the first one is that of the front of the
text. -/
theorem past_of_append {c c' : Cursor} {l : Lexeme} {text r : List Char}
    (hl : Lexeme.first? c.rest = some l) (hr : (c.past l).rest = text ++ r) (htext : text ≠ [])
    (hc' : c'.rest = l.text ++ (leadingTrivia (c.rest.drop l.text.length) ++ text)) :
    Lexeme.first? c'.rest = some l ∧ (c'.past l).rest = text ∧
      leadingTrivia (c'.rest.drop l.text.length) = leadingTrivia (c.rest.drop l.text.length) := by
  have hrest := rest_eq_past hl
  have htail : c.rest.drop l.text.length =
      (leadingTrivia (c.rest.drop l.text.length) ++ text) ++ r := by
    rw [List.append_assoc, ← hr]
    conv => lhs; rw [hrest]
    exact List.drop_left
  have hdrop : c'.rest.drop l.text.length = leadingTrivia (c.rest.drop l.text.length) ++ text := by
    rw [hc', List.drop_left]
  have hpast : (c'.past l).rest = skipTrivia (c'.rest.drop l.text.length) := rfl
  rw [hpast, hdrop]
  generalize htrivia : leadingTrivia (c.rest.drop l.text.length) = trivia at *
  rw [htail] at htrivia
  have hfront : leadingTrivia (trivia ++ text) = trivia := by
    have hpos := List.length_pos_iff.2 htext
    rw [← leadingTrivia_of_append (by rw [htrivia, List.length_append]; omega), htrivia]
  refine ⟨?_, ?_, hfront⟩
  · rw [hrest, hr, ← List.append_assoc, ← List.append_assoc, List.append_assoc l.text] at hl
    rw [hc']
    exact Lexeme.first?_of_append hl (by simp)
  · have happend := leadingTrivia_append_skipTrivia (trivia ++ text)
    rw [hfront] at happend
    exact List.append_cancel_left happend

namespace Holds

variable {c d : Cursor} {text : List Char}

theorem exists_rest (h : c.Holds text d) : ∃ r, c.rest = text ++ r := by
  induction h with
  | last hl _ => exact ⟨_, rest_eq_past hl⟩
  | cons hl _ ih =>
      obtain ⟨r, hr⟩ := ih
      refine ⟨r, ?_⟩
      rw [List.append_assoc, List.append_assoc, ← hr]
      exact rest_eq_past hl

theorem ne_nil (h : c.Holds text d) : text ≠ [] := by
  cases h with
  | last hl _ => exact Lexeme.ne_nil_of_first? hl
  | cons hl _ => simp [Lexeme.ne_nil_of_first? hl]

theorem length_lt (h : c.Holds text d) : d.rest.length < c.rest.length := by
  induction h with
  | last hl hd =>
      subst hd
      exact past_length_lt hl
  | cons hl _ ih =>
      have hpast := past_length_lt hl
      omega

/-- There is one text between two places. -/
theorem functional {text' : List Char} (h : c.Holds text d) (h' : c.Holds text' d) :
    text = text' := by
  induction h generalizing text' with
  | last hl hd =>
      cases h' with
      | last hl' _ => rw [Option.some.inj (hl.symm.trans hl')]
      | cons hl' hrest =>
          obtain rfl := Option.some.inj (hl.symm.trans hl')
          rw [hd] at hrest
          exact absurd hrest.length_lt (Nat.lt_irrefl _)
  | cons hl hrest ih =>
      cases h' with
      | last hl' hd =>
          obtain rfl := Option.some.inj (hl.symm.trans hl')
          rw [hd] at hrest
          exact absurd hrest.length_lt (Nat.lt_irrefl _)
      | cons hl' hrest' =>
          obtain rfl := Option.some.inj (hl.symm.trans hl')
          rw [ih hrest']

theorem exists_reads (h : c.Holds text d) : ∃ ls, c.Reads ls d := by
  induction h with
  | last hl hd =>
      subst hd
      exact ⟨_, .one hl⟩
  | cons hl _ ih =>
      obtain ⟨ls, hls⟩ := ih
      exact ⟨_, .cons hl hls⟩

/-- Where some lexemes are read, there is a text. -/
theorem of_reads {ls : List Lexeme} (h : c.Reads ls d) (hls : ls ≠ []) :
    ∃ text, c.Holds text d := by
  induction h with
  | nil c => exact absurd rfl hls
  | cons hl hrest ih =>
      rcases hrest.cases with ⟨rfl, hd⟩ | ⟨_, _, rfl, -, -⟩
      · exact ⟨_, .last hl hd⟩
      · obtain ⟨text, htext⟩ := ih (by simp)
        exact ⟨_, .cons hl htext⟩

/-- Lexemes before a text make it longer and leave its end where it is. -/
theorem prepend {m : Cursor} {ls : List Lexeme} (h : c.Reads ls m) (h' : m.Holds text d) :
    ∃ text', c.Holds text' d ∧ c.offset + byteLength text' = m.offset + byteLength text := by
  induction h with
  | nil c => exact ⟨text, h', rfl⟩
  | cons hl _ ih =>
      obtain ⟨text', htext', hend⟩ := ih h'
      refine ⟨_, .cons hl htext', ?_⟩
      rw [← hend, offset_past hl, byteLength_append, byteLength_append]
      omega

/-! ## A text on its own -/

/-- No trivia stands at the front of a text either. -/
theorem leadingTrivia_eq (h : c.Holds text d) (hc : c.Rested) : leadingTrivia text = [] := by
  obtain ⟨r, hr⟩ := h.exists_rest
  rw [Rested, hr] at hc
  rw [← leadingTrivia_of_append (by rw [hc]; exact List.length_pos_iff.2 h.ne_nil), hc]

/-- A text between two places has on its own the lexemes that stand between them. -/
theorem reads_alone {ls : List Lexeme} (h : c.Holds text d) (hreads : c.Reads ls d) {c' : Cursor}
    (hc' : c'.rest = text) : ∃ d', c'.Reads ls d' ∧ d'.rest = [] ∧ c'.Holds text d' := by
  induction h generalizing ls c' with
  | @last c d l hl hd =>
      rcases hreads.cases with ⟨-, rfl⟩ | ⟨l', ls', rfl, hl', hrest⟩
      · have hlt := past_length_lt hl
        rw [← hd] at hlt
        exact absurd hlt (Nat.lt_irrefl _)
      · obtain rfl := Option.some.inj (hl.symm.trans hl')
        have hwhole : Lexeme.first? c'.rest = some l := by
          rw [rest_eq_past hl] at hl
          rw [hc']
          exact Lexeme.first?_of_append hl (Nat.le_refl _)
        rw [hd] at hrest
        obtain rfl := hrest.eq_nil
        refine ⟨c'.past l, .one hwhole, ?_, .last hwhole rfl⟩
        have hpast : (c'.past l).rest = skipTrivia (c'.rest.drop l.text.length) := rfl
        rw [hpast, hc', List.drop_length]
        rfl
  | @cons c d l text hl hrest ih =>
      rcases hreads.cases with ⟨-, rfl⟩ | ⟨l', ls', rfl, hl', hreads'⟩
      · have hlt := hrest.length_lt
        have hpast := past_length_lt hl
        omega
      · obtain rfl := Option.some.inj (hl.symm.trans hl')
        obtain ⟨r, hr⟩ := hrest.exists_rest
        obtain ⟨hfirst, hpast, htrivia⟩ := past_of_append hl hr hrest.ne_nil hc'
        obtain ⟨d', hd', hend, hholds⟩ := ih hreads' hpast
        refine ⟨d', .cons hfirst hd', hend, ?_⟩
        rw [← htrivia]
        exact .cons hfirst hholds

/-- A text that holds all that is left ends at the end. -/
theorem rest_eq_nil (h : c.Holds text d) (htext : c.rest = text) : d.rest = [] := by
  obtain ⟨ls, hreads⟩ := h.exists_reads
  obtain ⟨d', hreads', hend, -⟩ := h.reads_alone hreads htext
  rwa [hreads.functional hreads']

/-- A text that ends with its last lexeme has the same lexemes in front of a separator. -/
theorem reads_before {ls : List Lexeme} (h : c.Holds text d) (htext : c.rest = text)
    (hreads : c.Reads ls d) {behind : List Char}
    (hbehind : ∀ x, behind.head? = some x → isSeparator x = true) {c' : Cursor}
    (hc' : c'.rest = text ++ behind) :
    ∃ d', c'.Reads ls d' ∧ d'.rest = skipTrivia behind ∧ c'.Holds text d' := by
  induction h generalizing ls c' with
  | @last c d l hl hd =>
      rcases hreads.cases with ⟨-, rfl⟩ | ⟨l', ls', rfl, hl', hrest⟩
      · have hlt := past_length_lt hl
        rw [← hd] at hlt
        exact absurd hlt (Nat.lt_irrefl _)
      · obtain rfl := Option.some.inj (hl.symm.trans hl')
        rw [hd] at hrest
        obtain rfl := hrest.eq_nil
        have hfirst : Lexeme.first? c'.rest = some l := by
          rw [hc']
          rw [htext] at hl
          exact Lexeme.first?_append hl hbehind
        refine ⟨c'.past l, .one hfirst, ?_, .last hfirst rfl⟩
        have hpast : (c'.past l).rest = skipTrivia (c'.rest.drop l.text.length) := rfl
        rw [hpast, hc', List.drop_left]
  | @cons c d l text hl hrest ih =>
      rcases hreads.cases with ⟨-, rfl⟩ | ⟨l', ls', rfl, hl', hreads'⟩
      · have hlt := hrest.length_lt
        have hpast := past_length_lt hl
        omega
      · obtain rfl := Option.some.inj (hl.symm.trans hl')
        have hpast : (c.past l).rest = text := by
          have heq := (rest_eq_past hl).symm.trans htext
          exact List.append_cancel_left (List.append_cancel_left heq)
        have hfirst : Lexeme.first? c'.rest = some l := by
          rw [hc', ← htext]
          exact Lexeme.first?_append hl hbehind
        have hslash : behind.head? ≠ some '/' := fun hhead =>
          absurd (hbehind '/' hhead) (by decide)
        have hne : skipTrivia (c.rest.drop l.text.length) ≠ [] := by
          have hskip : skipTrivia (c.rest.drop l.text.length) = text := hpast
          rw [hskip]
          exact hrest.ne_nil
        have hsplit := splitTrivia_append_of_ne_nil hne hslash
        have hdrop : c'.rest.drop l.text.length = c.rest.drop l.text.length ++ behind := by
          rw [hc', List.append_assoc, List.drop_left, ← hpast]
          congr 1
          exact leadingTrivia_append_skipTrivia _
        have hpast' : (c'.past l).rest = text ++ behind := by
          have hskip : (c'.past l).rest = skipTrivia (c'.rest.drop l.text.length) := rfl
          rw [hskip, hdrop, ← hpast, skipTrivia, hsplit]
          rfl
        have htrivia : leadingTrivia (c'.rest.drop l.text.length) =
            leadingTrivia (c.rest.drop l.text.length) := by
          rw [hdrop, leadingTrivia, hsplit]
        obtain ⟨d', hd', hend, hholds⟩ := ih hpast hreads' hpast'
        refine ⟨d', .cons hfirst hd', hend, ?_⟩
        rw [← htrivia]
        exact .cons hfirst hholds

end Holds

end Cursor

end DecafFrontEnd
