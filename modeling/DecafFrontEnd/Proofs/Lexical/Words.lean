/-
  DecafFrontEnd/Proofs/Lexical/Words.lean --- texts made of words.

  A word is a lexeme, or several with the trivia between them, and nothing else.  Words
  with blanks between them are read one after the other: `Cursor.Worded` says where they
  stand.
-/
import DecafFrontEnd.Proofs.Grammar.Span
import DecafFrontEnd.Proofs.Lexical.Excerpt

set_option autoImplicit false

namespace DecafFrontEnd

/-! ## Words -/

/-- A text that begins and ends with a lexeme. -/
structure IsWord (w : String) : Prop where
  front : leadingTrivia w.toList = []
  back : ∃ d, (Cursor.start w.toList).Holds w.toList d

theorem isWord_of_isWhole {t : Terminal} {w : String} (h : (⟨t, w.toList⟩ : Lexeme).IsWhole) :
    IsWord w := by
  have hnone : leadingTrivia (w.toList ++ []) = [] := h.leadingTrivia_append (by simp)
  rw [List.append_nil] at hnone
  have hfirst : Lexeme.first? (Cursor.start w.toList).rest = some ⟨t, w.toList⟩ := h
  exact ⟨hnone, (Cursor.start w.toList).past ⟨t, w.toList⟩, .last hfirst rfl⟩

theorem isWord_of_spelling {t : Terminal} {w : String} (h : w.toList ∈ t.spellings) : IsWord w :=
  isWord_of_isWhole (t.isWhole _ h)

/-- A mark alone is a list of words. -/
theorem isWord_of_mem_mark {t : Terminal} {w : String} (h : w.toList ∈ t.spellings) :
    ∀ x ∈ [w], IsWord x := List.forall_mem_singleton.2 (isWord_of_spelling h)

/-- Where a whole lexeme stands, it is read. -/
theorem Cursor.Holds.reads_one {c d : Cursor} {l : Lexeme} (h : c.Holds l.text d)
    (hl : l.IsWhole) : c.Reads [l] d := by
  obtain ⟨r, hr⟩ := h.exists_rest
  have hsame : ∀ {l' : Lexeme}, Lexeme.first? c.rest = some l' →
      l'.text.length ≤ l.text.length → l' = l := by
    intro l' hl' hlength
    rw [hr] at hl'
    exact Option.some.inj ((Lexeme.first?_of_append hl' hlength).symm.trans hl)
  generalize htext : l.text = text at h
  cases h with
  | last hl' hd =>
      obtain rfl := hsame hl' (Nat.le_of_eq (by rw [htext]))
      rw [hd]
      exact .one hl'
  | cons hl' hrest =>
      obtain rfl := hsame hl' (by rw [htext, List.length_append]; omega)
      have hnil := (List.append_right_eq_self.1 htext.symm)
      exact absurd (List.append_eq_nil_iff.1 hnil).2 hrest.ne_nil

/-! ## Words in a text -/

/-- Words stand one behind the other between two places. -/
def Cursor.Worded : Cursor → List String → Cursor → Prop :=
  Series fun c w d => c.Holds w.toList d

namespace Cursor.Worded

variable {c d : Cursor} {w : String} {ws ws' : List String}

theorem split (h : c.Worded (ws ++ ws') d) : ∃ m, c.Worded ws m ∧ m.Worded ws' d := Series.split h

/-- The first word and those behind it. -/
theorem split_cons (h : c.Worded (w :: ws) d) : ∃ m, c.Worded [w] m ∧ m.Worded ws d := by
  rw [← List.singleton_append] at h
  exact h.split

theorem cases_cons (h : c.Worded (w :: ws) d) : ∃ m, c.Holds w.toList m ∧ m.Worded ws d :=
  Series.cases_cons h

/-- The first word is read if it is a lexeme. -/
theorem reads {t : Terminal} (h : c.Worded (w :: ws) d)
    (hw : (⟨t, w.toList⟩ : Lexeme).IsWhole) :
    ∃ m, c.Reads [⟨t, w.toList⟩] m ∧ m.Worded ws d := by
  obtain ⟨m, hm, hws⟩ := h.cases_cons
  exact ⟨m, hm.reads_one hw, hws⟩

/-- The first word is passed if it is a mark. -/
theorem passes {t : Terminal} (h : c.Worded (w :: ws) d) (hw : w.toList ∈ t.spellings) :
    ∃ m, c.Passes t m ∧ m.Worded ws d := by
  obtain ⟨m, hm, hws⟩ := h.reads (t.isWhole _ hw)
  exact ⟨m, ⟨_, hm⟩, hws⟩

theorem eq_of_nil (h : c.Worded [] d) : c = d := by
  cases h
  rfl

theorem rested (h : c.Worded ws d) (hc : c.Rested) : d.Rested := by
  induction h with
  | nil c => exact hc
  | cons hw _ ih =>
      obtain ⟨_, hreads⟩ := hw.exists_reads
      exact ih (hreads.rested hc)

end Cursor.Worded

/-- Words with blanks between them. -/
inductive Spread : List String → List Char → Prop
  | one (w : String) : Spread [w] w.toList
  | cons {w : String} {ws : List String} {blanks rest : List Char} :
      blanks ≠ [] → (∀ c ∈ blanks, isBlank c = true) → Spread ws rest →
      Spread (w :: ws) (w.toList ++ (blanks ++ rest))

namespace Spread

variable {ws : List String} {text : List Char}

theorem head_blanks {blanks rest : List Char} (hne : blanks ≠ [])
    (hblanks : ∀ c ∈ blanks, isBlank c = true) :
    ∀ x, (blanks ++ rest).head? = some x → isBlank x = true := by
  cases blanks with
  | nil => exact absurd rfl hne
  | cons y blanks =>
      intro x hx
      obtain rfl : y = x := Option.some.inj hx
      exact hblanks y (by simp)

theorem leadingTrivia_eq (h : Spread ws text) (hws : ∀ w ∈ ws, IsWord w) :
    leadingTrivia text = [] := by
  cases h with
  | one w => exact (hws w (by simp)).front
  | @cons w ws blanks rest hne hblanks _ =>
      obtain ⟨hfront, _, hholds⟩ := hws w (by simp)
      have happend := leadingTrivia_append_skipTrivia w.toList
      rw [hfront, List.nil_append] at happend
      have hsome : skipTrivia w.toList ≠ [] := by
        rw [happend]
        exact hholds.ne_nil
      have hslash : (blanks ++ rest).head? ≠ some '/' := fun hhead =>
        absurd (head_blanks hne hblanks '/' hhead) (by decide)
      exact (congrArg Prod.fst (splitTrivia_append_of_ne_nil hsome hslash)).trans hfront

/-- Words with blanks between them are read one after the other. -/
theorem worded (h : Spread ws text) (hws : ∀ w ∈ ws, IsWord w) {c : Cursor}
    (hc : c.rest = text) : ∃ d, c.Worded ws d ∧ d.rest = [] := by
  induction h generalizing c with
  | one w =>
      obtain ⟨-, e, hholds⟩ := hws w (by simp)
      obtain ⟨ls, hreads⟩ := hholds.exists_reads
      obtain ⟨d, -, hend, hd⟩ := hholds.reads_alone hreads hc
      exact ⟨d, .one hd, hend⟩
  | @cons w ws blanks rest hne hblanks hrest ih =>
      obtain ⟨-, e, hholds⟩ := hws w (by simp)
      obtain ⟨ls, hreads⟩ := hholds.exists_reads
      have hothers : ∀ w ∈ ws, IsWord w := fun w hw => hws w (by simp [hw])
      have hbehind : ∀ x, (blanks ++ rest).head? = some x → isSeparator x = true :=
        fun x hx => by simp [isSeparator, head_blanks hne hblanks x hx]
      obtain ⟨m, -, hm, hword⟩ := hholds.reads_before rfl hreads hbehind hc
      rw [skipTrivia_blanks hblanks (hrest.leadingTrivia_eq hothers)] at hm
      obtain ⟨d, hd, hend⟩ := ih hothers hm
      exact ⟨d, .cons hword hd, hend⟩

/-- Words with one blank between two of them. -/
theorem intercalate (h : ws ≠ []) :
    Spread ws (" ".intercalate ws).toList := by
  rw [String.toList_intercalate]
  induction ws with
  | nil => exact absurd rfl h
  | cons w ws ih =>
      cases ws with
      | nil =>
          rw [List.map_singleton, List.intercalate_singleton]
          exact .one w
      | cons w' ws =>
          rw [List.map_cons, List.map_cons, List.intercalate_cons_cons, List.append_assoc]
          exact .cons (by decide) (by simp [isBlank]) (ih (by simp))

end Spread

end DecafFrontEnd
