/-
  DecafFrontEnd/Proofs/Lexical/Line.lean --- scans see one line.

  No lexeme runs over a line feed: what a scan takes is the same whatever stands
  behind the first line feed (`Terminal.map_scan_line`).  The lexeme found in the
  rest of the line is therefore the lexeme of the whole rest of the text
  (`lexemeBy_lineRest`).

  For the two sorts of quoted literals the proof goes through their texts:
  `IsCharLit` and `IsStringLit` say which texts they are, and a scan takes
  exactly a text of the sort from the front.
-/
import DecafFrontEnd.Proofs.Lexical.Scan

set_option autoImplicit false

namespace DecafFrontEnd

/-! ## The texts of literals -/

/-- The texts of character literals. -/
def IsCharLit (l : List Char) : Prop :=
  (∃ c, l = ['\'', '\\', c, '\''] ∧ isLineBreak c = false) ∨
    ∃ c, l = ['\'', c, '\''] ∧ c ≠ '\'' ∧ c ≠ '\\' ∧ isLineBreak c = false

theorem scanCharLit_iff (cs l r : List Char) :
    scanCharLit cs = some (l, r) ↔ IsCharLit l ∧ cs = l ++ r := by
  constructor
  · intro h
    unfold scanCharLit at h
    split at h
    · next c rest =>
        split at h
        · simp at h
        · next hc =>
            simp only [Option.some.injEq, Prod.mk.injEq] at h
            obtain ⟨rfl, rfl⟩ := h
            exact ⟨Or.inl ⟨c, rfl, by simpa using hc⟩, rfl⟩
    · next c rest _ =>
        split at h
        · simp at h
        · next hc =>
            simp only [Option.some.injEq, Prod.mk.injEq] at h
            obtain ⟨rfl, rfl⟩ := h
            simp only [Bool.or_eq_true, decide_eq_true_eq, not_or, Bool.not_eq_true] at hc
            exact ⟨Or.inr ⟨c, rfl, hc.1.1, hc.1.2, hc.2⟩, rfl⟩
    · simp at h
  · rintro ⟨⟨c, rfl, hc⟩ | ⟨c, rfl, hq, hb, hc⟩, rfl⟩
    · simp [scanCharLit, hc]
    · unfold scanCharLit
      simp [hq, hb, hc]

/-- The texts of string literals without the opening quote. -/
inductive IsStringTail : List Char → Prop
  | close : IsStringTail ['"']
  | escape (c : Char) {l : List Char} : isLineBreak c = false → IsStringTail l →
      IsStringTail ('\\' :: c :: l)
  | plain (c : Char) {l : List Char} : c ≠ '"' → c ≠ '\\' → isLineBreak c = false →
      IsStringTail l → IsStringTail (c :: l)

theorem scanStringTail_append {l : List Char} (h : IsStringTail l) (r : List Char) :
    scanStringTail (l ++ r) = some (l, r) := by
  induction h with
  | close => simp [scanStringTail]
  | escape c hc _ ih => simp [scanStringTail, hc, ih]
  | plain c hq hb hc _ ih =>
      unfold scanStringTail
      split
      · next heq => simp at heq
      · next heq => exact absurd (List.cons.inj heq).1 hq
      · next heq => exact absurd (List.cons.inj heq).1 hb
      · next heq =>
          obtain ⟨rfl, rfl⟩ := List.cons.inj heq
          simp [hb, hc, ih]

theorem isStringTail_of_scan {cs l r : List Char} (h : scanStringTail cs = some (l, r)) :
    IsStringTail l := by
  fun_induction scanStringTail cs generalizing l with
  | case1 => simp at h
  | case2 rest =>
      simp only [Option.some.injEq, Prod.mk.injEq] at h
      rw [← h.1]
      exact .close
  | case3 c rest _ => simp at h
  | case4 c rest hc ih =>
      obtain ⟨⟨l', r'⟩, heq, hlr⟩ := Option.map_eq_some_iff.1 h
      simp only [Prod.mk.injEq] at hlr
      obtain ⟨rfl, rfl⟩ := hlr
      exact .escape c (by simpa using hc) (ih heq)
  | case5 c rest _ _ _ => simp at h
  | case6 c rest hq hb hc ih =>
      obtain ⟨⟨l', r'⟩, heq, hlr⟩ := Option.map_eq_some_iff.1 h
      simp only [Prod.mk.injEq] at hlr
      obtain ⟨rfl, rfl⟩ := hlr
      simp only [Bool.or_eq_true, decide_eq_true_eq, not_or, Bool.not_eq_true] at hc
      exact .plain c (by simpa using hq) hc.1 hc.2 (ih heq)

/-- The texts of string literals. -/
def IsStringLit (l : List Char) : Prop := ∃ tail, l = '"' :: tail ∧ IsStringTail tail

theorem scanStringLit_iff (cs l r : List Char) :
    scanStringLit cs = some (l, r) ↔ IsStringLit l ∧ cs = l ++ r := by
  constructor
  · intro h
    refine ⟨?_, (scanStringLit_splits cs l r h).1.symm⟩
    unfold scanStringLit at h
    split at h
    · next rest =>
        obtain ⟨⟨l', r'⟩, heq, hlr⟩ := Option.map_eq_some_iff.1 h
        simp only [Prod.mk.injEq] at hlr
        exact ⟨l', hlr.1.symm, isStringTail_of_scan heq⟩
    · simp at h
  · rintro ⟨⟨tail, rfl, htail⟩, rfl⟩
    simp [scanStringLit, scanStringTail_append htail]

theorem IsCharLit.no_line_break {l : List Char} (h : IsCharLit l) :
    ∀ c ∈ l, isLineBreak c = false := by
  have hquote : isLineBreak '\'' = false := by decide
  have hbackslash : isLineBreak '\\' = false := by decide
  rcases h with ⟨c, rfl, hc⟩ | ⟨c, rfl, -, -, hc⟩
  · simp [hquote, hbackslash, hc]
  · simp [hquote, hc]

theorem IsStringTail.no_line_break {l : List Char} (h : IsStringTail l) :
    ∀ c ∈ l, isLineBreak c = false := by
  induction h with
  | close => exact List.forall_mem_singleton.2 (by decide)
  | escape c hc _ ih =>
      rw [List.forall_mem_cons, List.forall_mem_cons]
      exact ⟨by decide, hc, ih⟩
  | plain c _ _ hc _ ih =>
      rw [List.forall_mem_cons]
      exact ⟨hc, ih⟩

theorem IsStringLit.no_line_break {l : List Char} (h : IsStringLit l) :
    ∀ c ∈ l, isLineBreak c = false := by
  obtain ⟨tail, rfl, htail⟩ := h
  rw [List.forall_mem_cons]
  exact ⟨by decide, htail.no_line_break⟩

/-! ## Scans and line feeds -/

theorem takeWhile_line {p : Char → Bool} (hp : p '\n' = false) (a b : List Char) :
    (a ++ '\n' :: b).takeWhile p = (a ++ ['\n']).takeWhile p := by
  induction a with
  | nil => simp [hp]
  | cons c a ih => simp only [List.cons_append, List.takeWhile_cons, ih]

theorem isPrefixOf_line {s : List Char} (hs : '\n' ∉ s) (a b : List Char) :
    s.isPrefixOf (a ++ '\n' :: b) = s.isPrefixOf (a ++ ['\n']) := by
  induction s generalizing a with
  | nil => simp
  | cons c s ih =>
      simp only [List.mem_cons, not_or] at hs
      cases a with
      | nil => simp [List.isPrefixOf, beq_eq_false_iff_ne.2 (Ne.symm hs.1)]
      | cons d a => simp only [List.cons_append, List.isPrefixOf, ih hs.2 a]

/-- Of several spellings the first that fits is taken. -/
theorem map_scanAny (ss : List (List Char)) (cs : List Char) :
    (scanAny ss cs).map Prod.fst = ss.find? (·.isPrefixOf cs) := by
  induction ss with
  | nil => rfl
  | cons s ss ih =>
      rw [List.find?_cons, ← ih, scanAny, List.findSome?_cons, scanSpelling]
      cases s.isPrefixOf cs <;> rfl

theorem scanAny_line {ss : List (List Char)} (hss : ∀ s ∈ ss, '\n' ∉ s) (a b : List Char) :
    (scanAny ss (a ++ '\n' :: b)).map Prod.fst = (scanAny ss (a ++ ['\n'])).map Prod.fst := by
  rw [map_scanAny, map_scanAny]
  induction ss with
  | nil => rfl
  | cons s ss ih =>
      rw [List.find?_cons, List.find?_cons, isPrefixOf_line (hss s (by simp)) a b,
        ih fun s' hs' => hss s' (by simp [hs'])]

/-- A scan that takes whatever begins with a member of a set of texts without
line breaks does not look behind a line feed. -/
theorem scan_line_of_iff {scan : List Char → Scan} {P : List Char → Prop}
    (hscan : ∀ cs l r, scan cs = some (l, r) ↔ P l ∧ cs = l ++ r)
    (hP : ∀ l, P l → ∀ c ∈ l, isLineBreak c = false) (a b : List Char) :
    (scan (a ++ '\n' :: b)).map Prod.fst = (scan (a ++ ['\n'])).map Prod.fst := by
  have hline : ∀ l, P l → '\n' ∉ l := fun l hl hmem => absurd (hP l hl _ hmem) (by decide)
  have key : ∀ tail l, (scan (a ++ '\n' :: tail)).map Prod.fst = some l ↔
      P l ∧ l.isPrefixOf (a ++ '\n' :: tail) = true := by
    intro tail l
    rw [Option.map_eq_some_iff, List.isPrefixOf_iff_prefix]
    constructor
    · rintro ⟨⟨l', r⟩, hs, rfl⟩
      obtain ⟨hl, hcs⟩ := (hscan _ _ _).1 hs
      exact ⟨hl, r, hcs.symm⟩
    · rintro ⟨hl, r, hr⟩
      exact ⟨(l, r), (hscan _ _ _).2 ⟨hl, hr.symm⟩, rfl⟩
  apply Option.ext
  intro l
  rw [key b l, key [] l]
  constructor
  · rintro ⟨hl, hpre⟩
    exact ⟨hl, by rw [← isPrefixOf_line (hline l hl) a b]; exact hpre⟩
  · rintro ⟨hl, hpre⟩
    exact ⟨hl, by rw [isPrefixOf_line (hline l hl) a b]; exact hpre⟩

namespace Terminal

/-- What a scan takes does not depend on the text behind a line feed. -/
theorem map_scan_line (t : Terminal) (a b : List Char) :
    (t.scan (a ++ '\n' :: b)).map Prod.fst = (t.scan (a ++ ['\n'])).map Prod.fst := by
  have hword := takeWhile_line (p := isWordChar) (by decide) a b
  have hdigit := takeWhile_line (p := Char.isDigit) (by decide) a b
  cases t with
  | keyword k =>
      simp only [scan, scanKeyword, hword]
      split <;> rfl
  | ident =>
      simp only [scan, scanName, hword]
      split
      · rfl
      · split <;> rfl
  | intLit =>
      simp only [scan, scanDigits, hdigit]
      split <;> rfl
  | charLit => exact scan_line_of_iff scanCharLit_iff (fun _ => IsCharLit.no_line_break) a b
  | stringLit =>
      exact scan_line_of_iff scanStringLit_iff (fun _ => IsStringLit.no_line_break) a b
  | _ => exact scanAny_line (by simp [spellings]) a b

end Terminal

theorem Lexeme.first?_line (a b : List Char) :
    first? (a ++ '\n' :: b) = first? (a ++ ['\n']) := by
  have key : ∀ cs (t : Terminal), ((t.scan cs).map fun x => (⟨t, x.1⟩ : Lexeme)) =
      ((t.scan cs).map Prod.fst).map fun text => ⟨t, text⟩ := by
    intro cs t
    cases t.scan cs <;> rfl
  simp only [first?_eq, key, Terminal.map_scan_line _ a b]

/-- A text is one line, or a line and what follows it. -/
theorem lineRest_cases (cs : List Char) :
    lineRest cs = cs ∨ ∃ a b, cs = a ++ '\n' :: b ∧ lineRest cs = a ++ ['\n'] := by
  induction cs with
  | nil => exact Or.inl rfl
  | cons c cs ih =>
      unfold lineRest
      split
      · next hc => exact Or.inr ⟨[], cs, by rw [hc]; rfl, by rw [hc]; rfl⟩
      · rcases ih with ih | ⟨a, b, hcs, hline⟩
        · exact Or.inl (by rw [ih])
        · exact Or.inr ⟨c :: a, b, by rw [hcs]; rfl, by rw [hline]; rfl⟩

/-- Reading one line at a time finds the lexeme that the whole text has. -/
theorem lexemeBy_lineRest (cs : List Char) : lexemeBy lineRest cs = Lexeme.first? cs := by
  cases cs with
  | nil => rfl
  | cons c cs =>
      show Lexeme.first? (lineRest (c :: cs)) = Lexeme.first? (c :: cs)
      rcases lineRest_cases (c :: cs) with h | ⟨a, b, hcs, hline⟩
      · rw [h]
      · rw [hline, hcs]
        exact (Lexeme.first?_line a b).symm

end DecafFrontEnd
