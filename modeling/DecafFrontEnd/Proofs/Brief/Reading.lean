/-
  DecafFrontEnd/Proofs/Brief/Reading.lean --- expressions are told by their texts in brief.

  A text that begins with a legible expression in brief, with a blank, a bracket that closes
  or nothing behind it, determines the expression up to positions, and so where it ends
  (`Expression.eq_of_pretty`).  The induction is on the expression: the front of the text
  tells that the other one is of the same kind, the sign of an operation ends at the first
  blank, and each operand ends where the induction says.
-/
import DecafFrontEnd.Proofs.Brief.Front
import DecafFrontEnd.Proofs.Printing.Expression

set_option autoImplicit false

namespace DecafFrontEnd

/-! ## Leaves -/

section

variable {r r' : List Char}

theorem IsName.append_inj {x x' : String} (h : IsName x) (h' : IsName x')
    (hr : ∀ c ∈ r.head?, isWordChar c = false) (hr' : ∀ c ∈ r'.head?, isWordChar c = false)
    (heq : x.toList ++ r = x'.toList ++ r') : x = x' ∧ r = r' := by
  obtain ⟨hx, hrest⟩ := append_inj_of_takeWhile h.spells.1.2 h'.spells.1.2 hr hr' heq
  exact ⟨String.toList_injective hx, hrest⟩

/-- A string ends at its closing quote. -/
theorem IsStringBody.append_inj {x x' : String} (h : IsStringBody x) (h' : IsStringBody x')
    (heq : x.toList ++ '"' :: r = x'.toList ++ '"' :: r') : x = x' ∧ r = r' := by
  have hscan := scanStringTail_append h r
  have hscan' := scanStringTail_append h' r'
  rw [List.append_assoc, List.singleton_append] at hscan hscan'
  rw [heq, hscan', Option.some.injEq, Prod.mk.injEq] at hscan
  exact ⟨String.toList_injective (List.append_cancel_right hscan.1).symm, hscan.2.symm⟩

/-- An integer ends where its digits do. -/
theorem integer_append_inj {v v' : Int32} (h : 0 ≤ v.toInt) (h' : 0 ≤ v'.toInt)
    (hr : IsBehind r) (hr' : IsBehind r')
    (heq : (toString v.toInt).toList ++ r = (toString v'.toInt).toList ++ r') :
    v = v' ∧ r = r' := by
  obtain ⟨n, hn, htext⟩ := exists_digits h
  obtain ⟨n', hn', htext'⟩ := exists_digits h'
  have hword (k : Nat) : ∀ c ∈ Nat.toDigits 10 k, isWordChar c = true := fun c hc =>
    isWordChar_of_isDigit (Nat.isDigit_of_mem_toDigits (by decide) (by decide) hc)
  rw [htext, htext'] at heq
  obtain ⟨hdigits, hrest⟩ := append_inj_of_takeWhile (hword n) (hword n') hr.not_isWordChar
    hr'.not_isWordChar heq
  refine ⟨Int32.toInt_inj.1 ?_, hrest⟩
  rw [hn, hn', eq_of_toDigits_eq hdigits]

end

/-! ## Kinds -/

/-- Two expressions that a text begins with are of one kind. -/
theorem Expression.kind_eq {e e' : Expression} {r r' : List Char} (h : e.Legible)
    (h' : e'.Legible) (hr : IsBehind r) (hr' : IsBehind r')
    (heq : e.pretty.toList ++ r = e'.pretty.toList ++ r') : e.kind = e'.kind := by
  rw [← kindAt_pretty h hr, heq, kindAt_pretty h' hr']

theorem Location.unplaced_element (p : Position) (root : String) (index : Expression) :
    unplaced ⟨p, root, none, some index⟩ = ⟨default, root, none, some index.unplaced⟩ := rfl

/-- Two locations that a text begins with have the same name. -/
theorem Location.root_eq {l l' : Location} {r r' : List Char} (h : l.Legible) (h' : l'.Legible)
    (hr : IsBehind r) (hr' : IsBehind r') (heq : l.pretty.toList ++ r = l'.pretty.toList ++ r') :
    l.root = l'.root ∧ l.selector ++ r = l'.selector ++ r' := by
  rw [l.toList_pretty, l'.toList_pretty, List.append_assoc, List.append_assoc] at heq
  exact h.isName_root.append_inj h'.isName_root (l.not_isWordChar_selector hr)
    (l'.not_isWordChar_selector hr') heq

/-! ## Expressions -/

mutual

theorem Location.eq_of_pretty : ∀ (l l' : Location) {r r' : List Char}, l.Legible → l'.Legible →
    IsBehind r → IsBehind r' → l.pretty.toList ++ r = l'.pretty.toList ++ r' →
    l.unplaced = l'.unplaced ∧ r = r'
  | ⟨_, root, some path, some index⟩, _, _, _, h, _, _, _, _ => by
      obtain ⟨-, -, hone, -⟩ := h
      simp at hone
  | ⟨_, root, some path, none⟩, ⟨_, root', path', index'⟩, r, r', h, h', hr, hr', heq => by
      obtain ⟨hroot, hselector⟩ := Location.root_eq h h' hr hr' heq
      obtain rfl : root = root' := hroot
      match path', index' with
      | some path', some index' =>
          obtain ⟨-, -, hone, -⟩ := h'
          simp at hone
      | some path', none =>
          obtain ⟨-, hpath, -⟩ := h
          obtain ⟨-, hpath', -⟩ := h'
          obtain ⟨rfl, hrest⟩ := (hpath path rfl).append_inj (hpath' path' rfl)
            hr.not_isWordChar hr'.not_isWordChar (List.cons.inj hselector).2
          exact ⟨rfl, hrest⟩
      | none, some index' => exact absurd (List.cons.inj hselector).1 (by decide)
      | none, none => exact absurd hselector (hr'.cons_ne '.' _ (by decide))
  | ⟨_, root, none, some index⟩, ⟨_, root', path', index'⟩, r, r', h, h', hr, hr', heq => by
      obtain ⟨hroot, hselector⟩ := Location.root_eq h h' hr hr' heq
      obtain rfl : root = root' := hroot
      match path', index' with
      | some path', _ => exact absurd (List.cons.inj hselector).1 (by decide)
      | none, some index' =>
          obtain ⟨-, -, -, hindex⟩ := h
          obtain ⟨-, -, -, hindex'⟩ := h'
          have hinside : index.pretty.toList ++ ']' :: r = index'.pretty.toList ++ ']' :: r' := by
            simpa [Location.selector] using hselector
          obtain ⟨hi, hrest⟩ := Expression.eq_of_pretty index index' hindex hindex'
            (isBehind_bracket _) (isBehind_bracket _) hinside
          rw [Location.unplaced_element, Location.unplaced_element, hi]
          exact ⟨rfl, (List.cons.inj hrest).2⟩
      | none, none => exact absurd hselector (hr'.cons_ne '[' _ (by decide))
  | ⟨_, root, none, none⟩, ⟨_, root', path', index'⟩, r, r', h, h', hr, hr', heq => by
      obtain ⟨hroot, hselector⟩ := Location.root_eq h h' hr hr' heq
      obtain rfl : root = root' := hroot
      match path', index' with
      | some path', _ => exact absurd hselector.symm (hr.cons_ne '.' _ (by decide))
      | none, some index' => exact absurd hselector.symm (hr.cons_ne '[' _ (by decide))
      | none, none => exact ⟨rfl, hselector⟩

theorem Expression.eq_of_pretty : ∀ (e e' : Expression) {r r' : List Char}, e.Legible →
    e'.Legible → IsBehind r → IsBehind r' → e.pretty.toList ++ r = e'.pretty.toList ++ r' →
    e.unplaced = e'.unplaced ∧ r = r'
  | .simple p text, e', r, r', h, h', hr, hr', heq => by
      have hkind := Expression.kind_eq h h' hr hr' heq
      cases e' with
      | simple p' text' =>
          obtain ⟨rfl, hrest⟩ := h.1.append_inj h'.1 h.2 h'.2 hr hr' heq
          exact ⟨rfl, hrest⟩
      | _ => exact absurd hkind (by simp [Expression.kind])
  | .binary p lhs sign rhs, e', r, r', h, h', hr, hr', heq => by
      have hkind := Expression.kind_eq h h' hr hr' heq
      cases e' with
      | binary p' lhs' sign' rhs' =>
          obtain ⟨hlhs, ⟨op, rfl⟩, hrhs⟩ := h
          obtain ⟨hlhs', ⟨op', rfl⟩, hrhs'⟩ := h'
          rw [Expression.pretty_binary_append, Expression.pretty_binary_append] at heq
          -- the sign ends at the first blank, the operands end where the induction says
          obtain ⟨hsign, heq⟩ := append_cons_inj_of_front op.toList_spelling.1
            op'.toList_spelling.1 (List.cons.inj heq).2
          obtain ⟨hl, heq⟩ := Expression.eq_of_pretty lhs lhs' hlhs hlhs' (isBehind_blank _)
            (isBehind_blank _) heq
          obtain ⟨hr, heq⟩ := Expression.eq_of_pretty rhs rhs' hrhs hrhs' (isBehind_paren _)
            (isBehind_paren _) (List.cons.inj heq).2
          rw [Expression.unplaced_binary, Expression.unplaced_binary, hl, hr,
            String.toList_injective hsign]
          exact ⟨rfl, (List.cons.inj heq).2⟩
      | _ => exact absurd hkind (by simp [Expression.kind])
  | .unary p sign operand, e', r, r', h, h', hr, hr', heq => by
      have hkind := Expression.kind_eq h h' hr hr' heq
      cases e' with
      | unary p' sign' operand' =>
          obtain ⟨rfl, hoperand⟩ := h
          obtain ⟨rfl, hoperand'⟩ := h'
          rw [Expression.pretty_unary_append, Expression.pretty_unary_append] at heq
          obtain ⟨-, heq⟩ := append_cons_inj_of_front (by decide) (by decide)
            (List.cons.inj heq).2
          obtain ⟨ho, heq⟩ := Expression.eq_of_pretty operand operand' hoperand hoperand'
            (isBehind_paren _) (isBehind_paren _) heq
          rw [Expression.unplaced_unary, Expression.unplaced_unary, ho]
          exact ⟨rfl, (List.cons.inj heq).2⟩
      | _ => exact absurd hkind (by simp [Expression.kind])
  | .call p method arguments, e', r, r', h, h', hr, hr', heq => by
      have hkind := Expression.kind_eq h h' hr hr' heq
      cases e' with
      | call p' method' arguments' =>
          obtain ⟨hmethod, harguments⟩ := h
          obtain ⟨hmethod', harguments'⟩ := h'
          rw [Expression.pretty_call_append, Expression.pretty_call_append] at heq
          obtain ⟨-, heq⟩ := append_cons_inj_of_front (by decide) (by decide)
            (List.cons.inj heq).2
          obtain ⟨hm, heq⟩ := Location.eq_of_pretty method method' hmethod hmethod'
            (Expression.isBehind_arguments _ _) (Expression.isBehind_arguments _ _) heq
          obtain ⟨ha, hrest⟩ := Expression.eq_of_prettyArguments arguments arguments' harguments
            harguments' heq
          rw [Expression.unplaced_call, Expression.unplaced_call, hm, ha]
          exact ⟨rfl, hrest⟩
      | _ => exact absurd hkind (by simp [Expression.kind])
  | .callout p name arguments, e', r, r', h, h', hr, hr', heq => by
      have hkind := Expression.kind_eq h h' hr hr' heq
      cases e' with
      | callout p' name' arguments' =>
          obtain ⟨hname, harguments⟩ := h
          obtain ⟨hname', harguments'⟩ := h'
          rw [Expression.pretty_callout_append, Expression.pretty_callout_append] at heq
          obtain ⟨-, heq⟩ := append_cons_inj_of_front (by decide) (by decide)
            (List.cons.inj heq).2
          obtain ⟨-, heq⟩ := append_cons_inj_of_front (by decide) (by decide) heq
          obtain ⟨hsame, heq⟩ := hname.append_inj hname' (List.cons.inj heq).2
          obtain ⟨ha, hrest⟩ := Expression.eq_of_prettyArguments arguments arguments' harguments
            harguments' heq
          rw [Expression.unplaced_callout, Expression.unplaced_callout, hsame, ha]
          exact ⟨rfl, hrest⟩
      | _ => exact absurd hkind (by simp [Expression.kind])
  | .integer p value, e', r, r', h, h', hr, hr', heq => by
      have hkind := Expression.kind_eq h h' hr hr' heq
      cases e' with
      | integer p' value' =>
          obtain ⟨rfl, hrest⟩ := integer_append_inj h h' hr hr' heq
          exact ⟨rfl, hrest⟩
      | _ => exact absurd hkind (by simp [Expression.kind])
  | .character p value, e', r, r', h, h', hr, hr', heq => by
      have hkind := Expression.kind_eq h h' hr hr' heq
      cases e' with
      | character p' value' =>
          rw [Expression.pretty_character_append, Expression.pretty_character_append] at heq
          obtain ⟨rfl, hrest⟩ : value = value' ∧ r = r' := by simpa using heq
          exact ⟨rfl, hrest⟩
      | _ => exact absurd hkind (by simp [Expression.kind])
  | .boolean p value, e', r, r', h, h', hr, hr', heq => by
      have hkind := Expression.kind_eq h h' hr hr' heq
      cases e' with
      | boolean p' value' =>
          have hfalse (p : Position) : (Expression.boolean p false).pretty = "false" := rfl
          have htrue (p : Position) : (Expression.boolean p true).pretty = "true" := rfl
          cases value <;> cases value'
          case false.false | true.true => exact ⟨rfl, List.append_cancel_left heq⟩
          case false.true | true.false => simp [hfalse, htrue] at heq
      | _ => exact absurd hkind (by simp [Expression.kind])
  | .null p, e', r, r', h, h', hr, hr', heq => by
      have hkind := Expression.kind_eq h h' hr hr' heq
      cases e' with
      | null p' => exact ⟨rfl, List.append_cancel_left heq⟩
      | _ => exact absurd hkind (by simp [Expression.kind])

theorem Expression.eq_of_prettyArguments : ∀ (es es' : List Expression) {r r' : List Char},
    Expression.AllLegible es → Expression.AllLegible es' →
    (Expression.prettyArguments es).toList ++ ')' :: r =
      (Expression.prettyArguments es').toList ++ ')' :: r' →
    es.map Expression.unplaced = es'.map Expression.unplaced ∧ r = r'
  | [], [], r, r', _, _, heq => ⟨rfl, (List.cons.inj heq).2⟩
  | [], e' :: es', r, r', _, _, heq => by
      rw [Expression.prettyArguments_cons_append] at heq
      exact absurd (List.cons.inj heq).1 (by decide)
  | e :: es, [], r, r', _, _, heq => by
      rw [Expression.prettyArguments_cons_append] at heq
      exact absurd (List.cons.inj heq).1 (by decide)
  | e :: es, e' :: es', r, r', h, h', heq => by
      obtain ⟨he, hes⟩ := h
      obtain ⟨he', hes'⟩ := h'
      rw [Expression.prettyArguments_cons_append, Expression.prettyArguments_cons_append] at heq
      obtain ⟨hfirst, heq⟩ := Expression.eq_of_pretty e e' he he'
        (Expression.isBehind_arguments _ _) (Expression.isBehind_arguments _ _)
        (List.cons.inj heq).2
      obtain ⟨hothers, hrest⟩ := Expression.eq_of_prettyArguments es es' hes hes' heq
      exact ⟨congrArg₂ List.cons hfirst hothers, hrest⟩

end

/-! ## Programs that compile -/

namespace Source

/-- Expressions of programs that compile, with no gaps in the texts that are kept in them, are
equal up to positions if they are in brief. -/
theorem unplaced_eq_of_pretty {s s' : Source} {p p' : Program} {e e' : Expression}
    (h : s.compile = .ok p) (h' : s'.compile = .ok p') (he : e ∈ p.expressions)
    (he' : e' ∈ p'.expressions) (htight : KeepTight e.expressions)
    (htight' : KeepTight e'.expressions) (heq : e.pretty = e'.pretty) :
    e.unplaced = e'.unplaced := by
  have hlegible := ((compile_eq_ok_iff.1 h).wellFormed.of_mem he).legible htight
  have hlegible' := ((compile_eq_ok_iff.1 h').wellFormed.of_mem he').legible htight'
  have htext := congrArg (fun text : String => text.toList ++ []) heq
  exact (e.eq_of_pretty e' hlegible hlegible' isBehind_nil isBehind_nil htext).1

/-- Whether a text compiles to a program with an expression that is `brief` in brief and has
no gaps in the texts that are kept in it. -/
def hasTight (s : Source) (brief : String) : Bool :=
  match s.compile with
  | .ok p => p.expressions.any fun e => e.pretty = brief && decide (KeepTight e.expressions)
  | .error _ => false

theorem exists_of_hasTight {s : Source} {b : String} (h : s.hasTight b = true) :
    ∃ p e, s.compile = .ok p ∧ e ∈ p.expressions ∧ KeepTight e.expressions ∧ e.pretty = b := by
  unfold hasTight at h
  split at h
  · next p hp =>
      obtain ⟨e, he, hbrief⟩ := List.any_eq_true.1 h
      simp only [Bool.and_eq_true, decide_eq_true_eq] at hbrief
      exact ⟨p, e, hp, he, hbrief.2, hbrief.1⟩
  · simp at h

/-- A call in two texts, with blanks and brackets of its own in each. -/
theorem unplaced_eq_of_pretty_call :
    ∃ p p' e e',
      (ofText "class A\x7bvoid f()\x7bg(!a[1],h(' '));\x7d\x7d" none).compile = .ok p ∧
      (ofText "class B \x7bvoid f()\x7b g( !(a[1]) , (h(' ')) ) ;\x7d\x7d" none).compile = .ok p' ∧
      e ∈ p.expressions ∧ e' ∈ p'.expressions ∧
      KeepTight e.expressions ∧ KeepTight e'.expressions ∧
      e.pretty = "(call g (! a[1]) h(' '))" ∧ e'.pretty = "(call g (! a[1]) h(' '))" ∧
      e.unplaced = e'.unplaced := by
  obtain ⟨p, e, hp, he, htight, hbrief⟩ := exists_of_hasTight
    (s := ofText "class A\x7bvoid f()\x7bg(!a[1],h(' '));\x7d\x7d" none)
    (b := "(call g (! a[1]) h(' '))") (by decide +kernel)
  obtain ⟨p', e', hp', he', htight', hbrief'⟩ := exists_of_hasTight
    (s := ofText "class B \x7bvoid f()\x7b g( !(a[1]) , (h(' ')) ) ;\x7d\x7d" none)
    (b := "(call g (! a[1]) h(' '))") (by decide +kernel)
  exact ⟨p, p', e, e', hp, hp', he, he', htight, htight', hbrief, hbrief',
    unplaced_eq_of_pretty hp hp' he he' htight htight' (hbrief.trans hbrief'.symm)⟩

end Source

end DecafFrontEnd
