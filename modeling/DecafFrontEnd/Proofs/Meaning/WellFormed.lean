/-
  DecafFrontEnd/Proofs/Meaning/WellFormed.lean --- what a text means is well-formed.

  Every tree that a text means is one that a text can stand for.  The only part that is
  not read off the rules of the meaning is that a kept text is a simple expression on its
  own: it has the lexemes there that it has in the text it comes from, so it means there
  what it means here (`isKeptText_iff`).
-/
import DecafFrontEnd.Proofs.Ast.WellFormed
import DecafFrontEnd.Proofs.Meaning.Transport

set_option autoImplicit false

namespace DecafFrontEnd

/-! ## Kept texts -/

theorem Source.isPlace_alone {text : List Char} (h : leadingTrivia text = []) :
    (Source.alone text).IsPlace (Cursor.start text) :=
  ⟨by rw [chars_alone]; exact .refl _, h⟩

/-- A text that can be kept means a simple expression on its own. -/
theorem IsKeptText.means_alone {text : List Char} (h : IsKeptText (String.ofList text)) :
    leadingTrivia text = [] ∧ ∃ d, (Source.alone text).Means (Cursor.start text) .kept d ∧
      (Cursor.start text).Holds text d := by
  obtain ⟨⟨t, d, attempts, hmatch, hrest, hnone⟩, hfront, e, hholds⟩ := h
  rw [String.toList_ofList] at hmatch hfront hholds
  have hc := Source.isPlace_alone hfront
  have hrun := (Rule.phrase .simpleExpr).runs_matchAt (Cursor.start text)
  rw [hmatch] at hrun
  obtain ⟨t', ht', hrule, hstands⟩ := hrun.matches.covers.goalSpans (by decide) hc.rested
  obtain rfl := List.singleton_inj.1 ht'
  have hsettles := ((hstands.lawful (by rw [hrule]; rfl)).lowers (Source.alone text)).expression
    _ hrule rfl
  rw [hnone] at hsettles
  obtain ⟨v, hv⟩ := hsettles
  obtain ⟨kept, hmeans, hkept, -⟩ := (Source.gives_simpleExpr_iff hc).1 ⟨t, hrule, hstands, hv⟩
  obtain ⟨ls, hreads⟩ := hkept.exists_reads
  obtain ⟨ls', hreads'⟩ := hholds.exists_reads
  have hskip : d.skip.rest = [] := by
    have hnil : d.skip.rest = skipTrivia d.rest := rfl
    rw [hnil, hrest]
    rfl
  obtain rfl := hreads.eq_of_ends hskip hreads' (hholds.rest_eq_nil rfl)
  rw [hreads'.functional hreads] at hholds
  exact ⟨hfront, d.skip, hmeans, hholds⟩

/-- A text that means a simple expression on its own can be kept. -/
theorem isKeptText_of_means {text : List Char} {d : Cursor} (hfront : leadingTrivia text = [])
    (hmeans : (Source.alone text).Means (Cursor.start text) .kept d)
    (hholds : (Cursor.start text).Holds text d) : IsKeptText (String.ofList text) := by
  have hc := Source.isPlace_alone hfront
  obtain ⟨t, hrule, hstands, hlower⟩ :=
    (Source.gives_simpleExpr_iff hc).2 ⟨text, hmeans, hholds, rfl⟩
  have hsettles := ((hstands.lawful (by rw [hrule]; rfl)).lowers (Source.alone text)).expression
    _ hrule rfl
  have hend := hholds.rest_eq_nil rfl
  obtain ⟨e, hcovers, rfl⟩ := hstands
  rw [hrule] at hcovers
  have hstop : (Pattern.phrase .simpleExpr).StopsAt e.skip :=
    Pattern.stopsAt_of_lacks (by decide) e.rested_skip (Cursor.lacks_of_rest_nil hend _)
  obtain ⟨b, hb⟩ := hcovers.matches (by decide) trivial hc.rested hstop .none
  refine ⟨⟨t, e, b, ?_, hcovers.rest_eq_nil (by decide) rfl hc.rested hholds,
    hsettles.eq_nil_of_ok hlower⟩, by rwa [String.toList_ofList], e.skip, ?_⟩
  · rw [String.toList_ofList]
    exact Rule.matchAt_eq hb
  · rwa [String.toList_ofList]

/-- A text is kept in a tree exactly when it means a simple expression on its own. -/
theorem isKeptText_iff {text : List Char} :
    IsKeptText (String.ofList text) ↔
      leadingTrivia text = [] ∧ ∃ d, (Source.alone text).Means (Cursor.start text) .kept d ∧
        (Cursor.start text).Holds text d :=
  ⟨IsKeptText.means_alone, fun ⟨hfront, _, hmeans, hholds⟩ =>
    isKeptText_of_means hfront hmeans hholds⟩

/-- Where a text is kept, it is a simple expression on its own. -/
theorem Source.Means.isKeptText {s : Source} {c d : Cursor} {text : List Char}
    (h : s.Means c .kept d) (hc : c.Rested) (htext : c.Holds text d) :
    IsKeptText (String.ofList text) := by
  have hfront := htext.leadingTrivia_eq hc
  obtain ⟨ls, hreads, ht⟩ := h.transfers hc
  have hplace : (Cursor.start text).rest = text := rfl
  obtain ⟨d', hreads', -, hholds⟩ := htext.reads_alone hreads hplace
  exact isKeptText_iff.2 ⟨hfront, d', ht (isPlace_alone hfront).rested hreads', hholds⟩

/-! ## Lexemes -/

theorem Cursor.Reads.isWhole {c d : Cursor} {l : Lexeme} (h : c.Reads [l] d) : l.IsWhole :=
  h.isWhole_of_mem l (by simp)

theorem Cursor.Reads.isName {c d : Cursor} {x : List Char} (h : c.Reads [⟨.ident, x⟩] d) :
    IsName (String.ofList x) := by
  rw [IsName, String.toList_ofList]
  exact h.isWhole

theorem isStringBody_of_isWhole {inside : List Char}
    (h : (⟨.stringLit, '"' :: (inside ++ ['"'])⟩ : Lexeme).IsWhole) :
    IsStringBody (String.ofList inside) := by
  have hscan : scanStringLit ('"' :: (inside ++ ['"'])) = some ('"' :: (inside ++ ['"']), []) :=
    h.scan_text
  obtain ⟨⟨tail, htail, htails⟩, -⟩ := (scanStringLit_iff _ _ _).1 hscan
  obtain ⟨-, rfl⟩ := List.cons.inj htail
  rwa [IsStringBody, String.toList_ofList]

/-- A body between quotes is a string. -/
theorem IsStringBody.isWhole {x : String} (h : IsStringBody x) :
    (⟨.stringLit, '"' :: (x.toList ++ ['"'])⟩ : Lexeme).IsWhole := by
  have hscan : Terminal.stringLit.scan ('"' :: (x.toList ++ ['"'])) =
      some ('"' :: (x.toList ++ ['"']), []) := by
    rw [Terminal.scan, scanStringLit_iff]
    exact ⟨⟨_, rfl, h⟩, by rw [List.append_nil]⟩
  rcases Lexeme.first?_of_scan hscan with hfirst | ⟨h, -⟩
  · exact hfirst
  · rcases h with h | h <;> simp at h

theorem ne_of_isCharLit {v : Char} {inside : List Char} (h : IsCharLit ('\'' :: v :: inside)) :
    v ≠ '\'' ∧ v ≠ '\n' ∧ v ≠ '\r' := by
  rcases h with ⟨x, heq, -⟩ | ⟨x, heq, hquote, -, hbreak⟩
  · -- an escape stands for its backslash
    obtain ⟨rfl, -⟩ := List.cons.inj (List.cons.inj heq).2
    decide
  · obtain ⟨rfl, -⟩ := List.cons.inj (List.cons.inj heq).2
    simp only [isLineBreak, Bool.or_eq_false_iff, decide_eq_false_iff_not] at hbreak
    exact ⟨hquote, hbreak⟩

/-- The value of an integer literal that can be lowered. -/
theorem toInt_ofNat_le {n : Nat} (h : n ≤ maxInteger) :
    0 ≤ (Int32.ofNat n).toInt ∧ (Int32.ofNat n).toInt ≤ maxInteger := by
  rw [toInt_ofNat h]
  omega

/-! ## Expressions -/

/-- A piece of an expression that a text can stand for. -/
def Fragment.WellFormed : Fragment → Prop
  | .expression _ e => e.WellFormed
  | .kept => True
  | .location l => l.WellFormed
  | .call e => e.WellFormedCall
  | .arguments es => ∀ e ∈ es, e.WellFormed

namespace Source

variable {s : Source} {c d : Cursor}

theorem Means.wellFormed {p : Fragment} (h : s.Means c p d) (hc : s.IsPlace c) : p.WellFormed := by
  induction h with
  | tighter _ _ ih => exact ih hc
  | operation op h hop _ ihl ihr =>
      have hlhs := (h.given hc (Nat.le_of_lt (Level.tightness_lt op)))
      exact ⟨ihl hc, ⟨op, rfl⟩, ihr ((hlhs.isPlace hc).of_reads hop)⟩
  | negation hsign _ ih => exact ⟨rfl, ih (hc.of_reads hsign)⟩
  | brackets hopen _ _ ih => exact ih (hc.of_passes hopen)
  | integer _ hle => exact toInt_ofNat_le hle
  | character hreads =>
      exact ne_of_isCharLit ((scanCharLit_iff _ _ _).1 hreads.isWhole.scan_text).1
  | boolean | null | this | keptLocation | keptCall => trivial
  | simple h htext => exact h.isKeptText hc.rested htext
  | name hx => exact ⟨hx.isName, by simp, Or.inl rfl, trivial⟩
  | field hx _ hy =>
      refine ⟨hx.isName, ?_, Or.inr rfl, trivial⟩
      intro y hmem
      obtain rfl := Option.mem_some.1 hmem
      exact hy.isName
  | element hx hopen _ _ ih =>
      exact ⟨hx.isName, by simp, Or.inl rfl, ih ((hc.of_reads hx).of_passes hopen)⟩
  | bareCall _ _ _ ih => exact ⟨ih hc, by simp⟩
  | call h hopen _ _ ihl iha =>
      have hm := ((gives_location_iff hc).2 h).isPlace hc
      exact ⟨ihl hc, iha (hm.of_passes hopen)⟩
  | argument _ ih =>
      intro e he
      obtain rfl := List.mem_singleton.1 he
      exact ih hc
  | arguments h hcomma _ ihe ihs =>
      have hm := ((gives_expr_iff hc).2 h).isPlace hc
      exact List.forall_mem_cons.2 ⟨ihe hc, ihs (hm.of_passes hcomma)⟩

end Source

/-! ## Several things -/

section

variable {α : Type} {R : Cursor → α → Cursor → Prop} {P : α → Prop} {s : Source} {c d : Cursor}
  {xs : List α}

theorem Series.forall_mem (h : Series R c xs d) (hR : s.Leads R) (hc : s.IsPlace c)
    (hP : ∀ {c x d}, s.IsPlace c → R c x d → P x) : ∀ x ∈ xs, P x := by
  induction h with
  | nil c => simp
  | cons hx _ ih => exact List.forall_mem_cons.2 ⟨hP hc hx, ih (hR hc hx)⟩

theorem Listed.forall_mem (h : Listed R c xs d) (hR : s.Leads R) (hc : s.IsPlace c)
    (hP : ∀ {c x d}, s.IsPlace c → R c x d → P x) : ∀ x ∈ xs, P x := by
  obtain ⟨hx, hothers⟩ := h
  refine List.forall_mem_cons.2 ⟨hP hc hx, hothers.forall_mem hR.behindComma (hR hc hx) ?_⟩
  rintro c x d hc ⟨hcomma, hx⟩
  exact hP (hc.of_passes hcomma) hx

end

namespace Source

variable {s : Source} {c d : Cursor}

/-! ## Declarations and statements -/

theorem MeansType.isVariableType {t : TypeRef} (h : s.MeansType c t d) : t.IsVariableType := by
  cases h with
  | int => exact Or.inl rfl
  | boolean => exact Or.inr (Or.inl rfl)
  | named hx => exact Or.inr (Or.inr hx.isName)

theorem MeansDeclaration.wellFormed {declaration : VariableDeclaration} (hc : s.IsPlace c)
    (h : s.MeansDeclaration c declaration d) : declaration.WellFormed := by
  obtain ⟨htype, hbinds, -⟩ := h
  refine ⟨htype.isVariableType, ?_, ?_⟩
  · obtain ⟨-, -⟩ := hbinds
    simp
  · refine hbinds.forall_mem leads_bind (leads_type hc htype) ?_
    rintro c b d - ⟨hx, -⟩
    exact hx.isName

theorem MeansCall.wellFormed {e : Expression} (hc : s.IsPlace c) (h : s.MeansCall c e d) :
    e.WellFormedCall := by
  cases h with
  | call h => exact h.wellFormed hc
  | callout hword hopen hstring harguments _ =>
      refine ⟨isStringBody_of_isWhole hstring.isWhole, ?_⟩
      have ho := ((hc.of_reads hword).of_passes hopen).of_reads hstring
      refine harguments.forall_mem leads_expression.behindComma ho ?_
      rintro c e d hc ⟨hcomma, he⟩
      exact Means.wellFormed he (hc.of_passes hcomma)

end Source

/-- What stands in a method, as a text can say it. -/
def Clause.WellFormed : Clause → Prop
  | .block b => b.WellFormed
  | .statement st => st.WellFormed
  | .statements sts => Statement.AllWellFormed sts

namespace Source

variable {s : Source} {c d : Cursor}

theorem MeansCondition.wellFormed {k : Keyword} {e : Expression} (hc : s.IsPlace c)
    (h : s.MeansCondition k c e d) : e.WellFormed := by
  obtain ⟨hword, hopen, he, -⟩ := h
  exact he.wellFormed ((hc.of_reads hword).of_passes hopen)

theorem Says.wellFormed {clause : Clause} (h : s.Says c clause d) (hc : s.IsPlace c) :
    clause.WellFormed := by
  induction h with
  | block hopen hdeclarations _ _ ih =>
      have hm := hc.of_passes hopen
      exact ⟨hdeclarations.forall_mem leads_declaration hm MeansDeclaration.wellFormed,
        ih (hdeclarations.isPlace leads_declaration hm)⟩
  | done => trivial
  | next h _ ih ihs => exact ⟨ih hc, ihs (h.isPlace hc)⟩
  | assignment hl hsign he _ =>
      have hm := ((gives_location_iff hc).2 hl).isPlace hc
      exact ⟨hl.wellFormed hc, he.wellFormed (hm.of_passes hsign)⟩
  | call he _ => exact he.wellFormed hc
  | returnNothing => intro e he; simp at he
  | returnValue hword he _ =>
      intro e hmem
      obtain rfl := Option.mem_some.1 hmem
      exact he.wellFormed (hc.of_reads hword)
  | ifThen hword hopen he hclose _ ih =>
      have hcondition := MeansCondition.condition hword hopen he hclose
      exact ⟨hcondition.wellFormed hc, ih (hcondition.isPlace hc), trivial⟩
  | ifElse hword hopen he hclose h helse _ ih ih' =>
      have hcondition := MeansCondition.condition hword hopen he hclose
      have hp := hcondition.isPlace hc
      exact ⟨hcondition.wellFormed hc, ih hp, ih' ((h.isPlace hp).of_reads helse)⟩
  | whileLoop hword hopen he hclose _ ih =>
      have hcondition := MeansCondition.condition hword hopen he hclose
      exact ⟨hcondition.wellFormed hc, ih (hcondition.isPlace hc)⟩

/-! ## Programs -/

theorem MeansMethod.wellFormed {m : MethodDecl} (hc : s.IsPlace c) (h : s.MeansMethod c m d) :
    m.WellFormed := by
  obtain ⟨htype, hx, hopen, hparameters, hclose, hbody⟩ := h
  have ho := ((((gives_returnType_iff hc).2 htype).isPlace hc).of_reads hx).of_passes hopen
  have hq := (leads_parameters ho hparameters).of_passes hclose
  refine ⟨?_, hx.isName, ?_, hbody.wellFormed hq⟩
  · cases htype with
    | void => exact Or.inl rfl
    | type h => exact Or.inr h.isVariableType
  · cases hparameters with
    | none => simp
    | some h =>
        refine h.forall_mem leads_parameter ho ?_
        rintro c p d - ⟨htype, hx, -⟩
        exact ⟨htype.isVariableType, hx.isName⟩

theorem MeansClass.wellFormed {declaration : ClassDecl} (hc : s.IsPlace c)
    (h : s.MeansClass c declaration d) : declaration.WellFormed := by
  obtain ⟨hword, hx, hsuper, hopen, hfields, hmethods, -⟩ := h
  have hp := (hsuper.isPlace ((hc.of_reads hword).of_reads hx)).of_passes hopen
  refine ⟨hx.isName, ?_, hfields.forall_mem leads_declaration hp MeansDeclaration.wellFormed,
    hmethods.forall_mem leads_method (hfields.isPlace leads_declaration hp)
      MeansMethod.wellFormed⟩
  cases hsuper with
  | none => simp
  | some _ hy =>
      intro y hmem
      obtain rfl := Option.mem_some.1 hmem
      exact hy.isName

theorem MeansProgram.wellFormed {p : Program} (h : s.MeansProgram p) : p.WellFormed := by
  obtain ⟨hclasses, -⟩ := h
  exact ⟨by simp, hclasses.forall_mem leads_class s.isPlace_firstPlace MeansClass.wellFormed⟩

end Source

end DecafFrontEnd
