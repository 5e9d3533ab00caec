/-
  DecafFrontEnd/Proofs/Printing/Program.lean --- a printed program means itself.

  Calls, declarations, statements, methods and classes stand where their words do, in the
  manner of expressions.
-/
import DecafFrontEnd.Proofs.Printing.Expression

set_option autoImplicit false

namespace DecafFrontEnd

/-! ## Calls -/

theorem Source.Means.arguments_of_listed {s : Source} {c d : Cursor} {es : List Expression}
    (h : Listed s.MeansExpression c es d) : s.Means c (.arguments es) d := by
  cases h with
  | @listed _ m e es he hothers =>
      induction hothers generalizing c e with
      | nil m => exact .argument he
      | cons hx _ ih =>
          obtain ⟨hcomma, hx⟩ := hx
          exact .arguments he hcomma (ih hx)

namespace Tells

variable {p : Position}

theorem call {l : Location} {es : List Expression} (hl : l.WellFormed)
    (hes : ∀ e ∈ es, e.WellFormed) :
    Tells Source.MeansCall Expression.unplaced (Expression.call p l es).words (.call p l es) := by
  have hmethod := l.tells hl
  rw [Expression.words, Expression.wordsOfEach_eq]
  cases es with
  | nil =>
      refine ⟨List.forall_mem_append.2 ⟨hmethod.isWord, isWord_bracketed (by simp [wordsOfList])⟩,
        fun hc hws => ?_⟩
      obtain ⟨m, hm, hws⟩ := hws.split
      rw [← List.append_nil (bracketedWords _)] at hws
      obtain ⟨n, o, q, hopen, hnone, hclose, hnil⟩ := hws.bracketed
      obtain rfl := hnone.eq_of_nil
      obtain rfl := hnil.eq_of_nil
      obtain ⟨l', hl', hbare⟩ := hmethod.stands hc hm
      refine ⟨_, .call (.bareCall hl' hopen hclose), ?_⟩
      rw [Expression.unplaced_call, Expression.unplaced_call, hbare]
  | cons e es =>
      have harguments := Tells.listed (List.cons_ne_nil e es) fun e he => e.tells (hes e he)
      refine ⟨List.forall_mem_append.2 ⟨hmethod.isWord, isWord_bracketed harguments.isWord⟩,
        fun hc hws => ?_⟩
      obtain ⟨m, hm, hws⟩ := hws.split
      rw [← List.append_nil (bracketedWords _)] at hws
      obtain ⟨n, o, q, ⟨_, hopen⟩, hlist, hclose, hnil⟩ := hws.bracketed
      obtain rfl := hnil.eq_of_nil
      obtain ⟨l', hl', hbare⟩ := hmethod.stands hc hm
      obtain ⟨es', hes', hbares⟩ := harguments.stands (hopen.rested (hm.rested hc)) hlist
      refine ⟨_, .call (.call hl' ⟨_, hopen⟩ (Source.Means.arguments_of_listed hes') hclose), ?_⟩
      rw [Expression.unplaced_call, Expression.unplaced_call, hbare, hbares]

theorem callout {x : String} {es : List Expression} (hx : IsStringBody x)
    (hes : ∀ e ∈ es, e.WellFormed) :
    Tells Source.MeansCall Expression.unplaced (Expression.callout p x es).words
      (.callout p x es) := by
  have harguments := Tells.behindCommas fun e he => Expression.tells e (hes e he)
  have htext := String.toList_ofList (l := '"' :: (x.toList ++ ['"']))
  have hwhole : (⟨.stringLit, '"' :: (x.toList ++ ['"'])⟩ : Lexeme).IsWhole :=
    hx.isWhole
  rw [← htext] at hwhole
  rw [Expression.words, Expression.wordsOfEach_eq, List.cons_append]
  refine ⟨List.forall_mem_cons.2 ⟨isWord_of_spelling (t := .keyword .calloutKw) (by decide),
    isWord_bracketed (List.forall_mem_cons.2 ⟨isWord_of_isWhole hwhole, harguments.isWord⟩)⟩,
    fun hc hws => ?_⟩
  obtain ⟨m, hword, hws⟩ := hws.reads (Keyword.isWhole .calloutKw)
  rw [← List.append_nil (bracketedWords _)] at hws
  obtain ⟨n, o, q, ⟨_, hopen⟩, hlist, hclose, hnil⟩ := hws.bracketed
  obtain rfl := hnil.eq_of_nil
  obtain ⟨r, hstring, hlist⟩ := hlist.reads hwhole
  have hr := hstring.rested (hopen.rested (hword.rested hc))
  obtain ⟨es', hes', hbares⟩ := harguments.stands hr hlist
  rw [htext] at hstring
  refine ⟨_, .callout hword ⟨_, hopen⟩ hstring hes' hclose, ?_⟩
  rw [Expression.unplaced_callout, Expression.unplaced_callout, hbares, String.ofList_toList]

end Tells

/-- A well-formed call stands where its words do. -/
theorem Expression.tells_call (e : Expression) (h : e.WellFormedCall) :
    Tells Source.MeansCall Expression.unplaced e.words e := by
  cases e with
  | call p l es => exact Tells.call h.1 h.2
  | callout p x es => exact Tells.callout h.1 h.2
  | _ => exact h.elim

/-! ## Declarations -/

theorem TypeRef.tells {t : TypeRef} (h : t.IsVariableType) :
    Tells Source.MeansType (TypeRef.relocate fun _ => default) [t.name] t := by
  obtain ⟨p, name⟩ := t
  rcases h with h | h | h
  · obtain rfl : name = "int" := h
    exact .one (Keyword.isWhole .intKw) fun hreads => ⟨_, .int hreads, rfl⟩
  · obtain rfl : name = "boolean" := h
    exact .one (Keyword.isWhole .booleanKw) fun hreads => ⟨_, .boolean hreads, rfl⟩
  · refine .one h fun hreads => ⟨_, .named hreads, ?_⟩
    rw [String.ofList_toList]
    rfl

theorem VarBind.tells {b : VarBind} (h : IsName b.name) :
    Tells Source.MeansBind (VarBind.relocate fun _ => default) b.words b := by
  refine ⟨List.forall_mem_cons.2 ⟨isWord_of_isWhole h, isWord_arrayWords _⟩, fun _ hws => ?_⟩
  obtain ⟨m, hreads, hmark⟩ := hws.reads h
  refine ⟨_, .bind hreads hmark.marked, ?_⟩
  rw [String.ofList_toList]
  rfl

theorem VariableDeclaration.tells {declaration : VariableDeclaration}
    (h : declaration.WellFormed) :
    Tells Source.MeansDeclaration (VariableDeclaration.relocate fun _ => default)
      declaration.words declaration := by
  obtain ⟨p, t, bs⟩ := declaration
  have htype := TypeRef.tells h.type
  have hbinds := Tells.listed h.nonempty fun b hb => VarBind.tells (h.names b hb)
  refine ⟨?_, fun hc hws => ?_⟩
  · exact List.forall_mem_cons.2 ⟨htype.isWord _ (by simp), List.forall_mem_append.2
      ⟨hbinds.isWord, isWord_of_mem_mark (t := .semi) (by decide)⟩⟩
  · obtain ⟨m, hm, hws⟩ := Cursor.Worded.split_cons hws
    obtain ⟨n, hn, hws⟩ := hws.split
    obtain ⟨o, hend, hnil⟩ := hws.passes (t := .semi) (by decide)
    obtain rfl := hnil.eq_of_nil
    obtain ⟨t', ht', hbare⟩ := htype.stands hc hm
    obtain ⟨bs', hbs', hbares⟩ := hbinds.stands (hm.rested hc) hn
    refine ⟨_, .declaration ht' hbs' hend, ?_⟩
    simp only [VariableDeclaration.relocate, hbare, hbares]

/-! ## Statements -/

namespace Tells

variable {p : Position}

theorem block {ds : List VariableDeclaration} {sts : List Statement} {ws : List String}
    (hds : ∀ d ∈ ds, d.WellFormed)
    (hsts : Tells (fun s c sts d => s.Says c (.statements sts) d)
      (Statement.relocateAll fun _ => default) ws sts) :
    Tells (fun s c b d => s.Says c (.block b) d) (Block.relocate fun _ => default)
      ("\x7b" :: ds.flatMap VariableDeclaration.words ++ ws ++ ["\x7d"]) ⟨p, ds, sts⟩ := by
  have hseries := Tells.series fun d hd => VariableDeclaration.tells (hds d hd)
  refine ⟨?_, fun hc hws => ?_⟩
  · rw [List.append_assoc, List.cons_append]
    exact List.forall_mem_cons.2 ⟨isWord_of_spelling (t := .lbrace) (by decide),
      List.forall_mem_append.2 ⟨hseries.isWord, List.forall_mem_append.2 ⟨hsts.isWord,
        isWord_of_mem_mark (t := .rbrace) (by decide)⟩⟩⟩
  · rw [List.append_assoc, List.cons_append] at hws
    obtain ⟨m, ⟨l, hopen⟩, hws⟩ := hws.passes (t := .lbrace) (by decide)
    obtain ⟨n, hn, hws⟩ := hws.split
    obtain ⟨o, ho, hws⟩ := hws.split
    obtain ⟨q, hclose, hnil⟩ := hws.passes (t := .rbrace) (by decide)
    obtain rfl := hnil.eq_of_nil
    have hm := hopen.rested hc
    obtain ⟨ds', hds', hbares⟩ := hseries.stands hm hn
    obtain ⟨sts', hsts', hbares'⟩ := hsts.stands (hn.rested hm) ho
    refine ⟨_, .block ⟨l, hopen⟩ hds' hsts' hclose, ?_⟩
    simp only [Block.relocate, hbares, hbares']

theorem assignment {l : Location} {e : Expression} (hl : l.WellFormed) (he : e.WellFormed) :
    Tells (fun s c st d => s.Says c (.statement st) d) (Statement.relocate fun _ => default)
      (Statement.assignment p l e).words (.assignment p l e) := by
  have hlocation := l.tells hl
  have hvalue := e.tells he
  rw [Statement.words, List.append_assoc, List.cons_append]
  refine ⟨List.forall_mem_append.2 ⟨hlocation.isWord, List.forall_mem_cons.2
    ⟨isWord_of_spelling (t := .assign) (by decide), List.forall_mem_append.2 ⟨hvalue.isWord,
      isWord_of_mem_mark (t := .semi) (by decide)⟩⟩⟩, fun hc hws => ?_⟩
  obtain ⟨m, hm, hws⟩ := hws.split
  obtain ⟨n, ⟨_, hsign⟩, hws⟩ := hws.passes (t := .assign) (by decide)
  obtain ⟨o, ho, hws⟩ := hws.split
  obtain ⟨q, hend, hnil⟩ := hws.passes (t := .semi) (by decide)
  obtain rfl := hnil.eq_of_nil
  obtain ⟨l', hl', hbare⟩ := hlocation.stands hc hm
  obtain ⟨e', he', hbare'⟩ := hvalue.stands (hsign.rested (hm.rested hc)) ho
  have hbare : l'.relocate _ = l.relocate _ := hbare
  have hbare' : e'.relocate _ = e.relocate _ := hbare'
  refine ⟨_, .assignment hl' ⟨_, hsign⟩ he' hend, ?_⟩
  simp only [Statement.relocate, hbare, hbare']

theorem expressionStatement {e : Expression} (h : e.WellFormedCall) :
    Tells (fun s c st d => s.Says c (.statement st) d) (Statement.relocate fun _ => default)
      (Statement.expressionStatement p e).words (.expressionStatement p e) := by
  have hcall := e.tells_call h
  rw [Statement.words]
  refine ⟨List.forall_mem_append.2 ⟨hcall.isWord,
    isWord_of_mem_mark (t := .semi) (by decide)⟩, fun hc hws => ?_⟩
  obtain ⟨m, hm, hws⟩ := hws.split
  obtain ⟨q, hend, hnil⟩ := hws.passes (t := .semi) (by decide)
  obtain rfl := hnil.eq_of_nil
  obtain ⟨e', he', hbare⟩ := hcall.stands hc hm
  have hbare : e'.relocate _ = e.relocate _ := hbare
  refine ⟨_, .call he' hend, ?_⟩
  simp only [Statement.relocate, hbare]

theorem returnStatement {value : Option Expression} (h : ∀ e ∈ value, e.WellFormed) :
    Tells (fun s c st d => s.Says c (.statement st) d) (Statement.relocate fun _ => default)
      (Statement.returnStatement p value).words (.returnStatement p value) := by
  have hreturn := Keyword.isWhole .returnKw
  have hsemi : ";".toList ∈ Terminal.semi.spellings := by decide
  rw [Statement.words, List.cons_append]
  cases value with
  | none =>
      refine ⟨List.forall_mem_cons.2 ⟨isWord_of_isWhole hreturn,
        isWord_of_mem_mark hsemi⟩, fun _ hws => ?_⟩
      obtain ⟨m, hword, hws⟩ := hws.reads hreturn
      obtain ⟨n, hend, hnil⟩ := hws.passes hsemi
      obtain rfl := hnil.eq_of_nil
      exact ⟨_, .returnNothing hword hend, rfl⟩
  | some e =>
      have hvalue := e.tells (h e rfl)
      refine ⟨List.forall_mem_cons.2 ⟨isWord_of_isWhole hreturn, List.forall_mem_append.2
        ⟨hvalue.isWord, isWord_of_mem_mark hsemi⟩⟩, fun hc hws => ?_⟩
      obtain ⟨m, hword, hws⟩ := hws.reads hreturn
      obtain ⟨n, hn, hws⟩ := hws.split
      obtain ⟨o, hend, hnil⟩ := hws.passes hsemi
      obtain rfl := hnil.eq_of_nil
      obtain ⟨e', he', hbare⟩ := hvalue.stands (hword.rested hc) hn
      have hbare : e'.relocate _ = e.relocate _ := hbare
      refine ⟨_, .returnValue hword he' hend, ?_⟩
      simp only [Statement.relocate, Option.map_some, hbare]

end Tells

namespace Tells

variable {p : Position} {e : Expression} {b b' : Block}

/-- A word and a condition between brackets. -/
theorem condition (k : Keyword) (he : e.WellFormed) :
    Tells (fun s => s.MeansCondition k) Expression.unplaced
      (k.spelling :: bracketedWords e.words) e := by
  have hcondition := e.tells he
  refine ⟨List.forall_mem_cons.2 ⟨isWord_of_isWhole k.isWhole, isWord_bracketed hcondition.isWord⟩,
    fun hc hws => ?_⟩
  obtain ⟨m, hword, hws⟩ := hws.reads k.isWhole
  rw [← List.append_nil (bracketedWords e.words)] at hws
  obtain ⟨n, o, q, ⟨_, hopen⟩, he', hclose, hnil⟩ := hws.bracketed
  obtain rfl := hnil.eq_of_nil
  obtain ⟨e', he', hbare⟩ := hcondition.stands (hopen.rested (hword.rested hc)) he'
  exact ⟨e', .condition hword ⟨_, hopen⟩ he' hclose, hbare⟩

theorem whileStatement (he : e.WellFormed)
    (hb : Tells (fun s c b d => s.Says c (.block b) d) (Block.relocate fun _ => default)
      b.words b) :
    Tells (fun s c st d => s.Says c (.statement st) d) (Statement.relocate fun _ => default)
      (Statement.whileStatement p e b).words (.whileStatement p e b) := by
  have hwhile := condition .whileKw he
  refine ⟨List.forall_mem_append.2 ⟨hwhile.isWord, hb.isWord⟩, fun hc hws => ?_⟩
  obtain ⟨m, hm, hws⟩ := hws.split
  obtain ⟨e', ⟨hword, hopen, he', hclose⟩, hbare⟩ := hwhile.stands hc hm
  obtain ⟨b', hb', hbare'⟩ := hb.stands (hm.rested hc) hws
  have hbare : e'.relocate _ = e.relocate _ := hbare
  refine ⟨_, .whileLoop hword hopen he' hclose hb', ?_⟩
  simp only [Statement.relocate, hbare, hbare']

theorem ifThen (he : e.WellFormed)
    (hb : Tells (fun s c b d => s.Says c (.block b) d) (Block.relocate fun _ => default)
      b.words b) :
    Tells (fun s c st d => s.Says c (.statement st) d) (Statement.relocate fun _ => default)
      (Statement.ifStatement p e b none).words (.ifStatement p e b none) := by
  have hif := condition .ifKw he
  rw [Statement.words, List.append_nil]
  refine ⟨List.forall_mem_append.2 ⟨hif.isWord, hb.isWord⟩, fun hc hws => ?_⟩
  obtain ⟨m, hm, hws⟩ := hws.split
  obtain ⟨e', ⟨hword, hopen, he', hclose⟩, hbare⟩ := hif.stands hc hm
  obtain ⟨b', hb', hbare'⟩ := hb.stands (hm.rested hc) hws
  have hbare : e'.relocate _ = e.relocate _ := hbare
  refine ⟨_, .ifThen hword hopen he' hclose hb', ?_⟩
  simp only [Statement.relocate, hbare, hbare']

theorem ifElse (he : e.WellFormed)
    (hb : Tells (fun s c b d => s.Says c (.block b) d) (Block.relocate fun _ => default)
      b.words b)
    (hb' : Tells (fun s c b d => s.Says c (.block b) d) (Block.relocate fun _ => default)
      b'.words b') :
    Tells (fun s c st d => s.Says c (.statement st) d) (Statement.relocate fun _ => default)
      (Statement.ifStatement p e b (some b')).words (.ifStatement p e b (some b')) := by
  have hif := condition .ifKw he
  have helse := Keyword.isWhole .elseKw
  rw [Statement.words, List.append_assoc]
  refine ⟨List.forall_mem_append.2 ⟨hif.isWord, List.forall_mem_append.2 ⟨hb.isWord,
    List.forall_mem_cons.2 ⟨isWord_of_isWhole helse, hb'.isWord⟩⟩⟩, fun hc hws => ?_⟩
  obtain ⟨q, hm, hws⟩ := hws.split
  obtain ⟨e', ⟨hword, hopen, he', hclose⟩, hbare⟩ := hif.stands hc hm
  have hbare : e'.relocate _ = e.relocate _ := hbare
  have hq := hm.rested hc
  obtain ⟨r, hr, hws⟩ := hws.split
  obtain ⟨u, hword', hws⟩ := hws.reads helse
  obtain ⟨true', htrue, hbareTrue⟩ := hb.stands hq hr
  obtain ⟨false', hfalse, hbareFalse⟩ := hb'.stands (hword'.rested (hr.rested hq)) hws
  refine ⟨_, .ifElse hword hopen he' hclose htrue hword' hfalse, ?_⟩
  simp only [Statement.relocate, hbare, hbareTrue, hbareFalse]

end Tells

mutual

/-- A well-formed block stands where its words do. -/
theorem Block.tells : (b : Block) → b.WellFormed →
    Tells (fun s c b d => s.Says c (.block b) d) (Block.relocate fun _ => default) b.words b
  | ⟨_, _, sts⟩, h => Tells.block h.1 (Statement.tells_all sts h.2)

/-- A well-formed statement stands where its words do. -/
theorem Statement.tells : (st : Statement) → st.WellFormed →
    Tells (fun s c st d => s.Says c (.statement st) d) (Statement.relocate fun _ => default)
      st.words st
  | .assignment .., h => Tells.assignment h.1 h.2
  | .expressionStatement .., h => Tells.expressionStatement h
  | .ifStatement _ _ b none, h => Tells.ifThen h.1 (b.tells h.2.1)
  | .ifStatement _ _ b (some b'), h => Tells.ifElse h.1 (b.tells h.2.1) (b'.tells h.2.2)
  | .whileStatement _ _ b, h => Tells.whileStatement h.1 (b.tells h.2)
  | .returnStatement .., h => Tells.returnStatement h

/-- Well-formed statements stand where their words do. -/
theorem Statement.tells_all : (sts : List Statement) → Statement.AllWellFormed sts →
    Tells (fun s c sts d => s.Says c (.statements sts) d)
      (Statement.relocateAll fun _ => default) (Statement.wordsOfAll sts) sts
  | [], _ => by
      refine ⟨by simp [Statement.wordsOfAll], fun _ hws => ⟨[], ?_, rfl⟩⟩
      obtain rfl := hws.eq_of_nil
      exact .done _
  | st :: sts, h => by
      have hst := st.tells h.1
      have hsts := Statement.tells_all sts h.2
      refine ⟨List.forall_mem_append.2 ⟨hst.isWord, hsts.isWord⟩, fun hc hws => ?_⟩
      obtain ⟨m, hm, hws⟩ := hws.split
      obtain ⟨st', hst', hbare⟩ := hst.stands hc hm
      obtain ⟨sts', hsts', hbares⟩ := hsts.stands (hm.rested hc) hws
      exact ⟨st' :: sts', .next hst' hsts', by
        rw [Statement.relocateAll, Statement.relocateAll, hbare, hbares]⟩

end

/-! ## Programs -/

theorem Parameter.tells {q : Parameter} (h : q.WellFormed) :
    Tells Source.MeansParameter (Parameter.relocate fun _ => default) q.words q := by
  obtain ⟨p, t, x, isArray⟩ := q
  have htype := TypeRef.tells h.type
  refine ⟨List.forall_mem_cons.2 ⟨htype.isWord _ (by simp), List.forall_mem_cons.2
    ⟨isWord_of_isWhole h.name, isWord_arrayWords _⟩⟩, fun hc hws => ?_⟩
  obtain ⟨m, hm, hws⟩ := Cursor.Worded.split_cons hws
  obtain ⟨n, hname, hmark⟩ := hws.reads h.name
  obtain ⟨t', ht', hbare⟩ := htype.stands hc hm
  refine ⟨_, .parameter ht' hname hmark.marked, ?_⟩
  rw [String.ofList_toList]
  simp only [Parameter.relocate, hbare]

theorem tells_parameters {qs : List Parameter} (h : ∀ q ∈ qs, q.WellFormed) :
    Tells Source.MeansParameters (List.map (Parameter.relocate fun _ => default))
      (wordsOfList (qs.map Parameter.words)) qs := by
  cases qs with
  | nil =>
      refine ⟨by simp [wordsOfList], fun _ hws => ⟨[], ?_, rfl⟩⟩
      obtain rfl := hws.eq_of_nil
      exact .none _
  | cons q qs =>
      have hlisted := Tells.listed (List.cons_ne_nil q qs) fun q hq => Parameter.tells (h q hq)
      refine ⟨hlisted.isWord, fun hc hws => ?_⟩
      obtain ⟨qs', hqs', hbares⟩ := hlisted.stands hc hws
      exact ⟨qs', .some hqs', hbares⟩

theorem TypeRef.tells_return {t : TypeRef} (h : t.IsReturnType) :
    Tells Source.MeansReturnType (TypeRef.relocate fun _ => default) [t.name] t := by
  rcases h with hvoid | h
  · obtain ⟨p, name⟩ := t
    obtain rfl : name = "void" := hvoid
    exact .one (Keyword.isWhole .voidKw) fun hreads => ⟨_, .void hreads, rfl⟩
  · have htype := TypeRef.tells h
    refine ⟨htype.isWord, fun hc hws => ?_⟩
    obtain ⟨t', ht', hbare⟩ := htype.stands hc hws
    exact ⟨t', .type ht', hbare⟩

theorem MethodDecl.tells {m : MethodDecl} (h : m.WellFormed) :
    Tells Source.MeansMethod (MethodDecl.relocate fun _ => default) m.words m := by
  obtain ⟨p, t, x, qs, b⟩ := m
  have htype := TypeRef.tells_return h.type
  have hparameters := tells_parameters h.parameters
  have hbody := b.tells h.body
  refine ⟨List.forall_mem_cons.2 ⟨htype.isWord _ (by simp), List.forall_mem_cons.2
    ⟨isWord_of_isWhole h.name, List.forall_mem_append.2
      ⟨isWord_bracketed hparameters.isWord, hbody.isWord⟩⟩⟩, fun hc hws => ?_⟩
  obtain ⟨n, hn, hws⟩ := Cursor.Worded.split_cons hws
  obtain ⟨o, hname, hws⟩ := hws.reads h.name
  obtain ⟨q, r, u, ⟨_, hopen⟩, hlist, ⟨_, hclose⟩, hws⟩ := hws.bracketed
  have hq := hopen.rested (hname.rested (hn.rested hc))
  obtain ⟨t', ht', hbare⟩ := htype.stands hc hn
  obtain ⟨qs', hqs', hbares⟩ := hparameters.stands hq hlist
  obtain ⟨b', hb', hbare'⟩ := hbody.stands (hclose.rested (hlist.rested hq)) hws
  refine ⟨_, .method ht' hname ⟨_, hopen⟩ hqs' ⟨_, hclose⟩ hb', ?_⟩
  rw [String.ofList_toList]
  simp only [MethodDecl.relocate, hbare, hbares, hbare']

theorem isWord_superclassWords {superclass : Option String} (h : ∀ x ∈ superclass, IsName x) :
    ∀ w ∈ superclassWords superclass, IsWord w := by
  cases superclass with
  | none => simp [superclassWords]
  | some x =>
      rw [superclassWords, List.forall_mem_cons, List.forall_mem_singleton]
      exact ⟨isWord_of_spelling (t := .keyword .extendsKw) (by decide), isWord_of_isWhole (h x rfl)⟩

theorem Cursor.Worded.superclass {c d : Cursor} {superclass : Option String}
    (h : c.Worded (superclassWords superclass) d) (hx : ∀ x ∈ superclass, IsName x) :
    Source.MeansSuperclass c superclass d := by
  cases superclass with
  | none =>
      obtain rfl := h.eq_of_nil
      exact .none _
  | some x =>
      obtain ⟨m, hword, h⟩ := h.reads (Keyword.isWhole .extendsKw)
      obtain ⟨n, hname, hnil⟩ := h.reads (hx x rfl)
      obtain rfl := hnil.eq_of_nil
      rw [← String.ofList_toList (s := x)]
      exact .some hword hname

theorem ClassDecl.tells {k : ClassDecl} (h : k.WellFormed) :
    Tells Source.MeansClass (ClassDecl.relocate fun _ => default) k.words k := by
  have hclass := Keyword.isWhole .classKw
  have hfields := Tells.series fun d hd => VariableDeclaration.tells (h.fields d hd)
  have hmethods := Tells.series fun m hm => MethodDecl.tells (h.methods m hm)
  rw [ClassDecl.words]
  simp only [List.append_assoc, List.cons_append]
  refine ⟨List.forall_mem_cons.2 ⟨isWord_of_isWhole hclass, List.forall_mem_cons.2
    ⟨isWord_of_isWhole h.name, List.forall_mem_append.2 ⟨isWord_superclassWords h.superclass,
      List.forall_mem_cons.2
      ⟨isWord_of_spelling (t := .lbrace) (by decide), List.forall_mem_append.2 ⟨hfields.isWord,
        List.forall_mem_append.2 ⟨hmethods.isWord,
          isWord_of_mem_mark (t := .rbrace) (by decide)⟩⟩⟩⟩⟩⟩,
    fun hc hws => ?_⟩
  obtain ⟨m, hword, hws⟩ := hws.reads hclass
  obtain ⟨n, hname, hws⟩ := hws.reads h.name
  obtain ⟨o, ho, hws⟩ := hws.split
  obtain ⟨q, ⟨_, hopen⟩, hws⟩ := hws.passes (t := .lbrace) (by decide)
  obtain ⟨r, hr, hws⟩ := hws.split
  obtain ⟨u, hu, hws⟩ := hws.split
  obtain ⟨v, hclose, hnil⟩ := hws.passes (t := .rbrace) (by decide)
  obtain rfl := hnil.eq_of_nil
  have hn := hname.rested (hword.rested hc)
  have hq := hopen.rested (ho.rested hn)
  obtain ⟨fields, hfields', hbares⟩ := hfields.stands hq hr
  obtain ⟨methods, hmethods', hbares'⟩ := hmethods.stands (hr.rested hq) hu
  refine ⟨_, .classDecl hword hname (ho.superclass h.superclass) ⟨_, hopen⟩ hfields' hmethods'
    hclose, ?_⟩
  rw [String.ofList_toList]
  simp only [ClassDecl.relocate, hbares, hbares']

theorem Program.WellFormed.spread_printed {p : Program} (h : p.WellFormed) :
    Spread p.words p.printed.toList := by
  refine Spread.intercalate ?_
  cases hclasses : p.classes with
  | nil => exact absurd hclasses h.nonempty
  | cons k ks => simp [Program.words, hclasses, ClassDecl.words]

/-- A text with the words of a well-formed program means the program, up to positions. -/
theorem Program.WellFormed.means_of_words {p : Program} (h : p.WellFormed) {s : Source}
    (htext : Spread p.words s.chars) : ∃ p', s.MeansProgram p' ∧ p'.unplaced = p.unplaced := by
  have htells := Tells.series fun k hk => ClassDecl.tells (h.classes k hk)
  have hplace : s.firstPlace.rest = s.chars := by
    have happend := leadingTrivia_append_skipTrivia s.chars
    rw [htext.leadingTrivia_eq htells.isWord] at happend
    exact happend
  obtain ⟨d, hws, hend⟩ := htext.worded htells.isWord hplace
  obtain ⟨ks, hks, hbares⟩ := htells.stands s.rested_firstPlace hws
  cases ks with
  | nil => exact absurd (List.map_eq_nil_iff.1 hbares.symm) h.nonempty
  | cons k ks =>
      refine ⟨_, .program hks hend, ?_⟩
      simp only [Program.unplaced, Program.relocate, hbares]

/-! ## A program to try -/

/-- A name can be kept. -/
theorem IsName.isKeptText {x : String} (h : IsName x) : IsKeptText x := by
  have hfront := (isWord_of_isWhole h).front
  have hfirst : Lexeme.first? (Cursor.start x.toList).rest = some ⟨.ident, x.toList⟩ := h
  rw [← String.ofList_toList (s := x)]
  exact isKeptText_iff.2 ⟨hfront, _, .keptLocation (.name (.one hfirst)), .last hfirst rfl⟩

/-- A class with a field and a method that counts it down. -/
def Program.countdown : Program :=
  ⟨default, [⟨default, "Timer", none,
    [⟨default, ⟨default, "int"⟩, [⟨default, "n", false⟩]⟩],
    [⟨default, ⟨default, "void"⟩, "tick", [],
      ⟨default, [], [.assignment default ⟨default, "n", none, none⟩
        (.binary default (.simple default "n") "-" (.integer default 1))]⟩⟩]⟩]⟩

theorem Program.wellFormed_countdown : Program.countdown.WellFormed := by
  have hn : IsName "n" := by decide
  refine ⟨by simp [countdown], ?_⟩
  simp only [countdown, List.forall_mem_singleton]
  refine ⟨by decide, by simp, ?_, ?_⟩
  · rw [List.forall_mem_singleton]
    exact ⟨Or.inl rfl, by simp, by rwa [List.forall_mem_singleton]⟩
  · rw [List.forall_mem_singleton]
    refine ⟨Or.inl rfl, by decide, by simp, by simp,
      ⟨⟨hn, by simp, Or.inl rfl, trivial⟩, ?_⟩, trivial⟩
    exact ⟨hn.isKeptText, ⟨.minus, rfl⟩, by simp [Expression.WellFormed, maxInteger]⟩

theorem Program.exists_compile_countdown :
    ∃ p, (Source.ofText Program.countdown.printed none).compile = .ok p := by
  obtain ⟨p, hmeans, -⟩ := wellFormed_countdown.means_of_words
    (s := Source.ofText Program.countdown.printed none) wellFormed_countdown.spread_printed
  exact ⟨p, Source.compile_eq_ok_iff.2 hmeans⟩

end DecafFrontEnd
