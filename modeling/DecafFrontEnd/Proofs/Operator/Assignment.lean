/-
  DecafFrontEnd/Proofs/Operator/Assignment.lean --- a program that assigns an expression.

  The smallest program that holds an expression has one class with one method, whose
  body assigns the expression to a name.  Where the expression is written with operators,
  names and literals, the program compiles, and the expression is what is assigned
  (`Expression.IsOperation.compile_written`).
-/
import DecafFrontEnd.Compile
import DecafFrontEnd.Proofs.Compilation.Malformed
import DecafFrontEnd.Proofs.Operator.Precedence

set_option autoImplicit false

namespace DecafFrontEnd

open Pattern

/-! ## The program, its lexemes and its text -/

/-- A program of one class with one method that assigns an expression to a name. -/
def Program.assigning (cls method x : String) (e : Expression) : Program :=
  let place : Location := ⟨default, x, none, none⟩
  let body : Block := ⟨default, [], [.assignment default place e]⟩
  ⟨default, [⟨default, cls, none, [], [⟨default, ⟨default, "void"⟩, method, [], body⟩]⟩]⟩

/-- The text of the program, around the text of the expression. -/
def assigningText (cls method x text : String) : String :=
  "class " ++ cls ++ " \x7b void " ++ method ++ "() \x7b " ++ x ++ " = " ++ text ++ "; \x7d \x7d"

namespace Lexeme

/-- A name. -/
def name (text : String) : Lexeme := ⟨.ident, text.toList⟩

/-- The lexemes of the program in front of the expression. -/
def assigningFront (cls method x : String) : List Lexeme :=
  [word .classKw, name cls, ⟨.lbrace, ['\x7b']⟩, word .voidKw, name method, ⟨.lparen, ['(']⟩,
    ⟨.rparen, [')']⟩, ⟨.lbrace, ['\x7b']⟩, name x, ⟨.assign, ['=']⟩]

/-- The lexemes of the program behind the expression. -/
def assigningBack : List Lexeme :=
  [⟨.semi, [';']⟩, ⟨.rbrace, ['\x7d']⟩, ⟨.rbrace, ['\x7d']⟩]

end Lexeme

/-! ## Its layout -/

namespace LaidOut

variable {l : Lexeme} {ls : List Lexeme} {rest : List Char}

/-- A lexeme with one blank behind it. -/
theorem spaced (hl : l.IsWhole) (h : LaidOut ls rest) :
    LaidOut (l :: ls) (l.text ++ (' ' :: rest)) := by
  have hlaid : LaidOut (l :: ls) (l.text ++ ([' '] ++ rest)) :=
    .cons hl (by simp [isBlank]) (by rintro c ⟨⟩; rfl) h
  exact hlaid

/-- A lexeme in front of a separator. -/
theorem tight (hl : l.IsWhole) (hrest : ∀ c, rest.head? = some c → isSeparator c = true)
    (h : LaidOut ls rest) : LaidOut (l :: ls) (l.text ++ rest) := by
  have hlaid : LaidOut (l :: ls) (l.text ++ ([] ++ rest)) := .cons hl (by simp) hrest h
  exact hlaid

end LaidOut

theorem laidOut_assigningText {cls method x text : String} {ls : List Lexeme}
    (hcls : (Lexeme.name cls).IsWhole) (hmethod : (Lexeme.name method).IsWhole)
    (hx : (Lexeme.name x).IsWhole) (hls : ∀ l ∈ ls, l.IsWhole) (htext : Spaced ls text.toList) :
    LaidOut (Lexeme.assigningFront cls method x ++ (ls ++ Lexeme.assigningBack))
      (assigningText cls method x text).toList := by
  have hback : LaidOut Lexeme.assigningBack "; \x7d \x7d".toList :=
    .spaced (by decide) (.spaced (by decide) (.tight (by decide) (by simp) .nil))
  have hexpr := htext.laidOut hls hback (by rintro c ⟨⟩; rfl)
  have hbody := LaidOut.spaced hx (.spaced (l := ⟨.assign, ['=']⟩) (by decide) hexpr)
  have hbrace := LaidOut.spaced (l := ⟨.lbrace, ['\x7b']⟩) (by decide) hbody
  have hcall := LaidOut.tight hmethod (by rintro c ⟨⟩; rfl)
    (.tight (l := ⟨.lparen, ['(']⟩) (by decide) (by rintro c ⟨⟩; rfl)
      (.spaced (l := ⟨.rparen, [')']⟩) (by decide) hbrace))
  have hclass := LaidOut.spaced (Lexeme.isWhole_word .classKw) (.spaced hcls
    (.spaced (l := ⟨.lbrace, ['\x7b']⟩) (by decide) (.spaced (Lexeme.isWhole_word .voidKw) hcall)))
  unfold assigningText
  repeat rw [String.toList_append]
  repeat rw [List.append_assoc]
  exact hclass

/-! ## Its derivation -/

namespace Skeleton

/-- The node of a lexeme. -/
def leaf (l : Lexeme) : Skeleton := .node (.terminal l.terminal) l.text []

/-- The node of a phrase. -/
def phrase (p : Phrase) (sks : List Skeleton) : Skeleton := .node (.phrase p) [] sks

/-- A statement that assigns an expression to a name. -/
def assigning (x : String) (sk : Skeleton) : Skeleton :=
  phrase .statement [phrase .assignStmt [phrase .location [leaf (.name x)], sk]]

/-- A block of one statement. -/
def block (sk : Skeleton) : Skeleton := phrase .block [sk]

/-- A method without parameters. -/
def method (name : String) (sk : Skeleton) : Skeleton :=
  phrase .methodDecl [phrase .returnType [leaf (.word .voidKw)], leaf (.name name), sk]

/-- A class of one method. -/
def classOf (name : String) (sk : Skeleton) : Skeleton :=
  phrase .classDecl [leaf (.word .classKw), leaf (.name name), sk]

/-- A program of one class. -/
def program (sk : Skeleton) : Skeleton := phrase .program [sk, .node .endOfInput [] []]

end Skeleton

/-- The program is derived from its lexemes. -/
theorem derives_assigning {cls method x : String} {ls : List Lexeme} {sk : Skeleton}
    (h : Derives (phrase .expr) ls [sk]) :
    Derives (phrase .program) (Lexeme.assigningFront cls method x ++ (ls ++ Lexeme.assigningBack))
      [.program (.classOf cls (.method method (.block (.assigning x sk))))] := by
  have hplace : Derives Phrase.location.body ([Lexeme.name x] ++ []) ([.leaf (.name x)] ++ []) :=
    .seq (.word (.name x)) .none
  have hassign : Derives Phrase.assignStmt.body _ _ :=
    .seq (.phrase hplace) (.seq (.lexeme ⟨.assign, ['=']⟩) (.seq h (.lexeme ⟨.semi, [';']⟩)))
  have hstatement : Derives Phrase.statement.body _ _ := .left (.phrase hassign)
  have hblock : Derives Phrase.block.body _ _ :=
    .seq (.lexeme ⟨.lbrace, ['\x7b']⟩) (.seq .none
      (.seq (.more (.phrase hstatement) .none) (.lexeme ⟨.rbrace, ['\x7d']⟩)))
  have hresult : Derives Phrase.returnType.body _ _ := .left (.word (.word .voidKw))
  have hmethod : Derives Phrase.methodDecl.body _ _ :=
    .seq (.phrase hresult) (.seq (.word (.name method)) (.seq (.lexeme ⟨.lparen, ['(']⟩)
      (.seq .absent (.seq (.lexeme ⟨.rparen, [')']⟩) (.phrase hblock)))))
  have hclass : Derives Phrase.classDecl.body _ _ :=
    .seq (.word (.word .classKw)) (.seq (.word (.name cls)) (.seq .absent
      (.seq (.lexeme ⟨.lbrace, ['\x7b']⟩) (.seq .none
        (.seq (.more (.phrase hmethod) .none) (.lexeme ⟨.rbrace, ['\x7d']⟩))))))
  have hend : Derives (rule .endOfInput) [] [.node .endOfInput [] []] := .rule .inputEnd
  have hprogram : Derives Phrase.program.body _ _ :=
    .seq .inputStart (.seq (.seq (.phrase hclass) .none) hend)
  have hphrase := Derives.phrase hprogram
  simp only [Lexeme.assigningFront, Lexeme.assigningBack, List.cons_append, List.nil_append,
    List.append_assoc, List.append_nil] at hphrase ⊢
  exact hphrase

/-! ## Its lowering -/

section Lowering

variable {s : Source} {t : Tree} {sks : List Skeleton} {e : Expression}

/-- Every position replaced by one. -/
abbrev nowhere : Position → Position := fun _ => default

theorem rule_of_skeleton {p : Phrase} (ht : t.skeleton = .phrase p sks) : t.rule = .phrase p := by
  obtain ⟨start, text, children, rfl, -, -⟩ := Tree.skeleton_eq_node ht
  rfl

theorem word_of_skeleton {l : Lexeme} (ht : t.skeleton = .leaf l) :
    t.rule = .terminal l.terminal ∧ t.string = String.ofList l.text := by
  obtain ⟨start, rfl⟩ := Tree.skeleton_eq_word ht
  exact ⟨rfl, rfl⟩

theorem name_of_skeleton {x : String} (ht : t.skeleton = .leaf (.name x)) :
    t.rule = .terminal .ident ∧ t.string = x := by
  obtain ⟨hrule, hstring⟩ := word_of_skeleton ht
  rw [Lexeme.name, String.ofList_toList] at hstring
  exact ⟨hrule, hstring⟩

theorem lowers_name {x : String} (ht : t.skeleton = .phrase .location [.leaf (.name x)]) :
    s.lowerLocation t = .ok ⟨s.positionAt t.start, x, none, none⟩ := by
  obtain ⟨start, text, root, rfl, hroot⟩ := Tree.skeleton_eq_wrapping ht
  obtain ⟨start', rfl⟩ := Tree.skeleton_eq_word hroot
  have hlocation := s.lowerLocation_name start start' text x.toList
  rwa [String.ofList_toList] at hlocation

theorem lowersTo_assigning {x : String} (hsk : (Skeleton.phrase .expr sks).Denotes e) :
    (Skeleton.assigning x (.phrase .expr sks)).LowersTo s s.lowerStatement (·.relocate nowhere)
      (.assignment default ⟨default, x, none, none⟩ e.unplaced) := by
  intro t ht hplaced
  obtain ⟨start, text, assign, rfl, hassign⟩ := Tree.skeleton_eq_wrapping ht
  have hplaced' := hplaced.child
  obtain ⟨start', text', inner, rfl, -, hinner⟩ := Tree.skeleton_eq_node hassign
  obtain ⟨place, _, rfl, hplace, hvalue⟩ := Tree.skeletons_eq_cons hinner
  obtain ⟨value, rfl, hvalue'⟩ := Tree.skeletons_eq_singleton hvalue
  obtain ⟨e', he', hunplaced⟩ :=
    hsk s value hvalue' (hplaced'.children value (by simp [Tree.children]))
  refine ⟨.assignment (s.positionAt start') ⟨s.positionAt place.start, x, none, none⟩ e', ?_, ?_⟩
  · rw [Source.lowerStatement, Source.expectRule_node, ok_bind]
    simp only [Source.lowerAssignment, Source.takeChild_eq (rule_of_skeleton hplace),
      lowers_name hplace, Source.takeChild_eq (rule_of_skeleton hvalue'), he', ok_bind, pure_eq_ok]
  · simp only [Statement.relocate, Location.relocate, nowhere, ← hunplaced]
    rfl

theorem lowersTo_block {v : Statement}
    (hsk : (Skeleton.phrase .statement sks).LowersTo s s.lowerStatement (·.relocate nowhere) v) :
    (Skeleton.block (.phrase .statement sks)).LowersTo s s.lowerBlock (·.relocate nowhere)
      ⟨default, [], [v]⟩ := by
  intro t ht hplaced
  obtain ⟨start, text, statement, rfl, hstatement⟩ := Tree.skeleton_eq_wrapping ht
  obtain ⟨v', hv', rfl⟩ := hsk statement hstatement hplaced.child
  refine ⟨⟨s.positionAt start, [], [v']⟩, ?_, ?_⟩
  · rw [Source.lowerBlock, Source.expectRule_node, ok_bind]
    simp [Source.lowerBlockItems, rule_of_skeleton hstatement, hv']
  · simp [Block.relocate, Statement.relocateAll, nowhere]

theorem lowersTo_method {name : String} {v : Block}
    (hsk : (Skeleton.phrase .block sks).LowersTo s s.lowerBlock (·.relocate nowhere) v) :
    (Skeleton.method name (.phrase .block sks)).LowersTo s s.lowerMethod (·.relocate nowhere)
      ⟨default, ⟨default, "void"⟩, name, [], v⟩ := by
  intro t ht hplaced
  have hrule := rule_of_skeleton ht
  obtain ⟨start, text, children, rfl, -, hchildren⟩ := Tree.skeleton_eq_node ht
  obtain ⟨result, _, rfl, hresult, hrest⟩ := Tree.skeletons_eq_cons hchildren
  obtain ⟨word, _, rfl, hword, hbody⟩ := Tree.skeletons_eq_cons hrest
  obtain ⟨block, rfl, hblock⟩ := Tree.skeletons_eq_singleton hbody
  obtain ⟨v', hv', rfl⟩ := hsk block hblock (hplaced.children block (by simp [Tree.children]))
  obtain ⟨hname, hstring⟩ := name_of_skeleton hword
  have hvoid : s.lowerReturnType result = .ok ⟨s.positionAt result.start, "void"⟩ := by
    have hrule := rule_of_skeleton hresult
    obtain ⟨start', text', void, rfl, hvoid⟩ := Tree.skeleton_eq_wrapping hresult
    obtain ⟨hkeyword, hspelling⟩ := word_of_skeleton hvoid
    rw [Source.lowerReturnType, Source.expectRule_eq hrule, ok_bind, Source.onlyChild_eq rfl,
      ok_bind]
    simp only [hkeyword, Lexeme.word, hspelling]
    rfl
  have hnone : Source.takeOptional (.phrase .paramList) [block] = (none, [block]) := by
    apply Source.takeOptional_none
    intro c hc
    rw [List.mem_singleton.1 hc, rule_of_skeleton hblock]
    decide
  refine ⟨⟨s.positionAt start, ⟨s.positionAt result.start, "void"⟩, name, [], v'⟩, ?_, ?_⟩
  · rw [Source.lowerMethod, Source.expectRule_eq hrule, ok_bind]
    simp only [Tree.children, Source.takeChild_eq (rule_of_skeleton hresult), hvoid, ok_bind,
      Source.takeChild_eq hname, hnone, Source.takeChild_eq (rule_of_skeleton hblock), hv',
      hstring, pure_eq_ok]
    rfl
  · simp only [MethodDecl.relocate, TypeRef.relocate, nowhere, List.map_nil]

theorem lowersTo_class {name : String} {v : MethodDecl}
    (hsk : (Skeleton.phrase .methodDecl sks).LowersTo s s.lowerMethod (·.relocate nowhere) v) :
    (Skeleton.classOf name (.phrase .methodDecl sks)).LowersTo s s.lowerClass (·.relocate nowhere)
      ⟨default, name, none, [], [v]⟩ := by
  intro t ht hplaced
  have hrule := rule_of_skeleton ht
  obtain ⟨start, text, children, rfl, -, hchildren⟩ := Tree.skeleton_eq_node ht
  obtain ⟨keyword, _, rfl, hkeyword, hrest⟩ := Tree.skeletons_eq_cons hchildren
  obtain ⟨word, _, rfl, hword, hmembers⟩ := Tree.skeletons_eq_cons hrest
  obtain ⟨method, rfl, hmethod⟩ := Tree.skeletons_eq_singleton hmembers
  obtain ⟨v', hv', rfl⟩ := hsk method hmethod (hplaced.children method (by simp [Tree.children]))
  have hclass : keyword.rule = .kw .classKw := (word_of_skeleton hkeyword).1
  obtain ⟨hname, hstring⟩ := name_of_skeleton hword
  have hnone : Source.takeOptional (.phrase .superclass) [method] = (none, [method]) := by
    apply Source.takeOptional_none
    intro c hc
    rw [List.mem_singleton.1 hc, rule_of_skeleton hmethod]
    decide
  refine ⟨⟨s.positionAt start, name, none, [], [v']⟩, ?_, ?_⟩
  · rw [Source.lowerClass, Source.expectRule_eq hrule, ok_bind]
    simp only [Tree.children, Source.takeChild_eq hclass, ok_bind,
      Source.takeChild_eq hname, hnone, Option.mapM_none, Source.lowerMembers,
      rule_of_skeleton hmethod, hv', hstring, pure_eq_ok]
    rfl
  · simp only [ClassDecl.relocate, nowhere, List.map_nil, List.map_cons]

/-- The tree of the program is lowered to the program. -/
theorem lowers_program {v : ClassDecl} (hparse : s.parseProgram = .ok t)
    (hsk : (Skeleton.phrase .classDecl sks).LowersTo s s.lowerClass (·.relocate nowhere) v)
    (ht : t.skeleton = .program (.phrase .classDecl sks)) :
    ∃ p, s.lowerProgram t = .ok p ∧ p.unplaced = ⟨default, [v]⟩ := by
  obtain ⟨start, text, children, rfl, -, hchildren⟩ := Tree.skeleton_eq_node ht
  obtain ⟨decl, _, rfl, hdecl, hrest⟩ := Tree.skeletons_eq_cons hchildren
  obtain ⟨stop, rfl, hstop⟩ := Tree.skeletons_eq_singleton hrest
  have hplaced : decl.Placed s.chars := by
    obtain ⟨_, _, nodes, _, hnode, -, -, hplaced, -⟩ := Source.nodes_of_parseProgram hparse
    obtain ⟨-, -, -, hnodes⟩ := Tree.node.inj hnode
    have hsame : [decl] ++ [stop] = nodes ++ _ := hnodes
    obtain ⟨rfl, -⟩ := List.append_inj' hsame rfl
    exact hplaced decl (by simp)
  obtain ⟨v', hv', rfl⟩ := hsk decl hdecl hplaced
  have hend : stop.rule = .endOfInput := by
    obtain ⟨start', text', children', rfl, -, -⟩ := Tree.skeleton_eq_node hstop
    rfl
  have hnodes : Source.classNodes (.node (.phrase .program) start text [decl, stop]) = [decl] := by
    simp [Source.classNodes, Tree.children, rule_of_skeleton hdecl, hend]
  refine ⟨⟨v'.position, [v']⟩, ?_, ?_⟩
  · rw [Source.lowerProgram, Source.expectRule_node, ok_bind, hnodes]
    simp [hv']
  · simp only [Program.unplaced, Program.relocate, List.map_cons, List.map_nil]

end Lowering

/-! ## The program compiles -/

/-- The positions of the program are all the same. -/
theorem Program.unplaced_assigning (cls method x : String) (e : Expression) :
    (assigning cls method x e).unplaced = assigning cls method x e.unplaced := by
  simp [unplaced, assigning, relocate, ClassDecl.relocate, MethodDecl.relocate, TypeRef.relocate,
    Block.relocate, Statement.relocate, Statement.relocateAll, Location.relocate,
    Expression.unplaced]

/-- Every expression of operators, names and literals can be written, and however it is
written, with blanks between the lexemes, a program that assigns the text to a name
compiles to the program that assigns the expression, up to positions. -/
theorem Expression.IsOperation.compile_written {e : Expression} (h : e.IsOperation) :
    (∃ ls, e.Written ls) ∧
    ∀ (ls : List Lexeme) (text cls method x : String) (name : Option String),
      e.Written ls → Spaced ls text.toList → (Lexeme.name cls).IsWhole →
      (Lexeme.name method).IsWhole → (Lexeme.name x).IsWhole →
      ∃ p, (Source.ofText (assigningText cls method x text) name).compile = .ok p ∧
        p.unplaced = (Program.assigning cls method x e).unplaced := by
  refine ⟨h.exists_written, ?_⟩
  intro ls text cls method x name hwritten htext hcls hmethod hx
  obtain ⟨sk, hderives, hsk⟩ := hwritten.yields
  obtain ⟨sks, -, hphrase⟩ := hderives.of_phrase
  obtain rfl := List.singleton_inj.1 hphrase
  have hlaid := laidOut_assigningText hcls hmethod hx hwritten.isWhole htext
  obtain ⟨ts, hts, hlexemes⟩ := hlaid.tokenize (Source.chars_ofText _ name)
  have hprogram :
      Derives _ (Lexeme.assigningFront cls method x ++ (ls ++ Lexeme.assigningBack)) _ :=
    derives_assigning hderives
  rw [← hlexemes] at hprogram
  obtain ⟨t, hparse, hsketch⟩ := Source.parseProgram_of_derives hts hprogram
  obtain ⟨p, hp, hunplaced⟩ := lowers_program hparse
    (lowersTo_class (lowersTo_method (lowersTo_block (lowersTo_assigning hsk))))
    (List.singleton_inj.1 hsketch).symm
  refine ⟨p, by rw [Source.compile_of_parseProgram hparse, hp], ?_⟩
  rw [hunplaced, Program.unplaced_assigning]
  rfl

/-- A difference on the right of a difference is written in brackets, and read back as such. -/
theorem Expression.IsOperation.compile_written_difference :
    let inner : Expression := .binary default (.simple default "a") "-" (.integer default 2)
    let e : Expression := .binary default (.integer default 1) "-" inner
    e.IsOperation ∧ (∃ ls, e.Written ls) ∧
      ∃ p, (Source.ofText (assigningText "Main" "f" "x" "1 - ( a - 2 )") none).compile = .ok p ∧
        p.unplaced = (Program.assigning "Main" "f" "x" e).unplaced := by
  intro inner e
  have hname : (Lexeme.name "a").IsWhole := by decide
  have hone : (⟨.intLit, ['1']⟩ : Lexeme).IsWhole := by decide
  have htwo : (⟨.intLit, ['2']⟩ : Lexeme).IsWhole := by decide
  have hinner : inner.IsOperation :=
    .operation default .minus (.name default hname) (.integer default (by decide))
  have he : e.IsOperation := .operation default .minus (.integer default (by decide)) hinner
  have hwritten : inner.Written [.name "a", InfixOp.minus.lexeme, ⟨.intLit, ['2']⟩] :=
    .operation default .minus (.leaf (.name default hname))
      (.leaf (.integer default htwo (by decide)))
  have hwhole : e.Written _ :=
    .operation default .minus (.leaf (.integer default hone (by decide))) hwritten
  obtain ⟨hsome, hcompile⟩ := compile_written he
  refine ⟨he, hsome, hcompile _ _ _ _ _ _ hwhole ?_ (by decide) (by decide) (by decide)⟩
  have hspaced : Spaced [⟨.intLit, ['1']⟩, InfixOp.minus.lexeme, ⟨.lparen, ['(']⟩, .name "a",
      InfixOp.minus.lexeme, ⟨.intLit, ['2']⟩, ⟨.rparen, [')']⟩] _ :=
    .blank (.blank (.blank (.blank (.blank (.blank (.one _))))))
  exact hspaced

end DecafFrontEnd
