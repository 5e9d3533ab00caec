/-
  DecafFrontEnd/Proofs/Meaning/Program.lean --- what the text of a program means.

  Methods, classes and programs have meanings in the manner of statements.  A text is
  compiled to a program exactly when it means that program
  (`Source.compile_eq_ok_iff`): the parser, which commits to the first choice that fits,
  and the lowering, which walks its trees, are together no more and no less than the
  rules of the language.
-/
import DecafFrontEnd.Proofs.Compilation.Malformed
import DecafFrontEnd.Proofs.Meaning.Statement

set_option autoImplicit false

namespace DecafFrontEnd

namespace Source

/-! ## Meanings -/

variable (s : Source)

/-- The text between two places is what a method returns. -/
inductive MeansReturnType : Cursor → TypeRef → Cursor → Prop
  | void {c d : Cursor} : c.Reads [.word .voidKw] d →
      MeansReturnType c ⟨s.positionAt c.offset, "void"⟩ d
  | type {c d : Cursor} {t : TypeRef} : s.MeansType c t d → MeansReturnType c t d

/-- The text between two places is a parameter. -/
inductive MeansParameter : Cursor → Parameter → Cursor → Prop
  | parameter {c m n d : Cursor} {t : TypeRef} {x : List Char} {b : Bool} : s.MeansType c t m →
      m.Reads [⟨.ident, x⟩] n → n.Marked b d →
      MeansParameter c ⟨s.positionAt c.offset, t, String.ofList x, b⟩ d

/-- The text between two places is a list of parameters, which may be empty. -/
inductive MeansParameters : Cursor → List Parameter → Cursor → Prop
  | none (c : Cursor) : MeansParameters c [] c
  | some {c d : Cursor} {ps : List Parameter} : Listed s.MeansParameter c ps d →
      MeansParameters c ps d

/-- The text between two places is a method. -/
inductive MeansMethod : Cursor → MethodDecl → Cursor → Prop
  | method {c m n o p q d : Cursor} {t : TypeRef} {x : List Char} {ps : List Parameter}
      {b : Block} : s.MeansReturnType c t m → m.Reads [⟨.ident, x⟩] n → n.Passes .lparen o →
      s.MeansParameters o ps p → p.Passes .rparen q → s.Says q (.block b) d →
      MeansMethod c ⟨s.positionAt c.offset, t, String.ofList x, ps, b⟩ d

/-- The name of the class that a class extends, if it extends one. -/
inductive MeansSuperclass : Cursor → Option String → Cursor → Prop
  | none (c : Cursor) : MeansSuperclass c none c
  | some {c m d : Cursor} {x : List Char} : c.Reads [.word .extendsKw] m →
      m.Reads [⟨.ident, x⟩] d → MeansSuperclass c (some (String.ofList x)) d

/-- The text between two places is a class. -/
inductive MeansClass : Cursor → ClassDecl → Cursor → Prop
  | classDecl {c m n o p q r d : Cursor} {x : List Char} {superclass : Option String}
      {fields : List VariableDeclaration} {methods : List MethodDecl} :
      c.Reads [.word .classKw] m → m.Reads [⟨.ident, x⟩] n → MeansSuperclass n superclass o →
      o.Passes .lbrace p → Series s.MeansDeclaration p fields q →
      Series s.MeansMethod q methods r → r.Passes .rbrace d →
      MeansClass c ⟨s.positionAt c.offset, String.ofList x, superclass, fields, methods⟩ d

/-- The text is a program: one class or more and nothing else. -/
inductive MeansProgram : Program → Prop
  | program {d : Cursor} {first : ClassDecl} {others : List ClassDecl} :
      Series s.MeansClass s.firstPlace (first :: others) d → d.rest = [] →
      MeansProgram ⟨first.position, first :: others⟩

variable {s} {c d : Cursor}

/-! ## Methods -/

theorem gives_returnType_iff (hc : s.IsPlace c) {t : TypeRef} :
    Phrase.returnType.Gives s.lowerReturnType c t d ↔ s.MeansReturnType c t d := by
  constructor
  · intro h
    obtain ⟨text, children, hspans, hlower⟩ := h.exists_spans (by decide) hc.rested
    rw [lowerReturnType, expectRule_node, ok_bind] at hlower
    rcases hspans with ⟨word, rfl, hrule, hstands⟩ | ⟨type, rfl, hrule, hstands⟩
    · simp only [onlyChild_node, ok_bind, hrule, pure_eq_ok, Except.ok.injEq] at hlower
      obtain rfl := hlower
      rw [hstands.string_word hrule]
      exact .void (hstands.reads_word hrule)
    · simp only [onlyChild_node, ok_bind, hrule] at hlower
      exact .type ((gives_type_iff hc.rested).1 ⟨type, hrule, hstands, hlower⟩)
  · rintro (hreads | htype)
    · exact .of_spans hc.rested (Or.inl ⟨_, rfl, rfl, Tree.stands_terminal hreads⟩) fun _ => rfl
    · obtain ⟨type, hrule, hstands, hlower⟩ := (gives_type_iff hc.rested).2 htype
      refine .of_spans hc.rested (Or.inr ⟨type, rfl, hrule, hstands⟩) fun text => ?_
      rw [lowerReturnType, expectRule_node, ok_bind]
      simp only [onlyChild_node, ok_bind, hrule, hlower]

theorem gives_parameter_iff (hc : s.IsPlace c) {parameter : Parameter} :
    Phrase.param.Gives s.lowerParameter c parameter d ↔ s.MeansParameter c parameter d := by
  constructor
  · intro h
    obtain ⟨text, children, hspans, hlower⟩ := h.exists_spans (by decide) hc.rested
    obtain ⟨_, _, rfl, m, ⟨type, rfl, htype, hstands⟩, _, ts, rfl, n, ⟨name, rfl, hname, hstands'⟩,
      hmarker⟩ := hspans
    obtain ⟨-, hreads⟩ := hstands'.reads hname rfl
    have hm := hc.of_stands hstands
    have hmarked := (spans_marker_iff (hm.of_reads hreads).rested).1 ⟨ts, hmarker, rfl⟩
    simp only [lowerParameter, expectRule_node, ok_bind, Tree.children, List.singleton_append,
      takeChild_eq htype, pure_eq_ok] at hlower
    obtain ⟨t, ht, hlower⟩ := bind_eq_ok.1 hlower
    simp only [takeChild_eq hname, ok_bind, Except.ok.injEq] at hlower
    obtain rfl := hlower
    exact .parameter ((gives_type_iff hc.rested).1 ⟨type, htype, hstands, ht⟩) hreads hmarked
  · rintro ⟨htype, hreads, hmarked⟩
    obtain ⟨type, hrule, hstands, hlower⟩ := (gives_type_iff hc.rested).2 htype
    have hn := (hc.of_stands hstands).of_reads hreads
    obtain ⟨ts, hmarker, rfl⟩ := (spans_marker_iff hn.rested).2 hmarked
    refine .of_spans hc.rested
      ⟨[type], _, rfl, _, ⟨type, rfl, hrule, hstands⟩, [_], ts, rfl, _,
        ⟨_, rfl, rfl, Tree.stands_terminal hreads⟩, hmarker⟩ fun text => ?_
    simp only [lowerParameter, expectRule_node, ok_bind, Tree.children, List.singleton_append,
      takeChild_eq hrule, hlower, pure_eq_ok]
    rfl

theorem leads_parameter : s.Leads s.MeansParameter :=
  fun hc h => ((gives_parameter_iff hc).2 h).isPlace hc

/-- The node of the parameters, or none if there are no parameters. -/
theorem gives_parameters_iff (hc : s.IsPlace c) {ps : List Parameter} :
    (∃ ts, (Pattern.opt (.phrase .paramList)).Spans c ts d ∧
      (match ts with
        | list :: _ => list.children.mapM s.lowerParameter
        | [] => .ok []) = .ok ps) ↔ s.MeansParameters c ps d := by
  constructor
  · rintro ⟨ts, ⟨⟨rule, start, text, children⟩, rfl, hrule, hstands⟩ | ⟨rfl, rfl⟩, hmap⟩
    · obtain rfl : rule = .phrase .paramList := hrule
      obtain ⟨-, hspans⟩ := hstands.of_phrase (by decide) hc.rested
      exact .some ((Phrase.gives_commaList.1 ⟨children, hspans, hmap⟩).imp Phrase.leads_gives hc
        fun hc => (gives_parameter_iff hc).1)
    · obtain rfl := Except.ok.inj hmap
      exact .none c
  · rintro (_ | hlisted)
    · exact ⟨[], Or.inr ⟨rfl, rfl⟩, rfl⟩
    · obtain ⟨children, hspans, hmap⟩ := Phrase.gives_commaList.2
        (hlisted.imp leads_parameter hc fun hc => (gives_parameter_iff hc).2)
      obtain ⟨text, hstands⟩ := Tree.exists_stands (p := .paramList) hc.rested hspans
      exact ⟨[_], Or.inl ⟨_, rfl, rfl, hstands⟩, hmap⟩

theorem leads_parameters : s.Leads s.MeansParameters
  | _, _, _, hc, .none _ => hc
  | _, _, _, hc, .some h => leads_parameter.listed hc h

theorem lowerMethod_node {start : Nat} {text : List Char} {type name block : Tree}
    {list : List Tree} (htype : type.rule = .phrase .returnType)
    (hname : name.rule = .terminal .ident) (hblock : block.rule = .phrase .block)
    {c d : Cursor} (hlist : (Pattern.opt (.phrase .paramList)).Spans c list d) :
    s.lowerMethod (.node (.phrase .methodDecl) start text (type :: name :: (list ++ [block]))) =
      (s.lowerReturnType type >>= fun returnType =>
        (match list with
          | list :: _ => list.children.mapM s.lowerParameter
          | [] => .ok []) >>= fun parameters => s.lowerBlock block >>= fun body =>
        .ok ⟨s.positionAt start, returnType, name.string, parameters, body⟩) := by
  rw [lowerMethod, expectRule_node, ok_bind, Tree.children, takeChild_eq htype, ok_bind]
  rcases hlist with ⟨parameters, rfl, hparameters, -⟩ | ⟨rfl, -⟩
  · simp only [takeChild_eq hname, ok_bind, List.singleton_append, takeOptional_some hparameters,
      takeChild_eq hblock, pure_eq_ok]
    rfl
  · have hnone : takeOptional (.phrase .paramList) [block] = (none, [block]) :=
      takeOptional_none (by simp [hblock])
    simp only [takeChild_eq hname, ok_bind, List.nil_append, hnone, takeChild_eq hblock,
      pure_eq_ok]
    rfl

theorem gives_method_iff (hc : s.IsPlace c) {method : MethodDecl} :
    Phrase.methodDecl.Gives s.lowerMethod c method d ↔ s.MeansMethod c method d := by
  constructor
  · intro h
    obtain ⟨text, children, hspans, hlower⟩ := h.exists_spans (by decide) hc.rested
    obtain ⟨_, _, rfl, m, ⟨type, rfl, htype, hstands⟩, _, _, rfl, n, ⟨name, rfl, hname, hstands'⟩,
      _, _, rfl, o, hopens, list, _, rfl, p, hlist, _, _, rfl, q, hcloses, block, rfl, hblock,
      hstands''⟩ := hspans
    obtain ⟨rfl, hopen⟩ := hopens.passes rfl
    obtain ⟨rfl, hclose⟩ := hcloses.passes rfl
    obtain ⟨-, hreads⟩ := hstands'.reads hname rfl
    have ho := ((hc.of_stands hstands).of_reads hreads).of_passes hopen
    rw [List.singleton_append, List.singleton_append, List.nil_append, List.nil_append,
      lowerMethod_node htype hname hblock hlist] at hlower
    obtain ⟨t, ht, hlower⟩ := bind_eq_ok.1 hlower
    obtain ⟨ps, hps, hlower⟩ := bind_eq_ok.1 hlower
    obtain ⟨b, hb, hlower⟩ := bind_eq_ok.1 hlower
    obtain rfl := Except.ok.inj hlower
    have hparameters := (gives_parameters_iff ho).1 ⟨list, hlist, hps⟩
    have hq := (leads_parameters ho hparameters).of_passes hclose
    exact .method ((gives_returnType_iff hc).1 ⟨type, htype, hstands, ht⟩) hreads hopen
      hparameters hclose ((gives_block_iff_means hq).1 ⟨block, hblock, hstands'', hb⟩)
  · rintro ⟨htype, hreads, hopen, hparameters, hclose, hbody⟩
    obtain ⟨type, hrule, hstands, ht⟩ := (gives_returnType_iff hc).2 htype
    have ho := ((hc.of_stands hstands).of_reads hreads).of_passes hopen
    have hq := (leads_parameters ho hparameters).of_passes hclose
    obtain ⟨list, hlist, hps⟩ := (gives_parameters_iff ho).2 hparameters
    obtain ⟨block, hblock, hstands', hb⟩ := (gives_block_iff_means hq).2 hbody
    refine .of_spans hc.rested
      ⟨[type], _, rfl, _, ⟨type, rfl, hrule, hstands⟩, [_], _, rfl, _,
        ⟨_, rfl, rfl, Tree.stands_terminal hreads⟩, [], _, rfl, _, Pattern.spans_mark hopen, list,
        _, rfl, _, hlist, [], _, rfl, _, Pattern.spans_mark hclose, block, rfl, hblock, hstands'⟩
      fun text => ?_
    rw [List.singleton_append, List.singleton_append, List.nil_append, List.nil_append,
      lowerMethod_node hrule rfl hblock hlist, ht, ok_bind, hps, ok_bind, hb, ok_bind]
    rfl

theorem leads_method : s.Leads s.MeansMethod :=
  fun hc h => ((gives_method_iff hc).2 h).isPlace hc

/-! ## Classes -/

/-- The fields of a class are lowered before its methods. -/
theorem lowerMembers_append {ts ts' : List Tree} (h : ∀ t ∈ ts, t.rule = .phrase .varDecl)
    (h' : ∀ t ∈ ts', t.rule = .phrase .methodDecl) :
    s.lowerMembers (ts ++ ts') =
      (ts.mapM s.lowerVarDecl >>= fun fields => ts'.mapM s.lowerMethod >>= fun methods =>
        .ok (fields, methods)) := by
  induction ts with
  | nil =>
      induction ts' with
      | nil => rfl
      | cons t ts' ih =>
          have ih := ih fun t ht => h' t (List.mem_cons_of_mem _ ht)
          simp only [List.nil_append, List.mapM_nil, pure_eq_ok, ok_bind] at ih
          simp only [List.nil_append, lowerMembers, h' t (by simp), ih, List.mapM_cons,
            List.mapM_nil, bind_assoc, ok_bind, pure_eq_ok]
  | cons t ts ih =>
      simp only [List.cons_append, lowerMembers, h t (by simp),
        ih fun t ht => h t (List.mem_cons_of_mem _ ht), List.mapM_cons, bind_assoc, ok_bind,
        pure_eq_ok]

/-- The node of the class that is extended, or none. -/
theorem gives_superclass_iff (hc : s.IsPlace c) {superclass : Option String} :
    (∃ ts, (Pattern.opt (.phrase .superclass)).Spans c ts d ∧
      ts.head?.mapM s.lowerSuperclass = .ok superclass) ↔ MeansSuperclass c superclass d := by
  constructor
  · rintro ⟨ts, ⟨⟨rule, start, text, children⟩, rfl, hrule, hstands⟩ | ⟨rfl, rfl⟩, hlower⟩
    · obtain rfl : rule = .phrase .superclass := hrule
      obtain ⟨-, _, _, rfl, m, ⟨word, rfl, hword, hstands'⟩, name, rfl, hname, hstands''⟩ :=
        hstands.of_phrase (by decide) hc.rested
      obtain ⟨-, hreads⟩ := hstands''.reads hname rfl
      simp only [List.head?_cons, Option.mapM_some, lowerSuperclass, Tree.children,
        List.singleton_append, takeChild_eq hword, takeChild_eq hname, ok_bind,
        pure_eq_ok] at hlower
      obtain rfl := Except.ok.inj hlower
      exact .some (hstands'.reads_word hword) hreads
    · obtain rfl := Except.ok.inj hlower
      exact .none c
  · rintro (_ | ⟨hword, hreads⟩)
    · exact ⟨[], Or.inr ⟨rfl, rfl⟩, rfl⟩
    · obtain ⟨text, hstands⟩ := Tree.exists_stands (p := .superclass) hc.rested
        ⟨[_], [_], rfl, _, ⟨_, rfl, rfl, Tree.stands_terminal hword⟩, _, rfl, rfl,
          Tree.stands_terminal hreads⟩
      exact ⟨[_], Or.inl ⟨_, rfl, rfl, hstands⟩, rfl⟩

theorem MeansSuperclass.isPlace {superclass : Option String} (h : MeansSuperclass c superclass d)
    (hc : s.IsPlace c) : s.IsPlace d := by
  cases h with
  | none => exact hc
  | some hword hreads => exact (hc.of_reads hword).of_reads hreads

theorem lowerClass_node {start : Nat} {text : List Char} {word name : Tree}
    {superclass members : List Tree} (hword : word.rule = .kw .classKw)
    (hname : name.rule = .terminal .ident)
    {c d : Cursor} (hsuper : (Pattern.opt (.phrase .superclass)).Spans c superclass d)
    (hmembers : ∀ t ∈ members, t.rule ≠ .phrase .superclass) :
    s.lowerClass (.node (.phrase .classDecl) start text (word :: name :: (superclass ++ members))) =
      (superclass.head?.mapM s.lowerSuperclass >>= fun superClassName =>
        s.lowerMembers members >>= fun (fields, methods) =>
        .ok ⟨s.positionAt start, name.string, superClassName, fields, methods⟩) := by
  rw [lowerClass, expectRule_node, ok_bind, Tree.children, takeChild_eq hword, ok_bind]
  rcases hsuper with ⟨parent, rfl, hparent, -⟩ | ⟨rfl, -⟩
  · simp only [takeChild_eq hname, ok_bind, List.singleton_append, takeOptional_some hparent,
      pure_eq_ok]
    rfl
  · simp only [takeChild_eq hname, ok_bind, List.nil_append, takeOptional_none hmembers,
      pure_eq_ok]
    rfl

theorem gives_class_iff (hc : s.IsPlace c) {declaration : ClassDecl} :
    Phrase.classDecl.Gives s.lowerClass c declaration d ↔ s.MeansClass c declaration d := by
  have hrules : ∀ {p q r : Cursor} {fields methods : List Tree},
      (Pattern.many (.phrase .varDecl)).Spans p fields q →
      (Pattern.many (.phrase .methodDecl)).Spans q methods r →
      ∀ t ∈ fields ++ methods, t.rule ≠ .phrase .superclass := by
    intro p q r fields methods hfields hmethods t ht
    rcases List.mem_append.1 ht with ht | ht
    · simp [Pattern.rule_of_spans_many hfields t ht]
    · simp [Pattern.rule_of_spans_many hmethods t ht]
  constructor
  · intro h
    obtain ⟨text, children, hspans, hlower⟩ := h.exists_spans (by decide) hc.rested
    obtain ⟨_, _, rfl, m, ⟨word, rfl, hword, hstands⟩, _, _, rfl, n, ⟨name, rfl, hname, hstands'⟩,
      superclass, _, rfl, o, hsuper, _, _, rfl, p, hopens, fields, _, rfl, q, hfields, methods, _,
      rfl, r, hmethods, hcloses⟩ := hspans
    obtain ⟨rfl, hopen⟩ := hopens.passes rfl
    obtain ⟨rfl, hclose⟩ := hcloses.passes rfl
    have hreads := hstands.reads_word hword
    obtain ⟨-, hreads'⟩ := hstands'.reads hname rfl
    have hn := (hc.of_reads hreads).of_reads hreads'
    rw [List.singleton_append, List.singleton_append, List.nil_append, List.append_nil,
      lowerClass_node hword hname hsuper (hrules hfields hmethods),
      lowerMembers_append (Pattern.rule_of_spans_many hfields)
        (Pattern.rule_of_spans_many hmethods)] at hlower
    simp only [bind_assoc, ok_bind] at hlower
    obtain ⟨parent, hparent, hlower⟩ := bind_eq_ok.1 hlower
    obtain ⟨xs, hxs, hlower⟩ := bind_eq_ok.1 hlower
    obtain ⟨ys, hys, hlower⟩ := bind_eq_ok.1 hlower
    obtain rfl := Except.ok.inj hlower
    have hmeans := (gives_superclass_iff hn).1 ⟨superclass, hsuper, hparent⟩
    have hp := (hmeans.isPlace hn).of_passes hopen
    have hgives := Phrase.gives_many.1 ⟨fields, hfields, hxs⟩
    have hgives' := Phrase.gives_many.1 ⟨methods, hmethods, hys⟩
    exact .classDecl hreads hreads' hmeans hopen
      (hgives.imp Phrase.leads_gives hp fun hc => (gives_declaration_iff hc).1)
      (hgives'.imp Phrase.leads_gives (hgives.isPlace Phrase.leads_gives hp)
        fun hc => (gives_method_iff hc).1) hclose
  · rintro ⟨hreads, hreads', hmeans, hopen, hmeansFields, hmeansMethods, hclose⟩
    have hn := (hc.of_reads hreads).of_reads hreads'
    have hp := (hmeans.isPlace hn).of_passes hopen
    have hq := hmeansFields.isPlace leads_declaration hp
    obtain ⟨superclass, hsuper, hparent⟩ := (gives_superclass_iff hn).2 hmeans
    obtain ⟨fields, hfields, hxs⟩ := Phrase.gives_many.2
      (hmeansFields.imp leads_declaration hp fun hc => (gives_declaration_iff hc).2)
    obtain ⟨methods, hmethods, hys⟩ := Phrase.gives_many.2
      (hmeansMethods.imp leads_method hq fun hc => (gives_method_iff hc).2)
    obtain ⟨word, hword, hspans⟩ := Pattern.spans_word hreads
    refine .of_spans hc.rested
      ⟨[word], _, rfl, _, hspans, [_], _, rfl, _, ⟨_, rfl, rfl, Tree.stands_terminal hreads'⟩,
        superclass, _, rfl, _, hsuper, [], _, rfl, _, Pattern.spans_mark hopen, fields, _, rfl, _,
        hfields, methods, [], rfl, _, hmethods, Pattern.spans_mark hclose⟩ fun text => ?_
    rw [List.singleton_append, List.singleton_append, List.nil_append, List.append_nil,
      lowerClass_node hword rfl hsuper (hrules hfields hmethods),
      lowerMembers_append (Pattern.rule_of_spans_many hfields)
        (Pattern.rule_of_spans_many hmethods), hparent, hxs]
    simp only [ok_bind, hys]
    rfl

theorem leads_class : s.Leads s.MeansClass :=
  fun hc h => ((gives_class_iff hc).2 h).isPlace hc

/-! ## Programs -/

/-- The classes of a program are lowered one after the other. -/
theorem gives_classes {cs : List ClassDecl} :
    (∃ nodes, classes.Spans c nodes d ∧ nodes.mapM s.lowerClass = .ok cs) ↔
      cs ≠ [] ∧ Series (Phrase.classDecl.Gives s.lowerClass) c cs d := by
  constructor
  · rintro ⟨_, ⟨_, others, rfl, m, ⟨t, rfl, hrule, hstands⟩, hothers⟩, hmap⟩
    rw [List.singleton_append, List.mapM_cons] at hmap
    obtain ⟨first, hfirst, hmap⟩ := bind_eq_ok.1 hmap
    obtain ⟨xs, hxs, hmap⟩ := bind_eq_ok.1 hmap
    obtain rfl := Except.ok.inj hmap
    exact ⟨by simp, .cons ⟨t, hrule, hstands, hfirst⟩ (Phrase.gives_many.1 ⟨others, hothers, hxs⟩)⟩
  · rintro ⟨hne, _ | ⟨⟨t, hrule, hstands, hfirst⟩, hothers⟩⟩
    · exact absurd rfl hne
    · obtain ⟨others, hspans, hxs⟩ := Phrase.gives_many.2 hothers
      refine ⟨[t] ++ others, ⟨[t], others, rfl, _, ⟨t, rfl, hrule, hstands⟩, hspans⟩, ?_⟩
      rw [List.singleton_append, List.mapM_cons, hfirst, ok_bind, hxs]
      rfl

theorem lowerProgram_node {start : Nat} {text : List Char} {nodes : List Tree} {stop : Tree}
    (hnodes : classes.Spans c nodes d) (hstop : stop.rule = .endOfInput) :
    s.lowerProgram (.node (.phrase .program) start text (nodes ++ [stop])) =
      (nodes.mapM s.lowerClass >>= fun
        | [] => .error (s.defect .noClasses ⟨start, byteLength text⟩)
        | first :: others => .ok ⟨first.position, first :: others⟩) := by
  have hrules : ∀ t ∈ nodes, t.rule = .phrase .classDecl := by
    obtain ⟨_, others, rfl, m, ⟨t, rfl, hrule, -⟩, hothers⟩ := hnodes
    rw [List.singleton_append, List.forall_mem_cons]
    exact ⟨hrule, Pattern.rule_of_spans_many hothers⟩
  have hclasses : classNodes (.node (.phrase .program) start text (nodes ++ [stop])) = nodes := by
    rw [classNodes, Tree.children, List.filter_append, List.filter_eq_self.2]
    · simp [hstop]
    · intro t ht
      simp [hrules t ht]
  rw [lowerProgram, expectRule_node, ok_bind, hclasses]
  apply congrArg
  funext cs
  cases cs <;> rfl

/-- The tree of a text holds its classes and the end of the text. -/
theorem parseProgram_eq_ok_iff_spans {t : Tree} :
    s.parseProgram = .ok t ↔
      ∃ nodes d, classes.Spans s.firstPlace nodes d ∧ d.rest = [] ∧
        t = .node (.phrase .program) 0 (takeBytes d.offset s.chars)
          (nodes ++ [.node .endOfInput d.offset [] []]) := by
  have hrested := s.rested_firstPlace
  have hnothing : ∀ cs, takeBytes 0 cs = [] := fun cs => takeBytes_byteLength_append [] cs
  rw [parseProgram_eq_ok_iff]
  constructor
  · rintro ⟨d, hmatches⟩
    obtain ⟨-, nodes, e, hclasses, hrest, rfl, hnodes⟩ := matches_program.1 hmatches
    refine ⟨nodes, e.skip, hclasses.covers.goalSpans isSyntactic_classes hrested, hrest, ?_⟩
    simpa [Rule.leave, Rule.isSilent, Cursor.start, hnothing] using hnodes
  · rintro ⟨nodes, d, hspans, hrest, rfl⟩
    obtain ⟨e, hcovers, rfl⟩ := hspans.exists_covers hrested
    have hstop : classes.StopsAt e.skip :=
      Pattern.stopsAt_of_lacks isSyntactic_classes e.rested_skip
        (Cursor.lacks_of_rest_nil hrest _)
    have hmatches := hcovers.matches isSyntactic_classes decided_classes hrested hstop
    refine ⟨e.skip, matches_program.2 ⟨rfl, nodes, e, hmatches, hrest, rfl, ?_⟩⟩
    simp [Rule.leave, Rule.isSilent, Cursor.start, hnothing]

/-- A text is compiled to a program exactly when it means the program. -/
theorem compile_eq_ok_iff {p : Program} : s.compile = .ok p ↔ s.MeansProgram p := by
  have hc := s.isPlace_firstPlace
  constructor
  · intro h
    cases hparse : s.parseProgram with
    | error m =>
        rcases compile_of_parseProgram_error hparse with ⟨_, _, _, herror⟩ | ⟨_, herror⟩ <;>
          simp [herror] at h
    | ok t =>
        rw [compile_of_parseProgram hparse] at h
        obtain ⟨nodes, d, hspans, hrest, rfl⟩ := parseProgram_eq_ok_iff_spans.1 hparse
        rw [lowerProgram_node hspans rfl] at h
        obtain ⟨cs, hcs, h⟩ := bind_eq_ok.1 h
        obtain ⟨hne, hgives⟩ := gives_classes.1 ⟨nodes, hspans, hcs⟩
        have hmeans := hgives.imp Phrase.leads_gives hc fun hc => (gives_class_iff hc).1
        cases cs with
        | nil => exact absurd rfl hne
        | cons first others =>
            obtain rfl := Except.ok.inj h
            exact .program hmeans hrest
  · rintro ⟨hmeans, hrest⟩
    obtain ⟨nodes, hspans, hcs⟩ := gives_classes.2
      ⟨by simp, hmeans.imp leads_class hc fun hc => (gives_class_iff hc).2⟩
    have hparse := parseProgram_eq_ok_iff_spans.2 ⟨nodes, _, hspans, hrest, rfl⟩
    rw [compile_of_parseProgram hparse, lowerProgram_node hspans rfl, hcs]
    rfl

end Source

end DecafFrontEnd
