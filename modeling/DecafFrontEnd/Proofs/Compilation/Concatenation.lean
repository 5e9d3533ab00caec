/-
  DecafFrontEnd/Proofs/Compilation/Concatenation.lean --- two texts compiled as one.

  A text that compiles may be put in front of another one, a line feed between them, and
  nothing looks across the seam: the classes of the whole are those of the two texts, the
  second ones with their positions further on, and what keeps the second text from being
  lowered keeps the whole from it (`Source.compile_concatenation`).
-/
import DecafFrontEnd.Proofs.Lowering.Shift
import DecafFrontEnd.Proofs.Meaning.Carry

set_option autoImplicit false

namespace DecafFrontEnd

namespace Source

variable {s t : Source} {c d e : Cursor}

/-! ## The two texts within the whole -/

theorem carries_before (s : Source) (b : List Char) :
    s.Carries (s.followedBy b) (·.before b) id where
  reads hc h := h.before hc.rested b
  holds hc h := h.before hc.rested b
  positionAt hc hne := by
    rw [Cursor.before_of_ne_nil hc.rested hne]
    exact positionAt_followedBy (Cursor.offset_le_byteLength hc.reaches) b

theorem carries_shift (s : Source) (hname : t.name = s.name) :
    t.Carries (s.followedBy t.chars) (·.shift (s.size + 1)) (·.behind s.chars) where
  reads _ h := h.shift _
  holds _ h := h.shift _
  positionAt _ _ := positionAt_followedBy_add s t hname _

/-- The second text begins where the first one ends. -/
theorem IsPlace.before_of_nil (hd : s.IsPlace d) (hend : d.rest = []) (b : List Char) :
    d.before b = (Cursor.start b).skip.shift (s.size + 1) :=
  Cursor.before_eq_shift hd.reaches hend b

/-- The classes of the first text within the whole, up to the front of the second. -/
theorem MeansProgram.before {p : Program} (h : s.MeansProgram p) (t : Source) :
    Series (s.followedBy t.chars).MeansClass (s.followedBy t.chars).firstPlace p.classes
      (t.firstPlace.shift (s.size + 1)) := by
  obtain ⟨hclasses, hend⟩ := h
  have hc := s.isPlace_firstPlace
  have hcarried := hclasses.carry leads_class hc fun hc h =>
    h.carry (s.carries_before t.chars) hc
  rw [ClassDecl.map_relocate_id, ← firstPlace_followedBy,
    (hclasses.isPlace leads_class hc).before_of_nil hend] at hcarried
  exact hcarried

/-! ## Two programs -/

theorem compile_followedBy_of_ok (hname : t.name = s.name) {p q : Program}
    (hp : s.compile = .ok p) (hq : t.compile = .ok q) :
    (s.followedBy t.chars).compile = .ok
      ⟨p.position, p.classes ++ q.classes.map (·.relocate (·.behind s.chars))⟩ := by
  rw [compile_eq_ok_iff] at hp hq ⊢
  have hfirst := hp.before t
  obtain ⟨hclasses, -⟩ := hp
  obtain ⟨hclasses', hend'⟩ := hq
  have hsecond := hclasses'.carry leads_class t.isPlace_firstPlace fun hc h =>
    h.carry (carries_shift s hname) hc
  exact .program (hfirst.append hsecond) hend'

/-! ## An obstacle in the second text -/

theorem spans_classes_append {nodes nodes' : List Tree} (h : classes.Spans c nodes d)
    (h' : classes.Spans d nodes' e) : classes.Spans c (nodes ++ nodes') e := by
  obtain ⟨first, _, rfl, m, hfirst, rounds, rfl, hrounds⟩ := h
  obtain ⟨first', _, rfl, m', hfirst', rounds', rfl, hrounds'⟩ := h'
  refine ⟨first, (rounds ++ first' :: rounds').flatten, ?_, m, hfirst, _, rfl,
    hrounds.append (.cons hfirst' hrounds')⟩
  rw [List.flatten_append, List.flatten_cons, List.append_assoc]

/-- The classes of a text settle their obstacles. -/
theorem settles_classes {nodes : List Tree} (h : classes.Spans c nodes d) (hc : c.Rested) :
    s.Settles (nodes.mapM s.lowerClass) (Tree.obstaclesOf nodes) := by
  obtain ⟨e, hcovers, -⟩ := h.exists_covers hc
  obtain ⟨-, hlawful⟩ := hcovers.shape isSyntactic_classes
  obtain ⟨_, others, rfl, m, ⟨first, rfl, hfirst, -⟩, hothers⟩ := h
  refine .mapM fun node hnode => settles_class ?_ (hlawful node hnode)
  rcases List.mem_append.1 hnode with hnode | hnode
  · rw [List.mem_singleton.1 hnode]
    exact hfirst
  · exact Pattern.rule_of_spans_many hothers node hnode

theorem compile_followedBy_of_error (hname : t.name = s.name) {p : Program} {tree : Tree}
    {error : CompileError} (hp : s.compile = .ok p) (hparse : t.parseProgram = .ok tree)
    (hq : t.compile = .error error) :
    (s.followedBy t.chars).compile = .error (error.behind s.chars) := by
  have hfirst := (compile_eq_ok_iff.1 hp).before t
  have hne : p.classes ≠ [] := by
    obtain ⟨-, -⟩ := compile_eq_ok_iff.1 hp
    simp
  obtain ⟨nodes, hspans, hlower⟩ := gives_classes.2 ⟨hne, hfirst.imp leads_class
    (isPlace_firstPlace _) fun hc => (gives_class_iff hc).2⟩
  have hsettles := settles_parseProgram hparse
  rw [compile_of_parseProgram hparse] at hq
  obtain ⟨nodes', e, hspans', hend, rfl⟩ := parseProgram_eq_ok_iff_spans.1 hparse
  rw [obstacles_of_parseProgram hparse, Tree.children, Tree.obstaclesOf_append,
    Tree.obstaclesOf_cons, Tree.obstacles_endOfInput rfl rfl, Tree.obstaclesOf_nil,
    List.append_nil, List.append_nil] at hsettles
  have hshifted := hspans'.shift isSyntactic_classes t.rested_firstPlace (s.size + 1)
  have hsettles' := settles_classes (s := s.followedBy t.chars) hshifted t.rested_firstPlace
  have hparse' := parseProgram_eq_ok_iff_spans.2
    ⟨_, _, spans_classes_append hspans hshifted, hend, rfl⟩
  rw [compile_of_parseProgram hparse', lowerProgram_node (spans_classes_append hspans hshifted) rfl,
    List.mapM_append, hlower, ok_bind, bind_assoc]
  rw [Tree.obstaclesOf_shift] at hsettles'
  cases hos : Tree.obstaclesOf nodes' with
  | nil =>
      rw [hos] at hsettles
      obtain ⟨v, hv⟩ := hsettles
      exact absurd (hq.symm.trans hv) (by simp)
  | cons o os =>
      rw [hos] at hsettles hsettles'
      have hlower' : t.lowerProgram _ = .error (o.error t) := hsettles
      obtain rfl := Except.error.inj (hq.symm.trans hlower')
      have hmap : (nodes'.map (Tree.shift (s.size + 1))).mapM (s.followedBy t.chars).lowerClass =
          .error ((o.shift (s.size + 1)).error (s.followedBy t.chars)) := hsettles'
      rw [hmap, error_bind, o.error_shift s t hname]

/-! ## Texts and a line feed between them -/

/-- Of two texts that compile, the one in front of the other and a line feed between them,
the whole compiles.  Its classes are those of the first text and behind them those of the
second, every position in these as many bytes and lines further on as the first text and
the line feed take up.  If the second text has a tree that cannot be lowered, the error is
that of the second text, as much further on. -/
theorem compile_concatenation (a b : String) (name : Option String) :
    (∀ p q, (ofText a name).compile = .ok p → (ofText b name).compile = .ok q →
      (ofText (a ++ "\n" ++ b) name).compile = .ok
        ⟨p.position, p.classes ++ q.classes.map (·.relocate (·.behind a.toList))⟩) ∧
    (∀ p tree error, (ofText a name).compile = .ok p →
      (ofText b name).parseProgram = .ok tree → (ofText b name).compile = .error error →
      (ofText (a ++ "\n" ++ b) name).compile = .error (error.behind a.toList)) := by
  have hname : (ofText b name).name = (ofText a name).name := rfl
  have hchars : (ofText a name).chars = a.toList := rfl
  rw [ofText_concatenation, ← hchars]
  exact ⟨fun _ _ => compile_followedBy_of_ok hname,
    fun _ _ _ => compile_followedBy_of_error hname⟩

theorem exists_compile {α : Type} {f : Program → α} {v : α}
    (h : s.compile.toOption.map f = some v) : ∃ p, s.compile = .ok p ∧ f p = v := by
  cases hp : s.compile with
  | ok p =>
      rw [hp] at h
      exact ⟨p, rfl, Option.some.inj h⟩
  | error e => simp [hp, Except.toOption] at h

/-- Two classes in a line each, and an object made in the second of two lines. -/
theorem compile_concatenation_lines :
    (∃ p q r, (ofText "class A\x7b\x7d" none).compile = .ok p ∧
      (ofText "class B\x7b\x7d" none).compile = .ok q ∧
      (ofText ("class A\x7b\x7d" ++ "\n" ++ "class B\x7b\x7d") none).compile = .ok r ∧
      r.classes.map (fun c => (c.name, c.position)) =
        [("A", ⟨none, 1, 0, 0⟩), ("B", ⟨none, 2, 0, 10⟩)]) ∧
    (ofText ("class A\x7b\x7d" ++ "\n" ++ "class C\x7bvoid f()\x7bx=new D();\x7d\x7d")
        none).compile =
      .error (.unsupported "new object expression" ⟨none, 2, 19, 29⟩ "<unknown>" ⟨29, 7⟩) := by
  have hfirst : (ofText "class A\x7b\x7d" none).compile.toOption.map
      (·.classes.map fun c => (c.name, c.position)) = some [("A", ⟨none, 1, 0, 0⟩)] := by
    have hchars : ofText "class A\x7b\x7d" none =
        ⟨none, ['c', 'l', 'a', 's', 's', ' ', 'A', '\x7b', '\x7d'], _, rfl⟩ := rfl
    rw [hchars]
    decide +kernel
  have hsecond : (ofText "class B\x7b\x7d" none).compile.toOption.map
      (·.classes.map fun c => (c.name, c.position)) = some [("B", ⟨none, 1, 0, 0⟩)] := by
    have hchars : ofText "class B\x7b\x7d" none =
        ⟨none, ['c', 'l', 'a', 's', 's', ' ', 'B', '\x7b', '\x7d'], _, rfl⟩ := rfl
    rw [hchars]
    decide +kernel
  have hobject : (match (ofText "class C\x7bvoid f()\x7bx=new D();\x7d\x7d" none).parseProgram,
        (ofText "class C\x7bvoid f()\x7bx=new D();\x7d\x7d" none).compile with
      | .ok _, .error error => some error
      | _, _ => none) =
      some (.unsupported "new object expression" ⟨none, 1, 19, 19⟩ "<unknown>" ⟨19, 7⟩) := by
    have hchars : ofText "class C\x7bvoid f()\x7bx=new D();\x7d\x7d" none =
        ⟨none, ['c', 'l', 'a', 's', 's', ' ', 'C', '\x7b', 'v', 'o', 'i', 'd', ' ', 'f', '(', ')',
          '\x7b', 'x', '=', 'n', 'e', 'w', ' ', 'D', '(', ')', ';', '\x7d', '\x7d'], _, rfl⟩ := rfl
    rw [hchars]
    decide +kernel
  obtain ⟨p, hp, hclasses⟩ := exists_compile hfirst
  obtain ⟨q, hq, hclasses'⟩ := exists_compile hsecond
  refine ⟨⟨p, q, _, hp, hq, (compile_concatenation _ _ none).1 p q hp hq, ?_⟩, ?_⟩
  · have hmoved : (q.classes.map (·.relocate (·.behind "class A\x7b\x7d".toList))).map
        (fun c => (c.name, c.position)) =
        [("B", Position.behind "class A\x7b\x7d".toList ⟨none, 1, 0, 0⟩)] := by
      rw [List.map_map]
      exact (List.map_map (g := fun c : String × Position => (c.1, c.2.behind _))).symm.trans
        (congrArg _ hclasses')
    rw [List.map_append, hmoved]
    exact congrArg (· ++ _) hclasses
  · split at hobject
    · next tree error hparse herror =>
        obtain rfl := Option.some.inj hobject
        exact (compile_concatenation _ _ none).2 p tree _ hp hparse herror
    · simp at hobject

end Source

end DecafFrontEnd
