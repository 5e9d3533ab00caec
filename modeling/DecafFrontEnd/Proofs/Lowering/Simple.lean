/-
  DecafFrontEnd/Proofs/Lowering/Simple.lean --- where simple expressions come from.

  What the lowering keeps as text is kept of a node of the tree for a simple expression, in
  the position of that node.  The proofs follow the functions of the lowering, by recursion
  on the tree: each function adds to the expressions that it gets from the nodes below at
  most one of its own.
-/
import DecafFrontEnd.Proofs.Ast.Subexpression
import DecafFrontEnd.Proofs.Lowering.Kept

set_option autoImplicit false

namespace DecafFrontEnd

/-! ## Kept expressions -/

/-- All simple expressions among some are kept of nodes among some. -/
def Source.Keeps (s : Source) (ns : List Tree) (es : List Expression) : Prop :=
  ∀ p x, Expression.simple p x ∈ es → ∃ n ∈ ns, n.rule = .phrase .simpleExpr ∧
    p = s.positionAt n.start ∧ x = String.ofList (s.textOf (s.contentSpan n.span))

namespace Source

variable {s : Source} {ns ns' : List Tree} {es es' : List Expression} {e : Expression}

namespace Keeps

theorem nil (s : Source) (ns : List Tree) : s.Keeps ns [] := fun _ _ h => by simp at h

theorem mono (h : s.Keeps ns es) (hns : ns ⊆ ns') : s.Keeps ns' es := by
  intro p x hx
  obtain ⟨n, hn, hkept⟩ := h p x hx
  exact ⟨n, hns hn, hkept⟩

theorem append (h : s.Keeps ns es) (h' : s.Keeps ns' es') : s.Keeps (ns ++ ns') (es ++ es') := by
  intro p x hx
  rcases List.mem_append.1 hx with hx | hx
  · exact h.mono (List.subset_append_left _ _) p x hx
  · exact h'.mono (List.subset_append_right _ _) p x hx

/-- One more expression that is not kept as text. -/
theorem cons (h : s.Keeps ns es) (he : ∀ p x, e ≠ .simple p x) : s.Keeps ns (e :: es) := by
  intro p x hx
  rcases List.mem_cons.1 hx with heq | hx
  · exact absurd heq.symm (he p x)
  · exact h p x hx

theorem one (he : ∀ p x, e ≠ .simple p x) : s.Keeps ns [e] := (nil s ns).cons he

section

variable {t : Tree} {ts : List Tree} {r : Rule} {start : Nat} {text : List Char}

theorem first (h : s.Keeps t.nodes es) : s.Keeps (Tree.nodesOf (t :: ts)) es :=
  h.mono (List.subset_append_left _ _)

theorem next (h : s.Keeps (Tree.nodesOf ts) es) : s.Keeps (Tree.nodesOf (t :: ts)) es :=
  h.mono (List.subset_append_right _ _)

theorem node (h : s.Keeps (Tree.nodesOf ts) es) : s.Keeps (Tree.node r start text ts).nodes es :=
  h.mono (Tree.nodesOf_subset (List.Subset.refl _))

/-- The one expression that is kept as text is kept of a node for such an expression. -/
theorem simple : s.Keeps (Tree.node (.phrase .simpleExpr) start text ts).nodes
    [.simple (s.positionAt start)
      (String.ofList (s.textOf (s.contentSpan ⟨start, byteLength text⟩)))] := by
  intro p x hx
  obtain ⟨rfl, rfl⟩ := Expression.simple.inj (List.mem_singleton.1 hx)
  exact ⟨_, List.mem_cons_self, rfl, rfl, rfl⟩

end

end Keeps

section

variable {t : Tree} {ts : List Tree}

theorem keeps_lowerLiteral (h : s.lowerLiteral t = .ok e) : s.Keeps t.nodes e.expressions := by
  simp only [lowerLiteral, bind_eq_ok] at h
  obtain ⟨literal, -, h⟩ := h
  split at h
  case h_1 | h_2 | h_3 =>
    simp only [bind_eq_ok, pure_eq_ok] at h
    obtain ⟨v, -, h⟩ := h
    obtain rfl := Except.ok.inj h
    exact .one (by simp)
  case h_4 =>
    obtain rfl := Except.ok.inj h
    exact .one (by simp)
  case h_5 => simp at h

end

mutual

theorem keeps_lowerExpression (s : Source) : (t : Tree) → {e : Expression} →
    s.lowerExpression t = .ok e → s.Keeps t.nodes e.expressions
  | .node rule start text [], e, h => by
      unfold lowerExpression at h
      split at h
      case h_8 => exact keeps_lowerLiteral h
      case h_10 => split at h <;> simp at h
      all_goals simp at h
  | .node rule start text (first :: rest), e, h => by
      unfold lowerExpression at h
      dsimp only at h
      split at h
      -- phrases that stand for what is in them
      case h_1 | h_2 | h_3 | h_4 => exact (s.keeps_lowerExpression first h).first.node
      case h_5 =>
        cases rest with
        | nil => simp at h
        | cons operand others =>
            dsimp only at h
            split at h
            · simp only [bind_eq_ok] at h
              obtain ⟨e', he', h⟩ := h
              obtain rfl := Except.ok.inj h
              exact ((s.keeps_lowerExpression operand he').cons (by simp)).first.next.node
            · simp at h
      case h_6 | h_7 => simp at h
      case h_8 => exact keeps_lowerLiteral h
      case h_9 =>
        have he : e = .simple (s.positionAt start)
            (String.ofList (s.textOf (s.contentSpan ⟨start, byteLength text⟩))) := by
          split at h
          case h_1 => exact (Except.ok.inj h).symm
          case h_2 | h_3 =>
            simp only [bind_eq_ok] at h
            obtain ⟨-, -, h⟩ := h
            exact (Except.ok.inj h).symm
          case h_4 => simp at h
        rw [he]
        exact .simple
      case h_10 =>
        split at h
        · simp only [bind_eq_ok] at h
          obtain ⟨lhs, hlhs, h⟩ := h
          have hlhs := s.keeps_lowerExpression first hlhs
          have hall : s.Keeps (Tree.nodesOf (first :: rest)) e.expressions :=
            s.keeps_lowerOperands rest hlhs h
          exact hall.node
        · simp at h
      case h_11 => simp at h

theorem keeps_lowerOperands (s : Source) {operator : Terminal} {position : Position} :
    (ts : List Tree) → {lhs e : Expression} → {ns : List Tree} → s.Keeps ns lhs.expressions →
    s.lowerOperands operator position lhs ts = .ok e → s.Keeps (ns ++ Tree.nodesOf ts) e.expressions
  | [], lhs, e, ns, hlhs, h => by
      obtain rfl := Except.ok.inj h
      exact hlhs.mono (List.subset_append_left _ _)
  | [sign], lhs, e, ns, hlhs, h => by
      unfold lowerOperands at h
      split at h <;> simp at h
  | sign :: operand :: ts, lhs, e, ns, hlhs, h => by
      unfold lowerOperands at h
      split at h
      · dsimp only at h
        obtain ⟨rhs, hrhs, h⟩ := bind_eq_ok.1 h
        have hrhs := s.keeps_lowerExpression operand hrhs
        have hboth := (hlhs.append hrhs).cons (e := .binary position lhs sign.string rhs)
          (by simp)
        refine (s.keeps_lowerOperands ts hboth h).mono ?_
        simp only [Tree.nodesOf, List.append_assoc]
        grind
      · simp at h

theorem keeps_lowerExpressions (s : Source) : (ts : List Tree) → {es : List Expression} →
    s.lowerExpressions ts = .ok es → s.Keeps (Tree.nodesOf ts) (Expression.expressionsOf es)
  | [], es, h => by
      obtain rfl := Except.ok.inj h
      exact .nil s _
  | t :: ts, es, h => by
      rw [lowerExpressions] at h
      obtain ⟨e, he, h⟩ := bind_eq_ok.1 h
      obtain ⟨es', hes, h⟩ := bind_eq_ok.1 h
      obtain rfl := Except.ok.inj h
      exact (s.keeps_lowerExpression t he).append (s.keeps_lowerExpressions ts hes)

theorem keeps_lowerMethodCall (s : Source) : (t : Tree) → {e : Expression} →
    s.lowerMethodCall t = .ok e → s.Keeps t.nodes e.expressions
  | .node rule start text [], e, h => by simp [lowerMethodCall, bind_eq_ok] at h
  | .node rule start text (location :: rest), e, h => by
      unfold lowerMethodCall at h
      simp only [bind_eq_ok] at h
      obtain ⟨-, -, -, -, l, hl, h⟩ := h
      have hl := s.keeps_lowerLocation location hl
      split at h
      · next start' text' arguments others =>
          simp only [bind_eq_ok] at h
          obtain ⟨es, hes, h⟩ := h
          obtain rfl := Except.ok.inj h
          have hes := s.keeps_lowerExpressions arguments hes
          exact ((hl.append hes.node.first).cons (by simp)).node
      · obtain rfl := Except.ok.inj h
        exact ((hl.append (.nil s _)).cons (by simp)).node

theorem keeps_lowerLocation (s : Source) : (t : Tree) → {l : Location} →
    s.lowerLocation t = .ok l → s.Keeps t.nodes l.expressions
  | .node rule start text [], l, h => by simp [lowerLocation, bind_eq_ok] at h
  | .node rule start text (root :: selectors), l, h => by
      unfold lowerLocation at h
      simp only [bind_eq_ok] at h
      obtain ⟨-, -, -, -, h⟩ := h
      split at h
      · obtain rfl := Except.ok.inj h
        exact .nil s _
      · next rule' start' text' inner =>
          split at h
          · simp only [bind_eq_ok] at h
            obtain ⟨_, -, h⟩ := h
            obtain rfl := Except.ok.inj h
            exact .nil s _
          · cases inner with
            | nil => simp at h
            | cons index others =>
                simp only [bind_eq_ok] at h
                obtain ⟨-, -, e, he, h⟩ := h
                obtain rfl := Except.ok.inj h
                exact (s.keeps_lowerExpression index he).first.node.first.next.node
          · simp at h
      · simp at h

end

/-! ## Children -/

section

variable {t c : Tree} {ts ts' : List Tree} {r : Rule} {site : Site}

theorem eq_cons_of_takeChild (h : s.takeChild site r ts = .ok (t, ts')) : ts = t :: ts' := by
  cases ts with
  | nil => simp [takeChild] at h
  | cons c cs =>
      simp only [takeChild, bind_eq_ok] at h
      obtain ⟨-, -, h⟩ := h
      obtain ⟨rfl, rfl⟩ := Prod.mk.inj (Except.ok.inj h)
      rfl

theorem mem_children_of_onlyChild (h : s.onlyChild t = .ok c) : c ∈ t.children := by
  unfold onlyChild at h
  split at h
  · simp at h
  · next hchildren =>
      obtain rfl := Except.ok.inj h
      simp [hchildren]

end

theorem takeOptional_subset (r : Rule) (ts : List Tree) : (takeOptional r ts).2 ⊆ ts := by
  unfold takeOptional
  split
  · exact List.Subset.refl _
  · split
    · exact List.subset_cons_self _ _
    · exact List.Subset.refl _

theorem Keeps.mapM {α : Type} {f : Tree → Lowered α} {g : α → List Expression} {ts : List Tree}
    {vs : List α} (hf : ∀ t v, f t = .ok v → s.Keeps t.nodes (g v)) (h : ts.mapM f = .ok vs) :
    s.Keeps (Tree.nodesOf ts) (vs.flatMap g) := by
  induction ts generalizing vs with
  | nil =>
      obtain rfl := Except.ok.inj h
      exact .nil s _
  | cons t ts ih =>
      simp only [List.mapM_cons, bind_eq_ok] at h
      obtain ⟨v, hv, vs', hvs, h⟩ := h
      obtain rfl := Except.ok.inj h
      exact (hf t v hv).append (ih hvs)

/-! ## Calls -/

section

variable {t : Tree} {st : Statement} {site : Site} {children : List Tree}

theorem keeps_lowerCalloutArgument (h : s.lowerCalloutArgument t = .ok e) :
    s.Keeps t.nodes e.expressions := by
  simp only [lowerCalloutArgument, bind_eq_ok] at h
  obtain ⟨-, -, value, hvalue, h⟩ := h
  split at h
  · exact (keeps_lowerExpression s value h).mono
      (Tree.nodes_subset (mem_children_of_onlyChild hvalue))
  · simp at h
  · simp at h

theorem keeps_lowerCallout (h : s.lowerCallout t = .ok e) : s.Keeps t.nodes e.expressions := by
  simp only [lowerCallout, bind_eq_ok] at h
  obtain ⟨-, -, ⟨word, rest⟩, hword, ⟨name, rest'⟩, hname, h⟩ := h
  have hchildren := eq_cons_of_takeChild hword
  obtain rfl := eq_cons_of_takeChild hname
  split at h
  · simp at h
  · simp only [bind_eq_ok] at h
    obtain ⟨es, hes, h⟩ := h
    obtain rfl := Except.ok.inj h
    have harguments := Keeps.mapM (fun t v => keeps_lowerCalloutArgument) hes
    rw [← Expression.expressionsOf_eq] at harguments
    refine (harguments.cons (by simp)).mono (Tree.nodesOf_subset ?_)
    simp [hchildren]

theorem keeps_lowerCall (h : s.lowerCall t = .ok e) : s.Keeps t.nodes e.expressions := by
  simp only [lowerCall, bind_eq_ok] at h
  obtain ⟨-, -, call, hcall, h⟩ := h
  have hsubset := Tree.nodes_subset (mem_children_of_onlyChild hcall)
  split at h
  · exact (keeps_lowerMethodCall s call h).mono hsubset
  · exact (keeps_lowerCallout h).mono hsubset
  · simp at h

/-! ## Statements -/

theorem keeps_lowerAssignment (h : s.lowerAssignment site children = .ok st) :
    s.Keeps (Tree.nodesOf children) st.expressions := by
  simp only [lowerAssignment, bind_eq_ok] at h
  obtain ⟨⟨place, rest⟩, hplace, l, hl, ⟨value, others⟩, hvalue, e, he, h⟩ := h
  obtain rfl := Except.ok.inj h
  obtain rfl := eq_cons_of_takeChild hplace
  obtain rfl := eq_cons_of_takeChild hvalue
  exact (keeps_lowerLocation s place hl).append (keeps_lowerExpression s value he).first

theorem keeps_lowerExpressionStatement (h : s.lowerExpressionStatement site children = .ok st) :
    s.Keeps (Tree.nodesOf children) st.expressions := by
  simp only [lowerExpressionStatement, bind_eq_ok] at h
  obtain ⟨⟨call, rest⟩, hcall, e, he, h⟩ := h
  obtain rfl := Except.ok.inj h
  obtain rfl := eq_cons_of_takeChild hcall
  exact (keeps_lowerCall he).first

theorem keeps_lowerReturn (h : s.lowerReturn site children = .ok st) :
    s.Keeps (Tree.nodesOf children) st.expressions := by
  simp only [lowerReturn, bind_eq_ok] at h
  obtain ⟨⟨word, rest⟩, hword, h⟩ := h
  obtain rfl := eq_cons_of_takeChild hword
  cases rest with
  | nil =>
      obtain rfl := Except.ok.inj h
      exact .nil s _
  | cons value others =>
      dsimp only at h
      split at h
      · simp only [bind_eq_ok] at h
        obtain ⟨e, he, h⟩ := h
        obtain rfl := Except.ok.inj h
        exact (keeps_lowerExpression s value he).first.next
      · obtain rfl := Except.ok.inj h
        exact .nil s _

end

mutual

theorem keeps_lowerBlock (s : Source) : (t : Tree) → {b : Block} → s.lowerBlock t = .ok b →
    s.Keeps t.nodes b.expressions
  | .node rule start text children, b, h => by
      unfold lowerBlock at h
      simp only [bind_eq_ok] at h
      obtain ⟨-, -, ⟨declarations, statements⟩, hitems, h⟩ := h
      obtain rfl := Except.ok.inj h
      exact (s.keeps_lowerBlockItems children hitems).node

theorem keeps_lowerBlockItems (s : Source) : (ts : List Tree) → {started : Bool} →
    {items : List VariableDeclaration × List Statement} → s.lowerBlockItems started ts = .ok items →
    s.Keeps (Tree.nodesOf ts) (Statement.expressionsOf items.2)
  | [], started, items, h => by
      obtain rfl := Except.ok.inj h
      exact .nil s _
  | t :: ts, started, items, h => by
      unfold lowerBlockItems at h
      split at h
      · simp only [bind_eq_ok] at h
        obtain ⟨declaration, -, items', hitems, h⟩ := h
        obtain rfl := Except.ok.inj h
        exact (s.keeps_lowerBlockItems ts hitems).next
      · split at h
        · simp only [bind_eq_ok] at h
          obtain ⟨st, hst, items', hitems, h⟩ := h
          obtain rfl := Except.ok.inj h
          exact (s.keeps_lowerStatement t hst).append (s.keeps_lowerBlockItems ts hitems)
        · simp at h

theorem keeps_lowerStatement (s : Source) : (t : Tree) → {st : Statement} →
    s.lowerStatement t = .ok st → s.Keeps t.nodes st.expressions
  | .node rule start text [], st, h => by
      simp [lowerStatement, bind_eq_ok] at h
  | .node rule start text (.node rule' start' text' inner :: others), st, h => by
      unfold lowerStatement at h
      simp only [bind_eq_ok] at h
      obtain ⟨-, -, h⟩ := h
      have hinner : s.Keeps (Tree.nodesOf inner) st.expressions := by
        split at h
        · exact keeps_lowerAssignment h
        · exact keeps_lowerExpressionStatement h
        · exact s.keeps_lowerIf inner h
        · exact s.keeps_lowerWhile inner h
        · exact keeps_lowerReturn h
        · simp at h
      exact hinner.node.first.node

theorem keeps_lowerIf (s : Source) {site : Site} : (ts : List Tree) → {st : Statement} →
    s.lowerIf site ts = .ok st → s.Keeps (Tree.nodesOf ts) st.expressions
  | [], st, h | [_], st, h | [_, _], st, h => by simp [lowerIf, bind_eq_ok] at h
  | word :: test :: block :: rest, st, h => by
      unfold lowerIf at h
      simp only [bind_eq_ok] at h
      obtain ⟨-, -, -, -, e, he, -, -, b, hb, h⟩ := h
      have htest := keeps_lowerExpression s test he
      have hblock := s.keeps_lowerBlock block hb
      split at h
      · next start text inner others =>
          simp only [bind_eq_ok] at h
          obtain ⟨b', hb', h⟩ := h
          obtain rfl := Except.ok.inj h
          exact (htest.append (hblock.append (s.keeps_lowerElse inner hb').node.first)).next
      · obtain rfl := Except.ok.inj h
        exact (htest.append (hblock.append (.nil s _))).next

theorem keeps_lowerElse (s : Source) {site : Site} : (ts : List Tree) → {b : Block} →
    s.lowerElse site ts = .ok b → s.Keeps (Tree.nodesOf ts) b.expressions
  | [], b, h | [_], b, h => by simp [lowerElse, bind_eq_ok] at h
  | word :: block :: others, b, h => by
      unfold lowerElse at h
      simp only [bind_eq_ok] at h
      obtain ⟨-, -, -, -, h⟩ := h
      exact (s.keeps_lowerBlock block h).first.next

theorem keeps_lowerWhile (s : Source) {site : Site} : (ts : List Tree) → {st : Statement} →
    s.lowerWhile site ts = .ok st → s.Keeps (Tree.nodesOf ts) st.expressions
  | [], st, h | [_], st, h | [_, _], st, h => by simp [lowerWhile, bind_eq_ok] at h
  | word :: test :: block :: others, st, h => by
      unfold lowerWhile at h
      simp only [bind_eq_ok] at h
      obtain ⟨-, -, -, -, e, he, -, -, b, hb, h⟩ := h
      obtain rfl := Except.ok.inj h
      exact ((keeps_lowerExpression s test he).append (s.keeps_lowerBlock block hb).first).next

end

/-! ## Programs -/

section

variable {t : Tree} {ts : List Tree}

theorem keeps_lowerMethod {m : MethodDecl} (h : s.lowerMethod t = .ok m) :
    s.Keeps t.nodes m.expressions := by
  simp only [lowerMethod, bind_eq_ok] at h
  obtain ⟨-, -, ⟨typeName, rest⟩, htype, returnType, -, ⟨name, rest'⟩, hname, h⟩ := h
  have hchildren := eq_cons_of_takeChild htype
  obtain rfl := eq_cons_of_takeChild hname
  -- the parameters, if there are any, have no expressions
  obtain ⟨parameters, block, others, hblock, body, hbody, rfl⟩ :
      ∃ parameters block others, s.takeChild t.site (.phrase .block)
          (takeOptional (.phrase .paramList) rest').2 = .ok (block, others) ∧
        ∃ body, s.lowerBlock block = .ok body ∧
          m = ⟨s.positionAt t.start, returnType, name.string, parameters, body⟩ := by
    split at h
    all_goals
      simp only [bind_eq_ok] at h
      obtain ⟨parameters, -, ⟨block, others⟩, hblock, body, hbody, h⟩ := h
      exact ⟨parameters, block, others, hblock, body, hbody, (Except.ok.inj h).symm⟩
  have hmem : block ∈ t.children := by
    have hrest : block ∈ (takeOptional (.phrase .paramList) rest').2 := by
      rw [eq_cons_of_takeChild hblock]
      exact List.mem_cons_self
    rw [hchildren]
    exact List.mem_cons_of_mem _ (List.mem_cons_of_mem _ (takeOptional_subset _ _ hrest))
  exact (keeps_lowerBlock s block hbody).mono (Tree.nodes_subset hmem)

theorem keeps_lowerMembers {members : List VariableDeclaration × List MethodDecl}
    (h : s.lowerMembers ts = .ok members) :
    s.Keeps (Tree.nodesOf ts) (members.2.flatMap MethodDecl.expressions) := by
  induction ts generalizing members with
  | nil =>
      obtain rfl := Except.ok.inj h
      exact .nil s _
  | cons t ts ih =>
      unfold lowerMembers at h
      split at h
      · simp only [bind_eq_ok] at h
        obtain ⟨field, -, members', hmembers, h⟩ := h
        obtain rfl := Except.ok.inj h
        exact (ih hmembers).next
      · simp only [bind_eq_ok] at h
        obtain ⟨m, hm, members', hmembers, h⟩ := h
        obtain rfl := Except.ok.inj h
        exact (keeps_lowerMethod hm).append (ih hmembers)
      · simp at h

theorem keeps_lowerClass {c : ClassDecl} (h : s.lowerClass t = .ok c) :
    s.Keeps t.nodes c.expressions := by
  simp only [lowerClass, bind_eq_ok] at h
  obtain ⟨-, -, ⟨word, rest⟩, hword, ⟨name, rest'⟩, hname, superclass, -, members, hmembers, h⟩ := h
  have hchildren := eq_cons_of_takeChild hword
  obtain rfl := eq_cons_of_takeChild hname
  obtain rfl := Except.ok.inj h
  refine (keeps_lowerMembers hmembers).mono (Tree.nodesOf_subset ?_)
  rw [hchildren]
  exact fun n hn => List.mem_cons_of_mem _ (List.mem_cons_of_mem _ (takeOptional_subset _ _ hn))

/-- All simple expressions of a program are kept of nodes of its tree. -/
theorem keeps_lowerProgram {p : Program} (h : s.lowerProgram t = .ok p) :
    s.Keeps t.nodes p.expressions := by
  simp only [lowerProgram, bind_eq_ok] at h
  obtain ⟨-, -, classes, hclasses, h⟩ := h
  split at h
  · simp at h
  · obtain rfl := Except.ok.inj h
    refine (Keeps.mapM (fun t c => keeps_lowerClass) hclasses).mono (Tree.nodesOf_subset ?_)
    exact fun c hc => (List.mem_filter.1 hc).1

end

end Source

end DecafFrontEnd
