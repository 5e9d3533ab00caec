/-
  DecafFrontEnd/Proofs/Meaning/Position.lean --- where the parts of a meaning stand.

  `Source.Lays s c os d` says that trees with these outlines stand one behind the other
  between two places, each at its first lexeme and with its children within it.  What a
  text means is laid out so.
-/
import DecafFrontEnd.Proofs.Ast.Order
import DecafFrontEnd.Proofs.Meaning.Program

set_option autoImplicit false

namespace DecafFrontEnd

/-! ## Layout of outlines -/

/-- Outlines stand between two places, lexemes of their parents between them. -/
inductive Source.Lays (s : Source) : Cursor → List Outline → Cursor → Prop
  | done {c d : Cursor} {ls : List Lexeme} : c.Reads ls d → Lays s c [] d
  | own {c m n o d : Cursor} {ls : List Lexeme} {l : Lexeme} {kind : NodeKind}
      {children os : List Outline} : c.Reads ls m → m.Reads [l] n →
      kind.opens (.ofLexeme l) = true → Lays s n children o → Lays s o os d →
      Lays s c (.node kind (s.positionAt m.offset) children :: os) d
  | child {c m n o d : Cursor} {ls brackets : List Lexeme} {kind : NodeKind} {first : Outline}
      {others os : List Outline} : c.Reads ls m → kind.opensWithChild = true →
      m.Reads brackets n → (∀ b ∈ brackets, kind = .binary ∧ b.terminal = .lparen) →
      first.position = s.positionAt n.offset → Lays s n (first :: others) o → Lays s o os d →
      Lays s c (.node kind (s.positionAt m.offset) (first :: others) :: os) d

namespace Source.Lays

variable {s : Source} {c m n d : Cursor} {ls : List Lexeme} {l : Lexeme} {kind : NodeKind}
  {first : Outline} {children os os' others : List Outline}

theorem behind (h : s.Lays m os d) (hreads : c.Reads ls m) : s.Lays c os d := by
  cases h with
  | done h => exact .done (hreads.append h)
  | own h hl hopens hchildren hos => exact .own (hreads.append h) hl hopens hchildren hos
  | child h hopens hbrackets hall hfirst hchildren hos =>
      exact .child (hreads.append h) hopens hbrackets hall hfirst hchildren hos

theorem append (h : s.Lays c os m) (h' : s.Lays m os' d) : s.Lays c (os ++ os') d := by
  induction h with
  | done h => exact h'.behind h
  | own h hl hopens hchildren _ _ ih => exact .own h hl hopens hchildren (ih h')
  | child h hopens hbrackets hall hfirst hchildren _ _ ih =>
      exact .child h hopens hbrackets hall hfirst hchildren (ih h')

theorem before (h : s.Lays c os m) (hreads : m.Reads ls d) : s.Lays c os d := by
  rw [← List.append_nil os]
  exact h.append (.done hreads)

/-- Where an outline stands there is a lexeme. -/
theorem exists_reads (h : s.Lays c os d) : ∃ ls, c.Reads ls d ∧ (os ≠ [] → ls ≠ []) := by
  induction h with
  | done h => exact ⟨_, h, by simp⟩
  | own h hl _ _ _ ih ih' =>
      obtain ⟨ls, hls, -⟩ := ih
      obtain ⟨ls', hls', -⟩ := ih'
      exact ⟨_, h.append (hl.append (hls.append hls')), by simp⟩
  | child h _ hbrackets _ _ _ _ ih ih' =>
      obtain ⟨ls, hls, hne⟩ := ih
      obtain ⟨ls', hls', -⟩ := ih'
      exact ⟨_, h.append (hbrackets.append (hls.append hls')), by simp [hne]⟩

/-- A node that begins with a lexeme of its own. -/
theorem word (hreads : c.Reads [l] m) (hopens : kind.opens (.ofLexeme l) = true)
    (h : s.Lays m children d) :
    s.Lays c [.node kind (s.positionAt c.offset) children] d :=
  .own (.nil c) hreads hopens h (.done (.nil d))

/-- A node that begins with its first child. -/
theorem around (hopens : kind.opensWithChild = true)
    (hfirst : first.position = s.positionAt c.offset)
    (h : s.Lays c (first :: others) d) :
    s.Lays c [.node kind (s.positionAt c.offset) (first :: others)] d :=
  .child (.nil c) hopens (.nil c) (by simp) hfirst h (.done (.nil d))

end Source.Lays

/-! ## Expressions -/

theorem Location.position_outline (l : Location) : l.outline.position = l.position := by
  cases l
  rfl

theorem Expression.position_outline (e : Expression) : e.outline.position = e.position := by
  cases e <;> rfl

/-- Where a piece of an expression stands, and what is at its front. -/
def Fragment.IsLaid (s : Source) (c d : Cursor) : Fragment → Prop
  | .expression _ e => ∃ brackets m, c.Reads brackets m ∧ (∀ b ∈ brackets, b.terminal = .lparen) ∧
      e.position = s.positionAt m.offset ∧ s.Lays m [e.outline] d
  | .kept => ∃ l ls, c.Reads (l :: ls) d ∧ NodeKind.simple.opens (.ofLexeme l) = true
  | .location l => l.position = s.positionAt c.offset ∧ s.Lays c [l.outline] d ∧
      ∃ x ls, c.Reads (⟨.ident, x⟩ :: ls) d
  | .call e => e.position = s.positionAt c.offset ∧ s.Lays c [e.outline] d ∧
      ∃ x ls, c.Reads (⟨.ident, x⟩ :: ls) d
  | .arguments es => s.Lays c (Expression.outlines es) d

namespace Source

variable {s : Source} {c m n d : Cursor}

/-- An expression that stands where it begins. -/
theorem isLaid_expression {k : Nat} {e : Expression}
    (hposition : e.position = s.positionAt c.offset)
    (h : s.Lays c [e.outline] d) : (Fragment.expression k e).IsLaid s c d :=
  ⟨[], c, .nil c, by simp, hposition, h⟩

theorem isLaid_call {l : Location} {es : List Expression} {ls : List Lexeme}
    (hl : (Fragment.location l).IsLaid s c m) (hes : s.Lays m (Expression.outlines es) d)
    (hreads : m.Reads ls d) :
    (Fragment.call (.call (s.positionAt c.offset) l es)).IsLaid s c d := by
  obtain ⟨hposition, hlays, x, ls', hfront⟩ := hl
  refine ⟨rfl, .around rfl ?_ (hlays.append hes), x, _, hfront.append hreads⟩
  rw [Location.position_outline, hposition]

theorem Means.isLaid {p : Fragment} (h : s.Means c p d) : p.IsLaid s c d := by
  induction h with
  | tighter _ _ ih => exact ih
  | operation op _ hop _ ihl ihr =>
      obtain ⟨brackets, q, hbrackets, hall, hposition, hlhs⟩ := ihl
      obtain ⟨brackets', r, hbrackets', -, -, hrhs⟩ := ihr
      refine isLaid_expression rfl (.child (.nil _) rfl hbrackets (fun b hb => ⟨rfl, hall b hb⟩) ?_
        (hlhs.append (hrhs.behind (hop.append hbrackets'))) (.done (.nil _)))
      rw [Expression.position_outline, hposition]
  | negation hsign _ ih =>
      obtain ⟨brackets, q, hbrackets, -, -, hlays⟩ := ih
      exact isLaid_expression rfl (.word hsign rfl (hlays.behind hbrackets))
  | brackets hopen _ hclose ih =>
      obtain ⟨x, hopen⟩ := hopen
      obtain ⟨y, hclose⟩ := hclose
      obtain ⟨brackets, q, hbrackets, hall, hposition, hlays⟩ := ih
      refine ⟨_, q, hopen.append hbrackets, ?_, hposition, hlays.before hclose⟩
      rw [List.singleton_append, List.forall_mem_cons]
      exact ⟨rfl, hall⟩
  | integer hreads | character hreads | null hreads =>
      exact isLaid_expression rfl (.word hreads rfl (.done (.nil _)))
  | boolean b hreads =>
      refine isLaid_expression rfl (.word hreads ?_ (.done (.nil _)))
      cases b <;> rfl
  | simple _ _ ih =>
      obtain ⟨l, ls, hreads, hopens⟩ := ih
      cases hreads with
      | cons hl hls => exact isLaid_expression rfl (.word (.one hl) hopens (.done hls))
  | this hreads => exact ⟨_, [], hreads, rfl⟩
  | keptLocation _ ih | keptCall _ ih =>
      obtain ⟨-, -, x, ls, hreads⟩ := ih
      exact ⟨_, ls, hreads, rfl⟩
  | name hx => exact ⟨rfl, .word hx rfl (.done (.nil _)), _, [], hx⟩
  | field hx hdot hy =>
      obtain ⟨y, hdot⟩ := hdot
      exact ⟨rfl, .word hx rfl (.done (hdot.append hy)), _, _, hx.append (hdot.append hy)⟩
  | element hx hopen _ hclose ih =>
      obtain ⟨y, hopen⟩ := hopen
      obtain ⟨z, hclose⟩ := hclose
      obtain ⟨brackets, q, hbrackets, -, -, hlays⟩ := ih
      have hindex := (hlays.behind (hopen.append hbrackets)).before hclose
      obtain ⟨ls, hls, -⟩ := hindex.exists_reads
      exact ⟨rfl, .word hx rfl hindex, _, _, hx.append hls⟩
  | bareCall _ hopen hclose ih =>
      obtain ⟨y, hopen⟩ := hopen
      obtain ⟨z, hclose⟩ := hclose
      exact isLaid_call ih (.done (hopen.append hclose)) (hopen.append hclose)
  | call _ hopen _ hclose ihl iha =>
      obtain ⟨y, hopen⟩ := hopen
      obtain ⟨z, hclose⟩ := hclose
      have harguments := (Lays.behind iha hopen).before hclose
      obtain ⟨ls, hls, -⟩ := harguments.exists_reads
      exact isLaid_call ihl harguments hls
  | argument _ ih =>
      obtain ⟨brackets, q, hbrackets, -, -, hlays⟩ := ih
      exact hlays.behind hbrackets
  | arguments _ hcomma _ ihe ihs =>
      obtain ⟨x, hcomma⟩ := hcomma
      obtain ⟨brackets, q, hbrackets, -, -, hlays⟩ := ihe
      exact (hlays.behind hbrackets).append (Lays.behind ihs hcomma)

theorem MeansExpression.lays {e : Expression} (h : s.MeansExpression c e d) :
    s.Lays c [e.outline] d := by
  obtain ⟨brackets, q, hbrackets, -, -, hlays⟩ := Means.isLaid h
  exact hlays.behind hbrackets

end Source

/-! ## Several things -/

section

variable {α : Type} {R : Cursor → α → Cursor → Prop} {outline : α → Outline} {s : Source}
  {c d : Cursor} {xs : List α}

theorem Series.lays (h : Series R c xs d)
    (hR : ∀ {c x d}, R c x d → s.Lays c [outline x] d) : s.Lays c (xs.map outline) d := by
  induction h with
  | nil c => exact .done (.nil c)
  | cons hx _ ih => exact (hR hx).append ih

theorem BehindComma.lays {x : α} (h : BehindComma R c x d)
    (hR : ∀ {c x d}, R c x d → s.Lays c [outline x] d) : s.Lays c [outline x] d := by
  obtain ⟨⟨_, hcomma⟩, hx⟩ := h
  exact (hR hx).behind hcomma

theorem Listed.lays (h : Listed R c xs d)
    (hR : ∀ {c x d}, R c x d → s.Lays c [outline x] d) : s.Lays c (xs.map outline) d := by
  obtain ⟨hx, hothers⟩ := h
  exact (hR hx).append (hothers.lays fun hx => hx.lays hR)

end

namespace Source

variable {s : Source} {c m n d : Cursor}

theorem lays_of_marked {b : Bool} (h : c.Marked b d) : s.Lays c [] d := by
  cases h with
  | plain => exact .done (.nil c)
  | array hopen hclose =>
      obtain ⟨_, hopen⟩ := hopen
      obtain ⟨_, hclose⟩ := hclose
      exact .done (hopen.append hclose)

/-! ## Declarations -/

theorem MeansType.isLaid {t : TypeRef} (h : s.MeansType c t d) :
    t.position = s.positionAt c.offset ∧ s.Lays c [t.outline] d := by
  cases h with
  | int hreads | boolean hreads | named hreads =>
      exact ⟨rfl, .word hreads rfl (.done (.nil d))⟩

theorem MeansBind.lays {b : VarBind} (h : s.MeansBind c b d) : s.Lays c [b.outline] d := by
  obtain ⟨hx, hmark⟩ := h
  exact .word hx rfl (lays_of_marked hmark)

theorem MeansDeclaration.lays {declaration : VariableDeclaration}
    (h : s.MeansDeclaration c declaration d) : s.Lays c [declaration.outline] d := by
  obtain ⟨htype, hbinds, _, hend⟩ := h
  obtain ⟨hposition, hlays⟩ := htype.isLaid
  exact .around rfl hposition (hlays.append ((hbinds.lays MeansBind.lays).before hend))

/-! ## Statements -/

theorem MeansCall.isLaid {e : Expression} (h : s.MeansCall c e d) :
    e.position = s.positionAt c.offset ∧ s.Lays c [e.outline] d := by
  cases h with
  | call h =>
      obtain ⟨hposition, hlays, -⟩ := h.isLaid
      exact ⟨hposition, hlays⟩
  | callout hword hopen hstring harguments hclose =>
      obtain ⟨_, hopen⟩ := hopen
      obtain ⟨_, hclose⟩ := hclose
      have hlays := harguments.lays fun h => h.lays MeansExpression.lays
      refine ⟨rfl, .word hword rfl ?_⟩
      rw [Expression.outlines_eq_map]
      exact (hlays.before hclose).behind (hopen.append hstring)

end Source

/-- The outlines of what stands in a method. -/
def Clause.outlines : Clause → List Outline
  | .block b => [b.outline]
  | .statement st => [st.outline]
  | .statements sts => Statement.outlines sts

namespace Source

variable {s : Source} {c m n d : Cursor}

/-- A condition between brackets and what stands behind it. -/
theorem lays_condition {o p : Cursor} {e : Expression} {os : List Outline}
    (hopen : c.Passes .lparen m) (he : s.Means m (.expression 0 e) o) (hclose : o.Passes .rparen p)
    (h : s.Lays p os d) : s.Lays c (e.outline :: os) d := by
  obtain ⟨_, hopen⟩ := hopen
  obtain ⟨_, hclose⟩ := hclose
  exact ((MeansExpression.lays he).behind hopen).append (h.behind hclose)

theorem Says.lays {clause : Clause} (h : s.Says c clause d) : s.Lays c clause.outlines d := by
  induction h with
  | block hopen hdeclarations _ hclose ih =>
      obtain ⟨_, hopen⟩ := hopen
      obtain ⟨_, hclose⟩ := hclose
      exact .word hopen rfl
        ((hdeclarations.lays MeansDeclaration.lays).append (Lays.before ih hclose))
  | done c => exact .done (.nil c)
  | next _ _ ih ihs => exact Lays.append ih ihs
  | assignment hl hsign he hend =>
      obtain ⟨_, hsign⟩ := hsign
      obtain ⟨_, hend⟩ := hend
      obtain ⟨hposition, hlays, -⟩ := hl.isLaid
      refine .around rfl ?_ (hlays.append (((MeansExpression.lays he).behind hsign).before hend))
      rw [Location.position_outline, hposition]
  | call hcall hend =>
      obtain ⟨_, hend⟩ := hend
      obtain ⟨hposition, hlays⟩ := hcall.isLaid
      refine .around rfl ?_ (hlays.before hend)
      rw [Expression.position_outline, hposition]
  | returnNothing hword hend =>
      obtain ⟨_, hend⟩ := hend
      exact .word hword rfl (.done hend)
  | returnValue hword he hend =>
      obtain ⟨_, hend⟩ := hend
      exact .word hword rfl ((MeansExpression.lays he).before hend)
  | ifThen hword hopen he hclose _ ih => exact .word hword rfl (lays_condition hopen he hclose ih)
  | ifElse hword hopen he hclose _ helse _ ih ih' =>
      exact .word hword rfl
        (lays_condition hopen he hclose (Lays.append ih (Lays.behind ih' helse)))
  | whileLoop hword hopen he hclose _ ih =>
      exact .word hword rfl (lays_condition hopen he hclose ih)

/-! ## Programs -/

theorem MeansReturnType.isLaid {t : TypeRef} (h : s.MeansReturnType c t d) :
    t.position = s.positionAt c.offset ∧ s.Lays c [t.outline] d := by
  cases h with
  | void hreads => exact ⟨rfl, .word hreads rfl (.done (.nil d))⟩
  | type h => exact h.isLaid

theorem MeansParameter.lays {p : Parameter} (h : s.MeansParameter c p d) :
    s.Lays c [p.outline] d := by
  obtain ⟨htype, hx, hmark⟩ := h
  obtain ⟨hposition, hlays⟩ := htype.isLaid
  exact .around rfl hposition (hlays.append ((lays_of_marked hmark).behind hx))

theorem MeansParameters.lays {ps : List Parameter} (h : s.MeansParameters c ps d) :
    s.Lays c (ps.map Parameter.outline) d := by
  cases h with
  | none => exact .done (.nil c)
  | some h => exact h.lays MeansParameter.lays

theorem MeansMethod.lays {method : MethodDecl} (h : s.MeansMethod c method d) :
    s.Lays c [method.outline] d := by
  obtain ⟨htype, hx, ⟨_, hopen⟩, hparameters, ⟨_, hclose⟩, hbody⟩ := h
  obtain ⟨hposition, hlays⟩ := htype.isLaid
  exact .around rfl hposition (hlays.append
    (((hparameters.lays).behind (hx.append hopen)).append (hbody.lays.behind hclose)))

theorem MeansClass.isLaid {declaration : ClassDecl} (h : s.MeansClass c declaration d) :
    declaration.position = s.positionAt c.offset ∧ s.Lays c [declaration.outline] d := by
  obtain ⟨hword, hx, hsuper, ⟨_, hopen⟩, hfields, hmethods, _, hclose⟩ := h
  have hmembers := (hfields.lays MeansDeclaration.lays).append
    ((hmethods.lays MeansMethod.lays).before hclose)
  refine ⟨rfl, .word hword rfl ?_⟩
  cases hsuper with
  | none => exact hmembers.behind (hx.append hopen)
  | some hextends hy => exact hmembers.behind (hx.append (hextends.append (hy.append hopen)))

/-- The nodes of a program stand in its text. -/
theorem MeansProgram.lays {p : Program} (h : s.MeansProgram p) :
    ∃ d, s.Lays s.firstPlace [p.outline] d ∧ d.rest = [] := by
  obtain ⟨hclasses, hend⟩ := h
  cases id hclasses with
  | cons hfirst _ =>
      obtain ⟨hposition, -⟩ := hfirst.isLaid
      have hlays := hclasses.lays fun h => h.isLaid.2
      rw [Program.outline, hposition]
      exact ⟨_, .around rfl hposition hlays, hend⟩

end Source

end DecafFrontEnd
