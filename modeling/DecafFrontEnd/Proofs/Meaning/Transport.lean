/-
  DecafFrontEnd/Proofs/Meaning/Transport.lean --- meanings in other layouts.

  What the text between two places means it means, up to layout, wherever the same
  lexemes are read: `Moves R recast c x d` says so of one relation.  The trivia between
  the lexemes shows in two places only, the positions and the texts that are kept, and
  those are what `recast` takes off.
-/
import DecafFrontEnd.Proofs.Ast.Respell
import DecafFrontEnd.Proofs.Meaning.Program

set_option autoImplicit false

namespace DecafFrontEnd

/-! ## Nodes without their layout -/

/-- A location with its kept texts changed and without its positions. -/
def Location.recast (g : String → String) (l : Location) : Location :=
  (l.respell g).relocate fun _ => default

/-- An expression with its kept texts changed and without its positions. -/
def Expression.recast (g : String → String) (e : Expression) : Expression :=
  (e.respell g).unplaced

/-- A block with its kept texts changed and without its positions. -/
def Block.recast (g : String → String) (b : Block) : Block :=
  (b.respell g).relocate fun _ => default

/-- A statement with its kept texts changed and without its positions. -/
def Statement.recast (g : String → String) (st : Statement) : Statement :=
  (st.respell g).relocate fun _ => default

/-- Several things, each recast. -/
def recastAll {α : Type} (recast : (String → String) → α → α) (g : String → String)
    (xs : List α) : List α := xs.map (recast g)

@[simp] theorem recastAll_nil {α : Type} (recast : (String → String) → α → α)
    (g : String → String) : recastAll recast g [] = [] := rfl

@[simp] theorem recastAll_cons {α : Type} (recast : (String → String) → α → α)
    (g : String → String) (x : α) (xs : List α) :
    recastAll recast g (x :: xs) = recast g x :: recastAll recast g xs := rfl

namespace Expression

variable {g : String → String} {p : Position}

@[simp] theorem recast_simple (text : String) :
    (simple p text).recast g = .simple default (g text) := rfl

@[simp] theorem recast_binary (lhs : Expression) (sign : String) (rhs : Expression) :
    (binary p lhs sign rhs).recast g = .binary default (lhs.recast g) sign (rhs.recast g) := rfl

@[simp] theorem recast_unary (sign : String) (e : Expression) :
    (unary p sign e).recast g = .unary default sign (e.recast g) := rfl

theorem relocateAll_respellAll (g : String → String) (es : List Expression) :
    relocateAll (fun _ => default) (respellAll g es) = recastAll recast g es := by
  induction es with
  | nil => rfl
  | cons e es ih => rw [respellAll, relocateAll, ih]; rfl

@[simp] theorem recast_call (l : Location) (es : List Expression) :
    (call p l es).recast g = .call default (l.recast g) (recastAll recast g es) := by
  rw [← relocateAll_respellAll]
  rfl

@[simp] theorem recast_callout (name : String) (es : List Expression) :
    (callout p name es).recast g = .callout default name (recastAll recast g es) := by
  rw [← relocateAll_respellAll]
  rfl

end Expression

@[simp] theorem Location.recast_mk (g : String → String) (p : Position) (x : String)
    (y : Option String) (index : Option Expression) :
    Location.recast g ⟨p, x, y, index⟩ = ⟨default, x, y, index.map (Expression.recast g)⟩ := by
  cases index <;> rfl

/-! ## Moving to another layout -/

section

variable {α : Type}

/-- Wherever these lexemes are read, something stands that differs from the given in its
layout only. -/
def Transfers (R : Source → Cursor → α → Cursor → Prop) (recast : (String → String) → α → α)
    (ls : List Lexeme) (x : α) : Prop :=
  ∀ {s : Source} {c d : Cursor}, c.Rested → c.Reads ls d →
    ∃ x', R s c x' d ∧ ∀ f : List (TokenKind × String) → String,
      recast (f ∘ tokensOf) x = recast (f ∘ tokensOf) x'

/-- What stands between two places stands, up to layout, wherever the same lexemes are
read. -/
def Moves (R : Source → Cursor → α → Cursor → Prop) (recast : (String → String) → α → α)
    (c : Cursor) (x : α) (d : Cursor) : Prop :=
  ∃ ls, c.Reads ls d ∧ Transfers R recast ls x

end

/-- A piece of an expression that stands wherever these lexemes are read. -/
def Fragment.Transfers : Fragment → List Lexeme → Prop
  | .expression k e, ls =>
      DecafFrontEnd.Transfers (fun s c e d => s.Means c (.expression k e) d) Expression.recast ls e
  | .kept, ls =>
      ∀ {s : Source} {c d : Cursor}, c.Rested → c.Reads ls d → s.Means c .kept d
  | .location l, ls =>
      DecafFrontEnd.Transfers (fun s c l d => s.Means c (.location l) d) Location.recast ls l
  | .call e, ls =>
      DecafFrontEnd.Transfers (fun s c e d => s.Means c (.call e) d) Expression.recast ls e
  | .arguments es, ls =>
      DecafFrontEnd.Transfers (fun s c es d => s.Means c (.arguments es) d)
        (recastAll Expression.recast) ls es

namespace Source

variable {s : Source} {c d : Cursor}

/-- A simple expression is kept with the tokens that it has. -/
theorem transfers_simple {ls : List Lexeme} {text : List Char} {p : Position} (hc : c.Rested)
    (htext : c.Holds text d) (hreads : c.Reads ls d) (h : Fragment.kept.Transfers ls) :
    (Fragment.expression 6 (.simple p (String.ofList text))).Transfers ls := by
  intro s' c' d' hc' hreads'
  have hne : ls ≠ [] := by
    rintro rfl
    cases hreads
    exact absurd htext.length_lt (Nat.lt_irrefl _)
  obtain ⟨text', htext'⟩ := Cursor.Holds.of_reads hreads' hne
  refine ⟨_, .simple (h hc' hreads') htext', fun f => ?_⟩
  simp only [Expression.recast_simple, Function.comp_apply, tokensOf_eq htext hc hreads,
    tokensOf_eq htext' hc' hreads']

/-- What the text between two places means it means, up to layout, in every layout. -/
theorem Means.transfers {p : Fragment} (h : s.Means c p d) (hc : c.Rested) :
    ∃ ls, c.Reads ls d ∧ p.Transfers ls := by
  induction h with
  | tighter hk _ ih =>
      obtain ⟨ls, hreads, ht⟩ := ih hc
      refine ⟨ls, hreads, fun hc' hreads' => ?_⟩
      obtain ⟨e', he', hsame⟩ := ht hc' hreads'
      exact ⟨e', .tighter hk he', hsame⟩
  | operation op _ hop _ ihl ihr =>
      obtain ⟨ls, hreads, htl⟩ := ihl hc
      have hn := hop.rested (hreads.rested hc)
      obtain ⟨ls', hreads', htr⟩ := ihr hn
      refine ⟨_, hreads.append (hop.append hreads'), fun hc' h' => ?_⟩
      obtain ⟨m', hm', h'⟩ := h'.split
      obtain ⟨n', hop', hn'⟩ := h'.split
      obtain ⟨l, hl, hsamel⟩ := htl hc' hm'
      obtain ⟨r, hr, hsamer⟩ := htr (hop'.rested (hm'.rested hc')) hn'
      refine ⟨_, .operation op hl hop' hr, fun f => ?_⟩
      rw [Expression.recast_binary, Expression.recast_binary, hsamel f, hsamer f]
  | negation hsign _ ih =>
      obtain ⟨ls, hreads, ht⟩ := ih (hsign.rested hc)
      refine ⟨_, hsign.append hreads, fun hc' h' => ?_⟩
      obtain ⟨m', hsign', h'⟩ := h'.split
      obtain ⟨e', he', hsame⟩ := ht (hsign'.rested hc') h'
      refine ⟨_, .negation hsign' he', fun f => ?_⟩
      rw [Expression.recast_unary, Expression.recast_unary, hsame f]
  | brackets hopen _ hclose ih =>
      obtain ⟨_, hopen⟩ := hopen
      obtain ⟨_, hclose⟩ := hclose
      obtain ⟨ls, hreads, ht⟩ := ih (hopen.rested hc)
      refine ⟨_, hopen.append (hreads.append hclose), fun hc' h' => ?_⟩
      obtain ⟨m', hopen', h'⟩ := h'.split
      obtain ⟨n', h', hclose'⟩ := h'.split
      obtain ⟨e', he', hsame⟩ := ht (hopen'.rested hc') h'
      exact ⟨e', .brackets ⟨_, hopen'⟩ he' ⟨_, hclose'⟩, hsame⟩
  | integer hreads hle => exact ⟨_, hreads, fun _ h' => ⟨_, .integer h' hle, fun _ => rfl⟩⟩
  | character hreads => exact ⟨_, hreads, fun _ h' => ⟨_, .character h', fun _ => rfl⟩⟩
  | boolean b hreads => exact ⟨_, hreads, fun _ h' => ⟨_, .boolean b h', fun _ => rfl⟩⟩
  | null hreads => exact ⟨_, hreads, fun _ h' => ⟨_, .null h', fun _ => rfl⟩⟩
  | simple _ htext ih =>
      obtain ⟨ls, hreads, ht⟩ := ih hc
      exact ⟨ls, hreads, transfers_simple hc htext hreads ht⟩
  | this hreads => exact ⟨_, hreads, fun _ h' => .this h'⟩
  | keptLocation _ ih =>
      obtain ⟨ls, hreads, ht⟩ := ih hc
      refine ⟨ls, hreads, fun hc' h' => ?_⟩
      obtain ⟨l', hl', -⟩ := ht hc' h'
      exact .keptLocation hl'
  | keptCall _ ih =>
      obtain ⟨ls, hreads, ht⟩ := ih hc
      refine ⟨ls, hreads, fun hc' h' => ?_⟩
      obtain ⟨e', he', -⟩ := ht hc' h'
      exact .keptCall he'
  | name hx =>
      refine ⟨_, hx, fun _ h' => ⟨_, .name h', fun _ => rfl⟩⟩
  | field hx hdot hy =>
      obtain ⟨_, hdot⟩ := hdot
      refine ⟨_, hx.append (hdot.append hy), fun _ h' => ?_⟩
      obtain ⟨m', hx', h'⟩ := h'.split
      obtain ⟨n', hdot', hy'⟩ := h'.split
      exact ⟨_, .field hx' ⟨_, hdot'⟩ hy', fun _ => rfl⟩
  | element hx hopen _ hclose ih =>
      obtain ⟨_, hopen⟩ := hopen
      obtain ⟨_, hclose⟩ := hclose
      obtain ⟨ls, hreads, ht⟩ := ih (hopen.rested (hx.rested hc))
      refine ⟨_, hx.append (hopen.append (hreads.append hclose)), fun hc' h' => ?_⟩
      obtain ⟨m', hx', h'⟩ := h'.split
      obtain ⟨n', hopen', h'⟩ := h'.split
      obtain ⟨o', h', hclose'⟩ := h'.split
      obtain ⟨e', he', hsame⟩ := ht (hopen'.rested (hx'.rested hc')) h'
      refine ⟨_, .element hx' ⟨_, hopen'⟩ he' ⟨_, hclose'⟩, fun f => ?_⟩
      simp only [Location.recast_mk, Option.map_some, hsame f]
  | bareCall _ hopen hclose ih =>
      obtain ⟨_, hopen⟩ := hopen
      obtain ⟨_, hclose⟩ := hclose
      obtain ⟨ls, hreads, ht⟩ := ih hc
      refine ⟨_, hreads.append (hopen.append hclose), fun hc' h' => ?_⟩
      obtain ⟨m', h', h''⟩ := h'.split
      obtain ⟨n', hopen', hclose'⟩ := h''.split
      obtain ⟨l', hl', hsame⟩ := ht hc' h'
      refine ⟨_, .bareCall hl' ⟨_, hopen'⟩ ⟨_, hclose'⟩, fun f => ?_⟩
      rw [Expression.recast_call, Expression.recast_call, hsame f]
  | call _ hopen _ hclose ihl iha =>
      obtain ⟨_, hopen⟩ := hopen
      obtain ⟨_, hclose⟩ := hclose
      obtain ⟨ls, hreads, htl⟩ := ihl hc
      obtain ⟨ls', hreads', hta⟩ := iha (hopen.rested (hreads.rested hc))
      refine ⟨_, hreads.append (hopen.append (hreads'.append hclose)), fun hc' h' => ?_⟩
      obtain ⟨m', hm', h'⟩ := h'.split
      obtain ⟨n', hopen', h'⟩ := h'.split
      obtain ⟨o', ho', hclose'⟩ := h'.split
      obtain ⟨l', hl', hsame⟩ := htl hc' hm'
      obtain ⟨es', hes', hsames⟩ := hta (hopen'.rested (hm'.rested hc')) ho'
      refine ⟨_, .call hl' ⟨_, hopen'⟩ hes' ⟨_, hclose'⟩, fun f => ?_⟩
      rw [Expression.recast_call, Expression.recast_call, hsame f, hsames f]
  | argument _ ih =>
      obtain ⟨ls, hreads, ht⟩ := ih hc
      refine ⟨ls, hreads, fun hc' h' => ?_⟩
      obtain ⟨e', he', hsame⟩ := ht hc' h'
      exact ⟨[e'], .argument he', fun f => by rw [recastAll_cons, recastAll_cons, hsame f]⟩
  | arguments _ hcomma _ ihe ihs =>
      obtain ⟨_, hcomma⟩ := hcomma
      obtain ⟨ls, hreads, hte⟩ := ihe hc
      obtain ⟨ls', hreads', hts⟩ := ihs (hcomma.rested (hreads.rested hc))
      refine ⟨_, hreads.append (hcomma.append hreads'), fun hc' h' => ?_⟩
      obtain ⟨m', hm', h'⟩ := h'.split
      obtain ⟨n', hcomma', hn'⟩ := h'.split
      obtain ⟨e', he', hsame⟩ := hte hc' hm'
      obtain ⟨es', hes', hsames⟩ := hts (hcomma'.rested (hm'.rested hc')) hn'
      exact ⟨e' :: es', .arguments he' ⟨_, hcomma'⟩ hes', fun f => by
        rw [recastAll_cons, recastAll_cons, hsame f, hsames f]⟩

end Source

/-! ## Several things -/

section

variable {α : Type} {R : Source → Cursor → α → Cursor → Prop}
  {recast : (String → String) → α → α} {s : Source} {c d : Cursor} {xs : List α}

theorem Series.moves (h : Series (R s) c xs d) (hc : c.Rested)
    (hR : ∀ {c x d}, c.Rested → R s c x d → Moves R recast c x d) :
    Moves (fun s => Series (R s)) (recastAll recast) c xs d := by
  induction h with
  | nil c =>
      refine ⟨[], .nil c, fun _ h' => ?_⟩
      cases h'
      exact ⟨[], .nil _, fun _ => rfl⟩
  | cons hx _ ih =>
      obtain ⟨ls, hreads, hx⟩ := hR hc hx
      obtain ⟨ls', hreads', hxs⟩ := ih (hreads.rested hc)
      refine ⟨_, hreads.append hreads', fun hc' h' => ?_⟩
      obtain ⟨m', hm', h'⟩ := h'.split
      obtain ⟨x', hx', hsame⟩ := hx hc' hm'
      obtain ⟨xs', hxs', hsames⟩ := hxs (hm'.rested hc') h'
      exact ⟨x' :: xs', .cons hx' hxs', fun f => by
        rw [recastAll_cons, recastAll_cons, hsame f, hsames f]⟩

theorem BehindComma.moves {x : α} (h : BehindComma (R s) c x d) (hc : c.Rested)
    (hR : ∀ {c x d}, c.Rested → R s c x d → Moves R recast c x d) :
    Moves (fun s => BehindComma (R s)) recast c x d := by
  obtain ⟨⟨_, hcomma⟩, hx⟩ := h
  obtain ⟨ls, hreads, hx⟩ := hR (hcomma.rested hc) hx
  refine ⟨_, hcomma.append hreads, fun hc' h' => ?_⟩
  obtain ⟨m', hcomma', h'⟩ := h'.split
  obtain ⟨x', hx', hsame⟩ := hx (hcomma'.rested hc') h'
  exact ⟨x', .behind ⟨_, hcomma'⟩ hx', hsame⟩

theorem Listed.moves (h : Listed (R s) c xs d) (hc : c.Rested)
    (hR : ∀ {c x d}, c.Rested → R s c x d → Moves R recast c x d) :
    Moves (fun s => Listed (R s)) (recastAll recast) c xs d := by
  obtain ⟨hx, hxs⟩ := h
  obtain ⟨ls, hreads, hx⟩ := hR hc hx
  obtain ⟨ls', hreads', hxs⟩ := Series.moves (R := fun s => BehindComma (R s)) hxs
    (hreads.rested hc) fun hc h => h.moves hc hR
  refine ⟨_, hreads.append hreads', fun hc' h' => ?_⟩
  obtain ⟨m', hm', h'⟩ := h'.split
  obtain ⟨x', hx', hsame⟩ := hx hc' hm'
  obtain ⟨xs', hxs', hsames⟩ := hxs (hm'.rested hc') h'
  exact ⟨x' :: xs', .listed hx' hxs', fun f => by
    rw [recastAll_cons, recastAll_cons, hsame f, hsames f]⟩

end

/-! ## Types and variables -/

/-- A type without its position.  Types, declared names and parameters have no kept texts in
them. -/
def TypeRef.recast (_ : String → String) (t : TypeRef) : TypeRef := t.relocate fun _ => default

/-- A variable without its position. -/
def VarBind.recast (_ : String → String) (b : VarBind) : VarBind := b.relocate fun _ => default

/-- A declaration without its positions. -/
def VariableDeclaration.recast (_ : String → String) (d : VariableDeclaration) :
    VariableDeclaration := d.relocate fun _ => default

/-- A parameter without its positions. -/
def Parameter.recast (_ : String → String) (p : Parameter) : Parameter :=
  p.relocate fun _ => default

@[simp] theorem VariableDeclaration.recast_mk (g : String → String) (p : Position) (t : TypeRef)
    (bs : List VarBind) :
    VariableDeclaration.recast g ⟨p, t, bs⟩ =
      ⟨default, t.recast g, recastAll VarBind.recast g bs⟩ := rfl

@[simp] theorem Parameter.recast_mk (g : String → String) (p : Position) (t : TypeRef)
    (x : String) (b : Bool) :
    Parameter.recast g ⟨p, t, x, b⟩ = ⟨default, t.recast g, x, b⟩ := rfl

theorem Cursor.Marked.moves {c d : Cursor} {b : Bool} (h : c.Marked b d) :
    ∃ ls, c.Reads ls d ∧ ∀ {c' d' : Cursor}, c'.Reads ls d' → c'.Marked b d' := by
  cases h with
  | plain =>
      refine ⟨[], .nil c, fun h' => ?_⟩
      cases h'
      exact .plain _
  | array hopen hclose =>
      obtain ⟨_, hopen⟩ := hopen
      obtain ⟨_, hclose⟩ := hclose
      refine ⟨_, hopen.append hclose, fun h' => ?_⟩
      obtain ⟨m', hopen', hclose'⟩ := h'.split
      exact .array ⟨_, hopen'⟩ ⟨_, hclose'⟩

namespace Source

variable {s : Source} {c d : Cursor}

theorem MeansType.moves {t : TypeRef} (h : s.MeansType c t d) :
    Moves MeansType TypeRef.recast c t d := by
  cases h with
  | int h => exact ⟨_, h, fun _ h' => ⟨_, .int h', fun _ => rfl⟩⟩
  | boolean h => exact ⟨_, h, fun _ h' => ⟨_, .boolean h', fun _ => rfl⟩⟩
  | named h => exact ⟨_, h, fun _ h' => ⟨_, .named h', fun _ => rfl⟩⟩

theorem MeansBind.moves {b : VarBind} (h : s.MeansBind c b d) :
    Moves MeansBind VarBind.recast c b d := by
  obtain ⟨hx, hmark⟩ := h
  obtain ⟨ls, hreads, hmoves⟩ := hmark.moves
  refine ⟨_, hx.append hreads, fun _ h' => ?_⟩
  obtain ⟨m', hx', h'⟩ := h'.split
  exact ⟨_, .bind hx' (hmoves h'), fun _ => rfl⟩

theorem MeansDeclaration.moves {declaration : VariableDeclaration} (hc : c.Rested)
    (h : s.MeansDeclaration c declaration d) :
    Moves MeansDeclaration VariableDeclaration.recast c declaration d := by
  obtain ⟨htype, hbinds, _, hend⟩ := h
  obtain ⟨ls, hreads, ht⟩ := htype.moves
  obtain ⟨ls', hreads', hbs⟩ := hbinds.moves (hreads.rested hc) fun _ h => h.moves
  refine ⟨_, hreads.append (hreads'.append hend), fun hc' h' => ?_⟩
  obtain ⟨m', hm', h'⟩ := h'.split
  obtain ⟨n', hn', hend'⟩ := h'.split
  obtain ⟨t', ht', hsame⟩ := ht hc' hm'
  obtain ⟨bs', hbs', hsames⟩ := hbs (hm'.rested hc') hn'
  refine ⟨_, .declaration ht' hbs' ⟨_, hend'⟩, fun f => ?_⟩
  rw [VariableDeclaration.recast_mk, VariableDeclaration.recast_mk, hsame f, hsames f]

/-! ## Calls -/

theorem MeansExpression.moves {e : Expression} (hc : c.Rested) (h : s.MeansExpression c e d) :
    Moves MeansExpression Expression.recast c e d := Means.transfers h hc

theorem MeansCall.moves {e : Expression} (hc : c.Rested) (h : s.MeansCall c e d) :
    Moves MeansCall Expression.recast c e d := by
  cases h with
  | call h =>
      obtain ⟨ls, hreads, ht⟩ := h.transfers hc
      refine ⟨ls, hreads, fun hc' h' => ?_⟩
      obtain ⟨e', he', hsame⟩ := ht hc' h'
      exact ⟨e', .call he', hsame⟩
  | callout hword hopen hstring harguments hclose =>
      obtain ⟨_, hopen⟩ := hopen
      obtain ⟨_, hclose⟩ := hclose
      have ho := hstring.rested (hopen.rested (hword.rested hc))
      obtain ⟨ls, hreads, hes⟩ := Series.moves (R := fun s => BehindComma s.MeansExpression)
        harguments ho fun hc h => h.moves hc MeansExpression.moves
      refine ⟨_, hword.append (hopen.append (hstring.append (hreads.append hclose))),
        fun hc' h' => ?_⟩
      obtain ⟨m', hword', h'⟩ := h'.split
      obtain ⟨n', hopen', h'⟩ := h'.split
      obtain ⟨o', hstring', h'⟩ := h'.split
      obtain ⟨p', h', hclose'⟩ := h'.split
      have ho' := hstring'.rested (hopen'.rested (hword'.rested hc'))
      obtain ⟨es', hes', hsames⟩ := hes ho' h'
      refine ⟨_, .callout hword' ⟨_, hopen'⟩ hstring' hes' ⟨_, hclose'⟩, fun f => ?_⟩
      rw [Expression.recast_callout, Expression.recast_callout, hsames f]

end Source

/-! ## Statements -/

theorem Statement.relocateAll_respellAll (g : String → String) (sts : List Statement) :
    relocateAll (fun _ => default) (respellAll g sts) = recastAll recast g sts := by
  induction sts with
  | nil => rfl
  | cons st sts ih => rw [respellAll, relocateAll, ih]; rfl

@[simp] theorem Block.recast_mk (g : String → String) (p : Position)
    (declarations : List VariableDeclaration) (statements : List Statement) :
    Block.recast g ⟨p, declarations, statements⟩ =
      ⟨default, recastAll VariableDeclaration.recast g declarations,
        recastAll Statement.recast g statements⟩ := by
  rw [← Statement.relocateAll_respellAll]
  rfl

namespace Statement

variable {g : String → String} {p : Position}

@[simp] theorem recast_assignment (l : Location) (e : Expression) :
    (assignment p l e).recast g = .assignment default (l.recast g) (e.recast g) := rfl

@[simp] theorem recast_expressionStatement (e : Expression) :
    (expressionStatement p e).recast g = .expressionStatement default (e.recast g) := rfl

@[simp] theorem recast_ifStatement (e : Expression) (b : Block) (b' : Option Block) :
    (ifStatement p e b b').recast g =
      .ifStatement default (e.recast g) (b.recast g) (b'.map (Block.recast g)) := by
  cases b' <;> rfl

@[simp] theorem recast_whileStatement (e : Expression) (b : Block) :
    (whileStatement p e b).recast g = .whileStatement default (e.recast g) (b.recast g) := rfl

@[simp] theorem recast_returnStatement (e : Option Expression) :
    (returnStatement p e).recast g = .returnStatement default (e.map (Expression.recast g)) := by
  cases e <;> rfl

end Statement

/-- What stands in a method wherever these lexemes are read. -/
def Clause.Transfers : Clause → List Lexeme → Prop
  | .block b, ls =>
      DecafFrontEnd.Transfers (fun s c b d => s.Says c (.block b) d) Block.recast ls b
  | .statement st, ls =>
      DecafFrontEnd.Transfers (fun s c st d => s.Says c (.statement st) d) Statement.recast ls st
  | .statements sts, ls =>
      DecafFrontEnd.Transfers (fun s c sts d => s.Says c (.statements sts) d)
        (recastAll Statement.recast) ls sts

namespace Source

variable {s : Source} {c d : Cursor}

theorem MeansCondition.moves {k : Keyword} {e : Expression} (hc : c.Rested)
    (h : s.MeansCondition k c e d) :
    Moves (fun s => s.MeansCondition k) Expression.recast c e d := by
  obtain ⟨hword, ⟨_, hopen⟩, he, ⟨_, hclose⟩⟩ := h
  obtain ⟨ls, hreads, ht⟩ := he.transfers (hopen.rested (hword.rested hc))
  refine ⟨_, hword.append (hopen.append (hreads.append hclose)), fun hc' h' => ?_⟩
  obtain ⟨m', hword', h'⟩ := h'.split
  obtain ⟨n', hopen', h'⟩ := h'.split
  obtain ⟨o', h', hclose'⟩ := h'.split
  obtain ⟨e', he', hsame⟩ := ht (hopen'.rested (hword'.rested hc')) h'
  exact ⟨e', .condition hword' ⟨_, hopen'⟩ he' ⟨_, hclose'⟩, hsame⟩

/-- What the text of a method says it says, up to layout, in every layout. -/
theorem Says.transfers {clause : Clause} (h : s.Says c clause d) (hc : c.Rested) :
    ∃ ls, c.Reads ls d ∧ clause.Transfers ls := by
  induction h with
  | block hopen hdeclarations _ hclose ih =>
      obtain ⟨_, hopen⟩ := hopen
      obtain ⟨_, hclose⟩ := hclose
      obtain ⟨ls, hreads, hds⟩ := hdeclarations.moves (hopen.rested hc) MeansDeclaration.moves
      obtain ⟨ls', hreads', hsts⟩ := ih (hreads.rested (hopen.rested hc))
      refine ⟨_, hopen.append (hreads.append (hreads'.append hclose)), fun hc' h' => ?_⟩
      obtain ⟨m', hopen', h'⟩ := h'.split
      obtain ⟨n', hn', h'⟩ := h'.split
      obtain ⟨o', ho', hclose'⟩ := h'.split
      obtain ⟨ds', hds', hsame⟩ := hds (hopen'.rested hc') hn'
      obtain ⟨sts', hsts', hsames⟩ := hsts (hn'.rested (hopen'.rested hc')) ho'
      refine ⟨_, .block ⟨_, hopen'⟩ hds' hsts' ⟨_, hclose'⟩, fun f => ?_⟩
      rw [Block.recast_mk, Block.recast_mk, hsame f, hsames f]
  | done c =>
      refine ⟨[], .nil c, fun _ h' => ?_⟩
      cases h'
      exact ⟨[], .done _, fun _ => rfl⟩
  | next _ _ ih ihs =>
      obtain ⟨ls, hreads, hst⟩ := ih hc
      obtain ⟨ls', hreads', hsts⟩ := ihs (hreads.rested hc)
      refine ⟨_, hreads.append hreads', fun hc' h' => ?_⟩
      obtain ⟨m', hm', h'⟩ := h'.split
      obtain ⟨st', hst', hsame⟩ := hst hc' hm'
      obtain ⟨sts', hsts', hsames⟩ := hsts (hm'.rested hc') h'
      exact ⟨st' :: sts', .next hst' hsts', fun f => by
        rw [recastAll_cons, recastAll_cons, hsame f, hsames f]⟩
  | assignment hl hsign he hend =>
      obtain ⟨_, hsign⟩ := hsign
      obtain ⟨_, hend⟩ := hend
      obtain ⟨ls, hreads, hl⟩ := hl.transfers hc
      obtain ⟨ls', hreads', he⟩ := he.transfers (hsign.rested (hreads.rested hc))
      refine ⟨_, hreads.append (hsign.append (hreads'.append hend)), fun hc' h' => ?_⟩
      obtain ⟨m', hm', h'⟩ := h'.split
      obtain ⟨n', hsign', h'⟩ := h'.split
      obtain ⟨o', ho', hend'⟩ := h'.split
      obtain ⟨l', hl', hsamel⟩ := hl hc' hm'
      obtain ⟨e', he', hsamee⟩ := he (hsign'.rested (hm'.rested hc')) ho'
      refine ⟨_, .assignment hl' ⟨_, hsign'⟩ he' ⟨_, hend'⟩, fun f => ?_⟩
      rw [Statement.recast_assignment, Statement.recast_assignment, hsamel f, hsamee f]
  | call he hend =>
      obtain ⟨_, hend⟩ := hend
      obtain ⟨ls, hreads, he⟩ := he.moves hc
      refine ⟨_, hreads.append hend, fun hc' h' => ?_⟩
      obtain ⟨m', hm', hend'⟩ := h'.split
      obtain ⟨e', he', hsame⟩ := he hc' hm'
      refine ⟨_, .call he' ⟨_, hend'⟩, fun f => ?_⟩
      rw [Statement.recast_expressionStatement, Statement.recast_expressionStatement, hsame f]
  | returnNothing hword hend =>
      obtain ⟨_, hend⟩ := hend
      refine ⟨_, hword.append hend, fun _ h' => ?_⟩
      obtain ⟨m', hword', hend'⟩ := h'.split
      exact ⟨_, .returnNothing hword' ⟨_, hend'⟩, fun _ => rfl⟩
  | returnValue hword he hend =>
      obtain ⟨_, hend⟩ := hend
      obtain ⟨ls, hreads, he⟩ := he.transfers (hword.rested hc)
      refine ⟨_, hword.append (hreads.append hend), fun hc' h' => ?_⟩
      obtain ⟨m', hword', h'⟩ := h'.split
      obtain ⟨n', h', hend'⟩ := h'.split
      obtain ⟨e', he', hsame⟩ := he (hword'.rested hc') h'
      refine ⟨_, .returnValue hword' he' ⟨_, hend'⟩, fun f => ?_⟩
      rw [Statement.recast_returnStatement, Statement.recast_returnStatement, Option.map_some,
        Option.map_some, hsame f]
  | ifThen hword hopen he hclose _ ih =>
      obtain ⟨ls, hreads, hif⟩ := (MeansCondition.condition hword hopen he hclose).moves hc
      obtain ⟨ls', hreads', hb⟩ := ih (hreads.rested hc)
      refine ⟨_, hreads.append hreads', fun hc' h' => ?_⟩
      obtain ⟨p', hp', h'⟩ := h'.split
      obtain ⟨e', ⟨hword', hopen', he', hclose'⟩, hsame⟩ := hif hc' hp'
      obtain ⟨b', hb', hsameb⟩ := hb (hp'.rested hc') h'
      refine ⟨_, .ifThen hword' hopen' he' hclose' hb', fun f => ?_⟩
      rw [Statement.recast_ifStatement, Statement.recast_ifStatement, hsame f, hsameb f]
  | ifElse hword hopen he hclose _ helse _ ih ih' =>
      obtain ⟨ls, hreads, hif⟩ := (MeansCondition.condition hword hopen he hclose).moves hc
      obtain ⟨ls', hreads', hb⟩ := ih (hreads.rested hc)
      have hr := helse.rested (hreads'.rested (hreads.rested hc))
      obtain ⟨ls'', hreads'', hb'⟩ := ih' hr
      refine ⟨_, hreads.append (hreads'.append (helse.append hreads'')), fun hc' h' => ?_⟩
      obtain ⟨p', hp', h'⟩ := h'.split
      obtain ⟨q', hq', h'⟩ := h'.split
      obtain ⟨r', helse', h'⟩ := h'.split
      obtain ⟨e', ⟨hword', hopen', he', hclose'⟩, hsame⟩ := hif hc' hp'
      have hp'' := hp'.rested hc'
      obtain ⟨b₁, hb₁, hsame₁⟩ := hb hp'' hq'
      obtain ⟨b₂, hb₂, hsame₂⟩ := hb' (helse'.rested (hq'.rested hp'')) h'
      refine ⟨_, .ifElse hword' hopen' he' hclose' hb₁ helse' hb₂, fun f => ?_⟩
      rw [Statement.recast_ifStatement, Statement.recast_ifStatement, hsame f, hsame₁ f,
        Option.map_some, Option.map_some, hsame₂ f]
  | whileLoop hword hopen he hclose _ ih =>
      obtain ⟨ls, hreads, hif⟩ := (MeansCondition.condition hword hopen he hclose).moves hc
      obtain ⟨ls', hreads', hb⟩ := ih (hreads.rested hc)
      refine ⟨_, hreads.append hreads', fun hc' h' => ?_⟩
      obtain ⟨p', hp', h'⟩ := h'.split
      obtain ⟨e', ⟨hword', hopen', he', hclose'⟩, hsame⟩ := hif hc' hp'
      obtain ⟨b', hb', hsameb⟩ := hb (hp'.rested hc') h'
      refine ⟨_, .whileLoop hword' hopen' he' hclose' hb', fun f => ?_⟩
      rw [Statement.recast_whileStatement, Statement.recast_whileStatement, hsame f, hsameb f]

/-! ## Methods, classes and programs -/

theorem MeansReturnType.moves {t : TypeRef} (h : s.MeansReturnType c t d) :
    Moves MeansReturnType TypeRef.recast c t d := by
  cases h with
  | void h => exact ⟨_, h, fun _ h' => ⟨_, .void h', fun _ => rfl⟩⟩
  | type h =>
      obtain ⟨ls, hreads, ht⟩ := h.moves
      refine ⟨ls, hreads, fun hc' h' => ?_⟩
      obtain ⟨t', ht', hsame⟩ := ht hc' h'
      exact ⟨t', .type ht', hsame⟩

theorem MeansParameter.moves {p : Parameter} (h : s.MeansParameter c p d) :
    Moves MeansParameter Parameter.recast c p d := by
  obtain ⟨htype, hx, hmark⟩ := h
  obtain ⟨ls, hreads, ht⟩ := htype.moves
  obtain ⟨ls', hreads', hmoves⟩ := hmark.moves
  refine ⟨_, hreads.append (hx.append hreads'), fun hc' h' => ?_⟩
  obtain ⟨m', hm', h'⟩ := h'.split
  obtain ⟨n', hx', h'⟩ := h'.split
  obtain ⟨t', ht', hsame⟩ := ht hc' hm'
  refine ⟨_, .parameter ht' hx' (hmoves h'), fun f => ?_⟩
  rw [Parameter.recast_mk, Parameter.recast_mk, hsame f]

theorem MeansParameters.moves {ps : List Parameter} (hc : c.Rested)
    (h : s.MeansParameters c ps d) :
    Moves MeansParameters (recastAll Parameter.recast) c ps d := by
  cases h with
  | none =>
      refine ⟨[], .nil c, fun _ h' => ?_⟩
      cases h'
      exact ⟨[], .none _, fun _ => rfl⟩
  | some h =>
      obtain ⟨ls, hreads, hps⟩ := h.moves hc fun _ h => h.moves
      refine ⟨ls, hreads, fun hc' h' => ?_⟩
      obtain ⟨ps', hps', hsame⟩ := hps hc' h'
      exact ⟨ps', .some hps', hsame⟩

end Source

/-- A method with its kept texts changed and without its positions. -/
def MethodDecl.recast (g : String → String) (m : MethodDecl) : MethodDecl :=
  (m.respell g).relocate fun _ => default

@[simp] theorem MethodDecl.recast_mk (g : String → String) (p : Position) (t : TypeRef)
    (x : String) (ps : List Parameter) (b : Block) :
    MethodDecl.recast g ⟨p, t, x, ps, b⟩ =
      ⟨default, t.recast g, x, recastAll Parameter.recast g ps, b.recast g⟩ := rfl

/-- A class with its kept texts changed and without its positions. -/
def ClassDecl.recast (g : String → String) (c : ClassDecl) : ClassDecl :=
  (c.respell g).relocate fun _ => default

@[simp] theorem ClassDecl.recast_mk (g : String → String) (p : Position) (x : String)
    (superclass : Option String) (fields : List VariableDeclaration) (methods : List MethodDecl) :
    ClassDecl.recast g ⟨p, x, superclass, fields, methods⟩ =
      ⟨default, x, superclass, recastAll VariableDeclaration.recast g fields,
        recastAll MethodDecl.recast g methods⟩ := by
  simp only [recast, respell, relocate, List.map_map, recastAll]
  rfl

namespace Source

variable {s : Source} {c d : Cursor}

theorem MeansMethod.moves {m : MethodDecl} (hc : c.Rested) (h : s.MeansMethod c m d) :
    Moves MeansMethod MethodDecl.recast c m d := by
  obtain ⟨htype, hx, ⟨_, hopen⟩, hparameters, ⟨_, hclose⟩, hbody⟩ := h
  obtain ⟨ls, hreads, ht⟩ := htype.moves
  have ho := hopen.rested (hx.rested (hreads.rested hc))
  obtain ⟨ls', hreads', hps⟩ := hparameters.moves ho
  obtain ⟨ls'', hreads'', hb⟩ := hbody.transfers (hclose.rested (hreads'.rested ho))
  refine ⟨_, hreads.append (hx.append (hopen.append (hreads'.append (hclose.append hreads'')))),
    fun hc' h' => ?_⟩
  obtain ⟨m', hm', h'⟩ := h'.split
  obtain ⟨n', hx', h'⟩ := h'.split
  obtain ⟨o', hopen', h'⟩ := h'.split
  obtain ⟨p', hp', h'⟩ := h'.split
  obtain ⟨q', hclose', h'⟩ := h'.split
  have ho' := hopen'.rested (hx'.rested (hm'.rested hc'))
  obtain ⟨t', ht', hsamet⟩ := ht hc' hm'
  obtain ⟨ps', hps', hsamep⟩ := hps ho' hp'
  obtain ⟨b', hb', hsameb⟩ := hb (hclose'.rested (hp'.rested ho')) h'
  refine ⟨_, .method ht' hx' ⟨_, hopen'⟩ hps' ⟨_, hclose'⟩ hb', fun f => ?_⟩
  rw [MethodDecl.recast_mk, MethodDecl.recast_mk, hsamet f, hsamep f, hsameb f]

theorem MeansSuperclass.moves {superclass : Option String} (h : MeansSuperclass c superclass d) :
    ∃ ls, c.Reads ls d ∧ ∀ {c' d' : Cursor}, c'.Reads ls d' → MeansSuperclass c' superclass d' := by
  cases h with
  | none =>
      refine ⟨[], .nil c, fun h' => ?_⟩
      cases h'
      exact .none _
  | some hword hx =>
      refine ⟨_, hword.append hx, fun h' => ?_⟩
      obtain ⟨m', hword', hx'⟩ := h'.split
      exact .some hword' hx'

theorem MeansClass.moves {declaration : ClassDecl} (hc : c.Rested)
    (h : s.MeansClass c declaration d) : Moves MeansClass ClassDecl.recast c declaration d := by
  obtain ⟨hword, hx, hsuper, ⟨_, hopen⟩, hfields, hmethods, ⟨_, hclose⟩⟩ := h
  obtain ⟨ls, hreads, hmoves⟩ := hsuper.moves
  have hp := hopen.rested (hreads.rested (hx.rested (hword.rested hc)))
  obtain ⟨ls', hreads', hfs⟩ := hfields.moves hp MeansDeclaration.moves
  obtain ⟨ls'', hreads'', hms⟩ := hmethods.moves (hreads'.rested hp) MeansMethod.moves
  refine ⟨_, hword.append (hx.append (hreads.append (hopen.append (hreads'.append
    (hreads''.append hclose))))), fun hc' h' => ?_⟩
  obtain ⟨m', hword', h'⟩ := h'.split
  obtain ⟨n', hx', h'⟩ := h'.split
  obtain ⟨o', ho', h'⟩ := h'.split
  obtain ⟨p', hopen', h'⟩ := h'.split
  obtain ⟨q', hq', h'⟩ := h'.split
  obtain ⟨r', hr', hclose'⟩ := h'.split
  have hp' := hopen'.rested (ho'.rested (hx'.rested (hword'.rested hc')))
  obtain ⟨fs', hfs', hsamef⟩ := hfs hp' hq'
  obtain ⟨ms', hms', hsamem⟩ := hms (hq'.rested hp') hr'
  refine ⟨_, .classDecl hword' hx' (hmoves ho') ⟨_, hopen'⟩ hfs' hms' ⟨_, hclose'⟩, fun f => ?_⟩
  rw [ClassDecl.recast_mk, ClassDecl.recast_mk, hsamef f, hsamem f]

/-- A text with the lexemes of a text that means a program means the program up to
layout. -/
theorem MeansProgram.of_lexemes {s' : Source} {p : Program} {ls : List Lexeme}
    (h : s.MeansProgram p) (hreads : s.firstPlace.Reads ls d) (hend : d.rest = [])
    {d' : Cursor} (hreads' : s'.firstPlace.Reads ls d') (hend' : d'.rest = []) :
    ∃ p', s'.MeansProgram p' ∧ p.SameUpToLayout p' := by
  obtain ⟨hclasses, hstop⟩ := h
  obtain ⟨ls', hls', hcs⟩ := hclasses.moves s.rested_firstPlace MeansClass.moves
  obtain rfl := hreads.eq_of_ends hend hls' hstop
  obtain ⟨cs', hcs', hsame⟩ := hcs s'.rested_firstPlace hreads'
  cases cs' with
  | nil => exact absurd (hsame fun _ => "") (by simp)
  | cons first' others' =>
      refine ⟨_, .program hcs' hend', fun f => ?_⟩
      have hclasses := hsame f
      simp only [recastAll] at hclasses
      simp only [Program.respell, Program.unplaced, Program.relocate, List.map_map]
      exact congrArg (Program.mk default) hclasses

/-! ## Where something ends -/

theorem Means.isPlace {p : Fragment} (h : s.Means c p d) (hc : s.IsPlace c) : s.IsPlace d := by
  obtain ⟨_, hreads, -⟩ := h.transfers hc.rested
  exact hc.of_reads hreads

theorem MeansReturnType.isPlace {t : TypeRef} (h : s.MeansReturnType c t d) (hc : s.IsPlace c) :
    s.IsPlace d := by
  obtain ⟨_, hreads, -⟩ := h.moves
  exact hc.of_reads hreads

theorem MeansCall.isPlace {e : Expression} (h : s.MeansCall c e d) (hc : s.IsPlace c) :
    s.IsPlace d := by
  obtain ⟨_, hreads, -⟩ := h.moves hc.rested
  exact hc.of_reads hreads

theorem Says.isPlace {clause : Clause} (h : s.Says c clause d) (hc : s.IsPlace c) :
    s.IsPlace d := by
  obtain ⟨_, hreads, -⟩ := h.transfers hc.rested
  exact hc.of_reads hreads

end Source

end DecafFrontEnd
