/-
  DecafFrontEnd/Proofs/Meaning/Carry.lean --- meanings within a longer text.

  `Source.Carries s s' φ f` says that the text `s` stands, lexeme by lexeme, within the
  text `s'`: what is between two places of `s` is between the places that `φ` takes them
  to, and positions change by `f`.  What a part of `s` means that part of `s'` then means,
  every position in it changed by `f`.  There is one step for each rule of the language.
-/
import DecafFrontEnd.Proofs.Meaning.Transport

set_option autoImplicit false

namespace DecafFrontEnd

/-- The places of one text as places of another one that has the same lexemes there. -/
structure Source.Carries (s s' : Source) (φ : Cursor → Cursor) (f : Position → Position) :
    Prop where
  reads : ∀ {c d : Cursor} {l : Lexeme}, s.IsPlace c → c.Reads [l] d → (φ c).Reads [l] (φ d)
  holds : ∀ {c d : Cursor} {text : List Char}, s.IsPlace c → c.Holds text d →
    (φ c).Holds text (φ d)
  positionAt : ∀ {c : Cursor}, s.IsPlace c → c.rest ≠ [] →
    s'.positionAt (φ c).offset = f (s.positionAt c.offset)

/-! ## Where something begins -/

theorem Cursor.Reads.rest_ne_nil {c d : Cursor} {l : Lexeme} {ls : List Lexeme}
    (h : c.Reads (l :: ls) d) : c.rest ≠ [] := by
  intro hnil
  have hlt := h.length_lt
  simp [hnil] at hlt

theorem Cursor.Passes.rest_ne_nil {c d : Cursor} {t : Terminal} (h : c.Passes t d) :
    c.rest ≠ [] := by
  obtain ⟨_, hreads⟩ := h
  exact hreads.rest_ne_nil

namespace Source

variable {s : Source} {c d : Cursor}

theorem Means.rest_ne_nil {p : Fragment} (h : s.Means c p d) : c.rest ≠ [] := by
  induction h with
  | negation h _ | integer h _ | character h | boolean _ h | null h | this h | name h
  | field h _ _ | element h _ _ _ => exact h.rest_ne_nil
  | brackets h _ _ => exact h.rest_ne_nil
  | tighter _ _ ih | operation _ _ _ _ ih _ | simple _ _ ih | keptLocation _ ih | keptCall _ ih
  | bareCall _ _ _ ih | call _ _ _ _ ih _ | argument _ ih | arguments _ _ _ ih _ => exact ih

theorem MeansType.rest_ne_nil {t : TypeRef} (h : s.MeansType c t d) : c.rest ≠ [] := by
  cases h with
  | int h | boolean h | named h => exact h.rest_ne_nil

theorem MeansReturnType.rest_ne_nil {t : TypeRef} (h : s.MeansReturnType c t d) :
    c.rest ≠ [] := by
  cases h with
  | void h => exact h.rest_ne_nil
  | type h => exact h.rest_ne_nil

theorem MeansCall.rest_ne_nil {e : Expression} (h : s.MeansCall c e d) : c.rest ≠ [] := by
  cases h with
  | call h => exact h.rest_ne_nil
  | callout h _ _ _ _ => exact h.rest_ne_nil

end Source

/-! ## Pieces of a text -/

/-- A piece of an expression with every position changed. -/
def Fragment.relocate (f : Position → Position) : Fragment → Fragment
  | .expression k e => .expression k (e.relocate f)
  | .kept => .kept
  | .location l => .location (l.relocate f)
  | .call e => .call (e.relocate f)
  | .arguments es => .arguments (Expression.relocateAll f es)

/-- A piece of a method with every position changed. -/
def Clause.relocate (f : Position → Position) : Clause → Clause
  | .block b => .block (b.relocate f)
  | .statement st => .statement (st.relocate f)
  | .statements sts => .statements (Statement.relocateAll f sts)

section

variable {s s' : Source} {φ : Cursor → Cursor} {f : Position → Position} {c d : Cursor}

theorem Source.Carries.passes (H : s.Carries s' φ f) {t : Terminal} (hc : s.IsPlace c)
    (h : c.Passes t d) : (φ c).Passes t (φ d) := by
  obtain ⟨text, hreads⟩ := h
  exact ⟨text, H.reads hc hreads⟩

/-! ## Several things -/

section

variable {α : Type} {R R' : Cursor → α → Cursor → Prop} {g : α → α} {xs : List α}

theorem Series.carry (h : Series R c xs d) (hR : s.Leads R) (hc : s.IsPlace c)
    (hcarry : ∀ {c x d}, s.IsPlace c → R c x d → R' (φ c) (g x) (φ d)) :
    Series R' (φ c) (xs.map g) (φ d) := by
  induction h with
  | nil c => exact .nil _
  | cons hx _ ih => exact .cons (hcarry hc hx) (ih (hR hc hx))

theorem BehindComma.carry (H : s.Carries s' φ f) {x : α} (h : BehindComma R c x d)
    (hc : s.IsPlace c) (hcarry : ∀ {c x d}, s.IsPlace c → R c x d → R' (φ c) (g x) (φ d)) :
    BehindComma R' (φ c) (g x) (φ d) := by
  obtain ⟨hcomma, hx⟩ := h
  exact .behind (H.passes hc hcomma) (hcarry (hc.of_passes hcomma) hx)

theorem Listed.carry (H : s.Carries s' φ f) (h : Listed R c xs d) (hR : s.Leads R)
    (hc : s.IsPlace c) (hcarry : ∀ {c x d}, s.IsPlace c → R c x d → R' (φ c) (g x) (φ d)) :
    Listed R' (φ c) (xs.map g) (φ d) := by
  obtain ⟨hx, hothers⟩ := h
  exact .listed (hcarry hc hx)
    (hothers.carry hR.behindComma (hR hc hx) fun hc h => h.carry H hc hcarry)

end

theorem Cursor.Marked.carry (H : s.Carries s' φ f) {b : Bool} (h : c.Marked b d)
    (hc : s.IsPlace c) : (φ c).Marked b (φ d) := by
  cases h with
  | plain => exact .plain _
  | array hopen hclose => exact .array (H.passes hc hopen) (H.passes (hc.of_passes hopen) hclose)

namespace Source

/-! ## Expressions -/

theorem Means.carry (H : s.Carries s' φ f) {p : Fragment} (h : s.Means c p d)
    (hc : s.IsPlace c) : s'.Means (φ c) (p.relocate f) (φ d) := by
  induction h with
  | tighter hk _ ih => exact .tighter hk (ih hc)
  | operation op hl hop _ ihl ihr =>
      have hm := hl.isPlace hc
      have hmeans := Means.operation op (ihl hc) (H.reads hm hop) (ihr (hm.of_reads hop))
      rw [H.positionAt hc hl.rest_ne_nil] at hmeans
      exact hmeans
  | negation hsign _ ih =>
      have hmeans := Means.negation (H.reads hc hsign) (ih (hc.of_reads hsign))
      rw [H.positionAt hc hsign.rest_ne_nil] at hmeans
      exact hmeans
  | brackets hopen he hclose ih =>
      have hm := hc.of_passes hopen
      exact .brackets (H.passes hc hopen) (ih hm) (H.passes (he.isPlace hm) hclose)
  | integer hreads hle =>
      have hmeans := Means.integer (s := s') (H.reads hc hreads) hle
      rw [H.positionAt hc hreads.rest_ne_nil] at hmeans
      exact hmeans
  | character hreads =>
      have hmeans := Means.character (s := s') (H.reads hc hreads)
      rw [H.positionAt hc hreads.rest_ne_nil] at hmeans
      exact hmeans
  | boolean b hreads =>
      have hmeans := Means.boolean (s := s') b (H.reads hc hreads)
      rw [H.positionAt hc hreads.rest_ne_nil] at hmeans
      exact hmeans
  | null hreads =>
      have hmeans := Means.null (s := s') (H.reads hc hreads)
      rw [H.positionAt hc hreads.rest_ne_nil] at hmeans
      exact hmeans
  | simple hkept htext ih =>
      have hmeans := Means.simple (ih hc) (H.holds hc htext)
      rw [H.positionAt hc hkept.rest_ne_nil] at hmeans
      exact hmeans
  | this hreads => exact .this (H.reads hc hreads)
  | keptLocation _ ih => exact .keptLocation (ih hc)
  | keptCall _ ih => exact .keptCall (ih hc)
  | name hx =>
      have hmeans := Means.name (s := s') (H.reads hc hx)
      rw [H.positionAt hc hx.rest_ne_nil] at hmeans
      exact hmeans
  | field hx hdot hy =>
      have hm := hc.of_reads hx
      have hmeans := Means.field (s := s') (H.reads hc hx) (H.passes hm hdot)
        (H.reads (hm.of_passes hdot) hy)
      rw [H.positionAt hc hx.rest_ne_nil] at hmeans
      exact hmeans
  | element hx hopen he hclose ih =>
      have hm := hc.of_reads hx
      have hn := hm.of_passes hopen
      have hmeans := Means.element (H.reads hc hx) (H.passes hm hopen) (ih hn)
        (H.passes (he.isPlace hn) hclose)
      rw [H.positionAt hc hx.rest_ne_nil] at hmeans
      exact hmeans
  | bareCall hl hopen hclose ih =>
      have hm := hl.isPlace hc
      have hmeans := Means.bareCall (ih hc) (H.passes hm hopen)
        (H.passes (hm.of_passes hopen) hclose)
      rw [H.positionAt hc hl.rest_ne_nil] at hmeans
      exact hmeans
  | call hl hopen hes hclose ihl iha =>
      have hm := hl.isPlace hc
      have hn := hm.of_passes hopen
      have hmeans := Means.call (ihl hc) (H.passes hm hopen) (iha hn)
        (H.passes (hes.isPlace hn) hclose)
      rw [H.positionAt hc hl.rest_ne_nil] at hmeans
      exact hmeans
  | argument _ ih => exact .argument (ih hc)
  | arguments he hcomma _ ihe ihs =>
      have hm := he.isPlace hc
      exact .arguments (ihe hc) (H.passes hm hcomma) (ihs (hm.of_passes hcomma))

/-! ## Types and variables -/

theorem MeansType.carry (H : s.Carries s' φ f) {t : TypeRef} (h : s.MeansType c t d)
    (hc : s.IsPlace c) : s'.MeansType (φ c) (t.relocate f) (φ d) := by
  have hposition := H.positionAt hc h.rest_ne_nil
  cases h with
  | int h =>
      have hmeans := MeansType.int (s := s') (H.reads hc h)
      rwa [hposition] at hmeans
  | boolean h =>
      have hmeans := MeansType.boolean (s := s') (H.reads hc h)
      rwa [hposition] at hmeans
  | named h =>
      have hmeans := MeansType.named (s := s') (H.reads hc h)
      rwa [hposition] at hmeans

theorem MeansBind.carry (H : s.Carries s' φ f) {b : VarBind} (h : s.MeansBind c b d)
    (hc : s.IsPlace c) : s'.MeansBind (φ c) (b.relocate f) (φ d) := by
  obtain ⟨hx, hmark⟩ := h
  have hmeans := MeansBind.bind (s := s') (H.reads hc hx) (hmark.carry H (hc.of_reads hx))
  rwa [H.positionAt hc hx.rest_ne_nil] at hmeans

theorem MeansDeclaration.carry (H : s.Carries s' φ f) {declaration : VariableDeclaration}
    (h : s.MeansDeclaration c declaration d) (hc : s.IsPlace c) :
    s'.MeansDeclaration (φ c) (declaration.relocate f) (φ d) := by
  obtain ⟨htype, hbinds, hend⟩ := h
  have hm := leads_type hc htype
  have hmeans := MeansDeclaration.declaration (htype.carry H hc)
    (hbinds.carry H leads_bind hm fun hc h => h.carry H hc)
    (H.passes (leads_bind.listed hm hbinds) hend)
  rwa [H.positionAt hc htype.rest_ne_nil] at hmeans

/-! ## Statements -/

theorem MeansCall.carry (H : s.Carries s' φ f) {e : Expression} (h : s.MeansCall c e d)
    (hc : s.IsPlace c) : s'.MeansCall (φ c) (e.relocate f) (φ d) := by
  cases h with
  | call h => exact .call (h.carry H hc)
  | callout hword hopen hstring harguments hclose =>
      have hm := hc.of_reads hword
      have hn := hm.of_passes hopen
      have ho := hn.of_reads hstring
      have hcommas : s.Leads (BehindComma s.MeansExpression) := leads_expression.behindComma
      have hmeans := MeansCall.callout (H.reads hc hword) (H.passes hm hopen)
        (H.reads hn hstring)
        (harguments.carry hcommas ho fun hc h => h.carry H hc fun hc h => Means.carry H h hc)
        (H.passes (harguments.isPlace hcommas ho) hclose)
      rw [H.positionAt hc hword.rest_ne_nil, ← Expression.relocateAll_eq_map] at hmeans
      exact hmeans

theorem Says.carry (H : s.Carries s' φ f) {clause : Clause} (h : s.Says c clause d)
    (hc : s.IsPlace c) : s'.Says (φ c) (clause.relocate f) (φ d) := by
  induction h with
  | block hopen hdeclarations hstatements hclose ih =>
      have hm := hc.of_passes hopen
      have hn := hdeclarations.isPlace leads_declaration hm
      have hsays := Says.block (H.passes hc hopen)
        (hdeclarations.carry leads_declaration hm fun hc h => h.carry H hc) (ih hn)
        (H.passes (hstatements.isPlace hn) hclose)
      rw [H.positionAt hc hopen.rest_ne_nil] at hsays
      exact hsays
  | done c => exact .done _
  | next hst _ ih ihs => exact .next (ih hc) (ihs (hst.isPlace hc))
  | assignment hl hsign he hend =>
      have hm := hl.isPlace hc
      have hn := hm.of_passes hsign
      have hsays := Says.assignment (hl.carry H hc) (H.passes hm hsign) (he.carry H hn)
        (H.passes (he.isPlace hn) hend)
      rw [H.positionAt hc hl.rest_ne_nil] at hsays
      exact hsays
  | call he hend =>
      have hsays := Says.call (he.carry H hc) (H.passes (he.isPlace hc) hend)
      rw [H.positionAt hc he.rest_ne_nil] at hsays
      exact hsays
  | returnNothing hword hend =>
      have hsays := Says.returnNothing (s := s') (H.reads hc hword)
        (H.passes (hc.of_reads hword) hend)
      rw [H.positionAt hc hword.rest_ne_nil] at hsays
      exact hsays
  | returnValue hword he hend =>
      have hm := hc.of_reads hword
      have hsays := Says.returnValue (H.reads hc hword) (he.carry H hm)
        (H.passes (he.isPlace hm) hend)
      rw [H.positionAt hc hword.rest_ne_nil] at hsays
      exact hsays
  | ifThen hword hopen he hclose _ ih =>
      have hm := hc.of_reads hword
      have hn := hm.of_passes hopen
      have ho := he.isPlace hn
      have hsays := Says.ifThen (H.reads hc hword) (H.passes hm hopen) (he.carry H hn)
        (H.passes ho hclose) (ih (ho.of_passes hclose))
      rw [H.positionAt hc hword.rest_ne_nil] at hsays
      exact hsays
  | ifElse hword hopen he hclose hb helse _ ih ih' =>
      have hm := hc.of_reads hword
      have hn := hm.of_passes hopen
      have ho := he.isPlace hn
      have hp := ho.of_passes hclose
      have hq := hb.isPlace hp
      have hsays := Says.ifElse (H.reads hc hword) (H.passes hm hopen) (he.carry H hn)
        (H.passes ho hclose) (ih hp) (H.reads hq helse) (ih' (hq.of_reads helse))
      rw [H.positionAt hc hword.rest_ne_nil] at hsays
      exact hsays
  | whileLoop hword hopen he hclose _ ih =>
      have hm := hc.of_reads hword
      have hn := hm.of_passes hopen
      have ho := he.isPlace hn
      have hsays := Says.whileLoop (H.reads hc hword) (H.passes hm hopen) (he.carry H hn)
        (H.passes ho hclose) (ih (ho.of_passes hclose))
      rw [H.positionAt hc hword.rest_ne_nil] at hsays
      exact hsays

/-! ## Methods and classes -/

theorem MeansReturnType.carry (H : s.Carries s' φ f) {t : TypeRef}
    (h : s.MeansReturnType c t d) (hc : s.IsPlace c) :
    s'.MeansReturnType (φ c) (t.relocate f) (φ d) := by
  cases h with
  | void h =>
      have hmeans := MeansReturnType.void (s := s') (H.reads hc h)
      rwa [H.positionAt hc h.rest_ne_nil] at hmeans
  | type h => exact .type (h.carry H hc)

theorem MeansParameter.carry (H : s.Carries s' φ f) {p : Parameter}
    (h : s.MeansParameter c p d) (hc : s.IsPlace c) :
    s'.MeansParameter (φ c) (p.relocate f) (φ d) := by
  obtain ⟨htype, hx, hmark⟩ := h
  have hm := leads_type hc htype
  have hmeans := MeansParameter.parameter (htype.carry H hc) (H.reads hm hx)
    (hmark.carry H (hm.of_reads hx))
  rwa [H.positionAt hc htype.rest_ne_nil] at hmeans

theorem MeansParameters.carry (H : s.Carries s' φ f) {ps : List Parameter}
    (h : s.MeansParameters c ps d) (hc : s.IsPlace c) :
    s'.MeansParameters (φ c) (ps.map (·.relocate f)) (φ d) := by
  cases h with
  | none => exact .none _
  | some h => exact .some (h.carry H leads_parameter hc fun hc h => h.carry H hc)

theorem MeansMethod.carry (H : s.Carries s' φ f) {m : MethodDecl} (h : s.MeansMethod c m d)
    (hc : s.IsPlace c) : s'.MeansMethod (φ c) (m.relocate f) (φ d) := by
  obtain ⟨htype, hx, hopen, hparameters, hclose, hbody⟩ := h
  have hm := htype.isPlace hc
  have hn := hm.of_reads hx
  have ho := hn.of_passes hopen
  have hp := leads_parameters ho hparameters
  have hmeans := MeansMethod.method (htype.carry H hc) (H.reads hm hx) (H.passes hn hopen)
    (hparameters.carry H ho) (H.passes hp hclose) (hbody.carry H (hp.of_passes hclose))
  rwa [H.positionAt hc htype.rest_ne_nil] at hmeans

theorem MeansSuperclass.carry (H : s.Carries s' φ f) {superclass : Option String}
    (h : MeansSuperclass c superclass d) (hc : s.IsPlace c) :
    MeansSuperclass (φ c) superclass (φ d) := by
  cases h with
  | none => exact .none _
  | some hword hx => exact .some (H.reads hc hword) (H.reads (hc.of_reads hword) hx)

/-- What the text of a class means it means within a longer text. -/
theorem MeansClass.carry (H : s.Carries s' φ f) {declaration : ClassDecl}
    (h : s.MeansClass c declaration d) (hc : s.IsPlace c) :
    s'.MeansClass (φ c) (declaration.relocate f) (φ d) := by
  obtain ⟨hword, hx, hsuper, hopen, hfields, hmethods, hclose⟩ := h
  have hm := hc.of_reads hword
  have hn := hm.of_reads hx
  have ho := hsuper.isPlace hn
  have hp := ho.of_passes hopen
  have hq := hfields.isPlace leads_declaration hp
  have hmeans := MeansClass.classDecl (H.reads hc hword) (H.reads hm hx) (hsuper.carry H hn)
    (H.passes ho hopen) (hfields.carry leads_declaration hp fun hc h => h.carry H hc)
    (hmethods.carry leads_method hq fun hc h => h.carry H hc)
    (H.passes (hmethods.isPlace leads_method hq) hclose)
  rwa [H.positionAt hc hword.rest_ne_nil] at hmeans

end Source

end

end DecafFrontEnd
