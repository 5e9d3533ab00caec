/-
  DecafFrontEnd/Proofs/Meaning/Declaration.lean --- what the text of a declaration means.

  A type, a declared name and a declaration have meanings in the manner of expressions: a
  relation between a place of a text, a node of the syntax tree and the place behind it.
  Each holds of exactly what the lowering gives for the nodes of the phrase.  What a
  repetition or a list with commas gives is reduced to what its parts give.
-/
import DecafFrontEnd.Proofs.Meaning.Building
import DecafFrontEnd.Proofs.Lowering.Statement

set_option autoImplicit false

namespace DecafFrontEnd

/-! ## Several things -/

/-- A thing with a comma in front of it. -/
inductive BehindComma {α : Type} (R : Cursor → α → Cursor → Prop) : Cursor → α → Cursor → Prop
  | behind {c m d : Cursor} {x : α} : c.Passes .comma m → R m x d → BehindComma R c x d

/-- One thing or more with commas between them. -/
inductive Listed {α : Type} (R : Cursor → α → Cursor → Prop) : Cursor → List α → Cursor → Prop
  | listed {c m d : Cursor} {x : α} {xs : List α} :
      R c x m → Series (BehindComma R) m xs d → Listed R c (x :: xs) d

/-- The mark of an array, if there is one. -/
inductive Cursor.Marked : Cursor → Bool → Cursor → Prop
  | plain (c : Cursor) : Marked c false c
  | array {c m d : Cursor} : c.Passes .lbrack m → m.Passes .rbrack d → Marked c true d

section

variable {α : Type} {R R' : Cursor → α → Cursor → Prop} {s : Source} {c d : Cursor} {xs : List α}

/-- What relates places of a text leads from one to another. -/
def Source.Leads (s : Source) (R : Cursor → α → Cursor → Prop) : Prop :=
  ∀ {c : Cursor} {x : α} {d : Cursor}, s.IsPlace c → R c x d → s.IsPlace d

theorem Phrase.leads_gives {p : Phrase} {lower : Tree → Lowered α} :
    s.Leads (p.Gives lower) := fun hc h => h.isPlace hc

theorem Series.isPlace (h : Series R c xs d) (hR : s.Leads R) (hc : s.IsPlace c) :
    s.IsPlace d := by
  induction h with
  | nil c => exact hc
  | cons hx _ ih => exact ih (hR hc hx)

theorem Series.length_le (h : Series R c xs d)
    (hR : ∀ {c x d}, R c x d → d.rest.length ≤ c.rest.length) :
    d.rest.length ≤ c.rest.length := by
  induction h with
  | nil c => exact Nat.le_refl _
  | cons hx _ ih => exact Nat.le_trans ih (hR hx)

theorem Series.imp (h : Series R c xs d) (hR : s.Leads R) (hc : s.IsPlace c)
    (himp : ∀ {c x d}, s.IsPlace c → R c x d → R' c x d) : Series R' c xs d := by
  induction h with
  | nil c => exact .nil c
  | cons hx _ ih => exact .cons (himp hc hx) (ih (hR hc hx))

theorem Source.Leads.behindComma (hR : s.Leads R) : s.Leads (BehindComma R)
  | _, _, _, hc, .behind hcomma hx => hR (hc.of_passes hcomma) hx

theorem Source.Leads.listed (hR : s.Leads R) : s.Leads (Listed R)
  | _, _, _, hc, .listed hx hothers => hothers.isPlace hR.behindComma (hR hc hx)

theorem Listed.imp (h : Listed R c xs d) (hR : s.Leads R) (hc : s.IsPlace c)
    (himp : ∀ {c x d}, s.IsPlace c → R c x d → R' c x d) : Listed R' c xs d := by
  obtain ⟨hx, hothers⟩ := h
  refine .listed (himp hc hx) (hothers.imp hR.behindComma (hR hc hx) ?_)
  rintro c x d hc ⟨hcomma, hx⟩
  exact .behind hcomma (himp (hc.of_passes hcomma) hx)

end

theorem Cursor.Marked.isPlace {s : Source} {c d : Cursor} {b : Bool} (h : c.Marked b d)
    (hc : s.IsPlace c) : s.IsPlace d := by
  cases h with
  | plain => exact hc
  | array hopen hclose => exact (hc.of_passes hopen).of_passes hclose

/-! ## Repeated phrases -/

/-- The nodes of a repeated rule are all of that rule. -/
theorem Pattern.rule_of_spans_many {r : Rule} {c d : Cursor} {ts : List Tree}
    (h : (many (rule r)).Spans c ts d) : ∀ t ∈ ts, t.rule = r := by
  obtain ⟨rounds, rfl, hrounds⟩ := h
  induction hrounds with
  | nil c => simp
  | cons hround _ ih =>
      obtain ⟨node, rfl, hnode, -⟩ := hround
      rw [List.flatten_cons, List.singleton_append, List.forall_mem_cons]
      exact ⟨hnode, ih⟩

section

variable {α : Type} {p : Phrase} {lower : Tree → Lowered α} {c d : Cursor} {xs : List α}

/-- The nodes of a repetition with one node in every round are lowered one after the
other. -/
theorem Pattern.gives_rounds {q : Pattern} {R : Cursor → Tree → Cursor → Prop}
    (hq : ∀ {c ts d}, q.Spans c ts d ↔ ∃ t, ts = [t] ∧ R c t d) :
    (∃ ts, (Pattern.many q).Spans c ts d ∧ ts.mapM lower = .ok xs) ↔
      Series (fun c x d => ∃ t, R c t d ∧ lower t = .ok x) c xs d := by
  constructor
  · rintro ⟨_, ⟨rounds, rfl, hrounds⟩, hmap⟩
    induction hrounds generalizing xs with
    | nil c =>
        rw [List.flatten_nil, List.mapM_nil] at hmap
        obtain rfl := Except.ok.inj hmap
        exact .nil c
    | cons hround _ ih =>
        obtain ⟨t, rfl, ht⟩ := hq.1 hround
        rw [List.flatten_cons, List.singleton_append, List.mapM_cons] at hmap
        obtain ⟨x, hx, hmap⟩ := bind_eq_ok.1 hmap
        obtain ⟨xs', hxs', hmap⟩ := bind_eq_ok.1 hmap
        obtain rfl := Except.ok.inj hmap
        exact .cons ⟨t, ht, hx⟩ (ih hxs')
  · intro h
    induction h with
    | nil c => exact ⟨[], ⟨[], rfl, .nil c⟩, rfl⟩
    | cons hx _ ih =>
        obtain ⟨t, ht, hlower⟩ := hx
        obtain ⟨_, ⟨rounds, rfl, hrounds⟩, hmap⟩ := ih
        refine ⟨_, ⟨[t] :: rounds, rfl, .cons (hq.2 ⟨t, rfl, ht⟩) hrounds⟩, ?_⟩
        rw [List.flatten_cons, List.singleton_append, List.mapM_cons, hlower, ok_bind, hmap]
        rfl

/-- The nodes of a repeated phrase are lowered one after the other. -/
theorem Phrase.gives_many :
    (∃ ts, (Pattern.many (.phrase p)).Spans c ts d ∧ ts.mapM lower = .ok xs) ↔
      Series (p.Gives lower) c xs d := by
  rw [Pattern.gives_rounds (R := fun c t d => t.rule = .phrase p ∧ t.Stands c d) Iff.rfl]
  simp only [and_assoc]
  rfl

/-- What stands behind commas is lowered piece by piece. -/
theorem Phrase.gives_behindCommas :
    (∃ ts, (Pattern.many (.mark .comma >> .phrase p)).Spans c ts d ∧ ts.mapM lower = .ok xs) ↔
      Series (BehindComma (p.Gives lower)) c xs d := by
  rw [Pattern.gives_rounds
    (R := fun c t d => ∃ m, c.Passes .comma m ∧ t.rule = .phrase p ∧ t.Stands m d)]
  · have hround : (fun c x d => ∃ t : Tree,
        (∃ m, c.Passes .comma m ∧ t.rule = .phrase p ∧ t.Stands m d) ∧ lower t = .ok x) =
        BehindComma (p.Gives lower) := by
      funext c x d
      apply propext
      constructor
      · rintro ⟨t, ⟨m, hcomma, hrule, hstands⟩, hlower⟩
        exact .behind hcomma ⟨t, hrule, hstands, hlower⟩
      · rintro ⟨hcomma, t, hrule, hstands, hlower⟩
        exact ⟨t, ⟨_, hcomma, hrule, hstands⟩, hlower⟩
    rw [hround]
  · intro c ts d
    constructor
    · rintro ⟨_, _, rfl, m, hcommas, t, rfl, hrule, hstands⟩
      obtain ⟨rfl, hcomma⟩ := hcommas.passes rfl
      exact ⟨t, rfl, m, hcomma, hrule, hstands⟩
    · rintro ⟨t, rfl, m, hcomma, hrule, hstands⟩
      exact ⟨[], [t], rfl, m, Pattern.spans_mark hcomma, t, rfl, hrule, hstands⟩

/-- The nodes of a list with commas are lowered one after the other. -/
theorem Phrase.gives_commaList :
    (∃ ts, (Pattern.commaList (.phrase p)).Spans c ts d ∧ ts.mapM lower = .ok xs) ↔
      Listed (p.Gives lower) c xs d := by
  constructor
  · rintro ⟨_, ⟨_, others, rfl, m, ⟨first, rfl, hfirst, hstands⟩, hothers⟩, hmap⟩
    rw [List.singleton_append, List.mapM_cons] at hmap
    obtain ⟨x, hx, hmap⟩ := bind_eq_ok.1 hmap
    obtain ⟨xs', hxs', hmap⟩ := bind_eq_ok.1 hmap
    obtain rfl := Except.ok.inj hmap
    exact .listed ⟨first, hfirst, hstands, hx⟩ (gives_behindCommas.1 ⟨others, hothers, hxs'⟩)
  · rintro ⟨⟨t, hrule, hstands, hlower⟩, hothers⟩
    obtain ⟨others, hspans, hmap⟩ := gives_behindCommas.2 hothers
    refine ⟨[t] ++ others, ⟨[t], others, rfl, _, ⟨t, rfl, hrule, hstands⟩, hspans⟩, ?_⟩
    rw [List.singleton_append, List.mapM_cons, hlower, ok_bind, hmap]
    rfl

end

/-! ## Types and variables -/

namespace Source

section

variable (s : Source)

/-- The text between two places stands for a type of a variable. -/
inductive MeansType : Cursor → TypeRef → Cursor → Prop
  | int {c d : Cursor} : c.Reads [.word .intKw] d →
      MeansType c ⟨s.positionAt c.offset, "int"⟩ d
  | boolean {c d : Cursor} : c.Reads [.word .booleanKw] d →
      MeansType c ⟨s.positionAt c.offset, "boolean"⟩ d
  | named {c d : Cursor} {x : List Char} : c.Reads [⟨.ident, x⟩] d →
      MeansType c ⟨s.positionAt c.offset, String.ofList x⟩ d

/-- The text between two places declares a name. -/
inductive MeansBind : Cursor → VarBind → Cursor → Prop
  | bind {c m d : Cursor} {x : List Char} {b : Bool} : c.Reads [⟨.ident, x⟩] m → m.Marked b d →
      MeansBind c ⟨s.positionAt c.offset, String.ofList x, b⟩ d

/-- The text between two places is a declaration. -/
inductive MeansDeclaration : Cursor → VariableDeclaration → Cursor → Prop
  | declaration {c m n d : Cursor} {type : TypeRef} {binds : List VarBind} :
      s.MeansType c type m → Listed s.MeansBind m binds n → n.Passes .semi d →
      MeansDeclaration c ⟨s.positionAt c.offset, type, binds⟩ d

end

variable {s : Source} {c d : Cursor}

theorem gives_type_iff (hc : c.Rested) {type : TypeRef} :
    Phrase.typeName.Gives s.lowerType c type d ↔ s.MeansType c type d := by
  constructor
  · intro h
    obtain ⟨text, children, hspans, hlower⟩ := h.exists_spans (by decide) hc
    rw [lowerType, expectRule_node, ok_bind] at hlower
    rcases hspans with ⟨word, rfl, hrule, hstands⟩ | ⟨word, rfl, hrule, hstands⟩ |
      ⟨word, rfl, hrule, hstands⟩
    all_goals
      simp only [onlyChild_node, ok_bind, hrule, pure_eq_ok, Except.ok.injEq] at hlower
      obtain rfl := hlower
    · rw [hstands.string_word hrule]
      exact .int (hstands.reads_word hrule)
    · rw [hstands.string_word hrule]
      exact .boolean (hstands.reads_word hrule)
    · exact .named (hstands.reads hrule rfl).2
  · rintro (hreads | hreads | hreads)
    · exact .of_spans hc (Or.inl ⟨_, rfl, rfl, Tree.stands_terminal hreads⟩) fun _ => rfl
    · exact .of_spans hc (Or.inr (Or.inl ⟨_, rfl, rfl, Tree.stands_terminal hreads⟩)) fun _ => rfl
    · exact .of_spans hc (Or.inr (Or.inr ⟨_, rfl, rfl, Tree.stands_terminal hreads⟩)) fun _ => rfl

/-- The optional mark of an array leaves a node if it is there. -/
theorem spans_marker_iff (hc : c.Rested) {b : Bool} :
    (∃ ts, (Pattern.opt (.phrase .arrayMarker)).Spans c ts d ∧
      b = (ts.head?.map Tree.rule = some (.phrase .arrayMarker) : Bool)) ↔ c.Marked b d := by
  constructor
  · rintro ⟨ts, ⟨⟨rule, start, text, children⟩, rfl, hrule, hstands⟩ | ⟨rfl, rfl⟩, rfl⟩
    · obtain rfl : rule = .phrase .arrayMarker := hrule
      obtain ⟨-, _, _, rfl, m, hopens, hcloses⟩ := hstands.of_phrase (by decide) hc
      exact .array (hopens.passes rfl).2 (hcloses.passes rfl).2
    · exact .plain c
  · rintro (_ | ⟨hopen, hclose⟩)
    · exact ⟨[], Or.inr ⟨rfl, rfl⟩, rfl⟩
    · obtain ⟨text, hstands⟩ := Tree.exists_stands (p := .arrayMarker) hc
        ⟨[], [], rfl, _, Pattern.spans_mark hopen, Pattern.spans_mark hclose⟩
      exact ⟨[_], Or.inl ⟨_, rfl, rfl, hstands⟩, rfl⟩

theorem leads_type : s.Leads s.MeansType
  | _, _, _, hc, .int h | _, _, _, hc, .boolean h | _, _, _, hc, .named h => hc.of_reads h

theorem leads_bind : s.Leads s.MeansBind
  | _, _, _, hc, .bind hx hmark => hmark.isPlace (hc.of_reads hx)

theorem gives_bind_iff (hc : s.IsPlace c) {bind : VarBind} :
    Phrase.varBind.Gives s.lowerVarBind c bind d ↔ s.MeansBind c bind d := by
  constructor
  · intro h
    obtain ⟨text, children, hspans, hlower⟩ := h.exists_spans (by decide) hc.rested
    obtain ⟨_, ts, rfl, m, ⟨name, rfl, hname, hstands⟩, hmarker⟩ := hspans
    obtain ⟨-, hreads⟩ := hstands.reads hname rfl
    have hmarked := (spans_marker_iff (hc.of_reads hreads).rested).1 ⟨ts, hmarker, rfl⟩
    simp only [lowerVarBind, expectRule_node, ok_bind, Tree.children, List.singleton_append,
      takeChild_eq hname, pure_eq_ok, Except.ok.injEq] at hlower
    obtain rfl := hlower
    exact .bind hreads hmarked
  · rintro ⟨hreads, hmarked⟩
    obtain ⟨ts, hmarker, rfl⟩ := (spans_marker_iff (hc.of_reads hreads).rested).2 hmarked
    exact .of_spans hc.rested
      ⟨[_], ts, rfl, _, ⟨_, rfl, rfl, Tree.stands_terminal hreads⟩, hmarker⟩ fun _ => rfl

theorem lowerVarDecl_node {start start' : Nat} {text text' : List Char} {type : Tree}
    {binds : List Tree} (htype : type.rule = .phrase .typeName) :
    s.lowerVarDecl (.node (.phrase .varDecl) start text
        [type, .node (.phrase .varBindList) start' text' binds]) =
      (s.lowerType type >>= fun varType => binds.mapM s.lowerVarBind >>= fun varBinds =>
        .ok ⟨s.positionAt start, varType, varBinds⟩) := by
  rw [lowerVarDecl, expectRule_node, ok_bind, Tree.children, takeChild_eq htype, ok_bind]
  rfl

theorem gives_declaration_iff (hc : s.IsPlace c) {declaration : VariableDeclaration} :
    Phrase.varDecl.Gives s.lowerVarDecl c declaration d ↔ s.MeansDeclaration c declaration d := by
  constructor
  · intro h
    obtain ⟨text, children, hspans, hlower⟩ := h.exists_spans (by decide) hc.rested
    obtain ⟨_, _, rfl, m, ⟨typeName, rfl, htype, hstands⟩, _, _, rfl, n,
      ⟨⟨rule, start, text', binds⟩, rfl, hlist, hstands'⟩, hends⟩ := hspans
    obtain ⟨rfl, hend⟩ := hends.passes rfl
    obtain rfl : rule = .phrase .varBindList := hlist
    have hm := hc.of_stands hstands
    obtain ⟨-, hbinds⟩ := hstands'.of_phrase (by decide) hm.rested
    rw [List.append_nil, List.singleton_append, lowerVarDecl_node htype] at hlower
    obtain ⟨type, hlowerType, hlower⟩ := bind_eq_ok.1 hlower
    obtain ⟨xs, hxs, hlower⟩ := bind_eq_ok.1 hlower
    obtain rfl := Except.ok.inj hlower
    have hmeans := (gives_type_iff hc.rested).1 ⟨typeName, htype, hstands, hlowerType⟩
    have hall := Phrase.gives_commaList.1 ⟨binds, hbinds, hxs⟩
    exact .declaration hmeans (hall.imp Phrase.leads_gives hm fun hc => (gives_bind_iff hc).1) hend
  · rintro ⟨htype, hbinds, hend⟩
    obtain ⟨typeName, hrule, hstands, hlowerType⟩ := (gives_type_iff hc.rested).2 htype
    have hm := hc.of_stands hstands
    obtain ⟨binds, hspans, hmap⟩ := Phrase.gives_commaList.2
      (hbinds.imp leads_bind hm fun hc => (gives_bind_iff hc).2)
    obtain ⟨inner, hlist⟩ := Tree.exists_stands (p := .varBindList) hm.rested hspans
    refine .of_spans hc.rested
      ⟨[typeName], _, rfl, _, ⟨typeName, rfl, hrule, hstands⟩, [_], [], rfl, _,
        ⟨_, rfl, rfl, hlist⟩, Pattern.spans_mark hend⟩ fun text => ?_
    rw [List.append_nil, List.singleton_append, lowerVarDecl_node hrule, hlowerType, ok_bind, hmap]
    rfl

theorem leads_declaration : s.Leads s.MeansDeclaration :=
  fun hc h => ((gives_declaration_iff hc).2 h).isPlace hc

end Source

end DecafFrontEnd
