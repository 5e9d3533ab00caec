/-
  DecafFrontEnd/Proofs/Printing/Expression.lean --- a printed expression means itself.

  Where the words of a well-formed tree stand, the tree stands, up to its positions:
  `Tells R bare ws x` says so of one relation.  The words of a node are those of its parts
  with marks between them, and so are the proofs.
-/
import DecafFrontEnd.Proofs.Lexical.Words
import DecafFrontEnd.Proofs.Meaning.WellFormed
import DecafFrontEnd.Proofs.Printing.Words

set_option autoImplicit false

namespace DecafFrontEnd

/-! ## Words that tell what stands -/

/-- Wherever these words stand, the given thing does, up to positions. -/
structure Tells {α : Type} (R : Source → Cursor → α → Cursor → Prop) (bare : α → α)
    (ws : List String) (x : α) : Prop where
  isWord : ∀ w ∈ ws, IsWord w
  stands : ∀ {s : Source} {c d : Cursor}, c.Rested → c.Worded ws d →
    ∃ x', R s c x' d ∧ bare x' = bare x

/-! ## Marks and lists -/

theorem isWord_bracketed {ws : List String} (h : ∀ w ∈ ws, IsWord w) :
    ∀ w ∈ bracketedWords ws, IsWord w := by
  rw [bracketedWords, List.cons_append, List.forall_mem_cons, List.forall_mem_append]
  exact ⟨isWord_of_spelling (t := .lparen) (by decide), h,
    isWord_of_mem_mark (t := .rparen) (by decide)⟩

namespace Cursor.Worded

variable {c d : Cursor} {ws ws' : List String} {isArray : Bool}

theorem bracketed (h : c.Worded (bracketedWords ws ++ ws') d) :
    ∃ m n o, c.Passes .lparen m ∧ m.Worded ws n ∧ n.Passes .rparen o ∧ o.Worded ws' d := by
  rw [bracketedWords, List.append_assoc, List.cons_append] at h
  obtain ⟨m, hopen, h⟩ := h.passes (t := .lparen) (by decide)
  obtain ⟨n, hws, h⟩ := h.split
  obtain ⟨o, hclose, h⟩ := h.passes (t := .rparen) (by decide)
  exact ⟨m, n, o, hopen, hws, hclose, h⟩

theorem marked (h : c.Worded (arrayWords isArray) d) : c.Marked isArray d := by
  cases isArray with
  | false =>
      obtain rfl := h.eq_of_nil
      exact .plain _
  | true =>
      obtain ⟨m, hopen, h⟩ := h.passes (t := .lbrack) (by decide)
      obtain ⟨n, hclose, h⟩ := h.passes (t := .rbrack) (by decide)
      obtain rfl := h.eq_of_nil
      exact .array hopen hclose

end Cursor.Worded

theorem isWord_arrayWords (isArray : Bool) : ∀ w ∈ arrayWords isArray, IsWord w := by
  cases isArray with
  | false => simp [arrayWords]
  | true =>
      rw [arrayWords, if_pos rfl, List.forall_mem_cons, List.forall_mem_singleton]
      exact ⟨isWord_of_spelling (t := .lbrack) (by decide),
        isWord_of_spelling (t := .rbrack) (by decide)⟩

section

variable {α : Type} {R : Source → Cursor → α → Cursor → Prop} {bare : α → α}
  {words : α → List String} {xs : List α}

/-- A single word that is a lexeme tells what stands where the lexeme is read. -/
theorem Tells.one {t : Terminal} {w : String} {x : α} (hw : (⟨t, w.toList⟩ : Lexeme).IsWhole)
    (h : ∀ {s : Source} {c d : Cursor}, c.Reads [⟨t, w.toList⟩] d →
      ∃ x', R s c x' d ∧ bare x' = bare x) : Tells R bare [w] x := by
  refine ⟨by simpa using isWord_of_isWhole hw, fun _ hws => ?_⟩
  obtain ⟨m, hreads, hnil⟩ := hws.reads hw
  obtain rfl := hnil.eq_of_nil
  exact h hreads

theorem Tells.series (h : ∀ x ∈ xs, Tells R bare (words x) x) :
    Tells (fun s => Series (R s)) (List.map bare) (xs.flatMap words) xs := by
  induction xs with
  | nil =>
      refine ⟨by simp, fun _ hws => ⟨[], ?_, rfl⟩⟩
      obtain rfl := hws.eq_of_nil
      exact .nil _
  | cons x xs ih =>
      obtain ⟨hx, hxs⟩ := List.forall_mem_cons.1 h
      rw [List.flatMap_cons]
      refine ⟨List.forall_mem_append.2 ⟨hx.isWord, (ih hxs).isWord⟩, fun hc hws => ?_⟩
      obtain ⟨m, hm, hws⟩ := hws.split
      obtain ⟨x', hx', hbare⟩ := hx.stands hc hm
      obtain ⟨xs', hxs', hbares⟩ := (ih hxs).stands (hm.rested hc) hws
      exact ⟨x' :: xs', .cons hx' hxs', by rw [List.map_cons, List.map_cons, hbare, hbares]⟩

theorem Tells.behindComma {x : α} {ws : List String} (h : Tells R bare ws x) :
    Tells (fun s => BehindComma (R s)) bare ("," :: ws) x := by
  refine ⟨List.forall_mem_cons.2 ⟨isWord_of_spelling (t := .comma) (by decide), h.isWord⟩,
    fun hc hws => ?_⟩
  obtain ⟨m, ⟨l, hcomma⟩, hws⟩ := hws.passes (t := .comma) (by decide)
  obtain ⟨x', hx', hbare⟩ := h.stands (hcomma.rested hc) hws
  exact ⟨x', .behind ⟨l, hcomma⟩ hx', hbare⟩

theorem Tells.behindCommas (h : ∀ x ∈ xs, Tells R bare (words x) x) :
    Tells (fun s => Series (BehindComma (R s))) (List.map bare)
      (wordsBehindCommas (xs.map words)) xs := by
  rw [wordsBehindCommas, List.flatMap_map]
  exact Tells.series fun x hx => (h x hx).behindComma

theorem Tells.listed (hne : xs ≠ []) (h : ∀ x ∈ xs, Tells R bare (words x) x) :
    Tells (fun s => Listed (R s)) (List.map bare) (wordsOfList (xs.map words)) xs := by
  cases xs with
  | nil => exact absurd rfl hne
  | cons x xs =>
      obtain ⟨hx, hxs⟩ := List.forall_mem_cons.1 h
      have hothers := Tells.behindCommas hxs
      refine ⟨List.forall_mem_append.2 ⟨hx.isWord, hothers.isWord⟩, fun hc hws => ?_⟩
      obtain ⟨m, hm, hws⟩ := hws.split
      obtain ⟨x', hx', hbare⟩ := hx.stands hc hm
      obtain ⟨xs', hxs', hbares⟩ := hothers.stands (hm.rested hc) hws
      exact ⟨x' :: xs', .listed hx' hxs', by rw [List.map_cons, List.map_cons, hbare, hbares]⟩

end

/-! ## Expressions -/

/-- Where a text stands that can be kept, it is kept. -/
theorem IsKeptText.means {text : String} (h : IsKeptText text) {s : Source} {c d : Cursor}
    (hc : c.Rested) (hholds : c.Holds text.toList d) : s.Means c .kept d := by
  rw [← String.ofList_toList (s := text)] at h
  obtain ⟨hfront, e, hmeans, halone⟩ := isKeptText_iff.1 h
  obtain ⟨ls, hreads, ht⟩ := hmeans.transfers (Source.isPlace_alone hfront).rested
  obtain ⟨ls', hreads'⟩ := hholds.exists_reads
  have hplace : (Cursor.start text.toList).rest = text.toList := rfl
  obtain ⟨e', hreads'', hend, -⟩ := hholds.reads_alone hreads' hplace
  obtain rfl := hreads.eq_of_ends (halone.rest_eq_nil rfl) hreads'' hend
  exact ht hc hreads'

/-- A location without its positions. -/
def Location.unplaced (l : Location) : Location := l.relocate fun _ => default

namespace Expression

theorem unplaced_call (p : Position) (l : Location) (es : List Expression) :
    (call p l es).unplaced = .call default l.unplaced (es.map unplaced) := by
  have hcall : (call p l es).unplaced =
      .call default l.unplaced (relocateAll (fun _ => default) es) := rfl
  rw [hcall, relocateAll_eq_map]
  rfl

theorem unplaced_callout (p : Position) (name : String) (es : List Expression) :
    (callout p name es).unplaced = .callout default name (es.map unplaced) := by
  have hcallout : (callout p name es).unplaced =
      .callout default name (relocateAll (fun _ => default) es) := rfl
  rw [hcallout, relocateAll_eq_map]
  rfl

end Expression

theorem Tells.brackets {e : Expression} {ws : List String}
    (h : Tells Source.MeansExpression Expression.unplaced ws e) :
    Tells (fun s c e d => s.Means c (.expression 6 e) d) Expression.unplaced
      (bracketedWords ws) e := by
  refine ⟨isWord_bracketed h.isWord, fun hc hws => ?_⟩
  rw [← List.append_nil (bracketedWords ws)] at hws
  obtain ⟨m, n, o, ⟨l, hopen⟩, he, hclose, hnil⟩ := hws.bracketed
  obtain rfl := hnil.eq_of_nil
  obtain ⟨e', he', hbare⟩ := h.stands (hopen.rested hc) he
  exact ⟨e', .brackets ⟨l, hopen⟩ he' hclose, hbare⟩

/-! ## Literals -/

namespace Tells

theorem literal {t : Terminal} {w : String} {e : Expression}
    (hw : (⟨t, w.toList⟩ : Lexeme).IsWhole)
    (h : ∀ {s : Source} {c d : Cursor}, c.Reads [⟨t, w.toList⟩] d →
      ∃ e', s.Means c (.expression 6 e') d ∧ e'.unplaced = e.unplaced) :
    Tells Source.MeansExpression Expression.unplaced [w] e := by
  refine .one hw fun hreads => ?_
  obtain ⟨e', he', hbare⟩ := h hreads
  exact ⟨e', he'.loosen (by omega) (Nat.le_refl 6), hbare⟩

theorem integer {p : Position} {v : Int32} (h : (Expression.integer p v).WellFormed) :
    Tells Source.MeansExpression Expression.unplaced (Expression.integer p v).words
      (.integer p v) := by
  obtain ⟨hzero, hmax⟩ := h
  have hdigits := String.toList_ofList (l := Nat.toDigits 10 v.toInt.toNat)
  have hwhole : (⟨.intLit, Nat.toDigits 10 v.toInt.toNat⟩ : Lexeme).IsWhole :=
    Lexeme.isWhole_of_digits Nat.toDigits_ne_nil fun c hc =>
      Nat.isDigit_of_mem_toDigits (by decide) (by decide) hc
  have hvalue := decimalValue_toDigits v.toInt.toNat
  rw [Expression.words]
  rw [← hdigits] at hwhole
  refine literal hwhole fun hreads => ⟨_, .integer hreads ?_, ?_⟩
  · rw [hdigits, hvalue]
    omega
  · rw [hdigits, hvalue, Expression.unplaced_integer, Expression.unplaced_integer]
    congr 1
    apply Int32.toInt_inj.1
    rw [toInt_ofNat (by omega)]
    omega

theorem character {p : Position} {v : Char} (h : (Expression.character p v).WellFormed) :
    Tells Source.MeansExpression Expression.unplaced (Expression.character p v).words
      (.character p v) := by
  obtain ⟨hquote, hn, hr⟩ := h
  have htext := String.toList_ofList (l := Lexeme.quoted v)
  have hwhole := Lexeme.isWhole_quoted hquote hn hr
  obtain ⟨inside, hinside⟩ : ∃ inside, Lexeme.quoted v = '\'' :: v :: inside := by
    unfold Lexeme.quoted
    split
    · next hv => exact ⟨_, by rw [hv]⟩
    · exact ⟨_, rfl⟩
  rw [Expression.words]
  rw [← htext] at hwhole
  refine literal hwhole fun hreads => ?_
  rw [htext, hinside] at hreads
  exact ⟨_, .character hreads, rfl⟩

theorem boolean (p : Position) (b : Bool) :
    Tells Source.MeansExpression Expression.unplaced (Expression.boolean p b).words
      (.boolean p b) := by
  rw [Expression.words]
  cases b with
  | false =>
      exact literal (Keyword.isWhole .falseKw) fun h => ⟨_, .boolean false h, rfl⟩
  | true => exact literal (Keyword.isWhole .trueKw) fun h => ⟨_, .boolean true h, rfl⟩

/-! ## Operators and locations -/

theorem simple {p : Position} {text : String} (h : IsKeptText text) :
    Tells Source.MeansExpression Expression.unplaced [text] (.simple p text) := by
  refine ⟨by simpa using ⟨h.front, h.back⟩, fun hc hws => ?_⟩
  obtain ⟨m, hholds, hnil⟩ := hws.cases_cons
  obtain rfl := Cursor.Worded.eq_of_nil hnil
  refine ⟨_, (Source.Means.simple (h.means hc hholds) hholds).loosen (by omega) (Nat.le_refl 6), ?_⟩
  rw [String.ofList_toList]
  rfl

theorem operation {p : Position} (op : InfixOp) {lhs rhs : Expression} {ws ws' : List String}
    (hl : Tells Source.MeansExpression Expression.unplaced ws lhs)
    (hr : Tells Source.MeansExpression Expression.unplaced ws' rhs) :
    Tells Source.MeansExpression Expression.unplaced
      (bracketedWords ws ++ op.spelling :: bracketedWords ws') (.binary p lhs op.spelling rhs) := by
  have hop : (⟨op.terminal, op.spelling.toList⟩ : Lexeme).IsWhole := op.isWhole_lexeme
  have htight : op.tightness < 6 := Level.tightness_lt op
  refine ⟨List.forall_mem_append.2 ⟨hl.brackets.isWord,
    List.forall_mem_cons.2 ⟨isWord_of_isWhole hop, hr.brackets.isWord⟩⟩, fun hc hws => ?_⟩
  obtain ⟨m, hm, hws⟩ := hws.split
  obtain ⟨n, hsign, hn⟩ := hws.reads hop
  obtain ⟨l, hl', hbare⟩ := hl.brackets.stands hc hm
  obtain ⟨r, hr', hbare'⟩ := hr.brackets.stands (hsign.rested (hm.rested hc)) hn
  refine ⟨_, (Source.Means.operation op (hl'.loosen (by omega) (Nat.le_refl 6)) hsign
    (hr'.loosen (by omega) (Nat.le_refl 6))).loosen (Nat.zero_le _) (by omega), ?_⟩
  rw [Expression.unplaced_binary, Expression.unplaced_binary, hbare, hbare']

theorem negation {p : Position} {e : Expression} {ws : List String}
    (h : Tells Source.MeansExpression Expression.unplaced ws e) :
    Tells Source.MeansExpression Expression.unplaced ("!" :: bracketedWords ws)
      (.unary p "!" e) := by
  refine ⟨List.forall_mem_cons.2 ⟨isWord_of_spelling (t := .notOp) (by decide), h.brackets.isWord⟩,
    fun hc hws => ?_⟩
  obtain ⟨m, hsign, hws⟩ := hws.reads (Terminal.isWhole (t := .notOp) _ (by decide))
  obtain ⟨e', he', hbare⟩ := h.brackets.stands (hsign.rested hc) hws
  refine ⟨_, (Source.Means.negation hsign he').loosen (Nat.zero_le _) (Nat.le_refl 6), ?_⟩
  rw [Expression.unplaced_unary, Expression.unplaced_unary, hbare]

theorem name {p : Position} {x : String} (hx : IsName x) :
    Tells (fun s c l d => s.Means c (.location l) d) Location.unplaced [x] ⟨p, x, none, none⟩ := by
  refine .one hx fun hreads => ⟨_, .name hreads, ?_⟩
  rw [String.ofList_toList]
  rfl

theorem field {p : Position} {x y : String} (hx : IsName x) (hy : IsName y) :
    Tells (fun s c l d => s.Means c (.location l) d) Location.unplaced [x, ".", y]
      ⟨p, x, some y, none⟩ := by
  have hdot : IsWord "." := isWord_of_spelling (t := .dot) (by decide)
  refine ⟨by simpa using ⟨isWord_of_isWhole hx, hdot, isWord_of_isWhole hy⟩, fun _ hws => ?_⟩
  obtain ⟨m, hname, hws⟩ := hws.reads hx
  obtain ⟨n, hdot, hws⟩ := hws.passes (t := .dot) (by decide)
  obtain ⟨o, hfield, hnil⟩ := hws.reads hy
  obtain rfl := hnil.eq_of_nil
  refine ⟨_, .field hname hdot hfield, ?_⟩
  rw [String.ofList_toList, String.ofList_toList]
  rfl

theorem element {p : Position} {x : String} {e : Expression} {ws : List String} (hx : IsName x)
    (h : Tells Source.MeansExpression Expression.unplaced ws e) :
    Tells (fun s c l d => s.Means c (.location l) d) Location.unplaced (x :: "[" :: (ws ++ ["]"]))
      ⟨p, x, none, some e⟩ := by
  refine ⟨List.forall_mem_cons.2 ⟨isWord_of_isWhole hx,
    List.forall_mem_cons.2 ⟨isWord_of_spelling (t := .lbrack) (by decide),
      List.forall_mem_append.2 ⟨h.isWord,
        isWord_of_mem_mark (t := .rbrack) (by decide)⟩⟩⟩, fun hc hws => ?_⟩
  obtain ⟨m, hname, hws⟩ := hws.reads hx
  obtain ⟨n, ⟨l, hopen⟩, hws⟩ := hws.passes (t := .lbrack) (by decide)
  obtain ⟨o, hindex, hws⟩ := hws.split
  obtain ⟨q, hclose, hnil⟩ := hws.passes (t := .rbrack) (by decide)
  obtain rfl := hnil.eq_of_nil
  obtain ⟨e', he', hbare⟩ := h.stands (hopen.rested (hname.rested hc)) hindex
  have hbare : e'.relocate (fun _ => default) = e.relocate (fun _ => default) := hbare
  refine ⟨_, .element hname ⟨l, hopen⟩ he' hclose, ?_⟩
  rw [String.ofList_toList]
  simp only [Location.unplaced, Location.relocate, hbare]

end Tells

mutual

/-- A well-formed location stands where its words do. -/
theorem Location.tells : (l : Location) → l.WellFormed →
    Tells (fun s c l d => s.Means c (.location l) d) Location.unplaced l.words l
  | ⟨p, x, path, some e⟩, h => by
      obtain ⟨hx, -, hpath, he⟩ := h
      obtain rfl : path = none := by simpa using hpath
      exact Tells.element hx (e.tells he)
  | ⟨p, x, some y, none⟩, h => Tells.field h.1 (h.2.1 y rfl)
  | ⟨p, x, none, none⟩, h => Tells.name h.1

/-- A well-formed expression stands where its words do. -/
theorem Expression.tells : (e : Expression) → e.WellFormed →
    Tells Source.MeansExpression Expression.unplaced e.words e
  | .simple _ _, h => Tells.simple h
  | .binary _ lhs _ rhs, h => by
      obtain ⟨hl, ⟨op, rfl⟩, hr⟩ := h
      exact Tells.operation op (lhs.tells hl) (rhs.tells hr)
  | .unary _ _ e, h => by
      obtain ⟨rfl, he⟩ := h
      exact Tells.negation (e.tells he)
  | .call .., h | .callout .., h => h.elim
  | .integer _ _, h => Tells.integer h
  | .character _ _, h => Tells.character h
  | .boolean p b, _ => Tells.boolean p b
  | .null _, _ => Tells.literal (Keyword.isWhole .nullKw) fun h => ⟨_, .null h, rfl⟩

end

end DecafFrontEnd
