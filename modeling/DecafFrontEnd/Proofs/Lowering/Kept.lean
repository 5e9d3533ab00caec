/-
  DecafFrontEnd/Proofs/Lowering/Kept.lean --- what is kept of a node is exact.

  The bytes of a node may end in trivia and what is kept of it may not.  A range is `Exact`
  for a node when it runs from the node's first token to the end of its last one, has no
  other tokens within it than the node has, and its text, alone, is all taken by the rule of
  the node.  A node that stands at a token `Occupies` a text up to trivia, and that text is
  what is kept of it and exact for it (`Source.Occupies.exact`).
-/
import DecafFrontEnd.Proofs.Grammar.Whole
import DecafFrontEnd.Proofs.Lexical.Extent
import DecafFrontEnd.Proofs.Lowering.Content
import DecafFrontEnd.Proofs.Lowering.Standing

set_option autoImplicit false

namespace DecafFrontEnd

/-! ## Exact ranges -/

/-- The text of a range. -/
def Source.textOf (s : Source) (span : Span) : List Char :=
  s.slice span.offset (span.offset + span.length)

/-- A range with just the tokens of a node, from the start of the first to the end of the
last, and with a text that the rule of the node takes all of. -/
structure Source.Exact (s : Source) (ts : List Token) (n : Tree) (content : Span) : Prop where
  embraces : content.Embraces (tokensWithin n.span ts)
  tokens : tokensWithin content ts = tokensWithin n.span ts
  alone : n.rule.MatchesAll (String.ofList (s.textOf content))

/-- What a rule covers its body does. -/
theorem Covers.exists_body {r : Rule} {c d : Cursor} {nodes : List Tree}
    (h : Covers (.once (.rule r)) c nodes d) :
    ∃ inner, Covers (.once r.body) c inner d ∧ nodes = r.leave c d inner := by
  cases h with
  | rule hbody => exact ⟨_, hbody, rfl⟩

/-- The bytes of a node are those that its rule covers. -/
theorem Tree.span_eq_of_covers {n : Tree} {c d : Cursor}
    (h : Covers (.once (.rule n.rule)) c [n] d) (hr : n.rule.isSyntactic = true) :
    n.span = ⟨c.offset, d.offset - c.offset⟩ := by
  obtain ⟨inner, -, hnode⟩ := h.exists_body
  rw [Rule.leave_eq hr] at hnode
  obtain ⟨text, htext, -, hoffset⟩ := h.reaches.takeBytes_eq
  rw [List.singleton_inj.1 hnode, htext, span, hoffset, Nat.add_sub_cancel_left, Tree.start,
    Tree.text]

/-- A node covers the text from one place to another, which is `text` up to trivia, and
lexemes are read up to there. -/
structure Source.Occupies (s : Source) (n : Tree) (c : Cursor) (text : List Char)
    (d : Cursor) : Prop where
  isSyntactic : n.rule.isSyntactic = true
  reads : ∃ before, s.firstPlace.Reads before c
  covers : Covers (.once (.rule n.rule)) c [n] d
  holds : c.Holds text d.skip
  length_le : c.offset + byteLength text ≤ d.offset

/-- A node that stands at a token occupies a text, if it is not a sign. -/
theorem Tree.StandsFrom.occupies {s : Source} {n : Tree} (h : n.StandsFrom s.firstPlace)
    (hblunt : (Pattern.rule n.rule).isBlunt = false) : ∃ c text d, s.Occupies n c text d := by
  obtain ⟨hr, before, c, _, hbefore, d, hcovers, rfl⟩ := h
  have hc := (s.isPlace_firstPlace.of_reads hbefore).rested
  rcases hcovers.contains_text hr rfl hc with rfl | ⟨text, hholds, hlength⟩ | ⟨hblunt', -⟩
  · have hnull : (Pattern.rule n.rule).nullable = false := by
      cases hrule : n.rule <;> simp_all [Rule.isSyntactic, Pattern.nullable, Rule.nullable]
    exact absurd (hcovers.length_lt hnull) (Nat.lt_irrefl _)
  · exact ⟨c, text, d, hr, ⟨before, hbefore⟩, hcovers, hholds, hlength⟩
  · exact absurd (hblunt'.symm.trans hblunt) (by simp)

namespace Source.Occupies

variable {s : Source} {n : Tree} {c d : Cursor} {ts : List Token} {text : List Char}

theorem isPlace (h : s.Occupies n c text d) : s.IsPlace c := by
  obtain ⟨_, hbefore⟩ := h.reads
  exact s.isPlace_firstPlace.of_reads hbefore

theorem span_eq (h : s.Occupies n c text d) : n.span = ⟨c.offset, d.offset - c.offset⟩ :=
  Tree.span_eq_of_covers h.covers h.isSyntactic

theorem start_eq (h : s.Occupies n c text d) : n.start = c.offset :=
  congrArg Span.offset h.span_eq

/-- What is kept of a node is the text that it occupies. -/
theorem contentSpan_eq (h : s.Occupies n c text d) :
    s.contentSpan n.span = ⟨c.offset, byteLength text⟩ := by
  have hreach := h.isPlace.reaches
  have hend := contentEnd_of_holds (hreach.trans h.covers.reaches) hreach h.holds h.length_le
  rw [h.span_eq, contentSpan, Nat.add_sub_cancel' h.covers.reaches.offset_le, hend,
    Nat.add_sub_cancel_left]

theorem textOf_eq (h : s.Occupies n c text d) : s.textOf ⟨c.offset, byteLength text⟩ = text := by
  obtain ⟨r, hrest⟩ := h.holds.exists_rest
  exact slice_of_rest h.isPlace.reaches hrest

/-- The text that a node occupies is exact for it. -/
theorem exact (h : s.Occupies n c text d) (hblunt : (Pattern.rule n.rule).isBlunt = false)
    (hts : s.tokenize = .ok ts) : s.Exact ts n ⟨c.offset, byteLength text⟩ := by
  obtain ⟨before, hbefore⟩ := h.reads
  obtain ⟨ls, hreads, hderives⟩ := h.covers.derives h.isSyntactic rfl hblunt h.isPlace.rested
  have hskip := (Cursor.reaches_skip d).offset_le
  have hlength := h.length_le
  have hnode : tokensWithin n.span ts = s.tokensAlong c ls := by
    rw [h.span_eq]
    refine tokensWithin_eq hts hbefore hreads h.holds rfl ?_ ?_ <;> dsimp only <;> omega
  have hcontent : tokensWithin ⟨c.offset, byteLength text⟩ ts = s.tokensAlong c ls :=
    tokensWithin_eq hts hbefore hreads h.holds rfl (Nat.le_refl _) (Nat.le_trans hlength hskip)
  have hstart : (Cursor.start text).rest = text := rfl
  obtain ⟨e, hreads', hend, hholds'⟩ := h.holds.reads_alone hreads hstart
  refine ⟨hnode ▸ embraces_of_holds h.holds hreads, hcontent.trans hnode.symm, ?_⟩
  rw [h.textOf_eq]
  exact Rule.matchesAll_of_derives h.isSyntactic hderives
    (h.holds.leadingTrivia_eq h.isPlace.rested) hreads' hend hholds'

end Source.Occupies

/-! ## Nodes that end with a lexeme -/

/-- Whether a pattern ends with a lexeme of a class, and not with a sign. -/
def Pattern.isClosed : Pattern → Bool
  | prim (.lexeme t) => !(mark t).isBlunt
  | rule (.terminal t) => !(mark t).isBlunt
  | seq _ q => q.isClosed
  | _ => false

/-- What ends with a lexeme has no trivia at its end. -/
theorem Covers.exists_holds_of_isClosed {p : Pattern} {c d : Cursor} {nodes : List Tree}
    (h : Covers (.once p) c nodes d) (hp : p.Regular) (hclosed : p.isClosed = true)
    (hc : c.Rested) : ∃ text, c.Holds text d.skip ∧ d.offset = c.offset + byteLength text := by
  have hlexeme : ∀ {t : Terminal} {c d : Cursor} {nodes : List Tree},
      (Pattern.mark t).isBlunt = false → Covers (.once (Pattern.mark t)) c nodes d →
      ∃ text, c.Holds text d.skip ∧ d.offset = c.offset + byteLength text := by
    intro t c d nodes ht h
    obtain ⟨l, r, hscan, -, rfl⟩ := h.scan_of_lexeme
    have hreads := Cursor.reads_of_scan_of_not_isBlunt hscan ht
    exact ⟨l, .last hreads.of_one.1 hreads.of_one.2,
      congrArg Cursor.offset (Cursor.advance_length (Terminal.append_of_scan hscan).symm)⟩
  induction p generalizing c d nodes with
  | prim q =>
      cases q with
      | lexeme t => exact hlexeme (by simpa [Pattern.isClosed] using hclosed) h
      | _ => simp [Pattern.isClosed] at hclosed
  | rule r =>
      cases r with
      | terminal t =>
          cases h with
          | rule hbody => exact hlexeme (by simpa [Pattern.isClosed] using hclosed) hbody
      | _ => simp [Pattern.isClosed] at hclosed
  | seq p q _ ih =>
      cases h with
      | @seq _ _ _ m _ _ _ hfirst hsecond =>
          obtain ⟨ls, hreads⟩ := hfirst.reads_front hsecond hp hc
          obtain ⟨text, hholds, hend⟩ := ih hsecond hp.seq.2 hclosed m.rested_skip
          obtain ⟨whole, hwhole, hlength⟩ := hholds.prepend hreads
          exact ⟨whole, hwhole, hend.trans hlength.symm⟩
  | alt | opt | many => simp [Pattern.isClosed] at hclosed

namespace Source.Occupies

variable {s : Source} {n : Tree} {c d : Cursor} {text : List Char}

/-- A node that ends with a lexeme is the text that it occupies. -/
theorem text_of_isClosed (h : s.Occupies n c text d) (hclosed : n.rule.body.isClosed = true) :
    n.text = text := by
  have hregular : (Pattern.rule n.rule).Regular := ⟨h.isSyntactic, rfl⟩
  obtain ⟨inner, hbody, hnode⟩ := h.covers.exists_body
  obtain ⟨text', hholds, hend⟩ := hbody.exists_holds_of_isClosed
    (Pattern.regular_body hregular) hclosed h.isPlace.rested
  obtain rfl := hholds.functional h.holds
  obtain ⟨r, hrest⟩ := hholds.exists_rest
  rw [Rule.leave_eq h.isSyntactic] at hnode
  rw [List.singleton_inj.1 hnode, Tree.text, hend, hrest, Nat.add_sub_cancel_left,
    takeBytes_byteLength_append]

/-- Of a node that ends with a lexeme all is kept. -/
theorem contentSpan_of_isClosed (h : s.Occupies n c text d)
    (hclosed : n.rule.body.isClosed = true) : s.contentSpan n.span = n.span := by
  rw [h.contentSpan_eq, Tree.span, h.start_eq, h.text_of_isClosed hclosed]

end Source.Occupies

end DecafFrontEnd
