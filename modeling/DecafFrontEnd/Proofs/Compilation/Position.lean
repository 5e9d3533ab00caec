/-
  DecafFrontEnd/Proofs/Compilation/Position.lean --- the positions in a program.

  Every node of a program stands at a token of the text, the first of its construct, and
  the nodes stand in the order in which they are listed.  Both are read off how the text
  is laid out (`Source.Lays`).
-/
import DecafFrontEnd.Proofs.Lexical.Tokens
import DecafFrontEnd.Proofs.Meaning.Position
import DecafFrontEnd.Proofs.Printing.Program

set_option autoImplicit false

namespace DecafFrontEnd

namespace Source

variable {s : Source} {c d : Cursor} {ts : List Token} {os : List Outline}

/-! ## Tokens -/

/-- The position of a place is that of the token there. -/
theorem position_of_tokensFrom {t : Token} (hc : s.IsPlace c)
    (h : s.tokensFrom lineRest c = .ok (t :: ts)) : t.position s = s.positionAt c.offset := by
  rw [tokensFrom] at h
  split at h
  · obtain ⟨rfl, -⟩ := List.cons.inj (Except.ok.inj h)
    exact (positionAt_offset hc.reaches _ _).symm
  · split at h
    · simp at h
    · obtain ⟨ts', -, h⟩ := bind_eq_ok.1 h
      obtain ⟨rfl, -⟩ := List.cons.inj (Except.ok.inj h)
      exact (positionAt_offset hc.reaches _ _).symm

/-- Every node that is laid out stands at its first token. -/
theorem Lays.placed (h : s.Lays c os d) (hc : s.IsPlace c) {after : List Token}
    (hts : after <:+ ts) (hafter : s.tokensFrom lineRest c = .ok after) :
    ∀ o ∈ os, o.Placed s ts := by
  induction h generalizing after with
  | done h => simp
  | @own c m n o d ls l kind children os h hl hopens hchildren hos ih ih' =>
      obtain ⟨front, back, rfl, hback, -⟩ := exists_tokens_of_reads hafter h
      obtain ⟨rest, hrest, rfl⟩ := tokensFrom_of_first? hl.of_one.1 hback
      rw [← hl.of_one.2] at hrest
      have hm := hc.of_reads h
      have hn := hm.of_reads hl
      have hnode := (List.suffix_append front _).trans hts
      have hinside := (List.suffix_cons _ rest).trans hnode
      obtain ⟨ls', hls', -⟩ := hchildren.exists_reads
      obtain ⟨inner, others, rfl, hothers, -⟩ := exists_tokens_of_reads hrest hls'
      rw [List.forall_mem_cons, ← position_of_tokensFrom hm hback]
      exact ⟨.own (hnode.subset (by simp)) hopens (ih hn hinside hrest),
        ih' (hn.of_reads hls') ((List.suffix_append inner _).trans hinside) hothers⟩
  | @child c m n o d ls brackets kind first others os h hopens hbrackets hall hfirst hchildren hos
      ih ih' =>
      obtain ⟨front, back, rfl, hback, -⟩ := exists_tokens_of_reads hafter h
      obtain ⟨bs, rest, rfl, hrest, hkinds⟩ := exists_tokens_of_reads hback hbrackets
      have hm := hc.of_reads h
      have hn := hm.of_reads hbrackets
      have hnode := (List.suffix_append front _).trans hts
      have hinside := (List.suffix_append bs _).trans hnode
      obtain ⟨ls', hls', hne⟩ := hchildren.exists_reads
      obtain ⟨inner, others', hinner, hothers, -⟩ := exists_tokens_of_reads hrest hls'
      have hbehind : others' <:+ rest := hinner ▸ List.suffix_append inner others'
      rw [List.forall_mem_cons]
      refine ⟨?_, ih' (hn.of_reads hls') (hbehind.trans hinside) hothers⟩
      -- the token at the first child, behind the brackets
      obtain ⟨l, hl⟩ : ∃ l, Lexeme.first? n.rest = some l := by
        cases hls' with
        | nil => exact absurd rfl (hne (by simp))
        | cons hl _ => exact ⟨_, hl⟩
      obtain ⟨tail, -, rfl⟩ := tokensFrom_of_first? hl hrest
      have hposition := position_of_tokensFrom hn hrest
      have hhead : (bs.headD (s.token n.offset (.ofLexeme l) l.text)).position s =
          s.positionAt m.offset := by
        cases bs with
        | nil => exact position_of_tokensFrom hm hback
        | cons b bs => exact position_of_tokensFrom hm hback
      have hall' : ∀ b ∈ bs, kind = .binary ∧ b.kind = .lparen := by
        intro b hb
        have hmem := List.mem_map_of_mem (f := Token.kind) hb
        rw [hkinds] at hmem
        obtain ⟨bracket, hbracket, hkind⟩ := List.mem_map.1 hmem
        obtain ⟨hbinary, hparen⟩ := hall bracket hbracket
        exact ⟨hbinary, by rw [← hkind, TokenKind.ofLexeme, hparen]⟩
      obtain ⟨before, rfl⟩ := hnode
      rw [← hhead]
      exact .child hopens (List.append_assoc _ _ _).symm (hfirst.trans hposition.symm) hall'
        (ih hn hinside hrest)

/-! ## Order -/

theorem offset_positionAt (hc : s.IsPlace c) : (s.positionAt c.offset).offset = c.offset :=
  hc.reaches.floorBoundary_offset

end Source

namespace Source.Lays

variable {s : Source} {c d : Cursor} {os : List Outline}

theorem isPlace (h : s.Lays c os d) (hc : s.IsPlace c) : s.IsPlace d := by
  obtain ⟨ls, hls, -⟩ := h.exists_reads
  exact hc.of_reads hls

theorem offset_le (h : s.Lays c os d) : c.offset ≤ d.offset := by
  obtain ⟨ls, hls, -⟩ := h.exists_reads
  exact hls.reaches.offset_le

theorem offset_lt (h : s.Lays c os d) (hos : os ≠ []) : c.offset < d.offset := by
  obtain ⟨ls, hls, hne⟩ := h.exists_reads
  exact hls.offset_lt (hne hos)

/-- What is laid out between two places is in order there. -/
theorem within (h : s.Lays c os d) (hc : s.IsPlace c) :
    Outline.Within c.offset d.offset os := by
  induction h with
  | done h => exact .nil _ _
  | @own c m n o d ls l kind children os h hl _ hchildren hos ih ih' =>
      have hm := hc.of_reads h
      have hn := hm.of_reads hl
      have hp := offset_positionAt hm
      have hle := h.reaches.offset_le
      have hlt := hl.offset_lt (by simp)
      have hle' := hchildren.offset_le
      exact .cons (by omega) (by omega) (by omega) (ih hn) (ih' (hchildren.isPlace hn))
        hos.offset_le
  | @child c m n o d ls brackets kind first others os h _ hbrackets _ _ hchildren hos ih ih' =>
      have hm := hc.of_reads h
      have hn := hm.of_reads hbrackets
      have hp := offset_positionAt hm
      have hle := h.reaches.offset_le
      have hle' := hbrackets.reaches.offset_le
      have hlt := hchildren.offset_lt (by simp)
      exact .cons (by omega) (by omega) (by omega) (ih hn) (ih' (hchildren.isPlace hn))
        hos.offset_le

end Source.Lays

/-! ## Positions in a program -/

/-- A program that compiles is what the text means, every construct in the position of the
place where it begins.  At that place is a token, the first of the construct.  In the list
of all nodes the offsets never fall; no node is before its parent, and each is before the
next of the same parent. -/
theorem Source.positions_of_compile {s : Source} {p : Program} (h : s.compile = .ok p) :
    s.MeansProgram p ∧ (∃ ts, s.tokenize = .ok ts ∧ p.outline.Placed s ts) ∧
      p.outline.nodes.Pairwise (fun n n' => n.2.offset ≤ n'.2.offset) ∧ p.outline.Ordered := by
  have hmeans := compile_eq_ok_iff.1 h
  obtain ⟨d, hlays, hend⟩ := hmeans.lays
  have hwithin := hlays.within s.isPlace_firstPlace
  obtain ⟨ls, hreads, -⟩ := hlays.exists_reads
  obtain ⟨ts, hts, -⟩ := tokenize_of_reads hreads hend
  refine ⟨hmeans, ⟨ts, hts, ?_⟩, ?_, hwithin.ordered _ (by simp)⟩
  · rw [tokenize_eq] at hts
    exact hlays.placed s.isPlace_firstPlace List.suffix_rfl hts _ (by simp)
  · have hnodes : Outline.nodesOfAll [p.outline] = p.outline.nodes := List.append_nil _
    rw [← hnodes]
    exact hwithin.sorted

/-- The countdown has its nodes in order. -/
theorem Source.positions_of_compile_countdown :
    let s := Source.ofText Program.countdown.printed none
    ∃ p, s.compile = .ok p ∧ s.MeansProgram p ∧
      (∃ ts, s.tokenize = .ok ts ∧ p.outline.Placed s ts) ∧
      p.outline.nodes.Pairwise (fun n n' => n.2.offset ≤ n'.2.offset) ∧ p.outline.Ordered := by
  obtain ⟨p, hp⟩ := Program.exists_compile_countdown
  exact ⟨p, hp, positions_of_compile hp⟩

end DecafFrontEnd
