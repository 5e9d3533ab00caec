/-
  DecafFrontEnd/Proofs/Lexical/Agreement.lean --- the scans of one text agree.

  A text is scanned from its front to its end for its tokens, at one offset for the token
  there, and from an offset to a limit for the end of what stands between them.  The three
  follow one reading of lexemes.  Where the tokens of a text are known, the token at the
  offset of one of them is that one, and what stands between its offset and a limit ends
  with the last token that starts before the limit (`Source.scans_agree`).

  The limit may lie in a token, which then ends there, or in the trivia behind one, which
  is then followed beyond the limit: both are cases of one induction on the reading
  (`Source.contentEndFrom_of_reads`).
-/
import DecafFrontEnd.Proofs.Lexical.Lossless
import DecafFrontEnd.Proofs.Lexical.View

set_option autoImplicit false

namespace DecafFrontEnd

/-! ## The last token before a limit -/

/-- The last of some tokens that starts before a limit. -/
def lastBefore (limit : Nat) (ts : List Token) : Option Token :=
  (ts.filter (·.offset < limit)).getLast?

section LastBefore

variable {limit : Nat} {t : Token} {ts : List Token}

theorem lastBefore_eq_none (h : ∀ t ∈ ts, limit ≤ t.offset) : lastBefore limit ts = none := by
  have hnone : ts.filter (·.offset < limit) = [] := by
    simpa [List.filter_eq_nil_iff] using h
  rw [lastBefore, hnone, List.getLast?_nil]

theorem lastBefore_append (limit : Nat) (ts us : List Token) :
    lastBefore limit (ts ++ us) = (lastBefore limit us).or (lastBefore limit ts) := by
  rw [lastBefore, List.filter_append, List.getLast?_append]
  rfl

theorem lastBefore_cons (h : t.offset < limit) (ts : List Token) :
    lastBefore limit (t :: ts) = some ((lastBefore limit ts).getD t) := by
  have hone : lastBefore limit [t] = some t := by simp [lastBefore, h]
  rw [← List.singleton_append, lastBefore_append, hone, Option.or_some]

end LastBefore

namespace Source

variable {s : Source} {c d : Cursor} {ls : List Lexeme} {t : Token} {ts : List Token}

/-! ## What stands before a limit -/

/-- A reading that passes a limit ends there, or before it with the last of its tokens that
starts before it. -/
theorem contentEndFrom_of_reads {limit : Nat} (h : c.Reads ls d) (hlimit : limit ≤ d.offset)
    (reached : Nat) :
    contentEndFrom lineRest limit reached c =
      ((lastBefore limit (s.tokensAlong c ls)).map fun t => min limit t.stop).getD reached := by
  induction h generalizing reached with
  | nil c =>
      rw [suffices_lineRest.contentEndFrom_eq, if_neg (Nat.not_lt.2 hlimit)]
      rfl
  | @cons c d l ls hl hrest ih =>
      have hpast := Cursor.offset_past hl
      have hbehind : ∀ t ∈ s.tokensAlong (c.past l) ls, c.offset + byteLength l.text ≤ t.offset :=
        fun t ht => by
          have hle := le_offset_of_mem_tokensAlong hrest ht
          omega
      have hstop : (s.token c.offset (.ofLexeme l) l.text).stop =
          c.offset + byteLength l.text := by
        simp [Token.stop, token]
      rw [suffices_lineRest.contentEndFrom_eq, hl]
      dsimp only
      by_cases hlt : c.offset < limit
      · rw [if_pos hlt, tokensAlong, lastBefore_cons hlt]
        by_cases hle : limit ≤ c.offset + byteLength l.text
        · -- the lexeme reaches the limit, so that no later token starts before it
          rw [if_pos hle, lastBefore_eq_none fun t ht => Nat.le_trans hle (hbehind t ht)]
          simp [hstop, hle]
        · -- the end of this lexeme is what has been reached if no later token is before it
          rw [if_neg hle, ih hlimit]
          cases lastBefore limit (s.tokensAlong (c.past l) ls) with
          | some t => rfl
          | none => simp [hstop, Nat.le_of_lt (Nat.not_le.1 hle)]
      · rw [if_neg hlt, lastBefore_eq_none]
        · rfl
        · intro t ht
          have hle := le_offset_of_mem_tokensAlong (.cons hl hrest) ht
          omega

/-! ## Tokens of a reading -/

/-- A token of a reading stands at a place where the rest of the reading begins. -/
theorem exists_reads_of_mem_tokensAlong (h : c.Reads ls d) (ht : t ∈ s.tokensAlong c ls) :
    ∃ before m l behind, ls = before ++ l :: behind ∧ c.Reads before m ∧
      Lexeme.first? m.rest = some l ∧ m.Reads (l :: behind) d ∧
      t = s.token m.offset (.ofLexeme l) l.text := by
  induction h with
  | nil c => simp [tokensAlong] at ht
  | @cons c d l ls hl hrest ih =>
      obtain rfl | hlater := List.mem_cons.1 ht
      · exact ⟨[], c, l, ls, rfl, .nil c, hl, .cons hl hrest, rfl⟩
      · obtain ⟨before, m, l', behind, rfl, hbefore, hl', hbehind, ht⟩ := ih hlater
        exact ⟨l :: before, m, l', behind, rfl, .cons hl hbefore, hl', hbehind, ht⟩

/-- Of the tokens read up to a limit the last one before it is read from any place before it
on. -/
theorem exists_lastBefore {limit : Nat} {l : Lexeme} {before behind : List Lexeme} {m : Cursor}
    (h : c.Reads before m) (hm : m.offset < limit) (hd : limit ≤ d.offset) :
    ∃ last, lastBefore limit (s.tokensAlong m (l :: behind)) = some last ∧
      lastBefore limit (s.tokensAlong c (before ++ l :: behind) ++ [s.token d.offset .eof []]) =
        some last := by
  have hnone : lastBefore limit [s.token d.offset .eof []] = none :=
    lastBefore_eq_none (List.forall_mem_singleton.2 hd)
  have hfront : (s.token m.offset (.ofLexeme l) l.text).offset < limit := hm
  have hlast := lastBefore_cons hfront (s.tokensAlong (m.past l) behind)
  refine ⟨_, hlast, ?_⟩
  rw [lastBefore_append, hnone, Option.none_or, tokensAlong_append h, lastBefore_append,
    tokensAlong, hlast, Option.some_or]

/-! ## The whole of a text -/

/-- What stands between a place and a limit ends with the last token before the limit that
is read from the place on. -/
theorem contentEnd_of_reads (h : c.Reads ls d) (hend : d.rest = [])
    (hc : (Cursor.start s.chars).Reaches c) (limit : Nat) :
    s.contentEnd c.offset limit =
      ((lastBefore (min limit s.size) (s.tokensAlong c ls)).map fun t =>
        min (min limit s.size) t.stop).getD c.offset := by
  have hsize := offset_eq_size (hc.trans h.reaches) hend
  have hlimit : min limit s.size ≤ d.offset := hsize ▸ Nat.min_le_right _ _
  rw [contentEnd, contentEndBy, Cursor.dropBytes_offset hc, ← Nat.min_def]
  exact contentEndFrom_of_reads h hlimit c.offset

/-- Where the tokens of a text are known, the token at the offset of one of them is that one,
and none is at the offset of the end.  What stands between the offset of a token and a limit
ends at the limit, at the end of the text, or with the last token that starts before both,
whichever is first. -/
theorem scans_agree (h : s.tokenize = .ok ts) :
    (∀ t ∈ ts, t.kind ≠ .eof →
      s.tokenAt t.offset = some t.text.toList ∧
      ∀ limit, t.offset < limit →
        ∃ last, lastBefore (min limit s.size) ts = some last ∧
          s.contentEnd t.offset limit = min (min limit s.size) last.stop) ∧
    ∀ t ∈ ts, t.kind = .eof → s.tokenAt t.offset = none := by
  obtain ⟨ls, d, hreads, hend, rfl⟩ := tokenize_eq_ok_iff.1 h
  have hd := reaches_of_reads hreads
  constructor
  · intro t ht hkind
    obtain ht | ht := List.mem_append.1 ht
    · obtain ⟨before, m, l, behind, rfl, hbefore, hl, hbehind, rfl⟩ :=
        exists_reads_of_mem_tokensAlong hreads ht
      have hm := reaches_of_reads hbefore
      refine ⟨?_, fun limit hlt => ?_⟩
      · show s.tokenAt m.offset = some (String.ofList l.text).toList
        rw [tokenAt_offset hm, hl, String.toList_ofList]
        rfl
      · have hlater := hbehind.offset_lt (List.cons_ne_nil _ _)
        have hsize := offset_eq_size hd hend
        have hlimit : min limit s.size ≤ d.offset := hsize ▸ Nat.min_le_right _ _
        have hinside : m.offset < min limit s.size := Nat.lt_min.2 ⟨hlt, hsize ▸ hlater⟩
        obtain ⟨last, hlast, hwhole⟩ := exists_lastBefore hbefore hinside hlimit
        refine ⟨last, hwhole, ?_⟩
        show s.contentEnd m.offset limit = _
        rw [contentEnd_of_reads hbehind hend hm, hlast]
        rfl
    · exact absurd (congrArg Token.kind (List.mem_singleton.1 ht)) hkind
  · intro t ht hkind
    obtain ht | ht := List.mem_append.1 ht
    · obtain ⟨-, m, l, -, -, -, -, -, rfl⟩ := exists_reads_of_mem_tokensAlong hreads ht
      exact absurd hkind (TokenKind.ofLexeme_ne_eof l)
    · obtain rfl := List.mem_singleton.1 ht
      show s.tokenAt d.offset = none
      rw [tokenAt_offset hd, hend]
      rfl

/-- A limit in the comment behind a token, one inside an operator, and one behind the text. -/
theorem scans_agree_comment :
    (ofText "x //\n<=" none).tokenize =
      .ok [⟨.ident, "x", 0, 1, 0⟩, ⟨.leq, "<=", 5, 2, 0⟩, ⟨.eof, "", 7, 2, 2⟩] ∧
    (ofText "x //\n<=" none).tokenAt 5 = some ['<', '='] ∧
    (ofText "x //\n<=" none).tokenAt 7 = none ∧
    (ofText "x //\n<=" none).contentEnd 0 3 = 1 ∧
    (ofText "x //\n<=" none).contentEnd 0 6 = 6 ∧
    (ofText "x //\n<=" none).contentEnd 5 99 = 7 := by
  have htokens : (ofText "x //\n<=" none).tokenize =
      .ok [⟨.ident, "x", 0, 1, 0⟩, ⟨.leq, "<=", 5, 2, 0⟩, ⟨.eof, "", 7, 2, 2⟩] :=
    tokenize_eq_ok_iff.2 ⟨[⟨.ident, ['x']⟩, ⟨.relOp, ['<', '=']⟩], _,
      .cons rfl (.cons rfl (.nil _)), rfl, rfl⟩
  obtain ⟨htoken, hend⟩ := scans_agree htokens
  obtain ⟨-, hname⟩ := htoken ⟨.ident, "x", 0, 1, 0⟩ (by simp) (by decide)
  obtain ⟨hsign, hexpr⟩ := htoken ⟨.leq, "<=", 5, 2, 0⟩ (by simp) (by decide)
  obtain ⟨_, hlast, hcomment⟩ := hname 3 (by decide)
  obtain rfl := Option.some.inj hlast
  obtain ⟨_, hlast, hinside⟩ := hname 6 (by decide)
  obtain rfl := Option.some.inj hlast
  obtain ⟨_, hlast, hbehind⟩ := hexpr 99 (by decide)
  obtain rfl := Option.some.inj hlast
  exact ⟨htokens, hsign, hend ⟨.eof, "", 7, 2, 2⟩ (by simp) rfl, hcomment, hinside, hbehind⟩

end Source

end DecafFrontEnd
