/-
  DecafFrontEnd/Proofs/Command/Listing.lean --- what the listing of tokens says.

  The listing has a line for each token.  The text of the token stands in it as it is, between
  quotes that it may have itself, together with blanks and colons: a line is read from its
  front up to the first blank, which no name of a kind has, and from its end back over two
  numbers (`Token.fields_eq_of_entry`).  No token runs over a line, so that the lines of a
  listing are those of its tokens (`Source.splitOn_printTokens`).
-/
import DecafFrontEnd.Command.Output
import DecafFrontEnd.Proofs.Compilation.Report
import DecafFrontEnd.Proofs.Lexical.Lossless

set_option autoImplicit false

namespace DecafFrontEnd

/-! ## Kinds -/

namespace TokenKind

/-- All kinds of tokens. -/
def all : List TokenKind :=
  Keyword.all.map keyword ++
    [ident, intLit, charLit, stringLit, lparen, rparen, lbrace, rbrace, lbrack, rbrack, semi,
     comma, dot, not, plus, minus, mult, div, leq, geq, lt, gt, eq, neq, and, or, assign, eof]

theorem mem_all (kind : TokenKind) : kind ∈ all := by
  cases kind with
  | keyword k => exact List.mem_append_left _ (List.mem_map_of_mem k.mem_all)
  | _ => decide

/-- The name of a kind is no other kind's. -/
theorem name_injective : Function.Injective name := by
  have key : ∀ k ∈ all, ∀ k' ∈ all, k.name = k'.name → k = k' := by decide +kernel
  exact fun k k' h => key k k.mem_all k' k'.mem_all h

/-- The name of a kind is one word. -/
theorem blank_notMem_name (kind : TokenKind) : ' ' ∉ kind.name.toList := by
  have key : ∀ k ∈ all, ' ' ∉ k.name.toList := by decide +kernel
  exact key kind kind.mem_all

theorem isOneLine_name (kind : TokenKind) : IsOneLine kind.name := by
  have key : ∀ k ∈ all, IsOneLine k.name := by decide +kernel
  exact key kind kind.mem_all

end TokenKind

/-! ## Lines -/

namespace Token

/-- What a listing says of a token. -/
def fields (t : Token) : TokenKind × String × Nat × Nat := (t.kind, t.text, t.line, t.column)

/-- The line of a token in a listing, without its end. -/
def entry (t : Token) : String :=
  t.kind.name ++ " '" ++ t.text ++ "' " ++ toString t.line ++ ":" ++ toString t.column

theorem print_eq (t : Token) : t.print false = t.entry ++ "\n" := by
  simp [print, entry, Style.turnOn]

theorem toList_entry (t : Token) :
    t.entry.toList = t.kind.name.toList ++ ' ' :: (('\'' :: (t.text.toList ++ ['\'']) ++
      ' ' :: (toString t.line).toList) ++ ':' :: (toString t.column).toList) := by
  simp [entry]

/-- A line says of what token it is. -/
theorem fields_eq_of_entry {t t' : Token} (h : t.entry = t'.entry) : t.fields = t'.fields := by
  have hentry := congrArg String.toList h
  rw [toList_entry, toList_entry] at hentry
  -- from the front the kind, up to the first blank
  obtain ⟨hkind, hentry⟩ := append_cons_inj_of_front t.kind.blank_notMem_name
    t'.kind.blank_notMem_name hentry
  -- from the back the numbers, behind the last colon and the last blank
  obtain ⟨hentry, hcolumn⟩ := append_cons_inj_of_back (notMem_toString (by decide) _)
    (notMem_toString (by decide) _) hentry
  obtain ⟨hquoted, hline⟩ := append_cons_inj_of_back (notMem_toString (by decide) _)
    (notMem_toString (by decide) _) hentry
  have htext := List.append_cancel_right (List.cons.inj hquoted).2
  rw [fields, fields, TokenKind.name_injective (String.toList_injective hkind),
    String.toList_injective htext, eq_of_toString_eq hline,
    eq_of_toString_eq hcolumn]

/-- Tokens agree in what is listed if their lines do. -/
theorem map_fields_eq {ts ts' : List Token}
    (h : ts.map (fun t => t.entry.toList) = ts'.map (fun t => t.entry.toList)) :
    ts.map fields = ts'.map fields := by
  rw [← List.forall₂_eq_eq_eq, List.forall₂_map_left_iff, List.forall₂_map_right_iff] at h ⊢
  exact h.imp fun _ _ hentry => fields_eq_of_entry (String.toList_injective hentry)

theorem map_entry_eq {ts ts' : List Token} (h : ts.map fields = ts'.map fields) :
    ts.map entry = ts'.map entry := by
  rw [← List.forall₂_eq_eq_eq, List.forall₂_map_left_iff, List.forall₂_map_right_iff] at h ⊢
  refine h.imp fun t t' hfields => ?_
  simp only [fields, Prod.mk.injEq] at hfields
  obtain ⟨hkind, htext, hline, hcolumn⟩ := hfields
  rw [entry, entry, hkind, htext, hline, hcolumn]

theorem isOneLine_entry {t : Token} (h : IsOneLine t.text) : IsOneLine t.entry := by
  have hkind : IsOneLine (t.kind.name ++ " '" ++ t.text ++ "' ") :=
    ((t.kind.isOneLine_name.append (by decide)).append h).append (by decide)
  exact ((hkind.append (.number _)).append (by decide)).append (.number _)

end Token

/-! ## Listings -/

/-- The lines of a listing, if no token runs over a line. -/
theorem splitOn_printTokens_of_isOneLine {ts : List Token} (h : ∀ t ∈ ts, IsOneLine t.text) :
    (printTokens ts false).toList.splitOn '\n' = ts.map (fun t => t.entry.toList) ++ [[]] := by
  induction ts with
  | nil => rfl
  | cons t ts ih =>
      obtain ⟨ht, hts⟩ := List.forall_mem_cons.1 h
      have hlisting : (printTokens (t :: ts) false).toList =
          t.entry.toList ++ '\n' :: (printTokens ts false).toList := by
        simp [printTokens, Token.print_eq]
      have hentry : '\n' ∉ t.entry.toList := Token.isOneLine_entry ht
      rw [hlisting, List.splitOn_append_cons_self_of_not_mem hentry, ih hts]
      rfl

namespace Source

variable {s s' : Source} {ts ts' : List Token}

/-- No token of a text runs over a line. -/
theorem isOneLine_text (h : s.tokenize = .ok ts) {t : Token} (ht : t ∈ ts) : IsOneLine t.text := by
  obtain ⟨ls, d, hreads, -, rfl⟩ := tokenize_eq_ok_iff.1 h
  rcases List.mem_append.1 ht with hlexeme | hend
  · have hlongest := hasLongest_of_mem_tokensAlong hreads (Cursor.reaches_skip _) hlexeme
    exact fun hfeed => (hlongest.oneLine '\n' hfeed).1 rfl
  · rw [List.mem_singleton.1 hend]
    exact List.not_mem_nil

theorem splitOn_printTokens (h : s.tokenize = .ok ts) :
    (printTokens ts false).toList.splitOn '\n' = ts.map (fun t => t.entry.toList) ++ [[]] :=
  splitOn_printTokens_of_isOneLine fun _ ht => isOneLine_text h ht

/-- A listing has a line for each token, the last one for the end of the text, and two
listings are equal exactly if their tokens agree in kind, text, line and column. -/
theorem listing_of_tokens (h : s.tokenize = .ok ts) (h' : s'.tokenize = .ok ts') :
    (∃ front, ts = front ++ [s.token s.size .eof []]) ∧
    (printTokens ts false).toList.splitOn '\n' = ts.map (fun t => t.entry.toList) ++ [[]] ∧
    (printTokens ts false = printTokens ts' false ↔
      ts.map Token.fields = ts'.map Token.fields) := by
  refine ⟨?_, splitOn_printTokens h, fun heq => ?_, fun hfields => ?_⟩
  · obtain ⟨ls, d, hreads, hend, hts⟩ := tokenize_eq_ok_iff.1 h
    exact ⟨_, offset_eq_size (reaches_of_reads hreads) hend ▸ hts⟩
  · have hlines := congrArg (fun text : String => text.toList.splitOn '\n') heq
    simp only [splitOn_printTokens h, splitOn_printTokens h'] at hlines
    exact Token.map_fields_eq (List.append_cancel_right hlines)
  · have hprint : (fun t : Token => t.print false) = (· ++ "\n") ∘ Token.entry :=
      funext Token.print_eq
    rw [printTokens, printTokens, hprint, ← List.map_map, ← List.map_map,
      Token.map_entry_eq hfields]

/-- Two texts with the same listing, of tokens at different offsets.  The literal in them reads
like the end of a line of its own. -/
theorem listing_of_tokens_quoted :
    let s := ofText "//e\n\"' 1:0\"" none
    let s' := ofText "//é\n\"' 1:0\"" none
    let ts := [⟨.stringLit, "\"' 1:0\"", 4, 2, 0⟩, ⟨.eof, "", 11, 2, 7⟩]
    let ts' := [⟨.stringLit, "\"' 1:0\"", 5, 2, 0⟩, ⟨.eof, "", 12, 2, 7⟩]
    s.tokenize = .ok ts ∧ s'.tokenize = .ok ts' ∧
      printTokens ts false = "StringLit '\"' 1:0\"' 2:0\nEof '' 2:7\n" ∧
      (printTokens ts false).toList.splitOn '\n' = ts.map (fun t => t.entry.toList) ++ [[]] ∧
      (printTokens ts false = printTokens ts' false ↔
        ts.map Token.fields = ts'.map Token.fields) := by
  intro s s' ts ts'
  let literal : Lexeme := ⟨.stringLit, ['"', '\'', ' ', '1', ':', '0', '"']⟩
  have htokens : s.tokenize = .ok ts :=
    tokenize_eq_ok_iff.2 ⟨[literal], _, .cons (by decide +kernel) (.nil _), by decide +kernel,
      by decide +kernel⟩
  have htokens' : s'.tokenize = .ok ts' :=
    tokenize_eq_ok_iff.2 ⟨[literal], _, .cons (by decide +kernel) (.nil _), by decide +kernel,
      by decide +kernel⟩
  obtain ⟨-, hlines, heq⟩ := listing_of_tokens htokens htokens'
  exact ⟨htokens, htokens', rfl, hlines, heq⟩

end Source

end DecafFrontEnd
