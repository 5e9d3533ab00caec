/-
  DecafFrontEnd/Proofs/Compilation/Kept.lean --- the texts that a program keeps.

  The parser leaves trivia at the end of a node that ends in an optional part, and takes it
  back behind others.  What is kept of a node does not depend on that: it is exact for every
  phrase of a tree, and so is the text of every simple expression of a program
  (`Source.kept_texts_exact`).
-/
import DecafFrontEnd.Proofs.Compilation.Malformed
import DecafFrontEnd.Proofs.Compilation.Position
import DecafFrontEnd.Proofs.Lowering.Simple

set_option autoImplicit false

namespace DecafFrontEnd

namespace Source

variable {s : Source} {t n : Tree} {ts : List Token}

/-- A phrase of the tree of a text occupies a part of the text. -/
theorem occupies_of_mem_nodes {p : Phrase} (h : s.parseProgram = .ok t) (hn : n ∈ t.nodes)
    (hrule : n.rule = .phrase p) (hp : p ≠ .program) :
    (Pattern.rule n.rule).isBlunt = false ∧ ∃ c text d, s.Occupies n c text d := by
  have hblunt : (Pattern.rule n.rule).isBlunt = false := by rw [hrule]; rfl
  have hstands : n.StandsFrom s.firstPlace := by
    simpa [hrule, hp] using standing_of_mem_nodes h hn
  exact ⟨hblunt, hstands.occupies hblunt⟩

/-- What is kept of a phrase of a text that parses is exact: it runs from the first token of
the phrase to the end of the last, has the tokens within it that start in the bytes of the
phrase, and is a text that the rule of the phrase, on its own, takes all of.  The text of
every simple expression of the program that the text compiles to is kept of such a phrase,
and is what stands in the text at the position of the expression. -/
theorem kept_texts_exact (h : s.parseProgram = .ok t) :
    ∃ ts, s.tokenize = .ok ts ∧
      (∀ n ∈ t.nodes, ∀ p, n.rule = .phrase p → p ≠ .program →
        s.Exact ts n (s.contentSpan n.span)) ∧
      ∀ program, s.compile = .ok program → ∀ position text,
        .simple position text ∈ program.expressions →
        ∃ n ∈ t.nodes, n.rule = .phrase .simpleExpr ∧ position = s.positionAt n.start ∧
          s.slice position.offset (position.offset + byteLength text.toList) = text.toList ∧
          s.Exact ts n ⟨position.offset, byteLength text.toList⟩ := by
  obtain ⟨ts, hts, -⟩ := derives_of_parseProgram h
  refine ⟨ts, hts, fun n hn p hrule hp => ?_, fun program hprogram position text hsimple => ?_⟩
  · obtain ⟨hblunt, c, text, d, hoccupies⟩ := occupies_of_mem_nodes h hn hrule hp
    rw [hoccupies.contentSpan_eq]
    exact hoccupies.exact hblunt hts
  · rw [compile_of_parseProgram h] at hprogram
    obtain ⟨n, hn, hrule, rfl, rfl⟩ := keeps_lowerProgram hprogram position text hsimple
    obtain ⟨hblunt, c, text, d, hoccupies⟩ := occupies_of_mem_nodes h hn hrule (by decide)
    have hoffset : (s.positionAt n.start).offset = c.offset := by
      rw [hoccupies.start_eq]
      exact offset_positionAt hoccupies.isPlace
    refine ⟨n, hn, hrule, rfl, ?_⟩
    rw [hoccupies.contentSpan_eq, hoccupies.textOf_eq, String.toList_ofList, hoffset]
    exact ⟨hoccupies.textOf_eq, hoccupies.exact hblunt hts⟩

/-- A value with comments within it and behind it. -/
def commentedValue : Source :=
  .ofText "class A\x7bvoid f()\x7bx=a //b\n[1] //c\n;\x7d\x7d" none

theorem commentedValue_chars : commentedValue =
    ⟨none, ['c', 'l', 'a', 's', 's', ' ', 'A', '\x7b', 'v', 'o', 'i', 'd', ' ', 'f', '(', ')',
      '\x7b', 'x', '=', 'a', ' ', '/', '/', 'b', '\n', '[', '1', ']', ' ', '/', '/', 'c', '\n', ';', '\x7d',
      '\x7d'], commentedValue.lines, rfl⟩ := rfl

/-- What is kept of the locations of a tree. -/
def keptLocations (s : Source) (t : Tree) : List (List Char) :=
  (t.nodes.filter fun n => n.rule = .phrase .location).map fun n => s.textOf (s.contentSpan n.span)

/-- Of the commented value all is kept up to the bracket, and nothing behind it. -/
theorem kept_texts_exact_comment : ∃ t ts, commentedValue.parseProgram = .ok t ∧
    commentedValue.tokenize = .ok ts ∧
    commentedValue.keptLocations t = ["x".toList, "a //b\n[1]".toList] ∧
    ∀ n ∈ t.nodes, n.rule = .phrase .location →
      commentedValue.Exact ts n (commentedValue.contentSpan n.span) := by
  have hkept : commentedValue.parseProgram.toOption.map commentedValue.keptLocations =
      some ["x".toList, "a //b\n[1]".toList] := by
    rw [commentedValue_chars]
    decide +kernel
  cases hparse : commentedValue.parseProgram with
  | error m => simp [hparse, Except.toOption] at hkept
  | ok t =>
      rw [hparse] at hkept
      obtain ⟨ts, hts, hexact, -⟩ := kept_texts_exact hparse
      exact ⟨t, ts, rfl, hts, Option.some.inj hkept,
        fun n hn hrule => hexact n hn _ hrule (by decide)⟩

end Source

end DecafFrontEnd
