/-
  DecafFrontEnd/Proofs/Grammar/Viable.lean --- what a program can go on with.

  A pattern is `Viable` behind some lexemes when a program can go on with it there:
  whatever the pattern stands for, there is more behind it that makes the whole a program.
  Viability goes from a pattern to its parts, in the order in which they are matched.  A
  part that has others behind it needs them to be productive.

  `Pattern.Opens p ls` says that behind the lexemes `ls` the pattern can go on with a rule,
  and not only with a bracket, separator or sign.  Like a derivation it is read without
  context.  Where the parts of a program open with a rule the program does too
  (`OpensBehind`).
-/
import DecafFrontEnd.Proofs.Grammar.Sample

set_option autoImplicit false

namespace DecafFrontEnd

open Pattern

/-- Behind these lexemes a program can go on with whatever a pattern stands for. -/
def Viable (front : List Lexeme) (p : Pattern) : Prop :=
  ∀ ls, Derivable p ls →
    ∃ behind, (∀ l ∈ behind, l.IsWhole) ∧
      Derivable (phrase .program) (front ++ (ls ++ behind))

namespace Viable

variable {front ls : List Lexeme} {p q : Pattern}

/-- A program can begin with a program. -/
theorem program : Viable [] (phrase .program) := fun ls h => ⟨[], by simp, by simpa using h⟩

theorem body {r : Rule} (h : Viable front (rule r)) : Viable front r.body := by
  rintro ls ⟨ts, hts⟩
  exact h ls ⟨_, .rule hts⟩

theorem first (h : Viable front (seq p q)) (hq : q.Productive) : Viable front p := by
  rintro ls ⟨ts, hts⟩
  obtain ⟨ls', ⟨ts', hts'⟩, hwhole'⟩ := hq
  obtain ⟨behind, hwhole, hprogram⟩ := h _ ⟨_, .seq hts hts'⟩
  refine ⟨ls' ++ behind, fun l hl => ?_, by rwa [← List.append_assoc ls]⟩
  rcases List.mem_append.1 hl with hl | hl
  · exact hwhole' l hl
  · exact hwhole l hl

theorem second (h : Viable front (seq p q)) (hp : Derivable p ls) : Viable (front ++ ls) q := by
  rintro ls' ⟨ts', hts'⟩
  obtain ⟨ts, hts⟩ := hp
  obtain ⟨behind, hwhole, hprogram⟩ := h _ ⟨_, .seq hts hts'⟩
  exact ⟨behind, hwhole, by rwa [List.append_assoc, ← List.append_assoc ls]⟩

theorem left (h : Viable front (alt p q)) : Viable front p := by
  rintro ls ⟨ts, hts⟩
  exact h ls ⟨ts, .left hts⟩

theorem right (h : Viable front (alt p q)) : Viable front q := by
  rintro ls ⟨ts, hts⟩
  exact h ls ⟨ts, .right hts⟩

theorem present (h : Viable front (opt p)) : Viable front p := by
  rintro ls ⟨ts, hts⟩
  exact h ls ⟨ts, .present hts⟩

theorem round (h : Viable front (many p)) : Viable front p := by
  rintro ls ⟨ts, hts⟩
  have honce : Derives (many p) (ls ++ []) (ts ++ []) := .more hts .none
  rw [List.append_nil] at honce
  exact h ls ⟨_, honce⟩

theorem again (h : Viable front (many p)) (hp : Derivable p ls) :
    Viable (front ++ ls) (many p) := by
  rintro ls' ⟨ts', hts'⟩
  obtain ⟨ts, hts⟩ := hp
  obtain ⟨behind, hwhole, hprogram⟩ := h _ ⟨_, .more hts hts'⟩
  exact ⟨behind, hwhole, by rwa [List.append_assoc, ← List.append_assoc ls]⟩

end Viable

/-! ## Rules behind some lexemes -/

/-- Behind some lexemes of its own a pattern can go on with a rule. -/
inductive Pattern.Opens : Pattern → List Lexeme → Prop
  | here {r : Rule} : r.isPart = true → Opens (rule r) []
  | inside {r : Rule} {ls : List Lexeme} : Opens r.body ls → Opens (rule r) ls
  | first {p q : Pattern} {ls : List Lexeme} : Opens p ls → Opens (seq p q) ls
  | second {p q : Pattern} {ls ls' : List Lexeme} :
      Derivable p ls → Opens q ls' → Opens (seq p q) (ls ++ ls')
  | left {p q : Pattern} {ls : List Lexeme} : Opens p ls → Opens (alt p q) ls
  | right {p q : Pattern} {ls : List Lexeme} : Opens q ls → Opens (alt p q) ls
  | present {p : Pattern} {ls : List Lexeme} : Opens p ls → Opens (opt p) ls
  | round {p : Pattern} {ls : List Lexeme} : Opens p ls → Opens (many p) ls
  | again {p : Pattern} {ls ls' : List Lexeme} :
      Derivable p ls → Opens (many p) ls' → Opens (many p) (ls ++ ls')

/-- Behind these lexemes a program can go on with a rule where a pattern can. -/
def OpensBehind (front : List Lexeme) (p : Pattern) : Prop :=
  ∀ ls, p.Opens ls → (phrase .program).Opens (front ++ ls)

namespace OpensBehind

variable {front ls : List Lexeme} {p q : Pattern}

theorem program : OpensBehind [] (phrase .program) := fun _ h => h

theorem here {r : Rule} (h : OpensBehind front (rule r)) (hr : r.isPart = true) :
    (phrase .program).Opens front := by
  have hfront := h [] (.here hr)
  rwa [List.append_nil] at hfront

theorem body {r : Rule} (h : OpensBehind front (rule r)) : OpensBehind front r.body :=
  fun ls hls => h ls (.inside hls)

theorem first (h : OpensBehind front (seq p q)) : OpensBehind front p :=
  fun ls hls => h ls (.first hls)

theorem second (h : OpensBehind front (seq p q)) (hp : Derivable p ls) :
    OpensBehind (front ++ ls) q := by
  intro ls' hls'
  rw [List.append_assoc]
  exact h _ (.second hp hls')

theorem left (h : OpensBehind front (alt p q)) : OpensBehind front p :=
  fun ls hls => h ls (.left hls)

theorem right (h : OpensBehind front (alt p q)) : OpensBehind front q :=
  fun ls hls => h ls (.right hls)

theorem present (h : OpensBehind front (opt p)) : OpensBehind front p :=
  fun ls hls => h ls (.present hls)

theorem round (h : OpensBehind front (many p)) : OpensBehind front p :=
  fun ls hls => h ls (.round hls)

theorem again (h : OpensBehind front (many p)) (hp : Derivable p ls) :
    OpensBehind (front ++ ls) (many p) := by
  intro ls' hls'
  rw [List.append_assoc]
  exact h _ (.again hp hls')

end OpensBehind

end DecafFrontEnd
