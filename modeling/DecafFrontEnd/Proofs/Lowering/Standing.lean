/-
  DecafFrontEnd/Proofs/Lowering/Standing.lean --- every node stands at a token.

  What a match has behind it when it comes to a part of its pattern are whole lexemes: a
  lone sign taken off the front of an operator leaves a place at which nothing of the
  grammar goes on.  So every node of a parse tree, however deep, stands at a place up to
  which lexemes are read (`Source.standing_of_mem_nodes`), and its rule is matched there as
  it would be at the front of a text.
-/
import DecafFrontEnd.Proofs.Grammar.Span
import DecafFrontEnd.Proofs.Grammar.Language
import DecafFrontEnd.Proofs.Lowering.Obstacles

set_option autoImplicit false

namespace DecafFrontEnd

/-! ## Nodes within nodes -/

namespace Tree

variable {t n c : Tree} {ts ts' : List Tree}

theorem nodesOf_append (ts ts' : List Tree) : nodesOf (ts ++ ts') = nodesOf ts ++ nodesOf ts' := by
  simp only [nodesOf_eq, List.flatMap_append]

theorem forall_nodesOf_append {P : Tree → Prop} (h : ∀ n ∈ nodesOf ts, P n)
    (h' : ∀ n ∈ nodesOf ts', P n) : ∀ n ∈ nodesOf (ts ++ ts'), P n := by
  rw [nodesOf_append]
  exact List.forall_mem_append.2 ⟨h, h'⟩

theorem self_mem_nodes (t : Tree) : t ∈ t.nodes := by
  cases t
  exact List.mem_cons_self

/-- The nodes of some trees are nodes of a tree that has these as its children. -/
theorem nodesOf_subset (h : ts ⊆ t.children) : nodesOf ts ⊆ t.nodes := by
  obtain ⟨r, start, text, children⟩ := t
  intro n hn
  rw [nodesOf_eq, List.mem_flatMap] at hn
  obtain ⟨c, hc, hn⟩ := hn
  rw [nodes, nodesOf_eq, List.mem_cons, List.mem_flatMap]
  exact Or.inr ⟨c, h hc, hn⟩

theorem nodes_subset (h : c ∈ t.children) : c.nodes ⊆ t.nodes := by
  have hsubset := nodesOf_subset (List.cons_subset.2 ⟨h, List.nil_subset _⟩)
  rwa [nodesOf, nodesOf, List.append_nil] at hsubset

mutual

/-- The children of the nodes of a tree are nodes of it. -/
theorem mem_nodes_of_mem_children (hc : c ∈ n.children) : (t : Tree) → n ∈ t.nodes → c ∈ t.nodes
  | .node r start text children, hn => by
      rw [nodes, List.mem_cons] at hn
      rcases hn with rfl | hn
      · exact nodes_subset hc c.self_mem_nodes
      · exact nodesOf_subset (List.Subset.refl _) (mem_nodesOf_of_mem_children hc children hn)

theorem mem_nodesOf_of_mem_children (hc : c ∈ n.children) :
    (ts : List Tree) → n ∈ nodesOf ts → c ∈ nodesOf ts
  | [], hn => by simp [nodesOf] at hn
  | t :: ts, hn => by
      rw [nodesOf, List.mem_append] at hn ⊢
      exact hn.imp (mem_nodes_of_mem_children hc t) (mem_nodesOf_of_mem_children hc ts)

end

end Tree

/-! ## Between two parts of a pattern -/

/-- Between two parts of a sequence whole lexemes are read. -/
theorem Covers.reads_front {p q : Pattern} {c d e : Cursor} {first second : List Tree}
    (hp : Covers (.once p) c first d) (hq : Covers (.once q) d.skip second e)
    (h : (Pattern.seq p q).Regular) (hc : c.Rested) : ∃ ls, c.Reads ls d.skip := by
  have hfollow := h.2
  simp only [Pattern.isGuarded, Bool.and_eq_true] at hfollow
  obtain ⟨hregular, hregular'⟩ := h.seq
  rcases hp.explained hregular.1 hregular.2 hc with ⟨ls, hreads, -⟩ | ⟨hblunt, r, hr⟩
  · exact ⟨ls, hreads⟩
  · -- in front of an `=` nothing goes on that may follow a lone sign
    have hrested : d.Rested := Cursor.rested_of_head hr (by decide) (by decide)
    rw [hrested.skip_eq] at hq
    simp only [hblunt, Bool.not_true, Bool.false_or, Bool.and_eq_true, Bool.not_eq_true',
      List.contains_eq_mem, decide_eq_false_iff_not] at hfollow
    exact (hq.not_behind_sign hregular'.1 hfollow.2.1.1 hfollow.2.1.2 hfollow.2.2 hr).elim

namespace Pattern

/-- The rounds of a repetition are not cut off inside an operator. -/
theorem Regular.isBlunt_round {p : Pattern} (h : (Pattern.many p).Regular) : p.isBlunt = false := by
  have hguarded := h.2
  simp only [isGuarded, Bool.and_eq_true, Bool.not_eq_true'] at hguarded
  exact hguarded.2

end Pattern

/-- Whole lexemes are read in a round of a repetition. -/
theorem Covers.reads_round {p : Pattern} {c d : Cursor} {nodes : List Tree}
    (h : Covers (.once p) c nodes d) (hp : (Pattern.many p).Regular) (hc : c.Rested) :
    ∃ ls, c.Reads ls d.skip := by
  obtain ⟨ls, hreads, -⟩ := h.derives hp.many.1 hp.many.2 hp.isBlunt_round hc
  exact ⟨ls, hreads⟩

/-! ## The nodes of a match -/

/-- A node that stands where lexemes are read up to from a place. -/
structure Tree.StandsFrom (place : Cursor) (t : Tree) : Prop where
  isSyntactic : t.rule.isSyntactic = true
  stands : ∃ ls c d, place.Reads ls c ∧ t.Stands c d

/-- A goal that is matched where lexemes are read up to from a place. -/
def Goal.ReachedFrom (place : Cursor) : Goal → Cursor → Prop
  | once p, c => p.Regular ∧ c.Rested ∧ ∃ ls, place.Reads ls c
  | again p, c => (Pattern.many p).Regular ∧ ∃ ls, place.Reads ls c.skip

namespace Goal

variable {place c d : Cursor} {p q : Pattern}

theorem ReachedFrom.part (h : (once p).ReachedFrom place c) (hq : q.Regular) :
    (once q).ReachedFrom place c := ⟨hq, h.2⟩

/-- A goal behind lexemes that are read at the place of another. -/
theorem ReachedFrom.behind (h : (once p).ReachedFrom place c) (hq : q.Regular)
    (hreads : ∃ ls, c.Reads ls d.skip) : (once q).ReachedFrom place d.skip := by
  obtain ⟨-, -, ls, hls⟩ := h
  obtain ⟨ls', hls'⟩ := hreads
  exact ⟨hq, d.rested_skip, _, hls.append hls'⟩

theorem ReachedFrom.rounds (h : (once p).ReachedFrom place c) (hq : (Pattern.many q).Regular)
    (hreads : ∃ ls, c.Reads ls d.skip) : (again q).ReachedFrom place d := by
  obtain ⟨-, -, hplace⟩ := h.behind hq hreads
  exact ⟨hq, hplace⟩

theorem ReachedFrom.round (h : (again p).ReachedFrom place c) :
    (once p).ReachedFrom place c.skip := ⟨h.1.many, c.rested_skip, h.2⟩

end Goal

/-- All nodes that a match leaves stand at places up to which lexemes are read. -/
theorem Covers.standing {place : Cursor} {g : Goal} {c d : Cursor} {nodes : List Tree}
    (h : Covers g c nodes d) (hg : g.ReachedFrom place c) :
    ∀ n ∈ Tree.nodesOf nodes, n.StandsFrom place := by
  induction h with
  | prim _ | absent | never | stop => simp [Tree.nodesOf]
  | @rule r c d nodes hbody ih =>
      have hnode := hbody.rule
      rw [Rule.leave_eq hg.1.1] at hnode ⊢
      obtain ⟨-, -, ls, hreads⟩ := id hg
      simp only [Tree.nodesOf, Tree.nodes, List.append_nil, List.forall_mem_cons]
      exact ⟨⟨hg.1.1, ls, c, d.skip, hreads, d, hnode, rfl⟩,
        ih (hg.part (Pattern.regular_body hg.1))⟩
  | @seq p q c d e first second hpc hqc ihp ihq =>
      obtain ⟨hp, hq⟩ := hg.1.seq
      exact Tree.forall_nodesOf_append (ihp (hg.part hp))
        (ihq (hg.behind hq (hpc.reads_front hqc hg.1 hg.2.1)))
  | left _ ih => exact ih (hg.part hg.1.alt.1)
  | right _ ih => exact ih (hg.part hg.1.alt.2)
  | present _ ih => exact ih (hg.part hg.1.opt)
  | many hpc _ ihp ihq =>
      exact Tree.forall_nodesOf_append (ihp (hg.part hg.1.many))
        (ihq (hg.rounds hg.1 (hpc.reads_round hg.1 hg.2.1)))
  | round hpc _ ihp ihq =>
      have hround := hg.round
      exact Tree.forall_nodesOf_append (ihp hround)
        (ihq (hround.rounds hg.1 (hpc.reads_round hg.1 hround.2.1)))

/-! ## The nodes of a program -/

/-- A node of the tree of a text is the whole tree, the end of the text, or stands at a
place up to which lexemes are read. -/
theorem Source.standing_of_mem_nodes {s : Source} {t n : Tree} (h : s.parseProgram = .ok t)
    (hn : n ∈ t.nodes) :
    n.rule = .phrase .program ∨ n.rule = .endOfInput ∨ n.StandsFrom s.firstPlace := by
  obtain ⟨d, hmatches⟩ := parseProgram_eq_ok_iff.1 h
  obtain ⟨-, nodes, e, hclasses, -, rfl, hnodes⟩ := matches_program.1 hmatches
  obtain rfl := List.singleton_inj.1 hnodes
  have hreached : (Goal.once classes).ReachedFrom s.firstPlace s.firstPlace :=
    ⟨⟨isSyntactic_classes, by decide⟩, s.rested_firstPlace, [], .nil _⟩
  have hstanding := hclasses.covers.standing hreached
  rw [Tree.nodes, List.mem_cons] at hn
  rcases hn with rfl | hn
  · exact Or.inl rfl
  · rw [Tree.nodesOf_append, List.mem_append] at hn
    rcases hn with hn | hn
    · exact Or.inr (Or.inr (hstanding n hn))
    · simp only [Rule.leave, Rule.isSilent, Bool.false_eq_true, if_false, Tree.nodesOf, Tree.nodes,
        List.append_nil, List.mem_singleton] at hn
      obtain rfl := hn
      exact Or.inr (Or.inl rfl)

end DecafFrontEnd
