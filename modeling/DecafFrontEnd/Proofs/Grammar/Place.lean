/-
  DecafFrontEnd/Proofs/Grammar/Place.lean --- where the nodes of a parse tree stand.

  A node of the tree of a text is `Placed`: its text is not empty and stands at its
  start, its children lie within it, one behind the other, and the node of a phrase is
  derived from the lexemes of its text.  All nodes that a match leaves are placed
  (`Covers.placed`).
-/
import DecafFrontEnd.Proofs.Grammar.Language
import DecafFrontEnd.Proofs.Grammar.Shape

set_option autoImplicit false

namespace DecafFrontEnd

namespace Tree

/-- Nodes one behind the other between two offsets. -/
def Sequenced : Nat → Nat → List Tree → Prop
  | lo, hi, [] => lo ≤ hi
  | lo, hi, t :: ts => lo ≤ t.start ∧ Sequenced t.stop hi ts

/-- Two places of a text with a node between them.  The text is one that the rule can
spell, and the node of a phrase is derived from what is read there. -/
structure Bounds (cs : List Char) (r : Rule) (start : Nat) (text : List Char)
    (children : List Tree) (c d : Cursor) : Prop where
  reaches : (Cursor.start cs).Reaches c
  offset_eq : c.offset = start
  rest_eq : c.rest = text ++ d.rest
  stop_eq : d.offset = start + byteLength text
  spells : r.Spells text
  derives : ∀ p, r = .phrase p → DerivesBetween p.body c children d

/-- A node whose text stands at its start, with its children in order within it. -/
inductive Placed (cs : List Char) : Tree → Prop
  | node {r : Rule} {start : Nat} {text : List Char} {children : List Tree} {c d : Cursor} :
      Bounds cs r start text children c d → text ≠ [] →
      Sequenced start (start + byteLength text) children → (∀ t ∈ children, Placed cs t) →
      Placed cs (.node r start text children)

theorem Placed.children {cs : List Char} {t : Tree} (h : t.Placed cs) :
    ∀ c ∈ t.children, c.Placed cs := by
  cases h with
  | node _ _ _ hchildren => exact hchildren

theorem Placed.child {cs : List Char} {r : Rule} {start : Nat} {text : List Char} {c : Tree}
    (h : (Tree.node r start text [c]).Placed cs) : c.Placed cs :=
  h.children c (List.mem_singleton.2 rfl)

theorem Sequenced.le {lo hi : Nat} {ts : List Tree} (h : Sequenced lo hi ts) : lo ≤ hi := by
  induction ts generalizing lo with
  | nil => exact h
  | cons t ts ih =>
      have hrest := ih h.2
      have hfirst := h.1
      have hstop : t.start ≤ t.stop := Nat.le_add_right _ _
      omega

theorem Sequenced.mono {lo lo' hi hi' : Nat} {ts : List Tree} (h : Sequenced lo hi ts)
    (hlo : lo' ≤ lo) (hhi : hi ≤ hi') : Sequenced lo' hi' ts := by
  induction ts generalizing lo lo' with
  | nil => exact Nat.le_trans hlo (Nat.le_trans h hhi)
  | cons t ts ih => exact ⟨Nat.le_trans hlo h.1, ih h.2 (Nat.le_refl _)⟩

theorem Sequenced.append {lo mid hi : Nat} {ts ts' : List Tree} (h : Sequenced lo mid ts)
    (h' : Sequenced mid hi ts') : Sequenced lo hi (ts ++ ts') := by
  induction ts generalizing lo with
  | nil => exact h'.mono h (Nat.le_refl _)
  | cons t ts ih => exact ⟨h.1, ih h.2⟩

theorem Sequenced.within {lo hi : Nat} {ts : List Tree} (h : Sequenced lo hi ts) {t : Tree}
    (ht : t ∈ ts) : lo ≤ t.start ∧ t.stop ≤ hi := by
  induction ts generalizing lo with
  | nil => simp at ht
  | cons t' ts ih =>
      rcases List.mem_cons.1 ht with rfl | ht
      · exact ⟨h.1, h.2.le⟩
      · obtain ⟨hstart, hstop⟩ := ih h.2 ht
        have hfirst := h.1
        have hbehind : t'.start ≤ t'.stop := Nat.le_add_right _ _
        omega

/-- The text of a placed node is as long as that of a node within it. -/
theorem Placed.byteLength_le {cs : List Char} {t c : Tree} (h : t.Placed cs) (hc : c ∈ t.children) :
    byteLength c.text ≤ byteLength t.text := by
  cases h with
  | node _ _ hseq _ =>
      obtain ⟨hstart, hstop⟩ := hseq.within hc
      simp only [stop, text] at hstop ⊢
      omega

/-- A placed node is not empty. -/
theorem Placed.start_lt_stop {cs : List Char} {t : Tree} (h : t.Placed cs) : t.start < t.stop := by
  cases h with
  | node _ hne _ _ =>
      have hpos := byteLength_pos hne
      simp only [stop, start, text]
      omega

/-- A placed node starts between two characters. -/
theorem Placed.floorBoundary_start {cs : List Char} {t : Tree} (h : t.Placed cs) :
    floorBoundary cs t.start = t.start := by
  cases h with
  | @node r start text children c d hbounds _ _ _ =>
      have hfloor := hbounds.reaches.floorBoundary_offset
      rwa [hbounds.offset_eq] at hfloor

end Tree

/-! ## The nodes of a match are placed -/

/-- The text between two places of one text. -/
theorem Cursor.Reaches.takeBytes_eq {c d : Cursor} (h : c.Reaches d) :
    ∃ text, takeBytes (d.offset - c.offset) c.rest = text ∧ c.rest = text ++ d.rest ∧
      d.offset = c.offset + byteLength text := by
  obtain ⟨text, hrest, hoffset⟩ := h
  refine ⟨text, ?_, hrest, hoffset⟩
  rw [hoffset, hrest, Nat.add_sub_cancel_left, takeBytes_byteLength_append]

/-- A syntactic rule leaves a placed node. -/
theorem Rule.placed_leave {r : Rule} {cs : List Char} {c d : Cursor} {nodes : List Tree}
    (hr : r.isSyntactic = true) (h : Covers (.once r.body) c nodes d)
    (hc : (Cursor.start cs).Reaches c) (hrested : c.Rested)
    (hseq : Tree.Sequenced c.offset d.offset nodes) (hplaced : ∀ t ∈ nodes, t.Placed cs) :
    Tree.Sequenced c.offset d.offset (r.leave c d nodes) ∧
      ∀ t ∈ r.leave c d nodes, t.Placed cs := by
  have hnull : (Pattern.rule r).nullable = false := by
    cases r <;> first | rfl | simp [isSyntactic] at hr
  have hlt := (Covers.rule h).length_lt hnull
  obtain ⟨text, htext, hrest, hd⟩ := h.reaches.takeBytes_eq
  have hne : text ≠ [] := by
    rintro rfl
    rw [hrest] at hlt
    exact absurd hlt (Nat.lt_irrefl _)
  have hspells := spells_of_covers h
  rw [htext] at hspells
  rw [leave_eq hr, htext]
  refine ⟨⟨Nat.le_refl _, ?_⟩, ?_⟩
  · simp only [Tree.Sequenced, Tree.stop, Tree.start, Tree.text]
    omega
  · intro t ht
    obtain rfl := List.mem_singleton.1 ht
    refine .node ⟨hc, rfl, hrest, hd, hspells, ?_⟩ hne ?_ hplaced
    · rintro p rfl
      obtain ⟨hguarded, hblunt⟩ := p.isGuarded_body
      exact h.derives (isSyntactic_body hr) hguarded hblunt hrested
    · rw [← hd]
      exact hseq

/-- A pattern is matched where no trivia starts; further rounds of a repetition skip
what is there. -/
def Goal.Starts : Goal → Cursor → Prop
  | once _, c => c.Rested
  | again _, _ => True

/-- The nodes that a match leaves stand one behind the other where they were
matched. -/
theorem Covers.placed {cs : List Char} {g : Goal} {c d : Cursor} {nodes : List Tree}
    (h : Covers g c nodes d) (hg : g.pattern.isSyntactic = true)
    (hc : (Cursor.start cs).Reaches c) (hstart : g.Starts c) :
    Tree.Sequenced c.offset d.offset nodes ∧ ∀ t ∈ nodes, t.Placed cs := by
  have happend : ∀ {c m m' d : Nat} {ts ts' : List Tree}, m ≤ m' →
      (Tree.Sequenced c m ts ∧ ∀ t ∈ ts, t.Placed cs) →
      (Tree.Sequenced m' d ts' ∧ ∀ t ∈ ts', t.Placed cs) →
      Tree.Sequenced c d (ts ++ ts') ∧ ∀ t ∈ ts ++ ts', t.Placed cs := by
    rintro c m m' d ts ts' hm ⟨hseq, hplaced⟩ ⟨hseq', hplaced'⟩
    refine ⟨hseq.append (hseq'.mono hm (Nat.le_refl _)), ?_⟩
    intro t ht
    rcases List.mem_append.1 ht with ht | ht
    · exact hplaced t ht
    · exact hplaced' t ht
  induction h with
  | prim _ => exact ⟨(Cursor.reaches_advance _ _).offset_le, by simp⟩
  | @rule r c d nodes hbody ih =>
      obtain ⟨hseq, hplaced⟩ := ih (Rule.isSyntactic_body hg) hc hstart
      exact Rule.placed_leave hg hbody hc hstart hseq hplaced
  | @seq _ _ _ d _ _ _ hp _ ihp ihq =>
      simp only [Goal.pattern, Pattern.isSyntactic, Bool.and_eq_true] at hg
      have hd := (hc.trans hp.reaches).trans (Cursor.reaches_skip d)
      exact happend (Cursor.reaches_skip d).offset_le (ihp hg.1 hc hstart)
        (ihq hg.2 hd d.rested_skip)
  | left _ ih =>
      simp only [Goal.pattern, Pattern.isSyntactic, Bool.and_eq_true] at hg
      exact ih hg.1 hc hstart
  | right _ ih =>
      simp only [Goal.pattern, Pattern.isSyntactic, Bool.and_eq_true] at hg
      exact ih hg.2 hc hstart
  | present _ ih =>
      simp only [Goal.pattern, Pattern.isSyntactic, Bool.and_eq_true] at hg
      exact ih hg.1 hc hstart
  | absent | never | stop => exact ⟨Nat.le_refl _, by simp⟩
  | many hp _ ihp ihq =>
      simp only [Goal.pattern, Pattern.isSyntactic, Bool.and_eq_true] at hg
      exact happend (Nat.le_refl _) (ihp hg.1 hc hstart) (ihq hg.1 (hc.trans hp.reaches) trivial)
  | @round _ c _ _ _ _ hp _ ihp ihq =>
      have hskip := hc.trans (Cursor.reaches_skip c)
      obtain ⟨hseq, hplaced⟩ :=
        happend (Nat.le_refl _) (ihp hg hskip c.rested_skip)
          (ihq hg (hskip.trans hp.reaches) trivial)
      exact ⟨hseq.mono (Cursor.reaches_skip c).offset_le (Nat.le_refl _), hplaced⟩

/-! ## The tree of a program -/

/-- The tree of a program has the nodes of its classes, which are lawful and placed, and
a node for the end of the text, which is empty. -/
theorem Source.nodes_of_parseProgram {s : Source} {t : Tree} (h : s.parseProgram = .ok t) :
    ∃ start text nodes stop, t = .node (.phrase .program) start text (nodes ++ [stop]) ∧
      classes.Leaves nodes ∧ (∀ c ∈ nodes, c.Lawful) ∧ (∀ c ∈ nodes, c.Placed s.chars) ∧
      (∃ lo hi, Tree.Sequenced lo hi nodes) ∧ stop.rule = .endOfInput ∧ stop.children = [] := by
  obtain ⟨d, hmatches⟩ := parseProgram_eq_ok_iff.1 h
  obtain ⟨-, nodes, e, hclasses, -, rfl, hnodes⟩ := matches_program.1 hmatches
  obtain ⟨hleaves, hlawful⟩ := hclasses.covers.shape isSyntactic_classes
  obtain ⟨hseq, hplaced⟩ := hclasses.covers.placed isSyntactic_classes
    (Cursor.reaches_skip (Cursor.start s.chars)) (Cursor.rested_skip _)
  obtain rfl := List.singleton_inj.1 hnodes
  exact ⟨_, _, nodes, _, rfl, hleaves, hlawful, hplaced, ⟨_, _, hseq⟩, rfl, rfl⟩

end DecafFrontEnd
