/-
  DecafFrontEnd/Proofs/Lowering/Shift.lean --- trees and obstacles behind another text.

  The tree of a phrase is the same wherever its text stands, but for the offsets of its
  nodes: `Tree.shift` adds to all of them (`Covers.shift`).  What cannot be lowered in it
  is that of the tree in front of it (`Tree.obstacles_shift`), and the error of each
  obstacle is the same at a place further on (`Obstacle.error_shift`).
-/
import DecafFrontEnd.Proofs.Grammar.Span
import DecafFrontEnd.Proofs.Lexical.Seam
import DecafFrontEnd.Proofs.Lexical.View
import DecafFrontEnd.Proofs.Lowering.Program

set_option autoImplicit false

namespace DecafFrontEnd

/-! ## Trees further on -/

namespace Tree

mutual

/-- A tree with `k` bytes more in front of it. -/
def shift (k : Nat) : Tree → Tree
  | node r start text children => .node r (start + k) text (shiftAll k children)

/-- Several trees with `k` bytes more in front of them. -/
def shiftAll (k : Nat) : List Tree → List Tree
  | [] => []
  | t :: ts => shift k t :: shiftAll k ts

end

theorem shiftAll_eq_map (k : Nat) (ts : List Tree) : shiftAll k ts = ts.map (shift k) := by
  induction ts with
  | nil => rfl
  | cons t ts ih => rw [shiftAll, ih, List.map_cons]

@[simp] theorem rule_shift (k : Nat) (t : Tree) : (t.shift k).rule = t.rule := by
  cases t
  rfl

@[simp] theorem text_shift (k : Nat) (t : Tree) : (t.shift k).text = t.text := by
  cases t
  rfl

@[simp] theorem start_shift (k : Nat) (t : Tree) : (t.shift k).start = t.start + k := by
  cases t
  rfl

@[simp] theorem children_shift (k : Nat) (t : Tree) :
    (t.shift k).children = t.children.map (shift k) := by
  cases t
  exact shiftAll_eq_map k _

end Tree

theorem Covers.shift {g : Goal} {c d : Cursor} {nodes : List Tree} (h : Covers g c nodes d)
    (hg : g.pattern.isSyntactic = true) (k : Nat) :
    Covers g (c.shift k) (nodes.map (Tree.shift k)) (d.shift k) := by
  induction h with
  | @prim p c text ht =>
      rw [← Cursor.advance_shift]
      refine .prim ?_
      cases p with
      | lexeme t => exact ht
      | _ => simp [Goal.pattern, Pattern.isSyntactic, Primitive.isSyntactic] at hg
  | @rule r c d nodes _ ih =>
      have hnodes : (r.leave c d nodes).map (Tree.shift k) =
          r.leave (c.shift k) (d.shift k) (nodes.map (Tree.shift k)) := by
        rw [Rule.leave_eq hg, Rule.leave_eq hg, ← Tree.shiftAll_eq_map, ← Tree.shiftAll_eq_map]
        simp only [Tree.shiftAll, Tree.shift, Cursor.offset_shift, Cursor.rest_shift,
          Nat.add_sub_add_right]
      rw [hnodes]
      exact .rule (ih (Rule.isSyntactic_body hg))
  | seq _ _ ihp ihq =>
      simp only [Goal.pattern, Pattern.isSyntactic, Bool.and_eq_true] at hg
      rw [List.map_append]
      refine .seq (ihp hg.1) ?_
      rw [Cursor.skip_shift]
      exact ihq hg.2
  | left _ ih =>
      simp only [Goal.pattern, Pattern.isSyntactic, Bool.and_eq_true] at hg
      exact .left (ih hg.1)
  | right _ ih =>
      simp only [Goal.pattern, Pattern.isSyntactic, Bool.and_eq_true] at hg
      exact .right (ih hg.2)
  | present _ ih =>
      simp only [Goal.pattern, Pattern.isSyntactic, Bool.and_eq_true] at hg
      exact .present (ih hg.1)
  | absent => exact .absent
  | many _ _ ihp ihq =>
      simp only [Goal.pattern, Pattern.isSyntactic, Bool.and_eq_true] at hg
      rw [List.map_append]
      exact .many (ihp hg.1) (ihq hg.1)
  | never => exact .never
  | round _ _ ihp ihq =>
      rw [List.map_append]
      refine .round ?_ (ihq hg)
      rw [Cursor.skip_shift]
      exact ihp hg
  | stop => exact .stop

/-- What spans the text between two places spans it further on. -/
theorem Pattern.Spans.shift {p : Pattern} {c e : Cursor} {ts : List Tree} (h : p.Spans c ts e)
    (hp : p.isSyntactic = true) (hc : c.Rested) (k : Nat) :
    p.Spans (c.shift k) (ts.map (Tree.shift k)) (e.shift k) := by
  obtain ⟨d, hcovers, rfl⟩ := h.exists_covers hc
  rw [← Cursor.skip_shift]
  exact (hcovers.shift hp k).goalSpans hp hc

/-! ## Obstacles further on -/

/-- An obstacle with `k` bytes more in front of it. -/
def Obstacle.shift (k : Nat) (o : Obstacle) : Obstacle := ⟨o.construct, o.node.shift k⟩

namespace Tree

mutual

theorem nodes_shift (k : Nat) : ∀ t : Tree, (t.shift k).nodes = t.nodes.map (shift k)
  | .node r start text children => by
      rw [shift, nodes, nodes, nodesOf_shiftAll k children, List.map_cons, shift]

theorem nodesOf_shiftAll (k : Nat) :
    ∀ ts : List Tree, nodesOf (shiftAll k ts) = (nodesOf ts).map (shift k)
  | [] => rfl
  | t :: ts => by
      rw [shiftAll, nodesOf, nodesOf, nodes_shift k t, nodesOf_shiftAll k ts, List.map_append]

end

theorem filter_shift (k : Nat) (p : Rule → Bool) (ts : List Tree) :
    (ts.map (shift k)).filter (fun t => p t.rule) =
      (ts.filter fun t => p t.rule).map (shift k) := by
  rw [List.filter_map]
  exact congrArg (List.map (shift k)) (List.filter_congr fun t _ => by simp)

theorem ownObstacles_shift (k : Nat) (t : Tree) :
    (t.shift k).ownObstacles = t.ownObstacles.map (Obstacle.shift k) := by
  have hselectors : (t.shift k).selectors.length = t.selectors.length := by
    rw [selectors, children_shift,
      filter_shift k fun r => r = .phrase .fieldAccess || r = .phrase .indexAccess,
      List.length_map, selectors]
  unfold ownObstacles
  rw [rule_shift, text_shift, hselectors]
  split
  · rfl
  · rfl
  · split <;> rfl
  · rw [children_shift, filter_shift k fun r => r = .terminal .stringLit, List.map_map,
      List.map_map]
    rfl
  · split <;> rfl
  · rfl

/-- What cannot be lowered in a tree cannot be lowered further on. -/
theorem obstacles_shift (k : Nat) (t : Tree) :
    (t.shift k).obstacles = t.obstacles.map (Obstacle.shift k) := by
  rw [obstacles, nodes_shift, List.flatMap_map, obstacles, List.map_flatMap]
  exact congrArg (List.flatMap · t.nodes) (funext fun t => ownObstacles_shift k t)

theorem obstaclesOf_shift (k : Nat) (ts : List Tree) :
    obstaclesOf (ts.map (shift k)) = (obstaclesOf ts).map (Obstacle.shift k) := by
  rw [obstaclesOf, List.flatMap_map, obstaclesOf, List.map_flatMap]
  exact congrArg (List.flatMap · ts) (funext fun t => obstacles_shift k t)

end Tree

/-! ## Errors further on -/

/-- An error of a text where the text stands in a line of its own behind `a`. -/
def CompileError.behind (a : List Char) : CompileError → CompileError
  | malformed e =>
      .malformed { e with position := e.position.behind a, span := e.span.behind a }
  | unsupported construct position name span =>
      .unsupported construct (position.behind a) name (span.behind a)
  | internal defect position name span =>
      .internal defect (position.behind a) name (span.behind a)

theorem contentEndFrom_shift (limit reached : Nat) (c : Cursor) (k : Nat) :
    contentEndFrom lineRest (limit + k) (reached + k) (c.shift k) =
      contentEndFrom lineRest limit reached c + k := by
  have hstep := suffices_lineRest.contentEndFrom_eq
  induction c using Cursor.past_induction generalizing reached with
  | step c ih =>
      rw [hstep, hstep limit, Cursor.rest_shift]
      by_cases hlt : c.offset < limit
      · rw [if_pos (by simpa using hlt), if_pos hlt]
        cases hl : Lexeme.first? c.rest with
        | none => rfl
        | some l =>
            have hstop : (c.shift k).offset + byteLength l.text =
                c.offset + byteLength l.text + k := by
              rw [Cursor.offset_shift, Nat.add_right_comm]
            dsimp only
            rw [hstop, Cursor.past_shift, ih l hl]
            by_cases hle : limit ≤ c.offset + byteLength l.text
            · rw [if_pos (by omega), if_pos hle]
            · rw [if_neg (by omega), if_neg hle]
      · rw [if_neg (by simpa using hlt), if_neg hlt]

namespace Source

variable (s t : Source)

theorem size_followedBy : (s.followedBy t.chars).size = s.size + 1 + t.size := by
  rw [size, chars_followedBy, List.append_cons, byteLength_append, byteLength_line, size, size]

theorem clampSpan_followedBy (span : Span) :
    (s.followedBy t.chars).clampSpan ⟨span.offset + (s.size + 1), span.length⟩ =
      (t.clampSpan span).behind s.chars := by
  have hs : byteLength s.chars = s.size := rfl
  simp only [clampSpan, Span.clamp, Span.behind, size_followedBy, hs]
  by_cases hoffset : span.offset ≤ t.size
  · rw [if_pos (by omega), if_pos hoffset]
    have hroom : s.size + 1 + t.size - (span.offset + (s.size + 1)) = t.size - span.offset := by
      omega
    rw [hroom]
  · rw [if_neg (by omega), if_neg hoffset, Nat.sub_self, Nat.sub_self, Nat.add_comm]

theorem contentSpan_followedBy (span : Span) :
    (s.followedBy t.chars).contentSpan ⟨span.offset + (s.size + 1), span.length⟩ =
      ⟨(t.contentSpan span).offset + (s.size + 1), (t.contentSpan span).length⟩ := by
  have hsize : (s.followedBy t.chars).size = t.size + (s.size + 1) :=
    (size_followedBy s t).trans (Nat.add_comm _ _)
  have hdrop : dropBytes (span.offset + (s.size + 1)) (s.chars ++ '\n' :: t.chars) =
      dropBytes span.offset t.chars := by
    have hs : s.size + 1 = byteLength (s.chars ++ ['\n']) := (byteLength_line s.chars).symm
    rw [List.append_cons, hs, Nat.add_comm, dropBytes_append_add]
  have hlimit : ∀ n, (if n + (s.size + 1) ≤ t.size + (s.size + 1) then n + (s.size + 1)
      else t.size + (s.size + 1)) = (if n ≤ t.size then n else t.size) + (s.size + 1) := by
    intro n
    split <;> split <;> omega
  have hend : (s.followedBy t.chars).contentEnd (span.offset + (s.size + 1))
      (span.offset + (s.size + 1) + span.length) =
      t.contentEnd span.offset (span.offset + span.length) + (s.size + 1) := by
    have hsum : span.offset + (s.size + 1) + span.length =
        span.offset + span.length + (s.size + 1) := by omega
    rw [contentEnd, contentEndBy, hsize, hsum, hlimit, chars_followedBy, hdrop]
    exact contentEndFrom_shift _ _ ⟨span.offset, dropBytes span.offset t.chars⟩ _
  simp only [contentSpan, hend, Nat.add_sub_add_right]

end Source

/-- The error of an obstacle is the same further on. -/
theorem Obstacle.error_shift (s t : Source) (hname : t.name = s.name) (o : Obstacle) :
    (o.shift (s.size + 1)).error (s.followedBy t.chars) = (o.error t).behind s.chars := by
  have hdisplay : (s.followedBy t.chars).displayName = t.displayName := by
    rw [Source.displayName, Source.displayName, hname, Source.name_followedBy]
  have hunsupported : ∀ construct (span : Span),
      (s.followedBy t.chars).unsupported construct ⟨span.offset + (s.size + 1), span.length⟩ =
        (t.unsupported construct span).behind s.chars := by
    intro construct span
    rw [Source.unsupported, Source.clampSpan_followedBy, hdisplay,
      Source.positionAt_followedBy_add s t hname]
    rfl
  have hspan : (o.shift (s.size + 1)).node.span =
      ⟨o.node.span.offset + (s.size + 1), o.node.span.length⟩ := by
    simp only [Obstacle.shift, Tree.span, Tree.start_shift, Tree.text_shift]
  unfold Obstacle.error
  rw [hspan, Source.contentSpan_followedBy]
  cases hconstruct : o.construct with
  | bigInteger =>
      simp only [Obstacle.shift, hconstruct, Tree.string, Tree.text_shift]
      rw [Source.defect, Source.clampSpan_followedBy, hdisplay,
        Source.positionAt_followedBy_add s t hname]
      rfl
  | _ =>
      simp only [Obstacle.shift, hconstruct]
      exact hunsupported _ _

end DecafFrontEnd
