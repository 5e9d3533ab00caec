/-
  DecafFrontEnd/Proofs/Lowering/Order.lean --- obstacles in the order of the text.

  The obstacles of a tree are listed each before those within it.  In the tree of a
  text that is the order of their offsets, and no two have the same one
  (`Tree.Lawful.ascends`): an obstacle that has others within it begins with a word,
  and they stand behind the word.
-/
import DecafFrontEnd.Proofs.Grammar.Place
import DecafFrontEnd.Proofs.Lowering.Program

set_option autoImplicit false

namespace DecafFrontEnd

/-! ## Ascending lists -/

/-- Obstacles that start between two offsets, each before the next. -/
def Ascends (lo hi : Nat) (os : List Obstacle) : Prop :=
  os.Pairwise (·.start < ·.start) ∧ ∀ o ∈ os, lo ≤ o.start ∧ o.start < hi

theorem Ascends.nil (lo hi : Nat) : Ascends lo hi [] := ⟨.nil, by simp⟩

theorem Ascends.mono {lo lo' hi hi' : Nat} {os : List Obstacle} (h : Ascends lo hi os)
    (hlo : lo' ≤ lo) (hhi : hi ≤ hi') : Ascends lo' hi' os := by
  refine ⟨h.1, ?_⟩
  intro o ho
  have hrange := h.2 o ho
  omega

theorem Ascends.append {lo mid hi : Nat} {os os' : List Obstacle} (h : Ascends lo mid os)
    (h' : Ascends mid hi os') (hlo : lo ≤ mid) (hhi : mid ≤ hi) : Ascends lo hi (os ++ os') := by
  refine ⟨List.pairwise_append.2 ⟨h.1, h'.1, fun o ho o' ho' => ?_⟩, fun o ho => ?_⟩
  · have hfirst := h.2 o ho
    have hsecond := h'.2 o' ho'
    omega
  · rcases List.mem_append.1 ho with ho | ho
    · have hrange := h.2 o ho
      omega
    · have hrange := h'.2 o ho
      omega

/-- An obstacle before others. -/
theorem Ascends.cons {lo hi : Nat} {o : Obstacle} {os : List Obstacle} (ho : lo ≤ o.start)
    (h : Ascends (o.start + 1) hi os) (hhi : o.start < hi) : Ascends lo hi (o :: os) := by
  refine ⟨List.pairwise_cons.2 ⟨fun o' ho' => ?_, h.1⟩, fun o' ho' => ?_⟩
  · have hrange := h.2 o' ho'
    omega
  · rcases List.mem_cons.1 ho' with rfl | ho'
    · omega
    · have hrange := h.2 o' ho'
      omega

theorem Tree.Sequenced.ascends {lo hi : Nat} {ts : List Tree} (h : Tree.Sequenced lo hi ts)
    (hts : ∀ t ∈ ts, Ascends t.start t.stop t.obstacles) : Ascends lo hi (Tree.obstaclesOf ts) := by
  induction ts generalizing lo with
  | nil => exact .nil lo hi
  | cons t ts ih =>
      have hfirst := (hts t (by simp)).mono h.1 (Nat.le_refl _)
      have hothers := ih h.2 fun t' ht' => hts t' (by simp [ht'])
      have hstop : t.start ≤ t.stop := Nat.le_add_right _ _
      exact hfirst.append hothers (Nat.le_trans h.1 hstop) h.2.le

/-! ## The obstacles of a tree -/

namespace Tree

variable {cs : List Char} {start : Nat} {text : List Char} {children : List Tree}

/-- An obstacle that begins with a word stands before those within it. -/
theorem ascends_own_word {t : Tree} {c : Construct} {word : Tree} {rest : List Tree}
    (hchildren : t.children = word :: rest) (hword : word.obstacles = [])
    (hplaced : word.Placed cs) (hseq : Sequenced t.start t.stop t.children)
    (hinner : ∀ t' ∈ t.children, Ascends t'.start t'.stop t'.obstacles) :
    Ascends t.start t.stop (⟨c, t⟩ :: obstaclesOf t.children) := by
  rw [hchildren] at hseq hinner ⊢
  have hlt := hplaced.start_lt_stop
  have hrest := hseq.2.ascends fun t' ht' => hinner t' (by simp [ht'])
  have hle := hseq.1
  have hle' := hseq.2.le
  rw [obstaclesOf_cons, hword, List.nil_append]
  have hstart : (⟨c, t⟩ : Obstacle).start = t.start := rfl
  refine .cons (Nat.le_refl _) (hrest.mono ?_ (Nat.le_refl _)) ?_
  · omega
  · omega

theorem ascends_phrase {p : Phrase}
    (hlawful : (Tree.node (.phrase p) start text children).Lawful)
    (hplaced : (Tree.node (.phrase p) start text children).Placed cs)
    (ih : ∀ t ∈ children, Ascends t.start t.stop t.obstacles) :
    Ascends start (start + byteLength text)
      (Tree.node (.phrase p) start text children).obstacles := by
  have hleaves : p.body.Leaves children := hlawful.leaves rfl
  have hbelow := hlawful.children
  cases hplaced with
  | node _ _ hseq hinner =>
      have hnone := hseq.ascends ih
      rw [obstacles_eq]
      cases p with
      | newObject | newArray =>
          obtain ⟨_, rest, rfl, ⟨word, rfl, hword⟩, _⟩ := hleaves
          have hwordNone := (hbelow word (by simp [Tree.children])).obstacles_word hword (by decide)
          exact ascends_own_word rfl hwordNone (hinner word (by simp)) hseq ih
      | location =>
          obtain ⟨_, rest, rfl, ⟨word, rfl, hword⟩, _⟩ := hleaves
          have hwordNone := (hbelow word (by simp [Tree.children])).obstacles_word hword (by decide)
          simp only [ownObstacles, rule]
          split
          · exact ascends_own_word rfl hwordNone (hinner word (by simp)) hseq ih
          · exact hnone
      | calloutArg =>
          rcases hleaves with ⟨value, rfl, hvalue⟩ | ⟨value, rfl, hvalue⟩
          · have hvalueNone := (hbelow value (by simp [Tree.children])).obstacles_word hvalue
              (by decide)
            have hown : (Tree.node (.phrase .calloutArg) start text [value]).ownObstacles =
                [⟨.stringArgument, value⟩] := by
              show List.map _ (List.filter _ [value]) = _
              simp [hvalue]
            have hlt := (hinner value (by simp)).start_lt_stop
            have hle := hseq.1
            have hle' := hseq.2.le
            rw [hown, Tree.children, obstaclesOf_cons, hvalueNone, obstaclesOf_nil]
            have hstart : (⟨.stringArgument, value⟩ : Obstacle).start = value.start := rfl
            exact .cons (by omega) (.nil _ _) (by omega)
          · have hown : (Tree.node (.phrase .calloutArg) start text [value]).ownObstacles = [] := by
              show List.map _ (List.filter _ [value]) = _
              simp [hvalue]
            rw [hown]
            exact hnone
      | _ => exact hnone

/-- The obstacles of a tree of a text start one behind the other. -/
theorem Lawful.ascends {t : Tree} (h : t.Lawful) (hplaced : t.Placed cs) :
    Ascends t.start t.stop t.obstacles := by
  induction h with
  | @node r start text children hleaves hlawful hspells ih =>
      have hinner : ∀ t ∈ children, t.Placed cs := by
        cases hplaced with
        | node _ _ _ hinner => exact hinner
      have hbelow : ∀ t ∈ children, Ascends t.start t.stop t.obstacles :=
        fun t ht => ih t ht (hinner t ht)
      cases r with
      | phrase p => exact ascends_phrase (.node hleaves hlawful hspells) hplaced hbelow
      | terminal w =>
          have hnil : children = [] := hleaves
          have hlt := hplaced.start_lt_stop
          subst hnil
          rw [obstacles_eq, Tree.children, obstaclesOf_nil, List.append_nil]
          cases w with
          | intLit =>
              simp only [ownObstacles, rule]
              split
              · exact .cons (Nat.le_refl _) (.nil _ _) hlt
              · exact .nil _ _
          | _ => exact .nil _ _
      | _ =>
          rw [obstacles_eq]
          cases hplaced with
          | node _ _ hseq _ => exact hseq.ascends hbelow

end Tree

end DecafFrontEnd
