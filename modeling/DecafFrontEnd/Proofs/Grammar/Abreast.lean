/-
  DecafFrontEnd/Proofs/Grammar/Abreast.lean --- places of two texts with the same lexemes.

  Two places are `Cursor.Alike` when the same lexemes stand between them and the ends of
  their texts.  A scan fits at both or at neither and takes the same lexeme
  (`Cursor.Alike.scan`), whatever trivia stands behind it.

  From two bases that are alike, two places are `Cursor.Together` when the same lexemes
  lead to them, and `Cursor.Astride` when both lie inside the operator that stands there.
  `Cursor.Level` says of two offsets that they are those of two such places.  The offsets
  of one text are ordered as those of the other, so the greater of two is level with the
  greater of the other two (`Cursor.Level.greater`).
-/
import DecafFrontEnd.Proofs.Grammar.Furthest

set_option autoImplicit false

namespace DecafFrontEnd

namespace Cursor

/-! ## The same lexemes ahead -/

/-- The same lexemes stand between two places and the ends of their texts. -/
def Alike (c c' : Cursor) : Prop :=
  c.Rested ∧ c'.Rested ∧
    ∃ ls d d', c.Reads ls d ∧ d.rest = [] ∧ c'.Reads ls d' ∧ d'.rest = []

namespace Alike

variable {c c' : Cursor}

theorem symm (h : Alike c c') : Alike c' c := by
  obtain ⟨hc, hc', ls, d, d', hd, hend, hd', hend'⟩ := h
  exact ⟨hc', hc, ls, d', d, hd', hend', hd, hend⟩

theorem first?_eq (h : Alike c c') : Lexeme.first? c.rest = Lexeme.first? c'.rest := by
  obtain ⟨-, -, ls, d, d', hd, hend, hd', hend'⟩ := h
  cases hd with
  | nil _ =>
      cases hd'
      rw [hend, hend']
  | cons hl _ =>
      cases hd' with
      | cons hl' _ => rw [hl, hl']

theorem rest_eq_nil (h : Alike c c') (hend : c.rest = []) : c'.rest = [] := by
  obtain ⟨-, -, ls, d, d', hd, -, hd', hend'⟩ := h
  cases hd with
  | nil _ =>
      cases hd'
      exact hend'
  | cons hl _ =>
      have hnone : Lexeme.first? [] = none := rfl
      rw [hend, hnone] at hl
      simp at hl

/-- A scan that fits at a place fits at one that is alike.  It takes the lexeme of both
places, or the first sign of the operator at both. -/
theorem scan (h : Alike c c') {t : Terminal} {l r : List Char}
    (hscan : t.scan c.rest = some (l, r)) :
    (∃ r', t.scan c'.rest = some (l, r')) ∧
      (Lexeme.first? c.rest = some ⟨t, l⟩ ∨
        (t = .assign ∨ t = .notOp) ∧ Inside c (c.advance l.length) ∧
          Inside c' (c'.advance l.length)) := by
  have hsame := h.first?_eq
  refine ⟨Lexeme.scan_of_first?_eq hsame hscan, ?_⟩
  rcases Lexeme.first?_of_scan hscan with hfirst | ⟨ht, r', rfl, hfirst⟩
  · exact Or.inl hfirst
  · obtain ⟨x, -, rfl, hrest, -⟩ := Lexeme.scan_lone ht hscan
    have hop : Lexeme.first? c'.rest = some ⟨.eqOp, [x, '=']⟩ := hsame.symm.trans hfirst
    obtain ⟨r'', hscan'⟩ := Lexeme.scan_of_first? hop
    have hrest' : c'.rest = x :: '=' :: r'' := (Terminal.append_of_scan hscan').symm
    exact Or.inr ⟨ht, ⟨x, r', hrest, hfirst, rfl⟩, x, r'', hrest', hop, rfl⟩

theorem scan_none (h : Alike c c') {t : Terminal} (hscan : t.scan c.rest = none) :
    t.scan c'.rest = none := Lexeme.scan_eq_none_of_first?_eq h.first?_eq hscan

end Alike

/-! ## Places that the same lexemes lead to -/

/-- Two places that the same lexemes lead to. -/
def Together (b b' c c' : Cursor) : Prop := ∃ ls, b.Reads ls c ∧ b'.Reads ls c'

/-- Two places inside the operators that the same lexemes lead to. -/
def Astride (b b' c c' : Cursor) : Prop :=
  ∃ ls m m', b.Reads ls m ∧ b'.Reads ls m' ∧ Inside m c ∧ Inside m' c'

variable {b b' c c' d : Cursor}

theorem Alike.together (h : Alike b b') (hc : Together b b' c c') : Alike c c' := by
  obtain ⟨hb, hb', all, d, d', hd, hend, hd', hend'⟩ := h
  obtain ⟨ls, hls, hls'⟩ := hc
  have hnone : Lexeme.first? [] = none := rfl
  obtain ⟨more, rfl, hmore⟩ := hd.before_end (by rw [hend, hnone]) hls
  obtain ⟨more', heq, hmore'⟩ := hd'.before_end (by rw [hend', hnone]) hls'
  obtain rfl := List.append_cancel_left heq
  exact ⟨hls.rested hb, hls'.rested hb', more, d, d', hmore, hend, hmore', hend'⟩

/-- A scan that fits at one of two places leads from both to two such places again, or
into the operators there. -/
theorem Together.scan (hb : Alike b b') (h : Together b b' c c') {t : Terminal} {l r : List Char}
    (hscan : t.scan c.rest = some (l, r)) :
    (∃ r', t.scan c'.rest = some (l, r')) ∧
      (Together b b' (c.advance l.length).skip (c'.advance l.length).skip ∨
        (t = .assign ∨ t = .notOp) ∧ Astride b b' (c.advance l.length) (c'.advance l.length)) := by
  have halike := hb.together h
  obtain ⟨ls, hls, hls'⟩ := h
  obtain ⟨hscan', hfirst | ⟨ht, hinside, hinside'⟩⟩ := halike.scan hscan
  · have hfirst' := halike.first?_eq.symm.trans hfirst
    exact ⟨hscan', Or.inl ⟨_, hls.append (.one hfirst), hls'.append (.one hfirst')⟩⟩
  · exact ⟨hscan', Or.inr ⟨ht, ls, c, c', hls, hls', hinside, hinside'⟩⟩

/-! ## Counting places -/

/-- The places on course, counted: two for each lexeme before, and one more inside an
operator. -/
inductive Counts (b : Cursor) : Nat → Cursor → Prop
  | front {ls : List Lexeme} {c : Cursor} : b.Reads ls c → Counts b (2 * ls.length) c
  | inside {ls : List Lexeme} {m c : Cursor} :
      b.Reads ls m → Inside m c → Counts b (2 * ls.length + 1) c

theorem Inside.functional {m c d : Cursor} (h : Inside m c) (h' : Inside m d) : c = d := by
  obtain ⟨_, _, -, -, rfl⟩ := h
  obtain ⟨_, _, -, -, rfl⟩ := h'
  rfl

/-- Places are counted in the order of their offsets. -/
theorem Counts.offset_le {n k : Nat} (h : b.Counts n c) (h' : b.Counts k d) (hle : n ≤ k) :
    c.offset ≤ d.offset := by
  cases h with
  | front h =>
      cases h' with
      | front h' =>
          obtain ⟨more, rfl, hmore⟩ := h.of_length_le h' (by omega)
          exact hmore.reaches.offset_le
      | inside h' hinside' =>
          obtain ⟨more, rfl, hmore⟩ := h.of_length_le h' (by omega)
          exact Nat.le_trans hmore.reaches.offset_le (Nat.le_of_lt hinside'.offset_lt)
  | inside h hinside =>
      cases h' with
      | front h' =>
          obtain ⟨more, rfl, hmore⟩ := h.of_length_le h' (by omega)
          cases more with
          | nil =>
              rw [List.append_nil] at hle
              omega
          | cons l more => exact Nat.le_of_lt (hinside.offset_lt_of_reads hmore)
      | inside h' hinside' =>
          obtain ⟨more, rfl, hmore⟩ := h.of_length_le h' (by omega)
          cases more with
          | nil =>
              cases hmore
              exact Nat.le_of_eq (congrArg Cursor.offset (hinside.functional hinside'))
          | cons l more =>
              have hbehind := hinside.offset_lt_of_reads hmore
              exact Nat.le_of_lt (Nat.lt_trans hbehind hinside'.offset_lt)

/-- Two offsets of places with the same count. -/
def Level (b b' : Cursor) (m m' : Nat) : Prop :=
  ∃ n c c', b.Counts n c ∧ b'.Counts n c' ∧ m = c.offset ∧ m' = c'.offset

theorem Together.level (h : Together b b' c c') : Level b b' c.offset c'.offset := by
  obtain ⟨ls, hls, hls'⟩ := h
  exact ⟨_, c, c', .front hls, .front hls', rfl, rfl⟩

theorem Astride.level (h : Astride b b' c c') : Level b b' c.offset c'.offset := by
  obtain ⟨ls, m, m', hls, hls', hinside, hinside'⟩ := h
  exact ⟨_, c, c', .inside hls hinside, .inside hls' hinside', rfl, rfl⟩

/-- The greater of two offsets is level with the greater of two that are level with
them. -/
theorem Level.greater {m m' k k' : Nat} (h : Level b b' m m') (h' : Level b b' k k') :
    Level b b' (max m k) (max m' k') := by
  obtain ⟨n, c, c', hc, hc', rfl, rfl⟩ := h
  obtain ⟨n', d, d', hd, hd', rfl, rfl⟩ := h'
  rcases Nat.le_total n n' with hle | hle
  · have h1 := hc.offset_le hd hle
    have h2 := hc'.offset_le hd' hle
    exact ⟨n', d, d', hd, hd', Nat.max_eq_right h1, Nat.max_eq_right h2⟩
  · have h1 := hd.offset_le hc hle
    have h2 := hd'.offset_le hc' hle
    exact ⟨n, c, c', hc, hc', Nat.max_eq_left h1, Nat.max_eq_left h2⟩

end Cursor

end DecafFrontEnd
