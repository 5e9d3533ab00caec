/-
  DecafFrontEnd/Proofs/Json/Decode.lean --- a program is read back from its JSON value.

  Every sort of node is read back from the object it is written as, whatever its texts
  and numbers are, as long as the numbers of its positions fit into 64 bits
  (`Program.ofJson?_json`).  A reading that is bounded in its depth reads every value
  within the bound.
-/
import DecafFrontEnd.Json.ToAst
import DecafFrontEnd.Proofs.Ast.Order
import DecafFrontEnd.Proofs.Json.Text

set_option autoImplicit false

namespace DecafFrontEnd

/-! ## Positions that fit -/

/-- The numbers of a position fit into 64 bits. -/
structure Position.Fits (p : Position) : Prop where
  line : p.line < UInt64.size
  column : p.column < UInt64.size
  offset : p.offset < UInt64.size

/-- The position of every node fits. -/
def Outline.Fits (o : Outline) : Prop := ∀ n ∈ o.nodes, n.2.Fits

namespace Outline

theorem fits_node {kind : NodeKind} {p : Position} {children : List Outline} :
    (node kind p children).Fits ↔ p.Fits ∧ ∀ o ∈ children, o.Fits := by
  simp only [Fits, nodes, List.forall_mem_cons, mem_nodesOfAll]
  constructor
  · rintro ⟨hp, hchildren⟩
    exact ⟨hp, fun o ho n hn => hchildren n ⟨o, ho, hn⟩⟩
  · rintro ⟨hp, hchildren⟩
    refine ⟨hp, ?_⟩
    rintro n ⟨o, ho, hn⟩
    exact hchildren o ho n hn

end Outline

/-! ## Parts of an object -/

namespace Json

section

variable {α : Type} (key k : String) (v : Json) (ms : List (String × Json))

/-- The members of an object are looked through in order. -/
theorem member?_cons :
    (obj ((k, v) :: ms)).member? key = if key = k then some v else (obj ms).member? key := by
  by_cases h : key = k
  · simp [member?, h]
  · simp [member?, List.lookup_cons, beq_eq_false_iff_ne.2 h, h]

@[simp] theorem required_cons (read : Json → Option α) :
    (obj ((k, v) :: ms)).required key read =
      if key = k then read v else (obj ms).required key read := by
  rw [required, member?_cons]
  split <;> rfl

/-- Reads a part that may be `null`. -/
def orNull (read : Json → Option α) : Json → Option (Option α)
  | null => some none
  | v => (read v).map some

@[simp] theorem optional_cons (read : Json → Option α) :
    (obj ((k, v) :: ms)).optional key read =
      if key = k then orNull read v else (obj ms).optional key read := by
  by_cases h : key = k
  · rw [optional, member?_cons, if_pos h, if_pos h]
    cases v <;> rfl
  · rw [optional, member?_cons, if_neg h, if_neg h, optional]

end

@[simp] theorem orNull_null {α : Type} (read : Json → Option α) :
    orNull read null = some none := rfl

theorem orNull_of_ne {α : Type} (read : Json → Option α) {v : Json} (h : v ≠ null) :
    orNull read v = (read v).map some := by
  cases v with
  | null => exact absurd rfl h
  | _ => rfl

@[simp] theorem string?_str (s : String) : string? (str s) = some s := rfl

@[simp] theorem bool?_bool (b : Bool) : bool? (bool b) = some b := rfl

/-- The kind of an object, when its tag is that of one of the kinds and of no other one. -/
theorem kind?_of_member {j : Json} {k : NodeKind} {kinds : List NodeKind} {byNumber : Bool}
    (h : j.member? "type" = some k.json) (hk : k ∈ kinds)
    (hkinds : ∀ k ∈ kinds, kinds.find? (fun k' => k'.tag = k.tag) = some k) :
    j.kind? kinds byNumber = some k := by
  rw [kind?, h]
  exact hkinds k hk

theorem list?_cons {α : Type} {read : Json → Option α} {j : Json} {js : List Json} {x : α}
    {xs : List α} (h : read j = some x) (hmore : (arr js).list? read = some xs) :
    (arr (j :: js)).list? read = some (x :: xs) := by
  have hrest : js.mapM read = some xs := hmore
  simp [list?, h, hrest]

/-- The elements of an array are read back when each of them is. -/
theorem list?_map {α : Type} {read : Json → Option α} {write : α → Json} {xs : List α}
    (h : ∀ x ∈ xs, read (write x) = some x) : (arr (xs.map write)).list? read = some xs := by
  induction xs with
  | nil => rfl
  | cons x xs ih => exact list?_cons (h x (by simp)) (ih fun y hy => h y (by simp [hy]))

theorem word?_natCast {n : Nat} (h : n < UInt64.size) : word? (.int n) = some n := by
  rw [UInt64.size] at h
  have hbounds : (0 : Int) ≤ n ∧ (n : Int) < 18446744073709551616 := by omega
  simp [word?, hbounds]

@[simp] theorem int32?_toInt (v : Int32) : int32? (.int v.toInt) = some v := by
  have hbounds : (-2147483648 : Int) ≤ v.toInt ∧ v.toInt ≤ 2147483647 :=
    ⟨v.le_toInt, Int.le_of_lt_add_one v.toInt_lt⟩
  simp [int32?, hbounds]

@[simp] theorem char?_singleton (c : Char) : char? (.str (String.singleton c)) = some c := by
  simp [char?]

/-- A name that may be missing is read back. -/
@[simp] theorem orNull_ofName? (name : Option String) :
    orNull string? (ofName? name) = some name := by
  cases name <;> rfl

end Json

open Json

/-! ## Leaves -/

theorem Position.ofJson?_json {p : Position} (h : p.Fits) : Position.ofJson? p.json = some p := by
  simp [Position.ofJson?, Position.json, word?_natCast h.line, word?_natCast h.column,
    word?_natCast h.offset]

theorem TypeRef.ofJson?_json {t : TypeRef} (h : t.outline.Fits) :
    TypeRef.ofJson? t.json = some t := by
  have hp := Position.ofJson?_json (Outline.fits_node.1 h).1
  simp [TypeRef.ofJson?, TypeRef.json, positionKey, hp]

theorem VarBind.ofJson?_json {b : VarBind} (h : b.outline.Fits) :
    VarBind.ofJson? b.json = some b := by
  have hp := Position.ofJson?_json (Outline.fits_node.1 h).1
  simp [VarBind.ofJson?, VarBind.json, positionKey, hp]

theorem VariableDeclaration.ofJson?_json {d : VariableDeclaration} (h : d.outline.Fits) :
    VariableDeclaration.ofJson? d.json = some d := by
  obtain ⟨hp, hchildren⟩ := Outline.fits_node.1 h
  rw [List.forall_mem_cons, List.forall_mem_map] at hchildren
  have hbinds : (arr (d.varBinds.map VarBind.json)).list? VarBind.ofJson? = some d.varBinds :=
    list?_map fun b hb => VarBind.ofJson?_json (hchildren.2 b hb)
  simp [VariableDeclaration.ofJson?, VariableDeclaration.json, positionKey,
    Position.ofJson?_json hp, TypeRef.ofJson?_json hchildren.1, hbinds]

theorem Parameter.ofJson?_json {p : Parameter} (h : p.outline.Fits) :
    Parameter.ofJson? p.json = some p := by
  obtain ⟨hp, hchildren⟩ := Outline.fits_node.1 h
  rw [List.forall_mem_singleton] at hchildren
  simp [Parameter.ofJson?, Parameter.json, positionKey, Position.ofJson?_json hp,
    TypeRef.ofJson?_json hchildren]

/-! ## Depth -/

namespace Json

theorem depth_pos (j : Json) : 0 < j.depth := by cases j <;> simp [depth]

/-- What an array holds is less deep than the array. -/
theorem depth_arr_le {js : List Json} {n : Nat} :
    (arr js).depth ≤ n + 1 ↔ ∀ j ∈ js, j.depth ≤ n := by
  have hitems : ∀ js : List Json, depthOfItems js ≤ n ↔ ∀ j ∈ js, j.depth ≤ n := by
    intro js
    induction js with
    | nil => simp [depthOfItems]
    | cons j js ih => rw [depthOfItems, List.forall_mem_cons, ← ih, Nat.max_le]
  rw [depth, Nat.add_le_add_iff_right, hitems]

/-- What an object holds is less deep than the object. -/
theorem depth_obj_le {ms : List (String × Json)} {n : Nat} :
    (obj ms).depth ≤ n + 1 ↔ ∀ m ∈ ms, m.2.depth ≤ n := by
  have hmembers : ∀ ms : List (String × Json),
      depthOfMembers ms ≤ n ↔ ∀ m ∈ ms, m.2.depth ≤ n := by
    intro ms
    induction ms with
    | nil => simp [depthOfMembers]
    | cons m ms ih => rw [depthOfMembers, List.forall_mem_cons, ← ih, Nat.max_le]
  rw [depth, Nat.add_le_add_iff_right, hmembers]

end Json

/-! ## Expressions -/

theorem Expression.json_ne_null (e : Expression) : e.json ≠ .null := by
  cases e <;> simp [Expression.json]

/-- The kind of an expression, as its object says it. -/
def Expression.kind : Expression → NodeKind
  | simple .. => .simple
  | binary .. => .binary
  | unary .. => .unary
  | call .. => .call
  | callout .. => .callout
  | integer .. => .integer
  | character .. => .character
  | boolean .. => .boolean
  | null .. => .null

theorem Expression.kind?_json (e : Expression) :
    e.json.kind? Expression.kinds true = some e.kind := by
  refine kind?_of_member ?_ ?_ (by decide)
  · cases e <;> simp [Expression.json, Expression.kind, member?_cons, positionKey]
  · cases e <;> simp [Expression.kind, Expression.kinds]

mutual

theorem Location.ofJsonWithin_json : ∀ (l : Location) (n : Nat), l.json.depth ≤ n →
    l.outline.Fits → Location.ofJsonWithin n l.json = some l
  | l, 0, hdepth, _ => absurd hdepth (Nat.not_le_of_lt l.json.depth_pos)
  | ⟨p, root, path, none⟩, n + 1, _, hfits => by
      have hp := Position.ofJson?_json (Outline.fits_node.1 hfits).1
      simp [Location.ofJsonWithin, Location.json, positionKey, hp]
  | ⟨p, root, path, some e⟩, n + 1, hdepth, hfits => by
      obtain ⟨hp, hchildren⟩ := Outline.fits_node.1 hfits
      have he := Expression.ofJsonWithin_json e n
        (depth_obj_le.1 hdepth ("indexExpr", e.json) (by simp)) (hchildren _ (by simp))
      simp [Location.ofJsonWithin, Location.json, positionKey, Position.ofJson?_json hp,
        orNull_of_ne _ e.json_ne_null, he]

theorem Expression.ofJsonWithin_json : ∀ (e : Expression) (n : Nat), e.json.depth ≤ n →
    e.outline.Fits → Expression.ofJsonWithin n e.json = some e
  | e, 0, hdepth, _ => absurd hdepth (Nat.not_le_of_lt e.json.depth_pos)
  | .simple p text, n + 1, _, hfits => by
      have hp := Position.ofJson?_json (Outline.fits_node.1 hfits).1
      rw [Expression.ofJsonWithin, Expression.kind?_json]
      simp [Expression.json, Expression.kind, positionKey, hp]
  | .binary p lhs operator rhs, n + 1, hdepth, hfits => by
      obtain ⟨hp, hchildren⟩ := Outline.fits_node.1 hfits
      have hlhs := Expression.ofJsonWithin_json lhs n
        (depth_obj_le.1 hdepth ("lhs", lhs.json) (by simp)) (hchildren _ (by simp))
      have hrhs := Expression.ofJsonWithin_json rhs n
        (depth_obj_le.1 hdepth ("rhs", rhs.json) (by simp)) (hchildren _ (by simp))
      rw [Expression.ofJsonWithin, Expression.kind?_json]
      simp [Expression.json, Expression.kind, positionKey, Position.ofJson?_json hp, hlhs, hrhs]
  | .unary p operator operand, n + 1, hdepth, hfits => by
      obtain ⟨hp, hchildren⟩ := Outline.fits_node.1 hfits
      have hoperand := Expression.ofJsonWithin_json operand n
        (depth_obj_le.1 hdepth ("operand", operand.json) (by simp)) (hchildren _ (by simp))
      rw [Expression.ofJsonWithin, Expression.kind?_json]
      simp [Expression.json, Expression.kind, positionKey, Position.ofJson?_json hp, hoperand]
  | .call p method arguments, n + 1, hdepth, hfits => by
      obtain ⟨hp, hchildren⟩ := Outline.fits_node.1 hfits
      rw [List.forall_mem_cons] at hchildren
      have hmethod := Location.ofJsonWithin_json method n
        (depth_obj_le.1 hdepth ("method", method.json) (by simp)) hchildren.1
      have harguments := Expression.list?_jsons arguments n
        (depth_obj_le.1 hdepth ("arguments", .arr (Expression.jsons arguments)) (by simp))
        hchildren.2
      rw [Expression.ofJsonWithin, Expression.kind?_json]
      simp [Expression.json, Expression.kind, positionKey, Position.ofJson?_json hp, hmethod,
        harguments]
  | .callout p primitiveId arguments, n + 1, hdepth, hfits => by
      obtain ⟨hp, hchildren⟩ := Outline.fits_node.1 hfits
      have harguments := Expression.list?_jsons arguments n
        (depth_obj_le.1 hdepth ("arguments", .arr (Expression.jsons arguments)) (by simp))
        hchildren
      rw [Expression.ofJsonWithin, Expression.kind?_json]
      simp [Expression.json, Expression.kind, positionKey, Position.ofJson?_json hp, harguments]
  | .integer p value, n + 1, _, hfits => by
      have hp := Position.ofJson?_json (Outline.fits_node.1 hfits).1
      rw [Expression.ofJsonWithin, Expression.kind?_json]
      simp [Expression.json, Expression.kind, positionKey, hp]
  | .character p value, n + 1, _, hfits => by
      have hp := Position.ofJson?_json (Outline.fits_node.1 hfits).1
      rw [Expression.ofJsonWithin, Expression.kind?_json]
      simp [Expression.json, Expression.kind, positionKey, hp]
  | .boolean p value, n + 1, _, hfits => by
      have hp := Position.ofJson?_json (Outline.fits_node.1 hfits).1
      rw [Expression.ofJsonWithin, Expression.kind?_json]
      simp [Expression.json, Expression.kind, positionKey, hp]
  | .null p, n + 1, _, hfits => by
      have hp := Position.ofJson?_json (Outline.fits_node.1 hfits).1
      rw [Expression.ofJsonWithin, Expression.kind?_json]
      simp [Expression.json, Expression.kind, positionKey, hp]

theorem Expression.list?_jsons : ∀ (es : List Expression) (n : Nat),
    (arr (Expression.jsons es)).depth ≤ n → (∀ o ∈ Expression.outlines es, o.Fits) →
    (arr (Expression.jsons es)).list? (Expression.ofJsonWithin n) = some es
  | [], _, _, _ => rfl
  | e :: es, 0, hdepth, _ => absurd hdepth (Nat.not_le_of_lt (depth_pos _))
  | e :: es, n + 1, hdepth, hfits => by
      rw [depth_arr_le, Expression.jsons, List.forall_mem_cons] at hdepth
      rw [Expression.outlines, List.forall_mem_cons] at hfits
      have he := Expression.ofJsonWithin_json e (n + 1) (by omega) hfits.1
      have hes := Expression.list?_jsons es (n + 1) (depth_arr_le.2 hdepth.2) hfits.2
      exact list?_cons he hes

end

/-! ## Statements -/

theorem Block.json_ne_null (b : Block) : b.json ≠ .null := by
  cases b
  simp [Block.json]

/-- The kind of a statement, as its object says it. -/
def Statement.kind : Statement → NodeKind
  | assignment .. => .assignment
  | expressionStatement .. => .expressionStatement
  | ifStatement .. => .ifStatement
  | whileStatement .. => .whileStatement
  | returnStatement .. => .returnStatement

theorem Statement.kind?_json (s : Statement) (byNumber : Bool) :
    s.json.kind? Statement.kinds byNumber = some s.kind := by
  refine kind?_of_member ?_ ?_ (by decide)
  · cases s <;> simp [Statement.json, Statement.kind, member?_cons, positionKey]
  · cases s <;> simp [Statement.kind, Statement.kinds]

theorem list?_declarations {ds : List VariableDeclaration}
    (h : ∀ o ∈ ds.map VariableDeclaration.outline, o.Fits) :
    (arr (ds.map VariableDeclaration.json)).list? VariableDeclaration.ofJson? = some ds := by
  rw [List.forall_mem_map] at h
  exact list?_map fun d hd => VariableDeclaration.ofJson?_json (h d hd)

mutual

theorem Block.ofJsonWithin_json (inner : Bool) : ∀ (b : Block) (n : Nat), b.json.depth ≤ n →
    b.outline.Fits → Block.ofJsonWithin inner n b.json = some b
  | b, 0, hdepth, _ => absurd hdepth (Nat.not_le_of_lt b.json.depth_pos)
  | ⟨p, declarations, statements⟩, n + 1, hdepth, hfits => by
      obtain ⟨hp, hchildren⟩ := Outline.fits_node.1 hfits
      rw [List.forall_mem_append] at hchildren
      have hstatements := Statement.list?_jsons inner statements n
        (depth_obj_le.1 hdepth ("statements", .arr (Statement.jsons statements)) (by simp))
        hchildren.2
      simp [Block.ofJsonWithin, Block.json, positionKey, Position.ofJson?_json hp,
        list?_declarations hchildren.1, hstatements]

theorem Statement.ofJsonWithin_json (inner : Bool) : ∀ (s : Statement) (n : Nat),
    s.json.depth ≤ n → s.outline.Fits → Statement.ofJsonWithin inner n s.json = some s
  | s, 0, hdepth, _ => absurd hdepth (Nat.not_le_of_lt s.json.depth_pos)
  | .assignment p location expression, n + 1, hdepth, hfits => by
      obtain ⟨hp, hchildren⟩ := Outline.fits_node.1 hfits
      have hlocation := location.ofJsonWithin_json n
        (depth_obj_le.1 hdepth ("location", location.json) (by simp)) (hchildren _ (by simp))
      have hexpression := expression.ofJsonWithin_json n
        (depth_obj_le.1 hdepth ("expression", expression.json) (by simp)) (hchildren _ (by simp))
      rw [Statement.ofJsonWithin, Statement.kind?_json]
      simp [Statement.json, Statement.kind, positionKey, Position.ofJson?_json hp, hlocation,
        hexpression]
  | .expressionStatement p call, n + 1, hdepth, hfits => by
      obtain ⟨hp, hchildren⟩ := Outline.fits_node.1 hfits
      have hcall := call.ofJsonWithin_json n
        (depth_obj_le.1 hdepth ("call", call.json) (by simp)) (hchildren _ (by simp))
      rw [Statement.ofJsonWithin, Statement.kind?_json]
      simp [Statement.json, Statement.kind, positionKey, Position.ofJson?_json hp, hcall]
  | .ifStatement p condition trueBranch none, n + 1, hdepth, hfits => by
      obtain ⟨hp, hchildren⟩ := Outline.fits_node.1 hfits
      have hcondition := condition.ofJsonWithin_json n
        (depth_obj_le.1 hdepth ("condition", condition.json) (by simp)) (hchildren _ (by simp))
      have htrue := Block.ofJsonWithin_json true trueBranch n
        (depth_obj_le.1 hdepth ("trueBranch", trueBranch.json) (by simp)) (hchildren _ (by simp))
      rw [Statement.ofJsonWithin, Statement.kind?_json]
      simp [Statement.json, Statement.kind, positionKey, Position.ofJson?_json hp, hcondition,
        htrue]
  | .ifStatement p condition trueBranch (some falseBranch), n + 1, hdepth, hfits => by
      obtain ⟨hp, hchildren⟩ := Outline.fits_node.1 hfits
      have hcondition := condition.ofJsonWithin_json n
        (depth_obj_le.1 hdepth ("condition", condition.json) (by simp)) (hchildren _ (by simp))
      have htrue := Block.ofJsonWithin_json true trueBranch n
        (depth_obj_le.1 hdepth ("trueBranch", trueBranch.json) (by simp)) (hchildren _ (by simp))
      have hfalse := Block.ofJsonWithin_json true falseBranch n
        (depth_obj_le.1 hdepth ("falseBranch", falseBranch.json) (by simp))
        (hchildren _ (by simp))
      rw [Statement.ofJsonWithin, Statement.kind?_json]
      simp [Statement.json, Statement.kind, positionKey, Position.ofJson?_json hp, hcondition,
        htrue, orNull_of_ne _ falseBranch.json_ne_null, hfalse]
  | .whileStatement p condition body, n + 1, hdepth, hfits => by
      obtain ⟨hp, hchildren⟩ := Outline.fits_node.1 hfits
      have hcondition := condition.ofJsonWithin_json n
        (depth_obj_le.1 hdepth ("condition", condition.json) (by simp)) (hchildren _ (by simp))
      have hbody := Block.ofJsonWithin_json true body n
        (depth_obj_le.1 hdepth ("body", body.json) (by simp)) (hchildren _ (by simp))
      rw [Statement.ofJsonWithin, Statement.kind?_json]
      simp [Statement.json, Statement.kind, positionKey, Position.ofJson?_json hp, hcondition,
        hbody]
  | .returnStatement p none, n + 1, _, hfits => by
      have hp := Position.ofJson?_json (Outline.fits_node.1 hfits).1
      rw [Statement.ofJsonWithin, Statement.kind?_json]
      simp [Statement.json, Statement.kind, positionKey, hp]
  | .returnStatement p (some e), n + 1, hdepth, hfits => by
      obtain ⟨hp, hchildren⟩ := Outline.fits_node.1 hfits
      have he := e.ofJsonWithin_json n
        (depth_obj_le.1 hdepth ("value", e.json) (by simp)) (hchildren _ (by simp))
      rw [Statement.ofJsonWithin, Statement.kind?_json]
      simp [Statement.json, Statement.kind, positionKey, Position.ofJson?_json hp,
        orNull_of_ne _ e.json_ne_null, he]

theorem Statement.list?_jsons (inner : Bool) : ∀ (ss : List Statement) (n : Nat),
    (arr (Statement.jsons ss)).depth ≤ n → (∀ o ∈ Statement.outlines ss, o.Fits) →
    (arr (Statement.jsons ss)).list? (Statement.ofJsonWithin inner n) = some ss
  | [], _, _, _ => rfl
  | s :: ss, 0, hdepth, _ => absurd hdepth (Nat.not_le_of_lt (depth_pos _))
  | s :: ss, n + 1, hdepth, hfits => by
      rw [depth_arr_le, Statement.jsons, List.forall_mem_cons] at hdepth
      rw [Statement.outlines, List.forall_mem_cons] at hfits
      have hs := Statement.ofJsonWithin_json inner s (n + 1) (by omega) hfits.1
      have hss := Statement.list?_jsons inner ss (n + 1) (depth_arr_le.2 hdepth.2) hfits.2
      exact list?_cons hs hss

end

/-! ## Declarations -/

theorem MethodDecl.ofJson?_json {m : MethodDecl} (h : m.outline.Fits) :
    MethodDecl.ofJson? m.json = some m := by
  obtain ⟨hp, hchildren⟩ := Outline.fits_node.1 h
  rw [List.forall_mem_append, List.forall_mem_cons, List.forall_mem_map,
    List.forall_mem_singleton] at hchildren
  obtain ⟨⟨htype, hparameters⟩, hbody⟩ := hchildren
  have hparameters : (arr (m.parameters.map Parameter.json)).list? Parameter.ofJson? =
      some m.parameters := list?_map fun p hp => Parameter.ofJson?_json (hparameters p hp)
  have hdepth : m.body.json.depth ≤ m.json.depth := by
    obtain ⟨n, hn⟩ := Nat.exists_eq_succ_of_ne_zero (Nat.ne_of_gt m.json.depth_pos)
    have hle : m.body.json.depth ≤ n :=
      depth_obj_le.1 (Nat.le_of_eq hn) ("body", m.body.json) (by simp)
    omega
  have hbody := Block.ofJsonWithin_json false m.body _ hdepth hbody
  simp only [MethodDecl.ofJson?]
  generalize m.json.depth = n at hbody ⊢
  simp [MethodDecl.json, positionKey, Position.ofJson?_json hp, TypeRef.ofJson?_json htype,
    hparameters, hbody]

theorem ClassDecl.ofJson?_json {c : ClassDecl} (h : c.outline.Fits) :
    ClassDecl.ofJson? c.json = some c := by
  obtain ⟨hp, hchildren⟩ := Outline.fits_node.1 h
  rw [List.forall_mem_append, List.forall_mem_map (l := c.methodDeclarations)] at hchildren
  have hmethods : (arr (c.methodDeclarations.map MethodDecl.json)).list? MethodDecl.ofJson? =
      some c.methodDeclarations := list?_map fun m hm => MethodDecl.ofJson?_json (hchildren.2 m hm)
  simp [ClassDecl.ofJson?, ClassDecl.json, positionKey, Position.ofJson?_json hp,
    list?_declarations hchildren.1, hmethods]

theorem Program.ofJson?_json {p : Program} (h : p.outline.Fits) :
    Program.ofJson? p.json = some p := by
  obtain ⟨hp, hchildren⟩ := Outline.fits_node.1 h
  rw [List.forall_mem_map] at hchildren
  have hclasses : (arr (p.classes.map ClassDecl.json)).list? ClassDecl.ofJson? = some p.classes :=
    list?_map fun c hc => ClassDecl.ofJson?_json (hchildren c hc)
  simp [Program.ofJson?, Program.json, positionKey, Position.ofJson?_json hp, hclasses]

/-! ## Programs and their texts -/

/-- A program whose positions fit into 64 bits is read back from the value that it is
written as, and either text of this value says it and no other value. -/
theorem Program.json_round_trip {p : Program} (h : p.outline.Fits) :
    Program.ofJson? (p.dump true) = some p ∧
      ∀ (isCompact : Bool) (j : Json), Says ((p.dump true).text isCompact) j ↔ j = p.dump true :=
  ⟨Program.ofJson?_json h, says_text_iff (p.dump true)⟩

/-- A program that is lowered from no text: its names are not names, and the literal that
it returns has a sign. -/
def Program.strange : Program :=
  let p : Position := ⟨some "\"\\\n", 18446744073709551615, 0, 7⟩
  ⟨p, [⟨p, "\t/é𝄞", some "", [], [⟨p, ⟨p, "void"⟩, "", [],
    ⟨p, [], [.returnStatement p (some (.integer p (-2147483648))),
      .expressionStatement p (.character p '\x00')]⟩⟩]⟩]⟩

theorem Program.json_round_trip_strange : Program.strange.outline.Fits ∧
    Program.ofJson? (Program.strange.dump true) = some Program.strange ∧
      ∀ (isCompact : Bool) (j : Json),
        Says ((Program.strange.dump true).text isCompact) j ↔ j = Program.strange.dump true := by
  have hfits : Program.strange.outline.Fits := by
    have hp : (⟨some "\"\\\n", 18446744073709551615, 0, 7⟩ : Position).Fits :=
      ⟨by decide, by decide, by decide⟩
    simp [Program.strange, Program.outline, ClassDecl.outline, MethodDecl.outline,
      TypeRef.outline, Block.outline, Statement.outlines, Statement.outline, Expression.outline,
      Outline.fits_node, hp]
  exact ⟨hfits, Program.json_round_trip hfits⟩

end DecafFrontEnd
