/-
  DecafFrontEnd/Proofs/Json/Stripped.lean --- what a value without positions says.

  A program is written without positions by taking the members of that name out of its value,
  at every depth and whatever the program is.  What is left still tells all but the positions:
  with one and the same position put into each of its objects it is the value of the program
  in that one position (`Program.restored_json`), from which the program can be read.
-/
import Mathlib.Data.List.TakeWhile
import DecafFrontEnd.Proofs.Ast.Relocate
import DecafFrontEnd.Proofs.Json.Without

set_option autoImplicit false

namespace DecafFrontEnd

/-! ## Positions put back -/

namespace Json

/-- Whether a name is in front of the one a position has, in the order of their characters. -/
def isBeforePosition (name : String) : Bool :=
  name.toList.lex positionKey.toList fun c d => c.toNat < d.toNat

/-- Members with a position among them, in the order of the names. -/
def withPosition (ms : List (String × Json)) : List (String × Json) :=
  ms.takeWhile (fun m => isBeforePosition m.1) ++
    (positionKey, Position.json default) :: ms.dropWhile (fun m => isBeforePosition m.1)

mutual

/-- A value with one and the same position in each of its objects. -/
def placed : Json → Json
  | arr items => arr (placedItems items)
  | obj members => obj (withPosition (placedMembers members))
  | j => j

/-- Several values with a position in each object. -/
def placedItems : List Json → List Json
  | [] => []
  | j :: js => j.placed :: placedItems js

/-- Several members with a position in each object of their values. -/
def placedMembers : List (String × Json) → List (String × Json)
  | [] => []
  | (k, j) :: ms => (k, j.placed) :: placedMembers ms

end

theorem placedItems_eq (js : List Json) : placedItems js = js.map placed := by
  induction js with
  | nil => rfl
  | cons j js ih => rw [placedItems, ih, List.map_cons]

theorem placedMembers_eq (ms : List (String × Json)) :
    placedMembers ms = ms.map fun m => (m.1, m.2.placed) := by
  induction ms with
  | nil => rfl
  | cons m ms ih => rw [placedMembers, ih, List.map_cons]

theorem withoutInMembers_withPosition (ms : List (String × Json)) :
    withoutInMembers positionKey (withPosition ms) = withoutInMembers positionKey ms := by
  rw [withoutInMembers_eq, withoutInMembers_eq, withPosition, List.filter_append,
    List.filter_cons_of_neg (by simp), ← List.filter_append, List.takeWhile_append_dropWhile]

mutual

/-- The positions that are put into a value can be taken out again. -/
theorem without_placed : ∀ (j : Json), j.placed.withoutPositions = j.withoutPositions
  | .null | .bool _ | .num _ | .str _ => rfl
  | .arr items => congrArg arr (withoutInItems_placedItems items)
  | .obj members => by
      have hmembers := withoutInMembers_placedMembers members
      rw [placed, withoutPositions, without, withoutInMembers_withPosition, hmembers]
      rfl

theorem withoutInItems_placedItems : ∀ (js : List Json),
    withoutInItems positionKey (placedItems js) = withoutInItems positionKey js
  | [] => rfl
  | j :: js => congrArg₂ List.cons (without_placed j) (withoutInItems_placedItems js)

theorem withoutInMembers_placedMembers : ∀ (ms : List (String × Json)),
    withoutInMembers positionKey (placedMembers ms) = withoutInMembers positionKey ms
  | [] => rfl
  | (k, j) :: ms => by
      have hj : j.placed.without positionKey = j.without positionKey := without_placed j
      rw [placedMembers, withoutInMembers, withoutInMembers, hj, withoutInMembers_placedMembers ms]

end

theorem member?_withPosition (ms : List (String × Json)) :
    (obj (withPosition ms)).member? positionKey = some (Position.json default) := by
  have hself : isBeforePosition positionKey = false := by decide
  have hfront : (ms.takeWhile fun m => isBeforePosition m.1).lookup positionKey = none := by
    rw [List.lookup_eq_none_iff]
    intro m hm
    have hbefore := List.mem_takeWhile_imp hm
    refine bne_iff_ne.2 fun heq : positionKey = m.1 => ?_
    rw [← heq, hself] at hbefore
    exact Bool.false_ne_true hbefore
  rw [member?, withPosition, List.lookup_append, hfront]
  simp

mutual

/-- Every object with a tag has the position that is put there. -/
theorem member?_of_mem_objects_placed : ∀ (j : Json), ∀ o ∈ j.placed.objects,
    o.isTagged = true → o.member? positionKey = some (Position.json default)
  | .null | .bool _ | .num _ | .str _ => fun _ ho => absurd ho List.not_mem_nil
  | .arr items => member?_of_mem_objectsOfItems_placed items
  | .obj members => by
      intro o ho htagged
      rcases List.mem_cons.1 ho with rfl | ho
      · exact member?_withPosition _
      · rw [objectsOfMembers_eq, withPosition, List.flatMap_append, List.flatMap_cons,
          List.mem_append, List.mem_append, or_left_comm, ← List.mem_append,
          ← List.flatMap_append, List.takeWhile_append_dropWhile, ← objectsOfMembers_eq] at ho
        rcases ho with hposition | ho
        · -- the position itself has no tag
          rw [List.mem_singleton.1 hposition] at htagged
          exact absurd htagged (by decide)
        · exact member?_of_mem_objectsOfMembers_placed members o ho htagged

theorem member?_of_mem_objectsOfItems_placed : ∀ (js : List Json),
    ∀ o ∈ objectsOfItems (placedItems js),
      o.isTagged = true → o.member? positionKey = some (Position.json default)
  | [] => fun _ ho => absurd ho List.not_mem_nil
  | j :: js => by
      intro o ho
      rcases List.mem_append.1 ho with ho | ho
      · exact member?_of_mem_objects_placed j o ho
      · exact member?_of_mem_objectsOfItems_placed js o ho

theorem member?_of_mem_objectsOfMembers_placed : ∀ (ms : List (String × Json)),
    ∀ o ∈ objectsOfMembers (placedMembers ms),
      o.isTagged = true → o.member? positionKey = some (Position.json default)
  | [] => fun _ ho => absurd ho List.not_mem_nil
  | (k, j) :: ms => by
      intro o ho
      rcases List.mem_append.1 ho with ho | ho
      · exact member?_of_mem_objects_placed j o ho
      · exact member?_of_mem_objectsOfMembers_placed ms o ho

end

/-- A value with its positions taken out and the same position put into each object. -/
def restored (j : Json) : Json := j.withoutPositions.placed

/-- Members with the positions taken out of their values and out of the object that they are
members of, and the same position put into each. -/
def restoredMembers (ms : List (String × Json)) : List (String × Json) :=
  withPosition ((ms.filter fun m => m.1 ≠ positionKey).map fun m => (m.1, m.2.restored))

@[simp] theorem restored_null : null.restored = null := rfl
@[simp] theorem restored_bool (b : Bool) : (bool b).restored = bool b := rfl
@[simp] theorem restored_num (i : Int) : (num i).restored = num i := rfl
@[simp] theorem restored_str (s : String) : (str s).restored = str s := rfl

@[simp] theorem restored_ofName? (name : Option String) :
    (ofName? name).restored = ofName? name := by
  cases name <;> rfl

@[simp] theorem restored_arr (js : List Json) : (arr js).restored = arr (js.map restored) := by
  rw [restored, withoutPositions, without_arr, placed, placedItems_eq, List.map_map]
  rfl

@[simp] theorem restored_obj (ms : List (String × Json)) :
    (obj ms).restored = obj (restoredMembers ms) := by
  rw [restored, withoutPositions, without_obj, placed, placedMembers_eq, List.map_map]
  rfl

end Json

@[simp] theorem NodeKind.restored_json (k : NodeKind) : k.json.restored = k.json := rfl

/-- Several values are restored one by one. -/
theorem Json.map_restored {α : Type} {json : α → Json} {f : α → α}
    (h : ∀ x, (json x).restored = json (f x)) (xs : List α) :
    (xs.map json).map restored = (xs.map f).map json := by
  rw [List.map_map, List.map_map]
  exact List.map_congr_left fun x _ => h x

open Json

section

-- Restoring the members of an object is computed, as the names of the members are known.
attribute [local simp] restoredMembers withPosition isBeforePosition positionKey

/-! ## Declarations without statements -/

theorem TypeRef.restored_json (t : TypeRef) :
    t.json.restored = (t.relocate fun _ => default).json := by
  simp [TypeRef.json, TypeRef.relocate]

theorem VarBind.restored_json (b : VarBind) :
    b.json.restored = (b.relocate fun _ => default).json := by
  simp [VarBind.json, VarBind.relocate]

theorem VariableDeclaration.restored_json (d : VariableDeclaration) :
    d.json.restored = (d.relocate fun _ => default).json := by
  have hbinds := map_restored VarBind.restored_json d.varBinds
  simp [VariableDeclaration.json, VariableDeclaration.relocate, d.varType.restored_json, hbinds]

theorem Parameter.restored_json (p : Parameter) :
    p.json.restored = (p.relocate fun _ => default).json := by
  simp [Parameter.json, Parameter.relocate, p.paramType.restored_json]

/-! ## Expressions -/

mutual

theorem Location.restored_json : ∀ l : Location,
    l.json.restored = (l.relocate fun _ => default).json
  | ⟨_, _, _, none⟩ => by
      simp [Location.json, Location.relocate]
  | ⟨_, _, _, some e⟩ => by
      simp [Location.json, Location.relocate, e.restored_json]

theorem Expression.restored_json : ∀ e : Expression,
    e.json.restored = (e.relocate fun _ => default).json
  | .simple .. | .integer .. | .character .. | .boolean .. | .null _ => by
      simp [Expression.json, Expression.relocate]
  | .binary _ lhs _ rhs => by
      simp [Expression.json, Expression.relocate, lhs.restored_json, rhs.restored_json]
  | .unary _ _ operand => by
      simp [Expression.json, Expression.relocate, operand.restored_json]
  | .call _ method arguments => by
      simp [Expression.json, Expression.relocate, method.restored_json,
        Expression.restored_jsons arguments]
  | .callout _ _ arguments => by
      simp [Expression.json, Expression.relocate, Expression.restored_jsons arguments]

theorem Expression.restored_jsons : ∀ es : List Expression,
    (Expression.jsons es).map restored =
      Expression.jsons (Expression.relocateAll (fun _ => default) es)
  | [] => rfl
  | e :: es => congrArg₂ List.cons e.restored_json (Expression.restored_jsons es)

end

/-! ## Statements -/

mutual

theorem Block.restored_json : ∀ b : Block,
    b.json.restored = (b.relocate fun _ => default).json
  | ⟨_, declarations, statements⟩ => by
      have hdeclarations := map_restored VariableDeclaration.restored_json declarations
      simp [Block.json, Block.relocate, hdeclarations, Statement.restored_jsons statements]

theorem Statement.restored_json : ∀ s : Statement,
    s.json.restored = (s.relocate fun _ => default).json
  | .assignment _ location expression => by
      simp [Statement.json, Statement.relocate, location.restored_json, expression.restored_json]
  | .expressionStatement _ call => by
      simp [Statement.json, Statement.relocate, call.restored_json]
  | .ifStatement _ condition trueBranch none => by
      simp [Statement.json, Statement.relocate, condition.restored_json, trueBranch.restored_json]
  | .ifStatement _ condition trueBranch (some falseBranch) => by
      simp [Statement.json, Statement.relocate, condition.restored_json, trueBranch.restored_json,
        falseBranch.restored_json]
  | .whileStatement _ condition body => by
      simp [Statement.json, Statement.relocate, condition.restored_json, body.restored_json]
  | .returnStatement _ none => by
      simp [Statement.json, Statement.relocate]
  | .returnStatement _ (some e) => by
      simp [Statement.json, Statement.relocate, e.restored_json]

theorem Statement.restored_jsons : ∀ ss : List Statement,
    (Statement.jsons ss).map restored =
      Statement.jsons (Statement.relocateAll (fun _ => default) ss)
  | [] => rfl
  | s :: ss => congrArg₂ List.cons s.restored_json (Statement.restored_jsons ss)

end

/-! ## Programs -/

theorem MethodDecl.restored_json (m : MethodDecl) :
    m.json.restored = (m.relocate fun _ => default).json := by
  have hparameters := map_restored Parameter.restored_json m.parameters
  simp [MethodDecl.json, MethodDecl.relocate, m.returnType.restored_json, hparameters,
    m.body.restored_json]

theorem ClassDecl.restored_json (c : ClassDecl) :
    c.json.restored = (c.relocate fun _ => default).json := by
  have hfields := map_restored VariableDeclaration.restored_json c.variableDeclarations
  have hmethods := map_restored MethodDecl.restored_json c.methodDeclarations
  simp [ClassDecl.json, ClassDecl.relocate, hfields, hmethods]

/-- With one and the same position put into each object, the value of a program without
positions is that of the program in this position. -/
theorem Program.restored_json (p : Program) : p.json.restored = p.unplaced.json := by
  have hclasses := map_restored ClassDecl.restored_json p.classes
  simp [Program.json, Program.unplaced, Program.relocate, hclasses]

end

/-- The positions of a program without its own ones are small. -/
theorem Program.fits_unplaced (p : Program) : p.unplaced.outline.Fits := by
  intro n hn
  have hentry : (some n.1, some n.2.json) ∈ p.unplaced.json.entries :=
    p.unplaced.entries_json.mem_iff.2 (List.mem_map_of_mem hn)
  rw [← p.restored_json] at hentry
  obtain ⟨o, ho, hsays⟩ := List.mem_map.1 hentry
  obtain ⟨hobject, htagged⟩ := List.mem_filter.1 ho
  have hposition := member?_of_mem_objects_placed _ o hobject htagged
  rw [Json.entry, Prod.mk.injEq, hposition, Option.some.injEq] at hsays
  rw [← Position.json_injective hsays.2]
  exact ⟨by decide, by decide, by decide⟩

/-- Programs with the same value without positions differ in their positions only. -/
theorem Program.unplaced_eq_of_dump {p q : Program} (h : p.dump false = q.dump false) :
    p.unplaced = q.unplaced := by
  have hjson : p.unplaced.json = q.unplaced.json := by
    rw [← p.restored_json, ← q.restored_json]
    exact congrArg placed h
  have hread := p.unplaced.ofJson?_json p.fits_unplaced
  rw [hjson, q.unplaced.ofJson?_json q.fits_unplaced] at hread
  exact (Option.some.inj hread).symm

theorem Program.dump_unplaced (p : Program) : p.unplaced.dump false = p.dump false := by
  have hplaced : p.unplaced.dump false = p.json.withoutPositions.placed.withoutPositions :=
    congrArg withoutPositions p.restored_json.symm
  rw [hplaced, without_placed]
  exact without_without p.json

/-- Values without positions are equal exactly if the programs are, up to positions.  Whatever
its names and texts are, nothing in the value of a program has a member that is named so; and
of any value, whatever its numbers are, nothing else is taken out: a way into it that leads over
no such member leads to what it led to before, without its positions. -/
theorem Program.dump_without_positions (p q : Program) :
    (p.dump false = q.dump false ↔ p.unplaced = q.unplaced) ∧
    (∀ o ∈ (p.dump false).objects, o.member? positionKey = none) ∧
    ∀ (Number : Type) (j : Json Number),
      j.withoutPositions.withoutPositions = j.withoutPositions ∧
      (∀ o ∈ j.withoutPositions.objects, o.member? positionKey = none) ∧
      ∀ path : List Step, j.withoutPositions.at? path =
        if .member positionKey ∈ path then none else (j.at? path).map withoutPositions := by
  refine ⟨⟨unplaced_eq_of_dump, fun h => ?_⟩, member?_of_mem_objects_without p.json, fun _ j =>
    ⟨without_without j, member?_of_mem_objects_without j, at?_without j⟩⟩
  rw [← p.dump_unplaced, ← q.dump_unplaced, h]

/-- Two programs in different positions with names of members as their names, and a value
with positions at several depths and a number that is not an integer. -/
theorem Program.dump_without_positions_named :
    let p : Program := ⟨default, [⟨default, "position", some "type", [], []⟩]⟩
    let q : Program := ⟨⟨none, 1, 0, 9⟩, [⟨⟨some "position", 7, 1, 2⟩, "position", some "type", [],
      []⟩]⟩
    let j : Json Rat := .obj [("position", .obj [("type", .null)]),
      ("type", .arr [.num (1 / 2), .obj [("line", .str "position"), ("position", .null)]])]
    p ≠ q ∧ p.dump false = q.dump false ∧
      (∀ o ∈ (p.dump false).objects, o.member? positionKey = none) ∧
      j.withoutPositions.at? [.member "type", .item 1] =
        some (.obj [("line", .str "position")]) ∧
      j.withoutPositions.at? [.member "position", .member "type"] = none := by
  intro p q j
  obtain ⟨hequal, hfree, hall⟩ := dump_without_positions p q
  obtain ⟨-, -, hpath⟩ := hall Rat j
  refine ⟨fun h => ?_, hequal.2 rfl, hfree, ?_, ?_⟩
  · have hposition := congrArg Program.position h
    exact absurd hposition (by decide)
  · rw [hpath]
    rfl
  · rw [hpath]
    rfl

end DecafFrontEnd
