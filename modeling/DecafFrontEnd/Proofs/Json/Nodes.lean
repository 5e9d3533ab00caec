/-
  DecafFrontEnd/Proofs/Json/Nodes.lean --- the nodes of a tree and the objects of its value.

  A program is listed node by node and written as a JSON value by two functions that know
  nothing of each other: one goes from a node to its children in the order of the text, the
  other writes the members of every object in the order of their names.  `Json.entries` are
  the objects of a value that carry a tag, each with the kind and the position it says, and
  `Outline.entries` is what they have to be.  The two are the same up to order
  (`Program.entries_json`), by one case for each sort of node.
-/
import Mathlib.Data.List.Perm.Basic
import DecafFrontEnd.Proofs.Json.Decode

set_option autoImplicit false

namespace DecafFrontEnd

/-! ## The objects of a value -/

namespace Json

variable {Number : Type}

mutual

/-- All objects in a value, the value itself included. -/
def objects : Json Number → List (Json Number)
  | arr items => objectsOfItems items
  | obj members => obj members :: objectsOfMembers members
  | _ => []

/-- All objects in several values. -/
def objectsOfItems : List (Json Number) → List (Json Number)
  | [] => []
  | j :: js => j.objects ++ objectsOfItems js

/-- All objects in the values of several members. -/
def objectsOfMembers : List (String × Json Number) → List (Json Number)
  | [] => []
  | (_, j) :: ms => j.objects ++ objectsOfMembers ms

end

/-- Whether an object carries a tag. -/
def isTagged (j : Json) : Bool := (j.member? "type").isSome

/-- The tag that an object carries. -/
def tag? (j : Json) : Option String := (j.member? "type").bind string?

/-- The kind that an object says it is and the position that it says it has. -/
def entry (j : Json) : Option NodeKind × Option Json :=
  (j.kind? NodeKind.all false, j.member? positionKey)

/-- What the objects of a value that carry a tag say. -/
def entries (j : Json) : List (Option NodeKind × Option Json) :=
  (j.objects.filter isTagged).map entry

theorem objectsOfItems_eq (js : List (Json Number)) : objectsOfItems js = js.flatMap objects := by
  induction js with
  | nil => rfl
  | cons j js ih => rw [objectsOfItems, ih, List.flatMap_cons]

theorem objectsOfMembers_eq (ms : List (String × Json Number)) :
    objectsOfMembers ms = ms.flatMap fun m => m.2.objects := by
  induction ms with
  | nil => rfl
  | cons m ms ih => rw [objectsOfMembers, ih, List.flatMap_cons]

@[simp] theorem entries_null : null.entries = [] := rfl

@[simp] theorem entries_bool (b : Bool) : (bool b).entries = [] := rfl

@[simp] theorem entries_int (i : Int) : (int i).entries = [] := rfl

@[simp] theorem entries_str (s : String) : (str s).entries = [] := rfl

@[simp] theorem entries_ofName? (name : Option String) : (ofName? name).entries = [] := by
  cases name <;> rfl

@[simp] theorem entries_arr (js : List Json) : (arr js).entries = js.flatMap entries := by
  rw [entries, objects, objectsOfItems_eq, List.filter_flatMap, List.map_flatMap]
  rfl

theorem entries_obj (ms : List (String × Json)) :
    (obj ms).entries =
      (if (obj ms).isTagged then [(obj ms).entry] else []) ++ ms.flatMap fun m => m.2.entries := by
  rw [entries, objects, objectsOfMembers_eq, List.filter_cons, List.filter_flatMap]
  split
  · rw [List.map_cons, List.map_flatMap]
    rfl
  · rw [List.map_flatMap]
    rfl

end Json

/-! ## The nodes of an outline -/

/-- What an object has to say of a node. -/
def Outline.entries (o : Outline) : List (Option NodeKind × Option Json) :=
  o.nodes.map fun n => (some n.1, some n.2.json)

theorem Outline.nodesOfAll_eq (os : List Outline) : nodesOfAll os = os.flatMap nodes := by
  induction os with
  | nil => rfl
  | cons o os ih => rw [nodesOfAll, ih, List.flatMap_cons]

theorem Outline.entries_node (k : NodeKind) (p : Position) (os : List Outline) :
    (node k p os).entries = (some k, some p.json) :: os.flatMap entries := by
  rw [entries, nodes, nodesOfAll_eq, List.map_cons, List.map_flatMap]
  rfl

@[simp] theorem Position.entries_json (p : Position) : p.json.entries = [] := by
  simp [Position.json, Json.entries_obj, Json.isTagged, Json.member?]

@[simp] theorem NodeKind.entries_json (k : NodeKind) : k.json.entries = [] := rfl

open Json (entries member?_cons)

/-- An object says of a node what it has to if its members do of the children. -/
theorem Json.entries_node {k : NodeKind} {p : Position} {ms : List (String × Json)}
    {os : List Outline} (htype : (obj ms).member? "type" = some k.json)
    (hposition : (obj ms).member? positionKey = some p.json)
    (h : (ms.flatMap fun m => m.2.entries).Perm (os.flatMap Outline.entries)) :
    (obj ms).entries.Perm (Outline.node k p os).entries := by
  have htagged : (obj ms).isTagged = true := by simp [isTagged, htype]
  have hentry : (obj ms).entry = (some k, some p.json) := by
    rw [entry, kind?_of_member htype k.mem_all (by decide), hposition]
  rw [entries_obj, if_pos htagged, hentry, Outline.entries_node]
  exact h.cons _

/-- The values of several nodes say of them what they have to. -/
theorem Json.entries_map {α : Type} {json : α → Json} {outline : α → Outline} (xs : List α)
    (h : ∀ x, (json x).entries.Perm (outline x).entries) :
    ((xs.map json).flatMap entries).Perm ((xs.map outline).flatMap Outline.entries) := by
  rw [List.flatMap_map, List.flatMap_map]
  exact List.Perm.flatMap_left xs fun x _ => h x

/-! ## Declarations without statements -/

theorem TypeRef.entries_json (t : TypeRef) : t.json.entries.Perm t.outline.entries :=
  Json.entries_node rfl rfl (by simp)

theorem VarBind.entries_json (b : VarBind) : b.json.entries.Perm b.outline.entries :=
  Json.entries_node rfl rfl (by simp)

theorem VariableDeclaration.entries_json (d : VariableDeclaration) :
    d.json.entries.Perm d.outline.entries := by
  refine Json.entries_node rfl rfl ?_
  have hbinds := Json.entries_map d.varBinds VarBind.entries_json
  simpa using List.perm_append_comm.trans (d.varType.entries_json.append hbinds)

theorem Parameter.entries_json (p : Parameter) : p.json.entries.Perm p.outline.entries :=
  Json.entries_node rfl rfl (by simpa using p.paramType.entries_json)

/-! ## Expressions -/

mutual

theorem Location.entries_json : ∀ l : Location, l.json.entries.Perm l.outline.entries
  | ⟨_, _, _, none⟩ => Json.entries_node rfl rfl (by simp)
  | ⟨_, _, _, some e⟩ => Json.entries_node rfl rfl (by simpa using e.entries_json)

theorem Expression.entries_json : ∀ e : Expression, e.json.entries.Perm e.outline.entries
  | .simple .. | .integer .. | .character .. | .boolean .. | .null _ =>
      Json.entries_node rfl rfl (by simp)
  | .binary _ lhs _ rhs =>
      Json.entries_node rfl rfl (by simpa using lhs.entries_json.append rhs.entries_json)
  | .unary _ _ operand => Json.entries_node rfl rfl (by simpa using operand.entries_json)
  | .call _ method arguments => by
      refine Json.entries_node rfl rfl ?_
      have harguments := Expression.entries_jsons arguments
      simpa using List.perm_append_comm.trans (method.entries_json.append harguments)
  | .callout _ _ arguments =>
      Json.entries_node rfl rfl (by simpa using Expression.entries_jsons arguments)

theorem Expression.entries_jsons : ∀ es : List Expression,
    ((Expression.jsons es).flatMap entries).Perm
      ((Expression.outlines es).flatMap Outline.entries)
  | [] => .refl _
  | e :: es => e.entries_json.append (Expression.entries_jsons es)

end

/-! ## Statements -/

mutual

theorem Block.entries_json : ∀ b : Block, b.json.entries.Perm b.outline.entries
  | ⟨_, declarations, statements⟩ => by
      refine Json.entries_node rfl rfl ?_
      have hdeclarations := Json.entries_map declarations VariableDeclaration.entries_json
      have hstatements := Statement.entries_jsons statements
      simpa using List.perm_append_comm.trans (hdeclarations.append hstatements)

theorem Statement.entries_json : ∀ s : Statement, s.json.entries.Perm s.outline.entries
  | .assignment _ location expression => by
      refine Json.entries_node rfl rfl ?_
      simpa using List.perm_append_comm.trans
        (location.entries_json.append expression.entries_json)
  | .expressionStatement _ call => Json.entries_node rfl rfl (by simpa using call.entries_json)
  | .ifStatement _ condition trueBranch none =>
      Json.entries_node rfl rfl
        (by simpa using condition.entries_json.append trueBranch.entries_json)
  | .ifStatement _ condition trueBranch (some falseBranch) => by
      refine Json.entries_node rfl rfl ?_
      have hbranches := List.perm_append_comm.trans
        (trueBranch.entries_json.append falseBranch.entries_json)
      simpa using condition.entries_json.append hbranches
  | .whileStatement _ condition body => by
      refine Json.entries_node rfl rfl ?_
      simpa using List.perm_append_comm.trans (condition.entries_json.append body.entries_json)
  | .returnStatement _ none => Json.entries_node rfl rfl (by simp)
  | .returnStatement _ (some e) => Json.entries_node rfl rfl (by simpa using e.entries_json)

theorem Statement.entries_jsons : ∀ ss : List Statement,
    ((Statement.jsons ss).flatMap entries).Perm
      ((Statement.outlines ss).flatMap Outline.entries)
  | [] => .refl _
  | s :: ss => s.entries_json.append (Statement.entries_jsons ss)

end

/-! ## Programs -/

theorem MethodDecl.entries_json (m : MethodDecl) : m.json.entries.Perm m.outline.entries := by
  refine Json.entries_node rfl rfl ?_
  have hparameters := Json.entries_map m.parameters Parameter.entries_json
  have hfront := List.perm_append_comm.trans (m.returnType.entries_json.append hparameters)
  simpa using List.perm_append_comm.trans (hfront.append m.body.entries_json)

theorem ClassDecl.entries_json (c : ClassDecl) : c.json.entries.Perm c.outline.entries := by
  refine Json.entries_node rfl rfl ?_
  have hfields := Json.entries_map c.variableDeclarations VariableDeclaration.entries_json
  have hmethods := Json.entries_map c.methodDeclarations MethodDecl.entries_json
  simpa using List.perm_append_comm.trans (hfields.append hmethods)

/-- The objects of a program that carry a tag say of its nodes what they have to. -/
theorem Program.entries_json (p : Program) : p.json.entries.Perm p.outline.entries := by
  refine Json.entries_node rfl rfl ?_
  simpa using Json.entries_map p.classes ClassDecl.entries_json

/-! ## What tells nodes apart -/

/-- The tag of a kind is no other kind's. -/
theorem NodeKind.tag_injective : Function.Injective NodeKind.tag := by
  have key : ∀ k ∈ all, ∀ k' ∈ all, k.tag = k'.tag → k = k' := by decide
  exact fun k k' h => key k k.mem_all k' k'.mem_all h

theorem Json.ofName?_injective : Function.Injective ofName? := by
  intro name name' h
  cases name <;> cases name' <;> simp_all [ofName?]

/-- Different positions are written differently. -/
theorem Position.json_injective : Function.Injective Position.json := by
  intro p p' h
  obtain ⟨name, line, column, offset⟩ := p
  obtain ⟨name', line', column', offset'⟩ := p'
  simp only [json, Json.obj.injEq, List.cons.injEq, Prod.mk.injEq, Json.num.injEq, true_and,
    and_true, Int.natCast_inj] at h
  obtain ⟨rfl, rfl, rfl, hname⟩ := h
  rw [Json.ofName?_injective hname]

/-- An object says that it is of a kind if it carries the tag of that kind. -/
theorem Json.kind?_all_iff {j : Json} {k : NodeKind} :
    j.kind? NodeKind.all false = some k ↔ j.tag? = some k.tag := by
  unfold kind? tag?
  split
  · next tag htag =>
      rw [htag]
      simp only [Option.bind_some, string?_str, Option.some.injEq]
      constructor
      · intro hfind
        have hk := List.find?_some hfind
        exact (decide_eq_true_eq.mp hk).symm
      · rintro rfl
        cases hfind : NodeKind.all.find? fun k' => k'.tag = k.tag with
        | none => simpa using List.find?_eq_none.1 hfind k k.mem_all
        | some k' =>
            have hk' := List.find?_some hfind
            rw [NodeKind.tag_injective (decide_eq_true_eq.mp hk')]
  · next i htype => simp [htype, string?]
  · next hnone _ =>
      refine iff_of_false (by simp) fun htag => ?_
      obtain ⟨v, hv, hstring⟩ := Option.bind_eq_some_iff.1 htag
      cases v with
      | str tag => exact hnone tag hv
      | _ => simp [string?] at hstring

/-! ## Counting nodes -/

/-- The kinds that occur are listed with the number of nodes of each. -/
theorem Outline.mem_counts {o : Outline} {k : NodeKind} {n : Nat} :
    (k, n) ∈ o.counts ↔ 0 < n ∧ n = (o.nodes.map Prod.fst).count k := by
  simp only [counts, List.mem_filterMap, NodeKind.mem_all, true_and]
  constructor
  · rintro ⟨k', hk'⟩
    split at hk'
    · simp at hk'
    · next hne =>
        simp only [Option.some.injEq, Prod.mk.injEq] at hk'
        obtain ⟨rfl, rfl⟩ := hk'
        exact ⟨Nat.pos_of_ne_zero hne, rfl⟩
  · rintro ⟨hpos, rfl⟩
    refine ⟨k, ?_⟩
    split
    · omega
    · rfl

/-- The objects with the tag of a kind are as many as those that say they are of it. -/
theorem Json.countP_entries (j : Json) (k : NodeKind) :
    j.entries.countP (·.1 = some k) = j.objects.countP (·.tag? = some k.tag) := by
  rw [entries, List.countP_map, List.countP_filter]
  refine List.countP_congr fun object _ => ?_
  have hkind : object.entry.1 = some k ↔ object.tag? = some k.tag := kind?_all_iff
  simp only [Function.comp_apply, hkind, Bool.and_eq_true, decide_eq_true_eq, and_iff_left_iff_imp]
  intro htag
  obtain ⟨v, hv, -⟩ := Option.bind_eq_some_iff.1 htag
  simp [isTagged, hv]

theorem Outline.countP_entries (o : Outline) (k : NodeKind) :
    o.entries.countP (·.1 = some k) = (o.nodes.map Prod.fst).count k := by
  rw [entries, List.count, List.countP_map, List.countP_map]
  refine List.countP_congr fun n _ => ?_
  simp

/-- The objects of a written program that carry a tag are its nodes, each once: with the
kinds that their tags stand for and the positions that they hold they are the nodes of the
listing up to order.  A summary gives for every kind that occurs the number of objects with
its tag. -/
theorem Program.objects_of_dump (p : Program) :
    (((p.dump true).objects.filter Json.isTagged).map fun j =>
        (j.kind? NodeKind.all false, j.member? positionKey)).Perm
      (p.outline.nodes.map fun n => (some n.1, some n.2.json)) ∧
    Function.Injective NodeKind.tag ∧ Function.Injective Position.json ∧
    ∀ k n, (k, n) ∈ p.outline.counts ↔
      0 < n ∧ n = (p.dump true).objects.countP (·.tag? = some k.tag) := by
  have hdump : p.dump true = p.json := rfl
  rw [hdump]
  refine ⟨p.entries_json, NodeKind.tag_injective, Position.json_injective, fun k n => ?_⟩
  rw [Outline.mem_counts, ← Outline.countP_entries, ← p.entries_json.countP_eq,
    Json.countP_entries]

end DecafFrontEnd
