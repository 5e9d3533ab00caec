/-
  DecafFrontEnd/Proofs/Json/Without.lean --- values without the members of one name.

  `Json.without key` takes the members named `key` out of every object in a value.  None is
  left then (`Json.member?_of_mem_objects_without`), and nothing else is gone: a way into the
  value that leads over no such member leads to what it led to before, of which only such
  members are missing (`Json.at?_without`).
-/
import DecafFrontEnd.Proofs.Json.Nodes

set_option autoImplicit false

namespace DecafFrontEnd

namespace Json

variable {Number : Type} {key : String}

/-! ## Items and members -/

theorem withoutInItems_eq (js : List (Json Number)) :
    withoutInItems key js = js.map fun j => j.without key := by
  induction js with
  | nil => rfl
  | cons j js ih => rw [withoutInItems, ih, List.map_cons]

theorem withoutInMembers_eq (ms : List (String × Json Number)) :
    withoutInMembers key ms =
      (ms.filter fun m => m.1 ≠ key).map fun m => (m.1, m.2.without key) := by
  induction ms with
  | nil => rfl
  | cons m ms ih =>
      rw [withoutInMembers, ih]
      by_cases h : m.1 = key <;> simp [h]

theorem without_arr (js : List (Json Number)) :
    (arr js).without key = arr (js.map fun j => j.without key) :=
  congrArg arr (withoutInItems_eq js)

theorem without_obj (ms : List (String × Json Number)) :
    (obj ms).without key =
      obj ((ms.filter fun m => m.1 ≠ key).map fun m => (m.1, m.2.without key)) :=
  congrArg obj (withoutInMembers_eq ms)

/-! ## Members that are left -/

theorem lookup_without (ms : List (String × Json Number)) (name : String) :
    ((ms.filter fun m => m.1 ≠ key).map fun m => (m.1, m.2.without key)).lookup name =
      if name = key then none else (ms.lookup name).map fun j => j.without key := by
  induction ms with
  | nil => simp
  | cons m ms ih =>
      obtain ⟨k, j⟩ := m
      by_cases hk : k = key
      · subst hk
        rw [List.filter_cons_of_neg (by simp), ih]
        by_cases hname : name = k
        · rw [if_pos hname, if_pos hname]
        · rw [if_neg hname, if_neg hname, List.lookup_cons, beq_eq_false_iff_ne.2 hname]
      · rw [List.filter_cons_of_pos (by simpa using hk), List.map_cons, List.lookup_cons,
          List.lookup_cons]
        by_cases hname : name = k
        · subst hname
          simp [hk]
        · simpa only [beq_eq_false_iff_ne.2 hname] using ih

/-- The member of a name in a value without those of one name. -/
theorem member?_without (j : Json Number) (name : String) :
    (j.without key).member? name =
      if name = key then none else (j.member? name).map fun j => j.without key := by
  cases j with
  | obj ms =>
      rw [without_obj]
      exact lookup_without ms name
  | _ => simp [without, member?]

mutual

/-- No object is left with a member of the name. -/
theorem member?_of_mem_objects_without : ∀ (j : Json Number), ∀ o ∈ (j.without key).objects,
    o.member? key = none
  | .null | .bool _ | .num _ | .str _ => fun _ ho => absurd ho List.not_mem_nil
  | .arr items => member?_of_mem_objectsOfItems_without items
  | .obj members => by
      intro o ho
      rcases List.mem_cons.1 ho with rfl | ho
      · exact (member?_without (.obj members) key).trans (if_pos rfl)
      · exact member?_of_mem_objectsOfMembers_without members o ho

theorem member?_of_mem_objectsOfItems_without : ∀ (js : List (Json Number)),
    ∀ o ∈ objectsOfItems (withoutInItems key js), o.member? key = none
  | [] => fun _ ho => absurd ho List.not_mem_nil
  | j :: js => by
      intro o ho
      rcases List.mem_append.1 ho with ho | ho
      · exact member?_of_mem_objects_without j o ho
      · exact member?_of_mem_objectsOfItems_without js o ho

theorem member?_of_mem_objectsOfMembers_without : ∀ (ms : List (String × Json Number)),
    ∀ o ∈ objectsOfMembers (withoutInMembers key ms), o.member? key = none
  | [] => fun _ ho => absurd ho List.not_mem_nil
  | (k, j) :: ms => by
      intro o ho
      rw [withoutInMembers] at ho
      split at ho
      · exact member?_of_mem_objectsOfMembers_without ms o ho
      · rcases List.mem_append.1 ho with ho | ho
        · exact member?_of_mem_objects_without j o ho
        · exact member?_of_mem_objectsOfMembers_without ms o ho

end

mutual

/-- Members that are gone cannot be taken out again. -/
theorem without_without : ∀ (j : Json Number), (j.without key).without key = j.without key
  | .null | .bool _ | .num _ | .str _ => rfl
  | .arr items => congrArg arr (withoutInItems_withoutInItems items)
  | .obj members => congrArg obj (withoutInMembers_withoutInMembers members)

theorem withoutInItems_withoutInItems : ∀ (js : List (Json Number)),
    withoutInItems key (withoutInItems key js) = withoutInItems key js
  | [] => rfl
  | j :: js => by
      rw [withoutInItems, withoutInItems, without_without j, withoutInItems_withoutInItems js]

theorem withoutInMembers_withoutInMembers : ∀ (ms : List (String × Json Number)),
    withoutInMembers key (withoutInMembers key ms) = withoutInMembers key ms
  | [] => rfl
  | (k, j) :: ms => by
      rw [withoutInMembers]
      split
      · exact withoutInMembers_withoutInMembers ms
      · next hk =>
          rw [withoutInMembers, if_neg hk, without_without j, withoutInMembers_withoutInMembers ms]

end

/-! ## Ways into a value -/

/-- A step into a value: to a member of an object or to an item of an array. -/
inductive Step where
  | member (name : String)
  | item (index : Nat)
  deriving DecidableEq, Repr, Inhabited

/-- What a step leads to. -/
def step? (j : Json Number) : Step → Option (Json Number)
  | .member name => j.member? name
  | .item index =>
      match j with
      | arr items => items[index]?
      | _ => none

/-- What several steps lead to, one after the other. -/
def at? (j : Json Number) : List Step → Option (Json Number)
  | [] => some j
  | step :: path => (j.step? step).bind fun next => next.at? path

theorem step?_without (j : Json Number) (step : Step) :
    (j.without key).step? step =
      if step = .member key then none else (j.step? step).map fun j => j.without key := by
  cases step with
  | member name =>
      rw [step?, member?_without]
      simp only [Step.member.injEq]
      rfl
  | item index =>
      cases j with
      | arr items =>
          rw [without_arr]
          simp [step?]
      | _ => simp [step?, without]

/-- What a way into a value without the members of one name leads to: nothing over such a
member, and else what it leads to in the value itself, without such members. -/
theorem at?_without (j : Json Number) (path : List Step) :
    (j.without key).at? path =
      if .member key ∈ path then none else (j.at? path).map fun j => j.without key := by
  induction path generalizing j with
  | nil => rfl
  | cons step path ih =>
      rw [at?, at?, step?_without]
      by_cases hstep : step = .member key
      · simp [hstep]
      · have hmem : Step.member key ∈ step :: path ↔ Step.member key ∈ path := by
          rw [List.mem_cons, or_iff_right (Ne.symm hstep)]
        simp only [if_neg hstep, hmem, Option.bind_map, Function.comp_def, ih]
        by_cases hpath : Step.member key ∈ path
        · simp [hpath]
        · simp only [if_neg hpath, Option.map_bind]
          rfl

end Json

end DecafFrontEnd
