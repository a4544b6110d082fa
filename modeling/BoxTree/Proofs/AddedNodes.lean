import BoxTree.Proofs.GrownForest

namespace BoxTree

/-!
# Nodes added call by call

Written in place, one more node takes two writes: its parent learns of it first, and then it is put at the
end. In between the links do not fit together. A call can only fail before the first of the two.

* `Forest.adopt`, `Forest.insert` — the writes of one call; `Forest.insertAll` — calls in turn, each answered
  whether or not it fails.
* `Forest.insert_run` — a call does what `Forest.add` does, and nothing if that fails.
* `Forest.grown_insertAll` — whatever calls are made, and whichever of them fail, the forest is grown.
* `insertions_keep_links` — the answers of all calls, and the links after them.
-/

namespace Forest

variable {forest : Forest} {label : Label} {parent : Option Nat} {id above : Nat}

/-! ### The writes of a call -/

/-- A node learns that the next node to be put in is its child, and answers with the place of the child. -/
def adopt (above : Nat) : ExceptT Error (StateM Forest) Nat := do
  let forest ← get
  match forest.node? above with
  | none => throw (.unknownNode above)
  | some node =>
    let siblings := { node with children := node.children.push forest.size }
    set (⟨forest.nodes.setIfInBounds above siblings⟩ : Forest)
    return node.children.size

/-- Puts a node at the end, below a parent if there is one, and answers with its number. -/
def insert (label : Label) (parent : Option Nat) : ExceptT Error (StateM Forest) Nat := do
  let id := (← get).size
  let position ← match parent with
    | none => pure 0
    | some above => adopt above
  modify fun forest => ⟨forest.nodes.push { id, label, parent, position }⟩
  return id

/-- Calls in turn. One that fails does not keep the others from being made. -/
def insertAll (calls : List (Label × Option Nat)) : StateM Forest (List (Except Error Nat)) :=
  calls.mapM fun call => (insert call.1 call.2).run

/-- What follows on a write sees what it has written, unless it fails. -/
theorem run_bind {α β : Type} (first : ExceptT Error (StateM Forest) α)
    (next : α → ExceptT Error (StateM Forest) β) (forest : Forest) :
    (first >>= next).run.run forest =
      match first.run.run forest with
      | (.ok a, after) => (next a).run.run after
      | (.error error, after) => (.error error, after) := by
  show ExceptT.bindCont next (first.run.run forest).1 (first.run.run forest).2 = _
  rcases first.run.run forest with ⟨_ | _, after⟩ <;> rfl

theorem run_get (forest : Forest) :
    (get : ExceptT Error (StateM Forest) Forest).run.run forest = (.ok forest, forest) := rfl

/-- Only a node that is there can adopt. Otherwise nothing is written. -/
theorem adopt_run (forest : Forest) (above : Nat) :
    (adopt above).run.run forest =
      match forest.node? above with
      | none => (.error (.unknownNode above), forest)
      | some node =>
        (.ok node.children.size, ⟨forest.nodes.setIfInBounds above
          { node with children := node.children.push forest.size }⟩) := by
  unfold adopt
  rw [run_bind, run_get]
  dsimp only
  cases forest.node? above <;> rfl

/-- **A call does what adding does.** Where that fails, so does the call, and nothing has been written. -/
theorem insert_run (forest : Forest) (label : Label) (parent : Option Nat) :
    (insert label parent).run.run forest =
      match forest.add label parent with
      | .ok (after, id) => (.ok id, after)
      | .error error => (.error error, forest) := by
  unfold add insert
  cases parent with
  | none => rfl
  | some above =>
    rw [run_bind, run_get]
    dsimp only
    rw [run_bind, adopt_run]
    cases forest.node? above <;> rfl

/-! ### The answer of a call -/

/-- A parent that is not there, be it the number that the node itself would get, is reported. -/
theorem add_of_unknown (h : forest.node? above = none) (label : Label) :
    forest.add label (some above) = .error (.unknownNode above) := by
  unfold add
  simp only [h]

/-- The forest with one more node: it stands at the end, below its parent, and has no children. -/
theorem exists_add_of_known (known : ∀ above, parent = some above → forest.node? above ≠ none)
    (label : Label) :
    ∃ after node, forest.add label parent = .ok (after, forest.size) ∧ after.size = forest.size + 1 ∧
      after.node? forest.size = some node ∧ node.label = label ∧ node.parent = parent ∧
      node.children = #[] := by
  have hok : ∃ after id, forest.add label parent = .ok (after, id) := by
    unfold add
    cases parent with
    | none => exact ⟨_, _, rfl⟩
    | some above =>
      obtain ⟨node, hnode⟩ := Option.ne_none_iff_exists'.mp (known above rfl)
      simp only [hnode]
      exact ⟨_, _, rfl⟩
  obtain ⟨after, id, hadd⟩ := hok
  obtain ⟨rfl, hsize, -⟩ := id_of_add hadd
  have hnode := node?_add hadd forest.size
  rw [if_pos rfl] at hnode
  exact ⟨after, _, hadd, hsize, hnode, rfl, rfl, rfl⟩

/-! ### Calls in turn -/

theorem insertAll_concat (calls : List (Label × Option Nat)) (forest : Forest) (label : Label)
    (parent : Option Nat) :
    (insertAll (calls ++ [(label, parent)])).run forest =
      let earlier := (insertAll calls).run forest
      let last := (insert label parent).run.run earlier.2
      (earlier.1 ++ [last.1], last.2) := by
  unfold insertAll
  rw [List.mapM_append]
  rfl

/-- **Whatever calls are made**, and whichever of them fail, the forest is grown. -/
theorem grown_insertAll (calls : List (Label × Option Nat)) (grown : forest.Grown) :
    ((insertAll calls).run forest).2.Grown := by
  induction calls using List.reverseRecOn with
  | nil => exact grown
  | append_singleton calls call ih =>
    rw [insertAll_concat]
    dsimp only
    rw [insert_run]
    split
    · next hadd => exact ih.add hadd
    · exact ih

/-- What the links of a forest say of a node, in terms of the nodes that it is linked to. -/
theorem Linked.node_links (linked : forest.Linked) {node : Node} (h : forest.node? id = some node) :
    node.id = id ∧ (∀ above, node.parent = some above → above < id) ∧
      node.children.toList.Pairwise (· < ·) ∧
      (∀ child, child ∈ node.children ↔
        ∃ below, forest.node? child = some below ∧ below.parent = some id) ∧
      ∀ above, node.parent = some above →
        ∃ parent, forest.node? above = some parent ∧ parent.children[node.position]? = some id := by
  have hparent : forest.parent? id = node.parent := by rw [parent?, h, Option.bind_some]
  have hchildren : forest.childList id = node.children.toList := by simp [childList, children?, h]
  have hposition : (⟨forest, id⟩ : Place).position = node.position := by
    simp [Place.position, Place.node?, h]
  refine ⟨linked.id_eq h, fun above habove => ?_, ?_, fun child => ?_, fun above habove => ?_⟩
  · exact linked.parent_lt (hparent.trans habove)
  · rw [← hchildren]
    exact linked.sorted id
  · rw [← Array.mem_toList_iff, ← hchildren, linked.mem_childList, parent?, Option.bind_eq_some_iff]
  · have hplace := linked.position (hparent.trans habove)
    rw [hposition] at hplace
    cases hnode : forest.node? above with
    | none => simp [childList, children?, hnode] at hplace
    | some parent =>
      refine ⟨parent, rfl, ?_⟩
      simpa [childList, children?, hnode] using hplace

end Forest

/-- **Calls keep the links together.** Whatever nodes are added to the empty forest, below whatever
    parents: a call whose parent is not there, such as the number that the new node would get, is answered
    with the error that names the parent, and leaves the forest exactly as it was; any other call is answered
    with the number of nodes so far, which is the number of the new node. After all calls every node has
    its own number, has a smaller one as its parent, has as children exactly the nodes whose parent it is,
    in increasing order, and stands among the children of its parent where it says. -/
theorem insertions_keep_links (calls : List (Label × Option Nat)) :
    let forest := ((Forest.insertAll calls).run {}).2
    (∀ label parent, ∃ answer after,
      (Forest.insertAll (calls ++ [(label, parent)])).run {} =
          (((Forest.insertAll calls).run {}).1 ++ [answer], after) ∧
        (∀ above, parent = some above → forest.node? above = none →
          answer = .error (.unknownNode above) ∧ after = forest) ∧
        ((∀ above, parent = some above → forest.node? above ≠ none) →
          answer = .ok forest.size ∧ after.size = forest.size + 1 ∧
            ∃ node, after.node? forest.size = some node ∧ node.label = label ∧ node.parent = parent ∧
              node.children = #[])) ∧
    ∀ id node, forest.node? id = some node →
      node.id = id ∧ (∀ above, node.parent = some above → above < id) ∧
        node.children.toList.Pairwise (· < ·) ∧
        (∀ child, child ∈ node.children ↔
          ∃ below, forest.node? child = some below ∧ below.parent = some id) ∧
        ∀ above, node.parent = some above →
          ∃ parent, forest.node? above = some parent ∧ parent.children[node.position]? = some id := by
  intro forest
  have linked : forest.Linked := (Forest.grown_insertAll calls .empty).linked
  refine ⟨fun label parent => ?_, fun id node hnode => linked.node_links hnode⟩
  refine ⟨_, _, Forest.insertAll_concat calls {} label parent, ?_, fun known => ?_⟩
  · rintro above rfl hnone
    rw [Forest.insert_run, Forest.add_of_unknown hnone]
    exact ⟨rfl, rfl⟩
  · obtain ⟨after, node, hadd, hsize, hnode⟩ := Forest.exists_add_of_known known label
    rw [Forest.insert_run, hadd]
    exact ⟨rfl, hsize, node, hnode⟩

/-- A node cannot be added below itself, nor below one that is still to come. -/
example :
    ((Forest.insertAll [(⟨"a", 0, 1⟩, some 0), (⟨"b", 0, 1⟩, none), (⟨"c", 0, 1⟩, some 2),
      (⟨"d", 0, 1⟩, some 0)]).run {}).1 =
      [.error (.unknownNode 0), .ok 0, .error (.unknownNode 2), .ok 1] := rfl

end BoxTree
