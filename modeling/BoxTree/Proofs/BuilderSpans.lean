import BoxTree.Proofs.GrownForest
import BoxTree.Syntax.Builder
import BoxTree.Text.Slice

namespace BoxTree

/-!
# The spans of a built document

A builder notes where the text ends while it is still being written. All that is noted stays a
position between two characters, whatever is written behind it.

* `Text.HasSlice` — two positions with a part of the text between them; `Text.slice?_append` — that part
  can be taken out.
* `Forest.Grown.setStop` — moving the end of a span leaves a forest grown.
* `Forest.Spans`, `Builder.Sound` — a grown forest, every span of which is a part of the text (so far).
* `Builder.Sound.perform`, `Builder.sound_run` — every step keeps that, and so does a run.
* `Document.spans_ofSteps` — the same for a document that was built.
-/

/-! ### Parts of a text -/

namespace Text

variable {text : String} {start stop : Nat}

/-- How many bytes characters take. -/
def byteCount (cs : List Char) : Nat := (cs.map Char.utf8Size).sum

/-- The bytes of the first character come on top of the others. -/
theorem byteCount_cons (c : Char) (cs : List Char) : byteCount (c :: cs) = c.utf8Size + byteCount cs :=
  List.sum_cons

/-- A text of given characters has the size that they take. -/
theorem utf8ByteSize_ofList (cs : List Char) : (String.ofList cs).utf8ByteSize = byteCount cs := by
  induction cs with
  | nil => rfl
  | cons c cs ih =>
    have hcons : String.ofList (c :: cs) = String.singleton c ++ String.ofList cs := by
      rw [String.singleton_eq_ofList, ← String.ofList_append, List.singleton_append]
    rw [hcons, String.utf8ByteSize_append, String.utf8ByteSize_singleton, ih, byteCount_cons]

/-- The size of a text is the number of bytes that its characters take. -/
theorem utf8ByteSize_eq (text : String) : text.utf8ByteSize = byteCount text.toList := by
  rw [← utf8ByteSize_ofList, String.ofList_toList]

/-- The first character is dropped by the number of its bytes. -/
theorem dropBytes?_cons (c : Char) (n : Nat) (cs : List Char) :
    dropBytes? (c.utf8Size + n) (c :: cs) = dropBytes? n cs := by
  obtain ⟨k, hk⟩ := Nat.exists_eq_add_of_lt (Nat.add_pos_left c.utf8Size_pos n)
  have hsub : k + 1 - c.utf8Size = n := by omega
  rw [hk, Nat.zero_add, dropBytes?, if_pos (by omega), hsub]

/-- The first character is taken by the number of its bytes. -/
theorem takeBytes?_cons (c : Char) (n : Nat) (cs : List Char) :
    takeBytes? (c.utf8Size + n) (c :: cs) = (takeBytes? n cs).map (c :: ·) := by
  obtain ⟨k, hk⟩ := Nat.exists_eq_add_of_lt (Nat.add_pos_left c.utf8Size_pos n)
  have hsub : k + 1 - c.utf8Size = n := by omega
  rw [hk, Nat.zero_add, takeBytes?, if_pos (by omega), hsub]

/-- As many bytes as the first characters take drop these characters. -/
theorem dropBytes?_append (cs rest : List Char) : dropBytes? (byteCount cs) (cs ++ rest) = some rest := by
  induction cs with
  | nil =>
    show dropBytes? 0 rest = _
    rw [dropBytes?]
  | cons c cs ih => rw [byteCount_cons, List.cons_append, dropBytes?_cons, ih]

/-- As many bytes as the first characters take are these characters. -/
theorem takeBytes?_append (cs rest : List Char) : takeBytes? (byteCount cs) (cs ++ rest) = some cs := by
  induction cs with
  | nil =>
    show takeBytes? 0 rest = _
    rw [takeBytes?]
  | cons c cs ih => rw [byteCount_cons, List.cons_append, takeBytes?_cons, ih, Option.map_some]

/-- A part of a text can be taken out by the positions where it begins and ends. -/
theorem slice?_append (before part behind : String) :
    slice? (before ++ part ++ behind) before.utf8ByteSize (before ++ part).utf8ByteSize = some part := by
  have hlength : (before ++ part).utf8ByteSize - before.utf8ByteSize = part.utf8ByteSize := by
    rw [String.utf8ByteSize_append]
    omega
  have hle : before.utf8ByteSize ≤ (before ++ part).utf8ByteSize := by
    rw [String.utf8ByteSize_append]
    omega
  rw [slice?, if_pos hle, hlength, utf8ByteSize_eq, utf8ByteSize_eq, String.toList_append,
    String.toList_append, List.append_assoc, dropBytes?_append, Option.bind_some, takeBytes?_append,
    Option.map_some, String.ofList_toList]

/-- There is a part of a text between two positions. -/
def HasSlice (text : String) (start stop : Nat) : Prop :=
  ∃ before part behind, text = before ++ part ++ behind ∧ start = before.utf8ByteSize ∧
    stop = (before ++ part).utf8ByteSize

/-- Such a part can be taken out. -/
theorem HasSlice.slice (h : HasSlice text start stop) : ∃ part, slice text start stop = .ok part := by
  obtain ⟨before, part, behind, rfl, rfl, rfl⟩ := h
  exact ⟨part, by rw [Text.slice, slice?_append]⟩

/-- Text behind it does not change a part. -/
theorem HasSlice.append (h : HasSlice text start stop) (more : String) :
    HasSlice (text ++ more) start stop := by
  obtain ⟨before, part, behind, rfl, rfl, rfl⟩ := h
  exact ⟨before, part, behind ++ more, by rw [String.append_assoc], rfl, rfl⟩

/-- From where a part begins there is one up to the end of the text. -/
theorem HasSlice.toEnd (h : HasSlice text start stop) : HasSlice text start text.utf8ByteSize := by
  obtain ⟨before, part, behind, rfl, rfl, rfl⟩ := h
  exact ⟨before, part ++ behind, "", by rw [String.append_empty, String.append_assoc], rfl, by
    rw [String.append_assoc]⟩

/-- What is written behind a text is a part of the whole. -/
theorem hasSlice_behind (text more : String) :
    HasSlice (text ++ more) text.utf8ByteSize (text ++ more).utf8ByteSize :=
  ⟨text, more, "", by rw [String.append_empty], rfl, rfl⟩

/-- The empty part at the end of a text. -/
theorem hasSlice_end (text : String) : HasSlice text text.utf8ByteSize text.utf8ByteSize :=
  ⟨text, "", "", by rw [String.append_empty, String.append_empty], rfl, by rw [String.append_empty]⟩

/-- The empty part at its beginning. -/
theorem hasSlice_zero (text : String) : HasSlice text 0 0 :=
  ⟨"", "", text, by rw [String.append_empty, String.empty_append], rfl, rfl⟩

end Text

/-! ### Labels of a forest that changes -/

namespace Forest

variable {forest after : Forest} {label : Label} {parent : Option Nat} {id above stop i : Nat}

/-- Moving the end of a span changes one label. -/
theorem node?_setStop (forest : Forest) (id stop i : Nat) :
    (forest.setStop id stop).node? i =
      if i = id then (forest.node? i).map fun node => { node with label := { node.label with stop } }
      else forest.node? i := by
  unfold setStop
  cases hnode : forest.node? id with
  | none =>
    by_cases hi : i = id
    · subst hi
      simp [hnode]
    · simp [hi]
  | some node =>
    have hlt : id < forest.nodes.size := (Array.getElem?_eq_some_iff.mp hnode).1
    by_cases hi : i = id
    · subst hi
      simp only [if_pos, hnode, Option.map_some]
      simp [node?, hlt]
    · simp [node?, hi, Ne.symm hi]

/-- No label changes but in the end of its span. -/
theorem label_setStop (forest : Forest) (id stop i : Nat) :
    (forest.setStop id stop).label i = forest.label i ∨
      (forest.setStop id stop).label i = { forest.label i with stop } := by
  rw [label_eq, node?_setStop, label_eq]
  split
  · cases forest.node? i with
    | none => exact .inl rfl
    | some node => exact .inr rfl
  · exact .inl rfl

/-- Moving the end of a span leaves the children of all nodes. -/
theorem childList_setStop (forest : Forest) (id stop i : Nat) :
    (forest.setStop id stop).childList i = forest.childList i := by
  unfold childList children?
  rw [node?_setStop]
  split
  · cases forest.node? i <;> rfl
  · rfl

/-- Moving the end of a span adds no node. -/
theorem size_setStop (forest : Forest) (id stop : Nat) : (forest.setStop id stop).size = forest.size := by
  unfold setStop
  cases forest.node? id with
  | none => rfl
  | some node => simp [size]

/-- Forests with the same nodes are the same. -/
theorem eq_of_node?_eq {other : Forest} (h : ∀ i, forest.node? i = other.node? i) : forest = other :=
  congrArg Forest.mk (Array.ext_getElem? h)

/-- A node can be added below every node that is there. -/
theorem exists_add (label : Label) (hparent : ∀ above, parent = some above → above < forest.size) :
    ∃ after, forest.add label parent = .ok (after, forest.size) := by
  unfold add
  cases parent with
  | none => exact ⟨_, rfl⟩
  | some above =>
    have habove : above < forest.nodes.size := hparent above rfl
    have hnode : forest.node? above = some forest.nodes[above] := Array.getElem?_eq_getElem habove
    dsimp only
    rw [hnode]
    exact ⟨_, rfl⟩

/-- **Moving the end of a span leaves a forest grown.** It might have been added with the label that it
    has now. -/
theorem Grown.setStop (grown : forest.Grown) (id stop : Nat) : (forest.setStop id stop).Grown := by
  induction grown with
  | empty =>
    rw [show Forest.setStop {} id stop = {} from eq_of_node?_eq fun i => by
      rw [node?_setStop]
      split <;> rfl]
    exact .empty
  | @add forest after label parent new grown added ih =>
    obtain ⟨rfl, -, hlt⟩ := id_of_add added
    by_cases hnew : id = forest.size
    · -- The node that was added last is added with its new end.
      subst hnew
      obtain ⟨moved, hmoved⟩ := exists_add { label with stop } hlt
      rw [show after.setStop forest.size stop = moved from eq_of_node?_eq fun i => by
        rw [node?_setStop, node?_add added, node?_add hmoved]
        by_cases hi : i = forest.size <;> simp [hi]]
      exact grown.add hmoved
    · -- A node that was there before had its new end when the last one was added.
      have hsize := size_setStop forest id stop
      obtain ⟨moved, hmoved⟩ := exists_add label (hsize ▸ hlt)
      rw [show after.setStop id stop = moved from eq_of_node?_eq fun i => by
        rw [node?_setStop, node?_add added, node?_add hmoved]
        simp only [hsize, node?_setStop, childList_setStop]
        by_cases hi : i = forest.size
        · simp [hi, Ne.symm hnew]
        · by_cases hid : i = id
          · subst hid
            by_cases hp : parent = some i <;> cases forest.node? i <;> simp [hi, hp]
          · simp [hi, hid]]
      exact ih.add hmoved

end Forest

/-! ### Building -/

/-- A grown forest whose spans are parts of a text. -/
structure Forest.Spans (forest : Forest) (text : String) : Prop where
  grown : forest.Grown
  slices : ∀ id, Text.HasSlice text (forest.label id).start (forest.label id).stop

namespace Forest

variable {forest after : Forest} {text : String} {label : Label} {parent : Option Nat} {id : Nat}

/-- A forest without nodes has no spans but those of unknown numbers, which are empty. -/
theorem spans_empty (text : String) : Spans {} text :=
  ⟨.empty, fun _ => Text.hasSlice_zero text⟩

/-- Text that is written behind leaves all spans parts of the text. -/
theorem Spans.append (spans : forest.Spans text) (more : String) : forest.Spans (text ++ more) :=
  ⟨spans.grown, fun id => (spans.slices id).append more⟩

/-- A node whose span is a part of the text leaves all spans parts of it. -/
theorem Spans.add (spans : forest.Spans text) (slice : Text.HasSlice text label.start label.stop)
    (added : forest.add label parent = .ok (after, id)) : after.Spans text := by
  refine ⟨spans.grown.add added, fun i => ?_⟩
  rw [label_add added i]
  split
  · exact slice
  · exact spans.slices i

/-- The end of a span can be moved to the end of the text. -/
theorem Spans.setStop (spans : forest.Spans text) (id : Nat) :
    (forest.setStop id text.utf8ByteSize).Spans text := by
  refine ⟨spans.grown.setStop _ _, fun i => ?_⟩
  obtain h | h := label_setStop forest id text.utf8ByteSize i <;> rw [h]
  · exact spans.slices i
  · exact (spans.slices i).toEnd

end Forest

namespace Builder

variable {builder : Builder} {label : Label}

/-- The spans of the nodes so far are parts of the text so far. -/
def Sound (builder : Builder) : Prop := builder.forest.Spans builder.text

/-- Nothing is built yet. -/
theorem sound_new : Sound {} := Forest.spans_empty ""

/-- Writing text is sound. -/
theorem Sound.write (sound : builder.Sound) (text : String) : (builder.write text).Sound :=
  Forest.Spans.append sound text

/-- A node that is attached has a span of the text so far; one that is not changes nothing. -/
theorem Sound.attach (sound : builder.Sound)
    (slice : Text.HasSlice builder.text label.start label.stop) : (builder.attach label).1.Sound := by
  unfold Builder.attach
  split
  · exact sound
  · split
    · next added => exact Forest.Spans.add sound slice added
    · exact sound

/-- **Every step keeps the spans parts of the text.** -/
theorem Sound.perform (sound : builder.Sound) (step : Step) : (builder.perform step).Sound := by
  have hleaf : ∀ name text, (builder.addLeaf name text).Sound := fun name text =>
    (sound.write text).attach (Text.hasSlice_behind builder.text text)
  cases step with
  | start name =>
    have hattached : (builder.attach ⟨name, builder.length, builder.length⟩).1.Sound :=
      sound.attach (Text.hasSlice_end builder.text)
    show (builder.startNode name).Sound
    -- Only the list of unfinished nodes depends on whether the node was added.
    unfold startNode
    rcases hresult : builder.attach ⟨name, builder.length, builder.length⟩ with ⟨after, _ | id⟩ <;>
      rw [hresult] at hattached <;> exact hattached
  | finish =>
    unfold Builder.perform finishNode
    dsimp only
    split
    · exact sound
    · exact Forest.Spans.setStop sound _
  | leaf name text => exact hleaf name text
  | token text => exact hleaf text text
  | gap text => exact sound.write text

/-- **Every run is sound**, mistakes or not. -/
theorem sound_run (steps : List Step) : (run {} steps).Sound := by
  have hrun : ∀ builder : Builder, builder.Sound → (builder.run steps).Sound := by
    induction steps with
    | nil => exact fun _ sound => sound
    | cons step rest ih => exact fun builder sound => ih (builder.perform step) (sound.perform step)
  exact hrun {} sound_new

/-- A document takes over the nodes and the text of its builder. -/
theorem of_build {document : Document} (h : builder.build = .ok document) :
    document.forest = builder.forest ∧ document.text = builder.text := by
  unfold build at h
  split at h
  · cases h
  · cases h
  · cases h
  · unfold Document.ofForest at h
    split at h
    · obtain rfl := Except.ok.inj h
      exact ⟨rfl, rfl⟩
    · cases h

end Builder

/-- **The forest of a built document is grown, and every span is a part of the text.** -/
theorem Document.spans_ofSteps {steps : List Step} {document : Document}
    (built : ofSteps steps = .ok document) : document.forest.Spans document.text := by
  obtain ⟨hforest, htext⟩ := Builder.of_build built
  rw [hforest, htext]
  exact Builder.sound_run steps

end BoxTree
