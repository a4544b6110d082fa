import BoxTree.Output.Directives
import BoxTree.Proofs.SgrReading
import BoxTree.Sgr.Range

namespace BoxTree.Sgr

/-!
# Sequences are told apart

The numbers of all parameters of a sequence stand in one row, with nothing between two parameters but what is
between two numbers. Still, where a parameter ends can be read from its first number or two, as long as the
codes of basic colours do not announce anything else. The final `m` tells where the sequence ends.

* `sequencesIn_append`, `sequencesIn_sequenceChars` — the sequences of a text, piece by piece.
* `Param.valid_iff_inRange` — the codes that mean basic colours.
* `sequence_append_inj` — a sequence and what stands behind it come apart in one way.
* `join_sequence_inj` — so does a text of several sequences.
* `sequences_are_uniquely_decodable` — reading finds what was written.
-/

/-! ### Sequences in a text -/

/-- Text without escape characters has no sequences. -/
theorem sequencesIn_append {cs : List Char} (h : '\x1b' ∉ cs) (rest : List Char) :
    sequencesIn (cs ++ rest) = sequencesIn rest := by
  induction cs with
  | nil => rfl
  | cons c cs ih =>
    rw [List.mem_cons, not_or] at h
    have hnone : readSequence? (c :: (cs ++ rest)) = none := by
      unfold readSequence?
      split
      · next heq => exact absurd (List.cons.inj heq).1.symm h.1
      · rfl
    rw [List.cons_append, sequencesIn, hnone]
    exact ih h.2

/-- A sequence comes before those behind it. -/
theorem sequencesIn_sequenceChars {params : List Param} (hparams : params ≠ [])
    (valid : ∀ param ∈ params, param.Valid) (rest : List Char) :
    sequencesIn (sequenceChars params ++ rest) = params :: sequencesIn rest := by
  have hread := readSequence?_sequenceChars hparams valid rest
  -- Behind the escape character that it starts with, a sequence has no other.
  have hescape : '\x1b' ∉ '[' :: (joinSemicolons (params.map Param.chars) ++ ['m']) := by
    intro h
    rw [List.mem_cons, List.mem_append, List.mem_singleton] at h
    obtain h | h | h := h
    · exact absurd h (by decide)
    · exact absurd (Screen.isParamChar_of_mem_body _ h) (by decide)
    · exact absurd h (by decide)
  unfold sequenceChars at hread ⊢
  rw [List.cons_append] at hread ⊢
  rw [sequencesIn, hread]
  exact congrArg (params :: ·) (sequencesIn_append hescape rest)

theorem sequencesIn_resetSequence : sequencesIn resetSequence.toList = [[.reset]] := by decide

/-! ### Parameters in range -/

/-- A basic code is read as such if and only if it is in the range of its side. -/
theorem Param.valid_iff_inRange (param : Param) : param.Valid ↔ param.InRange := by
  cases param with
  | reset | indexed | direct | default => exact Iff.rfl
  | basic side code =>
    have apart : InRange (.basic .background code) → ¬ InRange (.basic .foreground code) := by
      simp only [InRange, UInt8.le_iff_toNat_le, UInt8.reduceToNat]
      omega
    show basicSide? code = some side ↔ InRange (.basic side code)
    unfold basicSide?
    split
    · next hforeground =>
      cases side with
      | foreground => exact iff_of_true rfl hforeground
      | background => exact iff_of_false nofun fun hbackground => apart hbackground hforeground
    · next hforeground =>
      split
      · next hbackground =>
        cases side with
        | foreground => exact iff_of_false nofun hforeground
        | background => exact iff_of_true rfl hbackground
      · next hbackground =>
        cases side with
        | foreground => exact iff_of_false nofun hforeground
        | background => exact iff_of_false nofun hbackground

variable {params others : List Param} {more rest : String}

/-- **A sequence is read back**, whatever stands behind it. -/
theorem readSequence?_sequence (wellFormed : WellFormed params) (more : String) :
    readSequence? (sequence params ++ more).toList = some (params, more.toList) := by
  rw [String.toList_append, sequence, String.toList_ofList]
  exact readSequence?_sequenceChars wellFormed.nonempty
    (fun param hparam => param.valid_iff_inRange.mpr (wellFormed.inRange param hparam)) more.toList

/-- **A sequence and what stands behind it** come apart in one way. -/
theorem sequence_append_inj (wellFormed : WellFormed params) (wellFormed' : WellFormed others)
    (h : sequence params ++ more = sequence others ++ rest) : params = others ∧ more = rest := by
  have hread := readSequence?_sequence wellFormed more
  rw [h, readSequence?_sequence wellFormed' rest] at hread
  obtain ⟨hparams, hmore⟩ := Prod.mk.inj (Option.some.inj hread)
  exact ⟨hparams.symm, (String.toList_injective hmore).symm⟩

theorem sequence_append_ne_empty (params : List Param) (more : String) : sequence params ++ more ≠ "" := by
  intro h
  have hchars := congrArg String.toList h
  rw [String.toList_append, sequence, String.toList_ofList] at hchars
  cases hchars

/-- **A text of sequences** comes apart in one way. -/
theorem join_sequence_inj {texts texts' : List (List Param)}
    (wellFormed : ∀ params ∈ texts, WellFormed params) (wellFormed' : ∀ params ∈ texts', WellFormed params)
    (h : String.join (texts.map sequence) = String.join (texts'.map sequence)) : texts = texts' := by
  induction texts generalizing texts' with
  | nil =>
    cases texts' with
    | nil => rfl
    | cons params others =>
      rw [List.map_cons, String.join_cons] at h
      exact absurd h.symm (sequence_append_ne_empty params _)
  | cons params texts ih =>
    obtain ⟨hfirst, hothers⟩ := List.forall_mem_cons.mp wellFormed
    cases texts' with
    | nil =>
      rw [List.map_cons, String.join_cons] at h
      exact absurd h (sequence_append_ne_empty params _)
    | cons params' texts' =>
      obtain ⟨hfirst', hothers'⟩ := List.forall_mem_cons.mp wellFormed'
      rw [List.map_cons, List.map_cons, String.join_cons, String.join_cons] at h
      obtain ⟨rfl, hrest⟩ := sequence_append_inj hfirst hfirst' h
      rw [ih hothers hothers' hrest]

/-- **Sequences are uniquely decodable.** From the text of a sequence of some parameters in range, whatever
    stands behind it, the reader gets exactly these parameters and what stands behind. So no two such lists
    of parameters have the same text, nor do they if something stands behind each of them, nor do two
    different lists of such sequences, written one after the other. -/
theorem sequences_are_uniquely_decodable :
    (∀ (params : List Param) (more : String), params ≠ [] → (∀ param ∈ params, param.InRange) →
      readSequence? (sequence params ++ more).toList = some (params, more.toList)) ∧
      (∀ (params others : List Param) (more rest : String), WellFormed params → WellFormed others →
        sequence params ++ more = sequence others ++ rest → params = others ∧ more = rest) ∧
      Set.InjOn sequence {params | WellFormed params} ∧
      Set.InjOn (fun texts : List (List Param) => String.join (texts.map sequence))
        {texts | ∀ params ∈ texts, WellFormed params} := by
  refine ⟨fun params more nonempty inRange => readSequence?_sequence ⟨nonempty, inRange⟩ more,
    fun params others more rest wellFormed wellFormed' h => sequence_append_inj wellFormed wellFormed' h,
    fun params wellFormed others wellFormed' h => ?_,
    fun texts wellFormed texts' wellFormed' h => join_sequence_inj wellFormed wellFormed' h⟩
  exact (sequence_append_inj wellFormed wellFormed' (congrArg (· ++ "") h)).1

/-- Parameters of all kinds, with digits and an `m` behind the sequence. -/
theorem sequence_of_all_kinds :
    let params : List Param := [.reset, .indexed .foreground 5, .reset, .direct .background ⟨5, 2, 48⟩,
      .basic .background 107, .default .foreground]
    params ≠ [] ∧ (∀ param ∈ params, param.InRange) ∧
      sequence params ++ "39m" = "\x1b[;38;5;5;;48;2;5;2;48;107;39m39m" ∧
      readSequence? "\x1b[;38;5;5;;48;2;5;2;48;107;39m39m".toList = some (params, "39m".toList) := by
  intro params
  have nonempty : params ≠ [] := List.cons_ne_nil _ _
  have inRange : ∀ param ∈ params, param.InRange := by decide
  have htext : sequence params ++ "39m" = "\x1b[;38;5;5;;48;2;5;2;48;107;39m39m" := by decide
  have hread := sequences_are_uniquely_decodable.1 params "39m" nonempty inRange
  rw [htext] at hread
  exact ⟨nonempty, inRange, htext, hread⟩

-- Out of range, a basic colour is written like another parameter; without parameters, like a reset.
example : sequence [.basic .foreground 39] = sequence [.default .foreground] ∧
    sequence [] = sequence [.reset] := by
  decide

end BoxTree.Sgr
