import BoxTree.Output.Encoding
import BoxTree.Sgr.Screen
import Mathlib

namespace BoxTree

/-!
# A terminal obeys what it is sent

The parameters of a sequence can be read back from its characters, so a terminal that is sent a
sequence obeys exactly these parameters, and text without escape characters is shown as it is.

* `Text.splitOn_eq_cons` — the pieces of a text make up the text.
* `Sgr.readParams?_join` — reading the characters of parameters gives the parameters.
* `Sgr.readSequence?_sequenceChars` — a sequence is read back, whatever stands behind it.
* `Sgr.Screen.run_sequence`, `Sgr.Screen.run_plain` — what a sequence and a text do to a screen.
* `active_terminalParams` — the parameters for a pen bring a screen up to date.
-/

/-! ### Pieces of a text -/

namespace Text

variable {separator : Char}

/-- A text has at least one piece. -/
theorem exists_splitOn (separator : Char) (cs : List Char) :
    ∃ piece rest, splitOn separator cs = piece :: rest := List.exists_cons_of_ne_nil (splitOn_ne_nil cs)

/-- A text without separators is its only piece. -/
theorem splitOn_of_not_mem {cs : List Char} (h : separator ∉ cs) : splitOn separator cs = [cs] := by
  induction cs with
  | nil => rfl
  | cons c cs ih =>
    obtain ⟨hc, hcs⟩ := not_or.mp (List.mem_cons.not.mp h)
    rw [splitOn, if_neg (Ne.symm hc), ih hcs]

/-- A piece without separators ends at the first separator. -/
theorem splitOn_append_cons {piece : List Char} (h : separator ∉ piece) (cs : List Char) :
    splitOn separator (piece ++ separator :: cs) = piece :: splitOn separator cs := by
  induction piece with
  | nil => rw [List.nil_append, splitOn, if_pos rfl]
  | cons c piece ih =>
    obtain ⟨hc, hpiece⟩ := not_or.mp (List.mem_cons.not.mp h)
    rw [List.cons_append, splitOn, if_neg (Ne.symm hc), ih hpiece]

/-- The pieces, with a separator before each but the first, make up the text, and no separator is
    inside of a piece. -/
theorem splitOn_eq_cons {cs piece : List Char} {rest : List (List Char)}
    (h : splitOn separator cs = piece :: rest) :
    cs = piece ++ rest.flatMap (separator :: ·) ∧ separator ∉ piece ∧
      ∀ other ∈ rest, separator ∉ other := by
  induction cs generalizing piece rest with
  | nil =>
    obtain ⟨rfl, rfl⟩ := List.cons_eq_cons.mp h
    simp
  | cons c cs ih =>
    rw [splitOn] at h
    obtain ⟨first, others, hrest⟩ := exists_splitOn separator cs
    obtain ⟨hcs, hfirst, hothers⟩ := ih hrest
    rw [hrest] at h
    by_cases hc : c = separator
    · rw [if_pos hc] at h
      obtain ⟨rfl, rfl⟩ := List.cons_eq_cons.mp h
      refine ⟨?_, by simp, ?_⟩
      · rw [hc, List.flatMap_cons, List.nil_append, List.cons_append, ← hcs]
      · exact List.forall_mem_cons.mpr ⟨hfirst, hothers⟩
    · rw [if_neg hc] at h
      obtain ⟨rfl, rfl⟩ := List.cons_eq_cons.mp h
      exact ⟨by rw [List.cons_append, ← hcs],
        List.mem_cons.not.mpr (not_or.mpr ⟨Ne.symm hc, hfirst⟩), hothers⟩

/-- No piece has other characters than the text, and none has a separator in it. -/
theorem mem_splitOn {cs piece : List Char} (h : piece ∈ splitOn separator cs) :
    piece ⊆ cs ∧ separator ∉ piece := by
  obtain ⟨first, rest, hsplit⟩ := exists_splitOn separator cs
  obtain ⟨hcs, hfirst, hrest⟩ := splitOn_eq_cons hsplit
  rw [hsplit] at h
  rw [hcs]
  obtain rfl | hmem := List.mem_cons.mp h
  · exact ⟨List.subset_append_left _ _, hfirst⟩
  · refine ⟨fun c hc => ?_, hrest piece hmem⟩
    exact List.mem_append_right _
      (List.mem_flatMap.mpr ⟨piece, hmem, List.mem_cons_of_mem separator hc⟩)

end Text

namespace Sgr

/-! ### Numbers -/

/-- Digits are read as a number in base ten, from the value read so far. -/
theorem readDigits?_eq {digits : List Char} (h : ∀ c ∈ digits, c.isDigit = true) (value : Nat) :
    readDigits? value digits = some (Nat.ofDigitChars 10 digits value) := by
  induction digits generalizing value with
  | nil => rfl
  | cons c cs ih =>
    rw [readDigits?, if_pos (h c (List.mem_cons_self ..)),
      ih fun d hd => h d (List.mem_cons_of_mem c hd), Nat.ofDigitChars_cons]

/-- A byte is written in digits. -/
theorem isDigit_of_mem_byteChars {n : UInt8} {c : Char} (h : c ∈ byteChars n) : c.isDigit = true :=
  Nat.isDigit_of_mem_toDigits (by decide) (by decide) h

/-- A byte is read back from its digits. -/
theorem readByte?_byteChars (n : UInt8) : readByte? (byteChars n) = some n := by
  have hdigits : readDigits? 0 (byteChars n) = some n.toNat := by
    rw [readDigits?_eq fun c => isDigit_of_mem_byteChars, byteChars, Nat.ofDigitChars_ten_toDigits]
  have hlt : n.toNat < 256 := n.toNat_lt
  obtain ⟨c, cs, hne⟩ := List.exists_cons_of_ne_nil (Nat.toDigits_ne_nil : Nat.toDigits 10 n.toNat ≠ [])
  rw [byteChars, hne] at hdigits ⊢
  simp only [readByte?, hdigits, if_pos hlt, UInt8.ofNat_toNat]

/-! ### Parameters -/

/-- The numbers of a parameter as they are read: a reset is an empty one. -/
def Param.fields (param : Param) : List (Option UInt8) :=
  match param.numbers with
  | [] => [none]
  | numbers => numbers.map some

/-- The digits of a number as it is read. -/
def fieldChars : Option UInt8 → List Char
  | none => []
  | some n => byteChars n

/-- A basic colour has a code of its side. -/
def Param.Valid : Param → Prop
  | .basic side code => basicSide? code = some side
  | _ => True

/-- Every parameter is read as one number at least. -/
theorem Param.fields_ne_nil (param : Param) : param.fields ≠ [] := by
  cases param <;> simp [fields, numbers]

/-- A parameter is written as its numbers, with semicolons between them. -/
theorem Param.chars_eq (param : Param) : param.chars = joinSemicolons (param.fields.map fieldChars) := by
  cases param <;> rfl

/-- A number is read back, and an empty place is read as none. -/
theorem readByte?_fieldChars (field : Option UInt8) : readByte? (fieldChars field) = field := by
  cases field with
  | none => rfl
  | some n => exact readByte?_byteChars n

/-- No number has a semicolon in it. -/
theorem semicolon_not_mem_fieldChars (field : Option UInt8) : ';' ∉ fieldChars field := by
  intro h
  cases field with
  | none => simp [fieldChars] at h
  | some n => exact absurd (isDigit_of_mem_byteChars h) (by decide)

/-- A semicolon stands behind a piece that is not the last. -/
theorem joinSemicolons_cons (piece : List Char) {rest : List (List Char)} (h : rest ≠ []) :
    joinSemicolons (piece :: rest) = piece ++ ';' :: joinSemicolons rest := by
  obtain ⟨next, others, rfl⟩ := List.exists_cons_of_ne_nil h
  rfl

/-- A semicolon stands between two runs of pieces. -/
theorem joinSemicolons_append {pieces more : List (List Char)} (hpieces : pieces ≠ [])
    (hmore : more ≠ []) :
    joinSemicolons (pieces ++ more) = joinSemicolons pieces ++ ';' :: joinSemicolons more := by
  induction pieces with
  | nil => exact absurd rfl hpieces
  | cons piece rest ih =>
    by_cases hrest : rest = []
    · rw [hrest]
      exact joinSemicolons_cons piece hmore
    · have happend : rest ++ more ≠ [] := by simp [hrest]
      rw [List.cons_append, joinSemicolons_cons piece happend, ih hrest,
        joinSemicolons_cons piece hrest, List.append_assoc, List.cons_append]

/-- Joining joined pieces is joining all of them. -/
theorem joinSemicolons_flatMap {α : Type} {pieces : α → List (List Char)}
    (hpieces : ∀ a, pieces a ≠ []) (as : List α) :
    joinSemicolons (as.map fun a => joinSemicolons (pieces a)) = joinSemicolons (as.flatMap pieces) := by
  induction as with
  | nil => rfl
  | cons a rest ih =>
    by_cases hrest : rest = []
    · simp [hrest, joinSemicolons]
    · obtain ⟨b, others, rfl⟩ := List.exists_cons_of_ne_nil hrest
      have hmore : (b :: others).flatMap pieces ≠ [] := by simp [hpieces b]
      have hall : (a :: b :: others).flatMap pieces = pieces a ++ (b :: others).flatMap pieces :=
        List.flatMap_cons
      rw [List.map_cons, joinSemicolons_cons _ (by simp), ih, hall,
        joinSemicolons_append (hpieces a) hmore]

/-- **Pieces without semicolons are got back** by splitting at the semicolons. -/
theorem splitOn_joinSemicolons {pieces : List (List Char)} (hpieces : pieces ≠ [])
    (h : ∀ piece ∈ pieces, ';' ∉ piece) : Text.splitOn ';' (joinSemicolons pieces) = pieces := by
  induction pieces with
  | nil => exact absurd rfl hpieces
  | cons piece rest ih =>
    obtain ⟨hpiece, hrest⟩ := List.forall_mem_cons.mp h
    by_cases hnil : rest = []
    · rw [hnil]
      exact Text.splitOn_of_not_mem hpiece
    · rw [joinSemicolons_cons piece hnil, Text.splitOn_append_cons hpiece, ih hnil hrest]

/-! ### Reading parameters -/

/-- The code that opens an extended colour names its side. -/
theorem extendedSide?_extendedCode (side : Side) : extendedSide? (extendedCode side) = some side := by
  cases side <;> rfl

/-- The code of a default stands alone and is read back. -/
theorem singleParam?_defaultCode (side : Side) :
    extendedSide? (defaultCode side) = none ∧ singleParam? (defaultCode side) = some (.default side) := by
  cases side <;> exact ⟨rfl, rfl⟩

/-- The code of a basic colour means nothing else. -/
theorem singleParam?_of_basicSide? {side : Side} {code : UInt8} (h : basicSide? code = some side) :
    extendedSide? code = none ∧ singleParam? code = some (.basic side code) := by
  -- A code of a side is none of the codes that have no side.
  have hne : ∀ other : UInt8, basicSide? other = none → code ≠ other := by
    intro other hother hcode
    rw [hcode, hother] at h
    cases h
  constructor
  · rw [extendedSide?, if_neg (hne _ (by decide)), if_neg (hne _ (by decide))]
  · rw [singleParam?, if_neg (hne _ (by decide)), if_neg (hne _ (by decide)),
      if_neg (hne _ (by decide)), h, Option.map_some]

/-- A code that stands alone is read before what is behind it. -/
theorem paramsOf?_single {code : UInt8} {param : Param} {fields : List (Option UInt8)}
    {params : List Param} (hextended : extendedSide? code = none)
    (hsingle : singleParam? code = some param) (hread : paramsOf? fields = some params) :
    paramsOf? (some code :: fields) = some (param :: params) := by
  rw [paramsOf?.eq_def]
  simp only [hextended, hsingle, hread]

/-- Parameters are read back from their numbers. -/
theorem paramsOf?_fields {params : List Param} (valid : ∀ param ∈ params, param.Valid) :
    paramsOf? (params.flatMap Param.fields) = some params := by
  induction params with
  | nil => rfl
  | cons param rest ih =>
    obtain ⟨hvalid, hrest⟩ := List.forall_mem_cons.mp valid
    have hread := ih hrest
    rw [List.flatMap_cons]
    cases param with
    | reset =>
      show (paramsOf? (rest.flatMap Param.fields)).map _ = _
      rw [hread, Option.map_some]
    | basic side code =>
      obtain ⟨hextended, hsingle⟩ := singleParam?_of_basicSide? hvalid
      exact paramsOf?_single hextended hsingle hread
    | indexed side entry =>
      show paramsOf? (some (extendedCode side) :: some 5 :: some entry :: rest.flatMap Param.fields) = _
      rw [paramsOf?.eq_def]
      simp only [extendedSide?_extendedCode, if_pos, hread, Option.map_some]
    | direct side rgb =>
      -- The two kinds of extended colours are told apart by their second number.
      have hkind : (2 : UInt8) ≠ 5 := by decide
      show paramsOf? (some (extendedCode side) :: some 2 :: some rgb.red :: some rgb.green ::
        some rgb.blue :: rest.flatMap Param.fields) = _
      rw [paramsOf?.eq_def]
      simp only [extendedSide?_extendedCode, if_neg hkind, if_pos, hread, Option.map_some]
    | default side =>
      obtain ⟨hextended, hsingle⟩ := singleParam?_defaultCode side
      exact paramsOf?_single hextended hsingle hread

/-- **Reading the characters of parameters gives the parameters.** -/
theorem readParams?_join {params : List Param} (hparams : params ≠ [])
    (valid : ∀ param ∈ params, param.Valid) :
    readParams? (joinSemicolons (params.map Param.chars)) = some params := by
  have hfields : params.flatMap Param.fields ≠ [] := by
    obtain ⟨param, rest, rfl⟩ := List.exists_cons_of_ne_nil hparams
    simp [param.fields_ne_nil]
  have hchars : joinSemicolons (params.map Param.chars) =
      joinSemicolons ((params.flatMap Param.fields).map fieldChars) := by
    have hne : ∀ param : Param, param.fields.map fieldChars ≠ [] := by simp [Param.fields_ne_nil]
    rw [List.map_flatMap, ← joinSemicolons_flatMap hne]
    exact congrArg joinSemicolons (List.map_congr_left fun param _ => param.chars_eq)
  -- Digits are no semicolons, so the fields come apart where they were joined.
  have hsplit : ∀ piece ∈ (params.flatMap Param.fields).map fieldChars, ';' ∉ piece := by
    intro piece hpiece
    obtain ⟨field, -, rfl⟩ := List.mem_map.mp hpiece
    exact semicolon_not_mem_fieldChars field
  have hread : ∀ fields : List (Option UInt8), (fields.map fieldChars).map readByte? = fields := by
    intro fields
    have hid : readByte? ∘ fieldChars = id := funext readByte?_fieldChars
    rw [List.map_map, hid, List.map_id]
  rw [readParams?, hchars, splitOn_joinSemicolons (by simpa using hfields) hsplit, hread,
    paramsOf?_fields valid]

/-! ### Screens -/

namespace Screen

variable {screen : Screen}

/-- The active colour of a side. -/
def active (screen : Screen) : Side → Option Color
  | .foreground => screen.foreground
  | .background => screen.background

/-- Painting a side changes no other. -/
theorem active_paint (screen : Screen) (color : Option Color) (side other : Side) :
    (screen.paint color side).active other = if other = side then color else screen.active other := by
  cases side <;> cases other <;> rfl

theorem apply_default (screen : Screen) (side : Side) :
    screen.apply (.default side) = screen.paint none side := rfl

/-- A reset gives both sides back. -/
theorem active_reset (screen : Screen) (side : Side) : (screen.apply .reset).active side = none := by
  cases side <;> rfl

/-- Text without escape characters is shown in the active colours. -/
theorem run_plain {cs : List Char} (hground : screen.mode = .ground) (h : '\x1b' ∉ cs) :
    screen.run cs =
      { screen with
        cells := screen.cells ++ cs.map fun c => ⟨c, screen.foreground, screen.background⟩ } := by
  induction cs generalizing screen with
  | nil => simp
  | cons c cs ih =>
    obtain ⟨hc, hcs⟩ := not_or.mp (List.mem_cons.not.mp h)
    have hstep : screen.step c = screen.put c := by
      unfold step
      simp only [hground, if_neg (Ne.symm hc)]
    have hput : (screen.put c).mode = .ground := hground
    rw [run_cons, hstep, ih hput hcs]
    simp [put]

/-- The characters of parameters are collected. -/
theorem run_params {body cs : List Char} (hmode : screen.mode = .params body)
    (h : ∀ c ∈ cs, isParamChar c = true) : screen.run cs = { screen with mode := .params (body ++ cs) } := by
  induction cs generalizing screen body with
  | nil =>
    rw [run_nil, List.append_nil, ← hmode]
  | cons c cs ih =>
    obtain ⟨hc, hcs⟩ := List.forall_mem_cons.mp h
    have hstep : screen.step c = { screen with mode := .params (body ++ [c]) } := by
      unfold step
      simp only [hmode, if_pos hc]
    rw [run_cons, hstep, ih rfl hcs, List.append_assoc, List.singleton_append]

/-- Pieces of digits stay that, joined by semicolons. -/
theorem isParamChar_of_mem_joinSemicolons {pieces : List (List Char)}
    (h : ∀ piece ∈ pieces, ∀ c ∈ piece, isParamChar c = true) :
    ∀ c ∈ joinSemicolons pieces, isParamChar c = true := by
  induction pieces with
  | nil => simp [joinSemicolons]
  | cons piece rest ih =>
    obtain ⟨hpiece, hrest⟩ := List.forall_mem_cons.mp h
    intro c hc
    by_cases hnil : rest = []
    · rw [hnil] at hc
      exact hpiece c hc
    · rw [joinSemicolons_cons piece hnil, List.mem_append, List.mem_cons] at hc
      obtain hc | rfl | hc := hc
      · exact hpiece c hc
      · rfl
      · exact ih hrest c hc

/-- A parameter is written in digits and semicolons. -/
theorem isParamChar_of_mem_chars {param : Param} : ∀ c ∈ param.chars, isParamChar c = true := by
  refine isParamChar_of_mem_joinSemicolons fun piece hpiece c hc => ?_
  obtain ⟨n, -, rfl⟩ := List.mem_map.mp hpiece
  rw [isParamChar, isDigit_of_mem_byteChars hc, Bool.true_or]

/-- Parameters are written in digits and semicolons, so that none of them closes the sequence. -/
theorem isParamChar_of_mem_body {params : List Param} :
    ∀ c ∈ joinSemicolons (params.map Param.chars), isParamChar c = true := by
  refine isParamChar_of_mem_joinSemicolons fun piece hpiece => ?_
  obtain ⟨param, -, rfl⟩ := List.mem_map.mp hpiece
  exact isParamChar_of_mem_chars

/-- Parameters change the active colours only. -/
theorem foldl_apply_kept (params : List Param) (screen : Screen) :
    (params.foldl apply screen).mode = screen.mode ∧
      (params.foldl apply screen).cells = screen.cells := by
  induction params generalizing screen with
  | nil => exact ⟨rfl, rfl⟩
  | cons param rest ih =>
    have hparam : (screen.apply param).mode = screen.mode ∧
        (screen.apply param).cells = screen.cells := by
      cases param with
      | reset => exact ⟨rfl, rfl⟩
      | basic side _ | indexed side _ | direct side _ | default side =>
        cases side <;> exact ⟨rfl, rfl⟩
    rw [List.foldl_cons, (ih _).1, (ih _).2]
    exact hparam

/-- The active colours after parameters do not depend on where the screen is in a sequence. -/
theorem foldl_apply_mode (params : List Param) (screen : Screen) (mode : Mode) :
    { params.foldl apply screen with mode } = params.foldl apply { screen with mode } := by
  induction params generalizing screen with
  | nil => rfl
  | cons param rest ih =>
    have hparam : { screen.apply param with mode } = { screen with mode }.apply param := by
      cases param with
      | reset => rfl
      | basic side _ | indexed side _ | direct side _ | default side => cases side <;> rfl
    rw [List.foldl_cons, List.foldl_cons, ih, hparam]

/-- **A screen obeys the parameters of a sequence.** -/
theorem run_sequence {params : List Param} (hground : screen.mode = .ground) (hparams : params ≠ [])
    (valid : ∀ param ∈ params, param.Valid) :
    screen.run (sequenceChars params) = params.foldl apply screen := by
  -- The introducer starts the collecting of parameters, the final `m` ends it.
  have hopen : (screen.step '\x1b').step '[' = { screen with mode := .params [] } := by
    unfold step
    simp [hground]
  have hclose : isParamChar 'm' = false := by decide
  rw [sequenceChars, run_cons, run_cons, hopen, run_append, run_params rfl isParamChar_of_mem_body,
    List.nil_append, run_cons, run_nil]
  unfold step obey
  simp only [hclose, readParams?_join hparams valid, foldl_apply_mode, ← hground, if_pos]
  rfl

/-- A reset restores both sides. -/
theorem run_resetSequence (hground : screen.mode = .ground) :
    screen.run resetSequence.toList = screen.apply .reset := by
  have hvalid : ∀ param ∈ [Param.reset], param.Valid := fun param h => by
    obtain rfl := List.mem_singleton.mp h
    trivial
  rw [resetSequence, sequence, String.toList_ofList, run_sequence hground (by simp) hvalid]
  rfl

end Screen

/-- A sequence is read back from its characters, whatever stands behind it. -/
theorem readSequence?_sequenceChars {params : List Param} (hparams : params ≠ [])
    (valid : ∀ param ∈ params, param.Valid) (rest : List Char) :
    readSequence? (sequenceChars params ++ rest) = some (params, rest) := by
  have hbody : ∀ c ∈ joinSemicolons (params.map Param.chars), isParamChar c = true :=
    Screen.isParamChar_of_mem_body
  have hsplit : sequenceChars params ++ rest =
      '\x1b' :: '[' :: (joinSemicolons (params.map Param.chars) ++ 'm' :: rest) := by
    simp [sequenceChars]
  have hclose : isParamChar 'm' = false := by decide
  rw [hsplit, readSequence?, List.dropWhile_append_of_pos hbody, List.takeWhile_append_of_pos hbody,
    List.dropWhile_cons_of_neg (by simp [hclose]), List.takeWhile_cons_of_neg (by simp [hclose]),
    List.append_nil, readParams?_join hparams valid]
  rfl

end Sgr

/-! ### The parameters for a pen -/

open Sgr

/-- The code of a basic colour names its side. -/
theorem basicSide?_basicCode (side : Side) (entry : Fin 16) :
    basicSide? (basicCode side entry) = some side := by
  cases side <;> decide +revert

/-- The code of a basic colour names its entry. -/
theorem basicEntry_basicCode (side : Side) (entry : Fin 16) :
    basicEntry side (basicCode side entry) = entry := by
  cases side <;> decide +revert

/-- Every colour has a parameter that is read back. -/
theorem valid_colorParam (side : Side) (color : Color) : (colorParam side color).Valid := by
  cases color with
  | basic entry => exact basicSide?_basicCode side entry
  | indexed entry => trivial
  | direct rgb => trivial

/-- A screen that is told a colour shows that colour. -/
theorem apply_colorParam (screen : Screen) (side : Side) (color : Color) :
    screen.apply (colorParam side color) = screen.paint (some color) side := by
  cases color with
  | basic entry =>
    show screen.paint (some (.basic (basicEntry side (basicCode side entry)))) side = _
    rw [basicEntry_basicCode]
  | indexed entry => rfl
  | direct rgb => rfl

/-- The parameters for a pen are its colours, defaults, or the reset if it has no colours. -/
theorem mem_terminalParams {support : Support} {pen : Pen} {param : Param}
    (h : param ∈ terminalParams support pen) :
    (∃ side color, param = colorParam side (support.fit color)) ∨ (∃ side, param = .default side) ∨
      param = .reset ∧ pen.foreground.color = none ∧ pen.background.color = none := by
  have hselected : ∀ side ink, param ∈ selectedParam support side ink →
      ∃ side color, param = colorParam side (support.fit color) := by
    intro side ink hparam
    unfold selectedParam at hparam
    split at hparam
    · split at hparam
      · exact ⟨side, _, List.mem_singleton.mp hparam⟩
      · cases hparam
    · cases hparam
  have hreleased : ∀ side ink, param ∈ releasedParam side ink → ∃ side, param = .default side := by
    intro side ink hparam
    unfold releasedParam at hparam
    split at hparam
    · cases hparam
    · split at hparam
      · exact ⟨side, List.mem_singleton.mp hparam⟩
      · cases hparam
  unfold terminalParams at h
  obtain (h | h) | h := by simpa only [List.mem_append] using h
  · exact .inl (hselected _ _ h)
  · exact .inl (hselected _ _ h)
  · split at h
    · next hnone =>
      rw [Bool.and_eq_true, Option.isNone_iff_eq_none, Option.isNone_iff_eq_none] at hnone
      exact .inr (.inr ⟨List.mem_singleton.mp h, hnone⟩)
    · exact .inr (.inl ((List.mem_append.mp h).elim (hreleased _ _) (hreleased _ _)))

/-- All parameters for a pen are read back. -/
theorem valid_terminalParams (support : Support) (pen : Pen) :
    ∀ param ∈ terminalParams support pen, param.Valid := by
  intro param hparam
  obtain ⟨side, color, rfl⟩ | ⟨side, rfl⟩ | ⟨rfl, -⟩ := mem_terminalParams hparam
  · exact valid_colorParam side _
  · trivial
  · trivial

/-- A pen that is pending has something to tell. -/
theorem terminalParams_ne_nil {support : Support} {pen : Pen} (h : pen.isPending = true) :
    terminalParams support pen ≠ [] := by
  obtain ⟨⟨_ | fg, _ | _⟩, ⟨_ | bg, _ | _⟩⟩ := pen <;>
    simp_all [terminalParams, selectedParam, releasedParam, Pen.isPending]

/-- The sides of a screen that a pen takes to be up to date are. -/
def Settled (support : Support) (screen : Screen) (pen : Pen) : Prop :=
  ∀ side, (pen.ink side).pending = false → screen.active side = (pen.ink side).color.map support.fit

/-- **The parameters for a pen bring a screen up to date.** -/
theorem active_terminalParams {support : Support} {screen : Screen} {pen : Pen}
    (settled : Settled support screen pen) (side : Side) :
    ((terminalParams support pen).foldl Screen.apply screen).active side =
      (pen.ink side).color.map support.fit := by
  -- Each side has a colour or none, and is pending or not.
  have hfg := settled .foreground
  have hbg := settled .background
  obtain ⟨⟨_ | fg, _ | _⟩, ⟨_ | bg, _ | _⟩⟩ := pen <;> cases side <;>
    simp_all [terminalParams, selectedParam, releasedParam, apply_colorParam, Screen.apply_default,
      Screen.active_paint, Screen.active_reset, Pen.ink]

end BoxTree
