import BoxTree.Proofs.CallsTaken
import BoxTree.Proofs.StreamTexts

namespace BoxTree

/-!
# Renderings without colours

A writer that nobody chose is plain if colours are refused, or if the terminal turns out to have none. Then
the calls of a rendering, in either mode, carry the text of the tree and nothing else, and that text is the
same in all themes and on all platforms.

* `Environment.RulesOutColor` — variables that rule colours out, whatever the others say.
* `Options.Colorless` — a writer that nobody chose gets no colours.
* `render_plain_joined`, `render_plain_each` — the calls of a plain writer.
* `colorless_renderings_agree` — the text and the calls of both modes.
-/

/-! ### Where there are no colours -/

/-- What rules colours out, whatever the other variables say. -/
inductive Environment.RulesOutColor (env : Environment) : Prop where
  | refused (value : String) (set : env.get? "NO_COLOR" = some value) (refuses : value ≠ "0")
  | dumb (set : env.get? "TERM" = some "dumb")
  | redirected (stream : OutputStream.standardOutput ∉ env.terminals)
      (insists : env.get? "IGNORE_IS_TERMINAL" = none ∨ env.get? "IGNORE_IS_TERMINAL" = some "0")

theorem Environment.RulesOutColor.support {env : Environment} (rules : env.RulesOutColor) :
    env.support .standardOutput = .colorless := by
  unfold Environment.support
  rw [if_pos]
  cases rules with
  | refused value set refuses => simp [refusesColor, isOn, set, refuses]
  | dumb set => simp [holds, set]
  | redirected stream insists =>
    have hoff : env.isOn "IGNORE_IS_TERMINAL" = false := by
      rcases insists with h | h <;> simp [isOn, h]
    simp [isTerminal, stream, hoff]

/-- A writer that nobody chose gets no colours: none are wanted, none are known or found on the terminal,
    or the variables rule them out and nothing else is insisted on or remembered. -/
inductive Options.Colorless (options : Options) (settings : Settings) : Prop where
  | refused (colors : options.colors = false)
  | found (platform : options.platformIn settings = .terminal)
      (support : settings.findSupport.1 = .colorless)
  | ruledOut (platform : options.platformIn settings = .terminal)
      (dropped : settings.supportOverride = none) (forgotten : settings.cachedSupport = none)
      (rules : settings.environment.RulesOutColor)

variable {settings : Settings} {options : Options}

/-- What a terminal without colours gets is plain text. -/
theorem Settings.encoding_terminal (support : settings.findSupport.1 = .colorless) (colors : Bool) :
    (settings.encoding .terminal colors).1 = .plain := by
  unfold encoding
  cases colors with
  | false => rfl
  | true =>
    rcases hfound : settings.findSupport with ⟨found, after, events⟩
    rw [hfound] at support
    obtain rfl : found = .colorless := support
    rfl

theorem Options.Colorless.encoding (colorless : options.Colorless settings) :
    (settings.encoding (options.platformIn settings) options.colors).1 = .plain := by
  cases colorless with
  | refused colors =>
    rw [colors]
    rfl
  | found platform support =>
    rw [platform]
    exact Settings.encoding_terminal support _
  | ruledOut platform dropped forgotten rules =>
    have hsupport : settings.findSupport.1 = .colorless := by
      unfold Settings.findSupport
      rw [dropped, forgotten]
      exact rules.support
    rw [platform]
    exact Settings.encoding_terminal hsupport _

/-- Then a rendering begins with a plain writer. -/
theorem Options.Colorless.chosenWriter (colorless : options.Colorless settings)
    (unchosen : options.writer = none) :
    options.chosenWriter settings = { encoding := .plain, surface := options.surface } := by
  unfold Options.chosenWriter Options.writerFor
  rw [unchosen]
  dsimp only
  rw [colorless.encoding]

/-! ### Plain calls -/

/-- Plain calls that carry lines in turn carry their texts. -/
theorem CarryInTurn.eq_plain {lines : List Line} {calls : List Call}
    (carry : CarryInTurn .plain "" [] lines calls) (all : calls.length = lines.length) :
    calls = lines.map fun line => { text := line.plain } := by
  refine List.ext_getElem? fun i => ?_
  cases hcall : calls[i]? with
  | none =>
    have hlines : lines.length ≤ i := all ▸ List.getElem?_eq_none_iff.mp hcall
    rw [List.getElem?_eq_none (by rwa [List.length_map])]
  | some call =>
    obtain ⟨line, hline, hcarries⟩ := carry i call hcall
    rw [ite_self, ite_self] at hcarries
    rw [List.getElem?_map, hline, hcarries.eq_plain, String.empty_append]
    rfl

variable {κ : Type} [Cursor κ] {source : String} {cursor : κ} {lines : List Line}
  {error : Option Error}

/-- In one call, a plain writer hands over the texts of all lines, unless the walk fails. -/
theorem render_plain_joined (options : Options) {surface : Surface} (mode : options.lineByLine = false)
    (plain : options.chosenWriter settings = { encoding := .plain, surface }) (unbounded : surface.room = none)
    (yields : (walk settings options source cursor).Yields (Report.entries (lines, error))) :
    let result := render settings options source cursor
    result.error = error ∧ result.writer.surface.calls = surface.calls ++
      error.elim [{ text := String.intercalate "\n" (lines.map Line.plain) }] fun _ => [] := by
  intro result
  cases error with
  | some error =>
    obtain ⟨herror, -, hsurface⟩ := joined_fails mode yields
    rw [plain] at hsurface
    refine ⟨herror, ?_⟩
    rw [hsurface]
    exact (List.append_nil _).symm
  | none =>
    obtain ⟨-, call, hcarries, htaken, -⟩ := joined_hands_over mode yields
    rw [plain] at hcarries htaken
    obtain rfl := hcarries.eq_plain
    have takes : surface.Takes 1 := fun room hroom => by simp [unbounded] at hroom
    obtain ⟨logged, hlog, -⟩ := takes.log { text := "" ++ String.intercalate "\n" (lines.map Line.plain) }
    obtain ⟨herror, hsurface⟩ := htaken logged hlog
    refine ⟨herror, ?_⟩
    rw [hsurface, (Surface.of_log hlog).2, String.empty_append]
    rfl

/-- Line by line, a plain writer hands over the text of each line. -/
theorem render_plain_each (options : Options) {surface : Surface} (mode : options.lineByLine = true)
    (plain : options.chosenWriter settings = { encoding := .plain, surface }) (unbounded : surface.room = none)
    (yields : (walk settings options source cursor).Yields (Report.entries (lines, error))) :
    let result := render settings options source cursor
    result.error = error ∧ result.writer.surface.calls =
      surface.calls ++ lines.map fun line => { text := line.plain } := by
  intro result
  have htaken : surface.taken lines.length = lines.length := by
    unfold Surface.taken
    rw [unbounded]
  obtain ⟨-, herror, -, -, calls, hcalls, hlength, hcarry⟩ := apart_hands_over mode yields
  rw [plain] at herror hcalls hlength hcarry
  dsimp only at herror hcalls hlength hcarry
  rw [htaken] at herror hlength
  rw [if_neg (Nat.lt_irrefl _)] at herror
  exact ⟨herror, hcalls.trans (congrArg _ (hcarry.eq_plain hlength))⟩

/-- Two walks under the same filter, in whatever colours, come to the same text or to the same error. -/
theorem renderText_congr {other : Settings} {others : Options} {report report' : Report}
    (yields : (walk settings options source cursor).Yields (Report.entries report))
    (yields' : (walk other others source cursor).Yields (Report.entries report'))
    (filter : others.filter = options.filter) :
    (renderText other others source cursor).1 = (renderText settings options source cursor).1 := by
  have same : Stream.Repainted (walk settings options source cursor) (walk other others source cursor) := by
    unfold walk
    rw [filter]
    exact Stream.repainted_start cursor source _ _ _
  obtain ⟨htexts, herror⟩ := same.report yields yields'
  unfold SameTexts at htexts
  rw [renderText_eq yields, renderText_eq yields', htexts, herror]

/-- **A rendering without colours is the text of the tree.** For a writer that nobody chose, with room for
    all calls, where there are no colours: if the tree has a text, it is handed over in one call, or line by
    line in calls whose texts, with line feeds between them, make it up. If the walk fails, both modes report
    the error that the text has. No call has styles. The text depends on the tree, its source and the filter:
    the theme, the platform, the flag for colours and what is remembered may be others. -/
theorem colorless_renderings_agree {forest : Forest} (grown : forest.Grown) {root : Nat}
    (inForest : forest.contains root = true) (unchosen : options.writer = none)
    (unbounded : options.surface.room = none) (colorless : options.Colorless settings) (source : String) :
    let place : Place := ⟨forest, root⟩
    let text := (renderText settings options source place).1
    let joined := render settings { options with lineByLine := false } source place
    let apart := render settings { options with lineByLine := true } source place
    (∀ written, text = .ok written →
      joined.error = none ∧
        joined.writer.surface.calls = options.surface.calls ++ [{ text := written, styles := [] }] ∧
        apart.error = none ∧ ∃ calls, apart.writer.surface.calls = options.surface.calls ++ calls ∧
          calls.length = (walk settings options source place).lines.1.length ∧
          textOfCalls calls = written ∧ ∀ call ∈ calls, call.styles = []) ∧
      (∀ error, text = .error error →
        joined.error = some error ∧ joined.writer.surface.calls = options.surface.calls ∧
          apart.error = some error ∧
          ∃ calls, apart.writer.surface.calls = options.surface.calls ++ calls ∧
            ∀ call ∈ calls, call.styles = []) ∧
      ∀ (other : Settings) (others : Options), others.filter = options.filter →
        (renderText other others source place).1 = text := by
  intro place text joined apart
  have yields : ∀ (settings : Settings) (options : Options), ∃ report,
      (walk settings options source place).Yields (Report.entries report) := fun settings options =>
    let ⟨_, hyields⟩ := Stream.exists_yields grown.linked (of_decide_eq_true inForest) source
      (options.chosenTheme settings) options.filter
    ⟨_, hyields⟩
  obtain ⟨⟨lines, error⟩, hyields⟩ := yields settings options
  have plain := colorless.chosenWriter unchosen
  have hlines : (walk settings options source place).lines.1 = lines :=
    congrArg Prod.fst (Stream.lines_of_yields hyields)
  have htext : text = error.elim (.ok (String.intercalate "\n" (lines.map Line.plain))) .error :=
    congrArg Prod.fst (renderText_eq hyields)
  have hjoined := render_plain_joined { options with lineByLine := false } rfl plain
    unbounded hyields
  have hapart := render_plain_each { options with lineByLine := true } rfl plain
    unbounded hyields
  refine ⟨fun written h => ?_, fun failure h => ?_, fun other others filter => ?_⟩
  · cases error with
    | some error => cases htext.symm.trans h
    | none =>
      obtain rfl := Except.ok.inj (htext.symm.trans h)
      refine ⟨hjoined.1, hjoined.2, hapart.1, _, hapart.2, ?_, ?_, ?_⟩
      · rw [List.length_map, hlines]
      · unfold textOfCalls
        rw [List.map_map]
        rfl
      · simp
  · cases error with
    | none => cases htext.symm.trans h
    | some error =>
      obtain rfl := Except.error.inj (htext.symm.trans h)
      exact ⟨hjoined.1, hjoined.2.trans (List.append_nil _), hapart.1, _, hapart.2, by simp⟩
  · obtain ⟨report, hothers⟩ := yields other others
    exact renderText_congr hyields hothers filter

/-- A small tree on a colour terminal whose user wants no colours. -/
theorem sapling_renders_without_colors :
    let settings : Settings := {
      environment := {
        entries := [("TERM", "xterm-256color"), ("COLORTERM", "truecolor"), ("NO_COLOR", "")]
        terminals := [.standardOutput] } }
    let options : Options := { surface := .recorder }
    let place : Place := ⟨.sapling, 0⟩
    let written := "Pair:\n├╴Left:\n│ └╴Leaf: x\n└╴Right: y"
    let joined := render settings { options with lineByLine := false } "xy" place
    let apart := render settings { options with lineByLine := true } "xy" place
    Forest.sapling.Grown ∧ Forest.sapling.contains 0 = true ∧ options.Colorless settings ∧
      options.writer = none ∧ options.surface.room = none ∧
      joined.writer.surface.calls = [{ text := written }] ∧
      (∃ calls, apart.writer.surface.calls = calls ∧ calls.length = 4 ∧ textOfCalls calls = written ∧
        ∀ call ∈ calls, call.styles = []) ∧
      (renderText {} { theme := some .scriptConsole } "xy" place).1 = .ok written := by
  intro settings options place written joined apart
  have inForest : Forest.sapling.contains 0 = true := rfl
  have colorless : options.Colorless settings :=
    .ruledOut rfl rfl rfl (.refused "" rfl (by decide))
  have hcount : (walk settings options "xy" place).lines.1.length = 4 := by decide +kernel
  have htext : (renderText settings options "xy" place).1 = .ok written := by decide +kernel
  obtain ⟨hwritten, -, hothers⟩ :=
    colorless_renderings_agree Forest.grown_sapling inForest rfl rfl colorless "xy"
  obtain ⟨-, hjoined, -, calls, hcalls, hlength, hcallText, hstyles⟩ := hwritten written htext
  exact ⟨Forest.grown_sapling, inForest, colorless, rfl, rfl, hjoined,
    ⟨calls, hcalls, hlength.trans hcount, hcallText, hstyles⟩,
    (hothers {} { theme := some .scriptConsole } rfl).trans htext⟩

end BoxTree
