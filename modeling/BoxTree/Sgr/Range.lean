import BoxTree.Sgr.Basic

namespace BoxTree.Sgr

/-!
# Parameters in range

* `Param.InRange` — a basic colour has one of the sixteen codes of its side.
* `WellFormed` — some parameters, all in range.
-/

/-- Basic colours of the characters have the codes 30 to 37 and 90 to 97, those behind them 40 to 47 and
    100 to 107. Other parameters may have any bytes. -/
def Param.InRange : Param → Prop
  | .basic .foreground code => 30 ≤ code ∧ code ≤ 37 ∨ 90 ≤ code ∧ code ≤ 97
  | .basic .background code => 40 ≤ code ∧ code ≤ 47 ∨ 100 ≤ code ∧ code ≤ 107
  | .reset | .indexed .. | .direct .. | .default _ => True

instance : DecidablePred Param.InRange
  | .basic .foreground _ | .basic .background _ => inferInstanceAs (Decidable (_ ∨ _))
  | .reset | .indexed .. | .direct .. | .default _ => inferInstanceAs (Decidable True)

/-- The parameters of a sequence that can be told from all others. -/
structure WellFormed (params : List Param) : Prop where
  nonempty : params ≠ []
  inRange : ∀ param ∈ params, param.InRange

end BoxTree.Sgr
