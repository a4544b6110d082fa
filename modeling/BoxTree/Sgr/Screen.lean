import BoxTree.Sgr.Reader

namespace BoxTree.Sgr

/-!
# What a terminal shows

A terminal takes one character after another. Outside of sequences it shows the character in the
active colours; a sequence changes them.

* `Cell` — a character with its colours, `none` for the terminal's own.
* `Screen` — the active colours, the sequence being read, and the cells shown.
* `Screen.step`, `Screen.run` — one character, many characters.
-/

/-- A character as it is shown. -/
structure Cell where
  char : Char
  foreground : Option Color := none
  background : Option Color := none
  deriving DecidableEq

/-- Where a terminal is in a sequence. -/
inductive Mode where
  /-- In none. -/
  | ground
  /-- Behind the escape character. -/
  | escaped
  /-- Behind these characters of the parameters. -/
  | params (body : List Char)
  deriving DecidableEq

/-- A terminal. -/
structure Screen where
  foreground : Option Color := none
  background : Option Color := none
  mode : Mode := .ground
  /-- The cells shown, the first one first. -/
  cells : List Cell := []
  deriving DecidableEq

/-- The hue of a number counted from the first hue. -/
def hueOf (n : Nat) : Fin 8 := ⟨n % 8, Nat.mod_lt n (Nat.succ_pos 7)⟩

/-- The basic entry of a code on a side. -/
def basicEntry (side : Side) (code : UInt8) : Fin 16 :=
  let base : Nat := match side with
    | .foreground => 30
    | .background => 40
  if code.toNat < base + 60 then (hueOf (code.toNat - base)).castLE (Nat.le_add_right 8 8)
  else (hueOf (code.toNat - base - 60)).natAdd 8

namespace Screen

/-- Makes a colour the active one of a side. -/
def paint (screen : Screen) (color : Option Color) : Side → Screen
  | .foreground => { screen with foreground := color }
  | .background => { screen with background := color }

/-- Obeys a parameter. -/
def apply (screen : Screen) : Param → Screen
  | .reset => { screen with foreground := none, background := none }
  | .basic side code => screen.paint (some (.basic (basicEntry side code))) side
  | .indexed side entry => screen.paint (some (.indexed entry)) side
  | .direct side rgb => screen.paint (some (.direct rgb)) side
  | .default side => screen.paint none side

/-- Shows a character in the active colours. -/
def put (screen : Screen) (c : Char) : Screen :=
  { screen with cells := screen.cells ++ [⟨c, screen.foreground, screen.background⟩] }

/-- Obeys a whole sequence; one that cannot be read changes nothing. -/
def obey (screen : Screen) (body : List Char) : Screen :=
  match readParams? body with
  | some params => params.foldl apply screen
  | none => screen

/-- Takes one character. -/
def step (screen : Screen) (c : Char) : Screen :=
  match screen.mode with
  | .ground => if c = '\x1b' then { screen with mode := .escaped } else screen.put c
  | .escaped => { screen with mode := if c = '[' then .params [] else .ground }
  | .params body =>
    if isParamChar c then { screen with mode := .params (body ++ [c]) }
    else if c = 'm' then { screen.obey body with mode := .ground }
    else { screen with mode := .ground }

/-- Takes many characters. -/
def run (screen : Screen) (cs : List Char) : Screen := cs.foldl step screen

@[simp] theorem run_nil (screen : Screen) : screen.run [] = screen := rfl

@[simp] theorem run_cons (screen : Screen) (c : Char) (cs : List Char) :
    screen.run (c :: cs) = (screen.step c).run cs := rfl

/-- A text in two parts is shown as the second part behind the first one. -/
theorem run_append (screen : Screen) (cs ds : List Char) :
    screen.run (cs ++ ds) = (screen.run cs).run ds := List.foldl_append

end Screen

end BoxTree.Sgr
