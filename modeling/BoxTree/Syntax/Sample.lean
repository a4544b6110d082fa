import BoxTree.Syntax.Builder

namespace BoxTree

/-!
# A sample document

* `Document.sample` — a small program with a comment of two rows, to try out colours,
  filters and modes.
-/

namespace Document

/-- The steps that write `class Greeter {a`, a line feed and `b}`. -/
def sampleSteps : List Step :=
  [.start "Program",
     .token "class",
     .gap " ",
     .leaf "Identifier" "Greeter",
     .gap " ",
     .start "Body",
       .token "\x7b",
       .leaf "Comment" "a\nb",
       .token "\x7d",
     .finish,
   .finish]

/-- The declaration of a class: a keyword, an identifier and a body that holds a comment between
    two braces. -/
def sample : Except Error Document := ofSteps sampleSteps

end Document

end BoxTree
