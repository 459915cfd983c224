import Hashwork.Selection.Cell

/-!
# One caller of the cell

Where nobody else uses the cell, a call need not wait, and it finds in the cell what the call before it
left there.
-/

namespace Hashwork.Selection

/-- A call of the only caller, who finds `content` in the cell and leaves the content that comes with the
result. -/
def alone {E : Type} {R : E → Type} {α : Type}
    (bench : Algorithm → Routine E R (Attempt BenchResult)) (note : Log.Line → Routine E R Unit) :
    Selecting α → Option Algorithm → Routine E R (α × Option Algorithm)
  | .done a, content => .done (a, content)
  | .ask .read next, content => alone bench note (next content) content
  | .ask .acquire next, content => alone bench note (next content) content
  | .ask (.bench algorithm) next, content =>
    (bench algorithm).bind fun result ↦ alone bench note (next result) content
  | .ask (.note line) next, content =>
    (note line).bind fun answer ↦ alone bench note (next answer) content
  | .ask (.write content) next, _ => alone bench note (next ()) content
  | .ask .release next, content => alone bench note (next ()) content
  | .ask .abandon next, content => alone bench note (next ()) content

end Hashwork.Selection
