import FilterQuery.Call
import FilterQuery.Renaming

/-!
# Hooks

A hook may say how a leaf is rendered. It sees the leaf as a call, and keeps the document of the
call, puts another value in its place, or panics, which ends the rendering.
-/

namespace FilterQuery

/-- What a hook says of a leaf. -/
inductive Reply where
  | keep
  | replace (value : Json)
  | panic (message : String)

/-- A way to render leaves. -/
abbrev Hook := Call → Reply

/-- The hook that renders a leaf under the name that `r` gives to its identifier. -/
def Hook.rename (r : Renaming) : Hook := fun c =>
  match r.find? c.identifier with
  | none => .keep
  | some target => .replace (Call.document ⟨target, c.operator, c.argument⟩)

/-- The value of a call that a reply makes, or the message of a panic. -/
def Reply.outcome (c : Call) : Reply → Except String Json
  | .keep => .ok c.document
  | .replace value => .ok value
  | .panic message => .error message

end FilterQuery
