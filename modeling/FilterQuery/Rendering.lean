import FilterQuery.Hook

/-!
# Rendering

Rendering turns a query into a document. It asks the hook about each leaf from left to right and
keeps a log of the calls and of what the hook said, also when the hook panics and there is no
document. The hook is asked about nothing else.
-/

namespace FilterQuery

/-- A value that is made while a hook is called, or the message of the panic that ended its making,
with the calls made so far. -/
structure Rendering (α : Type) where
  calls : List (Call × Reply)
  outcome : Except String α

namespace Rendering

variable {α β : Type}

def done (value : α) : Rendering α :=
  ⟨[], .ok value⟩

/-- Makes a value, and another one from it unless there was a panic. -/
def andThen (x : Rendering α) (f : α → Rendering β) : Rendering β :=
  match x.outcome with
  | .ok value => ⟨x.calls ++ (f value).calls, (f value).outcome⟩
  | .error message => ⟨x.calls, .error message⟩

def map (f : α → β) (x : Rendering α) : Rendering β :=
  ⟨x.calls, x.outcome.map f⟩

end Rendering

def Call.render (hook : Option Hook) (c : Call) : Rendering Json :=
  match hook with
  | none => .done c.document
  | some hook => ⟨[(c, hook c)], (hook c).outcome c⟩

namespace Condition

mutual

def render (hook : Option Hook) : Condition → Rendering Json
  | .leaf l => l.call.render hook
  | .node c children => (renderAll hook children).map fun values => .single c.symbol (.arr values)

def renderAll (hook : Option Hook) : List Condition → Rendering (List Json)
  | [] => .done []
  | x :: xs => (x.render hook).andThen fun value => (renderAll hook xs).map (value :: ·)

end

end Condition

/-- The identifiers of sort items with their directions. An identifier that comes again keeps its
first place and takes its last direction. -/
def SortItem.directions (items : List SortItem) : Entries Direction :=
  .ofList (items.map fun item => (item.identifier, item.direction))

def Direction.toJson (directions : Entries Direction) : Json :=
  .obj (directions.map fun entry => (entry.1, .int entry.2.sign))

/-- A rendered query; a part that the query does not have is absent. -/
structure Document where
  filter : Option Json
  order : Option (Entries Direction)

/-- A document as JSON, with `null` for an absent part. -/
def Document.toJson (d : Document) : Json :=
  .obj [("where", d.filter.getD .null), ("orderBy", (d.order.map Direction.toJson).getD .null)]

def Query.render (hook : Option Hook) (q : Query) : Rendering Document :=
  let order := q.order.map SortItem.directions
  match q.filter with
  | none => .done ⟨none, order⟩
  | some condition => (condition.render hook).map fun value => ⟨some value, order⟩

end FilterQuery
