import BuildArgs.Toml.Node

/-!
Tables under construction, and the rules by which the parts of a text may add to them. A
table is opened once by a header or grows by dotted keys; a header may pass through any
table, a dotted key only through tables that no header has opened, and no key is given twice.
The entries of a table stand in the order in which they came up.
-/

namespace BuildArgs.Toml

inductive Standing where
  /-- Opened by a header of its own; the top level counts as opened. -/
  | opened
  /-- Passed through by the header of a table inside it. -/
  | implied
  /-- Made by a dotted key. -/
  | dotted
  deriving DecidableEq, Repr

/-- A finished value, a table that may grow, or an array of tables whose last one may grow. -/
inductive Draft where
  | value (node : Node)
  | table (standing : Standing) (entries : List (String × Draft))
  | tables (elements : List Draft)

namespace Draft

def empty : Draft := .table .opened []

def put (key : String) (draft : Draft) : List (String × Draft) → List (String × Draft)
  | [] => [(key, draft)]
  | (first, old) :: rest =>
    if first = key then (key, draft) :: rest else (first, old) :: put key draft rest

inductive Route where
  | header
  | dotted
  deriving DecidableEq, Repr

def Route.makes : Route → Standing
  | .header => .implied
  | .dotted => .dotted

def Route.passes : Route → Standing → Bool
  | .header, _ => true
  | .dotted, standing => standing != .opened

abbrev Change := Standing → List (String × Draft) → Option Draft

/-- Changes the table at the end of a path, making the tables that are missing. From an
array of tables the path goes on in the last one. -/
def changeAt (route : Route) (change : Change) : List String → Draft → Option Draft
  | [], .table standing entries => change standing entries
  | [], _ => none
  | key :: path, .table standing entries =>
    let changed :=
      match entries.lookup key with
      | none => changeAt route change path (.table route.makes [])
      | some (.table inner inside) =>
        if route.passes inner then changeAt route change path (.table inner inside) else none
      | some (.tables elements) =>
        (elements.getLast?.bind (changeAt route change path)).map fun last =>
          .tables (elements.dropLast ++ [last])
      | some (.value _) => none
    changed.map fun draft => .table standing (put key draft entries)
  | _ :: _, _ => none

/-- Opens the table with a key by a header. A table that was only passed through so far
comes up anew: it moves to the end. -/
def openTable (key : String) : Change := fun standing entries =>
  match entries.lookup key with
  | none => some (.table standing (put key empty entries))
  | some (.table .implied inside) =>
    some (.table standing
      (entries.filter (fun entry => entry.1 != key) ++ [(key, .table .opened inside)]))
  | some _ => none

def addElement (key : String) : Change := fun standing entries =>
  match entries.lookup key with
  | none => some (.table standing (put key (.tables [empty]) entries))
  | some (.tables elements) =>
    some (.table standing (put key (.tables (elements ++ [empty])) entries))
  | some _ => none

def setValue (key : String) (node : Node) : Change := fun standing entries =>
  match entries.lookup key with
  | none => some (.table standing (put key (.value node) entries))
  | some _ => none

/-- Gives the key at the end of a path its value. Only a table made by a dotted key takes a value
from a longer path. -/
def assign (path : List String) (key : String) (node : Node) : Change := fun standing entries =>
  let change : Change := fun standing entries =>
    if path.isEmpty ∨ standing = .dotted then setValue key node standing entries else none
  changeAt .dotted change path (.table standing entries)

mutual

def toNode : Draft → Node
  | .value node => node
  | .table _ entries => .table (entriesToNodes entries)
  | .tables elements => .array (elementsToNodes elements)

def entriesToNodes : List (String × Draft) → List (String × Node)
  | [] => []
  | (key, draft) :: rest => (key, draft.toNode) :: entriesToNodes rest

def elementsToNodes : List Draft → List Node
  | [] => []
  | draft :: rest => draft.toNode :: elementsToNodes rest

end

def ofAssignments (assignments : List (List String × Node)) : Option Draft :=
  assignments.foldlM
    (fun draft assignment => do
      let key ← assignment.1.getLast?
      changeAt .dotted (assign assignment.1.dropLast key assignment.2) [] draft)
    empty

end Draft
end BuildArgs.Toml
