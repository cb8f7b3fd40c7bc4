/-!
# Tables of options

Options and manifests are tables of strings, booleans, arrays and tables. Numbers and dates have no
field that takes them, so they have no place here. `Draft` is a table while a document is read: it
knows whether a header has defined it or a longer key only passed through it, and a key defined
once is not defined again.
-/

namespace NavScript.Toml

inductive Value where
  | string (s : String)
  | bool (b : Bool)
  | array (items : List Value)
  | table (entries : List (String × Value))
deriving Inhabited

mutual

/-- What a key of a draft holds. -/
inductive Item where
  | value (v : Value)
  | table (t : Draft)
  /-- An array of tables, the latest last. -/
  | tables (ts : List Draft)

/-- A table in the making. `implicit` tables come from longer keys only, `dotted` ones from the
dotted key of an entry. -/
inductive Draft where
  | mk (implicit dotted : Bool) (entries : List (String × Item))

end

namespace Draft

def empty : Draft := mk false false []

def implicit : Draft → Bool
  | mk i _ _ => i

def dotted : Draft → Bool
  | mk _ d _ => d

def entries : Draft → List (String × Item)
  | mk _ _ es => es

def get? (t : Draft) (key : String) : Option Item := t.entries.lookup key

/-- Puts an item under a key, in the place of an earlier one. -/
def put (t : Draft) (key : String) (item : Item) : Draft :=
  let es := t.entries
  if (t.get? key).isSome then
    mk t.implicit t.dotted (es.map fun e => if e.1 == key then (key, item) else e)
  else mk t.implicit t.dotted (es ++ [(key, item)])

/-- Changes the table that a path leads to; tables on the way are made where there are none. The
path of a dotted key passes through tables that no header has defined, the path of a header also
through those and through the latest table of an array. -/
def alter (dotted : Bool) (change : Draft → Option Draft) : List String → Draft → Option Draft
  | [], t => change t
  | key :: path, t =>
    match t.get? key with
    | none => do
      let inner ← alter dotted change path (mk true dotted [])
      pure (t.put key (.table inner))
    | some (.value _) => none
    | some (.table inner) =>
      if dotted && !inner.implicit then none
      else do
        let inner ← alter dotted change path inner
        pure (t.put key (.table inner))
    | some (.tables ts) =>
      match ts.getLast? with
      | none => none
      | some last => do
        let last ← alter dotted change path last
        pure (t.put key (.tables (ts.dropLast ++ [last])))

/-- Adds an entry under a dotted key. The table it falls into has to come from dotted keys as well,
or to be the one that is open. -/
def addEntry (t : Draft) (path : List String) (key : String) (v : Value) : Option Draft :=
  t.alter true
    (fun inner =>
      if inner.dotted == path.isEmpty || (inner.get? key).isSome then none
      else some (inner.put key (.value v)))
    path

/-- Opens the table of a header: a new one, or one that longer keys have passed through. -/
def openTable (t : Draft) (path : List String) (key : String) : Option Draft :=
  t.alter false
    (fun parent =>
      match parent.get? key with
      | none => some (parent.put key (.table empty))
      | some (.table inner) =>
        if inner.implicit && !inner.dotted then
          some (parent.put key (.table (mk false false inner.entries)))
        else none
      | some _ => none)
    path

/-- Appends a table to an array of tables. -/
def appendTable (t : Draft) (path : List String) (key : String) : Option Draft :=
  t.alter false
    (fun parent =>
      match parent.get? key with
      | none => some (parent.put key (.tables [empty]))
      | some (.tables ts) => some (parent.put key (.tables (ts ++ [empty])))
      | some _ => none)
    path

/-- Adds an entry to the table that the last header has opened. -/
def addUnder (t : Draft) (header : List String) (path : List String) (key : String) (v : Value) :
    Option Draft :=
  t.alter false (fun inner => inner.addEntry path key v) header

mutual

/-- The finished table. -/
def finish : Draft → Value
  | mk _ _ es => .table (finishEntries es)

def finishEntries : List (String × Item) → List (String × Value)
  | [] => []
  | (key, item) :: rest => (key, finishItem item) :: finishEntries rest

def finishItem : Item → Value
  | .value v => v
  | .table t => finish t
  | .tables ts => .array (finishAll ts)

def finishAll : List Draft → List Value
  | [] => []
  | t :: rest => finish t :: finishAll rest

end

end Draft

end NavScript.Toml
