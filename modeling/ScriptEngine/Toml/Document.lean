import ScriptEngine.Toml.Scalar

/-!
# TOML documents

A document is a sequence of lines: a table header, a key with its value, or nothing but a comment.
Keys may lead through tables, and nothing may be defined twice.
-/
namespace ScriptEngine.Toml

/-! Tables -/

/-- How a table came to be, which decides what may be added to it. -/
inductive Origin where
  | header | implied | dotted
deriving DecidableEq, Repr

/-- A document under construction. -/
inductive Node where
  | value (v : Toml)
  | table (origin : Origin) (entries : List (String × Node))
  | tables (items : List (List (String × Node)))

abbrev Entries := List (String × Node)

/-- Replaces or adds an entry. -/
def Entries.put (entries : Entries) (key : String) (node : Node) : Entries :=
  if (entries.lookup key).isSome then
    entries.map fun e => if e.1 == key then (key, node) else e
  else entries ++ [(key, node)]

/-- Whether one more part of a key is left. -/
def isLast (path : List String) : Bool := path.length == 1

/-- Defines a key in a table. A dotted key leads through tables that dotted keys have made, and may
end in no other. Before its end it may also pass tables that headers imply and the last table of an
array. -/
def defineKey (entries : Entries) (path : List String) (v : Toml) : Option Entries :=
  match path with
  | [] => none
  | [part] => if (entries.lookup part).isSome then none else some (entries ++ [(part, .value v)])
  | part :: parts =>
    match entries.lookup part with
    | none => (defineKey [] parts v).map fun inner => entries.put part (.table .dotted inner)
    | some (.table .dotted inner) =>
      (defineKey inner parts v).map fun inner => entries.put part (.table .dotted inner)
    | some (.table .implied inner) =>
      if isLast parts then none
      else (defineKey inner parts v).map fun inner => entries.put part (.table .implied inner)
    | some (.tables items) =>
      match items.getLast?, isLast parts with
      | some last, false => (defineKey last parts v).map fun last =>
          entries.put part (.tables (items.dropLast ++ [last]))
      | _, _ => none
    | some _ => none

/-! Keys and values -/

def isBareChar (c : Char) : Bool := c.isAlphanum || c == '_' || c == '-'

/-- One part of a key. -/
def keyPart? (cs : List Char) : Option (String × List Char) :=
  match cs with
  | '"' :: rest => lineRest? '"' true (rest.length + 1) [] rest
  | '\'' :: rest => lineRest? '\'' false (rest.length + 1) [] rest
  | _ =>
    let part := cs.takeWhile isBareChar
    if part.isEmpty then none else some (String.ofList part, cs.drop part.length)

/-- How deep arrays and tables may be nested, and how many parts a key may have. -/
def maxDepth : Nat := 79

/-- The parts of a key with dots between them, at most `n`. -/
def keyWithin? : Nat → List Char → Option (List String × List Char)
  | 0, _ => none
  | n + 1, cs => do
    let (part, cs) ← keyPart? (skipSpace cs)
    match skipSpace cs with
    | '.' :: cs =>
      let (parts, cs) ← keyWithin? n cs
      return (part :: parts, cs)
    | cs => return ([part], cs)

/-- A key of any number of parts that is allowed. -/
def key? (cs : List Char) : Option (List String × List Char) := keyWithin? maxDepth cs

/-- The rest of a line from a comment on; none if it holds a control character. -/
def comment? (cs : List Char) : Option (List Char) :=
  match cs with
  | '#' :: cs =>
    let text := cs.takeWhile (· != '\n')
    let rest := cs.drop text.length
    let text := if text.getLast? == some '\r' && !rest.isEmpty then text.dropLast else text
    if text.any isControl then none else some rest
  | _ => some cs

/-- Skips spaces, line breaks and comments, at most `n` of them. -/
def skipLines? : Nat → List Char → Option (List Char)
  | 0, cs => some cs
  | n + 1, cs =>
    match skipSpace cs with
    | '#' :: rest => (comment? ('#' :: rest)).bind (skipLines? n)
    | cs =>
      match lineBreak? cs with
      | some cs => skipLines? n cs
      | none => some cs

/-- Items of an array up to its bracket; a comma may stand behind the last. -/
def itemsRest? (item? : List Char → Option (Toml × List Char)) :
    Nat → List Toml → List Char → Option (Toml × List Char)
  | 0, _, _ => none
  | n + 1, read, cs => do
    match ← skipLines? cs.length cs with
    | ']' :: cs => return (array read.reverse, cs)
    | cs =>
      let (item, cs) ← item? cs
      match ← skipLines? cs.length cs with
      | ',' :: cs => itemsRest? item? n (item :: read) cs
      | ']' :: cs => return (array (item :: read).reverse, cs)
      | _ => none

/-- Entries of an inline table up to its brace. -/
def entriesRest? (item? : List Char → Option (Toml × List Char)) :
    Nat → Entries → List Char → Option (Toml × List Char)
  | 0, _, _ => none
  | n + 1, read, cs => do
    let (key, cs) ← key? cs
    match cs with
    | '=' :: cs =>
      let (v, cs) ← item? (skipSpace cs)
      let read ← defineKey read key v
      match skipSpace cs with
      | ',' :: cs => entriesRest? item? n read cs
      | '}' :: cs => return (table, cs)
      | _ => none
    | _ => none

/-- A value with room for that many nested arrays and tables. -/
def value? : Nat → List Char → Option (Toml × List Char)
  | room, cs =>
    match cs with
    | '"' :: cs => (text? '"' cs).map fun (s, cs) => (text s, cs)
    | '\'' :: cs => (text? '\'' cs).map fun (s, cs) => (text s, cs)
    | '[' :: cs =>
      match room with
      | 0 => none
      | room + 1 => itemsRest? (value? room) (cs.length + 1) [] cs
    | '{' :: cs =>
      match room with
      | 0 => none
      | room + 1 =>
        match skipSpace cs with
        | '}' :: cs => some (table, cs)
        | cs => entriesRest? (value? room) (cs.length + 1) [] cs
    | cs =>
      let (w, rest) := word cs
      (wordValue? w).map fun v => (v, rest)

/-! Lines -/

/-- Changes the table at the end of a header's path. Tables on the way are made if need be. -/
def alter (entries : Entries) (path : List String) (f : Entries → Option Entries) :
    Option Entries :=
  match path with
  | [] => f entries
  | part :: parts =>
    match entries.lookup part with
    | none => (alter [] parts f).map fun inner => entries.put part (.table .implied inner)
    | some (.table origin inner) =>
      (alter inner parts f).map fun inner => entries.put part (.table origin inner)
    | some (.tables items) =>
      match items.getLast? with
      | none => none
      | some last => (alter last parts f).map fun last =>
          entries.put part (.tables (items.dropLast ++ [last]))
    | some (.value _) => none

/-- Opens a table by its header. -/
def openTable (key : String) (entries : Entries) : Option Entries :=
  match entries.lookup key with
  | none => some (entries.put key (.table .header []))
  | some (.table .implied inner) => some (entries.put key (.table .header inner))
  | some _ => none

/-- Adds a table to an array of tables. -/
def addTable (key : String) (entries : Entries) : Option Entries :=
  match entries.lookup key with
  | none => some (entries.put key (.tables [[]]))
  | some (.tables items) => some (entries.put key (.tables (items ++ [[]])))
  | some _ => none

/-- A document that is being read: all tables, and the path of the open one. -/
structure Draft where
  root : Entries
  path : List String

/-- Reads one line up to its end. -/
def line? (d : Draft) (cs : List Char) : Option (Draft × List Char) := do
  match skipSpace cs with
  | '[' :: '[' :: cs =>
    let (key, cs) ← key? cs
    match cs with
    | ']' :: ']' :: cs =>
      let root ← alter d.root key.dropLast (addTable (key.getLastD ""))
      return (⟨root, key⟩, cs)
    | _ => none
  | '[' :: cs =>
    let (key, cs) ← key? cs
    match cs with
    | ']' :: cs =>
      let root ← alter d.root key.dropLast (openTable (key.getLastD ""))
      return (⟨root, key⟩, cs)
    | _ => none
  | [] => return (d, [])
  | c :: cs =>
    if c == '#' || c == '\n' || c == '\r' then return (d, c :: cs)
    else
      let (key, cs) ← key? (c :: cs)
      match cs with
      | '=' :: cs =>
        let (v, cs) ← value? maxDepth (skipSpace cs)
        return ({ d with root := ← alter d.root d.path fun t => defineKey t key v }, cs)
      | _ => none

/-- Reads all lines, at most `n`. -/
def lines? : Nat → Draft → List Char → Option Draft
  | 0, _, _ => none
  | n + 1, d, cs => do
    let (d, cs) ← line? d cs
    match ← comment? (skipSpace cs) with
    | [] => return d
    | cs => lines? n d (← lineBreak? cs)

/-- The keys of a document outside all tables, with their values; tables are left out. -/
def topLevel? (source : String) : Option (List (String × Option Toml)) :=
  let cs := source.toList
  let cs := if cs.head? == some (Char.ofNat 0xFEFF) then cs.drop 1 else cs
  (lines? (cs.length + 1) ⟨[], []⟩ cs).map fun d => d.root.map fun e =>
    match e.2 with
    | .value v => (e.1, some v)
    | _ => (e.1, none)

end ScriptEngine.Toml
