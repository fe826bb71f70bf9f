import SplitEditor.Yaml.Token

/-! The document of a YAML stream: its nodes, with tags resolved, and the nodes that anchors
name. An alias is kept as a reference, since what it names may contain it. -/

namespace SplitEditor.Yaml

inductive Node where
  | scalar (value : String) (plain : Bool) (style : Style) (tag : Option String)
  | sequence (items : List Node) (tag : Option String)
  | mapping (entries : List (Node × Node)) (tag : Option String)
  | alias (target : Nat)

namespace Node

def absent : Node := scalar "" true .plain none

end Node

abbrev Handles := List (List Char × List Char)

/-- The handles that every document knows. -/
def Handles.standard : Handles :=
  [("!".toList, "!".toList), ("!!".toList, "tag:yaml.org,2002:".toList)]

/-- Where the reading of tokens stands: the tokens left, the names of anchors with their
numbers, and the anchored nodes by number, latest first. -/
structure Parse where
  tokens : List Token
  names : List (List Char × Nat)
  anchored : List (Nat × Node)

abbrev Reader := StateT Parse Option

namespace Reader

def peek : Reader (Option Token) := return (← get).tokens.head?

def advance : Reader Unit := modify fun p => { p with tokens := p.tokens.drop 1 }

def take (t : Token) : Reader Bool := do
  if (← peek) == some t then
    advance
    return true
  else return false

def nextIs (ts : List Token) : Reader Bool := return (← peek).any (ts.contains ·)

/-- The properties in front of a node: an anchor and a tag, in either order. -/
def properties : Reader (Option (List Char) × Option (List Char × List Char)) := do
  match ← peek with
  | some (.anchor a) =>
    advance
    match ← peek with
    | some (.tag h s) => advance; return (some a, some (h, s))
    | _ => return (some a, none)
  | some (.tag h s) =>
    advance
    match ← peek with
    | some (.anchor a) => advance; return (some a, some (h, s))
    | _ => return (none, some (h, s))
  | _ => return (none, none)

/-- A tag with its handle spelled out. -/
def resolve (handles : Handles) (tag : Option (List Char × List Char)) :
    Reader (Option String) :=
  match tag with
  | none => return none
  | some ([], suffix) => return some (String.ofList suffix)
  | some (handle, suffix) =>
    match handles.lookup handle with
    | some start => return some (String.ofList (start ++ suffix))
    | none => failure

def name (anchor : List Char) : Reader Nat := do
  let p ← get
  let number := p.names.length
  set { p with names := (anchor, number) :: p.names.filter (·.1 ≠ anchor) }
  return number

def bind (number : Option Nat) (n : Node) : Reader Node := do
  match number with
  | some number => modify fun p => { p with anchored := (number, n) :: p.anchored }
  | none => pure ()
  return n

def empty (number : Option Nat) (tag : Option String) (hasProperties : Bool) : Reader Node :=
  if hasProperties then bind number (.scalar "" true .plain tag) else failure

mutual

/-- A node. `block` allows block collections, `indentless` sequences that are not indented. -/
def node (handles : Handles) (block indentless : Bool) : Nat → Reader Node
  | 0 => failure
  | fuel + 1 => do
    match ← peek with
    | some (.alias a) =>
      advance
      match (← get).names.lookup a with
      | some number => return .alias number
      | none => failure
    | _ =>
    let (anchor, tag) ← properties
    let tag ← resolve handles tag
    let number ← anchor.mapM name
    match ← peek with
    | some .blockEntry =>
      if indentless then bind number (.sequence (← indentlessItems handles fuel) tag)
      else empty number tag (anchor.isSome || tag.isSome)
    | some (.scalar value style) =>
      advance
      let tag := if tag = some "!" then none else tag
      bind number (.scalar (String.ofList value) (style = .plain) style tag)
    | some .flowSequenceStart =>
      advance
      bind number (.sequence (← flowItems handles true fuel) tag)
    | some .flowMappingStart =>
      advance
      bind number (.mapping (← flowEntries handles true fuel) tag)
    | some .blockSequenceStart =>
      if !block then empty number tag (anchor.isSome || tag.isSome)
      else
        advance
        bind number (.sequence (← blockItems handles fuel) tag)
    | some .blockMappingStart =>
      if !block then empty number tag (anchor.isSome || tag.isSome)
      else
        advance
        bind number (.mapping (← blockEntries handles fuel) tag)
    | _ => empty number tag (anchor.isSome || tag.isSome)

def nodeUnless (handles : Handles) (ends : List Token) (block indentless : Bool) :
    Nat → Reader Node
  | 0 => failure
  | fuel + 1 => do
    if ← nextIs ends then return .absent else node handles block indentless fuel

def blockItems (handles : Handles) : Nat → Reader (List Node)
  | 0 => failure
  | fuel + 1 => do
    if ← take .blockEnd then return []
    if !(← take .blockEntry) then failure
    let item ← nodeUnless handles [.blockEntry, .blockEnd] true false fuel
    return item :: (← blockItems handles fuel)

def indentlessItems (handles : Handles) : Nat → Reader (List Node)
  | 0 => failure
  | fuel + 1 => do
    if !(← take .blockEntry) then return []
    let item ← nodeUnless handles [.blockEntry, .key, .value, .blockEnd] true false fuel
    return item :: (← indentlessItems handles fuel)

def blockEntries (handles : Handles) : Nat → Reader (List (Node × Node))
  | 0 => failure
  | fuel + 1 => do
    if ← take .blockEnd then return []
    if !(← take .key) then failure
    let ends := [Token.key, .value, .blockEnd]
    let key ← nodeUnless handles ends true true fuel
    let value ← if ← take .value then nodeUnless handles ends true true fuel else pure .absent
    return (key, value) :: (← blockEntries handles fuel)

/-- A mapping of one entry, written without braces in a flow sequence. -/
def singleEntry (handles : Handles) : Nat → Reader Node
  | 0 => failure
  | fuel + 1 => do
    let key ←
      if ← nextIs [.value, .flowEntry, .flowSequenceEnd] then
        advance
        pure Node.absent
      else node handles false false fuel
    let value ←
      if ← take .value then
        nodeUnless handles [.flowEntry, .flowSequenceEnd] false false fuel
      else pure .absent
    return .mapping [(key, value)] none

def flowItems (handles : Handles) (first : Bool) : Nat → Reader (List Node)
  | 0 => failure
  | fuel + 1 => do
    if ← take .flowSequenceEnd then return []
    if !first then
      if !(← take .flowEntry) then failure
    if ← take .flowSequenceEnd then return []
    let item ←
      if ← take .key then singleEntry handles fuel else node handles false false fuel
    return item :: (← flowItems handles false fuel)

def flowEntries (handles : Handles) (first : Bool) : Nat → Reader (List (Node × Node))
  | 0 => failure
  | fuel + 1 => do
    if ← take .flowMappingEnd then return []
    if !first then
      if !(← take .flowEntry) then failure
    if ← take .flowMappingEnd then return []
    if ← take .key then
      let key ← nodeUnless handles [.value, .flowEntry, .flowMappingEnd] false false fuel
      let value ←
        if ← take .value then
          nodeUnless handles [.flowEntry, .flowMappingEnd] false false fuel
        else pure .absent
      return (key, value) :: (← flowEntries handles false fuel)
    else
      let key ← node handles false false fuel
      return (key, .absent) :: (← flowEntries handles false fuel)

end

/-- The directives in front of a document: at most one version, which has to be 1.1 or 1.2, and
handles, none of them twice. -/
def directives (version : Bool) (handles : Handles) : Nat → Reader (Bool × Handles)
  | 0 => failure
  | fuel + 1 => do
    match ← peek with
    | some (.versionDirective major minor) =>
      if version || major ≠ 1 || (minor ≠ 1 && minor ≠ 2) then failure
      advance
      directives true handles fuel
    | some (.tagDirective handle uri) =>
      if (handles.lookup handle).isSome then failure
      advance
      directives version ((handle, uri) :: handles) fuel
    | _ => return (version, handles)

def inForce (declared : Handles) : Handles := declared ++ Handles.standard

def documentEnds : Nat → Reader Unit
  | 0 => failure
  | fuel + 1 => do if ← take .documentEnd then documentEnds fuel

/-- The documents of a stream. After the first one each needs a marker. -/
def documents (first : Bool) : Nat → Reader (List Node)
  | 0 => failure
  | fuel + 1 => do
    if !first then documentEnds (fuel + 1)
    match ← peek with
    | none => return []
    | some _ =>
      let (version, declared) ← directives false [] (fuel + 1)
      let explicit ← take .documentStart
      if !explicit && (version || !declared.isEmpty || !first) then failure
      let next ← peek
      let root ←
        if explicit && next.all (fun t =>
            t == .documentStart || t == .documentEnd || t.isDirective) then
          pure Node.absent
        else node (inForce declared) true false (fuel + 1)
      let _ ← take .documentEnd
      return root :: (← documents false fuel)

end Reader

structure Document where
  root : Node
  anchored : List (Nat × Node)

def document? (text : String) : Option (Option Document) := do
  let tokens ← tokens? text.toList
  let (roots, p) ← (Reader.documents true (8 * tokens.length + 8)).run ⟨tokens, [], []⟩
  match roots with
  | [] => return none
  | [root] => return some ⟨root, p.anchored⟩
  | _ => none

def Document.follow (d : Document) (n : Node) : Node :=
  match n with
  | .alias target => (d.anchored.lookup target).getD n
  | n => n

end SplitEditor.Yaml
