import Eligibility.Yaml.Lexer

/-!
# YAML nodes

The node that a document consists of: a scalar or a mapping of nodes. Tokens are put together from
the left; a `Builder` is the list of mappings that are open, together with what may come next. Where
a key or a value is left out, it is an empty plain scalar.

A node may have an anchor, and another node may refer to it. Anchors are numbered: a name gets the
number of names that have been in use before it, also when it is given anew, and a reference means
the last node that was given the number.
-/

namespace Eligibility.Yaml

/-- A node. -/
inductive Node where
  /-- A scalar, and whether it was plain. -/
  | scalar (plain : Bool) (text : String)
  /-- A reference to the node with a number. -/
  | reference (number : Nat)
  /-- A mapping. -/
  | mapping (entries : List (Node × Node))

/-- A node that is left out. -/
def Node.missing : Node := .scalar true ""

/-! ## Anchors -/

/-- The anchors so far. -/
structure Anchors where
  /-- The numbers of the names. -/
  numbers : List (String × Nat)
  /-- The texts of the nodes with the numbers, if they are scalars; the latest come first. -/
  texts : List (Nat × Option String)

namespace Anchors

/-- No anchors. -/
def empty : Anchors := ⟨[], []⟩

/-- The number of the node that a name means. -/
def number? (a : Anchors) (name : String) : Option Nat := a.numbers.lookup name

/-- Gives a node an anchor, if it has a name for one. -/
def define (a : Anchors) (name : Option String) (text : Option String) : Anchors :=
  match name with
  | none => a
  | some name =>
    let number := a.numbers.length
    ⟨(name, number) :: a.numbers.filter fun (other, _) => other != name, (number, text) :: a.texts⟩

/-- The text of the node with a number, if it is a scalar. -/
def text? (a : Anchors) (number : Nat) : Option String := (a.texts.lookup number).join

end Anchors

/-- The text of a scalar or of what is referred to. -/
def Node.text? (a : Anchors) : Node → Option String
  | .scalar _ text => some text
  | .reference number => a.text? number
  | .mapping _ => none

/-! ## Building -/

/-- What the next node of a mapping is. -/
inductive Slot where
  /-- A key after its token. -/
  | key
  /-- A key in a flow mapping that comes without its token, and then without a value. -/
  | loneKey
  /-- The value of a key. -/
  | value (key : Node)

/-- A mapping whose end has not come. -/
structure Frame where
  /-- Whether it is a flow mapping. -/
  isFlow : Bool
  /-- Its complete entries. -/
  entries : List (Node × Node)
  /-- What its next node is. -/
  slot : Slot

/-- The properties before a node. -/
structure Properties where
  /-- The name of its anchor. -/
  anchor : Option String
  /-- Whether it has a tag. -/
  isTagged : Bool

/-- No properties. -/
def Properties.none : Properties := ⟨Option.none, false⟩

/-- Whether there are no properties. -/
def Properties.isNone (p : Properties) : Bool := p.anchor.isNone && !p.isTagged

/-- What may come next. -/
inductive Phase where
  /-- A directive, or the start of the document. -/
  | prologue (hasVersion : Bool)
  /-- A node, or what is left of one after its properties. -/
  | node (stack : List Frame) (properties : Properties)
  /-- A key of a mapping, or its end. -/
  | nextKey (stack : List Frame) (isFlow : Bool) (entries : List (Node × Node))
  /-- The first key of a flow mapping, or the key after a comma, or the end of the mapping. -/
  | flowKey (stack : List Frame) (entries : List (Node × Node))
  /-- A value of a mapping, or what follows if it is left out. -/
  | nextValue (stack : List Frame) (isFlow : Bool) (entries : List (Node × Node)) (key : Node)
  /-- The end of the document. -/
  | epilogue (root : Node)
  /-- Nothing; the document may have been without a node. -/
  | done (root : Option Node)

/-- A document that is being put together. -/
structure Builder where
  /-- The handles that may be used in tags. -/
  handles : List String
  /-- The anchors so far. -/
  anchors : Anchors
  /-- Whether the start of the document was marked. -/
  isMarked : Bool
  /-- What may come next. -/
  phase : Phase

namespace Builder

/-- The builder before a document. -/
def start : Builder := ⟨[], .empty, false, .prologue false⟩

/-- The same document, with something else to come. -/
def expect (b : Builder) (phase : Phase) : Builder := { b with phase }

/-- What comes after a complete node. -/
def afterNode (stack : List Frame) (n : Node) : Phase :=
  match stack with
  | [] => .epilogue n
  | frame :: stack =>
    match frame.slot with
    | .key => .nextValue stack frame.isFlow frame.entries n
    | .loneKey => .nextKey stack frame.isFlow (frame.entries ++ [(n, .missing)])
    | .value key => .nextKey stack frame.isFlow (frame.entries ++ [(key, n)])

/-- Ends a scalar. -/
def addScalar (b : Builder) (stack : List Frame) (p : Properties) (plain : Bool) (text : String) :
    Builder :=
  { b with
    anchors := b.anchors.define p.anchor (some text)
    phase := afterNode stack (.scalar plain text) }

/-- Ends a reference. -/
def addReference (b : Builder) (stack : List Frame) (name : String) : Option Builder :=
  (b.anchors.number? name).map fun number => b.expect (afterNode stack (.reference number))

/-- Starts a mapping. -/
def openMapping (b : Builder) (p : Properties) (phase : Phase) : Builder :=
  { b with anchors := b.anchors.define p.anchor none, phase }

/-- Whether a handle may be used. -/
def isDeclared (b : Builder) : Option String → Bool
  | none => true
  | some handle => handle == "!!" || b.handles.contains handle

/-- Takes a token of a node, if it is one that may come after the given properties. -/
def takeNode (b : Builder) (stack : List Frame) (p : Properties) (t : Token) : Option Builder :=
  match t with
  | .anchor name =>
    if p.anchor.isNone then some (b.expect (.node stack { p with anchor := some name })) else none
  | .tag handle =>
    if !p.isTagged && b.isDeclared handle then
      some (b.expect (.node stack { p with isTagged := true }))
    else none
  | .aliasOf name => if p.isNone then b.addReference stack name else none
  | .scalar plain text => some (b.addScalar stack p plain text)
  | .openBlock => some (b.openMapping p (.nextKey stack false []))
  | .openFlow => some (b.openMapping p (.flowKey stack []))
  | _ => none

/-- Takes a token where a key may start in a flow mapping. -/
def takeFlowKey (b : Builder) (stack : List Frame) (entries : List (Node × Node)) (t : Token) :
    Option Builder :=
  match t with
  | .key => some (b.expect (.node (⟨true, entries, .key⟩ :: stack) .none))
  | .closeFlow => some (b.expect (afterNode stack (.mapping entries)))
  | t => b.takeNode (⟨true, entries, .loneKey⟩ :: stack) .none t

/-- Takes a token after an entry of a mapping, or at its start. -/
def takeKey (b : Builder) (stack : List Frame) (isFlow : Bool) (entries : List (Node × Node))
    (t : Token) : Option Builder :=
  if isFlow then
    match t with
    | .comma => some (b.expect (.flowKey stack entries))
    | .closeFlow => some (b.expect (afterNode stack (.mapping entries)))
    | _ => none
  else
    match t with
    | .key => some (b.expect (.node (⟨false, entries, .key⟩ :: stack) .none))
    | .closeBlock => some (b.expect (afterNode stack (.mapping entries)))
    | _ => none

/-- Takes a token after a key. -/
def takeValue (b : Builder) (stack : List Frame) (isFlow : Bool) (entries : List (Node × Node))
    (key : Node) (t : Token) : Option Builder :=
  if t = .value then some (b.expect (.node (⟨isFlow, entries, .value key⟩ :: stack) .none))
  else b.takeKey stack isFlow (entries ++ [(key, .missing)]) t

/-- Takes a token after the node of a document. -/
def takeEnd (b : Builder) (root : Node) (t : Token) : Option Builder :=
  match t with
  | .documentEnd => some (b.expect (.epilogue root))
  | .endOfText => some (b.expect (.done (some root)))
  | _ => none

/-- Whether a node may be left out before a token. -/
def mayBeMissing (b : Builder) (stack : List Frame) (p : Properties) (t : Token) : Bool :=
  !p.isNone ||
    match stack with
    | [] => b.isMarked && (t == .documentEnd || t == .endOfText)
    | frame :: _ =>
      match frame.isFlow, frame.slot with
      | false, _ => t == .key || t == .value || t == .closeBlock
      | true, .key => t == .value || t == .comma || t == .closeFlow
      | true, .value _ => t == .comma || t == .closeFlow
      | true, .loneKey => false

/-- Takes a token that follows a node which is left out. -/
def takeAfterMissing (b : Builder) (stack : List Frame) (p : Properties) (t : Token) :
    Option Builder :=
  let b := b.addScalar stack p true ""
  match b.phase with
  | .nextKey stack isFlow entries => b.takeKey stack isFlow entries t
  | .nextValue stack isFlow entries key => b.takeValue stack isFlow entries key t
  | .epilogue root => b.takeEnd root t
  | _ => none

/-- Takes a token before the document. -/
def takePrologue (b : Builder) (hasVersion : Bool) (t : Token) : Option Builder :=
  let hasDirectives := hasVersion || !b.handles.isEmpty
  match t with
  | .version major minor =>
    if hasVersion || major ≠ 1 || (minor ≠ 1 && minor ≠ 2) then none
    else some (b.expect (.prologue true))
  | .declareHandle handle =>
    if b.handles.contains handle then none else some { b with handles := handle :: b.handles }
  | .documentStart => some { b with isMarked := true, phase := .node [] .none }
  | .endOfText => if hasDirectives then none else some (b.expect (.done none))
  | t => if hasDirectives then none else b.takeNode [] .none t

/-- Takes one more token. -/
def step (b : Builder) (t : Token) : Option Builder :=
  match b.phase with
  | .prologue hasVersion => b.takePrologue hasVersion t
  | .node stack p =>
    match b.takeNode stack p t with
    | some next => some next
    | none => if b.mayBeMissing stack p t then b.takeAfterMissing stack p t else none
  | .nextKey stack isFlow entries => b.takeKey stack isFlow entries t
  | .flowKey stack entries => b.takeFlowKey stack entries t
  | .nextValue stack isFlow entries key => b.takeValue stack isFlow entries key t
  | .epilogue root => b.takeEnd root t
  | .done _ => none

/-- The root of the document, if there is one, and the anchors. -/
def result? (b : Builder) : Option (Option Node × Anchors) :=
  match b.phase with
  | .done root => some (root, b.anchors)
  | _ => none

end Builder

/-- The document that tokens denote. -/
def documentOf (tokens : List Token) : Option (Option Node × Anchors) := do
  let b ← tokens.foldlM Builder.step .start
  b.result?

/-- The document of a text. -/
def document (text : String) : Option (Option Node × Anchors) := do
  let tokens ← tokens text
  documentOf tokens

end Eligibility.Yaml
