import ComponentRules.Json.Token

/-!
# JSON trees

The tokens of a text as a tree that keeps what a reader may complain about: where values are, in
what order, and where the text stops being JSON. Repeated keys are kept as well. Whoever reads the
tree in text order meets the first fault of the text first.

* `Node`, `ArrayEnd`, `ObjectEnd`: the tree.
* `Document.ofTokens`: the tree of a text, built token by token with a stack of open containers.
* `Document.ofText`: the tree of a text.
-/

namespace ComponentRules.Json

inductive Scalar
  | null
  | bool (b : Bool)
  | number (value : Except Fault Number)
  | string (value : Except Fault String)

/-- How the items of an array end. -/
inductive ArrayEnd
  | closed
  /-- The text ends. -/
  | cut (offset : Nat)
  /-- Something else than a comma or the bracket starts. -/
  | junk (start : Nat)
  /-- The bracket stands behind a comma. -/
  | commaClosed (start : Nat)
  /-- The text ends behind a comma. -/
  | commaCut (offset : Nat)

/-- How the members of an object end. -/
inductive ObjectEnd
  | closed (stop : Nat)
  /-- The text ends. -/
  | cut (offset : Nat)
  /-- Something else than a comma or the brace starts. -/
  | junk (start : Nat)
  /-- Something else than a key starts. -/
  | noKey (start : Nat)
  /-- A key has no end. -/
  | brokenKey (fault : Break)
  /-- The brace stands behind a comma. -/
  | commaClosed (start : Nat)
  /-- The text ends behind a comma. -/
  | commaCut (offset : Nat)

/-- A key and the number of bytes consumed when a reader objects to it: all up to the next token,
and that as well if it is a closing brace. -/
structure Key where
  text : Except Fault String
  settled : Nat

inductive Node
  | scalar (value : Scalar) (start stop : Nat)
  | array (start : Nat) (items : List Node) (fin : ArrayEnd)
  | object (start : Nat) (members : List (Key × Node)) (fin : ObjectEnd)
  /-- No value starts here. -/
  | broken (start : Nat) (fault : Break)

/-- The number of bytes before a node. -/
def Node.start : Node → Nat
  | .scalar _ start _ => start
  | .array start _ _ => start
  | .object start _ _ => start
  | .broken start _ => start

/-- A container that waits for one of its values; what it holds already stands last first. -/
inductive Frame
  | item (start : Nat) (before : List Node)
  | member (start : Nat) (before : List (Key × Node)) (key : Key)

/-- What may come next. Items and members stand last first. -/
inductive Phase
  | value
  | firstItem (start : Nat)
  | afterItem (start : Nat) (items : List Node)
  | nextItem (start : Nat) (items : List Node)
  | firstKey (start : Nat)
  | afterKey (start : Nat) (members : List (Key × Node)) (text : Except Fault String)
  | afterMember (start : Nat) (members : List (Key × Node))
  | nextKey (start : Nat) (members : List (Key × Node))
  /-- The root is complete. -/
  | complete (root : Node)
  /-- Nothing that follows matters. -/
  | settled (root : Node) (trailing : Option Fault)

/-- A tree under construction. -/
structure Growth where
  phase : Phase
  frames : List Frame

namespace Growth

/-- Puts a value where one was awaited. -/
def fill (node : Node) : List Frame → Growth
  | [] => ⟨.complete node, []⟩
  | .item start before :: frames => ⟨.afterItem start (node :: before), frames⟩
  | .member start before key :: frames => ⟨.afterMember start ((key, node) :: before), frames⟩

/-- Closes all containers around a node in which the text stops being JSON. The ends given to them
are never looked at. -/
def unwind (node : Node) : List Frame → Node
  | [] => node
  | .item start before :: frames => unwind (.array start (node :: before).reverse .closed) frames
  | .member start before key :: frames =>
    unwind (.object start ((key, node) :: before).reverse (.closed start)) frames

/-- The text stops being JSON in a node. -/
def stop (node : Node) (frames : List Frame) : Growth :=
  ⟨.settled (unwind node frames) none, []⟩

/-- A token where a value is awaited. -/
def value (frames : List Frame) (token : Token) : Growth :=
  match token.lexeme with
  | .beginArray => ⟨.firstItem token.start, frames⟩
  | .beginObject => ⟨.firstKey token.start, frames⟩
  | .null => fill (.scalar .null token.start token.stop) frames
  | .bool b => fill (.scalar (.bool b) token.start token.stop) frames
  | .number n => fill (.scalar (.number n) token.start token.stop) frames
  | .string s => fill (.scalar (.string s) token.start token.stop) frames
  | .brokenString fault => stop (.broken token.start fault) frames
  | .brokenLiteral fault => stop (.broken token.start fault) frames
  | .endArray | .endObject | .comma | .colon | .stray =>
    stop (.broken token.start (.both .expectedValue (token.start + 1))) frames

/-- A token where a key is awaited. -/
def key (start : Nat) (members : List (Key × Node)) (frames : List Frame) (token : Token) :
    Growth :=
  match token.lexeme with
  | .string s => ⟨.afterKey start members s, frames⟩
  | .brokenString fault => stop (.object start members.reverse (.brokenKey fault)) frames
  | _ => stop (.object start members.reverse (.noKey token.start)) frames

/-- The tree after one more token. -/
def step (growth : Growth) (token : Token) : Growth :=
  let frames := growth.frames
  match growth.phase with
  | .value => value frames token
  | .firstItem start =>
    match token.lexeme with
    | .endArray => fill (.array start [] .closed) frames
    | _ => value (.item start [] :: frames) token
  | .afterItem start items =>
    match token.lexeme with
    | .comma => ⟨.nextItem start items, frames⟩
    | .endArray => fill (.array start items.reverse .closed) frames
    | _ => stop (.array start items.reverse (.junk token.start)) frames
  | .nextItem start items =>
    match token.lexeme with
    | .endArray => stop (.array start items.reverse (.commaClosed token.start)) frames
    | _ => value (.item start items :: frames) token
  | .firstKey start =>
    match token.lexeme with
    | .endObject => fill (.object start [] (.closed token.stop)) frames
    | _ => key start [] frames token
  | .afterKey start members text =>
    match token.lexeme with
    | .colon => ⟨.value, .member start members ⟨text, token.start⟩ :: frames⟩
    | .endObject =>
      stop (.broken token.start (.both .expectedColon (token.start + 1)))
        (.member start members ⟨text, token.start + 1⟩ :: frames)
    | _ =>
      stop (.broken token.start (.both .expectedColon (token.start + 1)))
        (.member start members ⟨text, token.start⟩ :: frames)
  | .afterMember start members =>
    match token.lexeme with
    | .comma => ⟨.nextKey start members, frames⟩
    | .endObject => fill (.object start members.reverse (.closed token.stop)) frames
    | _ => stop (.object start members.reverse (.junk token.start)) frames
  | .nextKey start members =>
    match token.lexeme with
    | .endObject => stop (.object start members.reverse (.commaClosed token.start)) frames
    | _ => key start members frames token
  | .complete root => ⟨.settled root (some ⟨.trailingCharacters, token.start + 1⟩), []⟩
  | .settled root trailing => ⟨.settled root trailing, []⟩

/-- A tree whose first token is still to come. -/
def start : Growth :=
  ⟨.value, []⟩

end Growth

/-- A root, and the fault of what follows it. -/
structure Document where
  root : Node
  trailing : Option Fault

/-- The tree at the end of a text of `size` bytes. -/
def Growth.finish (size : Nat) (growth : Growth) : Document :=
  let cut (node : Node) : Document := ⟨unwind node growth.frames, none⟩
  match growth.phase with
  | .value => cut (.broken size (.both .endInValue size))
  | .firstItem start => cut (.array start [] (.cut size))
  | .afterItem start items => cut (.array start items.reverse (.cut size))
  | .nextItem start items => cut (.array start items.reverse (.commaCut size))
  | .firstKey start => cut (.object start [] (.cut size))
  | .afterKey start members text =>
    cut (.object start ((⟨text, size⟩, .broken size (.both .endInObject size)) :: members).reverse
      (.cut size))
  | .afterMember start members => cut (.object start members.reverse (.cut size))
  | .nextKey start members => cut (.object start members.reverse (.commaCut size))
  | .complete root => ⟨root, none⟩
  | .settled root trailing => ⟨root, trailing⟩

/-- The tree of a text of `size` bytes with the given tokens. -/
def Document.ofTokens (size : Nat) (tokens : List Token) : Document :=
  (tokens.foldl Growth.step .start).finish size

/-- The tree of a text. -/
def Document.ofText (text : String) : Document :=
  .ofTokens text.utf8ByteSize (Token.scan 0 text.toList)

end ComponentRules.Json
