import Hdf.HcGen.Expand
import Hdf.HcGen.Lexer

/-!
# The parser of hc-gen

`ParseOne` turns one source file into an AST and the list of the files it
includes. `Parse` keeps the files still to be read in a work list: it reads the
front, puts the files that this one includes in front of the rest, and at last
merges all ASTs into the second one in reading order, the first one last.

Every node gets an address from a counter when it is made. The recursion over
nested nodes takes a bound on its calls; every call reads a token, and the bound
is larger than the number of characters.
-/

namespace Hdf.HcGen

open Transition

/-- The state of `class Parser` while it reads one file. -/
structure ParseState where
  lexer : Lexer
  current : Token := { type := .eof }
  nextUid : ℕ

namespace ParseState

/-- `lexer_.Lex(current_)`. -/
def lex (st : ParseState) : Option ParseState :=
  st.lexer.lex.map fun (token, lexer) => { st with lexer := lexer, current := token }

/-- Whether the current token is of a type. -/
def is (st : ParseState) (kind : TokenKind) : Bool := st.current.type == kind

/-- Whether the current token is the character. -/
def isChar (st : ParseState) (c : Char) : Bool := st.is (.char (Lexer.byte c))

/-- Reads a token that has to be the given character. -/
def expect (st : ParseState) (c : Char) : Option ParseState :=
  st.lex.bind fun st => if st.isChar c then some st else none

/-- Reads the opening brace of a node, unless it has been read. -/
def openNode (st : ParseState) (bracesStart : Bool) : Option ParseState :=
  if bracesStart then some st else st.expect '\x7b'

/-- Whether the current token can name a node. -/
def isPath (st : ParseState) : Bool := st.is (.token .literal) || st.is (.token .refPath)

end ParseState

/-- The number object for a token, which gets the narrowest type that fits. -/
def numberDatum (value : UInt64) : Datum := .number (fitIntegerValueType value) value

/-- The array element for a token. -/
def arrayElement (token : Token) : Option Datum :=
  match token.type with
  | .token .string => some (.string token.strval)
  | .token .number => some (numberDatum token.numval)
  | _ => none

/-- The loop of `Parser::ParseArray`, with the fields of the array that
`ConfigArray::AddChild` keeps and the type of its first token. -/
def arrayLoop : ℕ → ParseState → Option TokenKind → ℕ → UInt32 → List Datum →
    Option (Value × ParseState)
  | 0, _, _, _, _, _ => none
  | rounds + 1, st, arrayKind, arrayType, arraySize, elements => do
    let st ← st.lex
    if st.isChar ']' then return (.array arrayType arraySize elements, st)
    let datum ← arrayElement st.current
    if arrayKind.any (· != st.current.type) then none
    else
      let kind := st.current.type
      let arrayType := max arrayType datum.type.code
      let st ← st.lex
      if st.isChar ',' then
        arrayLoop rounds st (some kind) arrayType (arraySize + 1) (elements ++ [datum])
      else if st.isChar ']' then
        return (.array arrayType (arraySize + 1) (elements ++ [datum]), st)
      else none

/-- `Parser::ParseArray`. -/
def parseArray (st : ParseState) : Option (Value × ParseState) :=
  arrayLoop st.lexer.size st none 0 0 []

/-- The value of a term, from its first token on. -/
def parseValue (st : ParseState) : Option (Value × ParseState) :=
  match st.current.type with
  | .token .string => some (.datum (.string st.current.strval), st)
  | .token .number => some (.datum (numberDatum st.current.numval), st)
  | .token .delete => some (.delete, st)
  | .char c =>
    if c = Lexer.byte '[' then parseArray st
    else if c = Lexer.byte '&' then
      st.lex.bind fun st =>
        if st.isPath then some (.nodeRef st.current.strval, st) else none
    else none
  | _ => none

/-- `Parser::ParseTerm`. -/
def parseTerm (name : Token) (st : ParseState) : Option (AstObject × ParseState) := do
  let st ← st.lex
  let (value, st) ← parseValue st
  let st ← st.expect ';'
  return (.leaf (.term { name := name.strval, refNode := none, value := value }), st)

section Nodes

-- `body` reads the children of a node up to the closing brace.
variable (body : ParseState → Option (List AstObject × ParseState))

/-- `Parser::ParseNode`, followed by `SetNodeType` and `SetRefPath`. -/
def parseNode (name : Token) (nodeType : NodeRefType) (refPath : Bytes) (bracesStart : Bool)
    (st : ParseState) : Option (AstObject × ParseState) := do
  let st ← st.openNode bracesStart
  let uid := st.nextUid
  let (children, st) ← body { st with nextUid := uid + 1 }
  return (.node {
    uid := uid
    name := name.strval
    nodeType := nodeType
    refNodePath := refPath } children, st)

/-- `Parser::ParseTemplate`. -/
def parseTemplate (st : ParseState) : Option (AstObject × ParseState) := do
  let st ← st.lex
  if st.is (.token .literal) then parseNode body st.current .template [] false st else none

/-- `Parser::ParseNodeCopy`. -/
def parseNodeCopy (name : Token) (st : ParseState) : Option (AstObject × ParseState) :=
  parseNode body name .copy st.current.strval false st

/-- `Parser::ParseNodeRef`. -/
def parseNodeRef (name : Token) (st : ParseState) : Option (AstObject × ParseState) := do
  let st ← st.lex
  if st.isPath then parseNode body name .ref st.current.strval false st else none

/-- `Parser::ParseNodeDelete`. -/
def parseNodeDelete (name : Token) (st : ParseState) : Option (AstObject × ParseState) :=
  parseNode body name .delete [] false st

/-- `Parser::ParseNodeInherit`. -/
def parseNodeInherit (name : Token) (st : ParseState) : Option (AstObject × ParseState) := do
  let st ← st.lex
  if st.isPath then parseNode body name .inherit st.current.strval false st else none

/-- `Parser::ParseNodeWithRef`. -/
def parseNodeWithRef (name : Token) (st : ParseState) : Option (AstObject × ParseState) :=
  match st.current.type with
  | .token .refPath => parseNodeCopy body name st
  | .token .literal => parseNodeCopy body name st
  | .token .delete => parseNodeDelete body name st
  | .char c =>
    if c = Lexer.byte '&' then parseNodeRef body name st
    else if c = Lexer.byte ':' then parseNodeInherit body name st
    else none
  | _ => none

/-- `Parser::ParseNodeAndTerm`. -/
def parseNodeAndTerm (st : ParseState) : Option (AstObject × ParseState) := do
  let name := st.current
  let st ← st.lex
  if st.isChar '=' then parseTerm name st
  else if st.isChar '\x7b' then parseNode body name .noref [] true st
  else if st.isChar ':' then
    let st ← st.lex
    parseNodeWithRef body name st
  else none

/-- A child of a node, from its first token on. -/
def parseChild (st : ParseState) : Option (AstObject × ParseState) :=
  match st.current.type with
  | .token .template => parseTemplate body st
  | .token .literal => parseNodeAndTerm body st
  | _ => none

end Nodes

/-- The loop of `Parser::ParseNode`: the children up to the closing brace. -/
def parseBody : ℕ → List AstObject → ParseState → Option (List AstObject × ParseState)
  | 0, _, _ => none
  | rounds + 1, children, st => do
    let st ← st.lex
    if st.isChar '\x7d' then return (children, st)
    let (child, st) ← parseChild (parseBody rounds []) st
    parseBody rounds (children ++ [child]) st

/-! ### Files -/

/-- What the parser asks the operating system: the blocks in which a file is
read, when it can be opened, and `realpath`, empty when it fails. -/
structure FileSystem where
  read : Bytes → Option (List Bytes)
  realpath : Bytes → Bytes

/-- `OS_SEPARATOR`. -/
def separator : UInt8 := Lexer.byte '/'

/-- `Util::File::GetDir`. -/
def getDir (path : Bytes) : Bytes :=
  if separator ∈ path then (path.reverse.dropWhile (· ≠ separator)).reverse else path

/-- The root node of a file, which only a file of include directives may miss. -/
def parseRoot (rounds : ℕ) (st : ParseState) : Option (Option AstObject × ParseState) :=
  if st.is (.token .root) then
    (parseNode (parseBody rounds []) { type := .token .literal, strval := ascii "root" }
      .noref [] false st).map fun (node, st) => (some node, st)
  else if st.is .eof then some (none, st)
  else none

section

variable (fs : FileSystem)

/-- The path that an include directive of the file `src` names. -/
def includePath (src path : Bytes) : Option Bytes :=
  match path with
  | [] => none
  | c :: _ =>
    let absolute := fs.realpath (if c ≠ separator then getDir src ++ path else path)
    if absolute = [] then none else some absolute

/-- The loop of `Parser::ProcessInclude`. -/
def processInclude (src : Bytes) : ℕ → List Bytes → ParseState → Option (List Bytes × ParseState)
  | 0, _, _ => none
  | rounds + 1, includeList, st => do
    let st ← st.lex
    if !st.is (.token .string) then none
    else
      let path ← includePath fs src st.current.strval
      let st ← st.lex
      if st.is (.token .include) then processInclude src rounds (includeList ++ [path]) st
      else return (includeList ++ [path], st)

/-- The include directives at the head of a file. -/
def parseIncludes (src : Bytes) (rounds : ℕ) (st : ParseState) : Option (List Bytes × ParseState) :=
  if st.is (.token .include) then processInclude fs src rounds [] st else some ([], st)

/-- What `ParseOne` makes of a file: its AST, the files it includes and the next
free address. -/
structure ParsedFile where
  ast : Ast
  includeList : List Bytes
  nextUid : ℕ

/-- `Parser::ParseOne`. -/
def parseOne (src : Bytes) (nextUid : ℕ) : Option ParsedFile := do
  let blocks ← fs.read src
  let lexer : Lexer := { blocks := blocks }
  let st ← ParseState.lex { lexer := lexer, nextUid := nextUid }
  let (includeList, st) ← parseIncludes fs src lexer.size st
  let (rootNode, st) ← parseRoot lexer.size st
  let st ← st.lex
  if st.is .eof then
    return { ast := { astRoot := rootNode }, includeList := includeList, nextUid := st.nextUid }
  else none

/-- The work list of `Parser::Parse`: the files parsed so far, the queue and the
next free address. -/
structure WorkList where
  astList : List Ast
  srcQueue : List Bytes
  nextUid : ℕ

/-- One round of the loop of `Parser::Parse`. The result is the list of ASTs
when the queue is empty, and nothing when a file does not parse. -/
def readRound (work : WorkList) : Step WorkList (Option (List Ast × ℕ)) :=
  match work.srcQueue with
  | [] => .halt (some (work.astList, work.nextUid))
  | src :: rest =>
    match parseOne fs src work.nextUid with
    | none => .halt none
    | some file => .next {
        astList := work.astList ++ [file.ast]
        srcQueue := file.includeList ++ rest
        nextUid := file.nextUid }

end

/-- The order in which `Parser::Parse` merges: the main file, which was read
first, is moved to the back, and the others are merged into the front. -/
def mergeOrder (astList : List Ast) : List Ast :=
  match astList with
  | [] => []
  | main :: included => included ++ [main]

/-- `Parser::Parse` from the list of ASTs up to the expansion. -/
def mergeFiles (astList : List Ast) : Option Ast :=
  match mergeOrder astList with
  | [] => none
  | ast :: rest => ast.merge rest

/-! ### Expansion -/

/-- `Ast::Expand` up to its two walks. -/
def Ast.expand (ast : Ast) (fresh : ℕ) : Step State Outcome :=
  match ast.astRoot with
  | none => .halt .crashed
  | some root =>
    if !ast.redefineCheck.1 then .halt (.returned false root)
    else
      match lookupIndex root.children (ascii "module") (some .confTerm) with
      | none => .halt (.returned false root)
      | some _ => .next (start root fresh)

/-- The states that the expansion of an AST passes through. -/
def Ast.Reaches (ast : Ast) (fresh : ℕ) (s : State) : Prop :=
  ∃ root, ast.expand fresh = .next (start root fresh) ∧ Steps step (start root fresh) s

/-- `Ast::Expand` ends with an outcome. -/
def Ast.Expands (ast : Ast) (fresh : ℕ) (outcome : Outcome) : Prop :=
  ast.expand fresh = .halt outcome ∨
    ∃ root, ast.expand fresh = .next (start root fresh) ∧ Returns step (start root fresh) outcome

/-- `Parser::Parse` reads and merges the files it finds from the main file on
into this AST; the addresses from `fresh` on are not used in it. -/
def MergedFrom (fs : FileSystem) (main : Bytes) (ast : Ast) (fresh : ℕ) : Prop :=
  ∃ astList,
    Returns (readRound fs) { astList := [], srcQueue := [main], nextUid := 0 }
      (some (astList, fresh)) ∧ mergeFiles astList = some ast

/-- `Parser::Parse` returns true for the main file, and leaves this tree. A main
file without a root node is an error. -/
def Parses (fs : FileSystem) (main : Bytes) (root : AstObject) : Prop :=
  ∃ ast fresh, MergedFrom fs main ast fresh ∧ ast.Expands fresh (.returned true root)

end Hdf.HcGen
