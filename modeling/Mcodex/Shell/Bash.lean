import Mcodex.Lib.SyntaxTree
import Mcodex.Lib.Text

/-!
# Plain commands of a shell script

A script that a shell is asked to run is parsed into a syntax tree. It is accepted when the tree
holds nothing but simple commands of plain words, joined by operators that are safe; the words of
each command are then read off the tree. The parser itself is a parameter.
-/

namespace Mcodex.Shell

open Text SyntaxTree

/-! ## The shell of a command -/

inductive ShellType where
  | zsh
  | bash
  | powerShell
  | sh
  | cmd
  deriving DecidableEq, Repr

inductive Component where
  | rootDir
  | curDir
  | parentDir
  | normal (name : List Char)
  deriving DecidableEq, Repr

/-- A component that is not the first of a path. -/
def innerComponent (piece : List Char) : List Component :=
  if piece = [] ∨ piece = ['.'] then []
  else if piece = ['.', '.'] then [.parentDir]
  else [.normal piece]

/-- `Path::components`. -/
def components (path : List Char) : List Component :=
  let pieces := path.splitOn '/'
  let first :=
    if path.head? = some '/' then [.rootDir]
    else if pieces.head? = some ['.'] then [.curDir]
    else pieces.head?.toList.flatMap innerComponent
  first ++ pieces.tail.flatMap innerComponent

/-- `Path::file_stem`: the last component, if it names a file, up to its last dot, unless it begins
there. -/
def fileStem (path : List Char) : Option (List Char) :=
  match (components path).getLast? with
  | some (.normal name) =>
    let before := (name.reverse.dropWhile (· ≠ '.')).tail.reverse
    some (if before = [] then name else before)
  | _ => none

/-- A path is asked for as it is, and then for its stem as long as that is another path. The stem is
shorter, so the length of the path bounds the rounds. -/
def detectShellTypeWithin : Nat → List Char → Option ShellType
  | 0, _ => none
  | fuel + 1, shellPath =>
    if shellPath = "zsh".toList then some .zsh
    else if shellPath = "sh".toList then some .sh
    else if shellPath = "cmd".toList then some .cmd
    else if shellPath = "bash".toList then some .bash
    else if shellPath = "pwsh".toList then some .powerShell
    else if shellPath = "powershell".toList then some .powerShell
    else
      match fileStem shellPath with
      | some shellName =>
        if components shellName ≠ components shellPath then detectShellTypeWithin fuel shellName
        else none
      | none => none

def detectShellType (shellPath : List Char) : Option ShellType :=
  detectShellTypeWithin (shellPath.length + 1) shellPath

/-- The shell and the script of a command that runs one. -/
def extractBashCommand : List (List Char) → Option (List Char × List Char)
  | [shell, flag, script] =>
    if (flag = "-lc".toList ∨ flag = "-c".toList) ∧
        detectShellType shell ∈ [some .zsh, some .bash, some .sh] then some (shell, script)
    else none
  | _ => none

/-! ## Accepted trees -/

structure Tree where
  root : Node
  hasError : Bool

def allowedKinds : List String :=
  ["program", "list", "pipeline", "command", "command_name", "word", "string", "string_content",
    "raw_string", "number", "concatenation"]

def allowedPunctTokens : List String := ["&&", "||", ";", "|", "\"", "'"]

/-- A named node of a listed kind, or a token that is a safe operator, a quote or whitespace. -/
def isAllowed (node : Node) : Bool :=
  if node.isNamed then node.kind ∈ allowedKinds
  else if node.kind.toList.any (· ∈ ['&', ';', '|']) ∧ node.kind ∉ allowedPunctTokens then false
  else node.kind ∈ allowedPunctTokens ∨ trim node.kind.toList = []

def isCommand (node : Node) : Bool := node.isNamed ∧ node.kind = "command"

/-- The command nodes of the trees on a stack, if all nodes are allowed. -/
def collectCommands (stack commandNodes : List Node) : Option (List Node) :=
  match stack with
  | [] => some commandNodes
  | node :: rest =>
    if isAllowed node then
      collectCommands (node.children.reverse ++ rest)
        (if isCommand node then commandNodes ++ [node] else commandNodes)
    else none
termination_by Node.stackSize stack
decreasing_by exact Node.stackSize_lt node rest

/-! ## Words -/

/-- `strip_prefix` and `strip_suffix` of a quote. -/
def stripQuotes (quote : Char) (raw : List Char) : Option (List Char) :=
  match raw with
  | [] => none
  | c :: rest => if c = quote ∧ rest.getLast? = some quote then some rest.dropLast else none

def parseDoubleQuotedString (src : List Char) (node : Node) : Option (List Char) :=
  if node.kind ≠ "string" then none
  else if node.namedChildren.any (·.kind ≠ "string_content") then none
  else (node.utf8Text src).bind (stripQuotes '"')

def parseRawString (src : List Char) (node : Node) : Option (List Char) :=
  if node.kind ≠ "raw_string" then none else (node.utf8Text src).bind (stripQuotes '\'')

/-- A word that is one node, or a part of a concatenation. -/
def parsePart (src : List Char) (node : Node) : Option (List Char) :=
  if node.kind = "word" ∨ node.kind = "number" then node.utf8Text src
  else if node.kind = "string" then parseDoubleQuotedString src node
  else if node.kind = "raw_string" then parseRawString src node
  else none

/-- A word of a command. -/
def parseWord (src : List Char) (node : Node) : Option (List Char) :=
  if node.kind = "command_name" then do
    let wordNode ← node.namedChildren.head?
    if wordNode.kind ≠ "word" then none else wordNode.utf8Text src
  else if node.kind = "concatenation" then do
    let parts ← node.namedChildren.mapM (parsePart src)
    if parts.flatten.isEmpty then none else some parts.flatten
  else parsePart src node

def parsePlainCommandFromNode (src : List Char) (cmd : Node) : Option (List (List Char)) :=
  if cmd.kind ≠ "command" then none else cmd.namedChildren.mapM (parseWord src)

def tryParseWordOnlyCommandsSequence (tree : Tree) (src : List Char) :
    Option (List (List (List Char))) :=
  if tree.hasError then none
  else do
    let commandNodes ← collectCommands [tree.root] []
    let sorted := commandNodes.mergeSort fun a b => a.startByte ≤ b.startByte
    sorted.mapM (parsePlainCommandFromNode src)

/-- The words of the commands of a script, by the tree that the parser gives. -/
def parseShellLcPlainCommands (tryParseShell : List Char → Option Tree)
    (command : List (List Char)) : Option (List (List (List Char))) := do
  let (_, script) ← extractBashCommand command
  let tree ← tryParseShell script
  tryParseWordOnlyCommandsSequence tree script

/-- The stack walk in one: every node is asked, and the command nodes are kept in its order. -/
theorem collectCommands_eq (stack commandNodes : List Node) :
    collectCommands stack commandNodes =
      if ∀ node ∈ Node.walk stack, isAllowed node then
        some (commandNodes ++ (Node.walk stack).filter isCommand)
      else none := by
  induction stack using Node.walk.induct generalizing commandNodes with
  | case1 =>
    rw [collectCommands, Node.walk_nil]
    simp
  | case2 node rest ih =>
    rw [collectCommands, Node.walk_cons, List.filter_cons]
    simp only [List.forall_mem_cons]
    split
    · next hallowed =>
      rw [ih]
      simp only [hallowed, true_and]
      split
      · split <;> simp
      · rfl
    · next hallowed => rw [if_neg fun h => hallowed h.1]

end Mcodex.Shell
