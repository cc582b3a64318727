import Mcodex.Shell.Bash
import Mcodex.Shell.Quoting

/-!
# The words that are judged and the words that run

The commands read off a tree are compared with the simple commands of the script, in the order of
the text, each with the words that bash passes to its program. The tree is taken to be faithful to
the script. The reader takes the quotes off a word and leaves every backslash, so it gives the
words that run exactly when bash removes no backslash.
-/

namespace Mcodex.Shell

open SyntaxTree

/-! ## What runs -/

def sourceText (src : List Char) (node : Node) : List Char := (node.utf8Text src).getD []

/-- The words of a simple command, as bash passes them on. -/
def commandWords (src : List Char) (cmd : Node) : List (List Char) :=
  cmd.namedChildren.map fun word => removeQuotes .unquoted (sourceText src word)

/-- The simple commands of a script, in the order of its text. -/
def simpleCommands (src : List Char) (root : Node) : List (List (List Char)) :=
  (root.preorder.filter isCommand).map (commandWords src)

/-- The tree of a script is what its grammar says. -/
structure Faithful (src : List Char) (root : Node) : Prop where
  laid : ∀ node ∈ root.preorder, node.Laid
  covers : ∀ node ∈ root.preorder, isCommand node → node.startByte < node.endByte
  /-- A simple command holds another in a substitution only. -/
  nest : ∀ node ∈ root.preorder, isCommand node → (∀ x ∈ node.preorder, isAllowed x) →
    ∀ child ∈ node.children, ∀ x ∈ child.preorder, ¬ isCommand x
  commandName : ∀ node ∈ root.preorder, node.kind = "command_name" →
    ∃ child, node.namedChildren = [child] ∧ child.utf8Text src = node.utf8Text src
  bare : ∀ node ∈ root.preorder, node.kind = "word" ∨ node.kind = "number" →
    ∃ text, node.utf8Text src = some text ∧ Bare text
  string : ∀ node ∈ root.preorder, node.kind = "string" →
    (∀ part ∈ node.namedChildren, part.kind = "string_content") →
      ∃ text, node.utf8Text src = some ('"' :: (text ++ ['"'])) ∧ DoubleQuoted text
  rawString : ∀ node ∈ root.preorder, node.kind = "raw_string" →
    ∃ text, node.utf8Text src = some ('\'' :: (text ++ ['\''])) ∧ '\'' ∉ text
  /-- The parts of a concatenation stand next to each other. -/
  concatenation : ∀ node ∈ root.preorder, node.kind = "concatenation" →
    (∀ part ∈ node.children, isAllowed part) →
      node.utf8Text src = some (node.namedChildren.flatMap (sourceText src))

/-! ## Words without a backslash to remove -/

/-- No backslash stands outside quotes, and none in double quotes before a character that it
escapes there. -/
def PlainPart (src : List Char) (node : Node) : Prop :=
  if node.kind = "string" then EscapeFree (sourceText src node).tail.dropLast
  else if node.kind = "raw_string" then True
  else '\\' ∉ sourceText src node

def PlainWord (src : List Char) (node : Node) : Prop :=
  if node.kind = "concatenation" then ∀ part ∈ node.namedChildren, PlainPart src part
  else PlainPart src node

instance (src : List Char) (node : Node) : Decidable (PlainPart src node) :=
  inferInstanceAs (Decidable (ite _ _ _))

instance (src : List Char) (node : Node) : Decidable (PlainWord src node) :=
  inferInstanceAs (Decidable (ite _ _ _))

theorem mapM_cons_eq_some {α β : Type} {f : α → Option β} {a : α} {l : List α} {r : List β}
    (h : (a :: l).mapM f = some r) : ∃ b s, f a = some b ∧ l.mapM f = some s ∧ r = b :: s := by
  rw [List.mapM_cons] at h
  obtain ⟨b, hb, h⟩ := Option.bind_eq_some_iff.1 h
  obtain ⟨s, hs, h⟩ := Option.bind_eq_some_iff.1 h
  exact ⟨b, s, hb, hs, (Option.some.inj h).symm⟩

/-- A list that is read item by item is another one when every item is read as the other has it. -/
theorem mapM_eq_map_iff {α β : Type} {f : α → Option β} {g : α → β} {l : List α} {r : List β}
    (h : l.mapM f = some r) : r = l.map g ↔ ∀ a ∈ l, f a = some (g a) := by
  induction l generalizing r with
  | nil =>
    cases h
    simp
  | cons a l ih =>
    obtain ⟨b, s, hb, hs, rfl⟩ := mapM_cons_eq_some h
    rw [List.map_cons, List.cons.injEq, ih hs, List.forall_mem_cons, hb, Option.some.injEq]

theorem isSome_of_mapM {α β : Type} {f : α → Option β} {l : List α} {r : List β}
    (h : l.mapM f = some r) : ∀ a ∈ l, ∃ b, f a = some b := by
  induction l generalizing r with
  | nil => exact fun _ ha => nomatch ha
  | cons a l ih =>
    obtain ⟨b, s, hb, hs, rfl⟩ := mapM_cons_eq_some h
    rw [List.forall_mem_cons]
    exact ⟨⟨b, hb⟩, ih hs⟩

theorem stripQuotes_quoted (quote : Char) (text : List Char) :
    stripQuotes quote (quote :: (text ++ [quote])) = some text := by
  rw [stripQuotes, if_pos ⟨rfl, List.getLast?_concat⟩, List.dropLast_concat]

section
variable {src : List Char} {root node : Node} {word : List Char}

/-- What is read of a part, what is written, and what bash makes of it. -/
def ReadsAs (src : List Char) (node : Node) (word : List Char) (part : Part) : Prop :=
  part.WellFormed ∧ sourceText src node = part.source ∧ word = part.stripped ∧
    (PlainPart src node ↔ part.Plain)

theorem parsePart_reads (hf : Faithful src root) (hmem : node ∈ root.preorder)
    (h : parsePart src node = some word) : ∃ part, ReadsAs src node word part := by
  unfold parsePart at h
  split at h
  · next hkind =>
    obtain ⟨text, htext, hbare⟩ := hf.bare node hmem hkind
    rw [htext] at h
    cases h
    have hsource : sourceText src node = word := by rw [sourceText, htext, Option.getD_some]
    have hplain : PlainPart src node ↔ '\\' ∉ word := by
      rw [PlainPart, hsource]
      rcases hkind with hkind | hkind
      · rw [hkind, if_neg (by decide), if_neg (by decide)]
      · rw [hkind, if_neg (by decide), if_neg (by decide)]
    exact ⟨.bare word, hbare, hsource, rfl, hplain⟩
  · split at h
    · next hkind =>
      rw [parseDoubleQuotedString, if_neg (not_not.2 hkind)] at h
      split at h
      · cases h
      · next hcontent =>
        have hparts : ∀ part ∈ node.namedChildren, part.kind = "string_content" := by
          simpa using hcontent
        obtain ⟨text, htext, hquoted⟩ := hf.string node hmem hkind hparts
        rw [htext, Option.bind_some, stripQuotes_quoted] at h
        cases h
        have hsource : sourceText src node = '"' :: (word ++ ['"']) := by
          rw [sourceText, htext, Option.getD_some]
        refine ⟨.doubleQuoted word, hquoted, hsource, rfl, ?_⟩
        rw [PlainPart, if_pos hkind, hsource, List.tail_cons, List.dropLast_concat]
        rfl
    · next hkind =>
      split at h
      · next hraw =>
        rw [parseRawString, if_neg (not_not.2 hraw)] at h
        obtain ⟨text, htext, hquoted⟩ := hf.rawString node hmem hraw
        rw [htext, Option.bind_some, stripQuotes_quoted] at h
        cases h
        have hsource : sourceText src node = '\'' :: (word ++ ['\'']) := by
          rw [sourceText, htext, Option.getD_some]
        refine ⟨.singleQuoted word, hquoted, hsource, rfl, ?_⟩
        rw [PlainPart, if_neg hkind, if_pos hraw]
        rfl
      · cases h

theorem parseParts_reads (hf : Faithful src root) {nodes : List Node}
    (hmem : ∀ node ∈ nodes, node ∈ root.preorder) {words : List (List Char)}
    (h : nodes.mapM (parsePart src) = some words) :
    ∃ parts : List Part, (∀ part ∈ parts, part.WellFormed) ∧
      nodes.flatMap (sourceText src) = parts.flatMap Part.source ∧
      words.flatten = parts.flatMap Part.stripped ∧
      ((∀ node ∈ nodes, PlainPart src node) ↔ ∀ part ∈ parts, part.Plain) := by
  induction nodes generalizing words with
  | nil =>
    cases h
    exact ⟨[], by simp, rfl, rfl, by simp⟩
  | cons node nodes ih =>
    obtain ⟨word, words, hword, hwords, rfl⟩ := mapM_cons_eq_some h
    obtain ⟨hnode, hnodes⟩ := List.forall_mem_cons.1 hmem
    obtain ⟨part, hwf, hsource, rfl, hplain⟩ := parsePart_reads hf hnode hword
    obtain ⟨parts, hwfs, hsources, hstripped, hplains⟩ := ih hnodes hwords
    refine ⟨part :: parts, List.forall_mem_cons.2 ⟨hwf, hwfs⟩, ?_, ?_, ?_⟩
    · rw [List.flatMap_cons, List.flatMap_cons, hsource, hsources]
    · rw [List.flatten_cons, List.flatMap_cons, hstripped]
    · rw [List.forall_mem_cons, List.forall_mem_cons, hplain, hplains]

/-- A word is read as its parts less their quotes. -/
theorem parseWord_reads (hf : Faithful src root) (hmem : node ∈ root.preorder)
    (hallowed : ∀ x ∈ node.preorder, isAllowed x) (h : parseWord src node = some word) :
    ∃ parts : List Part, (∀ part ∈ parts, part.WellFormed) ∧
      sourceText src node = parts.flatMap Part.source ∧ word = parts.flatMap Part.stripped ∧
      (PlainWord src node ↔ ∀ part ∈ parts, part.Plain) := by
  have hchildren : ∀ child ∈ node.namedChildren, child ∈ root.preorder := by
    intro child hchild
    exact Node.preorder_trans hmem
      (Node.mem_preorder_of_child (List.mem_filter.1 hchild).1 (Node.mem_preorder_self child))
  have single : ∀ part, ReadsAs src node word part → node.kind ≠ "concatenation" →
      ∃ parts : List Part, (∀ part ∈ parts, part.WellFormed) ∧
        sourceText src node = parts.flatMap Part.source ∧ word = parts.flatMap Part.stripped ∧
        (PlainWord src node ↔ ∀ part ∈ parts, part.Plain) := by
    rintro part ⟨hwf, hsource, hword, hplain⟩ hkind
    refine ⟨[part], by simpa using hwf, by simpa using hsource, by simpa using hword, ?_⟩
    rw [PlainWord, if_neg hkind, List.forall_mem_singleton, hplain]
  unfold parseWord at h
  split at h
  · next hkind =>
    obtain ⟨child, hchild, htext⟩ := hf.commandName node hmem hkind
    rw [hchild] at h
    obtain ⟨wordNode, hhead, h⟩ := Option.bind_eq_some_iff.1 h
    obtain rfl : child = wordNode := Option.some.inj hhead
    split at h
    · cases h
    · next hword =>
      have hwordKind : child.kind = "word" := by simpa using hword
      have hmem' := hchildren child (by rw [hchild]; exact List.mem_singleton_self _)
      obtain ⟨text, htext', hbare⟩ := hf.bare child hmem' (.inl hwordKind)
      rw [htext'] at h
      cases h
      have hsource : sourceText src node = word := by
        rw [sourceText, ← htext, htext', Option.getD_some]
      refine single (.bare word) ⟨hbare, hsource, rfl, ?_⟩ (by rw [hkind]; decide)
      rw [PlainPart, hsource, hkind, if_neg (by decide), if_neg (by decide)]
      rfl
  · split at h
    · next hkind =>
      obtain ⟨words, hwords, h⟩ := Option.bind_eq_some_iff.1 h
      split at h
      · cases h
      · cases h
        obtain ⟨parts, hwf, hsource, hstripped, hplain⟩ := parseParts_reads hf hchildren hwords
        have htext := hf.concatenation node hmem hkind fun part hpart =>
          hallowed part (Node.mem_preorder_of_child hpart (Node.mem_preorder_self part))
        refine ⟨parts, hwf, ?_, hstripped, ?_⟩
        · rw [sourceText, htext, Option.getD_some, hsource]
        · rw [PlainWord, if_pos hkind, hplain]
    · next hkind =>
      obtain ⟨part, hreads⟩ := parsePart_reads hf hmem h
      exact single part hreads hkind

/-- A word is read as bash passes it on exactly when no backslash of it is removed. -/
theorem parseWord_eq_iff (hf : Faithful src root) (hmem : node ∈ root.preorder)
    (hallowed : ∀ x ∈ node.preorder, isAllowed x) (h : parseWord src node = some word) :
    parseWord src node = some (removeQuotes .unquoted (sourceText src node)) ↔
      PlainWord src node := by
  obtain ⟨parts, hwf, hsource, rfl, hplain⟩ := parseWord_reads hf hmem hallowed h
  rw [h, Option.some.injEq, hsource, removeQuotes_parts hwf, stripped_eq_value hwf, hplain]

theorem parsePlainCommand_eq_iff (hf : Faithful src root) (hmem : node ∈ root.preorder)
    (hallowed : ∀ x ∈ node.preorder, isAllowed x) {words : List (List Char)}
    (h : parsePlainCommandFromNode src node = some words) :
    parsePlainCommandFromNode src node = some (commandWords src node) ↔
      ∀ word ∈ node.namedChildren, PlainWord src word := by
  rw [h, Option.some.injEq]
  unfold parsePlainCommandFromNode at h
  split at h
  · cases h
  · rw [commandWords, mapM_eq_map_iff h]
    refine forall₂_congr fun child hchild => ?_
    have hchildMem := (List.mem_filter.1 hchild).1
    obtain ⟨word, hword⟩ := isSome_of_mapM h child hchild
    refine parseWord_eq_iff hf ?_ (fun x hx => ?_) hword
    · exact Node.preorder_trans hmem
        (Node.mem_preorder_of_child hchildMem (Node.mem_preorder_self child))
    · exact hallowed x (Node.mem_preorder_of_child hchildMem hx)

end

/-- The commands of an accepted script are read in the order of its text. -/
theorem tryParseWordOnlyCommandsSequence_eq {src : List Char} {tree : Tree}
    (hf : Faithful src tree.root) : tryParseWordOnlyCommandsSequence tree src =
      if tree.hasError = false ∧ ∀ node ∈ tree.root.preorder, isAllowed node then
        (tree.root.preorder.filter isCommand).mapM (parsePlainCommandFromNode src)
      else none := by
  have hmem : ∀ node, node ∈ Node.walk [tree.root] ↔ node ∈ tree.root.preorder := fun node =>
    (Node.walk_root_perm tree.root).mem_iff
  unfold tryParseWordOnlyCommandsSequence
  rw [collectCommands_eq, List.nil_append]
  simp only [hmem]
  cases tree.hasError with
  | true => rw [if_pos rfl, if_neg (by simp)]
  | false =>
    rw [if_neg Bool.false_ne_true]
    by_cases hallowed : ∀ node ∈ tree.root.preorder, isAllowed node
    · have hordered := Node.pairwise_startByte hf.laid hf.covers fun node hn hcmd =>
        hf.nest node hn hcmd fun x hx => hallowed x (Node.preorder_trans hn hx)
      rw [if_pos hallowed, if_pos ⟨rfl, hallowed⟩, Option.bind_eq_bind, Option.bind_some,
        Node.mergeSort_walk hordered]
    · rw [if_neg hallowed, if_neg fun h => hallowed h.2]
      rfl

/-- The commands that are judged are the commands that run exactly when no word has a backslash that
bash removes. -/
theorem plainCommands_eq_iff {tryParseShell : List Char → Option Tree}
    {command : List (List Char)} {shell script : List Char} {tree : Tree}
    {commands : List (List (List Char))}
    (hscript : extractBashCommand command = some (shell, script))
    (htree : tryParseShell script = some tree) (hf : Faithful script tree.root)
    (h : parseShellLcPlainCommands tryParseShell command = some commands) :
    commands = simpleCommands script tree.root ↔
      ∀ cmd ∈ tree.root.preorder, isCommand cmd →
        ∀ word ∈ cmd.namedChildren, PlainWord script word := by
  unfold parseShellLcPlainCommands at h
  rw [hscript, Option.bind_eq_bind, Option.bind_some] at h
  dsimp only at h
  rw [htree, Option.bind_eq_bind, Option.bind_some, tryParseWordOnlyCommandsSequence_eq hf] at h
  split at h
  · next hallowed =>
    rw [simpleCommands, mapM_eq_map_iff h]
    simp only [List.mem_filter, and_imp]
    refine forall₃_congr fun cmd hmem hcmd => ?_
    obtain ⟨words, hwords⟩ := isSome_of_mapM h cmd (List.mem_filter.2 ⟨hmem, hcmd⟩)
    exact parsePlainCommand_eq_iff hf hmem
      (fun x hx => hallowed.2 x (Node.preorder_trans hmem hx)) hwords
  · cases h

/-! ## A command of three words -/

/-- The tree of `find . ` and a word of eight bytes. -/
def findTree (kind : String) : Tree :=
  ⟨.mk "program" true 0 15 [.mk "command" true 0 15 [
    .mk "command_name" true 0 4 [.mk "word" true 0 4 []], .mk "word" true 5 6 [],
    .mk kind true 7 15 []]], false⟩

def findScript (word : List Char) : List Char := ['f', 'i', 'n', 'd', ' ', '.', ' '] ++ word

theorem bare_of_plain {text : List Char}
    (h : text.all (· ∉ ['\'', '"', '\\', '$', '`']) = true) : Bare text := by
  induction text with
  | nil => exact Bare.nil
  | cons c text ih =>
    rw [List.all_cons, Bool.and_eq_true, decide_eq_true_eq] at h
    exact Bare.plain h.1 (ih h.2)

theorem faithful_findTree {kind : String} {src : List Char}
    (hkind : kind = "word" ∨ kind = "raw_string")
    (hname : Node.utf8Text src (.mk "word" true 0 4 []) = some ['f', 'i', 'n', 'd'])
    (hdot : Node.utf8Text src (.mk "word" true 5 6 []) = some ['.'])
    (hbare : kind = "word" → ∃ text, Node.utf8Text src (.mk kind true 7 15 []) = some text ∧
      Bare text)
    (hraw : kind = "raw_string" → ∃ text, Node.utf8Text src (.mk kind true 7 15 []) =
      some ('\'' :: (text ++ ['\''])) ∧ '\'' ∉ text) :
    Faithful src (findTree kind).root := by
  have nodes : ∀ {P : Node → Prop}, P (findTree kind).root →
      P (.mk "command" true 0 15 [.mk "command_name" true 0 4 [.mk "word" true 0 4 []],
        .mk "word" true 5 6 [], .mk kind true 7 15 []]) →
      P (.mk "command_name" true 0 4 [.mk "word" true 0 4 []]) → P (.mk "word" true 0 4 []) →
      P (.mk "word" true 5 6 []) → P (.mk kind true 7 15 []) →
      ∀ node ∈ (findTree kind).root.preorder, P node := by
    intro P hroot hcommand hname hfirst hdot hlast
    show ∀ node ∈ [_, _, _, _, _, _], P node
    simp only [List.forall_mem_cons]
    exact ⟨hroot, hcommand, hname, hfirst, hdot, hlast, fun _ hn => nomatch hn⟩
  have hlast : kind = "word" ∨ kind = "number" →
      ∃ text, Node.utf8Text src (.mk kind true 7 15 []) = some text ∧ Bare text := by
    rintro (hword | rfl)
    · exact hbare hword
    · exact absurd hkind (by decide)
  rcases hkind with rfl | rfl
  all_goals
    constructor
    · decide
    · decide
    · decide
    · exact nodes (fun h => absurd h (by decide)) (fun h => absurd h (by decide))
        (fun _ => ⟨_, rfl, rfl⟩) (fun h => absurd h (by decide)) (fun h => absurd h (by decide))
        (fun h => absurd h (by decide))
    · exact nodes (fun h => absurd h (by decide)) (fun h => absurd h (by decide))
        (fun h => absurd h (by decide)) (fun _ => ⟨_, hname, bare_of_plain (by decide)⟩)
        (fun _ => ⟨_, hdot, bare_of_plain (by decide)⟩) hlast
    · exact nodes (fun h => absurd h (by decide)) (fun h => absurd h (by decide))
        (fun h => absurd h (by decide)) (fun h => absurd h (by decide))
        (fun h => absurd h (by decide)) (fun h => absurd h (by decide))
    · exact nodes (fun h => absurd h (by decide)) (fun h => absurd h (by decide))
        (fun h => absurd h (by decide)) (fun h => absurd h (by decide))
        (fun h => absurd h (by decide)) hraw
    · exact nodes (fun h => absurd h (by decide)) (fun h => absurd h (by decide))
        (fun h => absurd h (by decide)) (fun h => absurd h (by decide))
        (fun h => absurd h (by decide)) (fun h => absurd h (by decide))

def findCommand (word : List Char) : List (List Char) :=
  [['b', 'a', 's', 'h'], ['-', 'l', 'c'], findScript word]

theorem parse_findTree {kind : String} {word : List Char}
    (hscript : extractBashCommand (findCommand word) = some (['b', 'a', 's', 'h'], findScript word))
    (hf : Faithful (findScript word) (findTree kind).root) :
    parseShellLcPlainCommands (fun _ => some (findTree kind)) (findCommand word) =
      if (findTree kind).hasError = false ∧ ∀ node ∈ (findTree kind).root.preorder, isAllowed node
        then ((findTree kind).root.preorder.filter isCommand).mapM
          (parsePlainCommandFromNode (findScript word))
      else none := by
  rw [← tryParseWordOnlyCommandsSequence_eq hf, parseShellLcPlainCommands, hscript]
  rfl

/-- `-d\elete`, which bash passes on as an action of `find` that deletes files. -/
def escapedWord : List Char := ['-', 'd', '\\', 'e', 'l', 'e', 't', 'e']

theorem faithful_escapedWord : Faithful (findScript escapedWord) (findTree "word").root := by
  refine faithful_findTree (.inl rfl) (by decide) (by decide) (fun _ => ⟨escapedWord, by decide, ?_⟩)
    (fun h => absurd h (by decide))
  exact Bare.plain (by decide) (Bare.plain (by decide) (Bare.escape 'e' (bare_of_plain (by decide))))

/-- The words that are judged may not be the words that run. -/
theorem judged_ne_run : ¬ ∀ (tryParseShell : List Char → Option Tree) (command : List (List Char))
    (shell script : List Char) (tree : Tree) (commands : List (List (List Char))),
    extractBashCommand command = some (shell, script) → tryParseShell script = some tree →
      Faithful script tree.root →
        parseShellLcPlainCommands tryParseShell command = some commands →
          commands = simpleCommands script tree.root := by
  intro h
  have hscript : extractBashCommand (findCommand escapedWord) =
      some (['b', 'a', 's', 'h'], findScript escapedWord) := by decide
  have hparse : parseShellLcPlainCommands (fun _ => some (findTree "word"))
      (findCommand escapedWord) = some [[['f', 'i', 'n', 'd'], ['.'], escapedWord]] := by
    rw [parse_findTree hscript faithful_escapedWord]
    decide
  have hrun := h _ _ _ _ (findTree "word") _ hscript rfl faithful_escapedWord hparse
  exact absurd hrun (by decide)

/-- A word in single quotes keeps its backslash. -/
def quotedWord : List Char := ['\'', 'a', '\\', 'b', ' ', 'c', '*', '\'']

theorem plainCommands_eq_iff_example :
    [[['f', 'i', 'n', 'd'], ['.'], ['a', '\\', 'b', ' ', 'c', '*']]] =
      simpleCommands (findScript quotedWord) (findTree "raw_string").root := by
  have hscript : extractBashCommand (findCommand quotedWord) =
      some (['b', 'a', 's', 'h'], findScript quotedWord) := by decide
  have hf : Faithful (findScript quotedWord) (findTree "raw_string").root := by
    refine faithful_findTree (.inr rfl) (by decide) (by decide) (fun h => absurd h (by decide))
      (fun _ => ⟨['a', '\\', 'b', ' ', 'c', '*'], by decide, by decide⟩)
  have hparse : parseShellLcPlainCommands (fun _ => some (findTree "raw_string"))
      (findCommand quotedWord) =
        some [[['f', 'i', 'n', 'd'], ['.'], ['a', '\\', 'b', ' ', 'c', '*']]] := by
    rw [parse_findTree hscript hf]
    decide
  exact (plainCommands_eq_iff hscript rfl hf hparse).2 (by decide)

end Mcodex.Shell
