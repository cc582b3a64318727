import Mathlib.Data.List.Infix
import Mathlib.Data.List.DropRight
import Mathlib.Logic.Function.Basic
import Mcodex.Lib.Text

/-!
# Mentions in the history

The history keeps a bound mention `$name` as the link `[$name](path)`, which is read back when the
entry is recalled. The path is not escaped and ends at the first closing parenthesis, so a text and
its mentions are read back when no path has one, and not otherwise (`decode_encode_iff`).
-/

namespace Mcodex.Tui

open Text

def toolMentionSigil : Char := '$'

def pluginTextMentionSigil : Char := '@'

structure LinkedMention where
  mention : List Char
  path : List Char
  deriving DecidableEq

structure DecodedHistoryText where
  text : List Char
  mentions : List LinkedMention
  deriving DecidableEq

def isMentionNameChar (c : Char) : Bool :=
  ('a' ≤ c && c ≤ 'z') || ('A' ≤ c && c ≤ 'Z') || ('0' ≤ c && c ≤ '9') || c = '_' || c = '-'

def isCommonEnvVar (name : List Char) : Bool :=
  ["PATH", "HOME", "USER", "SHELL", "PWD", "TMPDIR", "TEMP", "TMP", "LANG", "TERM",
    "XDG_CONFIG_HOME"].any fun var => name.map Char.toUpper = var.toList

def isToolPath (path : List Char) : Bool :=
  "app://".toList.isPrefixOf path || "mcp://".toList.isPrefixOf path ||
    "plugin://".toList.isPrefixOf path || "skill://".toList.isPrefixOf path ||
    toAsciiLowercase (path.rtakeWhile fun c => !(c = '/' || c = '\\')) =
      toAsciiLowercase "SKILL.md".toList

/-- `u8::is_ascii_whitespace`. -/
def isAsciiWhitespace (c : Char) : Bool :=
  c = ' ' || c = '\t' || c = '\n' || c = '\x0c' || c = '\r'

/-! ## Encoding -/

/-- The paths that each name is still to be bound to. -/
abbrev MentionQueues := List Char → List (List Char)

def mentionsByName (mentions : List LinkedMention) : MentionQueues := fun name =>
  (mentions.filter (·.mention = name)).map (·.path)

/-- The name and the path of a mention that starts at `c`, and the queues without the path. -/
def popMention (queues : MentionQueues) (c : Char) (text : List Char) :
    Option (LinkedMention × MentionQueues) :=
  if c = toolMentionSigil then
    let name := text.takeWhile isMentionNameChar
    if name.isEmpty then none
    else
      match queues name with
      | [] => none
      | path :: paths => some ({ mention := name, path }, Function.update queues name paths)
  else none

/-- `[$name](path)`. -/
def LinkedMention.link (mention : LinkedMention) : List Char :=
  '[' :: toolMentionSigil :: (mention.mention ++ ']' :: '(' :: (mention.path ++ [')']))

/-- The loop of `encode_history_mentions`. -/
def encodeFrom (queues : MentionQueues) : List Char → List Char
  | [] => []
  | c :: text =>
    match popMention queues c text with
    | some (mention, queues) =>
      mention.link ++ encodeFrom queues (text.dropWhile isMentionNameChar)
    | none => c :: encodeFrom queues text
termination_by text => text.length
decreasing_by
  · exact Nat.lt_succ_of_le (List.dropWhile_sublist _).length_le
  · exact Nat.lt_succ_self _

def encodeHistoryMentions (text : List Char) (mentions : List LinkedMention) : List Char :=
  if mentions.isEmpty || text.isEmpty then text else encodeFrom (mentionsByName mentions) text

/-! ## Decoding -/

/-- What follows the name of a link: the path, and the text after the link. -/
def parseLinkTarget : List Char → Option (List Char × List Char)
  | ']' :: text =>
    match text.dropWhile isAsciiWhitespace with
    | '(' :: text =>
      match text.dropWhile (· ≠ ')') with
      | ')' :: rest =>
        let path := trim (text.takeWhile (· ≠ ')'))
        if path.isEmpty then none else some (path, rest)
      | _ => none
    | _ => none
  | _ => none

/-- The name and the path of a link whose text goes on after its first bracket, and the text after
the link. -/
def parseLinkedToolMention (text : List Char) (sigil : Char) :
    Option (LinkedMention × List Char) :=
  match text with
  | [] => none
  | first :: text =>
    if first ≠ sigil then none
    else
      let name := text.takeWhile isMentionNameChar
      if name.isEmpty then none
      else (parseLinkTarget (text.dropWhile isMentionNameChar)).map fun (path, rest) =>
        ({ mention := name, path }, rest)

def parseHistoryLinkedMention (text : List Char) : Option (LinkedMention × List Char) :=
  let tool := (parseLinkedToolMention text toolMentionSigil).filter fun (mention, _) =>
    !isCommonEnvVar mention.mention && isToolPath mention.path
  let plugin := (parseLinkedToolMention text pluginTextMentionSigil).filter fun (mention, _) =>
    !isCommonEnvVar mention.mention && "plugin://".toList.isPrefixOf mention.path
  tool.or plugin

/-- The link that starts at `c`. -/
def linkAt (c : Char) (text : List Char) : Option (LinkedMention × List Char) :=
  if c = '[' then parseHistoryLinkedMention text else none

theorem length_parseLinkTarget {text rest path : List Char}
    (h : parseLinkTarget text = some (path, rest)) : rest.length < text.length := by
  unfold parseLinkTarget at h
  split at h
  · next text =>
    split at h
    · next text' hblank =>
      split at h
      · next rest' hpath =>
        simp only at h
        split_ifs at h
        obtain ⟨-, rfl⟩ := Prod.mk.inj (Option.some.inj h)
        have hblank := hblank ▸ (List.dropWhile_sublist (l := text) isAsciiWhitespace).length_le
        have hpath := hpath ▸ (List.dropWhile_sublist (l := text') (· ≠ ')')).length_le
        simp only [List.length_cons] at hblank hpath ⊢
        omega
      · cases h
    · cases h
  · cases h

theorem length_parseLinkedToolMention {text rest : List Char} {sigil : Char}
    {mention : LinkedMention} (h : parseLinkedToolMention text sigil = some (mention, rest)) :
    rest.length < text.length := by
  unfold parseLinkedToolMention at h
  split at h
  · cases h
  · next first text =>
    simp only at h
    split_ifs at h
    obtain ⟨⟨path, rest'⟩, htarget, hmention⟩ := Option.map_eq_some_iff.1 h
    obtain ⟨-, rfl⟩ := Prod.mk.inj hmention
    have hname := (List.dropWhile_sublist (l := text) isMentionNameChar).length_le
    have hrest := length_parseLinkTarget htarget
    simp only [List.length_cons]
    omega

theorem length_linkAt {c : Char} {text rest : List Char} {mention : LinkedMention}
    (h : linkAt c text = some (mention, rest)) : rest.length < text.length := by
  unfold linkAt parseHistoryLinkedMention at h
  split_ifs at h
  rcases Option.or_eq_some_iff.1 h with h | ⟨-, h⟩
  · exact length_parseLinkedToolMention (Option.filter_eq_some_iff.1 h).1
  · exact length_parseLinkedToolMention (Option.filter_eq_some_iff.1 h).1

def decodeHistoryMentions : List Char → DecodedHistoryText
  | [] => { text := [], mentions := [] }
  | c :: text =>
    match hlink : linkAt c text with
    | some (mention, rest) =>
      have := length_linkAt hlink
      let decoded := decodeHistoryMentions rest
      { text := toolMentionSigil :: (mention.mention ++ decoded.text)
        mentions := mention :: decoded.mentions }
    | none =>
      let decoded := decodeHistoryMentions text
      { decoded with text := c :: decoded.text }
termination_by text => text.length
decreasing_by
  · simp only [List.length_cons]
    omega
  · exact Nat.lt_succ_self _

/-! ## Texts and their bindings -/

/-- The names of the tokens `$name` of a text, in order. -/
def mentionTokens : List Char → List (List Char)
  | [] => []
  | c :: text =>
    let name := text.takeWhile isMentionNameChar
    if c = toolMentionSigil ∧ name ≠ [] then name :: mentionTokens text else mentionTokens text

/-- A token with the path that it is bound to, if it is bound. -/
abbrev BoundToken := List Char × Option (List Char)

/-- The binding of a token. -/
def bindingOf (token : BoundToken) : Option LinkedMention :=
  token.2.map fun path => { mention := token.1, path }

/-- Of the tokens of one name the first ones are bound. -/
def FirstBound (tokens : List BoundToken) : Prop :=
  tokens.Pairwise fun token later => token.1 = later.1 → later.2.isSome → token.2.isSome

/-- The mentions are the bindings of some tokens of the text, in order. -/
def Binds (text : List Char) (mentions : List LinkedMention) : Prop :=
  ∃ tokens : List BoundToken, tokens.map (·.1) = mentionTokens text ∧
    tokens.filterMap bindingOf = mentions ∧ FirstBound tokens

/-- A mention that a link may be read as. -/
structure LinkedMention.Valid (mention : LinkedMention) : Prop where
  not_env : isCommonEnvVar mention.mention = false
  trimmed : trim mention.path = mention.path
  nonempty : mention.path ≠ []
  tool : isToolPath mention.path

/-- Nothing in the text starts like a link. -/
def NoLinks (text : List Char) : Prop :=
  ¬ ['[', toolMentionSigil] <:+: text ∧ ¬ ['[', pluginTextMentionSigil] <:+: text

/-- A text is made of characters that stay and of tokens that become links. -/
inductive TextPart
  | char (c : Char)
  | bound (mention : LinkedMention)

namespace TextPart

def plain : TextPart → List Char
  | char c => [c]
  | bound mention => toolMentionSigil :: mention.mention

def linked : TextPart → List Char
  | char c => [c]
  | bound mention => mention.link

def mention? : TextPart → Option LinkedMention
  | char _ => none
  | bound mention => some mention

end TextPart

section
variable {text name path rest : List Char} {c : Char} {mentions : List LinkedMention}
  {mention : LinkedMention} {queues queues' : MentionQueues} {tokens : List BoundToken}

/-! ## What is encoded -/

/-- The queues have the paths of the tokens that are to come. -/
def Queued (queues : MentionQueues) (tokens : List BoundToken) : Prop :=
  ∀ name, queues name = tokens.filterMap fun token => if token.1 = name then token.2 else none

/-- The name of a token. -/
def IsName (name : List Char) : Prop := name ≠ [] ∧ ∀ c ∈ name, isMentionNameChar c

theorem mentionTokens_append (h : ∀ c ∈ name, isMentionNameChar c) (text : List Char) :
    mentionTokens (name ++ text) = mentionTokens text := by
  induction name with
  | nil => rfl
  | cons c name ih =>
    rw [List.forall_mem_cons] at h
    have hsigil : c ≠ toolMentionSigil := by
      rintro rfl
      exact absurd h.1 (by decide)
    rw [List.cons_append, mentionTokens, if_neg fun hc => hsigil hc.1, ih h.2]

theorem mentionTokens_sigil (h : text.takeWhile isMentionNameChar ≠ []) :
    mentionTokens (toolMentionSigil :: text) =
      text.takeWhile isMentionNameChar :: mentionTokens (text.dropWhile isMentionNameChar) := by
  have htail : mentionTokens text = mentionTokens (text.dropWhile isMentionNameChar) := by
    conv_lhs => rw [← List.takeWhile_append_dropWhile (p := isMentionNameChar) (l := text)]
    exact mentionTokens_append (fun c hc => List.mem_takeWhile_imp hc) _
  rw [mentionTokens, if_pos ⟨rfl, h⟩, htail]

theorem popMention_eq_some (h : popMention queues c text = some (mention, queues')) :
    c = toolMentionSigil ∧ mention.mention = text.takeWhile isMentionNameChar ∧
      mention.mention ≠ [] ∧ ∃ paths, queues mention.mention = mention.path :: paths ∧
        queues' = Function.update queues mention.mention paths := by
  unfold popMention at h
  split_ifs at h with hsigil
  simp only at h
  split_ifs at h with hname
  split at h
  · cases h
  · next path paths hqueue =>
    cases h
    exact ⟨hsigil, rfl, by simpa using hname, paths, hqueue, rfl⟩

theorem popMention_eq_none (h : popMention queues c text = none) :
    mentionTokens (c :: text) = mentionTokens text ∨
      c = toolMentionSigil ∧ text.takeWhile isMentionNameChar ≠ [] ∧
        queues (text.takeWhile isMentionNameChar) = [] := by
  unfold popMention at h
  split_ifs at h with hsigil
  · simp only at h
    split_ifs at h with hname
    · refine .inl (if_neg fun hc => hc.2 ?_)
      simpa using hname
    · split at h
      · next hqueue => exact .inr ⟨hsigil, by simpa using hname, hqueue⟩
      · cases h
  · exact .inl (if_neg fun hc => hsigil hc.1)

/-- A name whose first token is not bound has no binding. -/
theorem FirstBound.filterMap_eq_nil (h : FirstBound ((name, none) :: tokens)) :
    tokens.filterMap (fun token => if token.1 = name then token.2 else none) = [] := by
  refine List.filterMap_eq_nil_iff.2 fun token htoken => ?_
  split
  · next hname =>
    have hfirst := (List.pairwise_cons.1 h).1 token htoken hname.symm
    cases hpath : token.2 with
    | none => rfl
    | some path =>
      rw [hpath] at hfirst
      exact absurd (hfirst rfl) Bool.false_ne_true
  · rfl

/-- The tokens after one whose name has no path left. -/
theorem Queued.tail_of_nil (h : Queued queues ((name, none) :: tokens)) : Queued queues tokens := by
  intro name'
  rw [h name', List.filterMap_cons]
  split
  · rfl
  · next hsome => simp at hsome

/-- The tokens after one that takes its path. -/
theorem Queued.tail_of_cons {paths : List (List Char)}
    (h : Queued queues ((name, some path) :: tokens)) (hqueue : queues name = path :: paths) :
    Queued (Function.update queues name paths) tokens := by
  intro name'
  have hname' := h name'
  rw [List.filterMap_cons] at hname'
  by_cases hname : name' = name
  · subst hname
    rw [Function.update_self]
    simp only [if_true] at hname'
    rw [hqueue] at hname'
    exact (List.cons.inj hname').2
  · rw [Function.update_of_ne hname, hname']
    simp [Ne.symm hname]

/-- What the loop writes: the text with the links of the bound tokens. -/
theorem exists_parts (queues : MentionQueues) (text : List Char) :
    ∀ tokens : List BoundToken, Queued queues tokens → FirstBound tokens →
      tokens.map (·.1) = mentionTokens text →
      ∃ parts : List TextPart, encodeFrom queues text = parts.flatMap TextPart.linked ∧
        text = parts.flatMap TextPart.plain ∧
        parts.filterMap TextPart.mention? = tokens.filterMap bindingOf ∧
        ∀ mention ∈ parts.filterMap TextPart.mention?, IsName mention.mention := by
  fun_induction encodeFrom queues text with
  | case1 queues =>
    intro tokens _ _ hnames
    obtain rfl := List.map_eq_nil_iff.1 hnames
    exact ⟨[], rfl, rfl, rfl, nofun⟩
  | case2 queues c text mention queues' hpop ih =>
    intro tokens hqueued hfirst hnames
    obtain ⟨rfl, hname, hne, paths, hqueue, rfl⟩ := popMention_eq_some hpop
    rw [mentionTokens_sigil (hname ▸ hne), ← hname] at hnames
    obtain ⟨⟨name, path?⟩, tokens, rfl, htoken, htail⟩ := List.map_eq_cons_iff.1 hnames
    obtain rfl : name = mention.mention := htoken
    obtain rfl : path? = some mention.path := by
      have hhead := hqueued mention.mention
      rw [hqueue, List.filterMap_cons] at hhead
      cases path? with
      | none => simp [hfirst.filterMap_eq_nil] at hhead
      | some path =>
        simp only [if_true] at hhead
        rw [(List.cons.inj hhead).1]
    obtain ⟨parts, hlinked, hplain, hmentions, hnamed⟩ :=
      ih tokens (hqueued.tail_of_cons hqueue) (List.pairwise_cons.1 hfirst).2 htail
    refine ⟨.bound mention :: parts, ?_, ?_, ?_, ?_⟩
    · rw [List.flatMap_cons, ← hlinked]
      rfl
    · rw [List.flatMap_cons, ← hplain, TextPart.plain, hname, List.cons_append,
        List.takeWhile_append_dropWhile]
    · rw [List.filterMap_cons, List.filterMap_cons, hmentions]
      rfl
    · intro mention' hmention'
      rcases List.mem_cons.1 hmention' with rfl | hmention'
      · exact ⟨hne, fun c hc => List.mem_takeWhile_imp (hname ▸ hc)⟩
      · exact hnamed mention' hmention'
  | case3 queues c text hpop ih =>
    intro tokens hqueued hfirst hnames
    suffices htail : ∃ tail : List BoundToken, Queued queues tail ∧ FirstBound tail ∧
        tail.map (·.1) = mentionTokens text ∧
        tail.filterMap bindingOf = tokens.filterMap bindingOf by
      obtain ⟨tail, hqueued, hfirst, hnames, hbindings⟩ := htail
      obtain ⟨parts, hlinked, hplain, hmentions, hnamed⟩ := ih tail hqueued hfirst hnames
      refine ⟨.char c :: parts, ?_, ?_, ?_, hnamed⟩
      · rw [List.flatMap_cons, ← hlinked]
        rfl
      · rw [List.flatMap_cons, ← hplain]
        rfl
      · rw [← hbindings, ← hmentions]
        rfl
    rcases popMention_eq_none hpop with hsame | ⟨rfl, hne, hqueue⟩
    · exact ⟨tokens, hqueued, hfirst, hnames.trans hsame, rfl⟩
    · rw [mentionTokens, if_pos ⟨rfl, hne⟩] at hnames
      obtain ⟨⟨name, path?⟩, tail, rfl, htoken, htail⟩ := List.map_eq_cons_iff.1 hnames
      obtain rfl : name = _ := htoken
      -- The path of a bound token would be in the queue of its name.
      obtain rfl : path? = none := by
        have hhead := hqueued (text.takeWhile isMentionNameChar)
        rw [hqueue, List.filterMap_cons] at hhead
        cases path? with
        | none => rfl
        | some path => simp at hhead
      exact ⟨tail, hqueued.tail_of_nil, (List.pairwise_cons.1 hfirst).2, htail, rfl⟩

theorem encodeFrom_nil_queues (text : List Char) : encodeFrom (fun _ => []) text = text := by
  induction text with
  | nil => rw [encodeFrom]
  | cons c text ih =>
    have hpop : popMention (fun _ => []) c text = none := by
      unfold popMention
      simp
    rw [encodeFrom, hpop]
    exact congrArg (c :: ·) ih

theorem encodeHistoryMentions_eq (text : List Char) (mentions : List LinkedMention) :
    encodeHistoryMentions text mentions = encodeFrom (mentionsByName mentions) text := by
  unfold encodeHistoryMentions
  split
  · next hempty =>
    rcases Bool.or_eq_true _ _ ▸ hempty with h | h
    · obtain rfl := List.isEmpty_iff.1 h
      exact (encodeFrom_nil_queues text).symm
    · obtain rfl := List.isEmpty_iff.1 h
      rw [encodeFrom]
  · rfl

theorem queued_mentionsByName (tokens : List BoundToken) :
    Queued (mentionsByName (tokens.filterMap bindingOf)) tokens := by
  intro name
  induction tokens with
  | nil => rfl
  | cons token tokens ih =>
    obtain ⟨name', path?⟩ := token
    rw [mentionsByName] at ih ⊢
    cases path? with
    | none =>
      have hbinding : bindingOf (name', none) = none := rfl
      rw [List.filterMap_cons_none hbinding, ih]
      simp
    | some path =>
      by_cases hname : name' = name
      · simpa [bindingOf, hname] using ih
      · simpa [bindingOf, hname] using ih

/-! ## What is decoded -/

/-- The path of a link ends at the first closing parenthesis. -/
theorem parseLinkTarget_link (h : ')' ∉ path) (rest : List Char) :
    parseLinkTarget (']' :: '(' :: (path ++ ')' :: rest)) =
      if (trim path).isEmpty then none else some (trim path, rest) := by
  have hpath : ∀ c ∈ path, decide (c ≠ ')') = true := fun c hc =>
    decide_eq_true fun hparen => h (hparen ▸ hc)
  have htake : (path ++ ')' :: rest).takeWhile (· ≠ ')') = path := by
    rw [List.takeWhile_append_of_pos hpath]
    simp
  have hdrop : (path ++ ')' :: rest).dropWhile (· ≠ ')') = ')' :: rest := by
    rw [List.dropWhile_append_of_pos hpath]
    simp
  have hblank : ('(' :: (path ++ ')' :: rest)).dropWhile isAsciiWhitespace =
      '(' :: (path ++ ')' :: rest) := List.dropWhile_cons_of_neg (by decide)
  simp only [parseLinkTarget, hblank, hdrop, htake]

/-- What a link is read as, up to its first closing parenthesis. -/
theorem linkAt_link (hname : IsName name) (h : ')' ∉ path) (rest : List Char) :
    linkAt '[' (toolMentionSigil :: (name ++ ']' :: '(' :: (path ++ ')' :: rest))) =
      if (trim path).isEmpty || isCommonEnvVar name || !isToolPath (trim path) then none
      else some ({ mention := name, path := trim path }, rest) := by
  have htake : (name ++ ']' :: '(' :: (path ++ ')' :: rest)).takeWhile isMentionNameChar =
      name := by
    rw [List.takeWhile_append_of_pos hname.2, List.takeWhile_cons_of_neg (by decide),
      List.append_nil]
  have hdrop : (name ++ ']' :: '(' :: (path ++ ')' :: rest)).dropWhile isMentionNameChar =
      ']' :: '(' :: (path ++ ')' :: rest) := by
    rw [List.dropWhile_append_of_pos hname.2, List.dropWhile_cons_of_neg (by decide)]
  have hne : name.isEmpty = false := List.isEmpty_eq_false_iff.2 hname.1
  have hsigil : toolMentionSigil ≠ pluginTextMentionSigil := by decide
  have hplugin : parseLinkedToolMention
      (toolMentionSigil :: (name ++ ']' :: '(' :: (path ++ ')' :: rest)))
      pluginTextMentionSigil = none := by
    unfold parseLinkedToolMention
    exact if_pos hsigil
  have htool : parseLinkedToolMention
      (toolMentionSigil :: (name ++ ']' :: '(' :: (path ++ ')' :: rest))) toolMentionSigil =
      if (trim path).isEmpty then none
      else some ({ mention := name, path := trim path }, rest) := by
    simp only [parseLinkedToolMention, ne_eq, not_true_eq_false, if_false, htake, hdrop, hne,
      Bool.false_eq_true, parseLinkTarget_link h]
    split <;> rfl
  rw [linkAt, if_pos rfl, parseHistoryLinkedMention, hplugin, htool]
  cases htrim : (trim path).isEmpty with
  | true => simp
  | false => cases henv : isCommonEnvVar name <;> cases hpath : isToolPath (trim path) <;>
      simp [henv, hpath]

theorem linkAt_eq_none_of_head (h : ∀ first ∈ text.head?, first ≠ toolMentionSigil ∧
    first ≠ pluginTextMentionSigil) : linkAt c text = none := by
  unfold linkAt parseHistoryLinkedMention
  split
  · cases text with
    | nil => rfl
    | cons first text =>
      obtain ⟨htool, hplugin⟩ := h first rfl
      simp [parseLinkedToolMention, htool, hplugin]
  · rfl

theorem linkAt_eq_none_of_ne (h : c ≠ '[') : linkAt c text = none := if_neg h

theorem decodeHistoryMentions_of_some (h : linkAt c text = some (mention, rest)) :
    decodeHistoryMentions (c :: text) =
      { text := toolMentionSigil :: (mention.mention ++ (decodeHistoryMentions rest).text)
        mentions := mention :: (decodeHistoryMentions rest).mentions } := by
  rw [decodeHistoryMentions]
  split
  · next hlink =>
    rw [h] at hlink
    cases hlink
    rfl
  · next hlink =>
    rw [h] at hlink
    cases hlink

theorem decodeHistoryMentions_of_none (h : linkAt c text = none) :
    decodeHistoryMentions (c :: text) =
      { decodeHistoryMentions text with text := c :: (decodeHistoryMentions text).text } := by
  rw [decodeHistoryMentions]
  split
  · next hlink =>
    rw [h] at hlink
    cases hlink
  · rfl

theorem DecodedHistoryText.cons_inj {decoded decoded' : DecodedHistoryText} :
    ({ decoded with text := c :: decoded.text } : DecodedHistoryText) =
      { decoded' with text := c :: decoded'.text } ↔ decoded = decoded' := by
  cases decoded
  cases decoded'
  simp

theorem DecodedHistoryText.mention_inj {decoded decoded' : DecodedHistoryText} :
    ({ text := toolMentionSigil :: (mention.mention ++ decoded.text)
       mentions := mention :: decoded.mentions } : DecodedHistoryText) =
      { text := toolMentionSigil :: (mention.mention ++ decoded'.text)
        mentions := mention :: decoded'.mentions } ↔ decoded = decoded' := by
  cases decoded
  cases decoded'
  simp

/-- A bound token is read back when its path has no closing parenthesis. Otherwise another path is
read, or the bracket stays. -/
theorem decode_link_iff (hname : IsName mention.mention) (hvalid : mention.Valid)
    (decoded : DecodedHistoryText) :
    decodeHistoryMentions (mention.link ++ text) =
        { text := toolMentionSigil :: (mention.mention ++ decoded.text)
          mentions := mention :: decoded.mentions } ↔
      ')' ∉ mention.path ∧ decodeHistoryMentions text = decoded := by
  have hlink : mention.link ++ text = '[' :: toolMentionSigil ::
      (mention.mention ++ ']' :: '(' :: (mention.path ++ ')' :: text)) := by
    simp [LinkedMention.link]
  rw [hlink]
  by_cases hparen : ')' ∈ mention.path
  · refine iff_of_false (fun hdecode => ?_) fun h => h.1 hparen
    obtain ⟨before, after, hpath, hbefore⟩ := List.eq_append_cons_of_mem hparen
    have hat := linkAt_link hname hbefore (after ++ ')' :: text)
    have hsame : mention.path ++ ')' :: text = before ++ ')' :: (after ++ ')' :: text) := by
      rw [hpath, List.append_assoc, List.cons_append]
    rw [hsame] at hdecode
    split_ifs at hat
    · rw [decodeHistoryMentions_of_none hat] at hdecode
      have hhead := List.head_eq_of_cons_eq (congrArg DecodedHistoryText.text hdecode)
      exact absurd hhead (by decide)
    · rw [decodeHistoryMentions_of_some hat] at hdecode
      have hfirst := List.head_eq_of_cons_eq (congrArg DecodedHistoryText.mentions hdecode)
      have hlength := congrArg (fun mention => mention.path.length) hfirst
      have hle := length_trim_le before
      simp only [hpath, List.length_append, List.length_cons] at hlength
      omega
  · have hat := linkAt_link hname hparen text
    rw [hvalid.trimmed, List.isEmpty_eq_false_iff.2 hvalid.nonempty, hvalid.not_env,
      hvalid.tool] at hat
    rw [decodeHistoryMentions_of_some hat]
    exact DecodedHistoryText.mention_inj.trans (and_iff_right hparen).symm

theorem NoLinks.of_append (h : NoLinks (rest ++ text)) : NoLinks text :=
  ⟨fun hinner => h.1 (hinner.trans (List.suffix_append rest text).isInfix),
    fun hinner => h.2 (hinner.trans (List.suffix_append rest text).isInfix)⟩

/-- A character that stays does not start a link. -/
theorem linkAt_char_of_noLinks (parts : List TextPart)
    (h : NoLinks (c :: parts.flatMap TextPart.plain)) :
    linkAt c (parts.flatMap TextPart.linked) = none := by
  by_cases hc : c = '['
  · subst hc
    have hstart : ∀ first after, parts.flatMap TextPart.plain = first :: after →
        first ≠ toolMentionSigil ∧ first ≠ pluginTextMentionSigil := by
      intro first after hplain
      rw [hplain] at h
      refine ⟨?_, ?_⟩
      · rintro rfl
        exact h.1 ⟨[], after, rfl⟩
      · rintro rfl
        exact h.2 ⟨[], after, rfl⟩
    refine linkAt_eq_none_of_head fun first hfirst => ?_
    cases parts with
    | nil => cases hfirst
    | cons part parts =>
      cases part with
      | char d =>
        cases hfirst
        exact hstart first _ rfl
      | bound mention => exact absurd rfl (hstart toolMentionSigil _ rfl).1
  · exact linkAt_eq_none_of_ne hc

/-- What is decoded: the text and the mentions, when no path has a closing parenthesis. -/
theorem decode_parts_iff (parts : List TextPart)
    (hplain : NoLinks (parts.flatMap TextPart.plain))
    (hmentions : ∀ mention ∈ parts.filterMap TextPart.mention?,
      IsName mention.mention ∧ mention.Valid) :
    decodeHistoryMentions (parts.flatMap TextPart.linked) =
        { text := parts.flatMap TextPart.plain
          mentions := parts.filterMap TextPart.mention? } ↔
      ∀ mention ∈ parts.filterMap TextPart.mention?, ')' ∉ mention.path := by
  induction parts with
  | nil =>
    refine iff_of_true ?_ nofun
    rw [List.flatMap_nil, decodeHistoryMentions]
    rfl
  | cons part parts ih =>
    cases part with
    | char c =>
      have hat := linkAt_char_of_noLinks parts hplain
      have hdecode : decodeHistoryMentions (c :: parts.flatMap TextPart.linked) = _ :=
        decodeHistoryMentions_of_none hat
      have hrest : NoLinks ([c] ++ parts.flatMap TextPart.plain) := hplain
      refine Iff.trans ?_ (ih hrest.of_append hmentions)
      refine Iff.trans ?_ (DecodedHistoryText.cons_inj (c := c))
      rw [← hdecode]
      rfl
    | bound mention =>
      have hmentions := List.forall_mem_cons.1 hmentions
      have hplain : NoLinks (TextPart.plain (.bound mention) ++ parts.flatMap TextPart.plain) :=
        hplain
      have hrest := ih hplain.of_append hmentions.2
      have hlink := @decode_link_iff (parts.flatMap TextPart.linked) _ hmentions.1.1
        hmentions.1.2
        { text := parts.flatMap TextPart.plain
          mentions := parts.filterMap TextPart.mention? }
      refine hlink.trans ((and_congr_right fun _ => hrest).trans ?_)
      exact (List.forall_mem_cons (p := fun mention : LinkedMention => ')' ∉ mention.path)).symm

/-- **The round trip of mentions.** A text and the bindings of its tokens are read back from the
history when no path has a closing parenthesis, and not otherwise. -/
theorem decode_encode_iff (hplain : NoLinks text) (hbinds : Binds text mentions)
    (hvalid : ∀ mention ∈ mentions, mention.Valid) :
    decodeHistoryMentions (encodeHistoryMentions text mentions) = { text, mentions } ↔
      ∀ mention ∈ mentions, ')' ∉ mention.path := by
  obtain ⟨tokens, hnames, rfl, hfirst⟩ := hbinds
  obtain ⟨parts, hlinked, rfl, hmentions, hnamed⟩ :=
    exists_parts _ text tokens (queued_mentionsByName tokens) hfirst hnames
  rw [encodeHistoryMentions_eq, hlinked, ← hmentions]
  rw [← hmentions] at hvalid
  exact decode_parts_iff parts hplain fun mention hmention =>
    ⟨hnamed mention hmention, hvalid mention hmention⟩

theorem decode_encode_iff_figma :
    decodeHistoryMentions (encodeHistoryMentions "use $figma".toList
        [⟨"figma".toList, "app://x".toList⟩]) =
      { text := "use $figma".toList, mentions := [⟨"figma".toList, "app://x".toList⟩] } ↔
    ∀ mention ∈ [(⟨"figma".toList, "app://x".toList⟩ : LinkedMention)], ')' ∉ mention.path := by
  refine decode_encode_iff ⟨by decide, by decide⟩
    ⟨[("figma".toList, some "app://x".toList)], by decide, rfl, List.pairwise_singleton _ _⟩
    fun mention hmention => ?_
  rw [List.mem_singleton.1 hmention]
  exact ⟨by decide, by decide, by decide, by decide⟩

/-- A path with a closing parenthesis is not read back. -/
theorem not_decode_encode_paren :
    ¬ ∀ (text : List Char) (mentions : List LinkedMention), NoLinks text → Binds text mentions →
      (∀ mention ∈ mentions, mention.Valid) →
      decodeHistoryMentions (encodeHistoryMentions text mentions) = { text, mentions } := by
  intro h
  have hvalid : (⟨"figma".toList, "/skills (old)/SKILL.md".toList⟩ : LinkedMention).Valid :=
    ⟨by decide, by decide, by decide, by decide⟩
  have hdecode := h "$figma".toList [⟨"figma".toList, "/skills (old)/SKILL.md".toList⟩]
    ⟨by decide, by decide⟩
    ⟨[("figma".toList, some "/skills (old)/SKILL.md".toList)], by decide, rfl,
      List.pairwise_singleton _ _⟩
    fun mention hmention => List.mem_singleton.1 hmention ▸ hvalid
  revert hdecode
  decide +kernel

end

end Mcodex.Tui
