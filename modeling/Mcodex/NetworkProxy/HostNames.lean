import Mcodex.ExecPolicy.Amend
import Mcodex.Lib.AsciiCase
import Mcodex.NetworkProxy.Config

/-!
# The two normalisations of a host

A network rule keeps the host that `normalize_network_rule_host` makes of a text, and the proxy
compares it with what `normalize_host` makes of the host of a request. Each takes away whitespace,
brackets, a port and trailing dots once and in order. What one layer hides is not taken away, so a
host may change when it is normalised again. It does not exactly when what is left has none of them
(`normalize_again_iff`).
-/

namespace Mcodex.NetworkProxy

open Text ExecPolicy

/-- What `normalize_host` takes from a text before it lowercases it: the inside of brackets, what is
before a port, or all. -/
def hostPart (raw : List Char) : List Char :=
  let host := trim raw
  if host.head? = some '[' ∧ ']' ∈ host then host.tail.takeWhile (· ≠ ']')
  else if host.count ':' = 1 then host.takeWhile (· ≠ ':')
  else host

/-- What `normalize_network_rule_host` takes from a text that it accepts. -/
def ruleHostPart (raw : List Char) : List Char :=
  match trim raw with
  | '[' :: stripped => stripped.takeWhile (· ≠ ']')
  | host => stripPort host

section
variable {raw host : List Char}

theorem trimEndDots_toAsciiLowercase (s : List Char) :
    trimEndDots (toAsciiLowercase s) = toAsciiLowercase (trimEndDots s) :=
  rdropWhile_toAsciiLowercase (fun _ => decide_eq_decide.2 (toLower_eq_iff (by decide))) s

theorem normalizeHost_eq (raw : List Char) :
    normalizeHost raw = toAsciiLowercase (trimEndDots (hostPart raw)) := by
  unfold normalizeHost hostPart
  dsimp only
  split
  · exact trimEndDots_toAsciiLowercase _
  split
  · exact trimEndDots_toAsciiLowercase _
  · exact trimEndDots_toAsciiLowercase _

theorem length_trimEndDots_le (s : List Char) : (trimEndDots s).length ≤ s.length :=
  (List.rdropWhile_prefix _ _).length_le

theorem not_mem_takeWhile_ne (c : Char) (s : List Char) : c ∉ s.takeWhile (· ≠ c) := by
  intro h
  have hne := List.mem_takeWhile_imp h
  exact absurd rfl (of_decide_eq_true hne)

theorem length_takeWhile_lt {c : Char} {s : List Char} (h : c ∈ s) :
    (s.takeWhile (· ≠ c)).length < s.length := by
  refine Nat.lt_of_le_of_ne (List.takeWhile_prefix _).length_le fun heq => ?_
  have hall := (List.takeWhile_prefix _).eq_of_length heq
  rw [← hall] at h
  exact not_mem_takeWhile_ne c s h

theorem length_hostPart_le (raw : List Char) : (hostPart raw).length ≤ (trim raw).length := by
  unfold hostPart
  dsimp only
  split
  · exact ((List.takeWhile_prefix _).length_le).trans (List.tail_suffix _).length_le
  split
  · exact (List.takeWhile_prefix _).length_le
  · exact Nat.le_refl _

/-- A host that is not shorter once its parts are taken away has none of them. -/
theorem normalizeHost_of_length (h : host.length ≤ (normalizeHost host).length) :
    trim host = host ∧ trimEndDots host = host ∧ ¬ (host.head? = some '[' ∧ ']' ∈ host) ∧
      host.count ':' ≠ 1 := by
  have hlength : host.length ≤ (trimEndDots (hostPart host)).length := by
    rwa [normalizeHost_eq, length_toAsciiLowercase] at h
  have hpart := length_trimEndDots_le (hostPart host)
  have htrim : trim host = host :=
    trim_eq_self_of_length (hlength.trans (hpart.trans (length_hostPart_le host)))
  have hbracket : ¬ (host.head? = some '[' ∧ ']' ∈ host) := by
    intro hbracket
    have hlt : (host.tail.takeWhile (· ≠ ']')).length < host.length := by
      refine Nat.lt_of_le_of_lt (List.takeWhile_prefix _).length_le ?_
      rw [List.length_tail]
      have := List.length_pos_of_mem hbracket.2
      omega
    rw [hostPart, htrim, if_pos hbracket] at hpart
    rw [hostPart, htrim, if_pos hbracket] at hlength
    omega
  have hcount : host.count ':' ≠ 1 := by
    intro hcount
    have hlt := length_takeWhile_lt
      (List.count_pos_iff.1 (by omega : 0 < host.count ':'))
    rw [hostPart, htrim, if_neg hbracket, if_pos hcount] at hpart
    rw [hostPart, htrim, if_neg hbracket, if_pos hcount] at hlength
    omega
  rw [hostPart, htrim, if_neg hbracket, if_neg hcount] at hlength
  exact ⟨htrim, (List.rdropWhile_prefix _ _).eq_of_length_le hlength, hbracket, hcount⟩

/-- The hosts that `normalize_host` leaves alone. -/
theorem normalizeHost_eq_self_iff (host : List Char) :
    normalizeHost host = host ↔
      trim host = host ∧ toAsciiLowercase host = host ∧ trimEndDots host = host ∧
        ¬ (host.head? = some '[' ∧ ']' ∈ host) ∧ host.count ':' ≠ 1 := by
  constructor
  · intro h
    obtain ⟨htrim, hdots, hbracket, hcount⟩ :=
      normalizeHost_of_length (congrArg List.length h).ge
    rw [normalizeHost_eq, hostPart, htrim, if_neg hbracket, if_neg hcount, hdots] at h
    exact ⟨htrim, h, hdots, hbracket, hcount⟩
  · rintro ⟨htrim, hlower, hdots, hbracket, hcount⟩
    rw [normalizeHost_eq, hostPart, htrim, if_neg hbracket, if_neg hcount, hdots, hlower]

theorem not_bracketed_of_prefix {pre : List Char} (hpre : pre <+: host)
    (h : ¬ (host.head? = some '[' ∧ ']' ∈ host)) : ¬ (pre.head? = some '[' ∧ ']' ∈ pre) := by
  rintro ⟨hhead, hmem⟩
  refine h ⟨?_, hpre.subset hmem⟩
  obtain ⟨rest, rfl⟩ := hpre
  rw [List.head?_append, hhead]
  rfl

/-- What is taken from a text has no brackets of its own. -/
theorem hostPart_not_bracketed (raw : List Char) :
    ¬ ((hostPart raw).head? = some '[' ∧ ']' ∈ hostPart raw) := by
  unfold hostPart
  dsimp only
  split
  · exact fun h => not_mem_takeWhile_ne _ _ h.2
  rename_i hwhole
  split
  · exact not_bracketed_of_prefix (List.takeWhile_prefix _) hwhole
  · exact hwhole

/-- `normalize_host` changes a host again when the text that it took has whitespace at its ends or
one colon. -/
theorem normalizeHost_again_iff (raw : List Char) :
    normalizeHost (normalizeHost raw) = normalizeHost raw ↔
      trim (trimEndDots (hostPart raw)) = trimEndDots (hostPart raw) ∧
        (trimEndDots (hostPart raw)).count ':' ≠ 1 := by
  have htrim : trim (toAsciiLowercase (trimEndDots (hostPart raw))) =
        toAsciiLowercase (trimEndDots (hostPart raw)) ↔
      trim (trimEndDots (hostPart raw)) = trimEndDots (hostPart raw) := by
    rw [trim_toAsciiLowercase]
    refine ⟨fun h => trim_eq_self_of_length ?_, congrArg _⟩
    have hlength := congrArg List.length h
    rw [length_toAsciiLowercase, length_toAsciiLowercase] at hlength
    exact hlength.ge
  have hdots : trimEndDots (toAsciiLowercase (trimEndDots (hostPart raw))) =
      toAsciiLowercase (trimEndDots (hostPart raw)) := by
    rw [trimEndDots_toAsciiLowercase]
    exact congrArg _ (List.rdropWhile_idempotent _ _)
  have hbracket : ¬ ((toAsciiLowercase (trimEndDots (hostPart raw))).head? = some '[' ∧
      ']' ∈ toAsciiLowercase (trimEndDots (hostPart raw))) := by
    rw [head_toAsciiLowercase (by decide), mem_toAsciiLowercase (by decide)]
    exact not_bracketed_of_prefix (List.rdropWhile_prefix _ _) (hostPart_not_bracketed raw)
  rw [normalizeHost_eq raw, normalizeHost_eq_self_iff, htrim, count_toAsciiLowercase (by decide)]
  exact ⟨fun h => ⟨h.1, h.2.2.2.2⟩,
    fun h => ⟨h.1, toAsciiLowercase_idem _, hdots, hbracket, h.2⟩⟩

/-! ## The host of a network rule -/

end

/-- What is made of the host that is taken from a text. -/
def settleRuleHost (part : List Char) : Except Error String :=
  let normalized := toAsciiLowercase (trim (trimEndDots part))
  if normalized.isEmpty then .error (.invalidRule "network_rule host cannot be empty")
  else if '*' ∈ normalized then
    .error (.invalidRule "network_rule host must be a specific host; wildcards are not allowed")
  else if normalized.any isWhitespace then
    .error (.invalidRule "network_rule host cannot contain whitespace")
  else .ok (String.ofList normalized)

/-- The host that is taken from a text. -/
def takeRuleHost (raw : String) : Except Error (List Char) :=
  match trim raw.toList with
  | '[' :: stripped => stripBrackets raw stripped
  | host => .ok (stripPort host)

theorem normalizeNetworkRuleHost_eq (raw : String) :
    normalizeNetworkRuleHost raw =
      if (trim raw.toList).isEmpty then .error (.invalidRule "network_rule host cannot be empty")
      else if (trim raw.toList).tails.any "://".toList.isPrefixOf || '/' ∈ trim raw.toList ||
          '?' ∈ trim raw.toList || '#' ∈ trim raw.toList then
        .error (.invalidRule
          "network_rule host must be a hostname or IP literal (without scheme or path)")
      else (takeRuleHost raw).bind settleRuleHost := by
  have hsettle : ∀ part, settleRuleHost part = (do
      let normalized := toAsciiLowercase (trim (part.rdropWhile (· = '.')))
      if normalized.isEmpty then throw (.invalidRule "network_rule host cannot be empty")
      if '*' ∈ normalized then
        throw (.invalidRule "network_rule host must be a specific host; wildcards are not allowed")
      if normalized.any isWhitespace then
        throw (.invalidRule "network_rule host cannot contain whitespace")
      return String.ofList normalized) := by
    intro part
    unfold settleRuleHost trimEndDots
    dsimp only
    split_ifs <;> rfl
  unfold normalizeNetworkRuleHost
  dsimp only
  split
  · rfl
  split
  · rfl
  split
  · rename_i stripped hstripped
    have htake : takeRuleHost raw = stripBrackets raw stripped := by
      simp only [takeRuleHost, hstripped]
    rw [htake]
    cases stripBrackets raw stripped with
    | error e => rfl
    | ok part =>
      rw [Except.bind, hsettle]
      rfl
  · rename_i hnot
    have htake : takeRuleHost raw = .ok (stripPort (trim raw.toList)) := by
      unfold takeRuleHost
      split
      · rename_i stripped hstripped
        exact absurd hstripped (hnot stripped)
      · rfl
    rw [htake, Except.bind, hsettle, pure_bind]

section
variable {raw host : String} {part s : List Char}

theorem stripBrackets_ok {stripped : List Char} (h : stripBrackets raw stripped = .ok part) :
    part = stripped.takeWhile (· ≠ ']') := by
  have hinside : ∀ {inside : List Char} {e : Error} {bad : Bool},
      (if bad then Except.error e else .ok inside) = .ok part → part = inside := by
    intro inside e bad h
    cases bad with
    | false =>
      cases h
      rfl
    | true => cases h
  unfold stripBrackets splitOnce at h
  split at h
  · cases h
  · rename_i inside rest hsplit
    split at hsplit
    · cases hsplit
      exact hinside h
    · cases hsplit

/-- The text that is taken is part of the text, and begins with a bracket only within brackets. -/
theorem takeRuleHost_ok (h : takeRuleHost raw = .ok part) :
    part = ruleHostPart raw.toList ∧ (∀ c ∈ part, c ∈ trim raw.toList) ∧
      (']' ∉ part ∨ (trim raw.toList).head? ≠ some '[' ∧ part <+: trim raw.toList) := by
  unfold takeRuleHost at h
  unfold ruleHostPart
  split at h
  · rename_i stripped hstripped
    rw [hstripped]
    obtain rfl := stripBrackets_ok h
    exact ⟨rfl, fun c hc => List.mem_cons_of_mem _ ((List.takeWhile_prefix _).subset hc),
      .inl (not_mem_takeWhile_ne _ _)⟩
  · rename_i hnot
    cases h
    have hprefix : stripPort (trim raw.toList) <+: trim raw.toList := by
      unfold stripPort splitOnce
      split
      · rename_i candidate port hsplit
        split at hsplit
        · cases hsplit
          split
          · exact List.takeWhile_prefix _
          · exact List.prefix_rfl
        · cases hsplit
      · exact List.prefix_rfl
    refine ⟨?_, fun c hc => hprefix.subset hc, .inr ⟨fun hhead => ?_, hprefix⟩⟩
    · rfl
    · obtain ⟨stripped, hstripped⟩ := List.head?_eq_some_iff.1 hhead
      exact hnot stripped hstripped

theorem settleRuleHost_ok (h : settleRuleHost part = .ok host) :
    host = String.ofList (toAsciiLowercase (trim (trimEndDots part))) ∧
      trim (trimEndDots part) ≠ [] ∧ '*' ∉ toAsciiLowercase (trim (trimEndDots part)) ∧
      (toAsciiLowercase (trim (trimEndDots part))).any isWhitespace = false := by
  unfold settleRuleHost at h
  dsimp only at h
  split at h
  · cases h
  split at h
  · cases h
  split at h
  · cases h
  · rename_i hempty hstar hspace
    cases h
    refine ⟨rfl, fun hnil => hempty ?_, hstar, Bool.eq_false_iff.2 hspace⟩
    rw [hnil]
    rfl

/-- A text without whitespace needs no trimming. -/
theorem trim_eq_self_of_any (h : s.any isWhitespace = false) : trim s = s :=
  trim_eq_self
    (fun _ hc => Bool.eq_false_iff.2 (List.any_eq_false.1 h _ (List.mem_of_mem_head? hc)))
    fun _ hc => Bool.eq_false_iff.2 (List.any_eq_false.1 h _ (List.mem_of_mem_getLast? hc))

theorem trimEndDots_eq_self_iff : trimEndDots s = s ↔ s.getLast? ≠ some '.' := by
  rw [trimEndDots, List.rdropWhile_eq_self_iff]
  constructor
  · intro h hlast
    have hne : s ≠ [] := by
      rintro rfl
      cases hlast
    rw [List.getLast?_eq_getLast_of_ne_nil hne] at hlast
    exact h hne (decide_eq_true (Option.some.inj hlast))
  · intro h hne hdot
    exact h ((List.getLast?_eq_getLast_of_ne_nil hne).trans
      (congrArg some (of_decide_eq_true hdot)))

/-- What is left of the text of a rule's host has no bracket before it, no port and no dot at its
end. -/
def Settled (raw : List Char) : Prop :=
  let name := trim (trimEndDots (ruleHostPart raw))
  name.head? ≠ some '[' ∧ name.count ':' ≠ 1 ∧ name.getLast? ≠ some '.'

/-- The beginning of a trimmed text begins as the text does, also when it is trimmed itself. -/
theorem trim_head {pre : List Char} (hpre : pre <+: trim s) (hne : trim (trimEndDots pre) ≠ []) :
    (trim (trimEndDots pre)).head? = (trim s).head? := by
  have hhead : ∀ {p t : List Char}, p <+: t → p ≠ [] → p.head? = t.head? := by
    rintro p _ ⟨rest, rfl⟩ hp
    rw [List.head?_append_of_ne_nil _ hp]
  have hdots : trimEndDots pre <+: trim s := (List.rdropWhile_prefix _ _).trans hpre
  have hdotsNe : trimEndDots pre ≠ [] := by
    intro hnil
    rw [hnil] at hne
    exact hne rfl
  have hstart : trimStart (trimEndDots pre) = trimEndDots pre := by
    refine trimStart_eq_self fun c hc => head_trimStart (s := s) ?_
    have hwhole : trimStart s ≠ [] := by
      intro hnil
      rw [trim, hnil] at hdots
      exact hdotsNe (List.prefix_nil.1 hdots)
    have hfront : (trim s).head? = (trimStart s).head? :=
      hhead (trimEnd_prefixOf _) fun hnil => hdotsNe (List.prefix_nil.1 (hnil ▸ hdots))
    rw [← hfront, ← hhead hdots hdotsNe]
    exact hc
  rw [trim, hstart] at hne ⊢
  rw [hhead (trimEnd_prefixOf _) hne, hhead hdots hdotsNe]

/-- What the accepted text of a rule's host is made into. -/
theorem normalizeNetworkRuleHost_ok (h : normalizeNetworkRuleHost raw = .ok host) :
    host = String.ofList (toAsciiLowercase (trim (trimEndDots (ruleHostPart raw.toList)))) ∧
      trim (trimEndDots (ruleHostPart raw.toList)) ≠ [] ∧
      '*' ∉ host.toList ∧ host.toList.any isWhitespace = false ∧
      (∀ c ∈ ['/', '?', '#'], c ∉ host.toList) ∧
      ((trim (trimEndDots (ruleHostPart raw.toList))).head? = some '[' → ']' ∉ host.toList) := by
  rw [normalizeNetworkRuleHost_eq] at h
  split at h
  · cases h
  split at h
  · cases h
  rename_i hbad
  simp only [Bool.or_eq_true, decide_eq_true_eq, not_or] at hbad
  cases htake : takeRuleHost raw with
  | error e =>
    rw [htake] at h
    cases h
  | ok part =>
    rw [htake, Except.bind] at h
    obtain ⟨rfl, hsubset, hbracket⟩ := takeRuleHost_ok htake
    obtain ⟨rfl, hne, hstar, hspace⟩ := settleRuleHost_ok h
    have hmem : ∀ {c}, c ∈ trim (trimEndDots (ruleHostPart raw.toList)) →
        c ∈ ruleHostPart raw.toList := fun hc =>
      (List.rdropWhile_prefix _ _).subset
        ((trimStart_suffix _).subset ((trimEnd_prefixOf _).subset hc))
    rw [String.toList_ofList]
    refine ⟨rfl, hne, hstar, hspace, fun c hc hhost => ?_, fun hhead => ?_⟩
    · have hraw : c ∉ trim raw.toList := by
        simp only [List.mem_cons, List.not_mem_nil, or_false] at hc
        rcases hc with rfl | rfl | rfl
        · exact hbad.1.1.2
        · exact hbad.1.2
        · exact hbad.2
      have hletter : isAsciiAlphabetic c = false := by
        simp only [List.mem_cons, List.not_mem_nil, or_false] at hc
        rcases hc with rfl | rfl | rfl <;> rfl
      exact hraw (hsubset c (hmem ((mem_toAsciiLowercase hletter).1 hhost)))
    · rw [mem_toAsciiLowercase (by decide)]
      rcases hbracket with hnone | ⟨hfirst, hprefix⟩
      · exact fun hmem' => hnone (hmem hmem')
      · exact absurd ((trim_head hprefix hne).symm.trans hhead) hfirst

/-- The text of a host that is already normalised. -/
theorem normalizeNetworkRuleHost_of_settled {name : List Char} (hne : name ≠ [])
    (hlower : toAsciiLowercase name = name) (hstar : '*' ∉ name)
    (hspace : name.any isWhitespace = false) (hbad : ∀ c ∈ ['/', '?', '#'], c ∉ name)
    (hbracket : name.head? ≠ some '[') (hcolon : name.count ':' ≠ 1)
    (hdot : name.getLast? ≠ some '.') :
    normalizeNetworkRuleHost (String.ofList name) = .ok (String.ofList name) := by
  have htrim := trim_eq_self_of_any hspace
  have hempty : name.isEmpty = false := List.isEmpty_eq_false_iff.2 hne
  have hscheme : name.tails.any "://".toList.isPrefixOf = false := by
    refine List.any_eq_false.2 fun rest hrest hprefix => hbad '/' (by decide) ?_
    exact ((List.mem_tails _ _).1 hrest).subset
      ((List.isPrefixOf_iff_prefix.1 hprefix).subset (by decide))
  have htake : takeRuleHost (String.ofList name) = .ok name := by
    unfold takeRuleHost
    rw [String.toList_ofList, htrim]
    split
    · exact absurd rfl hbracket
    · unfold stripPort
      split
      · rw [if_neg fun h => hcolon h.1]
      · rfl
  have hdots := trimEndDots_eq_self_iff.2 hdot
  rw [normalizeNetworkRuleHost_eq, String.toList_ofList, htrim, hempty, hscheme,
    decide_eq_false (hbad '/' (by decide)), decide_eq_false (hbad '?' (by decide)),
    decide_eq_false (hbad '#' (by decide)), htake]
  show settleRuleHost name = _
  unfold settleRuleHost
  dsimp only
  rw [hdots, htrim, hlower, hempty, if_neg hstar, hspace]
  rfl

/-- The host of a rule stays as it is, for rules and for the proxy, exactly when its text is
settled. -/
theorem normalizeNetworkRuleHost_again_iff (h : normalizeNetworkRuleHost raw = .ok host) :
    (normalizeNetworkRuleHost host = .ok host ∧ normalizeHost host.toList = host.toList) ↔
      Settled raw.toList := by
  obtain ⟨heq, hne, hstar, hspace, hbad, hbracket⟩ := normalizeNetworkRuleHost_ok h
  have hlist : host.toList =
      toAsciiLowercase (trim (trimEndDots (ruleHostPart raw.toList))) := by
    rw [heq, String.toList_ofList]
  have htrim := trim_eq_self_of_any hspace
  have hlower : toAsciiLowercase host.toList = host.toList := by
    rw [hlist, toAsciiLowercase_idem]
  have hhead : host.toList.head? = some '[' ↔
      (trim (trimEndDots (ruleHostPart raw.toList))).head? = some '[' := by
    rw [hlist, head_toAsciiLowercase (by decide)]
  have hlast : host.toList.getLast? = some '.' ↔
      (trim (trimEndDots (ruleHostPart raw.toList))).getLast? = some '.' := by
    rw [hlist, getLast_toAsciiLowercase (by decide)]
  have hcount : host.toList.count ':' =
      (trim (trimEndDots (ruleHostPart raw.toList))).count ':' := by
    rw [hlist, count_toAsciiLowercase (by decide)]
  have hsettled : Settled raw.toList ↔
      host.toList.head? ≠ some '[' ∧ host.toList.count ':' ≠ 1 ∧
        host.toList.getLast? ≠ some '.' := by
    rw [hcount]
    exact and_congr (not_congr hhead.symm) (and_congr Iff.rfl (not_congr hlast.symm))
  rw [hsettled]
  constructor
  · rintro ⟨hrule, hproxy⟩
    obtain ⟨-, -, hdots, -, hcolon⟩ := (normalizeHost_eq_self_iff _).1 hproxy
    refine ⟨fun hopen => ?_, hcolon, trimEndDots_eq_self_iff.1 hdots⟩
    -- a bracket is not closed, so the host is rejected
    obtain ⟨stripped, hstripped⟩ := List.head?_eq_some_iff.1 hopen
    have hclosed : ']' ∉ stripped := fun hmem =>
      hbracket (hhead.1 hopen) (hstripped ▸ List.mem_cons_of_mem _ hmem)
    have htake : takeRuleHost host = stripBrackets host stripped := by
      rw [takeRuleHost, htrim, hstripped]
      rfl
    rw [normalizeNetworkRuleHost_eq, htake, stripBrackets, splitOnce, if_neg hclosed] at hrule
    split at hrule
    · cases hrule
    split at hrule
    · cases hrule
    · cases hrule
  · rintro ⟨hopen, hcolon, hdot⟩
    have hname : host.toList ≠ [] := by
      rw [hlist]
      exact fun hnil => hne (List.map_eq_nil_iff.1 hnil)
    refine ⟨?_, (normalizeHost_eq_self_iff _).2
      ⟨htrim, hlower, trimEndDots_eq_self_iff.2 hdot, fun h => hopen h.1, hcolon⟩⟩
    have hagain := normalizeNetworkRuleHost_of_settled hname hlower hstar hspace hbad hopen hcolon
      hdot
    rwa [String.ofList_toList] at hagain

/-- When the hosts that are normalised stay as they are when they are normalised again. -/
theorem normalize_again_iff (raw : String) :
    (∀ host, normalizeNetworkRuleHost raw = .ok host →
      ((normalizeNetworkRuleHost host = .ok host ∧ normalizeHost host.toList = host.toList) ↔
        Settled raw.toList)) ∧
    (normalizeHost (normalizeHost raw.toList) = normalizeHost raw.toList ↔
      trim (trimEndDots (hostPart raw.toList)) = trimEndDots (hostPart raw.toList) ∧
        (trimEndDots (hostPart raw.toList)).count ':' ≠ 1) :=
  ⟨fun _ h => normalizeNetworkRuleHost_again_iff h, normalizeHost_again_iff _⟩

end

/-- A colon within brackets is that of a port once the brackets are gone. -/
theorem not_normalized_bracketedPort :
    normalizeNetworkRuleHost "[a:80]" = .ok "a:80" ∧
      normalizeNetworkRuleHost "a:80" = .ok "a" ∧ normalizeHost "a:80".toList = "a".toList ∧
      normalizeHost (normalizeHost "[a:80]".toList) ≠ normalizeHost "[a:80]".toList := by
  decide

end Mcodex.NetworkProxy
