import Splora.Allowlist

/-!
# Edits of the allowlist

The operator adds and removes keys line by line.  A line is recognised by its key, in
whatever spelling; every other line is written back as it was read.
-/

namespace Splora
namespace Queue

open Foundation Auth

inductive QueueError where
  | invalidNpub
  | invalidEmail
  | badJson
  | rateLimited
  | capExceeded
  | notFound
  | io (message : Text)
deriving DecidableEq, Repr

def validNpub (parser : PubkeyParser) (npub : Text) :
    Except QueueError Pubkey := do
  ensure (("npub1".toList).isPrefixOf npub = true) .invalidNpub
  expect (parser.parsePubkeyLine npub) .invalidNpub

def fsyncLines (kept : List Text) : Text :=
  Text.unlines kept

def removeLines (parser : PubkeyParser) (pk : Pubkey) (text : Text) : List Text :=
  (Text.lines text).filter fun raw => parser.readLine raw ≠ .key pk

def removeNpub (parser : PubkeyParser) (allowlist : Option Text) (npub : Text) :
    Except QueueError Text := do
  let pk <- validNpub parser npub
  let text := allowlist.getD []
  pure (fsyncLines (removeLines parser pk text))

def upsertLines (parser : PubkeyParser) (pk : Pubkey) (npub text : Text) :
    List Text :=
  let kept := (Text.lines text).map fun raw =>
    if parser.readLine raw = .key pk then npub else raw
  let found := (Text.lines text).any fun raw => parser.readLine raw = .key pk
  if found then kept else kept ++ [npub]

def upsertAllowlist (parser : PubkeyParser) (allowlist : Option Text)
    (npub : Text) : Except QueueError Text := do
  let pk <- validNpub parser npub
  let text := allowlist.getD []
  pure (fsyncLines (upsertLines parser pk npub text))

/-!
## Valid keys
-/

section ValidNpub

variable {parser : PubkeyParser} {npub : Text} {pk : Pubkey}

theorem validNpub_eq_ok :
    validNpub parser npub = .ok pk <->
      "npub1".toList <+: npub ∧ parser.parsePubkeyLine npub = some pk := by
  unfold validNpub
  rw [bind_eq_ok]
  simp only [ensure_eq_ok, expect_eq_ok, List.isPrefixOf_iff_prefix]
  constructor
  · intro h
    rcases h with ⟨_, hpre, hparse⟩
    exact ⟨hpre, hparse⟩
  · intro h
    exact ⟨(), h⟩

section

variable (h : validNpub parser npub = .ok pk)

include h

theorem npub_clean {c : Char} (hc : c ∈ npub) : c ≠ ',' ∧ Text.isWhitespace c = false := by
  have hvalid := validNpub_eq_ok.mp h
  exact parser.npub_clean hvalid.left hvalid.right c hc

theorem npub_ne_nil : npub ≠ [] := by
  intro hnil
  have hpre := (validNpub_eq_ok.mp h).left
  rw [hnil, List.prefix_nil] at hpre
  cases hpre

theorem head?_npub : npub.head? = some 'n' := by
  rcases (validNpub_eq_ok.mp h).left with ⟨data, hdata⟩
  rw [<- hdata]
  rfl

theorem trim_npub : Text.trim npub = npub := by
  apply Text.trim_eq_self
  · intro c hc
    exact (npub_clean h (List.mem_of_mem_head? hc)).right
  · intro c hc
    exact (npub_clean h (List.mem_of_mem_getLast? hc)).right

theorem not_lineFeed_mem_npub : '\n' ∉ npub := by
  intro hc
  exact Bool.noConfusion (npub_clean h hc).right

theorem stripCr_npub : Text.stripCr npub = npub := by
  apply Text.stripCr_of_ne
  intro hlast
  exact Bool.noConfusion (npub_clean h (List.mem_of_mem_getLast? hlast)).right

theorem readLine_npub : parser.readLine npub = .key pk := by
  have hline : ¬ (npub = [] ∨ npub.head? = some '#') := by
    intro hline
    rcases hline with hnil | hhash
    · exact npub_ne_nil h hnil
    · rw [head?_npub h] at hhash
      exact absurd hhash (by decide)
  unfold PubkeyParser.readLine
  rw [trim_npub h]
  show (if npub = [] ∨ npub.head? = some '#' then _ else _) = _
  rw [if_neg hline, (validNpub_eq_ok.mp h).right]

end

end ValidNpub

/-!
## Written files
-/

section Written

variable {parser : PubkeyParser} {ls : List Text} {k : Pubkey}

theorem readable_fsyncLines (h : forall line, line ∈ ls -> '\n' ∉ line) :
    Readable parser (fsyncLines ls) <-> forall raw, raw ∈ ls -> parser.readLine raw ≠ .invalid := by
  unfold Readable fsyncLines
  rw [Text.lines_unlines h, List.forall_mem_map]
  simp only [readLine_stripCr]

theorem listsKey_fsyncLines (h : forall line, line ∈ ls -> '\n' ∉ line) :
    ListsKey parser (fsyncLines ls) k <-> exists raw, raw ∈ ls ∧ parser.readLine raw = .key k := by
  unfold ListsKey fsyncLines
  rw [Text.lines_unlines h]
  constructor
  · intro hlists
    rcases hlists with ⟨line, hline, hk⟩
    rcases List.mem_map.mp hline with ⟨raw, hraw, heq⟩
    rw [<- heq, readLine_stripCr] at hk
    exact ⟨raw, hraw, hk⟩
  · intro hlists
    rcases hlists with ⟨raw, hraw, hk⟩
    refine ⟨Text.stripCr raw, List.mem_map_of_mem hraw, ?_⟩
    rw [readLine_stripCr]
    exact hk

end Written

/-!
## Removing a key
-/

section Edits

variable {parser : PubkeyParser} {npub text text' path : Text} {pk k : Pubkey}

theorem removeNpub_eq (h : validNpub parser npub = .ok pk) (allowlist : Option Text) :
    removeNpub parser allowlist npub =
      .ok (fsyncLines (removeLines parser pk (allowlist.getD []))) := by
  unfold removeNpub
  rw [h]
  rfl

theorem mem_removeLines {raw : Text} :
    raw ∈ removeLines parser pk text <-> raw ∈ Text.lines text ∧ parser.readLine raw ≠ .key pk := by
  rw [removeLines, List.mem_filter, decide_eq_true_eq]

theorem not_lineFeed_mem_removeLines (line : Text)
    (h : line ∈ removeLines parser pk text) : '\n' ∉ line :=
  Text.not_mem_of_mem_lines (mem_removeLines.mp h).left

theorem readable_remove :
    Readable parser (fsyncLines (removeLines parser pk text)) <->
      Readable parser text := by
  rw [readable_fsyncLines not_lineFeed_mem_removeLines]
  constructor
  · intro h raw hraw hinvalid
    have hother : parser.readLine raw ≠ .key pk := by
      rw [hinvalid]
      nofun
    exact h raw (mem_removeLines.mpr ⟨hraw, hother⟩) hinvalid
  · intro h raw hraw
    exact h raw (mem_removeLines.mp hraw).left

theorem listsKey_remove :
    ListsKey parser (fsyncLines (removeLines parser pk text)) k <->
      ListsKey parser text k ∧ k ≠ pk := by
  rw [listsKey_fsyncLines not_lineFeed_mem_removeLines]
  simp only [mem_removeLines]
  constructor
  · intro h
    rcases h with ⟨raw, ⟨hraw, hother⟩, hk⟩
    refine ⟨⟨raw, hraw, hk⟩, ?_⟩
    intro heq
    rw [hk, heq] at hother
    exact hother rfl
  · intro h
    rcases h with ⟨⟨raw, hraw, hk⟩, hne⟩
    refine ⟨raw, ⟨hraw, ?_⟩, hk⟩
    rw [hk]
    intro heq
    exact hne (AllowlistLine.key.inj heq)

/-!
## Adding a key
-/

theorem upsertAllowlist_eq (h : validNpub parser npub = .ok pk) (allowlist : Option Text) :
    upsertAllowlist parser allowlist npub =
      .ok (fsyncLines (upsertLines parser pk npub (allowlist.getD []))) := by
  unfold upsertAllowlist
  rw [h]
  rfl

def upsertLine (parser : PubkeyParser) (pk : Pubkey) (npub raw : Text) : Text :=
  if parser.readLine raw = .key pk then npub else raw

theorem upsertLines_of_listsKey (h : ListsKey parser text pk) :
    upsertLines parser pk npub text = (Text.lines text).map (upsertLine parser pk npub) := by
  rcases h with ⟨line, hline, hkey⟩
  exact if_pos (List.any_eq_true.mpr ⟨line, hline, decide_eq_true hkey⟩)

theorem upsertLines_of_not_listsKey (h : ¬ ListsKey parser text pk) :
    upsertLines parser pk npub text = Text.lines text ++ [npub] := by
  have hany : ¬ ((Text.lines text).any fun raw =>
      parser.readLine raw = .key pk) = true := by
    intro hany
    rcases List.any_eq_true.mp hany with ⟨line, hline, hkey⟩
    exact h ⟨line, hline, of_decide_eq_true hkey⟩
  have hkept : (Text.lines text).map (upsertLine parser pk npub) =
      Text.lines text := by
    rw [<- List.map_id (Text.lines text), List.map_map, List.map_inj_left]
    intro raw hraw
    exact if_neg fun hkey => h ⟨raw, hraw, hkey⟩
  show (if _ then _ else (Text.lines text).map (upsertLine parser pk npub) ++ _) = _
  rw [if_neg hany, hkept]

theorem mem_upsertLines {raw : Text} :
    raw ∈ upsertLines parser pk npub text <->
      raw = npub ∨ raw ∈ Text.lines text ∧ parser.readLine raw ≠ .key pk := by
  by_cases hfound : ListsKey parser text pk
  · rw [upsertLines_of_listsKey hfound, List.mem_map]
    constructor
    · intro h
      rcases h with ⟨line, hline, heq⟩
      unfold upsertLine at heq
      split at heq
      · exact Or.inl heq.symm
      · rename_i hother
        rw [<- heq]
        exact Or.inr ⟨hline, hother⟩
    · intro h
      rcases h with heq | ⟨hraw, hother⟩
      · rcases hfound with ⟨line, hline, hkey⟩
        exact ⟨line, hline, by rw [heq]; exact if_pos hkey⟩
      · exact ⟨raw, hraw, if_neg hother⟩
  · rw [upsertLines_of_not_listsKey hfound, List.mem_append, List.mem_singleton, or_comm]
    have hother : raw ∈ Text.lines text -> parser.readLine raw ≠ .key pk := by
      intro hraw hkey
      exact hfound ⟨raw, hraw, hkey⟩
    rw [and_iff_left_of_imp hother]

theorem not_lineFeed_mem_upsertLines (h : validNpub parser npub = .ok pk)
    (line : Text) (hline : line ∈ upsertLines parser pk npub text) :
    '\n' ∉ line := by
  rcases mem_upsertLines.mp hline with heq | ⟨hline, _⟩
  · rw [heq]
    exact not_lineFeed_mem_npub h
  · exact Text.not_mem_of_mem_lines hline

theorem readable_upsert (h : validNpub parser npub = .ok pk) :
    Readable parser (fsyncLines (upsertLines parser pk npub text)) <->
      Readable parser text := by
  rw [readable_fsyncLines (not_lineFeed_mem_upsertLines h)]
  constructor
  · intro hread raw hraw hinvalid
    have hother : parser.readLine raw ≠ .key pk := by
      rw [hinvalid]
      nofun
    exact hread raw (mem_upsertLines.mpr (Or.inr ⟨hraw, hother⟩)) hinvalid
  · intro hread raw hraw
    rcases mem_upsertLines.mp hraw with heq | ⟨hraw, _⟩
    · rw [heq, readLine_npub h]
      nofun
    · exact hread raw hraw

theorem listsKey_upsert (h : validNpub parser npub = .ok pk) :
    ListsKey parser (fsyncLines (upsertLines parser pk npub text)) k <->
      ListsKey parser text k ∨ k = pk := by
  rw [listsKey_fsyncLines (not_lineFeed_mem_upsertLines h)]
  simp only [mem_upsertLines]
  constructor
  · intro hlists
    rcases hlists with ⟨raw, heq | ⟨hraw, _⟩, hk⟩
    · rw [heq, readLine_npub h] at hk
      exact Or.inr (AllowlistLine.key.inj hk).symm
    · exact Or.inl ⟨raw, hraw, hk⟩
  · intro hlists
    by_cases hpk : k = pk
    · rw [hpk]
      exact ⟨npub, Or.inl rfl, readLine_npub h⟩
    · rcases hlists with ⟨raw, hraw, hk⟩ | heq
      · refine ⟨raw, Or.inr ⟨hraw, ?_⟩, hk⟩
        rw [hk]
        intro hkey
        exact hpk (AllowlistLine.key.inj hkey)
      · exact absurd heq hpk

/-!
## Revocation
-/

/-- A removed key is refused after the reload exactly if the file was readable or the key was not
loaded. -/
theorem revoked_iff {earlier : Text} {allow : Allowlist}
    (hload : Allowlist.load parser path (some earlier) = .ok allow)
    (hpk : validNpub parser npub = .ok pk)
    (hremove : removeNpub parser (some text) npub = .ok text') :
    (allow.watch parser path (some text')).contains pk = false <->
      Readable parser text ∨ ¬ ListsKey parser earlier pk := by
  have hloaded : allow.contains pk = true <-> ListsKey parser earlier pk := by
    rw [Allowlist.contains, decide_eq_true_eq]
    exact mem_of_parseAllowlistFile (load_eq_ok.mp hload)
  rw [removeNpub_eq hpk] at hremove
  cases hremove
  show (allow.watch parser path
    (some (fsyncLines (removeLines parser pk text)))).contains pk = false <-> _
  rw [<- Bool.not_eq_true, contains_watch, readable_remove, listsKey_remove, hloaded]
  simp only [ne_eq, not_true_eq_false, and_false, false_or, not_and_or, not_not]

end Edits

namespace Sample

def spellings : List (Text × Pubkey) :=
  [("npub1a".toList, 1), ("npub1b".toList, 2), ("0a".toList, 1)]

def parser : PubkeyParser where
  parsePubkeyLine line :=
    (spellings.find? fun spelling => spelling.1 = line).map Prod.snd
  npub_clean := by
    intro t pk _ h c hc
    rcases Option.map_eq_some_iff.mp h with ⟨spelling, hfind, _⟩
    have hclean : (spellings.all fun spelling => spelling.1.all fun c =>
        c ≠ ',' && !Text.isWhitespace c) = true := rfl
    have heq := List.find?_some hfind
    rw [decide_eq_true_eq] at heq
    have hmem := List.all_eq_true.mp hclean spelling (List.mem_of_find?_eq_some hfind)
    rw [heq] at hmem
    have hchar := List.all_eq_true.mp hmem c hc
    rw [Bool.and_eq_true, decide_eq_true_eq, Bool.not_eq_true'] at hchar
    exact hchar

def path : Text :=
  "allow".toList

def npubA : Text :=
  "npub1a".toList

def readableFile : Text :=
  "# staff\nnpub1a\n\nnpub1b\n0a\n".toList

def unreadableFile : Text :=
  "npub1a\nbad\n".toList

def loaded : Allowlist where
  keys := [2, 1]

theorem load_readableFile : Allowlist.load parser path (some readableFile) = .ok loaded := by
  rfl

theorem validNpub_npubA : validNpub parser npubA = .ok 1 := by
  rfl

theorem remove_readableFile :
    removeNpub parser (some readableFile) npubA = .ok "# staff\n\nnpub1b\n".toList := by
  rfl

theorem revoked_from_readable_file :
    Readable parser readableFile ∧
      (loaded.watch parser path (some "# staff\n\nnpub1b\n".toList)).contains 1 =
        false := by
  have hread : Readable parser readableFile := by
    decide
  exact ⟨hread, (revoked_iff load_readableFile validNpub_npubA
    remove_readableFile).mpr (Or.inl hread)⟩

/-- The file has an unreadable line.  The removal succeeds, and the key is still accepted. -/
theorem revoked_key_still_accepted :
    Allowlist.load parser path (some readableFile) = .ok loaded ∧ validNpub parser npubA = .ok 1 ∧
      removeNpub parser (some unreadableFile) npubA = .ok "bad\n".toList ∧
      (loaded.watch parser path (some "bad\n".toList)).contains 1 = true :=
  ⟨rfl, rfl, rfl, rfl⟩

end Sample

/-!
## Exact edits
-/

section Exact

variable {parser : PubkeyParser} {npub text path : Text} {pk : Pubkey}

def otherLines (parser : PubkeyParser) (pk : Pubkey) (text : Text) : List Text :=
  (Text.lines text).filter fun raw => parser.readLine raw ≠ .key pk

/-- The edit has the right keys, keeps the other lines, and changes nothing the second time. -/
def ExactEdit (parser : PubkeyParser) (path : Text) (pk : Pubkey)
    (edit : Option Text -> Except QueueError Text) (text : Text)
    (after : Pubkey -> Prop) : Prop :=
  exists text', edit (some text) = .ok text' ∧
    (exists keys', parser.parseAllowlistFile path (some text') = .ok keys' ∧
      forall k, k ∈ keys' <-> after k) ∧
    otherLines parser pk text' = otherLines parser pk text ∧
    edit (some text') = .ok text'

/-- No other line ends in a carriage return: two of them before its line feed, or one at the end of
the file. -/
def NoBareCr (parser : PubkeyParser) (pk : Pubkey) (text : Text) : Prop :=
  forall raw, raw ∈ Text.lines text -> parser.readLine raw ≠ .key pk -> raw.getLast? ≠ some '\r'

theorem map_stripCr_eq_self {ls : List Text} :
    ls.map Text.stripCr = ls <-> forall raw, raw ∈ ls -> raw.getLast? ≠ some '\r' := by
  simp only [<- Text.stripCr_eq_self]
  constructor
  · intro h raw hraw
    exact List.map_inj_left.mp (h.trans (List.map_id ls).symm) raw hraw
  · intro h
    exact (List.map_inj_left.mpr h).trans (List.map_id ls)

theorem otherLines_fsyncLines {ls : List Text} (h : forall line, line ∈ ls -> '\n' ∉ line) :
    otherLines parser pk (fsyncLines ls) =
      (ls.filter fun raw => parser.readLine raw ≠ .key pk).map Text.stripCr := by
  unfold otherLines fsyncLines
  rw [Text.lines_unlines h, List.filter_map]
  congr 2
  funext raw
  show decide (parser.readLine (Text.stripCr raw) ≠ .key pk) = _
  rw [readLine_stripCr]

theorem filter_removeLines :
    ((removeLines parser pk text).filter fun raw => parser.readLine raw ≠ .key pk) =
      otherLines parser pk text := by
  rw [List.filter_eq_self.mpr]
  · rfl
  · intro raw hraw
    exact decide_eq_true (mem_removeLines.mp hraw).right

theorem filter_upsertLines (h : validNpub parser npub = .ok pk) :
    ((upsertLines parser pk npub text).filter fun raw =>
        parser.readLine raw ≠ .key pk) = otherLines parser pk text := by
  have hnpub : decide (parser.readLine npub ≠ .key pk) = false :=
    decide_eq_false (not_not.mpr (readLine_npub h))
  by_cases hfound : ListsKey parser text pk
  · rw [upsertLines_of_listsKey hfound, otherLines]
    induction Text.lines text with
    | nil => rfl
    | cons raw ls ih =>
      rw [List.map_cons, List.filter_cons, List.filter_cons, ih]
      by_cases hkey : parser.readLine raw = .key pk
      · rw [upsertLine, if_pos hkey, hnpub, decide_eq_false (not_not.mpr hkey)]
        rfl
      · rw [upsertLine, if_neg hkey]
  · rw [upsertLines_of_not_listsKey hfound, List.filter_append, List.filter_cons, hnpub]
    exact List.append_nil _

theorem noBareCr_iff :
    (otherLines parser pk text).map Text.stripCr = otherLines parser pk text <->
      NoBareCr parser pk text := by
  rw [map_stripCr_eq_self]
  unfold otherLines NoBareCr
  simp only [List.mem_filter, decide_eq_true_eq, and_imp]

theorem removeLines_idem (h : NoBareCr parser pk text) :
    removeLines parser pk (fsyncLines (removeLines parser pk text)) =
      removeLines parser pk text := by
  show otherLines parser pk (fsyncLines (removeLines parser pk text)) = _
  rw [otherLines_fsyncLines not_lineFeed_mem_removeLines, filter_removeLines, noBareCr_iff.mpr h]
  rfl

theorem upsertLines_idem (hpk : validNpub parser npub = .ok pk) (h : NoBareCr parser pk text) :
    upsertLines parser pk npub (fsyncLines (upsertLines parser pk npub text)) =
      upsertLines parser pk npub text := by
  have hlines : Text.lines (fsyncLines (upsertLines parser pk npub text)) =
      upsertLines parser pk npub text := by
    rw [fsyncLines, Text.lines_unlines (not_lineFeed_mem_upsertLines hpk), map_stripCr_eq_self]
    intro raw hraw
    rcases mem_upsertLines.mp hraw with heq | ⟨hraw, hother⟩
    · rw [heq]
      exact Text.stripCr_eq_self.mp (stripCr_npub hpk)
    · exact h raw hraw hother
  rw [upsertLines_of_listsKey ((listsKey_upsert hpk).mpr (Or.inr rfl)), hlines]
  conv_rhs => rw [<- List.map_id (upsertLines parser pk npub text)]
  rw [List.map_inj_left]
  intro raw hraw
  rcases mem_upsertLines.mp hraw with heq | ⟨_, hother⟩
  · rw [heq]
    exact if_pos (readLine_npub hpk)
  · exact if_neg hother

theorem exactEdit_of_lines {edit : Option Text -> Except QueueError Text}
    {kept : Text -> List Text} {after : Pubkey -> Prop}
    (hedit : forall text, edit (some text) = .ok (fsyncLines (kept text)))
    (hlines : forall line, line ∈ kept text -> '\n' ∉ line)
    (hread : Readable parser (fsyncLines (kept text)))
    (hlists : forall k, ListsKey parser (fsyncLines (kept text)) k <-> after k)
    (hother : ((kept text).filter fun raw => parser.readLine raw ≠ .key pk) =
      otherLines parser pk text)
    (hidem : kept (fsyncLines (kept text)) = kept text)
    (h : NoBareCr parser pk text) : ExactEdit parser path pk edit text after := by
  refine ⟨_, hedit text, ?_, ?_, ?_⟩
  · rcases parseAllowlistFile_ok.mpr hread with ⟨keys', hkeys'⟩
    refine ⟨keys', hkeys', ?_⟩
    intro k
    rw [mem_of_parseAllowlistFile hkeys']
    exact hlists k
  · rw [otherLines_fsyncLines hlines, hother]
    exact noBareCr_iff.mpr h
  · rw [hedit, hidem]

section

variable {keys : List Pubkey} (hparse : parser.parseAllowlistFile path (some text) = .ok keys)
  (hpk : validNpub parser npub = .ok pk) (h : NoBareCr parser pk text)

include hparse hpk h

theorem exactEdit_upsert :
    ExactEdit parser path pk (fun file => upsertAllowlist parser file npub) text
      (fun k => k ∈ keys ∨ k = pk) := by
  apply exactEdit_of_lines (fun text => upsertAllowlist_eq hpk (some text))
    (not_lineFeed_mem_upsertLines hpk) _ _ (filter_upsertLines hpk)
    (upsertLines_idem hpk h) h
  · exact (readable_upsert hpk).mpr (parseAllowlistFile_ok.mp ⟨keys, hparse⟩)
  · intro k
    rw [mem_of_parseAllowlistFile hparse]
    exact listsKey_upsert hpk

theorem exactEdit_remove :
    ExactEdit parser path pk (fun file => removeNpub parser file npub) text
      (fun k => k ∈ keys ∧ k ≠ pk) := by
  apply exactEdit_of_lines (fun text => removeNpub_eq hpk (some text))
    not_lineFeed_mem_removeLines _ _ filter_removeLines (removeLines_idem h) h
  · exact readable_remove.mpr (parseAllowlistFile_ok.mp ⟨keys, hparse⟩)
  · intro k
    rw [mem_of_parseAllowlistFile hparse]
    exact listsKey_remove

end

theorem noBareCr_of_exactEdit_remove {after : Pubkey -> Prop} (hpk : validNpub parser npub = .ok pk)
    (h : ExactEdit parser path pk (fun file => removeNpub parser file npub) text
      after) : NoBareCr parser pk text := by
  rcases h with ⟨text', hremove, _, hother, _⟩
  have htext' : fsyncLines (removeLines parser pk text) = text' :=
    Except.ok.inj ((removeNpub_eq hpk (some text)).symm.trans hremove)
  rw [<- htext', otherLines_fsyncLines not_lineFeed_mem_removeLines, filter_removeLines] at hother
  exact noBareCr_iff.mp hother

/-- The keys are always right.  The other lines are kept, and a second edit changes nothing,
exactly if none of them ends in a bare carriage return. -/
theorem edits_exact_iff {keys : List Pubkey}
    (hparse : parser.parseAllowlistFile path (some text) = .ok keys)
    (hpk : validNpub parser npub = .ok pk) :
    (ExactEdit parser path pk (fun file => upsertAllowlist parser file npub) text
        (fun k => k ∈ keys ∨ k = pk) ∧
      ExactEdit parser path pk (fun file => removeNpub parser file npub) text
        (fun k => k ∈ keys ∧ k ≠ pk)) <->
      NoBareCr parser pk text := by
  constructor
  · intro h
    exact noBareCr_of_exactEdit_remove hpk h.right
  · intro h
    exact ⟨exactEdit_upsert hparse hpk h, exactEdit_remove hparse hpk h⟩

end Exact

namespace Sample

theorem parse_readableFile : parser.parseAllowlistFile path (some readableFile) = .ok [2, 1] := by
  rfl

theorem noBareCr_readableFile : NoBareCr parser 1 readableFile := by
  unfold NoBareCr
  decide

theorem edits_of_readableFile_exact :
    NoBareCr parser 1 readableFile ∧
      (ExactEdit parser path 1 (fun file => upsertAllowlist parser file npubA)
          readableFile (fun k => k ∈ [2, 1] ∨ k = 1) ∧
        ExactEdit parser path 1 (fun file => removeNpub parser file npubA)
          readableFile (fun k => k ∈ [2, 1] ∧ k ≠ 1)) :=
  ⟨noBareCr_readableFile, (edits_exact_iff parse_readableFile validNpub_npubA).mpr
      noBareCr_readableFile⟩

/-- A comment keeps its carriage return in the first edit and loses it in the second. -/
theorem bare_cr_lost_by_second_edit :
    parser.parseAllowlistFile path (some "#\r".toList) = .ok [] ∧ validNpub parser npubA = .ok 1 ∧
      upsertAllowlist parser (some "#\r".toList) npubA = .ok "#\r\nnpub1a\n".toList ∧
      upsertAllowlist parser (some "#\r\nnpub1a\n".toList) npubA = .ok "#\nnpub1a\n".toList ∧
      otherLines parser 1 "#\r".toList = ["#\r".toList] ∧
      otherLines parser 1 "#\r\nnpub1a\n".toList = ["#".toList] ∧
      removeNpub parser (some "#\r".toList) npubA = .ok "#\r\n".toList ∧
      removeNpub parser (some "#\r\n".toList) npubA = .ok "#\n".toList :=
  ⟨rfl, rfl, rfl, rfl, rfl, rfl, rfl, rfl⟩

end Sample

end Queue
end Splora
