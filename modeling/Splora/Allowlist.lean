import Splora.Auth
import Splora.Foundation.Lines

/-!
# The allowlist file

One public key a line, with comments and blank lines.  One line that is no key makes the load
fail, and a failed reload leaves the keys as they were.
-/

namespace Splora
namespace Auth

open Foundation

/-- The data part of an `npub` has no comma or white space. -/
structure PubkeyParser where
  parsePubkeyLine : Text -> Option Pubkey
  npub_clean : forall {t : Text} {pk : Pubkey}, "npub1".toList <+: t ->
    parsePubkeyLine t = some pk -> forall c, c ∈ t -> c ≠ ',' ∧ Text.isWhitespace c = false

inductive AllowlistLine where
  | ignored
  | key (pk : Pubkey)
  | invalid
deriving DecidableEq, Repr

def PubkeyParser.readLine (parser : PubkeyParser) (raw : Text) : AllowlistLine :=
  let line := Text.trim raw
  if line = [] ∨ line.head? = some '#' then
    .ignored
  else
    match parser.parsePubkeyLine line with
    | some pk => .key pk
    | none => .invalid

def AllowlistLine.insertInto (set : List Pubkey) : AllowlistLine -> List Pubkey
  | key pk => set.insert pk
  | _ => set

def noSuchFile : Text :=
  "No such file or directory (os error 2)".toList

def invalidLine (path line : Text) : AuthError :=
  .io ("invalid allowlist line in ".toList ++ path ++ ": ".toList ++ line)

def PubkeyParser.parseAllowlistLine (parser : PubkeyParser) (path : Text)
    (set : List Pubkey) (raw : Text) : Except AuthError (List Pubkey) :=
  match parser.readLine raw with
  | .ignored => .ok set
  | .key pk => .ok (set.insert pk)
  | .invalid => .error (invalidLine path (Text.trim raw))

def PubkeyParser.parseAllowlistFile (parser : PubkeyParser) (path : Text)
    (file : Option Text) : Except AuthError (List Pubkey) := do
  let text <- expect file (.io noSuchFile)
  (Text.lines text).foldlM (parser.parseAllowlistLine path) []

namespace Allowlist

def load (parser : PubkeyParser) (path : Text) (file : Option Text) :
    Except AuthError Allowlist := do
  ensure (file ≠ none) (.io ("allowlist file missing: ".toList ++ path))
  let keys <- parser.parseAllowlistFile path file
  pure { keys }

def reload (parser : PubkeyParser) (path : Text) (file : Option Text) :
    Except AuthError Allowlist := do
  let keys <- parser.parseAllowlistFile path file
  pure { keys }

/-- The result of the reload is dropped: the loaded keys stay when it fails. -/
def watch (allow : Allowlist) (parser : PubkeyParser) (path : Text)
    (file : Option Text) : Allowlist :=
  match reload parser path file with
  | .ok reloaded => reloaded
  | .error _ => allow

end Allowlist

/-!
## The loaded keys
-/

section Loaded

variable {parser : PubkeyParser} {path raw text : Text} {file : Option Text}
  {pk : Pubkey} {set keys : List Pubkey} {ls : List Text}

theorem readLine_stripCr (parser : PubkeyParser) (raw : Text) :
    parser.readLine (Text.stripCr raw) = parser.readLine raw := by
  unfold PubkeyParser.readLine
  rw [Text.trim_stripCr]

theorem parseAllowlistLine_eq_ok {set' : List Pubkey} :
    parser.parseAllowlistLine path set raw = .ok set' <->
      parser.readLine raw ≠ .invalid ∧ set' = (parser.readLine raw).insertInto set := by
  unfold PubkeyParser.parseAllowlistLine
  cases parser.readLine raw with
  | ignored =>
    constructor
    · intro h
      cases h
      exact ⟨nofun, rfl⟩
    · intro h
      rw [h.right]
      rfl
  | key pk =>
    constructor
    · intro h
      cases h
      exact ⟨nofun, rfl⟩
    · intro h
      rw [h.right]
      rfl
  | invalid =>
    constructor
    · intro h
      cases h
    · intro h
      exact absurd rfl h.left

theorem mem_of_parseAllowlistLine {set' : List Pubkey}
    (h : parser.parseAllowlistLine path set raw = .ok set') :
    pk ∈ set' <-> pk ∈ set ∨ parser.readLine raw = .key pk := by
  rw [(parseAllowlistLine_eq_ok.mp h).right]
  cases parser.readLine raw with
  | ignored => simp [AllowlistLine.insertInto]
  | key pk' =>
    rw [AllowlistLine.insertInto, List.mem_insert_iff, or_comm, AllowlistLine.key.injEq, eq_comm]
  | invalid => simp [AllowlistLine.insertInto]

theorem mem_of_foldlM_parseAllowlistLine
    (h : ls.foldlM (parser.parseAllowlistLine path) set = .ok keys) :
    pk ∈ keys <-> pk ∈ set ∨ exists raw, raw ∈ ls ∧ parser.readLine raw = .key pk := by
  induction ls generalizing set with
  | nil =>
    rw [List.foldlM_nil, pure_eq_ok] at h
    rw [h]
    simp
  | cons raw ls ih =>
    rw [List.foldlM_cons, bind_eq_ok] at h
    rcases h with ⟨set', hset', hls⟩
    rw [ih hls, mem_of_parseAllowlistLine hset', or_assoc]
    simp

theorem foldlM_parseAllowlistLine_ok :
    (exists keys, ls.foldlM (parser.parseAllowlistLine path) set = .ok keys) <->
      forall raw, raw ∈ ls -> parser.readLine raw ≠ .invalid := by
  induction ls generalizing set with
  | nil =>
    constructor
    · intro _ raw hraw
      cases hraw
    · intro _
      exact ⟨set, rfl⟩
  | cons raw ls ih =>
    rw [List.forall_mem_cons]
    constructor
    · intro h
      rcases h with ⟨keys, hkeys⟩
      rw [List.foldlM_cons, bind_eq_ok] at hkeys
      rcases hkeys with ⟨set', hset', hls⟩
      exact ⟨(parseAllowlistLine_eq_ok.mp hset').left, ih.mp ⟨keys, hls⟩⟩
    · intro h
      rcases ih.mpr h.right with ⟨keys, hkeys⟩
      refine ⟨keys, ?_⟩
      rw [List.foldlM_cons, bind_eq_ok]
      exact ⟨_, parseAllowlistLine_eq_ok.mpr ⟨h.left, rfl⟩, hkeys⟩

def Readable (parser : PubkeyParser) (text : Text) : Prop :=
  forall raw, raw ∈ Text.lines text -> parser.readLine raw ≠ .invalid

instance (parser : PubkeyParser) (text : Text) :
    Decidable (Readable parser text) :=
  inferInstanceAs (Decidable (forall raw, raw ∈ Text.lines text -> parser.readLine raw ≠ .invalid))

def ListsKey (parser : PubkeyParser) (text : Text) (pk : Pubkey) : Prop :=
  exists raw, raw ∈ Text.lines text ∧ parser.readLine raw = .key pk

theorem parseAllowlistFile_ok :
    (exists keys, parser.parseAllowlistFile path (some text) = .ok keys) <->
      Readable parser text :=
  foldlM_parseAllowlistLine_ok

theorem mem_of_parseAllowlistFile (h : parser.parseAllowlistFile path (some text) = .ok keys) :
    pk ∈ keys <-> ListsKey parser text pk := by
  rw [mem_of_foldlM_parseAllowlistLine h, ListsKey]
  simp

theorem reload_eq_ok {allow : Allowlist} :
    Allowlist.reload parser path file = .ok allow <->
      parser.parseAllowlistFile path file = .ok allow.keys := by
  unfold Allowlist.reload
  rw [bind_eq_ok]
  constructor
  · intro h
    rcases h with ⟨keys, hkeys, hallow⟩
    rw [pure_eq_ok] at hallow
    rw [<- hallow]
    exact hkeys
  · intro h
    exact ⟨allow.keys, h, rfl⟩

theorem load_eq_ok {allow : Allowlist} :
    Allowlist.load parser path (some text) = .ok allow <->
      parser.parseAllowlistFile path (some text) = .ok allow.keys := by
  rw [<- reload_eq_ok]
  rfl

/-- Authorized are the keys of a readable file; of an unreadable one, those from before. -/
theorem contains_watch (allow : Allowlist) :
    (allow.watch parser path (some text)).contains pk = true <->
      (Readable parser text ∧ ListsKey parser text pk) ∨
        (¬ Readable parser text ∧ allow.contains pk = true) := by
  unfold Allowlist.watch
  cases hreload : Allowlist.reload parser path (some text) with
  | ok reloaded =>
    have hparse := reload_eq_ok.mp hreload
    have hread : Readable parser text := parseAllowlistFile_ok.mp ⟨_, hparse⟩
    show reloaded.contains pk = true <-> _
    rw [Allowlist.contains, decide_eq_true_eq, mem_of_parseAllowlistFile hparse]
    simp [hread]
  | error e =>
    have hread : ¬ Readable parser text := by
      intro hread
      rcases parseAllowlistFile_ok.mpr hread with ⟨keys, hkeys⟩
      have hok : Allowlist.reload parser path (some text) = .ok { keys } :=
        reload_eq_ok.mpr hkeys
      rw [hreload] at hok
      cases hok
    show allow.contains pk = true <-> _
    simp [hread]

end Loaded

end Auth
end Splora
