import Splora.Foundation.Decimal

/-!
# Search plans

`web/src/search.rs`: a query becomes the segment of fixed routes.  Of an address only the start
is looked at.
-/

namespace Splora
namespace Frontend

open Foundation
open Text

structure IndexerRequest where
  method : Text
  path : Text

structure SearchPlan where
  hrefs : List Text
  requests : List IndexerRequest

def fill (route : Text × Text) (segment : Text) : Text :=
  route.1 ++ segment ++ route.2

def txPath : Text -> Text := fill ("/tx/".toList, [])

def blockPath : Text -> Text := fill ("/block/".toList, [])

def scripthashPath : Text -> Text := fill ("/scripthash/".toList, [])

def scripthashTxsPath : Text -> Text := fill ("/scripthash/".toList, "/txs".toList)

def scripthashUtxoPath : Text -> Text := fill ("/scripthash/".toList, "/utxo".toList)

def scripthashTxsMempoolPath : Text -> Text :=
  fill ("/scripthash/".toList, "/txs/mempool".toList)

def assetPath : Text -> Text := fill ("/asset/".toList, [])

def assetTxsPath : Text -> Text := fill ("/asset/".toList, "/txs".toList)

def addressPath : Text -> Text := fill ("/address/".toList, [])

def addressPrefixPath : Text -> Text := fill ("/address-prefix/".toList, [])

def blockHeightPath (height : Nat) : Text :=
  fill ("/block-height/".toList, []) (Nat.toDigits 10 height)

def addressStarts : List Text :=
  ["bc1", "tb1", "bcrt1", "lq1", "ex1", "ert1"].map String.toList

def base58 : Text :=
  "123456789ABCDEFGHJKLMNPQRSTUVWXYZabcdefghijkmnopqrstuvwxyz".toList

def isControl (c : Char) : Bool :=
  c.toNat < 0x20 || (0x7f ≤ c.toNat && c.toNat ≤ 0x9f)

def isForbiddenInPrefix (c : Char) : Bool :=
  c = '/' || c = '?' || c = '#' || c = ' ' || isControl c

def isPrefix (query : Text) : Bool :=
  1 ≤ query.length && query.length ≤ 64 && !query.any isForbiddenInPrefix

def isBase58Address (query : Text) : Bool :=
  26 ≤ query.length && query.length ≤ 90 &&
    query.head?.any (fun c => c ∈ ['1', '3', 'm', 'n', '2']) && query.all (· ∈ base58)

def isAddress (query : Text) : Bool :=
  let lower := query.toAsciiLowercase
  if addressStarts.any (·.isPrefixOf lower) then
    -- A part of an address is the start of one; a whole one still wins.
    !("bc1p".toList.isPrefixOf lower && query.length < 62 && isPrefix query) &&
      !("bc1q".toList.isPrefixOf lower && query.length < 42 && isPrefix query)
  else
    isBase58Address query

def isAsciiDigits (query : Text) : Bool :=
  !query.isEmpty && query.all Char.isDigit

def isHexDigit (c : Char) : Bool :=
  c.isDigit || ('a' ≤ c && c ≤ 'f') || ('A' ≤ c && c ≤ 'F')

def isHex64 (query : Text) : Bool :=
  (query.map Char.utf8Size).sum = 64 && query.all isHexDigit

def get (path : Text) : IndexerRequest where
  method := "GET".toList
  path := path

/-- Digits that do not fit into 64 bits are kept as they are. -/
def heightPlan (height : Text) : SearchPlan :=
  let href :=
    if valueOf height < 2 ^ 64 then blockHeightPath (valueOf height)
    else "/block-height/".toList ++ height
  ⟨[href], [get href]⟩

def hexPlan (hex : Text) (liquid : Bool) : SearchPlan :=
  let hex := hex.toAsciiLowercase
  ⟨[txPath hex, blockPath hex],
    [get (scripthashPath hex), get (scripthashTxsPath hex), get (scripthashUtxoPath hex),
      get (scripthashTxsMempoolPath hex)] ++
        if liquid then [get (assetPath hex), get (assetTxsPath hex)] else []⟩

def addressPlan (address : Text) : SearchPlan :=
  ⟨[addressPath address], [get (addressPath address)]⟩

def prefixPlan (query : Text) : SearchPlan :=
  let folded := query.toAsciiLowercase
  let requested := if "bc1".toList.isPrefixOf folded then folded else query
  ⟨[], [get (addressPrefixPath requested)]⟩

def planSearchOn (raw : Text) (liquid : Bool) : Option SearchPlan :=
  let query := trim raw
  if query.isEmpty then none
  else if isAsciiDigits query then some (heightPlan query)
  else if isHex64 query then some (hexPlan query liquid)
  else if isAddress query then some (addressPlan query)
  else if isPrefix query then some (prefixPlan query)
  else none

/-!
## Paths inside their routes
-/

def routes : List (Text × Text) :=
  [("/tx/", ""), ("/block/", ""), ("/scripthash/", ""), ("/scripthash/", "/txs"),
    ("/scripthash/", "/utxo"), ("/scripthash/", "/txs/mempool"), ("/asset/", ""),
    ("/asset/", "/txs"), ("/block-height/", ""), ("/address/", ""),
    ("/address-prefix/", "")].map fun route => (route.1.toList, route.2.toList)

def SearchPlan.paths (plan : SearchPlan) : List Text :=
  plan.hrefs ++ plan.requests.map IndexerRequest.path

def Plain (segment : Text) : Prop :=
  forall c, c ∈ segment -> isForbiddenInPrefix c = false

def InRoute (query path : Text) : Prop :=
  exists route segment, route ∈ routes ∧ Plain segment ∧
    (segment = query ∨ segment = query.toAsciiLowercase) ∧ path = fill route segment

section Segments

variable {c : Char} {query : Text}

theorem not_isForbidden (h : 48 ≤ c.toNat ∧ c.toNat ≤ 57 ∨ 65 ≤ c.toNat ∧ c.toNat ≤ 122) :
    isForbiddenInPrefix c = false := by
  have hne (d : Char) (hd : d.toNat < 48 ∨ d.toNat = 63) : c ≠ d := by
    rintro rfl
    omega
  simp [isForbiddenInPrefix, isControl, hne]
  omega

theorem toLower_cases (c : Char) : c.toLower = c ∨
    (65 ≤ c.toNat ∧ c.toNat ≤ 90) ∧ 97 ≤ c.toLower.toNat ∧ c.toLower.toNat ≤ 122 := by
  unfold Char.toLower
  split
  · rename_i h
    rw [ge_iff_le, UInt32.le_iff_toNat_le, UInt32.le_iff_toNat_le] at h
    have hlower : 97 ≤ (c.val.toNat + 32) % 2 ^ 32 ∧ (c.val.toNat + 32) % 2 ^ 32 ≤ 122 := by
      change 65 ≤ _ ∧ _ ≤ 90 at h
      omega
    exact Or.inr ⟨h, hlower⟩
  · exact Or.inl rfl

theorem Plain.toAsciiLowercase (h : Plain query) : Plain query.toAsciiLowercase := by
  intro c hc
  rcases List.mem_map.mp hc with ⟨d, hd, rfl⟩
  rcases toLower_cases d with heq | ⟨_, hlower⟩
  · rw [heq]
    exact h d hd
  · exact not_isForbidden (by omega)

theorem plain_of_isPrefix (h : isPrefix query = true) : Plain query := by
  simp only [isPrefix, Bool.and_eq_true, Bool.not_eq_true', List.any_eq_false] at h
  intro c hc
  exact Bool.eq_false_iff.mpr (h.right c hc)

theorem plain_of_isAsciiDigits (h : isAsciiDigits query = true) : Plain query := by
  intro c hc
  rw [isAsciiDigits, Bool.and_eq_true, List.all_eq_true] at h
  exact not_isForbidden (Or.inl (isDigit_iff.mp (h.right c hc)))

theorem plain_of_isHex64 (h : isHex64 query = true) : Plain query := by
  intro c hc
  rw [isHex64, Bool.and_eq_true, List.all_eq_true] at h
  have hhex := h.right c hc
  simp only [isHexDigit, Bool.or_eq_true, Bool.and_eq_true, decide_eq_true_eq, isDigit_iff] at hhex
  have hle {a b : Char} (h : a ≤ b) : a.toNat ≤ b.toNat := h
  rcases hhex with (hdigit | ⟨hge, hlt⟩) | ⟨hge, hlt⟩
  · exact not_isForbidden (Or.inl hdigit)
  · exact not_isForbidden (Or.inr ⟨Nat.le_trans (by decide) (hle hge),
      Nat.le_trans (hle hlt) (by decide)⟩)
  · exact not_isForbidden (Or.inr ⟨hle hge, Nat.le_trans (hle hlt) (by decide)⟩)

theorem toAsciiLowercase_of_isAsciiDigits (h : isAsciiDigits query = true) :
    query.toAsciiLowercase = query := by
  rw [isAsciiDigits, Bool.and_eq_true, List.all_eq_true] at h
  refine (List.map_congr_left ?_).trans (List.map_id query)
  intro c hc
  rcases toLower_cases c with heq | ⟨hupper, _⟩
  · exact heq
  · have hdigit := isDigit_iff.mp (h.right c hc)
    omega

theorem inRoute_iff {front rest : Text} (hmem : (front, []) ∈ routes)
    (honly : forall route, route ∈ routes ->
      route.1 <+: front ∨ front <+: route.1 -> route = (front, [])) :
    InRoute query (front ++ rest) <->
      Plain rest ∧ (rest = query ∨ rest = query.toAsciiLowercase) := by
  constructor
  · rintro ⟨route, segment, hroute, hplain, hsegment, heq⟩
    have hfront : route.1 <+: front ++ rest :=
      ⟨segment ++ route.2, by rw [heq, fill, List.append_assoc]⟩
    have heither := List.prefix_or_prefix_of_prefix hfront (List.prefix_append front rest)
    rw [honly route hroute heither, fill, List.append_nil] at heq
    rw [List.append_cancel_left heq]
    exact ⟨hplain, hsegment⟩
  · rintro ⟨hplain, hsegment⟩
    exact ⟨(front, []), rest, hmem, hplain, hsegment, (List.append_nil _).symm⟩

end Segments

def heightText (height : Text) : Text :=
  if valueOf height < 2 ^ 64 then Nat.toDigits 10 (valueOf height) else height

theorem heightText_eq_iff {query : Text} (h : isAsciiDigits query = true) :
    heightText query = query <-> 2 ^ 64 ≤ valueOf query ∨ NoLeadingZero query := by
  rw [isAsciiDigits, Bool.and_eq_true, Bool.not_eq_true', List.all_eq_true] at h
  unfold heightText
  split
  · rename_i hlt
    rw [toDigits_valueOf_iff (List.isEmpty_eq_false_iff.mp h.left) h.right]
    exact (or_iff_right (Nat.not_le.mpr hlt)).symm
  · rename_i hge
    exact iff_of_true rfl (Or.inl (Nat.not_lt.mp hge))

theorem heightPlan_inRoute_iff {query : Text} (h : isAsciiDigits query = true) :
    (forall path, path ∈ (heightPlan query).paths -> InRoute query path) <->
      2 ^ 64 ≤ valueOf query ∨ NoLeadingZero query := by
  have hpaths : (heightPlan query).paths =
      List.replicate 2 ("/block-height/".toList ++ heightText query) := by
    unfold heightPlan heightText
    split
    · simp [SearchPlan.paths, get, blockHeightPath, fill]
    · rfl
  rw [hpaths]
  simp only [List.forall_mem_replicate, OfNat.ofNat_ne_zero, false_or]
  rw [inRoute_iff (by decide) (by decide), toAsciiLowercase_of_isAsciiDigits h, or_self,
    <- heightText_eq_iff h]
  refine ⟨And.right, fun heq => ⟨?_, heq⟩⟩
  rw [heq]
  exact plain_of_isAsciiDigits h

theorem addressPlan_inRoute_iff {query : Text} :
    (forall path, path ∈ (addressPlan query).paths -> InRoute query path) <-> Plain query := by
  have hpaths : (addressPlan query).paths = List.replicate 2 ("/address/".toList ++ query) := by
    simp [addressPlan, SearchPlan.paths, get, addressPath, fill]
  rw [hpaths]
  simp only [List.forall_mem_replicate, OfNat.ofNat_ne_zero, false_or]
  rw [inRoute_iff (by decide) (by decide)]
  simp

theorem hexPlan_inRoute {query : Text} (h : isHex64 query = true) (liquid : Bool) :
    forall path, path ∈ (hexPlan query liquid).paths -> InRoute query path := by
  have hpaths : (hexPlan query liquid).paths = (routes.take (if liquid then 8 else 6)).map
      fun route => fill route query.toAsciiLowercase := by
    cases liquid <;> rfl
  intro path hpath
  rw [hpaths] at hpath
  rcases List.mem_map.mp hpath with ⟨route, hroute, rfl⟩
  exact ⟨route, _, List.mem_of_mem_take hroute, (plain_of_isHex64 h).toAsciiLowercase,
    Or.inr rfl, rfl⟩

theorem prefixPlan_inRoute {query : Text} (h : isPrefix query = true) :
    forall path, path ∈ (prefixPlan query).paths -> InRoute query path := by
  intro path hpath
  have hplain := plain_of_isPrefix h
  rw [List.mem_singleton.mp hpath]
  refine ⟨("/address-prefix/".toList, []), _, by decide, ?_, ?_, rfl⟩
  · split
    · exact hplain.toAsciiLowercase
    · exact hplain
  · split
    · exact Or.inr rfl
    · exact Or.inl rfl

/-- The paths stay inside their routes exactly if a height has no leading zero or does not fit into
64 bits, and an address has no character that ends a segment. -/
theorem plan_inRoute_iff (raw : Text) (liquid : Bool) :
    (forall plan, planSearchOn raw liquid = some plan ->
      forall path, path ∈ plan.paths -> InRoute (trim raw) path) <->
    (isAsciiDigits (trim raw) = true -> 2 ^ 64 ≤ valueOf (trim raw) ∨ NoLeadingZero (trim raw)) ∧
      (isAddress (trim raw) = true -> Plain (trim raw)) := by
  unfold planSearchOn
  generalize trim raw = query
  by_cases hempty : query.isEmpty = true
  · rw [List.isEmpty_iff] at hempty
    subst hempty
    simp [isAsciiDigits, Plain]
  by_cases hdigits : isAsciiDigits query = true
  · simp [hempty, hdigits, heightPlan_inRoute_iff hdigits, plain_of_isAsciiDigits hdigits]
  by_cases hhex : isHex64 query = true
  · simpa [hempty, hdigits, hhex, plain_of_isHex64 hhex] using hexPlan_inRoute hhex liquid
  by_cases haddress : isAddress query = true
  · simp [hempty, hdigits, hhex, haddress, addressPlan_inRoute_iff]
  by_cases hstart : isPrefix query = true
  · simpa [hempty, hdigits, hhex, haddress, hstart] using prefixPlan_inRoute hstart
  · simp [hempty, hdigits, hhex, haddress, hstart]

/-- What follows the start of an address leads out of the route. -/
theorem plan_leaves_route :
    exists plan, planSearchOn "lq1/../x".toList false = some plan ∧
      ¬ forall path, path ∈ plan.paths -> InRoute "lq1/../x".toList path := by
  refine ⟨addressPlan "lq1/../x".toList, rfl, ?_⟩
  rw [addressPlan_inRoute_iff]
  intro h
  exact absurd (h '/' (by decide)) (by decide)

end Frontend
end Splora
