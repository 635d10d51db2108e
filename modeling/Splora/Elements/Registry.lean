import Splora.Elements.Asset
import Splora.Foundation.Sorting
import Splora.Foundation.Text

/-!
# The asset registry

`src/elements/registry.rs`: the metadata of assets, sorted and cut into pages.  The hash map is
iterated in any order; the sort is stable.
-/

namespace Splora
namespace Elements

open Foundation

structure AssetMeta where
  name : Text
  ticker : Option Text
  domain : Option Text
deriving DecidableEq, Repr

abbrev AssetEntry := AssetId × AssetMeta

inductive AssetSortField where
  | name
  | domain
  | ticker

inductive AssetSortDir where
  | descending
  | ascending

structure AssetSorting where
  field : AssetSortField
  dir : AssetSortDir

structure AssetRegistry where
  assetsCache : List AssetEntry
  ids_nodup : (assetsCache.map Prod.fst).Nodup

section Listing

variable (toLowercase : Text -> Text)

def lcCmp (a b : Text) : Ordering :=
  compare (toLowercase a) (toLowercase b)

def lcCmpOpt (a b : Option Text) : Ordering :=
  compare (a.map toLowercase) (b.map toLowercase)

def AssetSortField.sortFn : AssetSortField -> AssetEntry -> AssetEntry -> Ordering
  | .name, a, b => (lcCmp toLowercase a.2.name b.2.name).then
      (compare (NewIndex.hashBytes a.1) (NewIndex.hashBytes b.1))
  | .domain, a, b => compare a.2.domain b.2.domain
  | .ticker, a, b => lcCmpOpt toLowercase a.2.ticker b.2.ticker

def AssetSorting.asComparator (sorting : AssetSorting) (a b : AssetEntry) : Ordering :=
  match sorting.dir with
  | .ascending => sorting.field.sortFn toLowercase a b
  | .descending => (sorting.field.sortFn toLowercase a b).swap

def AssetRegistry.list (registry : AssetRegistry) (startIndex limit : Nat)
    (sorting : AssetSorting) : Nat × List AssetEntry :=
  let assets := sortBy (sorting.asComparator toLowercase) registry.assetsCache
  (assets.length, (assets.drop startIndex).take limit)

variable {toLowercase}

theorem transCmp_sortFn (field : AssetSortField) : Std.TransCmp (field.sortFn toLowercase) := by
  cases field with
  | name =>
    exact inferInstanceAs (Std.TransCmp (compareLex
      (compareOn fun e : AssetEntry => toLowercase e.2.name)
      (compareOn fun e : AssetEntry => NewIndex.hashBytes e.1)))
  | domain => exact inferInstanceAs (Std.TransCmp (compareOn fun e : AssetEntry => e.2.domain))
  | ticker =>
    exact inferInstanceAs (Std.TransCmp
      (compareOn fun e : AssetEntry => e.2.ticker.map toLowercase))

instance transCmp_asComparator (sorting : AssetSorting) :
    Std.TransCmp (sorting.asComparator toLowercase) := by
  have hfield := @transCmp_sortFn toLowercase sorting.field
  unfold AssetSorting.asComparator
  cases sorting.dir with
  | ascending => exact hfield
  | descending =>
    simp only [← Std.OrientedCmp.eq_swap]
    exact Std.TransCmp.opposite

end Listing

/--
Pages do not depend on the order of the map exactly if no two entries compare as equal.  In
every order they partition the registry.
-/
theorem list_independent_iff (toLowercase : Text -> Text) (registry : AssetRegistry)
    (sorting : AssetSorting) :
    ((forall registry' : AssetRegistry, registry'.assetsCache.Perm registry.assetsCache ->
        forall startIndex limit, registry'.list toLowercase startIndex limit sorting =
          registry.list toLowercase startIndex limit sorting) <->
      forall a b, a ∈ registry.assetsCache -> b ∈ registry.assetsCache ->
        sorting.asComparator toLowercase a b = .eq -> a = b) ∧
    forall limit, 1 ≤ limit -> ((List.range registry.assetsCache.length).flatMap fun page =>
      (registry.list toLowercase (page * limit) limit sorting).2).Perm registry.assetsCache := by
  refine ⟨⟨?_, ?_⟩, ?_⟩
  · intro h a b ha hb htie
    by_contra hne
    have hperm : registry.assetsCache.Perm
        (a :: b :: (registry.assetsCache.erase a).erase b) :=
      (List.perm_cons_erase ha).trans
        ((List.perm_cons_erase ((List.mem_erase_of_ne (Ne.symm hne)).mpr hb)).cons a)
    -- An order lists the tied entries the other way round as soon as its first two are swapped.
    have hsort (order : List AssetEntry) (horder : order.Perm registry.assetsCache) :
        sortBy (sorting.asComparator toLowercase) order =
          sortBy (sorting.asComparator toLowercase) registry.assetsCache := by
      have hpage := congrArg Prod.snd (h
        ⟨order, (horder.map Prod.fst).nodup_iff.mpr registry.ids_nodup⟩ horder 0 order.length)
      simpa [AssetRegistry.list, sortBy, List.take_of_length_le, horder.length_eq] using hpage
    have hnodup := hperm.nodup_iff.mp registry.ids_nodup.of_map
    exact sortBy_swap_ne hnodup htie ((hsort _ hperm.symm).trans
      (hsort _ ((List.Perm.swap a b _).trans hperm.symm)).symm)
  · intro hties registry' hperm startIndex limit
    rw [AssetRegistry.list, AssetRegistry.list,
      sortBy_eq_of_perm hties hperm.symm]
  · intro limit hlimit
    have hperm := List.mergeSort_perm registry.assetsCache fun a b =>
      (sorting.asComparator toLowercase a b).isLE
    have hpages := flatMap_pages limit (sortBy (sorting.asComparator toLowercase)
      registry.assetsCache) registry.assetsCache.length
    rw [List.take_of_length_le] at hpages
    · exact (List.Perm.of_eq hpages).trans hperm
    · rw [sortBy, hperm.length_eq]
      exact Nat.le_mul_of_pos_right _ hlimit

namespace Sample

def untickered : AssetRegistry where
  assetsCache := [(1, ⟨"A".toList, none, none⟩), (2, ⟨"B".toList, none, none⟩)]
  ids_nodup := by decide

def untickeredAgain : AssetRegistry where
  assetsCache := [(2, ⟨"B".toList, none, none⟩), (1, ⟨"A".toList, none, none⟩)]
  ids_nodup := by decide

theorem first_page_by_chance :
    untickeredAgain.assetsCache.Perm untickered.assetsCache ∧
      (untickered.list id 0 1 ⟨.ticker, .ascending⟩).2.map Prod.fst = [1] ∧
      (untickeredAgain.list id 0 1 ⟨.ticker, .ascending⟩).2.map Prod.fst = [2] := by
  refine ⟨List.Perm.swap _ _ _, ?_, ?_⟩
  · rw [AssetRegistry.list, sortBy, List.mergeSort_of_pairwise (by decide)]
    rfl
  · rw [AssetRegistry.list, sortBy, List.mergeSort_of_pairwise (by decide)]
    rfl

end Sample

end Elements
end Splora
