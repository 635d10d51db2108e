import Splora.NewIndex.Mempool

/-!
# The fee histogram

`make_fee_histogram` of `src/util/fees.rs` closes a bin larger than the width as soon as the
rate changes.  The `f32` rates are any linear order with a zero; the order of entries with equal
rates is not determined.
-/

namespace Splora
namespace Fees

variable {R : Type}

def vsizeBinWidth : UInt32 := 50000

structure FeeEntry (R : Type) extends NewIndex.TxFeeInfo where
  feePerVbyte : R

/-- `sort_unstable_by`, upwards by rates. -/
structure UnstableSort (R : Type) [LE R] where
  sort : List (FeeEntry R) -> List (FeeEntry R)
  perm : forall entries, (sort entries).Perm entries
  sorted : forall entries, (sort entries).Pairwise fun e1 e2 => e1.feePerVbyte ≤ e2.feePerVbyte

structure BinState (R : Type) where
  histogram : List (R × UInt32)
  binSize : UInt32
  lastFeeRate : R

def BinState.start [Zero R] : BinState R where
  histogram := []
  binSize := 0
  lastFeeRate := 0

def BinState.step [DecidableEq R] (s : BinState R) (e : FeeEntry R) : BinState R :=
  if s.binSize > vsizeBinWidth ∧ s.lastFeeRate ≠ e.feePerVbyte then
    { histogram := s.histogram ++ [(s.lastFeeRate, s.binSize)]
      binSize := 0 + e.vsize
      lastFeeRate := e.feePerVbyte }
  else
    { s with
      binSize := s.binSize + e.vsize
      lastFeeRate := e.feePerVbyte }

def BinState.finish (s : BinState R) : List (R × UInt32) :=
  if s.binSize > 0 then
    s.histogram ++ [(s.lastFeeRate, s.binSize)]
  else
    s.histogram

def makeFeeHistogram [LinearOrder R] [Zero R] (order : UnstableSort R)
    (entries : List (FeeEntry R)) : List (R × UInt32) :=
  ((order.sort entries).reverse.foldl BinState.step BinState.start).finish

/-!
## Bins
-/

def total (entries : List (FeeEntry R)) : Nat :=
  (entries.map fun e => e.vsize.toNat).sum

@[simp] theorem total_nil : total ([] : List (FeeEntry R)) = 0 := rfl

@[simp] theorem total_append (entries entries' : List (FeeEntry R)) :
    total (entries ++ entries') = total entries + total entries' := by
  simp [total]

@[simp] theorem total_singleton (e : FeeEntry R) : total [e] = e.vsize.toNat := by
  simp [total]

theorem total_perm {entries entries' : List (FeeEntry R)} (h : entries.Perm entries') :
    total entries = total entries' :=
  (h.map _).sum_eq

section Bins

variable [LinearOrder R]

structure IsBin (entries : List (FeeEntry R)) (bin : R × UInt32) : Prop where
  attained : exists e, e ∈ entries ∧ e.feePerVbyte = bin.1
  lowest : forall e, e ∈ entries -> bin.1 ≤ e.feePerVbyte
  size : bin.2.toNat = total entries

def AllAbove (entries entries' : List (FeeEntry R)) : Prop :=
  forall e, e ∈ entries -> forall e', e' ∈ entries' -> e'.feePerVbyte < e.feePerVbyte

structure Binned (entries : List (FeeEntry R)) (bins : List (R × UInt32))
    (groups : List (List (FeeEntry R))) : Prop where
  perm : groups.flatten.Perm entries
  bins_eq : List.Forall₂ IsBin groups bins
  separate : groups.Pairwise AllAbove
  wide : forall bin, bin ∈ bins.dropLast -> vsizeBinWidth < bin.2

section Binned

variable {entries : List (FeeEntry R)} {bins : List (R × UInt32)}
  {groups : List (List (FeeEntry R))}

theorem sum_of_forall₂ (h : List.Forall₂ IsBin groups bins) :
    (bins.map fun bin => bin.2.toNat).sum = total groups.flatten := by
  induction h with
  | nil => rfl
  | cons hbin _ ih =>
    rw [List.map_cons, List.sum_cons, ih, hbin.size, List.flatten_cons, total_append]

theorem exists_group (h : List.Forall₂ IsBin groups bins) {bin : R × UInt32}
    (hbin : bin ∈ bins) : exists group, group ∈ groups ∧ IsBin group bin := by
  induction h with
  | nil => cases hbin
  | cons hhead _ ih =>
    cases hbin with
    | head => exact ⟨_, List.mem_cons_self, hhead⟩
    | tail _ hbin =>
      rcases ih hbin with ⟨group, hgroup, hisBin⟩
      exact ⟨group, List.mem_cons_of_mem _ hgroup, hisBin⟩

theorem decreasing_of_forall₂ (h : List.Forall₂ IsBin groups bins)
    (hseparate : groups.Pairwise AllAbove) :
    bins.Pairwise fun bin bin' => bin'.1 < bin.1 := by
  induction h with
  | nil => exact List.Pairwise.nil
  | @cons group bin groups bins hbin hbins ih =>
    rcases List.pairwise_cons.mp hseparate with ⟨habove, hrest⟩
    refine List.pairwise_cons.mpr ⟨?_, ih hrest⟩
    intro bin' hbin'
    rcases hbin.attained with ⟨e, he, hrate⟩
    rcases exists_group hbins hbin' with ⟨group', hgroup', hisBin⟩
    rcases hisBin.attained with ⟨e', he', hrate'⟩
    rw [<- hrate, <- hrate']
    exact habove group' hgroup' e he e' he'

end Binned

end Bins

/-!
## The loop
-/

section Loop

variable [LinearOrder R] {s : BinState R} {past current : List (FeeEntry R)}
  {groups : List (List (FeeEntry R))} {e : FeeEntry R}

structure Loop (past : List (FeeEntry R)) (s : BinState R)
    (groups : List (List (FeeEntry R))) (current : List (FeeEntry R)) : Prop where
  past_eq : past = groups.flatten ++ current
  bins_eq : List.Forall₂ IsBin groups s.histogram
  wide : forall bin, bin ∈ s.histogram -> vsizeBinWidth < bin.2
  separate : (groups ++ [current]).Pairwise AllAbove
  size : s.binSize.toNat = total current
  last : past ≠ [] -> exists e, e ∈ current ∧ e.feePerVbyte = s.lastFeeRate
  lowest : past ≠ [] -> forall e, e ∈ past -> s.lastFeeRate ≤ e.feePerVbyte

theorem loop_start [Zero R] : Loop [] (BinState.start : BinState R) [] [] where
  past_eq := rfl
  bins_eq := List.Forall₂.nil
  wide := nofun
  separate := List.pairwise_singleton _ _
  size := rfl
  last := fun h => absurd rfl h
  lowest := fun h => absurd rfl h

section

variable (h : Loop past s groups current)

include h

theorem Loop.mem_past (he : e ∈ current) : e ∈ past := by
  rw [h.past_eq]
  exact List.mem_append_right _ he

theorem Loop.total_le : total current ≤ total past := by
  rw [h.past_eq, total_append]
  exact Nat.le_add_left _ _

theorem Loop.isBin (hne : past ≠ []) : IsBin current (s.lastFeeRate, s.binSize) where
  attained := h.last hne
  lowest := fun e he => h.lowest hne e (h.mem_past he)
  size := h.size

theorem Loop.close (hne : past ≠ []) (hwide : s.binSize > vsizeBinWidth)
    (hlt : e.feePerVbyte < s.lastFeeRate) :
    Loop (past ++ [e])
      { histogram := s.histogram ++ [(s.lastFeeRate, s.binSize)]
        binSize := 0 + e.vsize
        lastFeeRate := e.feePerVbyte } (groups ++ [current]) [e] where
  past_eq := by
    rw [h.past_eq, List.flatten_append, List.flatten_singleton]
  bins_eq := List.rel_append h.bins_eq (List.Forall₂.cons (h.isBin hne) List.Forall₂.nil)
  wide := by
    intro bin hbin
    rcases List.mem_append.mp hbin with hold | hnew
    · exact h.wide bin hold
    · rw [List.mem_singleton.mp hnew]
      exact hwide
  separate := by
    refine List.pairwise_append.mpr ⟨h.separate, List.pairwise_singleton _ _, ?_⟩
    intro group hgroup group' hgroup' a ha b hb
    rw [List.mem_singleton.mp hgroup'] at hb
    rw [List.mem_singleton.mp hb]
    have hpast : a ∈ past := by
      rw [h.past_eq, <- List.flatten_singleton (l := current), <- List.flatten_append]
      exact List.mem_flatten.mpr ⟨group, hgroup, ha⟩
    exact lt_of_lt_of_le hlt (h.lowest hne a hpast)
  size := by
    rw [UInt32.zero_add, total_singleton]
  last := fun _ => ⟨e, List.mem_singleton_self e, rfl⟩
  lowest := by
    intro _ a ha
    rcases List.mem_append.mp ha with hold | hnew
    · exact le_of_lt (lt_of_lt_of_le hlt (h.lowest hne a hold))
    · rw [List.mem_singleton.mp hnew]

theorem Loop.extend (hle : forall a, a ∈ past -> e.feePerVbyte ≤ a.feePerVbyte)
    (hfits : total (past ++ [e]) < 2 ^ 32) :
    Loop (past ++ [e])
      { s with
        binSize := s.binSize + e.vsize
        lastFeeRate := e.feePerVbyte } groups (current ++ [e]) where
  past_eq := by
    rw [h.past_eq, List.append_assoc]
  bins_eq := h.bins_eq
  wide := h.wide
  separate := by
    rcases List.pairwise_append.mp h.separate with ⟨hgroups, _, habove⟩
    refine List.pairwise_append.mpr ⟨hgroups, List.pairwise_singleton _ _, ?_⟩
    intro group hgroup group' hgroup' a ha b hb
    rw [List.mem_singleton.mp hgroup'] at hb
    have hcurrent := habove group hgroup current (List.mem_singleton_self current)
    rcases List.mem_append.mp hb with hold | hnew
    · exact hcurrent a ha b hold
    · -- the entry is not above the last one, which is below all closed bins
      have hpast : a ∈ past := by
        rw [h.past_eq]
        exact List.mem_append_left _ (List.mem_flatten.mpr ⟨group, hgroup, ha⟩)
      rcases h.last (List.ne_nil_of_mem hpast) with ⟨c, hc, _⟩
      rw [List.mem_singleton.mp hnew]
      exact lt_of_le_of_lt (hle c (h.mem_past hc)) (hcurrent a ha c hc)
  size := by
    have htotal := h.total_le
    rw [total_append, total_singleton] at hfits
    rw [total_append, total_singleton, <- h.size, UInt32.toNat_add, Nat.mod_eq_of_lt]
    rw [h.size]
    omega
  last := fun _ => ⟨e, List.mem_append_right _ (List.mem_singleton_self e), rfl⟩
  lowest := by
    intro _ a ha
    rcases List.mem_append.mp ha with hold | hnew
    · exact hle a hold
    · rw [List.mem_singleton.mp hnew]

theorem Loop.step (hle : forall a, a ∈ past -> e.feePerVbyte ≤ a.feePerVbyte)
    (hfits : total (past ++ [e]) < 2 ^ 32) :
    exists groups' current', Loop (past ++ [e]) (s.step e) groups' current' := by
  unfold BinState.step
  split
  · rename_i hclose
    have hne : past ≠ [] := by
      intro hnil
      have htotal := h.total_le
      rw [hnil, total_nil, <- h.size] at htotal
      have hwide := UInt32.lt_iff_toNat_lt.mp hclose.left
      omega
    rcases h.last hne with ⟨c, hc, hrate⟩
    have hlast : e.feePerVbyte ≤ s.lastFeeRate := by
      rw [<- hrate]
      exact hle c (h.mem_past hc)
    exact ⟨_, _, h.close hne hclose.left (lt_of_le_of_ne hlast (Ne.symm hclose.right))⟩
  · exact ⟨_, _, h.extend hle hfits⟩

end

theorem Loop.run {rest : List (FeeEntry R)} (h : Loop past s groups current)
    (hsorted : (past ++ rest).Pairwise fun a b => b.feePerVbyte ≤ a.feePerVbyte)
    (hfits : total (past ++ rest) < 2 ^ 32) :
    exists groups' current', Loop (past ++ rest) (rest.foldl BinState.step s) groups' current' := by
  induction rest generalizing past s groups current with
  | nil =>
    rw [List.append_nil]
    exact ⟨groups, current, h⟩
  | cons e rest ih =>
    rw [List.append_cons] at hsorted hfits ⊢
    have hle : forall a, a ∈ past -> e.feePerVbyte ≤ a.feePerVbyte := by
      intro a ha
      have hpast := (List.pairwise_append.mp hsorted).left
      exact (List.pairwise_append.mp hpast).right.right a ha e (List.mem_singleton_self e)
    have hnow : total (past ++ [e]) < 2 ^ 32 := by
      rw [total_append] at hfits
      omega
    rcases h.step hle hnow with ⟨groups', current', hstep⟩
    exact ih hstep hsorted hfits

theorem Loop.histogram_eq_nil (h : Loop [] s groups current) : s.histogram = [] := by
  have hflat : groups.flatten = [] := (List.append_eq_nil_iff.mp h.past_eq.symm).left
  have hno : forall bin, ¬ bin ∈ s.histogram := by
    intro bin hbin
    rcases exists_group h.bins_eq hbin with ⟨group, hgroup, hisBin⟩
    rcases hisBin.attained with ⟨e, he, _⟩
    have hmem := List.mem_flatten.mpr ⟨group, hgroup, he⟩
    rw [hflat] at hmem
    cases hmem
  exact List.eq_nil_iff_forall_not_mem.mpr hno

theorem Loop.finish_eq_nil (h : Loop [] s groups current) : s.finish = [] := by
  have hsize : s.binSize.toNat ≤ 0 := by
    rw [h.size]
    exact h.total_le
  rw [BinState.finish, if_neg, h.histogram_eq_nil]
  intro hpositive
  have hlt := UInt32.lt_iff_toNat_lt.mp hpositive
  exact absurd (Nat.lt_of_lt_of_le hlt hsize) (Nat.lt_irrefl _)

theorem Loop.binned (h : Loop past s groups current) (hne : past ≠ []) :
    Binned past (s.histogram ++ [(s.lastFeeRate, s.binSize)]) (groups ++ [current]) where
  perm := by
    rw [List.flatten_append, List.flatten_singleton, <- h.past_eq]
  bins_eq := List.rel_append h.bins_eq (List.Forall₂.cons (h.isBin hne) List.Forall₂.nil)
  separate := h.separate
  wide := by
    rw [List.dropLast_concat]
    exact h.wide

theorem Loop.binSize_pos (h : Loop past s groups current) (hne : past ≠ [])
    (hpos : forall e, e ∈ past -> 0 < e.vsize) : s.binSize > 0 := by
  rcases h.last hne with ⟨e, he, _⟩
  have hlt := UInt32.lt_iff_toNat_lt.mp (hpos e (h.mem_past he))
  have hle : e.vsize.toNat ≤ total current :=
    List.le_sum_of_mem (List.mem_map.mpr ⟨e, he, rfl⟩)
  refine UInt32.lt_iff_toNat_lt.mpr ?_
  rw [h.size]
  exact Nat.lt_of_lt_of_le hlt hle

theorem Loop.finish (h : Loop past s groups current) (hpos : forall e, e ∈ past -> 0 < e.vsize) :
    exists groups', Binned past s.finish groups' := by
  by_cases hne : past = []
  · subst hne
    rw [h.finish_eq_nil]
    exact ⟨[], List.Perm.nil, List.Forall₂.nil, List.Pairwise.nil, nofun⟩
  · rw [BinState.finish, if_pos (h.binSize_pos hne hpos)]
    exact ⟨_, h.binned hne⟩

end Loop

/-- The rates of the bins decrease strictly and their sizes add up.  Equal rates are in one bin,
which has the lowest rate of its entries, and every bin but the last is wider than the width. -/
theorem fee_histogram_exact [LinearOrder R] [Zero R] (order : UnstableSort R)
    (entries : List (FeeEntry R)) (hpos : forall e, e ∈ entries -> 0 < e.vsize)
    (hfits : total entries < 2 ^ 32) :
    (makeFeeHistogram order entries).Pairwise (fun bin bin' => bin'.1 < bin.1) ∧
    ((makeFeeHistogram order entries).map fun bin => bin.2.toNat).sum = total entries ∧
    exists groups, Binned entries (makeFeeHistogram order entries) groups := by
  have hperm : (order.sort entries).reverse.Perm entries :=
    (List.reverse_perm _).trans (order.perm entries)
  have hsorted : ([] ++ (order.sort entries).reverse).Pairwise
      fun (a b : FeeEntry R) => b.feePerVbyte ≤ a.feePerVbyte :=
    List.pairwise_reverse.mpr (order.sorted entries)
  rcases loop_start.run hsorted ((total_perm hperm).trans_lt hfits) with ⟨groups, current, hloop⟩
  rcases hloop.finish (fun e he => hpos e (hperm.mem_iff.mp he)) with ⟨groups', hbinned⟩
  refine ⟨decreasing_of_forall₂ hbinned.bins_eq hbinned.separate, ?_, groups',
    hbinned.perm.trans hperm, hbinned.bins_eq, hbinned.separate, hbinned.wide⟩
  rw [makeFeeHistogram, sum_of_forall₂ hbinned.bins_eq]
  exact total_perm (hbinned.perm.trans hperm)

/-!
Three entries with the rates 3, 2 and 2: the second bin has both entries of rate 2.
-/

namespace Sample

def mergeOrder : UnstableSort Nat where
  sort entries := entries.mergeSort fun e1 e2 => e1.feePerVbyte ≤ e2.feePerVbyte
  perm entries := List.mergeSort_perm entries _
  sorted entries := by
    have hsorted : (entries.mergeSort fun e1 e2 => e1.feePerVbyte ≤ e2.feePerVbyte).Pairwise
        fun e1 e2 => decide (e1.feePerVbyte ≤ e2.feePerVbyte) = true := by
      refine List.pairwise_mergeSort ?_ ?_ entries
      · simp only [decide_eq_true_eq]
        exact fun _ _ _ => Nat.le_trans
      · simp only [Bool.or_eq_true, decide_eq_true_eq]
        exact fun _ _ => Nat.le_total _ _
    simpa only [decide_eq_true_eq] using hsorted

def entries : List (FeeEntry Nat) :=
  [⟨⟨60000, 30000⟩, 2⟩, ⟨⟨180000, 60000⟩, 3⟩, ⟨⟨80000, 40000⟩, 2⟩]

theorem two_bins :
    (forall e, e ∈ entries -> 0 < e.vsize) ∧ total entries < 2 ^ 32 ∧
    makeFeeHistogram mergeOrder entries = [(3, 60000), (2, 70000)] ∧
    exists groups, Binned entries (makeFeeHistogram mergeOrder entries) groups := by
  have hpos : forall e, e ∈ entries -> 0 < e.vsize := by
    simp [entries]
  have hfits : total entries < 2 ^ 32 := by
    decide
  refine ⟨hpos, hfits, ?_, (fee_histogram_exact mergeOrder entries hpos hfits).right.right⟩
  simp [makeFeeHistogram, mergeOrder, entries, List.mergeSort, BinState.step,
    BinState.finish, BinState.start, vsizeBinWidth]

end Sample

end Fees
end Splora
