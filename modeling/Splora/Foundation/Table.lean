import Splora.Foundation.Bytes

/-!
# Ordered tables and their operation logs

A finite map in key order, changed by puts, atomic batches of puts and deletes.  A prefix of the
operations gives the content at an intermediate point; a scan is a filter of the rows.
-/

namespace Splora
namespace Foundation

abbrev Table (K V : Type) (cmp : K -> K -> Ordering) :=
  Std.ExtTreeMap K V cmp

inductive TableOp (K V : Type) where
  | put (key : K) (value : V)
  | write (rows : List (K × V))
  | delete (key : K)

def TableOp.keys : TableOp K V -> List K
  | put key _ => [key]
  | write rows => rows.map Prod.fst
  | delete key => [key]

section Replay

variable {K V : Type} {cmp : K -> K -> Ordering} [Std.TransCmp cmp]

def writeRows (t : Table K V cmp) (rows : List (K × V)) : Table K V cmp :=
  rows.foldl (fun t row => t.insert row.1 row.2) t

def TableOp.apply (t : Table K V cmp) : TableOp K V -> Table K V cmp
  | put key value => t.insert key value
  | write rows => writeRows t rows
  | delete key => t.erase key

def replay (t : Table K V cmp) (ops : List (TableOp K V)) : Table K V cmp :=
  ops.foldl TableOp.apply t

@[simp] theorem replay_nil (t : Table K V cmp) : replay t [] = t := rfl

@[simp] theorem replay_cons (t : Table K V cmp) (op : TableOp K V) (ops : List (TableOp K V)) :
    replay t (op :: ops) = replay (op.apply t) ops := rfl

theorem replay_append (t : Table K V cmp) (ops ops' : List (TableOp K V)) :
    replay t (ops ++ ops') = replay (replay t ops) ops' := by
  simp [replay, List.foldl_append]

theorem mem_iff_exists {t : Table K V cmp} {k : K} : k ∈ t <-> exists v, t[k]? = some v := by
  rw [Std.ExtTreeMap.mem_iff_isSome_getElem?, Option.isSome_iff_exists]

theorem mem_of_getElem? {t : Table K V cmp} {k : K} {v : V} (h : t[k]? = some v) : k ∈ t :=
  mem_iff_exists.mpr ⟨v, h⟩

theorem not_mem_iff {t : Table K V cmp} {k : K} : k ∉ t <-> t[k]? = none := by
  rw [Std.ExtTreeMap.mem_iff_isSome_getElem?, Option.not_isSome_iff_eq_none]

variable [Std.LawfulEqCmp cmp]

theorem getElem?_insert_self (t : Table K V cmp) (k : K) (v : V) : (t.insert k v)[k]? = some v := by
  rw [Std.ExtTreeMap.getElem?_insert, if_pos Std.ReflCmp.compare_self]

theorem getElem?_insert_of_ne (t : Table K V cmp) {k a : K} (v : V)
    (h : k ≠ a) : (t.insert k v)[a]? = t[a]? := by
  rw [Std.ExtTreeMap.getElem?_insert, if_neg]
  intro hcmp
  exact h (Std.LawfulEqCmp.eq_of_compare hcmp)

theorem getElem?_erase_self (t : Table K V cmp) (k : K) : (t.erase k)[k]? = none := by
  rw [Std.ExtTreeMap.getElem?_erase, if_pos Std.ReflCmp.compare_self]

theorem getElem?_erase_of_ne (t : Table K V cmp) {k a : K}
    (h : k ≠ a) : (t.erase k)[a]? = t[a]? := by
  rw [Std.ExtTreeMap.getElem?_erase, if_neg]
  intro hcmp
  exact h (Std.LawfulEqCmp.eq_of_compare hcmp)

theorem mem_insert_iff {t : Table K V cmp} {k a : K} {v : V} :
    a ∈ t.insert k v <-> k = a ∨ a ∈ t := by
  rw [Std.ExtTreeMap.mem_insert, Std.LawfulEqCmp.compare_eq_iff_eq]

theorem mem_erase_iff {t : Table K V cmp} {k a : K} : a ∈ t.erase k <-> k ≠ a ∧ a ∈ t := by
  rw [Std.ExtTreeMap.mem_erase, Ne, Std.LawfulEqCmp.compare_eq_iff_eq]

theorem mem_writeRows {t : Table K V cmp} {rows : List (K × V)} {k : K} :
    k ∈ writeRows t rows <-> k ∈ t ∨ k ∈ rows.map Prod.fst := by
  induction rows generalizing t with
  | nil => simp [writeRows]
  | cons row rest ih =>
    change k ∈ writeRows (t.insert row.1 row.2) rest <-> _
    rw [ih, mem_insert_iff, List.map_cons, List.mem_cons]
    constructor
    · intro h
      rcases h with (h | h) | h
      · exact Or.inr (Or.inl h.symm)
      · exact Or.inl h
      · exact Or.inr (Or.inr h)
    · intro h
      rcases h with h | h | h
      · exact Or.inl (Or.inr h)
      · exact Or.inl (Or.inl h.symm)
      · exact Or.inr h

theorem getElem?_writeRows_of_not_mem {rows : List (K × V)} {k : K}
    (t : Table K V cmp) (h : k ∉ rows.map Prod.fst) :
    (writeRows t rows)[k]? = t[k]? := by
  induction rows generalizing t with
  | nil => rfl
  | cons row rest ih =>
    simp only [List.map_cons, List.mem_cons, not_or] at h
    have hne : row.1 ≠ k := fun heq => h.left heq.symm
    change (writeRows (t.insert row.1 row.2) rest)[k]? = t[k]?
    rw [ih _ h.right, getElem?_insert_of_ne t row.2 hne]

def TableOp.rows : TableOp K V -> List (K × V)
  | put key value => [(key, value)]
  | write rows => rows
  | delete _ => []

theorem getElem?_writeRows_source {rows : List (K × V)} {k : K} {v : V}
    {t : Table K V cmp} (h : (writeRows t rows)[k]? = some v) :
    t[k]? = some v ∨ (k, v) ∈ rows := by
  induction rows generalizing t with
  | nil => exact Or.inl h
  | cons row rest ih =>
    change (writeRows (t.insert row.1 row.2) rest)[k]? = some v at h
    rcases ih h with hins | hmem
    · by_cases hk : row.1 = k
      · subst hk
        rw [getElem?_insert_self] at hins
        right
        rw [← Option.some.inj hins]
        exact List.mem_cons_self
      · rw [getElem?_insert_of_ne t row.2 hk] at hins
        exact Or.inl hins
    · exact Or.inr (List.mem_cons_of_mem _ hmem)

theorem getElem?_replay_source {ops : List (TableOp K V)} {k : K} {v : V}
    {t : Table K V cmp} (h : (replay t ops)[k]? = some v) :
    t[k]? = some v ∨ exists op, op ∈ ops ∧ (k, v) ∈ op.rows := by
  induction ops generalizing t with
  | nil => exact Or.inl h
  | cons op rest ih =>
    rw [replay_cons] at h
    rcases ih h with hop | ⟨op', hop', hmem⟩
    · cases op with
      | put key value =>
        change (writeRows t [(key, value)])[k]? = some v at hop
        rcases getElem?_writeRows_source hop with hold | hmem
        · exact Or.inl hold
        · exact Or.inr ⟨_, List.mem_cons_self, hmem⟩
      | write rows =>
        rcases getElem?_writeRows_source hop with hold | hmem
        · exact Or.inl hold
        · exact Or.inr ⟨_, List.mem_cons_self, hmem⟩
      | delete key =>
        left
        by_cases hk : key = k
        · subst hk
          change (t.erase key)[key]? = some v at hop
          rw [getElem?_erase_self] at hop
          cases hop
        · change (t.erase key)[k]? = some v at hop
          rwa [getElem?_erase_of_ne t hk] at hop
    · exact Or.inr ⟨op', List.mem_cons_of_mem _ hop', hmem⟩

def Functional (rows : List (K × V)) : Prop :=
  forall k v v', (k, v) ∈ rows -> (k, v') ∈ rows -> v = v'

theorem getElem?_writeRows_of_value {rows : List (K × V)} {k : K} {v : V}
    (t : Table K V cmp) (hvalue : forall row, row ∈ rows -> row.1 = k -> row.2 = v)
    (h : k ∈ rows.map Prod.fst) : (writeRows t rows)[k]? = some v := by
  induction rows generalizing t with
  | nil => cases h
  | cons row rest ih =>
    rcases List.forall_mem_cons.mp hvalue with ⟨hrow, hvalue'⟩
    change (writeRows (t.insert row.1 row.2) rest)[k]? = some v
    by_cases hrest : k ∈ rest.map Prod.fst
    · exact ih _ hvalue' hrest
    · rw [getElem?_writeRows_of_not_mem _ hrest]
      rcases List.mem_cons.mp h with heq | hmem
      · rw [heq, getElem?_insert_self, hrow heq.symm]
      · exact absurd hmem hrest

theorem getElem?_writeRows_of_mem {rows : List (K × V)} {k : K} {v : V}
    (t : Table K V cmp) (hfun : Functional rows) (h : (k, v) ∈ rows) :
    (writeRows t rows)[k]? = some v := by
  refine getElem?_writeRows_of_value t ?_ (List.mem_map_of_mem (f := Prod.fst) h)
  rintro ⟨k', v'⟩ hmem rfl
  exact hfun k' v' v hmem h

theorem getElem?_writeRows_map_toList {W : Type} (t : Table K V cmp) (f : V -> W) (k : K) :
    (writeRows (∅ : Table K W cmp)
      (t.toList.map fun row => (row.1, f row.2)))[k]? = t[k]?.map f := by
  have hmem : forall k w, (k, w) ∈ t.toList.map (fun row => (row.1, f row.2)) <->
        t[k]?.map f = some w := by
    intro k w
    simp only [List.mem_map, Prod.exists, Prod.mk.injEq,
      Std.ExtTreeMap.mem_toList_iff_getElem?_eq_some, Option.map_eq_some_iff]
    constructor
    · rintro ⟨k', v, hv, rfl, hw⟩
      exact ⟨v, hv, hw⟩
    · rintro ⟨v, hv, hw⟩
      exact ⟨k, v, hv, rfl, hw⟩
  cases hk : t[k]?.map f with
  | none =>
    rw [getElem?_writeRows_of_not_mem]
    · exact Std.ExtTreeMap.getElem?_empty
    · intro hkey
      rcases List.mem_map.mp hkey with ⟨⟨k', w⟩, hrow, rfl⟩
      rw [(hmem k' w).mp hrow] at hk
      cases hk
  | some w =>
    refine getElem?_writeRows_of_mem _ ?_ ((hmem k w).mpr hk)
    intro k v v' hv hv'
    have heq := (hmem k v).mp hv
    rw [(hmem k v').mp hv'] at heq
    exact (Option.some.inj heq).symm

theorem getElem?_apply_of_not_mem (t : Table K V cmp) {op : TableOp K V}
    {k : K} (h : k ∉ op.keys) : (op.apply t)[k]? = t[k]? := by
  cases op with
  | put key value =>
    have hne : key ≠ k := by
      intro heq
      simp [TableOp.keys, heq] at h
    exact getElem?_insert_of_ne t value hne
  | write rows => exact getElem?_writeRows_of_not_mem t h
  | delete key =>
    have hne : key ≠ k := by
      intro heq
      simp [TableOp.keys, heq] at h
    exact getElem?_erase_of_ne t hne

theorem getElem?_replay_of_untouched {ops : List (TableOp K V)} {k : K}
    (t : Table K V cmp) (h : forall op, op ∈ ops -> k ∉ op.keys) :
    (replay t ops)[k]? = t[k]? := by
  induction ops generalizing t with
  | nil => rfl
  | cons op rest ih =>
    have hop : k ∉ op.keys := h op List.mem_cons_self
    have hrest : forall op, op ∈ rest -> k ∉ op.keys := by
      intro o ho
      exact h o (List.mem_cons_of_mem _ ho)
    rw [replay_cons, ih _ hrest, getElem?_apply_of_not_mem t hop]

theorem getElem?_replay_of_deleted {ops : List (TableOp K V)} {k : K} (t : Table K V cmp)
    (h : forall op, op ∈ ops -> k ∈ op.keys -> op = .delete k)
    (hmem : .delete k ∈ ops) : (replay t ops)[k]? = none := by
  induction ops using List.reverseRecOn with
  | nil => cases hmem
  | append_singleton front op ih =>
    have hfront : forall op, op ∈ front -> k ∈ op.keys -> op = .delete k := by
      intro o ho
      exact h o (List.mem_append_left _ ho)
    rw [replay_append]
    by_cases htouch : k ∈ op.keys
    · rw [h op (by simp) htouch]
      exact getElem?_erase_self _ _
    · have hold : .delete k ∈ front := by
        rcases List.mem_append.mp hmem with hold | hlast
        · exact hold
        · rw [← List.mem_singleton.mp hlast] at htouch
          exact absurd List.mem_cons_self htouch
      change (op.apply (replay t front))[k]? = none
      rw [getElem?_apply_of_not_mem _ htouch, ih hfront hold]

theorem getElem?_replay_deletes {ops : List (TableOp K V)} {k : K} {v : V} (t : Table K V cmp)
    (h : forall op, op ∈ ops -> k ∈ op.keys -> op = .delete k) :
    (replay t ops)[k]? = some v <-> .delete k ∉ ops ∧ t[k]? = some v := by
  by_cases hmem : .delete k ∈ ops
  · simp [getElem?_replay_of_deleted t h hmem, hmem]
  · rw [getElem?_replay_of_untouched]
    · simp [hmem]
    · intro op hop hkey
      rw [h op hop hkey] at hop
      exact hmem hop

theorem getElem?_replay_writes {ops : List (TableOp K V)} {k : K} {v : V} {t : Table K V cmp}
    (hvalue : forall op, op ∈ ops -> forall row, row ∈ op.rows -> row.1 = k -> row.2 = v)
    (hkept : .delete k ∉ ops) :
    (replay t ops)[k]? = some v <->
      (exists op, op ∈ ops ∧ k ∈ op.rows.map Prod.fst) ∨ t[k]? = some v := by
  induction ops generalizing t with
  | nil => simp
  | cons op rest ih =>
    rcases List.forall_mem_cons.mp hvalue with ⟨hop, hvalue'⟩
    rcases not_or.mp (fun h => hkept (List.mem_cons.mpr h)) with ⟨hdelete, hkept'⟩
    have happly : (op.apply t)[k]? = some v <->
        k ∈ op.rows.map Prod.fst ∨ t[k]? = some v := by
      by_cases hmem : k ∈ op.rows.map Prod.fst
      · refine iff_of_true ?_ (Or.inl hmem)
        cases op with
        | put key value => exact getElem?_writeRows_of_value t hop hmem
        | write rows => exact getElem?_writeRows_of_value t hop hmem
        | delete key => cases hmem
      · rw [or_iff_right hmem, getElem?_apply_of_not_mem]
        intro hkey
        cases op with
        | put key value => exact hmem hkey
        | write rows => exact hmem hkey
        | delete key => exact hdelete (congrArg TableOp.delete (List.mem_singleton.mp hkey))
    rw [replay_cons, ih hvalue' hkept', happly, ← or_assoc, List.exists_mem_cons_iff,
      or_comm (a := k ∈ op.rows.map Prod.fst)]

theorem getElem?_replay_delete_of_mem {keys : List K} {k : K} (t : Table K V cmp) (h : k ∈ keys) :
    (replay t (keys.map TableOp.delete))[k]? = none := by
  apply getElem?_replay_of_deleted t _ (List.mem_map_of_mem h)
  intro op hop hk
  rcases List.mem_map.mp hop with ⟨key, _, rfl⟩
  rw [List.mem_singleton.mp hk]

theorem getElem?_replay_delete_of_not_mem {keys : List K} {k : K}
    (t : Table K V cmp) (h : k ∉ keys) :
    (replay t (keys.map TableOp.delete))[k]? = t[k]? := by
  apply getElem?_replay_of_untouched
  intro op hop
  rcases List.mem_map.mp hop with ⟨key, hkey, rfl⟩
  intro hk
  have : k = key := by simpa [TableOp.keys] using hk
  exact h (this ▸ hkey)

omit [Std.LawfulEqCmp cmp] in
theorem replay_writes (t : Table K V cmp) (batches : List (List (K × V))) :
    replay t (batches.map TableOp.write) = writeRows t batches.flatten := by
  induction batches generalizing t with
  | nil => rfl
  | cons rows rest ih =>
    change replay (writeRows t rows) (rest.map TableOp.write) = _
    rw [ih]
    simp [writeRows, List.foldl_append]

end Replay

/-!
## Scans
-/

theorem dropWhile_eq_filter_of_pairwise {q : α -> Bool} {l : List α}
    (h : l.Pairwise fun a b => q b = true -> q a = true) :
    l.dropWhile q = l.filter fun a => !q a := by
  induction l with
  | nil => rfl
  | cons a rest ih =>
    rcases List.pairwise_cons.mp h with ⟨hhead, hrest⟩
    cases ha : q a with
    | true =>
      rw [List.dropWhile_cons_of_pos ha, ih hrest]
      simp [ha]
    | false =>
      have hall : forall b, b ∈ rest -> q b = false := by
        intro b hb
        cases hq : q b with
        | false => rfl
        | true =>
          have := hhead b hb hq
          rw [ha] at this
          cases this
      rw [List.dropWhile_cons_of_neg (by simp [ha])]
      symm
      apply List.filter_eq_self.mpr
      intro b hb
      cases hb with
      | head => simp [ha]
      | tail _ hmem => simp [hall b hmem]

theorem takeWhile_eq_filter_of_pairwise {p : α -> Bool} {l : List α}
    (h : l.Pairwise fun a b => p b = true -> p a = true) :
    l.takeWhile p = l.filter p := by
  induction l with
  | nil => rfl
  | cons a rest ih =>
    rcases List.pairwise_cons.mp h with ⟨hhead, hrest⟩
    cases ha : p a with
    | true =>
      rw [List.takeWhile_cons_of_pos ha, List.filter_cons_of_pos ha, ih hrest]
    | false =>
      have hnil : rest.filter p = [] := by
        apply List.filter_eq_nil_iff.mpr
        intro b hb hp
        have := hhead b hb hp
        rw [ha] at this
        cases this
      rw [List.takeWhile_cons_of_neg (by simp [ha]), List.filter_cons_of_neg (by simp [ha]), hnil]

theorem eq_of_pairwise_of_mem_iff {R : α -> α -> Prop} {l l' : List α} (hirrefl : forall a, ¬ R a a)
    (htrans : forall a b c, R a b -> R b c -> R a c)
    (h : l.Pairwise R) (h' : l'.Pairwise R)
    (hmem : forall a, a ∈ l <-> a ∈ l') : l = l' := by
  have hne : forall {a b : α}, R a b -> a ≠ b := by
    intro a b hab heq
    rw [heq] at hab
    exact hirrefl b hab
  have hnodup : l.Nodup := h.imp hne
  have hnodup' : l'.Nodup := h'.imp hne
  have hperm : l.Perm l' := (List.perm_ext_iff_of_nodup hnodup hnodup').mpr hmem
  have hantisymm : forall a b, a ∈ l -> b ∈ l' -> R a b -> R b a -> a = b := by
    intro a b _ _ hab hba
    exact absurd (htrans a b a hab hba) (hirrefl a)
  exact hperm.eq_of_pairwise hantisymm h h'

theorem mergeSort_of_perm {le : α -> α -> Bool} {items found : List α}
    (htrans : forall a b c, le a b = true -> le b c = true -> le a c = true)
    (htotal : forall a b, (le a b || le b a) = true)
    (hitems : items.Pairwise fun a b => le a b = true ∧ le b a = false)
    (hperm : found.Perm items) : found.mergeSort le = items := by
  have hsame : (found.mergeSort le).Perm items :=
    (List.mergeSort_perm found le).trans hperm
  refine hsame.eq_of_pairwise ?_ (List.pairwise_mergeSort htrans htotal found) (hitems.imp And.left)
  intro a b ha hb hab hba
  by_contra hne
  have hstrict : items.Pairwise fun a b => ¬ (le a b = true ∧ le b a = true) := by
    refine hitems.imp ?_
    intro a b h h'
    rw [h.right] at h'
    cases h'.right
  have : Std.Symm fun a b => ¬ (le a b = true ∧ le b a = true) :=
    ⟨fun a b h h' => h h'.symm⟩
  exact hstrict.forall (hsame.mem_iff.mp ha) hb hne ⟨hab, hba⟩

theorem filter_toList_eq {K V : Type} {cmp : K -> K -> Ordering} [Std.TransCmp cmp]
    [Std.LawfulEqCmp cmp] [DecidableEq K] {t : Table K V cmp} {k : K} {v : V}
    (h : t[k]? = some v) : (t.toList.filter fun row => row.1 = k) = [(k, v)] := by
  refine eq_of_pairwise_of_mem_iff (R := fun row row' => cmp row.1 row'.1 = .lt)
    ?_ ?_ (Std.ExtTreeMap.ordered_keys_toList.filter _) (List.pairwise_singleton _ _) ?_
  · intro row hlt
    have hself : cmp row.1 row.1 = .eq := Std.ReflCmp.compare_self
    rw [hself] at hlt
    cases hlt
  · intro row row' row'' hlt hlt'
    exact Std.TransCmp.lt_trans hlt hlt'
  · intro row
    rw [List.mem_filter, List.mem_singleton, decide_eq_true_eq]
    constructor
    · intro hrow
      have hget := Std.ExtTreeMap.mem_toList_iff_getElem?_eq_some.mp hrow.left
      rw [hrow.right, h] at hget
      exact Prod.ext hrow.right (Option.some.inj hget).symm
    · intro hrow
      rw [hrow]
      exact ⟨Std.ExtTreeMap.mem_toList_iff_getElem?_eq_some.mpr h, rfl⟩

section Scan

variable {K V : Type} (enc : K -> List UInt8)

/-- Rows from `start` on while the key has the prefix. -/
def scanFrom (t : Table K V (compareOn enc)) (start pref : List UInt8) :
    List (K × V) :=
  (t.toList.dropWhile fun row => compare (enc row.1) start == .lt).takeWhile
    fun row => pref.isPrefixOf (enc row.1)

def scan (t : Table K V (compareOn enc)) (pref : List UInt8) :
    List (K × V) :=
  scanFrom enc t pref pref

/-- The rows with the prefix, downwards from the last row that is not above the limit. -/
def scanReverse (t : Table K V (compareOn enc)) (limit pref : List UInt8) :
    List (K × V) :=
  (t.toList.reverse.dropWhile fun row =>
    compare (enc row.1) limit == .gt).takeWhile fun row => pref.isPrefixOf (enc row.1)

variable {enc}

theorem scanFrom_eq_filter (t : Table K V (compareOn enc))
    {start pref : List UInt8} (hstart : pref.isPrefixOf start = true) :
    scanFrom enc t start pref =
      (t.toList.filter fun row => !(compare (enc row.1) start == .lt)).filter
        fun row => pref.isPrefixOf (enc row.1) := by
  have hsorted : t.toList.Pairwise fun a b =>
      compare (enc a.1) (enc b.1) = .lt :=
    Std.ExtTreeMap.ordered_keys_toList (t := t)
  unfold scanFrom
  rw [dropWhile_eq_filter_of_pairwise, takeWhile_eq_filter_of_pairwise]
  · rw [List.pairwise_filter]
    apply hsorted.imp
    intro a b hab ha _ hb
    apply isPrefixOf_of_between hstart hb
    · intro hgt
      simp [Std.OrientedCmp.lt_of_gt hgt] at ha
    · simp [hab]
  · apply hsorted.imp
    intro a b hab hb
    simp only [beq_iff_eq] at hb ⊢
    exact Std.TransCmp.lt_trans hab hb

theorem scan_eq_filter (t : Table K V (compareOn enc)) (pref : List UInt8) :
    scan enc t pref = t.toList.filter fun row => pref.isPrefixOf (enc row.1) := by
  unfold scan
  rw [scanFrom_eq_filter t (by simp), List.filter_filter]
  apply List.filter_congr
  intro row _
  cases hpref : pref.isPrefixOf (enc row.1) with
  | false => simp
  | true =>
    rcases List.isPrefixOf_iff_prefix.mp hpref with ⟨rest, hrest⟩
    have hnlt : compare (enc row.1) pref ≠ .lt := by
      intro hlt
      have hle : compare pref (pref ++ rest) = compare [] rest := by
        simpa using compare_append_same pref [] rest
      rw [hrest] at hle
      have hgt := Std.OrientedCmp.gt_of_lt hlt
      rw [hle] at hgt
      cases rest with
      | nil => cases hgt
      | cons b bs => cases hgt
    simpa using hnlt

theorem scanReverse_eq_filter (t : Table K V (compareOn enc))
    {limit pref : List UInt8} (hlimit : pref.isPrefixOf limit = true) :
    scanReverse enc t limit pref =
      ((t.toList.filter fun row => !(compare (enc row.1) limit == .gt)).filter
        fun row => pref.isPrefixOf (enc row.1)).reverse := by
  have hordered : t.toList.Pairwise fun a b =>
      compare (enc a.1) (enc b.1) = .lt :=
    Std.ExtTreeMap.ordered_keys_toList (t := t)
  have hsorted : t.toList.reverse.Pairwise fun a b =>
      compare (enc b.1) (enc a.1) = .lt :=
    List.pairwise_reverse.mpr hordered
  unfold scanReverse
  rw [dropWhile_eq_filter_of_pairwise, takeWhile_eq_filter_of_pairwise,
    List.filter_reverse, List.filter_reverse]
  · rw [List.pairwise_filter]
    apply hsorted.imp
    intro a b hab ha _ hb
    apply isPrefixOf_of_between hb hlimit
    · simp [hab]
    · simpa using ha
  · apply hsorted.imp
    intro a b hab hb
    simp only [beq_iff_eq] at hb ⊢
    exact Std.TransCmp.gt_trans (Std.OrientedCmp.gt_of_lt hab) hb

theorem mem_scan [Std.LawfulEqCmp (compareOn enc)]
    {t : Table K V (compareOn enc)} {pref : List UInt8} {row : K × V} :
    row ∈ scan enc t pref <-> t[row.1]? = some row.2 ∧ pref.isPrefixOf (enc row.1) = true := by
  rw [scan_eq_filter, List.mem_filter, ← Std.ExtTreeMap.mem_toList_iff_getElem?_eq_some]

end Scan

end Foundation
end Splora
