import Splora.Foundation.Table

/-!
# Paging with a cursor

A client asks for the items after the last key that it has seen.  If keys are distinct and a
page holds the next items after its cursor, the client sees the list.
-/

namespace Splora
namespace Foundation

section Unique

variable {α K : Type} [DecidableEq K]

def uniqueBy (key : α -> K) (items : List α) : List α :=
  items.eraseDupsBy fun item item' => key item == key item'

theorem uniqueBy_cons (key : α -> K) (item : α) (items : List α) :
    uniqueBy key (item :: items) =
      item :: uniqueBy key (items.filter fun item' => key item' ≠ key item) := by
  rw [uniqueBy, List.eraseDupsBy_cons, uniqueBy]
  congr 2
  refine List.filter_congr ?_
  intro item' _
  by_cases h : key item' = key item
  · simp [h]
  · simp [h]

theorem uniqueBy_induction {P : List α -> Prop} (key : α -> K) (hnil : P [])
    (hcons : forall item items, P (items.filter fun item' => key item' ≠ key item) ->
      P (item :: items)) (items : List α) : P items := by
  induction hlength : items.length using Nat.strong_induction_on generalizing items with
  | _ n ih =>
    cases items with
    | nil => exact hnil
    | cons item items =>
      refine hcons item items (ih _ ?_ _ rfl)
      rw [<- hlength, List.length_cons]
      exact Nat.lt_succ_of_le (List.length_filter_le _ _)

theorem uniqueBy_sublist (key : α -> K) (items : List α) : (uniqueBy key items).Sublist items := by
  induction items using uniqueBy_induction key with
  | hnil => exact List.Sublist.refl _
  | hcons item items ih =>
    rw [uniqueBy_cons]
    exact List.Sublist.cons_cons item (ih.trans List.filter_sublist)

theorem mem_map_uniqueBy {key : α -> K} {items : List α} {k : K} :
    k ∈ (uniqueBy key items).map key <-> k ∈ items.map key := by
  induction items using uniqueBy_induction key with
  | hnil => exact Iff.rfl
  | hcons item items ih =>
    rw [uniqueBy_cons, List.map_cons, List.map_cons, List.mem_cons, List.mem_cons, ih]
    refine or_congr_right' ?_
    intro hne
    simp only [List.mem_map, List.mem_filter, decide_eq_true_eq]
    constructor
    · intro h
      rcases h with ⟨item', ⟨hmem, _⟩, heq⟩
      exact ⟨item', hmem, heq⟩
    · intro h
      rcases h with ⟨item', hmem, heq⟩
      exact ⟨item', ⟨hmem, fun hsame => hne (heq.symm.trans hsame)⟩, heq⟩

theorem nodup_map_uniqueBy (key : α -> K) (items : List α) :
    ((uniqueBy key items).map key).Nodup := by
  induction items using uniqueBy_induction key with
  | hnil => exact List.nodup_nil
  | hcons item items ih =>
    rw [uniqueBy_cons, List.map_cons, List.nodup_cons]
    refine ⟨?_, ih⟩
    rw [mem_map_uniqueBy]
    intro hmem
    rcases List.mem_map.mp hmem with ⟨item', hitem', heq⟩
    exact of_decide_eq_true (List.mem_filter.mp hitem').right heq

end Unique

/-!
## Cursors
-/

section Cursor

variable {α K : Type} [DecidableEq K]

def after (key : α -> K) (cursor : Option K) (items : List α) : List α :=
  match cursor with
  | some last => (items.dropWhile fun item => last ≠ key item).drop 1
  | none => items

theorem after_none (key : α -> K) (items : List α) : after key none items = items :=
  rfl

theorem after_sublist (key : α -> K) (cursor : Option K) (items : List α) :
    (after key cursor items).Sublist items := by
  cases cursor with
  | none => exact List.Sublist.refl items
  | some last =>
    exact (List.drop_sublist _ _).trans (List.dropWhile_sublist _)

variable {key : α -> K} {last : K}

theorem after_some_append {front : List α} (h : last ∉ front.map key) (items : List α) :
    after key (some last) (front ++ items) = after key (some last) items := by
  have hskip : forall item, item ∈ front -> decide (last ≠ key item) = true := by
    intro item hitem
    refine decide_eq_true ?_
    intro heq
    exact h (heq ▸ List.mem_map_of_mem hitem)
  rw [after, List.dropWhile_append_of_pos hskip]
  rfl

theorem after_some_cons (key : α -> K) (item : α) (items : List α) :
    after key (some (key item)) (item :: items) = items := by
  rw [after, List.dropWhile_cons_of_neg (by simp)]
  rfl

theorem after_some_cons_of_ne {item : α} (h : last ≠ key item) (items : List α) :
    after key (some last) (item :: items) = after key (some last) items := by
  have hfresh : last ∉ [item].map key := by simpa using h
  exact after_some_append hfresh items

variable {items : List α}

theorem after_some_eq_nil (h : last ∉ items.map key) : after key (some last) items = [] := by
  have hskip := after_some_append h []
  rw [List.append_nil] at hskip
  exact hskip

theorem not_mem_after_some {item : α} (hnodup : ((item :: items).map key).Nodup) (last : K) :
    key item ∉ (after key (some last) (item :: items)).map key := by
  rw [List.map_cons, List.nodup_cons] at hnodup
  by_cases h : last = key item
  · rw [h, after_some_cons]
    exact hnodup.left
  · rw [after_some_cons_of_ne h]
    exact fun hmem => hnodup.left (((after_sublist _ _ _).map key).subset hmem)

theorem after_filterMap {β : Type} {key' : β -> K} {f : α -> Option β}
    (hf : forall item, item ∈ items ->
      exists out, f item = some out ∧ key' out = key item) (cursor : Option K) :
    after key' cursor (items.filterMap f) = (after key cursor items).filterMap f := by
  cases cursor with
  | none => rfl
  | some last =>
    induction items with
    | nil => rfl
    | cons item items ih =>
      rcases hf item List.mem_cons_self with ⟨out, hout, hkey⟩
      have hrest := ih fun item' hitem' => hf item' (List.mem_cons_of_mem _ hitem')
      rw [List.filterMap_cons_some hout]
      by_cases h : last = key item
      · rw [h, after_some_cons, <- hkey, after_some_cons]
      · rw [after_some_cons_of_ne h, after_some_cons_of_ne (hkey ▸ h), hrest]

theorem after_map {β : Type} {key' : β -> K} {f : α -> β}
    (hf : forall item, item ∈ items -> key' (f item) = key item) (cursor : Option K) :
    after key' cursor (items.map f) = (after key cursor items).map f := by
  have hsome : forall item, item ∈ items ->
      exists out, (some ∘ f) item = some out ∧ key' out = key item := by
    intro item hitem
    exact ⟨f item, rfl, hf item hitem⟩
  have hafter := after_filterMap hsome cursor
  rw [List.filterMap_eq_map] at hafter
  exact hafter

theorem after_some_of_mem (h : last ∈ items.map key) :
    exists front item, key item = last ∧ items = front ++ item :: after key (some last) items ∧
      last ∉ front.map key := by
  induction items with
  | nil => cases h
  | cons item items ih =>
    by_cases heq : last = key item
    · refine ⟨[], item, heq.symm, ?_, nofun⟩
      rw [heq, after_some_cons]
      rfl
    · rcases ih ((List.mem_cons.mp h).resolve_left heq) with ⟨front, item', hkey, hsplit, hfront⟩
      refine ⟨item :: front, item', hkey, ?_, ?_⟩
      · rw [after_some_cons_of_ne heq, List.cons_append, <- hsplit]
      · intro hmem
        rcases List.mem_cons.mp hmem with hsame | hmem
        · exact heq hsame
        · exact hfront hmem

theorem after_some_append_of_mem {front : List α} (h : last ∈ front.map key) (items : List α) :
    after key (some last) (front ++ items) = after key (some last) front ++ items := by
  rcases after_some_of_mem h with ⟨seen, item, hkey, hsplit, hseen⟩
  conv_lhs => rw [hsplit]
  rw [List.append_assoc, after_some_append hseen, List.cons_append]
  rw [<- hkey, after_some_cons]

end Cursor

/-!
## Visits
-/

section Visit

variable {α K ε : Type}

/-- Page after page until one is empty or fails.  A cursor need not determine the answer. -/
inductive Visit (page : Option K -> Except ε (List α) -> Prop) (key : α -> K) :
    Option K -> Except ε (List α) -> Prop where
  | failed {cursor : Option K} {e : ε} (h : page cursor (.error e)) :
      Visit page key cursor (.error e)
  | finished {cursor : Option K} (h : page cursor (.ok [])) :
      Visit page key cursor (.ok [])
  | turn {cursor : Option K} {front : List α} {last : α}
      {result : Except ε (List α)} (h : page cursor (.ok (front ++ [last])))
      (rest : Visit page key (some (key last)) result) :
      Visit page key cursor (result.map fun items => front ++ last :: items)

def CursorOf (key : α -> K) (items : List α) (cursor : Option K) : Prop :=
  forall last, cursor = some last -> last ∈ items.map key

variable [DecidableEq K] {page : Option K -> Except ε (List α) -> Prop}
  {key : α -> K} {items : List α} {size : Nat}

def PagesOf (page : Option K -> Except ε (List α) -> Prop) (key : α -> K)
    (items : List α) (size : Nat) : Prop :=
  forall cursor, CursorOf key items cursor -> forall result,
    page cursor result <-> result = .ok ((after key cursor items).take size)

variable {cursor : Option K}

theorem after_last_of_take (hnodup : (items.map key).Nodup)
    (hcursor : CursorOf key items cursor) {front : List α} {last : α}
    (h : (after key cursor items).take size = front ++ [last]) :
    CursorOf key items (some (key last)) ∧ after key cursor items =
        front ++ last :: after key (some (key last)) items := by
  have hsplit : exists seen, items = seen ++ after key cursor items := by
    cases cursor with
    | none => exact ⟨[], rfl⟩
    | some k =>
      rcases after_some_of_mem (hcursor k rfl) with ⟨seen, item, _, heq, _⟩
      refine ⟨seen ++ [item], ?_⟩
      rw [List.append_assoc]
      exact heq
  rcases hsplit with ⟨seen, hseen⟩
  have hrest := List.take_append_drop size (after key cursor items)
  rw [h, List.append_assoc] at hrest
  have hitems : items = (seen ++ front) ++ last :: (after key cursor items).drop size := by
    rw [List.append_assoc]
    exact hseen.trans (congrArg _ hrest.symm)
  have hfresh : key last ∉ (seen ++ front).map key := by
    intro hmem
    rw [hitems, List.map_append, List.map_cons] at hnodup
    exact (List.nodup_append.mp hnodup).right.right _ hmem _ List.mem_cons_self rfl
  have hafter : after key (some (key last)) items = (after key cursor items).drop size := by
    conv_lhs => rw [hitems]
    rw [after_some_append hfresh, after_some_cons]
  refine ⟨?_, ?_⟩
  · intro k hk
    cases hk
    rw [hitems]
    simp
  · rw [hafter]
    exact hrest.symm

theorem visit_of_pagesOf (hnodup : (items.map key).Nodup) (hsize : 1 ≤ size)
    (hpages : PagesOf page key items size) (hcursor : CursorOf key items cursor) :
    Visit page key cursor (.ok (after key cursor items)) := by
  induction hlength : (after key cursor items).length
    using Nat.strong_induction_on generalizing cursor with
  | _ n ih =>
    have hpage := (hpages cursor hcursor _).mpr rfl
    rcases List.eq_nil_or_concat ((after key cursor items).take size) with
      hnil | ⟨front, last, hconcat⟩
    · rcases List.take_eq_nil_iff.mp hnil with hzero | hempty
      · omega
      · rw [hnil] at hpage
        rw [hempty]
        exact .finished hpage
    · rw [List.concat_eq_append] at hconcat
      rcases after_last_of_take hnodup hcursor hconcat with ⟨hnext, hafter⟩
      rw [hconcat] at hpage
      have hshorter : (after key (some (key last)) items).length < n := by
        have hcount := congrArg List.length hafter
        rw [List.length_append, List.length_cons] at hcount
        omega
      rw [hafter]
      exact .turn hpage (ih _ hshorter hnext rfl)

theorem eq_of_visit (hnodup : (items.map key).Nodup)
    (hpages : PagesOf page key items size) (hsize : 1 ≤ size)
    {result : Except ε (List α)} (hvisit : Visit page key cursor result)
    (hcursor : CursorOf key items cursor) :
    result = .ok (after key cursor items) := by
  induction hvisit with
  | failed h => cases (hpages _ hcursor _).mp h
  | finished h =>
    have hnil := Except.ok.inj ((hpages _ hcursor _).mp h)
    rcases List.take_eq_nil_iff.mp hnil.symm with hzero | hempty
    · omega
    · rw [hempty]
  | turn h _ ih =>
    have heq := Except.ok.inj ((hpages _ hcursor _).mp h)
    rcases after_last_of_take hnodup hcursor heq.symm with ⟨hnext, hafter⟩
    rw [ih hnext, hafter]
    rfl

theorem visit_iff (hnodup : (items.map key).Nodup) (hsize : 1 ≤ size)
    (hpages : PagesOf page key items size) {result : Except ε (List α)} :
    Visit page key none result <-> result = .ok items := by
  constructor
  · intro hvisit
    exact eq_of_visit hnodup hpages hsize hvisit nofun
  · intro heq
    rw [heq]
    have hcursor : CursorOf key items none := nofun
    exact visit_of_pagesOf hnodup hsize hpages hcursor

end Visit

end Foundation
end Splora
