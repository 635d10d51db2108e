import Mathlib

/-!
# Fallible computations over lists

Programs that may abort are functions into `Except`.  These lemmas invert a
successful or failed sequence of such computations, so that later proofs never
unfold the monad.
-/

namespace Splora
namespace Foundation

variable {ε α β σ : Type}

theorem ok_bind (a : α) (f : α -> Except ε β) :
    ((Except.ok a : Except ε α) >>= f) = f a := rfl

variable {x : Except ε α} {f : α -> Except ε β}

theorem bind_eq_ok {b : β} : (x >>= f) = .ok b <-> exists a, x = .ok a ∧ f a = .ok b := by
  cases x with
  | error e =>
    constructor
    · intro h
      cases h
    · intro h
      rcases h with ⟨a, ha, _⟩
      cases ha
  | ok a =>
    constructor
    · intro h
      exact ⟨a, rfl, h⟩
    · intro h
      rcases h with ⟨a', ha', hf⟩
      cases ha'
      exact hf

variable {e : ε}

theorem bind_eq_error :
    (x >>= f) = .error e <-> x = .error e ∨ exists a, x = .ok a ∧ f a = .error e := by
  cases x with
  | error e' =>
    constructor
    · intro h
      cases h
      exact Or.inl rfl
    · intro h
      rcases h with h | ⟨a, ha, _⟩
      · cases h
        rfl
      · cases ha
  | ok a =>
    constructor
    · intro h
      exact Or.inr ⟨a, rfl, h⟩
    · intro h
      rcases h with h | ⟨a', ha', hf⟩
      · cases h
      · cases ha'
        exact hf

theorem pure_eq_ok {a b : α} : (pure a : Except ε α) = .ok b <-> a = b := by
  constructor
  · intro h
    cases h
    rfl
  · intro h
    rw [h]
    rfl

def ensure (p : Prop) [Decidable p] (e : ε) : Except ε Unit :=
  if p then .ok () else .error e

@[simp] theorem ensure_eq_ok {p : Prop} [Decidable p] {u : Unit} : ensure p e = .ok u <-> p := by
  by_cases h : p
  · simp [ensure, h]
  · simp [ensure, h]

theorem ensure_of {p : Prop} [Decidable p] (e : ε) (h : p) : ensure p e = .ok () :=
  ensure_eq_ok.mpr h

theorem ensure_eq_error {p : Prop} [Decidable p] {e' : ε} :
    ensure p e = .error e' <-> ¬ p ∧ e = e' := by
  by_cases h : p
  · simp [ensure, h]
  · simp [ensure, h]

def expect (x : Option α) (e : ε) : Except ε α :=
  match x with
  | some a => .ok a
  | none => .error e

@[simp] theorem expect_eq_ok {x : Option α} {a : α} : expect x e = .ok a <-> x = some a := by
  cases x with
  | none => simp [expect]
  | some b => simp [expect]

theorem expect_eq_error {x : Option α} {e' : ε} : expect x e = .error e' <-> x = none ∧ e = e' := by
  cases x with
  | none => simp [expect]
  | some b => simp [expect]

theorem mapError_eq_ok {ε' : Type} {f : ε -> ε'} {a : α} : x.mapError f = .ok a <-> x = .ok a := by
  cases x with
  | error e => simp [Except.mapError]
  | ok b => simp [Except.mapError]

/-!
## Mapping
-/

variable {l : List α} {rs : List β}

theorem mapM_eq_ok : l.mapM f = .ok rs <-> List.Forall₂ (fun a b => f a = .ok b) l rs := by
  induction l generalizing rs with
  | nil =>
    rw [List.mapM_nil, pure_eq_ok, List.forall₂_nil_left_iff]
    exact eq_comm
  | cons a rest ih =>
    rw [List.mapM_cons, bind_eq_ok]
    constructor
    · intro h
      rcases h with ⟨b, hb, h⟩
      rcases bind_eq_ok.mp h with ⟨bs, hbs, h⟩
      rw [← pure_eq_ok.mp h]
      exact List.Forall₂.cons hb (ih.mp hbs)
    · intro h
      cases h with
      | cons hb hbs =>
        rename_i b bs
        exact ⟨b, hb, bind_eq_ok.mpr ⟨bs, ih.mpr hbs, rfl⟩⟩

theorem mapM_eq_error (h : l.mapM f = .error e) : exists a, a ∈ l ∧ f a = .error e := by
  induction l with
  | nil => cases h
  | cons a rest ih =>
    rw [List.mapM_cons, bind_eq_error] at h
    rcases h with h | ⟨b, _, h⟩
    · exact ⟨a, List.mem_cons_self, h⟩
    · rcases bind_eq_error.mp h with h | ⟨bs, _, h⟩
      · rcases ih h with ⟨a', ha', hf⟩
        exact ⟨a', List.mem_cons_of_mem _ ha', hf⟩
      · cases h

theorem ok_of_mapM (h : l.mapM f = .ok rs) {a : α} (ha : a ∈ l) : exists b, f a = .ok b := by
  have hall := mapM_eq_ok.mp h
  clear h
  induction hall with
  | nil => cases ha
  | cons hb htl ih =>
    rcases List.mem_cons.mp ha with rfl | ha
    · exact ⟨_, hb⟩
    · exact ih ha

theorem mem_of_mapM (h : l.mapM f = .ok rs) {b : β} : b ∈ rs <-> exists a, a ∈ l ∧ f a = .ok b := by
  have hall := mapM_eq_ok.mp h
  clear h
  induction hall with
  | nil => simp
  | cons hb htl ih =>
    rename_i a b' l rs
    simp only [List.mem_cons, ih, exists_eq_or_imp]
    rw [hb, Except.ok.injEq, eq_comm]

theorem map_eq_map_of_mapM {g : β -> γ} {h : α -> γ} (hmap : l.mapM f = .ok rs)
    (heq : forall a b, f a = .ok b -> g b = h a) : rs.map g = l.map h := by
  have hall := mapM_eq_ok.mp hmap
  clear hmap
  induction hall with
  | nil => rfl
  | cons hb htl ih =>
    rw [List.map_cons, List.map_cons, heq _ _ hb, ih]

theorem mem_flatten_of_mapM {f : α -> Except ε (List β)} {rs : List (List β)}
    (h : l.mapM f = .ok rs) {x : β} :
    x ∈ rs.flatten <-> exists a, a ∈ l ∧ exists r, f a = .ok r ∧ x ∈ r := by
  rw [List.mem_flatten]
  constructor
  · rintro ⟨r, hr, hx⟩
    rcases (mem_of_mapM h).mp hr with ⟨a, ha, hfa⟩
    exact ⟨a, ha, r, hfa, hx⟩
  · rintro ⟨a, ha, r, hfa, hx⟩
    exact ⟨r, (mem_of_mapM h).mpr ⟨a, ha, hfa⟩, hx⟩

theorem mapM_ok_of_forall (h : forall a, a ∈ l -> exists b, f a = .ok b) :
    exists rs, l.mapM f = .ok rs := by
  cases hmap : l.mapM f with
  | ok rs => exact ⟨rs, rfl⟩
  | error e =>
    rcases mapM_eq_error hmap with ⟨a, ha, herr⟩
    rcases h a ha with ⟨b, hb⟩
    rw [hb] at herr
    cases herr

theorem mapM_eq_ok_map {g : α -> β} (h : forall a, a ∈ l -> f a = .ok (g a)) :
    l.mapM f = .ok (l.map g) := by
  rw [mapM_eq_ok, List.forall₂_map_right_iff, List.forall₂_same]
  exact h

theorem mapM_eq_ok_filterMap {g : α -> Option β}
    (h : forall a, a ∈ l -> exists b, f a = .ok b ∧ g a = some b) :
    l.mapM f = .ok (l.filterMap g) := by
  induction l with
  | nil => rfl
  | cons a rest ih =>
    rcases h a List.mem_cons_self with ⟨b, hf, hg⟩
    rw [List.mapM_cons, hf, List.filterMap_cons_some hg, ok_bind,
      ih fun a' ha' => h a' (List.mem_cons_of_mem _ ha')]
    rfl

theorem mapM_ok_congr {g : α -> Except ε β} (h : forall a, a ∈ l -> f a = g a) :
    l.mapM f = l.mapM g := by
  induction l with
  | nil => rfl
  | cons a rest ih =>
    have hrest : rest.mapM f = rest.mapM g :=
      ih fun b hb => h b (List.mem_cons_of_mem _ hb)
    rw [List.mapM_cons, List.mapM_cons, h a List.mem_cons_self, hrest]

theorem forM_eq_ok {f : α -> Except ε Unit} {u : Unit} :
    l.forM f = .ok u <-> forall a, a ∈ l -> f a = .ok () := by
  induction l with
  | nil =>
    constructor
    · intro _ a ha
      cases ha
    · intro _
      rfl
  | cons a rest ih =>
    change (f a >>= fun _ => rest.forM f) = .ok u <-> _
    rw [bind_eq_ok]
    simp only [List.forall_mem_cons, ih]
    constructor
    · rintro ⟨_, ha, hrest⟩
      exact ⟨ha, hrest⟩
    · rintro ⟨ha, hrest⟩
      exact ⟨_, ha, hrest⟩

theorem forM_eq_error {f : α -> Except ε Unit} (h : l.forM f = .error e) :
    exists a, a ∈ l ∧ f a = .error e := by
  induction l with
  | nil => cases h
  | cons a rest ih =>
    change (f a >>= fun _ => rest.forM f) = .error e at h
    rw [bind_eq_error] at h
    rcases h with h | ⟨_, _, h⟩
    · exact ⟨a, List.mem_cons_self, h⟩
    · rcases ih h with ⟨a', ha', hf⟩
      exact ⟨a', List.mem_cons_of_mem _ ha', hf⟩

/-!
## Folding
-/

theorem foldlM_ok_induct {f : σ -> α -> Except ε σ} {P : σ -> List α -> Prop} {s s' : σ}
    (hrun : l.foldlM f s = .ok s') (hinit : P s l)
    (hstep : forall s a rest s1, P s (a :: rest) -> f s a = .ok s1 -> P s1 rest) :
    P s' [] := by
  induction l generalizing s with
  | nil =>
    rw [List.foldlM_nil, pure_eq_ok] at hrun
    rw [← hrun]
    exact hinit
  | cons a rest ih =>
    rw [List.foldlM_cons, bind_eq_ok] at hrun
    rcases hrun with ⟨s1, hs1, hrest⟩
    exact ih hrest (hstep s a rest s1 hinit hs1)

theorem foldlM_error_induct {f : σ -> α -> Except ε σ} {P : σ -> List α -> Prop} {s : σ}
    (hrun : l.foldlM f s = .error e) (hinit : P s l)
    (hstep : forall s a rest s1, P s (a :: rest) -> f s a = .ok s1 -> P s1 rest) :
    exists s1 a rest, P s1 (a :: rest) ∧ f s1 a = .error e := by
  induction l generalizing s with
  | nil => cases hrun
  | cons a rest ih =>
    rw [List.foldlM_cons, bind_eq_error] at hrun
    rcases hrun with hrun | ⟨s1, hs1, hrest⟩
    · exact ⟨s, a, rest, hinit, hrun⟩
    · exact ih hrest (hstep s a rest s1 hinit hs1)

theorem foldlM_concat {f : σ -> α -> Except ε σ} {s : σ} {a : α} :
    (l ++ [a]).foldlM f s = l.foldlM f s >>= fun s' => f s' a := by
  simp [List.foldlM_append]

/-- Under an invariant, a property holds throughout a run exactly if every step meets the condition
for keeping it. -/
theorem throughout_iff {f : σ -> α -> Except ε σ} {I P : σ -> Prop} {C : σ -> α -> Prop} {s0 : σ}
    (hI : I s0) (hP : P s0) (hstep : forall s a s', a ∈ l -> I s -> f s a = .ok s' ->
      I s' ∧ (P s -> (P s' <-> C s a))) :
    (forall front, front <+: l -> forall s, front.foldlM f s0 = .ok s -> P s) <->
      forall front a, front ++ [a] <+: l ->
        forall s s', front.foldlM f s0 = .ok s -> f s a = .ok s' -> C s a := by
  have hinv : forall {front s a s'}, front ++ [a] <+: l -> front.foldlM f s0 = .ok s ->
      f s a = .ok s' -> P s -> (P s' <-> C s a) := by
    intro front s a s' hfront hrun ha
    rcases List.append_subset.mp hfront.subset with ⟨hsub, hlast⟩
    refine (hstep s a s' (hlast List.mem_cons_self) ?_ ha).right
    apply (foldlM_ok_induct (P := fun s rest => I s ∧ rest ⊆ l) hrun ⟨hI, hsub⟩ ?_).left
    intro s a rest s1 h hs1
    rcases List.cons_subset.mp h.right with ⟨ha, hrest⟩
    exact ⟨(hstep s a s1 ha h.left hs1).left, hrest⟩
  constructor
  · intro h front a hfront s s' hrun ha
    apply (hinv hfront hrun ha (h front ((List.prefix_append _ _).trans hfront) s hrun)).mp
    apply h _ hfront
    rw [foldlM_concat, hrun, ok_bind, ha]
  · intro h front hfront s hrun
    induction front using List.reverseRecOn generalizing s with
    | nil =>
      cases hrun
      exact hP
    | append_singleton front a ih =>
      rw [foldlM_concat] at hrun
      rcases bind_eq_ok.mp hrun with ⟨s1, hrun, ha⟩
      have hbefore := ih ((List.prefix_append _ _).trans hfront) s1 hrun
      exact (hinv hfront hrun ha hbefore).mpr (h front a hfront s1 s hrun ha)

instance decidableOk : (x : Except ε α) -> Decidable (exists a, x = .ok a)
  | .error _ => isFalse nofun
  | .ok a => isTrue ⟨a, rfl⟩

instance decidableError [DecidableEq ε] (e : ε) :
    (x : Except ε α) -> Decidable (x = .error e)
  | .error e' => decidable_of_iff (e' = e) ⟨congrArg Except.error, Except.error.inj⟩
  | .ok _ => isFalse nofun

instance decidableOkWith {P : α -> Prop} [DecidablePred P] :
    (x : Except ε α) -> Decidable (exists a, x = .ok a ∧ P a)
  | .error _ => isFalse nofun
  | .ok a => decidable_of_iff (P a)
      ⟨fun h => ⟨a, rfl, h⟩, fun ⟨_, heq, h⟩ => Except.ok.inj heq ▸ h⟩

end Foundation
end Splora
