import Splora.Util.Block

/-!
# Sequences of header batches

Batches may roll back any part of the list and bring headers back.  The list stays a chain from
the genesis header, and lookups find the listed entries only.  Headers stand for blocks without
transactions.
-/

namespace Splora

open Foundation

structure HashesInjective (headers : List BlockHeader) : Prop where
  eq_of_hash_eq : forall h, h ∈ headers -> forall h', h' ∈ headers -> h.hash = h'.hash -> h = h'
  ne_null : forall h, h ∈ headers -> h.hash ≠ nullHash

def BlockHeader.bare (header : BlockHeader) : Block where
  header := header
  txdata := []
  size := 0
  weight := 0

theorem map_header_bare (headers : List BlockHeader) :
    (headers.map BlockHeader.bare).map Block.header = headers := by
  rw [List.map_map]
  exact List.map_id headers

namespace HashesInjective

variable {headers : List BlockHeader}

theorem sublist {headers' : List BlockHeader} (h : HashesInjective headers)
    (hsub : headers' ⊆ headers) : HashesInjective headers' where
  eq_of_hash_eq := fun x hx y hy => h.eq_of_hash_eq x (hsub hx) y (hsub hy)
  ne_null := fun x hx => h.ne_null x (hsub hx)

def tree (h : HashesInjective headers) : BlockTree :=
  .ofList (headers.map BlockHeader.bare) (by
      intro b hb
      rcases List.mem_map.mp hb with ⟨header, hheader, rfl⟩
      exact h.ne_null header hheader)
    (by
      intro b hb _ _ tx htx
      rcases List.mem_map.mp hb with ⟨header, _, rfl⟩
      cases htx)

theorem isChain (h : HashesInjective headers) {chain : List BlockHeader} (hsub : chain ⊆ headers)
    (hlinked : LinkedFrom nullHash (chain.map BlockHeader.bare)) :
    IsChain h.tree (chain.map BlockHeader.bare) where
  stored := by
    intro b hb
    rcases List.mem_map.mp hb with ⟨header, hheader, rfl⟩
    have hmem : header.bare ∈ headers.map BlockHeader.bare :=
      List.mem_map_of_mem (hsub hheader)
    change (headers.map BlockHeader.bare).find? _ = _
    cases hfind : (headers.map BlockHeader.bare).find? fun b =>
        b.hash = header.bare.hash with
    | none =>
      have hnone := List.find?_eq_none.mp hfind _ hmem
      simp at hnone
    | some b' =>
      rcases List.mem_map.mp (List.mem_of_find?_eq_some hfind) with ⟨header', hheader', rfl⟩
      have hfound := List.find?_some hfind
      simp only [decide_eq_true_eq] at hfound
      rw [h.eq_of_hash_eq header' hheader' header (hsub hheader) hfound]
  linked := hlinked

end HashesInjective

namespace HeaderList

structure Coherent (hl : HeaderList) : Prop where
  entry : forall (i : Nat) (e : HeaderEntry), hl.headers[i]? = some e ->
    e.height = i ∧ e.hash = e.header.hash
  genesis : forall e, hl.headers.head? = some e -> e.header.prevBlockhash = nullHash
  linked : List.IsChain (fun prev next => next.header.prevBlockhash = prev.hash) hl.headers
  ne_null : forall e, e ∈ hl.headers -> e.hash ≠ nullHash
  tip_eq : hl.tip = (hl.headers.getLast?.map HeaderEntry.hash).getD nullHash
  lookup : forall (blockhash : BlockHash) (e : HeaderEntry),
    hl.headerByBlockhash blockhash = some e <->
      e ∈ hl.headers ∧ e.hash = blockhash

theorem Represents.coherent {T : BlockTree} {hl : HeaderList}
    {blocks : List Block} (h : hl.Represents blocks) (hchain : IsChain T blocks) :
    hl.Coherent where
  entry := by
    intro i e he
    rw [h.headers_eq, getElem?_entriesFrom] at he
    rcases Option.map_eq_some_iff.mp he with ⟨b, _, heq⟩
    rw [← heq]
    exact ⟨Nat.zero_add i, rfl⟩
  genesis := by
    intro e he
    rw [h.headers_eq] at he
    cases blocks with
    | nil => cases he
    | cons b rest =>
      cases he
      exact hchain.linked.left
  linked := by
    rw [h.headers_eq]
    apply (isChain_entriesFrom 0 hchain.linked).imp
    intro prev next hnext
    exact hnext.right.symm
  ne_null := by
    intro e he
    rcases List.getElem?_of_mem he with ⟨i, hi⟩
    rw [h.headers_eq, getElem?_entriesFrom] at hi
    rcases Option.map_eq_some_iff.mp hi with ⟨b, hb, heq⟩
    rw [← heq]
    exact hchain.hash_ne_null (List.mem_of_getElem? hb)
  tip_eq := by
    rw [h.headers_eq, getLast?_hash_entriesFrom, h.tip_eq]
    rfl
  lookup := by
    intro blockhash e
    constructor
    · intro hsome
      rcases h.exists_of_headerByBlockhash hsome with ⟨i, b, hb, hhash, heq⟩
      rw [heq]
      refine ⟨?_, hhash⟩
      apply List.mem_of_getElem?
      rw [h.headers_eq, getElem?_entriesFrom, hb, Option.map_some, Nat.zero_add]
    · intro hmem
      rcases List.getElem?_of_mem hmem.left with ⟨i, hi⟩
      rw [h.headers_eq, getElem?_entriesFrom] at hi
      rcases Option.map_eq_some_iff.mp hi with ⟨b, hb, heq⟩
      rw [Nat.zero_add] at heq
      rw [← hmem.right, ← heq]
      exact h.headerByBlockhash_of_getElem? hb

/-!
## Reloading
-/

structure IsHeaderChain (headers : List BlockHeader) : Prop where
  genesis : forall first, first ∈ headers.head? -> first.prevBlockhash = nullHash
  linked : List.IsChain (fun prev next => next.prevBlockhash = prev.hash) headers
  ne_null : forall h, h ∈ headers -> h.hash ≠ nullHash

theorem linkedFrom_of_isChain {prev : BlockHash} {headers : List BlockHeader}
    (hfirst : forall first, first ∈ headers.head? -> first.prevBlockhash = prev)
    (hchain : List.IsChain (fun prev next => next.prevBlockhash = prev.hash) headers) :
    LinkedFrom prev (headers.map BlockHeader.bare) := by
  induction headers generalizing prev with
  | nil => trivial
  | cons header rest ih =>
    refine ⟨hfirst header rfl, ih ?_ hchain.tail⟩
    intro next hnext
    cases rest with
    | nil => cases hnext
    | cons next' rest =>
      cases hnext
      exact (List.isChain_cons_cons.mp hchain).left

theorem map_header_entriesFrom (height : Nat) (blocks : List Block) :
    (entriesFrom height blocks).map HeaderEntry.header = blocks.map Block.header := by
  induction blocks generalizing height with
  | nil => rfl
  | cons b rest ih => simp [entriesFrom, ih]

theorem tipHash_bare (headers : List BlockHeader) :
    tipHash (headers.map BlockHeader.bare) =
      (headers.getLast?.map BlockHeader.hash).getD nullHash := by
  rw [tipHash, List.getLast?_map, Option.map_map]
  rfl

theorem exists_new {headers : List BlockHeader} {headersMap : Std.ExtTreeMap BlockHash BlockHeader}
    (hchain : IsHeaderChain headers)
    (hmap : forall h, h ∈ headers -> headersMap[h.hash]? = some h) :
    exists hl, new headersMap ((headers.getLast?.map BlockHeader.hash).getD nullHash) = .ok hl ∧
      hl.Coherent ∧ hl.headers.map HeaderEntry.header = headers := by
  have hinj : HashesInjective headers := by
    refine ⟨?_, hchain.ne_null⟩
    intro h hh h' hh' heq
    have hsome := hmap h hh
    rw [heq, hmap h' hh'] at hsome
    exact (Option.some.inj hsome).symm
  have hblocks := hinj.isChain (List.Subset.refl headers)
    (linkedFrom_of_isChain hchain.genesis hchain.linked)
  have hmap' : forall b, b ∈ headers.map BlockHeader.bare ->
      headersMap[b.hash]? = some b.header := by
    intro b hb
    rcases List.mem_map.mp hb with ⟨h, hh, heq⟩
    rw [← heq]
    exact hmap h hh
  rcases new_eq hblocks hmap' with ⟨hl, hnew, hrep⟩
  rw [tipHash_bare] at hnew
  refine ⟨hl, hnew, hrep.coherent hblocks, ?_⟩
  rw [hrep.headers_eq, map_header_entriesFrom, map_header_bare]

structure SameList (hl hl' : HeaderList) : Prop where
  headers_eq : hl.headers = hl'.headers
  tip_eq : hl.tip = hl'.tip
  lookup_eq : forall blockhash, hl.headerByBlockhash blockhash = hl'.headerByBlockhash blockhash

namespace Coherent

variable {hl hl' : HeaderList}

theorem isHeaderChain (h : hl.Coherent) :
    IsHeaderChain (hl.headers.map HeaderEntry.header) where
  genesis := by
    intro first hfirst
    rw [List.head?_map] at hfirst
    rcases Option.map_eq_some_iff.mp hfirst with ⟨e, he, heq⟩
    rw [← heq]
    exact h.genesis e he
  linked := by
    rw [List.isChain_map]
    apply h.linked.imp_of_mem_imp
    intro prev next hprev _ hlinked
    rcases List.getElem?_of_mem hprev with ⟨i, hi⟩
    rw [hlinked, (h.entry i prev hi).right]
  ne_null := by
    intro header hheader
    rcases List.mem_map.mp hheader with ⟨e, he, heq⟩
    rcases List.getElem?_of_mem he with ⟨i, hi⟩
    rw [← heq, ← (h.entry i e hi).right]
    exact h.ne_null e he

theorem sameList (h : hl.Coherent) (h' : hl'.Coherent) (heq : hl.headers.map HeaderEntry.header =
      hl'.headers.map HeaderEntry.header) : SameList hl hl' := by
  have hheaders : hl.headers = hl'.headers := by
    apply List.ext_getElem?
    intro i
    have hi := congrArg (fun l => l[i]?) heq
    simp only [List.getElem?_map] at hi
    cases he : hl.headers[i]? with
    | none =>
      rw [he, Option.map_none] at hi
      exact (Option.map_eq_none_iff.mp hi.symm).symm
    | some e =>
      rw [he, Option.map_some] at hi
      rcases Option.map_eq_some_iff.mp hi.symm with ⟨e', he', hheader⟩
      rcases h.entry i e he with ⟨hheight, hhash⟩
      rcases h'.entry i e' he' with ⟨hheight', hhash'⟩
      rw [hheader, ← hhash] at hhash'
      have hsame : e = e' := by
        rw [← hheight'] at hheight
        cases e
        cases e'
        cases hheight
        cases hheader
        cases hhash'
        rfl
      rw [he', hsame]
  refine ⟨hheaders, ?_, ?_⟩
  · rw [h.tip_eq, h'.tip_eq, hheaders]
  · intro blockhash
    apply Option.ext
    intro e
    rw [h.lookup, h'.lookup, hheaders]

end Coherent

/-!
## Batches
-/

def applyBatch (hl : HeaderList) (batch : List BlockHeader) :
    Except Abort (HeaderList × List HeaderEntry × Option BlockHash) := do
  let newHeaders <- hl.order batch
  hl.apply newHeaders

def runBatches (batches : List (List BlockHeader)) : Except Abort HeaderList :=
  batches.foldlM (fun hl batch => do
    let (hl, _) <- hl.applyBatch batch
    return hl) empty

def Connects (hl : HeaderList) (batch : List BlockHeader) : Prop :=
  List.IsChain (fun prev next => next.prevBlockhash = prev.hash) batch ∧
    forall first, first ∈ batch.head? -> first.prevBlockhash = nullHash ∨
        exists e, e ∈ hl.headers ∧ e.hash = first.prevBlockhash

instance (hl : HeaderList) (batch : List BlockHeader) :
    Decidable (hl.Connects batch) :=
  inferInstanceAs (Decidable (_ ∧ _))

def ConnectThroughout (batches : List (List BlockHeader)) : Prop :=
  forall front batch, front ++ [batch] <+: batches ->
    forall hl, runBatches front = .ok hl -> hl.Connects batch

structure Applied (hl : HeaderList) (batch : List BlockHeader)
    (hl' : HeaderList) (removed : List HeaderEntry)
    (rollbackTip : Option BlockHash) : Prop where
  headers_eq : exists kept added, hl.headers = kept ++ removed.reverse ∧
    hl'.headers = kept ++ added ∧ added.map HeaderEntry.header = batch ∧
    rollbackTip =
      if removed.isEmpty then none else kept.getLast?.map HeaderEntry.hash
  removed_eq : batch = [] -> removed = []

section Batches

variable {hl : HeaderList} {known chain batch : List BlockHeader}

theorem Connects.exists_split (hconnects : hl.Connects batch) (hne : batch ≠ [])
    (hrep : hl.Represents (chain.map BlockHeader.bare))
    (hlinked : LinkedFrom nullHash (chain.map BlockHeader.bare)) :
    exists q a, chain = q ++ a ∧ LinkedFrom nullHash ((q ++ batch).map BlockHeader.bare) := by
  cases batch with
  | nil => exact absurd rfl hne
  | cons first rest =>
    rcases hconnects.right first rfl with hnull | ⟨e, he, hhash⟩
    · refine ⟨[], chain, rfl, linkedFrom_of_isChain ?_ hconnects.left⟩
      intro first' hfirst'
      cases hfirst'
      exact hnull
    · rcases List.getElem?_of_mem he with ⟨i, hi⟩
      rw [hrep.headers_eq, getElem?_entriesFrom, List.getElem?_map] at hi
      rcases Option.map_eq_some_iff.mp hi with ⟨b, hb, heq⟩
      rcases Option.map_eq_some_iff.mp hb with ⟨header, hheader, hbare⟩
      have htip : tipHash ((chain.take (i + 1)).map BlockHeader.bare) =
          first.prevBlockhash := by
        rw [List.map_take, tipHash_take (List.getElem?_map.trans hb), ← hhash, ← heq]
        rfl
      refine ⟨chain.take (i + 1), chain.drop (i + 1), (List.take_append_drop _ _).symm, ?_⟩
      rw [List.map_append]
      apply linkedFrom_append
      · apply linkedFrom_append_left (d := (chain.drop (i + 1)).map _)
        rw [← List.map_append, List.take_append_drop]
        exact hlinked
      · change LinkedFrom (tipHash _) _
        rw [htip]
        apply linkedFrom_of_isChain _ hconnects.left
        intro first' hfirst'
        cases hfirst'
        rfl

theorem Represents.applyBatch (hinj : HashesInjective known)
    (hrep : hl.Represents (chain.map BlockHeader.bare))
    (hchain : chain ⊆ known)
    (hlinked : LinkedFrom nullHash (chain.map BlockHeader.bare))
    (hbatch : batch ⊆ known) (hconnects : hl.Connects batch) :
    exists hl' removed rollbackTip chain', hl.applyBatch batch = .ok (hl', removed, rollbackTip) ∧
      hl'.Represents (chain'.map BlockHeader.bare) ∧ chain' ⊆ known ∧
      LinkedFrom nullHash (chain'.map BlockHeader.bare) ∧
      Applied hl batch hl' removed rollbackTip := by
  by_cases hne : batch = []
  · subst hne
    refine ⟨hl, [], none, chain, rfl, hrep, hchain, hlinked, ?_, fun _ => rfl⟩
    exact ⟨hl.headers, [], by simp, by simp, rfl, rfl⟩
  · rcases hconnects.exists_split hne hrep hlinked with ⟨q, a, rfl, hnew⟩
    have hsub : q ++ batch ⊆ known := by
      apply List.append_subset.mpr
      exact ⟨(List.append_subset.mp hchain).left, hbatch⟩
    have hnewChain := hinj.isChain hsub hnew
    rw [List.map_append] at hrep hnewChain
    have horder := hrep.order_eq hnewChain
    rw [map_header_bare] at horder
    cases batch with
    | nil => exact absurd rfl hne
    | cons first rest =>
      rcases hrep.apply_eq hnewChain with ⟨hl', happly, hrep'⟩
      refine ⟨hl', _, _, q ++ first :: rest, bind_eq_ok.mpr ⟨_, horder, happly⟩, ?_, hsub, hnew, ?_,
        fun hnil => absurd hnil hne⟩
      · rw [List.map_append]
        exact hrep'
      · refine ⟨entriesFrom 0 (q.map BlockHeader.bare), entriesFrom (q.map BlockHeader.bare).length
            ((first :: rest).map BlockHeader.bare), ?_, ?_, ?_, ?_⟩
        · rw [hrep.headers_eq, entriesFrom_append, List.reverse_reverse, Nat.zero_add]
        · rw [hrep'.headers_eq, entriesFrom_append, Nat.zero_add]
          rfl
        · exact (map_header_entriesFrom _ _).trans (map_header_bare _)
        · rw [getLast?_hash_entriesFrom]
          cases a with
          | nil => rfl
          | cons _ _ => simp [entriesFrom]

theorem runBatches_append_singleton (batches : List (List BlockHeader)) (batch : List BlockHeader) :
    runBatches (batches ++ [batch]) = (runBatches batches >>= fun hl => do
        let (hl, _) <- hl.applyBatch batch
        return hl) := by
  rw [runBatches, runBatches, List.foldlM_append]
  simp

end Batches

variable {batches : List (List BlockHeader)}

theorem exists_represents (hinj : HashesInjective batches.flatten)
    (hconnect : ConnectThroughout batches) :
    exists hl chain, runBatches batches = .ok hl ∧ hl.Represents (chain.map BlockHeader.bare) ∧
      chain ⊆ batches.flatten ∧
      LinkedFrom nullHash (chain.map BlockHeader.bare) := by
  induction batches using List.reverseRecOn with
  | nil =>
    exact ⟨empty, [], rfl, represents_empty, List.nil_subset _, trivial⟩
  | append_singleton front batch ih =>
    have hsub : front.flatten ⊆ (front ++ [batch]).flatten := by simp
    have hbatch : batch ⊆ (front ++ [batch]).flatten := by simp
    have hfront : ConnectThroughout front := by
      intro front' batch' hfront'
      exact hconnect front' batch' (hfront'.trans (List.prefix_append _ _))
    rcases ih (hinj.sublist hsub) hfront with ⟨hl, chain, hrun, hrep, hchain, hlinked⟩
    rcases hrep.applyBatch hinj (List.Subset.trans hchain hsub) hlinked hbatch
      (hconnect front batch (List.prefix_refl _) hl hrun)
      with ⟨hl', removed, rollbackTip, chain', happly, hrep', hrest⟩
    refine ⟨hl', chain', ?_, hrep', hrest.left, hrest.right.left⟩
    rw [runBatches_append_singleton, hrun, ok_bind, happly]
    rfl

/-- After connecting batches the list is coherent, and a further one replaces its end and reports
what it removed. -/
theorem coherent_throughout {batches : List (List BlockHeader)}
    (hinj : HashesInjective batches.flatten)
    (hconnect : ConnectThroughout batches) :
    (forall front, front <+: batches -> exists hl, runBatches front = .ok hl ∧ hl.Coherent) ∧
    forall front batch, front ++ [batch] <+: batches ->
      exists hl hl' removed rollbackTip, runBatches front = .ok hl ∧
        hl.applyBatch batch = .ok (hl', removed, rollbackTip) ∧
        Applied hl batch hl' removed rollbackTip := by
  have hfront : forall front, front <+: batches ->
      HashesInjective front.flatten ∧ ConnectThroughout front := by
    intro front hfront
    refine ⟨hinj.sublist hfront.sublist.flatten.subset, ?_⟩
    intro front' batch hfront'
    exact hconnect front' batch (hfront'.trans hfront)
  constructor
  · intro front hstart
    rcases hfront front hstart with ⟨hinj', hconnect'⟩
    rcases exists_represents hinj' hconnect' with ⟨hl, chain, hrun, hrep, hchain, hlinked⟩
    exact ⟨hl, hrun, hrep.coherent (hinj'.isChain hchain hlinked)⟩
  · intro front batch hstart
    rcases hfront _ ((List.prefix_append _ _).trans hstart) with ⟨hinj', hconnect'⟩
    rcases exists_represents hinj' hconnect' with ⟨hl, chain, hrun, hrep, hchain, hlinked⟩
    have hsub : front.flatten ⊆ batches.flatten :=
      ((List.prefix_append _ _).trans hstart).sublist.flatten.subset
    have hbatch : batch ⊆ batches.flatten := by
      intro header hheader
      exact List.mem_flatten.mpr ⟨batch, hstart.subset (by simp), hheader⟩
    rcases hrep.applyBatch hinj (List.Subset.trans hchain hsub) hlinked hbatch
      (hconnect front batch hstart hl hrun)
      with ⟨hl', removed, rollbackTip, _, happly, _, _, _, happlied⟩
    exact ⟨hl, hl', removed, rollbackTip, hrun, happly, happlied⟩

theorem connectThroughout_of_eval (h : forall i, i < batches.length ->
      exists hl, runBatches (batches.take i) = .ok hl ∧ hl.Connects (batches[i]?.getD [])) :
    ConnectThroughout batches := by
  intro front batch hstart hl hrun
  rcases hstart with ⟨rest, rfl⟩
  rcases h front.length (by simp) with ⟨hl', hrun', hconnects⟩
  rw [List.append_assoc, List.take_left, hrun] at hrun'
  cases hrun'
  simpa using hconnects

end HeaderList

namespace Sample

def headerOf (hash prevBlockhash : BlockHash) : BlockHeader where
  hash := hash
  version := 1
  prevBlockhash := prevBlockhash
  merkleRoot := 0
  time := 0
  bits := 0
  nonce := 0

def flipBatches : List (List BlockHeader) :=
  [[headerOf 1 0, headerOf 2 1], [headerOf 3 1], [headerOf 2 1, headerOf 4 2]]

theorem connectThroughout_flipBatches :
    HeaderList.ConnectThroughout flipBatches :=
  HeaderList.connectThroughout_of_eval (by decide +kernel)

theorem coherent_flipBatches :
    exists hl, HeaderList.runBatches flipBatches = .ok hl ∧ hl.Coherent ∧
      hl.headers.map HeaderEntry.hash = [1, 2, 4] ∧
      (3 : BlockHash) ∈ hl.heights ∧ hl.headerByBlockhash 3 = none := by
  have hinj : HashesInjective flipBatches.flatten :=
    ⟨by decide +kernel, by decide +kernel⟩
  rcases (HeaderList.coherent_throughout hinj
    connectThroughout_flipBatches).left _ (List.prefix_refl _)
    with ⟨hl, hrun, hcoherent⟩
  have heval : exists hl, HeaderList.runBatches flipBatches = .ok hl ∧
      hl.headers.map HeaderEntry.hash = [1, 2, 4] ∧
      (3 : BlockHash) ∈ hl.heights ∧ hl.headerByBlockhash 3 = none := by
    decide +kernel
  rcases heval with ⟨hl', hrun', htest⟩
  rw [hrun] at hrun'
  cases hrun'
  exact ⟨hl, hrun, hcoherent, htest⟩

end Sample

end Splora
