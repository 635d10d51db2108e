import Splora.Foundation.Text

/-!
# HTTP requests

The front and the indexer exchange requests over HTTP/1.1.  The target of a request
is the path with the query.  Names of headers are in lower case.
-/

namespace Splora

open Foundation

def withQuery (path : Text) : Option Text -> Text
  | some query => path ++ '?' :: query
  | none => path

def HeaderValue.toStr (value : Text) : Option Text :=
  if value.all (fun c => c = '\t' || (0x20 ≤ c.toNat && c.toNat ≤ 0x7e)) then
    some value
  else
    none

theorem HeaderValue.toStr_eq {value : Text}
    (h : forall c, c ∈ value -> Text.isVisible c = true ∨ c = ' ') :
    HeaderValue.toStr value = some value := by
  apply if_pos
  rw [List.all_eq_true]
  intro c hc
  rcases h c hc with hvisible | hspace
  · simp only [Text.isVisible, Bool.and_eq_true, decide_eq_true_eq] at hvisible
    simp only [Bool.or_eq_true, Bool.and_eq_true, decide_eq_true_eq]
    omega
  · rw [hspace]
    rfl

abbrev HeaderMap := List (Text × Text)

namespace HeaderMap

def get (headers : HeaderMap) (name : Text) : Option Text :=
  (headers.find? fun header => header.1 = name).map Prod.snd

def containsKey (headers : HeaderMap) (name : Text) : Bool :=
  headers.any fun header => header.1 = name

def insert (headers : HeaderMap) (name value : Text) : HeaderMap :=
  headers.filter (fun header => header.1 ≠ name) ++ [(name, value)]

theorem containsKey_eq_false {headers : HeaderMap} {name : Text} :
    headers.containsKey name = false <-> headers.get name = none := by
  rw [containsKey, List.any_eq_false, get, Option.map_eq_none_iff, List.find?_eq_none]

theorem get_insert_self (headers : HeaderMap) (name value : Text) :
    (headers.insert name value).get name = some value := by
  rw [insert, get, List.find?_append]
  have hnone : (headers.filter fun header => header.1 ≠ name).find?
      (fun header => header.1 = name) = none := by
    rw [List.find?_eq_none]
    intro header hheader
    have hne := of_decide_eq_true (List.mem_filter.mp hheader).right
    simpa using hne
  rw [hnone, Option.none_or]
  simp

theorem get_insert_of_ne (headers : HeaderMap) {name name' : Text}
    (value : Text) (h : name' ≠ name) :
    (headers.insert name value).get name' = headers.get name' := by
  have hfilter : (headers.filter fun header => header.1 ≠ name).find?
      (fun header => header.1 = name') =
      headers.find? (fun header => header.1 = name') := by
    rw [List.find?_filter]
    congr 1
    funext header
    by_cases heq : header.1 = name'
    · simp [heq, h]
    · simp [heq]
  rw [insert, get, get, List.find?_append, hfilter]
  simp [Ne.symm h]

end HeaderMap

structure HttpRequest where
  method : Text
  target : Text
  headers : HeaderMap
  body : List UInt8
deriving DecidableEq

namespace HttpRequest

def path (req : HttpRequest) : Text :=
  req.target.takeWhile fun c => c ≠ '?'

def query (req : HttpRequest) : Option Text :=
  match req.target.dropWhile fun c => c ≠ '?' with
  | [] => none
  | _ :: query => some query

theorem not_mem_path (req : HttpRequest) : '?' ∉ req.path := by
  intro h
  rw [path] at h
  have hne := List.mem_takeWhile_imp h
  exact of_decide_eq_true hne rfl

theorem target_eq (req : HttpRequest) : req.target = withQuery req.path req.query := by
  have hsplit : req.path ++ req.target.dropWhile (fun c => c ≠ '?') =
      req.target := List.takeWhile_append_dropWhile
  unfold query
  cases hdrop : req.target.dropWhile fun c => c ≠ '?' with
  | nil =>
    rw [hdrop, List.append_nil] at hsplit
    exact hsplit.symm
  | cons c query =>
    have hc : c = '?' := by
      have hhead := List.head?_dropWhile_not (fun c => decide (c ≠ '?')) req.target
      rw [hdrop] at hhead
      simpa using hhead
    rw [hdrop, hc] at hsplit
    exact hsplit.symm

theorem path_withQuery {req : HttpRequest} {path : Text} {query : Option Text}
    (htarget : req.target = withQuery path query) (h : '?' ∉ path) :
    req.path = path := by
  have htake : path.takeWhile (fun c => c ≠ '?') = path := by
    rw [List.takeWhile_eq_self_iff]
    intro c hc
    apply decide_eq_true
    intro heq
    exact h (heq ▸ hc)
  rw [HttpRequest.path, htarget]
  cases query with
  | none => exact htake
  | some query =>
    rw [withQuery, List.takeWhile_append_of_pos]
    · simp
    · intro c hc
      exact List.takeWhile_eq_self_iff.mp htake c hc

end HttpRequest

end Splora
