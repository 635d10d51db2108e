import Mathlib

/-!
# Texts

White space at both ends, ASCII case, words of visible characters, and splits at a separator,
for URLs and header values.
-/

namespace Splora
namespace Foundation

abbrev Text := List Char

namespace Text

/-!
## White space and case
-/

/-- The characters with the Unicode property `White_Space`. -/
def isWhitespace (c : Char) : Bool :=
  (9 ≤ c.toNat && c.toNat ≤ 13) || c.toNat = 0x20 || c.toNat = 0x85 ||
    c.toNat = 0xa0 || c.toNat = 0x1680 ||
    (0x2000 ≤ c.toNat && c.toNat ≤ 0x200a) || c.toNat = 0x2028 ||
    c.toNat = 0x2029 || c.toNat = 0x202f || c.toNat = 0x205f ||
    c.toNat = 0x3000

def trim (t : Text) : Text :=
  (t.dropWhile isWhitespace).rdropWhile isWhitespace

def toAsciiLowercase (t : Text) : Text :=
  t.map Char.toLower

def eqIgnoreAsciiCase (t t' : Text) : Bool :=
  t.toAsciiLowercase = t'.toAsciiLowercase

def isVisible (c : Char) : Bool :=
  0x21 ≤ c.toNat && c.toNat ≤ 0x7e

theorem not_isWhitespace_of_isVisible {c : Char} (h : isVisible c = true) :
    isWhitespace c = false := by
  simp only [isVisible, Bool.and_eq_true, decide_eq_true_eq] at h
  simp only [isWhitespace, Bool.or_eq_false_iff, Bool.and_eq_false_iff, decide_eq_false_iff_not]
  omega

theorem trim_eq_self {t : Text}
    (hfirst : forall c, t.head? = some c -> isWhitespace c = false)
    (hlast : forall c, t.getLast? = some c -> isWhitespace c = false) :
    trim t = t := by
  have hdrop : t.dropWhile isWhitespace = t := by
    rw [List.dropWhile_eq_self_iff]
    intro hl
    rw [hfirst _ (List.head?_eq_getElem? ▸ List.getElem?_eq_getElem hl)]
    exact Bool.false_ne_true
  rw [trim, hdrop, List.rdropWhile_eq_self_iff]
  intro hne
  rw [hlast _ (List.getLast?_eq_some_getLast hne)]
  exact Bool.false_ne_true

theorem trim_of_isVisible {t : Text} (h : forall c, c ∈ t -> isVisible c = true) : trim t = t :=
  trim_eq_self
    (fun c hc => not_isWhitespace_of_isVisible (h c (List.mem_of_mem_head? hc)))
    (fun c hc => not_isWhitespace_of_isVisible (h c (List.mem_of_getLast? hc)))

/-!
## The first and the last separator
-/

theorem append_separator_inj {sep : Char} {front front' last last' : Text}
    (hlast : sep ∉ last) (hlast' : sep ∉ last')
    (h : front ++ sep :: last = front' ++ sep :: last') :
    front = front' ∧ last = last' := by
  rcases List.append_eq_append_iff.mp h with ⟨mid, hfront, hmid⟩ | ⟨mid, hfront, hmid⟩
  · cases mid with
    | nil =>
      rw [List.append_nil] at hfront
      exact ⟨hfront.symm, (List.cons.inj hmid).right⟩
    | cons c mid =>
      rw [(List.cons.inj hmid).right] at hlast
      exact absurd (by simp) hlast
  · cases mid with
    | nil =>
      rw [List.append_nil] at hfront
      exact ⟨hfront, (List.cons.inj hmid).right.symm⟩
    | cons c mid =>
      rw [(List.cons.inj hmid).right] at hlast'
      exact absurd (by simp) hlast'

theorem separator_append_inj {sep : Char} {first first' back back' : Text}
    (hfirst : sep ∉ first) (hfirst' : sep ∉ first')
    (h : first ++ sep :: back = first' ++ sep :: back') :
    first = first' ∧ back = back' := by
  have hreverse := congrArg List.reverse h
  rw [List.reverse_append, List.reverse_append, List.reverse_cons,
    List.reverse_cons, List.append_assoc, List.append_assoc] at hreverse
  have hparts := append_separator_inj (mt List.mem_reverse.mp hfirst)
    (mt List.mem_reverse.mp hfirst') hreverse
  exact ⟨List.reverse_inj.mp hparts.right, List.reverse_inj.mp hparts.left⟩

theorem splitOn_eq_pair {sep : Char} {t first second : Text} :
    List.splitOn sep t = [first, second] <->
      t = first ++ sep :: second ∧ sep ∉ first ∧ sep ∉ second := by
  constructor
  · intro h
    by_cases hsep : sep ∈ t
    · rcases List.eq_append_cons_of_mem hsep with ⟨front, back, ht, hfront⟩
      rw [ht, List.splitOn_append_cons_self_of_not_mem hfront] at h
      rcases List.cons.inj h with ⟨hfirst, hrest⟩
      have hback : sep ∉ back := by
        intro hsep'
        rcases List.append_of_mem hsep' with ⟨front', back', hback⟩
        rw [hback, List.splitOn_append_cons_self] at hrest
        have hlength := congrArg List.length hrest
        have hfront' :=
          List.length_pos_iff.mpr (List.splitOn_ne_nil sep front')
        have hback' := List.length_pos_iff.mpr (List.splitOn_ne_nil sep back')
        rw [List.length_append, List.length_singleton] at hlength
        omega
      rw [List.splitOn_eq_singleton hback] at hrest
      rw [<- hfirst, <- (List.cons.inj hrest).left]
      exact ⟨ht, hfront, hback⟩
    · rw [List.splitOn_eq_singleton hsep] at h
      cases h
  · intro h
    rcases h with ⟨ht, hfirst, hsecond⟩
    rw [ht, List.splitOn_append_cons_self_of_not_mem hfirst, List.splitOn_eq_singleton hsecond]

end Text

/-!
## Words
-/

structure Word where
  text : Text
  ne_nil : text ≠ []
  visible : forall c, c ∈ text -> Text.isVisible c = true

theorem Word.trim_text (w : Word) : Text.trim w.text = w.text :=
  Text.trim_of_isVisible w.visible

end Foundation
end Splora
