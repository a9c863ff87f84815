/-!
# Tries of keywords

A trie holds the keywords and the comment openings of a lexicon. Each node that ends one of them
has an entry. A text that was ever added as a comment opening stays one, with the closing mark
that came last. `longest?` finds the longest text of the trie at the front of a text.
-/

set_option autoImplicit false

namespace CubeLang

/-- What a text in a trie is: a keyword, or the opening of a comment with its closing mark. -/
inductive Trie.Entry where
  | keyword
  | comment (close : List Char)
deriving DecidableEq

/-- A tree whose branches are labelled with characters. -/
inductive Trie where
  | node (entry : Option Trie.Entry) (children : List (Char × Trie))

namespace Trie

/-- The trie without a text. -/
def empty : Trie := node none []

/-- What the text that ends at the root is, if there is one. -/
def entry : Trie → Option Entry
  | node e _ => e

/-- The entry of a text that is added again: a comment opening does not become a keyword. -/
def Entry.merge (old : Option Entry) (new : Entry) : Entry :=
  match new, old with
  | .keyword, some (.comment close) => .comment close
  | _, _ => new

/-- The branch of a character. -/
def branch? (children : List (Char × Trie)) (c : Char) : Option Trie :=
  (children.find? fun b => b.1 = c).map Prod.snd

/-- The branches with the branch of a character replaced, or added at the end. -/
def setBranch (c : Char) (t : Trie) : List (Char × Trie) → List (Char × Trie)
  | [] => [(c, t)]
  | b :: bs => if b.1 = c then (c, t) :: bs else b :: setBranch c t bs

/-- The trie with a text added. -/
def insert (e : Entry) : List Char → Trie → Trie
  | [], node old children => node (some (Entry.merge old e)) children
  | c :: cs, node old children =>
    node old (setBranch c (insert e cs ((branch? children c).getD empty)) children)

/-- The longest non-empty text of the trie at the front of a text: what it is, and its length. -/
def longest? : Trie → List Char → Option (Entry × Nat)
  | _, [] => none
  | node _ children, c :: cs =>
    match branch? children c with
    | none => none
    | some t =>
      match longest? t cs with
      | some (e, k) => some (e, k + 1)
      | none => t.entry.map fun e => (e, 1)

/-- A match is not empty and lies within the text. -/
theorem longest?_bounds {t : Trie} {cs : List Char} {e : Entry} {k : Nat}
    (h : t.longest? cs = some (e, k)) : 0 < k ∧ k ≤ cs.length := by
  fun_induction longest? t cs generalizing e k with
  | case1 => simp at h
  | case2 => simp at h
  | case3 _ _ _ _ _ _ _ _ hm ih =>
    simp only [Option.some.injEq, Prod.mk.injEq] at h
    obtain ⟨rfl, rfl⟩ := h
    have := ih hm
    simp only [List.length_cons]
    omega
  | case4 =>
    simp only [Option.map_eq_some_iff, Prod.mk.injEq] at h
    obtain ⟨_, _, rfl, rfl⟩ := h
    simp

end Trie

end CubeLang
