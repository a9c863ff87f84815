import CubeLang.Token.Basic

/-!
# Matched brackets

Brackets are matched if each closing one belongs to the last opening one that is still open, and none
is left open. A balanced piece of a text leaves the brackets open that were open in front of it.
-/

set_option autoImplicit false

namespace CubeLang

/-- Whether a token is a keyword of some text. -/
def Token.Is (t : Token) (text : String) : Prop := t.kind = .keyword ∧ t.text = text

namespace Brackets

/-- The opening brackets, each with a bracket that closes it. -/
def pairs : List (String × String) := [("(", ")"), ("[", "]"), ("<", ">"), ("<", ">'")]

/-- Whether a token is one of some brackets. -/
def isOneOf (t : Token) (brackets : List String) : Bool := t.isKeyword && brackets.contains t.text

/-- The brackets that are open behind a token, the innermost first, if those in front of it were open;
none if the token closes no bracket that may be closed. -/
def step (stack : List String) (t : Token) : Option (List String) :=
  if isOneOf t (pairs.map Prod.fst) then some (t.text :: stack)
  else if isOneOf t (pairs.map Prod.snd) then
    match stack with
    | [] => none
    | opening :: stack => if (opening, t.text) ∈ pairs then some stack else none
  else some stack

/-- Whether the brackets of some tokens are matched. -/
def Matched (ts : List Token) : Prop := ts.foldlM step [] = some []

/-- Whether some tokens leave the brackets open that were open in front of them. -/
def Balanced (ts : List Token) : Prop := ∀ stack, ts.foldlM step stack = some stack

variable {ts ts' : List Token} {t t' : Token} {a b : String}

theorem Balanced.matched (h : Balanced ts) : Matched ts := h []

theorem balanced_nil : Balanced [] := fun _ => rfl

theorem Balanced.append (h : Balanced ts) (h' : Balanced ts') : Balanced (ts ++ ts') := by
  intro stack
  rw [List.foldlM_append, h stack]
  exact h' stack

theorem isOneOf_of_is (ht : t.Is a) (brackets : List String) :
    isOneOf t brackets = brackets.contains a := by
  obtain ⟨hkind, rfl⟩ := ht
  simp [isOneOf, Token.isKeyword, hkind]

/-- A token that is no bracket is balanced. -/
theorem balanced_singleton (ht : t.kind = .keyword → ∀ p ∈ pairs, t.text ≠ p.1 ∧ t.text ≠ p.2) :
    Balanced [t] := by
  intro stack
  have hnone : ∀ f : String × String → String, (∀ p ∈ pairs, t.kind = .keyword → t.text ≠ f p) →
      isOneOf t (pairs.map f) = false := by
    intro f hne
    rw [isOneOf, Bool.eq_false_iff]
    intro hone
    simp only [Token.isKeyword, Bool.and_eq_true, decide_eq_true_eq, List.contains_iff_mem,
      List.mem_map] at hone
    obtain ⟨hkind, p, hp, htext⟩ := hone
    exact hne p hp hkind htext.symm
  have hstep : step stack t = some stack := by
    unfold step
    rw [hnone Prod.fst fun p hp hkind => (ht hkind p hp).1,
      hnone Prod.snd fun p hp hkind => (ht hkind p hp).2]
    rfl
  rw [List.foldlM_cons, hstep]
  rfl

theorem balanced_of_forall (h : ∀ t ∈ ts, Balanced [t]) : Balanced ts := by
  induction ts with
  | nil => exact balanced_nil
  | cons t ts ih =>
    exact (h t List.mem_cons_self).append (ih fun t ht => h t (List.mem_cons_of_mem _ ht))

/-- What stands between a bracket and the one that closes it is balanced with them. -/
theorem Balanced.enclosed (h : Balanced ts) (ht : t.Is a) (ht' : t'.Is b) (hpair : (a, b) ∈ pairs) :
    Balanced (t :: ts ++ [t']) := by
  intro stack
  have hfacts : ∀ p ∈ pairs, (pairs.map Prod.fst).contains p.1 = true ∧
      (pairs.map Prod.fst).contains p.2 = false ∧ (pairs.map Prod.snd).contains p.2 = true := by
    decide
  obtain ⟨hopening, hother, hclosing⟩ := hfacts _ hpair
  have hopened : step stack t = some (a :: stack) := by
    unfold step
    rw [isOneOf_of_is ht, hopening, ht.2]
    rfl
  have hclosed : step (a :: stack) t' = some stack := by
    unfold step
    rw [isOneOf_of_is ht', isOneOf_of_is ht', hother, hclosing, ht'.2]
    exact if_pos hpair
  rw [List.cons_append, List.foldlM_cons, hopened]
  show (ts ++ [t']).foldlM step (a :: stack) = some stack
  rw [List.foldlM_append, h]
  show [t'].foldlM step (a :: stack) = some stack
  rw [List.foldlM_cons, hclosed]
  rfl

end Brackets

end CubeLang
