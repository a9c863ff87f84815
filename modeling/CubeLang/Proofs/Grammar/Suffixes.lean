import CubeLang.Proofs.Grammar.ExpressionRelocation
import CubeLang.Proofs.Grammar.Opening

/-!
# Rows of affixes behind a script

In the built-in notation inversions, reflections and repeat counts stand behind what they are about.
None of them belongs to a cycle or to a repeat count in front of it. So a script is read to its end as if
nothing stood behind, whatever it is made of, and then the affixes of a row go around it one after the
other.
-/

set_option autoImplicit false

namespace CubeLang

/-- An affix as it is written behind a script in the built-in notation. -/
inductive Suffix where
  | inversion (operator : String)
  | reflection
  | repetition (count : RepeatCount) (digits : String)

namespace Suffix

/-- The text of an affix. -/
def text : Suffix → String
  | inversion operator => operator
  | reflection => "*"
  | repetition _ digits => digits

/-- Whether an affix is written as a notation wants it: an operator for inversion is one of the notation,
and the digits of a count, maybe with zeros in front, are those of the count. -/
def Proper (l : Notation) : Suffix → Prop
  | inversion operator => operator ∈ l.tokensFor .inversionOperator
  | reflection => True
  | repetition count digits =>
    digits.toList.all Char.isDigit = true ∧ Nat.ofDigitChars 10 digits.toList 0 = count.value

instance (l : Notation) : (x : Suffix) → Decidable (x.Proper l)
  | inversion operator => inferInstanceAs (Decidable (operator ∈ l.tokensFor .inversionOperator))
  | reflection => inferInstanceAs (Decidable True)
  | repetition count digits => inferInstanceAs (Decidable (digits.toList.all Char.isDigit = true ∧
      Nat.ofDigitChars 10 digits.toList 0 = count.value))

/-- What an affix does. -/
def operation : Suffix → Affix.Operation
  | inversion _ => .inversion
  | reflection => .reflection
  | repetition count _ => .repetition count

/-- How an affix begins. -/
def begins : Suffix → Reading.AffixStart
  | inversion _ => .single .inversion
  | reflection => .single .reflection
  | repetition _ _ => .count

/-- The node of an affix around a script. -/
def around (span : Span) (s : Script) : Suffix → Script
  | inversion _ => .inversion span s
  | reflection => .reflection span s
  | repetition count _ => .repetition span count s

/-- Where an affix stops that is alone on the line behind some place. -/
def stop (place : Nat) (x : Suffix) : Nat := place + 1 + x.text.toList.length

/-- The kind of token that an affix is. -/
def kind : Suffix → Token.Kind
  | inversion _ | reflection => .keyword
  | repetition count _ => .number count.value

/-- The token of an affix at some offset. -/
def token (start : Nat) (x : Suffix) : Token := .ofChars x.kind start x.text.toList

/-- The tokens of affixes behind some place, each on a line of its own. -/
def tokens : Nat → List Suffix → List Token
  | _, [] => []
  | place, x :: xs => x.token (place + 1) :: tokens (x.stop place) xs

end Suffix

/-- A script with some affixes on the lines behind the place where its text stops, the first one next to
it. Each node holds the text from the start of the script to the end of its affix. -/
def Script.suffixed : Script → Nat → List Suffix → Script
  | s, _, [] => s
  | s, place, x :: xs => (x.around ⟨s.span.start, x.stop place⟩ s).suffixed (x.stop place) xs

namespace Suffix

variable {l : Notation} {x : Suffix} {s : Script} {place : Nat}

@[simp] theorem span_around (span : Span) (s : Script) (x : Suffix) : (x.around span s).span = span := by
  cases x <;> rfl

@[simp] theorem text_token (start : Nat) (x : Suffix) : (x.token start).text = x.text :=
  String.ofList_toList

/-- An affix on the line behind a script goes around it up to its own end. -/
theorem wrap_eq_around (hstart : s.span.start ≤ place) (hstop : s.span.stop ≤ place) :
    (⟨x.operation, (x.token (place + 1)).span⟩ : Affix).wrap s =
      x.around ⟨s.span.start, x.stop place⟩ s := by
  have hspan : (x.token (place + 1)).span.join s.span = ⟨s.span.start, x.stop place⟩ := by
    simp only [token, Token.ofChars, Token.span, Span.join, stop, Span.mk.injEq]
    omega
  cases x <;> simp only [Affix.wrap, operation, around, hspan]

/-- A count is positive and so has digits. -/
theorem digits_ne_nil {count : RepeatCount} {digits : String}
    (h : (repetition count digits).Proper l) : digits.toList ≠ [] := by
  intro hnil
  have hvalue : Nat.ofDigitChars 10 digits.toList 0 = count.value := h.2
  rw [hnil] at hvalue
  exact absurd count.positive (hvalue ▸ Nat.lt_irrefl 0)

end Suffix

namespace Reading

variable {r : Reading} {n : Nat} {h : 2 ≤ n} {f : Fixity} {macros : Table String String}
variable {t : Token} {ts : List Token} {x : Suffix} {xs : List Suffix} {s : Script}
variable {m m' : Memory} {place : Nat} {inside : Expressions}

section BuiltIn

variable (hr : r.grammar = Grammar.builtIn n h f macros)
include hr

/-! ## One affix -/

/-- The built-in notation has no tokens around repeat counts. -/
theorem isA_of_repetition {symbol : Symbol} (hs : symbol ∈ [Symbol.repetitionBegin, .repetitionEnd])
    (t : Token) : r.grammar.isA symbol t = false := by
  have hfree : ∀ symbol ∈ [Symbol.repetitionBegin, .repetitionEnd], symbol ≠ .move ∧
      ∀ b ∈ Notation.defaultTokens, b.1 ≠ symbol := by decide
  exact isA_eq_false hr (hfree symbol hs).1 (hfree symbol hs).2

theorem isOnly_of_repetition {symbol : Symbol}
    (hs : symbol ∈ [Symbol.repetitionBegin, .repetitionEnd]) (t : Token) :
    r.grammar.isOnly symbol t = false := by
  rw [Grammar.isOnly, isA_of_repetition hr hs, Bool.false_and]

/-- A number behind a script is a repeat count. -/
theorem affixStart?_of_number {value : Int} (hkind : t.kind = .number value) :
    r.affixStart? .suffixed t = some .count := by
  simp [affixStart?, hkind, fixity_suffixed hr]

/-- A keyword behind a script inverts or reflects it, or is no affix. -/
theorem affixStart?_of_keyword (hkind : t.kind = .keyword) :
    r.affixStart? .suffixed t =
      if r.grammar.isA .inversionOperator t then some (.single .inversion)
      else if r.grammar.isA .reflectionOperator t then some (.single .reflection)
      else none := by
  have hprefixed : ∀ k : BinaryKind, r.grammar.fixity k.composite ≠ .suffixed := by
    intro k
    rw [fixity_binary hr]
    split <;> decide
  simp [affixStart?, hkind, fixity_suffixed hr, hprefixed, isA_of_repetition hr]

/-- The count of an affix is read of its digits. -/
theorem readsCount_suffix {count : RepeatCount} {digits : String} (start : Nat) (ts : List Token) :
    r.ReadsCount ((Suffix.repetition count digits).token start :: ts)
      ⟨.repetition count, ((Suffix.repetition count digits).token start).span⟩ ts := by
  have hvalue : ((Suffix.repetition count digits).token start).value? = some (count.value : Int) := rfl
  have hcount : RepeatCount.ofInt? (count.value : Int) = some count := dif_pos count.positive
  have hinside : r.countInside ((Suffix.repetition count digits).token start :: ts) =
      (Suffix.repetition count digits).token start :: ts :=
    if_neg (by simp [isOnly_of_repetition hr])
  have hend : r.countEnd ((Suffix.repetition count digits).token start) ts =
      (((Suffix.repetition count digits).token start).stop, ts) :=
    if_neg (by simp [isOnly_of_repetition hr])
  have hreads := ReadsCount.intro hinside hvalue hcount
  rwa [hend] at hreads

/-- An affix is known by its token. -/
theorem affixStart?_suffix (hx : x.Proper r.grammar.terms) (start : Nat) :
    r.affixStart? .suffixed (x.token start) = some x.begins := by
  cases x with
  | inversion operator =>
    have hoperator : r.grammar.isA .inversionOperator ((Suffix.inversion operator).token start) =
        true := by
      have hsymbol := Notation.mem_symbolsFor.mpr (Notation.mem_tokensFor.mp hx)
      rw [Grammar.isA, Grammar.symbols, Suffix.text_token]
      exact List.contains_iff_mem.mpr hsymbol
    rw [affixStart?_of_keyword hr rfl, if_pos hoperator]
    rfl
  | reflection =>
    have hinversion : r.grammar.isA .inversionOperator (Suffix.reflection.token start) = false := by
      rw [Bool.eq_false_iff]
      intro hisA
      have hmem := (mem_defaultTokens_of_isA hr (by decide) hisA).2
      rw [Suffix.text_token] at hmem
      exact absurd hmem (by decide)
    have hreflection : r.grammar.isA .reflectionOperator (Suffix.reflection.token start) = true := by
      rw [isA_iff hr (by decide), Suffix.text_token]
      exact ⟨rfl, List.mem_filter.mpr ⟨by decide, by simp⟩⟩
    rw [affixStart?_of_keyword hr rfl, if_neg (by simp [hinversion]), if_pos hreflection]
    rfl
  | repetition count digits => exact affixStart?_of_number hr rfl

/-- An affix is read as what it does. -/
theorem readsAffix_suffix (hx : x.Proper r.grammar.terms) (start : Nat) (ts : List Token) :
    r.ReadsAffix inside .suffixed (x.token start :: ts) m ⟨x.operation, (x.token start).span⟩ ts m := by
  have hstart := affixStart?_suffix hr hx start
  cases x with
  | inversion operator => exact .single hstart
  | reflection => exact .single hstart
  | repetition count digits => exact .count hstart (readsCount_suffix hr start ts)

/-! ## Rows of affixes -/

/-- Affixes behind a script go around it one after the other, up to the end of the text. -/
theorem readsSuffixes_suffixes (hxs : ∀ x ∈ xs, x.Proper r.grammar.terms)
    (hstart : s.span.start ≤ place) (hstop : s.span.stop ≤ place) :
    r.ReadsSuffixes inside s (Suffix.tokens place xs) m (s.suffixed place xs) [] m := by
  -- The script grows by a node with each affix, and the place moves to where that node stops.
  induction xs generalizing s place with
  | nil => exact .nil (fun _ ht => absurd ht (by simp [Suffix.tokens]))
  | cons x xs ih =>
    obtain ⟨hx, hxs⟩ := List.forall_mem_cons.mp hxs
    have hplace : (place : Int) ≤ x.stop place := by
      unfold Suffix.stop
      omega
    have hothers := ih (s := x.around ⟨s.span.start, x.stop place⟩ s) hxs
      (by simpa using Int.le_trans hstart hplace) (by simp)
    rw [Script.suffixed]
    rw [← Suffix.wrap_eq_around hstart hstop] at hothers ⊢
    exact .cons (readsAffix_suffix hr hx _ _) hothers

/-- What a row of affixes begins with belongs neither to a cycle nor to a repeat count in front of it. -/
theorem ends_of_builtIn (hf : f ≠ .suffixed) (tail : List Token) : r.Ends tail where
  sign hpermutation := absurd ((fixity_permutation_eq hr).symm.trans hpermutation) hf
  countEnd t _ := isOnly_of_repetition hr (by decide) t

/-! ## Scripts with affixes behind -/

section

variable (hf : f ≠ .suffixed) (hexpand : r.ExpandsAnywhere) (length : Nat)
variable (hxs : ∀ x ∈ xs, x.Proper r.grammar.terms)
variable (hstart : s.span.start ≤ place) (hstop : s.span.stop ≤ place)
include hf hexpand hxs hstart hstop

/-- An expression up to the end of the text is one with affixes behind it too. -/
theorem expressions_suffixed (hread : r.expressions ts m s [] m') :
    (r.resized length).expressions (ts ++ Suffix.tokens place xs) m (s.suffixed place xs) [] m' := by
  have hsame : s.relocate id = s := relocate_id_of_expressions hexpand hread
  -- Inside of brackets a token is left, so that expressions there do not see the row.
  have hfollows : (r.within ts.length).Follows id (Suffix.tokens place xs)
      (r.resized length).expressions := fun hread hne =>
    expressions_relocated monotone_id length hexpand hread.2 fun hnil => absurd hnil hne
  cases ReadsExpression.of_reads hread with
  | single hconstruct _ =>
    have hsuffixes : (r.resized length).ReadsSuffixes (r.resized length).expressions (s.relocate id)
        (Suffix.tokens place xs) m' (s.suffixed place xs) [] m' := by
      rw [hsame]
      exact readsSuffixes_suffixes hr hxs hstart hstop
    have hrow := hconstruct.onward length hfollows monotone_id hexpand
      (fun _ => ends_of_builtIn hr hf _) hsuffixes
    rw [relocated_id] at hrow
    exact ReadsExpression.reads (.single hrow (infixOf?_of_builtIn (r := r.resized length) hr _))
  | combined _ hoperator _ =>
    rw [infixOf?_of_builtIn hr] at hoperator
    contradiction

/-- A text that is one script is one script with affixes behind it too. -/
theorem readAll_suffixed (hread : r.readAll ts m = .ok [s] m') :
    (r.resized length).readAll (ts ++ Suffix.tokens place xs) m = .ok [s.suffixed place xs] m' := by
  cases ReadsAll.of_readAll hread with
  | cons hfirst hothers =>
    cases hothers
    have hexpression := expressions_suffixed hr hf hexpand length hxs hstart hstop hfirst
    exact (ReadsAll.cons hexpression .nil).readAll

end

end BuiltIn

end Reading

end CubeLang
