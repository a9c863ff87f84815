import CubeLang.Proofs.Grammar.Derivation
import CubeLang.Proofs.Grammar.GroupedText
import CubeLang.Proofs.Notation.Built
import CubeLang.Proofs.Token.Brackets

/-!
# The yield of a script

In the built-in notation a script can be read off its tree from left to right: which tokens each node
has, and between which others they stand. The tokens of a text that is parsed are the yield of its
script, all of them and in their order, whatever macros there are, if these are no tokens of the
notation. So the brackets of such a text are matched.
-/

set_option autoImplicit false

namespace CubeLang

/-- The tokens of signs. -/
def signTexts : List (String × Symbol) :=
  [("+", .permutationPlus), ("-", .permutationMinus), ("++", .permutationPlusPlus)]

/-- The tokens of faces. -/
def faceTexts : List (String × Symbol) :=
  [("r", .faceR), ("u", .faceU), ("f", .faceF), ("l", .faceL), ("d", .faceD), ("b", .faceB)]

/-- Whether a token is a keyword that stands for a symbol, as a list of texts says. -/
def Token.StandsFor (texts : List (String × Symbol)) (e : Token × Symbol) : Prop :=
  e.1.kind = .keyword ∧ (e.1.text, e.2) ∈ texts

/-- The yield of one part of a cycle, which is added to the parts in front of it: perhaps a sign, one to
three faces, perhaps a number. -/
inductive PartYield (layerCount : Nat) (c c' : PartCycle) : List Token → Prop
  | intro {sign : Option (Token × Symbol)} {faces : List (Token × Symbol)} {number : Option Token}
      {part : Int} (hsign : ∀ e ∈ sign, Token.StandsFor signTexts e)
      (hfaces : ∀ e ∈ faces, Token.StandsFor faceTexts e)
      (hlength : 1 ≤ faces.length ∧ faces.length ≤ 3)
      (hnumber : ∀ t ∈ number, t.value?.isSome = true)
      (hpart : Reading.partNumber layerCount (Reading.kindOfFaces faces.length)
        ((number.bind Token.value?).getD 0) = .ok part)
      (hadd : PartCycle.addItem (Reading.kindOfFaces faces.length) (sign.map Prod.snd)
        (faces.map Prod.snd) part layerCount c = .ok () c') :
      PartYield layerCount c c'
        ((sign.map Prod.fst).toList ++ faces.map Prod.fst ++ number.toList)

/-- The yield of the parts of a cycle in order, with at most one comma behind each. -/
inductive PartsYield (layerCount : Nat) : PartCycle → PartCycle → List Token → Prop
  | nil {c : PartCycle} : PartsYield layerCount c c []
  | part {c c' c'' : PartCycle} {us ts : List Token} (hpart : PartYield layerCount c c' us)
      (h : PartsYield layerCount c' c'' ts) : PartsYield layerCount c c'' (us ++ ts)
  | delimited {c c' c'' : PartCycle} {us ts : List Token} {t : Token}
      (hpart : PartYield layerCount c c' us) (ht : t.Is ",")
      (h : PartsYield layerCount c' c'' ts) : PartsYield layerCount c c'' (us ++ t :: ts)

/-- The twist of a cycle behind whose bracket there is a sign or none. -/
def PartCycle.twistWith (c : PartCycle) (sign : Option Symbol) : Except PartCycle.Fault Nat :=
  match sign, c.kind with
  | some s, some kind => PartCycle.signTwist (some s) kind
  | _, _ => .ok c.sign

/-- The yield of scripts, one after the other. -/
inductive Yield (terms : Notation) (macros : Table String String) : List Script → List Token → Prop
  | nil : Yield terms macros [] []
  | append {scripts scripts' : List Script} {ts ts' : List Token} (h : Yield terms macros scripts ts)
      (h' : Yield terms macros scripts' ts') : Yield terms macros (scripts ++ scripts') (ts ++ ts')
  | move {t : Token} {m : Move} (ht : t.kind = .keyword) (hm : terms.move? t.text = some m) :
      Yield terms macros [.move t.span m] [t]
  | nop {t : Token} (ht : t.Is "·" ∨ t.Is ".") : Yield terms macros [.nop t.span] [t]
  | macroUse {t : Token} {body : Script} (ht : t.kind = .keyword) (hknown : t.text ∈ macros.keys) :
      Yield terms macros [.macroUse t.span t.text body] [t]
  | grouping {t t' : Token} {scripts : List Script} {ts : List Token} {span : Span} (ht : t.Is "(")
      (h : Yield terms macros scripts ts) (ht' : t'.Is ")") :
      Yield terms macros [.grouping span scripts] (t :: ts ++ [t'])
  | commutation {t comma t' : Token} {first second : List Script} {ts ts' : List Token}
      {span span' span'' : Span} (ht : t.Is "[") (h : Yield terms macros first ts)
      (hcomma : comma.Is ",") (h' : Yield terms macros second ts') (ht' : t'.Is "]") :
      Yield terms macros [.commutation span (.sequence span' first) (.sequence span'' second)]
        (t :: ts ++ comma :: ts' ++ [t'])
  | conjugation {t t' : Token} {first : List Script} {second : Script} {ts ts' : List Token}
      {span span' : Span} (ht : t.Is "<") (h : Yield terms macros first ts) (ht' : t'.Is ">")
      (h' : Yield terms macros [second] ts') :
      Yield terms macros [.conjugation span (.sequence span' first) second] (t :: ts ++ t' :: ts')
  | rotation {t t' : Token} {first : List Script} {second : Script} {ts ts' : List Token}
      {span span' : Span} (ht : t.Is "<") (h : Yield terms macros first ts) (ht' : t'.Is ">'")
      (h' : Yield terms macros [second] ts') :
      Yield terms macros [.rotation span (.sequence span' first) second] (t :: ts ++ t' :: ts')
  | inversion {t : Token} {s : Script} {ts : List Token} {span : Span}
      (h : Yield terms macros [s] ts) (ht : t.Is "'" ∨ t.Is "-") :
      Yield terms macros [.inversion span s] (ts ++ [t])
  | reflection {t : Token} {s : Script} {ts : List Token} {span : Span}
      (h : Yield terms macros [s] ts) (ht : t.Is "*") :
      Yield terms macros [.reflection span s] (ts ++ [t])
  | repetition {t : Token} {s : Script} {ts : List Token} {span : Span} {count : RepeatCount}
      (h : Yield terms macros [s] ts) (ht : t.kind = .number count.value) :
      Yield terms macros [.repetition span count s] (ts ++ [t])
  | permutation {t t' : Token} {sign : Option (Token × Symbol)} {c : PartCycle} {twist : Nat}
      {ts : List Token} {span : Span} (ht : t.Is "(")
      (hsign : ∀ e ∈ sign, Token.StandsFor signTexts e)
      (h : PartsYield terms.layerCount {} c ts) (ht' : t'.Is ")")
      (htwist : c.twistWith (sign.map Prod.snd) = .ok twist) :
      Yield terms macros [.permutation span { c with sign := twist }]
        (t :: ((sign.map Prod.fst).toList ++ ts) ++ [t'])

namespace Reading

variable {r : Reading} {n : Nat} {h : 2 ≤ n} {macros : Table String String} {t : Token}
variable {s : Symbol} {c c' : PartCycle} {ts : List Token}
variable (hr : r.grammar = Grammar.builtIn n h .precircumfixed macros)

/-! ## Tokens -/

section

include hr

theorem terms_eq_ofLayerCount : r.grammar.terms = Notation.ofLayerCount n h := by
  rw [terms_eq hr, Grammar.signed_precircumfixed]

theorem layerCount_eq : r.grammar.terms.layerCount = n := by
  rw [terms_eq_ofLayerCount hr]
  rfl

theorem is_of_isA {text : String} (hs : s ≠ .move)
    (htext : ∀ b ∈ Notation.defaultTokens, b.1 = s → b.2 = text) (ht : r.grammar.isA s t = true) :
    t.Is text := by
  obtain ⟨hkind, hmem⟩ := mem_defaultTokens_of_isA hr hs ht
  exact ⟨hkind, htext _ hmem rfl⟩

theorem standsFor_of_signOf? (ht : r.signOf? t = some s) : Token.StandsFor signTexts (t, s) := by
  have hfacts : ∀ s ∈ Symbol.signs, s ≠ .move ∧
      ∀ b ∈ Notation.defaultTokens, b.1 = s → (b.2, s) ∈ signTexts := by decide
  obtain ⟨hmove, htexts⟩ := hfacts s (mem_signs_of_signOf? ht)
  have hisA : r.grammar.isA s t = true := List.contains_iff_mem.mpr (List.mem_of_find?_eq_some ht)
  obtain ⟨hkind, hmem⟩ := mem_defaultTokens_of_isA hr hmove hisA
  exact ⟨hkind, htexts _ hmem rfl⟩

theorem standsFor_of_faceOf? (ht : r.faceOf? t = some s) : Token.StandsFor faceTexts (t, s) := by
  have hfacts : ∀ s ∈ Symbol.faces, s ≠ .move ∧
      ∀ b ∈ Notation.defaultTokens, b.1 = s → (b.2, s) ∈ faceTexts := by decide
  obtain ⟨hmove, htexts⟩ := hfacts s (mem_faces_of_faceOf? ht)
  have hisA : r.grammar.isA s t = true := List.contains_iff_mem.mpr (List.mem_of_find?_eq_some ht)
  obtain ⟨hkind, hmem⟩ := mem_defaultTokens_of_isA hr hmove hisA
  exact ⟨hkind, htexts _ hmem rfl⟩

/-! ## Cycles -/

omit hr in
/-- A sign in some place has a symbol. -/
theorem exists_sign_of_signAt {place : Prop} {o : Option Token} (ho : r.SignAt place o) :
    ∃ sign : Option (Token × Symbol), (∀ e ∈ sign, r.signOf? e.1 = some e.2) ∧
      o = sign.map Prod.fst ∧ o.bind r.signOf? = sign.map Prod.snd := by
  cases o with
  | none => exact ⟨none, by simp, rfl, rfl⟩
  | some t =>
    obtain ⟨s, hs⟩ := Option.isSome_iff_exists.mp (ho t rfl).2
    refine ⟨some (t, s), fun e he => ?_, rfl, hs⟩
    obtain rfl := Option.some.inj he
    exact hs

theorem partYield_of_tokens (hc : r.PartTokens c c' ts) : PartYield n c c' ts := by
  cases hc with
  | @intro front number back faces part hfront hfaces hlength _ hnumber hback hpart hadd =>
    obtain rfl : back = none := by
      rw [Option.eq_none_iff_forall_not_mem]
      intro t ht
      have hplace := (hback t ht).1.1
      rw [fixity_permutation_eq hr] at hplace
      contradiction
    obtain ⟨sign, hsign, rfl, hsymbol⟩ := exists_sign_of_signAt hfront
    rw [layerCount_eq hr] at hpart hadd
    rw [Option.none_or, hsymbol] at hadd
    rw [Option.toList_none, List.append_nil]
    exact .intro (fun e he => standsFor_of_signOf? hr (hsign e he))
      (fun e he => standsFor_of_faceOf? hr (hfaces e he)) hlength hnumber hpart hadd

theorem partsYield_of_tokens {closed : Closed} (hc : r.PartsTokens c ts closed) :
    closed.sign = none ∧ ∃ us t, ts = us ++ [t] ∧ t.Is ")" ∧ PartsYield n c closed.cycle us := by
  induction hc with
  | @close c t hclosing =>
    exact ⟨rfl, [], t, rfl, is_of_isA hr (by decide) (by decide) hclosing, .nil⟩
  | part hpart _ ih =>
    obtain ⟨hsign, us, t, rfl, ht, hus⟩ := ih
    exact ⟨hsign, _, t, (List.append_assoc ..).symm, ht, .part (partYield_of_tokens hr hpart) hus⟩
  | delimited hpart hdelimiter _ ih =>
    obtain ⟨hsign, us, t, rfl, ht, hus⟩ := ih
    have hcomma : Token.Is _ "," := is_of_isA hr (by decide) (by decide) hdelimiter
    exact ⟨hsign, _, t, by simp, ht, .delimited (partYield_of_tokens hr hpart) hcomma hus⟩
  | @signed c c' us t t' _ hsign _ =>
    have hplace := (hsign t rfl).1
    rw [fixity_permutation_eq hr] at hplace
    contradiction

/-- No sign can stand where the built-in notation does not look for it. -/
theorem eq_none_of_signAt {f : Fixity} (hf : f ≠ .precircumfixed) {o : Option Token}
    (ho : r.SignAt (r.grammar.fixity .permutation = f) o) : o = none := by
  rw [Option.eq_none_iff_forall_not_mem]
  intro t ht
  have hplace := (ho t ht).1
  rw [fixity_permutation_eq hr] at hplace
  exact hf hplace.symm

omit hr in
theorem twistWith_of_withSign {span : Span} {sign : Option (Token × Symbol)} {script : Script}
    (hsign : ∀ e ∈ sign, r.signOf? e.1 = some e.2)
    (hscript : r.withSign span c (sign.map Prod.fst) = .ok script) : ∃ span' twist,
      script = .permutation span' { c with sign := twist } ∧
        c.twistWith (sign.map Prod.snd) = .ok twist := by
  obtain ⟨span', twist, rfl, htwist⟩ := eq_permutation_of_withSign hscript
  refine ⟨span', twist, rfl, ?_⟩
  cases sign with
  | none =>
    rcases htwist with ⟨-, rfl⟩ | ⟨t, kind, hnone, -, -⟩
    · rfl
    · contradiction
  | some e =>
    rcases htwist with ⟨hnone, rfl⟩ | ⟨t, kind, hsome, hkind, htwist⟩
    · have hkind : c.kind = none := hnone.resolve_left (Option.some_ne_none _)
      simp [PartCycle.twistWith, hkind]
    · obtain rfl : e.1 = t := Option.some.inj hsome
      rw [hsign e rfl] at htwist
      simpa [PartCycle.twistWith, hkind] using htwist

/-- The yield of a cycle in the built-in notation. -/
theorem yield_of_permutationTokens {script : Script} (hc : r.PermutationTokens ts script) :
    Yield r.grammar.terms macros [script] ts := by
  cases hc with
  | @intro leading opened trailing opening ts closed script hleading hopening hopened hparts htrailing
      hscript =>
    obtain rfl := eq_none_of_signAt hr (by decide) hleading
    obtain rfl := eq_none_of_signAt hr (by decide) htrailing
    obtain ⟨sign, hsign, rfl, -⟩ := exists_sign_of_signAt hopened
    obtain ⟨hnone, us, t, rfl, ht, hus⟩ := partsYield_of_tokens hr hparts
    rw [hnone, Option.none_or, Option.none_or, Option.or_none] at hscript
    obtain ⟨span, twist, rfl, htwist⟩ := twistWith_of_withSign hsign hscript
    have hbegin : opening.Is "(" := is_of_isA hr (by decide) (by decide) hopening
    rw [← layerCount_eq hr] at hus
    have hyield : Yield r.grammar.terms macros [.permutation span { closed.cycle with sign := twist }]
        (opening :: ((sign.map Prod.fst).toList ++ us) ++ [t]) :=
      .permutation hbegin (fun e he => standsFor_of_signOf? hr (hsign e he)) hus ht htwist
    simpa using hyield

/-! ## Statements -/

/-- A repeat count is a number and nothing else. -/
theorem number_of_countTokens {a : Affix} (ha : r.CountTokens ts a) : ∃ t count,
    ts = [t] ∧ t.kind = .number (RepeatCount.value count) ∧ a.operation = .repetition count := by
  cases ha with
  | @intro opening closing number value count hopening hvalue hcount hclosing =>
    have hnone : ∀ {s : Symbol} {o : Option Token}, (∀ t ∈ o, r.grammar.isOnly s t = true) →
        s ≠ .move → (∀ b ∈ Notation.defaultTokens, b.1 ≠ s) → o = none := by
      intro s o ho hs hfree
      rw [Option.eq_none_iff_forall_not_mem]
      intro t ht
      have hisA := (Bool.and_eq_true ..).mp (ho t ht)
      rw [isA_eq_false hr hs hfree] at hisA
      exact Bool.false_ne_true hisA.1
    obtain rfl := hnone hopening (by decide) (by decide)
    obtain rfl := hnone hclosing (by decide) (by decide)
    refine ⟨number, count, rfl, ?_, rfl⟩
    have hpositive : (count.value : Int) = value := by
      unfold RepeatCount.ofInt? at hcount
      split at hcount
      · obtain rfl := Option.some.inj hcount
        exact Int.toNat_of_nonneg (by omega)
      · contradiction
    unfold Token.value? at hvalue
    split at hvalue
    · rename_i hkind
      rw [hkind, Option.some.inj hvalue, hpositive]
    · contradiction

/-- The yield of a script with an affix behind it. -/
theorem yield_of_affixTokens {a : Affix} {script : Script} {ts' : List Token}
    (hs : Yield r.grammar.terms macros [script] ts) (ha : r.AffixTokens .suffixed ts' a) :
    Yield r.grammar.terms macros [a.wrap script] (ts ++ ts') := by
  cases ha with
  | repetition _ hcount =>
    obtain ⟨t, count, rfl, ht, hoperation⟩ := number_of_countTokens hr hcount
    rw [Affix.wrap, hoperation]
    exact .repetition hs ht
  | inversion _ hoperator =>
    have htext : ∀ b ∈ Notation.defaultTokens, b.1 = .inversionOperator → b.2 = "'" ∨ b.2 = "-" := by
      decide
    obtain ⟨hkind, hmem⟩ := mem_defaultTokens_of_isA hr (by decide) hoperator
    exact .inversion hs ((htext _ hmem rfl).imp (And.intro hkind) (And.intro hkind))
  | reflection _ hoperator =>
    exact .reflection hs (is_of_isA hr (by decide) (by decide) hoperator)

/-- No affix without an operator stands in front. -/
theorem not_affixTokens_prefixed {a : Affix} : ¬r.AffixTokens .prefixed ts a := by
  intro ha
  have hplace : ∀ s ∈ [Symbol.repetition, .inversion, .reflection], r.grammar.fixity s ≠ .prefixed := by
    intro s hs
    rw [fixity_suffixed hr hs]
    decide
  cases ha with
  | repetition hprefixed _ => exact hplace _ (by decide) hprefixed
  | inversion hprefixed _ => exact hplace _ (by decide) hprefixed
  | reflection hprefixed _ => exact hplace _ (by decide) hprefixed

/-- The tokens of scripts in the built-in notation are their yield. -/
theorem yield_of_derives {scripts : List Script} (hd : r.Derives ts scripts) :
    Yield r.grammar.terms macros scripts ts := by
  have hplace : ∀ s ∈ [Symbol.inversion, .reflection], r.grammar.fixity s ≠ .circumfixed := by
    intro s hs
    rw [fixity_suffixed hr (List.mem_cons_of_mem _ hs)]
    decide
  induction hd with
  | nil => exact .nil
  | append _ _ ih ih' => exact ih.append ih'
  | move hisMove hm => exact .move (of_decide_eq_true (isKeyword_of_isA hisMove)) hm
  | macroUse hkeyword hknown _ =>
    rw [hr] at hknown
    exact .macroUse (of_decide_eq_true hkeyword) (Table.contains_iff_mem_keys.mp hknown)
  | nop hnop =>
    have htext : ∀ b ∈ Notation.defaultTokens, b.1 = .nop → b.2 = "·" ∨ b.2 = "." := by decide
    obtain ⟨hkind, hmem⟩ := mem_defaultTokens_of_isA hr (by decide) hnop
    exact .nop ((htext _ hmem rfl).imp (And.intro hkind) (And.intro hkind))
  | permutation hcycle => exact yield_of_permutationTokens hr hcycle
  | grouping hopening _ hclosing ih =>
    exact .grouping (is_of_isA hr (by decide) (by decide) hopening) ih
      (is_of_isA hr (by decide) (by decide) hclosing)
  | inversion hcircumfixed => exact absurd hcircumfixed (hplace _ (by decide))
  | reflection hcircumfixed => exact absurd hcircumfixed (hplace _ (by decide))
  | @divided k _ _ _ _ _ _ _ hprecircumfixed hopening _ hdelimiter _ hclosing ih ih' =>
    obtain rfl : k = .commutation := by
      rw [fixity_binary hr] at hprecircumfixed
      split at hprecircumfixed
      · assumption
      · contradiction
    exact .commutation (is_of_isA hr (by decide) (by decide) hopening) ih
      (is_of_isA hr (by decide) (by decide) hdelimiter) ih'
      (is_of_isA hr (by decide) (by decide) hclosing)
  | prefixed ha => exact absurd ha (not_affixTokens_prefixed hr)
  | suffixed _ ha ih => exact yield_of_affixTokens hr ih ha
  | @operatorInFront k _ _ _ _ _ _ hopening _ _ hclosing _ ih ih' =>
    have hbegin := hopening.1
    cases k with
    | conjugation =>
      exact .conjugation (is_of_isA hr (by decide) (by decide) hbegin) ih
        (is_of_isA hr (by decide) (by decide) hclosing) ih'
    | rotation =>
      exact .rotation (is_of_isA hr (by decide) (by decide) hbegin) ih
        (is_of_isA hr (by decide) (by decide) hclosing) ih'
    | commutation =>
      have hfixity := hopening.2.1
      rw [fixity_binary hr, if_pos rfl] at hfixity
      rcases hfixity with hfixity | hfixity
      · contradiction
      · contradiction
  | operatorBehind _ hopening =>
    obtain ⟨k, hsuffixed, -⟩ := hopening.2.2
    rw [fixity_binary hr] at hsuffixed
    split at hsuffixed
    · contradiction
    · contradiction
  | infixed _ hoperator =>
    rw [infixOf?_of_builtIn hr] at hoperator
    contradiction

end

end Reading

/-! ## Brackets -/

namespace Brackets

variable {t : Token} {ts : List Token} {e : Token × Symbol}

theorem balanced_of_is {text : String} (ht : t.Is text) (htext : ∀ p ∈ pairs, text ≠ p.1 ∧ text ≠ p.2) :
    Balanced [t] :=
  balanced_singleton fun _ => ht.2 ▸ htext

theorem balanced_of_standsFor {texts : List (String × Symbol)} (he : Token.StandsFor texts e)
    (htexts : ∀ b ∈ texts, ∀ p ∈ pairs, b.1 ≠ p.1 ∧ b.1 ≠ p.2) : Balanced [e.1] :=
  balanced_singleton fun _ => htexts _ he.2

theorem balanced_of_kind (ht : t.kind ≠ .keyword) : Balanced [t] :=
  balanced_singleton fun hkind => absurd hkind ht

theorem balanced_sign {sign : Option (Token × Symbol)}
    (hsign : ∀ e ∈ sign, Token.StandsFor signTexts e) : Balanced (sign.map Prod.fst).toList := by
  cases sign with
  | none => exact balanced_nil
  | some e => exact balanced_of_standsFor (hsign e rfl) (by decide)

theorem balanced_partYield {layerCount : Nat} {c c' : PartCycle} (h : PartYield layerCount c c' ts) :
    Balanced ts := by
  cases h with
  | @intro sign faces number part hsign hfaces _ hnumber =>
    refine ((balanced_sign hsign).append (balanced_of_forall fun t ht => ?_)).append ?_
    · obtain ⟨e, he, rfl⟩ := List.mem_map.mp ht
      exact balanced_of_standsFor (hfaces e he) (by decide)
    · cases number with
      | none => exact balanced_nil
      | some t =>
        refine balanced_of_kind fun hkind => ?_
        have hvalue := hnumber t rfl
        rw [Token.value?, hkind] at hvalue
        contradiction

theorem balanced_partsYield {layerCount : Nat} {c c' : PartCycle}
    (h : PartsYield layerCount c c' ts) : Balanced ts := by
  induction h with
  | nil => exact balanced_nil
  | part hpart _ ih => exact (balanced_partYield hpart).append ih
  | delimited hpart ht _ ih =>
    exact (balanced_partYield hpart).append ((balanced_of_is ht (by decide)).append ih)

variable {n : Nat} {h : 2 ≤ n} {macros : Table String String}

theorem balanced_move {m : Move} (hm : (Notation.ofLayerCount n h).move? t.text = some m) :
    Balanced [t] := by
  have hcapitals : ∀ p ∈ pairs, ¬Notation.Capital p.1 ∧ ¬Notation.Capital p.2 := by decide
  have hcontains : (⟨Notation.defaultMoves n⟩ : Table String Move).contains t.text = true :=
    Option.isSome_iff_exists.mpr ⟨m, hm⟩
  obtain ⟨move, hmove, htext⟩ := List.mem_map.mp (Table.contains_iff_mem_keys.mp hcontains)
  have hcapital : Notation.Capital t.text := htext ▸ Notation.capital_of_mem_defaultMoves hmove
  refine balanced_singleton fun _ p hp => ⟨?_, ?_⟩
  · rintro heq
    exact (hcapitals p hp).1 (heq ▸ hcapital)
  · rintro heq
    exact (hcapitals p hp).2 (heq ▸ hcapital)

theorem balanced_macro (ht : t.text ∉ (Notation.ofLayerCount n h).tokens) : Balanced [t] := by
  have htokens : ∀ p ∈ pairs, ∀ text ∈ [p.1, p.2], text ∈ Notation.defaultTokens.map Prod.snd := by
    decide
  have hmem : ∀ p ∈ pairs, ∀ text ∈ [p.1, p.2], text ∈ (Notation.ofLayerCount n h).tokens :=
    fun p hp text htext => List.mem_append_left _ (List.mem_eraseDups.mpr (htokens p hp text htext))
  refine balanced_singleton fun _ p hp => ⟨?_, ?_⟩
  · rintro heq
    exact ht (heq ▸ hmem p hp _ List.mem_cons_self)
  · rintro heq
    exact ht (heq ▸ hmem p hp _ (List.mem_cons_of_mem _ List.mem_cons_self))

/-- The yield of scripts is balanced, if no macro is a token of the notation. -/
theorem balanced_yield (hnames : ∀ name ∈ macros.keys, name ∉ (Notation.ofLayerCount n h).tokens)
    {scripts : List Script} (hy : Yield (Notation.ofLayerCount n h) macros scripts ts) :
    Balanced ts := by
  induction hy with
  | nil => exact balanced_nil
  | append _ _ ih ih' => exact ih.append ih'
  | move _ hm => exact balanced_move hm
  | nop ht =>
    rcases ht with ht | ht
    · exact balanced_of_is ht (by decide)
    · exact balanced_of_is ht (by decide)
  | macroUse _ hknown => exact balanced_macro (hnames _ hknown)
  | grouping ht _ ht' ih => exact ih.enclosed ht ht' (by decide)
  | commutation ht _ hcomma _ ht' ih ih' =>
    have hinner := ih.append ((balanced_of_is hcomma (by decide)).append ih')
    have hbalanced := hinner.enclosed ht ht' (by decide)
    simpa using hbalanced
  | conjugation ht _ ht' _ ih ih' =>
    have hbalanced := (ih.enclosed ht ht' (by decide)).append ih'
    simpa using hbalanced
  | rotation ht _ ht' _ ih ih' =>
    have hbalanced := (ih.enclosed ht ht' (by decide)).append ih'
    simpa using hbalanced
  | inversion _ ht ih =>
    rcases ht with ht | ht
    · exact ih.append (balanced_of_is ht (by decide))
    · exact ih.append (balanced_of_is ht (by decide))
  | reflection _ ht ih => exact ih.append (balanced_of_is ht (by decide))
  | repetition _ ht ih => exact ih.append (balanced_of_kind (by simp [ht]))
  | permutation ht hsign hparts ht' _ =>
    exact ((balanced_sign hsign).append (balanced_partsYield hparts)).enclosed ht ht' (by decide)

end Brackets

namespace Grammar

/-- If a text is parsed in the built-in notation, with macros that are no tokens of it, the tokens of the
text up to its end are the yield of its script, and their brackets are matched. -/
theorem parse_yields {layerCount : Int} {terms : Notation} {macros : Table String String} {g : Grammar}
    {text : String} {root : Script} {m m' : Memory} (hterms : Notation.default layerCount = .ok terms)
    (hnames : ∀ name ∈ macros.keys, name ≠ "" ∧ name ∉ terms.tokens)
    (hgrammar : Grammar.ofNotation terms macros = .ok g) (hparse : g.parse text m = .ok root m') :
    ∃ scripts ts, root = .sequence ⟨0, text.toList.length⟩ scripts ∧
      g.lexicon.tokensFrom 0 text.toList = (ts, none) ∧ Yield terms macros scripts ts ∧
      Brackets.Matched ts := by
  have hworded := (Notation.Built.default hterms).worded
  have hending : (g.lexicon.tokensFrom 0 text.toList).2 = none :=
    tokensFrom_ending hworded (fun name hname => (hnames name hname).1) hgrammar 0 text.toList
  have htokens : g.lexicon.tokensFrom 0 text.toList = (g.lexicon.tokens text.toList, none) := by
    rw [← hending]
    rfl
  obtain ⟨n, h, rfl⟩ : ∃ n, ∃ h : 2 ≤ n, terms = Notation.ofLayerCount n h := by
    unfold Notation.default at hterms
    split at hterms
    · exact ⟨_, _, (Except.ok.inj hterms).symm⟩
    · contradiction
  have hbuiltIn : g = builtIn n h .precircumfixed macros := by
    rw [← signed_precircumfixed, ofNotation_builtIn fun name hname => (hnames name hname).1] at hgrammar
    exact (Except.ok.inj hgrammar).symm
  obtain ⟨scripts, hroot, hread⟩ := exists_readAll_of_parse hparse
  have hyield := Reading.yield_of_derives hbuiltIn (Reading.derives_readAll hread)
  rw [Reading.terms_eq_ofLayerCount hbuiltIn] at hyield
  have hbalanced := Brackets.balanced_yield (fun name hname => (hnames name hname).2) hyield
  exact ⟨scripts, _, hroot, htokens, hyield, hbalanced.matched⟩

theorem parse_yields_commutatorThenCycle : ∃ terms g root m' scripts ts,
    Notation.default 2 = .ok terms ∧
    (∀ name ∈ turnMacros.keys, name ≠ "" ∧ name ∉ terms.tokens) ∧
    Grammar.ofNotation terms turnMacros = .ok g ∧
    g.parse "<Turn>[R, U*]2 (+ruf,ulf)-" {} = .ok root m' ∧ root = .sequence ⟨0, 26⟩ scripts ∧
    g.lexicon.tokensFrom 0 "<Turn>[R, U*]2 (+ruf,ulf)-".toList = (ts, none) ∧
    Yield terms turnMacros scripts ts ∧ Brackets.Matched ts := by
  let terms := Notation.signed 2 (Nat.le_refl 2) .precircumfixed
  let g := builtIn 2 (Nat.le_refl 2) .precircumfixed turnMacros
  have hterms : Notation.default 2 = .ok terms := rfl
  have hnames : ∀ name ∈ turnMacros.keys, name ≠ "" ∧ name ∉ terms.tokens := by decide +kernel
  have hgrammar : Grammar.ofNotation terms turnMacros = .ok g :=
    ofNotation_builtIn fun name hname => (hnames name hname).1
  have hread : (outcome (g.parse "<Turn>[R, U*]2 (+ruf,ulf)-" {})).isOk = true := by decide +kernel
  obtain ⟨root, m', hparse⟩ := exists_eq_ok_of_isOk hread
  obtain ⟨scripts, ts, hroot, htokens, hyield, hmatched⟩ := parse_yields hterms hnames hgrammar hparse
  exact ⟨terms, g, root, m', scripts, ts, hterms, hnames, hgrammar, hparse, hroot, htokens, hyield,
    hmatched⟩

end Grammar

end CubeLang
