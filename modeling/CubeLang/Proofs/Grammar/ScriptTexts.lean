import CubeLang.Proofs.Grammar.ConfinedScripts
import CubeLang.Proofs.Grammar.ExpressionRelocation
import CubeLang.Proofs.Grammar.ScriptPlaces
import CubeLang.Proofs.Notation.Configured
import CubeLang.Proofs.Token.Boundaries

/-!
# The texts of scripts

A script in a list is read of the tokens from the one where it starts to the one where it stops, without
those in front of them or behind. The text between these two places has the same tokens. So it is a
script by itself, and the same one.
-/

set_option autoImplicit false

namespace CubeLang

/-- The text that a span marks in a text. -/
def Span.textIn (s : Span) (text : String) : String :=
  String.ofList ((text.toList.take s.stop.toNat).drop s.start.toNat)

namespace Reading

variable {r : Reading} {ts : List Token} {t : Token} {s : Script} {scripts : List Script}
variable {m m' : Memory}

/-! ## Where scripts start and stop -/

theorem exists_head_of_permutationTokens (h : r.PermutationTokens ts s) :
    ∃ t ts', ts = t :: ts' ∧ s.span.start = t.start := by
  obtain @⟨leading, opened, trailing, opening, us, closed, s, -, -, -, -, -, hsign⟩ := h
  have hstart : s.span.start = (leading.getD opening).start := by
    obtain ⟨-, -, hspan | ⟨t, -, hspan⟩⟩ := span_of_withSign hsign <;> rw [hspan]
  cases leading with
  | none => exact ⟨opening, _, rfl, hstart⟩
  | some t => exact ⟨t, _, rfl, hstart⟩

theorem exists_head_of_affixTokens {place : Fixity} {a : Affix} (h : r.AffixTokens place ts a) :
    ∃ t ts', ts = t :: ts' ∧ a.span.start = t.start := by
  cases h with
  | repetition hplace hcount =>
    obtain @⟨opening, closing, number⟩ := hcount
    cases opening with
    | none => exact ⟨number, _, rfl, rfl⟩
    | some t => exact ⟨t, _, rfl, rfl⟩
  | @inversion t | @reflection t => exact ⟨t, [], rfl, rfl⟩

/-- Whether the first of some scripts starts no later than the first of some tokens. There are none of
both or some of both. -/
inductive StartsBy : List Token → List Script → Prop
  | nil : StartsBy [] []
  | cons {t : Token} {ts : List Token} {s : Script} {scripts : List Script}
      (h : s.span.start ≤ t.start) : StartsBy (t :: ts) (s :: scripts)

theorem StartsBy.singleton (h : StartsBy ts [s]) : ∃ t ts', ts = t :: ts' ∧ s.span.start ≤ t.start := by
  cases h with
  | @cons t ts s scripts hstart => exact ⟨t, ts, rfl, hstart⟩

theorem StartsBy.wrap {a : Affix} (h : s.span.start ≤ t.start ∨ a.span.start ≤ t.start) :
    StartsBy (t :: ts) [a.wrap s] := by
  refine .cons ?_
  rw [Affix.span_wrap]
  exact min_le_iff.mpr h.symm

/-- Scripts start where their tokens do, or in front of that. -/
theorem Derives.startsBy (h : r.Derives ts scripts) : StartsBy ts scripts := by
  induction h with
  | nil => exact .nil
  | append _ _ ih ih' =>
    cases ih with
    | nil => exact ih'
    | cons hstart => exact .cons hstart
  | move | macroUse | nop | grouping | inversion | reflection => exact .cons (Int.le_refl _)
  | permutation h =>
    obtain ⟨t, ts', rfl, hstart⟩ := exists_head_of_permutationTokens h
    exact .cons (Int.le_of_eq hstart)
  | @divided k t => exact .cons (by simp)
  | prefixed ha =>
    obtain ⟨t, ts', rfl, hstart⟩ := exists_head_of_affixTokens ha
    exact .wrap (Or.inr (Int.le_of_eq hstart))
  | operatorInFront => exact .wrap (Or.inr (Int.le_refl _))
  | suffixed _ _ ih | operatorBehind _ _ _ _ _ ih =>
    obtain ⟨t, ts', rfl, hstart⟩ := ih.singleton
    exact .wrap (Or.inl hstart)
  | infixed _ _ _ ih =>
    obtain ⟨t, ts', rfl, hstart⟩ := ih.singleton
    refine .cons ?_
    split <;> exact (Script.span_combine ..).symm ▸ hstart

/-- Every script of a text is read by itself of the tokens from some place up to the one where it
stops. -/
theorem ReadsAll.exists_tokens (h : r.ReadsAll ts m scripts m') (hs : s ∈ scripts) :
    ∃ before front last behind m₁ m₂, ts = before ++ (front ++ last :: behind) ∧
      (last.stop : Int) ≤ s.span.stop ∧ r.expressions (front ++ [last]) m₁ s [] m₂ := by
  induction h with
  | nil => contradiction
  | @cons _ rest _ _ _ s' _ hfirst _ ih =>
    rcases List.mem_cons.mp hs with rfl | hs
    · obtain ⟨front, last, dropped, htokens, hlast, halone⟩ := (r.confines_expressions hfirst).ends
      exact ⟨[], front, last, dropped ++ rest, _, _, htokens, hlast, halone⟩
    · obtain ⟨before, front, last, behind, m₁, m₂, rfl, hlast, halone⟩ := ih hs
      obtain ⟨us, rfl, -⟩ := r.derives_expressions hfirst
      exact ⟨us ++ before, front, last, behind, m₁, m₂, (List.append_assoc ..).symm, hlast, halone⟩

/-- Such a script starts where the first of these tokens does, and stops where the last one does. -/
theorem span_of_expressions {first last : Token} {rest front : List Token} {place place' : Int}
    (hread : r.expressions (first :: rest) m s [] m')
    (hlast : first :: rest = front ++ [last]) (hstop : (last.stop : Int) ≤ s.span.stop)
    (hordered : TokensOrdered place place' (first :: rest)) : s.span = ⟨first.start, last.stop⟩ := by
  obtain ⟨us, htokens, hderives⟩ := r.derives_expressions hread
  obtain rfl : first :: rest = us := htokens.trans (List.append_nil us)
  obtain ⟨t, ts, hcons, hstart⟩ := hderives.startsBy.singleton
  obtain ⟨rfl, -⟩ := List.cons.inj hcons
  have hinside : TokensOrdered first.start last.stop (first :: rest) := by
    have hfront := hordered.fromFirst
    rw [hlast] at hfront ⊢
    exact hfront.toLast
  obtain ⟨hstart', -, hstop'⟩ := (hderives.placed hinside).between (List.mem_singleton_self s)
  have hsame : s.span.start = first.start := Int.le_antisymm hstart hstart'
  have hsame' : s.span.stop = last.stop := Int.le_antisymm hstop' hstop
  exact congr (congrArg Span.mk hsame) hsame'

end Reading

namespace Grammar

variable {g : Grammar} {usable : List String} {text : String} {root c : Script}

/-! ## Without a memory -/

/-- A step that does nothing to the memory and does not look at it. -/
def Memoryless {α : Type} (f : Unit → Reader α) : Prop := ∃ x, f () = Reader.lift x

theorem readerRelation_memoryless : ReaderRelation (fun _ => True) Memoryless where
  done a := ⟨.ok a, rfl⟩
  fail {α} e _ := ⟨.error e, rfl⟩
  andThen := by
    rintro α β x f ⟨a | a, hx⟩ hf
    · refine ⟨.error a, ?_⟩
      show x () >>= f () = _
      rw [hx]
      rfl
    · have hgiven : x () {} = .ok a {} := by
        rw [hx]
        rfl
      obtain ⟨b, hb⟩ := hf a ⟨(), _, _, hgiven⟩
      refine ⟨b, ?_⟩
      show x () >>= f () = _
      rw [hx, ← hb]
      rfl

theorem exists_lift_of_readExpression (g : Grammar) (usable : List String) (length : Nat)
    (ts : List Token) : ∃ x, (g.readingAfresh usable length).readExpression ts = Reader.lift x := by
  have hexpand : ∀ t : Token, Memoryless fun _ => Reader.lift (g.expandAfresh usable t) :=
    fun t => ⟨_, rfl⟩
  exact Reading.related_readExpression (r := g.reading [] length) readerRelation_memoryless
    (fun _ _ => trivial) (fun t _ _ => hexpand t) ts (List.suffix_refl _)

theorem expandsAnywhere_readingAfresh (g : Grammar) (usable : List String) (length : Nat) :
    (g.readingAfresh usable length).ExpandsAnywhere := by
  intro f t m m' body h
  obtain ⟨hexpand, rfl⟩ := Reading.eq_ok_of_lift h
  have hbody := expandAfresh_eq_ok_iff.mp hexpand
  rw [← Token.text_relocate (f := f)] at hbody
  exact Reading.lift_of_ok (expandAfresh_eq_ok_iff.mpr hbody)

/-- If all tokens of a text are one expression of another text, in another place, the text is parsed as
this expression. -/
theorem parseAfresh_of_reads {k length : Nat} {ts : List Token} {m m' : Memory}
    (htokens : (g.lexicon.tokens text.toList).map (Token.relocate (· + k)) = ts)
    (hread : (g.readingAfresh usable length).expressions ts m c [] m') :
    g.parseAfresh usable text =
        .ok (.sequence ⟨0, text.toList.length⟩ [c.relocate (· - k)]) ∧
      (c.relocate (· - k)).relocate (· + k) = c := by
  have hfresh : (g.readingAfresh usable length).expressions ts {} c [] {} := by
    obtain ⟨hlt, hread⟩ := hread
    obtain ⟨x, hx⟩ := exists_lift_of_readExpression g usable length ts
    refine ⟨hlt, ?_⟩
    rw [hx] at hread ⊢
    exact Reading.lift_of_ok (Reading.eq_ok_of_lift hread).1
  have hmoved : relocated (· - k) [] ts = g.lexicon.tokens text.toList := by
    have hsame : Token.relocate (· - k) ∘ Token.relocate (· + k) = id := by
      funext t
      simp [Token.relocate]
    rw [relocated, List.append_nil, ← htokens, List.map_map, hsame, List.map_id]
  have hback : relocated (· + k) [] (g.lexicon.tokens text.toList) = ts := by
    rw [relocated, List.append_nil, htokens]
  have halone := Reading.expressions_relocated (fun _ _ hle => Nat.sub_le_sub_right hle k)
    text.toList.length (g.expandsAnywhere_readingAfresh usable length) hfresh fun _ =>
      Reading.stops_nil _
  rw [hmoved] at halone
  have hall := Reading.ReadsAll.readAll (.cons halone .nil)
  refine ⟨parseAfresh_eq_ok_iff.mpr ⟨_, _, hall, rfl⟩, ?_⟩
  have hagain := Reading.expressions_relocated (fun _ _ hle => Nat.add_le_add_right hle k)
    length (g.expandsAnywhere_readingAfresh usable text.toList.length) halone fun _ =>
      Reading.stops_nil _
  rw [hback] at hagain
  exact hagain.unique hfresh

/-- The text of a script in a text that is parsed is that script. -/
theorem parseAfresh_textIn (h : g.parseAfresh usable text = .ok root) (hc : c ∈ root.children) :
    c.span.Between 0 text.toList.length ∧
      g.parseAfresh usable (c.span.textIn text) = .ok (.sequence ⟨0, c.span.stop - c.span.start⟩
        [c.relocate (· - c.span.start.toNat)]) ∧
      (c.relocate (· - c.span.start.toNat)).relocate (· + c.span.start.toNat) = c := by
  obtain ⟨scripts, m, hread, rfl⟩ := parseAfresh_eq_ok_iff.mp h
  obtain ⟨before, front, last, behind, m₁, m₂, htokens, hstop, halone⟩ :=
    (Reading.ReadsAll.of_readAll hread).exists_tokens hc
  obtain ⟨first, rest, hfirst⟩ : ∃ first rest, front ++ [last] = first :: rest :=
    List.exists_cons_of_ne_nil (by simp)
  have hlast : front ++ last :: behind = first :: (rest ++ behind) := by
    rw [List.append_cons, hfirst, List.cons_append]
  rw [hlast] at htokens
  rw [hfirst] at halone
  have hordered := g.tokensOrdered_tokens text
  have hspan : c.span = ⟨first.start, last.stop⟩ := by
    obtain ⟨_, -, hback⟩ := tokensOrdered_append.mp (htokens ▸ hordered)
    rw [← List.cons_append] at hback
    obtain ⟨_, hown, -⟩ := tokensOrdered_append.mp hback
    exact Reading.span_of_expressions halone hfirst.symm hstop hown
  have hbetween : c.span.Between 0 text.toList.length :=
    ((Reading.derives_readAll hread).placed hordered).between hc
  refine ⟨hbetween, ?_⟩
  have hlength : (c.span.textIn text).toList.length = c.span.stop - c.span.start := by
    unfold Span.Between at hbetween
    simp only [Span.textIn, String.toList_ofList, List.length_drop, List.length_take]
    omega
  have hslice : (g.lexicon.tokens (c.span.textIn text).toList).map
      (Token.relocate (· + c.span.start.toNat)) = first :: rest := by
    rw [hspan, Span.textIn, String.toList_ofList]
    exact g.lexicon.tokens_slice htokens hfirst.symm
  obtain ⟨hparse, hsame⟩ := parseAfresh_of_reads hslice halone
  rw [hlength] at hparse
  exact ⟨hparse, hsame⟩

/-- **The places of scripts are faithful.** Whatever the macros are and whatever was parsed before, a new
parser accepts the text of each script in the list that a text gives, as this script alone, at offsets
that are less by the start of that text. The bodies of macros keep theirs. -/
theorem parse_textIn {n : Nat} {l : Notation} {macros : Table String String} (hl : l.Supplied n)
    (hnames : ∀ name ∈ macros.keys, name ≠ "") :
    ∃ g, Grammar.ofNotation l macros = .ok g ∧
      ∀ (texts : List String) (text : String) (root : Script) (m : Memory),
        g.parse text (g.memoryAfter texts) = .ok root m → ∀ c ∈ root.children,
          c.span.Between 0 text.toList.length ∧
          ∃ child m', g.parse (c.span.textIn text) {} =
              .ok (.sequence ⟨0, c.span.stop - c.span.start⟩ [child]) m' ∧
            child = c.relocate (· - c.span.start.toNat) ∧
            c = child.relocate (· + c.span.start.toNat) := by
  obtain ⟨g, hg⟩ : ∃ g, Grammar.ofNotation l macros = .ok g :=
    ⟨_, ofNotation_of_worded hl.standard.worded hnames⟩
  refine ⟨g, hg, fun texts text root m hparse c hc => ?_⟩
  have hafresh : g.parseAfresh g.macros.keys text = .ok root := by
    obtain ⟨hsound, hidle⟩ := g.sound_memoryAfter texts
    rw [← (parse_of_sound hsound hidle text).2.2, hparse]
    rfl
  obtain ⟨hbetween, halone, hsame⟩ := parseAfresh_textIn hafresh hc
  rw [← outcome_parse] at halone
  obtain ⟨m', hparse'⟩ := exists_of_outcome_eq_ok halone
  exact ⟨hbetween, _, m', hparse', rfl, hsame.symm⟩

/-- Three scripts: a cycle without parts in front of a sign that is no part of it, a commutator behind a
comment, and a move. -/
def threeScripts : String := "()+ // R\n[U, Twice]'2 R"

theorem parse_textIn_threeScripts : ∃ l g root m,
    l.Supplied 3 ∧ (∀ name ∈ nestedMacros.keys, name ≠ "") ∧
    Grammar.ofNotation l nestedMacros = .ok g ∧
    g.parse threeScripts (g.memoryAfter ["Loop"]) = .ok root m ∧
    (root.children.map fun c => c.span.textIn threeScripts) = ["()", "[U, Twice]'2", "R"] ∧
    ∀ c ∈ root.children, ∃ child m', g.parse (c.span.textIn threeScripts) {} =
        .ok (.sequence ⟨0, c.span.stop - c.span.start⟩ [child]) m' ∧
      c = child.relocate (· + c.span.start.toNat) := by
  let l := Notation.signed 3 (by decide) .suffixed
  let g := builtIn 3 (by decide) .suffixed nestedMacros
  have hl : l.Supplied 3 := .inr ⟨_, rfl, Config.toNotation_eq (by decide) .suffixed⟩
  have hnames : ∀ name ∈ nestedMacros.keys, name ≠ "" := by decide
  have hgrammar : Grammar.ofNotation l nestedMacros = .ok g := ofNotation_builtIn hnames
  let parsed := outcome (g.parse threeScripts (g.memoryAfter ["Loop"]))
  obtain ⟨hread, htexts⟩ : parsed.isOk = true ∧
      (parsed.toOption.map fun root => root.children.map fun c => c.span.textIn threeScripts) =
        some ["()", "[U, Twice]'2", "R"] := by
    decide +kernel
  obtain ⟨root, m, hparse⟩ := exists_eq_ok_of_isOk hread
  simp only [parsed, hparse] at htexts
  obtain ⟨g', hg', hgiven⟩ := parse_textIn hl hnames
  obtain rfl : g = g' := Except.ok.inj (hgrammar.symm.trans hg')
  refine ⟨l, g, root, m, hl, hnames, hgrammar, hparse, Option.some.inj htexts, fun c hc => ?_⟩
  obtain ⟨-, child, m', hparse', -, hsame⟩ := hgiven ["Loop"] threeScripts root m hparse c hc
  exact ⟨child, m', hparse', hsame⟩

end Grammar

end CubeLang
