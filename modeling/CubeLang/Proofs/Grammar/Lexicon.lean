import CubeLang.Grammar.Basic
import CubeLang.Proofs.Control
import CubeLang.Proofs.Token.Spelling

/-!
# The lexicon of a grammar

The tokens of a notation and the names of macros become keywords, and the openings of comments are
added behind them. No text is empty, so that nothing is refused, and the trie has an entry for these
texts only.
-/

set_option autoImplicit false

namespace CubeLang

namespace Trie

variable {t : Trie} {v : List Char} {entries : List (Entry × List Char)}

/-- The trie with some texts added, one after the other. -/
def addAll (entries : List (Entry × List Char)) (t : Trie) : Trie :=
  entries.foldl (fun t e => t.insert e.1 e.2) t

theorem addAll_append (es es' : List (Entry × List Char)) (t : Trie) :
    addAll (es ++ es') t = addAll es' (addAll es t) := List.foldl_append

theorem lookup?_addAll_of_not_mem (h : ∀ e, (e, v) ∉ entries) :
    (addAll entries t).lookup? v = t.lookup? v := by
  induction entries generalizing t with
  | nil => rfl
  | cons e es ih =>
    have hne : v ≠ e.2 := by
      rintro rfl
      exact h e.1 List.mem_cons_self
    have hes : ∀ e, (e, v) ∉ es := fun e he => h e (List.mem_cons_of_mem _ he)
    have hstep : addAll (e :: es) t = addAll es (t.insert e.1 e.2) := rfl
    rw [hstep, ih hes, lookup?_insert, if_neg hne]

/-- What the trie has was added or was there before. -/
theorem mem_of_lookup?_addAll {e : Entry} (h : (addAll entries t).lookup? v = some e) :
    (e, v) ∈ entries ∨ t.lookup? v = some e := by
  induction entries generalizing t with
  | nil => exact Or.inr h
  | cons new es ih =>
    have hstep : addAll (new :: es) t = addAll es (t.insert new.1 new.2) := rfl
    rw [hstep] at h
    rcases ih h with hmem | hlookup
    · exact Or.inl (List.mem_cons_of_mem _ hmem)
    · rw [lookup?_insert] at hlookup
      split at hlookup
      · rename_i hv
        subst hv
        obtain rfl := Option.some.inj hlookup
        unfold Entry.merge
        split
        · rename_i hold
          exact Or.inr hold
        · exact Or.inl List.mem_cons_self
      · exact Or.inr hlookup

theorem lookup?_addAll_keyword (hmem : (.keyword, v) ∈ entries)
    (honly : ∀ e, (e, v) ∈ entries → e = .keyword)
    (ht : ∀ e, t.lookup? v = some e → e = .keyword) :
    (addAll entries t).lookup? v = some .keyword := by
  have hmerge : ∀ t : Trie, (∀ e, t.lookup? v = some e → e = .keyword) →
      Entry.merge (t.lookup? v) .keyword = .keyword := by
    intro t ht
    cases hlookup : t.lookup? v with
    | none => rfl
    | some e =>
      rw [ht e hlookup]
      rfl
  induction entries generalizing t with
  | nil => contradiction
  | cons e es ih =>
    have hstep : addAll (e :: es) t = addAll es (t.insert e.1 e.2) := rfl
    have honly' : ∀ e, (e, v) ∈ es → e = .keyword := fun e he =>
      honly e (List.mem_cons_of_mem _ he)
    have hkeyword : e.2 = v → e.1 = .keyword := by
      rintro rfl
      exact honly e.1 List.mem_cons_self
    have ht' : ∀ e', (t.insert e.1 e.2).lookup? v = some e' → e' = .keyword := by
      intro e' he'
      rw [lookup?_insert] at he'
      split at he'
      · rename_i hv
        rw [← hv, hkeyword hv.symm, hmerge t ht] at he'
        exact (Option.some.inj he').symm
      · exact ht e' he'
    rw [hstep]
    by_cases hes : (.keyword, v) ∈ es
    · exact ih hes honly' ht'
    · have hnone : ∀ e, (e, v) ∉ es := by
        intro e he
        obtain rfl := honly' e he
        exact hes he
      obtain rfl : e = (.keyword, v) := by
        rcases List.mem_cons.mp hmem with heq | hmem
        · exact heq.symm
        · exact absurd hmem hes
      rw [lookup?_addAll_of_not_mem hnone, lookup?_insert, if_pos rfl, hmerge t ht]

end Trie

namespace Lexicon

variable {lex : Lexicon}

theorem add_run {e : Trie.Entry} {text : List Char} (h : text ≠ []) :
    add e text lex = .ok () { lex with trie := lex.trie.insert e text } := by
  have hempty : text.isEmpty = false := by simpa using h
  simp only [add, hempty]
  rfl

theorem addKeywords_run {texts : List (List Char)} (h : ∀ text ∈ texts, text ≠ []) :
    addKeywords texts lex = .ok ()
      { lex with trie := Trie.addAll (texts.map fun text => (.keyword, text)) lex.trie } := by
  induction texts generalizing lex with
  | nil => rfl
  | cons text texts ih =>
    have hadd : addKeyword text lex = .ok () { lex with trie := lex.trie.insert .keyword text } :=
      add_run (h text List.mem_cons_self)
    rw [addKeywords, bind_of_ok hadd, ih fun text ht => h text (List.mem_cons_of_mem _ ht)]
    rfl

theorem addComments_run {openings : List String} {close : List Char}
    (h : ∀ opening ∈ openings, opening ≠ "") :
    (forIn openings PUnit.unit fun opening _ => do
        addComment opening.toList close
        pure (ForInStep.yield PUnit.unit) : Edit) lex = .ok ⟨⟩
      { lex with trie := Trie.addAll (openings.map fun o => (.comment close, o.toList)) lex.trie }
    := by
  induction openings generalizing lex with
  | nil => rfl
  | cons opening openings ih =>
    have hadd : addComment opening.toList close lex =
        .ok () { lex with trie := lex.trie.insert (.comment close) opening.toList } :=
      add_run (by simpa using h opening List.mem_cons_self)
    rw [forIn_cons_of_ok (fun o : String => addComment o.toList close) hadd,
      ih fun opening ho => h opening (List.mem_cons_of_mem _ ho)]
    rfl

end Lexicon

namespace Grammar

/-- The texts that make the trie of a grammar, in the order in which they are added. -/
def entries (n : Notation) (macros : Table String String) : List (Trie.Entry × List Char) :=
  n.tokens.map (fun token => (.keyword, token.toList)) ++
    macros.keys.map (fun name => (.keyword, name.toList)) ++
    (match n.token? .blockCommentEnd with
      | some close =>
        (n.tokensFor .blockCommentBegin).map fun o => (.comment close.toList, o.toList)
      | none => []) ++
    (n.tokensFor .lineCommentBegin).map fun o => (.comment ['\n'], o.toList)

/-- The lexicon of a notation without empty tokens is made of its entries. -/
theorem lexiconOf_run {n : Notation} {macros : Table String String} {lex : Lexicon}
    (htokens : ∀ token ∈ n.tokens, token ≠ "") (hmacros : ∀ name ∈ macros.keys, name ≠ "")
    (hblock : ∀ o ∈ n.tokensFor .blockCommentBegin, o ≠ "")
    (hline : ∀ o ∈ n.tokensFor .lineCommentBegin, o ≠ "") :
    lexiconOf n macros lex = .ok ()
      { lex with trie := Trie.addAll (entries n macros) lex.trie } := by
  have htexts : ∀ {names : List String}, (∀ name ∈ names, name ≠ "") →
      ∀ text ∈ names.map String.toList, text ≠ [] := by
    intro names h text htext
    obtain ⟨name, hname, rfl⟩ := List.mem_map.mp htext
    simpa using h name hname
  unfold lexiconOf entries
  rw [bind_of_ok (Lexicon.addKeywords_run (htexts htokens)),
    bind_of_ok (Lexicon.addKeywords_run (htexts hmacros))]
  cases n.token? .blockCommentEnd with
  | none =>
    simp only
    rw [bind_of_ok (Lexicon.addComments_run hline)]
    simp only [Trie.addAll_append, List.map_map, List.append_nil]
    rfl
  | some close =>
    simp only
    rw [bind_of_ok (Lexicon.addComments_run hblock), bind_of_ok (Lexicon.addComments_run hline)]
    simp only [Trie.addAll_append, List.map_map]
    rfl

end Grammar

end CubeLang
