import CubeLang.Grammar.ParseError
import CubeLang.Proofs.Script.Nesting
import CubeLang.Proofs.Token.Continuation

/-!
# Where tokens stand

The offsets of a token say where its text stands: behind what was skipped in front of it, and in front
of what was not yet scanned. So the tokens of a text stand one behind the other, and none of them
reaches beyond the end of the text.
-/

set_option autoImplicit false

namespace CubeLang

/-- Whether the text of a token stands at its offsets in a text that starts at `position`. -/
def Token.StandsIn (t : Token) (position : Nat) (cs : List Char) : Prop :=
  ∃ front back, cs = front ++ (t.text.toList ++ back) ∧ t.start = position + front.length ∧
    t.stop = t.start + t.text.toList.length

namespace Lexicon

variable {lex : Lexicon} {position : Nat} {cs rest close : List Char} {t : Token}

theorem closeLength_le (close cs : List Char) : closeLength close cs ≤ cs.length := by
  by_cases h : close <:+: cs
  · exact closeLength_le_of_infix h
  · have hall := closeLength_of_not_infix h
    exact Nat.le_of_eq hall

/-- Behind the characters that are skipped a token is made of the first characters of the rest. -/
theorem standsIn_of_run {kind : Token.Kind} {word : List Char}
    (here : cs.dropWhile lex.isSkip = word ++ rest)
    (ht : t = .ofChars kind (position + (cs.takeWhile lex.isSkip).length) word) :
    ∃ front, cs = front ++ (t.text.toList ++ rest) ∧ t.start = position + front.length ∧
      t.stop = t.start + t.text.toList.length := by
  subst ht
  refine ⟨cs.takeWhile lex.isSkip, ?_, rfl, ?_⟩
  · rw [Token.ofChars, String.toList_ofList, ← here, List.takeWhile_append_dropWhile]
  · rw [Token.ofChars, String.toList_ofList]

/-- A token that is scanned stands between what was skipped and what is left. -/
theorem standsIn_of_scan (h : lex.scan position cs = .token t rest) :
    ∃ front, cs = front ++ (t.text.toList ++ rest) ∧ t.start = position + front.length ∧
      t.stop = t.start + t.text.toList.length := by
  fun_induction scan lex position cs with
  | case1 | case5 => contradiction
  | case2 position cs start c tail here k found =>
    obtain ⟨rfl, rfl⟩ := Scan.token.inj h
    exact standsIn_of_run (here.trans (List.take_append_drop k _).symm) rfl
  | case3 position cs start c tail here close k found behind k' ih =>
    obtain ⟨front, hcs, hstart, hstop⟩ := ih h
    have hk := (Trie.longest?_bounds found).2
    have hk' : k' ≤ behind.length := closeLength_le close behind
    refine ⟨cs.takeWhile lex.isSkip ++ ((c :: tail).take k ++ (behind.take k' ++ front)), ?_, ?_,
      hstop⟩
    · calc cs = cs.takeWhile lex.isSkip ++ (c :: tail) := by
            rw [← here, List.takeWhile_append_dropWhile]
        _ = cs.takeWhile lex.isSkip ++ ((c :: tail).take k ++ (behind.take k' ++ behind.drop k')) := by
            rw [List.take_append_drop, List.take_append_drop]
        _ = _ := by rw [hcs]; simp only [List.append_assoc]
    · rw [hstart]
      simp only [List.length_append, List.length_take, Nat.min_eq_left hk, Nat.min_eq_left hk']
      omega
  | case4 position cs start c tail here found digit digits behind value hvalue =>
    obtain ⟨rfl, rfl⟩ := Scan.token.inj h
    exact standsIn_of_run (here.trans List.takeWhile_append_dropWhile.symm) rfl
  | case6 position cs start c tail here found digit word =>
    obtain ⟨rfl, rfl⟩ := Scan.token.inj h
    exact standsIn_of_run (here.trans List.takeWhile_append_dropWhile.symm) rfl

/-- The tokens of a text stand in it, one behind the other. -/
theorem standsIn_of_tokensFrom (lex : Lexicon) (position : Nat) (cs : List Char) :
    Span.Ordered position ↑(position + cs.length) ((lex.tokensFrom position cs).1.map Token.span) ∧
      ∀ t ∈ (lex.tokensFrom position cs).1, t.StandsIn position cs := by
  fun_induction tokensFrom lex position cs with
  | case1 | case2 => exact ⟨Int.ofNat_le.mpr (Nat.le_add_right ..), by simp⟩
  | case3 position cs t rest hscan ts ending hrest ih =>
    obtain ⟨front, rfl, hstart, hstop⟩ := standsIn_of_scan hscan
    rw [hrest] at ih
    obtain ⟨hordered, hstands⟩ := ih
    refine ⟨⟨?_, ?_, hordered.widen (Int.le_refl _) ?_⟩, ?_⟩
    · simp only [Token.span]
      omega
    · simp only [Token.span]
      omega
    · simp only [List.length_append]
      omega
    · rw [List.forall_mem_cons]
      refine ⟨⟨front, rest, rfl, hstart, hstop⟩, fun t' ht' => ?_⟩
      obtain ⟨front', back, rfl, hstart', hstop'⟩ := hstands t' ht'
      refine ⟨front ++ (t.text.toList ++ front'), back, by simp only [List.append_assoc], ?_, hstop'⟩
      rw [hstart', hstop, hstart]
      simp only [List.length_append]
      omega

end Lexicon

end CubeLang
