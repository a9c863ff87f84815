import CubeLang.Proofs.Grammar.Lockstep

/-!
# Texts with the same lexemes

A parser sees of a text what its tokens are, and where they stand only for the spans of the script. So
two texts whose tokens have the same kinds and texts, one by one, give the same script up to offsets, or
are refused with the same message.
-/

set_option autoImplicit false

namespace CubeLang

/-- A script without its places. The bodies of macros keep theirs, which are places in another text. -/
def Script.unplaced (s : Script) : Script := s.relocate fun _ => 0

/-- Sequences of the same scripts in different places are the same one. -/
theorem Script.unplaced_sequence {scripts scripts' : List Script} (span span' : Span)
    (h : scripts.map unplaced = scripts'.map unplaced) :
    (sequence span scripts).unplaced = (sequence span' scripts').unplaced := by
  have hmap : ∀ scripts : List Script,
      relocateAll (fun _ => 0) scripts = scripts.map unplaced := relocateAll_eq_map _
  rw [unplaced, unplaced, relocate, relocate, hmap, hmap, h]
  rfl

/-- Two texts are parsed alike: as the same script up to offsets, or with the same message. -/
inductive ParsedAlike : Except ParseError Script → Except ParseError Script → Prop
  | ok {s s' : Script} (h : s.unplaced = s'.unplaced) : ParsedAlike (.ok s) (.ok s')
  | error {e e' : ParseError} (h : e.message = e'.message) : ParsedAlike (.error e) (.error e')

/-- A text that is parsed like one that is accepted is accepted, as the same script up to offsets. -/
theorem ParsedAlike.exists_ok {x : Except ParseError Script} {s : Script}
    (h : ParsedAlike (.ok s) x) : ∃ s', x = .ok s' ∧ s'.unplaced = s.unplaced := by
  cases h with
  | ok h => exact ⟨_, rfl, h.symm⟩

/-- Tokens with the same lexemes are the same ones in different places. -/
theorem relocate_eq_of_lexeme_eq {ts ts' : List Token}
    (h : ts.map Token.lexeme = ts'.map Token.lexeme) :
    relocated (fun _ => 0) [] ts = relocated (fun _ => 0) [] ts' := by
  have herased : ∀ ts : List Token, relocated (fun _ => 0) [] ts =
      (ts.map Token.lexeme).map fun l => ⟨l.1, l.2, 0, 0⟩ := by
    intro ts
    rw [relocated, List.append_nil, List.map_map]
    rfl
  rw [herased, herased, h]

namespace Grammar

variable {f : Nat → Nat} (g : Grammar)

/-- Wherever a macro is used, its body is the same, and so is what is wrong with it. -/
theorem lockstep_expansion (available : List String) (t : Token) :
    Lockstep f (fun s s' => s' = s) (g.expansion available t)
      (g.expansion available (t.relocate f)) := by
  intro m
  unfold expansion
  rw [Token.text_relocate]
  split
  · split
    · exact ⟨.ok rfl, rfl⟩
    · split
      · exact ⟨.ofToken _ t, rfl⟩
      · exact ⟨.ok rfl, rfl⟩
  · exact ⟨.ofToken _ t, rfl⟩

variable {g} {text text' : String}

/-- **Texts whose tokens have the same lexemes are parsed alike**, whatever was parsed before. -/
theorem parse_alike (hlexemes : (g.lexicon.tokens text.toList).map Token.lexeme =
      (g.lexicon.tokens text'.toList).map Token.lexeme) (m : Memory) :
    ParsedAlike (outcome (g.parse text m)) (outcome (g.parse text' m)) := by
  -- Both texts are read in lockstep with their common tokens, all put at the offset zero.
  have hlockstep : ∀ text : String,
      Lockstep (fun _ => 0) (fun scripts scripts' => scripts' = scripts.map Script.unplaced)
        ((g.reading g.macros.keys text.toList.length).readAll (g.lexicon.tokens text.toList))
        ((g.reading g.macros.keys 0).readAll
          (relocated (fun _ => 0) [] (g.lexicon.tokens text.toList))) :=
    fun text => Reading.lockstep_readAll (g.reading g.macros.keys text.toList.length)
      (fun _ _ _ => Nat.le_refl 0) (lockstep_expansion g g.macros.keys) _
  have hread := (hlockstep text).eq_or_eq m
  have hread' := (hlockstep text').eq_or_eq m
  rw [← relocate_eq_of_lexeme_eq hlexemes] at hread'
  rw [parse, parse, parseWith_eq, parseWith_eq]
  obtain ⟨scripts, _, m₁, hread, hmoved, rfl⟩ | ⟨e, m₁, hread, hmoved⟩ := hread
  · obtain ⟨scripts', _, m₂, hread', hmoved', rfl⟩ | ⟨e', m₂, hread', hmoved'⟩ := hread'
    · rw [hread, hread']
      obtain ⟨hscripts, -⟩ := EStateM.Result.ok.inj (hmoved.symm.trans hmoved')
      exact .ok (Script.unplaced_sequence _ _ hscripts)
    · rw [hmoved] at hmoved'
      contradiction
  · obtain ⟨scripts', _, m₂, hread', hmoved', rfl⟩ | ⟨e', m₂, hread', hmoved'⟩ := hread'
    · rw [hmoved] at hmoved'
      contradiction
    · rw [hread, hread']
      obtain ⟨he, -⟩ := EStateM.Result.error.inj (hmoved.symm.trans hmoved')
      have hmessage : (e.relocate fun _ => 0).message = (e'.relocate fun _ => 0).message :=
        congrArg ParseError.message he
      exact .error hmessage

/-- With the lexemes of a text that is accepted, another text is accepted too, as the same script up to
offsets. -/
theorem exists_parse_of_lexemes {root : Script} {m m' : Memory} (hparse : g.parse text m = .ok root m')
    (hlexemes : (g.lexicon.tokens text'.toList).map Token.lexeme =
      (g.lexicon.tokens text.toList).map Token.lexeme) :
    ∃ root' m'', g.parse text' m = .ok root' m'' ∧ root'.unplaced = root.unplaced := by
  have halike := parse_alike hlexemes.symm m
  rw [hparse] at halike
  obtain ⟨root', hroot, hsame⟩ := halike.exists_ok
  obtain ⟨m'', hread⟩ := exists_of_outcome_eq_ok hroot
  exact ⟨root', m'', hread, hsame⟩

end Grammar

end CubeLang
