import CubeLang.Proofs.Token.Progress
import CubeLang.Token.Tokenizer

/-!
# Programs that read tokens

A program reads tokens, pushes back the token that it read last, saves where it is and goes back to
where it was. It need know nothing of offsets: it moves in a fixed list of tokens, in front of which the
end of an empty text stands and behind which the end of the text stands over and over. Where it is, is a
number and whether the token there is to be read once more.
-/

set_option autoImplicit false

namespace CubeLang

open Text.Integer (Decimal)

namespace Tokenizer

/-! ## Calls -/

/-- A call that a program makes while it reads a text; it knows the cursors that it saved by names. -/
inductive Call where
  | next
  | pushBack
  | save (state : String)
  | restore (state : String)

namespace Call

/-- Why a call fails. -/
inductive Fault where
  | noTokenizer
  | noState (state : String)
  | refused (fault : Cursor.Fault)

/-- Looks up the tokenizer of a name. -/
def find (name : String) : EStateM Fault TokenizerPool Tokenizer := fun pool =>
  match pool.get? name with
  | some t => .ok t pool
  | none => .error .noTokenizer pool

/-- Makes a call on the tokenizer of a name, and answers with the tokens that were read. -/
def make (name : String) : Call → EStateM Fault TokenizerPool (List Token)
  | next => do
    let (answer, pool) := (← get).read name (← find name) Cursor.next
    set pool
    match answer with
    | .ok token => return [token]
    | .error fault => throw (.refused fault)
  | pushBack => do
    let t ← find name
    modify fun pool => pool.pushBack name t
    return []
  | save state => do
    let t ← find name
    modify fun pool => pool.save t state
    return []
  | restore state => do
    let t ← find name
    match (← get).saved.get? state with
    | some cursor =>
      modify fun pool => pool.restore name t cursor
      return []
    | none => throw (.noState state)

/-- Makes calls up to the first that fails, and answers with all tokens that were read. -/
def makeAll (name : String) : List Call → EStateM Fault TokenizerPool (List Token)
  | [] => return []
  | call :: calls => do
    let read ← make name call
    return read ++ (← makeAll name calls)

/-- Whether each cursor that some calls go back to was saved by a call before. -/
def SavedBefore (calls : List Call) : Prop :=
  ∀ before state after, calls = before ++ restore state :: after → save state ∈ before

end Call

/-! ## Places in a list of tokens -/

/-- The list in which a program moves: the end of an empty text, the tokens of a text, and the end of
the text over and over. -/
def entry (lex : Lexicon) (text : List Char) : Nat → Token
  | 0 => .endOfText 0
  | i + 1 => (lex.tokens text).getD i (.endOfText text.length)

/-- A place in a list, and whether what stands there is to be read once more. -/
structure Place where
  index : Nat := 0
  again : Bool := false

namespace Place

/-- The place that is reached by reading. -/
def next (p : Place) : Place :=
  if p.again then { p with again := false } else { p with index := p.index + 1 }

/-- The cursor for a place in a list of tokens. -/
def cursor (list : Nat → Token) (p : Place) : Cursor :=
  ⟨(list p.index).stop, p.again, list p.index⟩

end Place

/-- Where a program is in a list, and the places that it saved. -/
structure Walk where
  place : Place := {}
  saved : Table String Place := ∅

namespace Walk

/-- What a call reads in a list, and where the program is behind it. -/
def step (list : Nat → Token) (w : Walk) : Call → List Token × Walk
  | .next => ([list w.place.next.index], { w with place := w.place.next })
  | .pushBack => ([], { w with place := { w.place with again := true } })
  | .save state => ([], { w with saved := w.saved.put state w.place })
  | .restore state => ([], { w with place := (w.saved.get? state).getD w.place })

/-- What some calls read in a list. -/
def read (list : Nat → Token) : Walk → List Call → List Token
  | _, [] => []
  | w, call :: calls => (w.step list call).1 ++ read list (w.step list call).2 calls

/-- What was saved once stays saved. -/
theorem saved_step {list : Nat → Token} {w : Walk} {call : Call} {state : String}
    (h : ∃ p, w.saved.get? state = some p) :
    ∃ p, (w.step list call).2.saved.get? state = some p := by
  cases call with
  | next | pushBack | restore => exact h
  | save state' =>
    simp only [step, Table.get?_put]
    split
    · exact ⟨w.place, rfl⟩
    · exact h

end Walk

/-! ## Reading at a place -/

section

variable {lex : Lexicon} {text : List Char}

theorem entry_succ (lex : Lexicon) (text : List Char) (i : Nat) :
    entry lex text (i + 1) = ((lex.tokens text).drop i).headD (.endOfText text.length) := by
  rw [entry, List.headD_eq_head?_getD, List.head?_drop, List.getD_eq_getElem?_getD]

/-- Behind an entry of the list the tokens of the text go on. -/
theorem tokensFrom_entry (hread : (lex.tokensFrom 0 text).2 = none) (i : Nat) :
    lex.tokensFrom (entry lex text i).stop (text.drop (entry lex text i).stop) =
      ((lex.tokens text).drop i, none) := by
  induction i with
  | zero => exact Prod.ext rfl hread
  | succ i ih =>
    have hnext := Cursor.next_of_tokensFrom (c := Place.cursor (entry lex text) { index := i })
      rfl ih (entry_succ lex text i).symm
    rw [hnext.2, List.tail_drop]

/-- At a place in the list a cursor reads what is to be read there. -/
theorem next_cursor (hread : (lex.tokensFrom 0 text).2 = none) (p : Place) :
    Cursor.next lex text (p.cursor (entry lex text)) =
      .ok (entry lex text p.next.index) (p.next.cursor (entry lex text)) := by
  obtain ⟨i, again⟩ := p
  cases again with
  | true => rfl
  | false =>
    exact (Cursor.next_of_tokensFrom rfl (tokensFrom_entry hread i) (entry_succ lex text i).symm).1

end

/-! ## Programs -/

section

variable {name : String} {lex : Lexicon} {text : List Char} {w : Walk} {pool : TokenizerPool}

/-- The tokenizer of a name reads a text by a lexicon and is where a program is in a list, and so is
each cursor that was saved. -/
structure Follows (name : String) (lex : Lexicon) (text : List Char) (w : Walk)
    (pool : TokenizerPool) : Prop where
  reads : ∃ t, pool.get? name = some t ∧ pool.lexiconOf t = lex ∧ t.text = text ∧
    t.cursor = w.place.cursor (entry lex text)
  saved : ∀ state p, w.saved.get? state = some p →
    pool.saved.get? state = some (p.cursor (entry lex text))

/-- Moving the cursor of the tokenizer keeps all else. -/
theorem Follows.moved {t : Tokenizer} (h : Follows name lex text w pool)
    (hlexicon : pool.lexiconOf t = lex) (htext : t.text = text) (p : Place) :
    Follows name lex text { w with place := p }
      (pool.setTo name { t with cursor := p.cursor (entry lex text) }) where
  reads := ⟨{ t with cursor := p.cursor (entry lex text) },
    by simp [TokenizerPool.get?, TokenizerPool.setTo], hlexicon, htext, rfl⟩
  saved := h.saved

/-- A call moves the tokenizer as it moves the program in the list. -/
theorem Follows.make (hread : (lex.tokensFrom 0 text).2 = none) (h : Follows name lex text w pool)
    {call : Call} (hknown : ∀ state, call = .restore state → ∃ p, w.saved.get? state = some p) :
    ∃ pool', call.make name pool = .ok (w.step (entry lex text) call).1 pool' ∧
      Follows name lex text (w.step (entry lex text) call).2 pool' := by
  obtain ⟨t, hfound, hlexicon, htext, hcursor⟩ := h.reads
  have hget : (get : EStateM Call.Fault TokenizerPool TokenizerPool) pool = .ok pool pool := rfl
  have hfind : Call.find name pool = .ok t pool := by rw [Call.find, hfound]
  cases call with
  | next =>
    have hanswer : pool.read name t Cursor.next = (.ok (entry lex text w.place.next.index),
        pool.setTo name { t with cursor := w.place.next.cursor (entry lex text) }) := by
      unfold TokenizerPool.read EStateM.run
      rw [hlexicon, htext, hcursor, next_cursor hread]
    refine ⟨_, ?_, h.moved hlexicon htext _⟩
    rw [Call.make, bind_of_ok hget, bind_of_ok hfind, hanswer]
    rfl
  | pushBack =>
    refine ⟨_, ?_, h.moved hlexicon htext _⟩
    rw [Call.make, bind_of_ok hfind]
    simp only [TokenizerPool.pushBack, hcursor]
    rfl
  | save state =>
    refine ⟨pool.save t state, ?_, ⟨t, hfound, hlexicon, htext, hcursor⟩, ?_⟩
    · rw [Call.make, bind_of_ok hfind]
      rfl
    · intro state' p hp
      simp only [Walk.step, Table.get?_put] at hp
      simp only [TokenizerPool.save, Table.get?_put]
      split
      · rename_i heq
        rw [if_pos heq] at hp
        rw [← Option.some.inj hp, hcursor]
      · rename_i hne
        rw [if_neg hne] at hp
        exact h.saved state' p hp
  | restore state =>
    obtain ⟨p, hp⟩ := hknown state rfl
    refine ⟨_, ?_, h.moved hlexicon htext _⟩
    rw [Call.make, bind_of_ok hfind, bind_of_ok hget, h.saved state p hp, hp]
    rfl

/-- Calls move the tokenizer as they move the program in the list. -/
theorem Follows.makeAll (hread : (lex.tokensFrom 0 text).2 = none) {calls : List Call}
    (h : Follows name lex text w pool)
    (hsaved : ∀ before state after, calls = before ++ .restore state :: after →
      .save state ∈ before ∨ ∃ p, w.saved.get? state = some p) :
    ∃ pool', Call.makeAll name calls pool = .ok (w.read (entry lex text) calls) pool' := by
  induction calls generalizing w pool with
  | nil => exact ⟨pool, rfl⟩
  | cons call calls ih =>
    have hknown : ∀ state, call = .restore state → ∃ p, w.saved.get? state = some p := by
      rintro state rfl
      exact (hsaved [] state calls rfl).resolve_left List.not_mem_nil
    obtain ⟨pool₁, hcall, hfollows⟩ := h.make hread hknown
    have hothers : ∀ before state after, calls = before ++ .restore state :: after →
        .save state ∈ before ∨ ∃ p, (w.step (entry lex text) call).2.saved.get? state = some p := by
      intro before state after hsplit
      rcases hsaved (call :: before) state after (congrArg (call :: ·) hsplit) with hsave | hold
      · rcases List.mem_cons.mp hsave with rfl | hsave
        · exact Or.inr ⟨w.place, by simp [Walk.step]⟩
        · exact Or.inl hsave
      · exact Or.inr (Walk.saved_step hold)
    obtain ⟨pool₂, hcalls⟩ := ih hfollows hothers
    refine ⟨pool₂, ?_⟩
    rw [Call.makeAll, bind_of_ok hcall, bind_of_ok hcalls]
    rfl

/-- **Reading, pushing back, saving and going back are moves in a list of tokens.** If only decimal
digits make numbers, a program that sets a text and goes back to nothing that it has not saved since
then is refused no call, and reads what stands at the places that it comes to in the list. -/
theorem makeAll_setText {t : Tokenizer}
    (hdigit : ∀ c, (pool.lexiconOf t).isDigit c = true → Decimal c) {calls : List Call}
    (hsaved : Call.SavedBefore calls) (text : List Char) :
    ∃ pool', Call.makeAll name calls (pool.setText name t text) =
      .ok (Walk.read (entry (pool.lexiconOf t) text) {} calls) pool' := by
  have hstart : Follows name (pool.lexiconOf t) text {} (pool.setText name t text) := by
    refine ⟨⟨{ t with text, cursor := {} }, ?_, rfl, rfl, rfl⟩, ?_⟩
    · simp [TokenizerPool.get?, TokenizerPool.setText, TokenizerPool.setTo]
    · intro state p hp
      rw [Table.get?_empty] at hp
      contradiction
  exact hstart.makeAll (Lexicon.ending_eq_none hdigit) fun before state after hsplit =>
    Or.inl (hsaved before state after hsplit)

end

/-- Calls that push back in front of the first token, twice and at the end of the text, and that go back
to a place where a token was pushed back. -/
def wandering : List Call :=
  [.pushBack, .next, .next, .save "one", .pushBack, .pushBack, .next, .next, .next, .next, .pushBack,
    .save "end", .restore "one", .next, .restore "end", .next, .next]

theorem savedBefore_wandering : Call.SavedBefore wandering := by
  intro before state after hsplit
  simp [wandering, List.cons_eq_append_iff] at hsplit
  rcases hsplit with hsplit | hsplit <;> simp_all

/-- A pool with one tokenizer. -/
def reading : TokenizerPool where
  lexicons := [Lexicon.Call.lexicon Cursor.crossing]
  tokenizers := (∅ : Table String Tokenizer).put "reader" { lexicon := 0 }

theorem makeAll_wandering :
    (∀ c, (reading.lexiconOf { lexicon := 0 }).isDigit c = true → Decimal c) ∧
      Call.SavedBefore wandering ∧
      ∃ pool, Call.makeAll "reader" wandering
          (reading.setText "reader" { lexicon := 0 } "a7t+ 12+toma# x".toList) =
        .ok [.endOfText 0, ⟨.keyword, "7t", 1, 3⟩, ⟨.keyword, "7t", 1, 3⟩, ⟨.number 12, "12", 5, 7⟩,
          ⟨.keyword, "toma", 8, 12⟩, .endOfText 15, ⟨.number 12, "12", 5, 7⟩, .endOfText 15,
          .endOfText 15] pool := by
  have hdigit : ∀ c, (reading.lexiconOf { lexicon := 0 }).isDigit c = true → Decimal c :=
    Cursor.decimal_of_isDigit_crossing
  obtain ⟨pool, hcalls⟩ := @makeAll_setText "reader" reading { lexicon := 0 } hdigit wandering
    savedBefore_wandering "a7t+ 12+toma# x".toList
  have hread : Walk.read (entry (reading.lexiconOf { lexicon := 0 }) "a7t+ 12+toma# x".toList) {}
      wandering = [.endOfText 0, ⟨.keyword, "7t", 1, 3⟩, ⟨.keyword, "7t", 1, 3⟩,
        ⟨.number 12, "12", 5, 7⟩, ⟨.keyword, "toma", 8, 12⟩, .endOfText 15,
        ⟨.number 12, "12", 5, 7⟩, .endOfText 15, .endOfText 15] := by
    decide +kernel
  exact ⟨hdigit, savedBefore_wandering, pool, by rw [hcalls, hread]⟩

end Tokenizer

end CubeLang
