import CubeLang.Proofs.Cube.PartName
import CubeLang.Proofs.Grammar.Signed

/-!
# Spelling cycles of parts

The text of a cycle of parts spells its brackets, faces, numbers and signs, so that a sign is never
taken for another one and a number never runs into the next.
-/

set_option autoImplicit false

namespace CubeLang

open Arrangement

/-- The signs of cycles stand in front of the parts or behind them, but inside the brackets, or in
front of the brackets. -/
def Fixity.Leads (f : Fixity) : Prop := f ∈ [.precircumfixed, .prefixed, .postcircumfixed]

theorem Fixity.Leads.cases {f : Fixity} (hf : f.Leads) :
    f = .precircumfixed ∨ f = .prefixed ∨ f = .postcircumfixed := by
  simpa [Leads] using hf

theorem Fixity.Leads.ne_suffixed {f : Fixity} (hf : f.Leads) : f ≠ .suffixed := by
  rcases hf.cases with rfl | rfl | rfl <;> decide

/-- The signs of cycles have a place: one of these, or behind the brackets. -/
def Fixity.HasPlace (f : Fixity) : Prop := f.Leads ∨ f = .suffixed

theorem Fixity.HasPlace.cases {f : Fixity} (hf : f.HasPlace) :
    f = .precircumfixed ∨ f = .prefixed ∨ f = .postcircumfixed ∨ f = .suffixed := by
  rcases hf with hf | rfl
  · rcases hf.cases with rfl | rfl | rfl <;> simp
  · simp

theorem CycleTokens.ofNotation_signed {n : Nat} (h : 2 ≤ n) (f : Fixity) :
    CycleTokens.ofNotation (Notation.signed n h f) = { fixity := f } := by
  have htoken : ∀ s, s ≠ .move → (Notation.signed n h f).token? s =
      (((Notation.signedTokens f).filter fun b => b.1 = s).map Prod.snd).head? := by
    intro s hs
    rw [Notation.token?, Notation.tokensFor_signed h hs]
  unfold ofNotation Symbol.faces
  simp only [Notation.supports_permutation, Notation.fixity_permutation, if_true,
    List.zipWith_cons_cons, List.zipWith_nil_left]
  rw [htoken .faceR (by decide), htoken .faceU (by decide), htoken .faceF (by decide),
    htoken .faceL (by decide), htoken .faceD (by decide), htoken .faceB (by decide),
    htoken .permutationPlus (by decide), htoken .permutationPlusPlus (by decide),
    htoken .permutationMinus (by decide), htoken .permutationBegin (by decide),
    htoken .permutationEnd (by decide), htoken .permutationDelimiter (by decide)]
  cases f <;> rfl

namespace PartCycle

variable {n : Nat} {h : 2 ≤ n} {f : Fixity} {kind : PartKind} {tail : List Char}

/-! ## Lexemes -/

/-- The lexemes of a sign. -/
def markLexemes : Option Symbol → List Lexeme
  | some .permutationPlus => [.keyword "+"]
  | some .permutationPlusPlus => [.keyword "++"]
  | some .permutationMinus => [.keyword "-"]
  | _ => []

def faceLexeme (face : Face) : Lexeme := .keyword face.letter

/-- The lexemes of the number of a round. -/
def roundLexemes (n : Nat) : PartKind → Nat → List Lexeme
  | .corner, _ => []
  | .edge, k | .side, k =>
    if n % 2 = 0 then [.number (k + 1)] else if k = 0 then [] else [.number k]

/-- The sign of a part of its own, where it stands in front of the faces. -/
def frontMark (f : Fixity) (kind : PartKind) (i : Item) : Option Symbol :=
  if f = .suffixed then none else ownMark kind i

/-- The sign of a part of its own, where it stands behind the faces. -/
def backMark (f : Fixity) (kind : PartKind) (i : Item) : Option Symbol :=
  if f = .suffixed then ownMark kind i else none

def itemLexemes (n : Nat) (f : Fixity) (kind : PartKind) (i : Item) : List Lexeme :=
  markLexemes (frontMark f kind i) ++ ((faces kind i).map faceLexeme ++
    (markLexemes (backMark f kind i) ++ roundLexemes n kind (round kind i)))

/-- The lexemes of parts with delimiters between them. -/
def bodyLexemes (n : Nat) (f : Fixity) (kind : PartKind) : List Item → List Lexeme
  | [] => []
  | [i] => itemLexemes n f kind i
  | i :: j :: rest =>
    itemLexemes n f kind i ++ ([.keyword ","] ++ bodyLexemes n f kind (j :: rest))

theorem bodyLexemes_cons (n : Nat) (f : Fixity) (kind : PartKind) (i : Item) (items : List Item) :
    ∃ more, bodyLexemes n f kind (i :: items) = itemLexemes n f kind i ++ more := by
  cases items with
  | nil => exact ⟨[], (List.append_nil _).symm⟩
  | cons j items => exact ⟨_, rfl⟩

/-- The sign of a cycle at one of the places where it may stand. -/
def markAt (place f : Fixity) (kind : PartKind) (p : PartCycle) : Option Symbol :=
  if f = place then mark kind p.sign else none

theorem mem_signs_of_markAt {place : Fixity} {p : PartCycle} :
    ∀ s ∈ p.markAt place f kind, s ∈ Symbol.signs := by
  unfold markAt
  split
  · exact mem_signs_of_mark
  · intro s hs
    contradiction

/-- The sign stands at one of the places and at no other. -/
theorem markAt_or (hf : f.HasPlace) (p : PartCycle) : (p.markAt .suffixed f kind).or
    ((p.markAt .postcircumfixed f kind).or
      ((p.markAt .precircumfixed f kind).or (p.markAt .prefixed f kind))) = mark kind p.sign := by
  rcases hf.cases with rfl | rfl | rfl | rfl
  all_goals simp [markAt]

/-- The lexemes of a cycle of parts behind its opening bracket. -/
def innerLexemes (n : Nat) (f : Fixity) (kind : PartKind) (p : PartCycle) : List Lexeme :=
  markLexemes (p.markAt .precircumfixed f kind) ++ (bodyLexemes n f kind p.items ++
    (markLexemes (p.markAt .postcircumfixed f kind) ++
      ([.keyword ")"] ++ markLexemes (p.markAt .suffixed f kind))))

def lexemes (n : Nat) (f : Fixity) (kind : PartKind) (p : PartCycle) : List Lexeme :=
  markLexemes (p.markAt .prefixed f kind) ++ ([.keyword "("] ++ p.innerLexemes n f kind)

/-! ## Spelling -/

theorem spells_mark (s : Option Symbol) (htail : ∀ c ∈ tail.head?, c ≠ '+') :
    (Grammar.signed n h f).lexicon.Spells (markText { fixity := f } s).toList (markLexemes s) tail
    := by
  unfold markLexemes
  split
  · exact Grammar.spells_plus htail
  · exact @Grammar.spells_plainToken n h f "++" (by decide) tail
  · exact @Grammar.spells_plainToken n h f "-" (by decide) tail
  · have hempty : markText { fixity := f } s = "" := by
      unfold markText
      split
      all_goals simp_all
    rw [hempty]
    exact Lexicon.Spells.nil _ _

def faceChars (faces : List Face) : List Char := faces.flatMap fun face => face.letter.toList

/-- The characters of the number of a round. -/
def roundChars (n : Nat) : PartKind → Nat → List Char
  | .corner, _ => []
  | .edge, k | .side, k => (roundText n k).toList

theorem toList_join_faces (faces : List Face) :
    (String.join (faces.map ({ fixity := f } : CycleTokens).face)).toList = faceChars faces := by
  have hface : ({ fixity := f } : CycleTokens).face = Face.letter := by
    funext face
    cases face <;> rfl
  rw [String.toList_join, hface, List.flatMap_map]
  rfl

/-- The characters of a part: its faces with its sign in front of them or behind them, and its
number. -/
def itemChars (n : Nat) (f : Fixity) (kind : PartKind) (i : Item) : List Char :=
  (markText { fixity := f } (frontMark f kind i)).toList ++ (faceChars (faces kind i) ++
    ((markText { fixity := f } (backMark f kind i)).toList ++ roundChars n kind (round kind i)))

theorem toList_itemText (hf : f.HasPlace) (i : Item) :
    (itemText n { fixity := f } kind i).toList = itemChars n f kind i := by
  cases kind with
  | corner =>
    have hname : (Cube.cornerName { fixity := f } i.location i.orientation).toList =
        faceChars (faces .corner i) := toList_join_faces _
    rw [itemText, hname]
    simp [itemChars, frontMark, backMark, ownMark, markText, roundChars]
  | edge =>
    have hname : (Cube.edgeName n { fixity := f } i.location i.orientation).toList =
        faceChars (faces .edge i) ++ (roundText n (i.location / 12)).toList := by
      rw [Cube.edgeName, String.toList_append, toList_join_faces]
      rfl
    rw [itemText, hname]
    simp [itemChars, frontMark, backMark, ownMark, markText, roundChars, round]
  | side =>
    have hface : (({ fixity := f } : CycleTokens).face (.ofIndex i.location)).toList =
        faceChars (faces .side i) := by
      rw [← toList_join_faces (f := f)]
      simp [faces]
    rcases hf.cases with rfl | rfl | rfl | rfl
    all_goals
      simp [itemText, Cube.sideName, itemChars, frontMark, backMark, ownMark, sideMark_eq, hface,
        markText, roundChars, round]

theorem spells_faces (faces : List Face) (tail : List Char) :
    (Grammar.signed n h f).lexicon.Spells (faceChars faces) (faces.map faceLexeme) tail := by
  induction faces with
  | nil => exact Lexicon.Spells.nil _ _
  | cons face faces ih =>
    have hmem : face.letter ∈ Grammar.plainTokens := by
      cases face <;> decide
    exact (Grammar.spells_plainToken hmem _).append ih

theorem spells_round (kind : PartKind) (k : Nat) (htail : ∀ c ∈ tail.head?, c.isDigit = false) :
    (Grammar.signed n h f).lexicon.Spells (roundChars n kind k) (roundLexemes n kind k) tail := by
  have hround : (Grammar.signed n h f).lexicon.Spells (roundText n k).toList
      (if n % 2 = 0 then [.number (k + 1)] else if k = 0 then [] else [.number k]) tail := by
    unfold roundText
    split
    · exact Grammar.spells_number (k + 1) htail
    · split
      · exact Lexicon.Spells.nil _ _
      · exact Grammar.spells_number k htail
  cases kind with
  | corner => exact Lexicon.Spells.nil _ _
  | edge => exact hround
  | side => exact hround

theorem head_faceChars {faces : List Face} (hne : faces ≠ []) (cs : List Char) :
    ∀ c ∈ (faceChars faces ++ cs).head?, c ≠ '+' := by
  cases faces with
  | nil => contradiction
  | cons face faces =>
    intro c hc
    cases face
    all_goals
      obtain rfl := Option.some.inj hc
      decide

theorem isDigit_of_mem_roundChars {k : Nat} {c : Char} (hc : c ∈ roundChars n kind k) :
    c.isDigit = true := by
  have hround : c ∈ (roundText n k).toList → c.isDigit = true := by
    unfold roundText
    split
    · exact Text.Integer.isDigit_of_mem_toString
    · split
      · intro hc
        contradiction
      · exact Text.Integer.isDigit_of_mem_toString
  cases kind with
  | corner => contradiction
  | edge => exact hround hc
  | side => exact hround hc

theorem head_roundChars (k : Nat) (htail : ∀ c ∈ tail.head?, c ≠ '+') :
    ∀ c ∈ (roundChars n kind k ++ tail).head?, c ≠ '+' := by
  cases hchars : roundChars n kind k with
  | nil => exact htail
  | cons d ds =>
    rintro c hc rfl
    obtain rfl := Option.some.inj hc
    have hdigit := @isDigit_of_mem_roundChars n kind k '+' (hchars ▸ List.mem_cons_self)
    exact absurd hdigit (by decide)

/-- What may stand behind a part: no digit, which would go on a number, and behind a sign nothing
that would go on the sign. -/
def EndsPart (f : Fixity) (tail : List Char) : Prop :=
  ∀ c ∈ tail.head?, c.isDigit = false ∧ (f = .suffixed → c ≠ '+')

theorem spells_item (hf : f.HasPlace) {i : Item} (hne : faces kind i ≠ []) (htail : EndsPart f tail) :
    (Grammar.signed n h f).lexicon.Spells (itemText n { fixity := f } kind i).toList
      (itemLexemes n f kind i) tail := by
  rw [toList_itemText hf]
  have hround := @spells_round n h f tail kind (round kind i) fun c hc => (htail c hc).1
  -- A sign behind the faces runs up to the number or, without one, to what follows the part.
  have hback : (Grammar.signed n h f).lexicon.Spells
      (markText { fixity := f } (backMark f kind i)).toList (markLexemes (backMark f kind i))
      (roundChars n kind (round kind i) ++ tail) := by
    by_cases hsuffixed : f = .suffixed
    · exact spells_mark _ (head_roundChars _ fun c hc => (htail c hc).2 hsuffixed)
    · rw [backMark, if_neg hsuffixed]
      exact Lexicon.Spells.nil _ _
  have hfront : (Grammar.signed n h f).lexicon.Spells
      (markText { fixity := f } (frontMark f kind i)).toList (markLexemes (frontMark f kind i))
      (faceChars (faces kind i) ++ ((markText { fixity := f } (backMark f kind i)).toList ++
        roundChars n kind (round kind i)) ++ tail) := by
    rw [List.append_assoc]
    exact spells_mark _ (head_faceChars hne _)
  exact hfront.append ((spells_faces _ _).append (hback.append hround))

theorem spells_body (hf : f.HasPlace) {items : List Item} (hne : ∀ i ∈ items, faces kind i ≠ [])
    (htail : EndsPart f tail) :
    (Grammar.signed n h f).lexicon.Spells
      (",".intercalate (items.map (itemText n { fixity := f } kind))).toList
      (bodyLexemes n f kind items) tail := by
  induction items with
  | nil => exact Lexicon.Spells.nil _ _
  | cons i items ih =>
    have hi := hne i List.mem_cons_self
    cases items with
    | nil =>
      rw [List.map_singleton, String.intercalate_singleton]
      exact spells_item hf hi htail
    | cons j items =>
      have hrest := ih fun i hmem => hne i (List.mem_cons_of_mem _ hmem)
      rw [List.map_cons, List.map_cons, String.intercalate_cons_cons, String.toList_append,
        String.toList_append, List.append_assoc, ← List.map_cons]
      have hcomma := @Grammar.spells_plainToken n h f "," (by decide)
      have hnext : EndsPart f (",".toList ++ (",".intercalate
          ((j :: items).map (itemText n { fixity := f } kind))).toList ++ tail) := by
        intro c hc
        obtain rfl := Option.some.inj hc
        exact ⟨by decide, fun _ => by decide⟩
      exact (spells_item hf hi hnext).append ((hcomma _).append hrest)

/-! ## Cycles -/

/-- The characters of some parts with delimiters between them. -/
def bodyChars (n : Nat) (f : Fixity) (kind : PartKind) (items : List Item) : List Char :=
  (",".intercalate (items.map (itemText n { fixity := f } kind))).toList

/-- The text of a cycle begins with a face, since the first part has no sign of its own. -/
theorem Plain.head_bodyChars {p : PartCycle} (hp : p.Plain n kind) (hf : f.HasPlace)
    (cs : List Char) : ∀ c ∈ (bodyChars n f kind p.items ++ cs).head?, c ≠ '+' := by
  have hne := hp.ne_nil
  have hlt := hp.location_lt
  have hmark := hp.ownMark_head
  cases hitems : p.items with
  | nil => exact absurd hitems hne
  | cons i items =>
    rw [hitems] at hlt hmark
    obtain ⟨more, hmore⟩ : ∃ more, bodyChars n f kind (i :: items) =
        (itemText n { fixity := f } kind i).toList ++ more := by
      unfold bodyChars
      cases items with
      | nil => exact ⟨[], by simp⟩
      | cons j items =>
        rw [List.map_cons, List.map_cons, String.intercalate_cons_cons, String.append_assoc,
          String.toList_append]
        exact ⟨_, rfl⟩
    have hfront : frontMark f kind i = none := by
      rw [frontMark, hmark i rfl, ite_self]
    rw [hmore, toList_itemText hf, itemChars, hfront, List.append_assoc, List.append_assoc,
      List.append_assoc]
    exact head_faceChars (faces_ne_nil (hlt i List.mem_cons_self)) _

/-- Behind the parts of a cycle stands its sign or the closing bracket. -/
theorem endsPart_markText (p : PartCycle) (cs : List Char) :
    EndsPart f ((markText { fixity := f } (p.markAt .postcircumfixed f kind)).toList ++ ')' :: cs) := by
  by_cases hpost : f = .postcircumfixed
  · subst hpost
    intro c hc
    refine ⟨?_, fun hsuffixed => Fixity.noConfusion hsuffixed⟩
    unfold markText at hc
    split at hc
    all_goals
      simp only [String.reduceToList, List.cons_append, List.nil_append, List.head?_cons,
        Option.mem_def, Option.some.injEq] at hc
      obtain rfl := hc
      decide
  · rw [markAt, if_neg hpost]
    intro c hc
    obtain rfl := Option.some.inj hc
    exact ⟨by decide, fun _ => by decide⟩

/-- A cycle of parts is written as its brackets, its parts and its sign at one of four places. -/
theorem toList_text (hf : f.HasPlace) (p : PartCycle) :
    let marked (place : Fixity) : List Char :=
      (markText { fixity := f } (p.markAt place f kind)).toList
    (p.text n { fixity := f } kind).toList = marked .prefixed ++ ("(".toList ++
      (marked .precircumfixed ++ (bodyChars n f kind p.items ++
        (marked .postcircumfixed ++ (")".toList ++ marked .suffixed))))) := by
  rcases hf.cases with rfl | rfl | rfl | rfl
  all_goals
    simp only [text, CycleTokens.cycle, String.toList_append, List.append_assoc]
    rfl

/-- The text of a cycle of parts spells its lexemes, if nothing follows that would go on its sign. -/
theorem Plain.spells {p : PartCycle} (hp : p.Plain n kind) (hf : f.HasPlace)
    (htail : ∀ c ∈ tail.head?, c ≠ '+') :
    (Grammar.signed n h f).lexicon.Spells (p.text n { fixity := f } kind).toList
      (p.lexemes n f kind) tail := by
  have hopening := @Grammar.spells_plainToken n h f "(" (by decide)
  have hclosing := @Grammar.spells_plainToken n h f ")" (by decide)
  have hnext : ∀ (ch : Char) (cs : List Char), ch ≠ '+' → ∀ c ∈ (ch :: cs).head?, c ≠ '+' := by
    intro ch cs hch c hc
    obtain rfl := Option.some.inj hc
    exact hch
  have hbehind : (Grammar.signed n h f).lexicon.Spells
      (bodyChars n f kind p.items ++ ((markText { fixity := f }
        (p.markAt .postcircumfixed f kind)).toList ++ (")".toList ++
          (markText { fixity := f } (p.markAt .suffixed f kind)).toList)))
      (bodyLexemes n f kind p.items ++ (markLexemes (p.markAt .postcircumfixed f kind) ++
        ([.keyword ")"] ++ markLexemes (p.markAt .suffixed f kind)))) tail := by
    have hfaces : ∀ i ∈ p.items, faces kind i ≠ [] :=
      fun i hi => faces_ne_nil (hp.location_lt i hi)
    refine (spells_body hf hfaces ?_).append ((spells_mark _ (hnext ')' _ (by decide))).append
      ((hclosing _).append (spells_mark _ htail)))
    rw [List.append_assoc]
    exact endsPart_markText p _
  have hinner : ∀ c ∈ (bodyChars n f kind p.items ++ ((markText { fixity := f }
      (p.markAt .postcircumfixed f kind)).toList ++ (")".toList ++
        (markText { fixity := f } (p.markAt .suffixed f kind)).toList)) ++ tail).head?,
      c ≠ '+' := by
    rw [List.append_assoc]
    exact hp.head_bodyChars hf _
  rw [toList_text hf]
  exact (spells_mark _ (hnext '(' _ (by decide))).append
    ((hopening _).append ((spells_mark _ hinner).append hbehind))

end PartCycle

end CubeLang
