import CubeLang.Proofs.Move
import CubeLang.Proofs.Notation.Default

/-!
# The moves of the built-in notation and their tokens

A token of a move says which move it is: the letter of its face parts the label of a group of layers
from the mark of a half turn, and the label says which layers they are. So no token names two moves.
-/

set_option autoImplicit false

namespace CubeLang.Notation

open LayerMask

variable {n : Nat} {g : LayerGroup} {e : String × Move}

/-! ## What labels say -/

/-- The number of a text of digits; without digits it is the one that goes without saying. -/
def numberOr (short : Nat) : List Char → Nat
  | [] => short
  | c :: cs => ((Text.Integer.parse? (c :: cs)).getD 0).toNat

/-- The numbers on both sides of a dash. -/
def rangeOf (cs : List Char) : Nat × Nat :=
  (numberOr 0 (cs.takeWhile (· != '-')), numberOr 0 (cs.dropWhile (· != '-')).tail)

/-- The layers of the group with a label. -/
def layersOfLabel (n : Nat) : List Char → Nat
  | [] => single 0
  | 'C' :: _ => all n
  | 'M' :: cs => middleBlock n (numberOr 1 cs)
  | 'W' :: _ => block 1 (n - 2)
  | 'T' :: cs => block 0 (numberOr 2 cs)
  | 'V' :: cs => block 1 (numberOr 2 cs)
  | 'N' :: cs =>
    if '-' ∈ cs then block ((rangeOf cs).1 - 1) ((rangeOf cs).2 + 1 - (rangeOf cs).1)
    else single (numberOr 2 cs - 1)
  | _ :: cs =>
    complement n <|
      if '-' ∈ cs then block ((rangeOf cs).1 - 1) ((rangeOf cs).2 + 1 - (rangeOf cs).1)
      else block (numberOr 1 cs) (n - 2 * numberOr 1 cs)

theorem numberOr_toString (short k : Nat) : numberOr short (toString k).toList = k := by
  cases hdigits : (toString k).toList with
  | nil => exact absurd hdigits (Text.Integer.toList_toString_ne_nil k)
  | cons c cs =>
    rw [numberOr, ← hdigits, Text.Integer.parse?_toString]
    rfl

theorem dash_notMem_toString (k : Nat) : '-' ∉ (toString k).toList := by
  intro hmem
  have hdigit := Text.Integer.isDigit_of_mem_toString hmem
  contradiction

theorem rangeOf_toString (first last : Nat) :
    rangeOf ((toString first).toList ++ '-' :: (toString last).toList) = (first, last) := by
  have hfirst : ∀ c ∈ (toString first).toList, (c != '-') = true := by
    intro c hc
    exact bne_iff_ne.mpr fun heq => dash_notMem_toString first (heq ▸ hc)
  have htake : ('-' :: (toString last).toList).takeWhile (· != '-') = [] := rfl
  have hdrop : ('-' :: (toString last).toList).dropWhile (· != '-') =
      '-' :: (toString last).toList := rfl
  rw [rangeOf, List.takeWhile_append_of_pos hfirst, List.dropWhile_append_of_pos hfirst,
    htake, hdrop, List.append_nil, List.tail_cons, numberOr_toString, numberOr_toString]

/-- A group with a number has a label that says its letter and its number. -/
theorem label_of_mem_numbered {letter : String} {short k : Nat} {mask : Nat → Nat}
    (h : g ∈ numbered letter short mask k) :
    ∃ cs, g.label.toList = letter.toList ++ cs ∧ numberOr short cs = k ∧ '-' ∉ cs := by
  rcases (of_mem_numbered h).2 with ⟨rfl, hlabel⟩ | hlabel
  · exact ⟨[], by simp [hlabel], rfl, by simp⟩
  · exact ⟨(toString k).toList, by rw [hlabel, String.toList_append], numberOr_toString short k,
      dash_notMem_toString k⟩

/-- The label of a range of layers. -/
theorem label_of_range (letter : String) (r : Nat × Nat) :
    ∃ cs, (letter ++ toString r.1 ++ "-" ++ toString r.2).toList = letter.toList ++ cs ∧
      rangeOf cs = r ∧ '-' ∈ cs := by
  refine ⟨(toString r.1).toList ++ '-' :: (toString r.2).toList, ?_, rangeOf_toString r.1 r.2,
    List.mem_append_right _ List.mem_cons_self⟩
  simp only [String.toList_append, List.append_assoc]
  rfl

/-- The label of a group says which layers are in it. -/
theorem mask_eq_layersOfLabel (h : g ∈ layerGroups n) : g.mask = layersOfLabel n g.label.toList := by
  cases inFamily_of_mem h with
  | face => rfl
  | cube =>
    have hlabel : "C".toList = ['C'] := rfl
    simp only [hlabel, layersOfLabel]
  | mid _ hg | tier _ hg | verge _ hg =>
    obtain ⟨cs, hlabel, hnumber, -⟩ := label_of_mem_numbered hg
    rw [(of_mem_numbered hg).1, hlabel, ← hnumber]
    rfl
  | wide =>
    have hlabel : "W".toList = ['W'] := rfl
    simp only [hlabel, layersOfLabel]
  | layer _ hg =>
    obtain ⟨cs, hlabel, hnumber, hdash⟩ := label_of_mem_numbered hg
    rw [(of_mem_numbered hg).1, hlabel, ← hnumber]
    exact (if_neg hdash).symm
  | @layerRange r _ =>
    obtain ⟨cs, hlabel, hrange, hdash⟩ := label_of_range "N" r
    show _ = layersOfLabel n ("N" ++ toString r.1 ++ "-" ++ toString r.2).toList
    rw [hlabel, ← hrange]
    exact (if_pos hdash).symm
  | slice _ hg =>
    obtain ⟨cs, hlabel, hnumber, hdash⟩ := label_of_mem_numbered hg
    rw [(of_mem_numbered hg).1, hlabel, ← hnumber]
    exact congrArg (complement n) (if_neg hdash).symm
  | @sliceRange r _ =>
    obtain ⟨cs, hlabel, hrange, hdash⟩ := label_of_range "S" r
    show _ = layersOfLabel n ("S" ++ toString r.1 ++ "-" ++ toString r.2).toList
    rw [hlabel, ← hrange]
    exact congrArg (complement n) (if_pos hdash).symm

/-! ## What tokens say -/

/-- Whether a character is none of the letters of faces. -/
def notFace (c : Char) : Bool := !faceLetters.contains c

/-- The move that a token names: the letter of a face parts the label from the mark. -/
def moveOfToken (n : Nat) (token : List Char) : Option Move :=
  (token.dropWhile notFace).head?.map
    (faceMove n (layersOfLabel n (token.takeWhile notFace))
      (if (token.dropWhile notFace).tail.isEmpty then 1 else 2))

/-- No label holds the letter of a face. -/
theorem notFace_of_mem_label (h : g ∈ layerGroups n) {c : Char} (hc : c ∈ g.label.toList) :
    notFace c = true := by
  have hsigns : ∀ c ∈ labelSigns, notFace c = true := List.all_iff_forall_prop.mp (by decide)
  have hfaces : ∀ c ∈ faceLetters, c.isDigit = false := List.all_iff_forall_prop.mp (by decide)
  rcases labelling_label h c hc with hdigit | hsign
  · rw [notFace, Bool.not_eq_true', Bool.eq_false_iff]
    intro hface
    rw [hfaces c (List.contains_iff_mem.mp hface)] at hdigit
    exact Bool.false_ne_true hdigit
  · exact hsigns c hsign

/-- The letter of a face parts the label from the mark. -/
theorem parts_faceToken (h : g ∈ layerGroups n) {face : Char} (hface : face ∈ faceLetters)
    (mark : String) :
    (faceToken g.label face mark).toList.takeWhile notFace = g.label.toList ∧
      (faceToken g.label face mark).toList.dropWhile notFace = face :: mark.toList := by
  have hlabel : ∀ c ∈ g.label.toList, notFace c = true := fun c => notFace_of_mem_label h
  have hstop : ¬notFace face = true := by
    have hfaces : ∀ c ∈ faceLetters, ¬notFace c = true := List.all_iff_forall_prop.mp (by decide)
    exact hfaces face hface
  rw [toList_faceToken, List.takeWhile_append_of_pos hlabel, List.dropWhile_append_of_pos hlabel,
    List.takeWhile_cons_of_neg hstop, List.dropWhile_cons_of_neg hstop, List.append_nil]
  exact ⟨rfl, rfl⟩

/-- A token of a move says which move it is. -/
theorem eq_moveOfToken (h : e ∈ defaultMoves n) : moveOfToken n e.1.toList = some e.2 := by
  obtain ⟨g, hg, m, hm, face, hface, rfl⟩ := mem_defaultMoves_iff.mp h
  obtain ⟨hlabel, hbehind⟩ := parts_faceToken hg hface m.2
  have hangle : (if m.2.toList.isEmpty then 1 else 2) = m.1 := by
    have hmarks : ∀ m ∈ turnMarks, (if m.2.toList.isEmpty then 1 else 2) = m.1 := by decide
    exact hmarks m hm
  rw [moveOfToken, hlabel, hbehind, ← mask_eq_layersOfLabel hg, List.head?_cons, List.tail_cons,
    hangle]
  rfl

/-- No token names two moves. -/
theorem move_unique {token : String} {m m' : Move} (h : (token, m) ∈ defaultMoves n)
    (h' : (token, m') ∈ defaultMoves n) : m = m' :=
  Option.some.inj ((eq_moveOfToken h).symm.trans (eq_moveOfToken h'))

/-! ## Moves that can be written -/

/-- Whether a move or the opposite one is the move of some face, by a quarter or a half turn. -/
def Named (n : Nat) (m : Move) : Prop := ∃ g ∈ layerGroups n, ∃ t ∈ turnMarks,
  ∃ face ∈ faceLetters, m = faceMove n g.mask t.1 face ∨ m.inverse = faceMove n g.mask t.1 face

theorem named_of_mem (h : e ∈ defaultMoves n) : Named n e.2 := by
  obtain ⟨g, hg, t, ht, face, hface, rfl⟩ := mem_defaultMoves_iff.mp h
  exact ⟨g, hg, t, ht, face, hface, Or.inl rfl⟩

variable {m : Move}

theorem Named.inverse (h : Named n m) : Named n m.inverse := by
  obtain ⟨g, hg, t, ht, face, hface, hmove⟩ := h
  refine ⟨g, hg, t, ht, face, hface, ?_⟩
  rw [m.inverse_inverse]
  exact hmove.symm

/-- The face on the other side. -/
def oppositeFace : Char → Char
  | 'R' => 'L'
  | 'U' => 'D'
  | 'F' => 'B'
  | 'L' => 'R'
  | 'D' => 'U'
  | _ => 'F'

/-- Seen in the reflection, a move of a face is the opposite move of the face on the other side. -/
theorem reflected?_faceMove (hn : 0 < n) {mask : Nat} (hmask : mask < 2 ^ n) (angle : Int)
    {face : Char} (hface : face ∈ faceLetters) : (faceMove n mask angle face).reflected? =
      some (faceMove n mask angle (oppositeFace face)).inverse := by
  simp only [faceLetters, List.mem_cons, List.not_mem_nil, or_false] at hface
  rcases hface with rfl | rfl | rfl | rfl | rfl | rfl
  all_goals
    simp [faceMove, oppositeFace, Move.reflected?, Move.inverse, Move.reversedMask?_natCast,
      reverse_reverse hn hmask]

/-- Moves that can be written are so in the reflection too. -/
theorem Named.reflected (hn : 2 ≤ n) (h : Named n m) : ∃ m', m.reflected? = some m' ∧ Named n m' := by
  obtain ⟨g, hg, t, ht, face, hface, hmove⟩ := h
  have hopposite : ∀ face ∈ faceLetters, oppositeFace face ∈ faceLetters :=
    List.all_iff_forall_prop.mp (by decide)
  have hreflected := reflected?_faceMove (by omega) (mask_lt_of_mem_layerGroups hn hg) t.1 hface
  have hnamed : Named n (faceMove n g.mask t.1 (oppositeFace face)) :=
    ⟨g, hg, t, ht, _, hopposite face hface, Or.inl rfl⟩
  rcases hmove with rfl | hmove
  · exact ⟨_, hreflected, hnamed.inverse⟩
  · rw [← hmove, m.reflected?_inverse] at hreflected
    obtain ⟨m', hm', heq⟩ := Option.map_eq_some_iff.mp hreflected
    refine ⟨m', hm', ?_⟩
    rwa [← m'.inverse_inverse, heq, Move.inverse_inverse]

/-- The text of a move: the first token that names it, or the one that names the opposite move with
the mark of an inversion behind it. -/
def moveText (terms : Notation) (m : Move) : String :=
  match terms.moveToken? m with
  | some token => token
  | none => (terms.moveToken? m.inverse).getD "" ++ "'"

section

variable {h : 2 ≤ n} {token : String}

theorem mem_of_moveToken? (htoken : (ofLayerCount n h).moveToken? m = some token) :
    (token, m) ∈ defaultMoves n := by
  obtain ⟨e, he, rfl⟩ := Option.map_eq_some_iff.mp htoken
  obtain rfl : e.2 = m := by simpa using List.find?_some he
  exact List.mem_of_find?_eq_some he

theorem isSome_moveToken? (hmem : (token, m) ∈ defaultMoves n) :
    ((ofLayerCount n h).moveToken? m).isSome = true := by
  rw [moveToken?, Option.isSome_map, List.find?_isSome]
  exact ⟨_, hmem, by simp⟩

/-- A token names the move that it was bound to. -/
theorem move?_of_mem (hmem : (token, m) ∈ defaultMoves n) :
    (ofLayerCount n h).move? token = some m := by
  have hsome : ((defaultMoves n).find? fun e => e.1 = token).isSome = true := by
    rw [List.find?_isSome]
    exact ⟨_, hmem, by simp⟩
  obtain ⟨⟨token', m'⟩, he⟩ := Option.isSome_iff_exists.mp hsome
  obtain rfl : token' = token := by simpa using List.find?_some he
  obtain rfl := move_unique hmem (List.mem_of_find?_eq_some he)
  exact congrArg (Option.map Prod.snd) he

theorem mem_of_move? (hmove : (ofLayerCount n h).move? token = some m) :
    (token, m) ∈ defaultMoves n := by
  obtain ⟨e, he, rfl⟩ := Option.map_eq_some_iff.mp hmove
  obtain rfl : e.1 = token := by simpa using List.find?_some he
  exact List.mem_of_find?_eq_some he

/-- Of a move that can be written and the opposite one, one has a token. -/
theorem Named.isSome_moveToken? (hm : Named n m) :
    ((ofLayerCount n h).moveToken? m).isSome = true ∨
      ((ofLayerCount n h).moveToken? m.inverse).isSome = true := by
  obtain ⟨g, hg, t, ht, face, hface, hmove⟩ := hm
  have hmem : (faceToken g.label face t.2, faceMove n g.mask t.1 face) ∈ defaultMoves n :=
    mem_defaultMoves_iff.mpr ⟨g, hg, t, ht, face, hface, rfl⟩
  rcases hmove with rfl | hmove
  · exact Or.inl (Notation.isSome_moveToken? hmem)
  · exact Or.inr (Notation.isSome_moveToken? (hmove ▸ hmem))

end

end CubeLang.Notation
