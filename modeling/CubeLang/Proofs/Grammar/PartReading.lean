import CubeLang.Proofs.Grammar.Meaning
import CubeLang.Proofs.Grammar.PartPieces
import Mathlib.Tactic.IntervalCases

/-!
# Reading parts

The tokens of a part are read as the part: its sign, its faces and its number. Where signs stand
behind, a part is looked for its number first and for its sign then, so that it may have one of
them only.
-/

set_option autoImplicit false

namespace CubeLang

namespace Reading

variable {r : Reading} {ts rest : List Token}
variable {f : Fixity} {n : Nat} {kind : PartKind} {cycle cycle' : PartCycle}

theorem signsLead_of_leads (hf : f.Leads) : signsLead f = true := by
  rcases hf.cases with rfl | rfl | rfl <;> rfl

/-- A part has not both a sign behind its faces and a number behind the sign. -/
def Readable (n : Nat) (f : Fixity) (kind : PartKind) (i : PartCycle.Item) : Prop :=
  f = .suffixed →
    PartCycle.ownMark kind i = none ∨ PartCycle.roundLexemes n kind (PartCycle.round kind i) = []

theorem backMark_or (f : Fixity) (kind : PartKind) (i : PartCycle.Item) :
    (PartCycle.backMark f kind i).or (PartCycle.frontMark f kind i) =
      PartCycle.ownMark kind i := by
  unfold PartCycle.backMark PartCycle.frontMark
  split
  · exact Option.or_none
  · rfl

theorem mem_signs_of_frontMark {i : PartCycle.Item} :
    ∀ s ∈ PartCycle.frontMark f kind i, s ∈ Symbol.signs := by
  unfold PartCycle.frontMark
  split
  · intro s hs
    contradiction
  · exact PartCycle.mem_signs_of_ownMark

theorem mem_signs_of_backMark {i : PartCycle.Item} :
    ∀ s ∈ PartCycle.backMark f kind i, s ∈ Symbol.signs := by
  unfold PartCycle.backMark
  split
  · exact PartCycle.mem_signs_of_ownMark
  · intro s hs
    contradiction

/-- Of the tokens behind the faces of a part, those of its number may be taken to stand first. -/
theorem exists_number_mark {i : PartCycle.Item} (hreadable : Readable n f kind i)
    (hts : ts.map Token.lexeme = PartCycle.markLexemes (PartCycle.backMark f kind i) ++
      PartCycle.roundLexemes n kind (PartCycle.round kind i)) :
    ∃ numbered backs, ts = numbered ++ backs ∧
      numbered.map Token.lexeme = PartCycle.roundLexemes n kind (PartCycle.round kind i) ∧
      backs.map Token.lexeme = PartCycle.markLexemes (PartCycle.backMark f kind i) := by
  have hempty : PartCycle.backMark f kind i = none ∨
      PartCycle.roundLexemes n kind (PartCycle.round kind i) = [] := by
    unfold PartCycle.backMark
    split
    · exact hreadable ‹_›
    · exact Or.inl rfl
  rcases hempty with hnone | hnil
  · rw [hnone] at hts ⊢
    exact ⟨ts, [], (List.append_nil ts).symm, hts, rfl⟩
  · rw [hnil, List.append_nil] at hts
    rw [hnil]
    exact ⟨[], ts, rfl, rfl, hts⟩

/-- The number of the first round in the text. -/
def firstNumber (n : Nat) : Int := if n % 2 = 0 then 1 else 0

/-- The number that stands for a round in the text. -/
def textNumber (n : Nat) : PartKind → Nat → Int
  | .corner, _ => 0
  | .edge, k | .side, k => firstNumber n + k

/-- There are as many numbers for edge parts as there are rounds of them. -/
theorem edgeNumbers_eq (hn : 3 ≤ n) (hn' : n ≤ 7) :
    edgeNumbers n = (firstNumber n, firstNumber n + (n - 2 : Nat) - 1) := by
  interval_cases n <;> rfl

theorem sideNumbers_eq (hn : 3 ≤ n) (hn' : n ≤ 7) :
    sideNumbers n = (firstNumber n, firstNumber n + ((n - 2) * (n - 2) : Nat) - 1) := by
  interval_cases n <;> rfl

/-- The number of a part in the text is read as the number of its round. -/
theorem partNumber_round {i : PartCycle.Item} (hn : n ≤ 7) (hlt : i.location < kind.count n) :
    partNumber n kind (textNumber n kind (PartCycle.round kind i)) =
      .ok (PartCycle.round kind i : Nat) := by
  cases kind with
  | corner => rfl
  | edge =>
    have hround : PartCycle.round .edge i < n - 2 := Nat.div_lt_of_lt_mul hlt
    unfold partNumber textNumber
    simp only [edgeNumbers_eq (by omega) hn]
    rw [if_neg]
    · simp
    · simp only [Bool.or_eq_true, decide_eq_true_eq]
      omega
  | side =>
    have hround : PartCycle.round .side i < (n - 2) * (n - 2) := Nat.div_lt_of_lt_mul hlt
    have hn3 : 3 ≤ n := by
      by_contra hn3
      rw [Nat.sub_eq_zero_of_le (by omega)] at hround
      contradiction
    unfold partNumber textNumber
    simp only [sideNumbers_eq hn3 hn]
    rw [if_neg]
    · simp
    · simp only [Bool.or_eq_true, decide_eq_true_eq]
      omega

theorem bind_signOf?_of_map {sign : Option Token} {mark : Option Symbol}
    (h : sign.map r.signOf? = mark.map some) : sign.bind r.signOf? = mark := by
  cases sign with
  | none =>
    cases mark with
    | none => rfl
    | some s => contradiction
  | some t =>
    cases mark with
    | none => contradiction
    | some s => exact Option.some.inj h

section Signed

variable {h : 2 ≤ n} (hr : r.grammar = Grammar.signed n h f)
include hr

theorem takeFaces_eq {faces : List Face} {k : Nat}
    (hts : ts.map Token.lexeme = faces.map PartCycle.faceLexeme)
    (hk : faces.length = k ∨ faces.length < k ∧ r.faceOf? (r.peek rest) = none) :
    ∃ taken, r.takeFaces k (ts ++ rest) = (taken, rest) ∧
      taken.map Prod.snd = faces.map Face.symbol := by
  induction faces generalizing ts k with
  | nil =>
    obtain rfl := List.map_eq_nil_iff.mp hts
    refine ⟨[], ?_, rfl⟩
    rcases hk with rfl | ⟨hlt, hface⟩
    · rfl
    · obtain ⟨k, rfl⟩ := Nat.exists_eq_succ_of_ne_zero (Nat.ne_of_gt hlt)
      cases rest with
      | nil => rfl
      | cons t rest =>
        rw [List.nil_append, takeFaces]
        have hface' : r.faceOf? t = none := hface
        rw [hface']
  | cons face faces ih =>
    obtain ⟨t, ts, rfl, ht, hts⟩ := List.map_eq_cons_iff.mp hts
    obtain ⟨k, rfl⟩ : ∃ k', k = k' + 1 := by
      rw [List.length_cons] at hk
      exact ⟨k - 1, by omega⟩
    rw [List.length_cons, Nat.add_right_cancel_iff, Nat.add_lt_add_iff_right] at hk
    obtain ⟨taken, htaken, hsymbols⟩ := ih hts hk
    have hface : r.faceOf? t = some face.symbol := by
      rw [(means_face hr ht).faceOf?_eq, if_pos]
      cases face <;> rfl
    refine ⟨(t, face.symbol) :: taken, ?_, by rw [List.map_cons, List.map_cons, hsymbols]⟩
    rw [List.cons_append, takeFaces, hface]
    simp only [htaken]

theorem takeSign_mark {mark : Option Symbol} (hmark : ∀ s ∈ mark, s ∈ Symbol.signs)
    (hts : ts.map Token.lexeme = PartCycle.markLexemes mark)
    (hrest : r.signOf? (r.peek rest) = none) :
    ∃ lead, r.takeSign (ts ++ rest) = (lead, rest) ∧ lead.map r.signOf? = mark.map some := by
  cases mark with
  | none =>
    obtain rfl := List.map_eq_nil_iff.mp hts
    refine ⟨none, ?_, rfl⟩
    cases rest with
    | nil => rfl
    | cons t rest =>
      have hnone : r.signOf? t = none := hrest
      rw [List.nil_append, takeSign, hnone]
      rfl
  | some s =>
    have hs := hmark s rfl
    obtain ⟨t, rfl, hmeans⟩ := means_mark hr hs hts
    have hsign := hmeans.signOf?_of_mem hs
    refine ⟨some t, ?_, congrArg some hsign⟩
    rw [List.singleton_append, takeSign, hsign]
    rfl

end Signed

theorem takeNumber_eq {k : Nat} (hts : ts.map Token.lexeme = PartCycle.roundLexemes n kind k)
    (hrest : (r.peek rest).value? = none) :
    r.takeNumber (ts ++ rest) = (textNumber n kind k, rest) := by
  have hnone : r.takeNumber rest = (0, rest) := by
    rw [takeNumber, hrest]
  have hnumber : ∀ m, ts.map Token.lexeme = [.number m] →
      r.takeNumber (ts ++ rest) = ((m : Int), rest) := by
    intro m hts
    obtain ⟨t, rfl, ht⟩ := List.map_eq_singleton_iff.mp hts
    have hkind : t.kind = .number m := (Prod.mk.inj ht).1
    have hvalue : t.value? = some (Nat.cast m) := by
      rw [Token.value?, hkind]
    have hvalue : (r.peek (t :: rest)).value? = some (Nat.cast m) := hvalue
    rw [List.singleton_append, takeNumber, hvalue]
    rfl
  have hround : ts.map Token.lexeme =
      (if n % 2 = 0 then [.number (k + 1)] else if k = 0 then [] else [.number k]) →
      r.takeNumber (ts ++ rest) = (firstNumber n + k, rest) := by
    intro hts
    unfold firstNumber
    split at hts
    · rename_i heven
      rw [hnumber _ hts, if_pos heven, Int.natCast_add, Int.add_comm]
      rfl
    · rename_i hodd
      rw [if_neg hodd, Int.zero_add]
      split at hts
      · rename_i hzero
        obtain rfl := List.map_eq_nil_iff.mp hts
        rw [hzero]
        exact hnone
      · exact hnumber _ hts
  cases kind with
  | corner =>
    obtain rfl := List.map_eq_nil_iff.mp hts
    exact hnone
  | edge => exact hround hts
  | side => exact hround hts

theorem three_le_of_lt_count {x : Nat} (hkind : kind ≠ .corner) (hlt : x < kind.count n) :
    3 ≤ n := by
  by_contra hn
  have hzero : n - 2 = 0 := by omega
  cases kind with
  | corner => contradiction
  | edge => simp [PartKind.count, hzero] at hlt
  | side => simp [PartKind.count, hzero] at hlt

theorem number_of_mem_roundLexemes {k : Nat} {l : Lexeme}
    (hl : l ∈ PartCycle.roundLexemes n kind k) : ∃ m, l = .number m := by
  have hround : l ∈ (if n % 2 = 0 then [Lexeme.number (k + 1)]
      else if k = 0 then [] else [.number k]) → ∃ m, l = .number m := by
    intro hl
    split at hl
    · exact ⟨_, List.mem_singleton.mp hl⟩
    · split at hl
      · contradiction
      · exact ⟨_, List.mem_singleton.mp hl⟩
  cases kind with
  | corner => contradiction
  | edge => exact hround hl
  | side => exact hround hl

theorem head_faces {h : 2 ≤ n} (hr : r.grammar = Grammar.signed n h f) {faces : List Face}
    (hne : faces ≠ []) (hts : ts.map Token.lexeme = faces.map PartCycle.faceLexeme) :
    ∃ t ts' face, ts = t :: ts' ∧ r.Means t (Face.symbol face) := by
  cases faces with
  | nil => contradiction
  | cons face faces =>
    obtain ⟨t, ts, rfl, ht, -⟩ := List.map_eq_cons_iff.mp hts
    exact ⟨t, ts, face, rfl, means_face hr ht⟩

theorem signOf?_of_face {t : Token} {face : Face} (h : r.Means t face.symbol) :
    r.signOf? t = none := by
  rw [h.signOf?_eq]
  cases face <;> rfl

/-- The number of a round is no face. -/
theorem faceOf?_peek_round {k : Nat} (hts : ts.map Token.lexeme = PartCycle.roundLexemes n kind k)
    (hface : r.faceOf? (r.peek rest) = none) : r.faceOf? (r.peek (ts ++ rest)) = none := by
  cases ts with
  | nil => exact hface
  | cons t ts =>
    have hmem : t.lexeme ∈ (t :: ts).map Token.lexeme := List.mem_cons_self
    rw [hts] at hmem
    obtain ⟨m, hm⟩ := number_of_mem_roundLexemes hmem
    have hkind : t.kind = .number m := (Prod.mk.inj hm).1
    have hkeyword : t.kind ≠ .keyword := by
      rw [hkind]
      exact Token.Kind.noConfusion
    exact (meaningless_of_kind hkeyword).faceOf?_eq

theorem kindOfFaces_faceCount (kind : PartKind) :
    kindOfFaces (PartCycle.faceCount kind) = kind := by
  cases kind <;> rfl

theorem faceCount_ne_zero (kind : PartKind) : PartCycle.faceCount kind ≠ 0 := by
  cases kind <;> decide

theorem faceCount_eq_or_lt (kind : PartKind) :
    PartCycle.faceCount kind = 3 ∨ PartCycle.faceCount kind < 3 := by
  cases kind <;> decide

/-- A cube without an inner layer has corner parts only. -/
theorem three_le_or_faceCount {x : Nat} (hlt : x < kind.count n) :
    3 ≤ n ∨ 3 ≤ PartCycle.faceCount kind := by
  cases kind with
  | corner => exact Or.inr (Nat.le_refl 3)
  | edge => exact Or.inl (three_le_of_lt_count (by decide) hlt)
  | side => exact Or.inl (three_le_of_lt_count (by decide) hlt)

/-- A sign is no face and no number. -/
theorem peek_backs {backs : List Token} {mark : Option Symbol} {h : 2 ≤ n}
    (hr : r.grammar = Grammar.signed n h f) (hmark : ∀ s ∈ mark, s ∈ Symbol.signs)
    (hbacks : backs.map Token.lexeme = PartCycle.markLexemes mark)
    (hface : r.faceOf? (r.peek rest) = none) (hvalue : (r.peek rest).value? = none) :
    r.faceOf? (r.peek (backs ++ rest)) = none ∧ (r.peek (backs ++ rest)).value? = none := by
  cases mark with
  | none =>
    obtain rfl := List.map_eq_nil_iff.mp hbacks
    exact ⟨hface, hvalue⟩
  | some s =>
    have hs := hmark s rfl
    have hother : ∀ s ∈ Symbol.signs, ¬Symbol.faces.contains s = true := by decide
    obtain ⟨t, rfl, hmeans⟩ := means_mark hr hs hbacks
    exact ⟨hmeans.faceOf?_eq.trans (if_neg (hother s hs)), hmeans.value?_eq⟩

section Pieces

variable {h : 2 ≤ n} (hr : r.grammar = Grammar.signed n h f) {i : PartCycle.Item}
include hr

theorem signInFront_item (hf : f.HasPlace)
    (hts : ts.map Token.lexeme = PartCycle.markLexemes (PartCycle.frontMark f kind i))
    (hrest : r.signOf? (r.peek rest) = none) :
    ∃ lead, r.signInFront (ts ++ rest) = (lead, rest) ∧
      lead.map r.signOf? = (PartCycle.frontMark f kind i).map some := by
  unfold signInFront
  rw [fixity_permutation hr]
  rcases hf with hf | rfl
  · rw [signsLead_of_leads hf]
    exact takeSign_mark hr mem_signs_of_frontMark hts hrest
  · obtain rfl := List.map_eq_nil_iff.mp hts
    exact ⟨none, rfl, rfl⟩

theorem takeSignIf_backMark
    (hts : ts.map Token.lexeme = PartCycle.markLexemes (PartCycle.backMark f kind i))
    (hrest : f = .suffixed → r.signOf? (r.peek rest) = none) :
    ∃ trail, r.takeSignIf (f = .suffixed && kind = .side) (ts ++ rest) = (trail, rest) ∧
      trail.map r.signOf? = (PartCycle.backMark f kind i).map some := by
  by_cases hplace : f = .suffixed ∧ kind = .side
  · obtain ⟨rfl, rfl⟩ := hplace
    exact takeSign_mark hr mem_signs_of_backMark hts (hrest rfl)
  · have hnone : PartCycle.backMark f kind i = none := by
      unfold PartCycle.backMark
      split
      · rename_i hsuffixed
        cases kind with
        | side => exact absurd ⟨hsuffixed, rfl⟩ hplace
        | _ => rfl
      · rfl
    have hwanted : (f = .suffixed && kind = .side : Bool) = false := by simpa using hplace
    rw [hnone] at hts
    obtain rfl := List.map_eq_nil_iff.mp hts
    rw [hwanted, hnone]
    exact ⟨none, rfl, rfl⟩

end Pieces

/-- The tokens of a part are read as the part. -/
theorem readPart_item {h : 2 ≤ n} (hr : r.grammar = Grammar.signed n h f) (hf : f.HasPlace)
    (hn : n ≤ 7) {i : PartCycle.Item} (hi : PartCycle.Fits n kind cycle i)
    (hreadable : Readable n f kind i)
    (hts : ts.map Token.lexeme = PartCycle.itemLexemes n f kind i)
    (hface : r.faceOf? (r.peek rest) = none) (hvalue : (r.peek rest).value? = none)
    (hsign : f = .suffixed → r.signOf? (r.peek rest) = none) :
    Gives (r.readPart cycle (ts ++ rest)) { kind := some kind, items := cycle.items ++ [i] } rest := by
  have hlocation := hi.location_lt
  have hlength := PartCycle.length_faces hlocation
  have hlayers : r.grammar.terms.layerCount = n := by
    rw [hr]
    exact Notation.layerCount_signed h
  obtain ⟨fronts, ts, rfl, hfronts, hts⟩ := List.map_eq_append_iff.mp hts
  obtain ⟨named, behind, rfl, hnamed, hbehind⟩ := List.map_eq_append_iff.mp hts
  obtain ⟨numbered, backs, rfl, hnumbered, hbacks⟩ := exists_number_mark hreadable hbehind
  rw [List.append_assoc, List.append_assoc, List.append_assoc]
  -- The sign ends at the first face, and the faces end at the number or at what follows the part.
  obtain ⟨hface', hvalue'⟩ := peek_backs hr mem_signs_of_backMark hbacks hface hvalue
  have hfirst : r.signOf? (r.peek (named ++ (numbered ++ (backs ++ rest)))) = none := by
    obtain ⟨t, named, face, rfl, hmeans⟩ := head_faces hr (PartCycle.faces_ne_nil hlocation) hnamed
    exact signOf?_of_face hmeans
  have hcount : (PartCycle.faces kind i).length = 3 ∨
      (PartCycle.faces kind i).length < 3 ∧
        r.faceOf? (r.peek (numbered ++ (backs ++ rest))) = none := by
    rw [hlength]
    exact (faceCount_eq_or_lt kind).imp_right fun hlt => ⟨hlt, faceOf?_peek_round hnumbered hface'⟩
  obtain ⟨lead, hlead, hfront⟩ := signInFront_item hr hf hfronts hfirst
  obtain ⟨taken, htaken, hsymbols⟩ := takeFaces_eq hr hnamed hcount
  obtain ⟨trail, htrail, hback⟩ := takeSignIf_backMark hr hbacks hsign
  have htakenLength : taken.length = PartCycle.faceCount kind := by
    rw [← hlength, ← List.length_map Prod.snd, hsymbols, List.length_map]
  have hfaces : r.facesOfPart (fronts ++ (named ++ (numbered ++ (backs ++ rest)))) =
      (taken, numbered ++ (backs ++ rest)) := by
    rw [facesOfPart, hlead, htaken]
  have hkind : r.kindOfPart (fronts ++ (named ++ (numbered ++ (backs ++ rest)))) = kind := by
    rw [kindOfPart, hfaces, htakenLength, kindOfFaces_faceCount]
  have hnumber : r.numberOfPart (fronts ++ (named ++ (numbered ++ (backs ++ rest)))) =
      (textNumber n kind (PartCycle.round kind i), backs ++ rest) := by
    rw [numberOfPart, hfaces]
    exact takeNumber_eq hnumbered hvalue'
  have hbehind : r.signBehind (fronts ++ (named ++ (numbered ++ (backs ++ rest)))) =
      (trail, rest) := by
    rw [signBehind, hkind, hnumber, fixity_permutation hr]
    exact htrail
  have hmark : r.signOfPart (fronts ++ (named ++ (numbered ++ (backs ++ rest)))) =
      PartCycle.ownMark kind i := by
    rw [signOfPart, hbehind, hlead]
    apply bind_signOf?_of_map
    rw [Option.orElse_eq_orElse, Option.orElse_eq_or, Option.map_or, hback, hfront,
      ← Option.map_or, backMark_or]
  rw [gives_readPart_iff, hfaces, hkind, hnumber, hmark, hbehind, hlayers, hsymbols, htakenLength]
  refine ⟨faceCount_ne_zero kind, ?_, _, partNumber_round hn hlocation, hi.addItem_faces, rfl⟩
  rintro ⟨hsmall, hfew⟩
  have hlarge := three_le_or_faceCount hlocation
  omega

end Reading

end CubeLang
