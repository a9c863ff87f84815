import CubeLang.Grammar.Permutation

/-!
# The pieces of cycles

A part is read piece by piece: a sign in front, the faces, a number, a sign behind. Reading it
succeeds if the pieces are those of a part of the cube that the cycle takes. A cycle is read if its
parts are, up to the closing bracket, and if it takes the sign that stands in one of its places. What is
read of the parts and of the whole is said by relations, with one constructor for each way to go on.
-/

set_option autoImplicit false

namespace CubeLang.Reading

variable {r : Reading} {ts : List Token} {cycle : PartCycle}

@[simp] theorem peek_cons (t : Token) (ts : List Token) : r.peek (t :: ts) = t := rfl

/-- Whether a reader gives some value and leaves some tokens. -/
def Gives {n : Nat} {α : Type} (x : Except ParseError (Parsed n α)) (value : α) (rest : List Token) :
    Prop := ∃ hlt, x = .ok ⟨value, rest, hlt⟩

theorem Gives.ne_nil {α : Type} {x : Except ParseError (Parsed ts.length α)} {value : α}
    {rest : List Token} (h : Gives x value rest) : ts ≠ [] :=
  List.ne_nil_of_length_pos (Nat.zero_lt_of_lt h.1)

/-- The end of the text stands for nothing. -/
theorem eq_cons_of_isA {s : Symbol} (h : r.grammar.isA s (r.peek ts) = true) :
    ∃ t rest, ts = t :: rest := by
  apply List.exists_cons_of_ne_nil
  rintro rfl
  contradiction

theorem eq_cons_of_signOf? (h : (r.signOf? (r.peek ts)).isSome = true) :
    ∃ t rest, ts = t :: rest := by
  apply List.exists_cons_of_ne_nil
  rintro rfl
  contradiction

/-- The sign token in front of a part. -/
def signInFront (r : Reading) (ts : List Token) : Option Token × List Token :=
  r.takeSignIf (signsLead (r.grammar.fixity .permutation)) ts

def facesOfPart (r : Reading) (ts : List Token) : List (Token × Symbol) × List Token :=
  r.takeFaces 3 (r.signInFront ts).2

def kindOfPart (r : Reading) (ts : List Token) : PartKind :=
  kindOfFaces (r.facesOfPart ts).1.length

def numberOfPart (r : Reading) (ts : List Token) : Int × List Token :=
  r.takeNumber (r.facesOfPart ts).2

/-- The sign token behind a part. -/
def signBehind (r : Reading) (ts : List Token) : Option Token × List Token :=
  r.takeSignIf (r.grammar.fixity .permutation = .suffixed && r.kindOfPart ts = .side)
    (r.numberOfPart ts).2

/-- The sign of a part. -/
def signOfPart (r : Reading) (ts : List Token) : Option Symbol :=
  ((r.signBehind ts).1 <|> (r.signInFront ts).1).bind r.signOf?

theorem length_facesOfPart_le (r : Reading) (ts : List Token) :
    (r.facesOfPart ts).1.length + (r.facesOfPart ts).2.length ≤ ts.length := by
  have hfaces : (r.facesOfPart ts).1.length + (r.facesOfPart ts).2.length =
      (r.signInFront ts).2.length := r.length_takeFaces 3 (r.signInFront ts).2
  exact hfaces ▸ r.length_takeSignIf_le _ ts

theorem length_numberOfPart_le (r : Reading) (ts : List Token) :
    (r.numberOfPart ts).2.length ≤ (r.facesOfPart ts).2.length :=
  r.length_takeNumber_le (r.facesOfPart ts).2

theorem length_signBehind_le (r : Reading) (ts : List Token) :
    (r.signBehind ts).2.length ≤ (r.numberOfPart ts).2.length :=
  r.length_takeSignIf_le _ (r.numberOfPart ts).2

theorem length_signBehind_lt (h : ¬(r.facesOfPart ts).1.length = 0) :
    (r.signBehind ts).2.length < ts.length := by
  have hfaces := r.length_facesOfPart_le ts
  have hnumber := r.length_numberOfPart_le ts
  have hbehind := r.length_signBehind_le ts
  omega

/-- Reading a part in terms of its pieces. -/
theorem readPart_eq (r : Reading) (cycle : PartCycle) (ts : List Token) : r.readPart cycle ts =
    if hfaces : (r.facesOfPart ts).1.length = 0 then
      .error (.ofToken .faceMissing (r.peek (r.facesOfPart ts).2))
    else if r.grammar.terms.layerCount < 3 && (r.facesOfPart ts).1.length < 3 then
      .error ⟨.partOfSmallCube (String.join ((r.facesOfPart ts).1.map fun face => face.1.text)),
        ⟨(r.peek ts).start, (r.peek (r.facesOfPart ts).2).stop⟩, none⟩
    else
      match partNumber r.grammar.terms.layerCount (r.kindOfPart ts) (r.numberOfPart ts).1 with
      | .error cause => .error (.ofToken cause (r.peek (r.facesOfPart ts).2))
      | .ok part =>
        match (PartCycle.addItem (r.kindOfPart ts) (r.signOfPart ts)
          ((r.facesOfPart ts).1.map Prod.snd) part r.grammar.terms.layerCount).run cycle with
        | .error fault _ =>
          let trails := r.grammar.fixity .permutation = .suffixed && r.kindOfPart ts = .side
          let last := if trails then r.peek (r.numberOfPart ts).2 else r.peek (r.facesOfPart ts).2
          .error ⟨.part fault, ⟨(r.peek ts).start, last.stop⟩, none⟩
        | .ok _ cycle => .ok ⟨cycle, (r.signBehind ts).2, length_signBehind_lt hfaces⟩ := rfl

/-- What it takes to read a part: faces that a part of the cube has, the number of such a part, and
that the cycle takes the part. -/
theorem gives_readPart_iff {cycle' : PartCycle} {rest : List Token} :
    Gives (r.readPart cycle ts) cycle' rest ↔
      (r.facesOfPart ts).1.length ≠ 0 ∧
        ¬(r.grammar.terms.layerCount < 3 ∧ (r.facesOfPart ts).1.length < 3) ∧
        ∃ part, partNumber r.grammar.terms.layerCount (r.kindOfPart ts) (r.numberOfPart ts).1 =
            .ok part ∧
          PartCycle.addItem (r.kindOfPart ts) (r.signOfPart ts)
            ((r.facesOfPart ts).1.map Prod.snd) part r.grammar.terms.layerCount cycle =
              .ok () cycle' ∧
          rest = (r.signBehind ts).2 := by
  constructor
  · rintro ⟨hlt, h⟩
    rw [readPart_eq] at h
    split at h
    · contradiction
    rename_i hfaces
    split at h
    · contradiction
    rename_i hsmall
    split at h
    · contradiction
    rename_i part hpart
    split at h
    · contradiction
    rename_i hadd
    obtain ⟨rfl, rfl⟩ := Parsed.mk.inj (Except.ok.inj h)
    exact ⟨hfaces, by simpa using hsmall, part, hpart, hadd, rfl⟩
  · rintro ⟨hfaces, hsmall, part, hpart, hadd, rfl⟩
    refine ⟨length_signBehind_lt hfaces, ?_⟩
    rw [readPart_eq, dif_neg hfaces, if_neg (by simpa using hsmall), hpart]
    simp only [EStateM.run, hadd]

theorem takeSignIf_nil (r : Reading) (wanted : Bool) : r.takeSignIf wanted [] = (none, []) := by
  cases wanted <;> rfl

theorem takeSignIf_of_none {wanted : Bool} {t : Token} {rest : List Token}
    (hsign : r.signOf? t = none) : r.takeSignIf wanted (t :: rest) = (none, t :: rest) := by
  cases wanted with
  | false => rfl
  | true => simp [takeSignIf, takeSign, hsign]

/-- A part that begins with neither a sign nor a face is none. -/
theorem readPart_of_no_face {t : Token} {rest : List Token} (hsign : r.signOf? t = none)
    (hface : r.faceOf? t = none) :
    r.readPart cycle (t :: rest) = .error (.ofToken .faceMissing t) := by
  have hfront : r.signInFront (t :: rest) = (none, t :: rest) := takeSignIf_of_none hsign
  have hfaces : r.facesOfPart (t :: rest) = ([], t :: rest) := by
    rw [facesOfPart, hfront]
    simp [takeFaces, hface]
  rw [readPart_eq, dif_pos (by rw [hfaces]; rfl), hfaces]
  rfl

theorem readParts_of_no_face {t : Token} {rest : List Token}
    (hend : r.grammar.isA .permutationEnd t = false) (hsign : r.signOf? t = none)
    (hface : r.faceOf? t = none) :
    r.readParts cycle (t :: rest) = .error (.ofToken .faceMissing t) := by
  rw [readParts]
  simp [hend, readPart_of_no_face hsign hface]

/-! ## Parts up to the closing bracket -/

/-- What is read as parts of a cycle and the bracket that closes it: behind a part there may be a
delimiter, or a sign of the cycle and the bracket. -/
inductive ReadsParts (r : Reading) : PartCycle → List Token → Closed → List Token → Prop
  | closed {cycle : PartCycle} {t : Token} {ts : List Token}
      (hclosing : r.grammar.isA .permutationEnd t = true) :
      ReadsParts r cycle (t :: ts) ⟨cycle, none, t.stop⟩ ts
  | delimited {cycle cycle' : PartCycle} {t t' : Token} {ts behind rest : List Token}
      {closed : Closed} (hopen : r.grammar.isA .permutationEnd t = false)
      (hpart : Gives (r.readPart cycle (t :: ts)) cycle' (t' :: behind))
      (hdelimiter : r.grammar.isA .permutationDelimiter t' = true)
      (hparts : ReadsParts r cycle' behind closed rest) : ReadsParts r cycle (t :: ts) closed rest
  | signed {cycle cycle' : PartCycle} {t t' t'' : Token} {ts rest : List Token}
      (hopen : r.grammar.isA .permutationEnd t = false)
      (hpart : Gives (r.readPart cycle (t :: ts)) cycle' (t' :: t'' :: rest))
      (hdelimiter : r.grammar.isA .permutationDelimiter t' = false)
      (hfixity : r.grammar.fixity .permutation = .postcircumfixed)
      (hsign : (r.signOf? t').isSome = true) (hclosing : r.grammar.isA .permutationEnd t'' = true) :
      ReadsParts r cycle (t :: ts) ⟨cycle', some t', t''.stop⟩ rest
  | part {cycle cycle' : PartCycle} {t t' : Token} {ts behind rest : List Token} {closed : Closed}
      (hopen : r.grammar.isA .permutationEnd t = false)
      (hpart : Gives (r.readPart cycle (t :: ts)) cycle' (t' :: behind))
      (hdelimiter : r.grammar.isA .permutationDelimiter t' = false)
      (hsign : r.grammar.fixity .permutation = .postcircumfixed → r.signOf? t' = none)
      (hparts : ReadsParts r cycle' (t' :: behind) closed rest) :
      ReadsParts r cycle (t :: ts) closed rest

section

variable {rest : List Token} {closed : Closed}

theorem ReadsParts.ne_nil (h : r.ReadsParts cycle ts closed rest) : ts ≠ [] := by
  cases h <;> exact List.cons_ne_nil _ _

/-- What the reader of parts gives was read in one of these ways. -/
theorem ReadsParts.of_gives (h : Gives (r.readParts cycle ts) closed rest) :
    r.ReadsParts cycle ts closed rest := by
  obtain ⟨hlt, h⟩ := h
  fun_induction readParts r cycle ts with
  | case1 | case3 | case4 | case7 | case8 => contradiction
  | case2 cycle t ts hclosing =>
    obtain ⟨rfl, rfl⟩ := Parsed.mk.inj (Except.ok.inj h)
    exact .closed hclosing
  | case5 cycle t ts hopen cycle' behind hlt' hpart next behind' _ hdelimiter p hparts ih =>
    obtain ⟨rfl, rfl⟩ := Parsed.mk.inj (Except.ok.inj h)
    obtain ⟨t', behind, rfl⟩ : ∃ t' behind', behind = t' :: behind' := eq_cons_of_isA hdelimiter
    exact .delimited (Bool.eq_false_iff.mpr hopen) ⟨hlt', hpart⟩ hdelimiter (ih p.shorter hparts)
  | case6 cycle t ts hopen cycle' behind hlt' hpart next behind' _ hdelimiter hsigned closing _
      hclosing =>
    obtain ⟨rfl, rfl⟩ := Parsed.mk.inj (Except.ok.inj h)
    obtain ⟨hfixity, hsign⟩ := (Bool.and_eq_true ..).mp hsigned
    obtain ⟨t', behind, rfl⟩ : ∃ t' behind', behind = t' :: behind' := eq_cons_of_signOf? hsign
    obtain ⟨t'', behind, rfl⟩ : ∃ t'' behind', behind = t'' :: behind' := eq_cons_of_isA hclosing
    exact .signed (Bool.eq_false_iff.mpr hopen) ⟨hlt', hpart⟩ (Bool.eq_false_iff.mpr hdelimiter)
      (of_decide_eq_true hfixity) hsign hclosing
  | case9 cycle t ts hopen cycle' behind hlt' hpart next behind' _ hdelimiter hsigned p hparts ih =>
    obtain ⟨rfl, rfl⟩ := Parsed.mk.inj (Except.ok.inj h)
    have hothers := ih p.shorter hparts
    obtain ⟨t', behind, rfl⟩ := List.exists_cons_of_ne_nil hothers.ne_nil
    exact .part (Bool.eq_false_iff.mpr hopen) ⟨hlt', hpart⟩ (Bool.eq_false_iff.mpr hdelimiter)
      (by simpa [next] using hsigned) hothers

/-- What can be read in these ways the reader of parts gives. -/
theorem ReadsParts.gives (h : r.ReadsParts cycle ts closed rest) :
    Gives (r.readParts cycle ts) closed rest := by
  induction h with
  | closed hclosing =>
    refine ⟨Nat.lt_succ_self _, ?_⟩
    rw [readParts, if_pos hclosing]
  | delimited hopen hpart hdelimiter _ ih =>
    obtain ⟨hlt, hpart⟩ := hpart
    obtain ⟨hlt', hparts⟩ := ih
    refine ⟨Nat.lt_trans hlt' (Nat.lt_of_succ_lt hlt), ?_⟩
    rw [readParts]
    simp [hopen, hpart, hdelimiter, hparts, Parsed.widen]
  | signed hopen hpart hdelimiter hfixity hsign hclosing =>
    obtain ⟨hlt, hpart⟩ := hpart
    refine ⟨Nat.lt_of_succ_lt (Nat.lt_of_succ_lt hlt), ?_⟩
    rw [readParts]
    simp [hopen, hpart, hdelimiter, hfixity, hsign, hclosing]
  | part hopen hpart hdelimiter hsign _ ih =>
    obtain ⟨hlt, hpart⟩ := hpart
    obtain ⟨hlt', hparts⟩ := ih
    refine ⟨Nat.lt_trans hlt' hlt, ?_⟩
    rw [readParts]
    by_cases hfixity : r.grammar.fixity .permutation = .postcircumfixed
    · simp [hopen, hpart, hdelimiter, hsign hfixity, hparts, Parsed.widen]
    · simp [hopen, hpart, hdelimiter, hfixity, hparts, Parsed.widen]

end

/-! ## Faces and signs -/

theorem mem_signs_of_signOf? {t : Token} {s : Symbol} (h : r.signOf? t = some s) :
    s ∈ Symbol.signs := List.contains_iff_mem.mp (List.find?_some h)

theorem mem_faces_of_faceOf? {t : Token} {s : Symbol} (h : r.faceOf? t = some s) :
    s ∈ Symbol.faces := List.contains_iff_mem.mp (List.find?_some h)

/-- The faces that are taken are those of the tokens in front. -/
theorem eq_append_of_takeFaces (r : Reading) (k : Nat) (ts : List Token) :
    ts = (r.takeFaces k ts).1.map Prod.fst ++ (r.takeFaces k ts).2 ∧
      (r.takeFaces k ts).1.length ≤ k ∧
      ∀ face ∈ (r.takeFaces k ts).1, r.faceOf? face.1 = some face.2 := by
  induction k generalizing ts with
  | zero => simp [takeFaces]
  | succ k ih =>
    cases ts with
    | nil => simp [takeFaces]
    | cons t rest =>
      cases hface : r.faceOf? t with
      | none => simp [takeFaces, hface]
      | some face =>
        obtain ⟨htokens, hlength, hfaces⟩ := ih rest
        simp only [takeFaces, hface, List.map_cons, List.cons_append, List.length_cons,
          Nat.add_le_add_iff_right, List.forall_mem_cons]
        exact ⟨congrArg _ htokens, hlength, trivial, hfaces⟩

/-- The sign of a part is one of the signs of cycles. -/
theorem mem_signs_of_signOfPart {s : Symbol} (h : r.signOfPart ts = some s) : s ∈ Symbol.signs := by
  obtain ⟨t, -, hs⟩ := Option.bind_eq_some_iff.mp h
  exact mem_signs_of_signOf? hs

/-! ## Signs and brackets -/

/-- Whether cycles of a kind of parts refuse a sign. -/
def refusesSign (kind : PartKind) (sign : Option Symbol) : Bool :=
  match kind with
  | .edge => sign = some .permutationPlusPlus || sign = some .permutationMinus
  | .corner => sign = some .permutationPlusPlus
  | .side => false

/-- The sign of a token makes the twist of a cycle, or is refused. -/
theorem withSign_of_kind {kind : PartKind} (hkind : cycle.kind = some kind) (span : Span)
    (t : Token) : r.withSign span cycle (some t) =
      if refusesSign kind (r.signOf? t) then .error (.ofToken .permutationSign t)
      else
        match PartCycle.signTwist (r.signOf? t) kind with
        | .error fault => .error ⟨.part fault, t.span, none⟩
        | .ok twist =>
          .ok (.permutation ⟨span.start, max span.stop t.stop⟩ { cycle with sign := twist }) := by
  unfold withSign
  rw [hkind]
  cases kind <;> rfl

section

variable {start : Nat} {leading : Option Token}

/-- What is read as a cycle behind its opening bracket: parts up to the closing one, and a sign that the
cycle takes in one of the places for it. -/
inductive ReadsPermutation (r : Reading) (start : Nat) (leading : Option Token) (ts : List Token)
    (s : Script) (rest : List Token) : Prop
  | intro {opened trailing : Option Token} {inner behind : List Token} {closed : Closed}
      (hopened : r.takeSignIf (r.grammar.fixity .permutation = .precircumfixed) ts = (opened, inner))
      (hparts : r.ReadsParts {} inner closed behind)
      (htrailing : r.takeSignIf (r.grammar.fixity .permutation = .suffixed) behind =
        (trailing, rest))
      (hsign : r.withSign ⟨start, closed.stop⟩ closed.cycle
        (trailing.or (closed.sign.or (opened.or leading))) = .ok s) :
      ReadsPermutation r start leading ts s rest

theorem ReadsPermutation.ne_nil {s : Script} {rest : List Token}
    (h : r.ReadsPermutation start leading ts s rest) : ts ≠ [] := by
  obtain ⟨hopened, hparts, -, -⟩ := h
  rintro rfl
  rw [takeSignIf_nil] at hopened
  exact hparts.ne_nil (Prod.mk.inj hopened).2.symm

theorem gives_readPermutation_iff {s : Script} {rest : List Token} :
    Gives (r.readPermutation start leading ts) s rest ↔
      r.ReadsPermutation start leading ts s rest := by
  constructor
  · rintro ⟨hlt, h⟩
    unfold readPermutation at h
    simp only [Option.orElse_eq_orElse, Option.orElse_eq_or] at h
    split at h
    · contradiction
    · rename_i cycle sign stop behind hlt' hparts
      split at h
      · contradiction
      · rename_i script hsign
        obtain ⟨rfl, rfl⟩ := Parsed.mk.inj (Except.ok.inj h)
        exact .intro rfl (.of_gives ⟨hlt', hparts⟩) rfl hsign
  · rintro @⟨opened, trailing, inner, behind, closed, hopened, hparts, htrailing, hsign⟩
    obtain ⟨hlt, hparts⟩ := hparts.gives
    have hinner := r.length_takeSignIf_le (r.grammar.fixity .permutation = .precircumfixed) ts
    have hrest := r.length_takeSignIf_le (r.grammar.fixity .permutation = .suffixed) behind
    rw [hopened] at hinner
    rw [htrailing] at hrest
    refine ⟨Nat.lt_of_le_of_lt hrest (Nat.lt_of_lt_of_le hlt hinner), ?_⟩
    obtain ⟨_, hparts'⟩ : Gives (r.readParts {}
        (r.takeSignIf (r.grammar.fixity .permutation = .precircumfixed) ts).2) closed behind := by
      rw [hopened]
      exact ⟨hlt, hparts⟩
    unfold readPermutation
    simp only [Option.orElse_eq_orElse, Option.orElse_eq_or, hparts', hopened, htrailing, hsign]

/-- An error in the parts of a cycle is the error of the cycle. -/
theorem readPermutation_of_error {e : ParseError} (hparts : r.readParts {}
    (r.takeSignIf (r.grammar.fixity .permutation = .precircumfixed) ts).2 = .error e) :
    r.readPermutation start leading ts = .error e := by
  unfold readPermutation
  simp only [hparts]

end

end CubeLang.Reading
