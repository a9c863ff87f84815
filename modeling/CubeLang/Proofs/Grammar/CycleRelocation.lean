import CubeLang.Grammar.Expression
import CubeLang.Proofs.Grammar.PartPieces
import CubeLang.Proofs.Script.Relocation

/-!
# Reading cycles of parts in another place

What a reader makes of some tokens, it makes of the same tokens at other offsets too, with other
tokens behind them, if it leaves some of its own tokens or these begin with nothing that it would go on
with. This file shows it of the readers of cycles.
-/

set_option autoImplicit false

namespace CubeLang

variable {f : Nat → Nat} {t : Token}

namespace Grammar

variable {g : Grammar} {s : Symbol}

@[simp] theorem symbols_relocate : g.symbols (t.relocate f) = g.symbols t := rfl

@[simp] theorem isA_relocate : g.isA s (t.relocate f) = g.isA s t := rfl

@[simp] theorem isOnly_relocate : g.isOnly s (t.relocate f) = g.isOnly s t := rfl

end Grammar

@[simp] theorem Token.isKeyword_relocate : (t.relocate f).isKeyword = t.isKeyword := rfl

@[simp] theorem Token.value?_relocate : (t.relocate f).value? = t.value? := rfl

/-- Tokens moved to other offsets, with the tokens `tail` behind them. -/
def relocated (f : Nat → Nat) (tail ts : List Token) : List Token :=
  ts.map (Token.relocate f) ++ tail

section

variable {tail ts : List Token}

@[simp] theorem relocated_nil : relocated f tail [] = tail := rfl

@[simp] theorem relocated_cons :
    relocated f tail (t :: ts) = t.relocate f :: relocated f tail ts := rfl

theorem relocated_id : relocated id tail ts = ts ++ tail := by
  have hid : Token.relocate id = id := rfl
  rw [relocated, hid, List.map_id]

end

/-- What was read of a cycle, moved to other offsets. -/
def Reading.Closed.relocate (f : Nat → Nat) (c : Reading.Closed) : Reading.Closed :=
  { c with sign := c.sign.map (Token.relocate f), stop := f c.stop }

namespace Reading

variable {r : Reading} {tail ts rest : List Token} {cycle : PartCycle}

/-- The reading of another text by the same grammar. -/
abbrev resized (r : Reading) (length : Nat) : Reading := { r with length }

@[simp] theorem grammar_resized (r : Reading) (length : Nat) :
    (r.resized length).grammar = r.grammar := rfl

@[simp] theorem signOf?_resized (r : Reading) (length : Nat) (t : Token) :
    (r.resized length).signOf? t = r.signOf? t := rfl

@[simp] theorem faceOf?_resized (r : Reading) (length : Nat) (t : Token) :
    (r.resized length).faceOf? t = r.faceOf? t := rfl

@[simp] theorem signOf?_relocate : r.signOf? (t.relocate f) = r.signOf? t := rfl

@[simp] theorem faceOf?_relocate : r.faceOf? (t.relocate f) = r.faceOf? t := rfl

/-- Some tokens begin with nothing that belongs to a cycle or a repeat count in front of them. -/
structure Ends (r : Reading) (tail : List Token) : Prop where
  sign : r.grammar.fixity .permutation = .suffixed → ∀ t ∈ tail.head?, r.signOf? t = none
  countEnd : ∀ t ∈ tail.head?, r.grammar.isOnly .repetitionEnd t = false

/-- Some tokens begin with nothing that a reader would go on with, and so end what stands in front
of them as the end of the text does. -/
structure Stops (r : Reading) (tail : List Token) : Prop extends r.Ends tail where
  infixed : ∀ t ∈ tail.head?, r.infixOf? t = none
  affix : ∀ (length : Nat) (inner : Inner tail.length) (m : Memory),
    (r.resized length).readAffix? .suffixed tail inner m = .ok none m

/-- The end of a text stops every reader. -/
theorem stops_nil (r : Reading) : r.Stops [] where
  sign _ _ h := nomatch h
  countEnd _ h := nomatch h
  infixed _ h := nomatch h
  affix _ _ _ := rfl

/-- Tokens that stand behind others are out of sight: there are none, or one of the others is left. -/
def Hidden (tail rest : List Token) : Prop := tail = [] ∨ rest ≠ []

theorem Hidden.of_length_le {rest' : List Token} (h : Hidden tail rest)
    (hle : rest.length ≤ rest'.length) : Hidden tail rest' := by
  refine h.imp_right fun hne hnil => hne (List.eq_nil_of_length_eq_zero ?_)
  rw [hnil] at hle
  exact Nat.le_zero.mp hle

/-- What is out of sight is not next. -/
theorem Hidden.next {P : Token → Prop} (h : Hidden tail rest) (hnil : rest = []) :
    ∀ t ∈ tail.head?, P t := by
  obtain rfl := h.resolve_right (not_not_intro hnil)
  exact fun _ ht => nomatch ht

section

variable (length : Nat)

/-- What is seen of the next token is what is seen of it in the other place. -/
theorem peek_relocated (h : ts ≠ []) :
    (r.resized length).peek (relocated f tail ts) = (r.peek ts).relocate f := by
  cases ts with
  | nil => contradiction
  | cons t ts => rfl

theorem takeSign_relocated (htail : ts = [] → ∀ t ∈ tail.head?, r.signOf? t = none) :
    (r.resized length).takeSign (relocated f tail ts) =
      ((r.takeSign ts).1.map (Token.relocate f), relocated f tail (r.takeSign ts).2) := by
  cases ts with
  | nil =>
    cases tail with
    | nil => rfl
    | cons t tail => simp [takeSign, htail rfl t rfl]
  | cons t ts => cases hsign : r.signOf? t <;> simp [takeSign, hsign]

theorem takeSignIf_relocated {wanted : Bool}
    (htail : wanted = true → ts = [] → ∀ t ∈ tail.head?, r.signOf? t = none) :
    (r.resized length).takeSignIf wanted (relocated f tail ts) =
      ((r.takeSignIf wanted ts).1.map (Token.relocate f),
        relocated f tail (r.takeSignIf wanted ts).2) := by
  cases wanted with
  | false => rfl
  | true => exact takeSign_relocated length (htail rfl)

theorem takeFaces_relocated {k : Nat} (htail : Hidden tail (r.takeFaces k ts).2) :
    (r.resized length).takeFaces k (relocated f tail ts) =
      ((r.takeFaces k ts).1.map fun face => (face.1.relocate f, face.2),
        relocated f tail (r.takeFaces k ts).2) := by
  induction k generalizing ts with
  | zero => rfl
  | succ k ih =>
    cases ts with
    | nil =>
      cases tail with
      | nil => rfl
      | cons t tail => exact absurd rfl (htail.resolve_left (List.cons_ne_nil t tail))
    | cons t ts =>
      cases hface : r.faceOf? t with
      | none => simp [takeFaces, hface]
      | some face =>
        have hothers : Hidden tail (r.takeFaces k ts).2 := by simpa [takeFaces, hface] using htail
        simp [takeFaces, hface, ih hothers]

theorem takeNumber_relocated (htail : Hidden tail ts) :
    (r.resized length).takeNumber (relocated f tail ts) =
      ((r.takeNumber ts).1, relocated f tail (r.takeNumber ts).2) := by
  cases ts with
  | nil =>
    cases tail with
    | nil => rfl
    | cons t tail => exact absurd rfl (htail.resolve_left (List.cons_ne_nil t tail))
  | cons t ts =>
    unfold takeNumber
    cases hvalue : t.value? with
    | none => simp [hvalue]
    | some value => simp [hvalue]

/-! ## Parts -/

theorem signInFront_relocated (htail : Hidden tail ts) :
    (r.resized length).signInFront (relocated f tail ts) =
      ((r.signInFront ts).1.map (Token.relocate f), relocated f tail (r.signInFront ts).2) :=
  takeSignIf_relocated length fun _ => htail.next

theorem facesOfPart_relocated (htail : Hidden tail (r.facesOfPart ts).2) :
    (r.resized length).facesOfPart (relocated f tail ts) =
      ((r.facesOfPart ts).1.map fun face => (face.1.relocate f, face.2),
        relocated f tail (r.facesOfPart ts).2) := by
  have hle := r.length_facesOfPart_le ts
  rw [facesOfPart, signInFront_relocated length (htail.of_length_le (by omega))]
  exact takeFaces_relocated length htail

theorem kindOfPart_relocated (htail : Hidden tail (r.facesOfPart ts).2) :
    (r.resized length).kindOfPart (relocated f tail ts) = r.kindOfPart ts := by
  rw [kindOfPart, facesOfPart_relocated length htail, List.length_map, kindOfPart]

theorem numberOfPart_relocated (htail : Hidden tail (r.numberOfPart ts).2) :
    (r.resized length).numberOfPart (relocated f tail ts) =
      ((r.numberOfPart ts).1, relocated f tail (r.numberOfPart ts).2) := by
  have hfaces := htail.of_length_le (r.length_numberOfPart_le ts)
  rw [numberOfPart, facesOfPart_relocated length hfaces]
  exact takeNumber_relocated length hfaces

section

variable (htail : Hidden tail (r.signBehind ts).2)
include htail

theorem signBehind_relocated : (r.resized length).signBehind (relocated f tail ts) =
    ((r.signBehind ts).1.map (Token.relocate f), relocated f tail (r.signBehind ts).2) := by
  have hnumber := htail.of_length_le (r.length_signBehind_le ts)
  have hfaces := hnumber.of_length_le (r.length_numberOfPart_le ts)
  rw [signBehind, kindOfPart_relocated length hfaces, numberOfPart_relocated length hnumber]
  exact takeSignIf_relocated length fun _ => hnumber.next

theorem signOfPart_relocated :
    (r.resized length).signOfPart (relocated f tail ts) = r.signOfPart ts := by
  have hnumber := htail.of_length_le (r.length_signBehind_le ts)
  have hfaces := hnumber.of_length_le (r.length_numberOfPart_le ts)
  have hle := r.length_facesOfPart_le ts
  rw [signOfPart, signBehind_relocated length htail,
    signInFront_relocated length (hfaces.of_length_le (by omega)), signOfPart]
  cases (r.signBehind ts).1 <;> cases (r.signInFront ts).1 <;> rfl

end

/-- A part is read as the same part in the other place. -/
theorem readPart_relocated {cycle' : PartCycle} (h : Gives (r.readPart cycle ts) cycle' rest)
    (htail : Hidden tail rest) :
    Gives ((r.resized length).readPart cycle (relocated f tail ts)) cycle' (relocated f tail rest) := by
  rw [gives_readPart_iff] at h ⊢
  obtain ⟨hfaces, hsmall, part, hpart, hadd, rfl⟩ := h
  have hnumber := htail.of_length_le (r.length_signBehind_le ts)
  have hfaces' := hnumber.of_length_le (r.length_numberOfPart_le ts)
  simp only [facesOfPart_relocated length hfaces', kindOfPart_relocated length hfaces',
    numberOfPart_relocated length hnumber, signOfPart_relocated length htail,
    signBehind_relocated length htail, List.length_map, List.map_map, Function.comp_def]
  exact ⟨hfaces, hsmall, part, hpart, hadd, trivial⟩

/-! ## Cycles -/

/-- The parts of a cycle are read as the same ones, since the bracket behind them is there. -/
theorem ReadsParts.relocate {closed : Closed} (h : r.ReadsParts cycle ts closed rest) :
    (r.resized length).ReadsParts cycle (relocated f tail ts) (closed.relocate f)
      (relocated f tail rest) := by
  -- Behind each part there is a token, so that the reader of parts does not see the others.
  have hmoved : ∀ {c c' : PartCycle} {ts : List Token} {t : Token} {behind : List Token},
      Gives (r.readPart c ts) c' (t :: behind) → Gives ((r.resized length).readPart c
        (relocated f tail ts)) c' (t.relocate f :: relocated f tail behind) :=
    fun hpart => readPart_relocated length hpart (Or.inr (List.cons_ne_nil _ _))
  induction h with
  | closed hclosing => exact .closed hclosing
  | delimited hopen hpart hdelimiter _ ih => exact .delimited hopen (hmoved hpart) hdelimiter ih
  | @signed _ _ t _ _ _ _ hopen hpart hdelimiter hfixity hsign hclosing =>
    exact .signed (r := r.resized length) (t := t.relocate f) hopen (hmoved hpart) hdelimiter hfixity
      hsign hclosing
  | part hopen hpart hdelimiter hsign _ ih =>
    exact .part hopen (hmoved hpart) hdelimiter hsign ih

end

/-- The sign of a cycle is taken in the other place as well. -/
theorem withSign_relocated (hf : Monotone f) (length : Nat) {span : Span} {sign : Option Token}
    {script : Script} (h : r.withSign span cycle sign = .ok script) :
    (r.resized length).withSign (span.relocate f) cycle (sign.map (Token.relocate f)) =
      .ok (script.relocate f) := by
  cases sign with
  | none =>
    obtain rfl := Except.ok.inj h
    rfl
  | some t =>
    cases hkind : cycle.kind with
    | none =>
      simp only [withSign, hkind, Except.ok.injEq] at h
      obtain rfl := h
      simp only [Option.map_some, withSign, hkind, Script.relocate]
    | some kind =>
      rw [withSign_of_kind hkind] at h
      rw [Option.map_some, withSign_of_kind hkind]
      rw [signOf?_resized, signOf?_relocate]
      by_cases hrefused : refusesSign kind (r.signOf? t) = true
      · rw [if_pos hrefused] at h
        contradiction
      · rw [if_neg hrefused] at h ⊢
        cases htwist : PartCycle.signTwist (r.signOf? t) kind with
        | error fault =>
          rw [htwist] at h
          contradiction
        | ok twist =>
          rw [htwist] at h
          obtain rfl := Except.ok.inj h
          rw [Script.relocate, Span.relocate_max hf]
          rfl

/-- A cycle is read as the same cycle, if no sign for it stands behind. -/
theorem ReadsPermutation.relocate (hf : Monotone f) (length : Nat) {start : Nat}
    {leading : Option Token} {s : Script} (h : r.ReadsPermutation start leading ts s rest)
    (htail : rest = [] → r.Ends tail) :
    (r.resized length).ReadsPermutation (f start) (leading.map (Token.relocate f))
      (relocated f tail ts) (s.relocate f) (relocated f tail rest) := by
  have hne := h.ne_nil
  obtain @⟨opened, trailing, inner, behind, closed, hopened, hparts, htrailing, hsign⟩ := h
  have hparts' : (r.resized length).ReadsParts {} (relocated f tail inner) (closed.relocate f)
      (relocated f tail behind) := hparts.relocate length
  have hsign' := withSign_relocated hf length hsign
  simp only [Span.relocate_natCast, Option.map_or] at hsign'
  have hbehind : behind = [] → rest = [] := by
    rintro rfl
    rw [takeSignIf_nil] at htrailing
    exact (Prod.mk.inj htrailing).2.symm
  refine .intro ?_ hparts' ?_ hsign'
  · rw [takeSignIf_relocated length fun _ hnil => absurd hnil hne, grammar_resized, hopened]
  · rw [takeSignIf_relocated length fun hwanted hnil =>
      (htail (hbehind hnil)).sign (of_decide_eq_true hwanted), grammar_resized, htrailing]

end Reading

end CubeLang
