import CubeLang.Grammar.Statement
import CubeLang.Proofs.Cube.PartCycle
import CubeLang.Proofs.Grammar.CycleDerivation

/-!
# Why texts are refused

A cycle refuses a part without a face, a symbol in the place of a face, and one in the place of a
sign. A text gives none of them: faces and signs are taken from tokens that stand for them. So every
text that is refused is refused for a reason that has a message. The place of an error reaches from one
of the tokens to the same or a later one, where the end of the text counts as a token.
-/

set_option autoImplicit false

namespace CubeLang

/-! ## Steps that are refused for reasons of some kind -/

/-- Whether a step is refused, if at all, for a reason with a property. -/
def RefusedFor {ε α : Type} (P : ε → Prop) (x : Except ε α) : Prop := ∀ e, x = .error e → P e

namespace RefusedFor

variable {ε α : Type} {P : ε → Prop} {x y : Except ε α}

theorem ok (a : α) : RefusedFor P (.ok a) := fun _ h => nomatch h

theorem error {e : ε} (h : P e) : RefusedFor P (.error e : Except ε α) :=
  fun _ he => Except.error.inj he ▸ h

theorem ite {c : Prop} [Decidable c] (hx : c → RefusedFor P x) (hy : ¬c → RefusedFor P y) :
    RefusedFor P (if c then x else y) := by
  split
  · exact hx ‹_›
  · exact hy ‹_›

theorem dite {c : Prop} [Decidable c] {x : c → Except ε α} {y : ¬c → Except ε α}
    (hx : ∀ h, RefusedFor P (x h)) (hy : ∀ h, RefusedFor P (y h)) :
    RefusedFor P (if h : c then x h else y h) := by
  split
  · exact hx _
  · exact hy _

end RefusedFor

/-- Whether a part is refused for its place, its sign or its number, and not because it lacks a face
or has a symbol that is none or that is no sign. -/
def PartCycle.Fault.Proper : PartCycle.Fault → Prop
  | .notAFace | .noFaces | .signSymbol _ => False
  | _ => True

/-- Whether a text can be refused for a cause. -/
def ParseError.Cause.Proper : ParseError.Cause → Prop
  | .part fault => fault.Proper
  | .inMacro _ cause => cause.Proper
  | _ => True

/-- Whether a text can be refused with an error. -/
def ParseError.Proper (e : ParseError) : Prop := e.cause.Proper

/-- The macro that a cause is about. -/
def ParseError.Cause.identifier? : ParseError.Cause → Option String
  | .macroInItself identifier | .inMacro identifier _ => some identifier
  | _ => none

/-- Whether a span reaches from one of some tokens to the same or a later one. -/
def Span.Reaches (s : Span) (ts : List Token) : Prop :=
  ∃ t rest, t :: rest <:+ ts ∧ ∃ t' ∈ t :: rest, s = ⟨t.start, t'.stop⟩

/-- Some tokens of a text with the one that stands for the end of the text. -/
def Reading.toEnd (r : Reading) (ts : List Token) : List Token := ts ++ [Token.endOfText r.length]

/-- Whether some tokens can be refused with an error: there is a cause, it is placed at tokens, and
if it is about a macro it is placed where the macro is used. -/
structure Reading.Refusal (r : Reading) (ts : List Token) (e : ParseError) : Prop where
  cause : e.Proper
  place : e.span.Reaches (r.toEnd ts)
  use : ∀ X, e.cause.identifier? = some X → ∃ t ∈ ts, t.text = X ∧ e.span = t.span

namespace PartCycle

variable {kind : PartKind} {sign : Option Symbol} {faces : List Symbol} {number layerCount : Int}
variable {c c' : PartCycle} {fault : Fault}

theorem exists_signTwist (hsign : ∀ s, sign = some s → s ∈ Symbol.signs) (kind : PartKind) :
    ∃ twist, signTwist sign kind = .ok twist := by
  cases sign with
  | none => exact ⟨0, rfl⟩
  | some s =>
    have hs := hsign s rfl
    simp only [Symbol.signs, List.mem_cons, List.not_mem_nil, or_false] at hs
    rcases hs with rfl | rfl | rfl
    all_goals exact ⟨_, rfl⟩

theorem exists_mapM_ofSymbol? (hfaces : ∀ s ∈ faces, s ∈ Symbol.faces) :
    ∃ there, faces.mapM Face.ofSymbol? = some there ∧ there.length = faces.length := by
  have hface : ∀ s ∈ Symbol.faces, (Face.ofSymbol? s).isSome = true := by decide
  induction faces with
  | nil => exact ⟨[], rfl, rfl⟩
  | cons s faces ih =>
    obtain ⟨there, hthere, hlength⟩ := ih fun s hs => hfaces s (List.mem_cons_of_mem _ hs)
    obtain ⟨face, hs⟩ := Option.isSome_iff_exists.mp (hface s (hfaces s List.mem_cons_self))
    exact ⟨face :: there, by simp [List.mapM_cons, hs, hthere], by simp [hlength]⟩

theorem proper_of_sideItem {face : Face} {rest : List Face} {twist : Nat} :
    RefusedFor Fault.Proper (c.sideItem (face :: rest) number twist layerCount) := by
  unfold sideItem
  exact .ite (fun _ => .error trivial) fun _ => .ok _

theorem proper_of_edgeItem {there : List Face} :
    RefusedFor Fault.Proper (edgeItem there number layerCount) := by
  unfold edgeItem
  refine .ite (fun _ => .error trivial) fun _ => ?_
  cases locationOf? edgeFaces there with
  | none => exact .error trivial
  | some i => exact .ok _

theorem proper_of_cornerItem {there : List Face} :
    RefusedFor Fault.Proper (c.cornerItem there) := by
  unfold cornerItem
  cases locationOf? cornerFaces there with
  | none => exact .error trivial
  | some i => exact .ite (fun _ => .error trivial) fun _ => .ok _

/-- A part with a face is refused only for its place, its sign or its number. -/
theorem proper_of_item {twist : Nat} (hne : faces ≠ []) (hfaces : ∀ s ∈ faces, s ∈ Symbol.faces) :
    RefusedFor Fault.Proper (c.item kind sign twist faces number layerCount) := by
  obtain ⟨there, hthere, hlength⟩ := exists_mapM_ofSymbol? hfaces
  have hne' : there ≠ [] := by
    rintro rfl
    exact hne (List.eq_nil_of_length_eq_zero hlength.symm)
  obtain ⟨face, rest, rfl⟩ := List.exists_cons_of_ne_nil hne'
  simp only [item, hthere]
  cases kind with
  | side => exact proper_of_sideItem
  | edge => exact .ite (fun _ => proper_of_edgeItem) fun _ => .error trivial
  | corner => exact .ite (fun _ => .error trivial) fun _ => proper_of_cornerItem

/-- A cycle refuses a part with a face for its kind, its place, its sign or its number. -/
theorem proper_of_addItem (hsign : ∀ s, sign = some s → s ∈ Symbol.signs) (hne : faces ≠ [])
    (hfaces : ∀ s ∈ faces, s ∈ Symbol.faces)
    (h : addItem kind sign faces number layerCount c = .error fault c') : fault.Proper := by
  obtain ⟨twist, htwist⟩ := exists_signTwist hsign kind
  simp only [addItem_eq, htwist] at h
  split at h
  · injection h with hfault
    exact hfault ▸ trivial
  · split at h
    · injection h with hfault
      exact hfault ▸ trivial
    · unfold addNew at h
      split at h
      · rename_i hitem
        injection h with hfault
        exact hfault ▸ proper_of_item hne hfaces _ hitem
      · split at h
        · injection h with hfault
          exact hfault ▸ trivial
        · contradiction

end PartCycle

namespace Reading

variable {r : Reading} {ts ts' : List Token} {cycle : PartCycle} {e : ParseError}

/-! ## Errors at tokens -/

theorem suffix_toEnd (h : ts' <:+ ts) : r.toEnd ts' <:+ r.toEnd ts := by
  obtain ⟨front, rfl⟩ := h
  exact ⟨front, (List.append_assoc ..).symm⟩

theorem mem_toEnd (h : ts' <:+ ts) {t : Token} (ht : t ∈ r.toEnd ts') : t ∈ r.toEnd ts :=
  (suffix_toEnd h).subset ht

theorem toEnd_eq_cons (r : Reading) (ts : List Token) :
    ∃ rest, r.toEnd ts = r.peek ts :: rest := by
  cases ts with
  | nil => exact ⟨[], rfl⟩
  | cons t ts => exact ⟨r.toEnd ts, rfl⟩

theorem peek_mem_toEnd (r : Reading) (ts : List Token) : r.peek ts ∈ r.toEnd ts := by
  obtain ⟨rest, h⟩ := r.toEnd_eq_cons ts
  rw [h]
  exact List.mem_cons_self

/-- What refuses tokens refuses them with others in front of them. -/
theorem Refusal.mono (h : r.Refusal ts' e) (hts : ts' <:+ ts) : r.Refusal ts e := by
  refine ⟨h.cause, ?_, fun X hX => ?_⟩
  · obtain ⟨t, rest, hsuffix, hreach⟩ := h.place
    exact ⟨t, rest, hsuffix.trans (suffix_toEnd hts), hreach⟩
  · obtain ⟨t, ht, hspan⟩ := h.use X hX
    exact ⟨t, hts.subset ht, hspan⟩

theorem reaches_of_mem {t : Token} (ht : t ∈ r.toEnd ts) : t.span.Reaches (r.toEnd ts) := by
  obtain ⟨front, back, heq⟩ := List.append_of_mem ht
  exact ⟨t, back, ⟨front, heq.symm⟩, t, List.mem_cons_self, rfl⟩

/-- An error at a token. -/
theorem refusal_ofToken {cause : ParseError.Cause} {t : Token} (ht : t ∈ r.toEnd ts)
    (hcause : cause.Proper) (hnone : cause.identifier? = none) :
    r.Refusal ts (.ofToken cause t) := by
  refine ⟨hcause, reaches_of_mem ht, fun X hX => ?_⟩
  rw [show (ParseError.ofToken cause t).cause = cause from rfl, hnone] at hX
  contradiction

/-- An error from the next token on. -/
theorem refusal_from_peek {cause : ParseError.Cause} {found : Option String} {t : Token}
    (ht : t ∈ r.toEnd ts) (hcause : cause.Proper) (hnone : cause.identifier? = none) :
    r.Refusal ts ⟨cause, ⟨(r.peek ts).start, t.stop⟩, found⟩ := by
  refine ⟨hcause, ?_, fun X hX => ?_⟩
  · obtain ⟨rest, heq⟩ := r.toEnd_eq_cons ts
    rw [heq] at ht ⊢
    exact ⟨_, rest, List.suffix_refl _, t, ht, rfl⟩
  · rw [hnone] at hX
    contradiction

/-! ## Cycles of parts -/

theorem suffix_of_takeSignIf (r : Reading) (wanted : Bool) (ts : List Token) :
    (r.takeSignIf wanted ts).2 <:+ ts := ⟨_, (r.takeSignIf_tokens wanted ts).1.symm⟩

theorem mem_of_takeSignIf {wanted : Bool} {t : Token} (h : (r.takeSignIf wanted ts).1 = some t) :
    t ∈ ts := by
  rw [(r.takeSignIf_tokens wanted ts).1, h]
  exact List.mem_cons_self

theorem suffix_facesOfPart (r : Reading) (ts : List Token) : (r.facesOfPart ts).2 <:+ ts :=
  List.IsSuffix.trans ⟨_, (r.eq_append_of_takeFaces 3 _).1.symm⟩ (r.suffix_of_takeSignIf _ ts)

theorem suffix_numberOfPart (r : Reading) (ts : List Token) : (r.numberOfPart ts).2 <:+ ts := by
  obtain ⟨number, htokens, -⟩ := r.takeNumber_tokens (r.facesOfPart ts).2
  exact List.IsSuffix.trans ⟨_, htokens.symm⟩ (r.suffix_facesOfPart ts)

theorem refused_of_partNumber {n : Nat} {kind : PartKind} {number : Int} :
    RefusedFor (fun cause => cause.Proper ∧ cause.identifier? = none)
      (partNumber n kind number) := by
  unfold partNumber
  split
  exact .ite (fun _ => .error ⟨trivial, rfl⟩) fun _ => .ok _

theorem refused_of_readPart : RefusedFor (r.Refusal ts) (r.readPart cycle ts) := by
  have hfaces : ∀ s ∈ (r.facesOfPart ts).1.map Prod.snd, s ∈ Symbol.faces := by
    intro s hs
    obtain ⟨face, hface, rfl⟩ := List.mem_map.mp hs
    exact mem_faces_of_faceOf? ((r.eq_append_of_takeFaces 3 _).2.2 face hface)
  have hnext : r.peek (r.facesOfPart ts).2 ∈ r.toEnd ts :=
    mem_toEnd (r.suffix_facesOfPart ts) (r.peek_mem_toEnd _)
  have hbehind : r.peek (r.numberOfPart ts).2 ∈ r.toEnd ts :=
    mem_toEnd (r.suffix_numberOfPart ts) (r.peek_mem_toEnd _)
  rw [readPart_eq]
  refine .dite (fun _ => .error (refusal_ofToken hnext trivial rfl)) fun hsome =>
    .ite (fun _ => .error (refusal_from_peek hnext trivial rfl)) fun _ => ?_
  have hne : (r.facesOfPart ts).1.map Prod.snd ≠ [] := by
    rw [ne_eq, List.map_eq_nil_iff]
    exact fun hnil => hsome (by rw [hnil]; rfl)
  split
  · rename_i cause hnumber
    obtain ⟨hcause, hnone⟩ := refused_of_partNumber cause hnumber
    exact .error (refusal_ofToken hnext hcause hnone)
  · split
    · rename_i hadd
      have hcause := PartCycle.proper_of_addItem (fun s => mem_signs_of_signOfPart) hne hfaces hadd
      refine .error (refusal_from_peek ?_ hcause rfl)
      split
      · exact hbehind
      · exact hnext
    · exact .ok _

theorem refused_of_readParts : RefusedFor (r.Refusal ts) (r.readParts cycle ts) := by
  fun_induction readParts r cycle ts with
  | case1 => exact .error (refusal_ofToken (r.peek_mem_toEnd []) trivial rfl)
  | case2 | case5 | case6 | case9 => exact .ok _
  | case3 cycle t rest hend e' hpart => exact .error (refused_of_readPart e' hpart)
  | case4 cycle t rest hend cycle' rest' hlt hpart =>
    rename_i e' hparts ih
    obtain ⟨us, htokens, -⟩ := partTokens_of_readPart ⟨hlt, hpart⟩
    exact .error ((ih e' hparts).mono ((List.tail_suffix rest').trans ⟨us, htokens.symm⟩))
  | case7 cycle t rest hend cycle' rest' hlt hpart =>
    obtain ⟨us, htokens, -⟩ := partTokens_of_readPart ⟨hlt, hpart⟩
    refine .error (refusal_ofToken (mem_toEnd ?_ (r.peek_mem_toEnd _)) trivial rfl)
    exact (List.tail_suffix rest').trans ⟨us, htokens.symm⟩
  | case8 cycle t rest hend cycle' rest' hlt hpart =>
    rename_i e' hparts ih
    obtain ⟨us, htokens, -⟩ := partTokens_of_readPart ⟨hlt, hpart⟩
    exact .error ((ih e' hparts).mono ⟨us, htokens.symm⟩)

theorem refused_of_withSign {span : Span} {signToken : Option Token}
    (hsign : ∀ t ∈ signToken, t ∈ ts) :
    RefusedFor (r.Refusal ts) (r.withSign span cycle signToken) := by
  cases signToken with
  | none => exact .ok _
  | some t =>
    cases hkind : cycle.kind with
    | none =>
      simp only [withSign, hkind]
      exact .ok _
    | some kind =>
      obtain ⟨twist, htwist⟩ := PartCycle.exists_signTwist
        (fun s (hs : r.signOf? t = some s) => mem_signs_of_signOf? hs) kind
      have ht : t ∈ r.toEnd ts := List.mem_append_left _ (hsign t rfl)
      rw [withSign_of_kind hkind, htwist]
      exact .ite (fun _ => .error (refusal_ofToken ht trivial rfl)) fun _ => .ok _

theorem refused_of_readPermutation {start : Nat} {leading : Option Token}
    (hleading : ∀ t ∈ leading, t ∈ ts) (hts : ts' <:+ ts) :
    RefusedFor (r.Refusal ts) (r.readPermutation start leading ts') := by
  unfold readPermutation
  dsimp only
  have hopened := r.suffix_of_takeSignIf (r.grammar.fixity .permutation = .precircumfixed) ts'
  split
  · rename_i hparts
    exact .error ((refused_of_readParts _ hparts).mono (hopened.trans hts))
  · rename_i cycle sign stop rest hlt hparts
    obtain ⟨us, htokens, hus⟩ := (ReadsParts.of_gives ⟨hlt, hparts⟩).tokens
    have hinner : ∀ t ∈ us ++ rest, t ∈ ts := fun t ht => (hopened.trans hts).subset (htokens ▸ ht)
    split
    · rename_i hsign
      refine .error (refused_of_withSign (fun t ht => ?_) _ hsign)
      simp only [Option.orElse_eq_orElse, Option.orElse_eq_or, Option.mem_def,
        Option.or_eq_some_iff] at ht
      rcases ht with ht | ⟨-, ht | ⟨-, ht | ⟨-, ht⟩⟩⟩
      · exact hinner t (List.mem_append_right _ (mem_of_takeSignIf ht))
      · exact hinner t (List.mem_append_left _ ((mem_of_partsTokens hus).2 t ht))
      · exact hts.subset (mem_of_takeSignIf ht)
      · exact hleading t ht
    · exact .ok _

/-! ## Repeat counts and brackets -/

theorem refused_of_readCount : RefusedFor (r.Refusal ts) (r.readCount ts) := by
  unfold readCount
  dsimp only
  split
  · exact .error (refusal_ofToken (mem_toEnd (List.nil_suffix) (r.peek_mem_toEnd [])) trivial rfl)
  · rename_i number rest _ _ hnumber _
    have ht : number ∈ r.toEnd ts := by
      refine List.mem_append_left _ ?_
      split at hnumber
      · exact List.mem_of_mem_tail (hnumber ▸ List.mem_cons_self)
      · exact hnumber ▸ List.mem_cons_self
    split
    · exact .error (refusal_ofToken ht trivial rfl)
    · split
      · exact .error (refusal_ofToken ht trivial rfl)
      · exact .ite (fun _ => .ok _) fun _ => .ok _

/-- An error in a compound statement reaches from its bracket to the one that closes it. -/
theorem refused_of_close {c : Compound} {opening closing : Token} {us : List Token}
    (hts : opening :: us <:+ ts) (hclosing : closing ∈ us) :
    RefusedFor (r.Refusal ts) (c.close opening.start closing) := by
  have herror : ∀ kinds, r.Refusal ts
      ⟨.compound kinds, ⟨opening.start, closing.stop⟩, none⟩ := by
    intro kinds
    have hhere : r.Refusal (opening :: us) ⟨.compound kinds, ⟨opening.start, closing.stop⟩, none⟩ :=
      refusal_from_peek (List.mem_append_left _ (List.mem_cons_of_mem _ hclosing)) trivial rfl
    exact hhere.mono hts
  unfold Compound.close
  dsimp only
  split
  · split
    · exact .ok _
    · exact .error (herror _)
  · split
    · exact .ok _
    · exact .ok _
    · exact .ok _
    · exact .error (herror _)

end Reading

end CubeLang
