import CubeLang.Proofs.Grammar.CycleDerivation

/-!
# Cycles without what stands behind them

A reader looks at the token behind what it takes, to see whether it goes on. If there is none it does
not go on either. So what is read of some tokens is read of those that are taken too, whatever part of
the others stands behind them.
-/

set_option autoImplicit false

namespace CubeLang

/-- What is read of `ts` up to `rest` is read too if only a part of `rest` stands behind what is
taken. -/
def Confined (ts rest : List Token) (reads : List Token → List Token → Prop) : Prop :=
  ∃ taken, ts = taken ++ rest ∧ ∀ left, left <+: rest → reads (taken ++ left) left

namespace Confined

variable {ts rest rest' : List Token} {t : Token}
variable {reads reads' reads'' : List Token → List Token → Prop}

theorem refl (h : ∀ left, left <+: ts → reads left left) : Confined ts ts reads := ⟨[], rfl, h⟩

theorem token (h : ∀ left, reads (t :: left) left) : Confined (t :: rest) rest reads :=
  ⟨[t], rfl, fun left _ => h left⟩

theorem next (t : Token) (rest : List Token) :
    Confined (t :: rest) rest fun us left => us = t :: left := token fun _ => rfl

theorem imp (h : Confined ts rest reads) (himp : ∀ us left, reads us left → reads' us left) :
    Confined ts rest reads' := by
  obtain ⟨taken, hts, hreads⟩ := h
  exact ⟨taken, hts, fun left hleft => himp _ _ (hreads left hleft)⟩

/-- What one reader leaves is read by another one. -/
theorem andThen (h : Confined ts rest reads) (h' : Confined rest rest' reads')
    (hboth : ∀ us behind left, reads us behind → reads' behind left → reads'' us left) :
    Confined ts rest' reads'' := by
  obtain ⟨taken, rfl, hreads⟩ := h
  obtain ⟨taken', rfl, hreads'⟩ := h'
  refine ⟨taken ++ taken', (List.append_assoc ..).symm, fun left hleft => ?_⟩
  rw [List.append_assoc]
  exact hboth _ _ _ (hreads _ ((List.prefix_append_right_inj taken').mpr hleft)) (hreads' left hleft)

/-- What is not read of no tokens begins with the first one. -/
theorem head (h : Confined (t :: ts) rest reads) (hne : ∀ us left, reads us left → us ≠ []) :
    Confined (t :: ts) rest fun us left => (∃ us', us = t :: us') ∧ reads us left := by
  obtain ⟨taken, hts, hreads⟩ := h
  refine ⟨taken, hts, fun left hleft => ⟨?_, hreads left hleft⟩⟩
  have hpart : taken ++ left <+: t :: ts := hts ▸ (List.prefix_append_right_inj taken).mpr hleft
  rcases List.prefix_cons_iff.mp hpart with hnil | ⟨us, hus, -⟩
  · exact absurd hnil (hne _ _ (hreads left hleft))
  · exact ⟨us, hus⟩

/-- What is read is read without anything behind the last token that was taken. -/
theorem upTo {front : List Token} {last : Token} (h : Confined ts rest reads)
    (hts : ts = front ++ last :: rest) : reads (front ++ [last]) [] := by
  obtain ⟨taken, htaken, hreads⟩ := h
  obtain rfl : taken = front ++ [last] := by
    rw [hts, List.append_cons] at htaken
    exact (List.append_cancel_right htaken).symm
  have hnothing := hreads [] (List.nil_prefix)
  rwa [List.append_nil] at hnothing

end Confined

/-- What is read of `ts` up to `rest` as a script is read without what stands behind it, and also of the
tokens up to the one where the script stops: what was taken behind that one does not matter. -/
structure Contained (ts rest : List Token) (s : Script) (reads : List Token → List Token → Prop) :
    Prop where
  confined : Confined ts rest reads
  ends : ∃ front last dropped, ts = front ++ last :: (dropped ++ rest) ∧
    (last.stop : Int) ≤ s.span.stop ∧ reads (front ++ [last]) []

namespace Contained

variable {ts rest rest' : List Token} {s s' : Script}
variable {reads reads' reads'' : List Token → List Token → Prop}

/-- What is read up to the token where the script stops. -/
theorem of_last (front : List Token) {last : Token} (h : Confined ts rest reads)
    (hts : ts = front ++ last :: rest) (hlast : (last.stop : Int) ≤ s.span.stop) :
    Contained ts rest s reads := ⟨h, front, last, [], hts, hlast, h.upTo hts⟩

theorem token {t : Token} (hstop : (t.stop : Int) ≤ s.span.stop) (h : ∀ left, reads (t :: left) left) :
    Contained (t :: rest) rest s reads := of_last [] (.token h) rfl hstop

theorem imp (h : Contained ts rest s reads) (hstop : s.span.stop ≤ s'.span.stop)
    (himp : ∀ us left, left <+: rest → reads us left → reads' us left) :
    Contained ts rest s' reads' := by
  refine ⟨?_, ?_⟩
  · obtain ⟨taken, hts, hreads⟩ := h.confined
    exact ⟨taken, hts, fun left hleft => himp _ _ hleft (hreads left hleft)⟩
  · obtain ⟨front, last, dropped, hts, hlast, hreads⟩ := h.ends
    exact ⟨front, last, dropped, hts, Int.le_trans hlast hstop, himp _ _ List.nil_prefix hreads⟩

/-- The first token is among those that are needed. -/
theorem head {t : Token} (h : Contained (t :: ts) rest s reads)
    (hne : ∀ us left, reads us left → us ≠ []) :
    Contained (t :: ts) rest s fun us left => (∃ us', us = t :: us') ∧ reads us left := by
  obtain ⟨front, last, dropped, hts, hlast, hreads⟩ := h.ends
  refine ⟨h.confined.head hne, front, last, dropped, hts, hlast, ?_, hreads⟩
  cases front with
  | nil => exact ⟨[], by rw [(List.cons.inj hts).1, List.nil_append]⟩
  | cons t' front => exact ⟨front ++ [last], by rw [(List.cons.inj hts).1, List.cons_append]⟩

/-- What is read in front of a script is read in front of what is needed of it, too. -/
theorem behind (h : Contained rest rest' s reads') (hfront : Confined ts rest reads)
    (hstop : s.span.stop ≤ s'.span.stop)
    (hboth : ∀ us behind left, reads us behind → reads' behind left → reads'' us left) :
    Contained ts rest' s' reads'' := by
  refine ⟨hfront.andThen h.confined hboth, ?_⟩
  obtain ⟨front, last, dropped, rfl, hlast, hreads'⟩ := h.ends
  obtain ⟨taken, rfl, hreads⟩ := hfront
  have hpart : front ++ [last] <+: front ++ last :: (dropped ++ rest') :=
    ⟨dropped ++ rest', List.append_assoc front [last] _⟩
  have hall := hboth _ _ _ (hreads _ hpart) hreads'
  rw [← List.append_assoc] at hall
  exact ⟨taken ++ front, last, dropped, (List.append_assoc ..).symm, Int.le_trans hlast hstop, hall⟩

end Contained

namespace Reading

variable {r : Reading} {ts rest : List Token} {c c' : PartCycle}

/-- Where some of the next tokens are left, the next one is the same, or the text ends. -/
theorem peek_of_prefix {left : List Token} (h : left <+: ts) :
    r.peek left = r.peek [] ∨ r.peek left = r.peek ts := by
  cases left with
  | nil => exact Or.inl rfl
  | cons t left =>
    obtain ⟨ts, rfl⟩ := h
    exact Or.inr rfl

/-! ## Pieces of parts -/

theorem confined_takeSignIf (r : Reading) (wanted : Bool) (ts : List Token) :
    Confined ts (r.takeSignIf wanted ts).2 fun us left =>
      r.takeSignIf wanted us = ((r.takeSignIf wanted ts).1, left) := by
  cases wanted with
  | false => exact .refl fun _ _ => rfl
  | true =>
    cases ts with
    | nil => exact .refl fun left hleft => by rw [List.prefix_nil.mp hleft, r.takeSignIf_nil]
    | cons t ts =>
      by_cases hsign : (r.signOf? t).isSome = true
      · have htaken : ∀ us, r.takeSignIf true (t :: us) = (some t, us) := fun us => if_pos hsign
        rw [htaken]
        exact .token htaken
      · have hnone : ∀ us, r.takeSignIf true (t :: us) = (none, t :: us) := fun us => if_neg hsign
        rw [hnone]
        refine .refl fun left hleft => ?_
        rcases List.prefix_cons_iff.mp hleft with rfl | ⟨us, rfl, -⟩
        · rfl
        · exact hnone us

theorem confined_takeFaces (r : Reading) (k : Nat) (ts : List Token) :
    Confined ts (r.takeFaces k ts).2 fun us left =>
      r.takeFaces k us = ((r.takeFaces k ts).1, left) := by
  induction k generalizing ts with
  | zero => exact .refl fun _ _ => rfl
  | succ k ih =>
    cases ts with
    | nil => exact .refl fun left hleft => by rw [List.prefix_nil.mp hleft]; rfl
    | cons t ts =>
      cases hface : r.faceOf? t with
      | none =>
        have hnone : ∀ us, r.takeFaces (k + 1) (t :: us) = ([], t :: us) := fun us => by
          simp [takeFaces, hface]
        rw [hnone]
        refine .refl fun left hleft => ?_
        rcases List.prefix_cons_iff.mp hleft with rfl | ⟨us, rfl, -⟩
        · rfl
        · exact hnone us
      | some face =>
        have htaken : ∀ us, r.takeFaces (k + 1) (t :: us) =
            ((t, face) :: (r.takeFaces k us).1, (r.takeFaces k us).2) := fun us => by
          simp [takeFaces, hface]
        rw [htaken]
        refine (Confined.next t ts).andThen (ih ts) fun us behind left hus hbehind => ?_
        rw [hus, htaken, hbehind]

theorem confined_takeNumber (r : Reading) (ts : List Token) :
    Confined ts (r.takeNumber ts).2 fun us left => r.takeNumber us = ((r.takeNumber ts).1, left) := by
  unfold takeNumber
  cases hvalue : (r.peek ts).value? with
  | none =>
    refine .refl fun left hleft => ?_
    rcases peek_of_prefix hleft with hpeek | hpeek
    · rw [hpeek]
      rfl
    · rw [hpeek, hvalue]
  | some value =>
    cases ts with
    | nil => contradiction
    | cons t ts =>
      have hvalue : t.value? = some value := hvalue
      exact .token fun left => by simp [peek, hvalue]

/-! ## Cycles -/

/-- The pieces of a part are found without what stands behind it. -/
theorem confined_pieces (r : Reading) (ts : List Token) :
    Confined ts (r.signBehind ts).2 fun us left =>
      (r.signInFront us).1 = (r.signInFront ts).1 ∧ (r.facesOfPart us).1 = (r.facesOfPart ts).1 ∧
        (r.numberOfPart us).1 = (r.numberOfPart ts).1 ∧
        r.signBehind us = ((r.signBehind ts).1, left) := by
  have hfront : Confined ts (r.signInFront ts).2 fun us left =>
      r.signInFront us = ((r.signInFront ts).1, left) := r.confined_takeSignIf _ ts
  have hfaces : Confined ts (r.facesOfPart ts).2 fun us left =>
      (r.signInFront us).1 = (r.signInFront ts).1 ∧
        r.facesOfPart us = ((r.facesOfPart ts).1, left) :=
    hfront.andThen (r.confined_takeFaces 3 _) fun us behind left hus hbehind => by
      rw [facesOfPart, hus]
      exact ⟨rfl, hbehind⟩
  have hnumber : Confined ts (r.numberOfPart ts).2 fun us left =>
      (r.signInFront us).1 = (r.signInFront ts).1 ∧ (r.facesOfPart us).1 = (r.facesOfPart ts).1 ∧
        r.numberOfPart us = ((r.numberOfPart ts).1, left) :=
    hfaces.andThen (r.confined_takeNumber _) fun us behind left hus hbehind => by
      rw [numberOfPart, hus.2]
      exact ⟨hus.1, rfl, hbehind⟩
  refine hnumber.andThen (r.confined_takeSignIf _ _) fun us behind left hus hbehind => ?_
  obtain ⟨hsign, hfaces, hnumber⟩ := hus
  rw [signBehind, hnumber, kindOfPart, hfaces]
  exact ⟨hsign, rfl, rfl, hbehind⟩

theorem confined_readPart (h : Gives (r.readPart c ts) c' rest) :
    Confined ts rest fun us left => Gives (r.readPart c us) c' left := by
  obtain ⟨hsome, hsmall, part, hpart, hadd, rfl⟩ := gives_readPart_iff.mp h
  refine (r.confined_pieces ts).imp fun us left hpieces => ?_
  obtain ⟨hsign, hfaces, hnumber, hbehind⟩ := hpieces
  refine gives_readPart_iff.mpr ⟨by rwa [hfaces], by rwa [hfaces], part, ?_, ?_, by rw [hbehind]⟩
  · rw [kindOfPart, hfaces, hnumber]
    exact hpart
  · rw [kindOfPart, signOfPart, hfaces, hbehind, hsign]
    exact hadd

/-- The parts of a cycle are read up to the closing bracket without what stands behind it. -/
theorem ReadsParts.confined {closed : Closed} (h : r.ReadsParts c ts closed rest) :
    Confined ts rest fun us left => r.ReadsParts c us closed left := by
  have hfront : ∀ {c c' : PartCycle} {t : Token} {ts behind : List Token},
      Gives (r.readPart c (t :: ts)) c' behind → Confined (t :: ts) behind fun us left =>
        (∃ us', us = t :: us') ∧ Gives (r.readPart c us) c' left :=
    fun hpart => (confined_readPart hpart).head fun _ _ h => h.ne_nil
  induction h with
  | closed hclosing => exact .token fun _ => .closed hclosing
  | @delimited _ _ _ t' _ behind _ _ hopen hpart hdelimiter _ ih =>
    have hothers := (Confined.next t' behind).andThen ih fun us behind left hus hbehind =>
      (⟨behind, hus, hbehind⟩ : ∃ us', us = t' :: us' ∧ r.ReadsParts _ us' _ left)
    refine (hfront hpart).andThen hothers fun us behind left hus hbehind => ?_
    obtain ⟨⟨us, rfl⟩, hpart⟩ := hus
    obtain ⟨behind, rfl, hparts⟩ := hbehind
    exact .delimited hopen hpart hdelimiter hparts
  | @signed _ _ _ t' t'' _ rest hopen hpart hdelimiter hfixity hsign hclosing =>
    have hrest : Confined (t' :: t'' :: rest) rest fun us left => us = t' :: t'' :: left :=
      ⟨[t', t''], rfl, fun _ _ => rfl⟩
    refine (hfront hpart).andThen hrest fun us behind left hus hbehind => ?_
    obtain ⟨⟨us, rfl⟩, hpart⟩ := hus
    subst hbehind
    exact .signed hopen hpart hdelimiter hfixity hsign hclosing
  | part hopen hpart hdelimiter hsign _ ih =>
    have hothers := ih.head fun _ _ h => h.ne_nil
    refine (hfront hpart).andThen hothers fun us behind left hus hbehind => ?_
    obtain ⟨⟨us, rfl⟩, hpart⟩ := hus
    obtain ⟨⟨behind, rfl⟩, hparts⟩ := hbehind
    exact .part hopen hpart hdelimiter hsign hparts

/-- The sign of an empty cycle is ignored. -/
theorem withSign_of_empty {span : Span} (hkind : c.kind = none) (o : Option Token) :
    r.withSign span c o = .ok (.permutation span c) := by
  unfold withSign
  rw [hkind]
  cases o <;> rfl

/-- A cycle with parts reaches up to its bracket and up to its sign. -/
theorem le_stop_of_withSign {span : Span} {kind : PartKind} {o : Option Token} {s : Script}
    (hkind : c.kind = some kind) (h : r.withSign span c o = .ok s) :
    span.stop ≤ s.span.stop ∧ ∀ t ∈ o, (t.stop : Int) ≤ s.span.stop := by
  cases o with
  | none =>
    obtain rfl := Except.ok.inj h
    exact ⟨Int.le_refl _, fun t ht => nomatch ht⟩
  | some t =>
    rw [withSign_of_kind hkind] at h
    split at h
    · contradiction
    · split at h
      · contradiction
      · obtain rfl := Except.ok.inj h
        refine ⟨Int.le_max_left _ _, fun t' ht' => ?_⟩
        obtain rfl := Option.some.inj ht'
        exact Int.le_max_right _ _

/-- A cycle is read up to its closing bracket without what stands behind it. -/
theorem confined_brackets {opened : Option Token} {inner behind : List Token} {closed : Closed}
    (hopened : r.takeSignIf (r.grammar.fixity .permutation = .precircumfixed) ts = (opened, inner))
    (hparts : r.ReadsParts {} inner closed behind) :
    (∃ front last, ts = front ++ last :: behind ∧ closed.stop = last.stop) ∧
      Confined ts behind fun us left => ∃ inner,
        r.takeSignIf (r.grammar.fixity .permutation = .precircumfixed) us = (opened, inner) ∧
          r.ReadsParts {} inner closed left := by
  have hfront := r.confined_takeSignIf (r.grammar.fixity .permutation = .precircumfixed) ts
  rw [hopened] at hfront
  refine ⟨?_, hfront.andThen hparts.confined fun us behind left hus hbehind => ⟨behind, hus, hbehind⟩⟩
  obtain ⟨us, hinner, htokens⟩ := hparts.tokens
  obtain ⟨front, last, rfl, hstop⟩ := htokens.exists_last
  have htaken := (r.takeSignIf_tokens (r.grammar.fixity .permutation = .precircumfixed) ts).1
  rw [hopened] at htaken
  refine ⟨opened.toList ++ front, last, ?_, hstop⟩
  calc ts = opened.toList ++ inner := htaken
    _ = opened.toList ++ (front ++ [last] ++ behind) := congrArg (opened.toList ++ ·) hinner
    _ = _ := by simp only [List.append_assoc, List.singleton_append]

/-- A cycle is read without what stands behind it. It stops at its sign, if that stands behind the
bracket; but the sign of an empty cycle is no part of it, and may be missing. -/
theorem ReadsPermutation.contained {start : Nat} {leading : Option Token} {s : Script}
    (h : r.ReadsPermutation start leading ts s rest) :
    Contained ts rest s fun us left => r.ReadsPermutation start leading us s left := by
  obtain @⟨opened, trailing, inner, behind, closed, hopened, hparts, htrailing, hsign⟩ := h
  obtain ⟨⟨front, last, htokens, hstop⟩, hfront⟩ := confined_brackets hopened hparts
  have hback := r.confined_takeSignIf (r.grammar.fixity .permutation = .suffixed) behind
  have htaken := (r.takeSignIf_tokens (r.grammar.fixity .permutation = .suffixed) behind).1
  rw [htrailing] at hback htaken
  have hwhole : Confined ts rest fun us left => r.ReadsPermutation start leading us s left :=
    hfront.andThen hback fun us behind left hus hbehind => by
      obtain ⟨inner', hopened', hparts'⟩ := hus
      exact .intro hopened' hparts' hbehind hsign
  cases hkind : closed.cycle.kind with
  | some kind =>
    obtain ⟨hbracket, hsigns⟩ := le_stop_of_withSign hkind hsign
    cases trailing with
    | none =>
      rw [htaken] at htokens
      exact .of_last _ hwhole htokens (by rw [← hstop]; exact hbracket)
    | some t =>
      rw [htaken, List.append_cons] at htokens
      exact .of_last _ hwhole htokens (hsigns t rfl)
  | none =>
    rw [withSign_of_empty hkind] at hsign
    obtain rfl := Except.ok.inj hsign
    obtain ⟨inner', hopened', hparts'⟩ := hfront.upTo htokens
    rw [htaken] at htokens
    refine ⟨hwhole, front, last, trailing.toList, htokens, Int.le_of_eq ?_, ?_⟩
    · exact congrArg Nat.cast hstop.symm
    · exact .intro hopened' hparts' (r.takeSignIf_nil _) (withSign_of_empty hkind _)

end Reading

end CubeLang
