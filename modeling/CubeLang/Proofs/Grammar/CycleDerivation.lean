import CubeLang.Proofs.Grammar.PartPieces

/-!
# The tokens of cycles

What the tokens of a part and of a cycle of parts are, without saying how they are read: one token
after the other, each in its place, with nothing in between. Whatever is read as a part or as a cycle
has such tokens, and what is left are the tokens behind them.
-/

set_option autoImplicit false

namespace CubeLang.Reading

variable {r : Reading} {ts rest : List Token} {c c' : PartCycle}

/-- Whether a token stands where signs stand, and is one. -/
def SignAt (r : Reading) (place : Prop) (o : Option Token) : Prop :=
  ∀ t ∈ o, place ∧ (r.signOf? t).isSome = true

/-- The tokens of a part and the cycle that has it added: a sign in front, one to three faces, a
number, a sign behind. -/
inductive PartTokens (r : Reading) (c c' : PartCycle) : List Token → Prop
  | intro {front number back : Option Token} {faces : List (Token × Symbol)} {part : Int}
      (hfront : r.SignAt (signsLead (r.grammar.fixity .permutation) = true) front)
      (hfaces : ∀ face ∈ faces, r.faceOf? face.1 = some face.2)
      (hlength : 1 ≤ faces.length ∧ faces.length ≤ 3)
      (hcube : 3 ≤ r.grammar.terms.layerCount ∨ faces.length = 3)
      (hnumber : ∀ t ∈ number, t.value?.isSome = true)
      (hback : r.SignAt (r.grammar.fixity .permutation = .suffixed ∧ faces.length = 1) back)
      (hpart : partNumber r.grammar.terms.layerCount (kindOfFaces faces.length)
        ((number.bind Token.value?).getD 0) = .ok part)
      (hadd : PartCycle.addItem (kindOfFaces faces.length) ((back.or front).bind r.signOf?)
        (faces.map Prod.snd) part r.grammar.terms.layerCount c = .ok () c') :
      PartTokens r c c' (front.toList ++ faces.map Prod.fst ++ number.toList ++ back.toList)

/-- The tokens of the parts of a cycle and of the bracket that closes it: behind each part there may be
one delimiter, and in front of the bracket a sign. -/
inductive PartsTokens (r : Reading) : PartCycle → List Token → Closed → Prop
  | close {c : PartCycle} {t : Token} (hclosing : r.grammar.isA .permutationEnd t = true) :
      PartsTokens r c [t] ⟨c, none, t.stop⟩
  | part {c c' : PartCycle} {us ts : List Token} {closed : Closed} (hpart : r.PartTokens c c' us)
      (hparts : PartsTokens r c' ts closed) : PartsTokens r c (us ++ ts) closed
  | delimited {c c' : PartCycle} {us ts : List Token} {t : Token} {closed : Closed}
      (hpart : r.PartTokens c c' us)
      (hdelimiter : r.grammar.isA .permutationDelimiter t = true)
      (hparts : PartsTokens r c' ts closed) : PartsTokens r c (us ++ t :: ts) closed
  | signed {c c' : PartCycle} {us : List Token} {t t' : Token} (hpart : r.PartTokens c c' us)
      (hsign : r.SignAt (r.grammar.fixity .permutation = .postcircumfixed) (some t))
      (hclosing : r.grammar.isA .permutationEnd t' = true) :
      PartsTokens r c (us ++ [t, t']) ⟨c', some t, t'.stop⟩

/-- The tokens of a cycle: a sign in one of the four places, the bracket that opens it, its parts and
the bracket that closes it. -/
inductive PermutationTokens (r : Reading) : List Token → Script → Prop
  | intro {leading opened trailing : Option Token} {opening : Token} {ts : List Token}
      {closed : Closed} {s : Script}
      (hleading : r.SignAt (r.grammar.fixity .permutation = .prefixed) leading)
      (hopening : r.grammar.isA .permutationBegin opening = true)
      (hopened : r.SignAt (r.grammar.fixity .permutation = .precircumfixed) opened)
      (hparts : r.PartsTokens {} ts closed)
      (htrailing : r.SignAt (r.grammar.fixity .permutation = .suffixed) trailing)
      (hsign : r.withSign ⟨(leading.getD opening).start, closed.stop⟩ closed.cycle
        (trailing.or (closed.sign.or (opened.or leading))) = .ok s) :
      PermutationTokens r (leading.toList ++ opening :: (opened.toList ++ ts ++ trailing.toList)) s

/-- The offset where a cycle is closed, and its sign, are those of its tokens. -/
theorem mem_of_partsTokens {closed : Closed} (h : r.PartsTokens c ts closed) :
    (∃ t ∈ ts, closed.stop = t.stop) ∧ ∀ t ∈ closed.sign, t ∈ ts := by
  induction h with
  | close => simp
  | part hpart hparts ih =>
    obtain ⟨⟨t, ht, hstop⟩, hsign⟩ := ih
    exact ⟨⟨t, List.mem_append_right _ ht, hstop⟩, fun t ht => List.mem_append_right _ (hsign t ht)⟩
  | delimited hpart hdelimiter hparts ih =>
    obtain ⟨⟨t, ht, hstop⟩, hsign⟩ := ih
    exact ⟨⟨t, List.mem_append_right _ (List.mem_cons_of_mem _ ht), hstop⟩,
      fun t ht => List.mem_append_right _ (List.mem_cons_of_mem _ (hsign t ht))⟩
  | @signed _ _ us t t' => exact ⟨⟨t', by simp, rfl⟩, by simp⟩

/-- A cycle is closed at the last of its tokens. -/
theorem PartsTokens.exists_last {closed : Closed} (h : r.PartsTokens c ts closed) :
    ∃ front last, ts = front ++ [last] ∧ closed.stop = last.stop := by
  induction h with
  | @close c t => exact ⟨[], t, rfl, rfl⟩
  | @part _ _ us _ _ _ _ ih =>
    obtain ⟨front, last, rfl, hstop⟩ := ih
    exact ⟨us ++ front, last, (List.append_assoc ..).symm, hstop⟩
  | @delimited _ _ us _ t _ _ _ _ ih =>
    obtain ⟨front, last, rfl, hstop⟩ := ih
    exact ⟨us ++ t :: front, last, (List.append_assoc us (t :: front) [last]).symm, hstop⟩
  | @signed _ _ us t t' => exact ⟨us ++ [t], t', (List.append_assoc us [t] [t']).symm, rfl⟩

/-- A sign changes nothing of a cycle but its twist, and that only if there are parts. -/
theorem eq_permutation_of_withSign {span : Span} {o : Option Token} {s : Script}
    (h : r.withSign span c o = .ok s) :
    ∃ span' twist, s = .permutation span' { c with sign := twist } ∧
      ((o = none ∨ c.kind = none) ∧ twist = c.sign ∨ ∃ t kind, o = some t ∧ c.kind = some kind ∧
        PartCycle.signTwist (r.signOf? t) kind = .ok twist) := by
  cases o with
  | none =>
    obtain rfl := Except.ok.inj h
    exact ⟨_, c.sign, rfl, Or.inl ⟨Or.inl rfl, rfl⟩⟩
  | some t =>
    cases hkind : c.kind with
    | none =>
      simp only [withSign, hkind] at h
      obtain rfl := Except.ok.inj h
      exact ⟨_, c.sign, by rw [← hkind], Or.inl ⟨Or.inr rfl, rfl⟩⟩
    | some kind =>
      rw [withSign_of_kind hkind] at h
      split at h
      · contradiction
      · split at h
        · contradiction
        · rename_i twist htwist
          obtain rfl := Except.ok.inj h
          exact ⟨_, twist, by rw [← hkind], Or.inr ⟨t, kind, rfl, rfl, htwist⟩⟩

/-! ## What is read -/

theorem takeSignIf_tokens (r : Reading) (wanted : Bool) (ts : List Token) :
    ts = (r.takeSignIf wanted ts).1.toList ++ (r.takeSignIf wanted ts).2 ∧
      r.SignAt (wanted = true) (r.takeSignIf wanted ts).1 := by
  cases wanted with
  | false => exact ⟨rfl, by simp [takeSignIf, SignAt]⟩
  | true =>
    cases ts with
    | nil => exact ⟨rfl, by simp [takeSignIf, takeSign, SignAt]⟩
    | cons t rest =>
      by_cases hsign : (r.signOf? t).isSome = true
      · simp [takeSignIf, takeSign, hsign, SignAt]
      · simp [takeSignIf, takeSign, hsign, SignAt]

theorem takeNumber_tokens (r : Reading) (ts : List Token) : ∃ number : Option Token,
    ts = number.toList ++ (r.takeNumber ts).2 ∧ (∀ t ∈ number, t.value?.isSome = true) ∧
      (r.takeNumber ts).1 = (number.bind Token.value?).getD 0 := by
  cases ts with
  | nil => exact ⟨none, rfl, by simp, rfl⟩
  | cons t rest =>
    cases hvalue : t.value? with
    | none =>
      refine ⟨none, ?_, by simp, ?_⟩
      all_goals simp [takeNumber, peek, hvalue]
    | some value =>
      refine ⟨some t, ?_, by simp [hvalue], ?_⟩
      all_goals simp [takeNumber, peek, hvalue]

/-- What is read as a part has the tokens of a part. -/
theorem partTokens_of_readPart (h : Gives (r.readPart c ts) c' rest) :
    ∃ us, ts = us ++ rest ∧ r.PartTokens c c' us := by
  obtain ⟨hsome, hsmall, part, hpart, hadd, rfl⟩ := gives_readPart_iff.mp h
  have hfront : ts = (r.signInFront ts).1.toList ++ (r.signInFront ts).2 ∧
      r.SignAt (signsLead (r.grammar.fixity .permutation) = true) (r.signInFront ts).1 :=
    r.takeSignIf_tokens _ ts
  have hfaces : (r.signInFront ts).2 =
      (r.facesOfPart ts).1.map Prod.fst ++ (r.facesOfPart ts).2 ∧
        (r.facesOfPart ts).1.length ≤ 3 ∧
        ∀ face ∈ (r.facesOfPart ts).1, r.faceOf? face.1 = some face.2 :=
    r.eq_append_of_takeFaces 3 _
  obtain ⟨number, hnumber, hvalue, hvalue'⟩ : ∃ number : Option Token,
      (r.facesOfPart ts).2 = number.toList ++ (r.numberOfPart ts).2 ∧
        (∀ t ∈ number, t.value?.isSome = true) ∧
        (r.numberOfPart ts).1 = (number.bind Token.value?).getD 0 :=
    r.takeNumber_tokens _
  have hback : (r.numberOfPart ts).2 = (r.signBehind ts).1.toList ++ (r.signBehind ts).2 ∧
      r.SignAt ((r.grammar.fixity .permutation = .suffixed && r.kindOfPart ts = .side) = true)
        (r.signBehind ts).1 := r.takeSignIf_tokens _ _
  have hside : r.kindOfPart ts = .side → (r.facesOfPart ts).1.length = 1 := by
    intro hkind
    unfold kindOfPart kindOfFaces at hkind
    split at hkind
    · assumption
    · contradiction
    · contradiction
  rw [hvalue'] at hpart
  rw [signOfPart, Option.orElse_eq_orElse, Option.orElse_eq_or] at hadd
  refine ⟨_, ?_, .intro hfront.2 hfaces.2.2 ⟨Nat.pos_of_ne_zero hsome, hfaces.2.1⟩ (by omega) hvalue
    (fun t ht => ?_) hpart hadd⟩
  · rw [List.append_assoc, ← hback.1, List.append_assoc, ← hnumber, List.append_assoc, ← hfaces.1]
    exact hfront.1
  · obtain ⟨hplace, hsign⟩ := hback.2 t ht
    simp only [Bool.and_eq_true, decide_eq_true_eq] at hplace
    exact ⟨⟨hplace.1, hside hplace.2⟩, hsign⟩

/-- What is read as the rest of a cycle has the tokens of its parts and its bracket. -/
theorem ReadsParts.tokens {closed : Closed} (h : r.ReadsParts c ts closed rest) :
    ∃ us, ts = us ++ rest ∧ r.PartsTokens c us closed := by
  induction h with
  | @closed c t ts hclosing => exact ⟨[t], rfl, .close hclosing⟩
  | @delimited c c' t t' _ _ _ _ _ hpart hdelimiter _ ih =>
    obtain ⟨us, htokens, hus⟩ := partTokens_of_readPart hpart
    obtain ⟨others, rfl, hothers⟩ := ih
    exact ⟨us ++ t' :: others, htokens.trans (List.append_assoc us (t' :: others) _).symm,
      .delimited hus hdelimiter hothers⟩
  | @signed c c' t t' t'' _ rest _ hpart _ hfixity hsign hclosing =>
    obtain ⟨us, htokens, hus⟩ := partTokens_of_readPart hpart
    refine ⟨us ++ [t', t''], htokens.trans (List.append_assoc us [t', t''] rest).symm,
      .signed hus (fun t ht => ?_) hclosing⟩
    obtain rfl := Option.some.inj ht
    exact ⟨hfixity, hsign⟩
  | part _ hpart _ _ _ ih =>
    obtain ⟨us, htokens, hus⟩ := partTokens_of_readPart hpart
    obtain ⟨others, hrest, hothers⟩ := ih
    exact ⟨us ++ others, by rw [htokens, hrest, List.append_assoc], .part hus hothers⟩

/-- What is read as a cycle behind its opening bracket has the tokens of a cycle. -/
theorem ReadsPermutation.tokens {leading : Option Token} {opening : Token} {s : Script}
    (hleading : r.SignAt (r.grammar.fixity .permutation = .prefixed) leading)
    (hopening : r.grammar.isA .permutationBegin opening = true)
    (h : r.ReadsPermutation (leading.getD opening).start leading ts s rest) :
    ∃ us, ts = us ++ rest ∧ r.PermutationTokens (leading.toList ++ opening :: us) s := by
  obtain @⟨opened, trailing, inner, behind, closed, hopened, hparts, htrailing, hsign⟩ := h
  obtain ⟨us, hinner, hus⟩ := hparts.tokens
  have hfront := r.takeSignIf_tokens (r.grammar.fixity .permutation = .precircumfixed) ts
  have hback := r.takeSignIf_tokens (r.grammar.fixity .permutation = .suffixed) behind
  rw [hopened] at hfront
  rw [htrailing] at hback
  simp only [decide_eq_true_eq] at hfront hback
  refine ⟨_, ?_, .intro hleading hopening hfront.2 hus hback.2 hsign⟩
  calc ts = opened.toList ++ (us ++ (trailing.toList ++ rest)) := by
        rw [← hback.1, ← hinner]
        exact hfront.1
    _ = _ := by simp only [List.append_assoc]

end CubeLang.Reading
