import CubeLang.Token.Trie

/-!
# Tries as maps

A trie is a map from texts to entries. Adding a text changes what the map has at this text only, and
the longest match at the front of a text is the longest prefix that the map has an entry for.
-/

set_option autoImplicit false

namespace CubeLang.Trie

/-- What a text is, if it is in the trie. -/
def lookup? : List Char → Trie → Option Entry
  | [], t => t.entry
  | c :: cs, node _ children => (branch? children c).bind (lookup? cs)

variable {t : Trie} {e : Entry} {cs : List Char} {k : Nat}

@[simp] theorem lookup?_empty (cs : List Char) : empty.lookup? cs = none := by
  cases cs <;> rfl

theorem branch?_setBranch (children : List (Char × Trie)) (c d : Char) (t : Trie) :
    branch? (setBranch c t children) d = if d = c then some t else branch? children d := by
  induction children with
  | nil =>
    by_cases hd : d = c
    · simp [setBranch, branch?, hd]
    · simp [setBranch, branch?, hd, Ne.symm hd]
  | cons b bs ih =>
    unfold branch? at ih ⊢
    by_cases hb : b.1 = c
    · by_cases hd : d = c
      · simp [setBranch, hb, hd]
      · simp [setBranch, hb, hd, Ne.symm hd]
    · by_cases hd : b.1 = d
      · have hne : d ≠ c := hd ▸ hb
        simp [setBranch, hd, hne]
      · simpa [setBranch, hb, hd] using ih

/-- Adding a text changes what the trie has at this text only. -/
theorem lookup?_insert (e : Entry) (w v : List Char) (t : Trie) :
    (insert e w t).lookup? v = if v = w then some (Entry.merge (t.lookup? w) e) else t.lookup? v
    := by
  induction w generalizing t v with
  | nil =>
    obtain ⟨old, children⟩ := t
    cases v with
    | nil => rfl
    | cons d ds =>
      rw [if_neg (by simp), insert, lookup?, lookup?]
  | cons c cs ih =>
    obtain ⟨old, children⟩ := t
    cases v with
    | nil => rfl
    | cons d ds =>
      rw [insert, lookup?, branch?_setBranch]
      by_cases hd : d = c
      · subst hd
        rw [if_pos rfl, Option.bind_some, ih]
        have hbelow : ∀ v, ((branch? children d).getD empty).lookup? v =
            (node old children).lookup? (d :: v) := by
          intro v
          rw [lookup?]
          cases branch? children d <;> simp
        rw [hbelow, hbelow]
        simp
      · rw [if_neg hd, if_neg (by simp [hd]), lookup?]

/-- Without a prefix in the trie there is no match. -/
theorem longest?_eq_none (h : ∀ j, 0 < j → j ≤ cs.length → t.lookup? (cs.take j) = none) :
    t.longest? cs = none := by
  induction cs generalizing t with
  | nil =>
    cases t
    rfl
  | cons c cs ih =>
    obtain ⟨old, children⟩ := t
    rw [longest?]
    cases ht : branch? children c with
    | none => rfl
    | some t =>
      have hbelow : ∀ j, j ≤ cs.length → t.lookup? (cs.take j) = none := by
        intro j hjle
        have hnone := h (j + 1) (by omega) (by simpa using hjle)
        rwa [List.take_succ_cons, lookup?, ht] at hnone
      have hentry : t.entry = none := hbelow 0 (by omega)
      simp only [ih fun j _ hj => hbelow j hj, hentry, Option.map_none]

/-- The longest match is the longest prefix that is in the trie. -/
theorem longest?_eq_some (hk : 0 < k) (hle : k ≤ cs.length) (he : t.lookup? (cs.take k) = some e)
    (hlonger : ∀ j, k < j → j ≤ cs.length → t.lookup? (cs.take j) = none) :
    t.longest? cs = some (e, k) := by
  induction cs generalizing t k with
  | nil =>
    rw [List.length_nil] at hle
    omega
  | cons c cs ih =>
    obtain ⟨old, children⟩ := t
    obtain ⟨k, rfl⟩ := Nat.exists_eq_succ_of_ne_zero (Nat.ne_of_gt hk)
    rw [List.take_succ_cons, lookup?] at he
    obtain ⟨t, ht, he⟩ := Option.bind_eq_some_iff.mp he
    have hbelow : ∀ j, k < j → j ≤ cs.length → t.lookup? (cs.take j) = none := by
      intro j hj hjle
      have hnone := hlonger (j + 1) (by omega) (by simpa using hjle)
      rwa [List.take_succ_cons, lookup?, ht] at hnone
    rw [longest?, ht]
    rcases Nat.eq_zero_or_pos k with rfl | hpos
    · have hentry : t.entry = some e := he
      simp only [longest?_eq_none hbelow, hentry, Option.map_some]
    · simp only [ih hpos (by simpa using hle) he hbelow]

/-- What is matched is in the trie. -/
theorem lookup?_take_of_longest? (h : t.longest? cs = some (e, k)) :
    t.lookup? (cs.take k) = some e := by
  fun_induction longest? t cs generalizing e k with
  | case1 | case2 => contradiction
  | case3 old children c cs t ht e' k' hbelow ih =>
    obtain ⟨rfl, rfl⟩ := Prod.mk.inj (Option.some.inj h)
    rw [List.take_succ_cons, lookup?, ht]
    exact ih hbelow
  | case4 old children c cs t ht hbelow ih =>
    obtain ⟨e', he, heq⟩ := Option.map_eq_some_iff.mp h
    obtain ⟨rfl, rfl⟩ := Prod.mk.inj heq
    rw [List.take_succ_cons, lookup?, ht]
    exact he

/-- No prefix that is longer than the longest match is in the trie. -/
theorem lookup?_take_eq_none (hk : 0 < k) (hle : k ≤ cs.length)
    (h : ∀ e j, t.longest? cs = some (e, j) → j < k) : t.lookup? (cs.take k) = none := by
  induction cs generalizing t k with
  | nil =>
    rw [List.length_nil] at hle
    omega
  | cons c cs ih =>
    obtain ⟨old, children⟩ := t
    obtain ⟨k, rfl⟩ := Nat.exists_eq_succ_of_ne_zero (Nat.ne_of_gt hk)
    rw [List.take_succ_cons, lookup?]
    cases ht : branch? children c with
    | none => rfl
    | some t =>
      rw [longest?, ht] at h
      rw [Option.bind_some]
      cases hbelow : t.longest? cs with
      | some m =>
        simp only [hbelow] at h
        have hlonger : m.2 + 1 < k + 1 := h m.1 _ rfl
        refine ih (by omega) (by simpa using hle) fun e j hj => ?_
        obtain rfl := Option.some.inj (hbelow.symm.trans hj)
        exact Nat.lt_of_succ_lt_succ hlonger
      | none =>
        simp only [hbelow, Option.map_eq_some_iff] at h
        rcases Nat.eq_zero_or_pos k with rfl | hpos
        · cases hentry : t.entry with
          | none => exact hentry
          | some e => exact absurd (h e 1 ⟨e, hentry, rfl⟩) (Nat.lt_irrefl 1)
        · exact ih hpos (by simpa using hle) fun e j hj => by
            rw [hbelow] at hj
            contradiction

/-- A match that lies within a text is the longest one there, whatever stands behind the text. -/
theorem longest?_of_append {tail : List Char} (h : t.longest? (cs ++ tail) = some (e, k))
    (hle : k ≤ cs.length) : t.longest? cs = some (e, k) := by
  apply longest?_eq_some (longest?_bounds h).1 hle
  · rw [← List.take_append_of_le_length hle]
    exact lookup?_take_of_longest? h
  · intro j hj hjle
    have htake : (cs ++ tail).take j = cs.take j := List.take_append_of_le_length hjle
    rw [← htake]
    refine lookup?_take_eq_none (by omega) (by rw [List.length_append]; omega) fun e' k' hk' => ?_
    obtain ⟨rfl, rfl⟩ := Prod.mk.inj (Option.some.inj (h.symm.trans hk'))
    exact hj

theorem longest?_eq_none_of_append {tail : List Char} (h : t.longest? (cs ++ tail) = none) :
    t.longest? cs = none := by
  apply longest?_eq_none
  intro j hj hle
  have htake : (cs ++ tail).take j = cs.take j := List.take_append_of_le_length hle
  rw [← htake]
  refine lookup?_take_eq_none hj (by rw [List.length_append]; omega) fun e k hk => ?_
  rw [h] at hk
  contradiction

/-- If no text of the trie reaches from a text into what follows, the longest match is that of the
text. -/
theorem longest?_append {tail : List Char}
    (h : ∀ u, u ≠ [] → u <+: tail → t.lookup? (cs ++ u) = none) :
    t.longest? (cs ++ tail) = t.longest? cs := by
  have hreaching : ∀ j, cs.length < j → j ≤ (cs ++ tail).length →
      t.lookup? ((cs ++ tail).take j) = none := by
    intro j hj hle
    rw [List.length_append] at hle
    rw [List.take_append, List.take_of_length_le (Nat.le_of_lt hj)]
    refine h _ ?_ (List.take_prefix ..)
    rw [ne_eq, List.take_eq_nil_iff, ← List.length_eq_zero_iff]
    omega
  cases hlongest : t.longest? cs with
  | none =>
    apply longest?_eq_none
    intro j hj hle
    rcases Nat.lt_or_ge cs.length j with hlt | hge
    · exact hreaching j hlt hle
    · rw [List.take_append_of_le_length hge]
      refine lookup?_take_eq_none hj hge fun e k hk => ?_
      rw [hlongest] at hk
      contradiction
  | some m =>
    obtain ⟨e, k⟩ := m
    obtain ⟨hk, hle⟩ := longest?_bounds hlongest
    apply longest?_eq_some hk (by rw [List.length_append]; omega)
    · rw [List.take_append_of_le_length hle]
      exact lookup?_take_of_longest? hlongest
    · intro j hj hjle
      rcases Nat.lt_or_ge cs.length j with hlt | hge
      · exact hreaching j hlt hjle
      · rw [List.take_append_of_le_length hge]
        refine lookup?_take_eq_none (by omega) hge fun e' k' hk' => ?_
        obtain ⟨-, rfl⟩ := Prod.mk.inj (Option.some.inj (hlongest.symm.trans hk'))
        exact hj

/-- A character that is in no text of the trie ends every match in front of it. -/
theorem longest?_append_cons {c : Char} (habsent : ∀ v e, t.lookup? v = some e → c ∉ v)
    (cs tail : List Char) : t.longest? (cs ++ c :: tail) = t.longest? cs := by
  induction cs generalizing t with
  | nil =>
    have hnil : t.longest? [] = none := by
      cases t
      rfl
    rw [List.nil_append, hnil]
    apply longest?_eq_none
    intro j hj _
    obtain ⟨j, rfl⟩ := Nat.exists_eq_succ_of_ne_zero (Nat.ne_of_gt hj)
    cases hfound : t.lookup? ((c :: tail).take (j + 1)) with
    | none => rfl
    | some e => exact absurd List.mem_cons_self (habsent _ e hfound)
  | cons d ds ih =>
    obtain ⟨old, children⟩ := t
    rw [List.cons_append, longest?, longest?]
    cases ht : branch? children d with
    | none => rfl
    | some t =>
      have hbelow : ∀ v e, t.lookup? v = some e → c ∉ v := by
        intro v e he
        have hhere : (node old children).lookup? (d :: v) = some e := by
          rw [lookup?, ht]
          exact he
        exact fun hmem => habsent _ e hhere (List.mem_cons_of_mem _ hmem)
      simp only [ih hbelow]

end CubeLang.Trie
