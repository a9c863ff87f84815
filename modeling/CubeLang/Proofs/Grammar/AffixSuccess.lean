import CubeLang.Proofs.Grammar.BareExpression
import CubeLang.Proofs.Grammar.PartPieces

/-!
# Affixes that are read

A reader fails in many ways and succeeds in few. For each reader of scripts a relation says how it
succeeds: of which tokens, in which memory, what is read, and which tokens and which memory are left.
There is one constructor for each way in which the reader goes on, with what it looked at to do so. What
may be read inside of others as an expression is a parameter, as the reader of expressions is one of the
readers. So the readers are gone through once, and what holds of all that is read is proved by induction
on the relations. Here are those for repeat counts, operators and rows of affixes.
-/

set_option autoImplicit false

namespace CubeLang.Reading

variable {r : Reading} {t : Token} {ts rest behind : List Token} {m m₁ m' : Memory}

/-- Whether a reader gives some value and leaves some tokens, in memories before and behind. -/
def Reads {n : Nat} {α : Type} (x : Reader (Parsed n α)) (m : Memory) (value : α)
    (rest : List Token) (m' : Memory) : Prop := ∃ hlt, x m = .ok ⟨value, rest, hlt⟩ m'

section

variable {α β : Type} {n k : Nat} {value : α}

theorem Reads.shorter {x : Reader (Parsed n α)} (h : Reads x m value rest m') : rest.length < n :=
  h.1

theorem Reads.ne_nil {x : Reader (Parsed ts.length α)} (h : Reads x m value rest m') : ts ≠ [] :=
  List.ne_nil_of_length_pos (Nat.zero_lt_of_lt h.1)

theorem Reads.unique {x : Reader (Parsed n α)} {value' : α} {rest' : List Token} {m₂ : Memory}
    (h : Reads x m value rest m') (h' : Reads x m value' rest' m₂) : value = value' := by
  obtain ⟨hlt, hread⟩ := h
  obtain ⟨hlt', hread'⟩ := h'
  obtain ⟨hvalue, -⟩ := EStateM.Result.ok.inj (hread.symm.trans hread')
  exact (Parsed.mk.inj hvalue).1

theorem reads_pure_iff {p : Parsed n α} :
    Reads (pure p) m value rest m' ↔ p.value = value ∧ p.rest = rest ∧ m = m' := by
  constructor
  · rintro ⟨hlt, hread⟩
    obtain ⟨rfl, rfl⟩ := EStateM.Result.ok.inj hread
    exact ⟨rfl, rfl, rfl⟩
  · rintro ⟨rfl, rfl, rfl⟩
    exact ⟨p.shorter, rfl⟩

theorem not_reads_throw {e : ParseError} :
    ¬Reads (throw e : Reader (Parsed n α)) m value rest m' := by
  rintro ⟨hlt, hread⟩
  contradiction

theorem reads_lift_iff {x : Except ParseError (Parsed n α)} :
    Reads (Reader.lift x) m value rest m' ↔ Gives x value rest ∧ m = m' := by
  constructor
  · rintro ⟨hlt, hread⟩
    obtain ⟨hx, rfl⟩ := eq_ok_of_lift hread
    exact ⟨⟨hlt, hx⟩, rfl⟩
  · rintro ⟨⟨hlt, hx⟩, rfl⟩
    exact ⟨hlt, lift_of_ok hx⟩

/-- What one reader leaves another one reads. -/
theorem reads_bind_iff {x : Reader (Parsed k β)} {f : Parsed k β → Reader (Parsed n α)} :
    Reads (x >>= f) m value rest m' ↔ ∃ b behind m₁, ∃ h : Reads x m b behind m₁,
      Reads (f ⟨b, behind, h.shorter⟩) m₁ value rest m' := by
  constructor
  · rintro ⟨hlt, hread⟩
    obtain ⟨⟨b, behind, hlt'⟩, m₁, hx, hread⟩ := exists_of_bind_eq_ok hread
    exact ⟨b, behind, m₁, ⟨hlt', hx⟩, hlt, hread⟩
  · rintro ⟨b, behind, m₁, ⟨hlt', hx⟩, hlt, hread⟩
    exact ⟨hlt, (bind_of_ok hx).trans hread⟩

/-- Of how many tokens something was read does not matter. -/
theorem reads_widen_iff {x : Reader (Parsed k α)} (h : k ≤ n) :
    Reads (do let p ← x; return p.widen h : Reader (Parsed n α)) m value rest m' ↔
      Reads x m value rest m' := by
  rw [reads_bind_iff]
  constructor
  · rintro ⟨b, behind, m₁, hx, hread⟩
    obtain ⟨rfl, rfl, rfl⟩ := reads_pure_iff.mp hread
    exact hx
  · exact fun hx => ⟨_, _, _, hx, reads_pure_iff.mpr ⟨rfl, rfl, rfl⟩⟩

end

/-- What is read as expressions: of which tokens, in which memory, which script, so that which tokens
and which memory are left. -/
abbrev Expressions : Type := List Token → Memory → Script → List Token → Memory → Prop

/-- The expressions of a reading. -/
def expressions (r : Reading) : Expressions := fun ts => Reads (r.readExpression ts)

/-- A reader of expressions reads what is said, as far as it goes. -/
def Inner.ReadsAs {bound : Nat} (inner : Inner bound) (inside : Expressions) : Prop :=
  ∀ (ts : List Token) (h : ts.length < bound) (m : Memory) (s : Script) (rest : List Token)
    (m' : Memory), Reads (inner ts h) m s rest m' ↔ inside ts m s rest m'

theorem readsAs_expressions (r : Reading) (bound : Nat) :
    Inner.ReadsAs (fun ts (_ : ts.length < bound) => r.readExpression ts) r.expressions :=
  fun _ _ _ _ _ _ => Iff.rfl

theorem Inner.ReadsAs.restrict {bound n : Nat} {inner : Inner bound} {inside : Expressions}
    (hinner : inner.ReadsAs inside) (h : n ≤ bound) : (inner.restrict h).ReadsAs inside :=
  fun ts hts => hinner ts (Nat.lt_of_lt_of_le hts h)

/-! ## Repeat counts -/

/-- What is read as a repeat count: a positive number, perhaps between two tokens for that alone. -/
inductive ReadsCount (r : Reading) (ts : List Token) : Affix → List Token → Prop
  | intro {number : Token} {behind : List Token} {value : Int} {count : RepeatCount}
      (hinside : r.countInside ts = number :: behind) (hvalue : number.value? = some value)
      (hcount : RepeatCount.ofInt? value = some count) :
      ReadsCount r ts ⟨.repetition count, ⟨(r.peek ts).start, (r.countEnd number behind).1⟩⟩
        (r.countEnd number behind).2

theorem ReadsCount.ne_nil {a : Affix} (h : r.ReadsCount ts a rest) : ts ≠ [] := by
  obtain ⟨hinside, -, -⟩ := h
  rintro rfl
  unfold countInside at hinside
  split at hinside <;> contradiction

theorem gives_readCount_iff {a : Affix} : Gives (r.readCount ts) a rest ↔ r.ReadsCount ts a rest := by
  constructor
  · rintro ⟨hlt, hread⟩
    cases hinside : r.countInside ts with
    | nil =>
      rw [readCount_of_inside_nil hinside] at hread
      contradiction
    | cons number behind =>
      obtain ⟨_, hequation⟩ := readCount_of_inside hinside
      rw [hequation] at hread
      split at hread
      · contradiction
      rename_i value hvalue
      split at hread
      · contradiction
      rename_i count hcount
      obtain ⟨rfl, rfl⟩ := Parsed.mk.inj (Except.ok.inj hread)
      exact .intro hinside hvalue hcount
  · rintro ⟨hinside, hvalue, hcount⟩
    obtain ⟨hlt, hequation⟩ := readCount_of_inside hinside
    refine ⟨hlt, ?_⟩
    rw [hequation, hvalue]
    dsimp only
    rw [hcount]

/-! ## Operators -/

theorem isKeyword_of_isA {s : Symbol} (h : r.grammar.isA s t = true) : t.isKeyword = true := by
  unfold Grammar.isA Grammar.symbols at h
  split at h
  · assumption
  · contradiction

/-- The affix whose operator is made of some scripts between two brackets. -/
def operatorAffix (k : BinaryKind) (opening closing : Token) (scripts : List Script) : Affix :=
  ⟨.binary k (.sequence (operatorSpan opening scripts) scripts), ⟨opening.start, closing.stop⟩⟩

/-- What is read as an operator behind its opening token and some scripts: an expression, and then the
token that closes it or further ones. -/
inductive ReadsOperator (r : Reading) (inside : Expressions) (opening : Token)
    (kinds : List BinaryKind) :
    List Script → List Token → Memory → Affix → List Token → Memory → Prop
  | closed {before : List Script} {ts rest : List Token} {m m' : Memory} {s : Script}
      {closing : Token} {k : BinaryKind} (hfirst : inside ts m s (closing :: rest) m')
      (hkind : (kinds.find? fun k => r.grammar.isA k.closing closing) = some k) :
      ReadsOperator r inside opening kinds before ts m
        (operatorAffix k opening closing (before ++ [s])) rest m'
  | further {before : List Script} {ts behind rest : List Token} {m m₁ m' : Memory} {s : Script}
      {t : Token} {a : Affix} (hfirst : inside ts m s (t :: behind) m₁)
      (hkeyword : t.isKeyword = true)
      (hnone : (kinds.find? fun k => r.grammar.isA k.closing t) = none)
      (hothers : ReadsOperator r inside opening kinds (before ++ [s]) (t :: behind) m₁ a rest m') :
      ReadsOperator r inside opening kinds before ts m a rest m'

section

variable {inside : Expressions} {bound : Nat} {inner : Inner bound} (hinner : inner.ReadsAs inside)
include hinner

section

variable {opening : Token} {kinds : List BinaryKind} {before : List Script} {a : Affix}

theorem ReadsOperator.of_reads {before : List Script} {ts : List Token} {m : Memory}
    {h : ts.length < bound}
    (hread : Reads (r.readOperator inner opening kinds before ts h) m a rest m') :
    r.ReadsOperator inside opening kinds before ts m a rest m' := by
  rw [readOperator] at hread
  obtain ⟨s, behind, m₁, hfirst, hread⟩ := reads_bind_iff.mp hread
  have hinside := (hinner ..).mp hfirst
  cases behind with
  | nil => exact absurd hread not_reads_throw
  | cons t behind =>
    dsimp only at hread
    by_cases hkeyword : t.isKeyword = true
    · rw [if_neg (by simpa using hkeyword)] at hread
      split at hread
      · rename_i k hkind
        obtain ⟨rfl, rfl, rfl⟩ := reads_pure_iff.mp hread
        exact .closed hinside hkind
      · rename_i hnone
        exact .further hinside hkeyword hnone (of_reads ((reads_widen_iff _).mp hread))
    · rw [if_pos (by simpa using hkeyword)] at hread
      exact absurd hread not_reads_throw
termination_by ts.length
decreasing_by exact hfirst.shorter

theorem ReadsOperator.reads (hread : r.ReadsOperator inside opening kinds before ts m a rest m')
    (h : ts.length < bound) : Reads (r.readOperator inner opening kinds before ts h) m a rest m' := by
  induction hread with
  | @closed before ts rest m m' s closing k hfirst hkind =>
    have hfirst := (hinner _ h _ _ _ _).mpr hfirst
    have hkeyword : closing.isKeyword = true := isKeyword_of_isA (by simpa using List.find?_some hkind)
    rw [readOperator]
    refine reads_bind_iff.mpr ⟨_, _, _, hfirst, ?_⟩
    dsimp only
    rw [if_neg (by simpa using hkeyword), peek_cons, hkind]
    exact reads_pure_iff.mpr ⟨rfl, rfl, rfl⟩
  | @further before ts behind rest m m₁ m' s t a hfirst hkeyword hnone _ ih =>
    have hfirst := (hinner _ h _ _ _ _).mpr hfirst
    rw [readOperator]
    refine reads_bind_iff.mpr ⟨_, _, _, hfirst, ?_⟩
    dsimp only
    rw [if_neg (by simpa using hkeyword), peek_cons, hnone]
    exact (reads_widen_iff _).mpr (ih (Nat.lt_trans hfirst.shorter h))

end

/-! ## Affixes -/

omit hinner

/-- No affix begins in some place. -/
def NoAffix (r : Reading) (place : Fixity) (ts : List Token) : Prop :=
  ∀ t ∈ ts.head?, r.affixStart? place t = none

/-- What is read as an affix, by its first token. -/
inductive ReadsAffix (r : Reading) (inside : Expressions) (place : Fixity) :
    List Token → Memory → Affix → List Token → Memory → Prop
  | count {t : Token} {ts rest : List Token} {m : Memory} {a : Affix}
      (hstart : r.affixStart? place t = some .count) (hcount : r.ReadsCount (t :: ts) a rest) :
      ReadsAffix r inside place (t :: ts) m a rest m
  | operator {t : Token} {ts rest : List Token} {m m' : Memory} {a : Affix} {kinds : List BinaryKind}
      (hstart : r.affixStart? place t = some (.operator kinds))
      (hoperator : r.ReadsOperator inside t kinds [] ts m a rest m') :
      ReadsAffix r inside place (t :: ts) m a rest m'
  | single {t : Token} {ts : List Token} {m : Memory} {operation : Affix.Operation}
      (hstart : r.affixStart? place t = some (.single operation)) :
      ReadsAffix r inside place (t :: ts) m ⟨operation, t.span⟩ ts m

theorem readAffix?_eq_none_iff {place : Fixity} {inner : Inner ts.length} :
    r.readAffix? place ts inner m = .ok none m' ↔ r.NoAffix place ts ∧ m = m' := by
  cases ts with
  | nil =>
    refine ⟨fun h => ⟨fun _ ht => ?_, (EStateM.Result.ok.inj h).2⟩, fun h => h.2 ▸ rfl⟩
    contradiction
  | cons t ts =>
    constructor
    · intro h
      obtain ⟨hstart, rfl⟩ := affixStart?_eq_none h
      exact ⟨fun t' ht' => Option.some.inj ht' ▸ hstart, rfl⟩
    · rintro ⟨hnone, rfl⟩
      rw [readAffix?_cons, hnone t rfl]
      rfl

theorem ReadsAffix.of_read {place : Fixity} {inner : Inner ts.length}
    (hinner : inner.ReadsAs inside) {p : Parsed ts.length Affix}
    (hread : r.readAffix? place ts inner m = .ok (some p) m') :
    r.ReadsAffix inside place ts m p.value p.rest m' := by
  cases ts with
  | nil =>
    have hnone := (EStateM.Result.ok.inj hread).1
    contradiction
  | cons t ts =>
    rw [readAffix?_cons] at hread
    cases hstart : r.affixStart? place t with
    | none =>
      rw [hstart] at hread
      have hnone := (EStateM.Result.ok.inj hread).1
      contradiction
    | some start =>
      rw [hstart] at hread
      cases start with
      | count =>
        obtain ⟨q, _, hlifted, hread⟩ := exists_of_bind_eq_ok hread
        obtain ⟨hp, rfl⟩ := EStateM.Result.ok.inj hread
        obtain rfl := Option.some.inj hp
        obtain ⟨hcount, rfl⟩ := eq_ok_of_lift hlifted
        exact .count hstart (gives_readCount_iff.mp ⟨q.shorter, hcount⟩)
      | operator kinds =>
        obtain ⟨q, _, hoperator, hread⟩ := exists_of_bind_eq_ok hread
        obtain ⟨hp, rfl⟩ := EStateM.Result.ok.inj hread
        obtain rfl := Option.some.inj hp
        exact .operator hstart (.of_reads hinner ⟨q.shorter, hoperator⟩)
      | single operation =>
        obtain ⟨hp, rfl⟩ := EStateM.Result.ok.inj hread
        obtain rfl := Option.some.inj hp
        exact .single hstart

theorem ReadsAffix.read {place : Fixity} {a : Affix}
    (hread : r.ReadsAffix inside place ts m a rest m') {inner : Inner ts.length}
    (hinner : inner.ReadsAs inside) :
    ∃ hlt, r.readAffix? place ts inner m = .ok (some ⟨a, rest, hlt⟩) m' := by
  cases hread with
  | count hstart hcount =>
    obtain ⟨hlt, hcount⟩ := gives_readCount_iff.mpr hcount
    refine ⟨hlt, ?_⟩
    rw [readAffix?_cons, hstart]
    exact bind_of_ok (lift_of_ok hcount)
  | operator hstart hoperator =>
    obtain ⟨hlt, hoperator⟩ := hoperator.reads hinner (Nat.lt_succ_self _)
    refine ⟨Nat.lt_succ_of_lt hlt, ?_⟩
    rw [readAffix?_cons, hstart]
    exact bind_of_ok hoperator
  | single hstart =>
    refine ⟨Nat.lt_succ_self _, ?_⟩
    rw [readAffix?_cons, hstart]
    rfl

/-- What is read as affixes in front of a statement: as many as begin. -/
inductive ReadsPrefixes (r : Reading) (inside : Expressions) :
    List Token → Memory → List Affix → List Token → Memory → Prop
  | nil {ts : List Token} {m : Memory} (hnone : r.NoAffix .prefixed ts) :
      ReadsPrefixes r inside ts m [] ts m
  | cons {ts behind rest : List Token} {m m₁ m' : Memory} {a : Affix} {affixes : List Affix}
      (hfirst : r.ReadsAffix inside .prefixed ts m a behind m₁)
      (hothers : ReadsPrefixes r inside behind m₁ affixes rest m') :
      ReadsPrefixes r inside ts m (a :: affixes) rest m'

/-- What is read as a script with affixes behind it, each of which goes around what was read before. -/
inductive ReadsSuffixes (r : Reading) (inside : Expressions) :
    Script → List Token → Memory → Script → List Token → Memory → Prop
  | nil {s : Script} {ts : List Token} {m : Memory} (hnone : r.NoAffix .suffixed ts) :
      ReadsSuffixes r inside s ts m s ts m
  | cons {s s' : Script} {ts behind rest : List Token} {m m₁ m' : Memory} {a : Affix}
      (hfirst : r.ReadsAffix inside .suffixed ts m a behind m₁)
      (hothers : ReadsSuffixes r inside (a.wrap s) behind m₁ s' rest m') :
      ReadsSuffixes r inside s ts m s' rest m'

/-- Of no tokens no affix is read. -/
theorem ReadsPrefixes.eq_nil {affixes : List Affix}
    (h : r.ReadsPrefixes inside [] m affixes rest m') : rest = [] := by
  cases h with
  | nil => rfl
  | cons hfirst => cases hfirst

theorem ReadsSuffixes.eq_nil {s s' : Script} (h : r.ReadsSuffixes inside s [] m s' rest m') :
    rest = [] := by
  cases h with
  | nil => rfl
  | cons hfirst => cases hfirst

/-- Affixes are read up to a token that begins none. -/
theorem ReadsSuffixes.noAffix {s s' : Script} (h : r.ReadsSuffixes inside s ts m s' rest m') :
    r.NoAffix .suffixed rest := by
  induction h with
  | nil hnone => exact hnone
  | cons _ _ ih => exact ih

include hinner

theorem ReadsPrefixes.of_reads {ts rest : List Token} {m m' : Memory} {affixes : List Affix}
    {h : ts.length ≤ bound} (hread : Reads (r.readPrefixes inner ts h) m affixes rest m') :
    r.ReadsPrefixes inside ts m affixes rest m' := by
  obtain ⟨hlt, hread⟩ := hread
  rw [readPrefixes] at hread
  obtain ⟨o, m₁, hfirst, hread⟩ := exists_of_bind_eq_ok hread
  cases o with
  | none =>
    obtain ⟨rfl, rfl, rfl⟩ := reads_pure_iff.mp ⟨hlt, hread⟩
    obtain ⟨hnone, rfl⟩ := readAffix?_eq_none_iff.mp hfirst
    exact .nil hnone
  | some first =>
    obtain ⟨others, behind, m₂, hothers, hread⟩ := reads_bind_iff.mp ⟨hlt, hread⟩
    obtain ⟨rfl, rfl, rfl⟩ := reads_pure_iff.mp hread
    have hshort := first.shorter
    exact .cons (.of_read (hinner.restrict h) hfirst) (of_reads hothers)
termination_by ts.length

theorem ReadsPrefixes.reads {affixes : List Affix} (hread : r.ReadsPrefixes inside ts m affixes rest m')
    (h : ts.length ≤ bound) : Reads (r.readPrefixes inner ts h) m affixes rest m' := by
  induction hread with
  | nil hnone => exact ⟨_, readPrefixes_of_none (readAffix?_eq_none_iff.mpr ⟨hnone, rfl⟩)⟩
  | cons hfirst _ ih =>
    obtain ⟨hlt, hfirst⟩ := hfirst.read (hinner.restrict h)
    obtain ⟨hlt', hothers⟩ := ih (by omega)
    refine ⟨by omega, ?_⟩
    rw [readPrefixes]
    exact (bind_of_ok hfirst).trans (bind_of_ok hothers)

theorem ReadsSuffixes.of_reads {ts rest : List Token} {m m' : Memory} {s s' : Script}
    {h : ts.length ≤ bound} (hread : Reads (r.readSuffixes inner s ts h) m s' rest m') :
    r.ReadsSuffixes inside s ts m s' rest m' := by
  obtain ⟨hlt, hread⟩ := hread
  rw [readSuffixes] at hread
  obtain ⟨o, m₁, hfirst, hread⟩ := exists_of_bind_eq_ok hread
  cases o with
  | none =>
    obtain ⟨rfl, rfl, rfl⟩ := reads_pure_iff.mp ⟨hlt, hread⟩
    obtain ⟨hnone, rfl⟩ := readAffix?_eq_none_iff.mp hfirst
    exact .nil hnone
  | some first =>
    have hothers := (reads_widen_iff _).mp ⟨hlt, hread⟩
    have hshort := first.shorter
    exact .cons (.of_read (hinner.restrict h) hfirst) (of_reads hothers)
termination_by ts.length

theorem ReadsSuffixes.reads {s s' : Script} (hread : r.ReadsSuffixes inside s ts m s' rest m')
    (h : ts.length ≤ bound) : Reads (r.readSuffixes inner s ts h) m s' rest m' := by
  induction hread with
  | nil hnone => exact ⟨_, readSuffixes_of_none _ (readAffix?_eq_none_iff.mpr ⟨hnone, rfl⟩)⟩
  | cons hfirst _ ih =>
    obtain ⟨hlt, hfirst⟩ := hfirst.read (hinner.restrict h)
    obtain ⟨hlt', hothers⟩ := ih (by omega)
    exact readSuffixes_of_some hfirst hothers

end

end CubeLang.Reading
