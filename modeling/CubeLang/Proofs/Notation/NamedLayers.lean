import CubeLang.Geometry.Face
import CubeLang.Proofs.Notation.Consistency

/-!
# The layers that tokens name

A token of the built-in notation consists of a label, the letter of a face and the mark of a half turn.
The label says which layers are turned, counted from the face, and there are ten families of labels. Here
the families are written down as they are read, without a word about masks; and the moves of the built-in
notation are shown to be those, and no token to be read in two ways.

The masks of a group are compared with its layers once for every family. That they are those of the label
alone follows, since no two groups have the same label.
-/

set_option autoImplicit false

namespace CubeLang

/-! ## Layers counted from a face -/

namespace Face

/-- The letter of a face inside a token of a move. -/
def capital : Face → Char
  | r => 'R'
  | u => 'U'
  | f => 'F'
  | l => 'L'
  | d => 'D'
  | b => 'B'

/-- Whether a face stands at the positive end of its axis. -/
def positive : Face → Bool
  | r | u | f => true
  | l | d | b => false

/-- The layer of a cube that is the `l`th one, counted from one at the face. -/
def layer (face : Face) (n l : Nat) : Nat := if face.positive then n - l else l - 1

/-- From every face each layer is counted. -/
theorem exists_layer_eq (face : Face) {n i : Nat} (hi : i < n) :
    ∃ l, 1 ≤ l ∧ l ≤ n ∧ face.layer n l = i := by
  unfold layer
  split
  · exact ⟨n - i, by omega, by omega, by omega⟩
  · exact ⟨i + 1, by omega, by omega, by omega⟩

end Face

/-- A move turns some layers, counted from one at a face, by so many quarter turns, clockwise as they are
seen from the face. -/
structure Move.TurnsFrom (n : Nat) (face : Face) (quarters : Int) (layers : Nat → Prop) (m : Move) :
    Prop where
  layerCount_eq : m.layerCount = n
  axis_eq : m.axis = face.axis.index
  angle_eq : m.angle = if face.positive then quarters else -quarters
  layerMask_nonneg : 0 ≤ m.layerMask
  layerMask_lt : m.layerMask < 2 ^ n
  testBit_iff : ∀ l, 1 ≤ l → l ≤ n → (m.layerMask.toNat.testBit (face.layer n l) = true ↔ layers l)

/-- The layers, the face and the angle say which move it is. -/
theorem Move.TurnsFrom.unique {n : Nat} {face : Face} {quarters : Int} {layers : Nat → Prop}
    {m m' : Move} (h : m.TurnsFrom n face quarters layers)
    (h' : m'.TurnsFrom n face quarters layers) : m = m' := by
  obtain ⟨count, axis, layerMask, angle⟩ := m
  obtain ⟨count', axis', layerMask', angle'⟩ := m'
  obtain ⟨rfl, rfl, rfl, hpos, hlt, hbits⟩ := h
  obtain ⟨rfl, rfl, rfl, hpos', hlt', hbits'⟩ := h'
  obtain ⟨mask, rfl⟩ := Int.eq_ofNat_of_zero_le hpos
  obtain ⟨mask', rfl⟩ := Int.eq_ofNat_of_zero_le hpos'
  have hmask : (mask : Int) < 2 ^ n := hlt
  have hmask' : (mask' : Int) < 2 ^ n := hlt'
  have hsame : mask = mask' := by
    refine LayerMask.eq_of_testBit_eq (n := n) (by exact_mod_cast hmask) (by exact_mod_cast hmask') ?_
    intro i hi
    obtain ⟨l, hl, hln, rfl⟩ := face.exists_layer_eq hi
    exact Bool.eq_iff_iff.mpr ((hbits l hl hln).trans (hbits' l hl hln).symm)
  rw [hsame]

namespace Notation

open LayerMask

/-! ## What labels say -/

/-- The families of groups of layers, in the order in which their moves are added. -/
inductive Family where
  | face | cube | mid | wide | tier | layer | layerRange | verge | slice | sliceRange

namespace Family

/-- The families in order. -/
def all : List Family :=
  [face, cube, mid, wide, tier, layer, layerRange, verge, slice, sliceRange]

theorem mem_all (f : Family) : f ∈ all := by
  cases f <;> simp [all]

/-- The place of a family among the ten. -/
def index : Family → Nat
  | face => 0
  | cube => 1
  | mid => 2
  | wide => 3
  | tier => 4
  | layer => 5
  | layerRange => 6
  | verge => 7
  | slice => 8
  | sliceRange => 9

theorem index_injective {f f' : Family} (h : f.index = f'.index) : f = f' := by
  cases f <;> cases f' <;> first | rfl | contradiction

end Family

/-- A letter with a number behind it, which goes without saying if it is `short`. -/
def Numbered (letter : String) (short k : Nat) (label : String) : Prop :=
  label = letter ++ toString k ∨ k = short ∧ label = letter

/-- The labels of each family and the layers that they say, counted from one at the face. -/
inductive Labels (n : Nat) : Family → String → (Nat → Prop) → Prop
  | face : Labels n .face "" (· = 1)
  | cube : Labels n .cube "C" fun _ => True
  | mid {k : Nat} {label : String} (hk : 1 ≤ k ∧ k ≤ n - 2) (h : Numbered "M" 1 k label) :
      Labels n .mid label fun l => (n - k) / 2 + 1 ≤ l ∧ l < (n - k) / 2 + 1 + k
  | wide (hn : 3 ≤ n) : Labels n .wide "W" fun l => 2 ≤ l ∧ l ≤ n - 1
  | tier {k : Nat} {label : String} (hk : 1 ≤ k ∧ k ≤ n) (h : Numbered "T" 2 k label) :
      Labels n .tier label (· ≤ k)
  | layer {k : Nat} {label : String} (hk : 1 ≤ k ∧ k ≤ n - 1) (h : Numbered "N" 2 k label) :
      Labels n .layer label (· = k)
  | layerRange {i j : Nat} (hi : 2 ≤ i ∧ i ≤ n - 2) (hj : i ≤ j ∧ j ≤ n - 1) :
      Labels n .layerRange s!"N{i}-{j}" fun l => i ≤ l ∧ l ≤ j
  | verge {k : Nat} {label : String} (hk : 2 ≤ k ∧ k ≤ n - 1) (h : Numbered "V" 2 k label) :
      Labels n .verge label fun l => 2 ≤ l ∧ l ≤ k + 1
  | slice {k : Nat} {label : String} (hk : 1 ≤ k ∧ 2 * k < n) (h : Numbered "S" 1 k label) :
      Labels n .slice label fun l => l ≤ k ∨ n - k + 1 ≤ l
  | sliceRange {i j : Nat} (hi : 2 ≤ i ∧ i ≤ n - 2) (hj : i ≤ j ∧ j ≤ n - 1) :
      Labels n .sliceRange s!"S{i}-{j}" fun l => ¬(i ≤ l ∧ l ≤ j)

/-- A token names a move by a label of a family, a face and the mark of the angle: the move turns the
layers of the label, counted from the face, by the angle. -/
def NamedBy (n : Nat) (f : Family) (token : String) (m : Move) : Prop :=
  ∃ label layers face, ∃ t ∈ turnMarks, Labels n f label layers ∧
    token = faceToken label face.capital t.2 ∧ m.TurnsFrom n face t.1 layers

variable {n : Nat} {f f' : Family} {g : LayerGroup} {m m' : Move}
variable {label : String} {layers : Nat → Prop}

/-! ## Groups and labels -/

/-- The groups of a family. -/
def groupsOf (n : Nat) (f : Family) : List LayerGroup := ((families n).getD f.index (0, [])).2

theorem families_eq (n : Nat) : families n = Family.all.map fun f => (f.index, groupsOf n f) := rfl

/-- Every group is one of a family. -/
theorem mem_layerGroups_iff : g ∈ layerGroups n ↔ ∃ f, g ∈ groupsOf n f := by
  rw [layerGroups_eq, families_eq, List.mem_flatMap]
  constructor
  · rintro ⟨family, hfamily, hg⟩
    obtain ⟨f, -, rfl⟩ := List.mem_map.mp hfamily
    exact ⟨f, hg⟩
  · rintro ⟨f, hg⟩
    exact ⟨_, List.mem_map_of_mem (Family.mem_all f), hg⟩

/-- The label of a group says which family it is of. -/
theorem familyOfLabel_of_mem (h : g ∈ groupsOf n f) : familyOfLabel g.label.toList = f.index := by
  have hfamily : (f.index, groupsOf n f) ∈ families n := by
    rw [families_eq]
    exact List.mem_map_of_mem (Family.mem_all f)
  exact familyOfLabel_eq _ hfamily g h

/-- The layers of a set are those said, counted from one. -/
def Shows (n mask : Nat) (layers : Nat → Prop) : Prop :=
  ∀ l, 1 ≤ l → l ≤ n → (mask.testBit (l - 1) = true ↔ layers l)

theorem shows_single {i : Nat} (h : ∀ l, 1 ≤ l → l ≤ n → (i = l - 1 ↔ layers l)) :
    Shows n (single i) layers := by
  intro l hl hln
  rw [testBit_single, decide_eq_true_eq, h l hl hln]

theorem shows_block {first width : Nat}
    (h : ∀ l, 1 ≤ l → l ≤ n → (first ≤ l - 1 ∧ l - 1 < first + width ↔ layers l)) :
    Shows n (block first width) layers := by
  intro l hl hln
  rw [testBit_block, decide_eq_true_eq, h l hl hln]

theorem shows_complement {first width : Nat}
    (h : ∀ l, 1 ≤ l → l ≤ n → (¬(first ≤ l - 1 ∧ l - 1 < first + width) ↔ layers l)) :
    Shows n (complement n (block first width)) layers := by
  intro l hl hln
  rw [testBit_complement (by omega), testBit_block, Bool.not_eq_true', decide_eq_false_iff_not,
    h l hl hln]

/-- The layers in the middle are as many as there are, with as many in front of them as behind them, or
one fewer. -/
theorem middleBlock_eq {k : Nat} (hk : k ≤ n) : middleBlock n k = block ((n - k) / 2) k := by
  unfold middleBlock
  congr 1
  split <;> omega

section

variable {letter : String} {short first last k : Nat} {mask : Nat → Nat}

/-- For each number there is a group of a numbered family. -/
theorem mem_numberedGroups (mask : Nat → Nat) (hk : first ≤ k ∧ k ≤ last)
    (h : Numbered letter short k label) :
    ⟨label, mask k⟩ ∈ (numbers first last).flatMap (numbered letter short mask) := by
  refine List.mem_flatMap.mpr ⟨k, mem_numbers_iff.mpr hk, ?_⟩
  unfold numbered
  rcases h with rfl | ⟨rfl, rfl⟩
  · exact List.mem_append_right _ (List.mem_singleton.mpr rfl)
  · rw [if_pos rfl]
    exact List.mem_cons_self

theorem exists_number (h : g ∈ (numbers first last).flatMap (numbered letter short mask)) :
    ∃ k, (first ≤ k ∧ k ≤ last) ∧ Numbered letter short k g.label := by
  obtain ⟨k, hk, h⟩ := List.mem_flatMap.mp h
  exact ⟨k, mem_numbers hk, (of_mem_numbered h).2.symm⟩

end

/-- To each label of a family there is a group with the layers that it says. -/
theorem Labels.exists_group (h : Labels n f label layers) :
    ∃ mask, ⟨label, mask⟩ ∈ groupsOf n f ∧ Shows n mask layers := by
  cases h with
  | face => exact ⟨_, List.mem_singleton.mpr rfl, shows_single fun _ _ _ => by omega⟩
  | cube =>
    exact ⟨_, List.mem_singleton.mpr rfl,
      shows_block fun _ _ _ => iff_of_true (by omega) trivial⟩
  | mid hk h =>
    refine ⟨_, mem_numberedGroups (middleBlock n) hk h, ?_⟩
    rw [middleBlock_eq (by omega)]
    exact shows_block fun _ _ _ => by omega
  | wide hn =>
    exact ⟨_, List.mem_ite_nil_right.mpr ⟨hn, List.mem_singleton.mpr rfl⟩,
      shows_block fun _ _ _ => by omega⟩
  | tier hk h => exact ⟨_, mem_numberedGroups (block 0) hk h, shows_block fun _ _ _ => by omega⟩
  | layer hk h =>
    exact ⟨_, mem_numberedGroups (fun k => single (k - 1)) hk h, shows_single fun _ _ _ => by omega⟩
  | @layerRange i j hi hj =>
    exact ⟨_, List.mem_map.mpr ⟨(i, j), mem_innerRanges_iff.mpr ⟨hi, hj⟩, rfl⟩,
      shows_block fun _ _ _ => by omega⟩
  | verge hk h => exact ⟨_, mem_numberedGroups (block 1) hk h, shows_block fun _ _ _ => by omega⟩
  | @slice k _ hk h =>
    have hhalf : 1 ≤ k ∧ k ≤ (n - 1) / 2 := by omega
    exact ⟨_, mem_numberedGroups (fun k => complement n (block k (n - 2 * k))) hhalf h,
      shows_complement fun _ _ _ => by omega⟩
  | @sliceRange i j hi hj =>
    exact ⟨_, List.mem_map.mpr ⟨(i, j), mem_innerRanges_iff.mpr ⟨hi, hj⟩, rfl⟩,
      shows_complement fun _ _ _ => by omega⟩

/-- To each group of a family there are layers that its label says. -/
theorem exists_labels (h : g ∈ groupsOf n f) : ∃ layers, Labels n f g.label layers := by
  cases f with
  | face =>
    obtain rfl := List.mem_singleton.mp h
    exact ⟨_, .face⟩
  | cube =>
    obtain rfl := List.mem_singleton.mp h
    exact ⟨_, .cube⟩
  | mid =>
    obtain ⟨k, hk, hlabel⟩ := exists_number h
    exact ⟨_, .mid hk hlabel⟩
  | wide =>
    obtain ⟨hn, h⟩ := List.mem_ite_nil_right.mp h
    obtain rfl := List.mem_singleton.mp h
    exact ⟨_, .wide hn⟩
  | tier =>
    obtain ⟨k, hk, hlabel⟩ := exists_number h
    exact ⟨_, .tier hk hlabel⟩
  | layer =>
    obtain ⟨k, hk, hlabel⟩ := exists_number h
    exact ⟨_, .layer hk hlabel⟩
  | layerRange =>
    obtain ⟨r, hr, rfl⟩ := List.mem_map.mp h
    obtain ⟨hi, hj⟩ := mem_innerRanges_iff.mp hr
    exact ⟨_, .layerRange hi hj⟩
  | verge =>
    obtain ⟨k, hk, hlabel⟩ := exists_number h
    exact ⟨_, .verge hk hlabel⟩
  | slice =>
    obtain ⟨k, hk, hlabel⟩ := exists_number h
    exact ⟨_, .slice (by omega) hlabel⟩
  | sliceRange =>
    obtain ⟨r, hr, rfl⟩ := List.mem_map.mp h
    obtain ⟨hi, hj⟩ := mem_innerRanges_iff.mp hr
    exact ⟨_, .sliceRange hi hj⟩

/-- The layers of a group are those that its label says. -/
theorem exists_labels_shows (h : g ∈ groupsOf n f) :
    ∃ layers, Labels n f g.label layers ∧ Shows n g.mask layers := by
  obtain ⟨layers, hlabels⟩ := exists_labels h
  obtain ⟨mask, hmem, hshows⟩ := hlabels.exists_group
  have hsame : (⟨g.label, mask⟩ : LayerGroup) = g :=
    List.inj_on_of_nodup_map (nodup_labels n) (mem_layerGroups_iff.mpr ⟨f, hmem⟩)
      (mem_layerGroups_iff.mpr ⟨f, h⟩) rfl
  exact ⟨layers, hlabels, hsame ▸ hshows⟩

/-! ## Moves and layers -/

theorem faceLetters_eq : faceLetters = Face.all.map Face.capital := rfl

theorem capital_mem (face : Face) : face.capital ∈ faceLetters := by
  cases face <;> decide

/-- The move of a group by the letter of a face turns the layers of the group, counted from the face. -/
theorem turnsFrom_faceMove {mask : Nat} (hn : 2 ≤ n) (hmask : mask < 2 ^ n)
    (hshows : Shows n mask layers) (face : Face) (quarters : Int) :
    (faceMove n mask quarters face.capital).TurnsFrom n face quarters layers := by
  have hreverse : LayerMask.reverse mask n < 2 ^ n := reverse_lt (by omega) hmask
  have hmove : faceMove n mask quarters face.capital =
      ⟨n, face.axis.index, if face.positive then (LayerMask.reverse mask n : Int) else mask,
        if face.positive then quarters else -quarters⟩ := by
    cases face <;> rfl
  rw [hmove]
  refine ⟨rfl, rfl, rfl, ?_, ?_, fun l hl hln => ?_⟩
  · dsimp only
    split <;> omega
  · dsimp only
    split
    · exact_mod_cast hreverse
    · exact_mod_cast hmask
  · cases hface : face.positive with
    | false => simpa [Face.layer, hface] using hshows l hl hln
    | true =>
      have hbit := testBit_reverse hmask (show n - l < n by omega)
      have hindex : n - 1 - (n - l) = l - 1 := by omega
      simpa [Face.layer, hface, hbit, hindex] using hshows l hl hln

/-- The moves listed are those that tokens of the families name. -/
theorem mem_defaultMoves_iff_namedBy (hn : 2 ≤ n) {token : String} :
    (token, m) ∈ defaultMoves n ↔ ∃ f, NamedBy n f token m := by
  rw [mem_defaultMoves_iff]
  constructor
  · rintro ⟨g, hg, t, ht, letter, hletter, heq⟩
    obtain ⟨rfl, rfl⟩ := Prod.mk.inj heq
    obtain ⟨f, hf⟩ := mem_layerGroups_iff.mp hg
    obtain ⟨layers, hlabels, hshows⟩ := exists_labels_shows hf
    obtain ⟨face, -, rfl⟩ := List.mem_map.mp (faceLetters_eq ▸ hletter)
    exact ⟨f, g.label, layers, face, t, ht, hlabels, rfl,
      turnsFrom_faceMove hn (mask_lt_of_mem_layerGroups hn hg) hshows face t.1⟩
  · rintro ⟨f, label, layers, face, t, ht, hlabels, rfl, hm⟩
    obtain ⟨mask, hmem, hshows⟩ := hlabels.exists_group
    have hg := mem_layerGroups_iff.mpr ⟨f, hmem⟩
    have hturns := turnsFrom_faceMove hn (mask_lt_of_mem_layerGroups hn hg) hshows face t.1
    refine ⟨_, hg, t, ht, face.capital, capital_mem face, ?_⟩
    rw [hm.unique hturns]

/-- No token names moves of two families. -/
theorem NamedBy.family_unique {token : String} (h : NamedBy n f token m)
    (h' : NamedBy n f' token m') : f = f' := by
  obtain ⟨label, layers, face, t, -, hlabels, htoken, -⟩ := h
  obtain ⟨label', layers', face', t', -, hlabels', htoken', -⟩ := h'
  obtain ⟨mask, hmem, -⟩ := hlabels.exists_group
  obtain ⟨mask', hmem', -⟩ := hlabels'.exists_group
  have hfront := (parts_faceToken (mem_layerGroups_iff.mpr ⟨f, hmem⟩) (capital_mem face) t.2).1
  have hfront' := (parts_faceToken (mem_layerGroups_iff.mpr ⟨f', hmem'⟩) (capital_mem face') t'.2).1
  have hlabel : label.toList = label'.toList := by
    rw [← hfront, ← hfront', ← htoken, ← htoken']
  have hindex := familyOfLabel_of_mem hmem
  rw [hlabel, familyOfLabel_of_mem hmem'] at hindex
  exact (Family.index_injective hindex).symm

/-! ## Making the notation -/

/-- Calls none of which is refused, whatever notation it is made on, are made one after the other. -/
theorem forM_make_of_accepted {calls : List Call}
    (h : ∀ call ∈ calls, ∀ N, ∃ N', call.make N = .ok () N') (N : Notation) :
    calls.forM Call.make N = .ok () (Call.after calls N) := by
  induction calls generalizing N with
  | nil => rfl
  | cons call calls ih =>
    obtain ⟨hcall, hcalls⟩ := List.forall_mem_cons.mp h
    obtain ⟨N', hmake⟩ := hcall N
    have hafter : Call.after (call :: calls) N = Call.after calls N' := by
      have hstate : stateAfter (call.make N) = N' := by rw [hmake]; rfl
      rw [← hstate]
      rfl
    rw [hafter, ← ih hcalls]
    exact bind_of_ok hmake

/-- None of the calls that make the built-in notation is refused. -/
theorem accepted_defaultCalls (hn : 2 ≤ n) :
    ∀ call ∈ defaultCalls n, ∀ N, ∃ N', call.make N = .ok () N' := by
  intro call hcall N
  unfold defaultCalls at hcall
  simp only [List.mem_append, List.mem_map] at hcall
  rcases hcall with (⟨b, hb, rfl⟩ | ⟨e, he, rfl⟩) | ⟨e, -, rfl⟩
  · have hnames : ∀ b ∈ defaultTokens, b.2 ≠ "" := by decide
    rw [Call.make, addToken_eq, if_neg (hnames b hb)]
    exact ⟨_, rfl⟩
  · rw [Call.make, addMove_eq, (legal_of_mem_defaultMoves hn he).fault?_eq_none]
    dsimp only
    split
    · exact ⟨_, rfl⟩
    · rw [if_neg (ne_empty_of_mem_defaultMoves he)]
      exact ⟨_, rfl⟩
  · exact ⟨_, rfl⟩

/-- **Tokens turn the layers that they name.** For every layer count from two on there is a built-in
notation, and the calls that make it of a notation without tokens are all accepted. Its tokens of moves
are those that have a label of one of the ten families in front of the letter of a face and the mark of
a quarter or a half turn behind it, and each of them names the turn, clockwise as it is seen from the
face, of those layers that the label says, counted from the face. No token is of two families, so that
none of the moves was left out because its token was there already. -/
theorem default_names_layers (hn : 2 ≤ n) :
    ∃ N, Notation.default n = .ok N ∧
      (defaultCalls n).forM Call.make (blank hn true) = .ok () N ∧ N.layerCount = n ∧
      N.moves.keys.Nodup ∧
      (∀ token m, N.moves.get? token = some m ↔ ∃ f, NamedBy n f token m) ∧
      ∀ f f' token m m', NamedBy n f token m → NamedBy n f' token m' → f = f' := by
  have hkeys : (ofLayerCount n hn).moves.keys.Nodup := nodup_keys_defaultMoves n
  refine ⟨ofLayerCount n hn, default_eq hn, ?_, rfl, hkeys, ?_, ?_⟩
  · rw [forM_make_of_accepted (accepted_defaultCalls hn), blank, after_defaultCalls hn]
  · intro token m
    rw [Table.get?_eq_some_iff_mem hkeys]
    exact mem_defaultMoves_iff_namedBy hn
  · intro f f' token m m'
    exact NamedBy.family_unique

/-- Of five layers, the second and the third one from the right are two in the middle, and all but the
second and the third one from the back are the first one and the last two. -/
theorem default_names_layers_five :
    2 ≤ 5 ∧ ∃ N, Notation.default 5 = .ok N ∧
      N.moves.get? "M2R2" = some ⟨5, 0, 12, 2⟩ ∧ N.moves.get? "S2-3B" = some ⟨5, 2, 25, -1⟩ := by
  have hmid : NamedBy 5 .mid "M2R2" ⟨5, 0, 12, 2⟩ := by
    refine ⟨"M2", _, .r, (2, "2"), by decide, .mid (k := 2) (by decide) (.inl rfl), rfl,
      ⟨rfl, rfl, rfl, by decide, by decide, ?_⟩⟩
    intro l hl hln
    interval_cases l <;> decide
  have hslice : NamedBy 5 .sliceRange "S2-3B" ⟨5, 2, 25, -1⟩ := by
    refine ⟨"S2-3", _, .b, (1, ""), by decide, .sliceRange (i := 2) (j := 3) (by decide) (by decide),
      rfl, ⟨rfl, rfl, rfl, by decide, by decide, ?_⟩⟩
    intro l hl hln
    interval_cases l <;> decide
  obtain ⟨N, hdefault, -, -, -, hmoves, -⟩ := default_names_layers (n := 5) (by decide)
  exact ⟨by decide, N, hdefault, (hmoves _ _).mpr ⟨.mid, hmid⟩,
    (hmoves _ _).mpr ⟨.sliceRange, hslice⟩⟩

end Notation

end CubeLang
