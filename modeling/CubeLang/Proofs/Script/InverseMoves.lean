import CubeLang.Proofs.Script.Flattening
import CubeLang.Proofs.Script.OppositeRuns

/-!
# The moves of a script in the two directions

The moves of a script are a word, and those of the script carried out inversely are the inverse word:
the same moves from the last one to the first one, each by the opposite angle, wherever it was read.
This holds of all ways to combine scripts, although conjugations, rotations and commutations list
their parts in orders of their own. Both words have as many moves as are counted.
-/

set_option autoImplicit false

namespace CubeLang.Script

/-- The moves that undo some moves: the opposite ones, from the last one to the first one. -/
def undone (moves : List (Span × Move)) : List (Span × Move) :=
  (moves.map fun e => (e.1, e.2.inverse)).reverse

variable {f f' g g' : Step (Array (Span × Move)) Unit} {moves moves' : List (Span × Move)}

theorem undone_append (moves moves' : List (Span × Move)) :
    undone (moves ++ moves') = undone moves' ++ undone moves := by
  rw [undone, List.map_append, List.reverse_append]
  rfl

@[simp] theorem length_undone (moves : List (Span × Move)) : (undone moves).length = moves.length := by
  simp [undone]

/-! ## The inverse word -/

/-- One step lists some moves, and another one lists what undoes them. -/
def ListsUndone (f g : Step (Array (Span × Move)) Unit) : Prop :=
  ∃ moves, Records f moves ∧ Records g (undone moves)

theorem ListsUndone.andThen (h : ListsUndone f g) (h' : ListsUndone f' g') :
    ListsUndone (do f; f') (do g'; g) := by
  obtain ⟨moves, hlist, hback⟩ := h
  obtain ⟨moves', hlist', hback'⟩ := h'
  refine ⟨moves ++ moves', hlist.andThen hlist', ?_⟩
  rw [undone_append]
  exact hback'.andThen hback

/-- Listing the moves of a script in one direction lists what undoes those in the other one. -/
theorem oppositeRelation_listsUndone :
    OppositeRelation Move.Reversible (fun _ => True) record record ListsUndone where
  skip := ⟨[], .skip, .skip⟩
  andThen := .andThen
  refused := by
    intro m hm hnone
    have hsome := hm.isSome_reflected?
    rw [hnone] at hsome
    contradiction
  turn span m := ⟨[(span, m)], .turn span m, .turn span m.inverse⟩
  cycle _ _ _ := ⟨[], .skip, .skip⟩

/-! ## The number of moves -/

/-- One step lists some moves, and another one counts as many. -/
def Tallies (f : Step (Array (Span × Move)) Unit) (g : Step Nat Unit) : Prop :=
  ∃ moves, Records f moves ∧ ∀ k, g k = .ok () (k + moves.length)

theorem Tallies.andThen {g g' : Step Nat Unit} (h : Tallies f g) (h' : Tallies f' g') :
    Tallies (do f; f') (do g; g') := by
  obtain ⟨moves, hlist, hcount⟩ := h
  obtain ⟨moves', hlist', hcount'⟩ := h'
  refine ⟨moves ++ moves', hlist.andThen hlist', fun k => ?_⟩
  rw [bind_of_ok (hcount k), hcount', List.length_append, Nat.add_assoc]

/-- Counting the moves of a script goes along with listing them. -/
theorem runRelation_tallies :
    RunRelation Move.Reversible (fun _ => True) false record count Tallies where
  skip := ⟨[], .skip, fun _ => rfl⟩
  andThen := .andThen
  turn span m hm reflecting inverse := by
    obtain ⟨m', hseen⟩ := Move.exists_seen? hm.isSome_reflected? reflecting inverse
    exact ⟨m', m', hseen, by simpa using hseen, [(span, m')], .turn span m', fun _ => rfl⟩
  cycle _ _ _ := ⟨[], .skip, fun _ => rfl⟩

/-! ## Both together -/

/-- **The moves of a script carried out inversely undo its moves.** If the moves in a script hold no
negative numbers of layers, the script has a list of moves in each direction: inversely these are the
moves forward in reverse order, each by the opposite angle about the same axis, of the same layers and
with the same place in the text. As many moves as there are in either list are counted. -/
theorem resolvedMoves_inverse {s : Script} (hs : s.Each Move.Reversible fun _ => True) :
    ∃ moves, s.resolvedMoves false = .ok moves ∧ s.resolvedMoves true = .ok (undone moves) ∧
      s.moveCount = .ok moves.length ∧ s.moveCount = .ok (undone moves).length := by
  obtain ⟨moves, hlist, hback⟩ := oppositeRelation_listsUndone.walk false false s hs
  obtain ⟨moves', hlist', hcount⟩ := runRelation_tallies.walk false false s hs
  obtain rfl : moves' = moves := by
    have hsame := hlist'.resolvedMoves.symm.trans hlist.resolvedMoves
    exact Except.ok.inj hsame
  have htally : s.moveCount = .ok moves'.length := by
    have hrun : s.walk count false false 0 = .ok () (0 + moves'.length) := hcount 0
    rw [moveCount, hrun, Nat.zero_add]
  refine ⟨moves', hlist.resolvedMoves, hback.resolvedMoves, htally, ?_⟩
  rw [length_undone]
  exact htally

/-- A turn of the right layer, read of the second character, rotates the commutator of a turn and of
another one done twice, seen in the reflection and undone; a cycle of parts follows. -/
def rotatedCommutator : Script :=
  .sequence {} [
    .rotation {} (.move ⟨1, 2⟩ ⟨3, 0, 4, 1⟩)
      (.reflection {} (.inversion {}
        (.commutation {} (.move ⟨4, 5⟩ ⟨3, 1, 4, 1⟩)
          (.repetition {} ⟨2, Nat.zero_lt_two⟩ (.move ⟨6, 7⟩ ⟨3, 2, 1, -1⟩))))),
    .permutation {} {}]

/-- The eight moves of the rotated commutator and what undoes them. -/
theorem resolvedMoves_rotatedCommutator :
    (rotatedCommutator.Each Move.Reversible fun _ => True) ∧
      ∃ moves, rotatedCommutator.resolvedMoves false = .ok moves ∧
        rotatedCommutator.resolvedMoves true = .ok (undone moves) ∧
        undone moves = [(⟨1, 2⟩, ⟨3, 0, 4, -1⟩), (⟨4, 5⟩, ⟨3, 1, 1, 1⟩), (⟨6, 7⟩, ⟨3, 2, 4, -1⟩),
          (⟨6, 7⟩, ⟨3, 2, 4, -1⟩), (⟨4, 5⟩, ⟨3, 1, 1, -1⟩), (⟨6, 7⟩, ⟨3, 2, 4, 1⟩),
          (⟨6, 7⟩, ⟨3, 2, 4, 1⟩), (⟨1, 2⟩, ⟨3, 0, 4, 1⟩)] ∧
        rotatedCommutator.moveCount = .ok 8 := by
  have heach : rotatedCommutator.Each Move.Reversible fun _ => True := by
    simp [rotatedCommutator, Each, AllEach, Move.Reversible]
  obtain ⟨moves, hforward, hback, hcount, -⟩ := resolvedMoves_inverse heach
  have hlisted : rotatedCommutator.resolvedMoves false =
      .ok [(⟨1, 2⟩, ⟨3, 0, 4, -1⟩), (⟨6, 7⟩, ⟨3, 2, 4, -1⟩), (⟨6, 7⟩, ⟨3, 2, 4, -1⟩),
        (⟨4, 5⟩, ⟨3, 1, 1, 1⟩), (⟨6, 7⟩, ⟨3, 2, 4, 1⟩), (⟨6, 7⟩, ⟨3, 2, 4, 1⟩),
        (⟨4, 5⟩, ⟨3, 1, 1, -1⟩), (⟨1, 2⟩, ⟨3, 0, 4, 1⟩)] := rfl
  obtain rfl := Except.ok.inj (hforward.symm.trans hlisted)
  exact ⟨heach, _, hforward, hback, rfl, hcount⟩

end CubeLang.Script
