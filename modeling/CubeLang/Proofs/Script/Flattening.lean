import CubeLang.Proofs.Script.Action

/-!
# Scripts and their moves

A script without cycles of parts is as good as the list of its moves: carrying it out on a cube is
making its moves one after the other, up to the first one that the cube refuses. This holds in both
directions, and whether or not the cube refuses some of the moves. It is a relation between two
runs, of which one lists what the other one does.
-/

set_option autoImplicit false

namespace CubeLang

/-- Whether the layers of a move can be reversed: none of the numbers involved is negative. -/
def Move.Reversible (m : Move) : Prop := 0 ≤ m.layerCount ∧ 0 ≤ m.layerMask

theorem Move.Reversible.isSome_reflected? {m : Move} (h : m.Reversible) :
    m.reflected?.isSome = true := by
  obtain ⟨hcount, hmask⟩ := h
  have hno : (m.layerMask < 0 || m.layerCount < 0) = false := by
    simp [Int.not_lt.mpr hcount, Int.not_lt.mpr hmask]
  simp [reflected?, reversedMask?, hno]

namespace Script

/-- Makes moves on a cube one after the other. The first one that the cube refuses ends it; what was
made before stays. -/
def makeMoves : List Move → Step Cube Unit
  | [] => fun c => .ok () c
  | m :: moves => fun c =>
    match c.turn m.axis m.layerMask m.angle with
    | .ok c => makeMoves moves c
    | .error fault => .error (.cube fault) c

/-- The first of some moves is a turn of the cube. -/
theorem makeMoves_cons (span : Span) (m : Move) (moves : List Move) :
    makeMoves (m :: moves) = (do perform (.turn span m); makeMoves moves) := by
  funext c
  cases hturn : c.turn m.axis m.layerMask m.angle with
  | ok c' =>
    rw [bind_of_ok (perform_turn_of_ok span hturn)]
    simp only [makeMoves, hturn]
  | error fault =>
    rw [bind_of_error (perform_turn_of_error span hturn)]
    simp only [makeMoves, hturn]

/-- Making the moves of two lists is making those of the first, then those of the second. -/
theorem makeMoves_append (first second : List Move) :
    makeMoves (first ++ second) = (do makeMoves first; makeMoves second) := by
  induction first with
  | nil => rfl
  | cons m moves ih =>
    rw [List.cons_append, makeMoves_cons {} m, ih, makeMoves_cons {} m, bind_assoc]

/-- A step lists some moves behind what is listed already. -/
def Records (f : Step (Array (Span × Move)) Unit) (moves : List (Span × Move)) : Prop :=
  ∀ listed, f listed = .ok () (listed ++ moves.toArray)

namespace Records

variable {f f' : Step (Array (Span × Move)) Unit} {moves moves' : List (Span × Move)}

theorem skip : Records (pure ()) [] := fun listed => by simp [pure, EStateM.pure]

theorem andThen (h : Records f moves) (h' : Records f' moves') :
    Records (do f; f') (moves ++ moves') := by
  intro listed
  rw [bind_of_ok (h listed), h']
  simp

theorem turn (span : Span) (m : Move) : Records (record (.turn span m)) [(span, m)] := fun _ => rfl

/-- Where listing starts with nothing, what is listed are the moves of the script. -/
theorem resolvedMoves {s : Script} {inverse : Bool} (h : Records (s.walk record false inverse) moves) :
    s.resolvedMoves inverse = .ok moves := by
  rw [Script.resolvedMoves, h]
  simp

end Records

/-- A step lists some moves behind what is listed already, and another step makes them. -/
def Lists (f : Step (Array (Span × Move)) Unit) (g : Step Cube Unit) : Prop :=
  ∃ moves : List (Span × Move), (∀ listed, f listed = .ok () (listed ++ moves.toArray)) ∧
    g = makeMoves (moves.map Prod.snd)

namespace Lists

variable {f f' : Step (Array (Span × Move)) Unit} {g g' : Step Cube Unit}

theorem skip : Lists (pure ()) (pure ()) := ⟨[], Records.skip, rfl⟩

theorem andThen (h : Lists f g) (h' : Lists f' g') : Lists (do f; f') (do g; g') := by
  obtain ⟨moves, hlist, rfl⟩ := h
  obtain ⟨moves', hlist', rfl⟩ := h'
  refine ⟨moves ++ moves', Records.andThen hlist hlist', ?_⟩
  rw [List.map_append, makeMoves_append]

theorem turn (span : Span) (m : Move) : Lists (record (.turn span m)) (perform (.turn span m)) := by
  refine ⟨[(span, m)], Records.turn span m, ?_⟩
  have hnothing : makeMoves [] = pure () := rfl
  rw [List.map_singleton, makeMoves_cons span, hnothing, bind_pure_unit]

end Lists

/-- The moves of a script have every property that its own moves have, if opposite moves and moves in
the reflection have it too. Cycles of parts give no moves. -/
theorem exists_resolvedMoves {P : Move → Prop} {Q : PartCycle → Prop}
    (hinverse : ∀ m, P m → P m.inverse)
    (hreflected : ∀ m, P m → ∃ m', m.reflected? = some m' ∧ P m') {s : Script} (hs : s.Each P Q)
    (inverse : Bool) : ∃ moves, s.resolvedMoves inverse = .ok moves ∧ ∀ e ∈ moves, P e.2 := by
  have hR : RunRelation P Q false record record fun f _ =>
      ∃ moves, Records f moves ∧ ∀ e ∈ moves, P e.2 := by
    refine ⟨⟨[], .skip, by simp⟩, ?_, ?_, ?_⟩
    · rintro f f' g g' ⟨moves, hlist, hall⟩ ⟨moves', hlist', hall'⟩
      exact ⟨moves ++ moves', hlist.andThen hlist', List.forall_mem_append.mpr ⟨hall, hall'⟩⟩
    · intro span m hm reflecting inverse
      obtain ⟨m', hseen, hP⟩ := Move.exists_seen_of_closed hinverse hreflected hm reflecting inverse
      exact ⟨m', m', hseen, by simpa using hseen, [(span, m')], .turn span m', by simpa using hP⟩
    · intro c hc inverse
      exact ⟨[], .skip, by simp⟩
  obtain ⟨moves, hlist, hall⟩ := hR.walk false inverse s hs
  exact ⟨moves, hlist.resolvedMoves, hall⟩

end Script

end CubeLang
