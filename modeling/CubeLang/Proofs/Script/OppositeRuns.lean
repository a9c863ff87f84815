import CubeLang.Proofs.Move
import CubeLang.Proofs.Script.RunRelation

/-!
# Runs of a script in opposite directions

Inversely, a script is carried out from its end to its beginning, and each action inversely. The ways to
combine scripts have orders of their own for it: a conjugator goes there and back in either direction,
and the two scripts of a commutator change places. Each of them is the reverse of the order forward. So
a relation that an action has to its opposite, and that two steps one after the other have to their
opposites in reverse order, holds between the two runs of a script.
-/

set_option autoImplicit false

namespace CubeLang.Script

/-- If the reflection of a script cannot be seen, the layers of one of its moves cannot be reversed. -/
theorem exists_unreflectable {P : Move → Prop} {Q : PartCycle → Prop} {s : Script} (hs : s.Each P Q)
    (hnone : s.reflected?.isNone = true) : ∃ m, P m ∧ m.reflected? = none := by
  by_contra hall
  have hsome := isSome_reflected? (P := P) (Q := Q) (fun m hm => ?_) s hs
  · rw [Option.isNone_iff_eq_none.mp hnone] at hsome
    contradiction
  · by_contra hm'
    exact hall ⟨m, hm, by simpa using hm'⟩

/-- A relation between what is done in one direction and in the other one: each action has it to the
opposite action, and it turns the order round. Where the layers of a move cannot be reversed, both
directions are refused. -/
structure OppositeRelation {σ τ : Type} (P : Move → Prop) (Q : PartCycle → Prop)
    (visit : Action → Step σ Unit) (visit' : Action → Step τ Unit)
    (R : Step σ Unit → Step τ Unit → Prop) : Prop where
  skip : R (pure ()) (pure ())
  refused : ∀ m, P m → m.reflected? = none → R (throw .unreflectable) (throw .unreflectable)
  andThen : ∀ {f f' : Step σ Unit} {g g' : Step τ Unit}, R f g → R f' g' →
    R (do f; f') (do g'; g)
  turn : ∀ (span : Span) (m : Move), R (visit (.turn span m)) (visit' (.turn span m.inverse))
  cycle : ∀ c, Q c → ∀ inverse, R (visit (.cycle c inverse)) (visit' (.cycle c !inverse))

namespace OppositeRelation

variable {σ τ : Type} {P : Move → Prop} {Q : PartCycle → Prop}
variable {visit : Action → Step σ Unit} {visit' : Action → Step τ Unit}
variable {R : Step σ Unit → Step τ Unit → Prop} {f : Step σ Unit} {g : Step τ Unit}

theorem again (hR : OppositeRelation P Q visit visit' R) (h : R f g) (k : Nat) :
    R (repeated k f) (repeated k g) := by
  induction k with
  | zero => exact hR.skip
  | succ k ih =>
    rw [repeated_succ k f, repeated_succ k g, ← repeated_bind k g]
    exact hR.andThen h ih

/-- The way back over a move is the move back, whichever direction the way has. -/
theorem turn_directed (hR : OppositeRelation P Q visit visit' R) (inverse : Bool) (span : Span) (m : Move) :
    R (visit (.turn span (if inverse then m.inverse else m)))
      (visit' (.turn span (if !inverse then m.inverse else m))) := by
  cases inverse with
  | false => exact hR.turn span m
  | true => simpa using hR.turn span m.inverse

mutual

/-- The runs of a script in the two directions are related. -/
theorem walk (hR : OppositeRelation P Q visit visit' R) (reflecting inverse : Bool) :
    (s : Script) → s.Each P Q →
      R (s.walk visit reflecting inverse) (s.walk visit' reflecting (!inverse))
  | move span m, h => by
    cases hseen : if reflecting then m.reflected? else some m with
    | none =>
      have hnone : m.reflected? = none := by
        cases reflecting with
        | false => contradiction
        | true => exact hseen
      unfold Script.walk
      rw [hseen]
      exact hR.refused m h hnone
    | some m' =>
      unfold Script.walk
      rw [hseen]
      exact hR.turn_directed inverse span m'
  | nop _, _ => by
    unfold Script.walk
    exact hR.skip
  | sequence _ children, h | grouping _ children, h => by
    unfold Script.walk
    exact walkAll hR reflecting inverse children h
  | repetition _ count child, h => by
    unfold Script.walk
    exact hR.again (walk hR reflecting inverse child h) count.value
  | inversion _ child, h => by
    unfold Script.walk
    exact walk hR reflecting (!inverse) child h
  | reflection _ child, h => by
    unfold Script.walk
    split
    · exact walk hR false inverse child h
    split
    · rename_i hnone
      obtain ⟨m, hm, hunseen⟩ := exists_unreflectable (s := child) h hnone
      exact hR.refused m hm hunseen
    · exact walk hR true inverse child h
  | conjugation _ a b, h => by
    -- Only the operand is turned round: the conjugator goes there and back in either direction.
    have hthere := walk hR reflecting false a h.1
    have hback := walk hR reflecting true a h.1
    have hoperand := walk hR reflecting inverse b h.2
    unfold Script.walk
    simpa using hR.andThen hthere (hR.andThen hoperand hback)
  | rotation _ a b, h => by
    have hthere := walk hR reflecting true a h.1
    have hback := walk hR reflecting false a h.1
    have hoperand := walk hR reflecting inverse b h.2
    unfold Script.walk
    simpa using hR.andThen hthere (hR.andThen hoperand hback)
  | commutation _ a b, h => by
    have ha := walk hR reflecting false a h.1
    have hb := walk hR reflecting false b h.2
    have ha' := walk hR reflecting true a h.1
    have hb' := walk hR reflecting true b h.2
    unfold Script.walk
    cases inverse with
    -- The other way round, a commutator is that of the two scripts exchanged.
    | false => simpa using hR.andThen ha (hR.andThen hb (hR.andThen ha' hb'))
    | true => simpa using hR.andThen hb (hR.andThen ha (hR.andThen hb' ha'))
  | macroUse _ _ body, h => by
    unfold Script.walk
    exact walk hR reflecting inverse body h
  | permutation _ c, h => by
    unfold Script.walk
    exact hR.cycle c h inverse

/-- So are the runs of scripts one after the other. -/
theorem walkAll (hR : OppositeRelation P Q visit visit' R) (reflecting inverse : Bool) :
    (children : List Script) → AllEach P Q children →
      R (Script.walkAll visit reflecting inverse children)
        (Script.walkAll visit' reflecting (!inverse) children)
  | [], _ => by
    unfold Script.walkAll
    exact hR.skip
  | s :: rest, h => by
    have hfirst := walk hR reflecting inverse s h.1
    have hrest := walkAll hR reflecting inverse rest h.2
    unfold Script.walkAll
    cases inverse with
    | false => exact hR.andThen hfirst hrest
    | true => exact hR.andThen hrest hfirst

end

end OppositeRelation

end CubeLang.Script
