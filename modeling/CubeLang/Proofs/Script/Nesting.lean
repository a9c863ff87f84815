import CubeLang.Script.Affix

/-!
# How spans are nested

In a script that was read from a text the spans of the parts of a node lie in the span of the node.
The parts of a sequence stand one behind the other; of two combined scripts the operator may stand
behind the operand. The body of a macro has its spans in another text and is no part here.
-/

set_option autoImplicit false

namespace CubeLang

namespace Span

variable {first last first' last' : Int} {s t : Span} {spans spans' : List Span}

/-- Whether a span lies between two places of a text. -/
def Between (first last : Int) (s : Span) : Prop :=
  first ≤ s.start ∧ s.start ≤ s.stop ∧ s.stop ≤ last

/-- Whether spans stand one behind the other between two places of a text. -/
def Ordered : (first last : Int) → List Span → Prop
  | first, last, [] => first ≤ last
  | first, last, s :: rest => first ≤ s.start ∧ s.start ≤ s.stop ∧ Ordered s.stop last rest

/-- The place behind the last of some spans that stand behind a place. -/
def endOf (first : Int) (spans : List Span) : Int := (spans.getLast?.map stop).getD first

theorem Between.widen (h : s.Between first last) (hfirst : first' ≤ first) (hlast : last ≤ last') :
    s.Between first' last' :=
  ⟨Int.le_trans hfirst h.1, h.2.1, Int.le_trans h.2.2 hlast⟩

theorem Between.le (h : s.Between first last) : first ≤ last :=
  Int.le_trans h.1 (Int.le_trans h.2.1 h.2.2)

theorem Between.join (hs : s.Between first last) (ht : t.Between first last) :
    (s.join t).Between first last := by
  unfold Between Span.join at *
  dsimp only
  omega

/-- A join holds both spans. -/
theorem Between.in_join (hs : s.Between first last) (ht : t.Between first' last') :
    s.Between (s.join t).start (s.join t).stop ∧ t.Between (s.join t).start (s.join t).stop := by
  unfold Between Span.join at *
  dsimp only
  omega

theorem Ordered.le (h : Ordered first last spans) : first ≤ last := by
  induction spans generalizing first with
  | nil => exact h
  | cons s rest ih => exact Int.le_trans h.1 (Int.le_trans h.2.1 (ih h.2.2))

theorem Ordered.widen (h : Ordered first last spans) (hfirst : first' ≤ first)
    (hlast : last ≤ last') : Ordered first' last' spans := by
  induction spans generalizing first first' with
  | nil => exact Int.le_trans hfirst (Int.le_trans h hlast)
  | cons s rest ih => exact ⟨Int.le_trans hfirst h.1, h.2.1, ih h.2.2 (Int.le_refl _)⟩

theorem ordered_singleton : Ordered first last [s] ↔ s.Between first last := Iff.rfl

/-- Spans stand in order if some are and the others are behind them. -/
theorem ordered_append : Ordered first last (spans ++ spans') ↔
    ∃ middle, Ordered first middle spans ∧ Ordered middle last spans' := by
  induction spans generalizing first with
  | nil =>
    constructor
    · intro h
      exact ⟨first, Int.le_refl _, h⟩
    · rintro ⟨middle, hle, h⟩
      exact h.widen hle (Int.le_refl _)
  | cons s rest ih =>
    constructor
    · rintro ⟨hstart, hle, hrest⟩
      obtain ⟨middle, hfront, hback⟩ := ih.mp hrest
      exact ⟨middle, ⟨hstart, hle, hfront⟩, hback⟩
    · rintro ⟨middle, ⟨hstart, hle, hfront⟩, hback⟩
      exact ⟨hstart, hle, ih.mpr ⟨middle, hfront, hback⟩⟩

/-- Each of spans in order lies between the two places. -/
theorem Ordered.between (h : Ordered first last spans) (hs : s ∈ spans) :
    s.Between first last := by
  obtain ⟨front, back, rfl⟩ := List.append_of_mem hs
  obtain ⟨middle, hfront, hstart, hle, hback⟩ := ordered_append.mp h
  exact ⟨Int.le_trans hfront.le hstart, hle, hback.le⟩

/-- What stands in order between two brackets. -/
theorem Ordered.inside (h : Ordered first last (s :: spans ++ [t])) :
    Ordered s.stop t.start spans ∧ (⟨s.start, t.stop⟩ : Span).Between first last ∧
      s.start ≤ s.stop ∧ t.start ≤ t.stop := by
  obtain ⟨hstart, hopening, hrest⟩ := h
  obtain ⟨middle, hinside, hmiddle, hclosing, hlast⟩ := ordered_append.mp hrest
  have hle := hinside.le
  refine ⟨hinside.widen (Int.le_refl _) hmiddle, ⟨hstart, ?_, hlast⟩, hopening, hclosing⟩
  dsimp only
  omega

/-- A stretch from the first of spans in order to any of them. -/
theorem Ordered.reach (h : Ordered first last (s :: spans)) (ht : t ∈ s :: spans) :
    (⟨s.start, t.stop⟩ : Span).Between first last := by
  have hlast := h.between ht
  rcases List.mem_cons.mp ht with rfl | ht
  · exact hlast
  · have hbehind := h.2.2.between ht
    exact ⟨h.1, Int.le_trans h.2.1 (Int.le_trans hbehind.1 hbehind.2.1), hlast.2.2⟩

/-- Of spans in order each one stops before the next ones start. -/
theorem Ordered.pairwise (h : Ordered first last spans) :
    spans.Pairwise fun s t => s.stop ≤ t.start := by
  induction spans generalizing first with
  | nil => exact .nil
  | cons s rest ih => exact .cons (fun t ht => (h.2.2.between ht).1) (ih h.2.2)

/-- Spans in order lie between the first place and the end of the last of them. -/
theorem Ordered.upTo_endOf (h : Ordered first last spans) :
    Ordered first (endOf first spans) spans ∧ endOf first spans ≤ last := by
  induction spans generalizing first with
  | nil => exact ⟨Int.le_refl _, h⟩
  | cons s rest ih =>
    have hend : endOf first (s :: rest) = endOf s.stop rest := by
      unfold endOf
      rw [List.getLast?_cons]
      cases rest.getLast? <;> rfl
    rw [hend]
    exact ⟨⟨h.1, h.2.1, (ih h.2.2).1⟩, (ih h.2.2).2⟩

end Span

namespace Script

/-- The scripts directly below a script that were read from the same text. -/
def parts : Script → List Script
  | sequence _ children | grouping _ children => children
  | repetition _ _ child | inversion _ child | reflection _ child => [child]
  | conjugation _ a b | rotation _ a b | commutation _ a b => [a, b]
  | move _ _ | nop _ | macroUse _ _ _ | permutation _ _ => []

/-- Whether the parts of a script do not overlap; those of a list stand in order. -/
def PartsApart : Script → Prop
  | sequence _ children | grouping _ children =>
    children.Pairwise fun a b => a.span.stop ≤ b.span.start
  | conjugation _ a b | rotation _ a b | commutation _ a b =>
    a.span.stop ≤ b.span.start ∨ b.span.stop ≤ a.span.start
  | _ => True

/-- The nodes of a script that were read from the same text: the script itself and the nodes of its
parts. -/
inductive Node : Script → Script → Prop
  | self {s : Script} : Node s s
  | part {s part node : Script} (h : part ∈ s.parts) (h' : Node part node) : Node s node

/-- Whether at every node of a script the spans of the parts lie in the span of the node, apart from
each other. -/
def Nested (s : Script) : Prop :=
  ∀ node, s.Node node →
    (∀ part ∈ node.parts, part.span.Between node.span.start node.span.stop) ∧ node.PartsApart

variable {first last : Int} {span : Span} {s a b : Script} {scripts scripts' : List Script}

theorem Nested.of_parts (hin : ∀ part ∈ s.parts, part.span.Between s.span.start s.span.stop)
    (hapart : s.PartsApart) (hparts : ∀ part ∈ s.parts, part.Nested) : s.Nested := by
  intro node hnode
  cases hnode with
  | self => exact ⟨hin, hapart⟩
  | part hpart hnode => exact hparts _ hpart node hnode

theorem Nested.of_leaf (h : s.parts = []) (hapart : s.PartsApart) : s.Nested :=
  .of_parts (by simp [h]) hapart (by simp [h])

/-- A node with a single part. -/
theorem Nested.of_part (h : s.parts = [a]) (hapart : s.PartsApart)
    (hin : a.span.Between s.span.start s.span.stop) (ha : a.Nested) : s.Nested :=
  .of_parts (by simpa [h] using hin) hapart (by simpa [h] using ha)

/-- A node of nested scripts lies where the script lies. -/
theorem Nested.between {node : Script} (h : s.Nested) (hnode : s.Node node)
    (hs : s.span.Between first last) : node.span.Between first last := by
  induction hnode with
  | self => exact hs
  | part hpart hnode ih =>
    have hin := (h _ .self).1 _ hpart
    refine ih (fun node hnode => h node (.part hpart hnode)) ?_
    exact hin.widen hs.1 hs.2.2

/-- Scripts with nested spans, one behind the other between two places of a text. -/
structure Placed (first last : Int) (scripts : List Script) : Prop where
  ordered : Span.Ordered first last (scripts.map Script.span)
  nested : ∀ s ∈ scripts, s.Nested

theorem placed_nil (h : first ≤ last) : Placed first last [] := ⟨h, by simp⟩

theorem placed_singleton (hspan : s.span.Between first last) (h : s.Nested) :
    Placed first last [s] :=
  ⟨hspan, by simpa using h⟩

theorem Placed.widen {first' last' : Int} (h : Placed first last scripts) (hfirst : first' ≤ first)
    (hlast : last ≤ last') : Placed first' last' scripts :=
  ⟨h.ordered.widen hfirst hlast, h.nested⟩

theorem Placed.append {middle : Int} (h : Placed first middle scripts)
    (h' : Placed middle last scripts') : Placed first last (scripts ++ scripts') := by
  refine ⟨?_, List.forall_mem_append.mpr ⟨h.nested, h'.nested⟩⟩
  rw [List.map_append]
  exact Span.ordered_append.mpr ⟨middle, h.ordered, h'.ordered⟩

theorem Placed.between (h : Placed first last scripts) (hs : s ∈ scripts) :
    s.span.Between first last :=
  h.ordered.between (List.mem_map_of_mem hs)

theorem Placed.pairwise (h : Placed first last scripts) :
    scripts.Pairwise fun a b => a.span.stop ≤ b.span.start :=
  List.pairwise_map.mp h.ordered.pairwise

/-- A sequence around scripts that stand one behind the other. -/
theorem Placed.sequence (h : Placed span.start span.stop scripts) :
    (Script.sequence span scripts).Nested :=
  .of_parts (fun _ => h.between) h.pairwise h.nested

theorem Placed.grouping (h : Placed span.start span.stop scripts) :
    (Script.grouping span scripts).Nested :=
  .of_parts (fun _ => h.between) h.pairwise h.nested

@[simp] theorem span_combine (k : BinaryKind) (span : Span) (a b : Script) :
    (k.combine span a b).span = span := by
  cases k <;> rfl

/-- Two scripts combined, in either order. -/
theorem nested_combine (k : BinaryKind) (ha : a.Nested) (hb : b.Nested)
    (hain : a.span.Between span.start span.stop) (hbin : b.span.Between span.start span.stop)
    (hapart : a.span.stop ≤ b.span.start ∨ b.span.stop ≤ a.span.start) :
    (k.combine span a b).Nested := by
  have hparts : (k.combine span a b).parts = [a, b] := by
    cases k <;> rfl
  refine .of_parts ?_ ?_ ?_
  · rw [hparts, span_combine]
    simp [hain, hbin]
  · cases k <;> exact hapart
  · rw [hparts]
    simp [ha, hb]

end Script

namespace Affix

variable {first middle last : Int} {a : Affix} {s : Script}

@[simp] theorem span_wrap (a : Affix) (s : Script) : (a.wrap s).span = a.span.join s.span := by
  unfold wrap
  cases a.operation with
  | binary k operator => exact Script.span_combine ..
  | _ => rfl

/-- An affix that lies between two places of a text and holds its operator. -/
structure Placed (first last : Int) (a : Affix) : Prop where
  between : a.span.Between first last
  operator : ∀ k operator, a.operation = .binary k operator →
    operator.Nested ∧ operator.span.Between a.span.start a.span.stop

/-- An affix around a script that stands apart from it. -/
theorem Placed.nested_wrap (ha : a.Placed first last) (hspan : s.span.start ≤ s.span.stop)
    (hs : s.Nested) (hapart : a.span.stop ≤ s.span.start ∨ s.span.stop ≤ a.span.start) :
    (a.wrap s).Nested := by
  have hjoin := Span.Between.in_join (s := a.span) (t := s.span)
    ⟨Int.le_refl _, ha.between.2.1, Int.le_refl _⟩ ⟨Int.le_refl _, hspan, Int.le_refl _⟩
  unfold wrap
  split
  · exact .of_part rfl trivial hjoin.2 hs
  · exact .of_part rfl trivial hjoin.2 hs
  · exact .of_part rfl trivial hjoin.2 hs
  · rename_i k operator hbinary
    obtain ⟨hnested, hin⟩ := ha.operator k operator hbinary
    refine Script.nested_combine k hnested hs (hin.widen hjoin.1.1 hjoin.1.2.2) hjoin.2 ?_
    unfold Span.Between at hin
    omega

/-- An affix in front of a script. -/
theorem Placed.wrap_behind (ha : a.Placed first middle) (hs : Script.Placed middle last [s]) :
    Script.Placed first last [a.wrap s] := by
  have hspan := hs.between (List.mem_singleton_self s)
  have hnested := hs.nested s (List.mem_singleton_self s)
  refine Script.placed_singleton ?_
    (ha.nested_wrap hspan.2.1 hnested (Or.inl (Int.le_trans ha.between.2.2 hspan.1)))
  rw [span_wrap]
  exact (ha.between.widen (Int.le_refl _) hspan.le).join
    (hspan.widen ha.between.le (Int.le_refl _))

/-- An affix behind a script. -/
theorem Placed.wrap_front (hs : Script.Placed first middle [s]) (ha : a.Placed middle last) :
    Script.Placed first last [a.wrap s] := by
  have hspan := hs.between (List.mem_singleton_self s)
  have hnested := hs.nested s (List.mem_singleton_self s)
  refine Script.placed_singleton ?_
    (ha.nested_wrap hspan.2.1 hnested (Or.inr (Int.le_trans hspan.2.2 ha.between.1)))
  rw [span_wrap]
  exact (ha.between.widen hspan.le (Int.le_refl _)).join
    (hspan.widen (Int.le_refl _) ha.between.le)

end Affix

end CubeLang
