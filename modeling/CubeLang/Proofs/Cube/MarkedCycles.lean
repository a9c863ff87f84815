import CubeLang.Proofs.Cube.CycleText

/-!
# Cycles found by marking

The cycles of an arrangement can be found in one sweep over its locations. First the parts are
entered in a table of where each of them is. Then each location that is neither marked nor solved
begins a way through the table, on which every location is marked, until one is met that is marked
already. The sweep finds the cycles that are listed, in their order: what is marked when it comes to
a location are the cycles with lesser locations, so a way through unmarked locations comes back to
its own beginning. The texts of the side parts take two sweeps, each with fresh marks, which keep
the cycles on one face and then the others.
-/

set_option autoImplicit false

namespace CubeLang

namespace Arrangement

/-! ## Sweeps -/

/-- The table with the part of a location entered; it has no place for a part that is not there. -/
def enter (a : Arrangement) (table : Array Nat) (location : Nat) : Option (Array Nat) :=
  if h : a.source location < table.size then some (table.set (a.source location) location)
  else none

/-- The table of where each part is. -/
def whereTable? (a : Arrangement) : Option (Array Nat) :=
  (List.range a.size).foldlM a.enter (Array.replicate a.size 0)

theorem count_set_lt {marks : Array Bool} {location : Nat} (h : marks[location]? = some false) :
    (marks.setIfInBounds location true).count false < marks.count false := by
  obtain ⟨hlt, hfalse⟩ := Array.getElem?_eq_some_iff.mp h
  have hpos : 0 < marks.count false := Array.count_pos_iff.mpr (hfalse ▸ Array.getElem_mem hlt)
  have hcount : (marks.setIfInBounds location true).count false = marks.count false - 1 := by
    rw [Array.setIfInBounds, dif_pos hlt, Array.count_set, hfalse]
    rfl
  rw [hcount]
  exact Nat.sub_lt hpos Nat.one_pos

/-- The way from a location through a table, up to a location that is marked, and the marks with
those of the way. There is no way past a location that is not there. -/
def follow (table : Array Nat) (marks : Array Bool) (location : Nat) :
    Option (List Nat × Array Bool) :=
  match _h : marks[location]? with
  | none => none
  | some true => some ([], marks)
  | some false => do
    let (way, marks) ← follow table (marks.setIfInBounds location true) (← table[location]?)
    return (location :: way, marks)
termination_by marks.count false
decreasing_by exact count_set_lt _h

/-- A sweep over some locations, which keeps the cycles that are wanted. -/
def sweepFrom (a : Arrangement) (table : Array Nat) (wanted : List Nat → Bool) :
    (starts : List Nat) → (marks : Array Bool) → Option (List (List Nat))
  | [], _ => some []
  | start :: starts, marks => do
    if (← marks[start]?) || a.isSolvedAt start then a.sweepFrom table wanted starts marks
    else
      let (cycle, marks) ← follow table marks start
      let cycles ← a.sweepFrom table wanted starts marks
      return if wanted cycle then cycle :: cycles else cycles

/-- The cycles that are wanted, found in one sweep over all locations. -/
def sweep? (a : Arrangement) (wanted : List Nat → Bool) : Option (List (List Nat)) := do
  let table ← a.whereTable?
  a.sweepFrom table wanted (List.range a.size) (Array.replicate a.size false)

variable {kind : PartKind} {count : Nat} {a : Arrangement} {cycle : List Nat}

/-! ## The table -/

/-- What was entered stays there, since no part is in two locations. -/
theorem Valid.exists_entered (h : a.Valid kind count) {k : Nat} (hk : k ≤ count) :
    ∃ table, (List.range k).foldlM a.enter (Array.replicate count 0) = some table ∧
      table.size = count ∧ ∀ i < k, table[a.source i]? = some i := by
  induction k with
  | zero => exact ⟨_, rfl, Array.size_replicate, fun i hi => absurd hi (Nat.not_lt_zero i)⟩
  | succ k ih =>
    obtain ⟨table, htable, hsize, hentered⟩ := ih (Nat.le_of_succ_le hk)
    have hlt : a.source k < table.size := hsize ▸ h.part_lt hk
    refine ⟨table.set (a.source k) k, ?_, by rw [Array.size_set, hsize], ?_⟩
    · rw [List.range_succ, List.foldlM_append, htable]
      simp [enter, hlt]
    · intro i hi
      rw [Array.getElem?_set]
      by_cases hlast : i = k
      · rw [hlast, if_pos rfl]
      · have hne : a.source k ≠ a.source i := by
          intro heq
          exact hlast (h.part_injective (by omega) hk heq.symm)
        rw [if_neg hne, hentered i (by omega)]

/-- The table says of each part which location holds it. -/
theorem Valid.whereTable?_eq (h : a.Valid kind count) : a.whereTable? = some a.holders := by
  obtain ⟨table, htable, hsize, hentered⟩ := h.exists_entered (Nat.le_refl count)
  rw [whereTable?, h.size_eq, htable]
  congr 1
  refine Array.ext (by simp [hsize, holders, h.size_eq]) ?_
  intro p hp _
  have hp' : p < count := hsize ▸ hp
  obtain ⟨hholder, hsource⟩ := h.holder_spec hp'
  have hget := hentered _ hholder
  rw [hsource, Array.getElem?_eq_getElem hp] at hget
  rw [Option.some.inj hget, ← h.getD_holders hp' 0]
  simp [*]

/-! ## One way -/

/-- The locations that are marked. -/
def Marked (count : Nat) (met : List Nat) (marks : Array Bool) : Prop :=
  marks.size = count ∧ ∀ i < count, marks[i]? = some (decide (i ∈ met))

section

variable {met : List Nat} {marks : Array Bool}

theorem marked_nil (count : Nat) : Marked count [] (Array.replicate count false) := by
  refine ⟨Array.size_replicate, ?_⟩
  intro i hi
  simp [hi]

theorem Marked.mark (h : Marked count met marks) (location : Nat) :
    Marked count (met ++ [location]) (marks.setIfInBounds location true) := by
  obtain ⟨hsize, hmarks⟩ := h
  refine ⟨by rw [Array.size_setIfInBounds, hsize], ?_⟩
  intro i hi
  rw [Array.getElem?_setIfInBounds, hmarks i hi]
  by_cases heq : location = i
  · subst heq
    simp [hsize, hi]
  · simp [heq, Ne.symm heq]

theorem Marked.follow_of_mem (h : Marked count met marks) {x : Nat} (hx : x < count)
    (hmem : x ∈ met) (table : Array Nat) : follow table marks x = some ([], marks) := by
  have hmark : marks[x]? = some true := by simp [h.2 x hx, hmem]
  rw [follow]
  split <;> simp_all

theorem Marked.follow_of_notMem (h : Marked count met marks) {table : Array Nat} {x y : Nat}
    (hx : x < count) (hmem : x ∉ met) (hnext : table[x]? = some y) :
    follow table marks x = (follow table (marks.setIfInBounds x true) y).map fun found =>
      (x :: found.1, found.2) := by
  have hmark : marks[x]? = some false := by simp [h.2 x hx, hmem]
  rw [follow]
  split
  · simp_all
  · simp_all
  · simp only [hnext, Option.bind_eq_bind, Option.bind_some]
    cases follow table (marks.setIfInBounds x true) y <;> rfl

/-- A way through unmarked locations to a marked one is found and marked. -/
theorem Marked.follow_path (h : Marked count met marks) {table : Array Nat} {next : Nat → Nat}
    {path : List Nat} {x last : Nat} (hnext : ∀ z ∈ path, table[z]? = some (next z))
    (hlt : ∀ z ∈ path, z < count) (hnodup : path.Nodup) (hfresh : ∀ z ∈ path, z ∉ met)
    (hlast : last < count) (hmet : last ∈ met) (hpath : x :: path.map next = path ++ [last]) :
    ∃ marks', follow table marks x = some (path, marks') ∧ Marked count (met ++ path) marks' := by
  induction path generalizing marks met x with
  | nil =>
    obtain rfl : x = last := by simpa using hpath
    exact ⟨marks, h.follow_of_mem hlast hmet table, by rwa [List.append_nil]⟩
  | cons z path ih =>
    rw [List.map_cons, List.cons_append, List.cons.injEq] at hpath
    obtain ⟨rfl, hpath⟩ := hpath
    obtain ⟨hz, hnodup⟩ := List.nodup_cons.mp hnodup
    have hfresh' : ∀ y ∈ path, y ∉ met ++ [x] := by
      intro y hy hmem
      rcases List.mem_append.mp hmem with hmem | hmem
      · exact hfresh y (List.mem_cons_of_mem _ hy) hmem
      · exact hz (List.mem_singleton.mp hmem ▸ hy)
    obtain ⟨marks', hfollow, hmarked⟩ := ih (h.mark x)
      (fun y hy => hnext y (List.mem_cons_of_mem _ hy))
      (fun y hy => hlt y (List.mem_cons_of_mem _ hy)) hnodup hfresh'
      (List.mem_append_left _ hmet) hpath
    refine ⟨marks', ?_, by simpa using hmarked⟩
    rw [h.follow_of_notMem (hlt x List.mem_cons_self) (hfresh x List.mem_cons_self)
      (hnext x List.mem_cons_self), hfollow]
    rfl

end

section Valid

variable (h : a.Valid kind count)
include h

/-- Holder by holder a cycle leads round. -/
theorem Valid.map_holder (hcycle : a.IsCycle cycle) : cycle.map a.holder = cycle.rotate 1 := by
  have hback : ∀ x ∈ cycle.rotate 1, a.holder (a.source x) = x := by
    intro x hx
    have hlt : x < count := h.size_eq ▸ hcycle.lt_size x (List.mem_rotate.mp hx)
    obtain ⟨hholder, hsource⟩ := h.holder_spec (h.part_lt hlt)
    exact h.part_injective hholder hlt hsource
  calc cycle.map a.holder = ((cycle.rotate 1).map a.source).map a.holder := by rw [hcycle.linked]
    _ = (cycle.rotate 1).map (a.holder ∘ a.source) := List.map_map
    _ = (cycle.rotate 1).map id := List.map_congr_left hback
    _ = cycle.rotate 1 := List.map_id _

/-- From an unmarked location the whole cycle of it is found, if none of it is marked. -/
theorem Valid.follow_cycleOf {met : List Nat} {marks : Array Bool} (hmarks : Marked count met marks)
    {start : Nat} (hstart : start < count) (hfresh : ∀ x ∈ cycleOf a.holders start, x ∉ met) :
    ∃ marks', follow a.holders marks start = some (cycleOf a.holders start, marks') ∧
      Marked count (met ++ cycleOf a.holders start) marks' := by
  obtain ⟨hcycle, -⟩ := h.isCycle_cycleOf hstart
  have hround := h.map_holder hcycle
  have hlt : ∀ x ∈ cycleOf a.holders start, x < count := fun x hx => h.size_eq ▸ hcycle.lt_size x hx
  have hnodup := hcycle.nodup
  have hnext : ∀ x < count, a.holders[x]? = some (a.holder x) := by
    intro x hx
    have hx' : x < a.size := by rwa [h.size_eq]
    simp [holders, hx']
  rw [cycleOf] at hround hlt hnodup hfresh ⊢
  rw [List.map_cons, List.rotate_cons_succ, List.rotate_zero] at hround
  obtain ⟨hstart', hnodup⟩ := List.nodup_cons.mp hnodup
  obtain ⟨marks', hfollow, hmarked⟩ := (hmarks.mark start).follow_path
    (fun x hx => hnext x (hlt x (List.mem_cons_of_mem _ hx)))
    (fun x hx => hlt x (List.mem_cons_of_mem _ hx)) hnodup
    (by
      intro x hx hmem
      rcases List.mem_append.mp hmem with hmem | hmem
      · exact hfresh x (List.mem_cons_of_mem _ hx) hmem
      · exact hstart' (List.mem_singleton.mp hmem ▸ hx))
    hstart (List.mem_append_right _ (List.mem_singleton_self start)) hround
  refine ⟨marks', ?_, by simpa using hmarked⟩
  rw [hmarks.follow_of_notMem hstart (hfresh start List.mem_cons_self) (hnext start hstart),
    hfollow]
  rfl

end Valid

/-! ## The whole sweep -/

/-- What a location contributes to the cycles listed. -/
def contribution (a : Arrangement) (start : Nat) : Option (List Nat) :=
  if a.isSolvedAt start then none
  else
    let cycle := cycleOf a.holders start
    if cycle.all fun location => start ≤ location then some cycle else none

/-- The locations on the cycles listed for those before a location. -/
def before (a : Arrangement) (start : Nat) : List Nat :=
  ((List.range start).filterMap a.contribution).flatten

theorem cycles_eq_filterMap (a : Arrangement) :
    a.cycles = (List.range a.size).filterMap a.contribution := rfl

theorem mem_before {start x : Nat} :
    x ∈ a.before start ↔ ∃ s < start, ∃ cycle, a.contribution s = some cycle ∧ x ∈ cycle := by
  simp only [before, List.mem_flatten, List.mem_filterMap, List.mem_range]
  constructor
  · rintro ⟨cycle, ⟨s, hs, hcycle⟩, hx⟩
    exact ⟨s, hs, cycle, hcycle, hx⟩
  · rintro ⟨s, hs, cycle, hcycle, hx⟩
    exact ⟨cycle, ⟨s, hs, hcycle⟩, hx⟩

theorem before_succ (a : Arrangement) (start : Nat) :
    a.before (start + 1) = a.before start ++ (a.contribution start).getD [] := by
  unfold before
  rw [List.range_succ, List.filterMap_append, List.flatten_append]
  cases hcontribution : a.contribution start with
  | none => simp [hcontribution]
  | some cycle => simp [hcontribution]

section Valid

variable (h : a.Valid kind count)
include h

/-- The locations on the cycles before a location make whole cycles. -/
theorem Valid.mem_before_of_mem {s x y : Nat} (hs : s ≤ count) (hcycle : a.IsCycle cycle)
    (hx : x ∈ cycle) (hy : y ∈ cycle) (hmem : x ∈ a.before s) : y ∈ a.before s := by
  obtain ⟨t, ht, other, hother, hx'⟩ := mem_before.mp hmem
  obtain ⟨-, hway, -⟩ := contribution_eq_some.mp hother
  have hother' : a.IsCycle other := hway ▸ (h.isCycle_cycleOf (by omega)).1
  exact mem_before.mpr ⟨t, ht, other, hother, hcycle.subset_of_mem hother' hx hx' hy⟩

/-- A location that is not solved contributes its cycle if it is on none before, and nothing else. -/
theorem Valid.contribution_of_unsolved {start : Nat} (hstart : start < count)
    (hsolved : a.isSolvedAt start = false) : a.contribution start =
      if start ∈ a.before start then none else some (cycleOf a.holders start) := by
  have hlisted : ∀ {s cycle}, s < count → a.contribution s = some cycle → cycle ∈ a.cycles := by
    intro s cycle hs hcycle
    exact List.mem_filterMap.mpr ⟨s, List.mem_range.mpr (h.size_eq ▸ hs), hcycle⟩
  split
  · rename_i hmem
    obtain ⟨s, hs, cycle, hcycle, hx⟩ := mem_before.mp hmem
    by_contra hne
    obtain ⟨other, hother⟩ := Option.ne_none_iff_exists'.mp hne
    obtain ⟨-, rfl, hleast⟩ := contribution_eq_some.mp hother
    -- Both cycles are the same one, which has a location before its least one.
    obtain rfl := h.cycles_eq_of_mem (hlisted (by omega) hcycle) (hlisted hstart hother) hx
      (h.isCycle_cycleOf hstart).2
    have hmem' : s ∈ cycleOf a.holders start := by
      obtain ⟨-, heq, -⟩ := contribution_eq_some.mp hcycle
      exact heq ▸ (h.isCycle_cycleOf (by omega : s < count)).2
    exact absurd (hleast s hmem') (Nat.not_le.mpr hs)
  · rename_i hmem
    obtain ⟨cycle, hcycle, hx⟩ := h.exists_cycle hstart hsolved
    obtain ⟨s, hs, hcontribution⟩ := List.mem_filterMap.mp hcycle
    obtain ⟨-, -, hleast⟩ := contribution_eq_some.mp hcontribution
    rcases Nat.lt_or_eq_of_le (hleast start hx) with hlt | rfl
    · exact absurd (mem_before.mpr ⟨s, hlt, cycle, hcontribution, hx⟩) hmem
    · obtain ⟨-, rfl, -⟩ := contribution_eq_some.mp hcontribution
      exact hcontribution

/-- A sweep that comes to a location with the cycles before it marked finds the cycles that this
location and those behind it contribute. -/
theorem Valid.sweepFrom_eq (wanted : List Nat → Bool) {k start : Nat} (hk : start + k = count)
    {marks : Array Bool} (hmarks : Marked count (a.before start) marks) :
    a.sweepFrom a.holders wanted (List.range' start k) marks =
      some (((List.range' start k).filterMap a.contribution).filter wanted) := by
  -- By induction on the locations to come; what is marked is on the cycles before `start`.
  induction k generalizing start marks with
  | zero => rfl
  | succ k ih =>
    have hstart : start < count := by omega
    have hrest : ∀ {marks}, Marked count (a.before (start + 1)) marks →
        a.sweepFrom a.holders wanted (List.range' (start + 1) k) marks =
          some (((List.range' (start + 1) k).filterMap a.contribution).filter wanted) :=
      fun hmarks => ih (by omega) hmarks
    have hskip : a.contribution start = none → Marked count (a.before (start + 1)) marks := by
      intro hnone
      rw [before_succ, hnone]
      simpa using hmarks
    rw [List.range'_succ, sweepFrom, hmarks.2 start hstart, Option.bind_eq_bind, Option.bind_some]
    cases hsolved : a.isSolvedAt start with
    | true =>
      have hnone : a.contribution start = none := by simp [contribution, hsolved]
      rw [Bool.or_true, if_pos rfl, hrest (hskip hnone), List.filterMap_cons_none hnone]
    | false =>
      have hcontribution := h.contribution_of_unsolved hstart hsolved
      by_cases hmem : start ∈ a.before start
      · rw [if_pos hmem] at hcontribution
        rw [decide_eq_true hmem, Bool.or_false, if_pos rfl, hrest (hskip hcontribution),
          List.filterMap_cons_none hcontribution]
      · rw [if_neg hmem] at hcontribution
        obtain ⟨hcycle, hmem'⟩ := h.isCycle_cycleOf hstart
        have hfresh : ∀ x ∈ cycleOf a.holders start, x ∉ a.before start := fun x hx hbefore =>
          hmem (h.mem_before_of_mem (Nat.le_of_lt hstart) hcycle hx hmem' hbefore)
        obtain ⟨marks', hfollow, hmarked⟩ := h.follow_cycleOf hmarks hstart hfresh
        have hmarks' : Marked count (a.before (start + 1)) marks' := by
          rw [before_succ, hcontribution]
          exact hmarked
        rw [decide_eq_false hmem, Bool.or_false, if_neg Bool.false_ne_true, hfollow,
          List.filterMap_cons_some hcontribution]
        simp only [Option.bind_eq_bind, Option.bind_some, hrest hmarks', List.filter_cons]
        rfl

/-- A sweep finds the cycles listed that are wanted. -/
theorem Valid.sweep?_eq (wanted : List Nat → Bool) :
    a.sweep? wanted = some (a.cycles.filter wanted) := by
  have hsweep := h.sweepFrom_eq wanted (Nat.zero_add count) (marked_nil count)
  rw [sweep?, h.whereTable?_eq, h.size_eq, cycles_eq_filterMap, h.size_eq, List.range_eq_range',
    ← hsweep]
  rfl

end Valid

/-! ## What the cycles are -/

/-- Cycles that share no location and take up all locations that are not solved. -/
structure Partition (a : Arrangement) (cycles : List (List Nat)) : Prop where
  ne_nil : ∀ cycle ∈ cycles, cycle ≠ []
  nodup : ∀ cycle ∈ cycles, cycle.Nodup
  /-- The location behind another one, the first one being behind the last one, holds its part. -/
  next : ∀ cycle ∈ cycles, ∀ k i j, cycle[k]? = some i →
    cycle[(k + 1) % cycle.length]? = some j → (a.slot j).part = i
  disjoint : cycles.Pairwise List.Disjoint
  covers : ∀ i, (∃ cycle ∈ cycles, i ∈ cycle) ↔
    i < a.size ∧ ((a.slot i).part ≠ i ∨ (a.slot i).twist ≠ 0)

theorem isSolvedAt_eq_false_iff {i : Nat} :
    a.isSolvedAt i = false ↔ (a.slot i).part ≠ i ∨ (a.slot i).twist ≠ 0 := by
  rw [isSolvedAt, decide_eq_false_iff_not, ← not_and_or]
  refine not_congr ⟨?_, ?_⟩
  · intro heq
    rw [heq]
    exact ⟨rfl, rfl⟩
  · rintro ⟨hpart, htwist⟩
    exact congrArg₂ Slot.mk hpart htwist

theorem IsCycle.part_next (h : a.IsCycle cycle) {k i j : Nat} (hi : cycle[k]? = some i)
    (hj : cycle[(k + 1) % cycle.length]? = some j) : (a.slot j).part = i := by
  have hget := congrArg (fun l => l[k]?) h.linked
  have hk : k < cycle.length := (List.getElem?_eq_some_iff.mp hi).1
  simp only [List.getElem?_map, List.getElem?_rotate hk, hi, hj] at hget
  exact Option.some.inj hget

theorem Valid.partition_cycles (h : a.Valid kind count) : a.Partition a.cycles where
  ne_nil _ hcycle := (h.isCycle_of_mem hcycle).ne_nil
  nodup _ hcycle := (h.isCycle_of_mem hcycle).nodup
  next _ hcycle _ _ _ hi hj := (h.isCycle_of_mem hcycle).part_next hi hj
  disjoint := h.pairwise_cycles
  covers i := by
    rw [h.size_eq, ← isSolvedAt_eq_false_iff]
    constructor
    · rintro ⟨cycle, hcycle, hi⟩
      obtain ⟨start, hstart, hunsolved, -, -⟩ := h.exists_start hcycle
      have hC := h.isCycle_of_mem hcycle
      refine ⟨h.size_eq ▸ hC.lt_size i hi, ?_⟩
      by_contra hsolved
      have heq := hC.eq_of_isSolvedAt hi (Bool.eq_true_of_not_eq_false hsolved) hstart
      exact hsolved (heq ▸ hunsolved)
    · rintro ⟨hi, hunsolved⟩
      exact h.exists_cycle hi hunsolved

/-- The order of the cycles does not matter. -/
theorem Partition.perm {cycles cycles' : List (List Nat)} (h : a.Partition cycles)
    (hperm : cycles.Perm cycles') : a.Partition cycles' where
  ne_nil cycle hcycle := h.ne_nil cycle (hperm.mem_iff.mpr hcycle)
  nodup cycle hcycle := h.nodup cycle (hperm.mem_iff.mpr hcycle)
  next cycle hcycle := h.next cycle (hperm.mem_iff.mpr hcycle)
  disjoint := (hperm.pairwise_iff fun hxy => List.disjoint_symm hxy).mp h.disjoint
  covers i := by
    rw [← h.covers i]
    exact exists_congr fun cycle => and_congr_left' hperm.mem_iff.symm

/-- No cycle comes twice, since it shares its locations with itself. -/
theorem Partition.nodup_cycles {cycles : List (List Nat)} (h : a.Partition cycles) :
    cycles.Nodup := by
  refine h.disjoint.imp_of_mem ?_
  rintro cycle _ hcycle - hdisjoint rfl
  obtain ⟨i, hi⟩ := List.exists_mem_of_ne_nil cycle (h.ne_nil cycle hcycle)
  exact hdisjoint hi hi

end Arrangement

namespace Cube

open Arrangement

variable {n : Nat} {c : Cube} {cycle : List Nat}

theorem onOneFace_iff : onOneFace cycle = true ↔ ∀ i ∈ cycle, ∀ j ∈ cycle, i % 6 = j % 6 := by
  unfold onOneFace
  rw [List.all_eq_true]
  simp only [decide_eq_true_eq]
  constructor
  · intro h i hi j hj
    rw [h i hi, h j hj]
  · intro h i hi
    cases cycle with
    | nil => contradiction
    | cons first rest => exact h i hi first List.mem_cons_self

theorem onOneFace_eq_false_iff :
    onOneFace cycle = false ↔ ∃ i ∈ cycle, ∃ j ∈ cycle, i % 6 ≠ j % 6 := by
  rw [← Bool.not_eq_true, onOneFace_iff]
  simp only [not_forall, exists_prop, ne_eq]

/-- **Sweeps partition what is not solved into cycles.** In every valid state a sweep over the
locations of a kind ends and finds the cycles listed: they are not empty, repeat no location, share
none, have behind each location the one that holds its part, and take up the locations that are not
solved and no others. The two sweeps behind the texts of the side parts find the same cycles, each
once: the first sweep those on one face, the second sweep the others. -/
theorem sweeps_find_cycles (hc : c.Valid n) :
    (∀ kind, (c.arrangement kind).sweep? (fun _ => true) = some (c.arrangement kind).cycles ∧
      (c.arrangement kind).Partition (c.arrangement kind).cycles) ∧
    ∃ single mixed, c.sides.sweep? onOneFace = some single ∧
      c.sides.sweep? (fun cycle => !onOneFace cycle) = some mixed ∧
      (single ++ mixed).Perm c.sides.cycles ∧ (single ++ mixed).Nodup ∧
      (∀ cycle ∈ single, ∀ i ∈ cycle, ∀ j ∈ cycle, i % 6 = j % 6) ∧
      (∀ cycle ∈ mixed, ∃ i ∈ cycle, ∃ j ∈ cycle, i % 6 ≠ j % 6) ∧
      ∀ tokens, c.sideTexts tokens false = (single ++ mixed).map fun cycle =>
        (PartCycle.written .side c.sides (turnedTo (leastPlace cycle) cycle)).text n tokens
          .side := by
  constructor
  · intro kind
    have hsweep := (hc.2 kind).sweep?_eq fun _ => true
    rw [List.filter_true] at hsweep
    exact ⟨hsweep, (hc.2 kind).partition_cycles⟩
  · have hsides : c.sides.Valid .side (PartKind.side.count n) := hc.2 .side
    have hperm : (c.sides.cycles.filter onOneFace ++
        c.sides.cycles.filter fun cycle => !onOneFace cycle).Perm c.sides.cycles :=
      List.filter_append_perm _ _
    refine ⟨_, _, hsides.sweep?_eq onOneFace, hsides.sweep?_eq fun cycle => !onOneFace cycle,
      hperm, (hsides.partition_cycles.perm hperm.symm).nodup_cycles, ?_, ?_, ?_⟩
    · intro cycle hcycle
      exact onOneFace_iff.mp (List.mem_filter.mp hcycle).2
    · intro cycle hcycle
      have hnot : (!onOneFace cycle) = true := (List.mem_filter.mp hcycle).2
      exact onOneFace_eq_false_iff.mp (by simpa using hnot)
    · intro tokens
      rw [hc.sideTexts_eq tokens, sideCycles, List.map_map]
      rfl

/-- A cube with three layers whose right and back faces are turned in the middle, while the middles
of the upper and the front face have changed places. -/
def middlesMoved : Cube :=
  (solved 3).setArrangement .side #[⟨0, 1⟩, ⟨2, 0⟩, ⟨1, 3⟩, ⟨3, 0⟩, ⟨4, 0⟩, ⟨5, 2⟩]

theorem sweeps_find_cycles_middlesMoved : middlesMoved.Valid 3 ∧
    middlesMoved.sides.sweep? (fun _ => true) = some [[0], [1, 2], [5]] ∧
    middlesMoved.sides.Partition [[0], [1, 2], [5]] ∧
    ∃ single mixed, middlesMoved.sides.sweep? onOneFace = some single ∧
      middlesMoved.sides.sweep? (fun cycle => !onOneFace cycle) = some mixed ∧
      (single ++ mixed).Perm [[0], [1, 2], [5]] := by
  have hvalid : middlesMoved.Valid 3 :=
    valid_setArrangement valid_solved (by decide)
  have hcycles : middlesMoved.sides.cycles = [[0], [1, 2], [5]] := by decide
  obtain ⟨hkinds, single, mixed, hsingle, hmixed, hperm, -⟩ := sweeps_find_cycles hvalid
  obtain ⟨hsweep, hpartition⟩ := hkinds .side
  have harrangement : middlesMoved.arrangement .side = middlesMoved.sides := rfl
  rw [harrangement, hcycles] at hsweep hpartition
  rw [hcycles] at hperm
  exact ⟨hvalid, hsweep, hpartition, single, mixed, hsingle, hmixed, hperm⟩

end Cube

end CubeLang
