import CubeLang.Proofs.Cube.CycleBounds
import CubeLang.Proofs.Script.Inverse

/-!
# Programs that use cubes

A program makes cubes and copies of them, turns them, sets their parts and has scripts carried out
on them, with whatever arguments, and goes on when a call was refused. Each call keeps the parts of
every cube in order: none is lost or there twice, and each stands in one of the ways in which it
can. A script that is refused halfway has done what came before. Every other call that is refused
leaves all cubes as they were, and so does a single cycle of parts.
-/

set_option autoImplicit false

namespace CubeLang

namespace Cube

variable {n : Nat}

/-! ## Calls -/

/-- A new cube that takes the parts of a cube. -/
def copy (c : Cube) : Except Fault Cube := do
  let fresh ← create c.layerCount
  fresh.setTo c

/-- A call that a program makes on its cubes, which are known by their numbers. -/
inductive Call where
  | create (layerCount : Int)
  | copy (cube : Nat)
  | reset (cube : Nat)
  | setTo (cube other : Nat)
  | setParts (cube : Nat) (kind : PartKind) (parts twists : List Int)
  | turn (cube : Nat) (axis mask angle : Int)
  | apply (cube : Nat) (script : Script) (inverse : Bool)

namespace Call

/-- Why a call fails. -/
inductive Fault where
  | noCube (cube : Nat)
  | refused (fault : Script.Fault)

/-- Adds a cube, if it could be made. -/
def add : Except Cube.Fault Cube → EStateM Fault (List Cube) Unit
  | .ok c => modify (· ++ [c])
  | .error fault => throw (.refused (.cube fault))

/-- Looks up a cube. -/
def find (i : Nat) : EStateM Fault (List Cube) Cube := fun cubes =>
  match cubes[i]? with
  | some c => .ok c cubes
  | none => .error (.noCube i) cubes

/-- Changes a cube. What a change has done to it before it failed stays done. -/
def change (i : Nat) (step : Script.Step Cube Unit) : EStateM Fault (List Cube) Unit := do
  match step (← find i) with
  | .ok _ c => modify (·.set i c)
  | .error fault c =>
    modify (·.set i c)
    throw (.refused fault)

/-- A change that a cube makes as a whole or refuses, as a step. -/
def whole (f : Cube → Except Cube.Fault Cube) : Script.Step Cube Unit := fun c =>
  match f c with
  | .ok c' => .ok () c'
  | .error fault => .error (.cube fault) c

/-- Makes a call. -/
def make : Call → EStateM Fault (List Cube) Unit
  | create n => add (Cube.create n)
  | copy i => do add (← find i).copy
  | reset i => change i (whole fun c => .ok c.reset)
  | setTo i j => do
    let other ← find j
    change i (whole fun c => c.setTo other)
  | setParts i kind parts twists => change i (whole fun c => c.setParts kind parts twists)
  | turn i axis mask angle => change i (whole fun c => c.turn axis mask angle)
  | apply i script inverse => change i (script.apply inverse)

/-- The cubes after some calls; a call is made also if the one before it failed. -/
def after : List Call → List Cube → List Cube
  | [], cubes => cubes
  | call :: calls, cubes => after calls (stateAfter (call.make cubes))

/-- Whether the cycles of parts in the script of a call came about by adding parts. -/
def CyclesBuilt : Call → Prop
  | apply _ script _ => script.CyclesBuilt
  | _ => True

/-- Whether a call does one thing: all do but for carrying out a script that is no single cycle. -/
def Single : Call → Prop
  | apply _ (.permutation _ _) _ => True
  | apply _ _ _ => False
  | _ => True

end Call

/-! ## Cubes in order -/

/-- A cube of a supported layer count whose locations hold every part once, each with a twist of its
kind. -/
structure InOrder (c : Cube) : Prop where
  supported : (c.layerCount : Int) ∈ supported
  parts_perm : ∀ kind, (c.arrangement kind).parts.Perm (List.range (c.count kind))
  twists_length : ∀ kind, (c.arrangement kind).twists.length = c.count kind
  twist_lt : ∀ kind, ∀ t ∈ (c.arrangement kind).twists, t < kind.modulus

theorem Valid.inOrder {c : Cube} (hc : c.Valid n) (hn : (n : Int) ∈ Cube.supported) :
    c.InOrder := by
  obtain rfl := hc.1
  refine ⟨hn, ?_, ?_, ?_⟩
  · intro kind
    exact (hc.2 kind).parts_perm.symm
  · intro kind
    have hsize : (c.arrangement kind).toList.length = c.count kind := (hc.2 kind).size_eq
    rwa [Arrangement.twists, List.length_map]
  · intro kind
    exact (hc.2 kind).2.2

theorem InOrder.valid {c : Cube} (h : c.InOrder) : c.Valid c.layerCount := by
  refine ⟨rfl, ?_⟩
  intro kind
  refine ⟨?_, ?_, h.twist_lt kind⟩
  · have hlength := h.twists_length kind
    rwa [Arrangement.twists, List.length_map] at hlength
  · intro i hi
    exact (h.parts_perm kind).mem_iff.mpr (List.mem_range.mpr hi)

/-! ## What a change keeps -/

theorem keeps_whole {I : Cube → Prop} {f : Cube → Except Fault Cube}
    (hf : ∀ c c', I c → f c = .ok c' → I c') : Keeps I (Call.whole f) := by
  intro c hc
  unfold Call.whole
  split
  · rename_i c' hok
    exact hf c c' hc hok
  · exact hc

theorem atomic_whole (f : Cube → Except Fault Cube) : Atomic (Call.whole f) := by
  intro c fault c' h
  unfold Call.whole at h
  split at h
  · contradiction
  · injection h with _ hsame
    exact hsame.symm

/-- A turn keeps a state valid, whether or not it is refused. -/
theorem valid_of_turn {c c' : Cube} (hn : 2 ≤ n) (hc : c.Valid n) {axis mask angle : Int}
    (h : c.turn axis mask angle = .ok c') : c'.Valid n := by
  rcases turn_uniform hn axis mask angle with ⟨a, hok⟩ | ⟨fault, herror⟩
  · obtain rfl := Except.ok.inj ((hok c hc).symm.trans h)
    exact hc.andThen (valid_ofTurn hn a mask.toNat angle)
  · have hrefused : Except.error fault = Except.ok c' := (herror c hc).symm.trans h
    contradiction

/-- A script keeps a state valid, also where it is refused halfway. -/
theorem keeps_apply (hn : 2 ≤ n) {s : Script} (hs : s.CyclesBuilt) (inverse : Bool) :
    Keeps (Valid n) (s.apply inverse) := by
  have hR : Script.RunProperty Script.perform (Keeps (Valid n)) := {
    skip := fun _ h => h
    fail := fun _ _ h => h
    andThen := fun hf hg => hf.bind fun _ => hg
    turn := by
      intro span m c hc
      cases hturn : c.turn m.axis m.layerMask m.angle with
      | ok c' =>
        rw [Script.perform_turn_of_ok span hturn]
        exact valid_of_turn hn hc hturn
      | error fault =>
        rw [Script.perform_turn_of_error span hturn]
        exact hc
    cycle := by
      intro cycle hbuilt inverse c hc
      cases hact : cycle.act? inverse c with
      | some c' =>
        rw [Script.perform_cycle_of_some hact]
        exact (PartCycle.act?_not_of_act? hbuilt.nodup_locations hc hact).1
      | none =>
        rw [Script.perform_cycle_of_none hact]
        exact hc }
  exact hR.walk false inverse s hs

/-- A single cycle of parts leaves a cube that it is refused by as it was. -/
theorem atomic_apply_permutation (span : Span) (cycle : PartCycle) (inverse : Bool) :
    Atomic ((Script.permutation span cycle).apply inverse) := by
  intro c fault c' h
  have hrun : Script.perform (.cycle cycle inverse) c = .error fault c' := h
  cases hact : cycle.act? inverse c with
  | some c'' =>
    rw [Script.perform_cycle_of_some hact] at hrun
    contradiction
  | none =>
    rw [Script.perform_cycle_of_none hact] at hrun
    injection hrun with _ hsame
    exact hsame.symm

/-! ## What a call keeps -/

namespace Call

variable {cubes : List Cube} {layers : List Nat} {i : Nat} {step : Script.Step Cube Unit}

theorem set_eq_of_getElem? {α : Type} {as : List α} {a : α} (h : as[i]? = some a) :
    as.set i a = as := by
  obtain ⟨hlt, rfl⟩ := List.getElem?_eq_some_iff.mp h
  exact List.set_getElem_self hlt

/-- Cubes in order, the first of which have these layer counts. -/
structure Kept (layers : List Nat) (cubes : List Cube) : Prop where
  inOrder : ∀ c ∈ cubes, c.InOrder
  layers_kept : layers <+: cubes.map layerCount

theorem find_of_some {c : Cube} (h : cubes[i]? = some c) : find i cubes = .ok c cubes := by
  simp only [find, h]

theorem find_of_none (h : cubes[i]? = none) : find i cubes = .error (.noCube i) cubes := by
  simp only [find, h]

/-- Looking a cube up changes nothing. -/
theorem atomic_find_bind {α : Type} {f : Cube → EStateM Fault (List Cube) α}
    (hf : ∀ c, Atomic (f c)) : Atomic (do f (← find i)) := by
  intro cubes fault cubes' h
  cases hfind : cubes[i]? with
  | none =>
    rw [bind_of_error (find_of_none hfind)] at h
    injection h with _ hsame
    exact hsame.symm
  | some c =>
    rw [bind_of_ok (find_of_some hfind)] at h
    exact hf c cubes fault cubes' h

theorem change_of_ok {c c' : Cube} (h : cubes[i]? = some c) (hstep : step c = .ok () c') :
    change i step cubes = .ok () (cubes.set i c') := by
  refine (bind_of_ok (find_of_some h)).trans ?_
  rw [hstep]
  rfl

theorem change_of_error {c c' : Cube} {fault : Script.Fault} (h : cubes[i]? = some c)
    (hstep : step c = .error fault c') :
    change i step cubes = .error (.refused fault) (cubes.set i c') := by
  refine (bind_of_ok (find_of_some h)).trans ?_
  rw [hstep]
  rfl

theorem change_of_none (h : cubes[i]? = none) :
    change i step cubes = .error (.noCube i) cubes :=
  bind_of_error (find_of_none h)

/-- Cubes stay in order when one of them is replaced by one of the same layer count in order. -/
theorem Kept.set (h : Kept layers cubes) {c c' : Cube} (hc : cubes[i]? = some c)
    (hc' : c'.Valid c.layerCount) : Kept layers (cubes.set i c') := by
  have horder := h.inOrder c (List.mem_of_getElem? hc)
  refine ⟨?_, ?_⟩
  · intro d hd
    rcases List.mem_or_eq_of_mem_set hd with hd | rfl
    · exact h.inOrder d hd
    · exact hc'.inOrder horder.supported
  · have hlayer : (cubes.map layerCount)[i]? = some c'.layerCount := by
      rw [List.getElem?_map, hc, hc'.1]
      rfl
    rw [List.map_set, set_eq_of_getElem? hlayer]
    exact h.layers_kept

/-- So they do when a change keeps the states of each layer count. -/
theorem keeps_change (hstep : ∀ n : Nat, (n : Int) ∈ supported → Keeps (Valid n) step) :
    Keeps (Kept layers) (change i step) := by
  intro cubes h
  cases hfind : cubes[i]? with
  | none =>
    rw [change_of_none hfind]
    exact h
  | some c =>
    have horder := h.inOrder c (List.mem_of_getElem? hfind)
    have hkept := hstep c.layerCount horder.supported c horder.valid
    cases hrun : step c with
    | ok _ c' =>
      rw [hrun] at hkept
      rw [change_of_ok hfind hrun]
      exact h.set hfind hkept
    | error fault c' =>
      rw [hrun] at hkept
      rw [change_of_error hfind hrun]
      exact h.set hfind hkept

theorem atomic_change (hstep : Atomic step) : Atomic (change i step) := by
  intro cubes fault cubes' h
  cases hfind : cubes[i]? with
  | none =>
    rw [change_of_none hfind] at h
    injection h with _ hsame
    exact hsame.symm
  | some c =>
    cases hrun : step c with
    | ok _ c' =>
      rw [change_of_ok hfind hrun] at h
      contradiction
    | error fault' c' =>
      obtain rfl := hstep c fault' c' hrun
      rw [change_of_error hfind hrun, set_eq_of_getElem? hfind] at h
      injection h with _ hsame
      exact hsame.symm

/-- Another cube in order may be added to cubes in order. -/
theorem Kept.add (h : Kept layers cubes) {made : Except Cube.Fault Cube}
    (hmade : ∀ c, made = .ok c → c.InOrder) : Kept layers (stateAfter (add made cubes)) := by
  cases hresult : made with
  | error fault => exact h
  | ok c =>
    refine ⟨?_, ?_⟩
    · intro d hd
      rcases List.mem_append.mp hd with hd | hd
      · exact h.inOrder d hd
      · obtain rfl := List.mem_singleton.mp hd
        exact hmade d hresult
    · have happend : (cubes ++ [c]).map layerCount = cubes.map layerCount ++ [c.layerCount] :=
        List.map_append
      exact happend ▸ h.layers_kept.trans (List.prefix_append _ _)

theorem inOrder_of_create {k : Int} {c : Cube} (h : Cube.create k = .ok c) : c.InOrder := by
  unfold Cube.create at h
  split at h
  · rename_i hsupported
    obtain rfl := Except.ok.inj h
    have hmem : k ∈ supported := List.contains_iff_mem.mp hsupported
    have hnonneg : ((k.toNat : Nat) : Int) = k := by
      simp only [supported, List.mem_cons, List.not_mem_nil, or_false] at hmem
      omega
    exact valid_solved.inOrder (hnonneg.symm ▸ hmem)
  · contradiction

theorem eq_of_setTo {c other c' : Cube} (h : c.setTo other = .ok c') :
    c' = other ∧ other.layerCount = c.layerCount := by
  unfold Cube.setTo at h
  split at h
  · rename_i hlayers
    exact ⟨(Except.ok.inj h).symm, hlayers⟩
  · contradiction

/-- A copy of a cube is equal to it. -/
theorem eq_of_copy {c c' : Cube} (h : c.copy = .ok c') : c' = c := by
  unfold Cube.copy at h
  cases hcreate : Cube.create c.layerCount with
  | error fault =>
    rw [hcreate] at h
    contradiction
  | ok fresh =>
    rw [hcreate] at h
    exact (eq_of_setTo h).1

/-- Every call keeps the cubes in order, whether or not it fails. -/
theorem keeps_make {call : Call} (hcall : call.CyclesBuilt) : Keeps (Kept layers) call.make := by
  cases call with
  | create k =>
    intro cubes h
    exact h.add fun c => inOrder_of_create
  | copy i =>
    intro cubes h
    cases hfind : cubes[i]? with
    | none =>
      have hrun : (Call.copy i).make cubes = .error (.noCube i) cubes :=
        bind_of_error (find_of_none hfind)
      rw [hrun]
      exact h
    | some c =>
      have hrun : (Call.copy i).make cubes = Call.add c.copy cubes :=
        bind_of_ok (find_of_some hfind)
      rw [hrun]
      refine h.add fun c' hcopy => ?_
      rw [eq_of_copy hcopy]
      exact h.inOrder c (List.mem_of_getElem? hfind)
  | reset i =>
    refine keeps_change fun n _ => keeps_whole (f := fun c => .ok c.reset) ?_
    intro c c' hc hreset
    obtain rfl := Except.ok.inj hreset
    obtain rfl := hc.1
    exact valid_solved
  | setTo i j =>
    intro cubes h
    cases hfind : cubes[j]? with
    | none =>
      have hrun : (Call.setTo i j).make cubes = .error (.noCube j) cubes :=
        bind_of_error (find_of_none hfind)
      rw [hrun]
      exact h
    | some other =>
      have hrun : (Call.setTo i j).make cubes = change i (whole fun c => c.setTo other) cubes :=
        bind_of_ok (find_of_some hfind)
      rw [hrun]
      refine keeps_change (fun n _ => keeps_whole ?_) cubes h
      intro c c' hc hset
      obtain ⟨rfl, hlayers⟩ := eq_of_setTo hset
      have hvalid := (h.inOrder c' (List.mem_of_getElem? hfind)).valid
      rwa [hlayers, hc.1] at hvalid
  | setParts i kind parts twists =>
    exact keeps_change fun n _ => keeps_whole fun c c' hc => valid_of_setParts hc
  | turn i axis mask angle =>
    exact keeps_change fun n hn =>
      keeps_whole fun c c' hc => valid_of_turn (two_le_of_supported hn) hc
  | apply i script inverse =>
    exact keeps_change fun n hn => keeps_apply (two_le_of_supported hn) hcall inverse

/-- A call that does one thing leaves all cubes as they were when it fails. -/
theorem atomic_make {call : Call} (hcall : call.Single) : Atomic call.make := by
  have hadd : ∀ made, Atomic (Call.add made) := by
    intro made cubes fault cubes' h
    cases made with
    | ok c => contradiction
    | error fault' =>
      injection h with _ hsame
      exact hsame.symm
  cases call with
  | create k => exact hadd _
  | copy i => exact atomic_find_bind fun c => hadd _
  | reset i => exact atomic_change (atomic_whole fun c => .ok c.reset)
  | setTo i j => exact atomic_find_bind fun other => atomic_change (atomic_whole _)
  | setParts i kind parts twists => exact atomic_change (atomic_whole _)
  | turn i axis mask angle => exact atomic_change (atomic_whole _)
  | apply i script inverse =>
    cases script with
    | permutation span cycle => exact atomic_change (atomic_apply_permutation span cycle inverse)
    | _ => contradiction

/-- All calls keep the cubes in order. -/
theorem kept_after {calls : List Call} (hcalls : ∀ call ∈ calls, call.CyclesBuilt)
    (h : Kept layers cubes) : Kept layers (after calls cubes) := by
  induction calls generalizing cubes with
  | nil => exact h
  | cons call calls ih =>
    refine ih (fun c hc => hcalls c (List.mem_cons_of_mem _ hc)) ?_
    exact keeps_make (hcalls call List.mem_cons_self) cubes h

/-- **Calls keep cubes in order, and what is refused is not done.** Whatever a program has called
and calls next, all its cubes are in order afterwards and those that were there have as many layers
as before. If the call fails and does one thing, the cubes are what they were. -/
theorem make_keeps_cubes (calls : List Call) (call : Call)
    (hbuilt : ∀ made ∈ calls ++ [call], made.CyclesBuilt) :
    (∀ c ∈ stateAfter (call.make (after calls [])), c.InOrder) ∧
      (after calls []).map layerCount <+:
        (stateAfter (call.make (after calls []))).map layerCount ∧
      (call.Single → ∀ fault cubes, call.make (after calls []) = .error fault cubes →
        cubes = after calls []) := by
  have hcalls : ∀ made ∈ calls, made.CyclesBuilt :=
    fun made hmade => hbuilt made (List.mem_append_left _ hmade)
  have hcall : call.CyclesBuilt := hbuilt call (by simp)
  have hbefore : Kept [] (after calls []) :=
    kept_after hcalls ⟨by simp, List.nil_prefix⟩
  have hafter : Kept ((after calls []).map layerCount) (stateAfter (call.make (after calls []))) :=
    keeps_make hcall _ ⟨hbefore.inOrder, List.prefix_refl _⟩
  refine ⟨hafter.inOrder, hafter.layers_kept, ?_⟩
  intro hsingle fault cubes hfail
  exact atomic_make hsingle _ fault cubes hfail

/-- Two edge parts, one of them on a layer that a cube with three layers does not have. -/
def farEdges : PartCycle where
  kind := some .edge
  sign := 1
  items := [⟨24, 0⟩, ⟨9, 1⟩]

theorem built_farEdges : farEdges.Built := by
  have hfirst : PartCycle.addItem .edge (some .permutationPlus) [.faceU, .faceR] 2 5 {} =
    .ok () { farEdges with items := [⟨24, 0⟩] } := rfl
  have hsecond : PartCycle.addItem .edge none [.faceU, .faceF] 0 5
    { farEdges with items := [⟨24, 0⟩] } = .ok () farEdges := rfl
  exact .accepted (.accepted .empty hfirst) hsecond

/-- A cube with three layers is made, turned by a script that is then refused, given too few
corners and copied; no cube with eight layers is made. -/
def refusedCalls : List Call :=
  [.create 3, .apply 0 (.sequence {} [.move {} ⟨3, 0, 4, 1⟩, .permutation {} farEdges]) false,
    .setParts 0 .corner [0, 1, 2] [0, 0, 0], .create 8, .copy 0]

/-- After these calls the cycle alone is refused by the copy, which stays as it is. -/
theorem make_keeps_cubes_refusedCalls :
    (∀ made ∈ refusedCalls ++ [.apply 1 (.permutation {} farEdges) true], made.CyclesBuilt) ∧
      (Call.apply 1 (.permutation {} farEdges) true).Single ∧
      ∃ fault, (Call.apply 1 (.permutation {} farEdges) true).make (after refusedCalls []) =
        .error fault (after refusedCalls []) := by
  have hbuilt : ∀ made ∈ refusedCalls ++ [.apply 1 (.permutation {} farEdges) true],
      made.CyclesBuilt := by
    simp [refusedCalls, CyclesBuilt, Script.CyclesBuilt, Script.AllCyclesBuilt, built_farEdges]
  have hfail : (outcome ((Call.apply 1 (.permutation {} farEdges) true).make
      (after refusedCalls []))).isOk = false := by decide +kernel
  obtain ⟨fault, cubes, hmake⟩ := exists_eq_error_of_isOk hfail
  obtain ⟨-, -, hsame⟩ := make_keeps_cubes refusedCalls _ hbuilt
  obtain rfl := hsame trivial fault cubes hmake
  exact ⟨hbuilt, trivial, fault, hmake⟩

end Call

end Cube

end CubeLang
