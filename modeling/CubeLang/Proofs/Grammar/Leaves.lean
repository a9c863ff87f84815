import CubeLang.Proofs.Grammar.Derivation

/-!
# The leaves of scripts

At the leaves of a script stand its moves, pauses, cycles of parts and uses of macros. Whatever is put
around them, each leaf of a script that was read is a token of the text, or a cycle: a move is one of
the notation, a cycle has the tokens of one, and the body of a macro is what the token stands for.
-/

set_option autoImplicit false

namespace CubeLang

namespace Script

mutual

/-- The leaves of a script, in order. The body of a macro is not a part of the script. -/
def leaves : Script → List Script
  | move span m => [move span m]
  | nop span => [nop span]
  | sequence _ children | grouping _ children => leavesAll children
  | repetition _ _ child | inversion _ child | reflection _ child => child.leaves
  | conjugation _ a b | rotation _ a b | commutation _ a b => a.leaves ++ b.leaves
  | macroUse span identifier body => [macroUse span identifier body]
  | permutation span cycle => [permutation span cycle]

/-- The leaves of some scripts. -/
def leavesAll : List Script → List Script
  | [] => []
  | s :: rest => s.leaves ++ leavesAll rest

end

@[simp] theorem leavesAll_append (scripts scripts' : List Script) :
    leavesAll (scripts ++ scripts') = leavesAll scripts ++ leavesAll scripts' := by
  induction scripts with
  | nil => simp [leavesAll]
  | cons s rest ih => simp [leavesAll, ih]

@[simp] theorem leavesAll_singleton (s : Script) : leavesAll [s] = s.leaves := by simp [leavesAll]

@[simp] theorem leaves_combine (k : BinaryKind) (span : Span) (a b : Script) :
    (k.combine span a b).leaves = a.leaves ++ b.leaves := by
  cases k <;> simp [BinaryKind.combine, leaves]

/-- A macro that a script uses, or the body of a macro that it uses, and so on. -/
inductive Reaches : Script → String → Script → Prop
  | here {s : Script} {span : Span} {identifier : String} {body : Script}
      (h : macroUse span identifier body ∈ s.leaves) : Reaches s identifier body
  | inside {s : Script} {span : Span} {other identifier : String} {inner body : Script}
      (h : macroUse span other inner ∈ s.leaves) (h' : Reaches inner identifier body) :
      Reaches s identifier body

/-- The body of the first use of a macro in a script. -/
def usedBody? (identifier : String) (s : Script) : Option Script :=
  s.leaves.findSome? fun leaf =>
    match leaf with
    | macroUse _ other body => if other = identifier then some body else none
    | _ => none

theorem exists_mem_leaves_of_usedBody? {identifier : String} {s body : Script}
    (h : s.usedBody? identifier = some body) : ∃ span, macroUse span identifier body ∈ s.leaves := by
  obtain ⟨leaf, hleaf, hbody⟩ := List.exists_of_findSome?_eq_some h
  split at hbody
  · rename_i span other _
    obtain ⟨rfl, hsame⟩ := Option.ite_none_right_eq_some.mp hbody
    obtain rfl := Option.some.inj hsame
    exact ⟨span, hleaf⟩
  · contradiction

end Script

namespace Reading

variable {r : Reading} {ts : List Token} {scripts : List Script}

/-- What a leaf of a script is read from. -/
inductive ReadLeaf (r : Reading) : Script → Prop
  | move {t : Token} {m : Move} (hm : r.grammar.terms.move? t.text = some m) :
      ReadLeaf r (.move t.span m)
  | nop {t : Token} : ReadLeaf r (.nop t.span)
  | macroUse {t : Token} {body : Script} {m m' : Memory} (hbody : r.expand t m = .ok body m') :
      ReadLeaf r (.macroUse t.span t.text body)
  | permutation {ts : List Token} {span : Span} {cycle : PartCycle}
      (h : r.PermutationTokens ts (.permutation span cycle)) :
      ReadLeaf r (.permutation span cycle)

theorem PermutationTokens.leaves {s : Script} (h : r.PermutationTokens ts s) :
    ∀ leaf ∈ s.leaves, r.ReadLeaf leaf := by
  obtain ⟨span, cycle, rfl⟩ : ∃ span cycle, s = .permutation span cycle := by
    cases h with
    | intro _ _ _ _ _ hsign =>
      obtain ⟨span, twist, rfl, -⟩ := eq_permutation_of_withSign hsign
      exact ⟨_, _, rfl⟩
  intro leaf hleaf
  obtain rfl := List.mem_singleton.mp hleaf
  exact .permutation h

theorem AffixTokens.leaves_wrap {place : Fixity} {a : Affix} (h : r.AffixTokens place ts a)
    (s : Script) : (a.wrap s).leaves = s.leaves := by
  cases h with
  | repetition _ hcount =>
    cases hcount with
    | intro => simp [Affix.wrap, Script.leaves]
  | inversion => simp [Affix.wrap, Script.leaves]
  | reflection => simp [Affix.wrap, Script.leaves]

theorem leaves_operatorAffix_wrap (k : BinaryKind) (opening closing : Token) (s : Script) :
    ((operatorAffix k opening closing scripts).wrap s).leaves =
      Script.leavesAll scripts ++ s.leaves := by
  simp [operatorAffix, Affix.wrap, Script.leaves]

/-- The leaves of what is read are read from the text. -/
theorem Derives.leaves (h : r.Derives ts scripts) :
    ∀ leaf ∈ Script.leavesAll scripts, r.ReadLeaf leaf := by
  induction h with
  | nil => simp [Script.leavesAll]
  | append _ _ ih ih' =>
    rw [Script.leavesAll_append]
    exact List.forall_mem_append.mpr ⟨ih, ih'⟩
  | move _ hm =>
    intro leaf hleaf
    obtain rfl := List.mem_singleton.mp (Script.leavesAll_singleton _ ▸ hleaf)
    exact .move hm
  | macroUse _ _ hbody =>
    intro leaf hleaf
    obtain rfl := List.mem_singleton.mp (Script.leavesAll_singleton _ ▸ hleaf)
    exact .macroUse hbody
  | nop =>
    intro leaf hleaf
    obtain rfl := List.mem_singleton.mp (Script.leavesAll_singleton _ ▸ hleaf)
    exact .nop
  | permutation hcycle =>
    rw [Script.leavesAll_singleton]
    exact hcycle.leaves
  | grouping _ _ _ ih => simpa [Script.leaves] using ih
  | inversion _ _ _ _ ih => simpa [Script.leaves] using ih
  | reflection _ _ _ _ ih => simpa [Script.leaves] using ih
  | divided _ _ _ _ _ _ ih ih' =>
    rw [Script.leavesAll_singleton, Script.leaves_combine]
    exact List.forall_mem_append.mpr ⟨by simpa [Script.leaves] using ih,
      by simpa [Script.leaves] using ih'⟩
  | prefixed ha _ ih =>
    rw [Script.leavesAll_singleton] at ih ⊢
    rwa [ha.leaves_wrap]
  | suffixed _ ha ih =>
    rw [Script.leavesAll_singleton] at ih ⊢
    rwa [ha.leaves_wrap]
  | operatorInFront _ _ _ _ _ ih ih' =>
    rw [Script.leavesAll_singleton] at ih' ⊢
    rw [leaves_operatorAffix_wrap]
    exact List.forall_mem_append.mpr ⟨ih, ih'⟩
  | operatorBehind _ _ _ _ _ ih' ih =>
    rw [Script.leavesAll_singleton] at ih' ⊢
    rw [leaves_operatorAffix_wrap]
    exact List.forall_mem_append.mpr ⟨ih, ih'⟩
  | infixed _ _ _ ih ih' =>
    rw [Script.leavesAll_singleton] at ih ih' ⊢
    split
    · rw [Script.leaves_combine]
      exact List.forall_mem_append.mpr ⟨ih, ih'⟩
    · rw [Script.leaves_combine]
      exact List.forall_mem_append.mpr ⟨ih', ih⟩

end Reading

end CubeLang
