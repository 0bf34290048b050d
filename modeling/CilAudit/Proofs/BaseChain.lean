import CilAudit.Proofs.Reachability
import Mathlib.Data.List.Dedup
import Mathlib.Data.List.Perm.Subperm

/-!
# The chain of bases is maximal

`Assembly.baseTypes` carries the names it may still step to, and it starts
without the name of the type itself. A walk like that could end too soon for
two reasons that have nothing to do with the bases: a name that was never among
the unseen ones, and a name that was taken out for another type. Neither
happens. Every declared name is unseen at the start but the type's own, and a
name leaves the unseen ones only when a type of that name joins the chain. So
the walk stops where there is no declared base, or where the next base would
repeat a name.

The type itself need not be known by its name. A later declaration may hide it,
and then the walk never comes to that later one: the name is spent.
-/

namespace CilAudit

namespace Assembly

variable {a : Assembly} {unseen : List String} {t u last : TypeDef}
  {bases : List TypeDef}

/-- One step to a base that the assembly declares, which is the latest
declaration of its name. -/
def Extends (a : Assembly) (t u : TypeDef) : Prop :=
  t.base.bind a.type? = some u

theorem extends_iff :
    a.Extends t u ↔ ∃ name, t.base = some name ∧ a.type? name = some u :=
  Option.bind_eq_some_iff

theorem isLatest_of_base (h : a.Extends t u) : a.IsLatest u := by
  obtain ⟨name, -, hname⟩ := extends_iff.1 h
  exact isLatest_of_type? hname

/-! ## Declarations in the order in which they were added -/

theorem types_foldl_addType (added : List TypeDef) (a : Assembly) :
    (added.foldl addType a).types = a.types ++ added := by
  induction added generalizing a with
  | nil => simp
  | cons t rest ih => simp [ih, addType]

/-- A name is looked up in the last declaration that has it. The statement is
about the list of declarations, so that it can be used whichever way that list
came about. -/
theorem type?_eq_some_iff {name : String} :
    a.type? name = some u ↔ ∃ earlier later, a.types = earlier ++ u :: later ∧
      u.fullName = name ∧ ∀ v ∈ later, v.fullName ≠ name := by
  rw [type?, List.find?_eq_some_iff_append]
  constructor
  · intro h
    obtain ⟨hname, later, earlier, htypes, hlater⟩ := h
    refine ⟨earlier.reverse, later.reverse, ?_, by simpa using hname, ?_⟩
    · simpa using congrArg List.reverse htypes
    · intro v hv
      simpa using hlater v (List.mem_reverse.1 hv)
  · intro h
    obtain ⟨earlier, later, htypes, hname, hlater⟩ := h
    refine ⟨by simpa using hname, later.reverse, earlier.reverse,
      by simp [htypes], ?_⟩
    intro v hv
    simpa using hlater v (List.mem_reverse.1 hv)

theorem type?_eq_none_iff {name : String} :
    a.type? name = none ↔ ∀ u ∈ a.types, u.fullName ≠ name := by
  simp [type?]

/-! ## The walk -/

theorem isChain_basesFrom {base : Option String} (hbase : t.base = base) :
    List.IsChain a.Extends (t :: a.basesFrom unseen base) := by
  fun_induction basesFrom a unseen base generalizing t with
  | case1 => exact .singleton t
  | case2 unseen base u hu hseen ih =>
      exact .cons_cons (by rw [Extends, hbase, hu]) (ih rfl)
  | case3 => exact .singleton t

theorem mem_unseen_of_mem_basesFrom {base : Option String}
    (h : u ∈ a.basesFrom unseen base) :
    u.fullName ∈ unseen := by
  fun_induction basesFrom a unseen base with
  | case1 => cases h
  | case2 unseen base t hu hseen ih =>
      rcases List.mem_cons.1 h with rfl | h
      · exact hseen
      · exact (mem_without.1 (ih h)).1
  | case3 => cases h

theorem nodup_basesFrom (base : Option String) :
    ((a.basesFrom unseen base).map TypeDef.fullName).Nodup := by
  fun_induction basesFrom a unseen base with
  | case1 => exact List.nodup_nil
  | case2 unseen base t hu hseen ih =>
      rw [List.map_cons, List.nodup_cons]
      refine ⟨?_, ih⟩
      intro hmem
      obtain ⟨u, hu, hname⟩ := List.mem_map.1 hmem
      exact (mem_without.1 (mem_unseen_of_mem_basesFrom hu)).2 hname
  | case3 => exact List.nodup_nil

/-- Where the walk stops at a type with a declared base, the name of that base
was not unseen to begin with, or the walk itself has used it up. -/
theorem name_of_last_basesFrom {base : Option String} (hbase : t.base = base)
    (hlast : last ∈ (t :: a.basesFrom unseen base).getLast?)
    (hu : a.Extends last u) :
    u.fullName ∉ unseen ∨
    u.fullName ∈ (a.basesFrom unseen base).map TypeDef.fullName := by
  fun_induction basesFrom a unseen base generalizing t with
  | case1 unseen base hnone =>
      obtain rfl : t = last := by simpa using hlast
      rw [Extends, hbase, hnone] at hu
      cases hu
  | case2 unseen base v hv hseen ih =>
      rw [List.getLast?_cons_cons] at hlast
      rw [List.map_cons, List.mem_cons]
      by_cases hname : u.fullName = v.fullName
      · exact .inr (.inl hname)
      · rcases ih rfl hlast with hgone | hmem
        · exact .inl fun hmem => hgone (mem_without.2 ⟨hmem, hname⟩)
        · exact .inr (.inr hmem)
  | case3 unseen base v hv hseen =>
      obtain rfl : t = last := by simpa using hlast
      rw [Extends, hbase, hv, Option.some.injEq] at hu
      exact .inl (hu ▸ hseen)

/-- Any row of bases over unseen names, none of them twice, is the front of the
walk. By induction along the walk, which has no choice at any step. -/
theorem prefix_basesFrom (hchain : List.IsChain a.Extends (t :: bases))
    (hnodup : (bases.map TypeDef.fullName).Nodup)
    (hunseen : ∀ u ∈ bases, u.fullName ∈ unseen) :
    bases <+: a.basesFrom unseen t.base := by
  induction bases generalizing t unseen with
  | nil => exact List.nil_prefix
  | cons u rest ih =>
      obtain ⟨hu, hrest⟩ := List.isChain_cons_cons.1 hchain
      obtain ⟨hfresh, hnodup⟩ := List.nodup_cons.1 (List.map_cons ▸ hnodup)
      have hseen : u.fullName ∈ unseen := hunseen u List.mem_cons_self
      have hlater : ∀ v ∈ rest, v.fullName ∈ without unseen u.fullName := by
        intro v hv
        refine mem_without.2 ⟨hunseen v (List.mem_cons_of_mem u hv), ?_⟩
        intro hname
        exact hfresh (hname ▸ List.mem_map_of_mem hv)
      rw [basesFrom, hu]
      dsimp only
      rw [dif_pos hseen, List.cons_prefix_cons]
      exact ⟨rfl, ih hrest hnodup hlater⟩

/-! ## All bases of a type -/

theorem isChain_baseTypes (t : TypeDef) :
    List.IsChain a.Extends (t :: a.baseTypes t) :=
  isChain_basesFrom rfl

theorem nodup_baseTypes (t : TypeDef) :
    ((t :: a.baseTypes t).map TypeDef.fullName).Nodup := by
  rw [List.map_cons, List.nodup_cons]
  refine ⟨?_, nodup_basesFrom _⟩
  intro hmem
  obtain ⟨u, hu, hname⟩ := List.mem_map.1 hmem
  exact (mem_without.1 (mem_unseen_of_mem_basesFrom hu)).2 hname

theorem isLatest_of_isChain (hchain : List.IsChain a.Extends (t :: bases))
    (hu : u ∈ bases) :
    a.IsLatest u := by
  induction bases generalizing t with
  | nil => cases hu
  | cons v rest ih =>
      obtain ⟨hv, hrest⟩ := List.isChain_cons_cons.1 hchain
      rcases List.mem_cons.1 hu with rfl | hmem
      · exact isLatest_of_base hv
      · exact ih hrest hmem

/-- If the last type of the chain has a declared base, a type of that name is
in the chain. -/
theorem name_of_last_baseTypes (hlast : last ∈ (t :: a.baseTypes t).getLast?)
    (hu : a.Extends last u) :
    u.fullName ∈ (t :: a.baseTypes t).map TypeDef.fullName := by
  rw [List.map_cons, List.mem_cons]
  rcases name_of_last_basesFrom rfl hlast hu with hgone | hmem
  · -- Every declared name but that of the type itself was unseen when the walk
    -- began.
    refine .inl (Classical.byContradiction fun hne =>
      hgone (mem_without.2 ⟨?_, hne⟩))
    exact (isLatest_of_base hu).mem_typeNames
  · exact .inr hmem

theorem length_baseTypes_le (t : TypeDef) :
    (a.baseTypes t).length ≤ a.typeNames.dedup.length := by
  have hnodup :=
    (List.nodup_cons.1 (List.map_cons ▸ nodup_baseTypes (a := a) t)).2
  have hsub : (a.baseTypes t).map TypeDef.fullName ⊆ a.typeNames.dedup := by
    intro name hname
    obtain ⟨u, hu, rfl⟩ := List.mem_map.1 hname
    exact List.mem_dedup.2
      (isLatest_of_isChain (isChain_baseTypes t) hu).mem_typeNames
  simpa using (List.subperm_of_subset hnodup hsub).length_le

theorem prefix_baseTypes (hchain : List.IsChain a.Extends (t :: bases))
    (hnodup : ((t :: bases).map TypeDef.fullName).Nodup) :
    bases <+: a.baseTypes t := by
  obtain ⟨hfresh, hnodup⟩ := List.nodup_cons.1 (List.map_cons ▸ hnodup)
  refine prefix_basesFrom hchain hnodup fun u hu => mem_without.2 ⟨?_, ?_⟩
  · exact (isLatest_of_isChain hchain hu).mem_typeNames
  · intro hname
    exact hfresh (hname ▸ List.mem_map_of_mem hu)

/-- The walk has one of three reasons to stop: the last type names no base, or
one that is not declared, or one whose name has been met. -/
theorem last_baseTypes_cases (hlast : last ∈ (t :: a.baseTypes t).getLast?) :
    last.base = none ∨ ∃ name, last.base = some name ∧
      ((∀ u ∈ a.types, u.fullName ≠ name) ∨
        name ∈ (t :: a.baseTypes t).map TypeDef.fullName) := by
  cases hbase : last.base with
  | none => exact .inl rfl
  | some name =>
      refine .inr ⟨name, rfl, ?_⟩
      cases hu : a.type? name with
      | none => exact .inl (type?_eq_none_iff.1 hu)
      | some u =>
          have hmem := name_of_last_baseTypes hlast
            (extends_iff.2 ⟨name, hbase, hu⟩)
          rw [fullName_of_type? hu] at hmem
          exact .inr hmem

end Assembly

/-- However the types of an assembly were added, the bases of a type are the
longest row that starts at its base and goes on from base to base without
coming to a name twice. Names are looked up in the latest declaration that has
them. -/
theorem base_chain_maximal (name : String)
    (resources : Std.TreeMap String (List UInt8))
    (added : List TypeDef) (t : TypeDef) :
    let a := added.foldl Assembly.addType { name, resources }
    (∀ n u, a.type? n = some u ↔
      ∃ earlier later, added = earlier ++ u :: later ∧
      u.fullName = n ∧ ∀ v ∈ later, v.fullName ≠ n) ∧
    List.IsChain a.Extends (t :: a.baseTypes t) ∧
    ((t :: a.baseTypes t).map TypeDef.fullName).Nodup ∧
    (a.baseTypes t).length ≤ (added.map TypeDef.fullName).dedup.length ∧
    (∀ last ∈ (t :: a.baseTypes t).getLast?, last.base = none ∨
      ∃ n, last.base = some n ∧
      ((∀ u ∈ added, u.fullName ≠ n) ∨
        n ∈ (t :: a.baseTypes t).map TypeDef.fullName)) ∧
    ∀ bases, List.IsChain a.Extends (t :: bases) →
      ((t :: bases).map TypeDef.fullName).Nodup → bases <+: a.baseTypes t := by
  intro a
  have htypes : a.types = added :=
    Assembly.types_foldl_addType added { name, resources }
  rw [← htypes]
  refine ⟨?_, Assembly.isChain_baseTypes t, Assembly.nodup_baseTypes t,
    Assembly.length_baseTypes_le t, ?_, ?_⟩
  · intro n u
    exact Assembly.type?_eq_some_iff
  · intro last hlast
    exact Assembly.last_baseTypes_cases hlast
  · intro bases hchain hnodup
    exact Assembly.prefix_baseTypes hchain hnodup

/-- A node and a leaf that extend each other, and a second node that hides the
first. -/
def hidingTypes : List TypeDef := [
  { space := "Sample", name := "Node", base := some "Sample.Leaf" },
  { space := "Sample", name := "Leaf", base := some "Sample.Node" },
  { space := "Sample", name := "Node" }]

/-- The hidden node still has the leaf as its base, and the name of both nodes
belongs to the second. -/
theorem base_chain_maximal_hiddenNode :
    let a := hidingTypes.foldl Assembly.addType
      { name := "Sample", resources := ∅ }
    a.type? "Sample.Node" = some hidingTypes[2] ∧
      [hidingTypes[1]] <+: a.baseTypes hidingTypes[0] := by
  intro a
  obtain ⟨hlookup, -, -, -, -, hmaximal⟩ :=
    base_chain_maximal "Sample" ∅ hidingTypes hidingTypes[0]
  have hleaf : a.type? "Sample.Leaf" = some hidingTypes[1] :=
    (hlookup _ _).2 ⟨[hidingTypes[0]], [hidingTypes[2]], rfl,
      by decide, by decide⟩
  refine ⟨(hlookup _ _).2 ⟨hidingTypes.take 2, [], rfl, by decide, by decide⟩,
    ?_⟩
  exact hmaximal _ (.cons_cons hleaf (.singleton _)) (by decide)

end CilAudit
