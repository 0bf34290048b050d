import CilAudit.Code.Assembler
import CilAudit.Proofs.Linking
import Mathlib.Algebra.Ring.Nat

/-!
# What the assembler does

The assembler goes on after a refusal, so that it can report the first one at
the end. A body comes out only of a run without any, and in such a run each
statement does one of three things (`Step`): it declares a slot, marks a label
that was new, or emits a draft at the current offset. What a whole run leaves
behind follows by induction on it (`Run`).

Offsets and sizes stop at the largest word. Until the widths of the drafts add
up to more than that they are exact, and the drafts fill the code without a
gap.
-/

namespace CilAudit.Code

/-- How many bytes a draft takes. Its `size` says the same unless it was cut to
a 32-bit word. -/
def Draft.width {τ : Type} (d : Draft τ) : Nat :=
  d.op.length + d.op.layout.width d.operand.cases

def Statement.emits : Statement → Bool
  | .slot _ | .label _ => false
  | _ => true

theorem Statement.emits_iff {s : Statement} :
    s.emits = true ↔ ∃ e, s.encoding? = some e := by
  cases s <;> simp [emits, encoding?]

/-- A label marks an instruction: something is emitted behind it. A label
without this has an index, but no instruction stands there. -/
def Marks (statements : List Statement) (name : String) : Prop :=
  ∃ before after, statements = before ++ .label name :: after ∧
    ∃ s ∈ after, s.emits = true

/-- A draft is what is emitted for an encoding. -/
structure Encoding.Drafts (e : Encoding) (d : Draft String) : Prop where
  row : Opcode.lookup? e.lead e.code = some d.op
  operand : d.operand = e.operand

namespace Assembler

/-! ## Steps -/

/-- What a statement does to an assembler that does not refuse it. Proofs about
assembling go over this relation, one case for each kind of effect and not for
each statement. -/
inductive Step (a : Assembler) : Statement → Assembler → Prop
  | declare (typeName : String) : Step a (.slot typeName) (a.declare typeName)
  | mark {name : String} :
      a.labels[name]? = none →
        Step a (.label name)
          { a with labels := a.labels.insert name a.code.size }
  | emit {s : Statement} {e : Encoding} {d : Draft String} :
      s.encoding? = some e → e.Drafts d → d.offset = a.offset →
      d.size = min d.width maxOffset →
        Step a s { a with
          code := a.code.push d
          offset := min (a.offset + d.size) maxOffset }

variable {a b : Assembler} {s : Statement} {ss : List Statement}

theorem fault_refuse_ne (a : Assembler) (flaw : Flaw) :
    (a.refuse flaw).fault ≠ none := by
  rw [refuse]
  cases a.fault <;> exact Option.some_ne_none _

theorem perform_of_encoding? {e : Encoding} (h : s.encoding? = some e) :
    a.perform s = a.emit e := by
  unfold perform
  split
  · cases h
  · cases h
  · rw [h]

/-- A statement that leaves no refusal found none and made none. Refusals are
never taken back, so an assembler without one at the end had none at any step.
-/
theorem step_of_perform (h : (a.perform s).fault = none) :
    a.fault = none ∧ Step a s (a.perform s) := by
  cases he : s.encoding? with
  | some e =>
      rw [perform_of_encoding? he] at h ⊢
      unfold emit at h ⊢
      split at h
      · exact absurd h (fault_refuse_ne a _)
      · next op hop =>
          refine ⟨h, .emit he ⟨hop, rfl⟩ rfl ?_⟩
          rw [Draft.width, Nat.add_comm]
  | none =>
      cases s with
      | slot typeName => exact ⟨h, .declare typeName⟩
      | label name =>
          rw [perform, mark] at h ⊢
          split at h
          · exact absurd h (fault_refuse_ne _ _)
          · next hnew =>
              rw [if_neg hnew]
              refine ⟨h, .mark ?_⟩
              exact Std.TreeMap.getElem?_eq_none_of_contains_eq_false
                (Bool.eq_false_iff.2 hnew)
      | _ => cases he

theorem Step.label_kept {name : String} {index : Nat} (h : Step a s b)
    (hname : a.labels[name]? = some index) : b.labels[name]? = some index := by
  cases h with
  | declare => exact hname
  | emit => exact hname
  | @mark other hnew =>
      have hne : compare other name ≠ .eq := by
        intro heq
        rw [Std.LawfulEqCmp.eq_of_compare heq, hname] at hnew
        cases hnew
      rw [Std.TreeMap.getElem?_insert, if_neg hne, hname]

theorem landing_eq_ok_iff (a : Assembler) (label : String) (index : Nat) :
    a.landing label = .ok index ↔ a.labels[label]? = some index := by
  unfold landing
  cases a.labels[label]? with
  | none => exact ⟨fun h => (by cases h), fun h => (by cases h)⟩
  | some found => rw [Except.ok.injEq, Option.some.injEq]

/-! ## Runs -/

inductive Run : Assembler → List Statement → Assembler → Prop
  | nil (a : Assembler) : Run a [] a
  | cons {a b c : Assembler} {s : Statement} {ss : List Statement} :
      Step a s b → Run b ss c → Run a (s :: ss) c

theorem run_of_foldl (h : (ss.foldl perform a).fault = none) :
    a.fault = none ∧ Run a ss (ss.foldl perform a) := by
  induction ss generalizing a with
  | nil => exact ⟨h, .nil a⟩
  | cons s ss ih =>
      obtain ⟨hfault, hrun⟩ := ih h
      obtain ⟨hnone, hstep⟩ := step_of_perform hfault
      exact ⟨hnone, .cons hstep hrun⟩

theorem Run.split {before after : List Statement}
    (h : Run a (before ++ after) b) :
    ∃ mid, Run a before mid ∧ Run mid after b := by
  induction before generalizing a with
  | nil => exact ⟨a, .nil a, h⟩
  | cons s before ih =>
      cases h with
      | cons hstep hrun =>
          obtain ⟨mid, hbefore, hafter⟩ := ih hrun
          exact ⟨mid, .cons hstep hbefore, hafter⟩

theorem Run.label_kept {name : String} {index : Nat} (h : Run a ss b)
    (hname : a.labels[name]? = some index) : b.labels[name]? = some index := by
  induction h with
  | nil => exact hname
  | cons hstep _ ih => exact ih (hstep.label_kept hname)

/-- A run emits a draft for each statement that emits one. The drafts fill the
code as long as their widths add up to no more than a 32-bit word can say. -/
theorem Run.drafts (h : Run a ss b) :
    ∃ ds, b.code.toList = a.code.toList ++ ds ∧
      List.Forall₂ Encoding.Drafts (ss.filterMap Statement.encoding?) ds ∧
      (a.offset + (ds.map Draft.width).sum ≤ maxOffset →
        Tiles a.offset (a.offset + (ds.map Draft.width).sum)
          (ds.map Draft.extent) ∧
          ∀ d ∈ ds, d.size = d.width) := by
  induction h with
  | nil a => exact ⟨[], by simp, .nil, fun _ => ⟨rfl, by simp⟩⟩
  | @cons a b c s ss hstep _ ih =>
      obtain ⟨ds, hcode, hdrafts, htight⟩ := ih
      cases hstep with
      | declare typeName => exact ⟨ds, hcode, hdrafts, htight⟩
      | mark hnew => exact ⟨ds, hcode, hdrafts, htight⟩
      | @emit _ e d he hd hoffset hsize =>
          refine ⟨d :: ds, ?_, ?_, fun hle => ?_⟩
          · rw [hcode, Array.toList_push, List.append_assoc]
            rfl
          · rw [List.filterMap_cons_some he]
            exact .cons hd hdrafts
          · rw [List.map_cons, List.sum_cons] at hle ⊢
            -- Neither the size nor the next offset is cut off yet.
            have hwidth : d.size = d.width := by omega
            have hnext : min (a.offset + d.size) maxOffset =
                a.offset + d.width := by omega
            rw [hnext] at htight
            dsimp only at htight
            obtain ⟨htiles, hsizes⟩ := htight (by omega)
            refine ⟨⟨hoffset, ?_, ?_⟩, List.forall_mem_cons.2 ⟨hwidth, hsizes⟩⟩
            · rw [hwidth]
              exact Nat.le_trans d.op.length_pos (Nat.le_add_right ..)
            · rwa [hwidth, ← Nat.add_assoc]

theorem Run.size_eq (h : Run a ss b) :
    b.code.size = a.code.size + (ss.filterMap Statement.encoding?).length := by
  obtain ⟨ds, hcode, hdrafts, -⟩ := h.drafts
  rw [← Array.length_toList, hcode, List.length_append, hdrafts.length_eq,
    Array.length_toList]

theorem length_encodings_pos (h : ∃ s ∈ ss, s.emits = true) :
    0 < (ss.filterMap Statement.encoding?).length := by
  obtain ⟨s, hs, hemits⟩ := h
  obtain ⟨e, he⟩ := Statement.emits_iff.1 hemits
  exact List.length_pos_of_mem (List.mem_filterMap.2 ⟨s, hs, he⟩)

/-- A label leads to where the next instruction behind it goes. -/
theorem Run.label_at {before after : List Statement} {name : String}
    (h : Run a (before ++ .label name :: after) b) :
    b.labels[name]? =
      some (a.code.size + (before.filterMap Statement.encoding?).length) := by
  obtain ⟨mid, hbefore, hrest⟩ := h.split
  cases hrest with
  | cons hstep hafter =>
      cases hstep with
      | emit he => cases he
      | mark hnew =>
          -- The label was set to the number of drafts so far, and no later one
          -- can move it.
          have hmarked := hafter.label_kept Std.TreeMap.getElem?_insert_self
          rwa [hbefore.size_eq] at hmarked

end Assembler

/-! ## Assembled bodies -/

/-- What is known of a body that was assembled from statements: the drafts that
were emitted for them, and where their labels lead. All further theorems about
assembled bodies start from this and no longer look at the assembler. -/
structure Emitted (statements : List Statement) (body : Body)
    (ds : List (Draft String)) (leads : String → Nat → Prop) : Prop where
  drafts : List.Forall₂ Encoding.Drafts
    (statements.filterMap Statement.encoding?) ds
  linked : List.Forall₂ (Draft.Linked leads) ds body.code.toList
  placed : ∀ before name after index,
    statements = before ++ .label name :: after →
    leads name index → index = (before.filterMap Statement.encoding?).length
  tight : (ds.map Draft.width).sum ≤ maxOffset →
    Tiles 0 (ds.map Draft.width).sum (ds.map Draft.extent) ∧
      ∀ d ∈ ds, d.size = d.width

theorem Emitted.size_eq {statements : List Statement} {body : Body}
    {ds : List (Draft String)}
    {leads : String → Nat → Prop} (h : Emitted statements body ds leads) :
    body.size = (statements.filterMap Statement.encoding?).length := by
  rw [h.drafts.length_eq, h.linked.length_eq, Array.length_toList]
  rfl

/-- A label that marks an instruction leads to one. -/
theorem Emitted.inside {statements : List Statement} {body : Body}
    {ds : List (Draft String)}
    {leads : String → Nat → Prop} (h : Emitted statements body ds leads)
    (name : String)
    (index : Nat) (hmarks : Marks statements name) (hleads : leads name index) :
    index < body.size := by
  obtain ⟨before, after, hsplit, hemits⟩ := hmarks
  have hpos := Assembler.length_encodings_pos hemits
  rw [h.placed before name after index hsplit hleads, h.size_eq, hsplit,
    List.filterMap_append, List.length_append, List.filterMap_cons_none rfl]
  omega

theorem emitted_of_assemble {statements : List Statement} {body : Body}
    (h : Body.assemble statements = .ok body) :
    ∃ ds leads, Emitted statements body ds leads := by
  unfold Body.assemble Assembler.finish at h
  split at h
  · cases h
  · next hfault =>
      obtain ⟨code, hcode, ⟨⟩⟩ := bind_eq_ok_iff.1 h
      have hrun := (Assembler.run_of_foldl hfault).2
      have hlinked :=
        (linkAll_eq_ok_iff fun _ => Assembler.landing_eq_ok_iff _).1 hcode
      obtain ⟨ds, hds, hdrafts, htight⟩ := hrun.drafts
      have hstart : ({} : Assembler).code.toList = [] := rfl
      rw [hstart, List.nil_append] at hds
      rw [Nat.zero_add] at htight
      refine ⟨ds, _, hdrafts, hds ▸ hlinked,
        fun before name after index hsplit hname => ?_, htight⟩
      rw [hsplit] at hrun
      have hat := hrun.label_at
      rw [← hsplit, hname, Option.some.injEq] at hat
      rw [hat]
      exact Nat.zero_add _

end CilAudit.Code
