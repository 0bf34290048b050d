import CilAudit.Proofs.AssembledCode
import Mathlib.Algebra.Order.BigOperators.Group.List

/-!
# The shape of assembled bodies

An assembled body can be held against its statements without running the
assembler. Whatever the statements are, the instructions fill the code without
a gap, as long as a word can hold its size. The rest depends on them.

The size of an instruction is that of its encoding, unless a switch is given as
an opcode of the caller's choice. The assembler counts the cases of a table of
labels only, so the cases of a table of indices take no room:
`Unlinked.uncounted` says how many there are, and each of them is four bytes
that the size lacks.

A label leads to the first instruction behind it, unless there is none. Then it
leads to the end.
-/

namespace CilAudit.Code

/-! ## Sizes -/

/-- How many bytes the encoding of an instruction takes: its opcode and its
operand, a switch table with all its cases. -/
def Instruction.encodedSize (i : Instruction) : Nat :=
  i.op.length + i.op.layout.width i.targets.length

/-- An opcode of the caller's choice has an operand of the form that decoding
gives it. The assembler does not check this, so it is asked for here; all other
statements have such operands by construction. -/
def Statement.IsFormed : Statement → Prop
  | .raw lead code operand =>
      ∀ i : Instruction, Opcode.lookup? lead code = some i.op →
        i.operand = operand →
        i.BranchesAsLaidOut
  | _ => True

/-- How many cases of a table are not counted, because they are indices
already. A table of labels is counted when its size is computed, and one that
was given as an operand is not. -/
def Unlinked.uncounted {τ : Type} : Unlinked τ → Nat
  | .plain (.switch indices) => indices.length
  | _ => 0

theorem Unlinked.uncounted_of_isInline {τ : Type} {operand : Operand}
    (h : operand.isInline = true) :
    (Unlinked.plain operand : Unlinked τ).uncounted = 0 := by
  cases operand with
  | switch indices => cases h
  | _ => rfl

theorem Layout.width_eq_of_ne {layout : Layout} (h : layout ≠ .switch)
    (m n : Nat) :
    layout.width m = layout.width n := by
  cases layout with
  | switch => exact absurd rfl h
  | _ => rfl

theorem Instruction.BranchesAsLaidOut.exists_table {i : Instruction}
    (h : i.BranchesAsLaidOut)
    (hlayout : i.op.layout = .switch) :
    ∃ indices, i.operand = .switch indices := by
  unfold BranchesAsLaidOut at h
  rwa [hlayout] at h

/-- Where there is no room for a table, there is no table with a case in it. -/
theorem Instruction.BranchesAsLaidOut.eq_nil {i : Instruction}
    {indices : List Nat}
    (h : i.BranchesAsLaidOut) (hlayout : i.op.layout ≠ .switch)
    (ho : i.operand = .switch indices) : indices = [] := by
  unfold BranchesAsLaidOut at h
  split at h
  · obtain ⟨index, htarget⟩ := h
    rw [ho] at htarget
    cases htarget
  · obtain ⟨index, htarget⟩ := h
    rw [ho] at htarget
    cases htarget
  · next hswitch => exact absurd hswitch hlayout
  · rwa [targets, ho] at h

section

variable {symbols : Symbols} {names : Naming} {leads : String → Nat → Prop}
  {d : Draft String} {i : Instruction}

theorem encodedSize_eq (hlinked : d.Linked leads i)
    (hform : i.BranchesAsLaidOut) :
    i.encodedSize = d.width + 4 * d.operand.uncounted := by
  have hlinks := hlinked.operand
  rw [Instruction.encodedSize, Draft.width, ← hlinked.op]
  by_cases hlayout : i.op.layout = .switch
  · obtain ⟨indices, ho⟩ := hform.exists_table hlayout
    have htargets : i.targets = indices := by rw [Instruction.targets, ho]
    rw [htargets, hlayout]
    rw [ho] at hlinks
    generalize d.operand = u at hlinks ⊢
    cases hlinks with
    | plain =>
        simp only [Layout.width, Layout.size?, Option.getD_none, Unlinked.cases,
          Unlinked.uncounted]
        omega
    | table hleads => rw [← hleads.length_eq]; rfl
  · have hnone : d.operand.uncounted = 0 := by
      generalize d.operand = u at hlinks ⊢
      unfold Unlinked.uncounted
      split
      · rw [hform.eq_nil hlayout hlinks.of_plain, List.length_nil]
      · rfl
    rw [hnone, Layout.width_eq_of_ne hlayout i.targets.length d.operand.cases]
    rfl

theorem Opcode.Takes.uncounted {op : Opcode} {u : Unlinked String}
    (h : op.Takes symbols names u) : u.uncounted = 0 := by
  cases h with
  | plain _ hinline =>
      exact Unlinked.uncounted_of_isInline (isInline_of_decoded hinline)
  | branch => rfl
  | table => rfl

theorem Opcode.Takes.branchesAsLaidOut (h : d.op.Takes symbols names d.operand)
    (hlinked : d.Linked leads i) : i.BranchesAsLaidOut := by
  have hlinks := hlinked.operand
  rw [← hlinked.op] at h
  generalize d.operand = u at h hlinks
  cases h with
  | plain _ hinline =>
      refine .of_inline? hinline (Instruction.targets_of_isInline ?_)
      rw [hlinks.of_plain]
      exact isInline_of_decoded hinline
  | branch hlayout =>
      obtain ⟨index, ho, -⟩ := hlinks.of_branch
      exact .of_target (.inr hlayout) ho
  | table hlayout =>
      obtain ⟨indices, ho, -⟩ := hlinks.of_table
      exact .of_switch hlayout ho

theorem Symbols.exists_know (names : Naming) (operand : Operand) :
    ∃ symbols : Symbols, symbols.Know names operand := by
  cases operand with
  | string text => exact ⟨⟨fun _ => some text, fun _ => none⟩, rfl⟩
  | call callee => exact ⟨⟨fun _ => none, fun _ => some callee⟩, rfl⟩
  | _ => exact ⟨⟨fun _ => none, fun _ => none⟩, trivial⟩

/-- Only an opcode of the caller's choice can leave cases out or have an
operand of another form. One look at each statement shows this, and the two
equivalences both rest on it. -/
theorem drafted_cases {s : Statement} {e : Encoding} (he : s.encoding? = some e)
    (hd : e.Drafts d) (hlinked : d.Linked leads i) :
    (∃ lead code operand, s = .raw lead code operand ∧
      e = ⟨lead, code, .plain operand⟩) ∨
      d.operand.uncounted = 0 ∧ i.BranchesAsLaidOut := by
  by_cases hraw : ∃ lead code operand, s = .raw lead code operand
  · obtain ⟨lead, code, operand, rfl⟩ := hraw
    exact .inl ⟨lead, code, operand, rfl, (Option.some.inj he).symm⟩
  · have hother : ∀ lead code operand, s ≠ .raw lead code operand :=
      fun lead code operand heq => hraw ⟨lead, code, operand, heq⟩
    -- What the tokens stand for does not matter, so let them stand for this
    -- operand.
    have names : Naming := ⟨fun _ => ⟨0⟩, fun _ => ⟨0⟩⟩
    obtain ⟨symbols, hknow⟩ := Symbols.exists_know names i.operand
    have htakes := takes_of_drafts hother he hd hlinked hknow
    exact .inr ⟨htakes.uncounted, htakes.branchesAsLaidOut hlinked⟩

end

/-! ## Places -/

def nextIndex (statements : List Statement) : Nat :=
  statements.countP Statement.emits

/-- A body has at an index the instruction that was emitted for a statement. -/
def Body.Has (b : Body) (index : Nat) (s : Statement)
    (i : Instruction) : Prop :=
  b.get? index = some i ∧ ∃ e, s.encoding? = some e ∧
    Opcode.lookup? e.lead e.code = some i.op

/-- An index is that of the first instruction that is emitted behind a label.
There may be none: the statements behind a label can all be labels and slots.
-/
def Body.FirstBehind (b : Body) (statements : List Statement) (name : String)
    (index : Nat) :
    Prop :=
  ∃ before quiet s after,
    statements = before ++ .label name :: (quiet ++ s :: after) ∧
    (∀ q ∈ quiet, q.emits = false) ∧ index = nextIndex before ∧
      ∃ i, b.Has index s i

/-- The targets of every branch to labels are the first instructions behind
these, one for each label of the branch and in its order. -/
def Body.Resolves (b : Body) (statements : List Statement) : Prop :=
  ∀ before s after, statements = before ++ s :: after → s.goals ≠ [] →
    ∃ i, b.Has (nextIndex before) s i ∧
      List.Forall₂ (b.FirstBehind statements) s.goals i.targets

theorem nextIndex_eq (statements : List Statement) :
    nextIndex statements =
      (statements.filterMap Statement.encoding?).length := by
  rw [List.length_filterMap_eq_countP, nextIndex]
  refine congrArg (List.countP · statements) (funext fun s => ?_)
  cases s <;> rfl

theorem nextIndex_quiet {before quiet : List Statement} (name : String)
    (h : ∀ q ∈ quiet, q.emits = false) :
    nextIndex (before ++ .label name :: quiet) = nextIndex before := by
  have hquiet : quiet.countP Statement.emits = 0 :=
    List.countP_eq_zero.2 fun q hq => by simp [h q hq]
  rw [nextIndex, List.countP_append,
    List.countP_cons_of_neg (by simp [Statement.emits]), hquiet]
  rfl

theorem Marks.split {statements : List Statement} {name : String}
    (h : Marks statements name) :
    ∃ before quiet s after,
      statements = before ++ .label name :: (quiet ++ s :: after) ∧
      (∀ q ∈ quiet, q.emits = false) ∧ s.emits = true := by
  obtain ⟨before, behind, rfl, hemits⟩ := h
  obtain ⟨s, hfound⟩ := Option.isSome_iff_exists.1 (List.find?_isSome.2 hemits)
  obtain ⟨hs, quiet, after, rfl, hquiet⟩ :=
    List.find?_eq_some_iff_append.1 hfound
  exact ⟨before, quiet, s, after, rfl, fun q hq =>
    by simpa using hquiet q hq, hs⟩

theorem marks_of_firstBehind {b : Body} {statements : List Statement}
    {name : String} {index : Nat}
    (h : b.FirstBehind statements name index) : Marks statements name := by
  obtain ⟨before, quiet, s, after, hsplit, -, -, i, -, e, he, -⟩ := h
  exact ⟨before, _, hsplit, s, List.mem_append_cons_self,
    Statement.emits_iff.2 ⟨e, he⟩⟩

theorem getElem?_of_forall₂ {α β : Type} {R : α → β → Prop} {xs : List α}
    {ys : List β}
    (h : List.Forall₂ R xs ys) {k : Nat} {x : α} (hx : xs[k]? = some x) :
    ∃ y, ys[k]? = some y ∧ R x y := by
  obtain ⟨hlt, rfl⟩ := List.getElem?_eq_some_iff.1 hx
  have hlt' : k < ys.length := h.length_eq ▸ hlt
  exact ⟨ys[k], List.getElem?_eq_getElem hlt', h.get hlt hlt'⟩

/-- The references of an operand lead to the targets of its instruction, if it
has any. -/
theorem Unlinked.Links.targets {τ : Type} {leads : τ → Nat → Prop}
    {u : Unlinked τ}
    {i : Instruction} (h : u.Links leads i.operand) (hne : u.refs ≠ []) :
    List.Forall₂ leads u.refs i.targets := by
  unfold Instruction.targets
  generalize i.operand = operand at h
  cases h with
  | plain => exact absurd rfl hne
  | branch hleads => exact .cons hleads .nil
  | table hleads => exact hleads

/-! ## Assembled bodies -/

namespace Emitted

variable {statements before after : List Statement} {body : Body}
  {ds : List (Draft String)}
  {leads : String → Nat → Prop} {s : Statement} {e : Encoding}
  {d : Draft String} {i : Instruction}

/-- The instruction for a statement stands at the index that was next before
it. -/
theorem has (h : Emitted statements body ds leads)
    (hsplit : statements = before ++ s :: after) (he : s.encoding? = some e) :
    ∃ d i, d ∈ ds ∧ e.Drafts d ∧ d.Linked leads i ∧
      body.Has (nextIndex before) s i := by
  have hencoding :
      (statements.filterMap Statement.encoding?)[nextIndex before]? =
        some e := by
    rw [hsplit, List.filterMap_append, List.filterMap_cons_some he,
      nextIndex_eq, List.getElem?_append_right (Nat.le_refl _), Nat.sub_self,
      List.getElem?_cons_zero]
  obtain ⟨d, hd, hdrafts⟩ := getElem?_of_forall₂ h.drafts hencoding
  obtain ⟨i, hi, hlinked⟩ := getElem?_of_forall₂ h.linked hd
  refine ⟨d, i, List.mem_of_getElem? hd, hdrafts, hlinked, ?_, e, he, ?_⟩
  · rwa [Array.getElem?_toList] at hi
  · rw [hlinked.op, hdrafts.row]

theorem firstBehind {name : String} {index : Nat}
    (h : Emitted statements body ds leads)
    (hmarks : Marks statements name) (hleads : leads name index) :
    body.FirstBehind statements name index := by
  obtain ⟨before, quiet, s, after, hsplit, hquiet, hs⟩ := hmarks.split
  obtain ⟨e, he⟩ := Statement.emits_iff.1 hs
  have hregroup : statements =
      (before ++ .label name :: quiet) ++ s :: after := by
    rw [hsplit, List.append_assoc, List.cons_append]
  obtain ⟨-, i, -, -, -, hhas⟩ := h.has hregroup he
  have hindex : index = nextIndex before := by
    rw [h.placed before name _ index hsplit hleads, nextIndex_eq]
  rw [nextIndex_quiet name hquiet, ← hindex] at hhas
  exact ⟨before, quiet, s, after, hsplit, hquiet, hindex, i, hhas⟩

theorem resolves_iff (h : Emitted statements body ds leads) :
    body.Resolves statements ↔
      ∀ s ∈ statements, ∀ goal ∈ s.goals, Marks statements goal := by
  constructor
  · intro hresolves s hs goal hgoal
    obtain ⟨before, after, hsplit⟩ := List.append_of_mem hs
    obtain ⟨i, -, htargets⟩ :=
      hresolves before s after hsplit (List.ne_nil_of_mem hgoal)
    obtain ⟨index, -, hfirst⟩ := exists_of_forall₂ htargets.flip hgoal
    exact marks_of_firstBehind hfirst
  · intro hmarks before s after hsplit hne
    have hs : s ∈ statements := by
      rw [hsplit]
      exact List.mem_append_cons_self
    cases he : s.encoding? with
    | none =>
        refine absurd ?_ hne
        cases s with
        | slot => rfl
        | label => rfl
        | _ => cases he
    | some e =>
        obtain ⟨d, i, -, hdrafts, hlinked, hhas⟩ := h.has hsplit he
        have hrefs : d.operand.refs = s.goals := by
          rw [hdrafts.operand, refs_of_encoding? he]
        have htargets := hlinked.operand.targets (hrefs ▸ hne)
        rw [hrefs] at htargets
        refine ⟨i, hhas, ?_⟩
        have hboth := (List.forall₂_and_left _ _).2 ⟨hmarks s hs, htargets⟩
        exact hboth.imp fun goal index hgoal => h.firstBehind hgoal.1 hgoal.2

theorem branchesAsLaidOut (h : Emitted statements body ds leads)
    (hform : ∀ s ∈ statements, s.IsFormed) (hi : i ∈ body.code) :
    i.BranchesAsLaidOut := by
  obtain ⟨d, hd, hlinked⟩ :=
    exists_of_forall₂ h.linked (Array.mem_toList_iff.2 hi)
  obtain ⟨s, hs, e, he, hdrafts⟩ := h.exists_statement hd
  rcases drafted_cases he hdrafts hlinked with
    ⟨lead, code, operand, rfl, rfl⟩ | ⟨-, hlaid⟩
  · have hlinks := hlinked.operand
    rw [hdrafts.operand] at hlinks
    refine hform _ hs i ?_ hlinks.of_plain
    rw [hlinked.op]
    exact hdrafts.row
  · exact hlaid

theorem sum_width_le (h : Emitted statements body ds leads)
    (hform : ∀ s ∈ statements, s.IsFormed) :
    (ds.map Draft.width).sum ≤
      (body.code.toList.map Instruction.encodedSize).sum := by
  refine List.Forall₂.sum_le_sum ?_
  rw [List.forall₂_map_left_iff, List.forall₂_map_right_iff]
  have hlaid : ∀ i ∈ body.code.toList, i.BranchesAsLaidOut :=
    fun i hi => h.branchesAsLaidOut hform (Array.mem_toList_iff.1 hi)
  have hboth := (List.forall₂_and_left _ _).2 ⟨hlaid, h.linked.flip⟩
  refine hboth.flip.imp fun d i hlink => ?_
  rw [encodedSize_eq hlink.2 hlink.1]
  exact Nat.le_add_right ..

theorem sizes_iff (h : Emitted statements body ds leads)
    (hform : ∀ s ∈ statements, s.IsFormed)
    (hsizes : ∀ d ∈ ds, d.size = d.width) :
    (∀ i ∈ body.code, i.size = i.encodedSize) ↔
      ∀ lead code indices, .raw lead code (.switch indices) ∈ statements →
        indices = [] := by
  constructor
  · intro hexact lead code indices hs
    obtain ⟨before, after, hsplit⟩ := List.append_of_mem hs
    obtain ⟨d, i, hd, hdrafts, hlinked, hget, -⟩ := h.has hsplit rfl
    have hi : i ∈ body.code := Array.mem_of_getElem? hget
    have hsize := hexact i hi
    rw [encodedSize_eq hlinked (h.branchesAsLaidOut hform hi), hlinked.size,
      hsizes d hd, hdrafts.operand, Unlinked.uncounted] at hsize
    exact List.length_eq_zero_iff.1 (by omega)
  · intro hempty i hi
    obtain ⟨d, hd, hlinked⟩ :=
      exists_of_forall₂ h.linked (Array.mem_toList_iff.2 hi)
    obtain ⟨s, hs, e, he, hdrafts⟩ := h.exists_statement hd
    have hcounted : d.operand.uncounted = 0 := by
      rcases drafted_cases he hdrafts hlinked with
        ⟨lead, code, operand, rfl, rfl⟩ | ⟨hcounted, -⟩
      · rw [hdrafts.operand]
        cases operand with
        | switch indices => rw [hempty lead code indices hs]; rfl
        | _ => rfl
      · exact hcounted
    rw [encodedSize_eq hlinked (h.branchesAsLaidOut hform hi), hcounted,
      hlinked.size, hsizes d hd]
    rfl

end Emitted

/-- The instructions of an assembled body fill its code. Their sizes are those
of their encodings exactly if no switch with cases was given as an opcode of
the caller's choice, and the branches to labels go to the first instructions
behind these exactly if there are such instructions. -/
theorem assembled_body_well_formed_iff (statements : List Statement)
    (body : Body)
    (hform : ∀ s ∈ statements, s.IsFormed)
    (hbuild : Body.assemble statements = .ok body)
    (hfits : (body.code.toList.map Instruction.encodedSize).sum ≤ maxOffset) :
    (∃ stop, Tiles 0 stop (body.code.toList.map Instruction.extent)) ∧
      ((∀ i ∈ body.code, i.size = i.encodedSize) ↔
        ∀ lead code indices, .raw lead code (.switch indices) ∈ statements →
          indices = []) ∧
      (body.Resolves statements ↔
        ∀ s ∈ statements, ∀ goal ∈ s.goals, Marks statements goal) := by
  obtain ⟨ds, leads, h⟩ := emitted_of_assemble hbuild
  obtain ⟨htiles, hsizes⟩ := h.tight (Nat.le_trans (h.sum_width_le hform) hfits)
  rw [← map_extent_of_linked h.linked] at htiles
  exact ⟨⟨_, htiles⟩, h.sizes_iff hform hsizes, h.resolves_iff⟩

/-- Labels in front of their use and behind it, in a table, and a branch by an
index. -/
def menuStatements : List Statement := [
  .label "top", .ldarg 1, .switch ["end", "top"], .raw 0 0x2B (.target 0),
  .label "end", .ret]

def menuBody : Body where
  code := #[
    ⟨0, 1, .plain 0 0x03 "ldarg.1" .none 0 1, .argument 1⟩,
    ⟨1, 13, ⟨0, 0x45, "switch", .switch, .branch, .switch, .fixed 1 0⟩,
      .switch [3, 0]⟩,
    ⟨14, 2, .branch 0 0x2B "br.s" .shortTarget 0, .target 0⟩,
    ⟨16, 1, ⟨0, 0x2A, "ret", .none, .other, .return, .unknown⟩, .none⟩]
  locals := #[]

theorem assembled_body_well_formed_iff_menu :
    Body.assemble menuStatements = .ok menuBody ∧
      (∀ i ∈ menuBody.code, i.size = i.encodedSize) ∧
      menuBody.Resolves menuStatements := by
  have hbuild : Body.assemble menuStatements = .ok menuBody := rfl
  have hform : ∀ s ∈ menuStatements, s.IsFormed := by
    simp only [menuStatements, List.forall_mem_cons,
      Statement.IsFormed, true_and]
    refine ⟨fun i hop ho => .of_target (.inl ?_) ho, by simp⟩
    rw [← Option.some.inj hop]
    rfl
  obtain ⟨-, hsizes, hresolves⟩ :=
    assembled_body_well_formed_iff menuStatements menuBody hform hbuild
      (by decide)
  refine ⟨hbuild, hsizes.2 (by simp [menuStatements]),
    hresolves.2 fun s hs goal hgoal => ?_⟩
  have hnamed : ∀ s ∈ menuStatements, ∀ goal ∈ s.goals,
      goal = "end" ∨ goal = "top" := by decide
  rcases hnamed s hs goal hgoal with rfl | rfl
  · exact ⟨menuStatements.take 4, menuStatements.drop 5, rfl, .ret,
      by decide, rfl⟩
  · exact ⟨[], menuStatements.drop 1, rfl, .ret, by decide, rfl⟩

/-- A switch by the indices of its cases, and a label with no instruction
behind it. -/
def looseStatements : List Statement := [
  .ldarg 1, .raw 0 0x45 (.switch [3, 3]), .br "end", .ret, .label "end"]

def looseBody : Body where
  code := #[
    ⟨0, 1, .plain 0 0x03 "ldarg.1" .none 0 1, .argument 1⟩,
    ⟨1, 5, ⟨0, 0x45, "switch", .switch, .branch, .switch, .fixed 1 0⟩,
      .switch [3, 3]⟩,
    ⟨6, 5, .branch 0 0x38 "br" .target 0, .target 4⟩,
    ⟨11, 1, ⟨0, 0x2A, "ret", .none, .other, .return, .unknown⟩, .none⟩]
  locals := #[]

theorem loose_body_not_well_formed :
    Body.assemble looseStatements = .ok looseBody ∧
    (∀ s ∈ looseStatements, s.IsFormed) ∧
      (looseBody.code.toList.map Instruction.encodedSize).sum ≤ maxOffset ∧
      ¬ (∀ i ∈ looseBody.code, i.size = i.encodedSize) ∧
      ¬ looseBody.Resolves looseStatements := by
  refine ⟨rfl, ?_, by decide, by decide, fun hresolves => ?_⟩
  · simp only [looseStatements, List.forall_mem_cons,
      Statement.IsFormed, true_and]
    refine ⟨fun i hop ho => .of_switch ?_ ho, by simp⟩
    rw [← Option.some.inj hop]
  · obtain ⟨i, ⟨hget, -⟩, htargets⟩ :=
      hresolves (looseStatements.take 2) (.br "end") (looseStatements.drop 3)
        rfl (by decide)
    obtain rfl : _ = i := Option.some.inj hget
    -- The label leads to the index behind the last instruction.
    obtain ⟨index, hindex, _, _, _, _, _, _, _, _, hend, -⟩ :=
      exists_of_forall₂ htargets.flip (List.mem_singleton.2 rfl)
    rw [List.mem_singleton.1 hindex] at hend
    cases hend

end CilAudit.Code
