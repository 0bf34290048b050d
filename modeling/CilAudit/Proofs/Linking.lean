import CilAudit.Proofs.Scanning

/-!
# What decoding links

Decoding is scanning and then linking. Linking knows a branch by the byte
offset it refers to, and finds the instruction that starts there. Because the
instructions fill the code without a gap (`Tiles`), their offsets ascend, so
there is at most one such instruction and looking it up by its offset is asking
where it stands (`Lands`).

`decode_eq_ok_iff` puts both steps together: bytes decode to a body exactly if
they spell a row of drafts and the body is that row with its references
replaced.
-/

namespace CilAudit.Code

/-! ## Extents -/

/-- The pieces, each an offset with a size, fill the room from `start` to
`stop` without a gap. No piece is empty, so that an offset belongs to one of
them. -/
def Tiles (start stop : Nat) : List (Nat × Nat) → Prop
  | [] => start = stop
  | (offset, size) :: rest =>
      offset = start ∧ 1 ≤ size ∧ Tiles (start + size) stop rest

def Draft.extent {τ : Type} (d : Draft τ) : Nat × Nat := (d.offset, d.size)

def Instruction.extent (i : Instruction) : Nat × Nat := (i.offset, i.size)

theorem Scans.tiles {symbols : Symbols} {offset : Nat} {bs : List UInt8}
    {ds : List (Draft Int)}
    (h : Scans symbols offset bs ds) :
    Tiles offset (offset + bs.length) (ds.map Draft.extent) := by
  induction ds generalizing offset bs with
  | nil =>
      rw [Scans] at h
      rw [h]
      rfl
  | cons d ds ih =>
      obtain ⟨hoffset, front, rest, rfl, hd, hs⟩ := h
      refine ⟨hoffset, hd.size_pos, ?_⟩
      have htail := ih hs
      rwa [hd.size, Nat.add_assoc, ← List.length_append, ← hd.size] at htail

theorem Tiles.le_stop {start stop : Nat} {pieces : List (Nat × Nat)}
    (h : Tiles start stop pieces) : start ≤ stop := by
  induction pieces generalizing start with
  | nil => exact Nat.le_of_eq h
  | cons p pieces ih => exact Nat.le_trans (Nat.le_add_right _ _) (ih h.2.2)

theorem Tiles.le {start stop : Nat} {pieces : List (Nat × Nat)}
    (h : Tiles start stop pieces)
    {p : Nat × Nat} (hp : p ∈ pieces) : start ≤ p.1 ∧ p.1 + p.2 ≤ stop := by
  induction pieces generalizing start with
  | nil => cases hp
  | cons q pieces ih =>
      obtain ⟨rfl, -, hrest⟩ := h
      rcases List.mem_cons.1 hp with rfl | hmem
      · exact ⟨Nat.le_refl _, hrest.le_stop⟩
      · have := ih hrest hmem
        omega

/-- Pieces that fill a room start at offsets that ascend. -/
theorem Tiles.ascending {start stop : Nat} {pieces : List (Nat × Nat)}
    (h : Tiles start stop pieces) : pieces.Pairwise fun p q => p.1 < q.1 := by
  induction pieces generalizing start with
  | nil => exact .nil
  | cons p pieces ih =>
      obtain ⟨rfl, hpos, hrest⟩ := h
      refine .cons (fun q hq => ?_) (ih hrest)
      have := (hrest.le hq).1
      omega

/-! ## Linking -/

def Unlinked.refs {τ : Type} : Unlinked τ → List τ
  | .plain _ => []
  | .branch ref => [ref]
  | .table refs => refs

/-- An operand is linked when every reference leads to the index in its place.
What leading means is a parameter: byte offsets lead to instructions that start
there, and labels to those behind them. -/
inductive Unlinked.Links {τ : Type} (leads : τ → Nat → Prop) :
    Unlinked τ → Operand → Prop
  | plain (operand : Operand) : Links leads (.plain operand) operand
  | branch {ref : τ} {index : Nat} :
      leads ref index → Links leads (.branch ref) (.target index)
  | table {refs : List τ} {indices : List Nat} :
      List.Forall₂ leads refs indices →
      Links leads (.table refs) (.switch indices)

namespace Unlinked.Links

variable {τ : Type} {leads : τ → Nat → Prop} {operand : Operand}

theorem of_plain {o : Operand} (h : Links leads (.plain o) operand) :
    operand = o := by
  cases h
  rfl

theorem of_branch {ref : τ} (h : Links leads (.branch ref) operand) :
    ∃ index, operand = .target index ∧ leads ref index := by
  cases h with
  | branch hleads => exact ⟨_, rfl, hleads⟩

theorem of_table {refs : List τ} (h : Links leads (.table refs) operand) :
    ∃ indices, operand = .switch indices ∧ List.Forall₂ leads refs indices := by
  cases h with
  | table hleads => exact ⟨_, rfl, hleads⟩

end Unlinked.Links

theorem mapM_eq_ok_iff {α β ε : Type} {f : α → Except ε β} {xs : List α}
    {ys : List β} :
    xs.mapM f = .ok ys ↔ List.Forall₂ (fun x y => f x = .ok y) xs ys := by
  induction xs generalizing ys with
  | nil =>
      rw [List.mapM_nil, List.forall₂_nil_left_iff]
      exact ⟨fun h => (Except.ok.inj h).symm, fun h =>
        congrArg Except.ok h.symm⟩
  | cons x xs ih =>
      simp only [List.mapM_cons, bind_eq_ok_iff, List.forall₂_cons_left_iff, ih]
      constructor
      · rintro ⟨y, hy, ys', hys, hpure⟩
        exact ⟨y, ys', hy, hys, (Except.ok.inj hpure).symm⟩
      · rintro ⟨y, ys', hy, hys, rfl⟩
        exact ⟨y, hy, ys', hys, rfl⟩

theorem Unlinked.link_eq_ok_iff {τ : Type} {resolve : τ → Except Fault Nat}
    {u : Unlinked τ} {operand : Operand} :
    u.link resolve = .ok operand ↔
    u.Links (fun ref index => resolve ref = .ok index) operand := by
  cases u with
  | plain o =>
      constructor
      · rintro ⟨⟩
        exact .plain _
      · rintro ⟨⟩
        rfl
  | branch ref =>
      rw [link, bind_eq_ok_iff]
      constructor
      · rintro ⟨index, hindex, ⟨⟩⟩
        exact .branch hindex
      · intro h
        obtain ⟨index, rfl, hindex⟩ := h.of_branch
        exact ⟨index, hindex, rfl⟩
  | table refs =>
      rw [link, bind_eq_ok_iff]
      constructor
      · rintro ⟨indices, hindices, ⟨⟩⟩
        exact .table (mapM_eq_ok_iff.1 hindices)
      · intro h
        obtain ⟨indices, rfl, hindices⟩ := h.of_table
        exact ⟨indices, mapM_eq_ok_iff.2 hindices, rfl⟩

structure Draft.Linked {τ : Type} (leads : τ → Nat → Prop) (d : Draft τ)
    (i : Instruction) :
    Prop where
  offset : i.offset = d.offset
  size : i.size = d.size
  op : i.op = d.op
  operand : d.operand.Links leads i.operand

theorem Draft.link_eq_ok_iff {τ : Type} {resolve : τ → Except Fault Nat}
    {d : Draft τ} {i : Instruction} :
    d.link resolve = .ok i ↔
    d.Linked (fun ref index => resolve ref = .ok index) i := by
  rw [link, bind_eq_ok_iff]
  constructor
  · rintro ⟨operand, hoperand, ⟨⟩⟩
    exact ⟨rfl, rfl, rfl, Unlinked.link_eq_ok_iff.1 hoperand⟩
  · rintro ⟨hoffset, hsize, hop, hoperand⟩
    refine ⟨i.operand, Unlinked.link_eq_ok_iff.2 hoperand, ?_⟩
    rw [← hoffset, ← hsize, ← hop]
    rfl

section

variable {τ : Type} {resolve : Nat → τ → Except Fault Nat}
  {leads : τ → Nat → Prop}

theorem foldlM_link_eq_ok_iff
    (hleads : ∀ k ref index, resolve k ref = .ok index ↔ leads ref index)
    {ds : List (Draft τ)} {done code : Array Instruction} :
    ds.foldlM (fun code d => return code.push (← d.link (resolve code.size)))
      done =
        Except.ok code ↔
      ∃ is : List Instruction, code = done ++ is.toArray ∧
        List.Forall₂ (Draft.Linked leads) ds is := by
  have hlink {k : Nat} {d : Draft τ} {i : Instruction} :
      d.link (resolve k) = .ok i ↔ d.Linked leads i := by
    rw [Draft.link_eq_ok_iff]
    simp only [hleads]
  induction ds generalizing done with
  | nil =>
      rw [List.foldlM_nil]
      constructor
      · rintro ⟨⟩
        exact ⟨[], by simp, .nil⟩
      · rintro ⟨is, rfl, h⟩
        rw [List.forall₂_nil_left_iff.1 h, Array.append_empty]
        rfl
  | cons d ds ih =>
      simp only [List.foldlM_cons, bind_eq_ok_iff, ih, hlink]
      constructor
      · rintro ⟨_, ⟨i, hi, ⟨⟩⟩, is, rfl, his⟩
        exact ⟨i :: is, by simp, .cons hi his⟩
      · rintro ⟨_, rfl, h⟩
        cases h with
        | @cons _ i _ is hi his =>
            exact ⟨done.push i, ⟨i, hi, rfl⟩, is, by simp, his⟩

/-- Drafts are linked one by one. Where an instruction stands decides only how
a refusal is worded, so `leads` does not depend on it. -/
theorem linkAll_eq_ok_iff
    (hleads : ∀ k ref index, resolve k ref = .ok index ↔ leads ref index)
    {drafts : Array (Draft τ)} {code : Array Instruction} :
    linkAll resolve drafts = .ok code ↔
      List.Forall₂ (Draft.Linked leads) drafts.toList code.toList := by
  rw [linkAll, ← Array.foldlM_toList, foldlM_link_eq_ok_iff hleads]
  constructor
  · rintro ⟨is, rfl, h⟩
    simpa using h
  · intro h
    exact ⟨code.toList, by simp, h⟩

theorem exists_of_forall₂ {α β : Type} {R : α → β → Prop} {xs : List α}
    {ys : List β}
    (h : List.Forall₂ R xs ys) {y : β} (hy : y ∈ ys) : ∃ x ∈ xs, R x y := by
  induction h with
  | nil => cases hy
  | @cons x z xs ys hxz _ ih =>
      rcases List.mem_cons.1 hy with rfl | hmem
      · exact ⟨x, List.mem_cons_self, hxz⟩
      · obtain ⟨x', hx', hR⟩ := ih hmem
        exact ⟨x', List.mem_cons_of_mem x hx', hR⟩

theorem map_extent_of_linked {ds : List (Draft τ)} {is : List Instruction}
    (h : List.Forall₂ (Draft.Linked leads) ds is) :
    is.map Instruction.extent = ds.map Draft.extent := by
  induction h with
  | nil => rfl
  | cons hd _ ih =>
      rw [List.map_cons, List.map_cons, ih, Instruction.extent, Draft.extent,
        hd.offset, hd.size]

end

/-! ## Decoding -/

/-- A byte offset leads to the index of the instruction that starts there. The
offset is an integer, since a branch may count back past the start. -/
def Lands (extents : List (Nat × Nat)) (offset : Int) (index : Nat) : Prop :=
  ∃ piece, extents[index]? = some piece ∧ (piece.1 : Int) = offset

/-- No two instructions start at one offset, because none of them is empty. -/
theorem Lands.unique {extents : List (Nat × Nat)}
    {start stop index index' : Nat} {offset : Int}
    (h : Tiles start stop extents) (hland : Lands extents offset index)
    (hland' : Lands extents offset index') : index = index' := by
  obtain ⟨p, hp, hoffset⟩ := hland
  obtain ⟨p', hp', hoffset'⟩ := hland'
  obtain ⟨hlt, rfl⟩ := List.getElem?_eq_some_iff.1 hp
  obtain ⟨hlt', rfl⟩ := List.getElem?_eq_some_iff.1 hp'
  have hascending := List.pairwise_iff_getElem.1 h.ascending
  rcases Nat.lt_trichotomy index index' with hk | hk | hk
  · have := hascending index index' hlt hlt' hk
    omega
  · exact hk
  · have := hascending index' index hlt' hlt hk
    omega

theorem landing_eq_ok_iff {drafts : Array (Draft Int)} {start stop : Nat}
    (h : Tiles start stop (drafts.toList.map Draft.extent)) (k : Nat)
    (offset : Int) (index : Nat) :
    landing (startIndex drafts) k offset = .ok index ↔
      Lands (drafts.toList.map Draft.extent) offset index := by
  let starts := drafts.toList.zipIdx.map fun p => ((p.1.offset : Int), p.2)
  have hmem {index : Nat} :
      (offset, index) ∈ starts ↔
      Lands (drafts.toList.map Draft.extent) offset index := by
    simp only [starts, Lands, List.mem_map, List.mem_zipIdx_iff_getElem?,
      List.getElem?_map, Option.map_eq_some_iff, Prod.exists, Prod.mk.injEq,
      Draft.extent]
    constructor
    · rintro ⟨d, _, hd, hoffset, rfl⟩
      exact ⟨_, _, ⟨d, hd, rfl, rfl⟩, hoffset⟩
    · rintro ⟨_, _, ⟨d, hd, rfl, rfl⟩, hoffset⟩
      exact ⟨d, index, hd, hoffset, rfl⟩
  have hdistinct : starts.Pairwise fun a b => (a.1 == b.1) = false := by
    have hascending := h.ascending
    rw [List.pairwise_map, ← List.zipIdx_map_fst 0 drafts.toList,
      List.pairwise_map] at hascending
    refine List.pairwise_map.2 (hascending.imp fun {p q} hlt => ?_)
    have hlt : p.1.offset < q.1.offset := hlt
    simp only [beq_eq_false_iff_ne, ne_eq]
    omega
  have hfound {index : Nat}
      (hland : Lands (drafts.toList.map Draft.extent) offset index) :
      (startIndex drafts)[offset]? = some index :=
    Std.HashMap.getElem?_ofList_of_mem (by simp) hdistinct (hmem.2 hland)
  constructor
  · intro hok
    unfold landing at hok
    split at hok
    · next target htarget =>
        obtain rfl := Except.ok.inj hok
        have hkey : offset ∈ startIndex drafts := by
          rw [← Std.HashMap.isSome_getElem?_iff_mem, htarget,
            Option.isSome_some]
        have hlisted : offset ∈ starts.map Prod.fst := by
          rw [startIndex, Std.HashMap.mem_ofList] at hkey
          exact List.contains_iff_mem.1 hkey
        obtain ⟨⟨_, other⟩, hother, rfl⟩ := List.mem_map.1 hlisted
        have hland := hmem.1 hother
        rw [hfound hland, Option.some.injEq] at htarget
        exact htarget ▸ hland
    · cases hok
  · intro hland
    rw [landing, hfound hland]

theorem decode_eq_ok_iff {symbols : Symbols} {locals : Array LocalSlot}
    {bytes : List UInt8} {body : Body} :
    Body.decode symbols locals bytes = .ok body ↔
      bytes ≠ [] ∧ body.locals = locals ∧
        ∃ ds, Scans symbols 0 bytes ds ∧
          List.Forall₂ (Draft.Linked (Lands (ds.map Draft.extent))) ds
            body.code.toList := by
  unfold Body.decode
  split
  · next hempty =>
      refine ⟨fun h => (by cases h), ?_⟩
      rintro ⟨hne, -⟩
      exact absurd (List.isEmpty_iff.1 hempty) hne
  · next hne =>
      simp only [bind_eq_ok_iff, scan_eq_ok_iff]
      constructor
      · rintro ⟨drafts, hs, code, hcode, ⟨⟩⟩
        rw [linkAll_eq_ok_iff (landing_eq_ok_iff hs.tiles)] at hcode
        exact ⟨fun h => hne (List.isEmpty_iff.2 h), rfl, drafts.toList,
          hs, hcode⟩
      · rintro ⟨-, rfl, ds, hs, hcode⟩
        exact ⟨ds.toArray, hs, body.code,
          (linkAll_eq_ok_iff (landing_eq_ok_iff hs.tiles)).2 hcode, rfl⟩

end CilAudit.Code
