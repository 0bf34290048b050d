import CilAudit.Proofs.HeaderRecovery
import Mathlib.Data.List.Nodup

/-!
# The order of insertion is not written

A writer sees its entries twice in the order they were given: when it checks
the names, and when it sorts. The sort forgets the order as soon as the hashes
differ, because then only one row of the entries is ascending. The check could
still tell, by which of two offences it meets first; but names with different
hashes differ, so empty names are the only offence left and the report of one
does not say where it stood. Behind the sort nothing looks at the given entries
again.
-/

namespace CilAudit.Resource

variable {entries entries' : List (String × Value)}

/-- Ascending rows of the same entries are equal when no two hashes are. With
equal hashes the order that was given would show. -/
theorem sortByHash_eq_of_perm (hperm : entries.Perm entries')
    (hdistinct : (entries.map fun e => nameHash e.1).Nodup) :
    sortByHash entries = sortByHash entries' := by
  have hsorted : (sortByHash entries).Perm (sortByHash entries') :=
    (sortByHash_perm entries).trans
      (hperm.trans (sortByHash_perm entries').symm)
  refine List.Perm.eq_of_pairwise ?_ (pairwise_sortByHash entries)
    (pairwise_sortByHash entries') hsorted
  intro a b ha hb hab hba
  have ha' : a ∈ entries := (sortByHash_perm entries).mem_iff.1 ha
  have hb' : b ∈ entries :=
    hperm.mem_iff.2 ((sortByHash_perm entries').mem_iff.1 hb)
  exact List.inj_on_of_nodup_map hdistinct ha' hb' (UInt32.le_antisymm hab hba)

/-- Among different names only an empty one is refused, and which of two
offences comes first does not matter, since there is only one kind left. -/
theorem checkNames_of_nodup {names : List String} (hdistinct : names.Nodup)
    {seen : List String} (hseen : ∀ name ∈ names, name ∉ seen) :
    checkNames seen names =
      if "" ∈ names then .error (.malformed .emptyName) else .ok () := by
  induction names generalizing seen with
  | nil => simp [checkNames]
  | cons name rest ih =>
      have hnew : name ∉ seen := hseen name List.mem_cons_self
      rw [List.nodup_cons] at hdistinct
      rw [checkNames, if_neg hnew]
      by_cases hempty : name = ""
      · simp [hempty]
      · have hrest : ∀ other ∈ rest, other ∉ name :: seen := by
          intro other hother hmem
          rcases List.mem_cons.1 hmem with rfl | hold
          · exact hdistinct.1 hother
          · exact hseen other (List.mem_cons_of_mem name hother) hold
        rw [if_neg hempty, ih hdistinct.2 hrest]
        simp [Ne.symm hempty]

theorem nodup_names_of_hashes
    (hdistinct : (entries.map fun e => nameHash e.1).Nodup) :
    (entries.map Prod.fst).Nodup := by
  refine List.Nodup.of_map nameHash ?_
  rw [List.map_map]
  exact hdistinct

theorem checkNames_eq_of_perm (hperm : entries.Perm entries')
    (hdistinct : (entries.map Prod.fst).Nodup) :
    checkNames [] (entries.map Prod.fst) =
      checkNames [] (entries'.map Prod.fst) := by
  have hnames : (entries.map Prod.fst).Perm (entries'.map Prod.fst) :=
    hperm.map Prod.fst
  rw [checkNames_of_nodup hdistinct (by simp)]
  rw [checkNames_of_nodup (hnames.nodup_iff.1 hdistinct) (by simp)]
  simp only [hnames.mem_iff]

/-- Entries whose names have different hashes are written, or refused, in one
way whatever the order they are given in. Refusals are part of it: names are
checked in the order of the entries, and still the same fault is found. -/
theorem written_alike_in_any_order (hperm : entries.Perm entries')
    (hdistinct : (entries.map fun e => nameHash e.1).Nodup) :
    write entries = write entries' := by
  have hsorted := sortByHash_eq_of_perm hperm hdistinct
  have hchecked := checkNames_eq_of_perm hperm (nodup_names_of_hashes hdistinct)
  rw [write, write, hchecked, hsorted]

theorem written_alike_in_any_order_sample : sample.Perm sample.reverse ∧
    (sample.map fun e => nameHash e.1).Nodup ∧ write sample.reverse = .ok
    (newer.blob sample) := by
  have hperm : sample.Perm sample.reverse := sample.reverse_perm.symm
  have hdistinct : (sample.map fun e => nameHash e.1).Nodup := by decide +kernel
  refine ⟨hperm, hdistinct, ?_⟩
  rw [← written_alike_in_any_order hperm hdistinct]
  exact (write_eq_ok_iff sample (newer.blob sample)).2 ⟨writable_sample, rfl⟩

end CilAudit.Resource
