/-!
# Little-endian words

Numbers as byte strings, least significant byte first. Both directions are
plain recursion on `Nat`; the fixed-width integer types only appear where a
reader or writer knows which one it wants.
-/

namespace CilAudit.LittleEndian

def value : List UInt8 → Nat
  | [] => 0
  | b :: bs => b.toNat + 256 * value bs

/-- The lowest `width` bytes of a number, the lowest first. What the number has
above them is lost. -/
def bytes : (width n : Nat) → List UInt8
  | 0, _ => []
  | width + 1, n => UInt8.ofNat n :: bytes width (n / 256)

/-- The number spelled by the first `width` bytes, and the bytes behind
them. -/
def split? : (width : Nat) → List UInt8 → Option (Nat × List UInt8)
  | 0, bs => some (0, bs)
  | _ + 1, [] => none
  | width + 1, b :: bs =>
      (split? width bs).map fun (n, rest) => (b.toNat + 256 * n, rest)

/-- The numbers spelled by the first `count` groups of `width` bytes, and the
bytes behind them. -/
def splitMany? (width : Nat) :
    (count : Nat) → List UInt8 → Option (List Nat × List UInt8)
  | 0, bs => some ([], bs)
  | count + 1, bs =>
    match split? width bs with
    | none => none
    | some (n, bs) =>
        (splitMany? width count bs).map fun (ns, rest) => (n :: ns, rest)

@[simp] theorem length_bytes (width n : Nat) :
    (bytes width n).length = width := by
  induction width generalizing n with
  | zero => rfl
  | succ width ih => simp [bytes, ih]

theorem length_of_split? {width n : Nat} {bs rest : List UInt8}
    (h : split? width bs = some (n, rest)) :
    bs.length = width + rest.length := by
  induction width generalizing n bs with
  | zero => simp_all [split?]
  | succ width ih =>
      match bs with
      | [] => simp [split?] at h
      | b :: bs =>
          simp only [split?, Option.map_eq_some_iff, Prod.mk.injEq] at h
          obtain ⟨⟨m, r⟩, hs, -, rfl⟩ := h
          have hlen := ih hs
          dsimp only [List.length_cons] at hlen ⊢
          omega

theorem length_of_splitMany? {width count : Nat} {ns : List Nat}
    {bs rest : List UInt8} (h : splitMany? width count bs = some (ns, rest)) :
    ns.length = count ∧ bs.length = width * count + rest.length := by
  induction count generalizing ns bs with
  | zero => simp_all [splitMany?]
  | succ count ih =>
      rw [splitMany?] at h
      split at h
      · simp at h
      · next n mid hs =>
          simp only [Option.map_eq_some_iff, Prod.mk.injEq] at h
          obtain ⟨⟨ms, r⟩, hm, rfl, rfl⟩ := h
          have hlen := length_of_split? hs
          obtain ⟨hms, hmid⟩ := ih hm
          refine ⟨by simp [hms], ?_⟩
          rw [Nat.mul_succ]
          omega

end CilAudit.LittleEndian
