import Mathlib
import Madlib.Sketch.Countmin

/-!
# Datums in memory

A datum is the bytes it has behind its pointer.  How many they are follows from the
length of the type or, for a varlena type, from the datum's own header, so a datum is
found again among the bytes that follow it in a buffer.  `memcmp` orders the datums of
one type because none of them is the beginning of another one.
-/

namespace Madlib.Sketch

open Madlib.Backend

/-- What the catalog knows of the types, and the size a varlena header stands for. -/
structure Catalog where
  typlen : Nat → Int
  typbyval : Nat → Bool
  typOutput : Nat → Nat
  varsizeAny : List UInt8 → Option Nat
  varsizeAny_append : ∀ d rest, varsizeAny d = some d.length →
    varsizeAny (d ++ rest) = some d.length

def strlen : List UInt8 → Except Fault Nat
  | [] => .error .outOfBounds
  | c :: rest =>
      if c = 0 then .ok 0
      else do
        let n ← strlen rest
        pure (n + 1)

/-- The number of bytes the datum at the start of `x` has. -/
def extractDatumLen (catalog : Catalog) (x : List UInt8) (len : Int) : Except Fault Nat :=
  if 0 < len then .ok len.toNat
  else if len = -1 then
    match catalog.varsizeAny x with
    | some n => .ok n
    | none => .error .outOfBounds
  else if len = -2 then strlen x
  else
    .error (.elog
      s!"Datum typelength error in ExtractDatumLen: len is {(len % 4294967296).toNat}")

/-- The first `n` bytes behind a pointer. -/
def readBytes (x : List UInt8) (n : Nat) : Except Fault (List UInt8) :=
  if x.length < n then .error .outOfBounds else .ok (x.take n)

/-- The sign of the first difference of two memory areas. -/
def memcmp : List UInt8 → List UInt8 → Nat → Except Fault Int
  | _, _, 0 => .ok 0
  | x :: a, y :: b, n + 1 => if x = y then memcmp a b n else .ok ((x.toNat : Int) - y.toNat)
  | _, _, _ + 1 => .error .outOfBounds

/-- `sketch_md5_bytea` of the datum behind a pointer. -/
def sketchMd5Datum (catalog : Catalog) (md5 : Md5) (dat : List UInt8) (typOid : Nat) :
    Except Fault (List UInt8) := do
  let len ← extractDatumLen catalog dat (catalog.typlen typOid)
  let datp ← readBytes dat len
  pure (sketchMd5Bytea md5 datp)

/-- The bytes of a datum of a fixed-length or a varlena type, neither more nor less. -/
def IsDatum (catalog : Catalog) (typLen : Int) (d : List UInt8) : Prop :=
  (0 < typLen ∧ (d.length : Int) = typLen) ∨
    (typLen = -1 ∧ 0 < d.length ∧ catalog.varsizeAny d = some d.length)

variable {catalog : Catalog} {typLen : Int} {u v : List UInt8}

theorem extractDatumLen_append (h : IsDatum catalog typLen u) (rest : List UInt8) :
    extractDatumLen catalog (u ++ rest) typLen = .ok u.length := by
  unfold extractDatumLen
  rcases h with ⟨hpos, hlen⟩ | ⟨hvar, _, hsize⟩
  · rw [if_pos hpos]
    congr 1
    omega
  · rw [if_neg (by omega), if_pos hvar, catalog.varsizeAny_append u rest hsize]

theorem extractDatumLen_self (h : IsDatum catalog typLen u) :
    extractDatumLen catalog u typLen = .ok u.length := by
  have happend := extractDatumLen_append h []
  rwa [List.append_nil] at happend

theorem IsDatum.length_pos (h : IsDatum catalog typLen u) : 0 < u.length := by
  rcases h with ⟨hpos, hlen⟩ | ⟨_, hlen, _⟩
  · omega
  · exact hlen

theorem readBytes_append (u rest : List UInt8) : readBytes (u ++ rest) u.length = .ok u := by
  unfold readBytes
  rw [if_neg (by simp), List.take_left]

/-- The hash of a datum does not depend on what follows it. -/
theorem sketchMd5Datum_append {md5 : Md5} {typOid : Nat}
    (h : IsDatum catalog (catalog.typlen typOid) u) (rest : List UInt8) :
    sketchMd5Datum catalog md5 (u ++ rest) typOid = .ok (sketchMd5Bytea md5 u) := by
  unfold sketchMd5Datum
  rw [extractDatumLen_append h, ok_bind, readBytes_append]
  rfl

theorem IsDatum.eq_of_prefix (hu : IsDatum catalog typLen u) (hv : IsDatum catalog typLen v)
    (h : u <+: v) : u = v := by
  have ⟨rest, hrest⟩ := h
  have hlen : u.length = v.length := by
    have hsize := extractDatumLen_append hu rest
    rw [hrest, extractDatumLen_self hv] at hsize
    exact (Except.ok.inj hsize).symm
  exact h.eq_of_length hlen

/-! ## The order of datums -/

/-- Neither list goes on where the other one ends. -/
structure PrefixFree (u v : List UInt8) : Prop where
  left : u <+: v → u = v
  right : v <+: u → u = v

theorem IsDatum.prefixFree (hu : IsDatum catalog typLen u) (hv : IsDatum catalog typLen v) :
    PrefixFree u v :=
  ⟨hu.eq_of_prefix hv, fun h => (hv.eq_of_prefix hu h).symm⟩

theorem PrefixFree.tail {x : UInt8} (h : PrefixFree (x :: u) (x :: v)) : PrefixFree u v := by
  constructor
  · intro hprefix
    exact (List.cons.inj (h.left (List.cons_prefix_cons.mpr ⟨rfl, hprefix⟩))).2
  · intro hprefix
    exact (List.cons.inj (h.right (List.cons_prefix_cons.mpr ⟨rfl, hprefix⟩))).2

/-- Compared over the length of either one, two datums are compared as a whole. -/
theorem memcmp_spec {n : Nat} (h : PrefixFree u v) (hn : n = u.length ∨ n = v.length)
    (rest rest' : List UInt8) :
    ∃ c, memcmp (u ++ rest) (v ++ rest') n = .ok c ∧ (c = 0 ↔ u = v) ∧ (c < 0 ↔ u < v) := by
  induction u generalizing v n with
  | nil =>
      have hv : [] = v := h.left List.nil_prefix
      subst hv
      have hn : n = 0 := by simpa using hn
      subst hn
      exact ⟨0, by rw [memcmp], by simp, by simp⟩
  | cons x u ih =>
      cases v with
      | nil => exact absurd (h.right List.nil_prefix) (by simp)
      | cons y v =>
          have hsucc : ∃ m, n = m + 1 ∧ (m = u.length ∨ m = v.length) := by
            rcases hn with hn | hn
            · exact ⟨u.length, hn, .inl rfl⟩
            · exact ⟨v.length, hn, .inr rfl⟩
          have ⟨m, hm, hlen⟩ := hsucc
          subst hm
          by_cases hxy : x = y
          · subst hxy
            have ⟨c, hc, hzero, hneg⟩ := ih h.tail hlen
            refine ⟨c, ?_, ?_, ?_⟩
            · simpa [memcmp] using hc
            · simpa using hzero
            · simpa using hneg
          · refine ⟨(x.toNat : Int) - y.toNat, ?_, ?_, ?_⟩
            · simp [memcmp, hxy]
            · have hne : x.toNat ≠ y.toNat := fun heq => hxy (UInt8.toNat_inj.mp heq)
              simp only [List.cons.injEq, hxy, false_and, iff_false]
              omega
            · rw [List.cons_lt_cons_iff, UInt8.lt_iff_toNat_lt]
              simp only [hxy, false_and, or_false]
              omega

/-- Different datums come in one order or the other. -/
theorem PrefixFree.lt_or_lt (h : PrefixFree u v) (hne : u ≠ v) : u < v ∨ v < u := by
  induction u generalizing v with
  | nil => exact absurd (h.left List.nil_prefix) hne
  | cons x u ih =>
      cases v with
      | nil => exact absurd (h.right List.nil_prefix) hne
      | cons y v =>
          rw [List.cons_lt_cons_iff, List.cons_lt_cons_iff]
          by_cases hxy : x = y
          · subst hxy
            have hlt := ih h.tail (fun heq => hne (by rw [heq]))
            simpa using hlt
          · have hne' : x.toNat ≠ y.toNat := fun heq => hxy (UInt8.toNat_inj.mp heq)
            rw [UInt8.lt_iff_toNat_lt, UInt8.lt_iff_toNat_lt]
            omega

end Madlib.Sketch
