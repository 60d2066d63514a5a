import Madlib.Svec.Concat
import Madlib.Svec.Equality

/-!
# The binary format

`svec_send` writes the counts, the lengths of the two buffers and their contents in use;
`svec_recv` builds a SparseData from them and serializes it anew.  A NULL index is sent as
no bytes and becomes an index without storage again.
-/

namespace Madlib.Svec

open Madlib.Backend Madlib.Lib.MachineInt Madlib.Lib.RunLength CountCode

/-- The functions of the backend that write and read four-byte integers and raw bytes. -/
structure Pqformat where
  sendint : Int → List UInt8
  getmsgint : List UInt8 → Except Fault (Nat × List UInt8)
  sendbytes : List UInt8 → List UInt8
  getmsgbytes : List UInt8 → Int → Except Fault (List UInt8 × List UInt8)

/-- What is read is what was written; integers are read as unsigned ones. -/
structure Pqformat.Matching (pq : Pqformat) : Prop where
  getmsgint_sendint : ∀ n rest,
    pq.getmsgint (pq.sendint n ++ rest) = .ok ((n % 4294967296).toNat, rest)
  getmsgbytes_sendbytes : ∀ bytes rest,
    pq.getmsgbytes (pq.sendbytes bytes ++ rest) bytes.length = .ok (bytes, rest)

def float8Oid : Int := 701

/-- The bytes of the value buffer. -/
def float8Bytes (vals : List Float8) : List UInt8 := vals.flatMap fun v => leBytes 8 v.toNat

/-- The float8s in a buffer, up to the last whole one. -/
def bytesFloat8 : List UInt8 → List Float8
  | b0 :: b1 :: b2 :: b3 :: b4 :: b5 :: b6 :: b7 :: rest =>
      UInt64.ofNat (ofLeBytes [b0, b1, b2, b3, b4, b5, b6, b7]) :: bytesFloat8 rest
  | _ => []

def svecSend (pq : Pqformat) (svec : SvecType) : List UInt8 :=
  let sdata := sdataFromSvec svec
  pq.sendint float8Oid ++ pq.sendint sdata.uniqueValueCount ++
    pq.sendint sdata.totalValueCount.toInt ++ pq.sendint sdata.valsLen ++
    pq.sendint sdata.index.len ++ pq.sendbytes (float8Bytes sdata.vals) ++
    pq.sendbytes (sdata.index.data.getD [])

/-- The element type, which every constructor sets to that of float8, is returned beside
the svec. -/
def svecRecv (pq : Pqformat) (buf : List UInt8) : Except Fault (Int × SvecType) := do
  let (typeOfData, buf) ← pq.getmsgint buf
  let (uniqueValueCount, buf) ← pq.getmsgint buf
  let (totalValueCount, buf) ← pq.getmsgint buf
  let (valsLen, buf) ← pq.getmsgint buf
  let (indexLen, buf) ← pq.getmsgint buf
  let (vals, buf) ← pq.getmsgbytes buf (toInt32 valsLen)
  let (index, _) ← pq.getmsgbytes buf (toInt32 indexLen)
  let svec ← svecFromSparsedata
    { makeEmptySparseData with
      uniqueValueCount := (toInt32 uniqueValueCount).toNat
      totalValueCount := Int32.ofInt totalValueCount
      vals := bytesFloat8 vals
      index := { makeEmptySparseData.index with data := some index } } true
  pure (toInt32 typeOfData, svec)

/-! ## Buffers -/

theorem length_float8Bytes (vals : List Float8) : (float8Bytes vals).length = 8 * vals.length := by
  induction vals with
  | nil => rfl
  | cons v vals ih =>
      have hcons : float8Bytes (v :: vals) = leBytes 8 v.toNat ++ float8Bytes vals := rfl
      rw [hcons, List.length_append, ih, length_leBytes, List.length_cons]
      omega

theorem bytesFloat8_float8Bytes (vals : List Float8) : bytesFloat8 (float8Bytes vals) = vals := by
  induction vals with
  | nil => rfl
  | cons v vals ih =>
      have hcons : float8Bytes (v :: vals) = leBytes 8 v.toNat ++ float8Bytes vals := rfl
      have hbytes := ofLeBytes_leBytes 8 v.toNat
      have hlt : v.toNat % 256 ^ 8 = v.toNat := Nat.mod_eq_of_lt v.toNat_lt
      rw [hlt] at hbytes
      rw [hcons]
      simp only [leBytes, List.cons_append, List.nil_append] at hbytes ⊢
      rw [bytesFloat8, ih, hbytes, UInt64.ofNat_toNat]

theorem toInt32_emod (n : Int) : toInt32 ((n % 4294967296).toNat : Nat) = toInt32 n := by
  have hnonneg : 0 ≤ n % 4294967296 := by omega
  rw [Int.toNat_of_nonneg hnonneg]
  unfold toInt32 wrapAt
  omega

theorem int32_ofInt_emod (n : Int32) : Int32.ofInt ((n.toInt % 4294967296).toNat : Nat) = n := by
  have hmem := int32_mem n
  rw [← Int32.toInt_inj, int32_toInt_ofInt, toInt32_emod, toInt32_of_mem hmem.1 hmem.2]

/-! ## Round trip -/

/-- What `svec_recv` makes of the five integers and the two buffers. -/
def received (sdata : SparseData) : SparseData :=
  { makeEmptySparseData with
    uniqueValueCount := sdata.uniqueValueCount
    totalValueCount := sdata.totalValueCount
    vals := sdata.vals
    index := { makeEmptySparseData.index with data := some (sdata.index.data.getD []) } }

theorem svecRecv_send {pq : Pqformat} (hpq : pq.Matching) {svec : SvecType}
    (h : svec.vals.length = svec.uniqueValueCount) :
    svecRecv pq (svecSend pq svec) =
      (svecFromSparsedata (received (sdataFromSvec svec)) true).map (float8Oid, ·) := by
  have hsize := trimmedSize_sdataFromSvec_le svec
  unfold SparseData.trimmedSize svecSize maxAllocSize at hsize
  have hvals : (sdataFromSvec svec).valsLen = (float8Bytes svec.vals).length :=
    (length_float8Bytes svec.vals).symm
  have hunique : toInt32 (svec.uniqueValueCount : Int) = svec.uniqueValueCount := by
    have hlen : (sdataFromSvec svec).valsLen = 8 * svec.vals.length := rfl
    exact toInt32_of_mem (by omega) (by omega)
  have hvalsLen : toInt32 ((sdataFromSvec svec).valsLen : Int) = (float8Bytes svec.vals).length := by
    rw [← hvals]
    exact toInt32_of_mem (by omega) (by omega)
  have hindexLen : toInt32 ((sdataFromSvec svec).index.len : Int) =
      ((sdataFromSvec svec).index.data.getD []).length :=
    toInt32_of_mem (by omega) (by omega)
  have hbytes := hpq.getmsgbytes_sendbytes ((sdataFromSvec svec).index.data.getD []) []
  rw [List.append_nil] at hbytes
  have hoid : toInt32 float8Oid = float8Oid := by decide
  unfold svecRecv svecSend
  simp only [List.append_assoc, hpq.getmsgint_sendint, ok_bind, toInt32_emod, hvalsLen, hindexLen]
  have hfirst := hpq.getmsgbytes_sendbytes (float8Bytes svec.vals)
    (pq.sendbytes ((sdataFromSvec svec).index.data.getD []))
  have hsame : (sdataFromSvec svec).vals = svec.vals := rfl
  have hcount : (sdataFromSvec svec).uniqueValueCount = svec.uniqueValueCount := rfl
  rw [hsame, hfirst, ok_bind]
  dsimp only
  rw [hbytes, ok_bind, hcount, hunique, int32_ofInt_emod, bytesFloat8_float8Bytes, hoid,
    Int.toNat_natCast]
  show (svecFromSparsedata (received (sdataFromSvec svec)) true >>= fun svec' =>
    pure (float8Oid, svec')) = _
  cases svecFromSparsedata (received (sdataFromSvec svec)) true with
  | error e => rfl
  | ok svec' => rfl

/-- What was sent is received, in the same representation. -/
theorem svecRecv_svecSend {pq : Pqformat} (hpq : pq.Matching) {svec : SvecType}
    (h : WellFormed (sdataFromSvec svec)) :
    ∃ svec', svecRecv pq (svecSend pq svec) = .ok (float8Oid, svec') ∧
      (sdataFromSvec svec').runLengths = (sdataFromSvec svec).runLengths ∧
      svec'.vals = svec.vals ∧ svec'.uniqueValueCount = svec.uniqueValueCount ∧
      svec'.totalValueCount = svec.totalValueCount ∧
      (sdataFromSvec svec').index.data = (sdataFromSvec svec).index.data ∧
      SparsedataEq (sdataFromSvec svec') (sdataFromSvec svec) := by
  have ⟨runs, hruns, _, _⟩ := h.exists_runs
  have hfits : (received (sdataFromSvec svec)).trimmedSize ≤ maxAllocSize :=
    trimmedSize_sdataFromSvec_le svec
  have ⟨svec', hsvec', _, hback⟩ := svecFromSparsedata_trim hfits
  have hsame : SameData (sdataFromSvec svec') (sdataFromSvec svec) := by
    rw [hback]
    exact ⟨rfl, rfl, rfl, h.trimIndex_data⟩
  refine ⟨svec', ?_, hsame.runLengths_eq, hsame.vals, hsame.unique, hsame.total, hsame.index, ?_⟩
  · rw [svecRecv_send hpq hruns.length_vals, hsvec']
    rfl
  · exact (sparsedataEq_iff (hsame.proper h.proper) h.proper).mpr hsame.dense_eq

/-- Integers and bytes as they travel: most significant byte first. -/
def networkPqformat : Pqformat where
  sendint n := (leBytes 4 (n % 4294967296).toNat).reverse
  getmsgint buf := (countWord 4 (buf.take 4).reverse).map fun n : Nat => (n, buf.drop 4)
  sendbytes bytes := bytes
  getmsgbytes buf datalen :=
    if datalen < 0 ∨ buf.length < datalen then .error (.elog "insufficient data left in message")
    else .ok (buf.take datalen.toNat, buf.drop datalen.toNat)

theorem networkPqformat_matching : networkPqformat.Matching where
  getmsgint_sendint n rest := by
    have hlt : (n % 4294967296).toNat % 256 ^ 4 = (n % 4294967296).toNat :=
      Nat.mod_eq_of_lt (by omega)
    have hlen : (leBytes 4 (n % 4294967296).toNat).reverse.length = 4 := by simp
    have hword : countWord 4 (leBytes 4 (n % 4294967296).toNat ++ []) = _ :=
      countWord_append (length_leBytes 4 _)
    rw [List.append_nil, ofLeBytes_leBytes, hlt] at hword
    dsimp only [networkPqformat]
    rw [List.take_left' hlen, List.reverse_reverse, hword, List.drop_left' hlen]
    rfl
  getmsgbytes_sendbytes bytes rest := by
    have hfits : ¬ ((bytes.length : Int) < 0 ∨ ((bytes ++ rest).length : Int) < bytes.length) := by
      rw [List.length_append]
      omega
    dsimp only [networkPqformat]
    rw [if_neg hfits, Int.toNat_natCast, List.take_left, List.drop_left]

/-- An index of one byte survives, and so does a NULL index. -/
theorem svecRecv_svecSend_pairs :
    (∃ svec', svecRecv networkPqformat (svecSend networkPqformat compressedPair) =
        .ok (float8Oid, svec') ∧ (sdataFromSvec svec').index.data = some [254] ∧
        SparsedataEq (sdataFromSvec svec') (sdataFromSvec compressedPair)) ∧
    ∃ svec', svecRecv networkPqformat (svecSend networkPqformat uncompressedPair) =
        .ok (float8Oid, svec') ∧ (sdataFromSvec svec').index.data = none ∧
        SparsedataEq (sdataFromSvec svec') (sdataFromSvec uncompressedPair) := by
  have hcompressed : WellFormed (sdataFromSvec compressedPair) :=
    ⟨⟨[2], .of_runLengths (by decide) rfl, by decide, by decide⟩, by decide⟩
  have huncompressed : WellFormed (sdataFromSvec uncompressedPair) :=
    ⟨⟨[1, 1], .of_runLengths (by decide) rfl, by decide, by decide⟩, by decide⟩
  have ⟨svec, hsvec, _, _, _, _, hindex, heq⟩ :=
    svecRecv_svecSend networkPqformat_matching hcompressed
  have ⟨svec', hsvec', _, _, _, _, hindex', heq'⟩ :=
    svecRecv_svecSend networkPqformat_matching huncompressed
  exact ⟨⟨svec, hsvec, hindex, heq⟩, svec', hsvec', hindex', heq'⟩

end Madlib.Svec
