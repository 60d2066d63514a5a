import Madlib.Dbal
import Madlib.Lib.WordMemory

/-!
# The C++ allocator

A block is a chunk of the backend's memory, sixteen bytes larger than asked for.  The address that
is handed out is the next multiple of sixteen behind the chunk's own address, which is kept in the
word in front of it.  `MAXIMUM_ALIGNOF` is eight.  The backend's memory manager is a parameter; a
call of it returns nothing where it raises an error.
-/

namespace Madlib.Dbconnector

open Madlib.Backend Madlib.Dbal Madlib.Lib.WordMemory

abbrev Ptr := UInt64

inductive MemoryContext where
  | functionContext
  | aggregateContext
  deriving DecidableEq, Repr

inductive ZeroMemory where
  | doZero
  | doNotZero
  deriving DecidableEq, Repr

inductive OnMemoryAllocationFailure where
  | returnNULL
  | throwBadAlloc
  deriving DecidableEq, Repr

inductive ReallocateMemory where
  | newAllocation
  | reallocation
  deriving DecidableEq, Repr

structure MemoryManager where
  palloc : Memory → UInt64 → Option (Memory × Ptr)
  palloc0 : Memory → UInt64 → Option (Memory × Ptr)
  repalloc : Memory → Ptr → UInt64 → Option (Memory × Ptr)
  pfree : Memory → Ptr → Memory

def alignedAddr (inPtr : Ptr) : Ptr := (inPtr &&& ~~~15) + 16

def makeAligned (mem : Memory) (inPtr : Ptr) : Memory × Ptr :=
  if inPtr = 0 then (mem, 0)
  else
    let aligned := alignedAddr inPtr
    (writeWord mem (aligned - 8).toNat inPtr, aligned)

def unaligned (mem : Memory) (inPtr : Ptr) : Ptr := readWord mem (inPtr - 8).toNat

def internalPalloc (manager : MemoryManager) (ZM : ZeroMemory) (mem : Memory) (inSize : UInt64) :
    Option (Memory × Ptr) :=
  if 18446744073709551615 - 16 < inSize then some (mem, 0)
  else
    let size := inSize + 16
    let call := if ZM = .doZero then manager.palloc0 mem size else manager.palloc mem size
    call.map fun (mem, raw) => makeAligned mem raw

def internalRePalloc (manager : MemoryManager) (ZM : ZeroMemory) (mem : Memory) (inPtr : Ptr)
    (inSize : UInt64) : Option (Memory × Ptr) :=
  if 18446744073709551615 - 16 < inSize then some (manager.pfree mem (unaligned mem inPtr), 0)
  else
    let size := inSize + 16
    (manager.repalloc mem (unaligned mem inPtr) size).map fun (mem, raw) =>
      let mem := if ZM = .doZero then fill mem raw.toNat (raw.toNat + inSize.toNat) 0 else mem
      makeAligned mem raw

/-- An error of the backend ends in `bad_alloc`, and so does a null pointer. -/
def internalAllocate (manager : MemoryManager) (MC : MemoryContext) (ZM : ZeroMemory)
    (F : OnMemoryAllocationFailure) (R : ReallocateMemory) (aggCheckCallContext : Bool)
    (mem : Memory) (inPtr : Ptr) (inSize : UInt64) : Except Fault (Memory × Ptr) :=
  let tried : Bool × Memory × Ptr :=
    if MC = .aggregateContext ∧ aggCheckCallContext = false then (true, mem, 0)
    else
      let call := match R with
        | .reallocation => internalRePalloc manager ZM mem inPtr inSize
        | .newAllocation => internalPalloc manager ZM mem inSize
      match call with
      | some (mem, ptr) => (false, mem, ptr)
      | none => match F with
        | .returnNULL => (false, mem, 0)
        | .throwBadAlloc => (true, mem, 0)
  let (errorOccurred, mem, ptr) := tried
  if errorOccurred = true ∨ ptr = 0 then .error badAlloc else .ok (mem, ptr)

def allocate (manager : MemoryManager) (MC : MemoryContext) (ZM : ZeroMemory)
    (F : OnMemoryAllocationFailure) (aggCheckCallContext : Bool) (mem : Memory) (inSize : UInt64) :
    Except Fault (Memory × Ptr) :=
  internalAllocate manager MC ZM F .newAllocation aggCheckCallContext mem 0 inSize

def reallocate (manager : MemoryManager) (MC : MemoryContext) (ZM : ZeroMemory)
    (F : OnMemoryAllocationFailure) (aggCheckCallContext : Bool) (mem : Memory) (inPtr : Ptr)
    (inSize : UInt64) : Except Fault (Memory × Ptr) :=
  internalAllocate manager MC ZM F .reallocation aggCheckCallContext mem inPtr inSize

/-! ## Chunks and blocks -/

/-- A chunk of the backend: its address is that of a word, and so is its end. -/
structure Chunk (raw : Ptr) (size : Nat) : Prop where
  nonnull : raw ≠ 0
  word_aligned : raw.toNat % 8 = 0
  in_space : raw.toNat + size < 2 ^ 64

/-- A block that was handed out, and is still remembered. -/
structure Block (mem : Memory) (raw : Ptr) (size : UInt64) (ptr : Ptr) : Prop where
  chunk : Chunk raw (size.toNat + 16)
  ptr_eq : ptr = alignedAddr raw
  remembers : unaligned mem ptr = raw

/-- What the backend says of a chunk it has moved or left in place. -/
structure Moved (mem : Memory) (raw : Ptr) (oldSize : Nat) (mem' : Memory) (raw' : Ptr)
    (newSize : Nat) : Prop where
  chunk : Chunk raw' newSize
  copied : ∀ i < min oldSize newSize, mem' (raw'.toNat + i) = mem (raw.toNat + i)

/-- The distance from a chunk to its block. -/
def offset (raw : Ptr) : Nat := 16 - raw.toNat % 16

theorem toNat_alignedAddr {raw : Ptr} {size : Nat} (h : Chunk raw (size + 16)) :
    (alignedAddr raw).toNat = raw.toNat + offset raw := by
  have hspace := h.in_space
  have hbelow : raw.toNat / 16 * 16 + 16 < 2 ^ 64 := by omega
  unfold alignedAddr offset
  rw [UInt64.toNat_add, toNat_and_not_fifteen]
  calc (raw.toNat / 16 * 16 + (16 : UInt64).toNat) % 2 ^ 64
      = raw.toNat / 16 * 16 + 16 := Nat.mod_eq_of_lt hbelow
    _ = raw.toNat + (16 - raw.toNat % 16) := by omega

theorem Chunk.offset_cases {raw : Ptr} {size : Nat} (h : Chunk raw size) :
    raw.toNat % 16 = 8 ∧ offset raw = 8 ∨ raw.toNat % 16 = 0 ∧ offset raw = 16 := by
  have haligned := h.word_aligned
  unfold offset
  omega

theorem toNat_sub_word {ptr : Ptr} (h : 8 ≤ ptr.toNat) : (ptr - 8).toNat = ptr.toNat - 8 :=
  UInt64.toNat_sub_of_le _ _ (UInt64.le_iff_toNat_le.mpr h)

theorem Chunk.aligned_pos {raw : Ptr} {size : Nat} (h : Chunk raw (size + 16)) :
    alignedAddr raw ≠ 0 := by
  intro hzero
  have haddr := toNat_alignedAddr h
  rw [hzero] at haddr
  have hoffset := h.offset_cases
  change 0 = raw.toNat + offset raw at haddr
  omega

theorem alignedAddr_mod {raw : Ptr} {size : Nat} (h : Chunk raw (size + 16)) :
    (alignedAddr raw).toNat % 16 = 0 := by
  rw [toNat_alignedAddr h]
  have hoffset := h.offset_cases
  omega

/-- Aligning a chunk makes a block of it and touches nothing in the block. -/
theorem makeAligned_block {raw : Ptr} {size : UInt64} (h : Chunk raw (size.toNat + 16))
    (mem : Memory) :
    ∃ mem', makeAligned mem raw = (mem', alignedAddr raw) ∧
      Block mem' raw size (alignedAddr raw) ∧
      ∀ i, mem' ((alignedAddr raw).toNat + i) = mem ((alignedAddr raw).toNat + i) := by
  have haddr := toNat_alignedAddr h
  have hoffset := h.offset_cases
  have hword : (alignedAddr raw - 8).toNat = (alignedAddr raw).toNat - 8 :=
    toNat_sub_word (by omega)
  refine ⟨writeWord mem (alignedAddr raw - 8).toNat raw, ?_, ⟨h, rfl, ?_⟩, fun i => ?_⟩
  · unfold makeAligned
    rw [if_neg h.nonnull]
  · exact readWord_writeWord mem _ raw
  · exact writeWord_of_le (by omega)

/-! ## New blocks -/

theorem not_overflowing {raw : Ptr} {size : UInt64} (h : Chunk raw (size.toNat + 16)) :
    ¬ 18446744073709551615 - 16 < size := by
  have hspace := h.in_space
  intro hlt
  have hlarge : 18446744073709551599 < size.toNat := UInt64.lt_iff_toNat_lt.mp hlt
  omega

theorem internalAllocate_of_call {manager : MemoryManager} {MC : MemoryContext} {ZM : ZeroMemory}
    {F : OnMemoryAllocationFailure} {R : ReallocateMemory} {aggCheckCallContext : Bool}
    {mem mem' : Memory} {inPtr ptr : Ptr} {inSize : UInt64}
    (hcontext : MC = .aggregateContext → aggCheckCallContext = true)
    (hcall : (match R with
      | .reallocation => internalRePalloc manager ZM mem inPtr inSize
      | .newAllocation => internalPalloc manager ZM mem inSize) = some (mem', ptr))
    (hptr : ptr ≠ 0) :
    internalAllocate manager MC ZM F R aggCheckCallContext mem inPtr inSize = .ok (mem', ptr) := by
  have hinside : ¬ (MC = .aggregateContext ∧ aggCheckCallContext = false) := by
    intro hoff
    have hon := hcontext hoff.1
    rw [hoff.2] at hon
    cases hon
  unfold internalAllocate
  dsimp only
  rw [if_neg hinside, hcall]
  simp [hptr]

/-- A new block is a block: so its contents may be written before it is reallocated. -/
theorem allocate_block {manager : MemoryManager} {MC : MemoryContext} {ZM : ZeroMemory}
    {F : OnMemoryAllocationFailure} {aggCheckCallContext : Bool} {mem mem₁ : Memory} {raw : Ptr}
    {size : UInt64} (hcontext : MC = .aggregateContext → aggCheckCallContext = true)
    (hcall : (if ZM = .doZero then manager.palloc0 mem (size + 16)
      else manager.palloc mem (size + 16)) = some (mem₁, raw))
    (hchunk : Chunk raw (size.toNat + 16)) :
    ∃ mem', allocate manager MC ZM F aggCheckCallContext mem size = .ok (mem', alignedAddr raw) ∧
      Block mem' raw size (alignedAddr raw) := by
  have ⟨mem', haligned, hblock, _⟩ := makeAligned_block hchunk mem₁
  refine ⟨mem', ?_, hblock⟩
  apply internalAllocate_of_call hcontext _ hchunk.aligned_pos
  unfold internalPalloc
  dsimp only
  rw [if_neg (not_overflowing hchunk), hcall]
  exact congrArg some haligned

/-- Writing into a block leaves it a block. -/
theorem Block.write {mem : Memory} {raw ptr : Ptr} {size : UInt64} (h : Block mem raw size ptr)
    {mem' : Memory} (hframe : ∀ a < ptr.toNat, mem' a = mem a) : Block mem' raw size ptr := by
  refine ⟨h.chunk, h.ptr_eq, ?_⟩
  have haddr := toNat_alignedAddr h.chunk
  have hoffset := h.chunk.offset_cases
  rw [← h.ptr_eq] at haddr
  have hword : (ptr - 8).toNat = ptr.toNat - 8 := toNat_sub_word (by omega)
  calc unaligned mem' ptr
      = unaligned mem ptr := by
        apply readWord_congr
        intro k hk
        exact hframe _ (by omega)
    _ = raw := h.remembers

/-! ## Reallocated blocks -/

/-- The call returns a block for the chunk, at a multiple of sixteen, that remembers the chunk and
holds what the old block held. -/
def Reallocated (outcome : Except Fault (Memory × Ptr)) (mem : Memory) (ptr : Ptr)
    (old new : UInt64) (raw' : Ptr) : Prop :=
  ∃ mem' ptr', outcome = .ok (mem', ptr') ∧
    (∀ i < min old.toNat new.toNat, mem' (ptr'.toNat + i) = mem (ptr.toNat + i)) ∧
    ptr'.toNat % 16 = 0 ∧ unaligned mem' ptr' = raw'

/-- Every byte of the old block is zero where zeros are filled in, and elsewhere that of the old
chunk at the new block's distance. -/
def Coincides (ZM : ZeroMemory) (mem : Memory) (raw raw' : Ptr) (old new : UInt64) : Prop :=
  ∀ i < min old.toNat new.toNat,
    mem (raw.toNat + offset raw + i) =
      if ZM = .doZero ∧ offset raw' + i < new.toNat then 0
      else mem (raw.toNat + (offset raw' + i))

/-- The block is at its old distance from the chunk and no zero is filled into it. -/
def Undisturbed (ZM : ZeroMemory) (raw raw' : Ptr) (old new : UInt64) : Prop :=
  old = 0 ∨ new = 0 ∨
    raw.toNat % 16 = raw'.toNat % 16 ∧ (ZM = .doNotZero ∨ new.toNat ≤ offset raw')

section Reallocation

variable {manager : MemoryManager} {MC : MemoryContext} {ZM : ZeroMemory}
  {F : OnMemoryAllocationFailure} {aggCheckCallContext : Bool} {mem mem₁ : Memory}
  {raw raw' ptr : Ptr} {old new : UInt64}

variable (ZM F) in
/-- The block that is returned, byte by byte. -/
theorem reallocate_spec (hcontext : MC = .aggregateContext → aggCheckCallContext = true)
    (hblock : Block mem raw old ptr)
    (hcall : manager.repalloc mem raw (new + 16) = some (mem₁, raw'))
    (hmoved : Moved mem raw (old.toNat + 16) mem₁ raw' (new.toNat + 16)) :
    ∃ mem', reallocate manager MC ZM F aggCheckCallContext mem ptr new =
        .ok (mem', alignedAddr raw') ∧
      Block mem' raw' new (alignedAddr raw') ∧
      ∀ i < min old.toNat new.toNat, mem' ((alignedAddr raw').toNat + i) =
        if ZM = .doZero ∧ offset raw' + i < new.toNat then 0
        else mem (raw.toNat + (offset raw' + i)) := by
  have haddr := toNat_alignedAddr hmoved.chunk
  have hoffset := hmoved.chunk.offset_cases
  have ⟨mem', haligned, hnew, hkept⟩ := makeAligned_block hmoved.chunk
    (if ZM = .doZero then fill mem₁ raw'.toNat (raw'.toNat + new.toNat) 0 else mem₁)
  refine ⟨mem', ?_, hnew, fun i hi => ?_⟩
  · apply internalAllocate_of_call hcontext _ hmoved.chunk.aligned_pos
    unfold internalRePalloc
    dsimp only
    rw [if_neg (not_overflowing hmoved.chunk), hblock.remembers, hcall]
    exact congrArg some haligned
  · have hcopied : mem₁ (raw'.toNat + (offset raw' + i)) =
        mem (raw.toNat + (offset raw' + i)) := hmoved.copied _ (by omega)
    rw [hkept i, haddr, Nat.add_assoc, ← hcopied]
    cases ZM with
    | doNotZero => rw [if_neg nofun, if_neg (fun h => nomatch h.1)]
    | doZero =>
        rw [if_pos rfl]
        unfold fill
        by_cases hreached : offset raw' + i < new.toNat
        · rw [if_pos (by omega), if_pos ⟨rfl, hreached⟩]
        · rw [if_neg (by omega), if_neg (fun h => hreached h.2)]

theorem reallocated_iff (hcontext : MC = .aggregateContext → aggCheckCallContext = true)
    (hblock : Block mem raw old ptr)
    (hcall : manager.repalloc mem raw (new + 16) = some (mem₁, raw'))
    (hmoved : Moved mem raw (old.toNat + 16) mem₁ raw' (new.toNat + 16)) :
    Reallocated (reallocate manager MC ZM F aggCheckCallContext mem ptr new) mem ptr old new raw' ↔
      Coincides ZM mem raw raw' old new := by
  have ⟨mem', hreturn, hnew, hbytes⟩ := reallocate_spec ZM F hcontext hblock hcall hmoved
  have hptr : ptr.toNat = raw.toNat + offset raw := by
    rw [hblock.ptr_eq, toNat_alignedAddr hblock.chunk]
  unfold Reallocated Coincides
  rw [hreturn, hptr]
  constructor
  · rintro ⟨_, _, ⟨⟩, hkept, _⟩ i hi
    rw [← hkept i hi, hbytes i hi]
  · intro h
    refine ⟨mem', _, rfl, fun i hi => ?_, alignedAddr_mod hmoved.chunk, hnew.remembers⟩
    rw [hbytes i hi, h i hi]

theorem Undisturbed.coincides (h : Undisturbed ZM raw raw' old new) (mem : Memory) :
    Coincides ZM mem raw raw' old new := by
  intro i hi
  rcases h with rfl | rfl | ⟨hresidue, hfill⟩
  · exact absurd hi (by simp)
  · exact absurd hi (by simp)
  · have hoffset : offset raw = offset raw' := by
      rw [offset, offset, hresidue]
    rw [if_neg, hoffset, Nat.add_assoc]
    rintro ⟨rfl, hreached⟩
    rcases hfill with hfill | hfill
    · cases hfill
    · omega

end Reallocation

/-! ## When the contents are kept -/

/-- A memory manager that always moves to one address. -/
def movingTo (raw' : Ptr) : MemoryManager :=
  { palloc := fun mem _ => some (mem, raw')
    palloc0 := fun mem size => some (fill mem raw'.toNat (raw'.toNat + size.toNat) 0, raw')
    repalloc := fun mem raw size => some (copy mem raw.toNat raw'.toNat size.toNat, raw')
    pfree := fun mem _ => mem }

theorem movingTo_moved {raw' : Ptr} {new : UInt64} (h : Chunk raw' (new.toNat + 16)) (raw : Ptr)
    (mem : Memory) (oldSize : Nat) :
    Moved mem raw oldSize (copy mem raw.toNat raw'.toNat (new + 16).toNat) raw'
      (new.toNat + 16) := by
  have hspace := h.in_space
  have hsize : (new + 16).toNat = new.toNat + 16 := by
    rw [UInt64.toNat_add]
    exact Nat.mod_eq_of_lt (by change new.toNat + 16 < 2 ^ 64; omega)
  refine ⟨h, fun i hi => ?_⟩
  rw [hsize]
  exact copy_inside (by omega)

/-- The memory of a block that holds one byte and zeros behind it. -/
def marked (raw : Ptr) (x : UInt8) : Memory :=
  writeWord (fun a => if a = raw.toNat + offset raw then x else 0) (alignedAddr raw - 8).toNat raw

section Marked

variable {raw : Ptr} {size : UInt64}

theorem marked_block (h : Chunk raw (size.toNat + 16)) (x : UInt8) :
    Block (marked raw x) raw size (alignedAddr raw) :=
  ⟨h, rfl, readWord_writeWord _ _ raw⟩

theorem marked_first (h : Chunk raw (size.toNat + 16)) (x : UInt8) :
    marked raw x (raw.toNat + offset raw) = x := by
  have haddr := toNat_alignedAddr h
  have hoffset := h.offset_cases
  have hword : (alignedAddr raw - 8).toNat = (alignedAddr raw).toNat - 8 :=
    toNat_sub_word (by omega)
  unfold marked
  rw [writeWord_of_le (by omega), if_pos rfl]

theorem marked_elsewhere (x y : UInt8) {a : Nat} (h : a ≠ raw.toNat + offset raw) :
    marked raw x a = marked raw y a := by
  unfold marked writeWord
  dsimp only
  rw [if_neg h, if_neg h]

end Marked

theorem byte_add_one_ne (x : UInt8) : x + 1 ≠ x := by
  intro h
  have hvalue := congrArg UInt8.toNat h
  rw [UInt8.toNat_add] at hvalue
  have hbound := x.toNat_lt
  change (x.toNat + 1) % 256 = x.toNat at hvalue
  omega

theorem exists_not_coincides {ZM : ZeroMemory} {raw raw' : Ptr} {old new : UInt64}
    (hold : Chunk raw (old.toNat + 16)) (hnew : Chunk raw' (new.toNat + 16))
    (h : ¬ Undisturbed ZM raw raw' old new) :
    ∃ x, ¬ Coincides ZM (marked raw x) raw raw' old new := by
  unfold Undisturbed at h
  push Not at h
  have ⟨holdPos, hnewPos, hdisturbed⟩ := h
  have hpositive : 0 < min old.toNat new.toNat := by
    have hold0 : old.toNat ≠ 0 := fun hzero => holdPos (UInt64.toNat_inj.mp hzero)
    have hnew0 : new.toNat ≠ 0 := fun hzero => hnewPos (UInt64.toNat_inj.mp hzero)
    omega
  by_cases hfill : ZM = .doZero ∧ offset raw' + 0 < new.toNat
  · refine ⟨1, fun hcoincides => ?_⟩
    have hbyte := hcoincides 0 hpositive
    rw [if_pos hfill, Nat.add_zero, marked_first hold] at hbyte
    cases hbyte
  · have hresidue : raw.toNat % 16 ≠ raw'.toNat % 16 := by
      intro hsame
      have ⟨hzero, hreached⟩ := hdisturbed hsame
      cases ZM with
      | doZero => exact hfill ⟨rfl, by omega⟩
      | doNotZero => exact hzero rfl
    have hplace : raw.toNat + offset raw' ≠ raw.toNat + offset raw := by
      have hoffset := hold.offset_cases
      have hoffset' := hnew.offset_cases
      omega
    refine ⟨marked raw 0 (raw.toNat + offset raw') + 1, fun hcoincides => ?_⟩
    have hbyte := hcoincides 0 hpositive
    rw [if_neg hfill, Nat.add_zero, Nat.add_zero, marked_first hold] at hbyte
    exact byte_add_one_ne _ (hbyte.trans (marked_elsewhere _ 0 hplace))

/-- Whatever the backend does, a reallocated block is aligned and remembers its chunk; it holds the
old contents exactly where the bytes met at the new distance are the same, which is so for all
contents only if the distance is kept and no zeros are filled in. -/
theorem reallocate_keeps_iff {MC : MemoryContext} (ZM : ZeroMemory)
    (F : OnMemoryAllocationFailure) {aggCheckCallContext : Bool} {raw raw' : Ptr}
    {old new : UInt64} (hcontext : MC = .aggregateContext → aggCheckCallContext = true)
    (hold : Chunk raw (old.toNat + 16)) (hnew : Chunk raw' (new.toNat + 16)) :
    (∀ (manager : MemoryManager) (mem mem₁ : Memory) (ptr : Ptr), Block mem raw old ptr →
      manager.repalloc mem raw (new + 16) = some (mem₁, raw') →
      Moved mem raw (old.toNat + 16) mem₁ raw' (new.toNat + 16) →
      (∃ mem' ptr', reallocate manager MC ZM F aggCheckCallContext mem ptr new = .ok (mem', ptr') ∧
        ptr'.toNat % 16 = 0 ∧ Block mem' raw' new ptr') ∧
      (Reallocated (reallocate manager MC ZM F aggCheckCallContext mem ptr new) mem ptr old new
        raw' ↔ Coincides ZM mem raw raw' old new)) ∧
    ((∀ (manager : MemoryManager) (mem mem₁ : Memory) (ptr : Ptr), Block mem raw old ptr →
      manager.repalloc mem raw (new + 16) = some (mem₁, raw') →
      Moved mem raw (old.toNat + 16) mem₁ raw' (new.toNat + 16) →
      Reallocated (reallocate manager MC ZM F aggCheckCallContext mem ptr new) mem ptr old new
        raw') ↔ Undisturbed ZM raw raw' old new) := by
  constructor
  · intro manager mem mem₁ ptr hblock hcall hmoved
    have ⟨mem', hreturn, hreblock, _⟩ := reallocate_spec ZM F hcontext hblock hcall hmoved
    exact ⟨⟨mem', _, hreturn, alignedAddr_mod hmoved.chunk, hreblock⟩,
      reallocated_iff hcontext hblock hcall hmoved⟩
  · constructor
    · intro h
      by_contra hdisturbed
      have ⟨x, hx⟩ := exists_not_coincides hold hnew hdisturbed
      have hmoved := movingTo_moved hnew raw (marked raw x) (old.toNat + 16)
      exact hx ((reallocated_iff hcontext (marked_block hold x) rfl hmoved).mp
        (h (movingTo raw') _ _ _ (marked_block hold x) rfl hmoved))
    · intro h manager mem mem₁ ptr hblock hcall hmoved
      exact (reallocated_iff hcontext hblock hcall hmoved).mpr (h.coincides mem)

/-- A block that stays at its distance keeps its contents. -/
theorem reallocate_keeps_moved :
    Reallocated (reallocate (movingTo 8192) .functionContext .doNotZero .throwBadAlloc false
      (marked 4096 7) (alignedAddr 4096) 32) (marked 4096 7) (alignedAddr 4096) 16 32 8192 := by
  have hold : Chunk 4096 ((16 : UInt64).toNat + 16) := ⟨by decide, by decide, by decide⟩
  have hnew : Chunk 8192 ((32 : UInt64).toNat + 16) := ⟨by decide, by decide, by decide⟩
  have hcontext : MemoryContext.functionContext = .aggregateContext → false = true := nofun
  have hboth := reallocate_keeps_iff .doNotZero .throwBadAlloc hcontext hold hnew
  exact hboth.2.mpr (.inr (.inr ⟨by decide, .inl rfl⟩)) (movingTo 8192) _ _ _
    (marked_block hold 7) rfl (movingTo_moved hnew 4096 _ _)

/-- The first byte is lost when the chunk moves by eight, and when zeros are filled in. -/
theorem reallocate_loses_first :
    Block (marked 4104 7) 4104 16 (alignedAddr 4104) ∧
    ¬ Reallocated (reallocate (movingTo 8192) .functionContext .doNotZero .throwBadAlloc false
      (marked 4104 7) (alignedAddr 4104) 16) (marked 4104 7) (alignedAddr 4104) 16 16 8192 ∧
    ¬ Reallocated (reallocate (movingTo 4104) .functionContext .doZero .throwBadAlloc false
      (marked 4104 7) (alignedAddr 4104) 16) (marked 4104 7) (alignedAddr 4104) 16 16 4104 := by
  have hold : Chunk 4104 ((16 : UInt64).toNat + 16) := ⟨by decide, by decide, by decide⟩
  have hnew : Chunk 8192 ((16 : UInt64).toNat + 16) := ⟨by decide, by decide, by decide⟩
  have hcontext : MemoryContext.functionContext = .aggregateContext → false = true := nofun
  have hblock := marked_block hold 7
  refine ⟨hblock, fun h => ?_, fun h => ?_⟩
  · have hmoved := movingTo_moved hnew 4104 (marked 4104 7) ((16 : UInt64).toNat + 16)
    have hbyte := (reallocated_iff hcontext hblock rfl hmoved).mp h 0 (by decide)
    exact absurd hbyte (by decide)
  · have hmoved := movingTo_moved hold 4104 (marked 4104 7) ((16 : UInt64).toNat + 16)
    have hbyte := (reallocated_iff hcontext hblock rfl hmoved).mp h 0 (by decide)
    exact absurd hbyte (by decide)

end Madlib.Dbconnector
