import Hdf.Core.Base
import Hdf.Lib.Pieces
import Hdf.Platform.Dmac

/-!
# How DMA transfers are cut

A transfer between a peripheral and memory is described by a chain of descriptors, each
for as many bytes as the controller moves at once with the widths of the channel. A
transfer in memory is programmed one piece after the other. Addresses have 32 bits,
since a descriptor with its head has 64 bytes.

## Main results

* `fillFrom_eq`: the descriptors one by one
* `periphLli_cut`, `dmacM2mTransfer_cut`: the two cuts
* `transfers_cut`: both
-/

namespace Hdf.Platform.DmacDescriptors

open Hdf.Core
open Dmac (typeP2m typeM2p dmacAlignedTransMax)

/-- `sizeof(struct DmacLli)`. -/
def dmacLliSize : UInt32 := 64

/-- `struct DmacLli`. -/
structure DmacLli where
  nextLli : UInt32
  count : ℕ
  srcAddr : UInt32
  destAddr : UInt32
  config : ℕ
  deriving DecidableEq, Repr

/-- `struct DmaCntlr`, as far as it concerns descriptors. -/
structure DmaCntlr where
  maxTransSize : ℕ
  dmacVaddrToPaddr : UInt32 → UInt32

/-- `struct DmacChanInfo`, as far as it concerns descriptors; `lli` is the address of the first. -/
structure DmacChanInfo where
  transType : UInt8
  srcWidth : UInt8
  destWidth : UInt8
  config : ℕ
  lliEnFlag : UInt32
  lliCnt : UInt16
  lli : Option UInt32
  deriving DecidableEq, Repr

/-- The size that `DmacPeriphTransfer` and `DmacFillLli` cut by. -/
def alignedMax (cntlr : DmaCntlr) (chanInfo : DmacChanInfo) : ℕ :=
  dmacAlignedTransMax cntlr.maxTransSize chanInfo.srcWidth chanInfo.destWidth

/-- `DmacAllocLli`, where the memory for the descriptors may not be there. -/
def dmacAllocLli (allocAddr : Option UInt32) (chanInfo : DmacChanInfo) (length maxSize : ℕ) :
    HdfStatus × DmacChanInfo :=
  if maxSize = 0 then (.invalidParam, chanInfo)
  else
    let lliNum := length / maxSize + if length % maxSize > 0 then 1 else 0
    if lliNum > 2048 then (.invalidParam, chanInfo)
    else
      match allocAddr with
      | none => (.failure, chanInfo)
      | some lli => (.success, { chanInfo with lliCnt := UInt16.ofNat lliNum, lli := some lli })

/-- The loop of `DmacFillLli`, where an address stands for a dummy buffer or does not. -/
def fillFrom (cntlr : DmaCntlr) (chanInfo : DmacChanInfo) (srcDummy dstDummy : Bool)
    (length alignedMax : ℕ) (lli : UInt32) (lliNum : ℕ) :
    ℕ → ℕ → UInt32 → UInt32 → List DmacLli
  | 0, _, _, _ => []
  | left + 1, i, srcaddr, dstaddr =>
    let plli := lli + UInt32.ofNat i * dmacLliSize
    let nextLli := cntlr.dmacVaddrToPaddr plli + dmacLliSize
    let nextLli := if i < lliNum - 1 then nextLli + chanInfo.lliEnFlag else 0
    let count :=
      if i < lliNum - 1 ∨ length % alignedMax = 0 then alignedMax else length % alignedMax
    { nextLli, count, srcAddr := srcaddr, destAddr := dstaddr, config := chanInfo.config } ::
      fillFrom cntlr chanInfo srcDummy dstDummy length alignedMax lli lliNum left (i + 1)
        (srcaddr + if chanInfo.transType = typeM2p ∧ srcDummy = false
          then UInt32.ofNat count else 0)
        (dstaddr + if chanInfo.transType = typeP2m ∧ dstDummy = false
          then UInt32.ofNat count else 0)

/-- `DmacFillLli`, where `DmacGetDummyBuf` returns a buffer or 0. -/
def dmacFillLli (cntlr : DmaCntlr) (dummy : UInt32) (chanInfo : DmacChanInfo)
    (srcaddr dstaddr : UInt32) (length : ℕ) : HdfStatus × List DmacLli :=
  match chanInfo.lli with
  | none => (.invalidParam, [])
  | some lli =>
    if alignedMax cntlr chanInfo = 0 then (.invalidParam, [])
    else
      let src := if srcaddr = 0 then dummy else srcaddr
      let dst := if dstaddr = 0 then dummy else dstaddr
      if src = 0 ∨ dst = 0 then (.mallocFail, [])
      else
        let lliNum := chanInfo.lliCnt.toNat
        (.success, fillFrom cntlr chanInfo (srcaddr = 0) (dstaddr = 0) length
          (alignedMax cntlr chanInfo) lli lliNum lliNum 0 src dst)

/-- The descriptors that `DmacPeriphTransfer` makes for a channel. -/
def periphLli (cntlr : DmaCntlr) (allocAddr : Option UInt32) (dummy : UInt32)
    (chanInfo : DmacChanInfo) (srcAddr destAddr : UInt32) (transLen : ℕ) :
    HdfStatus × List DmacLli :=
  match dmacAllocLli allocAddr chanInfo transLen (alignedMax cntlr chanInfo) with
  | (.success, chanInfo) => dmacFillLli cntlr dummy chanInfo srcAddr destAddr transLen
  | (status, _) => (status, [])

/-- A piece that is programmed with `dmaM2mChanEnable`. -/
structure Chunk where
  src : UInt32
  dest : UInt32
  length : ℕ
  deriving DecidableEq, Repr

/-- The loop of `DmacM2mTransfer`, with what enabling the channel returns for each piece, and
whether the piece is completed. -/
def m2mFrom (maxTransSize : ℕ) (enable : ℕ → HdfStatus) (completes : ℕ → Bool)
    (srcAddr destAddr : UInt32) : ℕ → ℕ → ℕ → Option (HdfStatus × List Chunk)
  | 0, _, _ => none
  | fuel + 1, leftSize, dmaCount =>
    if leftSize > 0 then
      let dmaSize := if leftSize ≥ maxTransSize then maxTransSize else leftSize
      let chunk : Chunk := {
        src := srcAddr + UInt32.ofNat (dmaCount * maxTransSize)
        dest := destAddr + UInt32.ofNat (dmaCount * maxTransSize)
        length := dmaSize }
      if enable dmaCount ≠ .success then some (enable dmaCount, [chunk])
      else if completes dmaCount = false then some (.failure, [chunk])
      else
        (m2mFrom maxTransSize enable completes srcAddr destAddr fuel (leftSize - dmaSize)
          (dmaCount + 1)).map fun result => (result.1, chunk :: result.2)
    else some (.success, [])

/-- `DmacM2mTransfer`, once a channel was requested. -/
def dmacM2mTransfer (fuel : ℕ) (cntlr : DmaCntlr) (enable : ℕ → HdfStatus)
    (completes : ℕ → Bool) (srcAddr destAddr : UInt32) (transLen : ℕ) :
    Option (HdfStatus × List Chunk) :=
  m2mFrom cntlr.maxTransSize enable completes srcAddr destAddr fuel transLen 0

/-! ## What is owed -/

/-- The memory side of a transfer of a type. -/
def memorySide (transType : UInt8) (srcAddr destAddr : UInt32) : UInt32 :=
  if transType = typeP2m then destAddr else srcAddr

/-- The descriptors at an address cut a transfer: their counts are within the aligned maximum and
add up, their memory sides cover the memory in order, and each leads to the next one, the
last to nothing. -/
structure DescriptorsCut (cntlr : DmaCntlr) (chanInfo : DmacChanInfo) (lli : UInt32)
    (srcAddr destAddr : UInt32) (transLen : ℕ) (llis : List DmacLli) : Prop where
  counts : ∀ entry ∈ llis, 0 < entry.count ∧ entry.count ≤ alignedMax cntlr chanInfo
  total : (llis.map DmacLli.count).sum = transLen
  memory : Tiles (2 ^ 32) (memorySide chanInfo.transType srcAddr destAddr).toNat transLen
    (llis.map fun entry =>
      ((memorySide chanInfo.transType entry.srcAddr entry.destAddr).toNat, entry.count))
  links : ∀ i entry, llis[i]? = some entry → entry.nextLli =
    if i + 1 < llis.length then
      cntlr.dmacVaddrToPaddr (lli + UInt32.ofNat (i + 1) * dmacLliSize) + chanInfo.lliEnFlag
    else 0

/-- The pieces of a transfer in memory: none is longer than the maximum, and both sides cover
what was transferred in order, which is all if the transfer succeeds. -/
structure ChunksCut (cntlr : DmaCntlr) (srcAddr destAddr : UInt32) (transLen : ℕ)
    (status : HdfStatus) (chunks : List Chunk) : Prop where
  lengths : ∀ chunk ∈ chunks, chunk.length ≤ cntlr.maxTransSize
  covers : ∃ n ≤ transLen, (status = .success → n = transLen) ∧
    Tiles (2 ^ 32) srcAddr.toNat n (chunks.map fun chunk => (chunk.src.toNat, chunk.length)) ∧
    Tiles (2 ^ 32) destAddr.toNat n (chunks.map fun chunk => (chunk.dest.toNat, chunk.length))

/-- The descriptors at an address are next to each other in physical memory too. -/
def Contiguous (cntlr : DmaCntlr) (lli : UInt32) (count : ℕ) : Prop :=
  ∀ i, i + 1 < count → cntlr.dmacVaddrToPaddr (lli + UInt32.ofNat (i + 1) * dmacLliSize) =
    cntlr.dmacVaddrToPaddr (lli + UInt32.ofNat i * dmacLliSize) + dmacLliSize

/-! ## The descriptors of a transfer -/

variable {cntlr : DmaCntlr} {chanInfo : DmacChanInfo} {lli srcAddr destAddr dummy : UInt32}
  {allocAddr : Option UInt32} {size n k left lliNum transLen : ℕ} {status : HdfStatus}
  {llis : List DmacLli}

/-- The number of descriptors is that of the pieces. -/
theorem lliNum_eq_pieceCount (positive : 0 < size) (nonempty : 0 < n) :
    (n / size + if n % size > 0 then 1 else 0) = pieceCount size n := by
  obtain ⟨q, r, small, rfl⟩ : ∃ q r, r < size ∧ n = size * q + r :=
    ⟨n / size, n % size, Nat.mod_lt n positive, (Nat.div_add_mod n size).symm⟩
  rw [pieceCount, Nat.mul_add_div positive, Nat.mul_add_mod, Nat.mod_eq_of_lt small,
    Nat.div_eq_of_lt small]
  split_ifs with rest
  · have below : size * q + r - 1 = size * q + (r - 1) := Nat.add_sub_assoc rest _
    rw [below, Nat.mul_add_div positive, Nat.div_eq_of_lt (by omega)]
  · obtain rfl : r = 0 := Nat.eq_zero_of_not_pos rest
    obtain ⟨q, rfl⟩ : ∃ p, q = p + 1 := by
      refine Nat.exists_eq_add_one.mpr (Nat.pos_of_ne_zero ?_)
      rintro rfl
      exact absurd nonempty (Nat.lt_irrefl 0)
    have below : size * (q + 1) + 0 - 1 = size * q + (size - 1) := by
      rw [Nat.mul_succ, Nat.add_zero, Nat.add_sub_assoc positive]
    rw [below, Nat.mul_add_div positive, Nat.div_eq_of_lt (by omega)]

/-- The count of a descriptor is the length of its piece. -/
theorem count_eq_piece (positive : 0 < size) (nonempty : 0 < n) (inside : k < pieceCount size n) :
    (if k < pieceCount size n - 1 ∨ n % size = 0 then size else n % size) = piece size n k := by
  by_cases last : k + 1 = pieceCount size n
  · have whole := piece_last positive last
    have some : 0 < piece size n k := by
      have before := mul_lt_of_lt_pieceCount nonempty inside
      omega
    have le := piece_le size n k
    have same : n % size = piece size n k % size := by
      conv_lhs => rw [← whole, Nat.mul_add_mod_self_right]
    rcases Nat.eq_or_lt_of_le le with full | part
    · rw [if_pos (.inr (by rw [same, full, Nat.mod_self])), full]
    · rw [Nat.mod_eq_of_lt part] at same
      rw [if_neg (by omega), same]
  · rw [piece_of_lt positive (by omega), if_pos (.inl (by omega))]

/-- The descriptor with an index. -/
def descriptor (cntlr : DmaCntlr) (chanInfo : DmacChanInfo) (lli srcAddr destAddr : UInt32)
    (size transLen k : ℕ) : DmacLli where
  nextLli :=
    if k < pieceCount size transLen - 1 then
      cntlr.dmacVaddrToPaddr (lli + UInt32.ofNat k * dmacLliSize) + dmacLliSize +
        chanInfo.lliEnFlag
    else 0
  count := piece size transLen k
  srcAddr := srcAddr + if chanInfo.transType = typeM2p then UInt32.ofNat (k * size) else 0
  destAddr := destAddr + if chanInfo.transType = typeP2m then UInt32.ofNat (k * size) else 0
  config := chanInfo.config

/-- The descriptors one by one. -/
theorem fillFrom_eq (positive : 0 < size) (nonempty : 0 < transLen)
    (all : k + left = pieceCount size transLen) :
    fillFrom cntlr chanInfo false false transLen size lli (pieceCount size transLen) left k
      (descriptor cntlr chanInfo lli srcAddr destAddr size transLen k).srcAddr
      (descriptor cntlr chanInfo lli srcAddr destAddr size transLen k).destAddr =
    (List.range' k left).map (descriptor cntlr chanInfo lli srcAddr destAddr size transLen) := by
  induction left generalizing k with
  | zero => rfl
  | succ left ih =>
    have count := count_eq_piece positive nonempty (by omega : k < pieceCount size transLen)
    rw [List.range'_succ, List.map_cons, fillFrom]
    simp only [count, and_true]
    congr 1
    cases left with
    | zero => rfl
    | succ left =>
      -- all pieces before the last one are full
      have full : piece size transLen k = size := piece_of_lt positive (by omega)
      rw [← ih (by omega)]
      have next (a : UInt32) (side : Prop) [Decidable side] :
          (a + if side then UInt32.ofNat (k * size) else 0) +
              (if side then UInt32.ofNat (piece size transLen k) else 0) =
            a + if side then UInt32.ofNat ((k + 1) * size) else 0 := by
        rw [full, Nat.succ_mul, UInt32.ofNat_add, UInt32.add_assoc]
        split_ifs
        · rfl
        · rw [UInt32.add_zero]
      simp only [descriptor, next]

theorem toNat_descriptor {a : UInt32} :
    (a + UInt32.ofNat (k * size)).toNat = (a.toNat + k * size) % 2 ^ 32 := by
  rw [UInt32.toNat_add, UInt32.toNat_ofNat', Nat.add_mod_mod]

theorem memorySide_descriptor (k : ℕ)
    (side : chanInfo.transType = typeP2m ∨ chanInfo.transType = typeM2p) :
    let entry := descriptor cntlr chanInfo lli srcAddr destAddr size transLen k
    (memorySide chanInfo.transType entry.srcAddr entry.destAddr).toNat =
      ((memorySide chanInfo.transType srcAddr destAddr).toNat + k * size) % 2 ^ 32 := by
  rcases side with toMemory | fromMemory
  · simp only [memorySide, descriptor, toMemory, if_true, toNat_descriptor]
  · have other : typeM2p ≠ typeP2m := by decide
    simp only [memorySide, descriptor, fromMemory, other, if_false, if_true, toNat_descriptor]

/-- The descriptors of a transfer cut it. -/
theorem descriptors_cut (positive : 0 < alignedMax cntlr chanInfo) (nonempty : 0 < transLen)
    (side : chanInfo.transType = typeP2m ∨ chanInfo.transType = typeM2p)
    (contiguous : Contiguous cntlr lli (pieceCount (alignedMax cntlr chanInfo) transLen)) :
    DescriptorsCut cntlr chanInfo lli srcAddr destAddr transLen
      ((List.range (pieceCount (alignedMax cntlr chanInfo) transLen)).map
        (descriptor cntlr chanInfo lli srcAddr destAddr (alignedMax cntlr chanInfo) transLen)) := by
  have tiles := tiles_range_pieces positive nonempty (2 ^ 32)
    (memorySide chanInfo.transType srcAddr destAddr).toNat
  refine ⟨?_, ?_, ?_, ?_⟩
  · intro entry mem
    obtain ⟨k, inside, rfl⟩ := List.mem_map.mp mem
    exact ⟨piece_pos positive nonempty (List.mem_range.mp inside), piece_le _ _ _⟩
  · -- the lengths add up, as the pieces tile the range
    have total := tiles.sum_eq
    rw [List.map_map] at total ⊢
    exact total
  · rw [List.map_map]
    simp only [Function.comp_def, memorySide_descriptor _ side]
    exact tiles
  · intro i entry there
    rw [List.getElem?_map, Option.map_eq_some_iff] at there
    obtain ⟨k, found, rfl⟩ := there
    obtain ⟨inside, rfl⟩ := List.getElem?_eq_some_iff.mp found
    rw [List.length_range] at inside
    simp only [List.getElem_range, List.length_map, List.length_range, descriptor]
    -- every descriptor but the last one leads to the next
    by_cases more : i + 1 < pieceCount (alignedMax cntlr chanInfo) transLen
    · rw [if_pos more, if_pos (by omega), contiguous i more]
    · rw [if_neg more, if_neg (by omega)]

theorem descriptor_zero :
    (descriptor cntlr chanInfo lli srcAddr destAddr size transLen 0).srcAddr = srcAddr ∧
      (descriptor cntlr chanInfo lli srcAddr destAddr size transLen 0).destAddr = destAddr := by
  simp [descriptor]

theorem pieceCount_gt_iff (positive : 0 < size) (nonempty : 0 < n) :
    k < pieceCount size n ↔ k * size < n := by
  rw [pieceCount, Nat.lt_succ_iff, Nat.le_div_iff_mul_le positive, Nat.le_sub_one_iff_lt nonempty]

/-- `DmacFillLli` fills in the descriptors that were allocated. -/
theorem dmacFillLli_eq (positive : 0 < alignedMax cntlr chanInfo) (nonempty : 0 < transLen)
    (src : srcAddr ≠ 0) (dest : destAddr ≠ 0) (allocated : chanInfo.lli = some lli)
    (counted : chanInfo.lliCnt.toNat = pieceCount (alignedMax cntlr chanInfo) transLen) :
    dmacFillLli cntlr dummy chanInfo srcAddr destAddr transLen =
      (.success, (List.range (pieceCount (alignedMax cntlr chanInfo) transLen)).map
        (descriptor cntlr chanInfo lli srcAddr destAddr (alignedMax cntlr chanInfo) transLen)) := by
  have filled : fillFrom cntlr chanInfo false false transLen (alignedMax cntlr chanInfo) lli
      (pieceCount (alignedMax cntlr chanInfo) transLen)
      (pieceCount (alignedMax cntlr chanInfo) transLen) 0 srcAddr destAddr =
        (List.range' 0 (pieceCount (alignedMax cntlr chanInfo) transLen)).map
          (descriptor cntlr chanInfo lli srcAddr destAddr (alignedMax cntlr chanInfo)
            transLen) := by
    rw [← fillFrom_eq positive nonempty (Nat.zero_add _), descriptor_zero.1, descriptor_zero.2]
  rw [← List.range_eq_range'] at filled
  simp only [dmacFillLli, allocated, Nat.ne_of_gt positive, src, dest, counted, or_self, if_false,
    decide_false, filled]

/-- What `DmacPeriphTransfer` makes of a transfer: the descriptors if there is memory for them,
and an error if they would be more than 2048. -/
theorem periphLli_eq (nonempty : 0 < transLen) (src : srcAddr ≠ 0) (dest : destAddr ≠ 0) :
    periphLli cntlr allocAddr dummy chanInfo srcAddr destAddr transLen =
      if alignedMax cntlr chanInfo = 0 ∨ 2048 * alignedMax cntlr chanInfo < transLen then
        (.invalidParam, [])
      else
        match allocAddr with
        | none => (.failure, [])
        | some lli =>
          (.success, (List.range (pieceCount (alignedMax cntlr chanInfo) transLen)).map
            (descriptor cntlr chanInfo lli srcAddr destAddr (alignedMax cntlr chanInfo)
              transLen)) := by
  by_cases zero : alignedMax cntlr chanInfo = 0
  · simp [periphLli, dmacAllocLli, zero]
  have positive : 0 < alignedMax cntlr chanInfo := Nat.pos_of_ne_zero zero
  by_cases many : 2048 * alignedMax cntlr chanInfo < transLen
  · have tooMany := (pieceCount_gt_iff positive nonempty).mpr many
    simp [periphLli, dmacAllocLli, zero, lliNum_eq_pieceCount positive nonempty, tooMany, many]
  have few : ¬ 2048 < pieceCount (alignedMax cntlr chanInfo) transLen := by
    rwa [pieceCount_gt_iff positive nonempty]
  rw [if_neg (not_or.mpr ⟨zero, many⟩)]
  cases allocAddr with
  | none =>
    simp [periphLli, dmacAllocLli, zero, lliNum_eq_pieceCount positive nonempty, few]
  | some lli =>
    -- the number of descriptors is kept in 16 bits, and there are at most 2048
    have fits : (UInt16.ofNat (pieceCount (alignedMax cntlr chanInfo) transLen)).toNat =
        pieceCount (alignedMax cntlr chanInfo) transLen := by
      rw [UInt16.toNat_ofNat', Nat.mod_eq_of_lt (by omega)]
    have filled : dmacFillLli cntlr dummy { chanInfo with
          lliCnt := UInt16.ofNat (pieceCount (alignedMax cntlr chanInfo) transLen)
          lli := some lli } srcAddr destAddr transLen = _ :=
      dmacFillLli_eq positive nonempty src dest rfl fits
    simp only [periphLli, dmacAllocLli, zero, lliNum_eq_pieceCount positive nonempty, few, if_false,
      filled]
    rfl

/-! ## Transfers in memory -/

/-- The loop programs pieces that follow each other, and gets to the end if all goes well. -/
theorem m2mFrom_spec {enable : ℕ → HdfStatus} {completes : ℕ → Bool} {fuel leftSize dmaCount : ℕ}
    (positive : 0 < size) (enough : leftSize < fuel) :
    ∃ status chunks, m2mFrom size enable completes srcAddr destAddr fuel leftSize dmaCount =
        some (status, chunks) ∧
      (∀ chunk ∈ chunks, chunk.length ≤ size) ∧
      (∃ n ≤ leftSize, (status = .success → n = leftSize) ∧
        Tiles (2 ^ 32) (srcAddr.toNat + dmaCount * size) n
          (chunks.map fun chunk => (chunk.src.toNat, chunk.length)) ∧
        Tiles (2 ^ 32) (destAddr.toNat + dmaCount * size) n
          (chunks.map fun chunk => (chunk.dest.toNat, chunk.length))) ∧
      ((∀ k, enable k = .success ∧ completes k = true) → status = .success) := by
  induction fuel generalizing leftSize dmaCount with
  | zero => exact absurd enough (Nat.not_lt_zero _)
  | succ fuel ih =>
    rw [m2mFrom]
    by_cases some : leftSize > 0
    · generalize sized : (if leftSize ≥ size then size else leftSize) = dmaSize
      have bounds : 0 < dmaSize ∧ dmaSize ≤ size ∧ dmaSize ≤ leftSize := by
        rw [← sized]
        split <;> omega
      obtain ⟨pos, small, inside⟩ := bounds
      have start (a : UInt32) : (a + UInt32.ofNat (dmaCount * size)).toNat =
          (a.toNat + dmaCount * size) % 2 ^ 32 := toNat_descriptor
      simp only [if_pos some]
      have stopped {status : HdfStatus} (bad : status ≠ .success) : ∃ n ≤ leftSize,
          (status = .success → n = leftSize) ∧
          Tiles (2 ^ 32) (srcAddr.toNat + dmaCount * size) n
            [((srcAddr + UInt32.ofNat (dmaCount * size)).toNat, dmaSize)] ∧
          Tiles (2 ^ 32) (destAddr.toNat + dmaCount * size) n
            [((destAddr + UInt32.ofNat (dmaCount * size)).toNat, dmaSize)] := by
        rw [start, start]
        exact ⟨dmaSize, inside, fun same => absurd same bad, tiles_singleton pos,
          tiles_singleton pos⟩
      -- a piece that is shorter than the others is the last one
      have onward {a n : ℕ} {ranges : List (ℕ × ℕ)}
          (tiles : Tiles (2 ^ 32) (a + (dmaCount + 1) * size) n ranges)
          (le : n ≤ leftSize - dmaSize) :
          Tiles (2 ^ 32) (a + dmaCount * size + dmaSize) (dmaSize + n - dmaSize) ranges := by
        rw [Nat.add_sub_cancel_left]
        by_cases full : leftSize ≥ size
        · rw [if_pos full] at sized
          rw [Nat.succ_mul, ← Nat.add_assoc, sized] at tiles
          exact sized ▸ tiles
        · rw [if_neg full] at sized
          obtain rfl : n = 0 := by omega
          exact tiles.moved _
      split_ifs with failed incomplete
      · exact ⟨_, _, rfl, by simpa using small, stopped failed,
          fun all => absurd (all dmaCount).1 failed⟩
      · exact ⟨_, _, rfl, by simpa using small, stopped (by decide), fun all =>
          absurd (all dmaCount).2 (by simp [incomplete])⟩
      · obtain ⟨status, chunks, ran, lengths, ⟨n, le, whole, src, dest⟩, succeeds⟩ :=
          @ih (leftSize - dmaSize) (dmaCount + 1) (by omega)
        refine ⟨status, _ :: chunks, by rw [ran]; rfl, ?_, ⟨dmaSize + n, by omega, ?_, ?_, ?_⟩,
          succeeds⟩
        · exact List.forall_mem_cons.mpr ⟨small, lengths⟩
        · intro success
          have := whole success
          omega
        · exact ⟨start srcAddr, pos, Nat.le_add_right _ _, onward src le⟩
        · exact ⟨start destAddr, pos, Nat.le_add_right _ _, onward dest le⟩
    · rw [if_neg some]
      obtain rfl : leftSize = 0 := Nat.eq_zero_of_not_pos some
      exact ⟨_, _, rfl, by simp, ⟨0, Nat.le_refl 0, fun _ => rfl, rfl, rfl⟩, fun _ => rfl⟩

theorem dmacM2mTransfer_cut {enable : ℕ → HdfStatus} {completes : ℕ → Bool} {fuel : ℕ}
    (positive : 0 < cntlr.maxTransSize) (enough : transLen < fuel) :
    ∃ status chunks, dmacM2mTransfer fuel cntlr enable completes srcAddr destAddr transLen =
        some (status, chunks) ∧
      ChunksCut cntlr srcAddr destAddr transLen status chunks ∧
      ((∀ k, enable k = .success ∧ completes k = true) → status = .success) := by
  obtain ⟨status, chunks, ran, lengths, covers, succeeds⟩ := @m2mFrom_spec srcAddr destAddr
    cntlr.maxTransSize enable completes fuel transLen 0 positive enough
  rw [Nat.zero_mul, Nat.add_zero, Nat.add_zero] at covers
  exact ⟨status, chunks, ran, ⟨lengths, covers⟩, succeeds⟩

/-- Transfers are cut without gap or overlap. Between a peripheral and memory, the transfer gets
descriptors that cut it, or an error if they would be more than 2048, if no piece has the
aligned size or if there is no memory for them. In memory, all pieces are programmed unless one
of them fails. -/
theorem transfers_cut (cntlr : DmaCntlr) (srcAddr destAddr : UInt32) (transLen : ℕ)
    (nonempty : 0 < transLen) (positive : 0 < cntlr.maxTransSize) (src : srcAddr ≠ 0)
    (dest : destAddr ≠ 0) :
    (∀ chanInfo lli dummy,
      Contiguous cntlr lli (pieceCount (alignedMax cntlr chanInfo) transLen) →
      (chanInfo.transType = typeP2m ∨ chanInfo.transType = typeM2p) →
      (alignedMax cntlr chanInfo = 0 ∨ 2048 * alignedMax cntlr chanInfo < transLen →
        ∀ allocAddr, periphLli cntlr allocAddr dummy chanInfo srcAddr destAddr transLen =
          (.invalidParam, [])) ∧
      (0 < alignedMax cntlr chanInfo → transLen ≤ 2048 * alignedMax cntlr chanInfo →
        periphLli cntlr none dummy chanInfo srcAddr destAddr transLen = (.failure, []) ∧
        ∃ llis, periphLli cntlr (some lli) dummy chanInfo srcAddr destAddr transLen =
            (.success, llis) ∧
          DescriptorsCut cntlr chanInfo lli srcAddr destAddr transLen llis)) ∧
    ∀ enable completes fuel, transLen < fuel →
      ∃ status chunks, dmacM2mTransfer fuel cntlr enable completes srcAddr destAddr transLen =
          some (status, chunks) ∧
        ChunksCut cntlr srcAddr destAddr transLen status chunks ∧
        ((∀ k, enable k = .success ∧ completes k = true) → status = .success) := by
  refine ⟨fun chanInfo lli dummy contiguous side => ?_, fun enable completes fuel enough =>
    dmacM2mTransfer_cut positive enough⟩
  simp only [periphLli_eq nonempty src dest]
  -- the two cases are those of `periphLli_eq`
  refine ⟨fun error allocAddr => if_pos error, fun positive fits => ?_⟩
  have fine : ¬ (alignedMax cntlr chanInfo = 0 ∨ 2048 * alignedMax cntlr chanInfo < transLen) :=
    not_or.mpr ⟨Nat.ne_of_gt positive, Nat.not_lt.mpr fits⟩
  have few : pieceCount (alignedMax cntlr chanInfo) transLen ≤ 2048 :=
    Nat.le_of_not_lt ((pieceCount_gt_iff positive nonempty).not.mpr (Nat.not_lt.mpr fits))
  simp only [if_neg fine]
  exact ⟨trivial, _, rfl, descriptors_cut positive nonempty side contiguous⟩

/-- Ten bytes from a peripheral with four at a time, and in memory with five at a time. -/
theorem transfers_cut_ten :
    let cntlr : DmaCntlr := ⟨5, fun vaddr => vaddr⟩
    let chanInfo : DmacChanInfo := ⟨typeP2m, 4, 2, 0, 1, 0, none⟩
    (∃ llis, periphLli cntlr (some 0x8000) 0 chanInfo 0x1000 0x2000 10 = (.success, llis) ∧
      DescriptorsCut cntlr chanInfo 0x8000 0x1000 0x2000 10 llis) ∧
    ∃ status chunks, dmacM2mTransfer 11 cntlr (fun _ => .success) (fun _ => true) 0x1000 0x2000 10 =
        some (status, chunks) ∧
      ChunksCut cntlr 0x1000 0x2000 10 status chunks ∧
      ((∀ _ : ℕ, HdfStatus.success = .success ∧ true = true) → status = .success) := by
  intro cntlr chanInfo
  have contiguous : Contiguous cntlr 0x8000 (pieceCount (alignedMax cntlr chanInfo) 10) := by
    intro i _
    show 0x8000 + UInt32.ofNat (i + 1) * dmacLliSize =
      0x8000 + UInt32.ofNat i * dmacLliSize + dmacLliSize
    rw [UInt32.ofNat_add, UInt32.add_mul, UInt32.add_assoc]
    rfl
  have cut := transfers_cut cntlr 0x1000 0x2000 10 (by decide) (by decide) (by decide) (by decide)
  have fits := (cut.1 chanInfo 0x8000 0 contiguous (.inl rfl)).2 (by decide) (by decide)
  exact ⟨fits.2, cut.2 _ _ 11 (by decide)⟩

end Hdf.Platform.DmacDescriptors
