import Hdf.Sbuf.Accesses

/-!
# Runs of sbuf operations

A run starts from one sbuf and performs operations on it and on the sbufs that
`copy` and `move` make of it. In every run the positions stay in order and no
access leaves the storage. An sbuf that was obtained stays within the size
limit, and one that was bound stays in its block until it is given the ownership
of its data, after which it grows like any other.

## Main results

* `Op.run_spec`: what one operation does
* `runs_wellFormed`: what holds after every run
* `owned_reallocated`: an sbuf that was bound and moves to another block
-/

namespace Hdf.Sbuf

/-- An operation of the interface, with its arguments and the outcomes of its allocations. -/
inductive Op where
  | writeScalar (alloc : Option ℕ) (value : Scalar)
  | readScalar (type : ScalarType)
  | writeBuffer (alloc alloc' : Option ℕ) (data : Option (List UInt8))
  | writeString (alloc alloc' : Option ℕ) (value : Option (List UInt8))
  | readBuffer
  | readString
  | flush
  | setDataSize (size : ℕ)
  | copy (structAlloc : Bool) (alloc : Option ℕ)
  | move (structAlloc : Bool)
  | transDataOwnership

/-- The sbuf after an operation, and the new one that it returns. -/
def Op.run (op : Op) (sbuf : HdfSBufRaw) : Option (HdfSBufRaw × Option HdfSBufRaw) :=
  match op with
  | writeScalar alloc value => (Sbuf.writeScalar alloc sbuf value).map fun r => (r.2, none)
  | readScalar type => (Sbuf.readScalar sbuf type).map fun r => (r.2, none)
  | writeBuffer alloc alloc' data =>
    (Sbuf.writeBuffer alloc alloc' sbuf data).map fun r => (r.2, none)
  | writeString alloc alloc' value =>
    (Sbuf.writeString alloc alloc' sbuf value).map fun r => (r.2, none)
  | readBuffer => (Sbuf.readBuffer sbuf).map fun r => (r.2, none)
  | readString => (Sbuf.readString sbuf).map fun r => (r.2, none)
  | flush => some (Sbuf.flush sbuf, none)
  | setDataSize size => some (Sbuf.setDataSize sbuf size, none)
  | copy structAlloc alloc => (Sbuf.copy structAlloc alloc sbuf).map fun new => (sbuf, new)
  | move structAlloc => some ((Sbuf.move structAlloc sbuf).2, (Sbuf.move structAlloc sbuf).1)
  | transDataOwnership => some (Sbuf.transDataOwnership sbuf, none)

/-- The sbufs after an operation on one of them. -/
def stepAt (sbufs : List HdfSBufRaw) (i : ℕ) (op : Op) : Option (List HdfSBufRaw) :=
  match sbufs[i]? with
  | none => some sbufs
  | some sbuf => (op.run sbuf).map fun r => sbufs.set i r.1 ++ r.2.toList

/-- The sbufs after a sequence of operations. -/
def runs (sbufs : List HdfSBufRaw) : List (ℕ × Op) → Option (List HdfSBufRaw)
  | [] => some sbufs
  | (i, op) :: ops => (stepAt sbufs i op).bind fun sbufs => runs sbufs ops

/-- Where the storage of an sbuf comes from. -/
inductive Origin where
  | obtained
  | bound (base size : ℕ)

/-- The sbuf was got from `SbufObtainRaw` or `SbufBindRaw`. -/
inductive Got : Origin → HdfSBufRaw → Prop
  | obtained {structAlloc : Bool} {alloc : Option ℕ} {capacity : ℕ} {sbuf : HdfSBufRaw}
    (h : obtainRaw structAlloc alloc capacity = some sbuf) : Got .obtained sbuf
  | bound {structAlloc : Bool} {base : ℕ} {bytes : List UInt8} {sbuf : HdfSBufRaw}
    (h : bindRaw structAlloc base bytes = some sbuf) (size : bytes.length < 2 ^ 64) :
    Got (.bound base bytes.length) sbuf

section

variable {sbuf sbuf' new : HdfSBufRaw} {sbufs : List HdfSBufRaw} {origin : Origin}

/-! ### Single operations -/

theorem newInstance_spec {structAlloc : Bool} {alloc : Option ℕ} {capacity : ℕ}
    (h : newInstance structAlloc alloc capacity = some new) :
    capacity ≤ hdfSbufMaxSize ∧ ∃ base, new = {
      writePos := 0, readPos := 0, capacity := capacity
      data := some ⟨base, List.replicate capacity 0⟩, isBind := false } := by
  unfold newInstance at h
  split at h
  case isTrue => cases h
  case isFalse within =>
    split at h
    case isTrue => cases h
    case isFalse =>
      obtain ⟨data, allocates, rfl⟩ := Option.map_eq_some_iff.mp h
      obtain ⟨base, _, rfl⟩ := Option.map_eq_some_iff.mp allocates
      exact ⟨Nat.le_of_not_lt within, base, rfl⟩

/-- A copy has the written bytes, and is read from the start. -/
structure Copied (sbuf new : HdfSBufRaw) : Prop where
  wellFormed : WellFormed new
  data : sbuf.data.isSome → new.data.isSome
  readPos : new.readPos = 0
  writePos : new.writePos = sbuf.writePos
  capacity : new.capacity = sbuf.capacity
  written : written new = written sbuf

theorem copy_spec (wf : WellFormed sbuf) (structAlloc : Bool) (alloc : Option ℕ) :
    ∃ r, copy structAlloc alloc sbuf = some r ∧ ∀ new, r = some new → Copied sbuf new := by
  have inside := wf.write_le
  unfold copy
  cases there : sbuf.data with
  | none => exact ⟨none, rfl, by simp⟩
  | some data =>
    dsimp only
    cases made : newInstance structAlloc alloc sbuf.capacity with
    | none => exact ⟨none, rfl, by simp⟩
    | some fresh =>
      obtain ⟨-, base, rfl⟩ := newInstance_spec made
      have length := wf.block data there
      have load : loadAt data.bytes 0 sbuf.capacity = some data.bytes := by
        rw [loadAt_eq (by omega), List.drop_zero, ← length, List.take_length]
      obtain ⟨ok, newData, copies, -, newLength, -, stored⟩ := memcpyS_spec
        ⟨base, List.replicate sbuf.capacity 0⟩ 0 sbuf.capacity data.bytes (by simp)
      rw [List.length_replicate] at newLength
      dsimp only
      rw [load, Option.bind_some, copies]
      cases ok with
      | false => exact ⟨none, rfl, by simp⟩
      | true =>
        refine ⟨_, rfl, fun new same => ?_⟩
        cases same
        refine ⟨⟨Nat.zero_le _, inside, wf.capacity_lt, fun block same => ?_⟩, fun _ => rfl,
          rfl, rfl, rfl, ?_⟩
        · cases same
          exact newLength
        · obtain ⟨-, whole⟩ := storeAt_spec (stored rfl).2
          rw [written_of_data rfl, written_of_data there]
          dsimp only
          rw [whole, length]
          simp

theorem move_spec (wf : WellFormed sbuf) (structAlloc : Bool) :
    WellFormed (move structAlloc sbuf).2 ∧ Stays sbuf (move structAlloc sbuf).2 ∧
      ∀ new, (move structAlloc sbuf).1 = some new → Copied sbuf new := by
  unfold move
  split
  case isTrue => exact ⟨wf, .refl sbuf, by simp⟩
  case isFalse owned =>
    split
    case isTrue => exact ⟨wf, .refl sbuf, by simp⟩
    case isFalse =>
      refine ⟨⟨le_rfl, le_rfl, by simp [flush], by simp [flush]⟩,
        ⟨rfl, fun bound => absurd bound owned, fun _ => Nat.zero_le _⟩, fun new same => ?_⟩
      cases same
      exact ⟨⟨Nat.zero_le _, wf.write_le, wf.capacity_lt, wf.block⟩, id, rfl, rfl, rfl, rfl⟩

theorem setDataSize_spec (wf : WellFormed sbuf) (size : ℕ) :
    WellFormed (setDataSize sbuf size) ∧ Stays sbuf (setDataSize sbuf size) := by
  unfold setDataSize
  split
  case isTrue fits =>
    exact ⟨⟨Nat.zero_le _, fits, wf.capacity_lt, wf.block⟩, .of_eq rfl rfl rfl⟩
  case isFalse => exact ⟨wf, .refl sbuf⟩

/-- What an operation leaves: a well-formed sbuf, and well-formed new ones that are no larger. -/
structure Op.Outcome (op : Op) (sbuf sbuf' : HdfSBufRaw) (new : Option HdfSBufRaw) : Prop where
  wellFormed : WellFormed sbuf'
  stays : op ≠ .transDataOwnership → Stays sbuf sbuf'
  limit : sbuf.capacity ≤ hdfSbufMaxSize → sbuf'.capacity ≤ hdfSbufMaxSize
  new_wellFormed : ∀ n, new = some n → WellFormed n
  new_le : ∀ n, new = some n → n.capacity = sbuf.capacity

/-- Operations that neither return an sbuf nor transfer the ownership. -/
theorem Op.Outcome.of_stays {op : Op} (wf : WellFormed sbuf') (stays : Stays sbuf sbuf') :
    op.Outcome sbuf sbuf' none :=
  ⟨wf, fun _ => stays, stays.limit, by simp, by simp⟩

theorem Op.run_spec (wf : WellFormed sbuf) (op : Op) :
    ∃ sbuf' new, op.run sbuf = some (sbuf', new) ∧ op.Outcome sbuf sbuf' new := by
  cases op with
  | writeScalar alloc value =>
    obtain ⟨ok, sbuf', writes, wrote⟩ := writeScalar_spec wf alloc value
    exact ⟨sbuf', none, by rw [Op.run, writes]; rfl, .of_stays wrote.wellFormed wrote.stays⟩
  | readScalar type =>
    obtain ⟨r, sbuf', reads, outcome⟩ := readScalar_spec wf type
    exact ⟨sbuf', none, by rw [Op.run, reads]; rfl, .of_stays outcome.wellFormed outcome.stays⟩
  | writeBuffer alloc alloc' data =>
    obtain ⟨ok, sbuf', writes, wrote⟩ := writeBuffer_spec wf alloc alloc' data
    exact ⟨sbuf', none, by rw [Op.run, writes]; rfl, .of_stays wrote.wellFormed wrote.stays⟩
  | writeString alloc alloc' value =>
    obtain ⟨ok, sbuf', writes, wrote⟩ := writeString_spec wf alloc alloc' value
    exact ⟨sbuf', none, by rw [Op.run, writes]; rfl, .of_stays wrote.wellFormed wrote.stays⟩
  | readBuffer =>
    obtain ⟨r, sbuf', reads, outcome⟩ := readBuffer_spec wf
    exact ⟨sbuf', none, by rw [Op.run, reads]; rfl, .of_stays outcome.wellFormed outcome.stays⟩
  | readString =>
    cases there : sbuf.data with
    | none =>
      exact ⟨sbuf, none, by simp [Op.run, Sbuf.readString, there], .of_stays wf (.refl sbuf)⟩
    | some data =>
      obtain ⟨r, sbuf', reads, wf', stays, -⟩ := readString_spec wf there
      exact ⟨sbuf', none, by rw [Op.run, reads]; rfl, .of_stays wf' stays⟩
  | flush =>
    exact ⟨_, none, rfl,
      .of_stays ⟨le_rfl, Nat.zero_le _, wf.capacity_lt, wf.block⟩ (.of_eq rfl rfl rfl)⟩
  | setDataSize size =>
    obtain ⟨wf', stays⟩ := setDataSize_spec wf size
    exact ⟨_, none, rfl, .of_stays wf' stays⟩
  | copy structAlloc alloc =>
    obtain ⟨r, copies, copied⟩ := copy_spec wf structAlloc alloc
    exact ⟨sbuf, r, by rw [Op.run, copies]; rfl, wf, fun _ => .refl sbuf, id,
      fun n same => (copied n same).wellFormed, fun n same => (copied n same).capacity⟩
  | move structAlloc =>
    obtain ⟨wf', stays, copied⟩ := move_spec wf structAlloc
    exact ⟨_, _, rfl, wf', fun _ => stays, stays.limit, fun n same => (copied n same).wellFormed,
      fun n same => (copied n same).capacity⟩
  | transDataOwnership =>
    exact ⟨_, none, rfl, ⟨wf.read_le, wf.write_le, wf.capacity_lt, wf.block⟩, by simp, id, by simp,
      by simp⟩

/-! ### Runs -/

/-- What a step keeps of all sbufs together. -/
structure Intact (origin : Origin) (owned : Bool) (sbufs : List HdfSBufRaw) : Prop where
  wellFormed : ∀ b ∈ sbufs, WellFormed b
  obtained : origin = .obtained → ∀ b ∈ sbufs, b.capacity ≤ hdfSbufMaxSize
  bound : ∀ base size, origin = .bound base size → owned = false → ∃ b, sbufs[0]? = some b ∧
    b.isBind = true ∧ b.capacity = size ∧ b.data.map Block.base = some base

theorem Intact.step {owned : Bool} (h : Intact origin owned sbufs) (i : ℕ) (op : Op)
    (keeps : owned = false → (i, op) ≠ (0, .transDataOwnership)) :
    ∃ sbufs', stepAt sbufs i op = some sbufs' ∧ Intact origin owned sbufs' := by
  unfold stepAt
  cases there : sbufs[i]? with
  | none => exact ⟨sbufs, rfl, h⟩
  | some sbuf =>
    have member := List.mem_of_getElem? there
    obtain ⟨sbuf', new, runs, outcome⟩ := Op.run_spec (h.wellFormed sbuf member) op
    dsimp only
    rw [runs]
    have cases_ {b : HdfSBufRaw} (inside : b ∈ sbufs.set i sbuf' ++ new.toList) :
        b ∈ sbufs ∨ b = sbuf' ∨ new = some b := by
      rcases List.mem_append.mp inside with old | added
      · exact (List.mem_or_eq_of_mem_set old).imp_right .inl
      · exact .inr (.inr (Option.mem_toList.mp added))
    refine ⟨_, rfl, ⟨fun b inside => ?_, fun obtained b inside => ?_,
      fun base size bound kept => ?_⟩⟩
    · rcases cases_ inside with old | rfl | added
      · exact h.wellFormed b old
      · exact outcome.wellFormed
      · exact outcome.new_wellFormed b added
    · have limit := h.obtained obtained
      rcases cases_ inside with old | rfl | added
      · exact limit b old
      · exact outcome.limit (limit sbuf member)
      · exact (outcome.new_le b added).trans_le (limit sbuf member)
    · obtain ⟨first, front, isBind, capacity, block⟩ := h.bound base size bound kept
      have nonempty : 0 < sbufs.length := (List.getElem?_eq_some_iff.mp front).1
      rw [List.getElem?_append_left (by rwa [List.length_set])]
      by_cases own : i = 0
      · subst own
        cases there.symm.trans front
        have stays := outcome.stays fun trans => keeps kept (by rw [trans])
        obtain ⟨capacity', block'⟩ := stays.bound isBind
        exact ⟨sbuf', List.getElem?_set_self nonempty, stays.isBind.trans isBind,
          capacity'.trans capacity, block'.trans block⟩
      · exact ⟨first, by rw [List.getElem?_set_ne own, front], isBind, capacity, block⟩

theorem Got.intact (got : Got origin sbuf) : Intact origin false [sbuf] := by
  cases got with
  | obtained h =>
    obtain ⟨limit, base, rfl⟩ := newInstance_spec h
    rw [hdfSbufMaxSize] at limit
    refine ⟨fun b inside => ?_, fun _ b inside => ?_, by simp⟩
    · obtain rfl := List.mem_singleton.mp inside
      exact ⟨le_rfl, Nat.zero_le _, by dsimp only; omega, fun data same => by cases same; simp⟩
    · obtain rfl := List.mem_singleton.mp inside
      exact limit
  | @bound structAlloc base bytes _ h size =>
    have made : sbuf = {
        writePos := bytes.length, readPos := 0, capacity := bytes.length, data := some ⟨base, bytes⟩
        isBind := true } := by
      unfold bindRaw at h
      split at h
      · cases h
      · split at h
        · cases h
        · split at h
          · cases h
          · exact (Option.some.inj h).symm
    subst made
    refine ⟨fun b inside => ?_, by simp, fun base' size' same _ => ?_⟩
    · obtain rfl := List.mem_singleton.mp inside
      exact ⟨Nat.zero_le _, le_rfl, size, fun data same => by cases same; rfl⟩
    · cases same
      exact ⟨_, rfl, rfl, rfl, rfl⟩

/-- After every run all sbufs are well formed, those of an obtained one are within
the limit, and a bound one is in its block unless it was given the ownership. -/
theorem runs_wellFormed (got : Got origin sbuf) (ops : List (ℕ × Op)) :
    ∃ sbufs, runs [sbuf] ops = some sbufs ∧ (∀ b ∈ sbufs, WellFormed b) ∧
      (origin = .obtained → ∀ b ∈ sbufs, b.capacity ≤ hdfSbufMaxSize) ∧
      ∀ base size, origin = .bound base size → (0, Op.transDataOwnership) ∉ ops →
        ∃ b, sbufs[0]? = some b ∧ b.isBind = true ∧ b.capacity = size ∧
          b.data.map Block.base = some base := by
  -- the ownership counts as given from the start when some operation gives it
  have general : ∀ owned sbufs, Intact origin owned sbufs →
      (owned = false → (0, Op.transDataOwnership) ∉ ops) →
      ∃ sbufs', runs sbufs ops = some sbufs' ∧ Intact origin owned sbufs' := by
    intro owned
    induction ops with
    | nil => exact fun sbufs intact _ => ⟨sbufs, rfl, intact⟩
    | cons e ops ih =>
      intro sbufs intact kept
      obtain ⟨i, op⟩ := e
      obtain ⟨sbufs₁, steps, intact₁⟩ := intact.step i op fun free same =>
        kept free (same ▸ List.mem_cons_self)
      obtain ⟨sbufs₂, rest, intact₂⟩ := ih sbufs₁ intact₁ fun free inside =>
        kept free (List.mem_cons_of_mem _ inside)
      exact ⟨sbufs₂, by rw [runs, steps]; exact rest, intact₂⟩
  have start := got.intact
  by_cases given : (0, Op.transDataOwnership) ∈ ops
  · obtain ⟨sbufs, ran, intact⟩ := general true [sbuf]
      ⟨start.wellFormed, start.obtained, by simp⟩ (by simp)
    exact ⟨sbufs, ran, intact.wellFormed, intact.obtained, fun _ _ _ free => absurd given free⟩
  · obtain ⟨sbufs, ran, intact⟩ := general false [sbuf] start fun _ => given
    exact ⟨sbufs, ran, intact.wellFormed, intact.obtained, fun base size bound _ =>
      intact.bound base size bound rfl⟩

end

/-! ### Examples -/

/-- An sbuf that is bound to four bytes. -/
def boundToFour : HdfSBufRaw where
  writePos := 4
  readPos := 0
  capacity := 4
  data := some ⟨4096, [1, 2, 3, 4]⟩
  isBind := true

theorem got_boundToFour : Got (.bound 4096 4) boundToFour := by
  have binds : bindRaw true 4096 [1, 2, 3, 4] = some boundToFour := rfl
  exact .bound binds (by decide)

theorem owned_reallocated :
    Got (.bound 4096 4) boundToFour ∧ ∃ sbuf,
      runs [boundToFour] [(0, .transDataOwnership), (0, .writeScalar (some 8192) (.uint8 7))] =
        some [sbuf] ∧ sbuf.data.map Block.base = some 8192 := by
  refine ⟨got_boundToFour, ?_⟩
  have evaluated : (runs [boundToFour]
      [(0, .transDataOwnership), (0, .writeScalar (some 8192) (.uint8 7))]).map
        (List.map fun sbuf => sbuf.data.map Block.base) = some [some 8192] := by decide +kernel
  obtain ⟨sbufs, ran, bases⟩ := Option.map_eq_some_iff.mp evaluated
  obtain ⟨sbuf, rfl, base⟩ := List.map_eq_singleton_iff.mp bases
  exact ⟨sbuf, ran, base⟩

theorem runs_wellFormed_boundToFour :
    ∃ sbufs, runs [boundToFour] [(0, .readBuffer), (0, .flush)] = some sbufs ∧
      (∀ b ∈ sbufs, WellFormed b) ∧
      (Origin.bound 4096 4 = .obtained → ∀ b ∈ sbufs, b.capacity ≤ hdfSbufMaxSize) ∧
      ∀ base size, Origin.bound 4096 4 = .bound base size →
        (0, Op.transDataOwnership) ∉ [(0, .readBuffer), (0, .flush)] →
        ∃ b, sbufs[0]? = some b ∧ b.isBind = true ∧ b.capacity = size ∧
          b.data.map Block.base = some base :=
  runs_wellFormed got_boundToFour _

end Hdf.Sbuf
