import Hdf.HcsParser.GenerateTree
import Hdf.HcsParser.WholeRecords
import Mathlib.Logic.Relation

/-!
# When loading stays inside the blob

The loader adds up the lengths of names, values, arrays and nodes as the blob
tells them, and never compares them with the length that was checked. So it stays
inside a blob exactly when no record that it comes to is cut off by the end.

## Main definitions

* `SizesTo`, `BuildsTo`: the record that either pass comes to after another one
* `Intact`: a blob whose records are all whole

## Main results

* `sizePass`, `buildPass_iff`: what the passes do
* `staysInside_iff`: loading stays inside exactly the blobs that are intact
-/

namespace Hdf.HcsParser

/-! ### The records that the passes come to -/

section

variable (byteAlign : Bool) (treeStart : Bytes)

/-- The record at an offset has a length, and the next one starts behind it. -/
def SizesTo (o o' : ℕ) : Prop := ∃ n, Record byteAlign (treeStart.drop o) (some n) ∧ o' = o + n

/-- The ends of the open nodes around a record that ends at an offset, from the inside out. -/
def around (ends : List UInt32) (o : ℕ) : List UInt32 := ends.dropWhile (· < .ofNat o)

/-- The ends of the nodes that are open from then on. Without a node around, none is closed. -/
def stillOpen (ends : List UInt32) (o : ℕ) : List UInt32 :=
  if around ends o = [] then ends else around ends o

/-- The pass that builds the tree goes on from the record at an offset, among open nodes with some
ends. A node is opened below at most 62 others, an attribute belongs to an open node. -/
inductive BuildsTo : ℕ × List UInt32 → ℕ × List UInt32 → Prop
  | node {o n : ℕ} {ends : List UInt32} {size : UInt32}
      (opCode : hcsGetPrefix byteAlign (treeStart.drop o) = some configNode)
      (record : Record byteAlign (treeStart.drop o) (some n))
      (sized : hcsByteCodeToUint32 (treeStart.drop (o + n - hcsDwordLength)) = some size)
      (shallow : (stillOpen ends (o + n)).length < treeStackMax - 1) :
    BuildsTo (o, ends) (o + n, (size + .ofNat (o + n)) :: stillOpen ends (o + n))
  | attr {o n : ℕ} {ends : List UInt32}
      (opCode : hcsGetPrefix byteAlign (treeStart.drop o) = some configAttr)
      (record : Record byteAlign (treeStart.drop o) (some n))
      (inside : around ends (o + n) ≠ []) :
    BuildsTo (o, ends) (o + n, stillOpen ends (o + n))

/-- The memory that a record needs. -/
def recordSize (record : Bytes) : ℕ :=
  if hcsGetPrefix byteAlign record = some configNode then nodeSize else attrSize

/-- The memory that the records from an offset on need which start before a limit. -/
def memoryTo (limit : ℤ) : ℕ → ℕ → ℕ
  | 0, _ => 0
  | rounds + 1, o =>
    if o < limit then
      match hcsGetNodeOrAttrLength byteAlign (treeStart.drop o) with
      | none => 0
      | some n =>
        if n ≤ 0 then 0
        else recordSize byteAlign (treeStart.drop o) + memoryTo limit rounds (o + n.toNat)
    else 0

/-- From a record on, the first pass comes to another one. -/
def SizeComes (length : ℤ) (o o' : ℕ) : Prop :=
  Relation.ReflTransGen (SizesTo byteAlign treeStart) o o' ∧ o' < length

/-- The second pass comes to a record, among open nodes with some ends. -/
def BuildComes (length : ℤ) (s s' : ℕ × List UInt32) : Prop :=
  Relation.ReflTransGen (BuildsTo byteAlign treeStart) s s' ∧ s'.1 < length

/-- The size field of every node that the second pass comes to is whole. -/
def SizedFrom (length : ℤ) (s : ℕ × List UInt32) : Prop :=
  ∀ o n ends, BuildComes byteAlign treeStart length s (o, ends) →
    hcsGetPrefix byteAlign (treeStart.drop o) = some configNode →
      Record byteAlign (treeStart.drop o) (some n) → o + n ≤ treeStart.length

/-- Every record that the first pass comes to is whole. Unless one has an unknown opcode, so is the
size field of every node that the second pass comes to. -/
structure IntactTo (length : ℤ) : Prop where
  records : ∀ o, SizeComes byteAlign treeStart length 0 o →
    ∃ r, Record byteAlign (treeStart.drop o) r
  sizes : (∀ o, SizeComes byteAlign treeStart length 0 o →
    ¬ Record byteAlign (treeStart.drop o) none) → SizedFrom byteAlign treeStart length (0, [])

/-- The root is whole with its size field, its length fits, and so do the records up to there. -/
def Intact : Prop :=
  ∃ r, Record byteAlign treeStart r ∧ ∀ n, r = some n →
    ∃ name size, Terminated byteAlign (treeStart.drop (hcsPrefixLength byteAlign)) name ∧
      hcsByteCodeToUint32 (treeStart.drop (hcsPrefixLength byteAlign + name)) = some size ∧
      n + size.toInt32.toInt ≤ int32Max ∧
      IntactTo byteAlign treeStart (n + size.toInt32.toInt)

end

section

variable {byteAlign : Bool} {treeStart : Bytes} {o o' n : ℕ} {pass : Pass} {length : ℤ}

theorem SizesTo.lt (step : SizesTo byteAlign treeStart o o') : o < o' := by
  obtain ⟨n, record, rfl⟩ := step
  have some := record.pos
  omega

theorem le_of_sizes (steps : Relation.ReflTransGen (SizesTo byteAlign treeStart) o o') :
    o ≤ o' := by
  induction steps with
  | refl => exact le_rfl
  | tail _ step ih => exact ih.trans step.lt.le

theorem SizeComes.refl (inside : o < length) : SizeComes byteAlign treeStart length o o :=
  ⟨.refl, inside⟩

theorem SizeComes.next (record : Record byteAlign (treeStart.drop o) (some n))
    (comes : SizeComes byteAlign treeStart length (o + n) o') :
    SizeComes byteAlign treeStart length o o' :=
  ⟨.head ⟨n, record, rfl⟩ comes.1, comes.2⟩

theorem SizeComes.lt (comes : SizeComes byteAlign treeStart length o o') : o < length := by
  have le := le_of_sizes comes.1
  have inside := comes.2
  omega

/-- Behind a record of some length the pass comes to what lies behind it only. -/
theorem SizeComes.cases (comes : SizeComes byteAlign treeStart length o o') :
    o' = o ∨ ∃ n, Record byteAlign (treeStart.drop o) (some n) ∧
      SizeComes byteAlign treeStart length (o + n) o' := by
  obtain ⟨steps, inside⟩ := comes
  obtain rfl | ⟨_, ⟨n, record, rfl⟩, steps⟩ := Relation.ReflTransGen.cases_head_iff.mp steps
  · exact .inl rfl
  · exact .inr ⟨n, record, steps, inside⟩

/-! ### The first pass -/

theorem parse_cut (cut : ∀ r, ¬ Record byteAlign (treeStart.drop o) r) :
    parseByteCode byteAlign treeStart o pass = none := by
  have missing : hcsGetNodeOrAttrLength byteAlign (treeStart.drop o) = none := by
    rw [Option.eq_none_iff_forall_ne_some]
    rintro z found
    obtain ⟨r, record, -⟩ := hcsGetNodeOrAttrLength_eq_some_iff.mp found
    exact cut r record
  rw [parseByteCode]
  dsimp only
  rw [missing, Option.bind_none]

theorem parse_unknown (unknown : Record byteAlign (treeStart.drop o) none) :
    parseByteCode byteAlign treeStart o pass = some (hdfFailure, pass) := by
  rw [parseByteCode]
  dsimp only
  rw [hcsGetNodeOrAttrLength_eq_some_iff.mpr ⟨none, unknown, rfl⟩, Option.bind_some]
  exact if_pos (show hdfFailure ≤ 0 by decide)

/-- What is left of `ParseByteCode` at a record that has a length. -/
theorem parse_known (record : Record byteAlign (treeStart.drop o) (some n)) :
    hcsGetNodeOrAttrLength byteAlign (treeStart.drop o) = some (n : ℤ) ∧ ¬ (n : ℤ) ≤ 0 :=
  ⟨hcsGetNodeOrAttrLength_eq_some_iff.mpr ⟨some n, record, rfl⟩,
    not_le.mpr (by exact_mod_cast record.pos)⟩

/-- The first pass counts what a record needs. -/
theorem parse_size (record : Record byteAlign (treeStart.drop o) (some n)) (memLen : ℕ) :
    parseByteCode byteAlign treeStart o (.size (.ofNat memLen)) =
      some ((n : ℤ), .size (.ofNat (memLen + recordSize byteAlign (treeStart.drop o)))) := by
  obtain ⟨found, some⟩ := parse_known record
  rw [parseByteCode, Int32.ofNat_add, recordSize]
  dsimp only
  rw [found, Option.bind_some, if_neg some]
  obtain ⟨opCode, -⟩ | ⟨opCode, -⟩ := record.cases
  · rw [opCode, Option.bind_some, if_pos rfl, if_pos rfl]
  · rw [opCode, Option.bind_some, if_neg (by decide), if_pos rfl, if_neg (by decide)]

theorem memoryTo_succ (record : Record byteAlign (treeStart.drop o) (some n))
    (inside : o < length) (rounds : ℕ) :
    memoryTo byteAlign treeStart length (rounds + 1) o =
      recordSize byteAlign (treeStart.drop o) +
        memoryTo byteAlign treeStart length rounds (o + n) := by
  rw [memoryTo, if_pos inside, (parse_known record).1]
  exact if_neg (parse_known record).2

theorem recordSize_le (record : Bytes) : recordSize byteAlign record ≤ nodeSize := by
  rw [recordSize]
  split <;> decide

theorem recordSize_pos (record : Bytes) : 0 < recordSize byteAlign record := by
  rw [recordSize]
  split <;> decide

theorem hcsGetNodeOrAttrLength_nil : hcsGetNodeOrAttrLength byteAlign [] = none := by
  cases byteAlign <;> rfl

theorem memoryTo_of_le (beyond : length ≤ o) (rounds : ℕ) :
    memoryTo byteAlign treeStart length rounds o = 0 := by
  cases rounds with
  | zero => rfl
  | succ rounds => exact if_neg (not_lt.mpr beyond)

theorem memoryTo_mono {length' : ℤ} (le : length ≤ length') (rounds o : ℕ) :
    memoryTo byteAlign treeStart length rounds o ≤
      memoryTo byteAlign treeStart length' rounds o := by
  induction rounds generalizing o with
  | zero => exact le_rfl
  | succ rounds ih =>
    by_cases inside : (o : ℤ) < length
    · rw [memoryTo, memoryTo, if_pos inside, if_pos (inside.trans_le le)]
      split
      · exact le_rfl
      · split
        · exact le_rfl
        · exact Nat.add_le_add_left (ih _) _
    · rw [memoryTo, if_neg inside]
      exact Nat.zero_le _

/-- There is a byte for each record, which needs no more than a node. -/
theorem memoryTo_le (rounds o : ℕ) :
    memoryTo byteAlign treeStart length rounds o ≤ nodeSize * (treeStart.length - o) := by
  induction rounds generalizing o with
  | zero => exact Nat.zero_le _
  | succ rounds ih =>
    rw [memoryTo]
    split
    case isFalse => exact Nat.zero_le _
    cases found : hcsGetNodeOrAttrLength byteAlign (treeStart.drop o) with
    | none => exact Nat.zero_le _
    | some n =>
      have within : o < treeStart.length := by
        by_contra beyond
        rw [List.drop_eq_nil_of_le (not_lt.mp beyond), hcsGetNodeOrAttrLength_nil] at found
        cases found
      dsimp only
      split
      · exact Nat.zero_le _
      · have here : recordSize byteAlign (treeStart.drop o) ≤ nodeSize := recordSize_le _
        have rest := ih (o + n.toNat)
        calc _ ≤ nodeSize + nodeSize * (treeStart.length - (o + n.toNat)) :=
              Nat.add_le_add here rest
          _ = nodeSize * (treeStart.length - (o + n.toNat) + 1) := by
            rw [Nat.mul_succ, Nat.add_comm]
          _ ≤ _ := Nat.mul_le_mul_left _ (by omega)

/-- The first pass ends at a record that is cut off, at one with an unknown opcode or at the end. -/
inductive SizePassed (byteAlign : Bool) (treeStart : Bytes) (length : ℤ)
    (rounds o memLen : ℕ) : Option (ℤ × Pass) → Prop
  | cut {o' : ℕ} (comes : SizeComes byteAlign treeStart length o o')
      (cut : ∀ r, ¬ Record byteAlign (treeStart.drop o') r) :
    SizePassed byteAlign treeStart length rounds o memLen none
  | unknown {o' : ℕ} (whole : ∀ o', SizeComes byteAlign treeStart length o o' →
        ∃ r, Record byteAlign (treeStart.drop o') r)
      (comes : SizeComes byteAlign treeStart length o o')
      (unknown : Record byteAlign (treeStart.drop o') none) (last : Pass) :
    SizePassed byteAlign treeStart length rounds o memLen (some (hdfFailure, last))
  | through (known : ∀ o', SizeComes byteAlign treeStart length o o' →
        ∃ n, Record byteAlign (treeStart.drop o') (some n)) (memory : ℕ)
      (counted : memory = memLen + memoryTo byteAlign treeStart length rounds o)
      (some : o < length → memLen < memory) :
    SizePassed byteAlign treeStart length rounds o memLen
      (Option.some ((Int32.ofNat memory).toInt, .size (.ofNat memory)))

/-- By induction on the rounds, which are enough for the bytes that are left. -/
theorem sizePass (rounds o memLen : ℕ) (enough : length.toNat - o < rounds) :
    SizePassed byteAlign treeStart length rounds o memLen
      (generateLoop byteAlign treeStart length rounds o (.size (.ofNat memLen))) := by
  induction rounds generalizing o memLen with
  | zero => exact absurd enough (Nat.not_lt_zero _)
  | succ rounds ih =>
    rw [generateLoop]
    by_cases inside : (o : ℤ) < length
    · rw [if_pos inside]
      by_cases cut : ∀ r, ¬ Record byteAlign (treeStart.drop o) r
      · rw [parse_cut cut, Option.bind_none]
        exact .cut (.refl inside) cut
      rw [not_forall_not] at cut
      obtain ⟨_ | n, record⟩ := cut
      · rw [parse_unknown record, Option.bind_some, if_pos (show hdfFailure ≤ 0 by decide)]
        refine .unknown (fun o' comes => ?_) (.refl inside) record _
        obtain rfl | ⟨n, record', -⟩ := comes.cases
        · exact ⟨_, record⟩
        · cases record.unique record'
      · have behind := record.pos
        rw [parse_size record, Option.bind_some, if_neg (parse_known record).2, Int.toNat_natCast]
        have rest := ih (o + n) (memLen + recordSize byteAlign (treeStart.drop o)) (by omega)
        generalize generateLoop byteAlign treeStart length rounds (o + n) _ = result at rest ⊢
        have only {o'} (comes : SizeComes byteAlign treeStart length o o') :
            o' = o ∨ SizeComes byteAlign treeStart length (o + n) o' :=
          comes.cases.imp_right fun ⟨m, record', comes⟩ =>
            Option.some.inj (record.unique record') ▸ comes
        cases rest with
        | cut comes cut => exact .cut (.next record comes) cut
        | unknown whole comes unknown last =>
          refine .unknown (fun o' comes => ?_) (.next record comes) unknown last
          obtain rfl | comes := only comes
          · exact ⟨_, record⟩
          · exact whole o' comes
        | through known memory counted _ =>
          have here : 0 < recordSize byteAlign (treeStart.drop o) := recordSize_pos _
          refine .through (fun o' comes => ?_) memory ?_ fun _ => by omega
          · obtain rfl | comes := only comes
            · exact ⟨n, record⟩
            · exact known o' comes
          · rw [memoryTo_succ record inside, counted, Nat.add_assoc]
    · rw [if_neg inside]
      refine .through (fun o' comes => absurd comes.lt inside) memLen ?_
        fun inside' => absurd inside' inside
      rw [memoryTo, if_neg inside, Nat.add_zero]

/-! ### The second pass -/

theorem BuildsTo.unique {s t t' : ℕ × List UInt32} (step : BuildsTo byteAlign treeStart s t)
    (step' : BuildsTo byteAlign treeStart s t') : t = t' := by
  cases step with
  | node opCode record sized _ =>
    cases step' with
    | node _ record' sized' _ =>
      obtain rfl := Option.some.inj (record.unique record')
      rw [Option.some.inj (sized.symm.trans sized')]
    | attr opCode' _ _ => cases opCode.symm.trans opCode'
  | attr opCode record _ =>
    cases step' with
    | node opCode' _ _ _ => cases opCode.symm.trans opCode'
    | attr _ record' _ => rw [Option.some.inj (record.unique record')]

/-- The second pass that goes on from a node has read its size and found a free layer. -/
theorem BuildsTo.of_node {ends : List UInt32} {t : ℕ × List UInt32}
    (step : BuildsTo byteAlign treeStart (o, ends) t)
    (opCode : hcsGetPrefix byteAlign (treeStart.drop o) = some configNode)
    (record : Record byteAlign (treeStart.drop o) (some n)) :
    hcsByteCodeToUint32 (treeStart.drop (o + n - hcsDwordLength)) ≠ none ∧
      (stillOpen ends (o + n)).length < treeStackMax - 1 := by
  cases step with
  | node _ record' sized shallow =>
    obtain rfl := Option.some.inj (record.unique record')
    exact ⟨sized ▸ Option.some_ne_none _, shallow⟩
  | attr opCode' _ _ => cases opCode.symm.trans opCode'

/-- The second pass that goes on from an attribute has found an open node around it. -/
theorem BuildsTo.of_attr {ends : List UInt32} {t : ℕ × List UInt32}
    (step : BuildsTo byteAlign treeStart (o, ends) t)
    (opCode : hcsGetPrefix byteAlign (treeStart.drop o) = some configAttr)
    (record : Record byteAlign (treeStart.drop o) (some n)) : around ends (o + n) ≠ [] := by
  cases step with
  | node opCode' _ _ _ => cases opCode.symm.trans opCode'
  | attr _ record' inside =>
    obtain rfl := Option.some.inj (record.unique record')
    exact inside

theorem hcsByteCodeToUint32_eq_none_iff {start : Bytes} :
    hcsByteCodeToUint32 start = none ↔ start.length < 4 := by
  rw [hcsByteCodeToUint32, wordAt]
  split <;> simp <;> omega

/-- The size field at the end of a record of some length is cut off with the record. -/
theorem sizeField_eq_none_iff (long : hcsDwordLength ≤ n) :
    hcsByteCodeToUint32 (treeStart.drop (o + n - hcsDwordLength)) = none ↔
      treeStart.length < o + n := by
  rw [hcsByteCodeToUint32_eq_none_iff, List.length_drop]
  rw [hcsDwordLength] at long ⊢
  omega

/-- The open nodes keep the ends that the offsets in the stack tell. -/
theorem map_getParentNode (treeStack : List TreeStack) :
    (getParentNode o treeStack n).2.map TreeStack.offset =
      stillOpen (treeStack.map TreeStack.offset) (o + n) := by
  rw [getParentNode, stillOpen, around, List.dropWhile_map, Nat.add_comm o n]
  simp only [Function.comp_def]
  cases treeStack.dropWhile fun e => e.offset < .ofNat (n + o) with
  | nil | cons e below => rfl

theorem getParentNode_eq_none_iff (treeStack : List TreeStack) :
    (getParentNode o treeStack n).1 = none ↔
      around (treeStack.map TreeStack.offset) (o + n) = [] := by
  rw [getParentNode, around, List.dropWhile_map, Nat.add_comm o n, List.map_eq_nil_iff]
  simp only [Function.comp_def]
  cases treeStack.dropWhile fun e => e.offset < .ofNat (n + o) with
  | nil => exact iff_of_true rfl rfl
  | cons e below => exact iff_of_false (Option.some_ne_none _) (List.cons_ne_nil _ _)

/-- A record that has a length misses its size field, ends the second pass, or is built. -/
inductive Built (byteAlign : Bool) (treeStart : Bytes) (o n : ℕ) (ends : List UInt32) :
    Option (ℤ × Pass) → Prop
  | cut (node : hcsGetPrefix byteAlign (treeStart.drop o) = some configNode)
      (beyond : treeStart.length < o + n) : Built byteAlign treeStart o n ends none
  | stops (last : Pass) (stops : ∀ t, ¬ BuildsTo byteAlign treeStart (o, ends) t)
      (sized : hcsGetPrefix byteAlign (treeStart.drop o) = some configNode →
        o + n ≤ treeStart.length) :
    Built byteAlign treeStart o n ends (some (hdfFailure, last))
  | next (treeMem : TreeMem) (treeStack : List TreeStack)
      (step : BuildsTo byteAlign treeStart (o, ends) (o + n, treeStack.map TreeStack.offset))
      (sized : hcsGetPrefix byteAlign (treeStart.drop o) = some configNode →
        o + n ≤ treeStart.length) :
    Built byteAlign treeStart o n ends (some ((n : ℤ), .tree treeMem treeStack))

theorem parse_build (record : Record byteAlign (treeStart.drop o) (some n)) (treeMem : TreeMem)
    (treeStack : List TreeStack) :
    Built byteAlign treeStart o n (treeStack.map TreeStack.offset)
      (parseByteCode byteAlign treeStart o (.tree treeMem treeStack)) := by
  obtain ⟨found, some⟩ := parse_known record
  rw [parseByteCode]
  dsimp only
  rw [found, Option.bind_some, if_neg some, Int.toNat_natCast]
  obtain ⟨opCode, name, text, length⟩ | ⟨opCode, name, more, text, -⟩ := record.cases
  · have here : (treeStart.drop o).drop (name + hcsPrefixLength byteAlign) =
        treeStart.drop (o + n - hcsDwordLength) := by
      rw [List.drop_drop, length]
      congr 1
    rw [opCode, Option.bind_some, if_pos rfl, hcsStringLength_eq_some_iff.mpr text,
      Option.bind_some, here]
    have field : hcsByteCodeToUint32 (treeStart.drop (o + n - hcsDwordLength)) = none ↔
        treeStart.length < o + n := sizeField_eq_none_iff (by omega)
    cases sized : hcsByteCodeToUint32 (treeStart.drop (o + n - hcsDwordLength)) with
    | none => exact .cut opCode (field.mp sized)
    | some size =>
      have inside : o + n ≤ treeStart.length :=
        Nat.not_lt.mp fun beyond => Option.some_ne_none size (sized.symm.trans (field.mpr beyond))
      have open_ := congrArg List.length (map_getParentNode (o := o) (n := n) treeStack)
      rw [List.length_map] at open_
      rw [Option.map_some, updateTreeStack]
      by_cases deep : (getParentNode o treeStack n).2.length ≥ treeStackMax - 1
      · rw [if_pos deep]
        refine .stops _ (fun t step => ?_) fun _ => inside
        have shallow := (step.of_node opCode record).2
        omega
      · rw [if_neg deep]
        refine .next _ _ ?_ fun _ => inside
        rw [List.map_cons, map_getParentNode]
        exact .node opCode record sized (by omega)
  · rw [opCode, Option.bind_some, if_neg (by decide), if_pos rfl]
    have other : ¬ hcsGetPrefix byteAlign (treeStart.drop o) = Option.some configNode := by
      rw [opCode]
      decide
    by_cases homeless : (getParentNode o treeStack n).1 = none
    · rw [homeless, addAttrInNode]
      exact .stops _ (fun t step => step.of_attr opCode record
        ((getParentNode_eq_none_iff treeStack).mp homeless)) fun node => absurd node other
    · obtain ⟨parent, home⟩ := Option.ne_none_iff_exists'.mp homeless
      rw [home, addAttrInNode]
      dsimp only
      rw [hcsStringLength_eq_some_iff.mpr text, Option.map_some, Option.map_some]
      refine .next _ _ ?_ fun node => absurd node other
      rw [map_getParentNode]
      exact .attr opCode record fun none =>
        homeless ((getParentNode_eq_none_iff treeStack).mpr none)

theorem BuildComes.refl {ends : List UInt32} (inside : o < length) :
    BuildComes byteAlign treeStart length (o, ends) (o, ends) :=
  ⟨.refl, inside⟩

theorem BuildComes.next {s t u : ℕ × List UInt32} (step : BuildsTo byteAlign treeStart s t)
    (comes : BuildComes byteAlign treeStart length t u) :
    BuildComes byteAlign treeStart length s u :=
  ⟨.head step comes.1, comes.2⟩

theorem BuildsTo.lt {s t : ℕ × List UInt32} (step : BuildsTo byteAlign treeStart s t) :
    s.1 < t.1 := by
  cases step with
  | node _ record _ _ | attr _ record _ => exact Nat.lt_add_of_pos_right record.pos

theorem BuildComes.le {s t : ℕ × List UInt32} (comes : BuildComes byteAlign treeStart length s t) :
    s.1 ≤ t.1 := by
  obtain ⟨steps, -⟩ := comes
  induction steps with
  | refl => exact le_rfl
  | tail _ step ih => exact ih.trans step.lt.le

theorem BuildComes.lt {s t : ℕ × List UInt32} (comes : BuildComes byteAlign treeStart length s t) :
    s.1 < length := by
  have le := comes.le
  have inside := comes.2
  omega

theorem BuildComes.cases {s t : ℕ × List UInt32}
    (comes : BuildComes byteAlign treeStart length s t) :
    t = s ∨ ∃ u, BuildsTo byteAlign treeStart s u ∧ BuildComes byteAlign treeStart length u t := by
  obtain ⟨steps, inside⟩ := comes
  obtain rfl | ⟨u, step, steps⟩ := Relation.ReflTransGen.cases_head_iff.mp steps
  · exact .inl rfl
  · exact .inr ⟨u, step, steps, inside⟩

/-- By induction on the rounds. All records have lengths, or the first pass has failed. -/
theorem buildPass_iff (rounds o : ℕ) (treeMem : TreeMem) (treeStack : List TreeStack)
    (enough : length.toNat - o < rounds)
    (known : ∀ o', SizeComes byteAlign treeStart length o o' →
      ∃ n, Record byteAlign (treeStart.drop o') (some n)) :
    generateLoop byteAlign treeStart length rounds o (.tree treeMem treeStack) ≠ none ↔
      SizedFrom byteAlign treeStart length (o, treeStack.map TreeStack.offset) := by
  induction rounds generalizing o treeMem treeStack with
  | zero => exact absurd enough (Nat.not_lt_zero _)
  | succ rounds ih =>
    rw [generateLoop]
    by_cases inside : (o : ℤ) < length
    · obtain ⟨n, record⟩ := known o (.refl inside)
      rw [if_pos inside]
      have built := parse_build record treeMem treeStack
      generalize parseByteCode byteAlign treeStart o (.tree treeMem treeStack) = result at built
      cases built with
      | cut node beyond =>
        refine iff_of_false (fun some => some rfl) fun sized => ?_
        exact absurd (sized o n _ (.refl inside) node record) (Nat.not_le.mpr beyond)
      | stops last stops sized =>
        rw [Option.bind_some, if_pos (show hdfFailure ≤ 0 by decide)]
        refine iff_of_true (Option.some_ne_none _) fun o' n' ends comes node record' => ?_
        obtain same | ⟨u, step, -⟩ := comes.cases
        · obtain ⟨rfl, -⟩ := Prod.mk.inj same
          rw [← Option.some.inj (record.unique record')]
          exact sized node
        · exact absurd step (stops u)
      | next treeMem' treeStack' step sized =>
        have behind := record.pos
        rw [Option.bind_some, if_neg (parse_known record).2, Int.toNat_natCast,
          ih (o + n) treeMem' treeStack' (by omega) fun o' comes => known o' (.next record comes)]
        constructor
        · intro rest o' n' ends comes node record'
          obtain same | ⟨u, step', comes⟩ := comes.cases
          · obtain ⟨rfl, -⟩ := Prod.mk.inj same
            rw [← Option.some.inj (record.unique record')]
            exact sized node
          · exact rest o' n' ends (step.unique step' ▸ comes) node record'
        · exact fun all o' n' ends comes => all o' n' ends (.next step comes)
    · rw [if_neg inside]
      exact iff_of_true (Option.some_ne_none _) fun o' n' ends comes _ _ => absurd comes.lt inside

/-! ### Whole blobs -/

/-- The records up to the length decide whether both passes stay inside, if the count of the first
one does not wrap. -/
theorem generate_iff (short : nodeSize * treeStart.length < 2 ^ 31) :
    ((generateCfgTree byteAlign treeStart length (.size 0)).bind fun treeMemLength =>
      if treeMemLength.1 ≤ 0 then some none
      else
        (generateCfgTree byteAlign treeStart length (.tree (.node none []) [])).map
          fun treeLayer => if treeLayer.1 ≤ 0 then none else treeLayer.2.root) ≠ none ↔
      IntactTo byteAlign treeStart length := by
  have sized : SizePassed byteAlign treeStart length (length.toNat + 1) 0 0
      (generateCfgTree byteAlign treeStart length (.size 0)) :=
    sizePass _ 0 0 (by omega)
  generalize generateCfgTree byteAlign treeStart length (.size 0) = result at sized
  cases sized with
  | cut comes cut =>
    refine iff_of_false (fun some => some rfl) fun intact => ?_
    obtain ⟨r, record⟩ := intact.records _ comes
    exact cut r record
  | unknown whole comes unknown last =>
    rw [Option.bind_some, if_pos (show hdfFailure ≤ 0 by decide)]
    exact iff_of_true (Option.some_ne_none _) ⟨whole, fun known => absurd unknown (known _ comes)⟩
  | through known memory counted some =>
    have few : memoryTo byteAlign treeStart length (length.toNat + 1) 0 ≤ _ := memoryTo_le _ 0
    rw [Nat.sub_zero] at few
    have records o (comes : SizeComes byteAlign treeStart length 0 o) :
        ∃ r, Record byteAlign (treeStart.drop o) r := (known o comes).imp' Option.some fun _ => id
    have lengths o (comes : SizeComes byteAlign treeStart length 0 o) :
        ¬ Record byteAlign (treeStart.drop o) none := by
      obtain ⟨n, record⟩ := known o comes
      exact fun unknown => Option.some_ne_none n (record.unique unknown)
    have built := buildPass_iff (length.toNat + 1) 0 (.node none []) [] (by omega) known
    rw [Option.bind_some, Int32.toInt_ofNat_of_lt (by omega)]
    by_cases empty : (memory : ℤ) ≤ 0
    · rw [if_pos empty]
      have none : ¬ (0 : ℕ) < length := fun nonempty => absurd (some nonempty) (by omega)
      exact iff_of_true (Option.some_ne_none _)
        ⟨records, fun _ o n ends comes => absurd comes.lt none⟩
    · rw [if_neg empty, Ne, Option.map_eq_none_iff]
      exact built.trans ⟨fun sizes => ⟨records, fun _ => sizes⟩, fun intact => intact.sizes lengths⟩

/-- The length of a root that is whole itself. -/
theorem hcsGetNodeLength_eq_some_iff (record : Record byteAlign treeStart (some n)) :
    hcsGetNodeLength byteAlign treeStart = some length ↔ ∃ name size,
      Terminated byteAlign (treeStart.drop (hcsPrefixLength byteAlign)) name ∧
      hcsByteCodeToUint32 (treeStart.drop (hcsPrefixLength byteAlign + name)) = some size ∧
      n + size.toInt32.toInt ≤ int32Max ∧ n + size.toInt32.toInt = length := by
  rw [hcsGetNodeLength, hcsGetNodeOrAttrLength_eq_some_iff.mpr ⟨_, record, rfl⟩, Option.bind_some,
    foundLength, if_neg (not_lt.mpr (Int.natCast_nonneg n)), Option.bind_eq_some_iff]
  refine exists_congr fun name => ?_
  rw [hcsStringLength_eq_some_iff, exists_and_left, Option.bind_eq_some_iff]
  refine and_congr_right fun _ => exists_congr fun size => and_congr_right fun _ => ?_
  by_cases fits : n + size.toInt32.toInt ≤ int32Max
  · rw [if_pos fits, Option.some.injEq, and_iff_right fits]
  · rw [if_neg fits]
    exact iff_of_false (by simp) fun both => fits both.1

theorem intact_iff_of_record (record : Record byteAlign treeStart (some n)) :
    Intact byteAlign treeStart ↔ ∃ length, hcsGetNodeLength byteAlign treeStart = some length ∧
      IntactTo byteAlign treeStart length := by
  constructor
  · rintro ⟨r, record', whole⟩
    obtain ⟨name, size, text, sized, fits, intact⟩ := whole n (record'.unique record)
    exact ⟨_, (hcsGetNodeLength_eq_some_iff record).mpr ⟨name, size, text, sized, fits, rfl⟩,
      intact⟩
  · rintro ⟨length, found, intact⟩
    obtain ⟨name, size, text, sized, fits, rfl⟩ := (hcsGetNodeLength_eq_some_iff record).mp found
    refine ⟨some n, record, fun m same => ?_⟩
    obtain rfl := Option.some.inj same
    exact ⟨name, size, text, sized, fits, intact⟩

theorem intactTo_of_nonpos (none : length ≤ 0) : IntactTo byteAlign treeStart length :=
  ⟨fun _ comes => absurd comes.lt (by omega), fun _ _ _ _ comes => absurd comes.lt (by omega)⟩

/-- Loading reads nothing beyond the end exactly when the blob is intact, and returns then. -/
theorem hcsDecompile_ne_none_iff {blob : Bytes} {offset : ℕ}
    (short : nodeSize * blob.length < 2 ^ 31) :
    hcsDecompile byteAlign blob offset ≠ none ↔ Intact byteAlign (blob.drop offset) := by
  have less : nodeSize * (blob.drop offset).length < 2 ^ 31 :=
    (Nat.mul_le_mul_left _ (List.length_drop ▸ Nat.sub_le _ _)).trans_lt short
  rw [hcsDecompile]
  generalize blob.drop offset = treeStart at less
  by_cases whole : ∃ r, Record byteAlign treeStart r
  · obtain ⟨_ | n, record⟩ := whole
    · rw [hcsGetNodeLength, hcsGetNodeOrAttrLength_eq_some_iff.mpr ⟨_, record, rfl⟩,
        Option.bind_some, if_pos (show foundLength none < 0 by decide), Option.bind_some,
        if_pos (show hdfFailure < 0 by decide)]
      refine iff_of_true (Option.some_ne_none _) ⟨none, record, fun n known => ?_⟩
      cases known
    · rw [intact_iff_of_record record]
      cases found : hcsGetNodeLength byteAlign treeStart with
      | none => exact iff_of_false (fun some => some rfl) fun ⟨_, same, _⟩ => by cases same
      | some length =>
        have only : (∃ length', some length = some length' ∧
            IntactTo byteAlign treeStart length') ↔ IntactTo byteAlign treeStart length := by simp
        rw [Option.bind_some, only]
        by_cases negative : length < 0
        · rw [if_pos negative]
          exact iff_of_true (Option.some_ne_none _) (intactTo_of_nonpos negative.le)
        · rw [if_neg negative]
          exact generate_iff less
  · have missing : hcsGetNodeOrAttrLength byteAlign treeStart = none := by
      rw [Option.eq_none_iff_forall_ne_some]
      intro z found
      obtain ⟨r, record, -⟩ := hcsGetNodeOrAttrLength_eq_some_iff.mp found
      exact whole ⟨r, record⟩
    rw [hcsGetNodeLength, missing, Option.bind_none, Option.bind_none]
    exact iff_of_false (fun some => some rfl) fun ⟨r, record, _⟩ => whole ⟨r, record⟩

end

/-- The check accepts a blob of a length, with or without padding. -/
def Accepted (stale : Bool) (blob : Bytes) (length : UInt32) (byteAlign : Bool) : Prop :=
  length.toNat = blob.length ∧ hcsCheckBlobFormat stale blob length = some (true, byteAlign)

/-- Loading a blob after its check reads nothing beyond the length that was checked, and returns. -/
def StaysInside (stale : Bool) (blob : Bytes) (length : UInt32) : Prop :=
  ∀ byteAlign, Accepted stale blob length byteAlign →
    hcsDecompile byteAlign blob hbcHeaderLength ≠ none

/-- A blob that the check accepts is too short for the count of the first pass to wrap. -/
theorem Accepted.short {stale : Bool} {blob : Bytes} {length : UInt32} {byteAlign : Bool}
    (accepted : Accepted stale blob length byteAlign) : nodeSize * blob.length < 2 ^ 31 := by
  obtain ⟨whole, checked⟩ := accepted
  rw [hcsCheckBlobFormat] at checked
  split at checked
  · cases checked
  · rw [whole] at *
    rw [nodeSize]
    rw [hbcBlobMaxLength] at *
    omega

/-- Loading stays inside a blob that the check accepts if and only if its records are whole. -/
theorem staysInside_iff (stale : Bool) (blob : Bytes) (length : UInt32) :
    StaysInside stale blob length ↔ ∀ byteAlign, Accepted stale blob length byteAlign →
      Intact byteAlign (blob.drop hbcHeaderLength) :=
  forall₂_congr fun _ accepted => hcsDecompile_ne_none_iff accepted.short

/-- A root without records in it that claims to have 255 bytes of them. -/
def longRoot : Bytes :=
  [0x0A, 0xA0, 0x0A, 0xA0, 7, 0, 0, 0, 0, 0, 0, 0, 0, 0, 0, 0, 10, 0, 0, 0] ++
    [1, 114, 111, 111, 116, 0, 255, 0, 0, 0]

theorem longRoot_not_staysInside : ¬ StaysInside false longRoot 30 := by
  intro inside
  refine inside false ⟨rfl, by decide +kernel⟩ ?_
  decide +kernel

end Hdf.HcsParser
