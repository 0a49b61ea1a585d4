import Hdf.HdiGen.Version

/-!
# Out arrays of the generated C proxies

The caller of a generated proxy passes an out array with a pointer to the number of elements that
it has room for. The proxy sends this number, and takes from the reply a number of its own, which
overwrites the caller's, and as many elements.

A function that emits statements is modelled by what the statements do. `ASTListType` emits the
same as `ASTArrayType`. What the generated code calls is given by functions on a state of the
surroundings, which holds the reply. An element that is an array itself has no C code.

## Main results

* `elements_stores`: the indices that are stored
* `readOut_iff`: out parameters are safe exactly when the reply fits
* `safeReply_iff`: so is a call of the proxy
-/

namespace Hdf.HdiGen.OutArrays

/-- The types that are read with a function of the sbuf and a pointer. -/
inductive Scalar
  | boolean | byte | short | int | long | uchar | ushort | uint | ulong | float | double | enum
  deriving DecidableEq, Repr

/-- The kind of an element, as far as the emitted statements differ. Of other types nothing is
read. -/
inductive Element
  | string | struct (name : String) | union (name : String) | fileDescriptor
  | scalar (type : Scalar) | unsupported
  deriving DecidableEq, Repr

/-- The type of a parameter. -/
inductive ParamType
  | array (element : Element)
  | single (type : Element)
  deriving DecidableEq, Repr

/-- An `ASTParameter`. -/
structure ASTParameter where
  name : String
  attr : ParamAttr
  type : ParamType
  deriving DecidableEq, Repr

/-- An `ASTMethod`. -/
structure ASTMethod where
  parameters : List ASTParameter
  oneWay : Bool

/-- What the generated code calls. A function without a result has failed. -/
structure Surroundings (β : Type*) where
  /-- Writing an in parameter. -/
  writeIn : ASTParameter → β → Option β
  writeUint32 : UInt32 → β → Option β
  /-- The call of the stub, which leaves the reply. -/
  call : β → Int32 × β
  readUint32 : β → Option (UInt32 × β)
  /-- A text of a length. -/
  readString : β → Option (ℕ × β)
  /-- Whether a text of a length is copied into room for some characters. -/
  strcpy : UInt32 → ℕ → Bool
  calloc : β → Option β
  /-- Reading a struct: whether a member has been stored, and the reply behind it. -/
  unmarshal : String → β → Bool × Option β
  readUnion : String → β → Option β
  readFileDescriptor : β → Int32 × β
  readScalar : Scalar → β → Option β

/-- The variables of a proxy. Kept of the past are the elements that have been stored and the
lengths that the reply has announced. -/
structure Frame (β : Type*) where
  ret : Int32
  env : β
  stores : List (String × ℕ)
  announced : List (String × UInt32)

/-- Statements, which reach their end or go to the label. -/
abbrev Code (β : Type*) := Frame β → Bool × Frame β

/-- Statements behind others. -/
def Code.andThen {β : Type*} (first second : Code β) : Code β := fun frame =>
  match first frame with
  | (true, frame) => second frame
  | (false, frame) => (false, frame)

/-- Statements for each element of a list. -/
def Code.each {α β : Type*} (emit : α → Code β) : List α → Code β
  | [] => fun frame => (true, frame)
  | a :: rest => (emit a).andThen (Code.each emit rest)

section

variable {β : Type*} (ops : Surroundings β) (kernel : Bool) (len : String → UInt32)

/-- A call that may fail with a code. -/
def attempt (error : Int32) (run : β → Option β) : Code β := fun frame =>
  match run frame.env with
  | some env => (true, { frame with env })
  | none => (false, { frame with ret := error })

/-! ### The elements of an array -/

/-- `EmitCProxyReadVar` of an element: whether something is stored in it, and the reply behind it
or an error. A string is stored as a copy, and the result of an allocation or of a descriptor is
stored before it is checked. -/
def readElement (type : Element) (env : β) : Bool × Except Int32 β :=
  match type with
  | .string =>
    match ops.readString env with
    | none => (false, .error hdfErrInvalidParam)
    | some (_, env) =>
      if kernel then
        match ops.calloc env with
        | none => (true, .error hdfErrMallocFail)
        | some env => (true, .ok env)
      else (true, .ok env)
  | .struct name =>
    let (stored, rest) := ops.unmarshal name env
    (stored, rest.elim (.error hdfErrInvalidParam) .ok)
  | .union name =>
    match ops.readUnion name env with
    | none => (false, .error hdfErrInvalidParam)
    | some env => (true, .ok env)
  | .fileDescriptor =>
    let (fd, env) := ops.readFileDescriptor env
    (true, if fd < 0 then .error hdfErrInvalidParam else .ok env)
  | .scalar scalar =>
    match ops.readScalar scalar env with
    | none => (false, .error hdfErrInvalidParam)
    | some env => (true, .ok env)
  | .unsupported => (false, .ok env)

/-- The body of the loop at an index. -/
def element (name : String) (type : Element) (i : ℕ) : Code β := fun frame =>
  let (stored, rest) := readElement ops kernel type frame.env
  let stores := if stored then (name, i) :: frame.stores else frame.stores
  match rest with
  | .ok env => (true, { frame with env, stores })
  | .error ret => (false, { frame with ret, stores })

/-- The loop for some elements, from an index on. -/
def elements (name : String) (type : Element) : ℕ → ℕ → Code β
  | 0, _ => fun frame => (true, frame)
  | n + 1, i => (element ops kernel name type i).andThen (elements name type n (i + 1))

/-- `ASTArrayType::EmitCProxyReadVar`. The length that is read replaces the caller's. -/
def emitCProxyReadVar (name : String) (type : Element) : Code β := fun frame =>
  match ops.readUint32 frame.env with
  | none => (false, { frame with ret := hdfErrInvalidParam })
  | some (n, env) => elements ops kernel name type n.toNat 0
      { frame with env, announced := (name, n) :: frame.announced }

/-! ### Proxies -/

/-- What a parameter that is no array takes from the reply. -/
def readSingle (param : ASTParameter) (type : Element) (env : β) : Option β :=
  match type with
  | .string => (ops.readString env).bind fun (length, env) =>
      if ops.strcpy (len param.name) length then some env else none
  | .struct name => (ops.unmarshal name env).2
  | .union name => ops.readUnion name env
  | .fileDescriptor =>
    let (fd, env) := ops.readFileDescriptor env
    if fd < 0 then none else some env
  | .scalar scalar => ops.readScalar scalar env
  | .unsupported => some env

/-- `CClientProxyCodeEmitter::EmitReadProxyMethodParameter`. -/
def emitReadProxyMethodParameter (param : ASTParameter) : Code β :=
  match param.type with
  | .array type => emitCProxyReadVar ops kernel param.name type
  | .single type => attempt hdfErrInvalidParam (readSingle ops len param type)

/-- `ASTParameter::EmitCWriteVar` and `ASTParameter::EmitCProxyWriteOutVar`. -/
def emitWrite (param : ASTParameter) : Code β :=
  match param.attr, param.type with
  | .paramIn, _ => attempt hdfErrInvalidParam (ops.writeIn param)
  | .paramOut, .array _ | .paramOut, .single .string =>
    attempt hdfErrInvalidParam (ops.writeUint32 (len param.name))
  | .paramOut, .single _ => fun frame => (true, frame)

/-- `CClientProxyCodeEmitter::EmitStubCallMethod`. -/
def emitStubCallMethod : Code β := fun frame =>
  let (ret, env) := ops.call frame.env
  (decide (ret = hdfSuccess), { frame with ret, env })

/-- The out parameters, in their order. -/
def ASTMethod.outs (method : ASTMethod) : List ASTParameter :=
  method.parameters.filter fun param => param.attr = .paramOut

/-- `CClientProxyCodeEmitter::EmitProxyMethodBody`: the frame in which the proxy returns, or none if
the buffers cannot be obtained. The lengths are those that the caller has passed. -/
def emitProxyMethodBody (method : ASTMethod) (buffers : Option β) : Option (Frame β) :=
  buffers.map fun env =>
    ((((Code.each (emitWrite ops len) method.parameters).andThen (emitStubCallMethod ops)).andThen
      (if method.oneWay then fun frame => (true, frame)
      else Code.each (emitReadProxyMethodParameter ops kernel len) method.outs))
        { ret := hdfFailure, env, stores := [], announced := [] }).2

/-! ### What a reply may do -/

/-- The reply behind some elements, if they can be read. -/
def after (type : Element) : ℕ → β → Option β
  | 0, env => some env
  | n + 1, env =>
    match (readElement ops kernel type env).2 with
    | .ok env => after type n env
    | .error _ => none

/-- The reply has an element for an index that is stored. -/
def Holds (type : Element) (m : ℕ) (env : β) : Prop :=
  ∃ rest, after ops kernel type m env = some rest ∧ (readElement ops kernel type rest).1 = true

/-- Nothing is stored behind what the caller has room for, and announcing more is an error. -/
structure SafeReply (frame : Frame β) : Prop where
  inside : ∀ name i, (name, i) ∈ frame.stores → i < (len name).toNat
  reported : ∀ name n, (name, n) ∈ frame.announced → len name < n → frame.ret ≠ hdfSuccess

/-- The reply has no element for an index that the caller has no room for, up to the length that
it announces, and if this is too long, some later value cannot be read. -/
def Fits : List ASTParameter → Prop → β → Prop
  | [], owed, _ => ¬ owed
  | param :: rest, owed, env =>
    match param.type with
    | .array type => ∀ n behind, ops.readUint32 env = some (n, behind) →
        (∀ m, (len param.name).toNat ≤ m → m < n.toNat → ¬ Holds ops kernel type m behind) ∧
          ∀ last, after ops kernel type n.toNat behind = some last →
            Fits rest (owed ∨ len param.name < n) last
    | .single type => ∀ last, readSingle ops len param type env = some last → Fits rest owed last

/-- The call of a proxy has left a reply. -/
def Replied (method : ASTMethod) (env reply : β) : Prop :=
  (Code.each (emitWrite ops len) method.parameters).andThen (emitStubCallMethod ops)
      { ret := hdfFailure, env, stores := [], announced := [] } =
    (true, { ret := hdfSuccess, env := reply, stores := [], announced := [] })

end

section

variable {β : Type*} {ops : Surroundings β} {kernel : Bool} {len : String → UInt32}
  {frame result : Frame β} {name : String} {type : Element} {goes : Bool}

/-! ### The loop -/

theorem invalidParam_ne : hdfErrInvalidParam ≠ hdfSuccess := by decide

theorem mallocFail_ne : hdfErrMallocFail ≠ hdfSuccess := by decide

theorem ret_ne_of_error {env : β} {ret : Int32}
    (failed : (readElement ops kernel type env).2 = .error ret) : ret ≠ hdfSuccess := by
  cases type with
  | string =>
    rw [readElement] at failed
    split at failed
    · cases failed
      exact invalidParam_ne
    · split at failed
      · split at failed
        · cases failed
          exact mallocFail_ne
        · cases failed
      · cases failed
  | struct name =>
    rw [readElement] at failed
    dsimp only at failed
    cases rest : (ops.unmarshal name env).2 with
    | none =>
      rw [rest] at failed
      cases failed
      exact invalidParam_ne
    | some rest' =>
      rw [rest] at failed
      cases failed
  | union name =>
    rw [readElement] at failed
    split at failed
    · cases failed
      exact invalidParam_ne
    · cases failed
  | fileDescriptor =>
    rw [readElement] at failed
    dsimp only at failed
    split at failed
    · cases failed
      exact invalidParam_ne
    · cases failed
  | scalar scalar =>
    rw [readElement] at failed
    split at failed
    · cases failed
      exact invalidParam_ne
    · cases failed
  | unsupported => cases failed

theorem holds_zero {env : β} :
    Holds ops kernel type 0 env ↔ (readElement ops kernel type env).1 = true := by
  constructor
  · rintro ⟨rest, here, stored⟩
    cases here
    exact stored
  · intro stored
    exact ⟨env, rfl, stored⟩

theorem holds_succ_of_ok {env behind : β} {m : ℕ}
    (read : (readElement ops kernel type env).2 = .ok behind) :
    Holds ops kernel type (m + 1) env ↔ Holds ops kernel type m behind := by
  rw [Holds, after, read]
  rfl

theorem not_holds_succ_of_error {env : β} {m : ℕ} {ret : Int32}
    (failed : (readElement ops kernel type env).2 = .error ret) :
    ¬ Holds ops kernel type (m + 1) env := by
  rintro ⟨rest, reached, -⟩
  rw [after, failed] at reached
  cases reached

/-- The loop has stored what the reply has for the indices, and only fails with an error. -/
theorem elements_spec {n i : ℕ} (ran : elements ops kernel name type n i frame = (goes, result)) :
    (∀ x j, (x, j) ∈ result.stores ↔ (x, j) ∈ frame.stores ∨
      x = name ∧ ∃ m < n, j = i + m ∧ Holds ops kernel type m frame.env) ∧
    result.announced = frame.announced ∧
    (goes = true → result.ret = frame.ret ∧ after ops kernel type n frame.env = some result.env) ∧
    (goes = false → result.ret ≠ hdfSuccess ∧ after ops kernel type n frame.env = none) := by
  induction n generalizing i frame with
  | zero =>
    cases ran
    refine ⟨fun x j => ?_, rfl, fun _ => ⟨rfl, rfl⟩, fun stopped => by cases stopped⟩
    simp
  | succ n ih =>
    rw [elements, Code.andThen, element] at ran
    dsimp only at ran
    have first : ∀ x j, (x, j) ∈ (if (readElement ops kernel type frame.env).1 then
        (name, i) :: frame.stores else frame.stores) ↔ (x, j) ∈ frame.stores ∨
          x = name ∧ j = i ∧ Holds ops kernel type 0 frame.env := by
      intro x j
      rw [holds_zero]
      split
      · rename_i stored
        simp [stored, or_comm]
      · rename_i unstored
        simp [unstored]
    cases read : (readElement ops kernel type frame.env).2 with
    | ok behind =>
      rw [read] at ran
      obtain ⟨stores, announced, completes, fails⟩ := ih ran
      rw [after, read]
      refine ⟨fun x j => ?_, announced, completes, fails⟩
      rw [stores, first, or_assoc]
      refine or_congr_right ?_
      constructor
      · rintro (⟨same, rfl, stored⟩ | ⟨same, m, below, rfl, stored⟩)
        · exact ⟨same, 0, Nat.succ_pos n, rfl, stored⟩
        · exact ⟨same, m + 1, Nat.succ_lt_succ below, by omega,
            (holds_succ_of_ok read).mpr stored⟩
      · rintro ⟨same, _ | m, below, rfl, stored⟩
        · exact .inl ⟨same, rfl, stored⟩
        · exact .inr ⟨same, m, Nat.lt_of_succ_lt_succ below, by omega,
            (holds_succ_of_ok read).mp stored⟩
    | error ret =>
      rw [read] at ran
      cases ran
      rw [after, read]
      refine ⟨fun x j => ?_, rfl, (fun completes => by cases completes),
        fun _ => ⟨ret_ne_of_error read, rfl⟩⟩
      rw [first]
      refine or_congr_right ⟨?_, ?_⟩
      · rintro ⟨same, rfl, stored⟩
        exact ⟨same, 0, Nat.succ_pos n, rfl, stored⟩
      · rintro ⟨same, _ | m, below, rfl, stored⟩
        · exact ⟨same, rfl, stored⟩
        · exact absurd stored (not_holds_succ_of_error read)

/-! ### Out parameters -/

/-- What the proxy has stored so far is inside. -/
def Inside (len : String → UInt32) (frame : Frame β) : Prop :=
  ∀ name i, (name, i) ∈ frame.stores → i < (len name).toNat

/-- The reply has announced more than the caller has room for. -/
def Owes (len : String → UInt32) (frame : Frame β) : Prop :=
  ∃ name n, (name, n) ∈ frame.announced ∧ len name < n

theorem safeReply_iff_inside :
    SafeReply len frame ↔ Inside len frame ∧ (Owes len frame → frame.ret ≠ hdfSuccess) := by
  constructor
  · rintro ⟨inside, reported⟩
    exact ⟨inside, fun ⟨name, n, listed, more⟩ => reported name n listed more⟩
  · rintro ⟨inside, reported⟩
    exact ⟨inside, fun name n listed more => reported ⟨name, n, listed, more⟩⟩

/-- An error is safe if what has been stored is inside. -/
theorem safeReply_iff_of_error (failed : frame.ret ≠ hdfSuccess) :
    SafeReply len frame ↔ Inside len frame := by
  rw [safeReply_iff_inside]
  exact and_iff_left fun _ => failed

/-- Out parameters are safe exactly when the reply fits. -/
theorem readOut_iff (params : List ASTParameter) (success : frame.ret = hdfSuccess) :
    SafeReply len (Code.each (emitReadProxyMethodParameter ops kernel len) params frame).2 ↔
      Inside len frame ∧ Fits ops kernel len params (Owes len frame) frame.env := by
  induction params generalizing frame with
  | nil =>
    rw [safeReply_iff_inside, Fits, Code.each]
    simp [success]
  | cons param rest ih =>
    rw [Code.each, Code.andThen, emitReadProxyMethodParameter, Fits]
    cases param.type with
    | single type =>
      dsimp only
      rw [attempt]
      cases read : readSingle ops len param type frame.env with
      | none =>
        dsimp only
        rw [safeReply_iff_of_error invalidParam_ne]
        exact (and_iff_left fun last none => by cases none).symm
      | some last =>
        dsimp only
        have later := @ih { frame with env := last } success
        rw [later]
        refine and_congr Iff.rfl ⟨fun fits last' same => ?_, fun fits => fits last rfl⟩
        cases same
        exact fits
    | array type =>
      dsimp only
      rw [emitCProxyReadVar]
      cases length : ops.readUint32 frame.env with
      | none =>
        dsimp only
        rw [safeReply_iff_of_error invalidParam_ne]
        exact (and_iff_left fun n behind none => by cases none).symm
      | some word =>
        obtain ⟨n, behind⟩ := word
        dsimp only
        generalize ran : elements ops kernel param.name type n.toNat 0 _ = outcome
        obtain ⟨goes, result⟩ := outcome
        obtain ⟨stores, announced, completes, fails⟩ := elements_spec ran
        have inside : Inside len result ↔ Inside len frame ∧
            ∀ m, (len param.name).toNat ≤ m → m < n.toNat → ¬ Holds ops kernel type m behind := by
          constructor
          · intro inside
            refine ⟨fun x j listed => inside x j ((stores x j).mpr (.inl listed)), ?_⟩
            intro m atLeast below stored
            have stays := inside param.name m
              ((stores _ _).mpr (.inr ⟨rfl, m, below, (Nat.zero_add m).symm, stored⟩))
            omega
          · rintro ⟨before, none⟩ x j listed
            rcases (stores x j).mp listed with old | ⟨rfl, m, below, rfl, stored⟩
            · exact before x j old
            · by_contra outside
              exact none m (by omega) below stored
        have owes : Owes len result ↔ Owes len frame ∨ len param.name < n := by
          rw [Owes, announced, Owes]
          simp only [List.mem_cons, Prod.mk.injEq]
          constructor
          · rintro ⟨x, k, ⟨rfl, rfl⟩ | old, more⟩
            · exact .inr more
            · exact .inl ⟨x, k, old, more⟩
          · rintro (⟨x, k, old, more⟩ | more)
            · exact ⟨x, k, .inr old, more⟩
            · exact ⟨param.name, n, .inl ⟨rfl, rfl⟩, more⟩
        cases goes with
        | true =>
          obtain ⟨same, reached⟩ := completes rfl
          dsimp only
          rw [ih (same.trans success), inside, propext owes, and_assoc]
          refine and_congr_right fun _ => ⟨fun fits n' behind' word => ?_, fun fits => ?_⟩
          · cases word
            refine ⟨fits.1, fun last there => ?_⟩
            cases reached.symm.trans there
            exact fits.2
          · obtain ⟨none, later⟩ := fits n behind rfl
            exact ⟨none, later _ reached⟩
        | false =>
          obtain ⟨failed, broken⟩ := fails rfl
          dsimp only
          rw [safeReply_iff_of_error failed, inside]
          refine and_congr_right fun _ => ⟨fun none n' behind' word => ?_, fun fits => ?_⟩
          · cases word
            refine ⟨none, fun last there => ?_⟩
            cases broken.symm.trans there
          · exact (fits n behind rfl).1

/-! ### Calls -/

/-- Statements that store no element and read no length. -/
def Quiet (code : Code β) : Prop :=
  ∀ frame, (code frame).2.stores = frame.stores ∧ (code frame).2.announced = frame.announced

theorem quiet_attempt (error : Int32) (run : β → Option β) : Quiet (attempt error run) := by
  intro frame
  rw [attempt]
  cases run frame.env <;> exact ⟨rfl, rfl⟩

theorem Quiet.andThen {first second : Code β} (quiet : Quiet first) (quiet' : Quiet second) :
    Quiet (first.andThen second) := by
  intro frame
  have before := quiet frame
  rw [Code.andThen]
  generalize first frame = outcome at before
  obtain ⟨_ | _, between⟩ := outcome
  · exact before
  · have later := quiet' between
    exact ⟨later.1.trans before.1, later.2.trans before.2⟩

theorem quiet_each {α : Type*} {emit : α → Code β} (quiet : ∀ a, Quiet (emit a)) (l : List α) :
    Quiet (Code.each emit l) := by
  induction l with
  | nil => exact fun _ => ⟨rfl, rfl⟩
  | cons a rest ih => exact (quiet a).andThen ih

theorem quiet_emitWrite (param : ASTParameter) : Quiet (emitWrite ops len param) := by
  rw [emitWrite]
  split
  · exact quiet_attempt _ _
  · exact quiet_attempt _ _
  · exact quiet_attempt _ _
  · exact fun _ => ⟨rfl, rfl⟩

theorem quiet_emitStubCallMethod : Quiet (emitStubCallMethod ops) := fun _ => ⟨rfl, rfl⟩

/-- The call of a proxy goes on with what it has got only if it has succeeded. -/
theorem ret_of_called {first : Code β}
    (called : first.andThen (emitStubCallMethod ops) frame = (true, result)) :
    result.ret = hdfSuccess := by
  rw [Code.andThen] at called
  generalize first frame = outcome at called
  obtain ⟨_ | _, between⟩ := outcome
  · cases called
  · have success := congrArg Prod.fst called
    obtain rfl : _ = result := congrArg Prod.snd called
    exact of_decide_eq_true success

theorem safeReply_of_nothing (stores : frame.stores = []) (announced : frame.announced = []) :
    SafeReply len frame := by
  refine ⟨fun name i listed => ?_, fun name n listed => ?_⟩
  · rw [stores] at listed
    cases listed
  · rw [announced] at listed
    cases listed

end

/-- A call of a proxy is safe exactly when its reply fits. -/
theorem safeReply_iff {β : Type*} (ops : Surroundings β) (kernel : Bool) (len : String → UInt32)
    (method : ASTMethod) (buffers : Option β) :
    (∀ frame, emitProxyMethodBody ops kernel len method buffers = some frame →
      SafeReply len frame) ↔
      ∀ env reply, buffers = some env → Replied ops len method env reply →
        method.oneWay = false → Fits ops kernel len method.outs False reply := by
  cases buffers with
  | none => exact iff_of_true (fun _ none => by cases none) (fun _ _ none => by cases none)
  | some env =>
    simp only [emitProxyMethodBody, Option.map_some, Option.some.injEq, forall_eq', Replied]
    have quiet := (quiet_each (@quiet_emitWrite β ops len) method.parameters).andThen
      (@quiet_emitStubCallMethod β ops)
        { ret := hdfFailure, env, stores := [], announced := [] }
    rw [Code.andThen]
    generalize called : Code.andThen _ (emitStubCallMethod ops) _ = outcome at quiet ⊢
    obtain ⟨_ | _, ret, reply, stores, announced⟩ := outcome
    · obtain ⟨rfl, rfl⟩ := quiet
      refine iff_of_true (safeReply_of_nothing rfl rfl) fun env' last same replied => ?_
      cases same
      cases called.symm.trans replied
    · obtain ⟨rfl, rfl⟩ := quiet
      obtain rfl : ret = hdfSuccess := ret_of_called called
      dsimp only
      cases oneWay : method.oneWay with
      | true =>
        exact iff_of_true (safeReply_of_nothing rfl rfl) fun _ _ _ _ false => by cases false
      | false =>
        rw [if_neg Bool.false_ne_true, readOut_iff method.outs rfl]
        have nothing : ¬ Owes len
            { ret := hdfSuccess, env := reply, stores := [], announced := [] } := by
          rintro ⟨name, n, listed, -⟩
          cases listed
        dsimp only
        rw [eq_false nothing]
        constructor
        · rintro ⟨-, fits⟩ env' last same replied -
          cases same
          cases called.symm.trans replied
          exact fits
        · intro fits
          refine ⟨fun name i listed => ?_, fits env reply rfl called rfl⟩
          cases listed

/-! ### A reply that is too long -/

/-- Replies that are lists of words, which scalars are read from. -/
def wordReplies : Surroundings (List UInt32) where
  writeIn _ env := some env
  writeUint32 _ env := some env
  call env := (hdfSuccess, env)
  readUint32 env := match env with
    | [] => none
    | word :: rest => some (word, rest)
  readString _ := none
  strcpy _ _ := false
  calloc env := some env
  unmarshal _ _ := (false, none)
  readUnion _ _ := none
  readFileDescriptor env := (-1, env)
  readScalar _ env := match env with
    | [] => none
    | _ :: rest => some rest

/-- A method with an array of integers as its out parameter. -/
def getValues : ASTMethod where
  parameters := [{ name := "values", attr := .paramOut, type := .array (.scalar .int) }]
  oneWay := false

/-- A reply of two elements is stored in room for one, and the call succeeds. -/
theorem overruns_caller : ¬ ∀ frame, emitProxyMethodBody wordReplies false (fun _ => 1) getValues
    (some [2, 10, 11]) = some frame → SafeReply (fun _ => 1) frame := by
  intro always
  have safe := always _ rfl
  exact absurd (safe.inside "values" 1 List.mem_cons_self) (by decide)

end Hdf.HdiGen.OutArrays
