import Mathlib.Data.List.Basic
import Mathlib.Data.Option.Basic
import Mathlib.Logic.Function.Basic

/-!
# The version handshake of the generated C code

The parser of hdi-gen adds a method `GetVersion` with two out parameters to every interface. A
client that is generated calls it before it hands out a proxy, and compares the major version that
it gets with its own. The proxy of the method is one like those of all methods; its stub is emitted
by a function of its own.

A function that emits statements of a generated function is modelled by what the statements do.
Statements reach their end or go to the label `FINISHED`. The sbufs of type `SBUF_IPC` are those of
another component, and so is the transport: a dispatch that succeeds is a call of `OnRemoteRequest`
in the service. The recycling of sbufs and messages of the log are left out.

## Main results

* `connects_of_reports`: the handshake is right when the service reports its version
* `emitStubGetVerMethodImpl_fst`: a service never does
* `handshake_iff`: so a client connects to no service
-/

namespace Hdf.HdiGen

def hdfSuccess : Int32 := 0

def hdfFailure : Int32 := -1

def hdfErrInvalidParam : Int32 := -3

def hdfErrMallocFail : Int32 := -6

/-! ### Sbufs and statements -/

/-- The functions on sbufs that the generated code calls. They have no result when they fail. -/
structure SbufOps (β : Type*) where
  writeUint32 : β → UInt32 → Option β
  readUint32 : β → Option (UInt32 × β)

/-- The functions succeed, and words are read in the order in which they were written. -/
structure SbufOps.Works {β : Type*} (ops : SbufOps β) (words : β → List UInt32) : Prop where
  write : ∀ b w, ∃ b', ops.writeUint32 b w = some b' ∧ words b' = words b ++ [w]
  read : ∀ b w ws, words b = w :: ws → ∃ b', ops.readUint32 b = some (w, b') ∧ words b' = ws

/-- The variables of a generated function: the error code, the two sbufs, and the parameters by
name, an out parameter with what it points to. -/
structure Frame (β : Type*) where
  ret : Int32
  data : β
  reply : β
  params : String → UInt32

/-- Statements, which reach their end or go to the label. -/
abbrev Code (β : Type*) := Frame β → Bool × Frame β

/-- Statements behind others. -/
def Code.andThen {β : Type*} (first second : Code β) : Code β := fun frame =>
  match first frame with
  | (true, frame) => second frame
  | stopped => stopped

/-- Statements for each element of a list. -/
def Code.each {α β : Type*} (emit : α → Code β) : List α → Code β
  | [] => fun frame => (true, frame)
  | a :: rest => (emit a).andThen (Code.each emit rest)

/-! ### The interface -/

/-- `enum ParamAttr`. -/
inductive ParamAttr where
  | paramIn | paramOut
  deriving DecidableEq, Repr

/-- An `ASTParameter` of the type `unsigned int`, which is the one of the version method's. -/
structure ASTParameter where
  name : String
  attr : ParamAttr
  deriving DecidableEq, Repr

/-- An `ASTMethod`. -/
structure ASTMethod where
  name : String
  parameters : List ASTParameter
  oneWay : Bool := false
  deriving DecidableEq, Repr

/-- `Parser::SetVersionInterfaceMethod`. -/
def setVersionInterfaceMethod : ASTMethod where
  name := "GetVersion"
  parameters := [⟨"majorVer", .paramOut⟩, ⟨"minorVer", .paramOut⟩]

section

variable {β : Type*} (ops : SbufOps β)

/-- `ASTUintType::EmitCWriteVar` for the data of a request. -/
def emitCWriteData (param : ASTParameter) : Code β := fun frame =>
  match ops.writeUint32 frame.data (frame.params param.name) with
  | some data => (true, { frame with data := data })
  | none => (false, { frame with ret := hdfErrInvalidParam })

/-- `ASTUintType::EmitCWriteVar` for the reply. -/
def emitCWriteReply (word : UInt32) : Code β := fun frame =>
  match ops.writeUint32 frame.reply word with
  | some reply => (true, { frame with reply := reply })
  | none => (false, { frame with ret := hdfErrInvalidParam })

/-- `ASTUintType::EmitCProxyReadVar`. -/
def emitCProxyReadVar (param : ASTParameter) : Code β := fun frame =>
  match ops.readUint32 frame.reply with
  | some (word, reply) =>
    (true, { frame with reply := reply, params := Function.update frame.params param.name word })
  | none => (false, { frame with ret := hdfErrInvalidParam })

/-- A service's functions on requests: the code that is returned, and the reply. -/
abbrev Handler (β : Type*) := β → β → Int32 × β

/-- `CServiceStubCodeEmitter::EmitStubGetVerMethodImpl`, for a service of a version. -/
def emitStubGetVerMethodImpl (majorVer minorVer : UInt32) : Handler β := fun data reply =>
  let body := (emitCWriteReply ops majorVer).andThen (emitCWriteReply ops minorVer)
  let (_, frame) := body { ret := hdfFailure, data := data, reply := reply, params := fun _ => 0 }
  (frame.ret, frame.reply)

/-- `CServiceStubCodeEmitter::EmitStubOnRequestMethodImpl`. The commands are numbered in the order
of `CodeEmitter::EmitInterfaceMethodCommands`: the methods of the interface, then `GetVersion`. -/
def emitStubOnRequestMethodImpl (methods : List (Handler β)) (majorVer minorVer : UInt32)
    (code : ℕ) : Handler β := fun data reply =>
  match (methods ++ [emitStubGetVerMethodImpl ops majorVer minorVer])[code]? with
  | some method => method data reply
  | none => (hdfErrInvalidParam, reply)

/-- `CClientProxyCodeEmitter::EmitStubCallMethod`. -/
def emitStubCallMethod (dispatch : ℕ → Handler β) (cmdId : ℕ) : Code β := fun frame =>
  let (ret, reply) := dispatch cmdId frame.data frame.reply
  (decide (ret = hdfSuccess), { frame with ret := ret, reply := reply })

/-- `CClientProxyCodeEmitter::EmitProxyMethodBody`, with the sbufs that `EmitCreateBuf` obtains, the
number of the method's command and the values of its parameters. -/
def emitProxyMethodBody (dispatch : ℕ → Handler β) (method : ASTMethod) (cmdId : ℕ)
    (dataBuf replyBuf : Option β) (params : String → UInt32) : Int32 × (String → UInt32) :=
  match dataBuf, replyBuf with
  | some data, some reply =>
    let inParams := method.parameters.filter fun param => param.attr = .paramIn
    let outParams := method.parameters.filter fun param => param.attr = .paramOut
    let body := ((Code.each (emitCWriteData ops) inParams).andThen
      (emitStubCallMethod dispatch cmdId)).andThen
        (if method.oneWay then fun frame => (true, frame)
        else Code.each (emitCProxyReadVar ops) outParams)
    let (_, frame) := body { ret := hdfFailure, data := data, reply := reply, params := params }
    (frame.ret, frame.params)
  | _, _ => (hdfErrMallocFail, params)

/-- What a client gets from its surroundings: the service manager and the remote service are there,
the allocation of the proxy succeeds, and the two sbufs. -/
structure Outcomes (β : Type*) where
  serviceMgr : Bool := true
  remote : Bool := true
  proxy : Bool := true
  dataBuf : Option β
  replyBuf : Option β

/-- `CClientProxyCodeEmitter::EmitCbProxyGetMethodImpl`: whether a proxy is returned. The interface
has a number of methods besides `GetVersion`. -/
def emitCbProxyGetMethodImpl (majorVer : UInt32) (number : ℕ) (dispatch : ℕ → Handler β)
    (outcomes : Outcomes β) : Bool :=
  if !outcomes.remote then false
  else if !outcomes.proxy then false
  else
    let (ret, params) := emitProxyMethodBody ops dispatch setVersionInterfaceMethod number
      outcomes.dataBuf outcomes.replyBuf fun _ => 0
    if ret ≠ hdfSuccess then false
    else if params "majorVer" ≠ majorVer then false
    else true

/-- `CClientProxyCodeEmitter::EmitProxyGetInstanceMethodImpl`, which gets the remote service from
the manager. -/
def emitProxyGetInstanceMethodImpl (majorVer : UInt32) (number : ℕ) (dispatch : ℕ → Handler β)
    (outcomes : Outcomes β) : Bool :=
  if !outcomes.serviceMgr then false
  else emitCbProxyGetMethodImpl ops majorVer number dispatch outcomes

end

section

variable {β : Type*} {ops : SbufOps β} {words : β → List UInt32} {data reply : β}

/-! ### The client -/

/-- When the dispatch of `GetVersion` succeeds and its reply has two words, the proxy of the method
reads them. -/
theorem emitProxyMethodBody_of_dispatch (works : ops.Works words) {dispatch : ℕ → Handler β}
    {number : ℕ} {replied : β} {c d : UInt32} (params : String → UInt32)
    (success : dispatch number data reply = (hdfSuccess, replied))
    (version : words replied = [c, d]) :
    ∃ params', emitProxyMethodBody ops dispatch setVersionInterfaceMethod number (some data)
        (some reply) params = (hdfSuccess, params') ∧
      params' "majorVer" = c ∧ params' "minorVer" = d := by
  obtain ⟨rest, first, left⟩ := works.read replied c [d] version
  obtain ⟨last, second, -⟩ := works.read rest d [] left
  refine ⟨Function.update (Function.update params "majorVer" c) "minorVer" d, ?_, ?_, ?_⟩
  · simp [emitProxyMethodBody, setVersionInterfaceMethod, Code.andThen, Code.each,
      emitStubCallMethod, emitCProxyReadVar, success, first, second]
  · rw [Function.update_of_ne (by decide), Function.update_self]
  · rw [Function.update_self]

/-- A client connects exactly to services with its major version, when they report their version. -/
theorem connects_of_reports (works : ops.Works words) {dispatch : ℕ → Handler β} {number : ℕ}
    {replied : β} {a c d : UInt32} (success : dispatch number data reply = (hdfSuccess, replied))
    (version : words replied = [c, d]) :
    emitProxyGetInstanceMethodImpl ops a number dispatch
      { dataBuf := some data, replyBuf := some reply } = true ↔ a = c := by
  obtain ⟨params, read, major, -⟩ :=
    emitProxyMethodBody_of_dispatch works (fun _ => 0) success version
  simp [emitProxyGetInstanceMethodImpl, emitCbProxyGetMethodImpl, read, major, eq_comm]

/-- No proxy is returned when the dispatch of `GetVersion` fails. -/
theorem not_connects {dispatch : ℕ → Handler β} {number : ℕ} {a : UInt32} {outcomes : Outcomes β}
    (fails : ∀ data reply, (dispatch number data reply).1 ≠ hdfSuccess) :
    emitCbProxyGetMethodImpl ops a number dispatch outcomes = false := by
  have failed : (emitProxyMethodBody ops dispatch setVersionInterfaceMethod number
      outcomes.dataBuf outcomes.replyBuf fun _ => 0).1 ≠ hdfSuccess := by
    unfold emitProxyMethodBody
    split
    case h_1 data reply _ _ =>
      simp [setVersionInterfaceMethod, Code.andThen, Code.each, emitStubCallMethod,
        fails data reply]
    case h_2 => decide
  unfold emitCbProxyGetMethodImpl
  split
  · rfl
  split
  · rfl
  exact if_pos failed

/-! ### The service -/

/-- The error code of the stub is never set to success. -/
theorem emitStubGetVerMethodImpl_fst (majorVer minorVer : UInt32) (data reply : β) :
    (emitStubGetVerMethodImpl ops majorVer minorVer data reply).1 ≠ hdfSuccess := by
  have failure : hdfFailure ≠ hdfSuccess := by decide
  have invalid : hdfErrInvalidParam ≠ hdfSuccess := by decide
  simp only [emitStubGetVerMethodImpl, Code.andThen, emitCWriteReply]
  cases ops.writeUint32 reply majorVer with
  | none => exact invalid
  | some reply =>
    dsimp only
    cases ops.writeUint32 reply minorVer with
    | none => exact invalid
    | some reply => exact failure

/-- The words of the reply are right all the same. -/
theorem emitStubGetVerMethodImpl_reply (works : ops.Works words) (majorVer minorVer : UInt32) :
    words (emitStubGetVerMethodImpl ops majorVer minorVer data reply).2 =
      words reply ++ [majorVer, minorVer] := by
  obtain ⟨first, written, wrote⟩ := works.write reply majorVer
  obtain ⟨second, written', wrote'⟩ := works.write first minorVer
  simp [emitStubGetVerMethodImpl, Code.andThen, emitCWriteReply, written, written', wrote, wrote']

/-- `GetVersion` is the last command. -/
theorem emitStubOnRequestMethodImpl_length (methods : List (Handler β)) (c d : UInt32) :
    emitStubOnRequestMethodImpl ops methods c d methods.length =
      emitStubGetVerMethodImpl ops c d := by
  funext data reply
  simp [emitStubOnRequestMethodImpl]

end

/-- The stub of `GetVersion` returns success, with the version in the reply. -/
def Reports {β : Type*} (ops : SbufOps β) (words : β → List UInt32) (c d : UInt32)
    (data reply : β) : Prop :=
  ∃ replied, emitStubGetVerMethodImpl ops c d data reply = (hdfSuccess, replied) ∧
    words replied = words reply ++ [c, d]

/-- The proxy of `GetVersion` returns success and a version. -/
def ReadsBack {β : Type*} (ops : SbufOps β) (dispatch : ℕ → Handler β) (number : ℕ) (c d : UInt32)
    (data reply : β) : Prop :=
  ∃ params, emitProxyMethodBody ops dispatch setVersionInterfaceMethod number (some data)
      (some reply) (fun _ => 0) = (hdfSuccess, params) ∧
    params "majorVer" = c ∧ params "minorVer" = d

/-- A client connects to no service, so it is right to do so when the major versions differ; and
the version is neither reported nor read back. -/
theorem handshake_iff {β : Type*} (ops : SbufOps β) (words : β → List UInt32)
    (methods : List (Handler β)) (a c d : UInt32) (data reply : β) :
    ((emitProxyGetInstanceMethodImpl ops a methods.length
        (emitStubOnRequestMethodImpl ops methods c d)
        { dataBuf := some data, replyBuf := some reply } = true ↔ a = c) ↔ a ≠ c) ∧
      ((emitCbProxyGetMethodImpl ops a methods.length
        (emitStubOnRequestMethodImpl ops methods c d)
        { dataBuf := some data, replyBuf := some reply } = true ↔ a = c) ↔ a ≠ c) ∧
      ¬ Reports ops words c d data reply ∧
      ¬ ReadsBack ops (emitStubOnRequestMethodImpl ops methods c d) methods.length c d data
        reply := by
  have fails : ∀ data reply,
      (emitStubOnRequestMethodImpl ops methods c d methods.length data reply).1 ≠ hdfSuccess := by
    intro data reply
    rw [emitStubOnRequestMethodImpl_length]
    exact emitStubGetVerMethodImpl_fst c d data reply
  have unconnected : emitCbProxyGetMethodImpl ops a methods.length
      (emitStubOnRequestMethodImpl ops methods c d)
      { dataBuf := some data, replyBuf := some reply } = false :=
    not_connects fails
  refine ⟨?_, ?_, ?_, ?_⟩
  · rw [emitProxyGetInstanceMethodImpl, unconnected]
    simp
  · rw [unconnected]
    simp
  · rintro ⟨replied, success, -⟩
    exact emitStubGetVerMethodImpl_fst c d data reply (congrArg Prod.fst success)
  · rintro ⟨params, success, -⟩
    have failed := fails data reply
    simp [emitProxyMethodBody, setVersionInterfaceMethod, Code.andThen, Code.each,
      emitStubCallMethod, failed] at success

/-- Sbufs that are lists of words. -/
def listSbuf : SbufOps (List UInt32) where
  writeUint32 words word := some (words ++ [word])
  readUint32
    | [] => none
    | word :: words => some (word, words)

theorem listSbuf_works : listSbuf.Works id where
  write _ _ := ⟨_, rfl, rfl⟩
  read := by
    rintro _ w ws rfl
    exact ⟨ws, rfl, rfl⟩

/-- Client and service are generated from one interface of version 1.0. -/
theorem sameVersion_not_connects :
    listSbuf.Works id ∧
      ¬ (emitProxyGetInstanceMethodImpl listSbuf 1 0 (emitStubOnRequestMethodImpl listSbuf [] 1 0)
        { dataBuf := some [], replyBuf := some [] } = true ↔ (1 : UInt32) = 1) ∧
      ¬ Reports listSbuf id 1 0 [] [] := by
  refine ⟨listSbuf_works, by decide, ?_⟩
  rintro ⟨replied, success, -⟩
  exact emitStubGetVerMethodImpl_fst 1 0 [] [] (congrArg Prod.fst success)

end Hdf.HdiGen
