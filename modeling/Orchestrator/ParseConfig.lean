import Orchestrator.Orchdata

/-!
The configuration parser of `parse_config.c` over json-c values. The settings
section only fills `prgset_t` and is not part of it.
-/

namespace Orchestrator.ParseConfig
open Orchdata

/-- `struct json_object *`; json-c keeps a JSON `null` as the `NULL` pointer. -/
inductive Json where
  | null
  | bool (value : Bool)
  | int (value : Int)
  | double (value : ℚ)
  | string (text : List Char)
  | array (elems : List Json)
  | object (fields : List (String × Json))

namespace Json

def isNull : Json → Bool
  | null => true
  | _ => false

/-- `json_object_object_get_ex`: `NULL` if there is no such key or no object. -/
def field (json : Json) (key : String) : Json :=
  match json with
  | object fields => (fields.lookup key).getD null
  | _ => null

/-- The elements a `while ((obj = json_object_array_get_idx(list, idx)))` visits. -/
def upToNull (elems : List Json) : List Json := elems.takeWhile fun elem => !elem.isNull

/-- The array calls of json-c assert the type of their argument. -/
def arrayElems : Json → Except Stop (List Json)
  | array elems => .ok (upToNull elems)
  | _ => .error .abort

def arrayLength : Json → Except Stop Nat
  | array elems => .ok elems.length
  | _ => .error .abort

end Json

section Values
variable (obj : Json) (key : String)

def getInObject (nullable : Bool) : Except Stop Json :=
  if !nullable && (obj.field key).isNull then .error .exit else .ok (obj.field key)

/-- `json_object_get_int` saturates. -/
def getIntValueFrom (haveDef : Bool) (defValue : Int) : Except Stop Int := do
  match ← getInObject obj key haveDef with
  | .null => if haveDef then .ok defValue else .error .exit
  | .int value => .ok (max intMin (min value intMax))
  | _ => .error .exit

/-- The default is an `int` parameter; `json_object_get_int64` saturates. -/
def getInt64ValueFrom (haveDef : Bool) (defValue : Int) : Except Stop Int := do
  match ← getInObject obj key haveDef with
  | .null => if haveDef then .ok (toInt32 defValue) else .error .exit
  | .int value => .ok (max (-9223372036854775808) (min value 9223372036854775807))
  | _ => .error .exit

/-- The text to be duplicated, up to its first `NUL`. -/
def getStringValueFrom (haveDef : Bool) (defValue : Option (List Char)) :
    Except Stop (Option (List Char)) := do
  match ← getInObject obj key haveDef with
  | .null => if haveDef then .ok defValue else .error .exit
  | .string text => .ok (some (text.takeWhile fun char => char ≠ '\x00'))
  | _ => .error .exit

end Values

def stringToPolicy (policyName : List Char) : Option UInt32 :=
  if policyName = "SCHED_OTHER".toList ∨ policyName = "other".toList then some schedOther
  else if policyName = "SCHED_IDLE".toList ∨ policyName = "idle".toList then some schedIdle
  else if policyName = "SCHED_BATCH".toList ∨ policyName = "batch".toList then some schedBatch
  else if policyName = "SCHED_RR".toList ∨ policyName = "rr".toList then some schedRr
  else if policyName = "SCHED_FIFO".toList ∨ policyName = "fifo".toList then some schedFifo
  else if policyName = "SCHED_DEADLINE".toList ∨ policyName = "deadline".toList then
    some schedDeadline
  else if policyName = "default".toList then some schedNodata
  else none

def parseResourceData (obj : Json) (conts : Containers) : Except Stop (Containers × Nat) := do
  let affinity ← getIntValueFrom obj "affinity" true intMin
  let rtTimew ← getIntValueFrom obj "rt-soft" true (-1)
  let rtTime ← getIntValueFrom obj "rt-hard" true (-1)
  let memDataw ← getIntValueFrom obj "data-soft" true (-1)
  let memData ← getIntValueFrom obj "data-hard" true (-1)
  .ok (conts.newRscs { affinity, affinityMask := none, rtTimew, rtTime, memDataw, memData })

def parseSchedulingData (obj : Json) (conts : Containers) : Except Stop (Containers × Nat) := do
  match ← getStringValueFrom obj "policy" true (some "default".toList) with
  | none => .error .segv
  | some policy =>
      match stringToPolicy policy with
      | none => .error .exit
      | some schedPolicy => do
          let flags ← getIntValueFrom obj "flags" true 0
          let nice ← getIntValueFrom obj "nice" true 0
          let prio ← getIntValueFrom obj "prio" true 0
          let runtime ← getInt64ValueFrom obj "runtime" true 0
          let deadline ← getInt64ValueFrom obj "deadline" true (toUInt64 runtime).toNat
          let period ← getInt64ValueFrom obj "period" true (toUInt64 deadline).toNat
          .ok (conts.newAttr
            { schedPolicy
              schedFlags := toUInt64 flags
              schedNice := nice
              schedPriority := toUInt32 prio
              schedRuntime := toUInt64 runtime
              schedDeadline := toUInt64 deadline
              schedPeriod := toUInt64 period })

/-- `"params"`, or the attributes of the level above; the flag is `MSK_STATSHAT`. -/
def parseParams (obj : Json) (inherited : Nat) (conts : Containers) :
    Except Stop (Containers × Nat × Bool) := do
  let attr ← getInObject obj "params" true
  if attr.isNull then .ok (conts, inherited, true)
  else do
    let data ← parseSchedulingData attr conts
    .ok (data.1, data.2, false)

/-- `"res"`, or the resources of the level above; the flag is `MSK_STATSHRC`. -/
def parseRes (obj : Json) (inherited : Nat) (conts : Containers) :
    Except Stop (Containers × Nat × Bool) := do
  let rscs ← getInObject obj "res" true
  if rscs.isNull then .ok (conts, inherited, true)
  else do
    let data ← parseResourceData rscs conts
    .ok (data.1, data.2, false)

def dupOption (conts : Containers) : Option (List Char) → Containers × Option Str
  | none => (conts, none)
  | some text => ((conts.strdup text).1, some (conts.strdup text).2)

def parsePidData (obj : Json) (data : Nat) (cont : Option ContPtr) (img : Option Nat)
    (conts : Containers) : Except Stop Containers := do
  -- an image takes the place of a missing container
  let cont := cont.or (img.map ContPtr.img)
  let cmd ← getStringValueFrom obj "cmd" false none
  let named := dupOption conts cmd
  let owner := match cont, img with
    | some ptr, _ => contParm named.1 ptr
    | none, some i => (named.1.imgAt i).toParm
    | none, none => { attr := named.1.attr, rscs := named.1.rscs }
  let attr ← parseParams obj owner.attr named.1
  let rscs ← parseRes obj owner.rscs attr.1
  .ok (rscs.1.setPidc data
    { status.shat := attr.2.2
      status.shrc := rscs.2.2
      psig := named.2
      attr := attr.2.1
      rscs := rscs.2.1
      cont := cont
      img := img })

/-- `push((void**)&data->pids, sizeof(pids_t))` on the owner, if there is one. -/
def pushPids (conts : Containers) (owner : Option ContPtr) (p : Nat) : Containers :=
  match owner with
  | some (.cont c) => conts.setCont c { conts.contAt c with pids := p :: (conts.contAt c).pids }
  | some (.img i) => conts.setImg i { conts.imgAt i with pids := p :: (conts.imgAt i).pids }
  | none => conts

def parsePidStep (owner cont : Option ContPtr) (img : Option Nat) (conts : Containers)
    (pidobj : Json) : Except Stop Containers :=
  parsePidData pidobj conts.brk cont img (pushPids conts.pushPidc owner conts.brk)

/-- The `"pids"` loop of a container, of an image and of the root. -/
def parsePids (obj : Json) (owner cont : Option ContPtr) (img : Option Nat) (conts : Containers) :
    Except Stop Containers := do
  let pidslist ← getInObject obj "pids" true
  if pidslist.isNull then .ok conts
  else do
    let elems ← pidslist.arrayElems
    elems.foldlM (parsePidStep owner cont img) conts

def parseContainerData (obj : Json) (data : Nat) (img : Option Nat) (conts : Containers) :
    Except Stop Containers := do
  let contid ← getStringValueFrom obj "contid" true (some "--".toList)
  let named := dupOption conts contid
  let owner := match img with
    | some i => (named.1.imgAt i).toParm
    | none => { attr := named.1.attr, rscs := named.1.rscs }
  let attr ← parseParams obj owner.attr named.1
  let rscs ← parseRes obj owner.rscs attr.1
  let filled := rscs.1.setCont data
    { status.shat := attr.2.2
      status.shrc := rscs.2.2
      contid := named.2
      attr := attr.2.1
      rscs := rscs.2.1 }
  let listed ← parsePids obj (some (.cont data)) (some (.cont data)) img filled
  .ok (listed.setCont data { listed.contAt data with img := img })

/-- The counting loops ahead of containers and images. -/
def countStep (conts : Containers) (elem : Json) : Except Stop Containers := do
  let pidobj ← getInObject elem "pids" true
  if pidobj.isNull then .ok { conts with numCont := conts.numCont + 1 }
  else do
    let length ← pidobj.arrayLength
    .ok { conts with
      nthreads := conts.nthreads + UInt32.ofNat length
      numCont := conts.numCont + 1 }

def parseContainerStep (img : Option Nat) (conts : Containers) (contobj : Json) :
    Except Stop Containers :=
  parseContainerData contobj conts.brk img conts.pushCont

def parseContainers (containers : Json) (img : Option Nat) (conts : Containers) :
    Except Stop Containers :=
  match containers with
  | .array elems => do
      let counted ← (Json.upToNull elems).foldlM countStep conts
      (Json.upToNull elems).foldlM (parseContainerStep img) counted
  | _ => .error .exit

def parseImageData (obj : Json) (data : Nat) (conts : Containers) : Except Stop Containers := do
  let imgid ← getStringValueFrom obj "imgid" true (some "--".toList)
  let named := dupOption conts imgid
  let attr ← parseParams obj named.1.attr named.1
  let rscs ← parseRes obj named.1.rscs attr.1
  let filled := rscs.1.setImg data
    { status.shat := attr.2.2
      status.shrc := rscs.2.2
      imgid := named.2
      attr := attr.2.1
      rscs := rscs.2.1 }
  let listed ← parsePids obj (some (.img data)) none (some data) filled
  let containers ← getInObject obj "cont" true
  if containers.isNull then .ok listed else parseContainers containers (some data) listed

def parseImageStep (conts : Containers) (imgobj : Json) : Except Stop Containers :=
  parseImageData imgobj conts.brk conts.pushImg

def parseImages (images : Json) (conts : Containers) : Except Stop Containers :=
  match images with
  | .array elems => do
      let counted ← (Json.upToNull elems).foldlM countStep conts
      (Json.upToNull elems).foldlM parseImageStep counted
  | _ => .error .exit

def parseConfig (root : Json) (conts : Containers) : Except Stop Containers :=
  if root.isNull then .error .exit
  else do
    let scheduling ← getInObject root "scheduling" true
    let attr ← parseSchedulingData scheduling conts
    let resources ← getInObject root "resources" true
    let rscs ← parseResourceData resources { attr.1 with attr := attr.2 }
    let global := { rscs.1 with rscs := rscs.2 }
    let images ← getInObject root "images" true
    let imaged ← (if images.isNull then .ok global else parseImages images global)
    let containers ← getInObject root "containers" true
    let contained ←
      (if containers.isNull then .ok imaged else parseContainers containers none imaged)
    parsePids root none none none contained

end Orchestrator.ParseConfig
