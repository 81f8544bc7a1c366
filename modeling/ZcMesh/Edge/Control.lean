import ZcMesh.Edge.Router
import ZcMesh.Lib.LittleEndian

/-!
# Mesh control

`shared/mesh_control.h`, and `poll_control` of `core-engine/src/main.cpp`: the datagrams that wait on the control
socket set and clear the hop skip masks. They keep the router well formed (`wf_pollControl`).
-/

namespace ZcMesh.Core

open LittleEndian

/-- `ZCMESH_CTRL_MAGIC`. -/
def ctrlMagic : UInt16 := 0x434D
/-- `ZCMESH_CTRL_VERSION`. -/
def ctrlVersion : UInt8 := 1
/-- `ZCMESH_CTRL_SIZE`. -/
def ctrlSize : Nat := 8
/-- `ZCMESH_CTRL_OP_SET_SKIP`. -/
def ctrlOpSetSkip : UInt8 := 1
/-- `ZCMESH_CTRL_OP_CLEAR`. -/
def ctrlOpClear : UInt8 := 2

/-- `zcmesh_ctrl_msg`. -/
structure CtrlMsg where
  magic : UInt16
  version : UInt8
  opcode : UInt8
  nodeId : UInt16
  mask : UInt8
  reserved : UInt8
  deriving DecidableEq, Repr

/-- The message that `memcpy` of 8 bytes gives. -/
def CtrlMsg.ofBytes (bs : List UInt8) : CtrlMsg where
  magic := UInt16.ofNat (ofLe (slice bs 0 2))
  version := UInt8.ofNat (ofLe (slice bs 2 1))
  opcode := UInt8.ofNat (ofLe (slice bs 3 1))
  nodeId := UInt16.ofNat (ofLe (slice bs 4 2))
  mask := UInt8.ofNat (ofLe (slice bs 6 1))
  reserved := UInt8.ofNat (ofLe (slice bs 7 1))

/-- What `poll_control` does with a message. -/
def CtrlMsg.apply (msg : CtrlMsg) (router : MeshRouter) : MeshRouter :=
  if msg.magic ≠ ctrlMagic ∨ msg.version ≠ ctrlVersion then router
  else if msg.opcode = ctrlOpSetSkip then (router.setHopSkipMask msg.nodeId msg.mask).2
  else if msg.opcode = ctrlOpClear then (router.setHopSkipMask msg.nodeId 0).2
  else router

/-- `poll_control`, with what waits on the socket: datagrams, and errors of `recv_nb`. It stops when nothing waits, and
at an error or an empty datagram. -/
def pollControl : List (Option (List UInt8)) → MeshRouter → List (Option (List UInt8)) × MeshRouter
  | [], router => ([], router)
  | none :: ctrl, router => (ctrl, router)
  | some datagram :: ctrl, router =>
    let buf := datagram.take 64
    if buf.length == 0 then (ctrl, router)
    else if buf.length < ctrlSize then pollControl ctrl router
    else pollControl ctrl ((CtrlMsg.ofBytes buf).apply router)

theorem CtrlMsg.wf_apply (msg : CtrlMsg) {router : MeshRouter} (h : router.Wf) : (msg.apply router).Wf := by
  unfold CtrlMsg.apply
  split
  · exact h
  · split
    · exact h.setHopSkipMask _ _
    · split
      · exact h.setHopSkipMask _ _
      · exact h

theorem wf_pollControl (ctrl : List (Option (List UInt8))) {router : MeshRouter} (h : router.Wf) :
    (pollControl ctrl router).2.Wf := by
  induction ctrl generalizing router with
  | nil => exact h
  | cons received ctrl ih =>
    cases received with
    | none => exact h
    | some datagram =>
      simp only [pollControl]
      split
      · exact h
      · split
        · exact ih h
        · exact ih (CtrlMsg.wf_apply _ h)

end ZcMesh.Core
