import Mathlib.Logic.Function.Iterate
import ZcMesh.Edge.Control
import ZcMesh.Lib.Search
import ZcMesh.Wire.Codec

/-!
# The control plane

What a queue of datagrams on the control socket does to the router, and the two programs that send such datagrams:
`zcmesh_ctl` (`core-engine/src/ctl.cpp`) and `MeshControl` (`operator-node/.../wire/MeshControl.java`).

* A call of `poll_control` takes the front of the queue, each datagram with its `effect` (`pollControl_takes`); repeated
  calls take all of it (`polls_takes`).
* Where node ids are distinct, the skip mask of a route is then that of the last command for its node, and nothing else
  has changed (`effects_eq`).
* Both senders write the same eight bytes, and `MeshControl.decode` reads them back (`decode_encode`).
-/

namespace ZcMesh

/-! ## Sending -/

namespace Core

open LittleEndian

/-- The bytes of the packed message, on a little-endian host. -/
def CtrlMsg.bytes (msg : CtrlMsg) : List UInt8 :=
  le 2 msg.magic.toNat ++ le 1 msg.version.toNat ++ le 1 msg.opcode.toNat ++ le 2 msg.nodeId.toNat ++
    le 1 msg.mask.toNat ++ le 1 msg.reserved.toNat

/-- What `zcmesh_ctl` sends for the arguments of `--node-id` and `--skip`, and for `--clear`; nothing when there is
neither a mask nor `--clear`. -/
def ctlSends (nodeId mask : Int32) (clear : Bool) : Option (List UInt8) :=
  if !clear && mask < 0 then none
  else
    let msg : CtrlMsg :=
      { magic := ctrlMagic
        version := ctrlVersion
        opcode := if clear then ctrlOpClear else ctrlOpSetSkip
        nodeId := nodeId.toInt16.toUInt16
        mask := if clear then 0 else (mask &&& 0xFF).toInt8.toUInt8
        reserved := 0 }
    some msg.bytes

end Core

namespace Operator

/-- `MeshControl`. -/
structure MeshControl where
  magic : Int32
  version : Int32
  opcode : Int32
  nodeId : Int32
  mask : Int32
  deriving DecidableEq, Repr

namespace MeshControl

/-- `MeshControl.MAGIC`. -/
def MAGIC : Int32 := 0x434D
/-- `MeshControl.VERSION`. -/
def VERSION : Int32 := 1
/-- `MeshControl.SIZE`. -/
def SIZE : Nat := 8
/-- `MeshControl.OP_SET_SKIP`. -/
def OP_SET_SKIP : Int32 := 1
/-- `MeshControl.OP_CLEAR`. -/
def OP_CLEAR : Int32 := 2

/-- `new MeshControl(opcode, nodeId, mask)`. -/
def make (opcode nodeId mask : Int32) : MeshControl where
  magic := MAGIC
  version := VERSION
  opcode := opcode
  nodeId := nodeId &&& 0xFFFF
  mask := mask &&& 0xFF

/-- `setSkip`. -/
def setSkip (nodeId mask : Int32) : MeshControl := make OP_SET_SKIP nodeId mask

/-- `clear`. -/
def clear (nodeId : Int32) : MeshControl := make OP_CLEAR nodeId 0

/-- `encode`. -/
def encode (m : MeshControl) : List UInt8 :=
  List.replicate SIZE 0 |> putShort 0 m.magic.toInt16
    |> put 2 m.version.toInt8
    |> put 3 m.opcode.toInt8
    |> putShort 4 m.nodeId.toInt16
    |> put 6 m.mask.toInt8
    |> put 7 0

/-- `decode`; `raw` is `none` for `null`. -/
def decode (raw : Option (List UInt8)) : Except String MeshControl :=
  match raw with
  | none => .error s!"need {SIZE} bytes"
  | some b =>
    if b.length < SIZE then .error s!"need {SIZE} bytes"
    else
      let magic := shortToUnsignedInt (getShort b 0)
      let version := byteToUnsignedInt (get b 2)
      let opcode := byteToUnsignedInt (get b 3)
      let nodeId := shortToUnsignedInt (getShort b 4)
      let mask := byteToUnsignedInt (get b 6)
      if magic ≠ MAGIC ∨ version ≠ VERSION then .error "bad magic/version"
      else .ok (make opcode nodeId mask)

open LittleEndian

/-- The bytes `encode` writes, in order. -/
theorem encode_eq (m : MeshControl) : m.encode =
    le 2 m.magic.toInt16.toUInt16.toNat ++ le 1 m.version.toInt8.toUInt8.toNat ++ le 1 m.opcode.toInt8.toUInt8.toNat ++
      le 2 m.nodeId.toInt16.toUInt16.toNat ++ le 1 m.mask.toInt8.toUInt8.toNat ++ le 1 (0 : Int8).toUInt8.toNat := by
  rfl

theorem narrow_nodeId (x : Int32) : (x &&& 0xFFFF).toInt16 = x.toInt16 := by
  rw [Int32.toInt16_and, show (0xFFFF : Int32).toInt16 = -1 by decide, Int16.and_neg_one]

/-- `& 0xFFFF` is the widening of the low short. -/
theorem widen_nodeId (x : Int32) : shortToUnsignedInt x.toInt16 = x &&& 0xFFFF := by
  apply Int32.toBitVec.inj
  apply BitVec.eq_of_toNat_eq
  have hand : (x &&& 0xFFFF).toBitVec.toNat = x.toBitVec.toNat % 2 ^ 16 :=
    (BitVec.toNat_and _ _).trans (Nat.and_two_pow_sub_one_eq_mod x.toBitVec.toNat 16)
  have hlow : (shortToUnsignedInt x.toInt16).toBitVec = (x.toBitVec.signExtend 16).setWidth 32 := rfl
  rw [hand, hlow, BitVec.signExtend_eq_setWidth_of_le _ (by omega), BitVec.toNat_setWidth, BitVec.toNat_setWidth]
  omega

/-- `& 0xFF` is the widening of the low byte. -/
theorem widen_mask (x : Int32) : byteToUnsignedInt x.toInt8 = x &&& 0xFF := by
  apply Int32.toBitVec.inj
  apply BitVec.eq_of_toNat_eq
  have hand : (x &&& 0xFF).toBitVec.toNat = x.toBitVec.toNat % 2 ^ 8 :=
    (BitVec.toNat_and _ _).trans (Nat.and_two_pow_sub_one_eq_mod x.toBitVec.toNat 8)
  have hlow : (byteToUnsignedInt x.toInt8).toBitVec = (x.toBitVec.signExtend 8).setWidth 32 := rfl
  rw [hand, hlow, BitVec.signExtend_eq_setWidth_of_le _ (by omega), BitVec.toNat_setWidth, BitVec.toNat_setWidth]
  omega

/-- `encode` writes the packed message of C++. -/
theorem encode_make (opcode nodeId mask : Int32) : (make opcode nodeId mask).encode =
    { magic := Core.ctrlMagic, version := Core.ctrlVersion, opcode := opcode.toInt8.toUInt8,
      nodeId := nodeId.toInt16.toUInt16, mask := (mask &&& 0xFF).toInt8.toUInt8, reserved := 0
      : Core.CtrlMsg }.bytes := by
  have hmagic : MAGIC.toInt16.toUInt16 = Core.ctrlMagic := by decide
  have hversion : VERSION.toInt8.toUInt8 = Core.ctrlVersion := by decide
  rw [encode_eq, make, hmagic, hversion, narrow_nodeId]
  rfl

/-- What the reads of `decode` find in a packed message. -/
theorem reads_bytes (msg : Core.CtrlMsg) :
    getShort msg.bytes 0 = msg.magic.toInt16 ∧ get msg.bytes 2 = msg.version.toInt8 ∧
      get msg.bytes 3 = msg.opcode.toInt8 ∧ getShort msg.bytes 4 = msg.nodeId.toInt16 ∧
      get msg.bytes 6 = msg.mask.toInt8 :=
  ⟨congrArg UInt16.toInt16 (Core.ofNat16_ofLe _), congrArg UInt8.toInt8 (Core.ofNat8_ofLe _),
    congrArg UInt8.toInt8 (Core.ofNat8_ofLe _), congrArg UInt16.toInt16 (Core.ofNat16_ofLe _),
    congrArg UInt8.toInt8 (Core.ofNat8_ofLe _)⟩

theorem decode_bytes {msg : Core.CtrlMsg} (hm : msg.magic = Core.ctrlMagic) (hv : msg.version = Core.ctrlVersion) :
    decode (some msg.bytes) = .ok (make (byteToUnsignedInt msg.opcode.toInt8) (shortToUnsignedInt msg.nodeId.toInt16)
      (byteToUnsignedInt msg.mask.toInt8)) := by
  have hmagic : shortToUnsignedInt Core.ctrlMagic.toInt16 = MAGIC := by decide
  have hversion : byteToUnsignedInt Core.ctrlVersion.toInt8 = VERSION := by decide
  obtain ⟨h0, h2, h3, h4, h6⟩ := reads_bytes msg
  have hlen : ¬msg.bytes.length < SIZE := Nat.lt_irrefl 8
  simp only [decode, hlen, h0, h2, h3, h4, h6, hm, hv, hmagic, hversion, if_false, ne_eq, not_true, or_self]

/-- **`decode` inverts `encode`**, for the opcodes of the protocol. -/
theorem decode_encode (nodeId mask : Int32) {opcode : Int32} (h : opcode = OP_SET_SKIP ∨ opcode = OP_CLEAR) :
    decode (some (make opcode nodeId mask).encode) = .ok (make opcode nodeId mask) := by
  have hopcode : byteToUnsignedInt opcode.toInt8 = opcode := by
    rcases h with rfl | rfl <;> decide
  rw [encode_make, decode_bytes rfl rfl]
  simp only [Int8.toInt8_toUInt8, Int16.toInt16_toUInt16, hopcode, widen_nodeId, widen_mask, make, Int32.and_assoc,
    Int32.and_self]

end MeshControl

/-- **The two senders agree.** -/
theorem ctlSends_eq (nodeId mask : Int32) :
    (0 ≤ mask → Core.ctlSends nodeId mask false = some (MeshControl.setSkip nodeId mask).encode) ∧
      Core.ctlSends nodeId mask true = some (MeshControl.clear nodeId).encode := by
  have hset : MeshControl.OP_SET_SKIP.toInt8.toUInt8 = Core.ctrlOpSetSkip := by decide
  have hclear : MeshControl.OP_CLEAR.toInt8.toUInt8 = Core.ctrlOpClear := by decide
  constructor
  · intro hmask
    rw [MeshControl.setSkip, MeshControl.encode_make, hset]
    simp [Core.ctlSends, Int32.not_lt.mpr hmask]
  · rw [MeshControl.clear, MeshControl.encode_make, hclear]
    rfl

end Operator

/-! ## Receiving -/

namespace Core

open LittleEndian

/-- The command of a datagram: the node and the mask it sets. -/
def commandOf (datagram : List UInt8) : Option (UInt16 × UInt8) :=
  let msg := CtrlMsg.ofBytes datagram
  if datagram.length < ctrlSize ∨ msg.magic ≠ ctrlMagic ∨ msg.version ≠ ctrlVersion then none
  else if msg.opcode = ctrlOpSetSkip then some (msg.nodeId, msg.mask)
  else if msg.opcode = ctrlOpClear then some (msg.nodeId, 0)
  else none

/-- The mask that a datagram sets on the routes of a node. -/
def maskOf (nodeId : UInt16) (datagram : List UInt8) : Option UInt8 :=
  match commandOf datagram with
  | some (target, mask) => if target = nodeId then some mask else none
  | none => none

/-- The mask of the last command for a node. -/
def lastMask (nodeId : UInt16) (queue : List (List UInt8)) : Option UInt8 := (queue.filterMap (maskOf nodeId)).getLast?

/-- What a datagram does to the router. -/
def effect (router : MeshRouter) (datagram : List UInt8) : MeshRouter :=
  match commandOf datagram with
  | some (target, mask) => (router.setHopSkipMask target mask).2
  | none => router

/-- `poll_control`, `k` times. -/
def polls (k : Nat) (s : List (Option (List UInt8)) × MeshRouter) : List (Option (List UInt8)) × MeshRouter :=
  (fun s => pollControl s.1 s.2)^[k] s

/-- Only the first eight bytes count, and the buffer holds them. -/
theorem ofBytes_take (datagram : List UInt8) : CtrlMsg.ofBytes (datagram.take 64) = CtrlMsg.ofBytes datagram := by
  have hslice : ∀ off k, off + k ≤ 64 → slice (datagram.take 64) off k = slice datagram off k := by
    intro off k h
    rw [slice, slice, List.drop_take, List.take_take, Nat.min_eq_left (by omega)]
  simp [CtrlMsg.ofBytes, hslice]

/-- A datagram that is read has its effect. -/
theorem apply_eq (router : MeshRouter) {datagram : List UInt8} (h : ¬datagram.length < ctrlSize) :
    (CtrlMsg.ofBytes (datagram.take 64)).apply router = effect router datagram := by
  rw [ofBytes_take]
  simp only [CtrlMsg.apply, effect, commandOf, h, false_or]
  generalize CtrlMsg.ofBytes datagram = msg
  by_cases hbad : msg.magic ≠ ctrlMagic ∨ msg.version ≠ ctrlVersion
  · rw [if_pos hbad, if_pos hbad]
  · rw [if_neg hbad, if_neg hbad]
    by_cases hset : msg.opcode = ctrlOpSetSkip
    · rw [if_pos hset, if_pos hset]
    · rw [if_neg hset, if_neg hset]
      by_cases hclear : msg.opcode = ctrlOpClear
      · rw [if_pos hclear, if_pos hclear]
      · rw [if_neg hclear, if_neg hclear]

theorem effect_short (router : MeshRouter) {datagram : List UInt8} (h : datagram.length < ctrlSize) :
    effect router datagram = router := by
  simp [effect, commandOf, h]

/-- `poll_control` reads on behind a datagram that is not empty. -/
theorem pollControl_cons (router : MeshRouter) {datagram : List UInt8} (hne : datagram ≠ [])
    (ctrl : List (Option (List UInt8))) :
    pollControl (some datagram :: ctrl) router = pollControl ctrl (effect router datagram) := by
  have hpos := List.length_pos_iff.mpr hne
  have hlength : (datagram.take 64).length = min 64 datagram.length := List.length_take
  have hread : ((datagram.take 64).length == 0) = false := by
    rw [hlength, beq_eq_false_iff_ne]
    omega
  have hless : (datagram.take 64).length < ctrlSize ↔ datagram.length < ctrlSize := by
    rw [hlength, ctrlSize]
    omega
  simp only [pollControl, hread, Bool.false_eq_true, if_false, hless]
  by_cases hshort : datagram.length < ctrlSize
  · rw [if_pos hshort, effect_short router hshort]
  · rw [if_neg hshort, apply_eq router hshort]

/-- **A call takes the front of the queue**, each datagram with its effect, and at least one if there is one. -/
theorem pollControl_takes (queue : List (List UInt8)) (router : MeshRouter) :
    ∃ taken rest, queue = taken ++ rest ∧
      pollControl (queue.map some) router = (rest.map some, taken.foldl effect router) ∧
        rest.length ≤ queue.length - 1 := by
  induction queue generalizing router with
  | nil => exact ⟨[], [], rfl, rfl, Nat.le_refl 0⟩
  | cons datagram queue ih =>
    by_cases hempty : datagram = []
    · subst hempty
      exact ⟨[[]], queue, rfl, rfl, Nat.le_refl _⟩
    · obtain ⟨taken, rest, hsplit, hpoll, hless⟩ := ih (effect router datagram)
      refine ⟨datagram :: taken, rest, by rw [hsplit, List.cons_append], ?_, ?_⟩
      · rw [List.map_cons, pollControl_cons router hempty, hpoll, List.foldl_cons]
      · rw [List.length_cons]
        omega

/-- **So do repeated calls**; as many as there are datagrams are enough. -/
theorem polls_takes (k : Nat) (queue : List (List UInt8)) (router : MeshRouter) :
    ∃ taken rest, queue = taken ++ rest ∧
      polls k (queue.map some, router) = (rest.map some, taken.foldl effect router) ∧
        rest.length ≤ queue.length - k := by
  induction k generalizing queue router with
  | zero => exact ⟨[], queue, rfl, rfl, Nat.le_refl _⟩
  | succ k ih =>
    obtain ⟨taken, rest, hsplit, hpoll, hless⟩ := pollControl_takes queue router
    obtain ⟨taken', rest', hsplit', hpolls, hless'⟩ := ih rest (taken.foldl effect router)
    refine ⟨taken ++ taken', rest', by rw [hsplit, hsplit', List.append_assoc], ?_, by omega⟩
    rw [polls, Function.iterate_succ_apply, hpoll, List.foldl_append]
    exact hpolls

/-! ## The masks -/

/-- The router with other masks. -/
def MeshRouter.withMasks (r : MeshRouter) (mask : RouteEntry → UInt8) : MeshRouter :=
  { r with routes := r.routes.map fun route => { route with hopSkipMask := mask route } }

/-- A datagram sets the mask on the routes of its node. -/
theorem effect_eq {r : MeshRouter} (h : (r.routes.map (·.nodeId)).Nodup) (datagram : List UInt8) :
    effect r datagram = r.withMasks fun route => (maskOf route.nodeId datagram).getD route.hopSkipMask := by
  cases hcommand : commandOf datagram with
  | none => simp [effect, maskOf, MeshRouter.withMasks, hcommand]
  | some command =>
    obtain ⟨target, mask⟩ := command
    have hmodify := IndexSearch.modify_findIdx? (·.nodeId) target
      (fun route : RouteEntry => { route with hopSkipMask := mask }) h
    have hset : (r.setHopSkipMask target mask).2 = { r with
        routes := r.routes.map fun route =>
          if route.nodeId = target then { route with hopSkipMask := mask } else route } := by
      rw [← hmodify, MeshRouter.setHopSkipMask, MeshRouter.find]
      cases r.routes.findIdx? (·.nodeId == target) <;> rfl
    simp only [effect, hcommand, hset, MeshRouter.withMasks, maskOf]
    congr 1
    apply List.map_congr_left
    intro route _
    by_cases hnode : route.nodeId = target
    · simp [hnode]
    · simp [hnode, Ne.symm hnode]

theorem withMasks_nodeIds (r : MeshRouter) (mask : RouteEntry → UInt8) :
    (r.withMasks mask).routes.map (·.nodeId) = r.routes.map (·.nodeId) := by
  simp [MeshRouter.withMasks, Function.comp_def]

theorem lastMask_snoc (nodeId : UInt16) (queue : List (List UInt8)) (datagram : List UInt8) :
    lastMask nodeId (queue ++ [datagram]) = (maskOf nodeId datagram).or (lastMask nodeId queue) := by
  cases h : maskOf nodeId datagram <;> simp [lastMask, List.filterMap_append, h]

/-- **Behind a queue every mask is that of the last command for its node.** -/
theorem effects_eq {r : MeshRouter} (h : (r.routes.map (·.nodeId)).Nodup) (queue : List (List UInt8)) :
    queue.foldl effect r = r.withMasks fun route => (lastMask route.nodeId queue).getD route.hopSkipMask := by
  induction queue using List.reverseRecOn with
  | nil => simp [MeshRouter.withMasks, lastMask]
  | append_singleton queue datagram ih =>
    rw [List.foldl_append, ih, List.foldl_cons, List.foldl_nil, effect_eq (by rwa [withMasks_nodeIds])]
    simp only [MeshRouter.withMasks, List.map_map, lastMask_snoc]
    congr 1
    apply List.map_congr_left
    intro route _
    simp

end Core

/-- **The control plane.** Repeated calls of `poll_control` drain a queue of datagrams. Where node ids are distinct, the
mask of each route is then the one that the last command for its node sets, and nothing else has changed. `MeshControl`
writes what `zcmesh_ctl` sends, for a mask that it takes, and reads it back. -/
theorem control_plane {r : Core.MeshRouter} (hdistinct : (r.routes.map (·.nodeId)).Nodup)
    (queue : List (List UInt8)) :
    (∀ k, queue.length ≤ k → (Core.polls k (queue.map some, r)).1 = []) ∧
      (∀ k, (Core.polls k (queue.map some, r)).1 = [] →
        (Core.polls k (queue.map some, r)).2 =
          { r with
            routes := r.routes.map fun route =>
              { route with hopSkipMask := (Core.lastMask route.nodeId queue).getD route.hopSkipMask } }) ∧
      ∀ nodeId mask : Int32,
        (0 ≤ mask → Core.ctlSends nodeId mask false = some (Operator.MeshControl.setSkip nodeId mask).encode) ∧
        Core.ctlSends nodeId mask true = some (Operator.MeshControl.clear nodeId).encode ∧
        Operator.MeshControl.decode (some (Operator.MeshControl.setSkip nodeId mask).encode) =
          .ok (.setSkip nodeId mask) ∧
        Operator.MeshControl.decode (some (Operator.MeshControl.clear nodeId).encode) = .ok (.clear nodeId) := by
  refine ⟨?_, ?_, ?_⟩
  · intro k hk
    obtain ⟨taken, rest, -, hpolls, hless⟩ := Core.polls_takes k queue r
    have hrest : rest = [] := List.eq_nil_of_length_eq_zero (by omega)
    rw [hpolls, hrest]
    rfl
  · intro k hdrained
    obtain ⟨taken, rest, hsplit, hpolls, -⟩ := Core.polls_takes k queue r
    rw [hpolls] at hdrained ⊢
    rw [List.map_eq_nil_iff.mp hdrained, List.append_nil] at hsplit
    rw [← hsplit]
    exact Core.effects_eq hdistinct queue
  · intro nodeId mask
    obtain ⟨hset, hclear⟩ := Operator.ctlSends_eq nodeId mask
    exact ⟨hset, hclear, Operator.MeshControl.decode_encode nodeId mask (.inl rfl),
      Operator.MeshControl.decode_encode nodeId 0 (.inr rfl)⟩

/-- A queue with an empty datagram between a command and its repeal. -/
theorem control_plane_repealed :
    let r := ((Core.MeshRouter.make 2).addRoute 1 (some [default]) 1).2
    let queue := [(Operator.MeshControl.setSkip 1 5).encode, [], (Operator.MeshControl.clear 1).encode]
    (Core.polls 3 (queue.map some, r)).2.routes.map (·.hopSkipMask) = [0] := by
  intro r queue
  have hdistinct : (r.routes.map (·.nodeId)).Nodup := List.nodup_singleton _
  obtain ⟨hdrains, hmasks, -⟩ := control_plane hdistinct queue
  rw [hmasks 3 (hdrains 3 (Nat.le_refl 3))]
  decide

/-- A mask below zero is a usage error of `zcmesh_ctl`; `MeshControl` writes its low byte. -/
theorem control_plane_negative :
    Core.ctlSends 1 (-1) false = none ∧
      (Operator.MeshControl.setSkip 1 (-1)).encode = [0x4D, 0x43, 1, 1, 1, 0, 0xFF, 0] ∧
      ¬∀ nodeId mask : Int32,
        Core.ctlSends nodeId mask false = some (Operator.MeshControl.setSkip nodeId mask).encode := by
  have hnone : Core.ctlSends 1 (-1) false = none := by decide
  refine ⟨hnone, by decide, fun hall => ?_⟩
  have hsome := hall 1 (-1)
  rw [hnone] at hsome
  cases hsome

end ZcMesh
