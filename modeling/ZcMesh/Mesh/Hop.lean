import ZcMesh.Edge.Net
import ZcMesh.Lib.Run
import ZcMesh.Wire.Codec

/-!
# Mesh hops and chains of them

`core-engine/src/hop.cpp`: `should_drop` and the main loop of `zcmesh_hop`, with `apply_hop_stamp` of `frame.cpp`.

* A stamp changes the hop index, one flag and the checksum (`Stamped.one`), and keeps a frame valid
  (`verifyFrame_applyHopStamp`); stamps add up (`Stamped.trans`).
* One hop passes a datagram on exactly when its frame verifies and is not selected for loss (`receive_spec`).
* A chain of hops stamps as often as it has hops, and its last hop alone decides about `LAST_HOP` (`relay_stamped`).
-/

namespace ZcMesh.Core

/-! ## The code -/

/-- `apply_hop_stamp`. -/
def applyHopStamp (frame : WireFrame) (finalHop : Bool) : WireFrame :=
  let frame := if frame.reserved < 255 then { frame with reserved := frame.reserved + 1 } else frame
  let frame :=
    if finalHop then { frame with flags := frame.flags ||| flagLastHop }
    else { frame with flags := frame.flags &&& ~~~flagLastHop }
  let frame := { frame with checksum := 0 }
  { frame with checksum := crc32 (frame.bytes.take crcPayloadLen) crcSeed }

/-- `should_drop`; `lossPct` is the `int` of the option. -/
def Hop.shouldDrop (seq : UInt32) (lossPct : Int) : Bool :=
  if lossPct ≤ 0 then false
  else if lossPct ≥ 100 then true
  else
    let h := seq * 2654435761
    decide ((((h >>> 24) % 100).toNat : Int) < lossPct)

/-- `zcmesh_hop`: its options, the forward socket and the counters. -/
structure Hop where
  forward : Endpoint
  lossPct : Int
  finalHop : Bool
  out : UdpSocket
  ok : UInt64 := 0
  drop : UInt64 := 0
  injected : UInt64 := 0
  deriving DecidableEq, Repr

namespace Hop

/-- `sizeof(buf)`. -/
def bufSize : Nat := 512

/-- One turn of the main loop. `recvfrom` fails (`none`), or gives a datagram, of which the buffer takes the front. -/
def receive (p : Hop) (datagram : Option (List UInt8)) : Hop :=
  match datagram.map (List.take bufSize) with
  | none => { p with drop := p.drop + 1 }
  | some buf =>
    if buf.length < wireFrameSize then { p with drop := p.drop + 1 }
    else
      let frame := WireFrame.ofBytes (buf.take wireFrameSize)
      if !verifyFrame frame then { p with drop := p.drop + 1 }
      else if shouldDrop frame.seq p.lossPct then { p with injected := p.injected + 1 }
      else
        let frame := applyHopStamp frame p.finalHop
        let (sent, out) := p.out.sendTo p.forward frame.bytes
        if sent then { p with out := out, ok := p.ok + 1 } else { p with out := out, drop := p.drop + 1 }

/-- The datagrams that left the hop between two of its states: those whose `send_to` succeeded. -/
def left (p p' : Hop) : List (List UInt8) :=
  ((p'.out.sent.drop p.out.sent.length).filter (·.ok)).map (·.data)

/-- A chain: what leaves a hop arrives, in order, at the next one. -/
def relay : List Hop → List (List UInt8) → List (List UInt8)
  | [], datagrams => datagrams
  | p :: hops, datagrams => relay hops (left p (Runs.run receive p (datagrams.map some)))

end Hop

/-! ## Stamps -/

/-- `g` is `f` after `k` hops, the last of them `final` or not. -/
structure Stamped (k : Nat) (final : Bool) (f g : WireFrame) : Prop where
  magic : g.magic = f.magic
  version : g.version = f.version
  seq : g.seq = f.seq
  timestampLo : g.timestampLo = f.timestampLo
  nodeId : g.nodeId = f.nodeId
  sensorType : g.sensorType = f.sensorType
  rawValue : g.rawValue = f.rawValue
  otherFlags : g.flags &&& ~~~flagLastHop = f.flags &&& ~~~flagLastHop
  lastHop : g.flags &&& flagLastHop ≠ 0 ↔ final = true
  reserved : g.reserved.toNat = min 255 (f.reserved.toNat + k)

/-- Setting or clearing a flag leaves the other flags alone. -/
theorem set_flag (x y : UInt8) : (x ||| y) &&& ~~~y = x &&& ~~~y := by
  apply UInt8.toBitVec_inj.mp
  apply BitVec.eq_of_getLsbD_eq
  intro i hi
  simp only [UInt8.toBitVec_and, UInt8.toBitVec_or, UInt8.toBitVec_not, BitVec.getLsbD_and, BitVec.getLsbD_or,
    BitVec.getLsbD_not, hi, decide_true, Bool.true_and]
  cases x.toBitVec.getLsbD i <;> cases y.toBitVec.getLsbD i <;> rfl

theorem test_flag (x y : UInt8) : (x ||| y) &&& y = y := by
  apply UInt8.toBitVec_inj.mp
  apply BitVec.eq_of_getLsbD_eq
  intro i _
  simp only [UInt8.toBitVec_and, UInt8.toBitVec_or, BitVec.getLsbD_and, BitVec.getLsbD_or]
  cases x.toBitVec.getLsbD i <;> cases y.toBitVec.getLsbD i <;> rfl

theorem clear_flag (x y : UInt8) : (x &&& ~~~y) &&& ~~~y = x &&& ~~~y := by
  rw [UInt8.and_assoc, UInt8.and_self]

theorem Stamped.one (f : WireFrame) (final : Bool) : Stamped 1 final f (applyHopStamp f final) := by
  have hreserved : (applyHopStamp f final).reserved = if f.reserved < 255 then f.reserved + 1 else f.reserved := by
    unfold applyHopStamp
    cases final <;> split <;> rfl
  have hflags : (applyHopStamp f final).flags =
      if final then f.flags ||| flagLastHop else f.flags &&& ~~~flagLastHop := by
    unfold applyHopStamp
    cases final <;> split <;> rfl
  have hkeeps : (applyHopStamp f final).magic = f.magic ∧ (applyHopStamp f final).version = f.version ∧
      (applyHopStamp f final).seq = f.seq ∧ (applyHopStamp f final).timestampLo = f.timestampLo ∧
      (applyHopStamp f final).nodeId = f.nodeId ∧ (applyHopStamp f final).sensorType = f.sensorType ∧
      (applyHopStamp f final).rawValue = f.rawValue := by
    unfold applyHopStamp
    cases final <;> split <;> exact ⟨rfl, rfl, rfl, rfl, rfl, rfl, rfl⟩
  obtain ⟨hm, hv, hs, ht, hn, hst, hr⟩ := hkeeps
  refine ⟨hm, hv, hs, ht, hn, hst, hr, ?_, ?_, ?_⟩
  · rw [hflags]
    cases final
    · exact clear_flag _ _
    · exact set_flag _ _
  · rw [hflags]
    cases final
    · simp [UInt8.and_assoc, flagLastHop]
    · rw [if_pos rfl, test_flag]
      decide
  · have hlt := f.reserved.toNat_lt
    rw [hreserved]
    split
    · rename_i h
      rw [UInt8.lt_iff_toNat_lt] at h
      rw [UInt8.toNat_add]
      simp only [UInt8.reduceToNat] at h ⊢
      omega
    · rename_i h
      rw [UInt8.lt_iff_toNat_lt] at h
      simp only [UInt8.reduceToNat] at h
      omega

/-- The last stamp decides about `LAST_HOP`. -/
theorem Stamped.trans {j k : Nat} {a b : Bool} {f g h : WireFrame} (h₁ : Stamped j a f g) (h₂ : Stamped k b g h) :
    Stamped (j + k) b f h where
  magic := h₂.magic.trans h₁.magic
  version := h₂.version.trans h₁.version
  seq := h₂.seq.trans h₁.seq
  timestampLo := h₂.timestampLo.trans h₁.timestampLo
  nodeId := h₂.nodeId.trans h₁.nodeId
  sensorType := h₂.sensorType.trans h₁.sensorType
  rawValue := h₂.rawValue.trans h₁.rawValue
  otherFlags := h₂.otherFlags.trans h₁.otherFlags
  lastHop := h₂.lastHop
  reserved := by
    have hg := h₁.reserved
    have hh := h₂.reserved
    omega

/-- **A stamped frame verifies** as the frame did: the stamp writes a new checksum. -/
theorem verifyFrame_applyHopStamp {f : WireFrame} (h : verifyFrame f = true) (final : Bool) :
    verifyFrame (applyHopStamp f final) = true := by
  obtain ⟨hm, hv, _⟩ := (verifyFrame_iff f).mp h
  have hs := Stamped.one f final
  refine (verifyFrame_iff _).mpr ⟨hs.magic.trans hm, hs.version.trans hv, ?_⟩
  unfold applyHopStamp
  cases final <;> split <;> rfl

/-! ## One hop -/

namespace Hop

variable {p : Hop} {datagram : List UInt8}

/-- The hop passes the frame on. -/
def Passes (p : Hop) (f : WireFrame) : Prop := verifyFrame f = true ∧ shouldDrop f.seq p.lossPct = false

instance (p : Hop) (f : WireFrame) : Decidable (p.Passes f) := inferInstanceAs (Decidable (_ ∧ _))

/-- **What one hop does with a datagram**, when its send succeeds. -/
theorem receive_spec (hlen : wireFrameSize ≤ datagram.length) (hsend : p.out.outcomes.headD false = true) :
    left p (p.receive (some datagram)) =
      if p.Passes (.ofBytes (datagram.take wireFrameSize)) then
        [(applyHopStamp (.ofBytes (datagram.take wireFrameSize)) p.finalHop).bytes]
      else [] := by
  have htake : (datagram.take bufSize).take wireFrameSize = datagram.take wireFrameSize := by
    rw [List.take_take]
    rfl
  have hbuf : ¬(datagram.take bufSize).length < wireFrameSize := by
    simp only [List.length_take, bufSize, wireFrameSize] at hlen ⊢
    omega
  simp only [receive, Option.map_some, hbuf, if_false, htake, Passes]
  generalize WireFrame.ofBytes (datagram.take wireFrameSize) = f
  have hsent : ∀ data, p.out.sendTo p.forward data =
      (true, { outcomes := p.out.outcomes.tail, sent := p.out.sent ++ [⟨p.forward, data, true⟩] }) := by
    intro data
    rw [UdpSocket.sendTo, hsend]
  by_cases hv : verifyFrame f = true
  · by_cases hd : shouldDrop f.seq p.lossPct = true
    · simp [left, hv, hd]
    · simp [left, hv, hd, hsent]
  · simp [left, hv]

/-! ## Chains -/

theorem relay_nil (hops : List Hop) : relay hops [] = [] := by
  induction hops with
  | nil => rfl
  | cons p hops ih =>
    have hnone : left p (Runs.run receive p ([].map some)) = [] := by simp [left]
    rw [relay, hnone, ih]

/-- A chain, one hop after the other. -/
theorem relay_cons {hops : List Hop} (hlen : wireFrameSize ≤ datagram.length)
    (hsend : p.out.outcomes.headD false = true) :
    relay (p :: hops) [datagram] =
      if p.Passes (.ofBytes (datagram.take wireFrameSize)) then
        relay hops [(applyHopStamp (.ofBytes (datagram.take wireFrameSize)) p.finalHop).bytes]
      else [] := by
  have hone : Runs.run receive p ([datagram].map some) = p.receive (some datagram) := rfl
  rw [relay, hone, receive_spec hlen hsend]
  split
  · rfl
  · exact relay_nil hops

/-- The next hops see a frame with the same seq, which verifies again. -/
theorem Passes.stamped {f : WireFrame} (h : p.Passes f) (final : Bool) (next : Hop) :
    next.Passes (applyHopStamp f final) ↔ next.Passes f := by
  unfold Passes
  rw [(Stamped.one f final).seq, verifyFrame_applyHopStamp h.1, h.1]

/-- **A chain that passes a frame stamps it once for each hop**; every hop of it passes the frame that arrived. -/
theorem relay_stamped {hops : List Hop} (hne : hops ≠ []) (hsend : ∀ p ∈ hops, p.out.outcomes.headD false = true)
    {datagram : List UInt8} (hlen : wireFrameSize ≤ datagram.length) :
    let f := WireFrame.ofBytes (datagram.take wireFrameSize)
    ((∀ p ∈ hops, p.Passes f) → ∃ g, relay hops [datagram] = [g.bytes] ∧ verifyFrame g = true ∧
      Stamped hops.length (hops.getLast hne).finalHop f g) ∧
    ((¬∀ p ∈ hops, p.Passes f) → relay hops [datagram] = []) := by
  induction hops generalizing datagram with
  | nil => exact absurd rfl hne
  | cons p hops ih =>
    intro f
    rw [relay_cons hlen (hsend p List.mem_cons_self)]
    have hstamp := Stamped.one f p.finalHop
    cases hops with
    | nil =>
      constructor
      · intro hpass
        have hp := hpass p List.mem_cons_self
        exact ⟨applyHopStamp f p.finalHop, by rw [if_pos hp]; rfl, verifyFrame_applyHopStamp hp.1 _, hstamp⟩
      · intro hno
        rw [if_neg (fun hp => hno (by simpa using hp))]
    | cons q hops =>
      have hbytes : (applyHopStamp f p.finalHop).bytes.take wireFrameSize = (applyHopStamp f p.finalHop).bytes := rfl
      have hfull : wireFrameSize ≤ (applyHopStamp f p.finalHop).bytes.length :=
        Nat.le_of_eq (WireFrame.length_bytes _).symm
      have hrest := ih (List.cons_ne_nil q hops) (fun p hp => hsend p (List.mem_cons_of_mem _ hp)) hfull
      simp only [hbytes, WireFrame.ofBytes_bytes] at hrest
      constructor
      · intro hpass
        have hp := hpass p List.mem_cons_self
        obtain ⟨g, hg, hv, hst⟩ := hrest.1 fun p' hp' =>
          (hp.stamped _ p').mpr (hpass p' (List.mem_cons_of_mem _ hp'))
        rw [if_pos hp]
        refine ⟨g, hg, hv, ?_⟩
        have htwo := hstamp.trans hst
        rwa [Nat.add_comm] at htwo
      · intro hno
        split
        · rename_i hp
          apply hrest.2
          intro hall
          apply hno
          intro p' hp'
          rcases List.mem_cons.mp hp' with rfl | hp'
          · exact hp
          · exact (hp.stamped _ p').mp (hall p' hp')
        · rfl

/-- **A chain of hops preserves telemetry and stamps it.** A frame leaves the last hop exactly when the first 24 bytes
of the datagram verify and no hop selects them for loss; one frame then leaves it, which verifies and carries the stamp
of every hop. -/
theorem relay_spec {hops : List Hop} (hne : hops ≠ []) (hsend : ∀ p ∈ hops, p.out.outcomes.headD false = true)
    {datagram : List UInt8} (hlen : wireFrameSize ≤ datagram.length) :
    let f := WireFrame.ofBytes (datagram.take wireFrameSize)
    (relay hops [datagram] ≠ [] ↔ verifyFrame f = true ∧ ∀ p ∈ hops, shouldDrop f.seq p.lossPct = false) ∧
    ∀ bs ∈ relay hops [datagram], relay hops [datagram] = [bs] ∧ bs.length = wireFrameSize ∧
      verifyFrame (.ofBytes bs) = true ∧ Stamped hops.length (hops.getLast hne).finalHop f (.ofBytes bs) := by
  intro f
  obtain ⟨hsome, hnone⟩ := relay_stamped hne hsend hlen
  have hpasses : (∀ p ∈ hops, p.Passes f) ↔
      verifyFrame f = true ∧ ∀ p ∈ hops, shouldDrop f.seq p.lossPct = false := by
    constructor
    · intro h
      obtain ⟨p, hp⟩ := List.exists_mem_of_ne_nil hops hne
      exact ⟨(h p hp).1, fun p hp => (h p hp).2⟩
    · rintro ⟨hv, hd⟩ p hp
      exact ⟨hv, hd p hp⟩
  rw [← hpasses]
  by_cases h : ∀ p ∈ hops, p.Passes f
  · obtain ⟨g, hg, hv, hst⟩ := hsome h
    rw [hg]
    refine ⟨⟨fun _ => h, fun _ => List.cons_ne_nil _ _⟩, ?_⟩
    intro bs hbs
    rw [List.mem_singleton.mp hbs, WireFrame.ofBytes_bytes]
    exact ⟨rfl, rfl, hv, hst⟩
  · rw [hnone h]
    exact ⟨⟨fun hc => absurd rfl hc, fun hc => absurd hc h⟩, nofun⟩

/-- The golden frame and one more byte over two hops, the second one final. -/
theorem relay_spec_two_hops :
    let hop (final : Bool) : Hop :=
      { forward := ⟨"127.0.0.1", 9900⟩, lossPct := 5, finalHop := final, out := ⟨[true], []⟩ }
    relay [hop false, hop true] [goldenFrame ++ [0]] ≠ [] ∧
      ∀ bs ∈ relay [hop false, hop true] [goldenFrame ++ [0]], (WireFrame.ofBytes bs).reserved.toNat = 2 := by
  intro hop
  have hsend : ∀ p ∈ [hop false, hop true], p.out.outcomes.headD false = true := by
    intro p hp
    simp only [List.mem_cons, List.not_mem_nil, or_false] at hp
    rcases hp with rfl | rfl <;> rfl
  have hlen : wireFrameSize ≤ (goldenFrame ++ [0]).length := by decide
  obtain ⟨hleft, hstamped⟩ := relay_spec (List.cons_ne_nil (hop false) [hop true]) hsend hlen
  refine ⟨hleft.mpr ⟨by decide +kernel, ?_⟩, ?_⟩
  · intro p hp
    simp only [List.mem_cons, List.not_mem_nil, or_false] at hp
    rcases hp with rfl | rfl <;> decide +kernel
  · intro bs hbs
    exact (hstamped bs hbs).2.2.2.reserved.trans (by decide +kernel)

end Hop

end ZcMesh.Core
