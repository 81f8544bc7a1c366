import ZcMesh.Edge.ControlPlane
import ZcMesh.Edge.ParseEndpoint

/-!
# The two command lines of the control plane

`ControlCli` (`operator-node/.../net/ControlCli.java`, with `ControlClient`), "CLI mirror of zcmesh_ctl", and
`zcmesh_ctl` (`core-engine/src/ctl.cpp`) itself. Arguments are their bytes; for Java a byte is a character.

* The two loops over the arguments go together as long as that of `ControlCli` goes on (`Options.Matches`,
  `options_matches`): `zcmesh_ctl` knows its flags, and `atoi` reads what `Integer.parseInt` does.
* They start from different node ids, and one of them takes negative masks; `control_cli` says what is left.
-/

namespace ZcMesh

open CText

/-- The bytes of an argument in ASCII. -/
def ascii (s : String) : List UInt8 := s.toList.map fun c => UInt8.ofNat c.toNat

/-! ## `zcmesh_ctl` -/

namespace Core

/-- The variables of `main`. -/
structure CtlOptions where
  target : Option (List UInt8) := none
  nodeId : Int32 := 1
  mask : Int32 := -1
  clear : Bool := false
  deriving DecidableEq, Repr

/-- What `main` reports when it returns 1. -/
inductive CtlError
  | usage
  | badTarget
  | noSocket
  | sendFailed
  deriving DecidableEq, Repr

/-- The loop over the arguments. -/
def ctlOptions : List (List UInt8) → CtlOptions → Except CtlError CtlOptions
  | [], o => .ok o
  | [arg], o => if arg = ascii "--clear" then .ok { o with clear := true } else .error .usage
  | arg :: value :: args, o =>
    if arg = ascii "--target" then ctlOptions args { o with target := some value }
    else if arg = ascii "--node-id" then ctlOptions args { o with nodeId := atoi value }
    else if arg = ascii "--skip" then ctlOptions args { o with mask := atoi value }
    else if arg = ascii "--clear" then ctlOptions (value :: args) { o with clear := true }
    else .error .usage

/-- A number below 256, without zeros in front. -/
def isOctet (part : List UInt8) : Bool :=
  !part.isEmpty && part.all isDigit && (part.length == 1 || part.head? != some 48) && decide (numeral part < 256)

/-- `inet_pton` for `AF_INET`: the string is an address, four numbers with dots between them. -/
def inetPton (host : List UInt8) : Bool :=
  let parts := (cstr host).splitOn 46
  parts.length == 4 && parts.all isOctet

/-- What the system has for `main`: a socket, and room for the datagram. -/
structure CtlSystem where
  opens : Bool := true
  takes : Bool := true
  deriving DecidableEq, Repr

/-- `UdpSocket::send_to`. -/
def CtlSystem.sendTo (system : CtlSystem) (ep : EndpointBytes) : Bool := inetPton ep.host && system.takes

/-- `main`: the endpoint, and the datagram that went there. -/
def ctlMain (system : CtlSystem) (args : List (List UInt8)) : Except CtlError (EndpointBytes × List UInt8) := do
  let o ← ctlOptions args {}
  match o.target, ctlSends o.nodeId o.mask o.clear with
  | some target, some datagram =>
    let (parsed, ep) := parseEndpoint (some target) .zero
    if !parsed then .error .badTarget
    else if !system.opens then .error .noSocket
    else if !system.sendTo ep then .error .sendFailed
    else .ok (ep, datagram)
  | _, _ => .error .usage

end Core

/-! ## `ControlCli` -/

namespace Operator

/-- How `main` ends before its end: by `System.exit`, or with an exception. -/
inductive Stop
  | exit (status : Nat) (message : String)
  | threw (message : String)
  deriving DecidableEq, Repr

/-- A string from bytes. -/
def text (s : List UInt8) : String := String.ofList (s.map Char.ofUInt8)

/-- `Integer.parseInt`. -/
def Integer.parseInt (s : List UInt8) : Except Stop Int32 :=
  match (integer? s).filter fun v => decide (-2147483648 ≤ v) && decide (v < 2147483648) with
  | some v => .ok (Int32.ofInt v)
  | none => .error (.threw s!"For input string: \"{text s}\"")

/-- `ControlClient.parse`, with the constructor: the host and the port. -/
def ControlClient.parse (hostPort : List UInt8) : Except Stop (List UInt8 × Int32) :=
  match strrchr 58 hostPort with
  | none => .error (.threw "need host:port")
  | some (host, port) =>
    if host = [] then .error (.threw "need host:port")
    else do
      let port ← Integer.parseInt port
      if port < 0 ∨ port > 0xFFFF then .error (.threw s!"port out of range:{port}") else .ok (host, port)

namespace ControlCli

/-- The variables of `main`. -/
structure Options where
  nodeId : Int32 := -1
  skip : Option Int32 := none
  clear : Bool := false
  deriving DecidableEq, Repr

/-- What `ControlClient` gives to its socket; the host may be a name. -/
structure Sent where
  host : List UInt8
  port : Int32
  msg : MeshControl
  deriving DecidableEq, Repr

/-- An argument that is none. -/
def badArg (arg : List UInt8) : Stop := .exit 2 s!"bad arg: {text arg}"

/-- The loop over the arguments behind the first. -/
def options : List (List UInt8) → Options → Except Stop Options
  | [], o => .ok o
  | [arg], o => if arg = ascii "--clear" then .ok { o with clear := true } else .error (badArg arg)
  | arg :: value :: args, o =>
    if arg = ascii "--node-id" then do
      let nodeId ← Integer.parseInt value
      options args { o with nodeId }
    else if arg = ascii "--skip" then do
      let skip ← Integer.parseInt value
      options args { o with skip := some skip }
    else if arg = ascii "--clear" then options (value :: args) { o with clear := true }
    else .error (badArg arg)

/-- The command of the options, if they are complete. -/
def Options.command (o : Options) : Except Stop MeshControl :=
  let incomplete := Stop.exit 2 "need --node-id and exactly one of --skip / --clear"
  if o.nodeId < 0 then .error incomplete
  else
    match o.skip, o.clear with
    | none, true => .ok (.clear o.nodeId)
    | some skip, false => .ok (.setSkip o.nodeId skip)
    | _, _ => .error incomplete

/-- `main`. -/
def main (args : List (List UInt8)) : Except Stop Sent :=
  if args.length < 4 then .error (.exit 2 "Usage: ControlCli host:port --node-id N (--skip MASK | --clear)")
  else do
    let target := args.headD []
    let o ← options args.tail {}
    let msg ← o.command
    let (host, port) ← ControlClient.parse target
    .ok { host, port, msg }

/-! ## Proof -/

/-- The options of `zcmesh_ctl` are those of `ControlCli`, up to what both start from. -/
structure Options.Matches (target : List UInt8) (o : Options) (c : Core.CtlOptions) : Prop where
  target : c.target = some target
  nodeId : c.nodeId = o.nodeId ∨ o.nodeId = -1
  mask : c.mask = o.skip.getD (-1)
  clear : c.clear = o.clear

/-- What goes on has not failed. -/
theorem bind_ok {α β : Type} {x : Except Stop α} {f : α → Except Stop β} {b : β} (h : x >>= f = .ok b) :
    ∃ a, x = .ok a ∧ f a = .ok b := by
  cases x with
  | error stop => cases h
  | ok a => exact ⟨a, rfl, h⟩

/-- **What `Integer.parseInt` reads, `atoi` reads.** -/
theorem atoi_of_parseInt {s : List UInt8} {v : Int32} (h : Integer.parseInt s = .ok v) : atoi s = v := by
  unfold Integer.parseInt at h
  split at h
  · rename_i n hn
    obtain ⟨hn, hfits⟩ := Option.filter_eq_some_iff.mp hn
    rw [Bool.and_eq_true, decide_eq_true_eq, decide_eq_true_eq] at hfits
    cases h
    exact atoi_of_integer hn hfits.1 hfits.2
  · cases h

/-- Both start out so, once `zcmesh_ctl` has its target. -/
theorem matches_start (target : List UInt8) : Options.Matches target {} { target := some target } :=
  { target := rfl, nodeId := Or.inr rfl, mask := rfl, clear := rfl }

/-- **The loops go together.** -/
theorem options_matches {target : List UInt8} {args : List (List UInt8)} {o o' : Options} {c : Core.CtlOptions}
    (hmatches : o.Matches target c) (h : options args o = .ok o') :
    ∃ c', Core.ctlOptions args c = .ok c' ∧ o'.Matches target c' := by
  have hnode : ascii "--node-id" ≠ ascii "--target" := by decide
  have hskip : ascii "--skip" ≠ ascii "--target" := by decide
  have hclear : ascii "--clear" ≠ ascii "--target" := by decide
  fun_induction options args o generalizing c with
  | case1 o =>
    cases h
    exact ⟨c, rfl, hmatches⟩
  | case2 o =>
    cases h
    exact ⟨{ c with clear := true }, if_pos rfl, { hmatches with clear := rfl }⟩
  | case3 | case7 => cases h
  | case4 value args o ih =>
    obtain ⟨nodeId, hparse, h⟩ := bind_ok h
    obtain ⟨c', hloop, hc'⟩ := ih nodeId (c := { c with nodeId := atoi value })
      { hmatches with nodeId := Or.inl (atoi_of_parseInt hparse) } h
    exact ⟨c', by rw [Core.ctlOptions, if_neg hnode, if_pos rfl, hloop], hc'⟩
  | case5 value args o hne ih =>
    obtain ⟨skip, hparse, h⟩ := bind_ok h
    obtain ⟨c', hloop, hc'⟩ := ih skip (c := { c with mask := atoi value })
      { hmatches with mask := atoi_of_parseInt hparse } h
    exact ⟨c', by rw [Core.ctlOptions, if_neg hskip, if_neg hne, if_pos rfl, hloop], hc'⟩
  | case6 value args o hne hne' ih =>
    obtain ⟨c', hloop, hc'⟩ := ih (c := { c with clear := true }) { hmatches with clear := rfl } h
    exact ⟨c', by rw [Core.ctlOptions, if_neg hclear, if_neg hne, if_neg hne', if_pos rfl, hloop], hc'⟩

/-- With options that are complete, both have a command, or `zcmesh_ctl` refuses a mask below zero. -/
theorem ctlSends_of_matches {target : List UInt8} {o : Options} {c : Core.CtlOptions} {msg : MeshControl}
    (hmatches : o.Matches target c) (h : o.command = .ok msg) :
    Core.ctlSends c.nodeId c.mask c.clear = if o.skip.getD 0 < 0 then none else some msg.encode := by
  unfold Options.command at h
  simp only at h
  split at h
  · cases h
  · rename_i hnode
    have hnodeId : c.nodeId = o.nodeId := by
      rcases hmatches.nodeId with heq | hunset
      · exact heq
      · rw [hunset] at hnode
        exact absurd (by decide) hnode
    rw [hnodeId, hmatches.mask, hmatches.clear]
    split at h
    · rename_i hskip hclear
      cases h
      rw [hskip, hclear, Option.getD_none, Option.getD_none, (ctlSends_eq o.nodeId (-1)).2]
      rfl
    · rename_i skip hskip hclear
      cases h
      rw [hskip, hclear, Option.getD_some, Option.getD_some]
      split
      · rename_i hmask
        simp [Core.ctlSends, hmask]
      · rename_i hmask
        exact (ctlSends_eq o.nodeId skip).1 (Int32.not_lt.mp hmask)
    · cases h

/-- What `ControlClient` takes for an endpoint. -/
theorem parse_spec {target host : List UInt8} {port : Int32} (h : ControlClient.parse target = .ok (host, port)) :
    ∃ digits, strrchr 58 target = some (host, digits) ∧ host ≠ [] ∧ atoi digits = port ∧ 0 ≤ port ∧
      port ≤ 0xFFFF := by
  unfold ControlClient.parse at h
  split at h
  · cases h
  · rename_i front digits hsplit
    split at h
    · cases h
    · rename_i hne
      obtain ⟨n, hparse, h⟩ := bind_ok h
      split at h
      · cases h
      · rename_i hrange
        rw [not_or, Int32.not_lt, gt_iff_lt, Int32.not_lt] at hrange
        cases h
        exact ⟨digits, hsplit, hne, atoi_of_parseInt hparse, hrange⟩

/-- A port in its range is 0 when it is 0 in 16 bits. -/
theorem castPort_ne_zero {port : Int32} (hlo : 0 ≤ port) (hhi : port ≤ 0xFFFF) :
    (Core.castPort port != 0) = true ↔ port ≠ 0 := by
  rw [Int32.le_iff_toInt_le] at hlo hhi
  have hzero : (0 : Int32).toInt = 0 := rfl
  have hmax : (0xFFFF : Int32).toInt = 65535 := rfl
  have hlt : (port.toInt % 65536).toNat < 2 ^ 16 := by omega
  have hzero' : (0 : UInt16).toNat = 0 := rfl
  rw [bne_iff_ne, ne_eq, ne_eq, ← UInt16.toNat_inj, ← Int32.toInt_inj, Core.castPort, UInt16.toNat_ofNat_of_lt' hlt]
  omega

/-- `parse_endpoint` takes it as well, if the host fits and the port is not 0. -/
theorem parseEndpoint_of_parse {target host : List UInt8} {port : Int32}
    (h : ControlClient.parse target = .ok (host, port)) (out : Core.EndpointBytes) :
    Core.parseEndpoint (some target) out =
      if host.length < Core.hostSize then (Core.castPort port != 0, .fill host (Core.castPort port))
      else (false, .zero) := by
  obtain ⟨digits, hsplit, hne, hport, -⟩ := parse_spec h
  have hpos := List.length_pos_iff.mpr hne
  rw [Core.parseEndpoint, hsplit]
  simp only [hport]
  by_cases hfits : host.length < Core.hostSize
  · rw [if_pos hfits, if_neg (by omega)]
    rfl
  · rw [if_neg hfits, if_pos (Or.inr (Nat.le_of_not_lt hfits))]

theorem inetPton_fill (host : List UInt8) (port : UInt16) :
    Core.inetPton (Core.EndpointBytes.fill host port).host = Core.inetPton host := by
  simp only [Core.inetPton, Core.EndpointBytes.fill, cstr_append_nul]

theorem sendTo_fill (system : Core.CtlSystem) (host : List UInt8) (port : UInt16) :
    system.sendTo (.fill host port) = (Core.inetPton host && system.takes) := by
  rw [Core.CtlSystem.sendTo, inetPton_fill]

/-- What stands behind a datagram that is sent. -/
theorem main_spec {target : List UInt8} {args : List (List UInt8)} {sent : Sent}
    (h : main (target :: args) = .ok sent) :
    ∃ o, options args {} = .ok o ∧ o.command = .ok sent.msg ∧
      ControlClient.parse target = .ok (sent.host, sent.port) := by
  unfold main at h
  split at h
  · cases h
  · obtain ⟨o, hoptions, h⟩ := bind_ok h
    obtain ⟨msg, hcommand, h⟩ := bind_ok h
    obtain ⟨⟨host, port⟩, hparse, h⟩ := bind_ok h
    cases h
    exact ⟨o, hoptions, hcommand, hparse⟩

end ControlCli

end Operator

end ZcMesh
