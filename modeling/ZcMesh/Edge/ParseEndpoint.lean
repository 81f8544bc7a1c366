import Mathlib.Data.UInt
import ZcMesh.Lib.CText

/-!
# Parsing an endpoint

`parse_endpoint` of `core-engine/src/net.cpp`, on bytes. The port goes through `atoi` and is cut to 16 bits before the
test against 0, so more texts are accepted than `host:port` with a port (`Denotes`); the texts on which this makes a
difference are those of `parseEndpoint_iff`.
-/

namespace ZcMesh.Core

open CText

/-! ## The code -/

/-- `sizeof(Endpoint::host)`. -/
def hostSize : Nat := 64

/-- `Endpoint`, with all bytes of `host`. -/
structure EndpointBytes where
  host : List UInt8
  port : UInt16
  deriving DecidableEq, Repr

/-- `memset(&out, 0, sizeof(out))`. -/
def EndpointBytes.zero : EndpointBytes := { host := List.replicate hostSize 0, port := 0 }

/-- The host as a string, its NUL and the zeros behind it, and a port. -/
def EndpointBytes.fill (host : List UInt8) (port : UInt16) : EndpointBytes :=
  { host := host ++ 0 :: List.replicate (hostSize - 1 - host.length) 0, port }

/-- `static_cast<uint16_t>` of an `int`. -/
def castPort (n : Int32) : UInt16 := UInt16.ofNat (n.toInt % 65536).toNat

/-- `parse_endpoint`; `none` is a null pointer. -/
def parseEndpoint : Option (List UInt8) → EndpointBytes → Bool × EndpointBytes
  | none, out => (false, out)
  | some hostPort, _ =>
    match strrchr 58 hostPort with
    | none => (false, .zero)
    | some (host, port) =>
      if host.length = 0 ∨ host.length ≥ hostSize then (false, .zero)
      else
        let out := EndpointBytes.fill host (castPort (atoi port))
        (out.port != 0, out)

/-! ## What is a port -/

/-- A non-empty string of digits that denotes a number between 1 and 65535. -/
def PlainPort (port : List UInt8) : Prop :=
  port ≠ [] ∧ (∀ c ∈ port, isDigit c = true) ∧ 1 ≤ numeral port ∧ numeral port ≤ 65535

/-- The text is the host, a colon and the port `n`. -/
def Denotes (text host : List UInt8) (n : Nat) : Prop :=
  ∃ port, text = host ++ 58 :: port ∧ 58 ∉ port ∧ 1 ≤ host.length ∧ host.length ≤ 63 ∧ PlainPort port ∧
    numeral port = n

/-- What `parse_endpoint` promises for the text. -/
def ParsesExactly (text : CString) (out : EndpointBytes) : Prop :=
  ((parseEndpoint (some text) out).1 = true ↔ ∃ host n, Denotes text host n) ∧
  ∀ host n, Denotes text host n →
    cstr (parseEndpoint (some text) out).2.host = host ∧ (parseEndpoint (some text) out).2.port.toNat = n

/-- The number in front of the port part is one that 16 bits make 0 of: a multiple of 65536, or below the range of a
`long`. -/
def Vanishes (port : List UInt8) : Prop :=
  (leading port % 65536 = 0 ∧ leading port < 9223372036854775808) ∨ leading port < -9223372036854775808

/-- The text has no colon, no host or one that does not fit, or its port part is a port, or vanishes. -/
def PortDecides (text : List UInt8) : Prop :=
  match strrchr 58 text with
  | none => True
  | some (host, port) => host.length = 0 ∨ host.length ≥ hostSize ∨ PlainPort port ∨ Vanishes port

/-! ## Proof -/

theorem denotes_iff {text host port : List UInt8} (h : strrchr 58 text = some (host, port)) {host' : List UInt8}
    {n : Nat} : Denotes text host' n ↔
      host' = host ∧ 1 ≤ host.length ∧ host.length ≤ 63 ∧ PlainPort port ∧ numeral port = n := by
  obtain ⟨htext, hcolon⟩ := strrchr_spec h
  constructor
  · rintro ⟨port', htext', hcolon', hlo, hhi, hplain, hn⟩
    have hsplit := strrchr_append host' hcolon'
    rw [← htext', h] at hsplit
    cases hsplit
    exact ⟨rfl, hlo, hhi, hplain, hn⟩
  · rintro ⟨rfl, hlo, hhi, hplain, hn⟩
    exact ⟨port, htext, hcolon, hlo, hhi, hplain, hn⟩

theorem not_denotes {text : List UInt8} (h : strrchr 58 text = none) (host : List UInt8) (n : Nat) :
    ¬ Denotes text host n := by
  rintro ⟨port, htext, _⟩
  refine strrchr_eq_none.mp h ?_
  rw [htext]
  exact List.mem_append_right _ List.mem_cons_self

theorem castPort_atoi (port : List UInt8) : (castPort (atoi port) != 0) = true ↔ ¬ Vanishes port := by
  have hlt : ((atoi port).toInt % 65536).toNat < 2 ^ 16 := by omega
  have hzero : (0 : UInt16).toNat = 0 := rfl
  rw [bne_iff_ne, ne_eq, ← UInt16.toNat_inj, castPort, UInt16.toNat_ofNat_of_lt' hlt, hzero, Vanishes, ← atoi_low_iff]
  omega

/-- A port that is one comes through. -/
theorem toNat_castPort {port : List UInt8} (h : PlainPort port) : (castPort (atoi port)).toNat = numeral port := by
  obtain ⟨hne, hall, hlo, hhi⟩ := h
  have hatoi := toInt_atoi hne hall (by omega)
  have hlt : ((numeral port : Int) % 65536).toNat < 2 ^ 16 := by omega
  rw [castPort, hatoi, UInt16.toNat_ofNat_of_lt' hlt]
  omega

/-- What a port denotes is not 0 in 16 bits. -/
theorem PlainPort.not_vanishes {port : List UInt8} (h : PlainPort port) : ¬ Vanishes port := by
  have hport := toNat_castPort h
  rw [← castPort_atoi, bne_iff_ne]
  intro hzero
  rw [hzero] at hport
  exact absurd h.2.2.1 (by rw [← hport]; decide)

section Split

variable {text : CString} {host port : List UInt8} {out : EndpointBytes}

/-- A text that is no endpoint and is refused. -/
theorem parsesExactly_of_refused (h : (parseEndpoint (some text) out).1 = false)
    (hno : ∀ host n, ¬ Denotes text host n) : ParsesExactly text out := by
  refine ⟨?_, fun host n hdenotes => absurd hdenotes (hno host n)⟩
  rw [h]
  exact ⟨nofun, fun ⟨host, n, hdenotes⟩ => absurd hdenotes (hno host n)⟩

/-- No host that fits. -/
theorem parsesExactly_of_unfit (h : strrchr 58 text = some (host, port))
    (hhost : host.length = 0 ∨ host.length ≥ hostSize) : ParsesExactly text out := by
  refine parsesExactly_of_refused ?_ ?_
  · simp only [parseEndpoint, h, if_pos hhost]
  · intro host' n hdenotes
    obtain ⟨_, hlo, hhi, _⟩ := (denotes_iff h).mp hdenotes
    have hsize : hostSize = 64 := rfl
    omega

/-- Behind a host that fits, the port part decides. -/
theorem parsesExactly_of_fits (h : strrchr 58 text = some (host, port))
    (hhost : ¬ (host.length = 0 ∨ host.length ≥ hostSize)) :
    ParsesExactly text out ↔ PlainPort port ∨ Vanishes port := by
  have hparse : parseEndpoint (some text) out =
      (castPort (atoi port) != 0, EndpointBytes.fill host (castPort (atoi port))) := by
    simp only [parseEndpoint, h, if_neg hhost]
    rfl
  have hfits : 1 ≤ host.length ∧ host.length ≤ 63 := by
    have hsize : hostSize = 64 := rfl
    omega
  have hsome : (∃ host' n, Denotes text host' n) ↔ PlainPort port := by
    constructor
    · rintro ⟨host', n, hdenotes⟩
      exact ((denotes_iff h).mp hdenotes).2.2.2.1
    · intro hplain
      exact ⟨host, numeral port, (denotes_iff h).mpr ⟨rfl, hfits.1, hfits.2, hplain, rfl⟩⟩
  rw [ParsesExactly, hparse, castPort_atoi, hsome]
  constructor
  · rintro ⟨hiff, _⟩
    by_cases hvanish : Vanishes port
    · exact .inr hvanish
    · exact .inl (hiff.mp hvanish)
  · intro hport
    refine ⟨?_, ?_⟩
    · rcases hport with hplain | hvanish
      · exact ⟨fun _ => hplain, fun _ => hplain.not_vanishes⟩
      · exact ⟨fun hnot => absurd hvanish hnot, fun hplain => absurd hvanish hplain.not_vanishes⟩
    · rintro host' n hdenotes
      obtain ⟨rfl, _, _, hplain, rfl⟩ := (denotes_iff h).mp hdenotes
      have hfree : 0 ∉ host' := by
        intro h0
        refine text.2 ?_
        rw [(strrchr_spec h).1]
        exact List.mem_append_left _ h0
      exact ⟨cstr_of_nul_free hfree _, toNat_castPort hplain⟩

end Split

/-- **When `parse_endpoint` accepts exactly `host:port`**: for every text, if and only if it has no host that fits, or
its port part is a port, or vanishes. -/
theorem parseEndpoint_iff (text : CString) (out : EndpointBytes) : ParsesExactly text out ↔ PortDecides text := by
  unfold PortDecides
  cases hsplit : strrchr 58 text with
  | none =>
    refine ⟨fun _ => trivial, fun _ => parsesExactly_of_refused ?_ (not_denotes hsplit)⟩
    simp only [parseEndpoint, hsplit]
  | some p =>
    obtain ⟨host, port⟩ := p
    by_cases hhost : host.length = 0 ∨ host.length ≥ hostSize
    · exact ⟨fun _ => or_assoc.mp (.inl hhost), fun _ => parsesExactly_of_unfit hsplit hhost⟩
    · rw [parsesExactly_of_fits hsplit hhost]
      constructor
      · intro hport
        exact .inr (.inr hport)
      · rintro (h | h | hport)
        · exact absurd (.inl h) hhost
        · exact absurd (.inr h) hhost
        · exact hport

/-- `h:65617` is taken for port 81. -/
theorem parseEndpoint_truncates : ∃ text : CString, ∃ out, (parseEndpoint (some text) out).1 = true ∧
    (parseEndpoint (some text) out).2.port = 81 ∧ ¬ ParsesExactly text out := by
  refine ⟨⟨[104, 58, 54, 53, 54, 49, 55], by decide⟩, .zero, by decide, by decide, ?_⟩
  rintro ⟨hiff, _⟩
  obtain ⟨host, n, port, htext, hcolon, _, _, hplain, _⟩ := hiff.mp (by decide)
  have hsplit := strrchr_append host hcolon
  rw [← htext] at hsplit
  cases hsplit
  have hvalue : numeral [54, 53, 54, 49, 55] = 65617 := rfl
  have hhi := hplain.2.2.2
  rw [hvalue] at hhi
  omega

end ZcMesh.Core
