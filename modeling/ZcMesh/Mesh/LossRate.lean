import ZcMesh.Lib.Buckets
import ZcMesh.Mesh.Network

/-!
# What a chain of hops loses

* What leaves a chain are frames that came in, in their order, with the stamp of every hop (`relay_stamps`).
* A hop counts each turn of its loop once, and each datagram that leaves it once (`accounts_turns`). So what went into a
  chain has come out of it or is in the counters of one of its hops, whatever the network does: `chain_accounts`.
* The loss that is asked for with `--loss-pct` depends on the seq alone, and a seq selected for some percentage is
  selected for every higher one (`shouldDrop_mono`). So a chain loses what its worst hop loses. Over a whole cycle of
  the seqs that is a fixed number of frames, at least as many as the percentage says: `chain_loss`. An edge with
  `--drop-pct` drops by the same rule, so what it lets through passes every hop that asks for no more: `losses_nest`.
-/

namespace ZcMesh.Core.Hop

open Runs (run)

/-- The frame at the front of a datagram. -/
def front (data : List UInt8) : WireFrame := .ofBytes (data.take wireFrameSize)

/-- The datagram is a frame that verifies, and maybe more. -/
def valid (data : List UInt8) : Bool := decide (wireFrameSize ≤ data.length) && verifyFrame (front data)

/-! ## What leaves a chain -/

theorem finalHop_receive (p : Hop) (d : Option (List UInt8)) : (p.receive d).finalHop = p.finalHop := by
  unfold receive
  cases d with
  | none => rfl
  | some data =>
    simp only [Option.map_some]
    repeat' split
    all_goals rfl

/-- One turn sends nothing, or the frame that came in, stamped. -/
theorem sent_receive (p : Hop) (data : List UInt8) :
    (p.receive (some data)).out.sent = p.out.sent ∨
      valid data = true ∧ ∃ ok, (p.receive (some data)).out.sent =
        p.out.sent ++ [⟨p.forward, (applyHopStamp (front data) p.finalHop).bytes, ok⟩] := by
  have htake : (data.take bufSize).take wireFrameSize = data.take wireFrameSize := by
    rw [List.take_take]
    rfl
  simp only [receive, Option.map_some, htake]
  split
  · exact Or.inl rfl
  · rename_i hfull
    split
    · exact Or.inl rfl
    · rename_i hv
      split
      · exact Or.inl rfl
      · refine Or.inr ⟨?_, (p.out.sendTo p.forward (applyHopStamp (front data) p.finalHop).bytes).1, ?_⟩
        · have hlen : wireFrameSize ≤ data.length := by
            simp only [List.length_take, bufSize, wireFrameSize] at hfull ⊢
            omega
          rw [valid, decide_eq_true hlen, Bool.true_and]
          simpa [front] using hv
        · split
          all_goals exact UdpSocket.sent_sendTo _ _ _

/-- **What leaves a hop** are frames that came in, in their order, stamped. -/
theorem left_run (p : Hop) (datagrams : List (List UInt8)) :
    ∃ fs : List WireFrame, fs.Sublist ((datagrams.filter valid).map front) ∧
      left p (run receive p (datagrams.map some)) = fs.map fun f => (applyHopStamp f p.finalHop).bytes := by
  have hrun : ∃ (fs : List WireFrame) (more : List Datagram), fs.Sublist ((datagrams.filter valid).map front) ∧
      (run receive p (datagrams.map some)).out.sent = p.out.sent ++ more ∧
      more.map (·.data) = fs.map fun f => (applyHopStamp f p.finalHop).bytes := by
    induction datagrams generalizing p with
    | nil => exact ⟨[], [], List.Sublist.refl _, (List.append_nil _).symm, rfl⟩
    | cons data datagrams ih =>
      obtain ⟨fs, more, hfs, hsent, hmore⟩ := ih (p.receive (some data))
      rw [finalHop_receive] at hmore
      rw [List.map_cons, Runs.run_cons]
      rcases sent_receive p data with hnone | ⟨hvalid, ok, hone⟩
      · exact ⟨fs, more, hfs.trans (((List.sublist_cons_self _ _).filter _).map _), by rw [hsent, hnone], hmore⟩
      · refine ⟨front data :: fs, _ :: more, ?_, by rw [hsent, hone, List.append_assoc, List.singleton_append], ?_⟩
        · rw [List.filter_cons_of_pos hvalid, List.map_cons]
          exact hfs.cons_cons _
        · rw [List.map_cons, List.map_cons, hmore]
  obtain ⟨fs, more, hfs, hsent, hmore⟩ := hrun
  have hleft : left p (run receive p (datagrams.map some)) = (more.filter (·.ok)).map (·.data) := by
    rw [left, hsent, List.drop_left]
  have hsub : (left p (run receive p (datagrams.map some))).Sublist
      (fs.map fun f => (applyHopStamp f p.finalHop).bytes) := by
    rw [hleft, ← hmore]
    exact List.filter_sublist.map _
  obtain ⟨fs', hfs', heq⟩ := List.sublist_map_iff.mp hsub
  exact ⟨fs', hfs'.trans hfs, heq⟩

theorem verify_front {datagrams : List (List UInt8)} {f : WireFrame} (h : f ∈ (datagrams.filter valid).map front) :
    verifyFrame f = true := by
  obtain ⟨data, hdata, rfl⟩ := List.mem_map.mp h
  exact (Bool.and_eq_true_iff.mp (List.mem_filter.mp hdata).2).2

theorem valid_bytes {f : WireFrame} (h : verifyFrame f = true) : valid f.bytes = true ∧ front f.bytes = f := by
  have hfront : front f.bytes = f := WireFrame.ofBytes_bytes f
  exact ⟨by rw [valid, hfront, h, WireFrame.length_bytes]; rfl, hfront⟩

/-- **What leaves a chain** are frames that came in, in their order, with the stamp of every hop. -/
theorem relay_stamps (p : Hop) (hops : List Hop) (datagrams : List (List UInt8)) :
    ∃ fs gs : List WireFrame, fs.Sublist ((datagrams.filter valid).map front) ∧
      relay (p :: hops) datagrams = gs.map WireFrame.bytes ∧ (∀ g ∈ gs, verifyFrame g = true) ∧
      List.Forall₂ (Stamped (hops.length + 1) ((p :: hops).getLast (List.cons_ne_nil p hops)).finalHop) fs gs := by
  induction hops generalizing p datagrams with
  | nil =>
    obtain ⟨fs, hfs, hleft⟩ := left_run p datagrams
    refine ⟨fs, fs.map (applyHopStamp · p.finalHop), hfs, ?_, ?_, ?_⟩
    · rw [relay, relay, hleft, List.map_map]
      rfl
    · intro g hg
      obtain ⟨f, hf, rfl⟩ := List.mem_map.mp hg
      exact verifyFrame_applyHopStamp (verify_front (hfs.subset hf)) _
    · exact List.forall₂_map_right_iff.mpr (List.forall₂_same.mpr fun f _ => Stamped.one f _)
  | cons q hops ih =>
    obtain ⟨fs, hfs, hleft⟩ := left_run p datagrams
    obtain ⟨mid, gs, hmid, hrelay, hgs, hstamped⟩ := ih q (left p (run receive p (datagrams.map some)))
    have hverify : ∀ f ∈ fs, verifyFrame (applyHopStamp f p.finalHop) = true := fun f hf =>
      verifyFrame_applyHopStamp (verify_front (hfs.subset hf)) _
    have hfronts : ((left p (run receive p (datagrams.map some))).filter valid).map front =
        fs.map (applyHopStamp · p.finalHop) := by
      rw [hleft, List.filter_eq_self.mpr, List.map_map]
      · exact List.map_congr_left fun f hf => (valid_bytes (hverify f hf)).2
      · intro d hd
        obtain ⟨f, hf, rfl⟩ := List.mem_map.mp hd
        exact (valid_bytes (hverify f hf)).1
    rw [hfronts] at hmid
    obtain ⟨fs', hfs', rfl⟩ := List.sublist_map_iff.mp hmid
    refine ⟨fs', gs, hfs'.trans hfs, hrelay, hgs, ?_⟩
    refine (List.forall₂_map_left_iff.mp hstamped).imp ?_
    intro f g hfg
    have htwo := (Stamped.one f p.finalHop).trans hfg
    rwa [Nat.add_comm] at htwo

/-! ## The counters of a hop -/

/-- The frame is selected for loss. -/
def injects (lossPct : Int) (data : List UInt8) : Bool := valid data && shouldDrop (front data).seq lossPct

/-- The counters of `p'` account for the turns between `p` and `p'`, in which `ds` came in. -/
structure Accounts (p : Hop) (ds : List (Option (List UInt8))) (p' : Hop) : Prop where
  lossPct : p'.lossPct = p.lossPct
  sent : ∃ more, p'.out.sent = p.out.sent ++ more ∧ p'.ok = p.ok + UInt64.ofNat (more.countP (·.ok))
  turns : p'.ok + p'.drop + p'.injected = p.ok + p.drop + p.injected + UInt64.ofNat ds.length
  injected : p'.injected = p.injected + UInt64.ofNat (ds.reduceOption.countP (injects p.lossPct))

/-- Nothing was sent. -/
theorem silent (p : Hop) :
    ∃ more, p.out.sent = p.out.sent ++ more ∧ p.ok = p.ok + UInt64.ofNat (more.countP (·.ok)) :=
  ⟨[], (List.append_nil _).symm, (UInt64.add_zero _).symm⟩

theorem Accounts.refl (p : Hop) : Accounts p [] p where
  lossPct := rfl
  sent := silent p
  turns := (UInt64.add_zero _).symm
  injected := (UInt64.add_zero _).symm

theorem Accounts.trans {p p' p'' : Hop} {ds ds' : List (Option (List UInt8))} (h : Accounts p ds p')
    (h' : Accounts p' ds' p'') : Accounts p (ds ++ ds') p'' where
  lossPct := h'.lossPct.trans h.lossPct
  sent := by
    obtain ⟨more, hsent, hok⟩ := h.sent
    obtain ⟨more', hsent', hok'⟩ := h'.sent
    refine ⟨more ++ more', by rw [hsent', hsent, List.append_assoc], ?_⟩
    rw [hok', hok, List.countP_append, UInt64.ofNat_add, UInt64.add_assoc]
  turns := by rw [h'.turns, h.turns, List.length_append, UInt64.ofNat_add, UInt64.add_assoc]
  injected := by
    rw [h'.injected, h.injected, h.lossPct, List.reduceOption_append, List.countP_append, UInt64.ofNat_add,
      UInt64.add_assoc]

/-- A turn that drops. -/
theorem Accounts.dropped {p : Hop} {d : Option (List UInt8)} (hd : ∀ data, d = some data → valid data = false) :
    Accounts p [d] { p with drop := p.drop + 1 } where
  lossPct := rfl
  sent := silent p
  turns := by
    show p.ok + (p.drop + 1) + p.injected = p.ok + p.drop + p.injected + 1
    ac_rfl
  injected := by
    cases d with
    | none => exact (UInt64.add_zero _).symm
    | some data =>
      have hno : injects p.lossPct data = false := by rw [injects, hd data rfl, Bool.false_and]
      simp [hno]

/-- A turn that sends something. -/
theorem Accounts.forwarded {p : Hop} {data : List UInt8} (hd : shouldDrop (front data).seq p.lossPct = false)
    (out : List UInt8) : let (sent, socket) := p.out.sendTo p.forward out
    Accounts p [some data]
      (if sent then { p with out := socket, ok := p.ok + 1 } else { p with out := socket, drop := p.drop + 1 }) := by
  have hno : injects p.lossPct data = false := by rw [injects, hd, Bool.and_false]
  have hsent := UdpSocket.sent_sendTo p.out p.forward out
  dsimp only
  split
  · rename_i hok
    refine ⟨rfl, ⟨_, hsent, ?_⟩, ?_, ?_⟩
    · rw [List.countP_singleton, if_pos hok]
      rfl
    · show p.ok + 1 + p.drop + p.injected = p.ok + p.drop + p.injected + 1
      ac_rfl
    · simp [hno]
  · rename_i hfail
    refine ⟨rfl, ⟨_, hsent, ?_⟩, ?_, ?_⟩
    · rw [List.countP_singleton, if_neg hfail]
      exact (UInt64.add_zero _).symm
    · show p.ok + (p.drop + 1) + p.injected = p.ok + p.drop + p.injected + 1
      ac_rfl
    · simp [hno]

/-- **One turn.** -/
theorem accounts_receive (p : Hop) (d : Option (List UInt8)) : Accounts p [d] (p.receive d) := by
  cases d with
  | none => exact .dropped nofun
  | some data =>
    have htake : (data.take bufSize).take wireFrameSize = data.take wireFrameSize := by
      rw [List.take_take]
      rfl
    have hlen : (data.take bufSize).length < wireFrameSize ↔ ¬wireFrameSize ≤ data.length := by
      simp only [List.length_take, bufSize, wireFrameSize]
      omega
    simp only [receive, Option.map_some, htake]
    by_cases hfull : wireFrameSize ≤ data.length
    · rw [if_neg (fun h => hlen.mp h hfull)]
      by_cases hv : verifyFrame (front data) = true
      · have hvalid : valid data = true := by rw [valid, hv, decide_eq_true hfull, Bool.true_and]
        rw [← front, hv]
        by_cases hd : shouldDrop (front data).seq p.lossPct = true
        · have hinjects : injects p.lossPct data = true := by rw [injects, hvalid, hd, Bool.true_and]
          simp only [hd, Bool.not_true, Bool.false_eq_true, if_false, if_true]
          refine ⟨rfl, silent p, ?_, by simp [hinjects]⟩
          show p.ok + p.drop + (p.injected + 1) = p.ok + p.drop + p.injected + 1
          ac_rfl
        · have hpass : shouldDrop (front data).seq p.lossPct = false := Bool.eq_false_iff.mpr hd
          simp only [hpass, Bool.not_true, Bool.false_eq_true, if_false]
          exact .forwarded hpass _
      · have hbad : verifyFrame (front data) = false := Bool.eq_false_iff.mpr hv
        rw [← front, hbad]
        refine .dropped ?_
        rintro _ ⟨⟩
        rw [valid, hbad, Bool.and_false]
    · rw [if_pos (hlen.mpr hfull)]
      refine .dropped ?_
      rintro _ ⟨⟩
      rw [valid, decide_eq_false hfull, Bool.false_and]

theorem accounts_turns (p : Hop) (ds : List (Option (List UInt8))) : Accounts p ds (run receive p ds) := by
  induction ds generalizing p with
  | nil => exact .refl p
  | cons d ds ih => exact (accounts_receive p d).trans (ih _)

/-! ## A chain -/

/-- The frames that a hop has not sent on between two of its states, by its counters. -/
def lost (p p' : Hop) : UInt64 := (p'.drop - p.drop) + (p'.injected - p.injected)

/-- The same for the hops of a chain, when `datagrams` come in. -/
def losses : List Hop → List (List UInt8) → List UInt64
  | [], _ => []
  | p :: hops, datagrams =>
    let p' := run receive p (datagrams.map some)
    lost p p' :: losses hops (left p p')

/-- What has left a hop, by its counters. -/
theorem Accounts.left {p p' : Hop} {datagrams : List (List UInt8)} (h : Accounts p (datagrams.map some) p') :
    UInt64.ofNat datagrams.length = UInt64.ofNat (left p p').length + lost p p' := by
  obtain ⟨more, hsent, hok⟩ := h.sent
  have hturns := h.turns
  rw [List.length_map] at hturns
  have hlen : (Hop.left p p').length = more.countP (·.ok) := by
    rw [Hop.left, hsent, List.drop_left, List.length_map, List.countP_eq_length_filter]
  rw [hlen, lost]
  grind

theorem losses_run (hops : List Hop) (datagrams : List (List UInt8)) :
    UInt64.ofNat datagrams.length = UInt64.ofNat (relay hops datagrams).length + (losses hops datagrams).sum := by
  induction hops generalizing datagrams with
  | nil => exact (UInt64.add_zero _).symm
  | cons p hops ih =>
    have hone := (accounts_turns p (datagrams.map some)).left
    rw [hone, ih (left p (run receive p (datagrams.map some))), losses, List.sum_cons]
    show _ = UInt64.ofNat (relay hops (left p (run receive p (datagrams.map some)))).length + _
    ac_rfl

/-- **A chain accounts for every datagram**, whatever comes in and whichever sends fail: it has left the last hop, or a
counter of one of the hops has it. What leaves the chain verifies and says what some of the datagrams say, in their
order. -/
theorem chain_accounts (p : Hop) (hops : List Hop) (datagrams : List (List UInt8)) :
    let out := relay (p :: hops) datagrams
    UInt64.ofNat datagrams.length = UInt64.ofNat out.length + (losses (p :: hops) datagrams).sum ∧
    (∀ d ∈ out, valid d = true) ∧
    (out.map fun d => (front d).reading).Sublist ((datagrams.filter valid).map fun d => (front d).reading) := by
  obtain ⟨fs, gs, hfs, hrelay, hgs, hstamped⟩ := relay_stamps p hops datagrams
  refine ⟨losses_run (p :: hops) datagrams, ?_, ?_⟩
  · rw [hrelay]
    intro d hd
    obtain ⟨g, hg, rfl⟩ := List.mem_map.mp hd
    exact (valid_bytes (hgs g hg)).1
  · have hout : ((gs.map WireFrame.bytes).map fun d => (front d).reading) = gs.map (·.reading) := by
      rw [List.map_map]
      exact List.map_congr_left fun g hg => congrArg WireFrame.reading (valid_bytes (hgs g hg)).2
    rw [hrelay, hout, ← Stamped.readings hstamped]
    have hsub := hfs.map WireFrame.reading
    rwa [List.map_map] at hsub

/-! ## The seqs selected for loss -/

/-- The percentage selects this top byte of the hash. -/
def selects (lossPct : Int) (b : Nat) : Bool :=
  if lossPct ≤ 0 then false else if lossPct ≥ 100 then true else decide (((b % 100 : Nat) : Int) < lossPct)

theorem shouldDrop_eq (seq : UInt32) (lossPct : Int) :
    shouldDrop seq lossPct = selects lossPct ((seq * 2654435761).toNat / 2 ^ 24) := by
  have htop : (((seq * 2654435761) >>> 24) % 100).toNat = (seq * 2654435761).toNat / 2 ^ 24 % 100 := by
    rw [UInt32.toNat_mod, UInt32.toNat_shiftRight]
    simp only [UInt32.reduceToNat, Nat.shiftRight_eq_div_pow]
  simp only [shouldDrop, selects, htop]

theorem selects_mono {a b : Int} (h : a ≤ b) {n : Nat} (hn : selects a n = true) : selects b n = true := by
  simp only [selects] at *
  split_ifs at * <;> simp_all <;> omega

/-- **A seq selected for some percentage is selected for every higher one.** -/
theorem shouldDrop_mono {a b : Int} (h : a ≤ b) {seq : UInt32} (hn : shouldDrop seq a = true) :
    shouldDrop seq b = true := by
  rw [shouldDrop_eq] at *
  exact selects_mono h hn

/-- How many of the 256 top bytes are selected: 56 of the residues mod 100 occur three times, the others twice. -/
def rate (lossPct : Int) : Nat :=
  if lossPct ≤ 0 then 0
  else if lossPct ≥ 100 then 256
  else 3 * min lossPct.toNat 56 + 2 * (lossPct.toNat - 56)

theorem countP_selects (lossPct : Int) : (List.range 256).countP (selects lossPct) = rate lossPct := by
  by_cases hlow : lossPct ≤ 0
  · simp [selects, rate, hlow]
  by_cases hhigh : lossPct ≥ 100
  · have hall : ∀ b ∈ List.range 256, selects lossPct b = true := fun b _ => by simp [selects, hlow, hhigh]
    simp [List.countP_eq_length.mpr hall, rate, hlow, hhigh]
  · obtain ⟨n, rfl⟩ := Int.eq_ofNat_of_zero_le (show 0 ≤ lossPct by omega)
    have hall : ∀ n : Fin 100, (List.range 256).countP (selects (n : Nat)) = rate (n : Nat) := by decide +kernel
    exact hall ⟨n, by omega⟩

/-- An odd factor loses nothing. -/
theorem hash_injective : Function.Injective fun seq : UInt32 => (seq * 2654435761).toNat := by
  intro a b hab
  have hinv : ∀ c : UInt32, c * 2654435761 * 244002641 = c := by
    intro c
    rw [UInt32.mul_assoc]
    exact UInt32.mul_one c
  rw [← hinv a, ← hinv b, UInt32.toNat_inj.mp hab]

/-- **Over a whole cycle of the seqs**, in any order, the number of those selected. -/
theorem countP_shouldDrop {seqs : List UInt32} (hnodup : seqs.Nodup) (hlen : seqs.length = 256 * 2 ^ 24)
    (lossPct : Int) : seqs.countP (shouldDrop · lossPct) = 2 ^ 24 * rate lossPct := by
  have hperm := Buckets.perm_range (n := 256 * 2 ^ 24) (hnodup.map hash_injective) (by
    intro i hi
    obtain ⟨seq, _, rfl⟩ := List.mem_map.mp hi
    exact UInt32.toNat_lt _) (by rw [List.length_map, hlen])
  rw [← countP_selects, ← Buckets.countP_range_mul, ← hperm.countP_eq, List.countP_map]
  apply List.countP_congr
  intro seq _
  rw [shouldDrop_eq]
  rfl

/-! ## Frames on a chain -/

/-- The highest loss of a chain. -/
def worst (hops : List Hop) : Int := hops.foldr (fun p w => max p.lossPct w) 0

theorem shouldDrop_max (seq : UInt32) (a b : Int) :
    shouldDrop seq (max a b) = (shouldDrop seq a || shouldDrop seq b) := by
  have hone : ∀ {a b : Int}, a ≤ b → shouldDrop seq (max a b) = (shouldDrop seq a || shouldDrop seq b) := by
    intro a b h
    rw [max_eq_right h]
    cases ha : shouldDrop seq a with
    | false => rfl
    | true => exact shouldDrop_mono h ha
  rcases le_total a b with h | h
  · exact hone h
  · rw [max_comm, Bool.or_comm]
    exact hone h

/-- The next `n` sends of the hop succeed. -/
def Sends (p : Hop) (n : Nat) : Prop := List.replicate n true <+: p.out.outcomes

/-- **One hop** sends on the frames that it does not select, in order. -/
theorem run_frames {fs : List WireFrame} (hv : ∀ f ∈ fs, verifyFrame f = true) {p : Hop} (hsend : p.Sends fs.length) :
    (run receive p ((fs.map WireFrame.bytes).map some)).out.sent = p.out.sent ++
      ((fs.filter fun f => !shouldDrop f.seq p.lossPct).map fun f =>
        ⟨p.forward, (applyHopStamp f p.finalHop).bytes, true⟩) := by
  induction fs generalizing p with
  | nil => exact (List.append_nil _).symm
  | cons f fs ih =>
    obtain ⟨later, hout⟩ := hsend
    rw [List.length_cons, List.replicate_succ, List.cons_append] at hout
    have hbuf : (f.bytes.take bufSize).take wireFrameSize = f.bytes := rfl
    have hreceive : p.receive (some f.bytes) = if shouldDrop f.seq p.lossPct then { p with injected := p.injected + 1 }
        else { p with
          out := ⟨p.out.outcomes.tail, p.out.sent ++ [⟨p.forward, (applyHopStamp f p.finalHop).bytes, true⟩]⟩
          ok := p.ok + 1 } := by
      have hfull : ¬(f.bytes.take bufSize).length < wireFrameSize := Nat.lt_irrefl 24
      simp only [receive, Option.map_some, hbuf, hfull, if_false, WireFrame.ofBytes_bytes, hv f List.mem_cons_self,
        Bool.not_true, Bool.false_eq_true, UdpSocket.sendTo, ← hout, List.headD_cons, if_true]
    have hrest : ∀ q : Hop, q.out.outcomes = p.out.outcomes ∨ q.out.outcomes = p.out.outcomes.tail →
        q.Sends fs.length := by
      rintro q (hq | hq)
      · refine (List.prefix_append (List.replicate fs.length true) [true]).trans ?_
        rw [← List.replicate_succ', List.replicate_succ, hq, ← hout]
        exact ⟨later, rfl⟩
      · rw [Sends, hq, ← hout]
        exact ⟨later, rfl⟩
    have hfs : ∀ g ∈ fs, verifyFrame g = true := fun g hg => hv g (List.mem_cons_of_mem f hg)
    rw [List.map_cons, List.map_cons, Runs.run_cons, hreceive]
    split
    · rename_i hd
      refine (ih hfs (hrest { p with injected := p.injected + 1 } (Or.inl rfl))).trans ?_
      rw [List.filter_cons_of_neg (by simp [hd])]
    · rename_i hd
      refine (ih hfs ?_).trans ?_
      · exact hrest _ (Or.inr rfl)
      · rw [List.filter_cons_of_pos (by simp [hd]), List.map_cons, List.append_assoc]
        rfl

/-- **A chain sends on the frames that its worst hop does not select**, in order, and they say the same. -/
theorem relay_frames {hops : List Hop} {fs : List WireFrame} (hv : ∀ f ∈ fs, verifyFrame f = true)
    (hsend : ∀ p ∈ hops, p.Sends fs.length) : ∃ gs : List WireFrame, relay hops (fs.map WireFrame.bytes) =
      gs.map WireFrame.bytes ∧ (∀ g ∈ gs, verifyFrame g = true) ∧
      gs.map (·.reading) = (fs.filter fun f => !shouldDrop f.seq (worst hops)).map (·.reading) := by
  induction hops generalizing fs with
  | nil =>
    have hall : fs.filter (fun f => !shouldDrop f.seq (worst [])) = fs := List.filter_eq_self.mpr fun f _ => rfl
    exact ⟨fs, rfl, hv, by rw [hall]⟩
  | cons p hops ih =>
    have hsent := run_frames hv (hsend p List.mem_cons_self)
    let passed := fs.filter fun f => !shouldDrop f.seq p.lossPct
    have hleft : left p (run receive p ((fs.map WireFrame.bytes).map some)) =
        (passed.map (applyHopStamp · p.finalHop)).map WireFrame.bytes := by
      rw [left, hsent, List.drop_left, List.filter_map, List.map_map, List.map_map]
      simp [passed, Function.comp_def]
    have hfewer : (passed.map (applyHopStamp · p.finalHop)).length ≤ fs.length := by
      rw [List.length_map]
      exact List.length_filter_le _ _
    have hpassed : ∀ g ∈ passed.map (applyHopStamp · p.finalHop), verifyFrame g = true := by
      intro g hg
      obtain ⟨f, hf, rfl⟩ := List.mem_map.mp hg
      exact verifyFrame_applyHopStamp (hv f (List.mem_of_mem_filter hf)) _
    obtain ⟨gs, hrelay, hgs, hreading⟩ := ih hpassed fun q hq => by
      refine List.IsPrefix.trans ?_ (hsend q (List.mem_cons_of_mem p hq))
      rw [← Nat.add_sub_cancel' hfewer, List.replicate_add]
      exact List.prefix_append _ _
    refine ⟨gs, by rw [relay, hleft, hrelay], hgs, ?_⟩
    rw [hreading, List.filter_map, List.map_map, List.filter_filter]
    have hseq : ∀ f : WireFrame, (applyHopStamp f p.finalHop).seq = f.seq := fun f => (Stamped.one f _).seq
    have hsame : (WireFrame.reading ∘ fun f => applyHopStamp f p.finalHop) = WireFrame.reading :=
      funext fun f => reading_applyHopStamp f _
    rw [hsame]
    congr 1
    apply List.filter_congr
    intro f _
    simp only [Function.comp_apply, hseq, worst, List.foldr_cons, shouldDrop_max, Bool.not_or]
    exact Bool.and_comm _ _

/-- At least as many top bytes are selected as the percentage says. -/
theorem rate_ge {lossPct : Int} (h : lossPct ≤ 100) : lossPct * 256 ≤ 100 * rate lossPct := by
  simp only [rate]
  split
  · omega
  · split <;> omega

/-- **What a chain loses over a whole cycle of the seqs.** Of `2 ^ 32` frames with different seqs, in any order, those
leave a chain that its worst hop does not select, in their order. They are fewer by a number that depends on the loss of
that hop only, and is at least what `--loss-pct` asks for. -/
theorem chain_loss {hops : List Hop} {fs : List WireFrame} (hv : ∀ f ∈ fs, verifyFrame f = true)
    (hnodup : (fs.map (·.seq)).Nodup) (hlen : fs.length = 2 ^ 32) (hsend : ∀ p ∈ hops, p.Sends (2 ^ 32)) :
    ∃ gs : List WireFrame, relay hops (fs.map WireFrame.bytes) = gs.map WireFrame.bytes ∧
      (∀ g ∈ gs, verifyFrame g = true) ∧
      gs.map (·.reading) = (fs.filter fun f => !shouldDrop f.seq (worst hops)).map (·.reading) ∧
      gs.length + 2 ^ 24 * rate (worst hops) = 2 ^ 32 ∧
      (worst hops ≤ 100 → worst hops * 2 ^ 32 ≤ 100 * (2 ^ 24 * rate (worst hops))) := by
  have hfewer : ∀ p ∈ hops, p.Sends fs.length := hlen ▸ hsend
  obtain ⟨gs, hrelay, hgs, hreading⟩ := relay_frames hv hfewer
  refine ⟨gs, hrelay, hgs, hreading, ?_, ?_⟩
  · have hout : gs.length = fs.countP fun f => !shouldDrop f.seq (worst hops) := by
      have h := congrArg List.length hreading
      rw [List.length_map, List.length_map, ← List.countP_eq_length_filter] at h
      exact h
    have hcycle := countP_shouldDrop hnodup (by rw [List.length_map, hlen]; rfl) (worst hops)
    rw [List.countP_map] at hcycle
    have hsplit := List.length_eq_countP_add_countP (l := fs) fun f => shouldDrop f.seq (worst hops)
    rw [hout, ← hcycle, ← hlen, hsplit, Nat.add_comm]
    congr 1
    apply List.countP_congr
    intro f _
    simp
  · intro hle
    have := rate_ge hle
    omega

/-- Half of them are asked for, and 150 of 256 are lost. -/
theorem chain_loss_half :
    let frame (i : Nat) : WireFrame := packFrameInto ⟨UInt32.ofNat i, 0, 1, 0, 0, 0, 0⟩
    let hop : Hop :=
      { forward := ⟨"127.0.0.1", 9900⟩, lossPct := 50, finalHop := true, out := ⟨List.replicate (2 ^ 32) true, []⟩ }
    (relay [hop] (((List.range (2 ^ 32)).map frame).map WireFrame.bytes)).length + 2 ^ 24 * 150 = 2 ^ 32 := by
  intro frame hop
  have hv : ∀ f ∈ (List.range (2 ^ 32)).map frame, verifyFrame f = true := by
    intro f hf
    obtain ⟨i, _, rfl⟩ := List.mem_map.mp hf
    exact verifyFrame_packFrameInto _
  have hnodup : (((List.range (2 ^ 32)).map frame).map (·.seq)).Nodup := by
    rw [List.map_map]
    apply List.Nodup.map_on _ List.nodup_range
    intro i hi j hj hij
    have hij : UInt32.ofNat i = UInt32.ofNat j := hij
    have hsame := congrArg UInt32.toNat hij
    rw [UInt32.toNat_ofNat_of_lt' (List.mem_range.mp hi), UInt32.toNat_ofNat_of_lt' (List.mem_range.mp hj)] at hsame
    exact hsame
  have hlen : ((List.range (2 ^ 32)).map frame).length = 2 ^ 32 := by rw [List.length_map, List.length_range]
  have hsend : ∀ p ∈ [hop], p.Sends (2 ^ 32) := by
    intro p hp
    rw [List.mem_singleton.mp hp]
    exact List.prefix_rfl
  obtain ⟨gs, hrelay, _, _, hcount, _⟩ := chain_loss hv hnodup hlen hsend
  rw [hrelay, List.length_map]
  exact hcount

/-- **The losses of an edge and of the hops behind it do not add up.** The frames that an edge pushes with `--drop-pct`
pass every chain of hops that ask for no more. -/
theorem losses_nest (r : EdgeRun) {hops : List Hop} (hsend : ∀ p ∈ hops, p.Sends r.edge.pushed.length)
    (hle : ∀ p ∈ hops, p.lossPct ≤ r.cfg.dropPct) :
    ∃ gs : List WireFrame, relay hops (r.edge.pushed.map WireFrame.bytes) = gs.map WireFrame.bytes ∧
      (∀ g ∈ gs, verifyFrame g = true) ∧ gs.map (·.reading) = r.edge.pushed.map (·.reading) := by
  obtain ⟨gs, hrelay, hgs, hreading⟩ := relay_frames (fun f hf => EdgeRun.verify_pushed hf) hsend
  refine ⟨gs, hrelay, hgs, ?_⟩
  have hspared : ∀ f ∈ r.edge.pushed, (!shouldDrop f.seq (worst hops)) = true := by
    intro f hf
    have hkept : shouldDrop f.seq r.cfg.dropPct = false :=
      Edge.spared_run r.cfg r.connects r.sends r.outcomes r.clock r.ticks f hf
    have hworst : worst hops ≤ max 0 r.cfg.dropPct := by
      clear hsend hrelay hreading
      induction hops with
      | nil => exact le_max_left _ _
      | cons p hops ih =>
        rw [worst, List.foldr_cons]
        exact max_le ((hle p List.mem_cons_self).trans (le_max_right _ _))
          (ih fun q hq => hle q (List.mem_cons_of_mem p hq))
    rw [Bool.not_eq_true', ← Bool.not_eq_true]
    intro hdrop
    have hmax := shouldDrop_mono hworst hdrop
    rw [shouldDrop_max, hkept] at hmax
    simp [shouldDrop] at hmax
  rw [hreading, List.filter_eq_self.mpr hspared]

/-- Two samples, of which the edge drops the first. -/
theorem losses_nest_second :
    let r : EdgeRun :=
      ⟨{ Config.small .udp 1 with dropPct := 5 }, [], [], [true], fun _ => 0, [{ raw := some 5 }, { raw := some 5 }]⟩
    let hop : Hop := { forward := ⟨"127.0.0.1", 9900⟩, lossPct := 5, finalHop := true, out := ⟨[true], []⟩ }
    (relay [hop] (r.edge.pushed.map WireFrame.bytes)).length = 1 := by
  intro r hop
  have hone : r.edge.pushed.length = 1 := by decide +kernel
  have hsend : ∀ p ∈ [hop], p.Sends r.edge.pushed.length := by
    intro p hp
    rw [List.mem_singleton.mp hp, hone]
    exact List.prefix_rfl
  have hle : ∀ p ∈ [hop], p.lossPct ≤ r.cfg.dropPct := by
    intro p hp
    rw [List.mem_singleton.mp hp]
  obtain ⟨gs, hrelay, _, hreading⟩ := losses_nest r hsend hle
  have hlen := congrArg List.length hreading
  rw [List.length_map, List.length_map, hone] at hlen
  rw [hrelay, List.length_map, hlen]

end ZcMesh.Core.Hop
