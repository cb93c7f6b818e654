import AuditChain.Proofs.Operations
/-!
# Too early, late enough, or too far

A ping is judged by its distance from the last one. Times are data from elsewhere and may be any in 64 bits, but the
distance of two such times is not always one. Where it is, the ping is refused below the spacing and sent from there
on; where it is not, there is no answer.
-/

namespace AuditChain.Masternode

/-! ## The distance of two times -/

namespace Ping

/-- The result of a step of 64-bit arithmetic that has the exact value `n`. -/
def checked (n : Int) : Except TimeOverflow Int :=
  if -0x8000000000000000 ≤ n ∧ n < 0x8000000000000000 then .ok n else .error .distance

/-- The age as 64-bit arithmetic finds it: a difference, and then its absolute value. -/
def ageInSteps (p : Ping) (now : Int64) : Except TimeOverflow Int := do
  let difference ← checked (now.toInt - p.sigTime.toInt)
  checked difference.natAbs

variable (p : Ping) (now : Int64)

/-- The least difference that fits has an absolute value that does not. -/
theorem ageInSteps_eq :
    p.ageInSteps now =
      if (now.toInt - p.sigTime.toInt).natAbs < 0x8000000000000000 then .ok (now.toInt - p.sigTime.toInt).natAbs
      else .error .distance := by
  unfold ageInSteps
  generalize now.toInt - p.sigTime.toInt = d
  by_cases hfit : d.natAbs < 0x8000000000000000
  · have hd : checked d = .ok d := if_pos (by omega)
    have habs : checked d.natAbs = .ok d.natAbs := if_pos (by omega)
    simp only [hd, habs, hfit, bind, Except.bind, if_true]
  · by_cases hleast : d = -0x8000000000000000
    · have hd : checked d = .ok d := if_pos (by omega)
      have habs : checked d.natAbs = .error .distance := if_neg (by omega)
      simp only [hd, habs, hfit, bind, Except.bind, if_false]
    · have hd : checked d = .error .distance := if_neg (by omega)
      simp only [hd, hfit, bind, Except.bind, if_false]

/-- The age of a ping is what the two steps find. -/
theorem ageInSteps_eq_age : p.ageInSteps now = (p.age now).map Int.ofNat := by
  rw [ageInSteps_eq]
  unfold age
  dsimp only
  split <;> rfl

/-- Arithmetic that goes on past its range finds the distance only if it is in the range. -/
theorem toInt_abs_sub_eq_iff :
    (now - p.sigTime).abs.toInt = (now.toInt - p.sigTime.toInt).natAbs ↔
      (now.toInt - p.sigTime.toInt).natAbs < 0x8000000000000000 := by
  constructor
  · intro h
    have hlt := (now - p.sigTime).abs.toInt_lt
    omega
  · intro h
    have hsub : (now - p.sigTime).toInt = now.toInt - p.sigTime.toInt := by
      rw [Int64.toInt_sub]
      exact Int.bmod_eq_of_le (by omega) (by omega)
    have hleast : (now - p.sigTime).toBitVec ≠ BitVec.intMin 64 := by
      intro hmin
      have hvalue : (now - p.sigTime).toInt = -0x8000000000000000 := congrArg BitVec.toInt hmin
      omega
    rw [← hsub]
    exact BitVec.toInt_abs_eq_natAbs_of_ne_intMin hleast

end Ping

/-! ## Main theorem -/

/-- A started node with a collateral, a key and a signer that signs, whose masternode has pinged before: it is too early
exactly below a distance of 300 seconds, and is told the distance. From there on it relays its ping, up to the first
distance that 64 bits do not hold. There it gets no answer, and nothing has happened. To find out, it asks the
clock, the signer and the registry, once each. The age in 64-bit arithmetic is the distance in the same cases: past them
checked arithmetic has no value, and arithmetic that wraps has another. -/
theorem Node.sendPing_by_distance {n : Node} {s : Surroundings} {r : Registry} {c : OutPoint} {key : KeyPair}
    {signature : Bytes} {m : Identity} {last : Ping} (hstate : n.state = .started) (hcollateral : n.collateral = some c)
    (hkey : n.key = some key) (hsign : s.signer.sign (Ping.mk c s.now []).signingHash key = .ok signature)
    (hm : r.findByCollateral c = some m) (hlast : m.lastPing = some last) :
    let distance := (s.now.toInt - last.sigTime.toInt).natAbs
    let ping : Ping := ⟨c, s.now, signature⟩
    let asked : List Call := [.readClock, .sign ping.signingHash key, .findByCollateral c]
    let t := n.sendPing s r
    (∀ elapsed, t.result = .ok (.error (.tooEarly elapsed)) ↔ distance < 300 ∧ elapsed = distance) ∧
    (distance < 300 → t = ⟨.ok (.error (.tooEarly distance)), n, r, asked⟩) ∧
    (300 ≤ distance → distance < 0x8000000000000000 →
      t = ⟨.ok (.ok ()), n, (record r m ping).1, asked ++ (record r m ping).2 ++ [.relay ping]⟩) ∧
    (0x8000000000000000 ≤ distance → t = ⟨.error .distance, n, r, asked⟩) ∧
    last.ageInSteps s.now = (if distance < 0x8000000000000000 then .ok distance else .error .distance) ∧
    ((s.now - last.sigTime).abs.toInt = distance ↔ distance < 0x8000000000000000) := by
  intro distance ping asked t
  have ht : t = if distance < 300 then ⟨.ok (.error (.tooEarly distance)), n, r, asked⟩
      else if distance < 0x8000000000000000 then
        ⟨.ok (.ok ()), n, (record r m ping).1, asked ++ (record r m ping).2 ++ [.relay ping]⟩
      else ⟨.error .distance, n, r, asked⟩ :=
    sendPing_eq_of_pinged (pingRole_eq_ok_iff.2 ⟨hstate, hcollateral, hkey⟩) hsign hm hlast
  refine ⟨fun elapsed => ?_, fun hnear => ?_, fun hfar hfit => ?_, fun hover => ?_, last.ageInSteps_eq s.now,
    last.toInt_abs_sub_eq_iff s.now⟩
  · rw [ht]
    split
    · simp [*, eq_comm]
    · split <;> simp [*]
  · rw [ht, if_pos hnear]
  · rw [ht, if_neg (Nat.not_lt.2 hfar), if_pos hfit]
  · rw [ht, if_neg (Nat.not_lt.2 (Nat.le_trans (by decide) hover)), if_neg (Nat.not_lt.2 hover)]

/-- The last ping has the least time there is, and the clock is around the distances at which the outcome changes. -/
theorem Node.sendPing_by_distance_least :
    let c : OutPoint := ⟨0, 1⟩
    let key : KeyPair := ⟨0⟩
    let last : Ping := ⟨c, -0x8000000000000000, []⟩
    let m : Identity := ⟨c, .v4 ⟨10, 0, 0, 1⟩ 53572, key.publicKey, 70920, true, some last⟩
    let r := Registry.empty.insert m
    let n : Node := ⟨⟨true, none, "", .mainnet, 70920⟩, some key, .started, some c, some m.endpoint⟩
    let meets (now : Int64) : Surroundings := ⟨true, none, fun _ => false, now, .ed25519⟩
    let ping (now : Int64) : Ping := ⟨c, now, key.sign (Ping.mk c now []).signingHash.toList⟩
    let asked (now : Int64) : List Call := [.readClock, .sign (ping now).signingHash key, .findByCollateral c]
    let sent (now : Int64) : List Call := asked now ++ (record r m (ping now)).2 ++ [.relay (ping now)]
    n.state = .started ∧ n.collateral = some c ∧ n.key = some key ∧
    (∀ now, (meets now).signer.sign (Ping.mk c now []).signingHash key = .ok (ping now).signature) ∧
    r.findByCollateral c = some m ∧ m.lastPing = some last ∧
    n.sendPing (meets (-0x8000000000000000)) r =
      ⟨.ok (.error (.tooEarly 0)), n, r, asked (-0x8000000000000000)⟩ ∧
    n.sendPing (meets (-0x7ffffffffffffed5)) r =
      ⟨.ok (.error (.tooEarly 299)), n, r, asked (-0x7ffffffffffffed5)⟩ ∧
    n.sendPing (meets (-0x7ffffffffffffed4)) r =
      ⟨.ok (.ok ()), n, (record r m (ping (-0x7ffffffffffffed4))).1, sent (-0x7ffffffffffffed4)⟩ ∧
    n.sendPing (meets (-1)) r = ⟨.ok (.ok ()), n, (record r m (ping (-1))).1, sent (-1)⟩ := by
  intro c key last m r n meets ping asked sent
  have hm : r.findByCollateral c = some m := by decide +kernel
  have hoften (now : Int64) := sendPing_by_distance (n := n) (s := meets now) rfl rfl rfl rfl hm rfl
  refine ⟨rfl, rfl, rfl, fun _ => rfl, hm, rfl, ?_, ?_, ?_, ?_⟩
  · exact (hoften _).2.1 (by decide)
  · exact (hoften _).2.1 (by decide)
  · exact (hoften _).2.2.1 (by decide) (by decide)
  · exact (hoften _).2.2.1 (by decide) (by decide)

/-- With the clock at zero or later the distance does not fit. Nothing is relayed, and the arithmetic that goes on past
its range finds an age of one second, or a negative one. -/
theorem Node.sendPing_out_of_range :
    let c : OutPoint := ⟨0, 1⟩
    let key : KeyPair := ⟨0⟩
    let last : Ping := ⟨c, -0x8000000000000000, []⟩
    let m : Identity := ⟨c, .v4 ⟨10, 0, 0, 1⟩ 53572, key.publicKey, 70920, true, some last⟩
    let r := Registry.empty.insert m
    let n : Node := ⟨⟨true, none, "", .mainnet, 70920⟩, some key, .started, some c, some m.endpoint⟩
    let meets (now : Int64) : Surroundings := ⟨true, none, fun _ => false, now, .ed25519⟩
    let asked (now : Int64) : List Call :=
      [.readClock, .sign (Ping.mk c now []).signingHash key, .findByCollateral c]
    n.pingRole = .ok (c, key) ∧ r.findByCollateral c = some m ∧ m.lastPing = some last ∧
    300 ≤ ((0x7fffffffffffffff : Int64).toInt - last.sigTime.toInt).natAbs ∧
    n.sendPing (meets 0x7fffffffffffffff) r = ⟨.error .distance, n, r, asked 0x7fffffffffffffff⟩ ∧
    n.sendPing (meets 0) r = ⟨.error .distance, n, r, asked 0⟩ ∧
    (0x7fffffffffffffff - last.sigTime).abs = 1 ∧ (0 - last.sigTime).abs = -0x8000000000000000 := by
  intro c key last m r n meets asked
  have hm : r.findByCollateral c = some m := by decide +kernel
  have hrole : n.pingRole = .ok (c, key) := rfl
  have hping (now : Int64) := sendPing_eq_of_pinged (n := n) (s := meets now) hrole rfl hm rfl
  refine ⟨hrole, hm, rfl, by decide, ?_, ?_, by decide, by decide⟩
  · exact (hping _).trans ((if_neg (by decide)).trans (if_neg (by decide)))
  · exact (hping _).trans ((if_neg (by decide)).trans (if_neg (by decide)))

end AuditChain.Masternode
