import AuditChain.Masternode.Node
/-!
# What the operations of a node do

`Pinging` lists all that an attempt to ping can come to, each outcome with its reasons and its calls. To the
registry an operation does no more than to record the ping that it relays, so toward the rest of the network
it is known by its `Effect`.
-/

namespace AuditChain.Masternode

open Net (Endpoint)

/-! ## Operations -/

/-- What a node can be asked to do, with the surroundings that it meets where it asks them anything. -/
inductive Op where
  | manage (s : Surroundings)
  | reset (s : Surroundings)
  | ping (s : Surroundings)
  | enable (collateral : OutPoint) (service : Endpoint)
  | startFrom (e : Entry)
  | startNamed (c : Conf) (name : String)

/-- The clock reading of an operation. -/
def Op.now? : Op → Option Int64
  | manage s | reset s | ping s => some s.now
  | _ => none

/-- What an operation leaves behind, and asked or told on its way. -/
def Node.perform (n : Node) (r : Registry) : Op → Turn Unit
  | .manage s => { n.manageStatus s r with result := () }
  | .reset s => { n.resetStatus s r with result := () }
  | .ping s => { n.sendPing s r with result := () }
  | .enable collateral service => ⟨(), (n.enable collateral service).2, r, []⟩
  | .startFrom e => ⟨(), (n.startFromEntry e).2, r, []⟩
  | .startNamed c name => ⟨(), (n.startNamed c name).2, r, []⟩

/-- The pings among some calls. -/
def relays (calls : List Call) : List Ping :=
  calls.filterMap fun
    | .relay p => some p
    | _ => none

theorem relays_append (calls more : List Call) : relays (calls ++ more) = relays calls ++ relays more :=
  List.filterMap_append

/-- The call changes nothing with the one who is called. -/
def Call.isQuestion : Call → Bool
  | updateLastPing _ | refreshBroadcast .. | relay _ => false
  | _ => true

theorem relays_of_questions {calls : List Call} (h : calls.all Call.isQuestion = true) : relays calls = [] := by
  refine List.filterMap_eq_nil_iff.2 fun call hcall => ?_
  have hquestion := List.all_eq_true.1 h call hcall
  cases call with
  | relay => cases hquestion
  | _ => rfl

theorem relays_pingQuestions (c : OutPoint) (key : KeyPair) (now : Int64) :
    relays (Node.pingQuestions c key now) = [] := relays_of_questions rfl

theorem relays_pingCalls (r : Registry) (m : Identity) (key : KeyPair) (p : Ping) :
    relays (Node.pingCalls r m key p) = [p] := by
  have hrecord : relays (Node.record r m p).2 = [] := by
    unfold Node.record
    dsimp only
    split <;> rfl
  rw [Node.pingCalls, relays_append, relays_append, hrecord, relays_pingQuestions]
  rfl

/-! ## One ping -/

/-- There was no ping, or the last one is far enough from `now`. -/
def Identity.Due (m : Identity) (now : Int64) : Prop :=
  ∀ last, m.lastPing = some last → pingSpacing ≤ (now.toInt - last.sigTime.toInt).natAbs

theorem Identity.due_of_unpinged {m : Identity} (h : m.lastPing = none) (now : Int64) : m.Due now := by
  simp [Due, h]

theorem Identity.due_of_pinged {m : Identity} {last : Ping} {now : Int64} (h : m.lastPing = some last)
    (hfar : ¬(now.toInt - last.sigTime.toInt).natAbs < pingSpacing) : m.Due now := by
  intro last' hlast'
  cases h.symm.trans hlast'
  exact Nat.not_lt.1 hfar

/-- A node can ping for a collateral, with a key, if it is started with both. -/
theorem Node.pingRole_eq_ok_iff {n : Node} {c : OutPoint} {key : KeyPair} :
    n.pingRole = .ok (c, key) ↔ n.state = .started ∧ n.collateral = some c ∧ n.key = some key := by
  unfold pingRole
  cases n.state <;> cases n.collateral <;> cases n.key <;> simp

theorem Node.pingRole_of_not_started {n : Node} (h : n.state ≠ .started) : n.pingRole = .error .notRunning := by
  unfold pingRole
  cases hstate : n.state <;> simp_all

theorem Node.error_of_pingRole {n : Node} {e : NodeError} (h : n.pingRole = .error e) :
    e = .notRunning ∨ e = .disabled := by
  unfold pingRole at h
  split at h
  · cases h
  · exact .inr (Except.error.inj h).symm
  · exact .inl (Except.error.inj h).symm

theorem Node.sendPing_of_not_started {n : Node} (h : n.state ≠ .started) (s : Surroundings) (r : Registry) :
    n.sendPing s r = ⟨.ok (.error .notRunning), n, r, []⟩ := by
  unfold sendPing
  rw [pingRole_of_not_started h]

section

variable {n : Node} {s : Surroundings} {r : Registry} {c : OutPoint} {key : KeyPair} {signature : Bytes} {m : Identity}
  (hrole : n.pingRole = .ok (c, key)) (hsign : s.signer.sign (Ping.mk c s.now []).signingHash key = .ok signature)
  (hm : r.findByCollateral c = some m)

include hrole hsign hm

/-- The first ping of a masternode is never too early. -/
theorem Node.sendPing_of_unpinged (hlast : m.lastPing = none) :
    n.sendPing s r =
      ⟨.ok (.ok ()), n, (record r m ⟨c, s.now, signature⟩).1, pingCalls r m key ⟨c, s.now, signature⟩⟩ := by
  simp only [sendPing, hrole, Ping.signed, hsign, hm, Identity.pingAge, hlast]

/-- What a node that can ping answers, by the distance of the clock from the last ping of its masternode. -/
theorem Node.sendPing_eq_of_pinged {last : Ping} (hlast : m.lastPing = some last) :
    n.sendPing s r =
      if (s.now.toInt - last.sigTime.toInt).natAbs < pingSpacing then
        ⟨.ok (.error (.tooEarly (s.now.toInt - last.sigTime.toInt).natAbs)), n, r, pingQuestions c key s.now⟩
      else if (s.now.toInt - last.sigTime.toInt).natAbs < 0x8000000000000000 then
        ⟨.ok (.ok ()), n, (record r m ⟨c, s.now, signature⟩).1, pingCalls r m key ⟨c, s.now, signature⟩⟩
      else ⟨.error .distance, n, r, pingQuestions c key s.now⟩ := by
  simp only [sendPing, hrole, Ping.signed, hsign, hm, Identity.pingAge, hlast, Ping.age]
  generalize (s.now.toInt - last.sigTime.toInt).natAbs = distance
  by_cases hnear : distance < pingSpacing
  · have hfit : distance < 0x8000000000000000 := Nat.lt_trans hnear (by decide)
    simp [hnear, hfit, Except.map]
  · by_cases hfit : distance < 0x8000000000000000 <;> simp [hnear, hfit, Except.map]

/-- With a masternode whose last ping can be compared with the clock, it is too early or relays its ping. -/
theorem Node.sendPing_of_fit
    (hfit : ∀ last, m.lastPing = some last → (s.now.toInt - last.sigTime.toInt).natAbs < 0x8000000000000000) :
    (∃ last, m.lastPing = some last ∧ (s.now.toInt - last.sigTime.toInt).natAbs < pingSpacing ∧
      n.sendPing s r =
        ⟨.ok (.error (.tooEarly (s.now.toInt - last.sigTime.toInt).natAbs)), n, r, pingQuestions c key s.now⟩) ∨
    (m.Due s.now ∧ n.sendPing s r =
      ⟨.ok (.ok ()), n, (record r m ⟨c, s.now, signature⟩).1, pingCalls r m key ⟨c, s.now, signature⟩⟩) := by
  cases hlast : m.lastPing with
  | none => exact .inr ⟨Identity.due_of_unpinged hlast s.now, sendPing_of_unpinged hrole hsign hm hlast⟩
  | some last =>
    have hturn := sendPing_eq_of_pinged hrole hsign hm hlast
    split at hturn
    · exact .inl ⟨last, rfl, ‹_›, hturn⟩
    · rw [if_pos (hfit last hlast)] at hturn
      exact .inr ⟨Identity.due_of_pinged hlast ‹_›, hturn⟩

end

/-- All that an attempt to ping can come to. Whoever pings for `c` signs with `key`, finds `m` in the
registry, and compares with the ping `last`. -/
inductive Node.Pinging (n : Node) (s : Surroundings) (r : Registry) :
    Turn (Except TimeOverflow (Except NodeError Unit)) → Prop
  | idle {e} (role : n.pingRole = .error e) : Pinging n s r ⟨.ok (.error e), n, r, []⟩
  | unsigned {c key e} (role : n.pingRole = .ok (c, key))
      (sign : s.signer.sign (Ping.mk c s.now []).signingHash key = .error e) :
      Pinging n s r ⟨.ok (.error (.signing e)), n, r, signCalls c key s.now⟩
  | unregistered {c key signature} (role : n.pingRole = .ok (c, key))
      (sign : s.signer.sign (Ping.mk c s.now []).signingHash key = .ok signature)
      (found : r.findByCollateral c = none) :
      Pinging n s r ⟨.ok (.error .notRegistered), { n with state := .notCapable .notRegistered }, r,
        pingQuestions c key s.now⟩
  | overflow {c key signature m last} (role : n.pingRole = .ok (c, key))
      (sign : s.signer.sign (Ping.mk c s.now []).signingHash key = .ok signature)
      (found : r.findByCollateral c = some m) (pinged : m.lastPing = some last)
      (far : 0x8000000000000000 ≤ (s.now.toInt - last.sigTime.toInt).natAbs) :
      Pinging n s r ⟨.error .distance, n, r, pingQuestions c key s.now⟩
  | early {c key signature m last} (role : n.pingRole = .ok (c, key))
      (sign : s.signer.sign (Ping.mk c s.now []).signingHash key = .ok signature)
      (found : r.findByCollateral c = some m) (pinged : m.lastPing = some last)
      (near : (s.now.toInt - last.sigTime.toInt).natAbs < pingSpacing) :
      Pinging n s r ⟨.ok (.error (.tooEarly (s.now.toInt - last.sigTime.toInt).natAbs)), n, r,
        pingQuestions c key s.now⟩
  | relayed {c key signature m} (role : n.pingRole = .ok (c, key))
      (sign : s.signer.sign (Ping.mk c s.now []).signingHash key = .ok signature)
      (found : r.findByCollateral c = some m) (due : m.Due s.now) :
      Pinging n s r ⟨.ok (.ok ()), n, (record r m ⟨c, s.now, signature⟩).1, pingCalls r m key ⟨c, s.now, signature⟩⟩

theorem Node.sendPing_cases (n : Node) (s : Surroundings) (r : Registry) : n.Pinging s r (n.sendPing s r) := by
  rcases hrole : n.pingRole with e | ⟨c, key⟩
  · simp only [sendPing, hrole]
    exact .idle hrole
  rcases hsign : s.signer.sign (Ping.mk c s.now []).signingHash key with e | signature
  · simp only [sendPing, hrole, Ping.signed, hsign]
    exact .unsigned hrole hsign
  rcases hfound : r.findByCollateral c with _ | m
  · simp only [sendPing, hrole, Ping.signed, hsign, hfound]
    exact .unregistered hrole hsign hfound
  rcases hlast : m.lastPing with _ | last
  · rw [sendPing_of_unpinged hrole hsign hfound hlast]
    exact .relayed hrole hsign hfound (Identity.due_of_unpinged hlast s.now)
  rw [sendPing_eq_of_pinged hrole hsign hfound hlast]
  split
  · exact .early hrole hsign hfound hlast ‹_›
  · split
    · exact .relayed hrole hsign hfound (Identity.due_of_pinged hlast ‹_›)
    · exact .overflow hrole hsign hfound hlast (Nat.not_lt.1 ‹_›)

/-! ## The effect of an operation -/

/-- What an operation does to the registry and which pings it relays. -/
inductive Effect (now? : Option Int64) (r : Registry) : Registry → List Ping → Prop where
  | quiet : Effect now? r r []
  | relay (m : Identity) (p : Ping) (htime : now? = some p.sigTime) (hfound : r.findByCollateral p.collateral = some m)
      (hdue : m.Due p.sigTime) : Effect now? r (Node.record r m p).1 [p]

namespace Node

theorem sendPing_effect (n : Node) (s : Surroundings) (r : Registry) :
    Effect (some s.now) r (n.sendPing s r).registry (relays (n.sendPing s r).calls) := by
  have h := n.sendPing_cases s r
  generalize n.sendPing s r = t at h
  cases h with
  | idle | unsigned | unregistered | overflow | early => exact .quiet
  | @relayed c key signature m _ _ found due =>
    rw [relays_pingCalls]
    exact .relay m ⟨c, s.now, signature⟩ rfl found due

/-- Finding out what is wrong asks questions only. -/
theorem checkCapability_questions (n : Node) (s : Surroundings) : (n.checkCapability s).2.all Call.isQuestion = true := by
  have hresolve : (n.resolveService s).2.all Call.isQuestion = true := by
    unfold resolveService
    dsimp only
    split
    · split <;> rfl
    · split <;> rfl
  have hcheck : ∀ service, (n.checkService s service).2.all Call.isQuestion = true := by
    intro service
    unfold checkService
    dsimp only
    split
    · rfl
    · split <;> rfl
  unfold checkCapability
  split
  · rename_i hr
    rw [hr] at hresolve
    exact hresolve
  · rename_i service calls hr
    rw [hr] at hresolve
    rw [List.all_append, hcheck service, Bool.and_true]
    exact hresolve

/-- So does the search for the node in the registry. -/
theorem tryStart_questions (n : Node) (r : Registry) : (n.tryStart r).2.all Call.isQuestion = true := by
  have hlookups : ((n.publicKey?).toList.map Call.findByKey).all Call.isQuestion = true := by
    cases n.publicKey? <;> rfl
  unfold tryStart enableFromRegistry
  split
  · dsimp only
    split <;> exact hlookups
  · rfl

theorem relays_checkCapability (n : Node) (s : Surroundings) : relays (n.checkCapability s).2 = [] :=
  relays_of_questions (n.checkCapability_questions s)

theorem relays_tryStart (n : Node) (r : Registry) : relays (n.tryStart r).2 = [] :=
  relays_of_questions (n.tryStart_questions r)

theorem pollSynced_effect (n : Node) (s : Surroundings) (r : Registry) :
    Effect (some s.now) r (n.pollSynced s r).registry (relays (n.pollSynced s r).calls) := by
  unfold pollSynced
  dsimp only
  split
  · rw [relays_append, relays_tryStart]
    exact sendPing_effect (n.tryStart r).1 s r
  · rw [relays_append, relays_tryStart, relays_checkCapability]
    exact .quiet

theorem manageStatus_effect (n : Node) (s : Surroundings) (r : Registry) :
    Effect (some s.now) r (n.manageStatus s r).registry (relays (n.manageStatus s r).calls) := by
  unfold manageStatus
  split
  · exact .quiet
  split
  · exact pollSynced_effect n s r
  split
  · exact .quiet
  · exact pollSynced_effect n s r

theorem perform_effect (n : Node) (r : Registry) (o : Op) :
    Effect o.now? r (n.perform r o).registry (relays (n.perform r o).calls) := by
  cases o with
  | manage s => exact manageStatus_effect n s r
  | reset s => exact manageStatus_effect { n with state := .initial } s r
  | ping s => exact sendPing_effect n s r
  | enable | startFrom | startNamed => exact .quiet

end Node

end AuditChain.Masternode
