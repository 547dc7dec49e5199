import SignetFederation.Signing.Round

/-!
# Signing sessions

A node keeps a round for each nonce of the messages it has seen.

`crates/quorum-core/src/sign/session.rs`:

| here | there |
| --- | --- |
| `Sessions` | `SessionManager` (`session.rs:14-17`) |
| `Sessions.empty` | `SessionManager::new` (`session.rs:21-26`) |
| `Sessions.start` | `SessionManager::start` (`session.rs:31-43`) |
| `Sessions.finish` | `SessionManager::end` (`session.rs:46-48`) |
| `Sessions.finishAll` | `SessionManager::end_all` (`session.rs:51-57`) |
| `Sessions.withRound` | `SessionManager::with_round` (`session.rs:64-70`) |
| `Sessions.size` | `SessionManager::len` (`session.rs:72-74`) |
-/

namespace SignetFederation

instance : Ranked UInt64 where
  rank n := [n.toNat]
  rank_injective _ _ h := UInt64.toNat_inj.1 (List.cons.inj h).1

/-- The rounds of a quorum by their nonces. -/
structure Sessions where
  quorum : Quorum
  rounds : SortedMap UInt64 Round

namespace Sessions

/-- No sessions. -/
def empty (q : Quorum) : Sessions := ⟨q, ∅⟩

/-- The round of a nonce. -/
def get? (s : Sessions) (nonce : UInt64) : Option Round := s.rounds.get? nonce

/-- Starts the session of a nonce with a PSBT, or merges it into the session that is there. -/
def start (s : Sessions) (nonce : UInt64) (p : Psbt) : Sessions × Except Error RoundState :=
  match s.get? nonce with
  | some r =>
    let (r, answer) := r.merge p
    ({ s with rounds := s.rounds.insert nonce r }, answer)
  | none =>
    match Round.start s.quorum p with
    | .ok r => ({ s with rounds := s.rounds.insert nonce r }, .ok r.state)
    | .error why => (s, .error why)

/-- Ends the session of a nonce and gives its round back. -/
def finish (s : Sessions) (nonce : UInt64) : Sessions × Option Round :=
  ({ s with rounds := s.rounds.erase nonce }, s.get? nonce)

/-- Ends all sessions. -/
def finishAll (s : Sessions) : Sessions := { s with rounds := ∅ }

/-- Runs a step on the round of a nonce. -/
def withRound {α : Type} (s : Sessions) (nonce : UInt64) (step : Round → Round × α) :
    Sessions × Except Error α :=
  match s.get? nonce with
  | none => (s, .error (.sessionNotFound nonce))
  | some r =>
    let (r, answer) := step r
    ({ s with rounds := s.rounds.insert nonce r }, .ok answer)

/-- The number of sessions. -/
def size (s : Sessions) : Nat := s.rounds.size

end Sessions

end SignetFederation
