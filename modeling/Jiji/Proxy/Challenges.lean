import Jiji.Proxy.RouteOwnership

/-!
# The challenges of certificate orders

An order puts the answers to its challenges into a table that the proxy serves them from, and
takes them out at its end.  The tokens it has put there are known to a local list only, which
an error in the middle of the challenges abandons.
-/

namespace Jiji
namespace Proxy

open Std (ExtTreeMap)

section Orders

/-- The answers to challenges that the proxy serves, by token. -/
abbrev PendingChallenges := ExtTreeMap String String

inductive AuthorizationStatus
  | pending
  | valid
  | invalid
  | revoked
  | expired
  | deactivated
  deriving DecidableEq, Repr

/-- The text of a status in error messages. -/
def AuthorizationStatus.debug : AuthorizationStatus → String
  | pending => "Pending"
  | valid => "Valid"
  | invalid => "Invalid"
  | revoked => "Revoked"
  | expired => "Expired"
  | deactivated => "Deactivated"

inductive OrderStatus
  | pending
  | ready
  | processing
  | valid
  | invalid
  deriving DecidableEq, Repr

/-- The text of a status in error messages. -/
def OrderStatus.debug : OrderStatus → String
  | pending => "Pending"
  | ready => "Ready"
  | processing => "Processing"
  | valid => "Valid"
  | invalid => "Invalid"

/-- A challenge, and what becomes of the request that declares it ready. -/
structure Challenge where
  token : String
  keyAuthorization : String
  setReady : Except String Unit

/-- An authorization with its challenge of kind http-01, if it offers one. -/
structure Authorization where
  status : AuthorizationStatus
  http01 : Option Challenge

/-- What the steps of one order bring: those of the certificate authority, and the writing of
the two files. -/
structure Order where
  authorizations : List (Except String Authorization)
  pollReady : Except String OrderStatus
  finalize : Except String String
  pollCertificate : Except String String
  writeCrt : Except String Unit
  writeKey : Except String Unit

/-- The table of challenges and the certificates. -/
structure AcmeManager where
  challenges : PendingChallenges
  certs : CertStore

/-- The state of the loop over the authorizations of an order. -/
structure Offering where
  challenges : PendingChallenges
  pendingTokens : List String

/-- Serve the answer to a challenge and remember its token. -/
def Offering.insert (offering : Offering) (challenge : Challenge) : Offering where
  challenges := offering.challenges.insert challenge.token challenge.keyAuthorization
  pendingTokens := offering.pendingTokens ++ [challenge.token]

/-- Take up the authorizations of an order in turn, up to the first error. -/
def offerChallenges (host : String) (offering : Offering) :
    List (Except String Authorization) → Except String Unit × Offering
  | [] => (.ok (), offering)
  | .error error :: _ => (.error error, offering)
  | .ok ⟨.valid, _⟩ :: rest => offerChallenges host offering rest
  | .ok ⟨.pending, none⟩ :: _ => (.error s!"no http-01 challenge offered for {host}", offering)
  | .ok ⟨.pending, some challenge⟩ :: rest =>
      match challenge.setReady with
      | .error error => (.error error, offering.insert challenge)
      | .ok () => offerChallenges host (offering.insert challenge) rest
  | .ok ⟨other, _⟩ :: _ =>
      (.error s!"unexpected authorization status {other.debug} for {host}", offering)

/-- Write an ordered certificate and its key, and serve them. -/
def CertStore.storeAcmeCert
    (ssl : OpenSsl)
    (store : CertStore)
    (host certPem keyPem : String)
    (order : Order) : Except String Unit × CertStore :=
  match ProxyServer.parseIssued ssl certPem keyPem with
  | .error error => (.error error, store)
  | .ok (cert, key) =>
      match order.writeCrt with
      | .error error => (.error error, store)
      | .ok () =>
          let store := store.writeCrt host certPem
          match order.writeKey with
          | .error error => (.error error, store)
          | .ok () => (.ok (), (store.writeKey host keyPem).insert host ⟨cert, key, .acme⟩)

/-- Wait for an order whose challenges are ready, and store its certificate. -/
def finalizeOrder
    (ssl : OpenSsl)
    (certs : CertStore)
    (host : String)
    (order : Order) : Except String Unit × CertStore :=
  match order.pollReady with
  | .error error => (.error error, certs)
  | .ok status =>
      if status ≠ .ready then
        (.error s!"order for {host} ended in status {status.debug}", certs)
      else
        match order.finalize with
        | .error error => (.error error, certs)
        | .ok privateKeyPem =>
            match order.pollCertificate with
            | .error error => (.error error, certs)
            | .ok certChainPem => certs.storeAcmeCert ssl host certChainPem privateKeyPem order

/-- Order a certificate for a host. -/
def AcmeManager.issueForHost
    (ssl : OpenSsl)
    (manager : AcmeManager)
    (host : String) : Except String Order → Except String Unit × AcmeManager
  | .error error => (.error error, manager)
  | .ok order =>
      match offerChallenges host ⟨manager.challenges, []⟩ order.authorizations with
      | (.error error, offering) => (.error error, { manager with challenges := offering.challenges })
      | (.ok (), offering) =>
          let (result, certs) := finalizeOrder ssl manager.certs host order
          (result, ⟨offering.pendingTokens.foldl ExtTreeMap.erase offering.challenges, certs⟩)

end Orders

section Tokens

/-- The token that the loop inserts for an authorization. -/
def insertedToken : Except String Authorization → Option String
  | .ok ⟨.pending, some challenge⟩ => some challenge.token
  | _ => none

/-- Whether the loop goes on after an authorization. -/
def goesOn : Except String Authorization → Bool
  | .ok ⟨.valid, _⟩ => true
  | .ok ⟨.pending, some challenge⟩ => challenge.setReady.isOk
  | _ => false

/-- The authorizations that the loop takes up: those that it goes on after, and the next one. -/
def takenUp (answers : List (Except String Authorization)) : List (Except String Authorization) :=
  answers.takeWhile goesOn ++ (answers.dropWhile goesOn).take 1

/-- The tokens that an order inserts. -/
def Order.insertedTokens (order : Order) : List String :=
  (takenUp order.authorizations).filterMap insertedToken

/-- No error follows the insertion of a token within the loop. -/
def Order.Uninterrupted (order : Order) : Prop :=
  (∀ answer ∈ order.authorizations, goesOn answer) ∨
    ∀ answer ∈ takenUp order.authorizations, insertedToken answer = none

variable {host token : String} {offering : Offering}
variable {answers : List (Except String Authorization)}

theorem takenUp_cons (answer : Except String Authorization) :
    takenUp (answer :: answers) = answer :: if goesOn answer then takenUp answers else [] := by
  by_cases next : goesOn answer <;> simp [takenUp, next]

/-- What one authorization does to the loop. -/
theorem offerChallenges_cons
    (host : String)
    (offering : Offering)
    (answer : Except String Authorization)
    (answers : List (Except String Authorization)) :
    ∃ next : Offering,
      next.pendingTokens = offering.pendingTokens ++ (insertedToken answer).toList ∧
      (∀ token, token ∈ next.challenges ↔
        token ∈ offering.challenges ∨ insertedToken answer = some token) ∧
      if goesOn answer then
        offerChallenges host offering (answer :: answers) = offerChallenges host next answers
      else ∃ error, offerChallenges host offering (answer :: answers) = (.error error, next) := by
  have inserts : ∀ challenge : Challenge, ∀ token,
      token ∈ (offering.insert challenge).challenges ↔
        token ∈ offering.challenges ∨ some challenge.token = some token := by
    intro challenge token
    rw [Offering.insert, ExtTreeMap.mem_insert, Std.compare_eq_iff_eq, Option.some.injEq, or_comm]
  cases answer with
  | error error => exact ⟨offering, by simp [insertedToken], by simp [insertedToken], error, rfl⟩
  | ok authorization =>
      obtain ⟨status, http01⟩ := authorization
      cases status with
      | valid => exact ⟨offering, by simp [insertedToken], by simp [insertedToken], rfl⟩
      | pending =>
          cases http01 with
          | none => exact ⟨offering, by simp [insertedToken], by simp [insertedToken], _, rfl⟩
          | some challenge =>
              refine ⟨offering.insert challenge, rfl, inserts challenge, ?_⟩
              cases ready : challenge.setReady with
              | error error => simp [goesOn, offerChallenges, ready, Except.isOk, Except.toBool]
              | ok _ => simp [goesOn, offerChallenges, ready, Except.isOk, Except.toBool]
      | _ => exact ⟨offering, by simp [insertedToken], by simp [insertedToken], _, rfl⟩

/-- The tokens that the loop has remembered and those in the table, and when it succeeds. -/
theorem offerChallenges_spec
    (host : String)
    (offering : Offering)
    (answers : List (Except String Authorization)) :
    (offerChallenges host offering answers).2.pendingTokens =
        offering.pendingTokens ++ (takenUp answers).filterMap insertedToken ∧
      (∀ token, token ∈ (offerChallenges host offering answers).2.challenges ↔
        token ∈ offering.challenges ∨ token ∈ (takenUp answers).filterMap insertedToken) ∧
      ((offerChallenges host offering answers).1 = .ok () ↔
        ∀ answer ∈ answers, goesOn answer) := by
  induction answers generalizing offering with
  | nil => simp [offerChallenges, takenUp]
  | cons answer answers inductionHypothesis =>
      obtain ⟨next, tokens, table, step⟩ := offerChallenges_cons host offering answer answers
      have inserted : ∀ rest, (answer :: rest).filterMap insertedToken =
          (insertedToken answer).toList ++ rest.filterMap insertedToken := by
        intro rest
        cases found : insertedToken answer <;> simp [found]
      rw [takenUp_cons, inserted]
      by_cases onward : goesOn answer
      · rw [if_pos onward] at step ⊢
        rw [step]
        obtain ⟨restTokens, restTable, restOk⟩ := inductionHypothesis _
        refine ⟨?_, ?_, ?_⟩
        · rw [restTokens, tokens, List.append_assoc]
        · intro token
          rw [restTable, table, List.mem_append, Option.mem_toList, or_assoc]
        · rw [restOk]
          simp [onward]
      · rw [if_neg onward] at step ⊢
        obtain ⟨error, step⟩ := step
        rw [step]
        refine ⟨?_, ?_, ?_⟩
        · rw [tokens, List.filterMap_nil, List.append_nil]
        · intro token
          rw [table, List.filterMap_nil, List.append_nil, Option.mem_toList]
        · simp [onward]

theorem mem_foldl_erase
    {table : PendingChallenges}
    {tokens : List String} :
    token ∈ tokens.foldl ExtTreeMap.erase table ↔ token ∈ table ∧ token ∉ tokens := by
  induction tokens generalizing table with
  | nil => simp
  | cons head rest inductionHypothesis =>
      rw [List.foldl_cons, inductionHypothesis, ExtTreeMap.mem_erase, List.mem_cons, not_or,
        ne_eq, Std.compare_eq_iff_eq, eq_comm]
      tauto

/-- The table after an order: all of its tokens are taken out again, or all are left. -/
theorem AcmeManager.mem_issueForHost
    {manager : AcmeManager}
    {order : Order} :
    token ∈ (manager.issueForHost ssl host (.ok order)).2.challenges ↔
      if ∀ answer ∈ order.authorizations, goesOn answer then
        token ∈ manager.challenges ∧ token ∉ order.insertedTokens
      else token ∈ manager.challenges ∨ token ∈ order.insertedTokens := by
  obtain ⟨tokens, table, succeeds⟩ :=
    offerChallenges_spec host ⟨manager.challenges, []⟩ order.authorizations
  rw [← Order.insertedTokens] at table tokens
  simp only [issueForHost, ← succeeds]
  split
  · rename_i error offering offered
    rw [offered] at table
    simpa [offered] using table token
  · rename_i offering offered
    rw [offered] at table tokens
    simp only [List.nil_append] at tokens
    rw [offered, if_pos rfl, mem_foldl_erase, tokens, table]
    tauto

theorem Order.uninterrupted_iff {order : Order} :
    order.Uninterrupted ↔
      (∀ answer ∈ order.authorizations, goesOn answer) ∨ order.insertedTokens = [] := by
  rw [Uninterrupted, insertedTokens, List.filterMap_eq_nil_iff]

end Tokens

/-- The tokens that an attempt to order a certificate inserts. -/
def insertedTokens : Except String Order → List String
  | .error _ => []
  | .ok order => order.insertedTokens

/-- An attempt leaves none of its tokens in the table exactly if no error interrupts the
loop over the authorizations after a token was inserted. -/
theorem issueForHost_clears_tokens_iff
    (ssl : OpenSsl)
    (manager : AcmeManager)
    (host : String)
    (attempt : Except String Order) :
    (∀ token ∈ insertedTokens attempt,
        token ∉ (manager.issueForHost ssl host attempt).2.challenges) ↔
      ∀ order, attempt = .ok order → order.Uninterrupted := by
  cases attempt with
  | error error => simp [insertedTokens]
  | ok order =>
      simp only [insertedTokens, AcmeManager.mem_issueForHost, Except.ok.injEq, forall_eq']
      rw [Order.uninterrupted_iff]
      by_cases completes : ∀ answer ∈ order.authorizations, goesOn answer
      · simp only [if_pos completes]
        exact ⟨fun _ => Or.inl completes, fun _ token inserted left => left.2 inserted⟩
      · simp only [if_neg completes]
        constructor
        · intro cleared
          refine Or.inr (List.eq_nil_iff_forall_not_mem.mpr fun token inserted => ?_)
          exact cleared token inserted (Or.inr inserted)
        · intro uninterrupted token inserted
          rw [uninterrupted.resolve_left completes] at inserted
          cases inserted

/-- An order for one host whose only authorization is taken up, while the request that declares
its challenge ready fails. -/
def lostReady : Order where
  authorizations := [.ok ⟨.pending, some ⟨"t", "t.k", .error "connection reset"⟩⟩]
  pollReady := .ok .ready
  finalize := .ok ""
  pollCertificate := .ok ""
  writeCrt := .ok ()
  writeKey := .ok ()

/-- The token of a challenge that could not be declared ready is served on. -/
theorem issueForHost_leaves_token :
    insertedTokens (.ok lostReady) = ["t"] ∧
      (AcmeManager.issueForHost sampleSsl ⟨∅, ⟨⟨fun _ => none, fun _ => none⟩, fun _ => none⟩⟩
        "a.example" (.ok lostReady)).2.challenges["t"]? = some "t.k" := by
  decide

end Proxy
end Jiji
