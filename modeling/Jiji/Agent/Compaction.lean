import Jiji.Agent.StoreInvariant

/-!
# Compaction is unobservable

A store that is compacted between calls mirrors one that is not: the tables of
winners agree, and every call that applies its record in one store applies it
in the other.  A record that compaction forgot may be offered again; the order
of records alone keeps it from winning a second time.
-/

namespace Jiji
namespace Agent
namespace AgentStore

open Replication

/-- A record offered to a store.  Catalog records are verified against the
membership that the store holds at the time. -/
inductive Offer
  | membership (usedBytes : ℕ) (record : MembershipRecord)
  | catalog (usedBytes : ℕ) (record : CatalogRecord) (provenance : RecordProvenance)

/-- The size of the database at the time of an offer. -/
def Offer.usedBytes : Offer → ℕ
  | .membership usedBytes _ => usedBytes
  | .catalog usedBytes _ _ => usedBytes

/-- What a store does with an offered record. -/
def offer (hash : ContentHash) (scope : MembershipScope) (store : AgentStore) :
    Offer → Except StoreError (Outcome × AgentStore)
  | .membership usedBytes record => store.applyMembership hash scope usedBytes record
  | .catalog usedBytes record provenance =>
      match store.membershipView hash scope with
      | .error error => .error error
      | .ok membership =>
          store.applyCatalog hash scope usedBytes membership record provenance

/-- An offer, or a compaction between offers. -/
inductive Move
  | offer (offer : Offer)
  | compactOperations

/-- The store after a sequence of moves, with what each offer reported: whether
its record was applied. -/
def play (hash : ContentHash) (scope : MembershipScope) :
    AgentStore → List Move → AgentStore × List Bool
  | store, [] => (store, [])
  | store, .compactOperations :: moves =>
      play hash scope (store.compactOperations hash).2 moves
  | store, .offer offered :: moves =>
      let result := store.offer hash scope offered
      let later := play hash scope (Fallible.keep store result) moves
      (later.1, applies result :: later.2)

/-- Two offers of the same record, made at different sizes of the database. -/
inductive SameRecord : Offer → Offer → Prop
  | membership (usedBytes usedBytes' : ℕ) (record : MembershipRecord) :
      SameRecord (.membership usedBytes record) (.membership usedBytes' record)
  | catalog (usedBytes usedBytes' : ℕ) (record : CatalogRecord)
      (provenance : RecordProvenance) :
      SameRecord (.catalog usedBytes record provenance)
        (.catalog usedBytes' record provenance)

/-- A sequence of moves makes given offers, with compactions at arbitrary points.
The size of the database at each offer is its own. -/
inductive Interleaves : List Offer → List Move → Prop
  | nil : Interleaves [] []
  | compactOperations {offers : List Offer} {moves : List Move} :
      Interleaves offers moves → Interleaves offers (.compactOperations :: moves)
  | offer {offers : List Offer} {moves : List Move} {offered offered' : Offer} :
      SameRecord offered offered' → Interleaves offers moves →
      Interleaves (offered :: offers) (.offer offered' :: moves)

/-- A compacted store beside one that was never compacted. -/
structure Mirrors (hash : ContentHash) (scope : MembershipScope)
    (plain compacted : AgentStore) : Prop where
  plainSound : plain.Sound hash scope
  compactedSound : compacted.Sound hash scope
  quota : compacted.softQuotaBytes = plain.softQuotaBytes
  membership : plain.membership.Mirrors compacted.membership
  catalog : plain.catalog.Mirrors compacted.catalog

variable {hash : ContentHash} {scope : MembershipScope} {plain compacted : AgentStore}

theorem Mirrors.latest (mirrors : Mirrors hash scope plain compacted) :
    plain.latestMembership = compacted.latestMembership ∧
      plain.latestCatalog = compacted.latestCatalog := by
  simp only [latestMembership, latestCatalog, mirrors.membership.winners,
    mirrors.catalog.winners, and_self]

theorem Mirrors.compactOperations (mirrors : Mirrors hash scope plain compacted) :
    Mirrors hash scope plain (compacted.compactOperations hash).2 where
  plainSound := mirrors.plainSound
  compactedSound := mirrors.compactedSound.compactOperations
  quota := mirrors.quota
  membership := mirrors.membership.compact hash.membership
  catalog := mirrors.catalog.compact hash.catalog

/-- A membership record applies in both stores or in neither. -/
theorem Mirrors.applyMembership
    (mirrors : Mirrors hash scope plain compacted)
    (room : plain.ensureReplicationCapacity usedBytes = .ok ())
    (room' : compacted.ensureReplicationCapacity usedBytes' = .ok ())
    (injective : ∀ other ∈ plain.membershipOperations,
      hash.membership other = hash.membership record → other = record) :
    let plainResult := plain.applyMembership hash scope usedBytes record
    let compactedResult := compacted.applyMembership hash scope usedBytes' record
    applies plainResult = applies compactedResult ∧
      Mirrors hash scope (Fallible.keep plain plainResult)
        (Fallible.keep compacted compactedResult) := by
  intro plainResult compactedResult
  obtain ⟨same, plainAfter, compactedAfter, mirrored, plainEq, compactedEq⟩ :=
    mirrors.membership.keep (MembershipView.rules hash.membership scope)
      mirrors.plainSound.membership rfl rfl injective room room'
      (fun ledger => { plain with membership := ledger })
      (fun ledger => { compacted with membership := ledger })
      plainResult compactedResult
      (fun _ _ => mirrors.plainSound.applyMembership_eq_ok_iff)
      (fun _ _ => mirrors.compactedSound.applyMembership_eq_ok_iff)
  have plainSound : (Fallible.keep plain plainResult).Sound hash scope :=
    Fallible.keep_of (Sound hash scope) mirrors.plainSound fun _ _ => mirrors.plainSound.applyMembership
  have compactedSound : (Fallible.keep compacted compactedResult).Sound hash scope :=
    Fallible.keep_of (Sound hash scope) mirrors.compactedSound fun _ _ => mirrors.compactedSound.applyMembership
  change Fallible.keep plain plainResult = _ at plainEq
  change Fallible.keep compacted compactedResult = _ at compactedEq
  rw [plainEq] at plainSound ⊢
  rw [compactedEq] at compactedSound ⊢
  exact ⟨same, plainSound, compactedSound, mirrors.quota, mirrored, mirrors.catalog⟩

/-- A catalog record applies in both stores or in neither, when the memberships
it is verified against have the same members. -/
theorem Mirrors.applyCatalog
    (mirrors : Mirrors hash scope plain compacted)
    (room : plain.ensureReplicationCapacity usedBytes = .ok ())
    (room' : compacted.ensureReplicationCapacity usedBytes' = .ok ())
    {membership membership' : MembershipView}
    (members : membership'.records = membership.records)
    {record : CatalogRecord}
    (provenance : RecordProvenance)
    (injective : ∀ other ∈ plain.catalogOperations,
      hash.catalog other = hash.catalog record → other = record) :
    let plainResult := plain.applyCatalog hash scope usedBytes membership record provenance
    let compactedResult :=
      compacted.applyCatalog hash scope usedBytes' membership' record provenance
    applies plainResult = applies compactedResult ∧
      Mirrors hash scope (Fallible.keep plain plainResult)
        (Fallible.keep compacted compactedResult) := by
  intro plainResult compactedResult
  let rules := CatalogView.rules hash.catalog fun record =>
    record.verify provenance scope membership = .ok ()
  have compactedSpec : ∀ outcome next, compactedResult = .ok (outcome, next) ↔
      ∃ after, compacted.catalog.Ingests rules hash.catalog catalogStorable
          (compacted.ensureReplicationCapacity usedBytes') record outcome after ∧
        next = { compacted with catalog := after } := by
    intro outcome next
    have rules_eq : rules = CatalogView.rules hash.catalog fun record =>
        record.verify provenance scope membership' = .ok () := by
      simp only [rules, CatalogRecord.verify_congr members]
    rw [rules_eq]
    exact mirrors.compactedSound.applyCatalog_eq_ok_iff
  obtain ⟨same, plainAfter, compactedAfter, mirrored, plainEq, compactedEq⟩ :=
    mirrors.catalog.keep rules mirrors.plainSound.catalog rfl rfl injective room room'
      (fun ledger => { plain with catalog := ledger })
      (fun ledger => { compacted with catalog := ledger })
      plainResult compactedResult
      (fun _ _ => mirrors.plainSound.applyCatalog_eq_ok_iff) compactedSpec
  have plainSound : (Fallible.keep plain plainResult).Sound hash scope :=
    Fallible.keep_of (Sound hash scope) mirrors.plainSound fun _ _ => mirrors.plainSound.applyCatalog
  have compactedSound : (Fallible.keep compacted compactedResult).Sound hash scope :=
    Fallible.keep_of (Sound hash scope) mirrors.compactedSound fun _ _ => mirrors.compactedSound.applyCatalog
  change Fallible.keep plain plainResult = _ at plainEq
  change Fallible.keep compacted compactedResult = _ at compactedEq
  rw [plainEq] at plainSound ⊢
  rw [compactedEq] at compactedSound ⊢
  exact ⟨same, plainSound, compactedSound, mirrors.quota, mirrors.membership, mirrored⟩

/-- Both stores hold the same members. -/
theorem Mirrors.membershipView (mirrors : Mirrors hash scope plain compacted) :
    ∃ membership membership' : MembershipView,
      plain.membershipView hash scope = .ok membership ∧
      compacted.membershipView hash scope = .ok membership' ∧
      membership'.records = membership.records := by
  obtain ⟨view, replayed, records, _⟩ := mirrors.plainSound.fromRecords_membership
  obtain ⟨view', replayed', records', _⟩ := mirrors.compactedSound.fromRecords_membership
  refine ⟨view, view', ?_, ?_, ?_⟩
  · rw [AgentStore.membershipView, Fallible.mapError_eq_ok_iff, replayed]
  · rw [AgentStore.membershipView, Fallible.mapError_eq_ok_iff, replayed']
  · rw [records, records', mirrors.membership.winners]

/-- The records that a store knows or that are offered to it have content hashes
that do not collide. -/
structure CollisionFree (hash : ContentHash) (store : AgentStore) (offers : List Offer) :
    Prop where
  membership : Set.InjOn hash.membership
    {record | record ∈ store.membershipOperations ∨
      ∃ usedBytes, .membership usedBytes record ∈ offers}
  catalog : Set.InjOn hash.catalog
    {record | record ∈ store.catalogOperations ∨
      ∃ usedBytes provenance, .catalog usedBytes record provenance ∈ offers}

/-- An accepted offer changes neither the quota nor any log beyond the record
that it appends. -/
theorem Sound.offer_frame
    {store next : AgentStore}
    (sound : store.Sound hash scope)
    {outcome : Outcome}
    (accepted : store.offer hash scope offered = .ok (outcome, next)) :
    next.softQuotaBytes = store.softQuotaBytes ∧
      (∀ record ∈ next.membershipOperations, record ∈ store.membershipOperations ∨
        ∃ usedBytes, offered = .membership usedBytes record) ∧
      ∀ record ∈ next.catalogOperations, record ∈ store.catalogOperations ∨
        ∃ usedBytes provenance, offered = .catalog usedBytes record provenance := by
  cases offered with
  | membership usedBytes record =>
      obtain ⟨after, ⟨_, _, rfl⟩ | ⟨_, _, _, _, rfl⟩, rfl⟩ :=
        sound.applyMembership_eq_ok_iff.mp accepted
      · exact ⟨rfl, fun _ => Or.inl, fun _ => Or.inl⟩
      · refine ⟨rfl, fun other member => ?_, fun _ => Or.inl⟩
        rcases List.mem_append.mp member with old | new
        · exact Or.inl old
        · exact Or.inr ⟨usedBytes, by rw [List.mem_singleton.mp new]⟩
  | catalog usedBytes record provenance =>
      simp only [offer] at accepted
      split at accepted
      · simp at accepted
      · obtain ⟨after, ⟨_, _, rfl⟩ | ⟨_, _, _, _, rfl⟩, rfl⟩ :=
          sound.applyCatalog_eq_ok_iff.mp accepted
        · exact ⟨rfl, fun _ => Or.inl, fun _ => Or.inl⟩
        · refine ⟨rfl, fun _ => Or.inl, fun other member => ?_⟩
          rcases List.mem_append.mp member with old | new
          · exact Or.inl old
          · exact Or.inr ⟨usedBytes, provenance, by rw [List.mem_singleton.mp new]⟩

/-- Absence of collisions survives an offer. -/
theorem CollisionFree.keep
    {store : AgentStore}
    {offers : List Offer}
    (collisionFree : CollisionFree hash store (offered :: offers))
    (sound : store.Sound hash scope) :
    CollisionFree hash (Fallible.keep store (store.offer hash scope offered)) offers := by
  refine Fallible.keep_of (CollisionFree hash · offers) ?_ ?_
  · exact ⟨collisionFree.membership.mono fun record =>
        Or.imp_right fun ⟨usedBytes, member⟩ => ⟨usedBytes, List.mem_cons_of_mem _ member⟩,
      collisionFree.catalog.mono fun record => Or.imp_right
        fun ⟨usedBytes, provenance, member⟩ =>
          ⟨usedBytes, provenance, List.mem_cons_of_mem _ member⟩⟩
  · intro outcome next accepted
    obtain ⟨_, members, catalog⟩ := sound.offer_frame accepted
    refine ⟨collisionFree.membership.mono ?_, collisionFree.catalog.mono ?_⟩
    · rintro record (logged | ⟨usedBytes, member⟩)
      · rcases members record logged with old | ⟨usedBytes, rfl⟩
        · exact Or.inl old
        · exact Or.inr ⟨usedBytes, List.mem_cons_self⟩
      · exact Or.inr ⟨usedBytes, List.mem_cons_of_mem _ member⟩
    · rintro record (logged | ⟨usedBytes, provenance, member⟩)
      · rcases catalog record logged with old | ⟨usedBytes, provenance, rfl⟩
        · exact Or.inl old
        · exact Or.inr ⟨usedBytes, provenance, List.mem_cons_self⟩
      · exact Or.inr ⟨usedBytes, provenance, List.mem_cons_of_mem _ member⟩

theorem Sound.keep_offer_quota
    {store : AgentStore}
    (sound : store.Sound hash scope)
    (offered : Offer) :
    (Fallible.keep store (store.offer hash scope offered)).softQuotaBytes =
      store.softQuotaBytes :=
  Fallible.keep_of (fun next => next.softQuotaBytes = store.softQuotaBytes) rfl
    fun _ _ accepted => (sound.offer_frame accepted).1

/-- Capacity depends only on the quota. -/
theorem ensureReplicationCapacity_congr
    {store store' : AgentStore}
    (same : store.softQuotaBytes = store'.softQuotaBytes)
    (usedBytes : ℕ) :
    store.ensureReplicationCapacity usedBytes =
      store'.ensureReplicationCapacity usedBytes := by
  rw [ensureReplicationCapacity, ensureReplicationCapacity, same]

/-- An offer applies in both stores or in neither. -/
theorem Mirrors.offer
    (mirrors : Mirrors hash scope plain compacted)
    {offers : List Offer}
    (same : SameRecord offered offered')
    (room : plain.ensureReplicationCapacity offered.usedBytes = .ok ())
    (room' : compacted.ensureReplicationCapacity offered'.usedBytes = .ok ())
    (collisionFree : CollisionFree hash plain (offered :: offers)) :
    let plainResult := plain.offer hash scope offered
    let compactedResult := compacted.offer hash scope offered'
    applies plainResult = applies compactedResult ∧
      Mirrors hash scope (Fallible.keep plain plainResult)
        (Fallible.keep compacted compactedResult) := by
  cases same with
  | membership usedBytes usedBytes' record =>
      refine mirrors.applyMembership room room' fun other logged equal => ?_
      exact collisionFree.membership (Or.inl logged)
        (Or.inr ⟨usedBytes, List.mem_cons_self⟩) equal
  | catalog usedBytes usedBytes' record provenance =>
      obtain ⟨membership, membership', viewed, viewed', members⟩ := mirrors.membershipView
      simp only [AgentStore.offer, viewed, viewed']
      refine mirrors.applyCatalog room room' members provenance fun other logged equal => ?_
      exact collisionFree.catalog (Or.inl logged)
        (Or.inr ⟨usedBytes, provenance, List.mem_cons_self⟩) equal

/-- Offers made with and without compactions leave mirrored stores and report
the same applications. -/
theorem Mirrors.play
    {moves : List Move}
    (interleaves : Interleaves offers moves)
    (mirrors : Mirrors hash scope plain compacted)
    (collisionFree : CollisionFree hash plain offers)
    (room : ∀ offered ∈ offers,
      plain.ensureReplicationCapacity offered.usedBytes = .ok ())
    (room' : ∀ offered, .offer offered ∈ moves →
      compacted.ensureReplicationCapacity offered.usedBytes = .ok ()) :
    Mirrors hash scope (AgentStore.play hash scope plain (offers.map .offer)).1
        (AgentStore.play hash scope compacted moves).1 ∧
      (AgentStore.play hash scope plain (offers.map .offer)).2 =
        (AgentStore.play hash scope compacted moves).2 := by
  induction interleaves generalizing plain compacted with
  | nil => exact ⟨mirrors, rfl⟩
  | compactOperations _ inductionHypothesis =>
      exact inductionHypothesis mirrors.compactOperations collisionFree room
        fun offered member => room' offered (List.mem_cons_of_mem _ member)
  | offer same _ inductionHypothesis =>
      rw [List.forall_mem_cons] at room
      obtain ⟨applied, mirrored⟩ := mirrors.offer same room.1
        (room' _ List.mem_cons_self) collisionFree
      obtain ⟨final, flags⟩ := inductionHypothesis mirrored
        (collisionFree.keep mirrors.plainSound)
        (fun offered member => by
          rw [ensureReplicationCapacity_congr (mirrors.plainSound.keep_offer_quota _)]
          exact room.2 offered member)
        (fun offered member => by
          rw [ensureReplicationCapacity_congr (mirrors.compactedSound.keep_offer_quota _)]
          exact room' offered (List.mem_cons_of_mem _ member))
      exact ⟨final, by simp only [List.map_cons, AgentStore.play, applied, flags]⟩

/-- Every initial part of the moves makes an initial part of the offers. -/
theorem Interleaves.initial
    (interleaves : Interleaves offers moves)
    (initial : early <+: moves) :
    ∃ offered, offered <+: offers ∧ Interleaves offered early := by
  induction interleaves generalizing early with
  | nil =>
      obtain rfl := List.prefix_nil.mp initial
      exact ⟨[], List.nil_prefix, .nil⟩
  | compactOperations _ inductionHypothesis =>
      rcases List.prefix_cons_iff.mp initial with rfl | ⟨rest, rfl, shorter⟩
      · exact ⟨[], List.nil_prefix, .nil⟩
      · obtain ⟨offered, within, interleaved⟩ := inductionHypothesis shorter
        exact ⟨offered, within, .compactOperations interleaved⟩
  | offer same _ inductionHypothesis =>
      rcases List.prefix_cons_iff.mp initial with rfl | ⟨rest, rfl, shorter⟩
      · exact ⟨[], List.nil_prefix, .nil⟩
      · obtain ⟨offered, within, interleaved⟩ := inductionHypothesis shorter
        exact ⟨_ :: offered, List.prefix_cons_inj _ |>.mpr within, .offer same interleaved⟩

/-- Compaction is unobservable.  Take any store the agent can reach, any sequence
of membership and catalog offers, and the same offers with compactions inserted
at arbitrary points, the quota never being reached.  After every initial part
the two stores have the same latest membership and the same latest catalog, and
every offer so far was applied in both runs or in neither. -/
theorem play_compacted_eq_plain
    (hash : ContentHash)
    (scope : MembershipScope)
    (calls : List StoreCall)
    (offers : List Offer)
    (moves : List Move)
    (interleaves : Interleaves offers moves)
    (collisionFree : CollisionFree hash (run hash scope empty calls) offers)
    (room : ∀ offered ∈ offers,
      (run hash scope empty calls).ensureReplicationCapacity offered.usedBytes = .ok ())
    (room' : ∀ offered, .offer offered ∈ moves →
      (run hash scope empty calls).ensureReplicationCapacity offered.usedBytes = .ok ()) :
    ∀ early, early <+: moves → ∃ offered, offered <+: offers ∧ Interleaves offered early ∧
      (play hash scope (run hash scope empty calls) (offered.map .offer)).1.latestMembership =
          (play hash scope (run hash scope empty calls) early).1.latestMembership ∧
        (play hash scope (run hash scope empty calls) (offered.map .offer)).1.latestCatalog =
          (play hash scope (run hash scope empty calls) early).1.latestCatalog ∧
        (play hash scope (run hash scope empty calls) (offered.map .offer)).2 =
          (play hash scope (run hash scope empty calls) early).2 := by
  intro early initial
  have sound : (run hash scope empty calls).Sound hash scope := sound_empty.run calls
  obtain ⟨offered, within, interleaved⟩ := interleaves.initial initial
  have fewer : CollisionFree hash (run hash scope empty calls) offered :=
    ⟨collisionFree.membership.mono fun _ => Or.imp_right
        fun ⟨usedBytes, member⟩ => ⟨usedBytes, within.subset member⟩,
      collisionFree.catalog.mono fun _ => Or.imp_right
        fun ⟨usedBytes, provenance, member⟩ => ⟨usedBytes, provenance, within.subset member⟩⟩
  obtain ⟨mirrored, flags⟩ := Mirrors.play interleaved
    ⟨sound, sound, rfl, .refl _, .refl _⟩ fewer
    (fun offer member => room offer (within.subset member))
    (fun offer member => room' offer (initial.subset member))
  exact ⟨offered, within, interleaved, mirrored.latest.1, mirrored.latest.2, flags⟩

/-- The content hashes of a member pushed twice and of one of its deployments. -/
def pushedHash : ContentHash where
  membership := lookupId
    [(sampleMember "a" "alpha" 1 1 1 .active,
        "17be4496d8f80dbf3bedc6ee322fa32bcbcbfed271df31c7ff8d51cc5208bb4d"),
      (sampleMember "a" "alpha" 1 1 2 .active,
        "b4682bf6e567f4462cc83b3c911c207df2ff85afaed672f653486e9a2b607301")]
  catalog := lookupId
    [(sampleDeployment "d1" "r" "a" 1 1 .active .healthy,
        "8707bd0fdb08f910917a8935f5031701afe4aae8231a4d5bb615829ed43a7134")]
  desired := lookupId []

/-- A member is pushed, deploys, is pushed again, and its first record returns. -/
def pushedOffers : List Offer :=
  [.membership 0 (sampleMember "a" "alpha" 1 1 1 .active),
    .catalog 0 (sampleDeployment "d1" "r" "a" 1 1 .active .healthy) .localNode,
    .membership 0 (sampleMember "a" "alpha" 1 1 2 .active),
    .membership 0 (sampleMember "a" "alpha" 1 1 1 .active)]

/-- The same offers with a compaction before the first record returns. -/
def pushedMoves : List Move :=
  [.offer (.membership 0 (sampleMember "a" "alpha" 1 1 1 .active)),
    .offer (.catalog 0 (sampleDeployment "d1" "r" "a" 1 1 .active .healthy) .localNode),
    .offer (.membership 0 (sampleMember "a" "alpha" 1 1 2 .active)),
    .compactOperations,
    .offer (.membership 0 (sampleMember "a" "alpha" 1 1 1 .active))]

theorem play_compacted_eq_plain_pushed :
    CollisionFree pushedHash (run pushedHash ⟨"p", 1⟩ empty []) pushedOffers ∧
      ∀ early, early <+: pushedMoves →
        ∃ offered, offered <+: pushedOffers ∧ Interleaves offered early ∧
          (play pushedHash ⟨"p", 1⟩ (run pushedHash ⟨"p", 1⟩ empty [])
              (offered.map .offer)).1.latestMembership =
            (play pushedHash ⟨"p", 1⟩ (run pushedHash ⟨"p", 1⟩ empty [])
              early).1.latestMembership ∧
          (play pushedHash ⟨"p", 1⟩ (run pushedHash ⟨"p", 1⟩ empty [])
              (offered.map .offer)).1.latestCatalog =
            (play pushedHash ⟨"p", 1⟩ (run pushedHash ⟨"p", 1⟩ empty [])
              early).1.latestCatalog ∧
          (play pushedHash ⟨"p", 1⟩ (run pushedHash ⟨"p", 1⟩ empty [])
              (offered.map .offer)).2 =
            (play pushedHash ⟨"p", 1⟩ (run pushedHash ⟨"p", 1⟩ empty []) early).2 := by
  have collisionFree : CollisionFree pushedHash (run pushedHash ⟨"p", 1⟩ empty [])
      pushedOffers := by
    constructor
    · rintro left (logged | ⟨_, leftOffered⟩) right (logged | ⟨_, rightOffered⟩) equal
      · exact absurd logged (by simp [run, empty, Ledger.empty, membershipOperations])
      · exact absurd logged (by simp [run, empty, Ledger.empty, membershipOperations])
      · exact absurd logged (by simp [run, empty, Ledger.empty, membershipOperations])
      · simp only [pushedOffers, List.mem_cons, Offer.membership.injEq, reduceCtorEq,
          List.not_mem_nil, or_false, false_or] at leftOffered rightOffered
        rcases leftOffered with ⟨_, rfl⟩ | ⟨_, rfl⟩ | ⟨_, rfl⟩ <;>
          rcases rightOffered with ⟨_, rfl⟩ | ⟨_, rfl⟩ | ⟨_, rfl⟩ <;>
          first | rfl | exact absurd equal (by decide)
    · rintro left (logged | ⟨_, _, leftOffered⟩) right (logged | ⟨_, _, rightOffered⟩) _
      · exact absurd logged (by simp [run, empty, Ledger.empty, catalogOperations])
      · exact absurd logged (by simp [run, empty, Ledger.empty, catalogOperations])
      · exact absurd logged (by simp [run, empty, Ledger.empty, catalogOperations])
      · simp only [pushedOffers, List.mem_cons, Offer.catalog.injEq, reduceCtorEq,
          List.not_mem_nil, or_false, false_or] at leftOffered rightOffered
        rw [leftOffered.2.1, rightOffered.2.1]
  refine ⟨collisionFree, play_compacted_eq_plain pushedHash ⟨"p", 1⟩ [] pushedOffers
    pushedMoves ?_ collisionFree (fun _ _ => rfl) (fun _ _ => rfl)⟩
  exact .offer (.membership ..) (.offer (.catalog ..) (.offer (.membership ..)
    (.compactOperations (.offer (.membership ..) .nil))))

end AgentStore
end Agent
end Jiji
