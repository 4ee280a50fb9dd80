import Jiji.Agent.Exchange

/-!
# Isolation of owners in a snapshot exchange

An exchange is attributed to the node that sent it, but its records choose their
deployments and replicas freely.  This module says when an exchange leaves the
records of other owners alone and refuses none of the records that they may
offer later: exactly when no record that it leaves stored takes a deployment
from another owner, raises the epoch of a replica or of a deployment, or buries
a deployment.
-/

namespace Jiji
namespace Agent
namespace AgentStore

open Network Replication

/-- A store takes a catalog record, judged by its own membership. -/
def Accepts
    (hash : ContentHash)
    (scope : MembershipScope)
    (usedBytes : ℕ)
    (store : AgentStore)
    (record : CatalogRecord)
    (provenance : RecordProvenance) : Prop :=
  ∃ membership outcome next, store.membershipView hash scope = .ok membership ∧
    store.applyCatalog hash scope usedBytes membership record provenance =
      .ok (outcome, next)

/-- The records of owners other than a node are still stored, and every record of
such an owner that was acceptable still is. -/
structure Isolated
    (hash : ContentHash)
    (scope : MembershipScope)
    (node : String)
    (before after : AgentStore) : Prop where
  unchanged : ∀ record ∈ before.latestCatalog, record.ownerNodeId ≠ node →
    record ∈ after.latestCatalog
  accepted : ∀ record ∈ before.latestCatalog, record.ownerNodeId ≠ node →
    ∀ later : CatalogRecord, later.ownerNodeId = record.ownerNodeId →
      ∀ usedBytes provenance, before.Accepts hash scope usedBytes later provenance →
        after.Accepts hash scope usedBytes later provenance

/-- A newly stored record that neither takes a deployment from another owner nor
narrows what another owner may store: the epoch of its replica and of its
deployment was as large before, and it buries nothing that was not buried. -/
structure Harmless
    (node : String)
    (slots : Slots String CatalogRecord)
    (record : CatalogRecord) : Prop where
  owned : ∀ current, slots record.deploymentId = some current →
    current.ownerNodeId = node
  fence : record.ownerEpoch ≤ 1 ∨ ∃ deployment current, slots deployment = some current ∧
    current.replicaId = record.replicaId ∧ record.ownerEpoch ≤ current.ownerEpoch
  epoch : record.ownerEpoch ≤ 1 ∨ ∃ current, slots record.deploymentId = some current ∧
    record.ownerEpoch ≤ current.ownerEpoch
  tombstone : record.state = .tombstoned → fitsColumn (record.revision + 1) = false ∨
    ∃ current, slots record.deploymentId = some current ∧
      current.state = .tombstoned ∧ current.ownerEpoch = record.ownerEpoch

variable {hash : ContentHash} {identity : NodeIdentity} {peer : SocketAddr}
variable {usedBytes : ℕ → ℕ} {membership : MembershipView} {scope : MembershipScope}
variable {store final : AgentStore} {record : CatalogRecord}

/-- A store takes a record that it logged, or one that there is room for and that
passes its guards. -/
theorem Sound.accepts_iff
    (sound : store.Sound hash scope)
    (rebuilt : store.membershipView hash scope = .ok membership) :
    store.Accepts hash scope used record provenance ↔
      hash.catalog record ∈ store.catalog.operations.map hash.catalog ∨
        (store.ensureReplicationCapacity used = .ok () ∧
          (CatalogView.rules hash.catalog fun record =>
            record.verify provenance scope membership = .ok ()).Accepts (catalogStorable ∅)
              (slotsOf store.catalog.winners) record) := by
  rw [← Ledger.exists_ingests_iff_accepts]
  constructor
  · rintro ⟨members, outcome, next, found, accepted⟩
    obtain rfl : membership = members := Except.ok.inj (rebuilt.symm.trans found)
    obtain ⟨after, taken, _⟩ := sound.applyCatalog_eq_ok_iff.mp accepted
    exact ⟨outcome, after, taken⟩
  · rintro ⟨outcome, after, taken⟩
    exact ⟨membership, outcome, _, rebuilt,
      sound.applyCatalog_eq_ok_iff.mpr ⟨after, taken, rfl⟩⟩

section Sufficiency

variable {node : String} {slots after : Slots String CatalogRecord}
variable {admits : CatalogRecord → Prop}

/-- When every newly stored record is harmless, the guards let pass whatever they
let pass before. -/
theorem accepts_of_harmless
    (rises : ∀ deployment current, slots deployment = some current →
      ∃ later, after deployment = some later ∧
        current.order hash.catalog ≤ later.order hash.catalog)
    (harmless : ∀ current, after current.deploymentId = some current →
      slots current.deploymentId ≠ some current → Harmless node slots current)
    (keyed : ∀ deployment current, after deployment = some current →
      current.deploymentId = deployment)
    (positive : admits record → record.ownerEpoch ≠ 0)
    (accepts : (CatalogView.rules hash.catalog admits).Accepts (catalogStorable ∅) slots
      record) :
    (CatalogView.rules hash.catalog admits).Accepts (catalogStorable ∅) after record := by
  obtain ⟨admitted, lawful⟩ := accepts
  simp only [CatalogView.rules, not_or, not_not] at admitted
  obtain ⟨isAdmitted, unfenced, current⟩ := admitted
  have epoch_pos := positive isAdmitted
  have new : ∀ {deployment current}, after deployment = some current →
      slots deployment = some current ∨ Harmless node slots current := by
    intro deployment current stands
    obtain rfl := keyed deployment current stands
    exact or_iff_not_imp_left.mpr (harmless current stands)
  refine ⟨?_, ?_⟩
  · simp only [CatalogView.rules, not_or, not_not]
    refine ⟨isAdmitted, ?_, ?_⟩
    · rintro ⟨deployment, standing, stands, replica, exceeds⟩
      rcases new stands with before | harmless
      · exact unfenced ⟨deployment, standing, before, replica, exceeds⟩
      · rcases harmless.fence with low | ⟨other, earlier, before, same, bound⟩
        · omega
        · exact unfenced ⟨other, earlier, before, same.trans replica, by omega⟩
    · rintro ⟨standing, stands, exceeds⟩
      rcases new stands with before | harmless
      · exact current ⟨standing, before, exceeds⟩
      · rcases harmless.epoch with low | ⟨earlier, before, bound⟩
        · omega
        · rw [keyed _ _ stands] at before
          exact current ⟨earlier, before, by omega⟩
  · intro outranks
    obtain ⟨unblocked, storable⟩ := lawful fun standing stands => by
      obtain ⟨later, laterStands, bound⟩ := rises _ _ stands
      exact bound.trans_lt (outranks later laterStands)
    refine ⟨?_, storable⟩
    rintro ⟨standing, stands, tombstoned, revived, epoch⟩
    rcases new stands with before | harmless
    · exact unblocked ⟨standing, before, tombstoned, revived, epoch⟩
    · rcases harmless.tombstone tombstoned with full | ⟨earlier, before, buried, same⟩
      · have larger := CatalogRecord.revision_lt_of_order_lt (outranks standing stands)
          tombstoned revived epoch
        simp only [catalogStorable, Bool.and_eq_true, fitsColumn, decide_eq_true_eq] at storable
        simp only [fitsColumn, decide_eq_false_iff_not] at full
        omega
      · rw [keyed _ _ stands] at before
        exact unblocked ⟨earlier, before, buried, revived, epoch.trans same.symm⟩

end Sufficiency

section Necessity

variable {node : String} {after : AgentStore} {used : ℕ}

/-- What an exchange leaves of a store: the catalog moved up, and the members, the
quota and what was logged stayed. -/
structure Exchanged
    (hash : ContentHash)
    (scope : MembershipScope)
    (before after : AgentStore) : Prop where
  beforeSound : before.Sound hash scope
  afterSound : after.Sound hash scope
  members : after.membership = before.membership
  quota : after.softQuotaBytes = before.softQuotaBytes
  rises : ∀ deployment current,
    slotsOf before.catalog.winners deployment = some current →
      ∃ later, slotsOf after.catalog.winners deployment = some later ∧
        current.order hash.catalog ≤ later.order hash.catalog
  logged : before.catalogOperations ⊆ after.catalogOperations
  unique : ∀ record ∈ after.catalogOperations, ∀ other,
    hash.catalog other = hash.catalog record → other = record

/-- The members are the same before and after an exchange. -/
theorem Exchanged.views (exchanged : Exchanged hash scope store after) :
    ∃ membership, store.membershipView hash scope = .ok membership ∧
      after.membershipView hash scope = .ok membership := by
  obtain ⟨membership, rebuilt, _⟩ := exchanged.beforeSound.fromRecords_membership
  have found : store.membershipView hash scope = .ok membership := by
    rw [membershipView, rebuilt]
    rfl
  refine ⟨membership, found, ?_⟩
  rw [membershipView, membershipOperations, exchanged.members]
  exact found

/-- The record of an owner that was there before passes the guards afterwards
whenever it passed them before. -/
theorem Isolated.passes
    (isolated : Isolated hash scope node store after)
    (exchanged : Exchanged hash scope store after)
    (record : CatalogRecord)
    (stored : foreign ∈ store.latestCatalog)
    (isForeign : foreign.ownerNodeId ≠ node)
    (capacity : store.ensureReplicationCapacity used = .ok ())
    (owner : record.ownerNodeId = foreign.ownerNodeId)
    (authentic : record.Authentic scope)
    (storable : catalogStorable ∅ record = true)
    (new : record ∉ after.catalogOperations)
    (passes : Passes hash (slotsOf store.catalog.winners) record) :
    Passes hash (slotsOf after.catalog.winners) record := by
  obtain ⟨membership, found, foundAfter⟩ := exchanged.views
  have verified : record.verify .localNode scope membership = .ok () :=
    CatalogRecord.verify_eq_ok_iff.mpr ⟨authentic, rfl⟩
  have accepted : store.Accepts hash scope used record .localNode :=
    (exchanged.beforeSound.accepts_iff found).mpr (Or.inr ⟨capacity,
      fun barred => barred.elim (fun refused => refused verified) fun barred =>
        barred.elim passes.unfenced passes.current,
      fun outranks => ⟨passes.lawful outranks, storable⟩⟩)
  have acceptedAfter := isolated.accepted foreign stored isForeign record owner used .localNode
    accepted
  rcases (exchanged.afterSound.accepts_iff foundAfter).mp acceptedAfter with
    logged | ⟨_, admitted, lawful⟩
  · obtain ⟨other, member, same⟩ := List.mem_map.mp logged
    exact absurd (exchanged.unique other member record same.symm ▸ member) new
  · exact ⟨fun fenced => admitted (Or.inr (Or.inl fenced)),
      fun stale => admitted (Or.inr (Or.inr stale)), fun outranks => (lawful outranks).1⟩

theorem exists_fresh_name (names : List String) : ∃ name, name ≠ "" ∧ name ∉ names := by
  obtain ⟨name, fresh⟩ := Infinite.exists_notMem_finset ("" :: names).toFinset
  simp only [List.mem_toFinset, List.mem_cons, not_or] at fresh
  exact ⟨name, fresh⟩

/-- No standing record has a deployment or a replica that was never logged. -/
theorem Exchanged.unknown
    (exchanged : Exchanged hash scope store after)
    (field : CatalogRecord → String)
    (fresh : name ∉ after.catalogOperations.map field)
    (stands : slotsOf store.catalog.winners deployment = some current) :
    field current ≠ name := by
  rintro rfl
  exact fresh (List.mem_map_of_mem
    (exchanged.logged (exchanged.beforeSound.catalog.logged stands)))

/-- The record of another owner that otherwise resembles a stored one. -/
def rival
    (record : CatalogRecord)
    (owner replicaId deploymentId : String)
    (ownerEpoch revision : ℕ)
    (state : DeploymentState) : CatalogRecord :=
  { record with
    ownerNodeId := owner
    replicaId := replicaId
    deploymentId := deploymentId
    ownerEpoch := ownerEpoch
    revision := revision
    state := state }

theorem rival_authentic
    (authentic : record.Authentic scope)
    (named : owner ≠ "")
    (replica : replicaId ≠ "")
    (deployment : deploymentId ≠ "")
    (epoch : ownerEpoch ≠ 0)
    (revised : revision ≠ 0) :
    (rival record owner replicaId deploymentId ownerEpoch revision state).Authentic
      scope := by
  obtain ⟨valid, project, recovery⟩ := authentic
  rw [CatalogRecord.validate_eq_ok_iff] at valid
  obtain ⟨protocol, schema, projectNamed, serviceNamed, _⟩ := valid
  refine ⟨CatalogRecord.validate_eq_ok_iff.mpr ?_, project, recovery⟩
  exact ⟨protocol, schema, projectNamed, serviceNamed, replica, named, deployment, revised,
    epoch⟩

theorem storable_rival
    (storable : catalogStorable ∅ record = true) :
    catalogStorable ∅ (rival record owner replicaId deploymentId (record.ownerEpoch - 1)
      record.revision state) = true := by
  simp only [catalogStorable, fitsColumn, Bool.and_eq_true, decide_eq_true_eq] at storable ⊢
  exact ⟨(Nat.sub_le _ _).trans_lt storable.1, storable.2⟩

section Stored

variable {foreign : CatalogRecord}
  (isolated : Isolated hash scope node store after)
  (exchanged : Exchanged hash scope store after)
  (stored : foreign ∈ store.latestCatalog)
  (isForeign : foreign.ownerNodeId ≠ node)
  (named : foreign.ownerNodeId ≠ "")
  (capacity : store.ensureReplicationCapacity used = .ok ())
  (authentic : record.Authentic scope)
  (storable : catalogStorable ∅ record = true)
  (stands : slotsOf after.catalog.winners record.deploymentId = some record)

include isolated exchanged stored isForeign named capacity authentic storable stands

/-- A newly stored record of an isolated exchange does not raise the epoch of its
replica: another owner could otherwise have stored a record of a new deployment
just below it. -/
theorem Isolated.fence :
    record.ownerEpoch ≤ 1 ∨ ∃ deployment current,
      slotsOf store.catalog.winners deployment = some current ∧
        current.replicaId = record.replicaId ∧ record.ownerEpoch ≤ current.ownerEpoch := by
  by_contra raises
  push Not at raises
  obtain ⟨above, below⟩ := raises
  obtain ⟨fresh, nonempty, unused⟩ :=
    exists_fresh_name (after.catalogOperations.map CatalogRecord.deploymentId)
  have unknown : ∀ current, slotsOf store.catalog.winners fresh ≠ some current := by
    intro current known
    exact exchanged.unknown _ unused known (exchanged.beforeSound.catalog.keyed _ _ known)
  obtain ⟨_, _, _, _, replica, _, _, revised, _⟩ :=
    CatalogRecord.validate_eq_ok_iff.mp authentic.1
  have passes : Passes hash (slotsOf store.catalog.winners)
      (rival record foreign.ownerNodeId record.replicaId fresh (record.ownerEpoch - 1)
        record.revision record.state) := by
    refine ⟨?_, ?_, ?_⟩
    · rintro ⟨deployment, current, known, same, exceeds⟩
      have bound := below deployment current known same
      simp only [rival] at exceeds
      omega
    · rintro ⟨current, known, _⟩
      exact unknown current known
    · rintro _ ⟨current, known, _⟩
      exact unknown current known
  have after := isolated.passes exchanged (rival record _ _ _ _ _ _) stored isForeign capacity rfl
    (rival_authentic authentic named replica nonempty (by omega) revised)
    (storable_rival storable) (fun member => unused (List.mem_map.mpr ⟨_, member, rfl⟩))
    passes
  refine after.unfenced ⟨_, record, stands, rfl, ?_⟩
  simp only [rival]
  omega

/-- A newly stored record of an isolated exchange does not raise the epoch of its
deployment: another owner could otherwise have stored a tombstone just below it. -/
theorem Isolated.epoch :
    record.ownerEpoch ≤ 1 ∨ ∃ current,
      slotsOf store.catalog.winners record.deploymentId = some current ∧
        record.ownerEpoch ≤ current.ownerEpoch := by
  by_contra raises
  push Not at raises
  obtain ⟨above, below⟩ := raises
  obtain ⟨fresh, nonempty, unused⟩ :=
    exists_fresh_name (after.catalogOperations.map CatalogRecord.replicaId)
  obtain ⟨_, _, _, _, _, _, deployment, revised, _⟩ :=
    CatalogRecord.validate_eq_ok_iff.mp authentic.1
  have passes : Passes hash (slotsOf store.catalog.winners)
      (rival record foreign.ownerNodeId fresh record.deploymentId (record.ownerEpoch - 1)
        record.revision .tombstoned) := by
    refine ⟨?_, ?_, ?_⟩
    · rintro ⟨_, current, known, same, _⟩
      exact exchanged.unknown _ unused known same
    · rintro ⟨current, known, exceeds⟩
      have bound := below current known
      simp only [rival] at exceeds
      omega
    · rintro _ ⟨_, _, _, revived, _⟩
      exact revived rfl
  have after := isolated.passes exchanged (rival record _ _ _ _ _ _) stored isForeign capacity rfl
    (rival_authentic authentic named nonempty deployment (by omega) revised)
    (storable_rival storable) (fun member => unused (List.mem_map.mpr ⟨_, member, rfl⟩))
    passes
  refine after.current ⟨record, stands, ?_⟩
  simp only [rival]
  omega

/-- A newly stored tombstone of an isolated exchange buries nothing: another owner
could otherwise have stored the next revision of the deployment. -/
theorem Isolated.tombstone
    (tombstoned : record.state = .tombstoned) :
    fitsColumn (record.revision + 1) = false ∨ ∃ current,
      slotsOf store.catalog.winners record.deploymentId = some current ∧
        current.state = .tombstoned ∧ current.ownerEpoch = record.ownerEpoch := by
  by_contra buries
  simp only [not_or, Bool.not_eq_false, not_exists] at buries
  obtain ⟨room, unburied⟩ := buries
  obtain ⟨fresh, nonempty, unused⟩ :=
    exists_fresh_name (after.catalogOperations.map CatalogRecord.replicaId)
  obtain ⟨_, _, _, _, _, _, deployment, _, epoch⟩ :=
    CatalogRecord.validate_eq_ok_iff.mp authentic.1
  have passes : Passes hash (slotsOf store.catalog.winners)
      (rival record foreign.ownerNodeId fresh record.deploymentId record.ownerEpoch
        (record.revision + 1) .active) := by
    refine ⟨?_, ?_, ?_⟩
    · rintro ⟨_, current, known, same, _⟩
      exact exchanged.unknown _ unused known same
    · rintro ⟨current, known, exceeds⟩
      obtain ⟨later, laterStands, bound⟩ := exchanged.rises record.deploymentId current known
      obtain rfl := Option.some.inj (stands.symm.trans laterStands)
      exact absurd exceeds (Rank.epoch_le_of_le bound).not_gt
    · rintro _ ⟨current, known, buried, _, same⟩
      exact unburied current ⟨known, buried, same.symm⟩
  have rivalStorable : catalogStorable ∅ (rival record foreign.ownerNodeId fresh
      record.deploymentId record.ownerEpoch (record.revision + 1) .active) = true := by
    simp only [catalogStorable, rival, Bool.and_eq_true] at storable ⊢
    exact ⟨storable.1, room⟩
  have after := isolated.passes exchanged (rival record _ _ _ _ _ _) stored isForeign capacity rfl
    (rival_authentic authentic named nonempty deployment epoch (by omega)) rivalStorable
    (fun member => unused (List.mem_map.mpr ⟨_, member, rfl⟩)) passes
  refine after.lawful ?_ ⟨record, stands, tombstoned, by simp [rival], rfl⟩
  intro current known
  obtain rfl := Option.some.inj (stands.symm.trans known)
  exact Rank.of_lt_of.mpr (Or.inr ⟨rfl, Or.inl (Nat.lt_succ_self _)⟩)

omit named authentic in
/-- Every newly stored record of an isolated exchange is harmless. -/
theorem Isolated.harmless
    (newly : slotsOf store.catalog.winners record.deploymentId ≠ some record) :
    Harmless node (slotsOf store.catalog.winners) record := by
  have authentic : record.Authentic scope :=
    CatalogView.admits_of_run exchanged.afterSound.catalog.run record
      (exchanged.afterSound.catalog.logged stands)
  obtain ⟨deployment, foreignStands⟩ := mem_latestCatalog.mp stored
  have foreignAuthentic : foreign.Authentic scope :=
    CatalogView.admits_of_run exchanged.beforeSound.catalog.run foreign
      (exchanged.beforeSound.catalog.logged foreignStands)
  obtain ⟨_, _, _, _, _, named, _⟩ := CatalogRecord.validate_eq_ok_iff.mp foreignAuthentic.1
  refine ⟨?_, isolated.fence exchanged stored isForeign named capacity authentic storable
    stands, isolated.epoch exchanged stored isForeign named capacity authentic storable
    stands, isolated.tombstone exchanged stored isForeign named capacity authentic storable
    stands⟩
  intro current known
  by_contra other
  obtain ⟨slot, kept⟩ := mem_latestCatalog.mp
    (isolated.unchanged current (mem_latestCatalog.mpr ⟨_, known⟩) other)
  have same : current.deploymentId = record.deploymentId :=
    exchanged.beforeSound.catalog.keyed _ _ known
  obtain rfl : current.deploymentId = slot := exchanged.afterSound.catalog.keyed _ _ kept
  rw [same, stands] at kept
  exact newly (Option.some.inj kept ▸ known)

end Stored

end Necessity

/-- What an exchange does to a store that it reaches. -/
theorem Reaches.exchanged
    (reaches : Reaches hash identity peer usedBytes membership store batch taken final)
    (sound : store.Sound hash identity.scope)
    (unique : ∀ record, record ∈ store.catalogOperations ∨ record ∈ batch → ∀ other,
      hash.catalog other = hash.catalog record → other = record) :
    Exchanged hash identity.scope store final := by
  have injective : Set.InjOn hash.catalog
      {record | record ∈ store.catalogOperations ∨ record ∈ batch} :=
    fun left _ right present same => unique right present left same
  obtain ⟨winners, logged⟩ := reaches.overlays sound injective
  refine ⟨sound, reaches.sound, reaches.members, reaches.quota, ?_, ?_, ?_⟩
  · intro deployment current stands
    rw [winners]
    exact Rules.overlay_rises stands
  · exact fun record member => (logged record).mpr (Or.inl member)
  · intro record member
    exact unique record (((logged record).mp member).imp_right
      fun member => reaches.taken_subset member)

/-- The records that an exchange leaves newly stored, those taken before the first
refusal that are the latest of their deployments, are harmless; or no other
owner has a record. -/
def Confined
    (hash : ContentHash)
    (identity : NodeIdentity)
    (peer : SocketAddr)
    (usedBytes : ℕ → ℕ)
    (node : String)
    (store : AgentStore)
    (exchange : Exchange) : Prop :=
  (∃ foreign ∈ store.latestCatalog, foreign.ownerNodeId ≠ node) →
  exchange.validate identity = .ok () →
  ∀ membership, store.membershipView hash identity.scope = .ok membership →
  ∀ taken, store.catalog.TakesUpTo (peerRules hash identity peer membership) hash.catalog
    (catalogStorable ∅)
    (fun position => store.ensureReplicationCapacity (usedBytes position)) 0
    exchange.operations taken →
  ∀ record, store.standing hash taken record.deploymentId = some record →
    slotsOf store.catalog.winners record.deploymentId ≠ some record →
      Harmless node (slotsOf store.catalog.winners) record

/-- Winners that are all old or harmless leave the other owners isolated. -/
theorem Exchanged.isolated
    (exchanged : Exchanged hash scope store final)
    (harmless : (∃ foreign ∈ store.latestCatalog, foreign.ownerNodeId ≠ node) →
      ∀ record, slotsOf final.catalog.winners record.deploymentId = some record →
        slotsOf store.catalog.winners record.deploymentId ≠ some record →
          Harmless node (slotsOf store.catalog.winners) record) :
    Isolated hash scope node store final := by
  refine ⟨?_, ?_⟩
  · intro record stored isForeign
    obtain ⟨deployment, known⟩ := mem_latestCatalog.mp stored
    have keyed : record.deploymentId = deployment :=
      exchanged.beforeSound.catalog.keyed _ _ known
    obtain ⟨later, stands, _⟩ := exchanged.rises deployment record known
    have laterKeyed : later.deploymentId = deployment :=
      exchanged.afterSound.catalog.keyed _ _ stands
    by_cases same : later = record
    · exact mem_latestCatalog.mpr ⟨deployment, same ▸ stands⟩
    · have newly : slotsOf store.catalog.winners later.deploymentId ≠ some later := by
        rw [laterKeyed, known]
        exact fun equal => same (Option.some.inj equal).symm
      have owned := (harmless ⟨record, stored, isForeign⟩ later (laterKeyed ▸ stands)
        newly).owned record (laterKeyed ▸ known)
      exact absurd owned isForeign
  · intro record stored isForeign later owner used provenance accepted
    obtain ⟨membership, found, foundAfter⟩ := exchanged.views
    rw [exchanged.beforeSound.accepts_iff found] at accepted
    rw [exchanged.afterSound.accepts_iff foundAfter]
    rcases accepted with logged | ⟨capacity, accepts⟩
    · obtain ⟨other, member, same⟩ := List.mem_map.mp logged
      exact Or.inl (List.mem_map.mpr ⟨other, exchanged.logged member, same⟩)
    · refine Or.inr ⟨?_, accepts_of_harmless exchanged.rises
        (harmless ⟨record, stored, isForeign⟩) exchanged.afterSound.catalog.keyed ?_ accepts⟩
      · rw [ensureReplicationCapacity, exchanged.quota]
        exact capacity
      · intro verified
        have authentic := (CatalogRecord.verify_eq_ok_iff.mp verified).1
        exact (CatalogRecord.validate_eq_ok_iff.mp authentic.1).2.2.2.2.2.2.2.2

end AgentStore
end Agent
end Jiji
